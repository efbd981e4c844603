import Mathlib

/-!
# A list put together from pieces

A list that is not all there is a function from places to elements. Pieces of a list are
written where they belong, in any order and with any overlap, and what is there is then
always part of the list (`Of.write`). A piece that is the whole rest completes what has no
hole before it (`Of.write_front`).
-/

namespace Pieces

variable {A : Type*}

/-- Nothing is there yet. -/
def nothing : Nat → Option A := fun _ => none

/-- A piece goes to its place, over what stands there. -/
def write (c : Nat → Option A) (start : Nat) (piece : List A) : Nat → Option A := fun i =>
  if start ≤ i ∧ i < start + piece.length then piece[i - start]? else c i

/-- What is there is part of the list. -/
def Of (l : List A) (c : Nat → Option A) : Prop := ∀ i x, c i = some x → l[i]? = some x

/-- No hole before this place. -/
def Front (c : Nat → Option A) (n : Nat) : Prop := ∀ i < n, (c i).isSome = true

variable {l piece : List A} {c : Nat → Option A} {start n : Nat}

theorem of_nothing (l : List A) : Of l nothing := by
  intro i x h
  cases h

theorem getElem?_piece (hpiece : piece <+: l.drop start) {i : Nat} (hstart : start ≤ i)
    (hi : i < start + piece.length) : piece[i - start]? = l[i]? := by
  rcases hpiece with ⟨rest, hrest⟩
  have hin : i - start < piece.length := by omega
  have hplace : start + (i - start) = i := by omega
  rw [← hplace, ← List.getElem?_drop, ← hrest, List.getElem?_append_left (by omega), hplace]

/-- A piece at its own place keeps the whole right. -/
theorem Of.write (h : Of l c) (hpiece : piece <+: l.drop start) :
    Of l (Pieces.write c start piece) := by
  intro i x hx
  unfold Pieces.write at hx
  split at hx
  next hin =>
    rw [← getElem?_piece hpiece hin.1 hin.2]
    exact hx
  · exact h i x hx

/-- A place at which something is there agrees with the list, and so does one behind it. -/
theorem Of.eq_of_front (h : Of l c) (hfront : Front c n) {i : Nat}
    (hi : i < n ∨ l.length ≤ i) : c i = l[i]? := by
  cases hc : c i with
  | some x => exact (h i x hc).symm
  | none =>
      rcases hi with hi | hi
      · have hsome := hfront i hi
        rw [hc] at hsome
        cases hsome
      · exact (List.getElem?_eq_none hi).symm

/-- A piece behind the front makes it longer. -/
theorem Of.write_front (h : Of l c) (hfront : Front c start) (hpiece : piece <+: l.drop start)
    {i : Nat} (hi : i < start + piece.length ∨ l.length ≤ i) :
    Pieces.write c start piece i = l[i]? := by
  unfold Pieces.write
  split
  next hin => exact getElem?_piece hpiece hin.1 hin.2
  next hout =>
    apply h.eq_of_front hfront
    omega

end Pieces
