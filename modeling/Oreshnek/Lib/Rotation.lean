import Mathlib.Data.List.Basic
import Mathlib.Logic.Function.Basic

/-!
# Rotation

A log written as a row of segments, of which numbered slots hold the newest: the one that is being
written is in slot 0, the one before it in slot 1, and so on up to a last slot. A rotation drops
what is in the last slot, moves the others up one by one, beginning with the highest, and leaves
slot 0 to a new segment (`Newest.rotate`). What the slots hold, taken from the last to slot 0, is
the end of the log (`Newest.flatMap_range`), and what they no longer hold is what the rotations
dropped (`reverse_drop_cons`).
-/

namespace Rotation

variable {β : Type*}

/-- What is in slot `i` is moved to slot `j`, over what is there; nothing where `i` is empty. -/
def move (slots : Nat → Option β) (i j : Nat) : Nat → Option β :=
  if (slots i).isSome then Function.update (Function.update slots i none) j (slots i) else slots

/-- Slots `n`, ..., 1 moved up by one, in this order. -/
def cascade (slots : Nat → Option β) : Nat → Nat → Option β
  | 0 => slots
  | n + 1 => cascade (move slots (n + 1) (n + 2)) n

/-- A rotation of the slots up to `n`. -/
def rotate (slots : Nat → Option β) (n : Nat) : Nat → Option β :=
  move (cascade (Function.update slots n none) (n - 1)) 0 1

/-- Into an empty slot, a move takes what is there. -/
theorem move_eq {slots : Nat → Option β} {i j : Nat} (hj : slots j = none) (k : Nat) :
    move slots i j k = if k = j then slots i else if k = i then none else slots k := by
  unfold move
  split
  · simp only [Function.update_apply]
  next hempty =>
    rw [Option.not_isSome_iff_eq_none] at hempty
    by_cases hkj : k = j
    · rw [if_pos hkj, hkj, hj, hempty]
    · by_cases hki : k = i
      · rw [if_neg hkj, if_pos hki, hki, hempty]
      · rw [if_neg hkj, if_neg hki]

/-- From the highest down, no move overwrites anything. -/
theorem cascade_eq {n : Nat} {slots : Nat → Option β} (hlast : slots (n + 1) = none) (k : Nat) :
    cascade slots n k =
      if k = 1 then none else if 1 < k ∧ k ≤ n + 1 then slots (k - 1) else slots k := by
  induction n generalizing slots with
  | zero =>
      by_cases h1 : k = 1
      · rw [if_pos h1, h1]
        exact hlast
      · rw [if_neg h1, if_neg (by omega)]
        rfl
  | succ n ih =>
      have hmove : ∀ k, move slots (n + 1) (n + 2) k =
          if k = n + 2 then slots (n + 1) else if k = n + 1 then none else slots k :=
        move_eq hlast
      have hfree : move slots (n + 1) (n + 2) (n + 1) = none := by
        rw [hmove, if_neg (by omega), if_pos rfl]
      unfold cascade
      rw [ih hfree]
      by_cases h1 : k = 1
      · rw [if_pos h1, if_pos h1]
      rw [if_neg h1, if_neg h1]
      -- the slot the move has filled, the ones it is still to come to, and the ones above
      rcases Nat.lt_trichotomy k (n + 2) with hlow | htop | hhigh
      · by_cases hin : 1 < k
        · rw [if_pos ⟨hin, by omega⟩, if_pos ⟨hin, by omega⟩, hmove, if_neg (by omega),
            if_neg (by omega)]
        · rw [if_neg (fun h => hin h.1), if_neg (fun h => hin h.1), hmove, if_neg (by omega),
            if_neg (by omega)]
      · rw [if_neg (by omega), if_pos ⟨by omega, by omega⟩, hmove, if_pos htop, htop]
        rfl
      · rw [if_neg (by omega), if_neg (by omega), hmove, if_neg (by omega), if_neg (by omega)]

/-- Every slot goes to the next one, and slot 0 is left empty. -/
theorem rotate_eq {n : Nat} (hn : 1 ≤ n) (slots : Nat → Option β) {k : Nat} (hk : k ≤ n) :
    rotate slots n k = if k = 0 then none else slots (k - 1) := by
  obtain ⟨m, rfl⟩ : ∃ m, n = m + 1 := ⟨n - 1, by omega⟩
  have hlast : Function.update slots (m + 1) none (m + 1) = none := Function.update_self ..
  have hshift := cascade_eq hlast
  have hfirst : cascade (Function.update slots (m + 1) none) m 1 = none := by
    rw [hshift, if_pos rfl]
  rw [rotate, Nat.add_sub_cancel, move_eq hfirst]
  match k with
  | 0 => rw [if_neg (by omega), if_pos rfl, if_pos rfl]
  | 1 =>
      -- what was in slot 0, which the slots above did not touch
      rw [if_pos rfl, if_neg (by omega), hshift, if_neg (by omega), if_neg (by omega),
        Function.update_of_ne (by omega)]
  | k + 2 =>
      rw [if_neg (by omega), if_neg (by omega), if_neg (by omega), hshift, if_neg (by omega),
        if_pos ⟨by omega, hk⟩, Function.update_of_ne (by omega)]

/-- The slots up to `n` hold the newest of the segments, given from the newest on. -/
def Newest (n : Nat) (segments : List β) (slots : Nat → Option β) : Prop :=
  ∀ k ≤ n, slots k = segments[k]?

namespace Newest

variable {n : Nat} {segments : List β} {slots : Nat → Option β}

/-- The segment in slot 0 is replaced. -/
theorem replace {old : β} (h : Newest n (old :: segments) slots) (new : β) :
    Newest n (new :: segments) (Function.update slots 0 (some new)) := by
  intro k hk
  cases k with
  | zero => rw [Function.update_self]; rfl
  | succ k =>
      rw [Function.update_of_ne (Nat.succ_ne_zero k), h (k + 1) hk]
      rfl

/-- A rotation makes room for a new segment. -/
theorem rotate (hn : 1 ≤ n) (h : Newest n segments slots) (new : β) :
    Newest n (new :: segments) (Function.update (rotate slots n) 0 (some new)) := by
  intro k hk
  cases k with
  | zero =>
      rw [Function.update_self]
      rfl
  | succ k =>
      rw [Function.update_of_ne (Nat.succ_ne_zero k), rotate_eq hn slots hk,
        if_neg (Nat.succ_ne_zero k), Nat.add_sub_cancel, h k (by omega)]
      rfl

end Newest

/-- What no slot holds any more, from the oldest on, is joined by what a rotation drops. -/
theorem reverse_drop_cons (n : Nat) (new : β) (segments : List β) :
    ((new :: segments).drop (n + 1)).reverse =
      (segments.drop (n + 1)).reverse ++ segments[n]?.toList := by
  rw [List.drop_succ_cons]
  cases hn : segments[n]? with
  | none =>
      rw [List.getElem?_eq_none_iff] at hn
      rw [List.drop_eq_nil_of_le hn, List.drop_eq_nil_of_le (by omega)]
      rfl
  | some dropped =>
      rw [List.getElem?_eq_some_iff] at hn
      obtain ⟨hlt, rfl⟩ := hn
      rw [List.drop_eq_getElem_cons hlt, List.reverse_cons]
      rfl

/-- The newest segments from the oldest of them on. -/
theorem flatMap_range {α : Type*} (n : Nat) (segments : List (List α)) :
    (List.range n).reverse.flatMap (fun k => (segments[k]?).getD []) =
      (segments.take n).reverse.flatten := by
  induction n with
  | zero => rfl
  | succ n ih =>
      rw [List.range_succ, List.reverse_append, List.flatMap_append, ih, List.take_add_one]
      cases hn : segments[n]? with
      | none => simp [hn]
      | some segment => simp [hn]

/-- A log is what its slots hold, behind what they no longer hold. -/
theorem flatten_reverse_split {α : Type*} (n : Nat) (segments : List (List α)) :
    segments.reverse.flatten =
      (segments.drop n).reverse.flatten ++ (segments.take n).reverse.flatten := by
  rw [← List.flatten_append, ← List.reverse_append, List.take_append_drop]

end Rotation
