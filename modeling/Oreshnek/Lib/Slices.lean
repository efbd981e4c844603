import Mathlib

/-!
# Slices of blocks

A memory is a family of blocks, each of which may be gone. A slice points into a
block; what it shows is read from the memory, so that a slice outlives neither
its block nor the contents it was taken from. `Stands b c s x` says that `s`
shows `x` in every memory where the block `b` holds `c`: it is what a pointer
keeps when other blocks change, and what it gains when the block is copied and
the slice rebased to the copy. A `SliceMap` is keyed by what its key slices show.
-/

namespace Blocks

variable {B A : Type*}

/-- The contents of every block that is there. -/
abbrev Memory (B A : Type*) := B → Option (List A)

/-- A view of part of a block. Without a block it points nowhere. -/
structure Slice (B : Type*) where
  block : Option B
  offset : Nat
  length : Nat
deriving DecidableEq, Repr

namespace Slice

/-- What a slice shows (`none`: it dangles). An empty one is never followed. -/
def read (m : Memory B A) (s : Slice B) : Option (List A) :=
  if s.length = 0 then some []
  else
    (s.block.bind m).bind fun c =>
      if s.offset + s.length ≤ c.length then some ((c.drop s.offset).take s.length) else none

/-- The same place in another block. A slice that is not in `old` is lost. -/
def rebase [DecidableEq B] (old new : B) (s : Slice B) : Slice B :=
  { s with block := s.block.bind fun b => if b = old then some new else none }

end Slice

/-! ## What a slice stands for -/

/-- The slice shows `x` wherever the block `b` holds `c`. -/
structure Stands (b : B) (c : List A) (s : Slice B) (x : List A) : Prop where
  length : s.length = x.length
  place : x ≠ [] → s.block = some b ∧ x <+: c.drop s.offset

namespace Stands

variable {b : B} {c x : List A} {s : Slice B}

/-- A slice that stands reads its text. -/
theorem read {m : Memory B A} (h : Stands b c s x) (hm : m b = some c) : s.read m = some x := by
  unfold Slice.read
  by_cases hnil : x = []
  · have hzero : s.length = 0 := by rw [h.length, hnil]; rfl
    rw [if_pos hzero, hnil]
  · have hpos : s.length ≠ 0 := by
      rw [h.length]
      exact fun hzero => hnil (List.length_eq_zero_iff.1 hzero)
    rcases h.place hnil with ⟨hblock, hleads⟩
    have hle := hleads.length_le
    rw [List.length_drop, ← h.length] at hle
    rw [if_neg hpos, hblock, Option.bind_some, hm, Option.bind_some, if_pos (by omega), h.length]
    exact congrArg some (List.prefix_iff_eq_take.1 hleads).symm

/-- An empty slice shows nothing, wherever it points. -/
theorem empty (b : B) (c : List A) {s : Slice B} (h : s.length = 0) : Stands b c s [] :=
  ⟨h, fun hne => absurd rfl hne⟩

/-- A slice of an empty block is empty. -/
theorem nil_of_nil (h : Stands b ([] : List A) s x) : x = [] := by
  by_contra hne
  have hleads := (h.place hne).2
  rw [List.drop_nil] at hleads
  exact hne (List.prefix_nil.1 hleads)

/-- A slice of an empty block stands for the same in any block. -/
theorem anywhere (h : Stands b c s x) (hc : c = []) (new : B) : Stands new c s x := by
  subst hc
  obtain rfl := h.nil_of_nil
  exact Stands.empty new [] h.length

/-- Rebased to a block with the same contents, the slice shows the same. -/
theorem rebase [DecidableEq B] (h : Stands b c s x) (new : B) :
    Stands new c (s.rebase b new) x := by
  refine ⟨h.length, ?_⟩
  intro hne
  rcases h.place hne with ⟨hblock, hleads⟩
  refine ⟨?_, hleads⟩
  unfold Slice.rebase
  rw [hblock]
  exact if_pos rfl

/-- Part of a slice stands for the same part of what it shows. -/
theorem part (h : Stands b c s x) {offset length : Nat} (hle : offset + length ≤ x.length) :
    Stands b c ⟨s.block, s.offset + offset, length⟩ ((x.drop offset).take length) := by
  constructor
  · rw [List.length_take, List.length_drop]
    show length = _
    omega
  · intro hne
    have hx : x ≠ [] := by
      rintro rfl
      exact hne (by simp)
    rcases h.place hx with ⟨hblock, tail, htail⟩
    refine ⟨hblock, (List.take_prefix _ _).trans ⟨tail, ?_⟩⟩
    show x.drop offset ++ tail = c.drop (s.offset + offset)
    rw [← List.drop_drop, ← htail, List.drop_append_of_le_length (by omega)]

end Stands

/-! ## Maps -/

/-- A map with slices for keys and values. -/
abbrev SliceMap (B : Type*) := List (Slice B × Slice B)

namespace SliceMap

/-- The value of the first key that shows `name`. -/
def find [DecidableEq A] (m : Memory B A) (map : SliceMap B) (name : List A) :
    Option (Option (List A)) :=
  (List.find? (fun e => e.1.read m = some name) map).map fun e => e.2.read m

/-- The map built anew with its slices rebased; of keys that show the same the
first is kept. -/
def rebase [DecidableEq B] [DecidableEq A] (m : Memory B A) (old new : B) (map : SliceMap B) :
    SliceMap B :=
  List.foldl
    (fun rebuilt e =>
      if rebuilt.any fun e' => e'.1.read m = (e.1.rebase old new).read m then rebuilt
      else rebuilt ++ [(e.1.rebase old new, e.2.rebase old new)]) [] map

end SliceMap

/-- The entries of the map stand for those of `l`. -/
def MapStands (b : B) (c : List A) (map : SliceMap B) (l : List (List A × List A)) : Prop :=
  List.Forall₂ (fun e x => Stands b c e.1 x.1 ∧ Stands b c e.2 x.2) map l

namespace MapStands

variable {b : B} {c : List A} {map : SliceMap B} {l : List (List A × List A)}

/-- A lookup in a map of slices finds what the map of texts holds. -/
theorem find [DecidableEq A] {m : Memory B A} (h : MapStands b c map l) (hm : m b = some c)
    (name : List A) :
    map.find m name = (l.find? fun x => x.1 = name).map fun x => some x.2 := by
  unfold SliceMap.find
  induction h with
  | nil => rfl
  | @cons e x map l hentry hrest ih =>
      have hkey := hentry.1.read hm
      have hvalue := hentry.2.read hm
      rw [List.find?_cons, List.find?_cons]
      by_cases hname : x.1 = name
      · have hfound : decide (e.1.read m = some name) = true := by simp [hkey, hname]
        simp only [hfound, decide_eq_true hname, Option.map_some, hvalue]
      · have hother : decide (e.1.read m = some name) = false := by simp [hkey, hname]
        simp only [hother, decide_eq_false hname, ih]

/-- A map with distinct keys is built anew as it was. -/
theorem rebase [DecidableEq B] [DecidableEq A] {m : Memory B A} (h : MapStands b c map l)
    (hkeys : (l.map Prod.fst).Nodup) {new : B} (hm : m new = some c) :
    MapStands new c (map.rebase m b new) l := by
  have hfold : ∀ (built : SliceMap B) (done : List (List A × List A)),
      MapStands new c built done → ((done ++ l).map Prod.fst).Nodup →
      MapStands new c (List.foldl
        (fun rebuilt e =>
          if rebuilt.any fun e' => e'.1.read m = (e.1.rebase b new).read m then rebuilt
          else rebuilt ++ [(e.1.rebase b new, e.2.rebase b new)]) built map) (done ++ l) := by
    clear hkeys
    induction h with
    | nil =>
        intro built done hbuilt _
        rw [List.append_nil]
        exact hbuilt
    | @cons e x map l hentry hrest ih =>
        intro built done hbuilt hnodup
        have hkey := (hentry.1.rebase new).read hm
        -- the key is not among those already there
        have hfresh : ¬ (built.any fun e' => e'.1.read m = (e.1.rebase b new).read m) = true := by
          rw [List.any_eq_true]
          rintro ⟨e', he', hsame⟩
          rcases List.mem_iff_getElem.1 he' with ⟨i, hi, hget⟩
          have hlen := List.Forall₂.length_eq hbuilt
          have hi' : i < done.length := hlen ▸ hi
          have hold := (List.Forall₂.get hbuilt hi hi').1.read hm
          rw [decide_eq_true_eq, hkey] at hsame
          rw [List.get_eq_getElem, hget, hsame] at hold
          rw [List.map_append, List.nodup_append] at hnodup
          refine hnodup.2.2 (done[i]).1 (List.mem_map_of_mem (List.getElem_mem hi')) x.1
            (List.mem_map_of_mem List.mem_cons_self) ?_
          exact (Option.some.inj hold).symm
        have hsplit : done ++ x :: l = (done ++ [x]) ++ l := by simp
        rw [List.foldl_cons, if_neg hfresh, hsplit]
        refine ih _ _ ?_ (by rwa [← hsplit])
        exact List.rel_append hbuilt
          (List.Forall₂.cons ⟨hentry.1.rebase new, hentry.2.rebase new⟩ List.Forall₂.nil)
  exact hfold [] [] List.Forall₂.nil hkeys

end MapStands

end Blocks
