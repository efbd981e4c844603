import Mathlib

/-!
# Frames one behind the other

A reader takes one frame off the front of a list; what a frame looks like may depend on an
index, as the answer to a question does on the question. If the reader looks at nothing behind
its frame (`Local`), then from the front of a sequence of frames exactly those are read that
are there in full, each as it was written (`readMany_frames`). A further part may stand between
two texts of a sequence (`Spliced`); a reader that passes over it reads the same frames
(`readMany_spliced`).
-/

namespace Frames

variable {A B F I : Type*}

/-- A reader that is not misled by what follows. -/
def Local (read : List A → Option (B × List A)) : Prop :=
  ∀ p b rest, read p = some (b, rest) → ∀ q, read (p ++ q) = some (b, rest ++ q)

/-- One frame for each index, as long as there is one. -/
def readMany (read : I → List A → Option (B × List A)) : List I → List A → List B × List A
  | [], l => ([], l)
  | i :: is, l =>
      match read i l with
      | none => ([], l)
      | some (b, rest) => (b :: (readMany read is rest).1, (readMany read is rest).2)

variable {read : I → List A → Option (B × List A)}

theorem readMany_none {i : I} {l : List A} (h : read i l = none) (is : List I) :
    readMany read (i :: is) l = ([], l) := by
  unfold readMany
  rw [h]

theorem readMany_some {i : I} {l rest : List A} {b : B} (h : read i l = some (b, rest))
    (is : List I) :
    readMany read (i :: is) l = (b :: (readMany read is rest).1, (readMany read is rest).2) := by
  rw [readMany, h]

/-- A part of a frame is not taken for one. -/
theorem Local.none_of_part {r : List A → Option (B × List A)} (hlocal : Local r) {w p : List A}
    {b : B} (hw : r w = some (b, [])) (hp : p <+: w) (hne : p ≠ w) : r p = none := by
  rcases hp with ⟨q, rfl⟩
  cases hr : r p with
  | none => rfl
  | some x =>
      rcases x with ⟨b', rest⟩
      have hwhole := hlocal p b' rest hr q
      rw [hw] at hwhole
      have hq : rest ++ q = [] := (congrArg Prod.snd (Option.some.inj hwhole)).symm
      rw [(List.append_eq_nil_iff.1 hq).2, List.append_nil] at hne
      exact absurd rfl hne

/-- How the frames are written, and what is to be read of each. -/
structure Written (read : I → List A → Option (B × List A)) (index : F → I) (text : F → List A)
    (value : F → B) (frames : List F) : Prop where
  reads : ∀ f ∈ frames, ∀ q, read (index f) (text f ++ q) = some (value f, q)
  isLocal : ∀ f ∈ frames, Local (read (index f))
  empty : ∀ i, read i [] = none

variable {index : F → I} {text : F → List A} {value : F → B}

theorem Written.tail {f : F} {frames : List F} (h : Written read index text value (f :: frames)) :
    Written read index text value frames where
  reads g hg := h.reads g (List.mem_cons_of_mem _ hg)
  isLocal g hg := h.isLocal g (List.mem_cons_of_mem _ hg)
  empty := h.empty

/-- A front of a text and more that has not got the whole text is a part of it. -/
theorem part_of_front {l w tail : List A} (hl : l <+: w ++ tail) (hshort : ¬ w <+: l) :
    l <+: w := by
  rcases List.prefix_or_prefix_of_prefix hl (List.prefix_append _ _) with hpart | hwhole
  · exact hpart
  · exact absurd hwhole hshort

theorem Written.none_of_part {frames : List F} (h : Written read index text value frames) {f : F}
    (hf : f ∈ frames) {p : List A} (hp : p <+: text f) (hne : p ≠ text f) :
    read (index f) p = none := by
  have hw := h.reads f hf []
  rw [List.append_nil] at hw
  exact (h.isLocal f hf).none_of_part hw hp hne

/-- **Reading frames.** Of the front of a sequence of frames those are read that are there in
full and have an index, and no other; what is left is behind them. -/
theorem readMany_frames {frames : List F} (h : Written read index text value frames)
    {l : List A} (hl : l <+: frames.flatMap text) {is : List I}
    (hindex : ∀ p ∈ frames.zip is, p.2 = index p.1) :
    ∃ k, k ≤ frames.length ∧ k ≤ is.length ∧
      (readMany read is l).1 = (frames.take k).map value ∧
      (frames.take k).flatMap text ++ (readMany read is l).2 = l ∧
      ∀ j, j ≤ frames.length → j ≤ is.length → (frames.take j).flatMap text <+: l → j ≤ k := by
  induction frames generalizing l is with
  | nil =>
      have hnil : l = [] := List.prefix_nil.1 hl
      rw [hnil]
      refine ⟨0, Nat.le_refl _, Nat.zero_le _, ?_, ?_, fun j hj _ _ => hj⟩
      · cases is with
        | nil => rfl
        | cons i is => exact congrArg Prod.fst (readMany_none (h.empty i) is)
      · cases is with
        | nil => rfl
        | cons i is => exact congrArg Prod.snd (readMany_none (h.empty i) is)
  | cons f frames ih =>
      cases is with
      | nil => exact ⟨0, Nat.zero_le _, Nat.le_refl _, rfl, rfl, fun j _ hj _ => hj⟩
      | cons i is =>
          have hi : i = index f := hindex (f, i) List.mem_cons_self
          subst hi
          rw [List.flatMap_cons] at hl
          by_cases hfull : text f <+: l
          · -- the first frame is there
            rcases hfull with ⟨rest, rfl⟩
            rcases ih h.tail ((List.prefix_append_right_inj _).1 hl)
              (fun p hp => hindex p (List.mem_cons_of_mem _ hp)) with
              ⟨k, hk, hki, hread, hleft, hmost⟩
            rw [readMany_some (h.reads f List.mem_cons_self rest)]
            refine ⟨k + 1, Nat.succ_le_succ hk, Nat.succ_le_succ hki, ?_, ?_, ?_⟩
            · rw [List.take_succ_cons, List.map_cons, hread]
            · rw [List.take_succ_cons, List.flatMap_cons, List.append_assoc, hleft]
            · intro j hj hji hfront
              cases j with
              | zero => exact Nat.zero_le _
              | succ j =>
                  rw [List.take_succ_cons, List.flatMap_cons] at hfront
                  exact Nat.succ_le_succ (hmost j (Nat.le_of_succ_le_succ hj)
                    (Nat.le_of_succ_le_succ hji) ((List.prefix_append_right_inj _).1 hfront))
          · -- it is not, and what there is of it is not taken for it
            rw [readMany_none (h.none_of_part List.mem_cons_self (part_of_front hl hfull)
              fun heq => hfull (heq ▸ List.prefix_rfl))]
            refine ⟨0, Nat.zero_le _, Nat.zero_le _, rfl, rfl, ?_⟩
            intro j hj hji hfront
            cases j with
            | zero => exact Nat.le_refl _
            | succ j =>
                rw [List.take_succ_cons, List.flatMap_cons] at hfront
                exact absurd ((List.prefix_append _ _).trans hfront) hfull

/-! ## A further part between the texts -/

/-- `sent` is `main` with at most one of these parts in it, behind as many of the texts as the
list of places says. -/
inductive Spliced (parts : List A → Prop) (texts : List (List A)) :
    List Nat → List A → List A → Prop where
  | plain (main : List A) : Spliced parts texts [] main main
  | placed (k : Nat) (part rest : List A) (hk : k ≤ texts.length) (hpart : parts part) :
      Spliced parts texts [k] ((texts.take k).flatten ++ rest)
        ((texts.take k).flatten ++ (part ++ rest))

namespace Spliced

variable {parts parts' : List A → Prop} {main sent : List A} {texts : List (List A)}
  {places : List Nat}

/-- More of the texts follows. -/
theorem append (h : Spliced parts texts places main sent) (more : List A) :
    Spliced parts texts places (main ++ more) (sent ++ more) := by
  cases h with
  | plain => exact .plain _
  | placed k part rest hk hpart =>
      rw [List.append_assoc, List.append_assoc, List.append_assoc]
      exact .placed k part (rest ++ more) hk hpart

/-- A further text is known. -/
theorem extend (h : Spliced parts texts places main sent) (text : List A) :
    Spliced parts (texts ++ [text]) places main sent := by
  cases h with
  | plain => exact .plain _
  | placed k part rest hk hpart =>
      have hfront : texts.take k = (texts ++ [text]).take k :=
        (List.take_append_of_le_length hk).symm
      have hlonger : k ≤ (texts ++ [text]).length := by
        rw [List.length_append]
        omega
      rw [hfront]
      exact .placed k part rest hlonger hpart

/-- The part is sent behind all of the texts. -/
theorem put (h : Spliced parts texts [] texts.flatten sent) {part : List A} (hpart : parts part) :
    Spliced parts texts [texts.length] texts.flatten (sent ++ part) := by
  cases h with
  | plain =>
      have hplaced : Spliced parts texts [texts.length]
          ((texts.take texts.length).flatten ++ [])
          ((texts.take texts.length).flatten ++ (part ++ [])) := .placed _ part [] le_rfl hpart
      rw [List.take_length, List.append_nil, List.append_nil] at hplaced
      exact hplaced

end Spliced

/-! ## Reading over a part -/

variable {extra : List A}

/-- A reader that passes over `extra` reads the same behind it. -/
theorem readMany_behind {frames : List F} (h : Written read index text value frames)
    (hover : Written read index (fun f => extra ++ text f) value frames)
    (hextra : ∀ i, read i extra = none) {rest : List A} (hrest : rest <+: frames.flatMap text)
    {is : List I} (hindex : ∀ p ∈ frames.zip is, p.2 = index p.1) :
    (readMany read is (extra ++ rest)).1 = (readMany read is rest).1 ∧
      (0 < (readMany read is rest).1.length →
        (readMany read is (extra ++ rest)).2 = (readMany read is rest).2) := by
  cases is with
  | nil => exact ⟨rfl, fun hless => absurd hless (Nat.lt_irrefl 0)⟩
  | cons i is =>
      cases frames with
      | nil =>
          have hnil : rest = [] := List.prefix_nil.1 hrest
          rw [hnil, List.append_nil, readMany_none (hextra i), readMany_none (h.empty i)]
          exact ⟨rfl, fun hless => absurd hless (Nat.lt_irrefl 0)⟩
      | cons f frames =>
          have hi : i = index f := hindex (f, i) List.mem_cons_self
          subst hi
          rw [List.flatMap_cons] at hrest
          by_cases hfull : text f <+: rest
          · -- the frame behind the part is there
            rcases hfull with ⟨q, rfl⟩
            have hpassed := hover.reads f List.mem_cons_self q
            rw [List.append_assoc] at hpassed
            rw [readMany_some hpassed, readMany_some (h.reads f List.mem_cons_self q)]
            exact ⟨rfl, fun _ => rfl⟩
          · -- it is not, and with the part in front it is not either
            have hne : rest ≠ text f := fun heq => hfull (heq ▸ List.prefix_rfl)
            have hpart := part_of_front hrest hfull
            rw [readMany_none (hover.none_of_part List.mem_cons_self
                ((List.prefix_append_right_inj _).2 hpart) fun heq =>
                  hne (List.append_cancel_left heq)),
              readMany_none (h.none_of_part List.mem_cons_self hpart hne)]
            exact ⟨rfl, fun hless => absurd hless (Nat.lt_irrefl 0)⟩

/-- So it does when the part stands behind the first `k` frames; what is left is the same if a
frame is read behind the part. -/
theorem readMany_over {frames : List F} (h : Written read index text value frames)
    (hover : Written read index (fun f => extra ++ text f) value frames)
    (hextra : ∀ i, read i extra = none) {k : Nat} (hk : k ≤ frames.length) {rest : List A}
    (hrest : rest <+: (frames.drop k).flatMap text) {is : List I}
    (hindex : ∀ p ∈ frames.zip is, p.2 = index p.1) :
    (readMany read is ((frames.take k).flatMap text ++ (extra ++ rest))).1 =
        (readMany read is ((frames.take k).flatMap text ++ rest)).1 ∧
      (k < (readMany read is ((frames.take k).flatMap text ++ rest)).1.length →
        (readMany read is ((frames.take k).flatMap text ++ (extra ++ rest))).2 =
          (readMany read is ((frames.take k).flatMap text ++ rest)).2) := by
  induction k generalizing frames is with
  | zero => exact readMany_behind h hover hextra hrest hindex
  | succ k ih =>
      cases frames with
      | nil => exact absurd hk (Nat.not_succ_le_zero k)
      | cons f frames =>
          cases is with
          | nil => exact ⟨rfl, fun hless => absurd hless (Nat.not_lt_zero _)⟩
          | cons i is =>
              have hi : i = index f := hindex (f, i) List.mem_cons_self
              subst hi
              rcases ih h.tail hover.tail (Nat.le_of_succ_le_succ hk) hrest
                (fun p hp => hindex p (List.mem_cons_of_mem _ hp)) with ⟨hread, hleft⟩
              rw [List.take_succ_cons, List.flatMap_cons, List.append_assoc, List.append_assoc,
                readMany_some (h.reads f List.mem_cons_self _),
                readMany_some (h.reads f List.mem_cons_self _)]
              exact ⟨congrArg (value f :: ·) hread,
                fun hless => hleft (Nat.lt_of_succ_lt_succ hless)⟩

/-- **Reading over a part.** What a reader that passes over `extra` makes of the front of a
sequence of frames does not depend on whether `extra` stands in it. -/
theorem readMany_spliced {frames : List F} (h : Written read index text value frames)
    (hover : Written read index (fun f => extra ++ text f) value frames)
    (hextra : ∀ i, read i extra = none) {places : List Nat} {main sent : List A}
    (hspliced : Spliced (fun part => part = [] ∨ part = extra) (frames.map text) places main sent)
    (hmain : main <+: frames.flatMap text) {is : List I}
    (hindex : ∀ p ∈ frames.zip is, p.2 = index p.1) :
    (readMany read is sent).1 = (readMany read is main).1 ∧
      ((∀ k ∈ places, k < (readMany read is main).1.length) →
        (readMany read is sent).2 = (readMany read is main).2) := by
  cases hspliced with
  | plain => exact ⟨rfl, fun _ => rfl⟩
  | placed k part rest hk hpart =>
      rcases hpart with rfl | rfl
      · exact ⟨rfl, fun _ => rfl⟩
      · have hfront : ((frames.map text).take k).flatten = (frames.take k).flatMap text := by
          rw [← List.map_take]
          rfl
        rw [List.length_map] at hk
        rw [hfront] at hmain ⊢
        have hrest : rest <+: (frames.drop k).flatMap text := by
          rw [← List.take_append_drop k frames, List.flatMap_append,
            List.take_append_drop] at hmain
          exact (List.prefix_append_right_inj _).1 hmain
        rcases readMany_over h hover hextra hk hrest hindex with ⟨hread, hleft⟩
        exact ⟨hread, fun hplaces => hleft (hplaces k List.mem_cons_self)⟩

end Frames
