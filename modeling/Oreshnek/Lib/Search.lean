import Mathlib

/-!
# First occurrence of a pattern in a list

`find pat l` is the position of the first occurrence of `pat` in `l`, the
meaning of `find` on strings. The lemmas say when a position is the first one,
that appending to the list moves nothing that was found, and that for an
unbordered delimiter (no proper suffix of it is a prefix of it, so two
occurrences never overlap) cutting `line ++ pat ++ rest` at the first
occurrence gives `line` and `rest` back.
-/

namespace Search

variable {α : Type*} [DecidableEq α]

/-- Position of the first occurrence of `pat`. -/
def find (pat : List α) : List α → Option Nat
  | [] => if pat.isEmpty then some 0 else none
  | a :: t => if pat.isPrefixOf (a :: t) then some 0 else (find pat t).map (· + 1)

/-- A pattern two occurrences of which never overlap. -/
def Unbordered (pat : List α) : Prop :=
  ∀ k, 0 < k → k < pat.length → ¬ pat.drop k <+: pat

omit [DecidableEq α] in
/-- A single symbol is unbordered. -/
theorem unbordered_singleton (a : α) : Unbordered [a] := by
  intro k hpos hlt
  simp at hlt
  omega

omit [DecidableEq α] in
/-- A pattern that begins with a symbol it does not hold again is unbordered. -/
theorem unbordered_cons {a : α} {pat : List α} (h : a ∉ pat) : Unbordered (a :: pat) := by
  intro k hpos hlt hpre
  obtain ⟨j, rfl⟩ := Nat.exists_eq_add_of_lt hpos
  have hdrop : (a :: pat).drop (0 + j + 1) = pat.drop j := by simp
  rw [hdrop] at hpre
  cases htail : pat.drop j with
  | nil =>
      have hle := List.drop_eq_nil_iff.1 htail
      rw [List.length_cons] at hlt
      omega
  | cons b t =>
      -- the suffix would have to begin with `a`
      rw [htail, List.cons_prefix_cons] at hpre
      have hmem : a ∈ pat.drop j := by
        rw [htail, hpre.1]
        exact List.mem_cons_self
      exact h (List.mem_of_mem_drop hmem)

theorem find_cons_hit {pat : List α} {a : α} {t : List α} (h : pat <+: a :: t) :
    find pat (a :: t) = some 0 := by
  have : pat.isPrefixOf (a :: t) = true := List.isPrefixOf_iff_prefix.2 h
  simp [find, this]

theorem find_cons_miss {pat : List α} {a : α} {t : List α} (h : ¬ pat <+: a :: t) :
    find pat (a :: t) = (find pat t).map (· + 1) := by
  have : ¬ pat.isPrefixOf (a :: t) = true := fun hp => h (List.isPrefixOf_iff_prefix.1 hp)
  simp [find, this]

/-- `find` returns a position exactly when the pattern is there and nowhere
earlier. -/
theorem find_eq_some_iff {pat l : List α} {i : Nat} :
    find pat l = some i ↔
      i ≤ l.length ∧ pat <+: l.drop i ∧ ∀ j < i, ¬ pat <+: l.drop j := by
  induction l generalizing i with
  | nil =>
      cases pat with
      | nil =>
          simp only [find, List.isEmpty_nil, if_true, Option.some.injEq, List.length_nil,
            Nat.le_zero, List.nil_prefix, not_true_eq_false, imp_false, true_and]
          constructor
          · rintro rfl
            exact ⟨rfl, fun j => Nat.not_lt_zero j⟩
          · rintro ⟨h, _⟩
            exact h.symm
      | cons p ps => simp [find]
  | cons a t ih =>
      by_cases hp : pat <+: a :: t
      · rw [find_cons_hit hp]
        constructor
        · intro h
          obtain rfl : 0 = i := by simpa using h
          exact ⟨Nat.zero_le _, hp, by simp⟩
        · rintro ⟨_, _, hmin⟩
          rcases Nat.eq_zero_or_pos i with h0 | hpos
          · rw [h0]
          · exact absurd hp (hmin 0 hpos)
      · rw [find_cons_miss hp]
        cases i with
        | zero =>
            have hmap : (find pat t).map (· + 1) ≠ some 0 := by simp
            exact iff_of_false hmap fun h => hp h.2.1
        | succ i =>
            have hmap : (find pat t).map (· + 1) = some (i + 1) ↔ find pat t = some i := by
              simp
            rw [hmap, ih]
            simp only [List.length_cons, List.drop_succ_cons, Nat.add_le_add_iff_right]
            refine and_congr_right fun _ => and_congr_right fun _ => ?_
            constructor
            · intro h j hj
              cases j with
              | zero => exact hp
              | succ j => exact h j (by omega)
            · intro h j hj
              exact h (j + 1) (by omega)

/-- `find` returns nothing exactly when the pattern does not occur. -/
theorem find_eq_none_iff {pat l : List α} : find pat l = none ↔ ¬ pat <:+: l := by
  induction l with
  | nil =>
      cases pat with
      | nil => simp [find]
      | cons p ps => simp [find]
  | cons a t ih =>
      rw [List.infix_cons_iff]
      by_cases hp : pat <+: a :: t
      · simp [find_cons_hit hp, hp]
      · rw [find_cons_miss hp, Option.map_eq_none_iff, ih]
        simp [hp]

/-- A pattern that occurs is found. -/
theorem exists_find {pat l : List α} (h : pat <:+: l) : ∃ i, find pat l = some i := by
  cases hfind : find pat l with
  | none => exact absurd h (find_eq_none_iff.1 hfind)
  | some i => exact ⟨i, rfl⟩

/-- A pattern that is found occurs. -/
theorem infix_of_find {pat l : List α} {i : Nat} (h : find pat l = some i) : pat <:+: l := by
  obtain ⟨-, hp, -⟩ := find_eq_some_iff.1 h
  exact hp.isInfix.trans (List.drop_suffix i l).isInfix

/-- The pattern found lies inside the list. -/
theorem find_add_length_le {pat l : List α} {i : Nat} (h : find pat l = some i) :
    i + pat.length ≤ l.length := by
  obtain ⟨hi, hp, _⟩ := find_eq_some_iff.1 h
  have := hp.length_le
  rw [List.length_drop] at this
  omega

/-- What is found splits the list at the pattern. -/
theorem find_split {pat l : List α} {i : Nat} (h : find pat l = some i) :
    l = l.take i ++ pat ++ l.drop (i + pat.length) := by
  obtain ⟨_, ⟨t, ht⟩, _⟩ := find_eq_some_iff.1 h
  have htail : l.drop (i + pat.length) = t := by
    rw [← List.drop_drop, ← ht]
    simp
  rw [htail, List.append_assoc, ht, List.take_append_drop]

/-- The part before the pattern does not contain it. -/
theorem not_infix_of_find_take {pat l : List α} {i : Nat} (h : find pat l = some i)
    (hne : pat ≠ []) : ¬ pat <:+: l.take i := by
  obtain ⟨hi, _, hmin⟩ := find_eq_some_iff.1 h
  rintro ⟨s, t, hst⟩
  have hlen : s.length + pat.length + t.length = i := by
    have := congrArg List.length hst
    simp only [List.length_append, List.length_take] at this
    omega
  have hpos : 0 < pat.length := List.length_pos_iff.2 hne
  refine hmin s.length (by omega) ?_
  have hl : l = s ++ (pat ++ (t ++ l.drop i)) := by
    conv_lhs => rw [← List.take_append_drop i l, ← hst]
    simp
  rw [hl, List.drop_left]
  exact List.prefix_append _ _

/-- More data after the list moves nothing that was found. -/
theorem find_append {pat l : List α} {i : Nat} (h : find pat l = some i) (r : List α) :
    find pat (l ++ r) = some i := by
  have hlen := find_add_length_le h
  obtain ⟨hi, hp, hmin⟩ := find_eq_some_iff.1 h
  refine find_eq_some_iff.2 ⟨by simp; omega, ?_, ?_⟩
  · rw [List.drop_append_of_le_length hi]
    exact hp.trans (List.prefix_append _ _)
  · intro j hj hpre
    refine hmin j hj ?_
    rw [List.drop_append_of_le_length (by omega)] at hpre
    refine List.prefix_of_prefix_length_le hpre (List.prefix_append _ _) ?_
    rw [List.length_drop]
    omega

/-- Nor does cutting the list behind what was found. -/
theorem find_shorten {pat l l' : List α} {i : Nat} (h : find pat l = some i) (hpre : l' <+: l)
    (hlen : i + pat.length ≤ l'.length) : find pat l' = some i := by
  obtain ⟨r, rfl⟩ := hpre
  have hin : pat <:+: l' := by
    obtain ⟨hi, hp, -⟩ := find_eq_some_iff.1 h
    rw [List.drop_append_of_le_length (by omega)] at hp
    have hshort : pat <+: l'.drop i :=
      List.prefix_of_prefix_length_le hp (List.prefix_append _ _) (by rw [List.length_drop]; omega)
    exact hshort.isInfix.trans (List.drop_suffix i l').isInfix
  obtain ⟨j, hj⟩ := exists_find hin
  rw [hj, ← h, find_append hj r]

/-- Nor does leaving out what stands before it. -/
theorem find_drop {pat l : List α} {i j : Nat} (h : find pat l = some i) (hj : j ≤ i) :
    find pat (l.drop j) = some (i - j) := by
  obtain ⟨hi, hp, hmin⟩ := find_eq_some_iff.1 h
  refine find_eq_some_iff.2 ⟨?_, ?_, fun k hk hpre => ?_⟩
  · rw [List.length_drop]
    omega
  · rw [List.drop_drop, Nat.add_sub_cancel' hj]
    exact hp
  · rw [List.drop_drop] at hpre
    exact hmin (j + k) (by omega) hpre

/-- A pattern is found at its first place, no later than at a given one. -/
theorem find_le_of_append (pat a b : List α) :
    ∃ i, find pat (a ++ (pat ++ b)) = some i ∧ i ≤ a.length := by
  have hin : pat <:+: a ++ (pat ++ b) := ⟨a, b, by simp⟩
  obtain ⟨i, h⟩ := exists_find hin
  refine ⟨i, h, ?_⟩
  by_contra hlt
  obtain ⟨_, _, hmin⟩ := find_eq_some_iff.1 h
  refine hmin a.length (Nat.lt_of_not_le hlt) ?_
  rw [List.drop_left]
  exact List.prefix_append _ _

/-- Cutting at an unbordered delimiter: `line` free of the delimiter is
exactly what comes before its first occurrence. -/
theorem find_delim {pat line : List α} (hub : Unbordered pat)
    (hline : ¬ pat <:+: line) (rest : List α) :
    find pat (line ++ pat ++ rest) = some line.length := by
  refine find_append ?_ rest
  refine find_eq_some_iff.2 ⟨by simp, by simp, ?_⟩
  intro j hj hpre
  rw [List.drop_append_of_le_length (Nat.le_of_lt hj)] at hpre
  by_cases hfit : pat.length ≤ (line.drop j).length
  · -- the occurrence lies inside `line`
    have hin : pat <+: line.drop j :=
      List.prefix_of_prefix_length_le hpre (List.prefix_append _ _) hfit
    exact hline (hin.isInfix.trans (List.drop_suffix j line).isInfix)
  · -- it overlaps the delimiter: a proper suffix of `pat` is a prefix of `pat`
    have hk : (line.drop j).length < pat.length := by omega
    have hpos : 0 < (line.drop j).length := by rw [List.length_drop]; omega
    obtain ⟨t, ht⟩ := hpre
    have hdrop : pat.drop (line.drop j).length ++ t = pat := by
      have := congrArg (List.drop (line.drop j).length) ht
      rw [List.drop_append_of_le_length (Nat.le_of_lt hk), List.drop_left] at this
      exact this
    exact hub _ hpos hk ⟨t, hdrop⟩

omit [DecidableEq α] in
/-- Two occurrences of an unbordered pattern do not overlap. -/
theorem Unbordered.apart {pat l : List α} (hub : Unbordered pat) {a b : Nat}
    (ha : pat <+: l.drop a) (hb : pat <+: l.drop b) (hlt : a < b) : a + pat.length ≤ b := by
  by_contra hover
  have hdrop : pat.drop (b - a) <+: l.drop b := by
    have := ha.drop (b - a)
    rwa [List.drop_drop, Nat.add_sub_cancel' hlt.le] at this
  have hborder : pat.drop (b - a) <+: pat :=
    List.prefix_of_prefix_length_le hdrop hb (by simp)
  exact hub (b - a) (by omega) (by omega) hborder

/-- A delimiter that is followed by something: it is looked for at the end of each part. -/
theorem find_delim_then {pat line : List α} (hub : Unbordered pat) (hne : pat ≠ [])
    (hline : ¬ pat <:+: line) (s rest : List α) :
    find (pat ++ s) (line ++ pat ++ rest) =
      if s <+: rest then some line.length
      else (find (pat ++ s) rest).map (· + (line.length + pat.length)) := by
  obtain ⟨-, hat, hmin⟩ := find_eq_some_iff.1 (find_delim hub hline rest)
  have hpos : 0 < pat.length := List.length_pos_iff.2 hne
  have hdelim : (line ++ pat ++ rest).drop line.length = pat ++ rest := by
    rw [List.append_assoc, List.drop_left]
  have htail : ∀ i, (line ++ pat ++ rest).drop (i + (line.length + pat.length)) = rest.drop i := by
    intro i
    rw [Nat.add_comm, ← List.drop_drop, ← List.length_append, List.drop_left]
  have hhere : pat ++ s <+: (line ++ pat ++ rest).drop line.length ↔ s <+: rest := by
    rw [hdelim, List.prefix_append_right_inj]
  -- an occurrence begins at the delimiter or behind it
  have hwhere : ∀ j, pat ++ s <+: (line ++ pat ++ rest).drop j →
      j = line.length ∨ line.length + pat.length ≤ j := by
    intro j hj
    have hpat : pat <+: (line ++ pat ++ rest).drop j := (List.prefix_append _ _).trans hj
    rcases Nat.lt_trichotomy j line.length with hlt | heq | hgt
    · exact absurd hpat (hmin j hlt)
    · exact Or.inl heq
    · exact Or.inr (hub.apart hat hpat hgt)
  by_cases hs : s <+: rest
  · rw [if_pos hs]
    refine find_eq_some_iff.2 ⟨by simp, hhere.2 hs, fun j hj hpre => ?_⟩
    rcases hwhere j hpre with heq | hge
    · omega
    · omega
  · rw [if_neg hs]
    have hbehind : ∀ j, pat ++ s <+: (line ++ pat ++ rest).drop j →
        ∃ i, j = i + (line.length + pat.length) ∧ pat ++ s <+: rest.drop i := by
      intro j hj
      rcases hwhere j hj with rfl | hge
      · exact absurd (hhere.1 hj) hs
      · refine ⟨j - (line.length + pat.length), by omega, ?_⟩
        rw [← htail, Nat.sub_add_cancel hge]
        exact hj
    cases hfind : find (pat ++ s) rest with
    | none =>
        rw [Option.map_none]
        refine find_eq_none_iff.2 ?_
        rintro ⟨a, t, hall⟩
        have hin : pat ++ s <+: (line ++ pat ++ rest).drop a.length := by
          rw [← hall, List.append_assoc a, List.drop_left]
          exact List.prefix_append _ _
        obtain ⟨i, -, hi⟩ := hbehind a.length hin
        exact find_eq_none_iff.1 hfind (hi.isInfix.trans (List.drop_suffix _ _).isInfix)
    | some i =>
        obtain ⟨hle, hpre, hfirst⟩ := find_eq_some_iff.1 hfind
        rw [Option.map_some]
        refine find_eq_some_iff.2 ⟨by simp; omega, ?_, fun j hj hpre' => ?_⟩
        · rw [htail]
          exact hpre
        · obtain ⟨i', rfl, hi'⟩ := hbehind j hpre'
          exact hfirst i' (by omega) hi'

omit [DecidableEq α] in
/-- Symbols that a map keeps apart from all others are kept in place by it. -/
theorem map_prefix_map_iff {β : Type*} {f : α → β} {pat l : List α}
    (h : ∀ p ∈ pat, ∀ x, f x = f p → x = p) : pat.map f <+: l.map f ↔ pat <+: l := by
  induction pat generalizing l with
  | nil => simp
  | cons p ps ih =>
      cases l with
      | nil => simp
      | cons a t =>
          rw [List.map_cons, List.map_cons, List.cons_prefix_cons, List.cons_prefix_cons,
            ih fun q hq => h q (List.mem_cons_of_mem _ hq)]
          refine and_congr_left fun _ => ?_
          constructor
          · intro he
            exact (h p List.mem_cons_self a he.symm).symm
          · rintro rfl
            rfl

/-- Such a map moves no occurrence of a pattern. -/
theorem find_map {β : Type*} [DecidableEq β] {f : α → β} {pat : List α}
    (h : ∀ p ∈ pat, ∀ x, f x = f p → x = p) (l : List α) :
    find (pat.map f) (l.map f) = find pat l := by
  induction l with
  | nil =>
      cases pat with
      | nil => rfl
      | cons p ps => rfl
  | cons a t ih =>
      have hcons : pat.map f <+: f a :: t.map f ↔ pat <+: a :: t :=
        map_prefix_map_iff (l := a :: t) h
      by_cases hp : pat <+: a :: t
      · rw [find_cons_hit hp]
        exact find_cons_hit (hcons.2 hp)
      · rw [find_cons_miss hp, ← ih]
        exact find_cons_miss fun hc => hp (hcons.1 hc)

/-- A list is free of the delimiter, or it is a delimiter-free part, the delimiter
and a rest, of which any number of elements may be skipped: induction over the parts. -/
theorem delim_drop_induction {pat : List α} (hne : pat ≠ []) {P : List α → Prop}
    (stop : ∀ b, ¬ pat <:+: b → P b)
    (part : ∀ line rest, ¬ pat <:+: line → (∀ n, P (rest.drop n)) → P (line ++ pat ++ rest))
    (b : List α) : P b := by
  cases h : find pat b with
  | none => exact stop b (find_eq_none_iff.1 h)
  | some i =>
      have hpos : 0 < pat.length := List.length_pos_iff.2 hne
      have hle := find_add_length_le h
      rw [find_split h]
      refine part _ _ (not_infix_of_find_take h hne) fun n => ?_
      exact delim_drop_induction hne stop part ((b.drop (i + pat.length)).drop n)
termination_by b.length
decreasing_by
  rw [List.length_drop, List.length_drop]
  omega

/-- Induction over the parts, one behind the other. -/
theorem delim_induction {pat : List α} (hne : pat ≠ []) {P : List α → Prop}
    (stop : ∀ b, ¬ pat <:+: b → P b)
    (part : ∀ line rest, ¬ pat <:+: line → P rest → P (line ++ pat ++ rest)) (b : List α) :
    P b :=
  delim_drop_induction hne stop (fun line rest hline hrest => part line rest hline (hrest 0)) b

omit [DecidableEq α] in
theorem singleton_infix_iff {a : α} {l : List α} : [a] <:+: l ↔ a ∈ l := by
  constructor
  · intro h
    exact h.subset (List.mem_singleton_self a)
  · intro h
    obtain ⟨s, t, rfl⟩ := List.append_of_mem h
    exact ⟨s, t, by simp⟩

/-- A single symbol is found right after a part that does not contain it. -/
theorem find_singleton {a : α} {line : List α} (h : a ∉ line) (rest : List α) :
    find [a] (line ++ a :: rest) = some line.length := by
  have hnot : ¬ [a] <:+: line := fun hin => h (singleton_infix_iff.1 hin)
  have := find_delim (unbordered_singleton a) hnot rest
  simpa using this

theorem find_singleton_eq_none {a : α} {l : List α} : find [a] l = none ↔ a ∉ l := by
  rw [find_eq_none_iff, singleton_infix_iff]

/-- What is in front of the first of these symbols. -/
theorem takeWhile_ne (a : α) (l : List α) :
    l.takeWhile (· ≠ a) = (find [a] l).elim l fun i => l.take i := by
  induction l with
  | nil => rfl
  | cons c l ih =>
      by_cases hc : c = a
      · subst hc
        rw [find_cons_hit (by simp)]
        simp
      · have hfind : find [a] (c :: l) = (find [a] l).map (· + 1) := by
          refine find_cons_miss fun h => hc ?_
          exact (List.cons_prefix_cons.1 h).1.symm
        rw [List.takeWhile_cons, if_pos (by simpa using hc), ih, hfind]
        cases find [a] l with
        | none => rfl
        | some i => rfl

end Search
