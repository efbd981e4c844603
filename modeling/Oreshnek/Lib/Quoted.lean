import Oreshnek.Lib.Search

/-!
# Lists with quotes

A symbol `q` is used as a quote: `quoted q b` is `b` between two of them. A list in which
quoted parts and gaps without a quote take turns is given by `pieces`. A quoted part is found
in it exactly where it is one of the parts, unless it is also one of the gaps
(`quoted_infix_pieces`), and a pattern that ends in a quote is found at the first gap or part
that ends with what stands before the quote (`find_closed`).
-/

namespace Quoted

variable {α : Type*}

/-- A part between quotes. -/
def quoted (q : α) (b : List α) : List α := q :: (b ++ [q])

/-- Gaps, each followed by a quoted part. -/
def pieces (q : α) (ps : List (List α × List α)) : List α :=
  ps.flatMap fun p => p.1 ++ quoted q p.2

@[simp] theorem pieces_nil (q : α) : pieces q [] = [] := rfl

theorem pieces_cons (q : α) (p : List α × List α) (ps : List (List α × List α)) :
    pieces q (p :: ps) = p.1 ++ q :: (p.2 ++ q :: pieces q ps) := by
  simp [pieces, quoted]

/-- What stands before the first quote is determined. -/
theorem append_cons_inj {q : α} {a a' b b' : List α} (h : q ∉ a) (h' : q ∉ a') :
    a ++ q :: b = a' ++ q :: b' ↔ a = a' ∧ b = b' := by
  constructor
  · intro heq
    induction a generalizing a' with
    | nil =>
        cases a' with
        | nil => exact ⟨rfl, (List.cons.inj heq).2⟩
        | cons c a' => exact absurd (List.cons.inj heq).1 (List.ne_of_not_mem_cons h')
    | cons c a ih =>
        cases a' with
        | nil => exact absurd (List.cons.inj heq).1.symm (List.ne_of_not_mem_cons h)
        | cons c' a' =>
            obtain ⟨rfl, htail⟩ := List.cons.inj heq
            obtain ⟨rfl, rfl⟩ := ih (List.not_mem_of_not_mem_cons h)
              (List.not_mem_of_not_mem_cons h') htail
            exact ⟨rfl, rfl⟩
  · rintro ⟨rfl, rfl⟩
    rfl

/-- A suffix does not reach past a symbol that is not in it. -/
theorem suffix_append_cons_iff {q : α} {w : List α} (hw : q ∉ w) (a s : List α) :
    w <:+ a ++ q :: s ↔ w <:+ s := by
  induction a with
  | nil =>
      rw [List.nil_append, List.suffix_cons_iff]
      refine or_iff_right ?_
      rintro rfl
      exact hw List.mem_cons_self
  | cons c a ih =>
      rw [List.cons_append, List.suffix_cons_iff, ih]
      refine or_iff_right ?_
      rintro rfl
      exact hw (by simp)

/-! ## A quoted part -/

section Infix

variable {q : α} {b c rest : List α}

/-- A quoted part does not begin before the first quote. -/
theorem quoted_infix_gap (hc : q ∉ c) :
    quoted q b <:+: c ++ q :: rest ↔ quoted q b <:+: q :: rest := by
  induction c with
  | nil => exact Iff.rfl
  | cons d c ih =>
      rw [List.cons_append, List.infix_cons_iff, ih (List.not_mem_of_not_mem_cons hc)]
      constructor
      · rintro (hpre | hin)
        · -- it would have to begin with `d`
          have hfirst : q = d := (List.cons_prefix_cons.1 hpre).1
          exact absurd hfirst (List.ne_of_not_mem_cons hc)
        · exact hin
      · intro hin
        exact Or.inr hin

/-- At a quote, it is what stands before the next one, or it begins there or later. -/
theorem quoted_infix_quoted (hb : q ∉ b) (hc : q ∉ c) :
    quoted q b <:+: q :: (c ++ q :: rest) ↔ b = c ∨ quoted q b <:+: q :: rest := by
  rw [List.infix_cons_iff, quoted_infix_gap hc]
  refine or_congr_left ?_
  unfold quoted
  rw [List.cons_prefix_cons]
  constructor
  · rintro ⟨-, t, ht⟩
    rw [List.append_assoc] at ht
    exact ((append_cons_inj hb hc).1 ht).1
  · rintro rfl
    exact ⟨rfl, rest, by simp⟩

/-- One quote is not enough. -/
theorem not_quoted_infix_singleton : ¬ quoted q b <:+: [q] := by
  intro h
  have := h.length_le
  simp [quoted] at this

/-- Behind a quote that closes a part. -/
theorem quoted_infix_tail (hb : q ∉ b) {ps : List (List α × List α)}
    (hps : ∀ p ∈ ps, q ∉ p.1 ∧ q ∉ p.2) (hgaps : ∀ p ∈ ps, p.1 ≠ b) :
    quoted q b <:+: q :: pieces q ps ↔ ∃ p ∈ ps, p.2 = b := by
  induction ps with
  | nil => simpa using not_quoted_infix_singleton
  | cons p ps ih =>
      obtain ⟨hgap, hpart⟩ := hps p List.mem_cons_self
      have hne : b ≠ p.1 := (hgaps p List.mem_cons_self).symm
      have htail := ih (fun p' hp' => hps p' (List.mem_cons_of_mem _ hp'))
        (fun p' hp' => hgaps p' (List.mem_cons_of_mem _ hp'))
      rw [pieces_cons, quoted_infix_quoted hb hgap, quoted_infix_quoted hb hpart, htail,
        List.exists_mem_cons_iff]
      constructor
      · rintro (heq | heq | hin)
        · exact absurd heq hne
        · exact Or.inl heq.symm
        · exact Or.inr hin
      · rintro (heq | hin)
        · exact Or.inr (Or.inl heq.symm)
        · exact Or.inr (Or.inr hin)

/-- **A quoted part** is found in the pieces exactly when it is one of the parts, provided it
is none of the gaps between them. -/
theorem quoted_infix_pieces (hb : q ∉ b) {ps : List (List α × List α)}
    (hps : ∀ p ∈ ps, q ∉ p.1 ∧ q ∉ p.2) (hgaps : ∀ p ∈ ps.tail, p.1 ≠ b) :
    quoted q b <:+: pieces q ps ↔ ∃ p ∈ ps, p.2 = b := by
  cases ps with
  | nil =>
      have : ¬ quoted q b <:+: [] := fun h => by simp [quoted] at h
      simpa using this
  | cons p ps =>
      obtain ⟨hgap, hpart⟩ := hps p List.mem_cons_self
      rw [pieces_cons, quoted_infix_gap hgap, quoted_infix_quoted hb hpart,
        quoted_infix_tail hb (fun p' hp' => hps p' (List.mem_cons_of_mem _ hp')) hgaps,
        List.exists_mem_cons_iff]
      exact or_congr_left eq_comm

end Infix

/-! ## A pattern that ends in a quote -/

section Closed

variable [DecidableEq α] {q : α} {w s : List α}

omit [DecidableEq α] in
/-- Such a pattern begins a list exactly when it is all that stands before the first quote. -/
theorem closed_prefix_iff (hw : q ∉ w) (hs : q ∉ s) (rest : List α) :
    w ++ [q] <+: s ++ q :: rest ↔ w = s := by
  constructor
  · rintro ⟨t, ht⟩
    rw [List.append_assoc] at ht
    exact ((append_cons_inj hw hs).1 ht).1
  · rintro rfl
    exact ⟨rest, by simp⟩

/-- **A pattern that ends in a quote** is found at the end of the first stretch without a quote
that ends with the rest of it. -/
theorem find_closed (hw : q ∉ w) (hs : q ∉ s) (rest : List α) :
    Search.find (w ++ [q]) (s ++ q :: rest) =
      if w <:+ s then some (s.length - w.length)
      else (Search.find (w ++ [q]) rest).map (· + (s.length + 1)) := by
  induction s with
  | nil =>
      have hpre := closed_prefix_iff hw hs rest
      by_cases hnil : w = []
      · rw [if_pos (hnil ▸ List.suffix_refl _), List.length_nil, Nat.zero_sub]
        exact Search.find_cons_hit (hpre.2 hnil)
      · rw [if_neg fun h => hnil (List.suffix_nil.1 h)]
        exact Search.find_cons_miss fun h => hnil (hpre.1 h)
  | cons d s ih =>
      have hpre := closed_prefix_iff hw hs rest
      by_cases hsame : w = d :: s
      · rw [if_pos (hsame ▸ List.suffix_refl _), hsame, Nat.sub_self]
        exact Search.find_cons_hit (hsame ▸ hpre.2 hsame)
      · have hmiss : Search.find (w ++ [q]) (d :: (s ++ q :: rest)) =
            (Search.find (w ++ [q]) (s ++ q :: rest)).map (· + 1) :=
          Search.find_cons_miss fun h => hsame (hpre.1 h)
        rw [List.cons_append, hmiss, ih (List.not_mem_of_not_mem_cons hs)]
        have hsuffix : w <:+ d :: s ↔ w <:+ s := by
          rw [List.suffix_cons_iff]
          exact or_iff_right hsame
        by_cases hin : w <:+ s
        · have hle := hin.length_le
          rw [if_pos hin, if_pos (hsuffix.2 hin), Option.map_some, List.length_cons]
          congr 1
          omega
        · rw [if_neg hin, if_neg fun h => hin (hsuffix.1 h), Option.map_map]
          congr 1

end Closed

end Quoted
