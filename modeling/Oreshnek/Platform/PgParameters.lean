import Oreshnek.Platform.Placeholders

/-!
# The parameters of a PostgreSQL statement

What `to_pg_placeholders` does, told byte by byte: the `i`-th `?` with an even number of single
quotes before it becomes `$i`, and every other byte stays (`toPgPlaceholders_eq`). The scanner
flips its flag at every quote, so that the flag is the parity of the quotes so far. `run_impl`
hands the parameters over in their order, which binds the `i`-th one to `$i`.
-/

namespace Oreshnek.Placeholders

/-! ## Placeholders by parity -/

/-- A `?` at `i`, with an even number of single quotes before it. -/
def isPlaceholder (sql : Bytes) (i : Nat) : Bool :=
  sql[i]? == some 63 && (sql.take i).count 39 % 2 == 0

/-- How many placeholders there are before `i`. -/
def placeholdersBefore (sql : Bytes) (i : Nat) : Nat := (List.range i).countP (isPlaceholder sql)

/-- Where the placeholders are, from left to right. -/
def placeholders (sql : Bytes) : List Nat := (List.range sql.length).filter (isPlaceholder sql)

/-- What is written for the byte at `i`. -/
def written (sql : Bytes) (i : Nat) : Bytes :=
  if isPlaceholder sql i then 36 :: toString_ (placeholdersBefore sql i + 1) else sql[i]?.toList

/-! ## The call of libpq -/

/-- The arguments of `PQexecParams`: the command and the values, NULL for an absent one. -/
structure ExecParams where
  command : Bytes
  values : List (Option Bytes)

/-- Those that `run_impl` gives it. -/
def execParams (sql : Bytes) (params : List (Option Bytes)) : ExecParams where
  command := cString (toPgPlaceholders sql)
  values := params.map (Option.map cString)

/-- What `$n` stands for: the parameters are counted from one. -/
def ExecParams.bound (e : ExecParams) (n : Nat) : Option (Option Bytes) :=
  if n = 0 then none else e.values[n - 1]?

/-- The inside of a single-quoted literal: no quotes but doubled ones. -/
inductive LiteralBody : Bytes → Prop
  | nil : LiteralBody []
  | byte {c : UInt8} {body : Bytes} : c ≠ 39 → LiteralBody body → LiteralBody (c :: body)
  | doubled {body : Bytes} : LiteralBody body → LiteralBody (39 :: 39 :: body)

/-! ## The scanner -/

theorem placeholdersBefore_succ (sql : Bytes) (i : Nat) :
    placeholdersBefore sql (i + 1) =
      placeholdersBefore sql i + if isPlaceholder sql i then 1 else 0 := by
  unfold placeholdersBefore
  rw [List.range_succ, List.countP_append, List.countP_singleton]

/-- In front of a byte, the flag says whether the quotes before it are odd in number. -/
theorem isPlaceholder_append (before : Bytes) (c : UInt8) (text : Bytes) :
    isPlaceholder (before ++ c :: text) before.length =
      (c == 63 && before.count 39 % 2 == 0) := by
  have hbyte : (before ++ c :: text)[before.length]? = some c := by
    rw [List.getElem?_append_right (le_refl _), Nat.sub_self]
    rfl
  have htake : (before ++ c :: text).take before.length = before := List.take_left
  unfold isPlaceholder
  rw [hbyte, htake]
  rfl

/-- The flag says whether the quotes so far are odd. -/
theorem turn_parity (before : Bytes) (c : UInt8) :
    turn (before.count 39 % 2 == 1) c = ((before ++ [c]).count 39 % 2 == 1) := by
  rw [List.count_append, List.count_singleton]
  unfold turn
  by_cases hc : c = 39
  · -- a quote changes the parity
    rw [if_pos hc, hc, beq_self_eq_true, if_pos rfl]
    rcases Nat.mod_two_eq_zero_or_one (before.count 39) with hmod | hmod
    · have hnext : (before.count 39 + 1) % 2 = 1 := by omega
      rw [hmod, hnext]
      rfl
    · have hnext : (before.count 39 + 1) % 2 = 0 := by omega
      rw [hmod, hnext]
      rfl
  · rw [if_neg hc, beq_eq_false_iff_ne.2 hc, if_neg Bool.false_ne_true, Nat.add_zero]

/-- The scanner behind a part of the text, by induction on what is left. -/
theorem toPgLoop_eq (before text : Bytes) :
    toPgLoop (before.count 39 % 2 == 1) (placeholdersBefore (before ++ text) before.length) text =
      (List.range' before.length text.length).flatMap (written (before ++ text)) := by
  induction text generalizing before with
  | nil =>
      cases (before.count 39 % 2 == 1) with
      | true => rfl
      | false => rfl
  | cons c text ih =>
      have hassoc : before ++ c :: text = before ++ [c] ++ text := by simp
      have hlength : (before ++ [c]).length = before.length + 1 := by simp
      have hmarked := isPlaceholder_append before c text
      have hsucc := placeholdersBefore_succ (before ++ c :: text) before.length
      have hnext := ih (before ++ [c])
      rw [← hassoc, hlength, ← turn_parity] at hnext
      rw [toPgLoop_cons, List.length_cons, List.range'_succ, List.flatMap_cons, ← hnext]
      by_cases hplace : isPlaceholder (before ++ c :: text) before.length = true
      · -- a placeholder gets the next number, and leaves the flag as it was
        rw [if_pos hplace] at hsucc
        rw [hplace] at hmarked
        obtain ⟨hmark, hparity⟩ := Bool.and_eq_true_iff.1 hmarked.symm
        have hc : c = 63 := beq_iff_eq.1 hmark
        have heven : before.count 39 % 2 = 0 := beq_iff_eq.1 hparity
        have hflag : (before.count 39 % 2 == 1) = false := by
          rw [heven]
          rfl
        have hturn : turn false c = false := by
          rw [hc]
          rfl
        rw [hflag, if_pos ⟨hc, rfl⟩, hturn, hsucc]
        unfold written
        rw [if_pos hplace]
      · -- any other byte is copied, and a quote turns the flag
        rw [if_neg hplace, Nat.add_zero] at hsucc
        have hkeep : ¬ (c = 63 ∧ (before.count 39 % 2 == 1) = false) := by
          rintro ⟨hc, hflag⟩
          refine hplace (hmarked.trans ?_)
          rw [hc]
          have := beq_eq_false_iff_ne.1 hflag
          have heven : before.count 39 % 2 = 0 := by omega
          rw [heven]
          rfl
        have hbyte : (before ++ c :: text)[before.length]? = some c := by
          rw [List.getElem?_append_right (le_refl _), Nat.sub_self]
          rfl
        rw [if_neg hkeep, hsucc]
        unfold written
        rw [if_neg hplace, hbyte]
        rfl

/-- **Byte by byte.** -/
theorem toPgPlaceholders_eq (sql : Bytes) :
    toPgPlaceholders sql = (List.range sql.length).flatMap (written sql) := by
  rw [List.range_eq_range']
  exact toPgLoop_eq [] sql

/-! ## Numbers, literals and parameters -/

/-- The placeholders are numbered from left to right. -/
theorem countP_filter_range (p : Nat → Bool) (n k : Nat) (h : k < ((List.range n).filter p).length) :
    (List.range (((List.range n).filter p)[k] + 1)).countP p = k + 1 := by
  induction n with
  | zero => exact absurd h (Nat.not_lt_zero k)
  | succ n ih =>
      have hsplit : (List.range (n + 1)).filter p = (List.range n).filter p ++ [n].filter p := by
        rw [List.range_succ, List.filter_append]
      by_cases hold : k < ((List.range n).filter p).length
      · have hsame : ((List.range (n + 1)).filter p)[k] = ((List.range n).filter p)[k] := by
          rw [List.getElem_of_eq hsplit, List.getElem_append_left hold]
        rw [hsame]
        exact ih hold
      · -- it is the last one
        have hp : p n = true := by
          by_contra hno
          rw [hsplit, List.filter_cons_of_neg hno, List.filter_nil, List.append_nil] at h
          exact hold h
        have hone : [n].filter p = [n] := List.filter_cons_of_pos hp
        rw [hone] at hsplit
        have hk : k = ((List.range n).filter p).length := by
          rw [hsplit, List.length_append, List.length_singleton] at h
          omega
        have hlast : ((List.range (n + 1)).filter p)[k] = n := by
          rw [List.getElem_of_eq hsplit, List.getElem_append_right (Nat.not_lt.1 hold)]
          exact List.getElem_singleton _
        rw [hlast, List.countP_eq_length_filter, hsplit, List.length_append, List.length_singleton,
          hk]

/-- Each placeholder is written with its number. -/
theorem written_placeholder (sql : Bytes) (k : Nat) (h : k < (placeholders sql).length) :
    written sql (placeholders sql)[k] = 36 :: toString_ (k + 1) := by
  have hmem : (placeholders sql)[k] ∈ placeholders sql := List.getElem_mem h
  have hplace : isPlaceholder sql (placeholders sql)[k] = true := (List.mem_filter.1 hmem).2
  have hcount : placeholdersBefore sql ((placeholders sql)[k] + 1) = k + 1 :=
    countP_filter_range (isPlaceholder sql) sql.length k h
  rw [placeholdersBefore_succ, if_pos hplace] at hcount
  unfold written
  rw [if_pos hplace, hcount]

/-- Any other byte is written as it is. -/
theorem written_other {sql : Bytes} {i : Nat} (hi : i < sql.length) (h : i ∉ placeholders sql) :
    written sql i = [sql[i]] := by
  have hno : ¬ isPlaceholder sql i = true := fun hplace =>
    h (List.mem_filter.2 ⟨List.mem_range.2 hi, hplace⟩)
  unfold written
  rw [if_neg hno, List.getElem?_eq_getElem hi]
  rfl

/-- In front of a `?` in a literal, its quotes are even in number. -/
theorem LiteralBody.count_even {body : Bytes} (h : LiteralBody body) {j : Nat}
    (hj : body[j]? = some 63) : (body.take j).count 39 % 2 = 0 := by
  induction h generalizing j with
  | nil => cases hj
  | @byte c body hc _ ih =>
      cases j with
      | zero => rfl
      | succ j =>
          rw [List.take_succ_cons, List.count_cons_of_ne hc]
          exact ih hj
  | @doubled body _ ih =>
      -- neither of the two quotes is a `?`
      cases j with
      | zero => cases hj
      | succ j =>
          cases j with
          | zero => cases hj
          | succ j =>
              rw [List.take_succ_cons, List.take_succ_cons, List.count_cons_self,
                List.count_cons_self]
              have := ih hj
              omega

/-- A literal has no placeholder in it, whether it is closed or not. -/
theorem LiteralBody.no_placeholder {before body rest : Bytes} (h : LiteralBody body)
    (hbefore : before.count 39 % 2 = 0) {j : Nat} (hj : j < body.length) :
    before.length + 1 + j ∉ placeholders (before ++ 39 :: (body ++ rest)) := by
  intro hmem
  have hplace := (List.mem_filter.1 hmem).2
  unfold isPlaceholder at hplace
  obtain ⟨hmark, hparity⟩ := Bool.and_eq_true_iff.1 hplace
  have hsplit : before ++ 39 :: (body ++ rest) = (before ++ [39]) ++ (body ++ rest) := by simp
  have hlength : before.length + 1 = (before ++ [(39 : UInt8)]).length := by simp
  have hmark : (before ++ 39 :: (body ++ rest))[before.length + 1 + j]? = some 63 :=
    beq_iff_eq.1 hmark
  rw [hsplit, hlength, List.getElem?_append_right (Nat.le_add_right _ _), Nat.add_sub_cancel_left,
    List.getElem?_append_left hj] at hmark
  have heven := h.count_even hmark
  have hodd : ((before ++ 39 :: (body ++ rest)).take (before.length + 1 + j)).count 39 =
      before.count 39 + 1 + (body.take j).count 39 := by
    rw [hsplit, hlength, List.take_length_add_append, List.count_append, List.count_append,
      List.take_append_of_le_length hj.le]
    rfl
  rw [hodd] at hparity
  have := beq_iff_eq.1 hparity
  omega

/-- **Placeholders**: the translation writes `$i` for the `i`-th `?` with an even number of single
quotes before it, and `$i` stands for the `i`-th parameter; every other byte is copied, those of
a literal among them. -/
theorem toPgPlaceholders_spec (sql : Bytes) (params : List (Option Bytes)) :
    toPgPlaceholders sql = (List.range sql.length).flatMap (written sql) ∧
    (∀ i (_ : i < sql.length), i ∉ placeholders sql → written sql i = [sql[i]]) ∧
    (∀ k (_ : k < (placeholders sql).length),
      written sql (placeholders sql)[k] = 36 :: toString_ (k + 1) ∧
      (execParams sql params).bound (k + 1) = params[k]?.map (Option.map cString)) ∧
    ∀ before body rest, sql = before ++ 39 :: (body ++ rest) → before.count 39 % 2 = 0 →
      LiteralBody body → ∀ j < body.length, before.length + 1 + j ∉ placeholders sql := by
  refine ⟨toPgPlaceholders_eq sql, fun i hi h => written_other hi h, fun k hk => ⟨?_, ?_⟩, ?_⟩
  · exact written_placeholder sql k hk
  · show (params.map (Option.map cString))[k]? = _
    exact List.getElem?_map
  · rintro before body rest rfl hbefore hbody j hj
    exact hbody.no_placeholder hbefore hj

end Oreshnek.Placeholders
