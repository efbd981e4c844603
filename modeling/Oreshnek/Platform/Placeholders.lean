import Oreshnek.Base

/-!
# Placeholders

Applications write `?` for a parameter in the SQL text that both backends run.
`SqliteBackend` gives the text to SQLite, whose lexer takes as parameters the `?`
outside literals, quoted identifiers and comments. `PgBackend` has
`to_pg_placeholders` write `$1`, `$2`, ... for the `?` outside single quotes, however
these quotes stand. `same_placeholders_iff` says for which texts the two agree.

Texts are ones without parameters of another form, such as `?1` or `:name`.
-/

namespace Oreshnek.Placeholders

/-- What a C string shows of a text. -/
def cString (text : Bytes) : Bytes := text.takeWhile (· != 0)

/-! ## What SQLite takes as parameters -/

/-- Where its lexer is between two bytes. -/
inductive Context where
  | code
  /-- After a `-` or a `/` that may begin a comment. -/
  | dash
  | slash
  /-- In a single-quoted literal. A doubled quote leaves it and enters it again, as
  with identifiers. -/
  | literal
  /-- In an identifier that ends with this byte. -/
  | quoted (close : UInt8)
  /-- In a line comment. -/
  | line
  /-- In a block comment, after a `*` that may end it. -/
  | block (star : Bool)
deriving DecidableEq

namespace Context

/-- A byte outside of everything. -/
def enter (c : UInt8) : Context :=
  if c = 39 then .literal
  else if c = 34 then .quoted 34
  else if c = 96 then .quoted 96
  else if c = 91 then .quoted 93
  else if c = 45 then .dash
  else if c = 47 then .slash
  else .code

def next : Context → UInt8 → Context
  | .code, c => enter c
  | .dash, c => if c = 45 then .line else enter c
  | .slash, c => if c = 42 then .block false else enter c
  | .literal, c => if c = 39 then .code else .literal
  | .quoted close, c => if c = close then .code else .quoted close
  | .line, c => if c = 10 then .code else .line
  | .block star, c => if star && c == 47 then .code else .block (c == 42)

/-- A `?` here is a parameter. -/
def isCode : Context → Bool
  | .code => true
  | .dash => true
  | .slash => true
  | _ => false

/-- In an identifier or a comment. -/
def hides : Context → Bool
  | .quoted _ => true
  | .line => true
  | .block _ => true
  | _ => false

/-- The context after a text. -/
def after (context : Context) (text : Bytes) : Context := text.foldl next context

end Context

/-- The text with its parameters numbered from `n + 1`. -/
def numbered (context : Context) (n : Nat) : Bytes → Bytes
  | [] => []
  | c :: rest =>
      if c = 63 ∧ context.isCode then
        36 :: toString_ (n + 1) ++ numbered (context.next c) (n + 1) rest
      else c :: numbered (context.next c) n rest

/-! ## What `PgBackend` takes as parameters -/

/-- The loop of `to_pg_placeholders`. Its counter is an `int`; 2 ^ 31 placeholders, with which it
would overflow, are out of scope. -/
def toPgLoop : Bool → Nat → Bytes → Bytes
  | _, _, [] => []
  | true, n, 39 :: 39 :: rest => 39 :: 39 :: toPgLoop true n rest
  | true, n, c :: rest => c :: toPgLoop (c != 39) n rest
  | false, n, c :: rest =>
      if c = 39 then c :: toPgLoop true n rest
      else if c = 63 then 36 :: toString_ (n + 1) ++ toPgLoop false (n + 1) rest
      else c :: toPgLoop false n rest

/-- `to_pg_placeholders`. -/
def toPgPlaceholders (sql : Bytes) : Bytes := toPgLoop false 0 sql

/-- A quote turns `in_string` over, also when it is doubled. -/
def turn (inString : Bool) (c : UInt8) : Bool := if c = 39 then !inString else inString

/-- Inside a literal every character stays. -/
theorem toPgLoop_true (n : Nat) (c : UInt8) (rest : Bytes) :
    toPgLoop true n (c :: rest) = c :: toPgLoop (turn true c) n rest := by
  by_cases hc : c = 39
  · subst hc
    cases rest with
    | nil => rfl
    | cons d rest =>
        by_cases hd : d = 39
        · subst hd
          rw [toPgLoop]
          show _ = 39 :: toPgLoop false n (39 :: rest)
          rw [toPgLoop, if_pos rfl]
        · rw [toPgLoop]
          · rfl
          · rintro rest' - h
            exact hd (List.cons.inj h).1
  · rw [toPgLoop]
    · rw [turn, if_neg hc, bne_iff_ne.2 hc]
    · rintro rest' h -
      exact hc h

/-- One character: a question mark outside a literal gets its number, every other one stays. -/
theorem toPgLoop_cons (inString : Bool) (n : Nat) (c : UInt8) (rest : Bytes) :
    toPgLoop inString n (c :: rest) =
      if c = 63 ∧ inString = false then 36 :: toString_ (n + 1) ++ toPgLoop inString (n + 1) rest
      else c :: toPgLoop (turn inString c) n rest := by
  cases inString with
  | true => rw [toPgLoop_true, if_neg fun h => nomatch h.2]
  | false =>
      rw [toPgLoop, turn]
      by_cases hquote : c = 39
      · rw [if_pos hquote, if_pos hquote, if_neg]
        · rfl
        · rintro ⟨hmark, -⟩
          rw [hquote] at hmark
          cases hmark
      · rw [if_neg hquote, if_neg hquote]
        by_cases hmark : c = 63
        · rw [if_pos hmark, if_pos ⟨hmark, rfl⟩]
        · rw [if_neg hmark, if_neg fun h => hmark h.1]

/-- Digits are no NULs, so that the translation may be cut before or after. -/
theorem cString_toPgLoop (inString : Bool) (n : Nat) (text : Bytes) :
    cString (toPgLoop inString n text) = toPgLoop inString n (cString text) := by
  induction text generalizing inString n with
  | nil =>
      cases inString with
      | true => rfl
      | false => rfl
  | cons c text ih =>
      rw [toPgLoop_cons]
      by_cases hzero : c = 0
      · subst hzero
        rw [if_neg fun h => nomatch h.1]
        cases inString with
        | true => rfl
        | false => rfl
      · have hcut : cString (c :: text) = c :: cString text :=
          List.takeWhile_cons_of_pos (bne_iff_ne.2 hzero)
        rw [hcut, toPgLoop_cons]
        split
        · have hdigits : ∀ d ∈ 36 :: toString_ (n + 1), (d != 0) = true := by
            intro d hd
            rcases List.mem_cons.1 hd with rfl | hd
            · rfl
            · have hdigit := (toString_spec (n + 1)).2.1 d hd
              rw [bne_iff_ne]
              rintro rfl
              cases hdigit
          rw [cString, List.takeWhile_append_of_pos hdigits]
          exact congrArg _ (ih inString (n + 1))
        · have hcut' : cString (c :: toPgLoop (turn inString c) n text) =
              c :: cString (toPgLoop (turn inString c) n text) :=
            List.takeWhile_cons_of_pos (bne_iff_ne.2 hzero)
          rw [hcut', ih]

/-! ## The two readings side by side -/

/-- What holds at every `?` of a text that begins with `c`. -/
theorem forall_marks_cons {P : Bytes → Prop} (c : UInt8) (text : Bytes) :
    (∀ before rest, c :: text = before ++ 63 :: rest → P before) ↔
      (c = 63 → P []) ∧ ∀ before rest, text = before ++ 63 :: rest → P (c :: before) := by
  constructor
  · intro h
    refine ⟨?_, fun before rest heq => h (c :: before) rest (by rw [heq]; rfl)⟩
    rintro rfl
    exact h [] text rfl
  · rintro ⟨hhere, hthere⟩ before rest heq
    cases before with
    | nil => exact hhere (List.cons.inj heq).1
    | cons d before =>
        obtain ⟨rfl, htext⟩ := List.cons.inj heq
        exact hthere before rest htext

/-- The two write the same when they agree on every `?`. -/
theorem toPgLoop_eq_numbered_iff (inString : Bool) (context : Context) (n : Nat) (text : Bytes) :
    toPgLoop inString n text = numbered context n text ↔
      ∀ before rest, text = before ++ 63 :: rest →
        (before.foldl turn inString = false ↔ (context.after before).isCode = true) := by
  induction text generalizing inString context n with
  | nil =>
      refine ⟨fun _ before rest heq => ?_, fun _ => ?_⟩
      · cases before with
        | nil => cases heq
        | cons => cases heq
      · cases inString with
        | true => rfl
        | false => rfl
  | cons c text ih =>
      rw [toPgLoop_cons, numbered, forall_marks_cons]
      by_cases hmark : c = 63
      · subst hmark
        show _ ↔ (_ → (inString = false ↔ context.isCode = true)) ∧
          ∀ before rest, text = before ++ 63 :: rest →
            (before.foldl turn inString = false ↔ ((context.next 63).after before).isCode = true)
        by_cases hin : inString = false
        · by_cases hcode : context.isCode = true
          · -- both write a number
            rw [if_pos ⟨rfl, hin⟩, if_pos ⟨rfl, hcode⟩, List.append_cancel_left_eq, ih]
            exact ⟨fun h => ⟨fun _ => iff_of_true hin hcode, h⟩, fun h => h.2⟩
          · rw [if_pos ⟨rfl, hin⟩, if_neg fun h => hcode h.2]
            refine ⟨fun h => ?_, fun h => absurd ((h.1 rfl).1 hin) hcode⟩
            exact absurd (List.cons.inj h).1 (by decide)
        · by_cases hcode : context.isCode = true
          · rw [if_neg fun h => hin h.2, if_pos ⟨rfl, hcode⟩]
            refine ⟨fun h => ?_, fun h => absurd ((h.1 rfl).2 hcode) hin⟩
            exact absurd (List.cons.inj h).1 (by decide)
          · rw [if_neg fun h => hin h.2, if_neg fun h => hcode h.2, List.cons_eq_cons, ih]
            exact ⟨fun h => ⟨fun _ => iff_of_false hin hcode, h.2⟩, fun h => ⟨rfl, h.2⟩⟩
      · rw [if_neg fun h => hmark h.1, if_neg fun h => hmark h.1, List.cons_eq_cons, ih]
        exact ⟨fun h => ⟨fun h63 => absurd h63 hmark, h.2⟩, fun h => ⟨rfl, h.2⟩⟩

/-! ## Quotes that are no quotes -/

/-- The single quotes in the identifiers and comments of a text. -/
def hiddenQuotes (context : Context) : Bytes → Nat
  | [] => 0
  | c :: rest =>
      (if c = 39 ∧ context.hides then 1 else 0) + hiddenQuotes (context.next c) rest

/-- In a literal. -/
def Context.isLiteral : Context → Bool
  | .literal => true
  | _ => false

theorem enter_isLiteral (c : UInt8) : (Context.enter c).isLiteral = (c == 39) := by
  unfold Context.enter
  by_cases hc : c = 39
  · rw [if_pos hc, hc]
    rfl
  · rw [if_neg hc, beq_eq_false_iff_ne.2 hc]
    repeat' split
    all_goals rfl

/-- Code is what is neither a literal nor hidden. -/
theorem Context.isCode_eq (context : Context) :
    context.isCode = (!context.isLiteral && !context.hides) := by
  cases context with
  | code => rfl
  | dash => rfl
  | slash => rfl
  | literal => rfl
  | quoted close => rfl
  | line => rfl
  | block star => rfl

theorem Context.not_literal_of_hides {context : Context} (h : context.hides = true) :
    context.isLiteral = false := by
  cases context with
  | literal => cases h
  | _ => rfl

/-- A literal is entered and left at the quotes that are not hidden. -/
theorem next_isLiteral (context : Context) (c : UInt8) :
    (context.next c).isLiteral = (context.isLiteral ^^ (c == 39 && !context.hides)) := by
  -- from code, only a quote enters a literal
  have henter : (Context.enter c).isLiteral = (false ^^ (c == 39 && !false)) := by
    rw [enter_isLiteral, Bool.false_xor, Bool.not_false, Bool.and_true]
  cases context with
  | code => exact henter
  | dash =>
      show (if c = 45 then Context.line else Context.enter c).isLiteral = _
      split
      case isTrue hc => rw [hc]; rfl
      case isFalse => exact henter
  | slash =>
      show (if c = 42 then Context.block false else Context.enter c).isLiteral = _
      split
      case isTrue hc => rw [hc]; rfl
      case isFalse => exact henter
  | literal =>
      show (if c = 39 then Context.code else Context.literal).isLiteral =
        (true ^^ (c == 39 && !false))
      split
      case isTrue hc => rw [hc]; rfl
      case isFalse hc => rw [beq_eq_false_iff_ne.2 hc]; rfl
  | quoted close =>
      -- quotes in here are hidden
      show (if c = close then Context.code else Context.quoted close).isLiteral =
        (false ^^ (c == 39 && !true))
      rw [Bool.not_true, Bool.and_false]
      split
      · rfl
      · rfl
  | line =>
      show (if c = 10 then Context.code else Context.line).isLiteral = (false ^^ (c == 39 && !true))
      rw [Bool.not_true, Bool.and_false]
      split
      · rfl
      · rfl
  | block star =>
      show (if star && c == 47 then Context.code else Context.block (c == 42)).isLiteral =
        (false ^^ (c == 39 && !true))
      rw [Bool.not_true, Bool.and_false]
      split
      · rfl
      · rfl

/-- `in_string` is wrong by the hidden quotes. -/
theorem turn_foldl (inString : Bool) (context : Context) (text : Bytes) :
    text.foldl turn inString = (inString ^^ context.isLiteral ^^ (context.after text).isLiteral ^^
      decide (hiddenQuotes context text % 2 = 1)) := by
  induction text generalizing inString context with
  | nil =>
      show inString = (inString ^^ context.isLiteral ^^ context.isLiteral ^^ false)
      simp
  | cons c text ih =>
      have hturn : turn inString c = (inString ^^ (c == 39)) := by
        unfold turn
        by_cases hc : c = 39
        · rw [if_pos hc, hc]
          simp
        · rw [if_neg hc, beq_eq_false_iff_ne.2 hc, Bool.xor_false]
      have hcount : decide (hiddenQuotes context (c :: text) % 2 = 1) =
          ((c == 39 && context.hides) ^^
            decide (hiddenQuotes (context.next c) text % 2 = 1)) := by
        rw [hiddenQuotes]
        by_cases hhidden : c = 39 ∧ context.hides = true
        · rw [if_pos hhidden, hhidden.1, hhidden.2]
          simp only [beq_self_eq_true, Bool.and_self, Bool.true_xor, ← decide_not]
          exact decide_eq_decide.2 (by omega)
        · rw [if_neg hhidden, Nat.zero_add]
          have hshown : (c == 39 && context.hides) = false := by
            simpa using hhidden
          rw [hshown, Bool.false_xor]
      show text.foldl turn (turn inString c) = _
      rw [ih (turn inString c) (context.next c), hturn, next_isLiteral, hcount]
      show _ = (inString ^^ context.isLiteral ^^ ((context.next c).after text).isLiteral ^^ _)
      cases inString <;> cases (c == 39) <;> cases context.hides <;> cases context.isLiteral <;>
        simp

/-! ## The same SQL on both backends -/

/-- The two backends take the same `?` as parameters when at each `?` an even number
of single quotes stands in identifiers and comments before it, or an odd number if
the `?` itself does. -/
theorem same_placeholders_iff (sql : Bytes) :
    cString (toPgPlaceholders sql) = numbered .code 0 (cString sql) ↔
      ∀ before rest, cString sql = before ++ 63 :: rest →
        (hiddenQuotes .code before % 2 = 0 ↔ (Context.code.after before).hides = false) := by
  rw [toPgPlaceholders, cString_toPgLoop, toPgLoop_eq_numbered_iff]
  refine forall_congr' fun before => forall_congr' fun rest => imp_congr_right fun _ => ?_
  rw [turn_foldl false .code before]
  have hparity : hiddenQuotes .code before % 2 = 0 ↔
      ¬hiddenQuotes .code before % 2 = 1 := by omega
  rw [hparity]
  generalize Context.code.after before = context
  rw [context.isCode_eq]
  show ((false ^^ false ^^ context.isLiteral ^^ _) = false ↔ _) ↔ _
  cases hhides : context.hides with
  | true =>
      rw [Context.not_literal_of_hides hhides]
      simp
  | false =>
      cases context.isLiteral with
      | true => simp
      | false => simp

/-- A `?` in the name of a column is rewritten, and the parameter is the second. -/
theorem column_name_rewritten :
    cString (toPgPlaceholders (lit "SELECT \"a?\", ?")) = lit "SELECT \"a$1\", $2" ∧
      numbered .code 0 (cString (lit "SELECT \"a?\", ?")) = lit "SELECT \"a?\", $1" := by
  decide +kernel

end Oreshnek.Placeholders
