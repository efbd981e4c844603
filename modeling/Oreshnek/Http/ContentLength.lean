import Oreshnek.Http.Framing

/-!
# The declared length

`std::stoul` reads more than a header value may say: a sign, a negative number
modulo `2 ^ 64`, and a number followed by anything. `Numeral` is its grammar,
`Decimal` the one of the header. `parse_headers` takes a length by the first and
so accepts some values that are none by the second (`LenientLength`); behind all
other values the body is as long as they say (`content_length_iff`).
-/

namespace Oreshnek

/-! ## What `std::stoul` reads -/

/-- `v` is white space, a sign or none, digits, and a rest that begins with no
digit. -/
structure Numeral (v sign digits rest : Bytes) : Prop where
  split : ∃ space, (∀ c ∈ space, isspace c) ∧ v = space ++ (sign ++ (digits ++ rest))
  signs : sign = [] ∨ sign = [43] ∨ sign = [45]
  digits_ne : digits ≠ []
  digits_all : ∀ c ∈ digits, isdigit c
  rest_start : ∀ c, rest.head? = some c → isdigit c = false

/-- The number it stands for; negation is modulo `2 ^ 64`. -/
def numeralValue (sign digits : Bytes) : Option Nat :=
  if decValue digits < 2 ^ 64 then
    some (if sign = [45] then sizeT (2 ^ 64 - decValue digits) else decValue digits)
  else none

/-- The digits end where something else follows. -/
theorem takeWhile_digits {ds rest : Bytes} (h : ∀ c ∈ ds, isdigit c)
    (hrest : ∀ c, rest.head? = some c → isdigit c = false) :
    (ds ++ rest).takeWhile isdigit = ds := by
  rw [List.takeWhile_append_of_pos h]
  cases rest with
  | nil => rw [List.takeWhile_nil, List.append_nil]
  | cons c rest => rw [List.takeWhile_cons, hrest c rfl, if_neg Bool.noConfusion, List.append_nil]

namespace Numeral

variable {v sign ds rest : Bytes}

/-- Without the white space the sign or a digit is in front. -/
theorem trimmed (h : Numeral v sign ds rest) : v.dropWhile isspace = sign ++ (ds ++ rest) := by
  rcases h.split with ⟨space, hspace, rfl⟩
  rw [List.dropWhile_append_of_pos hspace]
  rcases h.signs with rfl | rfl | rfl
  · -- no sign: a digit is no white space
    cases ds with
    | nil => exact absurd rfl h.digits_ne
    | cons d ds =>
        have hd := (not_isspace_of_isdigit (h.digits_all d List.mem_cons_self)).1
        rw [List.nil_append, List.cons_append, List.dropWhile_cons, hd, if_neg Bool.noConfusion]
  · rfl
  · rfl

/-- `stoul` reads the sign and the digits, and nothing behind them. -/
theorem stoul_eq (h : Numeral v sign ds rest) : stoul v = numeralValue sign ds := by
  have htrim := h.trimmed
  have hdigits := takeWhile_digits h.digits_all h.rest_start
  have hne := h.digits_ne
  unfold stoul numeralValue
  rcases h.signs with rfl | rfl | rfl
  · -- no sign: the first digit is neither
    cases ds with
    | nil => exact absurd rfl hne
    | cons d ds =>
        obtain ⟨-, hplus, hminus⟩ := not_isspace_of_isdigit (h.digits_all d List.mem_cons_self)
        simp only [htrim, List.nil_append, List.cons_append]
        split
        case h_1 hcons => exact absurd (List.cons.inj hcons).1 hplus
        case h_2 hcons => exact absurd (List.cons.inj hcons).1 hminus
        case h_3 =>
          rw [List.cons_append] at hdigits
          simp [hdigits]
  · simp only [htrim, List.cons_append, List.nil_append, hdigits]
    simp [hne]
  · simp only [htrim, List.cons_append, List.nil_append, hdigits]
    simp [hne]

/-- The sign at the front of a text. -/
def signOf (t : Bytes) : Bytes :=
  if t.head? = some 43 ∨ t.head? = some 45 then t.take 1 else []

/-- The blanks that `stoul` skips are in front of the sign. -/
theorem signOf_trimmed (h : Numeral v sign ds rest) : signOf (v.dropWhile isspace) = sign := by
  rw [h.trimmed]
  rcases h.signs with rfl | rfl | rfl
  · cases ds with
    | nil => exact absurd rfl h.digits_ne
    | cons d ds =>
        obtain ⟨-, hplus, hminus⟩ := not_isspace_of_isdigit (h.digits_all d List.mem_cons_self)
        have hno : ¬ (some d = some 43 ∨ some d = some 45) := by
          rintro (heq | heq)
          · exact hplus (Option.some.inj heq)
          · exact hminus (Option.some.inj heq)
        exact if_neg hno
  · rfl
  · rfl

/-- A text is a numeral in one way only. -/
theorem unique {sign' ds' rest' : Bytes} (h : Numeral v sign ds rest)
    (h' : Numeral v sign' ds' rest') : sign' = sign ∧ ds' = ds ∧ rest' = rest := by
  have heq : sign' ++ (ds' ++ rest') = sign ++ (ds ++ rest) := h'.trimmed.symm.trans h.trimmed
  have hsign : sign' = sign := h'.signOf_trimmed.symm.trans h.signOf_trimmed
  rw [hsign, List.append_cancel_left_eq] at heq
  have hds : ds' = ds := by
    rw [← takeWhile_digits h'.digits_all h'.rest_start, heq,
      takeWhile_digits h.digits_all h.rest_start]
  rw [hds, List.append_cancel_left_eq] at heq
  exact ⟨hsign, hds, heq⟩

end Numeral

/-- What follows the white space and the sign is read up to its first byte that is
no digit. -/
theorem numeral_of_split {v sign u : Bytes} (hsign : sign = [] ∨ sign = [43] ∨ sign = [45])
    (htrim : v.dropWhile isspace = sign ++ u) (hne : u.takeWhile isdigit ≠ []) :
    Numeral v sign (u.takeWhile isdigit) (u.dropWhile isdigit) where
  split := by
    refine ⟨v.takeWhile isspace, fun c hc => List.mem_takeWhile_imp hc, ?_⟩
    rw [List.takeWhile_append_dropWhile, ← htrim, List.takeWhile_append_dropWhile]
  signs := hsign
  digits_ne := hne
  digits_all := fun c hc => List.mem_takeWhile_imp hc
  rest_start := by
    intro c hc
    cases hrest : u.dropWhile isdigit with
    | nil =>
        rw [hrest] at hc
        cases hc
    | cons d t =>
        rw [hrest] at hc
        obtain rfl := Option.some.inj hc
        have hne : u.dropWhile isdigit ≠ [] := by
          rw [hrest]
          exact List.cons_ne_nil _ _
        have hhead := List.head_dropWhile_not isdigit hne
        simpa [hrest] using hhead

/-- What is no numeral is not read. -/
theorem exists_numeral {v : Bytes} {n : Nat} (h : stoul v = some n) :
    ∃ sign ds rest, Numeral v sign ds rest := by
  unfold stoul at h
  have hne : ∀ {u : Bytes} {x : Option Nat},
      (if (u.takeWhile isdigit).isEmpty then none else x) = some n → u.takeWhile isdigit ≠ [] := by
    intro u x hx hnil
    rw [hnil] at hx
    cases hx
  dsimp only at h
  split at h
  case h_1 r ht => exact ⟨_, _, _, numeral_of_split (.inr (.inl rfl)) ht (hne h)⟩
  case h_2 r ht => exact ⟨_, _, _, numeral_of_split (.inr (.inr rfl)) ht (hne h)⟩
  case h_3 => exact ⟨_, _, _, numeral_of_split (.inl rfl) rfl (hne h)⟩

/-! ## The grammar of the header -/

/-- `v` is a string of digits worth `n`, with white space around it. -/
def Decimal (v : Bytes) (n : Nat) : Prop :=
  ∃ left ds right, v = left ++ (ds ++ right) ∧ (∀ c ∈ left, isspace c) ∧ (∀ c ∈ right, isspace c) ∧
    ds ≠ [] ∧ (∀ c ∈ ds, isdigit c) ∧ decValue ds = n

/-- A length that `std::stoul` reads and the limit allows, in a value that has a
sign, or behind its digits something other than white space. -/
def LenientLength (v : Bytes) : Prop :=
  ∃ sign ds rest n, Numeral v sign ds rest ∧ numeralValue sign ds = some n ∧ n ≤ maxBodyBytes ∧
    (sign ≠ [] ∨ ∃ c ∈ rest, isspace c = false)

/-- White space is no digit. -/
theorem isdigit_of_isspace {c : UInt8} (h : isspace c = true) : isdigit c = false := by
  by_contra hdigit
  have := (not_isspace_of_isdigit (eq_true_of_ne_false hdigit)).1
  rw [h] at this
  cases this

theorem Decimal.numeral {v : Bytes} {n : Nat} (h : Decimal v n) :
    ∃ ds rest, Numeral v [] ds rest ∧ (∀ c ∈ rest, isspace c) ∧ decValue ds = n := by
  rcases h with ⟨left, ds, right, hv, hleft, hright, hne, hds, hn⟩
  refine ⟨ds, right, ⟨⟨left, hleft, hv⟩, Or.inl rfl, hne, hds, ?_⟩, hright, hn⟩
  intro c hc
  exact isdigit_of_isspace (hright c (List.mem_of_mem_head? hc))

/-- A decimal number is read as it is. -/
theorem stoul_decimal {v : Bytes} {n : Nat} (h : Decimal v n) (hn : n ≤ maxBodyBytes) :
    stoul v = some n := by
  have hmax := maxBodyBytes_lt
  rcases h.numeral with ⟨ds, rest, hnum, -, hvalue⟩
  rw [hnum.stoul_eq]
  unfold numeralValue
  rw [hvalue, if_pos (by omega), if_neg (List.cons_ne_nil _ _).symm]

/-- A value that is read within the limit is a decimal number or one of the
others. -/
theorem decimal_of_read {v : Bytes} {n : Nat} (h : stoul v = some n) (hn : n ≤ maxBodyBytes)
    (hlenient : ¬ LenientLength v) : Decimal v n := by
  rcases exists_numeral h with ⟨sign, ds, rest, hnum⟩
  have hvalue := hnum.stoul_eq
  rw [h] at hvalue
  by_cases hsign : sign ≠ []
  · exact absurd ⟨sign, ds, rest, n, hnum, hvalue.symm, hn, Or.inl hsign⟩ hlenient
  by_cases hrest : ∃ c ∈ rest, isspace c = false
  · exact absurd ⟨sign, ds, rest, n, hnum, hvalue.symm, hn, Or.inr hrest⟩ hlenient
  obtain rfl : sign = [] := by simpa using hsign
  rcases hnum.split with ⟨left, hleft, hv⟩
  refine ⟨left, ds, rest, hv, hleft, ?_, hnum.digits_ne, hnum.digits_all, ?_⟩
  · intro c hc
    by_contra hspace
    exact hrest ⟨c, hc, eq_false_of_ne_true hspace⟩
  · unfold numeralValue at hvalue
    by_cases hbig : decValue ds < 2 ^ 64
    · rw [if_pos hbig, if_neg (List.cons_ne_nil _ _).symm] at hvalue
      exact (Option.some.inj hvalue).symm
    · rw [if_neg hbig] at hvalue
      cases hvalue

/-- None of the others is a decimal number. -/
theorem LenientLength.not_decimal {v : Bytes} (h : LenientLength v) (n : Nat) : ¬ Decimal v n := by
  intro hdec
  rcases h with ⟨sign, ds, rest, m, hnum, -, -, hextra⟩
  rcases hdec.numeral with ⟨ds', rest', hnum', hspace, -⟩
  rcases hnum.unique hnum' with ⟨hsign, -, hrest⟩
  rcases hextra with hs | ⟨c, hc, hno⟩
  · exact hs hsign.symm
  · rw [← hrest] at hc
    rw [hspace c hc] at hno
    cases hno

/-! ## A head with one length -/

/-- A later line of this name replaces an earlier one. -/
theorem lastValue_cons (name : Bytes) (old : Option Bytes) (l : Bytes) (ls : List Bytes) :
    lastValue name old (l :: ls) =
      lastValue name ((fieldOf l).elim old fun f => if name = f.1 then some f.2 else old) ls := by
  rw [lastValue]
  cases fieldOf l with
  | none => rfl
  | some f => rfl

theorem lastValue_append (name : Bytes) (old : Option Bytes) (ls ls' : List Bytes) :
    lastValue name old (ls ++ ls') = lastValue name (lastValue name old ls) ls' := by
  induction ls generalizing old with
  | nil => rfl
  | cons l ls ih => rw [List.cons_append, lastValue_cons, lastValue_cons, ih]

/-- Lines of other names leave the value alone. -/
theorem lastValue_other {name : Bytes} {ls : List Bytes}
    (h : ∀ l ∈ ls, ∀ f, fieldOf l = some f → f.1 ≠ name) (old : Option Bytes) :
    lastValue name old ls = old := by
  induction ls generalizing old with
  | nil => rfl
  | cons l ls ih =>
      have hrest := ih fun l' hl' => h l' (List.mem_cons_of_mem _ hl')
      rw [lastValue_cons]
      cases hf : fieldOf l with
      | none => exact hrest old
      | some f =>
          have hne : name ≠ f.1 := (h l List.mem_cons_self f hf).symm
          rw [Option.elim_some, if_neg hne]
          exact hrest old

/-- The head of `raw` has one framing header, the line `Content-Length:` with `v`
behind the colon, and is within the limit; `body` is what has arrived behind it. -/
structure OnlyLength (raw v body : Bytes) : Prop where
  span : headerSpan raw ≤ maxHeaderBytes
  head : ∃ before behind, HeadOf raw (before ++ (lit "Content-Length:" ++ v) :: behind) body ∧
    ∀ l ∈ before ++ behind, ∀ f, fieldOf l = some f →
      f.1 ≠ lit "Content-Length" ∧ f.1 ≠ lit "Transfer-Encoding"

/-- The last `Content-Length` is the only one, and no `Transfer-Encoding` stands beside it. -/
theorem OnlyLength.values {raw v body : Bytes} (h : OnlyLength raw v body) :
    ∃ ls, HeadOf raw ls body ∧
      lastValue (lit "Content-Length") none ls = some (v.dropWhile isspace) ∧
      lastValue (lit "Transfer-Encoding") none ls = none := by
  rcases h.head with ⟨before, behind, hhead, hother⟩
  have hfield : fieldOf (lit "Content-Length:" ++ v) =
      some (lit "Content-Length", v.dropWhile isspace) :=
    fieldOf_field (n := lit "Content-Length") v (by decide)
  have hbefore : ∀ l ∈ before, ∀ f, fieldOf l = some f →
      f.1 ≠ lit "Content-Length" ∧ f.1 ≠ lit "Transfer-Encoding" :=
    fun l hl => hother l (List.mem_append_left _ hl)
  have hbehind : ∀ l ∈ behind, ∀ f, fieldOf l = some f →
      f.1 ≠ lit "Content-Length" ∧ f.1 ≠ lit "Transfer-Encoding" :=
    fun l hl => hother l (List.mem_append_right _ hl)
  refine ⟨_, hhead, ?_, ?_⟩
  · rw [lastValue_append, lastValue_other fun l hl f hf => (hbefore l hl f hf).1]
    rw [lastValue_cons, hfield]
    exact lastValue_other (fun l hl f hf => (hbehind l hl f hf).1) _
  · rw [lastValue_append, lastValue_other fun l hl f hf => (hbefore l hl f hf).2]
    rw [lastValue_cons, hfield]
    exact lastValue_other (fun l hl f hf => (hbehind l hl f hf).2) _

/-- The loop on a head that has arrived: the framing decision is made with nothing
read into the body so far. -/
theorem requestLinePhase_of_head {raw body : Bytes} {ls : List Bytes} (h : HeadOf raw ls body) :
    ∃ n c, c.parser = { state := .headers } ∧ c.request.body = .empty ∧ c.data.bytes = body ∧
      requestLinePhase raw.length 0 (Cursor.start raw) =
        afterDecision raw.length n c (decision c.parser ls).2 := by
  rcases h with ⟨l, rest, hfirst, hline, hfields, hlines⟩
  by_cases hmore : crlf <:+: raw
  swap
  · rw [firstLine_more hmore] at hfirst
    cases hfirst
  rcases exists_line hmore with ⟨l', rest', hl, hraw⟩
  rw [hraw, firstLine_line hl] at hfirst
  cases hfirst
  rcases exists_parts hline with ⟨m, t, v, hparts, hm⟩
  rcases requestLinePhase_line (N := raw.length) (n := 0) (c := .start raw) hl hraw hparts hm with
    ⟨hphase, hrest⟩
  -- a request line stores no header and no body
  have hempty : ((Cursor.start raw).afterLine l m t v).request.headers = ∅ :=
    HttpRequest.ofLine_headers _ _ _ _ _
  have hls : (headLines ((Cursor.start raw).afterLine l m t v).data.bytes) = (ls, some body) := by
    rw [hrest, hlines]
  rcases headersPhase_lines (N := raw.length) (n := raw.length - rest.length) hempty
    (by rw [hls]; exact hfields) (by rw [hls]) with ⟨heq, hdata⟩
  rw [hls] at heq hdata
  refine ⟨raw.length - rest.length, ((Cursor.start raw).afterLine l m t v).afterHeaders ls,
    ?_, ?_, hdata, ?_⟩
  · exact Cursor.storeHeaders_http _ _
  · rcases Cursor.storeHeaders_request ((Cursor.start raw).afterLine l m t v) ls with ⟨map, hmap⟩
    show (((Cursor.start raw).afterLine l m t v).storeHeaders ls).request.body = .empty
    rw [hmap]
    exact HttpRequest.ofLine_body _ _ _ _ _
  · rw [hphase, heq]
    show _ = afterDecision _ _ _ (decision (((Cursor.start raw).afterLine l m t v).storeHeaders
      ls).parser ls).2
    rw [Cursor.storeHeaders_http]

theorem stoul_trim (v : Bytes) : stoul (v.dropWhile isspace) = stoul v := by
  have hidem : (v.dropWhile isspace).dropWhile isspace = v.dropWhile isspace :=
    List.dropWhile_idempotent isspace v
  unfold stoul
  rw [hidem]

theorem not_namesChunked_none : ¬ NamesChunked none := by
  rintro ⟨v, hv, -⟩
  cases hv

/-- The header section is read, and the parser stands in front of the body. -/
theorem OnlyLength.parse {raw v body : Bytes} (h : OnlyLength raw v body) :
    ∃ n c, c.parser = { state := .headers } ∧ c.request.body = .empty ∧ c.data.bytes = body ∧
      parseRequest {} raw {} =
        (afterDecision raw.length n c
          (framing c.parser (some (v.dropWhile isspace)) none).2).map fun r =>
            ⟨r.1, r.2.parser, r.2.request, r.2.buffer⟩ := by
  rcases h.values with ⟨ls, hhead, hlength, hcoding⟩
  rcases requestLinePhase_of_head hhead with ⟨n, c, hparser, hbody, hdata, hphase⟩
  refine ⟨n, c, hparser, hbody, hdata, ?_⟩
  rw [parseRequest_eq, if_neg (Nat.not_lt.2 h.span), hphase]
  unfold decision
  rw [hlength, hcoding]

/-- A length that is read: the body is awaited, and taken once it is there. -/
theorem parse_length {raw v body : Bytes} (h : OnlyLength raw v body) {n : Nat}
    (hv : stoul v = some n) (hn : n ≤ maxBodyBytes) :
    ∃ r, parseRequest {} raw {} = some r ∧ r.parser.state ≠ .error ∧
      (r.isComplete = true ↔ n ≤ body.length) ∧
      (r.isComplete = true → r.request.body.bytes = body.take n) := by
  rcases h.parse with ⟨m, c, hparser, hbody, hdata, hparse⟩
  rw [hparse, framing_length c.parser not_namesChunked_none (stoul_trim v ▸ hv) hn]
  unfold afterDecision
  by_cases hpos : n > 0
  · -- the body phase
    have hchunked : c.parser.isChunked = false := by rw [hparser]
    simp only [if_pos hpos, reduceCtorEq, if_false, if_true]
    unfold bodyPhase
    rw [parseBody_sized (c := { c with
      parser := { c.parser with bodyExpectedLength := n, state := .body } }) hchunked hpos]
    dsimp only
    by_cases hshort : c.data.length < n
    · rw [if_pos hshort]
      have hlt : body.length < n := by rwa [StringView.length, hdata] at hshort
      refine ⟨_, rfl, ParsingState.noConfusion, iff_of_false ?_ (Nat.not_le.2 hlt), ?_⟩
      · simp [ParseResult.isComplete]
      · intro hc
        simp [ParseResult.isComplete] at hc
    · rw [if_neg hshort]
      -- it has arrived
      have hle : n ≤ body.length := by
        rw [StringView.length, hdata] at hshort
        exact Nat.le_of_not_lt hshort
      refine ⟨_, rfl, ParsingState.noConfusion, iff_of_true (by simp [ParseResult.isComplete]) hle, ?_⟩
      intro _
      show (c.data.bytes.drop 0).take n = body.take n
      rw [List.drop_zero, hdata]
  · -- nothing to wait for
    obtain rfl : n = 0 := by omega
    simp only [if_neg hpos, reduceCtorEq, if_false]
    refine ⟨_, rfl, ParsingState.noConfusion,
      iff_of_true (by simp [ParseResult.isComplete]) (Nat.zero_le _), ?_⟩
    intro _
    show c.request.body.bytes = body.take 0
    rw [hbody]
    rfl

/-- A length that is not read, or is over the limit. -/
theorem parse_badLength {raw v body : Bytes} (h : OnlyLength raw v body)
    (hv : ∀ n, stoul v = some n → maxBodyBytes < n) :
    ∃ r, parseRequest {} raw {} = some r ∧ r.parser.state = .error := by
  rcases h.parse with ⟨m, c, -, -, -, hparse⟩
  have herror : (framing c.parser (some (v.dropWhile isspace)) none).2.state = .error :=
    framing_badLength c.parser not_namesChunked_none (stoul_trim v ▸ hv)
  rw [hparse]
  unfold afterDecision
  rw [if_pos herror]
  exact ⟨_, rfl, herror⟩

/-! ## The length and the body -/

/-- The length is taken at its word: a decimal number within the limit says how
long the body is, anything else is an error. -/
structure HeedsLength (v body : Bytes) (r : ParseResult) : Prop where
  accepts : ∀ n, Decimal v n → n ≤ maxBodyBytes →
    r.parser.state ≠ .error ∧ (r.isComplete = true ↔ n ≤ body.length) ∧
      (r.isComplete = true → r.request.body.bytes = body.take n)
  rejects : (¬ ∃ n, Decimal v n ∧ n ≤ maxBodyBytes) → r.parser.state = .error

/-- **A length is taken at its word exactly where it is none of the lenient
ones.** -/
theorem content_length_iff {raw v body : Bytes} (h : OnlyLength raw v body) :
    ∃ r, parseRequest {} raw {} = some r ∧ (HeedsLength v body r ↔ ¬ LenientLength v) := by
  by_cases hread : ∃ n, stoul v = some n ∧ n ≤ maxBodyBytes
  · -- read within the limit: the request is accepted
    rcases hread with ⟨n, hv, hn⟩
    rcases parse_length h hv hn with ⟨r, hrun, hgood, hcomplete, hbody⟩
    refine ⟨r, hrun, ?_, ?_⟩
    · -- a lenient length is not a decimal number, so it should have been rejected
      intro hheeds hlenient
      apply hgood
      apply hheeds.rejects
      rintro ⟨m, hdec, -⟩
      exact hlenient.not_decimal m hdec
    · intro hlenient
      constructor
      · intro m hdec hm
        have hsame := stoul_decimal hdec hm
        rw [hv] at hsame
        obtain rfl := Option.some.inj hsame
        exact ⟨hgood, hcomplete, hbody⟩
      · intro hno
        exact absurd ⟨n, decimal_of_read hv hn hlenient, hn⟩ hno
  · -- not read: the request is an error
    have hbad : ∀ n, stoul v = some n → maxBodyBytes < n := by
      intro n hv
      by_contra hle
      exact hread ⟨n, hv, Nat.le_of_not_lt hle⟩
    rcases parse_badLength h hbad with ⟨r, hrun, herror⟩
    refine ⟨r, hrun, iff_of_true ?_ ?_⟩
    · constructor
      · intro n hdec hn
        exact absurd ⟨n, stoul_decimal hdec hn, hn⟩ hread
      · intro _
        exact herror
    · -- a lenient length would have been read
      rintro ⟨sign, ds, rest, n, hnum, hvalue, hn, -⟩
      exact hread ⟨n, hnum.stoul_eq.trans hvalue, hn⟩

/-- A request with a `Content-Length` of this value. -/
def sized (v body : Bytes) : Bytes :=
  lit "POST / HTTP/1.1\r\nContent-Length:" ++ v ++ (lit "\r\n\r\n" ++ body)

/-- A length with a blank in front of it. -/
theorem content_length_iff_two :
    ∃ r, parseRequest {} (sized (lit " 2") (lit "hi")) {} = some r ∧
      (HeedsLength (lit " 2") (lit "hi") r ↔ ¬ LenientLength (lit " 2")) := by
  refine content_length_iff ⟨by decide +kernel, [], [], ?_, ?_⟩
  · refine ⟨lit "POST / HTTP/1.1", lit "Content-Length: 2\r\n\r\nhi", by decide +kernel, ?_,
      by decide +kernel, by decide +kernel⟩
    intro hbad
    exact absurd (hbad (lit "POST") (lit "/") (lit "HTTP/1.1") (by decide +kernel)) (by decide)
  · intro l hl
    cases hl

set_option maxRecDepth 4096 in
/-- Minus `2 ^ 64 - 2` is read as 2. -/
theorem negative_length_accepted :
    ∃ r, parseRequest {} (sized (lit " -18446744073709551614") (lit "hi")) {} = some r ∧
      r.isComplete = true ∧ r.request.body.bytes = lit "hi" ∧
      ¬ HeedsLength (lit " -18446744073709551614") (lit "hi") r := by
  have hrun : (parseRequest {} (sized (lit " -18446744073709551614") (lit "hi")) {}).map
      (fun r => (r.isComplete, r.request.body.bytes)) = some (true, lit "hi") := by
    decide +kernel
  rcases Option.map_eq_some_iff.1 hrun with ⟨r, hr, heq⟩
  simp only [Prod.mk.injEq] at heq
  refine ⟨r, hr, heq.1, heq.2, ?_⟩
  intro hheeds
  have hlenient : LenientLength (lit " -18446744073709551614") :=
    ⟨[45], lit "18446744073709551614", [], 2, ⟨⟨[32], by decide, by decide +kernel⟩,
      by decide, by decide +kernel, by decide +kernel, by decide⟩, by decide +kernel, by decide,
      Or.inl (by decide)⟩
  have herror : r.parser.state = .error := by
    apply hheeds.rejects
    rintro ⟨m, hdec, -⟩
    exact hlenient.not_decimal m hdec
  have hdone := heq.1
  simp [ParseResult.isComplete, herror] at hdone

end Oreshnek
