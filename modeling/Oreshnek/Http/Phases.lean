import Oreshnek.Http.Chunked

/-!
# The parser in phases

The loop of `parse_request` passes once through the request line, the header
block and the body. `requestLinePhase`, `headersPhase` and `bodyPhase` say what
each passage computes, and `parseLoop_eq_phase` that the loop computes nothing
else, whatever the fuel from `parseFuel` on.

Each phase is prefix-monotone: once it has come to an end or to an error, data
that arrives behind the buffer changes neither (`requestLinePhase_extend`).
-/

namespace Oreshnek

namespace Cursor

/-- A reset parser and an empty request in front of a buffer. -/
def start (raw : Bytes) : Cursor := ⟨{}, ⟨0, raw⟩, {}, raw⟩

/-- The cursor behind a line of `n` bytes. -/
def dropLine (c : Cursor) (n : Nat) : Cursor := { c with data := c.data.removePrefix (n + 2) }

/-- The header field of a line whose colon is at `colonPos` is stored. -/
def addHeader (c : Cursor) (line : StringView) (colonPos : Nat) : Cursor :=
  { c with request := { c.request with
      headers := c.request.headers.assign (line.substr 0 colonPos)
        (trimLeft (line.substrFrom (colonPos + 1))) } }

@[simp] theorem dropLine_http (c : Cursor) (n : Nat) : (c.dropLine n).parser = c.parser := rfl
@[simp] theorem dropLine_data (c : Cursor) (n : Nat) :
    (c.dropLine n).data = c.data.removePrefix (n + 2) := rfl
@[simp] theorem dropLine_request (c : Cursor) (n : Nat) :
    (c.dropLine n).request = c.request := rfl
@[simp] theorem dropLine_buffer (c : Cursor) (n : Nat) : (c.dropLine n).buffer = c.buffer := rfl
@[simp] theorem addHeader_http (c : Cursor) (line : StringView) (i : Nat) :
    (c.addHeader line i).parser = c.parser := rfl
@[simp] theorem addHeader_data (c : Cursor) (line : StringView) (i : Nat) :
    (c.addHeader line i).data = c.data := rfl
@[simp] theorem addHeader_buffer (c : Cursor) (line : StringView) (i : Nat) :
    (c.addHeader line i).buffer = c.buffer := rfl
@[simp] theorem addHeader_extend (c : Cursor) (line : StringView) (i : Nat) (r : Bytes) :
    (c.extend r).addHeader line i = (c.addHeader line i).extend r := rfl

theorem dropLine_extend (c : Cursor) (r : Bytes) {n : Nat} (h : n + 2 ≤ c.data.length) :
    (c.extend r).dropLine n = (c.dropLine n).extend r := by
  simp only [dropLine, extend, StringView.extend_removePrefix _ _ h]

theorem dropLine_bytes {c : Cursor} {l rest : Bytes} (h : c.data.bytes = l ++ crlf ++ rest) :
    (c.dropLine l.length).data.bytes = rest := by
  rw [dropLine_data, StringView.removePrefix_bytes, h, drop_line]

/-- The unread view is the rest of the memory it points into. -/
structure Aligned (c : Cursor) : Prop where
  pos_le : c.data.pos ≤ c.buffer.length
  bytes : c.data.bytes = c.buffer.drop c.data.pos

theorem Aligned.length {c : Cursor} (h : c.Aligned) :
    c.data.pos + c.data.length = c.buffer.length := by
  have := h.pos_le
  rw [StringView.length, h.bytes, List.length_drop]
  omega

theorem start_aligned (raw : Bytes) : (start raw).Aligned := ⟨Nat.zero_le _, rfl⟩

/-- A step that only drops bytes from the view keeps it so. -/
theorem Aligned.removePrefix {c c' : Cursor} {n : Nat} (h : c.Aligned) (hn : n ≤ c.data.length)
    (hdata : c'.data = c.data.removePrefix n) (hbuf : c'.buffer = c.buffer) : c'.Aligned := by
  have hlen := h.length
  constructor
  · rw [hdata, hbuf]
    simp only [StringView.removePrefix]
    omega
  · rw [hdata, hbuf, StringView.removePrefix_bytes, h.bytes, List.drop_drop]
    rfl

end Cursor

/-! ## Request line -/

theorem parseRequestLine_more {c : Cursor} (h : ¬ crlf <:+: c.data.bytes) :
    parseRequestLine c = (false, c) := by
  have hfind : c.data.find crlf = none := Search.find_eq_none_iff.2 h
  unfold parseRequestLine
  rw [hfind]

/-- A complete request line gives the HEADERS state or the ERROR state. -/
theorem parseRequestLine_state {c : Cursor} {e : Nat} (h : c.data.find crlf = some e) :
    (parseRequestLine c).2.parser.state = .headers ∨
      (parseRequestLine c).2.parser.state = .error := by
  unfold parseRequestLine
  rw [h]
  dsimp only
  split
  case h_1 =>
    split
    · right; rfl
    · left; rfl
  case h_2 => right; rfl

/-- The request line is dropped, whatever it says. -/
theorem parseRequestLine_data {c : Cursor} {e : Nat} (h : c.data.find crlf = some e) :
    (parseRequestLine c).2.data = c.data.removePrefix (e + 2) ∧
      (parseRequestLine c).2.buffer = c.buffer := by
  unfold parseRequestLine
  rw [h]
  dsimp only
  split
  case h_1 =>
    split
    · exact ⟨rfl, rfl⟩
    · exact ⟨rfl, rfl⟩
  case h_2 => exact ⟨rfl, rfl⟩

/-- A request line that has its CRLF is parsed alike when more bytes arrive. -/
theorem parseRequestLine_extend {c : Cursor} {e : Nat} (h : c.data.find crlf = some e)
    (r : Bytes) :
    parseRequestLine (c.extend r) = ((parseRequestLine c).1, (parseRequestLine c).2.extend r) := by
  have hle : e + 2 ≤ c.data.length := c.data.find_add_le h
  have hfind : (c.extend r).data.find crlf = some e := c.data.extend_find r h
  unfold parseRequestLine
  rw [hfind, h]
  simp only [Cursor.extend_data, StringView.extend_substr _ _ (show e ≤ c.data.length by omega),
    StringView.extend_removePrefix _ _ hle]
  split
  case h_1 =>
    split
    · rfl
    · rfl
  case h_2 => rfl

/-! ## Header block -/

/-- The outcomes of a framing decision. -/
def Decided (ok : Bool) (p : HttpParser) : Prop :=
  (ok = false ∧ p.state = .error) ∨
    (ok = true ∧ p.state = .body ∧ (p.isChunked ∨ 0 < p.bodyExpectedLength)) ∨
    (ok = true ∧ p.state = .complete)

/-- The framing decision leaves the body phase, a complete request or an error. -/
theorem framing_decided (p : HttpParser) (cl te : Option Bytes) :
    Decided (framing p cl te).1 (framing p cl te).2 := by
  have hlength : ∀ q : HttpParser, Decided true
      { q with state := if q.bodyExpectedLength > 0 then .body else .complete } := by
    intro q
    by_cases hpos : q.bodyExpectedLength > 0
    · exact Or.inr (Or.inl ⟨rfl, if_pos hpos, Or.inr hpos⟩)
    · exact Or.inr (Or.inr ⟨rfl, if_neg hpos⟩)
  unfold framing
  dsimp only
  split
  · exact Or.inl ⟨rfl, rfl⟩
  split
  · exact Or.inr (Or.inl ⟨rfl, rfl, Or.inl rfl⟩)
  split
  case h_1 => exact hlength p
  case h_2 v =>
    split
    case h_1 => exact Or.inl ⟨rfl, rfl⟩
    case h_2 n _ =>
      split
      · exact Or.inl ⟨rfl, rfl⟩
      · exact hlength { p with bodyExpectedLength := n }

@[simp] theorem endOfHeaders_data (c : Cursor) : (endOfHeaders c).2.data = c.data := rfl
@[simp] theorem endOfHeaders_request (c : Cursor) : (endOfHeaders c).2.request = c.request := rfl
@[simp] theorem endOfHeaders_buffer (c : Cursor) : (endOfHeaders c).2.buffer = c.buffer := rfl

theorem endOfHeaders_extend (c : Cursor) (r : Bytes) :
    endOfHeaders (c.extend r) = ((endOfHeaders c).1, (endOfHeaders c).2.extend r) := rfl

theorem endOfHeaders_decided (c : Cursor) :
    Decided (endOfHeaders c).1 (endOfHeaders c).2.parser := framing_decided _ _ _

theorem parseHeaders_more {c : Cursor} (h : ¬ crlf <:+: c.data.bytes) :
    parseHeaders c = (false, c) := by
  rw [parseHeaders]
  exact match_find_more h _ _

/-- One turn of `parse_headers` on a complete line. -/
theorem parseHeaders_line {c : Cursor} {l rest : Bytes} (hl : ¬ crlf <:+: l)
    (hdata : c.data.bytes = l ++ crlf ++ rest) :
    parseHeaders c =
      if l = [] then endOfHeaders (c.dropLine 0)
      else
        match Search.find (lit ":") l with
        | none => (false, (c.dropLine l.length).fail (lit "Invalid header format: " ++ l))
        | some colonPos =>
            parseHeaders ((c.dropLine l.length).addHeader ⟨c.data.pos, l⟩ colonPos) := by
  have hline := (StringView.find_line hl hdata).2
  rw [parseHeaders]
  refine (match_find_line hl hdata _ _).trans ?_
  dsimp only
  rw [hline]
  by_cases hnil : l = []
  · subst hnil
    rfl
  · rw [if_neg (by simpa using hnil), if_neg hnil]
    rfl

/-- What `parse_headers` leaves: it waits in the HEADERS state for the end of a
line, or the framing decision was reached, or it failed. -/
theorem parseHeaders_decided {c : Cursor} (hstate : c.parser.state = .headers) :
    ((parseHeaders c).1 = false ∧ (parseHeaders c).2.parser.state = .headers ∧
        ¬ crlf <:+: (parseHeaders c).2.data.bytes) ∨
      Decided (parseHeaders c).1 (parseHeaders c).2.parser := by
  induction hb : c.data.bytes using line_induction generalizing c with
  | stop b h =>
      rw [parseHeaders_more (hb ▸ h)]
      exact Or.inl ⟨rfl, hstate, hb ▸ h⟩
  | line l rest hl ih =>
      rw [parseHeaders_line hl hb]
      by_cases hnil : l = []
      · rw [if_pos hnil]
        exact Or.inr (endOfHeaders_decided _)
      rw [if_neg hnil]
      cases Search.find (lit ":") l with
      | none => exact Or.inr (Or.inl ⟨rfl, rfl⟩)
      | some colonPos =>
          exact ih (c := (c.dropLine l.length).addHeader ⟨c.data.pos, l⟩ colonPos) hstate
            (c.dropLine_bytes hb)

/-- The view moves forward inside the buffer. -/
theorem parseHeaders_data (c : Cursor) :
    (∃ n, n ≤ c.data.length ∧ (parseHeaders c).2.data = c.data.removePrefix n) ∧
      (parseHeaders c).2.buffer = c.buffer := by
  induction hb : c.data.bytes using line_induction generalizing c with
  | stop b h =>
      rw [parseHeaders_more (hb ▸ h)]
      exact ⟨⟨0, Nat.zero_le _, rfl⟩, rfl⟩
  | line l rest hl ih =>
      have hlen : l.length + 2 ≤ c.data.length := by
        simp [StringView.length, hb, crlf]
      rw [parseHeaders_line hl hb]
      by_cases hnil : l = []
      · rw [if_pos hnil]
        exact ⟨⟨2, by omega, rfl⟩, rfl⟩
      rw [if_neg hnil]
      cases Search.find (lit ":") l with
      | none => exact ⟨⟨l.length + 2, hlen, rfl⟩, rfl⟩
      | some colonPos =>
          obtain ⟨⟨n, hn, hdata⟩, hbuf⟩ :=
            ih ((c.dropLine l.length).addHeader ⟨c.data.pos, l⟩ colonPos) (c.dropLine_bytes hb)
          refine ⟨⟨l.length + 2 + n, ?_, ?_⟩, hbuf⟩
          · simp [StringView.length] at hn hlen ⊢
            omega
          · dsimp only
            rw [hdata]
            simp [StringView.removePrefix, Nat.add_assoc]

/-- Header lines that have arrived are read the same way when more follows. -/
theorem parseHeaders_extend {c : Cursor} (hstate : c.parser.state = .headers)
    (h : (parseHeaders c).2.parser.state ≠ .headers) (r : Bytes) :
    parseHeaders (c.extend r) = ((parseHeaders c).1, (parseHeaders c).2.extend r) := by
  induction hb : c.data.bytes using line_induction generalizing c with
  | stop b hmore =>
      rw [parseHeaders_more (hb ▸ hmore)] at h
      exact absurd hstate h
  | line l rest hl ih =>
      have hlen : l.length + 2 ≤ c.data.length := by
        simp [StringView.length, hb, crlf]
      have hb' : (c.extend r).data.bytes = l ++ crlf ++ (rest ++ r) := by
        rw [Cursor.extend_data, StringView.extend_bytes, hb, List.append_assoc]
      rw [parseHeaders_line hl hb] at h ⊢
      rw [parseHeaders_line hl hb']
      by_cases hnil : l = []
      · rw [if_pos hnil, if_pos hnil, c.dropLine_extend r (by omega)]
        exact endOfHeaders_extend _ r
      rw [if_neg hnil] at h ⊢
      rw [if_neg hnil, c.dropLine_extend r hlen]
      cases hcolon : Search.find (lit ":") l with
      | none => rfl
      | some colonPos =>
          rw [hcolon] at h
          exact ih (c := (c.dropLine l.length).addHeader ⟨c.data.pos, l⟩ colonPos) hstate h
            (c.dropLine_bytes hb)

/-! ## Body -/

theorem parseBody_chunked {c : Cursor} (h : c.parser.isChunked = true) :
    parseBody c = parseChunkedBody c := if_pos h

/-- A body of known length is taken when it has come in whole. -/
theorem parseBody_sized {c : Cursor} (h : c.parser.isChunked = false)
    (hpos : 0 < c.parser.bodyExpectedLength) :
    parseBody c =
      if c.data.length < c.parser.bodyExpectedLength then some (false, c)
      else
        some (true, { c with
          parser := { c.parser with state := .complete }
          request := { c.request with body := c.data.substr 0 c.parser.bodyExpectedLength }
          data := c.data.removePrefix c.parser.bodyExpectedLength }) := by
  unfold parseBody
  rw [if_neg (by simp [h]), if_pos hpos]

theorem parseBody_none {c : Cursor} (h : c.parser.isChunked = false)
    (hpos : ¬ 0 < c.parser.bodyExpectedLength) :
    parseBody c = some (true, c.setState .complete) := by
  unfold parseBody
  rw [if_neg (by simp [h]), if_neg hpos]

/-- The ways in which a body step can end. -/
inductive BodyStep (c : Cursor) : Bool → Cursor → Prop where
  | waits : BodyStep c false c
  | failed (message : Bytes) : BodyStep c false (c.fail message)
  | chunked (d : Bytes × Bytes) (hd : decodeChunks c.data.bytes = some d) :
      BodyStep c true { c with
        parser := { c.parser with state := .complete }
        data := ⟨c.data.pos + (c.data.length - d.2.length), d.2⟩
        request := { c.request with body := ⟨c.data.pos, d.1⟩ }
        buffer := c.buffer.take c.data.pos ++ (d.1 ++ c.data.bytes.drop d.1.length) }
  | sized (hle : c.parser.bodyExpectedLength ≤ c.data.length) :
      BodyStep c true { c with
        parser := { c.parser with state := .complete }
        request := { c.request with body := c.data.substr 0 c.parser.bodyExpectedLength }
        data := c.data.removePrefix c.parser.bodyExpectedLength }
  | none : BodyStep c true (c.setState .complete)

/-- What a step on the body can do, guards included. -/
theorem parseBody_step {c c' : Cursor} {ok : Bool} (h : parseBody c = some (ok, c')) :
    BodyStep c ok c' := by
  by_cases hchunked : c.parser.isChunked = true
  · rw [parseBody_chunked hchunked, parseChunkedBody_eq] at h
    cases hscan : scanChunks c.data.bytes 0 with
    | needMore =>
        rw [hscan] at h
        cases h
        exact .waits
    | error m =>
        rw [hscan] at h
        cases h
        exact .failed m
    | complete =>
        rw [hscan, Option.map_eq_some_iff] at h
        obtain ⟨d, hd, heq⟩ := h
        cases heq
        exact .chunked d hd
  rw [Bool.not_eq_true] at hchunked
  by_cases hpos : 0 < c.parser.bodyExpectedLength
  · rw [parseBody_sized hchunked hpos] at h
    split at h
    · cases h
      exact .waits
    case isFalse hshort =>
      cases h
      exact .sized (Nat.le_of_not_lt hshort)
  · rw [parseBody_none hchunked hpos] at h
    cases h
    exact .none

/-- A body step completes, fails or waits with the cursor as it was; it never
gives bytes back. -/
theorem parseBody_cases {c c' : Cursor} {ok : Bool} (h : parseBody c = some (ok, c')) :
    ((ok = true ∧ c'.parser.state = .complete) ∨ (ok = false ∧ ∃ m, c' = c.fail m) ∨
      (ok = false ∧ c' = c)) ∧ c'.data.length ≤ c.data.length := by
  cases parseBody_step h with
  | waits => exact ⟨Or.inr (Or.inr ⟨rfl, rfl⟩), Nat.le_refl _⟩
  | failed m => exact ⟨Or.inr (Or.inl ⟨rfl, m, rfl⟩), Nat.le_refl _⟩
  | chunked d hd => exact ⟨Or.inl ⟨rfl, rfl⟩, (decodeChunks_bounds hd).1.length_le⟩
  | sized hle => exact ⟨Or.inl ⟨rfl, rfl⟩, by simp [StringView.length]⟩
  | none => exact ⟨Or.inl ⟨rfl, rfl⟩, Nat.le_refl _⟩

/-- A body step leaves the view aligned in a buffer of the same size. -/
theorem parseBody_aligned {c c' : Cursor} {ok : Bool} (hin : c.Aligned)
    (h : parseBody c = some (ok, c')) : c'.Aligned ∧ c'.buffer.length = c.buffer.length := by
  have hlen := hin.length
  cases parseBody_step h with
  | waits => exact ⟨hin, rfl⟩
  | failed m => exact ⟨⟨hin.pos_le, hin.bytes⟩, rfl⟩
  | chunked d hd =>
      obtain ⟨hsuf, hle⟩ := decodeChunks_bounds hd
      have hbuf : (c.buffer.take c.data.pos ++
          (d.1 ++ c.data.bytes.drop d.1.length)).length = c.buffer.length := by
        simp only [List.length_append, List.length_take, List.length_drop]
        unfold StringView.length at hlen
        omega
      refine ⟨⟨?_, ?_⟩, hbuf⟩
      · rw [hbuf]
        show c.data.pos + (c.data.length - d.2.length) ≤ c.buffer.length
        omega
      · -- the rest lies behind what the decoder wrote
        show d.2 = _
        have hpos : (c.buffer.take c.data.pos).length = c.data.pos := by
          rw [List.length_take]
          omega
        have hcur : c.data.length - d.2.length =
            d.1.length + (c.data.length - d.2.length - d.1.length) := by
          unfold StringView.length
          omega
        calc d.2
            = c.data.bytes.drop (c.data.length - d.2.length) := List.suffix_iff_eq_drop.1 hsuf
          _ = (d.1 ++ c.data.bytes.drop d.1.length).drop (c.data.length - d.2.length) := by
              conv_rhs => rw [hcur, List.drop_length_add_append, List.drop_drop, ← hcur]
          _ = (c.buffer.take c.data.pos ++ (d.1 ++ c.data.bytes.drop d.1.length)).drop
                (c.data.pos + (c.data.length - d.2.length)) := by
              have := @List.drop_length_add_append _ (c.buffer.take c.data.pos)
                (d.1 ++ c.data.bytes.drop d.1.length) (c.data.length - d.2.length)
              rw [hpos] at this
              exact this.symm
  | sized hle => exact ⟨hin.removePrefix hle rfl rfl, rfl⟩
  | none => exact ⟨⟨hin.pos_le, hin.bytes⟩, rfl⟩

/-- With no byte to read, a body that is not empty waits. -/
theorem parseBody_nil {c : Cursor} (hempty : c.data.bytes = [])
    (hbody : c.parser.isChunked ∨ 0 < c.parser.bodyExpectedLength) :
    parseBody c = some (false, c) := by
  by_cases hchunked : c.parser.isChunked = true
  · rw [parseBody_chunked hchunked, parseChunkedBody_eq, hempty, scanChunks_more (by decide)]
  rw [Bool.not_eq_true] at hchunked
  have hpos : 0 < c.parser.bodyExpectedLength := by
    rcases hbody with h | h
    · rw [hchunked] at h
      cases h
    · exact h
  rw [parseBody_sized hchunked hpos, if_pos]
  simpa [StringView.length, hempty] using hpos

/-- A body that has arrived is read the same way when more follows. -/
theorem parseBody_extend {c : Cursor} (hin : c.Aligned)
    (h : parseBody c ≠ some (false, c)) (r : Bytes) :
    parseBody (c.extend r) = (parseBody c).map fun x => (x.1, x.2.extend r) := by
  by_cases hchunked : c.parser.isChunked = true
  · rw [parseBody_chunked hchunked, parseChunkedBody_eq] at h
    rw [parseBody_chunked (c := c.extend r) hchunked, parseBody_chunked hchunked,
      parseChunkedBody_eq, parseChunkedBody_eq, Cursor.extend_data, StringView.extend_bytes]
    cases hscan : scanChunks c.data.bytes 0 with
    | needMore =>
        rw [hscan] at h
        exact absurd rfl h
    | error m =>
        rw [scanChunks_append (by rw [hscan]; exact ChunkScan.noConfusion), hscan]
        rfl
    | complete =>
        rw [scanChunks_append (by rw [hscan]; exact ChunkScan.noConfusion), hscan]
        cases hd : decodeChunks c.data.bytes with
        | none =>
            rw [decodeChunks_none_append hscan hd]
            rfl
        | some d =>
            -- both passes stay in front of what arrives later
            obtain ⟨hsuf, hle⟩ := decodeChunks_bounds hd
            have hbuf : (c.buffer ++ r).take c.data.pos = c.buffer.take c.data.pos :=
              List.take_append_of_le_length hin.pos_le
            have htail : (c.data.bytes ++ r).drop d.1.length =
                c.data.bytes.drop d.1.length ++ r :=
              List.drop_append_of_le_length (by omega)
            have hcur : (c.data.extend r).length - (d.2 ++ r).length =
                c.data.length - d.2.length := by
              simp only [StringView.length, StringView.extend_bytes, List.length_append]
              omega
            rw [decodeChunks_append hd]
            simp only [Option.map_some, hcur, htail]
            simp [Cursor.extend, StringView.extend, hbuf]
  rw [Bool.not_eq_true] at hchunked
  by_cases hpos : 0 < c.parser.bodyExpectedLength
  · rw [parseBody_sized hchunked hpos] at h
    rw [parseBody_sized (c := c.extend r) hchunked hpos, parseBody_sized hchunked hpos]
    by_cases hshort : c.data.length < c.parser.bodyExpectedLength
    · rw [if_pos hshort] at h
      exact absurd rfl h
    have hle : c.parser.bodyExpectedLength ≤ c.data.length := Nat.le_of_not_lt hshort
    -- what was long enough stays so
    have hlong : ¬ (c.extend r).data.length < (c.extend r).parser.bodyExpectedLength := by
      simp only [StringView.length, Cursor.extend_data, Cursor.extend_http,
        StringView.extend_bytes, List.length_append] at hle ⊢
      omega
    rw [if_neg hshort, if_neg hlong]
    simp only [Cursor.extend_data, Cursor.extend_http, StringView.extend_substr _ _ hle,
      StringView.extend_removePrefix _ _ hle]
    rfl
  · rw [parseBody_none (c := c.extend r) hchunked hpos, parseBody_none hchunked hpos]
    rfl

/-! ## The loop, phase by phase -/

/-- The body turn of the loop, with `n` bytes processed before it. -/
def bodyPhase (rawLength n : Nat) (c : Cursor) : Option (Nat × Cursor) :=
  (parseBody c).map fun x =>
    (if x.2.parser.state = .error then n else rawLength - x.2.data.length, x.2)

/-- The header turns of the loop and what follows them. -/
def headersPhase (rawLength n : Nat) (c : Cursor) : Option (Nat × Cursor) :=
  let c' := (parseHeaders c).2
  if c'.parser.state = .error then some (n, c')
  else if c'.parser.state = .body then bodyPhase rawLength (rawLength - c'.data.length) c'
  else some (rawLength - c'.data.length, c')

/-- The whole loop, from the request line on. -/
def requestLinePhase (rawLength n : Nat) (c : Cursor) : Option (Nat × Cursor) :=
  let c' := (parseRequestLine c).2
  if c'.parser.state = .headers then headersPhase rawLength (rawLength - c'.data.length) c'
  else some (n, c')

/-- The loop ends in its last two states. -/
theorem parseLoop_done {c : Cursor} (h : c.parser.state = .complete ∨ c.parser.state = .error)
    (rawLength fuel n : Nat) : parseLoop rawLength fuel n c = some (n, c) := by
  cases fuel with
  | zero => rfl
  | succ fuel =>
      unfold parseLoop
      rw [if_pos]
      rcases h with h | h
      · exact Or.inl h
      · exact Or.inr (Or.inl h)

/-- One turn that finds bytes to read. -/
theorem parseLoop_turn {rawLength fuel : Nat} {c c' : Cursor} {ok : Bool}
    (hstep : parseStep c = some (ok, c'))
    (hgo : ¬ (c.parser.state = .complete ∨ c.parser.state = .error ∨ c.data.bytes = []))
    (hle : c'.data.length ≤ c.data.length) (hlen : c.data.length ≤ rawLength) :
    parseLoop rawLength (fuel + 1) (rawLength - c.data.length) c =
      if c'.parser.state = .error then some (rawLength - c.data.length, c')
      else if !ok && c'.data.length == c.data.length then some (rawLength - c'.data.length, c')
      else parseLoop rawLength fuel (rawLength - c'.data.length) c' := by
  have hsum : rawLength - c.data.length + (rawLength - c'.data.length -
      (rawLength - c.data.length)) = rawLength - c'.data.length := by omega
  have hzero : (rawLength - c'.data.length - (rawLength - c.data.length) == 0) =
      (c'.data.length == c.data.length) := by
    rw [Bool.eq_iff_iff, beq_iff_eq, beq_iff_eq]
    omega
  rw [parseLoop, if_neg hgo, hstep]
  simp only [hsum, hzero]

/-- A body with something to wait for takes one turn. -/
theorem parseLoop_body {rawLength fuel : Nat} {c : Cursor} (hstate : c.parser.state = .body)
    (hbody : c.parser.isChunked ∨ 0 < c.parser.bodyExpectedLength) (hfuel : 1 ≤ fuel)
    (hlen : c.data.length ≤ rawLength) :
    parseLoop rawLength fuel (rawLength - c.data.length) c =
      bodyPhase rawLength (rawLength - c.data.length) c := by
  obtain ⟨fuel, rfl⟩ := Nat.exists_eq_add_of_le' hfuel
  have hstep : parseStep c = parseBody c := by
    unfold parseStep
    rw [hstate]
  unfold bodyPhase
  by_cases hempty : c.data.bytes = []
  · -- nothing has arrived: the turn would wait
    rw [parseLoop, if_pos (Or.inr (Or.inr hempty)), parseBody_nil hempty hbody]
    simp [hstate]
  have hgo : ¬ (c.parser.state = .complete ∨ c.parser.state = .error ∨ c.data.bytes = []) := by
    rw [hstate]
    simp [hempty]
  cases hb : parseBody c with
  | none => rw [parseLoop, if_neg hgo, hstep, hb]; rfl
  | some x =>
      obtain ⟨ok, c'⟩ := x
      obtain ⟨hcases, hle⟩ := parseBody_cases hb
      rw [parseLoop_turn (hstep.trans hb) hgo hle hlen]
      rcases hcases with ⟨rfl, hc'⟩ | ⟨rfl, m, rfl⟩ | ⟨rfl, rfl⟩
      · simp [hc', parseLoop_done (Or.inl hc')]
      · simp
      · simp [hstate]

/-- The header block takes one turn, one more where it waits for data, and the
body's. -/
theorem parseLoop_headers {rawLength fuel : Nat} {c : Cursor} (hstate : c.parser.state = .headers)
    (hfuel : 3 ≤ fuel) (hlen : c.data.length ≤ rawLength) :
    parseLoop rawLength fuel (rawLength - c.data.length) c =
      headersPhase rawLength (rawLength - c.data.length) c := by
  obtain ⟨fuel, rfl⟩ := Nat.exists_eq_add_of_le' hfuel
  have hstep : ∀ d : Cursor, d.parser.state = .headers →
      parseStep d = some ((parseHeaders d).1, (parseHeaders d).2) := by
    intro d hd
    unfold parseStep
    rw [hd]
  unfold headersPhase
  by_cases hempty : c.data.bytes = []
  · have hnone : ¬ crlf <:+: c.data.bytes := by rw [hempty]; decide
    rw [parseLoop, if_pos (Or.inr (Or.inr hempty)), parseHeaders_more hnone]
    simp [hstate]
  have hgo : ∀ d : Cursor, d.parser.state = .headers → d.data.bytes ≠ [] →
      ¬ (d.parser.state = .complete ∨ d.parser.state = .error ∨ d.data.bytes = []) := by
    intro d hd hne
    rw [hd]
    simp [hne]
  obtain ⟨⟨n, hn, hdata⟩, -⟩ := parseHeaders_data c
  have hle : (parseHeaders c).2.data.length ≤ c.data.length := by
    rw [hdata]
    simp [StringView.length]
  rw [parseLoop_turn (hstep c hstate) (hgo c hstate hempty) hle hlen]
  have hlen' : (parseHeaders c).2.data.length ≤ rawLength := hle.trans hlen
  rcases parseHeaders_decided hstate with ⟨hok, hst, hmore⟩ | ⟨-, hst⟩ | ⟨hok, hst, hbody⟩ | ⟨hok, hst⟩
  · -- the block is not complete: the next turn finds no line and stops the loop
    have hagain : parseHeaders (parseHeaders c).2 = (false, (parseHeaders c).2) :=
      parseHeaders_more hmore
    have hturn : parseLoop rawLength (fuel + 2) (rawLength - (parseHeaders c).2.data.length)
        (parseHeaders c).2 =
          some (rawLength - (parseHeaders c).2.data.length, (parseHeaders c).2) := by
      by_cases hnil : (parseHeaders c).2.data.bytes = []
      · rw [parseLoop, if_pos (Or.inr (Or.inr hnil))]
      · rw [parseLoop_turn (hstep _ hst) (hgo _ hst hnil) (by rw [hagain]) hlen', hagain]
        simp [hst]
    rw [hturn]
    simp [hst]
  · simp [hst]
  · rw [parseLoop_body hst hbody (by omega) hlen']
    simp [hst, hok]
  · rw [parseLoop_done (Or.inl hst)]
    simp [hst, hok]

/-- **The loop is the three phases.** No fuel from `parseFuel` on changes that. -/
theorem parseLoop_eq_phase {N fuel : Nat} {c : Cursor} (hfuel : parseFuel ≤ fuel)
    (hstate : c.parser.state = .requestLine) (hlen : c.data.length ≤ N) :
    parseLoop N fuel (N - c.data.length) c =
      requestLinePhase N (N - c.data.length) c := by
  obtain ⟨fuel, rfl⟩ : ∃ k, fuel = k + 4 := Nat.exists_eq_add_of_le' hfuel
  have hstep : parseStep c = some ((parseRequestLine c).1, (parseRequestLine c).2) := by
    unfold parseStep
    rw [hstate]
  unfold requestLinePhase
  by_cases hempty : c.data.bytes = []
  · have hnone : ¬ crlf <:+: c.data.bytes := by rw [hempty]; decide
    rw [parseLoop, if_pos (Or.inr (Or.inr hempty)), parseRequestLine_more hnone]
    simp [hstate]
  have hgo : ¬ (c.parser.state = .complete ∨ c.parser.state = .error ∨ c.data.bytes = []) := by
    rw [hstate]
    simp [hempty]
  cases hfind : c.data.find crlf with
  | none =>
      have hmore : parseRequestLine c = (false, c) :=
        parseRequestLine_more (Search.find_eq_none_iff.1 hfind)
      rw [parseLoop_turn hstep hgo (by rw [hmore]) hlen, hmore]
      simp [hstate]
  | some e =>
      obtain ⟨hdata, -⟩ := parseRequestLine_data hfind
      have hlt : (parseRequestLine c).2.data.length < c.data.length := by
        have hadd := c.data.find_add_le hfind
        simp only [hdata, StringView.length, StringView.removePrefix_bytes, List.length_drop,
          crlf, List.length_cons, List.length_nil] at hadd ⊢
        omega
      rw [parseLoop_turn hstep hgo (Nat.le_of_lt hlt) hlen]
      rcases parseRequestLine_state hfind with hst | hst
      · rw [parseLoop_headers hst (by omega) (by omega)]
        simp [hst, Nat.ne_of_lt hlt]
      · simp [hst]

/-- `parse_request` from a reset parser: the guard, then the phases. -/
theorem parseRequest_eq (raw : Bytes) :
    parseRequest {} raw {} =
      if maxHeaderBytes < headerSpan raw then
        some ⟨0, HttpParser.fail {} (lit "Header block exceeds maximum allowed size"), {}, raw⟩
      else
        (requestLinePhase raw.length 0 (Cursor.start raw)).map fun r =>
          ⟨r.1, r.2.parser, r.2.request, r.2.buffer⟩ := by
  have hloop : parseLoop raw.length parseFuel 0 (Cursor.start raw) =
      requestLinePhase raw.length 0 (Cursor.start raw) := by
    have hzero : raw.length - (Cursor.start raw).data.length = 0 := Nat.sub_self _
    have := parseLoop_eq_phase (N := raw.length) (c := Cursor.start raw)
      (Nat.le_refl parseFuel) rfl (Nat.le_refl _)
    rwa [hzero] at this
  unfold parseRequest
  by_cases hbig : maxHeaderBytes < headerSpan raw
  · rw [if_pos ⟨Or.inl rfl, hbig⟩, if_pos hbig]
  · rw [if_neg fun h => hbig h.2, if_neg hbig, ← hloop]
    rfl

/-! ## What a run consumes -/

/-- The bytes processed by a run that does not fail are those in front of the
unread view, which is the rest of the buffer. -/
structure Consumed (n : Nat) (c c' : Cursor) : Prop where
  aligned : c'.Aligned
  size : c'.buffer.length = c.buffer.length
  unread : c'.data.length ≤ c.data.length
  bytes : c'.parser.state ≠ .error → n = c'.data.pos
  same : c'.parser.state ≠ .complete → c'.buffer = c.buffer

/-- The phase of the body counts the bytes it takes off the buffer. -/
theorem bodyPhase_consumed {n k : Nat} {c c' : Cursor} (hin : c.Aligned)
    (h : bodyPhase c.buffer.length n c = some (k, c')) : Consumed k c c' := by
  unfold bodyPhase at h
  rw [Option.map_eq_some_iff] at h
  obtain ⟨⟨ok, d⟩, hd, hx⟩ := h
  obtain ⟨hal, hbuf⟩ := parseBody_aligned hin hd
  obtain ⟨hcases, hle⟩ := parseBody_cases hd
  cases hx
  refine ⟨hal, hbuf, hle, fun hne => ?_, fun hne => ?_⟩
  · have hlen := hal.length
    rw [if_neg hne]
    dsimp only at hlen hbuf ⊢
    omega
  · rcases hcases with ⟨-, hcomplete⟩ | ⟨-, m, rfl⟩ | ⟨-, rfl⟩
    · exact absurd hcomplete hne
    · rfl
    · rfl

/-- The phase of the headers counts the bytes it takes off the buffer. -/
theorem headersPhase_consumed {n k : Nat} {c c' : Cursor} (hin : c.Aligned)
    (h : headersPhase c.buffer.length n c = some (k, c')) : Consumed k c c' := by
  obtain ⟨⟨j, hj, hdata⟩, hbuf⟩ := parseHeaders_data c
  have hin' : (parseHeaders c).2.Aligned := hin.removePrefix hj hdata hbuf
  have hle : (parseHeaders c).2.data.length ≤ c.data.length := by
    rw [hdata]
    simp [StringView.length]
  have hlen := hin'.length
  unfold headersPhase at h
  dsimp only at h
  rw [← hbuf] at h
  split at h
  case isTrue herr =>
    cases h
    exact ⟨hin', by rw [hbuf], hle, fun hne => absurd herr hne, fun _ => hbuf⟩
  case isFalse =>
    split at h
    · have hbody := bodyPhase_consumed hin' h
      exact ⟨hbody.aligned, hbody.size.trans (by rw [hbuf]), hbody.unread.trans hle, hbody.bytes,
        fun hne => (hbody.same hne).trans hbuf⟩
    · cases h
      exact ⟨hin', by rw [hbuf], hle, fun _ => by omega, fun _ => hbuf⟩

/-- A run from the request line on; one that completes has consumed something. -/
theorem requestLinePhase_consumed {k : Nat} {c c' : Cursor} (hin : c.Aligned)
    (hstate : c.parser.state = .requestLine) (hpos : c.data.pos = 0)
    (h : requestLinePhase c.buffer.length 0 c = some (k, c')) :
    Consumed k c c' ∧ (c'.parser.state = .complete → c'.data.length < c.data.length) := by
  unfold requestLinePhase at h
  dsimp only at h
  cases hfind : c.data.find crlf with
  | none =>
      rw [parseRequestLine_more (Search.find_eq_none_iff.1 hfind)] at h
      simp only [hstate, reduceCtorEq, if_false] at h
      cases h
      refine ⟨⟨hin, rfl, Nat.le_refl _, fun _ => hpos.symm, fun _ => rfl⟩, fun hdone => ?_⟩
      rw [hstate] at hdone
      cases hdone
  | some e =>
      obtain ⟨hdata, hbuf⟩ := parseRequestLine_data hfind
      have hadd := c.data.find_add_le hfind
      have hin' : (parseRequestLine c).2.Aligned := hin.removePrefix hadd hdata hbuf
      have hlt : (parseRequestLine c).2.data.length < c.data.length := by
        rw [hdata]
        simp only [StringView.length, StringView.removePrefix_bytes, List.length_drop, crlf,
          List.length_cons, List.length_nil] at hadd ⊢
        omega
      rw [← hbuf] at h
      split at h
      · have hrest := headersPhase_consumed hin' h
        exact ⟨⟨hrest.aligned, hrest.size.trans (by rw [hbuf]),
          hrest.unread.trans (Nat.le_of_lt hlt), hrest.bytes,
          fun hne => (hrest.same hne).trans hbuf⟩,
          fun _ => Nat.lt_of_le_of_lt hrest.unread hlt⟩
      case isFalse hne =>
        cases h
        rcases parseRequestLine_state hfind with hst | hst
        · exact absurd hst hne
        · refine ⟨⟨hin', by rw [hbuf], Nat.le_of_lt hlt, fun hno => absurd hst hno,
            fun _ => hbuf⟩, fun hdone => ?_⟩
          rw [hst] at hdone
          cases hdone

/-! ## Data that arrives later -/

/-- An outcome that is not waiting for more data. -/
def Settled (o : Option (Nat × Cursor)) : Prop :=
  ∀ x ∈ o, x.2.parser.state = .complete ∨ x.2.parser.state = .error

theorem remaining_extend (rawLength : Nat) (v : StringView) (r : Bytes) :
    rawLength + r.length - (v.extend r).length = rawLength - v.length := by
  simp only [StringView.length, StringView.extend_bytes, List.length_append]
  omega

/-- A body that is settled does not change when more bytes come in behind it. -/
theorem bodyPhase_extend {rawLength n : Nat} {c : Cursor} (hstate : c.parser.state = .body)
    (hin : c.Aligned) (h : Settled (bodyPhase rawLength n c)) (r : Bytes) :
    bodyPhase (rawLength + r.length) n (c.extend r) =
      (bodyPhase rawLength n c).map fun x => (x.1, x.2.extend r) := by
  have hgo : parseBody c ≠ some (false, c) := by
    intro hwait
    have := h (rawLength - c.data.length, c) (by simp [bodyPhase, hwait, hstate])
    simp [hstate] at this
  unfold bodyPhase
  rw [parseBody_extend hin hgo, Option.map_map, Option.map_map]
  refine congrArg (fun f => Option.map f _) (funext fun x => ?_)
  simp only [Function.comp_apply, Cursor.extend_http, Cursor.extend_data, remaining_extend]

/-- A decision on the headers stands when more bytes arrive. -/
theorem headersPhase_extend {rawLength n : Nat} {c : Cursor}
    (hstate : c.parser.state = .headers) (hin : c.Aligned)
    (h : Settled (headersPhase rawLength n c)) (r : Bytes) :
    headersPhase (rawLength + r.length) n (c.extend r) =
      (headersPhase rawLength n c).map fun x => (x.1, x.2.extend r) := by
  obtain ⟨⟨k, hk, hdata⟩, hbuf⟩ := parseHeaders_data c
  have hin' : (parseHeaders c).2.Aligned := hin.removePrefix hk hdata hbuf
  unfold headersPhase at h ⊢
  have hdone : (parseHeaders c).2.parser.state ≠ .headers := by
    intro hwait
    simp only [hwait, reduceCtorEq, if_false] at h
    have := h _ rfl
    simp [hwait] at this
  rw [parseHeaders_extend hstate hdone]
  simp only [Cursor.extend_http, Cursor.extend_data, remaining_extend]
  by_cases herr : (parseHeaders c).2.parser.state = .error
  · rw [if_pos herr, if_pos herr]
    rfl
  rw [if_neg herr] at h
  rw [if_neg herr, if_neg herr]
  by_cases hbody : (parseHeaders c).2.parser.state = .body
  · rw [if_pos hbody] at h
    rw [if_pos hbody, if_pos hbody]
    exact bodyPhase_extend hbody hin' h r
  · rw [if_neg hbody, if_neg hbody]
    rfl

/-- **The loop is prefix-monotone**: what it has settled stays settled. -/
theorem requestLinePhase_extend {rawLength n : Nat} {c : Cursor}
    (hstate : c.parser.state = .requestLine) (hin : c.Aligned)
    (h : Settled (requestLinePhase rawLength n c)) (r : Bytes) :
    requestLinePhase (rawLength + r.length) n (c.extend r) =
      (requestLinePhase rawLength n c).map fun x => (x.1, x.2.extend r) := by
  unfold requestLinePhase at h ⊢
  cases hfind : c.data.find crlf with
  | none =>
      -- an incomplete request line settles nothing
      rw [parseRequestLine_more (Search.find_eq_none_iff.1 hfind)] at h
      simp only [hstate, reduceCtorEq, if_false] at h
      have := h _ rfl
      simp [hstate] at this
  | some e =>
      obtain ⟨hdata, hbuf⟩ := parseRequestLine_data hfind
      have hin' : (parseRequestLine c).2.Aligned :=
        hin.removePrefix (c.data.find_add_le hfind) hdata hbuf
      rw [parseRequestLine_extend hfind]
      simp only [Cursor.extend_http, Cursor.extend_data, remaining_extend]
      by_cases hst : (parseRequestLine c).2.parser.state = .headers
      · rw [if_pos hst] at h
        rw [if_pos hst, if_pos hst]
        exact headersPhase_extend hst hin' h r
      · rw [if_neg hst, if_neg hst]
        rfl

end Oreshnek
