import Oreshnek.Http.Phases

/-!
# The head of a message as lines

`headLines` splits a header block into its lines without any of the parser's
state; `fieldOf` splits a line into a name and a value. The parser's two head
phases are stated in these terms: `parseRequestLine_line` for the request line
and `parseHeaders_lines` for the header block, where the map ends up with the
last value of every name (`storeHeaders_value`).
-/

namespace Oreshnek

/-! ## Splitting -/

/-- The complete lines before the first blank line, and what follows it once it
has arrived. -/
def headLines (b : Bytes) : List Bytes × Option Bytes :=
  match h : Search.find crlf b with
  | none => ([], none)
  | some e =>
      if e = 0 then ([], some (b.drop 2))
      else
        let t := headLines (b.drop (e + 2))
        (b.take e :: t.1, t.2)
termination_by b.length
decreasing_by exact drop_line_lt h

theorem headLines_more {b : Bytes} (h : ¬ crlf <:+: b) : headLines b = ([], none) := by
  rw [headLines]
  exact match_find_more h _ _

/-- The lines of a head, the first of them in front. -/
theorem headLines_line {l : Bytes} (h : ¬ crlf <:+: l) (rest : Bytes) :
    headLines (l ++ crlf ++ rest) =
      if l = [] then ([], some rest) else (l :: (headLines rest).1, (headLines rest).2) := by
  rw [headLines]
  refine (match_find_line h rfl _ _).trans ?_
  by_cases hl : l = []
  · subst hl
    simp [crlf]
  · rw [if_neg (by simpa using hl), if_neg hl, take_line, drop_line]

/-- The name and the value of a header line: the value begins behind the colon
and the white space that follows it. -/
def fieldOf (l : Bytes) : Option (Bytes × Bytes) :=
  (Search.find (lit ":") l).map fun i => (l.take i, (l.drop (i + 1)).dropWhile isspace)

/-- A field line splits at its colon, without the blanks behind it. -/
theorem fieldOf_field {n : Bytes} (v : Bytes) (h : 58 ∉ n) :
    fieldOf (n ++ 58 :: v) = some (n, v.dropWhile isspace) := by
  have hfind : Search.find (lit ":") (n ++ 58 :: v) = some n.length := Search.find_singleton h v
  have hdrop : (n ++ 58 :: v).drop (n.length + 1) = v := by
    rw [← List.drop_drop, List.drop_left]
    rfl
  unfold fieldOf
  rw [hfind, Option.map_some, List.take_left, hdrop]

/-- The value a map keeps for `name` when the lines are stored in order and the
last one wins. -/
def lastValue (name : Bytes) (old : Option Bytes) : List Bytes → Option Bytes
  | [] => old
  | l :: ls =>
      match fieldOf l with
      | some (n, v) => lastValue name (if name = n then some v else old) ls
      | none => lastValue name old ls

/-- Method, target and version of a request line. -/
def requestLineParts (l : Bytes) : Option (Bytes × Bytes × Bytes) :=
  match Search.find (lit " ") l with
  | none => none
  | some i =>
      match Search.find (lit " ") (l.drop (i + 1)) with
      | none => none
      | some j => some (l.take i, (l.drop (i + 1)).take j, l.drop (i + 1 + (j + 1)))

/-! ## The request line -/

/-- What a request line with these parts leaves in the request. -/
def HttpRequest.ofLine (r : HttpRequest) (pos : Nat) (m t v : Bytes) : HttpRequest :=
  parseQueryParameters ⟨pos + (m.length + 1), t⟩
    { r with version := ⟨pos + (m.length + 1 + (t.length + 1)), v⟩, method := methodOfBytes m }

@[simp] theorem HttpRequest.ofLine_headers (r : HttpRequest) (pos : Nat) (m t v : Bytes) :
    (r.ofLine pos m t v).headers = r.headers := by
  unfold HttpRequest.ofLine parseQueryParameters
  split
  case h_1 => rfl
  case h_2 => rfl

@[simp] theorem HttpRequest.ofLine_body (r : HttpRequest) (pos : Nat) (m t v : Bytes) :
    (r.ofLine pos m t v).body = r.body := by
  unfold HttpRequest.ofLine parseQueryParameters
  split
  case h_1 => rfl
  case h_2 => rfl

/-- `parse_request_line` on a complete line. -/
theorem parseRequestLine_line {c : Cursor} {l rest : Bytes} (hl : ¬ crlf <:+: l)
    (hdata : c.data.bytes = l ++ crlf ++ rest) :
    parseRequestLine c =
      match requestLineParts l with
      | none => (false, (c.dropLine l.length).fail (lit "Invalid request line format: " ++ l))
      | some (m, t, v) =>
          if methodOfBytes m = .unknown then
            (false, { c.dropLine l.length with request := { c.request with
                version := ⟨c.data.pos + (m.length + 1 + (t.length + 1)), v⟩
                method := methodOfBytes m } }.fail (lit "Unsupported HTTP method: " ++ m))
          else
            (true, { c.dropLine l.length with
                request := c.request.ofLine c.data.pos m t v }.setState .headers) := by
  obtain ⟨hfind, hline⟩ := StringView.find_line hl hdata
  -- both look for the same two spaces
  unfold parseRequestLine requestLineParts
  rw [hfind]
  dsimp only
  rw [hline]
  simp only [StringView.find, StringView.findFrom]
  cases hi : Search.find (lit " ") l with
  | none => rfl
  | some i =>
      have hile := Search.find_add_length_le hi
      dsimp only
      cases hj : Search.find (lit " ") (l.drop (i + 1)) with
      | none => rfl
      | some j =>
          have hjle := Search.find_add_length_le hj
          have hone : (lit " ").length = 1 := rfl
          rw [hone] at hile hjle
          rw [List.length_drop] at hjle
          have hm : (l.take i).length = i := by
            rw [List.length_take]
            omega
          have ht : ((l.drop (i + 1)).take j).length = j := by
            rw [List.length_take, List.length_drop]
            omega
          simp only [Option.map_some, List.drop_zero, HttpRequest.ofLine,
            hm, ht, StringView.substr, StringView.substrFrom]
          have hsub : j + (i + 1) - (i + 1) = j := by omega
          have hadd : j + (i + 1) + 1 = i + 1 + (j + 1) := by omega
          rw [hsub, hadd]
          rfl

/-! ## The header block -/

theorem trimLeft_bytes (v : StringView) : (trimLeft v).bytes = v.bytes.dropWhile isspace :=
  drop_takeWhile_length isspace v.bytes

namespace Cursor

/-- The header lines stored one after the other. -/
def storeHeaders (c : Cursor) : List Bytes → Cursor
  | [] => c
  | l :: ls =>
      ((c.dropLine l.length).addHeader ⟨c.data.pos, l⟩
        ((Search.find (lit ":") l).getD 0)).storeHeaders ls

@[simp] theorem storeHeaders_http (c : Cursor) (ls : List Bytes) :
    (c.storeHeaders ls).parser = c.parser := by
  induction ls generalizing c with
  | nil => rfl
  | cons l ls ih => exact ih _

@[simp] theorem storeHeaders_buffer (c : Cursor) (ls : List Bytes) :
    (c.storeHeaders ls).buffer = c.buffer := by
  induction ls generalizing c with
  | nil => rfl
  | cons l ls ih => exact ih _

/-- Only the header map of the request is written. -/
theorem storeHeaders_request (c : Cursor) (ls : List Bytes) :
    ∃ m, (c.storeHeaders ls).request = { c.request with headers := m } := by
  induction ls generalizing c with
  | nil => exact ⟨_, rfl⟩
  | cons l ls ih =>
      obtain ⟨m, hm⟩ := ih ((c.dropLine l.length).addHeader ⟨c.data.pos, l⟩
        ((Search.find (lit ":") l).getD 0))
      exact ⟨m, hm⟩

/-- Every stored line is taken off the view with its CRLF. -/
theorem storeHeaders_data (c : Cursor) (ls : List Bytes) :
    (c.storeHeaders ls).data = c.data.removePrefix (ls.map fun l => l.length + 2).sum := by
  induction ls generalizing c with
  | nil => rfl
  | cons l ls ih =>
      unfold storeHeaders
      rw [ih]
      simp [StringView.removePrefix, Nat.add_assoc]

/-- The value of a header as bytes. -/
def headerBytes (c : Cursor) (name : Bytes) : Option Bytes :=
  (c.request.header name).map (·.bytes)

/-- A field line sets its own name and leaves the others. -/
theorem addHeader_value {c : Cursor} {l n v : Bytes} {i : Nat} (pos : Nat)
    (hi : Search.find (lit ":") l = some i) (hf : fieldOf l = some (n, v)) (name : Bytes) :
    (c.addHeader ⟨pos, l⟩ i).headerBytes name =
      if name = n then some v else c.headerBytes name := by
  unfold fieldOf at hf
  rw [hi, Option.map_some] at hf
  obtain ⟨rfl, rfl⟩ := Prod.mk.inj (Option.some.inj hf)
  unfold headerBytes addHeader HttpRequest.header
  rw [ViewMap.get_assign]
  by_cases hn : name = l.take i
  · rw [if_pos hn, if_pos (by simpa using hn)]
    simp [trimLeft_bytes]
  · rw [if_neg hn, if_neg (by simpa using hn)]

/-- The map keeps the last value of every name. -/
theorem storeHeaders_value {c : Cursor} {ls : List Bytes} (h : ∀ l ∈ ls, (fieldOf l).isSome)
    (name : Bytes) :
    (c.storeHeaders ls).headerBytes name = lastValue name (c.headerBytes name) ls := by
  induction ls generalizing c with
  | nil => rfl
  | cons l ls ih =>
      obtain ⟨⟨n, v⟩, hf⟩ := Option.isSome_iff_exists.1 (h l List.mem_cons_self)
      obtain ⟨i, hi, -⟩ := Option.map_eq_some_iff.1 hf
      have hrest : ∀ l' ∈ ls, (fieldOf l').isSome := fun l' hl' => h l' (List.mem_cons_of_mem _ hl')
      unfold storeHeaders lastValue
      rw [ih hrest, hi, hf, Option.getD_some, addHeader_value c.data.pos hi hf]
      rfl

end Cursor

/-- Header lines do not touch the body. -/
theorem parseHeaders_body (c : Cursor) : (parseHeaders c).2.request.body = c.request.body := by
  induction hb : c.data.bytes using line_induction generalizing c with
  | stop b hmore => rw [parseHeaders_more (hb ▸ hmore)]
  | line l rest hl ih =>
      rw [parseHeaders_line hl hb]
      by_cases hnil : l = []
      · rw [if_pos hnil]
        rfl
      rw [if_neg hnil]
      cases Search.find (lit ":") l with
      | none => rfl
      | some i =>
          exact ih ((c.dropLine l.length).addHeader ⟨c.data.pos, l⟩ i) (c.dropLine_bytes hb)

/-- A header line without a colon is an error. -/
theorem parseHeaders_bad {c : Cursor} (h : ∃ l ∈ (headLines c.data.bytes).1, fieldOf l = none) :
    (parseHeaders c).2.parser.state = .error := by
  induction hb : c.data.bytes using line_induction generalizing c with
  | stop b hmore =>
      rw [headLines_more (hb ▸ hmore)] at h
      simp at h
  | line l rest hl ih =>
      rw [hb, headLines_line hl] at h
      rw [parseHeaders_line hl hb]
      by_cases hnil : l = []
      · rw [if_pos hnil] at h
        simp at h
      rw [if_neg hnil] at h ⊢
      cases hcolon : Search.find (lit ":") l with
      | none => rfl
      | some i =>
          have hf : fieldOf l ≠ none := by simp [fieldOf, hcolon]
          obtain ⟨l', hl', hf'⟩ := h
          rcases List.mem_cons.1 hl' with rfl | hmem
          · exact absurd hf' hf
          · have hrest := c.dropLine_bytes hb
            refine ih (c := (c.dropLine l.length).addHeader ⟨c.data.pos, l⟩ i) ⟨l', ?_, hf'⟩ hrest
            rw [Cursor.addHeader_data, hrest]
            exact hmem

/-- **`parse_headers` on lines**: every line is stored; at the blank line the
framing decision is made, without it more data is awaited. -/
theorem parseHeaders_lines {c : Cursor}
    (h : ∀ l ∈ (headLines c.data.bytes).1, (fieldOf l).isSome) :
    match (headLines c.data.bytes).2 with
    | none => parseHeaders c = (false, c.storeHeaders (headLines c.data.bytes).1)
    | some rest =>
        parseHeaders c =
            endOfHeaders ((c.storeHeaders (headLines c.data.bytes).1).dropLine 0) ∧
          ((c.storeHeaders (headLines c.data.bytes).1).dropLine 0).data.bytes = rest := by
  induction hb : c.data.bytes using line_induction generalizing c with
  | stop b hmore =>
      rw [headLines_more hmore, parseHeaders_more (hb ▸ hmore)]
      rfl
  | line l rest hl ih =>
      rw [hb, headLines_line hl] at h
      rw [headLines_line hl, parseHeaders_line hl hb]
      by_cases hnil : l = []
      · subst hnil
        rw [if_pos rfl]
        exact ⟨rfl, c.dropLine_bytes hb⟩
      rw [if_neg hnil] at h
      rw [if_neg hnil, if_neg hnil]
      have hf : (fieldOf l).isSome := h l List.mem_cons_self
      obtain ⟨i, hi⟩ : ∃ i, Search.find (lit ":") l = some i := by
        unfold fieldOf at hf
        rw [Option.isSome_map] at hf
        exact Option.isSome_iff_exists.1 hf
      have hrest := c.dropLine_bytes hb
      have := ih (c := (c.dropLine l.length).addHeader ⟨c.data.pos, l⟩ i)
        (by
          rw [Cursor.addHeader_data, hrest]
          exact fun l' hl' => h l' (List.mem_cons_of_mem _ hl')) hrest
      rw [hi]
      unfold Cursor.storeHeaders
      rw [hi]
      exact this

/-! ## The phases on lines -/

/-- The framing decision a header block leads to. -/
def decision (p : HttpParser) (ls : List Bytes) : Bool × HttpParser :=
  framing p (lastValue (lit "Content-Length") none ls) (lastValue (lit "Transfer-Encoding") none ls)

namespace Cursor

/-- The cursor behind a request line with these parts. -/
def afterLine (c : Cursor) (l m t v : Bytes) : Cursor :=
  { c.dropLine l.length with request := c.request.ofLine c.data.pos m t v }.setState .headers

/-- The cursor behind the blank line of a header block. -/
def afterHeaders (c : Cursor) (ls : List Bytes) : Cursor := (c.storeHeaders ls).dropLine 0

end Cursor

/-- A request line that `parse_request_line` refuses. -/
def BadRequestLine (l : Bytes) : Prop :=
  ∀ m t v, requestLineParts l = some (m, t, v) → methodOfBytes m = .unknown

theorem exists_parts {l : Bytes} (h : ¬ BadRequestLine l) :
    ∃ m t v, requestLineParts l = some (m, t, v) ∧ methodOfBytes m ≠ .unknown := by
  unfold BadRequestLine at h
  push Not at h
  exact h

/-- A request line without its parts ends in an error, and the body stays as it was. -/
theorem requestLinePhase_bad {N n : Nat} {c : Cursor} {l rest : Bytes}
    (hl : ¬ crlf <:+: l) (hdata : c.data.bytes = l ++ crlf ++ rest) (hbad : BadRequestLine l) :
    ∃ c', requestLinePhase N n c = some (n, c') ∧ c'.parser.state = .error ∧
      c'.request.body = c.request.body := by
  have hstate : (parseRequestLine c).2.parser.state = .error ∧
      (parseRequestLine c).2.request.body = c.request.body := by
    rw [parseRequestLine_line hl hdata]
    cases hparts : requestLineParts l with
    | none => exact ⟨rfl, rfl⟩
    | some mtv =>
        obtain ⟨m, t, v⟩ := mtv
        have hm : methodOfBytes m = .unknown := hbad m t v hparts
        simp only [hm, if_true]
        exact ⟨rfl, rfl⟩
  unfold requestLinePhase
  rw [if_neg (by rw [hstate.1]; exact ParsingState.noConfusion)]
  exact ⟨_, rfl, hstate⟩

/-- A request line that has come in whole is taken, and the headers are next. -/
theorem requestLinePhase_line {N n : Nat} {c : Cursor} {l rest m t v : Bytes}
    (hl : ¬ crlf <:+: l) (hdata : c.data.bytes = l ++ crlf ++ rest)
    (hparts : requestLineParts l = some (m, t, v)) (hm : methodOfBytes m ≠ .unknown) :
    requestLinePhase N n c =
        headersPhase N (N - rest.length) (c.afterLine l m t v) ∧
      (c.afterLine l m t v).data.bytes = rest := by
  have hline : (parseRequestLine c).2 = c.afterLine l m t v := by
    rw [parseRequestLine_line hl hdata, hparts]
    simp [hm, Cursor.afterLine]
  have hrest : (c.afterLine l m t v).data.bytes = rest := c.dropLine_bytes hdata
  refine ⟨?_, hrest⟩
  have hst : (c.afterLine l m t v).parser.state = .headers := rfl
  unfold requestLinePhase
  simp only [hline, hst, if_true, StringView.length, hrest]

/-- A line without a colon is an error. -/
theorem headersPhase_bad {N n : Nat} {c : Cursor}
    (h : ∃ l ∈ (headLines c.data.bytes).1, fieldOf l = none) :
    ∃ c', headersPhase N n c = some (n, c') ∧ c'.parser.state = .error ∧
      c'.request.body = c.request.body := by
  have hstate := parseHeaders_bad h
  unfold headersPhase
  rw [if_pos hstate]
  exact ⟨_, rfl, hstate, parseHeaders_body c⟩

/-- Without the empty line the headers that have come are stored, and the parser waits. -/
theorem headersPhase_wait {N n : Nat} {c : Cursor} (hstate : c.parser.state = .headers)
    (h : ∀ l ∈ (headLines c.data.bytes).1, (fieldOf l).isSome)
    (hmore : (headLines c.data.bytes).2 = none) :
    headersPhase N n c =
        some (N - (c.storeHeaders (headLines c.data.bytes).1).data.length,
          c.storeHeaders (headLines c.data.bytes).1) ∧
      (c.storeHeaders (headLines c.data.bytes).1).parser.state = .headers := by
  have hline := parseHeaders_lines h
  rw [hmore] at hline
  have hst : (c.storeHeaders (headLines c.data.bytes).1).parser.state = .headers := by
    rw [Cursor.storeHeaders_http, hstate]
  refine ⟨?_, hst⟩
  unfold headersPhase
  simp only [hline, hst, reduceCtorEq, if_false]

/-- The loop from the framing decision `p` on. -/
def afterDecision (N n : Nat) (c : Cursor) (p : HttpParser) : Option (Nat × Cursor) :=
  if p.state = .error then some (n, { c with parser := p })
  else if p.state = .body then
    bodyPhase N (N - c.data.length) { c with parser := p }
  else some (N - c.data.length, { c with parser := p })

/-- The header block of a request whose map is empty so far, up to the framing
decision. -/
theorem headersPhase_lines {N n : Nat} {c : Cursor} {body : Bytes}
    (hempty : c.request.headers = ∅)
    (h : ∀ l ∈ (headLines c.data.bytes).1, (fieldOf l).isSome)
    (hbody : (headLines c.data.bytes).2 = some body) :
    headersPhase N n c =
        afterDecision N n (c.afterHeaders (headLines c.data.bytes).1)
          (decision c.parser (headLines c.data.bytes).1).2 ∧
      (c.afterHeaders (headLines c.data.bytes).1).data.bytes = body := by
  generalize hls : (headLines c.data.bytes).1 = ls at h ⊢
  have hline := parseHeaders_lines (hls ▸ h)
  rw [hbody, hls] at hline
  obtain ⟨heq, hrest⟩ := hline
  have hnone : ∀ name, c.headerBytes name = none := by
    intro name
    unfold Cursor.headerBytes HttpRequest.header
    rw [hempty, ViewMap.get_empty]
    rfl
  have hvalue : ∀ name, (c.afterHeaders ls).headerBytes name = lastValue name none ls := by
    intro name
    rw [← hnone name, ← Cursor.storeHeaders_value h]
    rfl
  have hparser : (endOfHeaders (c.afterHeaders ls)).2.parser = (decision c.parser ls).2 := by
    show (framing (c.afterHeaders ls).parser
      ((c.afterHeaders ls).headerBytes (lit "Content-Length"))
      ((c.afterHeaders ls).headerBytes (lit "Transfer-Encoding"))).2 = _
    rw [hvalue, hvalue]
    show (framing (c.storeHeaders ls).parser _ _).2 = _
    rw [Cursor.storeHeaders_http]
    rfl
  have hend : (parseHeaders c).2 =
      { c.afterHeaders ls with parser := (decision c.parser ls).2 } := by
    calc (parseHeaders c).2
        = (endOfHeaders (c.afterHeaders ls)).2 := by rw [heq]; rfl
      _ = { c.afterHeaders ls with parser := (endOfHeaders (c.afterHeaders ls)).2.parser } := rfl
      _ = { c.afterHeaders ls with parser := (decision c.parser ls).2 } := by rw [hparser]
  refine ⟨?_, hrest⟩
  unfold headersPhase
  rw [hend]
  rfl

end Oreshnek
