import Oreshnek.Http.Request

/-!
# The request parser

`HttpParser` as the source has it: a state machine over a view of the socket
buffer. The sub-parsers take and return everything they read and write, in one
`Cursor`: the parser object, the unread view `data`, the request being filled
and the memory behind the view, which the chunked decoder overwrites. `none`
stands for undefined behaviour (an access outside the view).
-/

namespace Oreshnek

inductive ParsingState where
  | requestLine | headers | body | complete | error
deriving DecidableEq, Repr

def maxHeaderBytes : Nat := 64 * 1024

def maxBodyBytes : Nat := 8 * 1024 * 1024

theorem maxBodyBytes_lt : maxBodyBytes < 2 ^ 62 := by decide

structure HttpParser where
  state : ParsingState := .requestLine
  bodyExpectedLength : Nat := 0
  isChunked : Bool := false
  errorMessage : Bytes := []
deriving DecidableEq, Repr

/-- `reset`. -/
def HttpParser.reset (_ : HttpParser) : HttpParser := {}

/-- Enter the ERROR state. -/
def HttpParser.fail (p : HttpParser) (message : Bytes) : HttpParser :=
  { p with state := .error, errorMessage := message }

structure Cursor where
  parser : HttpParser
  data : StringView
  request : HttpRequest
  buffer : Bytes
deriving DecidableEq

namespace Cursor

def fail (c : Cursor) (message : Bytes) : Cursor :=
  { c with parser := c.parser.fail message }

def setState (c : Cursor) (s : ParsingState) : Cursor :=
  { c with parser := { c.parser with state := s } }

/-- The same cursor when `r` has arrived behind the buffer. -/
def extend (c : Cursor) (r : Bytes) : Cursor :=
  { c with data := c.data.extend r, buffer := c.buffer ++ r }

@[simp] theorem fail_state (c : Cursor) (m : Bytes) : (c.fail m).parser.state = .error := rfl
@[simp] theorem fail_data (c : Cursor) (m : Bytes) : (c.fail m).data = c.data := rfl
@[simp] theorem fail_request (c : Cursor) (m : Bytes) : (c.fail m).request = c.request := rfl
@[simp] theorem fail_extend (c : Cursor) (m r : Bytes) :
    (c.extend r).fail m = (c.fail m).extend r := rfl
@[simp] theorem setState_state (c : Cursor) (s : ParsingState) :
    (c.setState s).parser.state = s := rfl
@[simp] theorem setState_data (c : Cursor) (s : ParsingState) : (c.setState s).data = c.data := rfl
@[simp] theorem setState_request (c : Cursor) (s : ParsingState) :
    (c.setState s).request = c.request := rfl
@[simp] theorem extend_data (c : Cursor) (r : Bytes) : (c.extend r).data = c.data.extend r := rfl
@[simp] theorem extend_http (c : Cursor) (r : Bytes) : (c.extend r).parser = c.parser := rfl
@[simp] theorem extend_request (c : Cursor) (r : Bytes) : (c.extend r).request = c.request := rfl

end Cursor

/-! ## Request line -/

/-- The method comparisons of `parse_request_line`. -/
def methodOfBytes (s : Bytes) : HttpMethod :=
  if s = lit "GET" then .get
  else if s = lit "POST" then .post
  else if s = lit "PUT" then .put
  else if s = lit "DELETE" then .delete
  else if s = lit "PATCH" then .patch
  else if s = lit "HEAD" then .head
  else if s = lit "OPTIONS" then .options
  else .unknown

/-- The loop of `parse_query_parameters` from index `start`. -/
def parseQueryLoop (query : StringView) (start : Nat) (params : ViewMap) : ViewMap :=
  if start < query.length then
    match heq : query.findFrom (lit "=") start with
    | none => params.assign (query.substrFrom start) .empty
    | some eqPos =>
        let key := query.substr start (eqPos - start)
        -- with no '&' left the count wraps to a huge value: up to the end
        match hamp : query.findFrom (lit "&") (eqPos + 1) with
        | none => params.assign key (query.substrFrom (eqPos + 1))
        | some ampPos =>
            parseQueryLoop query (ampPos + 1)
              (params.assign key (query.substr (eqPos + 1) (ampPos - (eqPos + 1))))
  else params
termination_by query.length - start
decreasing_by
  have heq' := StringView.le_of_findFrom heq
  have hamp' := StringView.le_of_findFrom hamp
  omega

/-- `parse_query_parameters`. -/
def parseQueryParameters (pathAndQuery : StringView) (r : HttpRequest) : HttpRequest :=
  match pathAndQuery.find (lit "?") with
  | none => { r with path := pathAndQuery }
  | some queryStart =>
      { r with
        path := pathAndQuery.substr 0 queryStart
        queryParams := parseQueryLoop (pathAndQuery.substrFrom (queryStart + 1)) 0 r.queryParams }

/-- `parse_request_line`. -/
def parseRequestLine (c : Cursor) : Bool × Cursor :=
  match c.data.find crlf with
  | none => (false, c)
  | some eolPos =>
      let line := c.data.substr 0 eolPos
      let c := { c with data := c.data.removePrefix (eolPos + 2) }
      let firstSpace := line.find (lit " ")
      -- `npos + 1` wraps to 0
      let secondSpace := line.findFrom (lit " ") (match firstSpace with | some i => i + 1 | none => 0)
      match firstSpace, secondSpace with
      | some first, some second =>
          let methodStr := line.substr 0 first
          let target := line.substr (first + 1) (second - (first + 1))
          let method := methodOfBytes methodStr.bytes
          let c := { c with request :=
            { c.request with version := line.substrFrom (second + 1), method := method } }
          if method = .unknown then
            (false, c.fail (lit "Unsupported HTTP method: " ++ methodStr.bytes))
          else
            let c := { c with request := parseQueryParameters target c.request }
            (true, c.setState .headers)
      | _, _ => (false, c.fail (lit "Invalid request line format: " ++ line.bytes))

/-! ## Headers -/

/-- The framing decision at the blank line of `parse_headers`, from the values
`Content-Length` and `Transfer-Encoding` have in the header map. -/
def framing (p : HttpParser) (contentLengthHeader transferEncodingHeader : Option Bytes) :
    Bool × HttpParser :=
  let chunked := (transferEncodingHeader.bind (Search.find (lit "chunked"))).isSome
  if chunked && contentLengthHeader.isSome then
    (false, p.fail (lit "Both Content-Length and Transfer-Encoding present"))
  else if chunked then (true, { p with isChunked := true, state := .body })
  else
    match contentLengthHeader with
    | none => (true, { p with state := if p.bodyExpectedLength > 0 then .body else .complete })
    | some v =>
        match stoul v with
        | none => (false, p.fail (lit "Invalid Content-Length header: " ++ v))
        | some n =>
            let p := { p with bodyExpectedLength := n }
            if n > maxBodyBytes then
              (false, p.fail (lit "Request body exceeds maximum allowed size"))
            else (true, { p with state := if n > 0 then .body else .complete })

/-- The blank line of `parse_headers`. -/
def endOfHeaders (c : Cursor) : Bool × Cursor :=
  let decision := framing c.parser ((c.request.header (lit "Content-Length")).map (·.bytes))
    ((c.request.header (lit "Transfer-Encoding")).map (·.bytes))
  (decision.1, { c with parser := decision.2 })

/-- The value of a header line: what follows the colon, leading white space
removed. -/
def trimLeft (v : StringView) : StringView :=
  v.removePrefix (v.bytes.takeWhile isspace).length

/-- `parse_headers`. -/
def parseHeaders (c : Cursor) : Bool × Cursor :=
  match h : c.data.find crlf with
  | none => (false, c)
  | some eolPos =>
      let line := c.data.substr 0 eolPos
      let rest := c.data.removePrefix (eolPos + 2)
      if line.bytes.isEmpty then endOfHeaders { c with data := rest }
      else
        match line.find (lit ":") with
        | none =>
            (false, { c with data := rest }.fail (lit "Invalid header format: " ++ line.bytes))
        | some colonPos =>
            let key := line.substr 0 colonPos
            let value := trimLeft (line.substrFrom (colonPos + 1))
            parseHeaders { c with
              data := rest
              request := { c.request with headers := c.request.headers.assign key value } }
termination_by c.data.length
decreasing_by
  have hle : eolPos + crlf.length ≤ c.data.length := c.data.find_add_le h
  simp only [StringView.length, crlf, List.length_cons, List.length_nil] at hle
  simp [StringView.length]
  omega

/-! ## Body -/

/-- `parse_chunk_size`: the answer and what `out` then holds. -/
def parseChunkSize (token : Bytes) (out : Nat) : Bool × Nat :=
  let token := (Search.find (lit ";") token).elim token fun semi => token.take semi
  let token := (token.reverse.dropWhile fun c => c == 32 || c == 9).reverse
  if token.isEmpty then (false, out) else digits token 0
where
  /-- The digit loop; `out * 16 + d` wraps. -/
  digits : Bytes → Nat → Bool × Nat
    | [], out => (true, out)
    | c :: rest, out =>
        if 48 ≤ c && c ≤ 57 then digits rest (sizeT (out * 16 + (c.toNat - 48)))
        else if 97 ≤ c && c ≤ 102 then digits rest (sizeT (out * 16 + (c.toNat - 97 + 10)))
        else if 65 ≤ c && c ≤ 70 then digits rest (sizeT (out * 16 + (c.toNat - 65 + 10)))
        else (false, out)

theorem drop_line_lt {b : Bytes} {e : Nat} (h : Search.find crlf b = some e) :
    (b.drop (e + 2)).length < b.length := by
  have hle := Search.find_add_length_le h
  simp only [crlf, List.length_cons, List.length_nil] at hle
  rw [List.length_drop]
  omega

/-- The trailer loops: skip lines up to and including a blank one (`none`:
more data needed). -/
def skipTrailers (scan : Bytes) : Option Bytes :=
  match h : Search.find crlf scan with
  | none => none
  | some e => if e = 0 then some (scan.drop 2) else skipTrailers (scan.drop (e + 2))
termination_by scan.length
decreasing_by exact drop_line_lt h

inductive ChunkScan where
  | needMore
  | error (message : Bytes)
  | complete
deriving DecidableEq, Repr

/-- Pass 1 of `parse_chunked_body`. Both `decoded_total` and `sz + 2` are
`size_t`. -/
def scanChunks (scan : Bytes) (decodedTotal : Nat) : ChunkScan :=
  match h : Search.find crlf scan with
  | none => .needMore
  | some eol =>
      match parseChunkSize (scan.take eol) 0 with
      | (false, _) => .error (lit "Invalid chunk size")
      | (true, sz) =>
          if sz = 0 then
            match skipTrailers (scan.drop (eol + 2)) with
            | none => .needMore
            | some _ => .complete
          else if sizeT (decodedTotal + sz) > maxBodyBytes then
            .error (lit "Chunked body exceeds maximum allowed size")
          else if (scan.drop (eol + 2)).length < sizeT (sz + 2) then .needMore
          else scanChunks ((scan.drop (eol + 2)).drop (sizeT (sz + 2))) (sizeT (decodedTotal + sz))
termination_by scan.length
decreasing_by
  have := drop_line_lt h
  rw [List.length_drop]
  omega

/-- `memmove` inside the view: outside it the behaviour is undefined. No object
has `2 ^ 63` bytes, so a count that large is always outside. -/
def memmove (mem : Bytes) (dst src n : Nat) : Option Bytes :=
  if src + n ≤ mem.length ∧ dst + n ≤ mem.length ∧ n < 2 ^ 63 then
    some (mem.take dst ++ (mem.drop src).take n ++ mem.drop (dst + n))
  else none

/-- Moving bytes within a buffer keeps its length. -/
theorem memmove_length {mem mem' : Bytes} {dst src n : Nat}
    (h : memmove mem dst src n = some mem') : mem'.length = mem.length := by
  unfold memmove at h
  split at h
  case isFalse => cases h
  case isTrue hin =>
    obtain rfl := Option.some.inj h
    simp only [List.length_append, List.length_take, List.length_drop]
    omega

/-- Pass 2 of `parse_chunked_body` on the memory of `data`: the size lines are
read again, at `cur`, from the memory that is being overwritten up to `out`.
Returns the memory, the decoded length and where the body ended. -/
def compactChunks (mem : Bytes) (out cur : Nat) : Option (Bytes × Nat × Nat) :=
  match h : Search.find crlf (mem.drop cur) with
  | none => none
  | some eol =>
      let sz := (parseChunkSize ((mem.drop cur).take eol) 0).2
      let cur' := cur + (eol + 2)
      if sz = 0 then
        match skipTrailers (mem.drop cur') with
        | none => none
        | some rest => some (mem, out, mem.length - rest.length)
      else
        match hmove : memmove mem out cur' sz with
        | none => none
        | some mem' =>
            if cur' + sizeT (sz + 2) ≤ mem'.length then
              compactChunks mem' (out + sz) (cur' + sizeT (sz + 2))
            else none
termination_by mem.length - cur
decreasing_by
  have hlen := memmove_length hmove
  have hle := Search.find_add_length_le h
  simp only [crlf, List.length_cons, List.length_nil, List.length_drop] at hle
  omega

/-- `parse_chunked_body`. -/
def parseChunkedBody (c : Cursor) : Option (Bool × Cursor) :=
  match scanChunks c.data.bytes 0 with
  | .needMore => some (false, c)
  | .error message => some (false, c.fail message)
  | .complete =>
      match compactChunks c.data.bytes 0 0 with
      | none => none
      | some (mem, out, cur) =>
          some (true, { c with
            parser := { c.parser with state := .complete }
            data := ⟨c.data.pos + cur, mem.drop cur⟩
            request := { c.request with body := ⟨c.data.pos, mem.take out⟩ }
            buffer := c.buffer.take c.data.pos ++ mem })

/-- `parse_body`. -/
def parseBody (c : Cursor) : Option (Bool × Cursor) :=
  if c.parser.isChunked then parseChunkedBody c
  else if c.parser.bodyExpectedLength > 0 then
    if c.data.length < c.parser.bodyExpectedLength then some (false, c)
    else
      some (true, { c with
        parser := { c.parser with state := .complete }
        request := { c.request with body := c.data.substr 0 c.parser.bodyExpectedLength }
        data := c.data.removePrefix c.parser.bodyExpectedLength })
  else some (true, c.setState .complete)

/-! ## The state machine -/

/-- The switch of `parse_request`. -/
def parseStep (c : Cursor) : Option (Bool × Cursor) :=
  match c.parser.state with
  | .requestLine => some (parseRequestLine c)
  | .headers => some (parseHeaders c)
  | .body => parseBody c
  | _ => some (false, c.fail (lit "Invalid parser state."))

/-- The `while` loop of `parse_request` on a buffer of `rawLength` bytes, with
`bytes_processed` so far. Every turn but the last leaves a state for good or is
followed by a turn without progress, so a small fuel is enough
(`parseLoop_fuel`). -/
def parseLoop (rawLength : Nat) : Nat → Nat → Cursor → Option (Nat × Cursor)
  | 0, bytesProcessed, c => some (bytesProcessed, c)
  | fuel + 1, bytesProcessed, c =>
      if c.parser.state = .complete ∨ c.parser.state = .error ∨ c.data.bytes = [] then
        some (bytesProcessed, c)
      else
        match parseStep c with
        | none => none
        | some (stepComplete, c') =>
            if c'.parser.state = .error then some (bytesProcessed, c')
            else
              let consumed := rawLength - c'.data.length - bytesProcessed
              if !stepComplete && consumed == 0 then some (bytesProcessed + consumed, c')
              else parseLoop rawLength fuel (bytesProcessed + consumed) c'

/-- What `parse_request` leaves behind. -/
structure ParseResult where
  bytesProcessed : Nat
  parser : HttpParser
  request : HttpRequest
  buffer : Bytes
deriving DecidableEq

/-- The answer of `parse_request`. -/
def ParseResult.isComplete (r : ParseResult) : Bool := r.parser.state = .complete

/-- The guard against unbounded header blocks. -/
def headerSpan (raw : Bytes) : Nat := (Search.find (crlf ++ crlf) raw).getD raw.length

/-- Turns of the loop that always suffice. -/
def parseFuel : Nat := 4

/-- `parse_request`. -/
def parseRequest (p : HttpParser) (raw : Bytes) (request : HttpRequest) : Option ParseResult :=
  if (p.state = .requestLine ∨ p.state = .headers) ∧ headerSpan raw > maxHeaderBytes then
    some ⟨0, p.fail (lit "Header block exceeds maximum allowed size"), request, raw⟩
  else
    (parseLoop raw.length parseFuel 0 ⟨p, ⟨0, raw⟩, request, raw⟩).map fun r =>
      ⟨r.1, r.2.parser, r.2.request, r.2.buffer⟩

end Oreshnek
