import Oreshnek.Http.Wire
import Oreshnek.Net.Inbound

/-!
# Pipelined round trip

A buffer that holds well-formed requests one behind the other is drained into
exactly these requests (`drain_encode`). One request at the front of a buffer is
followed through the phases: its head (`message_head`), its body
(`afterDecision_body`), and what it leaves (`parseRequest_encode`).
-/

namespace Oreshnek

/-! ## One request -/

/-- What a request line says of the request. -/
theorem ofLine_path (r : HttpRequest) (pos : Nat) (m t v : Bytes) :
    (r.ofLine pos m t v).path.bytes = t.takeWhile (· ≠ 63) ∧
      (r.ofLine pos m t v).method = methodOfBytes m ∧
      (r.ofLine pos m t v).version.bytes = v := by
  have hpath : t.takeWhile (· ≠ 63) = (Search.find (lit "?") t).elim t fun q => t.take q :=
    Search.takeWhile_ne 63 t
  rw [hpath]
  unfold HttpRequest.ofLine parseQueryParameters StringView.find
  cases Search.find (lit "?") t with
  | none => exact ⟨rfl, rfl, rfl⟩
  | some q => exact ⟨rfl, rfl, rfl⟩

/-- Behind the head the request says what was written, but for the body. -/
theorem message_head (w : WireRequest) (raw : Bytes) :
    (((Cursor.start raw).afterLine w.line w.method.toBytes w.target w.version).afterHeaders
      (w.fields.map Field.line)).request.message = { w.message with body := [] } := by
  generalize hc : (Cursor.start raw).afterLine w.line w.method.toBytes w.target w.version = c
  have hreq : c.request = HttpRequest.ofLine {} 0 w.method.toBytes w.target w.version := by
    rw [← hc]
    rfl
  have hfields : ∀ l ∈ w.fields.map Field.line, (fieldOf l).isSome := by
    intro l hl
    obtain ⟨f, -, rfl⟩ := List.mem_map.1 hl
    rw [f.fieldOf_line]
    rfl
  have hnone : ∀ name, c.headerBytes name = none := by
    intro name
    unfold Cursor.headerBytes HttpRequest.header
    rw [hreq, HttpRequest.ofLine_headers]
    rfl
  have hvalue : ∀ name, (c.storeHeaders (w.fields.map Field.line)).headerBytes name =
      fieldValue w.fields name := by
    intro name
    rw [Cursor.storeHeaders_value hfields, lastValue_fields w.fields_distinct, hnone, Option.or_none]
  obtain ⟨hpath, hmethod, hversion⟩ := ofLine_path {} 0 w.method.toBytes w.target w.version
  obtain ⟨m, hm⟩ := c.storeHeaders_request (w.fields.map Field.line)
  unfold HttpRequest.message WireRequest.message Cursor.afterHeaders
  rw [Cursor.dropLine_request]
  congr 1
  · rw [hm, hreq, hmethod, w.method_line]
  · rw [hm, hreq, hpath]
  · rw [hm, hreq, hversion]
  · funext name
    exact hvalue name
  · rw [hm, hreq, HttpRequest.ofLine_body]
    rfl

/-- The body is read as the headers frame it, and nothing behind it. -/
theorem afterDecision_body {N n : Nat} {c : Cursor} {fs : List Field} {body : WireBody}
    {tail : Bytes} (hlength : c.parser.bodyExpectedLength = 0) (hnot : c.parser.isChunked = false)
    (hempty : c.request.body = .empty) (hdata : c.data.bytes = body.encode ++ tail)
    (h : body.Framed fs) :
    ∃ k c' v, afterDecision N n c (framing c.parser (fieldValue fs (lit "Content-Length"))
        (fieldValue fs (lit "Transfer-Encoding"))).2 = some (k, c') ∧
      c'.parser.state = .complete ∧ c'.data.bytes = tail ∧
      c'.request = { c.request with body := v } ∧ v.bytes = body.content := by
  cases body with
  | none =>
      obtain ⟨hcl, hte⟩ := h
      rw [hcl, framing_none _ hte, hlength]
      exact ⟨_, _, c.request.body, rfl, rfl, hdata, rfl, by rw [hempty]; rfl⟩
  | length b =>
      obtain ⟨hcl, hte, hle⟩ := h
      have hmax : maxBodyBytes < 2 ^ 64 := by decide
      rw [hcl, framing_length _ hte (stoul_toString (by omega)) hle]
      by_cases hpos : b.length > 0
      · -- the whole body has arrived
        have hlong : ¬ c.data.length < b.length := by
          rw [StringView.length, hdata, List.length_append]
          exact Nat.not_lt.2 (Nat.le_add_right _ _)
        have hbody : parseBody { c with parser := { c.parser with
            bodyExpectedLength := b.length, state := .body } } = some (true, { c with
            parser := { c.parser with bodyExpectedLength := b.length, state := .complete }
            request := { c.request with body := c.data.substr 0 b.length }
            data := c.data.removePrefix b.length }) := by
          rw [parseBody_sized (c := { c with parser := { c.parser with
            bodyExpectedLength := b.length, state := .body } }) hnot hpos, if_neg hlong]
        unfold afterDecision bodyPhase
        simp only [if_pos hpos, reduceCtorEq, if_false, if_true, hbody, Option.map_some]
        refine ⟨_, _, c.data.substr 0 b.length, rfl, rfl, ?_, rfl, ?_⟩
        · simp [hdata, WireBody.encode]
        · simp [hdata, WireBody.encode, WireBody.content]
      · have hnil : b = [] := List.eq_nil_of_length_eq_zero (by omega)
        subst hnil
        exact ⟨_, _, c.request.body, rfl, rfl, hdata, rfl, by rw [hempty]; rfl⟩
  | chunked cs e =>
      obtain ⟨hcl, hte, hle⟩ := h
      -- chunked framing wins, and the two passes agree on the encoding
      have hnames : NamesChunked (fieldValue fs (lit "Transfer-Encoding")) :=
        ⟨lit "chunked", hte, List.infix_refl _⟩
      have hdata' : c.data.bytes = encodeChunks cs ++ (e.encode ++ tail) := by
        rw [hdata]
        exact List.append_assoc _ _ _
      rw [hcl, framing_chunked _ hnames]
      unfold afterDecision bodyPhase
      simp only [reduceCtorEq, if_false, if_true]
      rw [parseBody_chunked (c := { c with
        parser := { c.parser with isChunked := true, state := .body } }) rfl, parseChunkedBody_eq]
      simp only [hdata', scanChunks_chunks cs e tail (t := 0) (by omega),
        decodeChunks_chunks cs e tail hle, Option.map_some]
      exact ⟨_, _, ⟨c.data.pos, chunksData cs⟩, rfl, rfl, rfl, rfl, rfl⟩

/-- **One request in front of a buffer**: it is complete, says what was written,
and leaves what follows it. -/
theorem parseRequest_encode (w : WireRequest) (tail : Bytes) :
    ∃ r, parseRequest {} (w.encode ++ tail) {} = some r ∧ r.isComplete ∧
      r.buffer.drop r.bytesProcessed = tail ∧ r.request.message = w.message := by
  generalize hraw : w.encode ++ tail = raw
  have hsplit : raw =
      w.line ++ crlf ++ (encodeFields w.fields ++ (crlf ++ (w.body.encode ++ tail))) := by
    rw [← hraw, w.encode_append]
  have hspan : ¬ maxHeaderBytes < headerSpan raw := by
    rw [← hraw]
    exact Nat.not_lt.2 (w.headerSpan_encode tail)
  -- the request line
  obtain ⟨hphase, hrest⟩ := requestLinePhase_line (N := raw.length) (n := 0)
    (c := Cursor.start raw) w.line_crlf hsplit w.line_parts (by
      rw [w.method_line]
      exact w.method_known)
  have hmessage := message_head w raw
  generalize hc : (Cursor.start raw).afterLine w.line w.method.toBytes w.target w.version = c
    at hphase hrest hmessage
  -- the header lines, each of which is a field
  have hlines := headLines_fields w.fields (w.body.encode ++ tail)
  have hfields : ∀ l ∈ w.fields.map Field.line, (fieldOf l).isSome := by
    intro l hl
    obtain ⟨f, -, rfl⟩ := List.mem_map.1 hl
    rw [f.fieldOf_line]
    rfl
  have hempty : c.request.headers = ∅ := by
    rw [← hc]
    exact HttpRequest.ofLine_headers _ _ _ _ _
  have hbody : c.request.body = .empty := by
    rw [← hc]
    exact HttpRequest.ofLine_body _ _ _ _ _
  obtain ⟨hheaders, hdata⟩ := headersPhase_lines (N := raw.length) (n := raw.length -
    (encodeFields w.fields ++ (crlf ++ (w.body.encode ++ tail))).length) hempty
    (by rw [hrest, hlines]; exact hfields) (by rw [hrest, hlines])
  rw [hrest, hlines] at hheaders hdata
  have hdecision : decision c.parser (w.fields.map Field.line) =
      framing (c.afterHeaders (w.fields.map Field.line)).parser
        (fieldValue w.fields (lit "Content-Length"))
        (fieldValue w.fields (lit "Transfer-Encoding")) := by
    unfold decision Cursor.afterHeaders
    rw [lastValue_fields w.fields_distinct, lastValue_fields w.fields_distinct, Option.or_none,
      Option.or_none, Cursor.dropLine_http, Cursor.storeHeaders_http]
  obtain ⟨m, hm⟩ := c.storeHeaders_request (w.fields.map Field.line)
  have hparser : (c.afterHeaders (w.fields.map Field.line)).parser = c.parser := by
    simp [Cursor.afterHeaders]
  -- the body, as the headers frame it
  obtain ⟨k, c', v, hrun, hstate, htail, hreq, hv⟩ := afterDecision_body
    (N := raw.length) (n := raw.length -
      (encodeFields w.fields ++ (crlf ++ (w.body.encode ++ tail))).length)
    (c := c.afterHeaders (w.fields.map Field.line)) (by rw [hparser, ← hc]; rfl)
    (by rw [hparser, ← hc]; rfl)
    (by rw [Cursor.afterHeaders, Cursor.dropLine_request, hm]; exact hbody) hdata w.framed
  have hwhole : requestLinePhase raw.length 0 (Cursor.start raw) = some (k, c') := by
    rw [hphase, hheaders, hdecision, hrun]
  -- what has been processed is what lies in front of the view
  obtain ⟨hcons, -⟩ := requestLinePhase_consumed (Cursor.start_aligned raw) rfl rfl hwhole
  have hbytes : k = c'.data.pos := hcons.bytes (by rw [hstate]; exact ParsingState.noConfusion)
  refine ⟨⟨k, c'.parser, c'.request, c'.buffer⟩, ?_, by simp [ParseResult.isComplete, hstate], ?_, ?_⟩
  · rw [parseRequest_eq, if_neg hspan, hwhole]
    rfl
  · show c'.buffer.drop k = tail
    rw [hbytes, ← hcons.aligned.bytes, htail]
  · show c'.request.message = w.message
    have hset : c'.request.message =
        { (c.afterHeaders (w.fields.map Field.line)).request.message with body := v.bytes } := by
      rw [hreq]
      rfl
    rw [hset, hmessage, hv]
    rfl

/-! ## The pipeline -/

theorem encode_ne (w : WireRequest) : w.encode ≠ [] := by
  simp [WireRequest.encode, WireRequest.line]

/-- **Pipelined round trip.** Draining the encodings of well-formed requests gives
these requests in order and leaves an empty buffer. -/
theorem drain_encode (ws : List WireRequest) :
    ∃ reqs c', Inbound.drain { readBuffer := ws.flatMap WireRequest.encode } = some (reqs, c') ∧
      reqs.map HttpRequest.message = ws.map WireRequest.message ∧ c'.readBuffer = [] := by
  -- for any connection with this buffer: what it has parsed before does not matter
  have hrun : ∀ c : Inbound, c.readBuffer = ws.flatMap WireRequest.encode →
      ∃ reqs c', c.drain = some (reqs, c') ∧
        reqs.map HttpRequest.message = ws.map WireRequest.message ∧ c'.readBuffer = [] := by
    induction ws with
    | nil =>
        intro c hc
        have hnext : c.parseNext = some (false, 0, c) := if_pos hc
        exact ⟨[], c, Inbound.drain_stop hnext, rfl, hc⟩
    | cons w ws ih =>
        intro c hc
        rw [List.flatMap_cons] at hc
        obtain ⟨r, hr, hcomplete, hrest, hmessage⟩ :=
          parseRequest_encode w (ws.flatMap WireRequest.encode)
        have hne : c.readBuffer ≠ [] := by
          rw [hc]
          simp [encode_ne]
        have hstate : r.parser.state = .complete := by
          simpa [ParseResult.isComplete] using hcomplete
        have hparse : parseRequest c.httpParser.reset c.readBuffer {} = some r := by
          rw [hc]
          exact hr
        have hnext : c.parseNext = some (true, r.bytesProcessed, Inbound.ofResult r) := by
          unfold Inbound.parseNext
          rw [if_neg hne, hparse]
          simp [hstate, hcomplete]
        obtain ⟨reqs, c', hdrain, hreqs, hend⟩ :=
          ih ((Inbound.ofResult r).consume r.bytesProcessed) (by
            rw [Inbound.consume_buffer]
            exact hrest)
        refine ⟨(Inbound.ofResult r).ownedRequest r.bytesProcessed :: reqs, c', ?_, ?_, hend⟩
        · rw [Inbound.drain_request hnext, hdrain]
          rfl
        · -- the copy says what the views said
          have howned : ((Inbound.ofResult r).ownedRequest r.bytesProcessed).message =
              w.message := by
            rw [← hmessage]
            exact (makeOwned_message (parseRequest_shown hr hcomplete) (Nat.le_refl _)).1
          rw [List.map_cons, List.map_cons, howned, hreqs]
  exact hrun _ rfl

end Oreshnek
