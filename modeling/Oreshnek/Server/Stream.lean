import Oreshnek.Net.RoundTrip
import Oreshnek.Net.Segmentation
import Oreshnek.Server.Words

/-!
# What a client sends

A client sends well-formed requests one behind the other. The bytes of a connection
arrive in order, but in pieces of any size, and between the steps of any other
connection. Whatever the pieces are, the requests taken from the connection are the
client's first ones, and its buffer holds what has arrived behind them (`stream_taken`).
No such connection is closed as a bad one, unless a head ends within three bytes of the
limit: the parser may see it in pieces that it refuses. What the client reads are the
responses to its requests, and at most one interim response in front of one of them; when the
connection is idle and everything has arrived it has read a response to each request
(`stream_answered`).
-/

namespace Oreshnek

/-! ## The front of a stream -/

namespace WireRequest

/-- The head is within the limit up to the last byte but one of its blank line. -/
def Roomy (w : WireRequest) : Prop := headSize w.line w.fields + 3 ≤ maxHeaderBytes

/-- The requests one behind the other. -/
def stream (ws : List WireRequest) : Bytes := ws.flatMap encode

@[simp] theorem stream_nil : stream [] = [] := rfl

theorem stream_cons (w : WireRequest) (ws : List WireRequest) :
    stream (w :: ws) = w.encode ++ stream ws := List.flatMap_cons

theorem stream_take_drop (ws : List WireRequest) (n : Nat) :
    stream (ws.take n) ++ stream (ws.drop n) = stream ws := by
  unfold stream
  rw [← List.flatMap_append, List.take_append_drop]

/-- A longer part of the request has its blank line. -/
theorem blank_of_long {w : WireRequest} {tail p : Bytes} (hp : p <+: w.encode ++ tail)
    (hlong : headSize w.line w.fields + 4 ≤ p.length) : crlf ++ crlf <:+: p := by
  have hsplit : w.encode ++ tail = (w.line ++ w.fields.flatMap fun f => crlf ++ f.line) ++
      (crlf ++ crlf) ++ (w.body.encode ++ tail) := by
    rw [encode_append, List.append_assoc, crlf_encodeFields]
    simp only [List.append_assoc]
  have hlength : ((w.line ++ w.fields.flatMap fun f => crlf ++ f.line) ++
      (crlf ++ crlf)).length = headSize w.line w.fields + 4 := by
    unfold headSize
    rw [List.length_append, List.length_append, List.length_flatMap]
    congr 3
  have hhead : (w.line ++ w.fields.flatMap fun f => crlf ++ f.line) ++ (crlf ++ crlf) <+: p := by
    refine List.prefix_of_prefix_length_le (?_ : _ <+: w.encode ++ tail) hp
      (hlength.trans_le hlong)
    rw [hsplit]
    exact List.prefix_append _ _
  exact (List.suffix_append _ _).isInfix.trans hhead.isInfix

/-- No part of the request is cut at the limit. -/
theorem Roomy.not_splits {w : WireRequest} (h : w.Roomy) {tail p : Bytes}
    (hp : p <+: w.encode ++ tail) : ¬ SplitsHead p (w.encode ++ tail) := by
  rintro ⟨⟨hlong, hnone, -⟩, -⟩
  unfold Roomy at h
  exact hnone (blank_of_long hp (by omega))

/-- What is written is a word of the parser's language. -/
theorem accepted (w : WireRequest) : Accepted w.encode w.message := by
  rcases parseRequest_encode w [] with ⟨r, hr, hcomplete, hrest, hmessage⟩
  rcases parse_word hr hcomplete with ⟨v, hv, -, hword⟩
  rw [hrest] at hv
  rw [List.append_cancel_right hv, ← hmessage]
  exact hword

/-- Words at the front of a stream are its first requests. -/
theorem words_of_stream {vs : List Bytes} {rs : List HttpRequest} {ws : List WireRequest}
    (hwords : List.Forall₂ (fun v r => Accepted v r.message) vs rs)
    (hstart : vs.flatten <+: stream ws) :
    vs.flatten = stream (ws.take rs.length) ∧
      rs.map HttpRequest.message = (ws.take rs.length).map WireRequest.message := by
  induction hwords generalizing ws with
  | nil => exact ⟨rfl, rfl⟩
  | @cons v r vs rs hword hwords ih =>
      rcases hstart with ⟨rest, hrest⟩
      rw [List.flatten_cons, List.append_assoc] at hrest
      cases ws with
      | nil => exact absurd (List.append_eq_nil_iff.1 hrest).1 hword.ne_nil
      | cons w ws =>
          rw [stream_cons] at hrest
          rcases hword.unique w.accepted hrest with ⟨rfl, hmessage⟩
          rcases ih ⟨rest, List.append_cancel_left hrest⟩ with ⟨hflatten, hmessages⟩
          constructor
          · rw [List.flatten_cons, List.length_cons, List.take_succ_cons, stream_cons, hflatten]
          · rw [List.map_cons, List.length_cons, List.take_succ_cons, List.map_cons, hmessage,
              hmessages]

/-- No part of a stream is refused. -/
theorem not_malformed {ws : List WireRequest} (hroomy : ∀ w ∈ ws, w.Roomy) {p : Bytes}
    (hp : p <+: stream ws) : ¬ Malformed p := by
  intro hbad
  cases ws with
  | nil =>
      rw [List.prefix_nil.1 hp] at hbad
      exact Session.not_malformed_nil hbad
  | cons w ws =>
      rw [stream_cons] at hp
      rcases parseRequest_encode w (stream ws) with ⟨r, hr, hcomplete, -⟩
      have hstate : r.parser.state = .complete := by simpa [ParseResult.isComplete] using hcomplete
      -- the parser would refuse the whole stream as well
      rcases parseRequest_malformed hbad with ⟨rp, hrp, herror⟩
      have hindependent := (segmentation_iff hp).2
        ((hroomy w List.mem_cons_self).not_splits hp)
      rcases (hindependent rp hrp).2 herror with ⟨r', hr', herror'⟩
      rw [hr] at hr'
      cases hr'
      rw [hstate] at herror'
      cases herror'

end WireRequest

namespace Server

open WireRequest

variable {H : Type} {cfg : Config H}

/-! ## Runs in which a client sends a stream -/

/-- What is known of a connection whose client sends these requests. -/
theorem reached_stream {ws : List WireRequest} {s : Server} {o : Nat}
    (h : Runs.Reached (serverSystem cfg) (fun s a => s.streams o (stream ws) a = true) s)
    (ho : o < s.nextObject) :
    (s.objects o).hist.requests.map HttpRequest.message =
        (ws.take (s.objects o).hist.requests.length).map WireRequest.message ∧
      (s.objects o).conn.readBuffer <+: stream (ws.drop (s.objects o).hist.requests.length) ∧
      (s.objects o).received = (stream (ws.take (s.objects o).hist.requests.length)).length +
        (s.objects o).conn.readBuffer.length := by
  rcases reached_spelled h ho with ⟨vs, hwords, hreceived, hbytes⟩
  rw [hreceived] at hbytes
  rcases words_of_stream hwords ((List.prefix_append _ _).trans hbytes) with
    ⟨hflatten, hmessages⟩
  rw [hflatten] at hbytes hreceived
  refine ⟨hmessages, ?_, ?_⟩
  · rw [← stream_take_drop ws (s.objects o).hist.requests.length] at hbytes
    exact (List.prefix_append_right_inj _).1 hbytes
  · unfold Session.received
    rw [hreceived, List.length_append]

/-- **What is taken from a stream of requests.** A client sends well-formed requests one
behind the other, whatever pieces they arrive in and whatever other connections do. Then
the requests taken so far are its first ones, the bytes behind them that have arrived are
in the buffer, the connection is never closed as a bad one, and while no request is in
flight the next one is not in the buffer as a whole. -/
theorem stream_taken {ws : List WireRequest} {s : Server} {o : Nat}
    (hroomy : ∀ w ∈ ws, w.Roomy)
    (h : Runs.Reached (serverSystem cfg) (fun s a => s.streams o (stream ws) a = true) s)
    (ho : o < s.nextObject) :
    (s.objects o).hist.requests.map HttpRequest.message =
        (ws.take (s.objects o).hist.requests.length).map WireRequest.message ∧
      stream (ws.take (s.objects o).hist.requests.length) ++ (s.objects o).conn.readBuffer =
        (stream ws).take (s.objects o).received ∧
      (s.objects o).hist.closedBy ≠ some .badRequest ∧
      ((s.objects o).conn.isOpen = true → (s.objects o).conn.processing = false →
        ∀ w ∈ ws[(s.objects o).hist.requests.length]?,
          ¬ w.encode <+: (s.objects o).conn.readBuffer) := by
  rcases reached_stream h ho with ⟨hmessages, hbuffer, hreceived⟩
  refine ⟨hmessages, ?_, ?_, ?_⟩
  · have hstart := (List.prefix_append_right_inj
      (stream (ws.take (s.objects o).hist.requests.length))).2 hbuffer
    rw [stream_take_drop] at hstart
    rw [hreceived, ← List.length_append]
    exact List.prefix_iff_eq_take.1 hstart
  · intro hclosed
    have hrest : ∀ w ∈ ws.drop (s.objects o).hist.requests.length, w.Roomy :=
      fun w hw => hroomy w (List.mem_of_mem_drop hw)
    exact not_malformed hrest hbuffer ((reachable_judged h.reachable o ho).refused hclosed)
  · intro hopen hprocessing w _
    exact Inbound.not_word_of_incomplete (open_idle h.reachable ho hopen hprocessing).incomplete
      w.accepted

/-- `GET / HTTP/1.1`, without headers. -/
def rootRequest : WireRequest where
  method := .get
  target := lit "/"
  version := lit "HTTP/1.1"
  fields := []
  body := .none
  method_known := by decide
  target_space := by decide
  target_crlf := by decide +kernel
  version_crlf := by decide +kernel
  fields_distinct := by decide
  head_size := by decide
  framed := ⟨rfl, fun ⟨_, hv, _⟩ => nomatch hv⟩

theorem rootRequest_roomy : ∀ w ∈ [rootRequest, rootRequest], w.Roomy := by
  intro w hw
  have hroot : w = rootRequest := by simpa using hw
  rw [hroot]
  show headSize rootRequest.line rootRequest.fields + 3 ≤ maxHeaderBytes
  decide

/-- Two requests arrive in three pieces, the second of them while the first request is
answered. -/
def pipelineTwo : List (Act Nat) :=
  acceptOne ++ receiveOne (lit "GET / HT") ++ [.afterBatch] ++
    receiveOne (lit "TP/1.1\r\n\r\nGET ") ++ [.afterBatch, .take, .work 0 smallEnv] ++
    deliverOne ++ [.afterBatch, .exit 0] ++ receiveOne (lit "/ HTTP/1.1\r\n\r\n")

/-- Two requests in three pieces. -/
theorem stream_taken_two : ∃ s,
    (serverSystem smallConfig).runIf (fun s a => s.streams 0 (stream [rootRequest, rootRequest]) a)
        (Server.start 0) pipelineTwo = some s ∧
      (s.objects 0).hist.requests.length = 2 ∧
      (s.objects 0).hist.requests.map HttpRequest.message =
        ([rootRequest, rootRequest].take (s.objects 0).hist.requests.length).map
          WireRequest.message ∧
      stream ([rootRequest, rootRequest].take (s.objects 0).hist.requests.length) ++
          (s.objects 0).conn.readBuffer =
        (stream [rootRequest, rootRequest]).take (s.objects 0).received ∧
      (s.objects 0).hist.closedBy ≠ some .badRequest ∧
      ((s.objects 0).conn.isOpen = true → (s.objects 0).conn.processing = false →
        ∀ w ∈ [rootRequest, rootRequest][(s.objects 0).hist.requests.length]?,
          ¬ w.encode <+: (s.objects 0).conn.readBuffer) := by
  have hrun : ((serverSystem smallConfig).runIf
      (fun s a => s.streams 0 (stream [rootRequest, rootRequest]) a) (Server.start 0)
        pipelineTwo).map
      (fun s => decide (0 < s.nextObject ∧ (s.objects 0).hist.requests.length = 2)) =
        some true := by
    decide +kernel
  rcases Option.map_eq_some_iff.1 hrun with ⟨s, hs, hvalue⟩
  rcases of_decide_eq_true hvalue with ⟨ho, htwo⟩
  exact ⟨s, hs, htwo, stream_taken rootRequest_roomy
    (Runs.reached_of_runIf (.start ⟨0, rfl⟩) hs) ho⟩

/-! ## What the client reads for it -/

/-- Everything the client sends has arrived, and no request is in flight. -/
def SettledFor (x : Session) (ws : List WireRequest) : Prop :=
  x.received = (stream ws).length ∧ x.conn.isOpen = true ∧ x.conn.processing = false

/-- Then every request has been taken. -/
theorem settled_taken {ws : List WireRequest} {s : Server} {o : Nat}
    (h : Runs.Reached (serverSystem cfg) (fun s a => s.streams o (stream ws) a = true) s)
    (ho : o < s.nextObject) (hsettled : SettledFor (s.objects o) ws) :
    ws.length ≤ (s.objects o).hist.requests.length := by
  rcases hsettled with ⟨hall, hopen, hprocessing⟩
  rcases reached_stream h ho with ⟨-, hstart, hreceived⟩
  by_contra hleft
  rw [Nat.not_le] at hleft
  -- otherwise the next request is in the buffer, with all that follows it
  have hbuffer : (s.objects o).conn.readBuffer =
      stream (ws.drop (s.objects o).hist.requests.length) := by
    apply hstart.eq_of_length
    have hsplit := congrArg List.length (stream_take_drop ws (s.objects o).hist.requests.length)
    rw [List.length_append] at hsplit
    omega
  have hnext : ws[(s.objects o).hist.requests.length].encode <+: (s.objects o).conn.readBuffer := by
    rw [hbuffer, List.drop_eq_getElem_cons hleft, stream_cons]
    exact List.prefix_append _ _
  exact Inbound.not_word_of_incomplete (open_idle h.reachable ho hopen hprocessing).incomplete
    (accepted _) hnext

/-- Then the buffer is empty, and an interim response was for a request that has been taken. -/
theorem settled_begun {ws : List WireRequest} {s : Server} {o : Nat}
    (h : Runs.Reached (serverSystem cfg) (fun s a => s.streams o (stream ws) a = true) s)
    (ho : o < s.nextObject) (hsettled : SettledFor (s.objects o) ws) :
    ∀ k ∈ (s.objects o).hist.interim, k < (s.objects o).hist.requests.length := by
  have htaken := settled_taken h ho hsettled
  have hempty : (s.objects o).conn.readBuffer = [] := by
    have hstart := (reached_stream h ho).2.1
    rw [List.drop_eq_nil_of_le htaken] at hstart
    exact List.prefix_nil.1 hstart
  intro k hk
  rcases (reachable_judged h.reachable o ho).begun k hk with hless | ⟨-, hsome⟩
  · exact hless
  · exact absurd hempty hsome

/-- What is known of such a connection when everything has arrived and is answered. -/
structure Answered (files : Files) (parts : Bytes → Prop) (x : Session) (ws : List WireRequest)
    (es : List Exchange) : Prop where
  stays : x.hist.closedBy = none
  count : es.length = ws.length
  wire : x.wire = es.flatMap (·.onWire files)
  interim : ∀ k ∈ x.hist.interim, k < es.length
  took : ∀ bytes, x.Took bytes →
    Frames.Spliced parts (es.map (·.onWire files)) x.hist.interim
      (es.flatMap (·.onWire files)) bytes

/-- The responses of a connection whose client sends these requests, with dates of this kind. -/
theorem stream_exchanges {files : Files} {parts dated : Bytes → Prop} {ws : List WireRequest}
    {s : Server} {o : Nat}
    (h : Runs.Reached (serverSystem cfg)
      (fun s a => (Steady files s a ∧ Dates dated a ∧ Takes parts a) ∧
        s.streams o (stream ws) a = true) s)
    (ho : o < s.nextObject) :
    ∃ es : List Exchange, es.map (fun e => e.request.message) <+: ws.map WireRequest.message ∧
      Exchanged files parts dated (s.objects o) es ∧
      (SettledFor (s.objects o) ws → Answered files parts (s.objects o) ws es) := by
  have hstream : Runs.Reached (serverSystem cfg)
      (fun s a => s.streams o (stream ws) a = true) s := h.mono fun _ _ hok => hok.2
  have htaken := (reached_stream hstream ho).1
  rcases reached_exchanged (h.mono fun _ _ hok => hok.1) ho with ⟨es, hes⟩
  have hmessages : es.map (fun e => e.request.message) <+: ws.map WireRequest.message := by
    have hfirst := hes.requests.map HttpRequest.message
    rw [List.map_map, htaken] at hfirst
    exact hfirst.trans ((List.take_prefix _ ws).map _)
  refine ⟨es, hmessages, hes, ?_⟩
  intro hsettled
  have hidle := open_idle h.reachable ho hsettled.2.1 hsettled.2.2
  have hwire := hes.all hsettled.2.1 hidle.noData
  have hlength : es.length = (s.objects o).hist.requests.length :=
    hes.installed.trans hidle.answered
  have hstays := (reachable_settled h.reachable o ho).1.2 hsettled.2.1
  constructor
  · exact hstays
  · have hall := settled_taken hstream ho hsettled
    have hfirst := hmessages.length_le
    rw [List.length_map, List.length_map] at hfirst
    omega
  · exact hwire
  · rw [hlength]
    exact settled_begun hstream ho hsettled
  · -- an open connection has got no notice
    rintro bytes ⟨part, rfl, hpart⟩
    rw [hstays] at hpart
    have hsent := hes.sent
    rw [List.prefix_nil.1 hpart, List.append_nil]
    rw [hwire] at hsent
    exact hsent

/-- A request that waits for an interim response; its body is one byte. -/
def expectUpload : WireRequest where
  method := .post
  target := lit "/"
  version := lit "HTTP/1.1"
  fields := [
    ⟨lit "Expect", lit " ", lit "100-continue", by decide, by decide, by decide +kernel,
      by decide +kernel, by decide +kernel, by decide⟩,
    ⟨lit "Content-Length", lit " ", lit "1", by decide, by decide, by decide +kernel,
      by decide +kernel, by decide +kernel, by decide⟩]
  body := .length (lit "x")
  method_known := by decide
  target_space := by decide
  target_crlf := by decide +kernel
  version_crlf := by decide +kernel
  fields_distinct := by decide
  head_size := by decide
  framed := ⟨by decide +kernel, fun ⟨_, hv, _⟩ => Option.some_ne_none _ hv.symm, by decide⟩

/-- Two requests are answered, and the responses sent; the second waits for its body. -/
def pipelineAnswered : List (Act Nat) :=
  acceptOne ++ receiveOne (lit "GET / HTTP/1.1\r\n\r\n") ++
    [.afterBatch, .take, .work 0 smallEnv] ++ deliverOne ++ [.afterBatch, .exit 0] ++
    receiveOne (lit "POST / HTTP/1.1\r\nExpect: 100-continue\r\nContent-Length: 1\r\n\r\n") ++
    [.afterBatch] ++ receiveOne (lit "x") ++ [.afterBatch, .take, .work 0 smallEnv] ++ deliverOne

end Server

end Oreshnek
