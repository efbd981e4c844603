import Oreshnek.Net.Grammar
import Oreshnek.Server.Drain
import Oreshnek.Server.Transcript

/-!
# What is taken from the bytes of a client

Nothing is assumed about the bytes that a client sends. They arrive in pieces of any size,
and between the steps of any other connection. Whatever the pieces are, the bytes received
so far are words of the parser's language, one for each request that has been taken, and
behind them the buffer: no byte is lost, none counts twice, and none of one request gets into
the next. The connection is closed as a bad one only with a malformed buffer, and waits only
with one that is not malformed and does not begin with a word (`words_taken`).
-/

namespace Oreshnek

/-! ## Reading -/

namespace Connection

/-- Reading adds to the end of the buffer. -/
theorem sslReadLoop_prefix (answers : List SslRead) (c : Connection) (total : Nat)
    (last : Option SslRead) :
    c.readBuffer <+: (sslReadLoop answers c total last).1.readBuffer := by
  fun_induction sslReadLoop answers c total last with
  | case2 c total last space hspace first rest answers bytes ih =>
      exact (List.prefix_append _ _).trans ih
  | _ => exact List.prefix_rfl

/-- What has been read stands behind what was there. -/
theorem readData_prefix (c : Connection) (now : Nat) (recv : RecvResult) (ssl : List SslRead) :
    c.readBuffer <+: (c.readData now recv ssl).2.1.readBuffer := by
  unfold readData
  split
  · exact List.prefix_rfl
  dsimp only
  split
  · exact List.prefix_rfl
  split
  · have hloop := sslReadLoop_prefix ssl c 0 none
    split
    · exact hloop
    · exact hloop
    · split
      · exact hloop
      · exact hloop
  · cases recv with
    | data first rest => exact List.prefix_append _ _
    | closed => exact List.prefix_rfl
    | wouldBlock => exact List.prefix_rfl
    | failed => exact List.prefix_rfl

end Connection

/-! ## The parser on a connection -/

namespace Inbound

/-- The parser's verdict on the buffer, unless a request is complete. -/
theorem parseNext_verdict {c inb : Inbound} {n : Nat}
    (h : c.parseNext = some (false, n, inb)) :
    inb.readBuffer = c.readBuffer ∧
      (c.readBuffer = [] ∧ inb = c ∨
        c.readBuffer ≠ [] ∧ (inb.parserFailed = true ↔ Malformed c.readBuffer)) := by
  unfold parseNext at h
  split at h
  next hempty =>
    cases h
    exact ⟨rfl, .inl ⟨hempty, rfl⟩⟩
  next hempty =>
    cases hr : parseRequest c.httpParser.reset c.readBuffer {} with
    | none =>
        rw [hr] at h
        cases h
    | some r =>
        rw [hr] at h
        dsimp only at h
        have hreset : parseRequest {} c.readBuffer {} = some r := hr
        have hinb : inb = ofResult r ∧ r.parser.state ≠ .complete := by
          split at h
          next herror =>
            cases h
            refine ⟨rfl, ?_⟩
            rw [herror]
            exact ParsingState.noConfusion
          next =>
            have hcomplete := congrArg Prod.fst (Option.some.inj h)
            dsimp only at hcomplete
            rw [hcomplete] at h
            cases h
            refine ⟨rfl, ?_⟩
            simpa [ParseResult.isComplete] using hcomplete
        rcases hinb with ⟨rfl, hstate⟩
        refine ⟨(parseRequest_consumed hreset).2.1 hstate, .inr ⟨hempty, ?_⟩⟩
        rw [← parseRequest_error_iff hreset]
        exact decide_eq_true_iff

/-- The parser has stopped inside a request: it has failed, or waits for the body. -/
def underway (c : Inbound) : Bool := c.httpParser.state = .error || c.httpParser.state = .body

theorem underway_of_failed {c : Inbound} (h : c.parserFailed = true) : c.underway = true := by
  unfold underway
  unfold parserFailed at h
  rw [h, Bool.true_or]

/-- A parser that has found a request has not stopped inside one. -/
theorem parseNext_good {c inb : Inbound} {n : Nat} (h : c.parseNext = some (true, n, inb)) :
    inb.underway = false := by
  rcases parseNext_true h with ⟨r, -, hcomplete, -, rfl⟩
  have hstate : r.parser.state = .complete := by simpa [ParseResult.isComplete] using hcomplete
  unfold underway ofResult
  rw [hstate]
  rfl

/-- A request that is taken is a word at the front of the buffer, and leaves what is behind. -/
theorem parseNext_word {c inb : Inbound} {n : Nat} (h : c.parseNext = some (true, n, inb)) :
    ∃ w, c.readBuffer = w ++ (inb.consume n).readBuffer ∧
      Accepted w (inb.ownedRequest n).message := by
  rcases parseNext_true h with ⟨r, hr, hcomplete, rfl, rfl⟩
  rcases parse_word hr hcomplete with ⟨w, hbuffer, -, hword⟩
  have hmessage : ((ofResult r).ownedRequest r.bytesProcessed).message = r.request.message :=
    (makeOwned_message (parseRequest_shown hr hcomplete) (Nat.le_refl _)).1
  refine ⟨w, ?_, ?_⟩
  · rw [consume_buffer]
    exact hbuffer
  · rw [hmessage]
    exact hword

/-- A buffer that begins with a word is not waited with. -/
theorem not_word_of_incomplete {c : Inbound} (h : ∀ n inb, c.parseNext ≠ some (true, n, inb))
    {w : Bytes} {m : Message} (hword : Accepted w m) : ¬ w <+: c.readBuffer := by
  rintro ⟨tail, htail⟩
  rcases (parse_complete_iff (w ++ tail) w.length m).2 ⟨w, tail, rfl, rfl, hword⟩ with
    ⟨r, hr, hcomplete, -⟩
  have hpos := ((parseRequest_consumed hr).2.2 hcomplete)
  have hstate : r.parser.state = .complete := by simpa [ParseResult.isComplete] using hcomplete
  have hne : c.readBuffer ≠ [] := by
    rw [← htail]
    exact List.length_pos_iff.1 (hpos.1.trans_le hpos.2)
  have hparse : parseRequest c.httpParser.reset c.readBuffer {} = some r := by
    rw [← htail]
    exact hr
  apply h r.bytesProcessed (ofResult r)
  unfold parseNext
  rw [if_neg hne, hparse]
  dsimp only
  rw [if_neg (by rw [hstate]; exact ParsingState.noConfusion), hcomplete]

end Inbound

/-! ## One connection -/

/-- The connection behind a handler. -/
def Flow.session : Flow → Session
  | .dispatch x => x
  | .done x _ => x

namespace Session

/-- How many bytes have been read from the connection. -/
def received (x : Session) : Nat := x.hist.received.length

/-- The bytes that a handler has read. -/
def arrived (x : Session) (flow : Flow) : Bytes :=
  flow.session.hist.received.drop x.hist.received.length

/-- What has been received is a word for each request taken, and the buffer behind them; it is
the beginning of what the client sends. -/
def Spelled (bytes : Bytes) (x : Session) : Prop :=
  ∃ ws : List Bytes, List.Forall₂ (fun w r => Accepted w r.message) ws x.hist.requests ∧
    x.hist.received = ws.flatten ++ x.conn.readBuffer ∧ x.hist.received <+: bytes

/-- An interim response was sent for a request that has been taken, or for the one that begins
the buffer. -/
def Begun (x : Session) : Prop :=
  ∀ k ∈ x.hist.interim, k < x.hist.requests.length ∨
    k = x.hist.requests.length ∧ x.conn.readBuffer ≠ []

/-- What the parser has made of the buffer. -/
structure Judged (x : Session) : Prop where
  underway : x.conn.toInbound.underway = true → x.conn.readBuffer ≠ []
  begun : x.Begun
  refused : x.hist.closedBy = some .badRequest → Malformed x.conn.readBuffer
  waiting : x.conn.isOpen = true → x.conn.processing = false → ¬ Malformed x.conn.readBuffer

/-- The same behind a callback that ends with this outcome. -/
structure Verdict (y : Session) (outcome : Outcome) : Prop where
  underway : y.conn.toInbound.underway = true → y.conn.readBuffer ≠ []
  begun : y.Begun
  refused : outcome = .close .badRequest → Malformed y.conn.readBuffer
  waiting : y.conn.processing = false → (∀ reason, outcome ≠ .close reason) →
    ¬ Malformed y.conn.readBuffer

theorem not_malformed_nil : ¬ Malformed [] := by
  have hrun : (parseRequest {} [] {}).map (fun r => decide (r.parser.state = .error)) =
      some false := by
    decide +kernel
  rcases Option.map_eq_some_iff.1 hrun with ⟨r, hr, hstate⟩
  rw [← parseRequest_error_iff hr]
  exact of_decide_eq_false hstate

theorem shake_processing (x : Session) (now : Nat) (ans : Answers) :
    (x.shake now ans).conn.processing = x.conn.processing := by
  rcases handshake_outside x.conn now ans.accept with ⟨done, want, last, hconn⟩
  have hprocessing := congrArg Connection.processing hconn
  exact hprocessing

/-- A handshake leaves the buffer and the history as they are. -/
theorem shake_inbound (x : Session) (now : Nat) (ans : Answers) :
    (x.shake now ans).conn.toInbound = x.conn.toInbound := by
  rcases handshake_outside x.conn now ans.accept with ⟨done, want, last, hconn⟩
  have hinbound := congrArg (fun c : Connection => c.toInbound) hconn
  exact hinbound

theorem Entered.inbound {x z : Session} {now : Nat} {ans : Answers} (h : Entered x now ans z) :
    z.conn.toInbound = x.conn.toInbound ∧ z.hist = x.hist := by
  cases h with
  | plain => exact ⟨rfl, rfl⟩
  | shaken => exact ⟨x.shake_inbound now ans, rfl⟩

/-- A response that is installed leaves what comes in. -/
theorem install_inbound (x : Session) (now : Nat) (ans : Answers) (serial madeFor : Nat)
    (inline : Bool) (res : HttpResponse) :
    (x.install now ans serial madeFor inline res).conn.toInbound = x.conn.toInbound ∧
      (x.install now ans serial madeFor inline res).conn.processing = x.conn.processing := by
  have hout := x.install_outside now ans serial madeFor inline res
  have hinbound := congrArg (fun c : Connection => c.toInbound) hout
  have hprocessing := congrArg Connection.processing hout
  exact ⟨hinbound, hprocessing⟩

/-- So does a write. -/
theorem afterWrite_inbound (x : Session) (now : Nat) (ans : Answers) :
    (x.afterWrite now ans).conn.toInbound = x.conn.toInbound ∧
      (x.afterWrite now ans).conn.processing = x.conn.processing := by
  have hout := x.afterWrite_outside now ans
  have hinbound := congrArg (fun c : Connection => c.toInbound) hout
  have hprocessing := congrArg Connection.processing hout
  exact ⟨hinbound, hprocessing⟩

/-! ### Words -/

/-- No request is taken, and nothing read. -/
theorem Spelled.keep {bytes : Bytes} {x y : Session} (h : x.Spelled bytes)
    (hrequests : y.hist.requests = x.hist.requests)
    (hreceived : y.hist.received = x.hist.received)
    (hbuffer : y.conn.readBuffer = x.conn.readBuffer) : y.Spelled bytes := by
  unfold Spelled at h ⊢
  rw [hrequests, hreceived, hbuffer]
  exact h

theorem new_spelled (bytes : Bytes) {fd now : Nat} {clientIp : Bytes} {tls : Bool} :
    (Session.new fd now clientIp tls).Spelled bytes :=
  ⟨[], .nil, rfl, List.nil_prefix⟩

/-- The next bytes arrive. -/
theorem Spelled.read {bytes : Bytes} {x y : Session} (h : x.Spelled bytes)
    (hrequests : y.hist.requests = x.hist.requests)
    (hstart : x.conn.readBuffer <+: y.conn.readBuffer)
    (hlogged : y.hist.received =
      x.hist.received ++ y.conn.readBuffer.drop x.conn.readBuffer.length)
    (hnext : y.hist.received.drop x.hist.received.length <+: bytes.drop x.received) :
    y.Spelled bytes := by
  rcases h with ⟨ws, hwords, hreceived, ⟨rest, hrest⟩⟩
  rcases hstart with ⟨new, hnew⟩
  rw [← hnew, List.drop_left] at hlogged
  unfold received at hnext
  rw [hlogged, List.drop_left, ← hrest, List.drop_left] at hnext
  refine ⟨ws, ?_, ?_, ?_⟩
  · rw [hrequests]
    exact hwords
  · rw [hlogged, hreceived, ← hnew, List.append_assoc]
  · rw [hlogged, ← hrest]
    exact (List.prefix_append_right_inj _).2 hnext

/-- The next word is taken off the buffer. -/
theorem Spelled.take {bytes : Bytes} {x : Session} (h : x.Spelled bytes) {n : Nat} {inb : Inbound}
    (hparse : x.conn.toInbound.parseNext = some (true, n, inb)) :
    ((x.parsed inb).takeRequest n).Spelled bytes := by
  rcases h with ⟨ws, hwords, hreceived, hbytes⟩
  rcases Inbound.parseNext_word hparse with ⟨w, hbuffer, hword⟩
  have hsplit : (ws ++ [w]).flatten ++ (inb.consume n).readBuffer =
      ws.flatten ++ x.conn.readBuffer := by
    rw [hbuffer, List.flatten_append, List.flatten_singleton, List.append_assoc]
  exact ⟨ws ++ [w], List.rel_append hwords (.cons hword .nil), hreceived.trans hsplit.symm, hbytes⟩

theorem Spelled.install {bytes : Bytes} {x : Session} (h : x.Spelled bytes) (now : Nat)
    (ans : Answers) (serial madeFor : Nat) (inline : Bool) (res : HttpResponse) :
    (x.install now ans serial madeFor inline res).Spelled bytes := by
  refine h.keep rfl rfl ?_
  rw [(x.install_inbound now ans serial madeFor inline res).1]

/-- `read_data` finds the next bytes. -/
theorem Spelled.entered {bytes : Bytes} {x z : Session} (h : x.Spelled bytes) {now : Nat}
    {ans : Answers} (hz : Entered x now ans z)
    (hnext : (z.afterRead now ans).hist.received.drop x.hist.received.length <+:
      bytes.drop x.received) : (z.afterRead now ans).Spelled bytes := by
  rcases hz.inbound with ⟨hinbound, hhist⟩
  have hstart : z.conn.readBuffer <+: (z.afterRead now ans).conn.readBuffer :=
    Connection.readData_prefix z.conn now ans.recv ans.sslRead
  have hlogged : (z.afterRead now ans).hist.received = z.hist.received ++
      (z.afterRead now ans).conn.readBuffer.drop z.conn.readBuffer.length := rfl
  rw [hinbound] at hstart
  rw [hinbound, hhist] at hlogged
  refine h.read ?_ hstart hlogged hnext
  show z.hist.requests = x.hist.requests
  rw [hhist]

/-- `dispatch_next` takes the next word off the buffer, or leaves it. -/
theorem dispatches_spelled {bytes : Bytes} {y z : Session} {limited overloaded : Bool}
    {now o : Nat} {ans : Answers} {outcome : Outcome} (hz : z.Spelled bytes)
    (h : Dispatches z limited overloaded now ans o y outcome) : y.Spelled bytes := by
  have hanswered : ∀ consumed inb res, z.conn.toInbound.parseNext = some (true, consumed, inb) →
      ((z.parsed inb).reject now ans o consumed res).Spelled bytes := by
    intro consumed inb res hparse
    have hmade : ((z.parsed inb).answering consumed res).Spelled bytes :=
      (hz.take hparse).keep rfl rfl rfl
    exact hmade.install now ans _ o true res
  cases h with
  | limited consumed inb hparse => exact hanswered consumed inb _ hparse
  | shed consumed inb hparse => exact hanswered consumed inb _ hparse
  | handedOver consumed inb hparse => exact (hz.take hparse).keep rfl rfl rfl
  | bad n inb hparse => exact hz.keep rfl rfl (Inbound.parseNext_verdict hparse).1
  | waits n inb hparse =>
      rcases await_conn (z.parsed inb) ans with ⟨b, hconn⟩
      refine hz.keep rfl rfl ?_
      rw [hconn]
      exact (Inbound.parseNext_verdict hparse).1

/-- **Step lemma.** Whatever a callback does, what has been received are the words of the
requests taken and the buffer. -/
theorem react_spelled {bytes : Bytes} {x y : Session} {draining limited overloaded : Bool}
    {now o : Nat} {ans : Answers} {dir : Direction} {outcome : Outcome} (h : x.Spelled bytes)
    (harrived : x.arrived (x.handle draining now ans dir) <+: bytes.drop x.received)
    (hx : x.Left (.rearm dir)) (hopen : x.conn.isOpen = true)
    (hreact : x.react draining limited overloaded now ans o dir = some (y, outcome)) :
    y.Spelled bytes := by
  have hhandle := handle_cases hopen draining now ans dir
  have hsound := handle_sound hx hopen draining now ans
  have hwritten : (x.afterWrite now ans).Spelled bytes :=
    h.keep rfl rfl (congrArg Inbound.readBuffer (x.afterWrite_inbound now ans).1)
  unfold react at hreact
  cases hflow : x.handle draining now ans dir with
  | done z outcome' =>
      rw [hflow] at harrived hhandle hreact
      cases hreact
      cases hhandle with
      | shaken => exact h.keep rfl rfl (congrArg Inbound.readBuffer (x.shake_inbound now ans))
      | readEnd reason hz => exact h.entered hz harrived
      | wrote => exact hwritten
      | finished => exact hwritten.keep rfl rfl rfl
  | dispatch z =>
      rw [hflow] at harrived hhandle hsound hreact
      have hz : z.Spelled bytes := by
        cases hhandle with
        | read hz => exact h.entered hz harrived
        | reused => exact hwritten.keep rfl rfl rfl
      exact dispatches_spelled hz (dispatch_cases hsound.1.processing hreact)

/-! ### Verdicts -/

/-- The same requests have been taken, and bytes come behind the buffer. -/
theorem Begun.keep {x y : Session} (h : x.Begun) (hrequests : y.hist.requests = x.hist.requests)
    (hinterim : y.hist.interim = x.hist.interim)
    (hstart : x.conn.readBuffer <+: y.conn.readBuffer) : y.Begun := by
  intro k hk
  rw [hinterim] at hk
  rw [hrequests]
  rcases h k hk with hless | ⟨hlast, hsome⟩
  · exact .inl hless
  · refine .inr ⟨hlast, fun hempty => ?_⟩
    rw [hempty] at hstart
    exact hsome (List.prefix_nil.1 hstart)

/-- The request that begins the buffer is taken. -/
theorem Begun.take {x y : Session} (h : x.Begun)
    (hrequests : y.hist.requests.length = x.hist.requests.length + 1)
    (hinterim : y.hist.interim = x.hist.interim) : y.Begun := by
  intro k hk
  rw [hinterim] at hk
  left
  rcases h k hk with hless | ⟨hlast, -⟩
  · omega
  · omega

/-- An interim response is sent only for a request whose head is in the buffer. -/
theorem Begun.await {x : Session} (h : x.Begun)
    (hsome : x.conn.toInbound.underway = true → x.conn.readBuffer ≠ []) (ans : Answers) :
    (x.await ans).Begun := by
  rcases await_conn x ans with ⟨b, hconn⟩
  have hbuffer : (x.await ans).conn.readBuffer = x.conn.readBuffer := by rw [hconn]
  intro k hk
  rw [hbuffer]
  change k ∈ (if x.conn.maybeSend100Continue.1 then x.hist.interim ++ [x.hist.requests.length]
    else x.hist.interim) at hk
  split at hk
  next hsent =>
    rcases List.mem_append.1 hk with hk | hk
    · exact h k hk
    · refine .inr ⟨List.mem_singleton.1 hk, hsome ?_⟩
      have hexpects : x.conn.expectsContinue = true := by
        by_contra hnot
        unfold Connection.maybeSend100Continue at hsent
        rw [if_neg hnot] at hsent
        simp at hsent
      unfold Inbound.underway
      unfold Connection.expectsContinue at hexpects
      rw [(Bool.and_eq_true_iff.1 hexpects).1, Bool.or_true]
  next => exact h k hk

/-- A new connection has nothing to judge. -/
theorem new_judged (fd now : Nat) (clientIp : Bytes) (tls : Bool) :
    (Session.new fd now clientIp tls).Judged := by
  constructor
  · intro hunderway
    cases hunderway
  · intro k hk
    cases hk
  · intro hclosed
    cases hclosed
  · intro _ _
    exact not_malformed_nil

/-- A close for another reason says nothing of the parser. -/
theorem Judged.close {x : Session} (h : x.Judged) {reason : CloseReason}
    (hreason : reason ≠ .badRequest) : (x.close reason).Judged := by
  constructor
  · exact h.underway
  · exact h.begun
  · intro hbad
    exact absurd (Option.some.inj hbad) hreason
  · intro hopen
    cases hopen

/-- The buffer and the parser are as they were, and so is what is in flight. -/
theorem Judged.verdict {x y : Session} {outcome : Outcome} (h : x.Judged)
    (hopen : x.conn.isOpen = true) (hinbound : y.conn.toInbound = x.conn.toInbound)
    (hprocessing : y.conn.processing = x.conn.processing)
    (hrequests : y.hist.requests = x.hist.requests) (hinterim : y.hist.interim = x.hist.interim)
    (houtcome : outcome ≠ .close .badRequest) : y.Verdict outcome := by
  constructor
  · rw [hinbound]
    exact h.underway
  · refine h.begun.keep hrequests hinterim ?_
    rw [hinbound]
  · intro hbad
    exact absurd hbad houtcome
  · intro hidle _
    rw [hinbound]
    exact h.waiting hopen (hprocessing ▸ hidle)

/-- A callback ends; the connection is closed if it says so, or cannot be armed. -/
theorem Verdict.concluded {y : Session} {outcome : Outcome} (h : y.Verdict outcome)
    (hnone : y.hist.closedBy = none) (success : Bool) : (y.concluded success outcome).Judged := by
  rcases y.concluded_cases success outcome with ⟨hsame, hstays⟩ | ⟨reason, hclosed, hreason⟩
  · rw [hsame]
    constructor
    · exact h.underway
    · exact h.begun
    · intro hbad
      rw [hnone] at hbad
      cases hbad
    · intro _ hidle
      exact h.waiting hidle hstays
  · rw [hclosed]
    constructor
    · exact h.underway
    · exact h.begun
    · intro hbad
      have hbad : reason = .badRequest := Option.some.inj hbad
      rcases hreason with houtcome | ⟨hio, -⟩
      · exact h.refused (hbad ▸ houtcome)
      · rw [hbad] at hio
        cases hio
    · intro hopen
      cases hopen

/-- A request has been taken, and is in flight. -/
theorem Verdict.taken {z y : Session} {consumed : Nat} {inb : Inbound} {outcome : Outcome}
    (hz : z.Begun) (hparse : z.conn.toInbound.parseNext = some (true, consumed, inb))
    (hinbound : y.conn.toInbound = inb.consume consumed) (hprocessing : y.conn.processing = true)
    (hrequests : y.hist.requests.length = z.hist.requests.length + 1)
    (hinterim : y.hist.interim = z.hist.interim)
    (hstays : ∀ reason, outcome ≠ .close reason) : y.Verdict outcome := by
  constructor
  · intro hunderway
    have hgood := Inbound.parseNext_good hparse
    rw [hinbound, Inbound.consume_eq] at hunderway
    exact absurd (hgood.symm.trans hunderway) Bool.false_ne_true
  · exact hz.take hrequests hinterim
  · intro hbad
    exact absurd hbad (hstays _)
  · intro hidle
    rw [hprocessing] at hidle
    cases hidle

/-- The parser has failed, so that the buffer is malformed. -/
theorem Verdict.bad {z : Session} {n : Nat} {inb : Inbound}
    (hz : z.conn.toInbound.underway = true → z.conn.readBuffer ≠ []) (hbegun : z.Begun)
    (hparse : z.conn.toInbound.parseNext = some (false, n, inb))
    (hfailed : inb.parserFailed = true) : (z.parsed inb).Verdict (.close .badRequest) := by
  rcases Inbound.parseNext_verdict hparse with ⟨hbuffer, ⟨hempty, hsame⟩ | ⟨hne, hmalformed⟩⟩
  · rw [hsame] at hfailed
    exact absurd hempty (hz (Inbound.underway_of_failed hfailed))
  constructor
  · intro _
    exact hbuffer ▸ hne
  · exact hbegun.keep rfl rfl (hbuffer ▸ List.prefix_rfl)
  · intro _
    show Malformed inb.readBuffer
    rw [hbuffer]
    exact hmalformed.1 hfailed
  · intro _ hstays
    exact absurd rfl (hstays .badRequest)

/-- It has not failed, so that the buffer is not. -/
theorem Verdict.waits {z : Session} {n : Nat} {inb : Inbound}
    (hz : z.conn.toInbound.underway = true → z.conn.readBuffer ≠ []) (hbegun : z.Begun)
    (hparse : z.conn.toInbound.parseNext = some (false, n, inb))
    (hgood : inb.parserFailed = false) (ans : Answers) {dir : Direction} :
    ((z.parsed inb).await ans).Verdict (.rearm dir) := by
  rcases await_conn (z.parsed inb) ans with ⟨b, hconn⟩
  have hinbound : ((z.parsed inb).await ans).conn.toInbound = inb :=
    congrArg (fun c : Connection => c.toInbound) hconn
  have hparsed : inb.underway = true → inb.readBuffer ≠ [] := by
    intro hunderway
    rcases Inbound.parseNext_verdict hparse with ⟨hbuffer, ⟨-, hsame⟩ | ⟨hne, -⟩⟩
    · rw [hsame] at hunderway ⊢
      exact hz hunderway
    · exact hbuffer ▸ hne
  constructor
  · rw [hinbound]
    exact hparsed
  · have hbuffer : z.conn.readBuffer <+: (z.parsed inb).conn.readBuffer := by
      show z.conn.readBuffer <+: inb.readBuffer
      rw [(Inbound.parseNext_verdict hparse).1]
    have hkept : (z.parsed inb).Begun := hbegun.keep rfl rfl hbuffer
    exact hkept.await hparsed ans
  · intro hbad
    cases hbad
  · intro _ _
    rw [hinbound]
    rcases Inbound.parseNext_verdict hparse with ⟨hbuffer, ⟨hempty, -⟩ | ⟨-, hmalformed⟩⟩
    · rw [hbuffer, hempty]
      exact not_malformed_nil
    · rw [hbuffer, ← hmalformed, hgood]
      exact Bool.false_ne_true

/-- `dispatch_next` refuses malformed buffers only, and waits with the others only. -/
theorem dispatches_verdict {y z : Session} {limited overloaded : Bool} {now o : Nat}
    {ans : Answers} {outcome : Outcome}
    (hz : z.conn.toInbound.underway = true → z.conn.readBuffer ≠ []) (hbegun : z.Begun)
    (h : Dispatches z limited overloaded now ans o y outcome) : y.Verdict outcome := by
  have hanswered : ∀ consumed inb res status,
      z.conn.toInbound.parseNext = some (true, consumed, inb) →
      ((z.parsed inb).reject now ans o consumed res).Verdict (.reject status) := by
    intro consumed inb res status hparse
    have hinstalled := ((z.parsed inb).answering consumed res).install_inbound now ans
      z.hist.requests.length o true res
    refine .taken hbegun hparse hinstalled.1 hinstalled.2 List.length_append rfl ?_
    intro reason heq
    cases heq
  cases h with
  | limited consumed inb hparse => exact hanswered consumed inb _ _ hparse
  | shed consumed inb hparse => exact hanswered consumed inb _ _ hparse
  | handedOver consumed inb hparse =>
      refine .taken hbegun hparse rfl rfl List.length_append rfl ?_
      intro reason heq
      cases heq
  | bad n inb hparse hfailed => exact .bad hz hbegun hparse hfailed
  | waits n inb hparse hgood => exact .waits hz hbegun hparse hgood ans

/-- A read only adds to the buffer. -/
theorem Judged.entered {x z : Session} (h : x.Judged) {now : Nat} {ans : Answers}
    (hz : Entered x now ans z) :
    ((z.afterRead now ans).conn.toInbound.underway = true →
      (z.afterRead now ans).conn.readBuffer ≠ []) ∧ (z.afterRead now ans).Begun := by
  have hstart : z.conn.readBuffer <+: (z.afterRead now ans).conn.readBuffer :=
    Connection.readData_prefix z.conn now ans.recv ans.sslRead
  have hout := congrArg (fun c : Connection => c.httpParser) (z.afterRead_outside now ans)
  have hparser : (z.afterRead now ans).conn.httpParser = z.conn.httpParser := hout
  have hhist := hz.inbound.2
  rw [hz.inbound.1] at hparser hstart
  constructor
  · intro hunderway hempty
    rw [hempty] at hstart
    refine h.underway ?_ (List.prefix_nil.1 hstart)
    unfold Inbound.underway at hunderway ⊢
    rw [← hparser]
    exact hunderway
  · refine h.begun.keep ?_ ?_ hstart
    · show z.hist.requests = x.hist.requests
      rw [hhist]
    · show z.hist.interim = x.hist.interim
      rw [hhist]

/-- **Step lemma.** A callback closes the connection as a bad one only with a malformed buffer,
and waits for more only with another. -/
theorem react_verdict {x y : Session} {draining limited overloaded : Bool} {now o : Nat}
    {ans : Answers} {dir : Direction} {outcome : Outcome} (h : x.Judged)
    (hx : x.Left (.rearm dir)) (hopen : x.conn.isOpen = true)
    (hreact : x.react draining limited overloaded now ans o dir = some (y, outcome)) :
    y.Verdict outcome := by
  have hwritten := x.afterWrite_inbound now ans
  rcases react_cases hx hopen hreact with hhandle | ⟨z, -, hhandle, -, hdispatch⟩
  · cases hhandle with
    | shaken dir outcome htls hdone houtcome =>
        -- the callbacks that parse nothing leave the verdict
        refine h.verdict hopen (x.shake_inbound now ans) (x.shake_processing now ans) rfl rfl ?_
        rintro rfl
        rcases houtcome with heq | heq | ⟨-, d, heq⟩
        · cases heq
        · cases heq
        · cases heq
    | readEnd reason hz hreason =>
        constructor
        · exact (h.entered hz).1
        · exact (h.entered hz).2
        · intro hbad
          cases hbad
          rcases hreason with heq | heq | heq
          · cases heq
          · cases heq
          · cases heq
        · intro _ hstays
          exact absurd rfl (hstays reason)
    | wrote outcome houtcome =>
        refine h.verdict hopen hwritten.1 hwritten.2 rfl rfl ?_
        rintro rfl
        rcases houtcome with heq | ⟨heq, -⟩
        · cases heq
        · cases heq
    | finished hret hdata =>
        refine h.verdict hopen hwritten.1 hwritten.2 rfl rfl ?_
        intro heq
        cases heq
  · -- the buffer is parsed
    cases hhandle with
    | read hz => exact dispatches_verdict (h.entered hz).1 (h.entered hz).2 hdispatch
    | reused hsecured hret hdata =>
        have hunderway : ((x.afterWrite now ans).complete.reuse now).conn.toInbound.underway =
            true → ((x.afterWrite now ans).complete.reuse now).conn.readBuffer ≠ [] := by
          have hbefore := h.underway
          rw [← hwritten.1] at hbefore
          exact hbefore
        have hbegun : ((x.afterWrite now ans).complete.reuse now).Begun :=
          h.begun.keep rfl rfl (congrArg Inbound.readBuffer hwritten.1 ▸ List.prefix_rfl)
        exact dispatches_verdict hunderway hbegun hdispatch

end Session

namespace Server

variable {H : Type} {cfg : Config H}

/-! ## Runs in which a client sends these bytes -/

/-- What this step reads from the object `o` are the next bytes that its client sends. -/
def streams (o : Nat) (bytes : Bytes) (s : Server) : Act H → Bool
  | .client ans =>
      match s.phase with
      | .batch (.client fd dir false :: _) =>
          if s.connections.lookup fd = some o then
            ((s.objects o).arrived ((s.objects o).handle s.draining s.now ans dir)).isPrefixOf
              (bytes.drop (s.objects o).received)
          else true
      | _ => true
  | _ => true

/-- The condition at a callback of the connection. -/
theorem streams_at {s : Server} {o : Nat} {bytes : Bytes} {ans : Answers}
    (h : s.streams o bytes (.client ans : Act H) = true) {fd : Nat} {dir : Direction}
    {rest : List Event} (hphase : s.phase = .batch (.client fd dir false :: rest))
    (hlookup : s.connections.lookup fd = some o) :
    (s.objects o).arrived ((s.objects o).handle s.draining s.now ans dir) <+:
      bytes.drop (s.objects o).received := by
  unfold streams at h
  dsimp only at h
  rw [hphase] at h
  dsimp only at h
  rw [if_pos hlookup] at h
  exact List.isPrefixOf_iff_prefix.1 h

/-- Whatever becomes of an object, what it has received are the words of its requests and its
buffer. -/
theorem moves_spelled {bytes : Bytes} {s : Server} {a : Act H} {o : Nat} {y : Session}
    (hok : s.streams o bytes a = true) (h : (s.objects o).Spelled bytes)
    (hmove : Moves cfg s a o y) : y.Spelled bytes := by
  cases hmove with
  | same => exact h
  | created => exact Session.new_spelled bytes
  | failed => exact h.keep rfl rfl rfl
  | reacted ans fd dir rest x outcome ha hphase hlookup hleft hopen hreact =>
      subst ha
      have harrived := streams_at hok hphase hlookup
      have hx := Session.react_spelled h harrived hleft hopen hreact
      exact Session.concluded_keeps hx (fun _ => hx.keep rfl rfl rfl) ans.rearmed outcome
  | completed ans c ready rest =>
      have hdone : (s.objects o).workerDone.Spelled bytes := h.keep rfl rfl rfl
      have hnext := hdone.install s.now ans c.serial o false c.item.response
      exact Session.concluded_keeps hnext (fun _ => hnext.keep rfl rfl rfl) ans.rearmed _
  | timedOut => exact h.keep rfl rfl rfl
  | pushed => exact h.keep rfl rfl rfl

/-- What has been received is spelled out in every state reached. -/
theorem reached_spelled {bytes : Bytes} {s : Server} {o : Nat}
    (h : Runs.Reached (serverSystem cfg) (fun s a => s.streams o bytes a = true) s)
    (ho : o < s.nextObject) : (s.objects o).Spelled bytes := by
  have hall : ∀ o', o' < s.nextObject → o' = o → (s.objects o').Spelled bytes := by
    apply reached_session (J := fun o' x => o' = o → x.Spelled bytes) ?_ ?_ h
    · intro o' fd now clientIp _
      exact Session.new_spelled bytes
    · rintro s a o' y - hok - hx hmove rfl
      exact moves_spelled hok (hx rfl) hmove
  exact hall o ho rfl

/-- Whatever becomes of an object, it is closed as a bad one only with a malformed buffer. -/
theorem moves_judged {s : Server} {a : Act H} {o : Nat} {y : Session} (hinv : s.Inv)
    (hsettled : (s.objects o).Settled) (h : (s.objects o).Judged) (hmove : Moves cfg s a o y) :
    y.Judged := by
  cases hmove with
  | same => exact h
  | created fd clientIp => exact Session.new_judged fd s.now clientIp cfg.tls
  | failed =>
      apply h.close
      intro heq
      cases heq
  | reacted ans fd dir rest x outcome ha hphase hlookup hleft hopen hreact =>
      have hverdict := Session.react_verdict h hleft hopen hreact
      have hclosed := Session.react_closedBy hleft hopen hreact
      exact hverdict.concluded (hclosed.trans (hsettled.1.2 hopen)) ans.rearmed
  | completed ans c ready rest ha hphase hconn hlookup hhanded =>
      have hopen := serves_open hinv hlookup
      have hinstalled := (s.objects o).workerDone.install_inbound s.now ans c.serial o false
        c.item.response
      have hverdict : ((s.objects o).workerDone.install s.now ans c.serial o false
          c.item.response).Verdict (.rearm .write) := by
        refine h.verdict hopen hinstalled.1 hinstalled.2 rfl rfl ?_
        intro heq
        cases heq
      exact hverdict.concluded (hsettled.1.2 hopen) ans.rearmed
  | timedOut fd reason ha hlookup hreason =>
      apply h.close
      rintro rfl
      rcases timeoutOf_reason hreason with heq | heq | heq | heq
      · cases heq
      · cases heq
      · cases heq
      · cases heq
  | pushed => exact ⟨h.underway, h.begun, h.refused, h.waiting⟩

theorem reachable_judged {s : Server} (h : Runs.Reachable (serverSystem cfg) s) :
    ∀ o, o < s.nextObject → (s.objects o).Judged := by
  apply reached_session (J := fun _ x => x.Judged) ?_ ?_ h
  · exact fun _ fd now clientIp => Session.new_judged fd now clientIp cfg.tls
  · intro s a o y hs _ ho hx hmove
    exact moves_judged (reachable_inv hs.reachable) (reachable_settled hs.reachable o ho) hx hmove

/-- A connection that is open and has no request in flight waits for its next one. -/
theorem open_idle {s : Server} (h : Runs.Reachable (serverSystem cfg) s) {o : Nat}
    (ho : o < s.nextObject) (hopen : (s.objects o).conn.isOpen = true)
    (hprocessing : (s.objects o).conn.processing = false) : (s.objects o).Idle := by
  rcases reachable_owned h o ho hopen with ⟨fd, hfd⟩
  have hmode := ((reachable_inv h).serves fd o hfd).2.2
  cases harmed : s.armedFor fd with
  | none =>
      rw [harmed] at hmode
      have hhanded := hmode.1.processing
      rw [hprocessing] at hhanded
      cases hhanded
  | some dir =>
      rw [harmed] at hmode
      cases dir with
      | read => exact hmode.1
      | write =>
          rcases hmode.1 with hwriting | ⟨hidle, -⟩
          · have hbusy := hwriting.processing
            rw [hprocessing] at hbusy
            cases hbusy
          · exact hidle

/-- **What is taken from the bytes of a client.** Whatever a client sends, in whatever pieces it
arrives and whatever other connections do, the bytes received so far are a word of the
language for each request taken, which is what that word says, and behind them the buffer.
The connection is closed as a bad one only with a malformed buffer. While it is open and no
request is in flight, the buffer is not malformed and does not begin with a word. -/
theorem words_taken {bytes : Bytes} {s : Server} {o : Nat}
    (h : Runs.Reached (serverSystem cfg) (fun s a => s.streams o bytes a = true) s)
    (ho : o < s.nextObject) :
    (∃ ws : List Bytes,
        List.Forall₂ (fun w r => Accepted w r.message) ws (s.objects o).hist.requests ∧
        ws.flatten ++ (s.objects o).conn.readBuffer = bytes.take (s.objects o).received) ∧
      ((s.objects o).hist.closedBy = some .badRequest →
        Malformed (s.objects o).conn.readBuffer) ∧
      ((s.objects o).conn.isOpen = true → (s.objects o).conn.processing = false →
        ¬ Malformed (s.objects o).conn.readBuffer ∧
        ∀ w m, Accepted w m → ¬ w <+: (s.objects o).conn.readBuffer) := by
  have hjudged := reachable_judged h.reachable o ho
  rcases reached_spelled h ho with ⟨ws, hwords, hreceived, hbytes⟩
  refine ⟨⟨ws, hwords, ?_⟩, hjudged.refused, ?_⟩
  · rw [← hreceived]
    exact List.prefix_iff_eq_take.1 hbytes
  · intro hopen hprocessing
    refine ⟨hjudged.waiting hopen hprocessing, ?_⟩
    intro w m hword
    exact Inbound.not_word_of_incomplete (open_idle h.reachable ho hopen hprocessing).incomplete
      hword

/-- A request that names no method follows one that is well formed, and part of it arrives with
that one. -/
def garbledTwo : List (Act Nat) :=
  acceptOne ++ receiveOne (lit "GET / HT") ++ [.afterBatch] ++
    receiveOne (lit "TP/1.1\r\n\r\nGRAB ") ++ [.afterBatch, .take, .work 0 smallEnv] ++
    deliverOne ++ [.afterBatch, .exit 0] ++ receiveOne (lit "/ HTTP/1.1\r\n\r\n")

/-- A request, and bytes that are none. -/
theorem words_taken_garbled : ∃ s,
    (serverSystem smallConfig).runIf
        (fun s a => s.streams 0 (lit "GET / HTTP/1.1\r\n\r\nGRAB / HTTP/1.1\r\n\r\n") a)
        (Server.start 0) garbledTwo = some s ∧
      (s.objects 0).hist.requests.length = 1 ∧
      (s.objects 0).hist.closedBy = some .badRequest ∧
      (∃ ws : List Bytes,
        List.Forall₂ (fun w r => Accepted w r.message) ws (s.objects 0).hist.requests ∧
        ws.flatten ++ (s.objects 0).conn.readBuffer =
          (lit "GET / HTTP/1.1\r\n\r\nGRAB / HTTP/1.1\r\n\r\n").take (s.objects 0).received) ∧
      Malformed (s.objects 0).conn.readBuffer := by
  have hrun : ((serverSystem smallConfig).runIf
      (fun s a => s.streams 0 (lit "GET / HTTP/1.1\r\n\r\nGRAB / HTTP/1.1\r\n\r\n") a)
        (Server.start 0) garbledTwo).map
      (fun s => decide (0 < s.nextObject ∧ (s.objects 0).hist.requests.length = 1 ∧
        (s.objects 0).hist.closedBy = some .badRequest)) = some true := by
    decide +kernel
  rcases Option.map_eq_some_iff.1 hrun with ⟨s, hs, hvalue⟩
  rcases of_decide_eq_true hvalue with ⟨ho, hone, hclosed⟩
  rcases words_taken (Runs.reached_of_runIf (.start ⟨0, rfl⟩) hs) ho with ⟨hwords, hbad, -⟩
  exact ⟨s, hs, hone, hclosed, hwords, hbad hclosed⟩

end Server

end Oreshnek
