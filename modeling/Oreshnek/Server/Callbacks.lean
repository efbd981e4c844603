import Oreshnek.Server.Session

/-!
# What a callback leaves behind

At every moment between two callbacks a connection is idle, or it has handed a
request to the pool, or it is writing a response. `Session.Left` says what a
callback leaves behind with each outcome; `react_left` is the step lemma for all
the callbacks on one connection.
-/

namespace Oreshnek

namespace Session

/-! ## Modes of one connection -/

/-- No handshake is in the way of HTTP. -/
def Secured (x : Session) : Prop := x.conn.usesTls = true → x.conn.tlsHandshakeDone = true

/-- No request is in flight, and nothing is to be written. -/
structure Ready (x : Session) : Prop where
  processing : x.conn.processing = false
  workerInFlight : x.conn.workerInFlight = false
  noData : x.conn.hasDataToWrite = false
  answered : x.hist.installed.length = x.hist.requests.length
  finished : x.hist.finished = x.hist.installed.length

/-- The next request is being waited for. -/
structure Idle (x : Session) : Prop extends Ready x where
  incomplete : ∀ n c', x.conn.toInbound.parseNext ≠ some (true, n, c')

/-- A response is being written. -/
structure Writing (x : Session) : Prop where
  processing : x.conn.processing = true
  workerInFlight : x.conn.workerInFlight = false
  data : x.conn.hasDataToWrite = true
  secured : x.Secured
  answered : x.hist.installed.length = x.hist.requests.length
  finished : x.hist.finished + 1 = x.hist.installed.length

/-- A request is with the pool, and its response not yet installed. -/
structure HandedOver (x : Session) : Prop where
  processing : x.conn.processing = true
  workerInFlight : x.conn.workerInFlight = true
  noData : x.conn.hasDataToWrite = false
  secured : x.Secured
  answered : x.hist.installed.length + 1 = x.hist.requests.length
  finished : x.hist.finished = x.hist.installed.length

/-- What a callback leaves behind, for each outcome. Only a connection with TLS
is armed for writing while it is idle. A connection is closed for a reason of its
own only when all its responses have been sent. -/
def Left (x : Session) : Outcome → Prop
  | .wait => False
  | .rearm .read => x.Idle
  | .rearm .write => x.Writing ∨ x.Idle ∧ x.conn.usesTls = true
  | .close reason => reason.external = true ∨ x.hist.finished = x.hist.requests.length
  | .reject _ => x.Writing
  | .handOver _ => x.HandedOver

/-- The socket of a connection and its kind. -/
def SameSocket (x y : Session) : Prop :=
  y.conn.socketFd = x.conn.socketFd ∧ y.conn.usesTls = x.conn.usesTls

theorem SameSocket.refl (x : Session) : SameSocket x x := ⟨rfl, rfl⟩

theorem SameSocket.trans {x y z : Session} (h : SameSocket x y) (h' : SameSocket y z) :
    SameSocket x z :=
  ⟨h'.1.trans h.1, h'.2.trans h.2⟩

theorem Idle.left {x : Session} (h : x.Idle) {dir : Direction}
    (hdir : dir = .write → x.conn.usesTls = true) : x.Left (.rearm dir) := by
  cases dir with
  | read => exact h
  | write => exact .inr ⟨h, hdir rfl⟩

theorem Writing.left {x : Session} (h : x.Writing) : x.Left (.rearm .write) := .inl h

theorem Ready.done {x : Session} (h : x.Ready) : x.hist.finished = x.hist.requests.length :=
  h.finished.trans h.answered

/-! ## `dispatch_next` -/

theorem install_outside (x : Session) (now : Nat) (ans : Answers) (serial madeFor : Nat)
    (inline : Bool) (res : HttpResponse) :
    (x.install now ans serial madeFor inline res).conn.clearResponseState =
      x.conn.clearResponseState :=
  Connection.setResponseContent_outside _ _ _ _

/-- A response is installed on the same socket. -/
theorem install_sameSocket (x : Session) (now : Nat) (ans : Answers) (serial madeFor : Nat)
    (inline : Bool) (res : HttpResponse) :
    SameSocket x (x.install now ans serial madeFor inline res) := by
  have h := x.install_outside now ans serial madeFor inline res
  have hfd := congrArg Connection.socketFd h
  have htls := congrArg Connection.usesTls h
  exact ⟨hfd, htls⟩

/-- The connection for whose last request `res` has been made on the spot. -/
def answering (x : Session) (consumed : Nat) (res : HttpResponse) : Session :=
  { x.takeRequest consumed with hist.produced := x.hist.produced ++
      [⟨x.hist.requests.length, x.conn.toInbound.ownedRequest consumed, res⟩] }

/-- An answer for the last request is to be written. -/
theorem install_writing {x : Session} (hprocessing : x.conn.processing = true)
    (hworker : x.conn.workerInFlight = false)
    (hanswered : x.hist.installed.length + 1 = x.hist.requests.length)
    (hfinished : x.hist.finished = x.hist.installed.length) (hsecured : x.Secured) (now : Nat)
    (ans : Answers) (serial madeFor : Nat) (inline : Bool) (res : HttpResponse) :
    (x.install now ans serial madeFor inline res).Writing := by
  have h := x.install_outside now ans serial madeFor inline res
  have hproc := congrArg Connection.processing h
  have hwork := congrArg Connection.workerInFlight h
  have htls := congrArg Connection.usesTls h
  have hdone := congrArg Connection.tlsHandshakeDone h
  constructor
  · exact hproc.trans hprocessing
  · exact hwork.trans hworker
  · exact Connection.setResponseContent_hasData _ _ _ _
  · exact fun hu => hdone.trans (hsecured (htls.symm.trans hu))
  · simpa [install] using hanswered
  · simpa [install] using hfinished

/-- What is behind the parser when it has found no complete request has none. -/
theorem parseNext_incomplete {c c' : Inbound} {n : Nat} (h : c.parseNext = some (false, n, c'))
    (hfailed : c'.parserFailed = false) (m : Nat) (c'' : Inbound) :
    c'.parseNext ≠ some (true, m, c'') := by
  intro h'
  have hbuf : c'.readBuffer = c.readBuffer := by
    unfold Inbound.parseNext at h
    split at h
    · cases h
      rfl
    split at h
    · cases h
    next r hr =>
      have hstate : r.parser.state ≠ .complete := by
        intro hc
        split at h
        next herr =>
          rw [hc] at herr
          cases herr
        · have hx := congrArg Prod.fst (Option.some.inj h)
          have : r.isComplete = true := by simp [ParseResult.isComplete, hc]
          rw [this] at hx
          cases hx
      have hsame := (parseRequest_consumed hr).2.1 hstate
      split at h
      · cases h
        exact hsame
      · have hx := Option.some.inj h
        have hc' : Inbound.ofResult r = c' := congrArg (fun p => p.2.2) hx
        rw [← hc']
        exact hsame
  -- the parser starts afresh on the same bytes
  obtain ⟨r, hr, hcomplete, -, -⟩ := Inbound.parseNext_true h'
  rw [hbuf] at hr
  unfold Inbound.parseNext at h
  split at h
  next hnil =>
    cases h
    unfold Inbound.parseNext at h'
    rw [if_pos hnil] at h'
    cases h'
  · have hreset : c.httpParser.reset = {} := rfl
    rw [hreset, hr] at h
    dsimp only at h
    split at h
    next herr =>
      have hc : r.parser.state = .complete := by simpa [ParseResult.isComplete] using hcomplete
      rw [hc] at herr
      cases herr
    · rw [hcomplete] at h
      cases h

/-- It changes one flag of the connection. -/
theorem maybeSend100Continue_eq (c : Connection) :
    ∃ b, c.maybeSend100Continue.2 = { c with continueSent := b } := by
  unfold Connection.maybeSend100Continue
  split
  · exact ⟨c.continueSent, rfl⟩
  split
  · exact ⟨true, rfl⟩
  · exact ⟨c.continueSent, rfl⟩

/-- A connection that waits for more of a request is the same, up to `continue_sent_`. -/
theorem await_conn (x : Session) (ans : Answers) :
    ∃ b, (x.await ans).conn = { x.conn with continueSent := b } :=
  maybeSend100Continue_eq x.conn

/-- `dispatch_next` leaves the connection as its outcome says. -/
theorem dispatchNext_left {x y : Session} {limited overloaded : Bool} {now o : Nat}
    {ans : Answers} {outcome : Outcome} (hx : x.Ready) (hsecured : x.Secured)
    (h : x.dispatchNext limited overloaded now ans o = some (y, outcome)) :
    y.Left outcome ∧ SameSocket x y := by
  have hanswered := hx.answered
  have hfinished := hx.finished
  unfold dispatchNext at h
  rw [if_neg (by simp [hx.processing])] at h
  split at h
  · cases h
  next consumed inb hparse =>
    -- the request is taken; its answer is installed now or later
    have hreject : ∀ res, (((x.parsed inb).reject now ans o consumed res).Writing) := by
      intro res
      apply install_writing
      · rfl
      · exact hx.workerInFlight
      · simpa [takeRequest, parsed] using hanswered
      · simpa [takeRequest, parsed] using hfinished
      · exact hsecured
    have hsocket : ∀ res, SameSocket x ((x.parsed inb).reject now ans o consumed res) :=
      fun res => install_sameSocket _ _ _ _ _ _ _
    dsimp only at h
    split at h
    · cases h
      exact ⟨hreject _, hsocket _⟩
    split at h
    · cases h
      exact ⟨hreject _, hsocket _⟩
    · cases h
      refine ⟨⟨rfl, rfl, hx.noData, hsecured, ?_, hfinished⟩, rfl, rfl⟩
      simpa [handOver, takeRequest, parsed] using hanswered
  next n inb hparse =>
    dsimp only at h
    split at h
    · cases h
      exact ⟨.inr hx.done, rfl, rfl⟩
    next hfailed =>
      cases h
      obtain ⟨b, hconn⟩ := await_conn (x.parsed inb) ans
      have hidle : ((x.parsed inb).await ans).Idle := by
        constructor
        case incomplete =>
          intro m c''
          rw [hconn]
          exact parseNext_incomplete hparse (Bool.eq_false_iff.2 hfailed) m c''
        constructor
        · rw [hconn]
          exact hx.processing
        · rw [hconn]
          exact hx.workerInFlight
        · rw [hconn]
          exact hx.noData
        · exact hanswered
        · exact hfinished
      refine ⟨hidle.left ?_, ?_⟩
      · unfold awaitDirection
        intro hdir
        split at hdir
        next htls => exact htls.1
        · cases hdir
      · unfold SameSocket
        rw [hconn]
        exact ⟨rfl, rfl⟩

/-! ## The handlers -/

/-- The handshake changes its own fields and the clock. -/
theorem handshake_outside (c : Connection) (now : Nat) (accept : SslAccept) :
    ∃ done want last, (c.continueTlsHandshake now accept).2 =
      { c with tlsHandshakeDone := done, tlsWant := want, lastActivity := last } := by
  unfold Connection.continueTlsHandshake
  split
  · exact ⟨true, c.tlsWant, c.lastActivity, rfl⟩
  cases accept with
  | done => exact ⟨true, c.tlsWant, now, rfl⟩
  | wantRead => exact ⟨c.tlsHandshakeDone, .read, c.lastActivity, rfl⟩
  | wantWrite => exact ⟨c.tlsHandshakeDone, .write, c.lastActivity, rfl⟩
  | failed => exact ⟨c.tlsHandshakeDone, c.tlsWant, c.lastActivity, rfl⟩

/-- A handshake leaves a connection idle. -/
theorem handshake_idle {x : Session} (hx : x.Idle) (now : Nat) (accept : SslAccept) :
    Idle { x with conn := (x.conn.continueTlsHandshake now accept).2 } ∧
      SameSocket x { x with conn := (x.conn.continueTlsHandshake now accept).2 } := by
  obtain ⟨done, want, last, h⟩ := handshake_outside x.conn now accept
  rw [h]
  refine ⟨⟨⟨hx.processing, hx.workerInFlight, hx.noData, hx.answered, hx.finished⟩,
    hx.incomplete⟩, rfl, rfl⟩

/-- What a read leaves alone. -/
theorem afterRead_outside (x : Session) (now : Nat) (ans : Answers) :
    (x.afterRead now ans).conn.outsideRead = x.conn.outsideRead :=
  Connection.readData_outside x.conn now ans.recv ans.sslRead

/-- A read keeps a connection ready, secured and on its socket. -/
theorem afterRead_ready {x : Session} (hx : x.Ready) (hsecured : x.Secured) (now : Nat)
    (ans : Answers) :
    (x.afterRead now ans).Ready ∧ (x.afterRead now ans).Secured ∧
      SameSocket x (x.afterRead now ans) := by
  have h := afterRead_outside x now ans
  have hproc := congrArg Connection.processing h
  have hwork := congrArg Connection.workerInFlight h
  have hdata := congrArg Connection.hasDataToWrite h
  have hfd := congrArg Connection.socketFd h
  have htls := congrArg Connection.usesTls h
  have hdone := congrArg Connection.tlsHandshakeDone h
  exact ⟨⟨hproc.trans hx.processing, hwork.trans hx.workerInFlight, hdata.trans hx.noData,
    hx.answered, hx.finished⟩, fun hu => hdone.trans (hsecured (htls.symm.trans hu)), hfd, htls⟩

/-- What a handler may end with: something left behind, or a connection that is
ready for `dispatch_next`. -/
def Flow.Sound (x : Session) : Flow → Prop
  | .done y outcome => y.Left outcome ∧ SameSocket x y
  | .dispatch y => y.Ready ∧ y.Secured ∧ SameSocket x y

theorem Flow.Sound.after {x x' : Session} {flow : Flow} (hsocket : SameSocket x x')
    (h : Flow.Sound x' flow) : Flow.Sound x flow := by
  cases flow with
  | done y outcome => exact ⟨h.1, hsocket.trans h.2⟩
  | dispatch y => exact ⟨h.1, h.2.1, hsocket.trans h.2.2⟩

/-- Reading and dispatching is sound. -/
theorem readAndDispatch_sound {x : Session} (hx : x.Ready) (hsecured : x.Secured) (now : Nat)
    (ans : Answers) : Flow.Sound x (x.readAndDispatch now ans) := by
  obtain ⟨hready, hsecured', hsocket⟩ := afterRead_ready hx hsecured now ans
  unfold readAndDispatch
  dsimp only
  split
  · exact ⟨.inr hready.done, hsocket⟩
  split
  · exact ⟨.inl rfl, hsocket⟩
  · exact ⟨hready, hsecured', hsocket⟩

/-- A handshake that is through is done. -/
theorem handshake_secured (x : Session) (now : Nat) (accept : SslAccept)
    (h : (x.conn.continueTlsHandshake now accept).1 = 1) :
    Secured { x with conn := (x.conn.continueTlsHandshake now accept).2 } := by
  revert h
  unfold Connection.continueTlsHandshake
  split
  · exact fun _ _ => rfl
  cases accept with
  | done => exact fun _ _ => rfl
  | wantRead => exact fun h => by cases h
  | wantWrite => exact fun h => by cases h
  | failed => exact fun h => by cases h

theorem secured_of_not {x : Session}
    (h : ¬ (x.conn.usesTls = true ∧ ¬ x.conn.tlsHandshakeDone = true)) : x.Secured := by
  intro hu
  by_contra hdone
  exact h ⟨hu, hdone⟩

/-- `handle_client_data` leaves an idle connection as its outcome says, or ready to be
dispatched. -/
theorem handleClientData_sound {x : Session} (hx : x.Idle) (now : Nat) (ans : Answers) :
    Flow.Sound x (x.handleClientData now ans) := by
  unfold handleClientData
  split
  · exact ⟨.inr hx.toReady.done, SameSocket.refl x⟩
  split
  next htls =>
    obtain ⟨hidle, hsocket⟩ := handshake_idle hx now ans.accept
    dsimp only
    split
    next hr =>
      exact Flow.Sound.after hsocket
        (readAndDispatch_sound hidle.toReady (handshake_secured x now ans.accept hr) now ans)
    split
    · exact ⟨hidle.left fun _ => hsocket.2.trans htls.1, hsocket⟩
    · exact ⟨.inl rfl, hsocket⟩
  next htls =>
    exact readAndDispatch_sound hx.toReady (secured_of_not htls) now ans

/-- What a write leaves alone. -/
theorem afterWrite_outside (x : Session) (now : Nat) (ans : Answers) :
    (x.afterWrite now ans).conn.outsideWrite = x.conn.outsideWrite :=
  Connection.writeData_outside x.conn now ans.write

/-- With nothing to write, a write leaves nothing to write and puts out no body. -/
theorem afterWrite_idle {x : Session} (hdata : x.conn.hasDataToWrite = false) (now : Nat)
    (ans : Answers) : (x.conn.writeData now ans.write).body = [] ∧
      (x.afterWrite now ans).conn.hasDataToWrite = false := by
  obtain ⟨c', hc', hidle⟩ := Connection.writeData_idle hdata now ans.write
  have hconn : (x.afterWrite now ans).conn = c' := congrArg Connection.Written.conn hc'
  constructor
  · exact congrArg Connection.Written.body hc'
  · rw [hconn]
    exact hidle

/-- What is left to write after a write was there before it. -/
theorem afterWrite_pending {x : Session} {now : Nat} {ans : Answers}
    (hdata : (x.afterWrite now ans).conn.hasDataToWrite = true) :
    x.conn.hasDataToWrite = true := by
  by_contra hnone
  have hidle := (afterWrite_idle (Bool.eq_false_iff.2 hnone) now ans).2
  exact absurd hdata (Bool.eq_false_iff.1 hidle)

theorem afterWrite_sameSocket (x : Session) (now : Nat) (ans : Answers) :
    SameSocket x (x.afterWrite now ans) := by
  have h := afterWrite_outside x now ans
  have hfd := congrArg Connection.socketFd h
  have htls := congrArg Connection.usesTls h
  exact ⟨hfd, htls⟩

/-- Behind the last byte of a response. -/
theorem reuse_ready {x : Session} (hworker : x.conn.workerInFlight = false)
    (hanswered : x.hist.installed.length = x.hist.requests.length) (now : Nat) :
    (x.complete.reuse now).Ready :=
  ⟨rfl, hworker, rfl, hanswered, rfl⟩

/-- So does `handle_write_ready` with one that is armed for writing. -/
theorem handleWriteReady_sound {x : Session} (hx : x.Left (.rearm .write))
    (hopen : x.conn.isOpen = true) (draining : Bool) (now : Nat) (ans : Answers) :
    Flow.Sound x (x.handleWriteReady draining now ans) := by
  have hanswered : x.hist.installed.length = x.hist.requests.length :=
    hx.elim Writing.answered fun h => h.1.answered
  have hworker : x.conn.workerInFlight = false :=
    hx.elim Writing.workerInFlight fun h => h.1.workerInFlight
  unfold handleWriteReady
  rw [if_neg (not_not.2 hopen)]
  split
  next htls =>
    -- during the handshake nothing is to be written
    have hidle : x.Idle := by
      rcases hx with hx | ⟨hx, -⟩
      · exact absurd (hx.secured htls.1) htls.2
      · exact hx
    obtain ⟨hidle', hsocket⟩ := handshake_idle hidle now ans.accept
    dsimp only
    split
    · exact ⟨hidle', hsocket⟩
    split
    · exact ⟨hidle'.left fun _ => hsocket.2.trans htls.1, hsocket⟩
    · exact ⟨.inl rfl, hsocket⟩
  next htls =>
    have hsocket := afterWrite_sameSocket x now ans
    have hout := afterWrite_outside x now ans
    have hwork := congrArg Connection.workerInFlight hout
    have hdone := congrArg Connection.tlsHandshakeDone hout
    have hsecured : (x.afterWrite now ans).Secured := by
      intro hu
      refine hdone.trans ?_
      by_contra hnot
      exact htls ⟨hsocket.2.symm.trans hu, hnot⟩
    dsimp only
    split
    · exact ⟨.inl rfl, hsocket⟩
    split
    next hdata =>
      refine ⟨?_, hsocket⟩
      rcases hx with hx | ⟨hx, -⟩
      · left
        have hproc := congrArg Connection.processing hout
        exact ⟨hproc.trans hx.processing, hwork.trans hx.workerInFlight, hdata, hsecured,
          hx.answered, hx.finished⟩
      · -- an idle connection has nothing to write afterwards either
        exact absurd (hx.noData.symm.trans (afterWrite_pending hdata)) nofun
    split
    · exact ⟨.inr hanswered, hsocket⟩
    · exact ⟨reuse_ready (hwork.trans hworker) hanswered now, hsecured, hsocket⟩

theorem handle_sound {x : Session} {dir : Direction} (hx : x.Left (.rearm dir))
    (hopen : x.conn.isOpen = true) (draining : Bool) (now : Nat) (ans : Answers) :
    Flow.Sound x (x.handle draining now ans dir) := by
  cases dir with
  | read => exact handleClientData_sound hx now ans
  | write => exact handleWriteReady_sound hx hopen draining now ans

/-- **Step lemma for one connection.** A callback on a connection that is armed
leaves it as its outcome says. -/
theorem react_left {x y : Session} {draining limited overloaded : Bool} {now o : Nat}
    {ans : Answers} {dir : Direction} {outcome : Outcome} (hx : x.Left (.rearm dir))
    (hopen : x.conn.isOpen = true)
    (h : x.react draining limited overloaded now ans o dir = some (y, outcome)) :
    y.Left outcome ∧ SameSocket x y := by
  have hflow := handle_sound hx hopen draining now ans
  unfold react at h
  split at h
  next z outcome' hz =>
    rw [hz] at hflow
    cases h
    exact hflow
  next z hz =>
    rw [hz] at hflow
    obtain ⟨hready, hsecured, hsocket⟩ := hflow
    obtain ⟨hleft, hsocket'⟩ := dispatchNext_left hready hsecured h
    exact ⟨hleft, hsocket.trans hsocket'⟩

/-! ## What a callback consists of -/

/-- A connection behind a step of its handshake. -/
def shake (x : Session) (now : Nat) (ans : Answers) : Session :=
  { x with conn := (x.conn.continueTlsHandshake now ans.accept).2 }

/-- How `read_data` finds a connection: as it was, or behind the last step of its
handshake. -/
inductive Entered (x : Session) (now : Nat) (ans : Answers) : Session → Prop where
  | plain (hsecured : x.Secured) : Entered x now ans x
  | shaken (htls : x.conn.usesTls = true) (hdone : x.conn.tlsHandshakeDone = false)
      (hr : (x.conn.continueTlsHandshake now ans.accept).1 = 1) :
      Entered x now ans (x.shake now ans)

theorem shake_hasData (x : Session) (now : Nat) (ans : Answers) :
    (x.shake now ans).conn.hasDataToWrite = x.conn.hasDataToWrite := by
  obtain ⟨done, want, last, hconn⟩ := handshake_outside x.conn now ans.accept
  have hdata := congrArg Connection.hasDataToWrite hconn
  exact hdata

theorem Entered.hasData {x z : Session} {now : Nat} {ans : Answers} (h : Entered x now ans z) :
    z.conn.hasDataToWrite = x.conn.hasDataToWrite := by
  cases h with
  | plain => rfl
  | shaken => exact x.shake_hasData now ans

/-- The ways in which a handler can end. -/
inductive Handles (x : Session) (draining : Bool) (now : Nat) (ans : Answers) :
    Direction → Flow → Prop where
  /-- Within the handshake, or behind its last step on a writable socket. -/
  | shaken (dir : Direction) (outcome : Outcome) (htls : x.conn.usesTls = true)
      (hdone : x.conn.tlsHandshakeDone = false)
      (houtcome : outcome = .close .ioError ∨ outcome = .rearm .read ∨
        ((x.shake now ans).conn.tlsHandshakeDone = false ∧ ∃ d, outcome = .rearm d)) :
      Handles x draining now ans dir (.done (x.shake now ans) outcome)
  | readEnd {z : Session} (reason : CloseReason) (hz : Entered x now ans z)
      (hreason : reason = .peerClosed ∨ reason = .bufferFull ∨ reason = .ioError) :
      Handles x draining now ans .read (.done (z.afterRead now ans) (.close reason))
  | read {z : Session} (hz : Entered x now ans z) :
      Handles x draining now ans .read (.dispatch (z.afterRead now ans))
  | wrote (outcome : Outcome) (houtcome : outcome = .close .ioError ∨
        (outcome = .rearm .write ∧ (x.afterWrite now ans).conn.hasDataToWrite = true)) :
      Handles x draining now ans .write (.done (x.afterWrite now ans) outcome)
  | finished (hret : 0 ≤ (x.conn.writeData now ans.write).ret)
      (hdata : (x.afterWrite now ans).conn.hasDataToWrite = false) :
      Handles x draining now ans .write (.done (x.afterWrite now ans).complete (.close .finished))
  | reused (hsecured : x.Secured) (hret : 0 ≤ (x.conn.writeData now ans.write).ret)
      (hdata : (x.afterWrite now ans).conn.hasDataToWrite = false) :
      Handles x draining now ans .write (.dispatch ((x.afterWrite now ans).complete.reuse now))

/-- A connection that was entered reads, and dispatches or is closed. -/
theorem readAndDispatch_cases {x z : Session} {now : Nat} {ans : Answers} (draining : Bool)
    (hz : Entered x now ans z) :
    Handles x draining now ans .read (z.readAndDispatch now ans) := by
  unfold readAndDispatch
  dsimp only
  split
  · refine .readEnd _ hz ?_
    split
    · exact .inl rfl
    · exact .inr (.inl rfl)
  split
  · exact .readEnd _ hz (.inr (.inr rfl))
  · exact .read hz

/-- A handshake that waits is not done. -/
theorem handshake_waits {c : Connection} (hdone : c.tlsHandshakeDone = false) (now : Nat)
    (accept : SslAccept) (hr : (c.continueTlsHandshake now accept).1 ≠ 1) :
    (c.continueTlsHandshake now accept).2.tlsHandshakeDone = false := by
  unfold Connection.continueTlsHandshake at hr ⊢
  split
  next htls => exact absurd (by rw [if_pos htls]) hr
  next htls =>
    rw [if_neg htls] at hr
    cases accept with
    | done => exact absurd rfl hr
    | wantRead => exact hdone
    | wantWrite => exact hdone
    | failed => exact hdone

/-- What a handler can do to an open connection. -/
theorem handle_cases {x : Session} (hopen : x.conn.isOpen = true) (draining : Bool) (now : Nat)
    (ans : Answers) (dir : Direction) :
    Handles x draining now ans dir (x.handle draining now ans dir) := by
  cases dir with
  | read =>
      change Handles x draining now ans .read (x.handleClientData now ans)
      unfold handleClientData
      rw [if_neg (not_not.2 hopen)]
      split
      next htls =>
        -- the handshake is still to be done
        have hdone : x.conn.tlsHandshakeDone = false := Bool.eq_false_iff.2 htls.2
        dsimp only
        split
        next hr => exact readAndDispatch_cases draining (.shaken htls.1 hdone hr)
        next hr =>
          split
          · exact .shaken .read _ htls.1 hdone
              (.inr (.inr ⟨handshake_waits hdone now ans.accept hr, _, rfl⟩))
          · exact .shaken .read _ htls.1 hdone (.inl rfl)
      next htls => exact readAndDispatch_cases draining (.plain (secured_of_not htls))
  | write =>
      change Handles x draining now ans .write (x.handleWriteReady draining now ans)
      unfold handleWriteReady
      rw [if_neg (not_not.2 hopen)]
      split
      next htls =>
        -- here too the handshake comes first
        have hdone : x.conn.tlsHandshakeDone = false := Bool.eq_false_iff.2 htls.2
        dsimp only
        split
        · exact .shaken .write _ htls.1 hdone (.inr (.inl rfl))
        next hr =>
          split
          · exact .shaken .write _ htls.1 hdone
              (.inr (.inr ⟨handshake_waits hdone now ans.accept hr, _, rfl⟩))
          · exact .shaken .write _ htls.1 hdone (.inl rfl)
      next htls =>
        dsimp only
        split
        · exact .wrote _ (.inl rfl)
        next hret =>
          split
          next hdata => exact .wrote _ (.inr ⟨rfl, hdata⟩)
          next hdata =>
            have hdata := Bool.eq_false_iff.2 hdata
            split
            · exact .finished (Int.not_lt.1 hret) hdata
            · exact .reused (secured_of_not htls) (Int.not_lt.1 hret) hdata

/-- The ways in which `dispatch_next` can end. -/
inductive Dispatches (z : Session) (limited overloaded : Bool) (now : Nat) (ans : Answers)
    (o : Nat) : Session → Outcome → Prop where
  | limited (consumed : Nat) (inb : Inbound)
      (hparse : z.conn.toInbound.parseNext = some (true, consumed, inb))
      (hlimited : limited = true ∧ ans.allow = false) :
      Dispatches z limited overloaded now ans o
        ((z.parsed inb).reject now ans o consumed tooManyRequests) (.reject .tooManyRequests)
  | shed (consumed : Nat) (inb : Inbound)
      (hparse : z.conn.toInbound.parseNext = some (true, consumed, inb))
      (hoverloaded : overloaded = true) :
      Dispatches z limited overloaded now ans o
        ((z.parsed inb).reject now ans o consumed serviceUnavailable) (.reject .serviceUnavailable)
  | handedOver (consumed : Nat) (inb : Inbound)
      (hparse : z.conn.toInbound.parseNext = some (true, consumed, inb))
      (hadmitted : overloaded = false) :
      Dispatches z limited overloaded now ans o ((z.parsed inb).handOver now consumed)
        (.handOver (inb.ownedRequest consumed))
  | bad (n : Nat) (inb : Inbound)
      (hparse : z.conn.toInbound.parseNext = some (false, n, inb))
      (hfailed : inb.parserFailed = true) :
      Dispatches z limited overloaded now ans o (z.parsed inb) (.close .badRequest)
  | waits (n : Nat) (inb : Inbound)
      (hparse : z.conn.toInbound.parseNext = some (false, n, inb))
      (hgood : inb.parserFailed = false) :
      Dispatches z limited overloaded now ans o ((z.parsed inb).await ans)
        (.rearm (awaitDirection ((z.parsed inb).await ans).conn))

/-- What `dispatch_next` can do to a connection with no request in flight. -/
theorem dispatch_cases {y z : Session} {limited overloaded : Bool} {now o : Nat} {ans : Answers}
    {outcome : Outcome} (hz : z.conn.processing = false)
    (h : z.dispatchNext limited overloaded now ans o = some (y, outcome)) :
    Dispatches z limited overloaded now ans o y outcome := by
  unfold dispatchNext at h
  rw [if_neg (by simp [hz])] at h
  split at h
  · cases h
  next consumed inb hparse =>
    dsimp only at h
    split at h
    next hlimited =>
      cases h
      exact .limited consumed inb hparse ⟨hlimited.1, Bool.eq_false_iff.2 hlimited.2⟩
    split at h
    next hoverloaded =>
      cases h
      exact .shed consumed inb hparse hoverloaded
    next hadmitted =>
      cases h
      exact .handedOver consumed inb hparse (Bool.eq_false_iff.2 hadmitted)
  next n inb hparse =>
    dsimp only at h
    split at h
    next hfailed =>
      cases h
      exact .bad n inb hparse hfailed
    next hgood =>
      cases h
      exact .waits n inb hparse (Bool.eq_false_iff.2 hgood)

/-- **The ways in which a callback can go.** It ends in its handler, or in
`dispatch_next` with a connection that is ready for it. -/
theorem react_cases {x y : Session} {draining limited overloaded : Bool} {now o : Nat}
    {ans : Answers} {dir : Direction} {outcome : Outcome} (hx : x.Left (.rearm dir))
    (hopen : x.conn.isOpen = true)
    (h : x.react draining limited overloaded now ans o dir = some (y, outcome)) :
    Handles x draining now ans dir (.done y outcome) ∨
      ∃ z, x.handle draining now ans dir = .dispatch z ∧
        Handles x draining now ans dir (.dispatch z) ∧ z.Ready ∧
        Dispatches z limited overloaded now ans o y outcome := by
  have hhandle := handle_cases hopen draining now ans dir
  have hflow := handle_sound hx hopen draining now ans
  unfold react at h
  split at h
  next z outcome' hz =>
    rw [hz] at hhandle
    cases h
    exact .inl hhandle
  next z hz =>
    rw [hz] at hhandle hflow
    exact .inr ⟨z, hz, hhandle, hflow.1, dispatch_cases hflow.1.processing h⟩

/-- No callback closes its connection for a timeout. -/
theorem react_reason {x y : Session} {draining limited overloaded : Bool} {now o : Nat}
    {ans : Answers} {dir : Direction} {reason : CloseReason} (hx : x.Left (.rearm dir))
    (hopen : x.conn.isOpen = true)
    (h : x.react draining limited overloaded now ans o dir = some (y, .close reason)) :
    reason = .peerClosed ∨ reason = .bufferFull ∨ reason = .ioError ∨ reason = .badRequest ∨
      reason = .finished := by
  rcases react_cases hx hopen h with hhandle | ⟨z, -, -, -, hdispatch⟩
  · cases hhandle with
    | shaken dir outcome htls hdone houtcome =>
        rcases houtcome with h | h | ⟨-, d, h⟩
        · cases h
          exact .inr (.inr (.inl rfl))
        · cases h
        · cases h
    | readEnd reason hz hreason =>
        rcases hreason with h | h | h
        · exact .inl h
        · exact .inr (.inl h)
        · exact .inr (.inr (.inl h))
    | wrote outcome houtcome =>
        rcases houtcome with h | ⟨h, -⟩
        · cases h
          exact .inr (.inr (.inl rfl))
        · cases h
    | finished => exact .inr (.inr (.inr (.inr rfl)))
  · cases hdispatch with
    | bad n inb => exact .inr (.inr (.inr (.inl rfl)))

/-- Only a server that is not overloaded hands a request over. -/
theorem react_admits {x y : Session} {draining limited overloaded : Bool} {now o : Nat}
    {ans : Answers} {dir : Direction} {request : HttpRequest} (hx : x.Left (.rearm dir))
    (hopen : x.conn.isOpen = true)
    (h : x.react draining limited overloaded now ans o dir = some (y, .handOver request)) :
    overloaded = false := by
  rcases react_cases hx hopen h with hhandle | ⟨z, -, -, -, hdispatch⟩
  · cases hhandle with
    | shaken dir outcome htls hdone houtcome =>
        rcases houtcome with h | h | ⟨-, d, h⟩
        · cases h
        · cases h
        · cases h
    | wrote outcome houtcome =>
        rcases houtcome with h | ⟨h, -⟩
        · cases h
        · cases h
  · cases hdispatch with
    | handedOver consumed inb hparse hadmitted => exact hadmitted

end Session

end Oreshnek
