import Oreshnek.Net.Inbound
import Oreshnek.Http.Response

/-!
# Connections

`Connection`: the read side of `Inbound`, the response being written, the TLS
state, and the flags the event loop keeps in it. System and OpenSSL calls are
answered by the environment: each function takes the answers of the calls it
makes, in order; a call that the list does not answer fails. A call that moves
bytes moves at least one and at most what it is offered. Times are in
nanoseconds.

File descriptors other than the socket appear only as open or closed.
-/

namespace Oreshnek

/-! ## Answers of the system -/

inductive RecvResult where
  | data (first : UInt8) (rest : Bytes)
  /-- 0: the peer has closed. -/
  | closed
  /-- `EAGAIN`. -/
  | wouldBlock
  | failed
deriving DecidableEq

inductive SendResult where
  /-- At most this many bytes and one more are taken. -/
  | sent (more : Nat)
  | wouldBlock
  | failed
deriving DecidableEq

inductive SendfileResult where
  | sent (first : UInt8) (rest : Bytes)
  | wouldBlock
  /-- 0: the file ends before the range does. -/
  | eof
  | failed
deriving DecidableEq

inductive SslAccept where
  | done
  | wantRead
  | wantWrite
  | failed
deriving DecidableEq

inductive SslRead where
  | data (first : UInt8) (rest : Bytes)
  | wantRead
  | wantWrite
  /-- `SSL_ERROR_ZERO_RETURN`. -/
  | closeNotify
  | failed
deriving DecidableEq

inductive SslWrite where
  /-- At most this many bytes and one more are taken. -/
  | sent (more : Nat)
  | wantRead
  | wantWrite
  | failed
deriving DecidableEq

/-- The answers for one `write_data`. -/
structure WriteAnswers where
  sendHead : SendResult := .failed
  sendBody : SendResult := .failed
  sendfile : List SendfileResult := []
  sslHead : List SslWrite := []
  sslBody : SslWrite := .failed
  /-- `pread`, with the bytes it returns, and the `SSL_write` that follows. -/
  sslFile : List (Option (UInt8 × Bytes) × SslWrite) := []
deriving DecidableEq

/-! ## The object -/

inductive TlsWant where
  | read
  | write
deriving DecidableEq

structure Connection extends Inbound where
  /-- `none` when `socket_fd_` is negative. -/
  socketFd : Option Nat := none
  rawHeadersToSend : Bytes := []
  headersSent : Bool := false
  writeBody : Bytes := []
  writeBodyOffset : Nat := 0
  /-- `file_fd_ >= 0`. -/
  fileOpen : Bool := false
  fileOffset : Int := 0
  fileRemaining : Int := 0
  headOnly : Bool := false
  continueSent : Bool := false
  usesTls : Bool := false
  tlsHandshakeDone : Bool := false
  tlsWant : TlsWant := .read
  lastActivity : Nat := 0
  keepAlive : Bool := true
  clientIp : Bytes := []
  processing : Bool := false
  workerInFlight : Bool := false
  processingSince : Nat := 0
deriving DecidableEq

namespace Connection

def readBufferSize : Nat := 1024 * 1024

def fileSendChunk : Nat := 256 * 1024

/-- `kReadWouldBlock`. -/
def readWouldBlock : Int := -2

/-- `Connection(fd)`, made at time `now`. -/
def new (fd now : Nat) : Connection := { socketFd := some fd, lastActivity := now }

def isOpen (c : Connection) : Bool := c.socketFd.isSome

/-- `has_data_to_write`. -/
def hasDataToWrite (c : Connection) : Bool :=
  if c.rawHeadersToSend ≠ [] then true
  else if c.headOnly then false
  else if c.fileOpen ∧ 0 < c.fileRemaining then true
  else decide (c.writeBodyOffset < c.writeBody.length)

/-- `update_activity`. -/
def updateActivity (c : Connection) (now : Nat) : Connection := { c with lastActivity := now }

/-- `clear_response_state`. -/
def clearResponseState (c : Connection) : Connection :=
  { c with
    headersSent := false
    rawHeadersToSend := []
    writeBody := []
    writeBodyOffset := 0
    headOnly := false
    fileOpen := false
    fileOffset := 0
    fileRemaining := 0 }

/-- `close_connection`. -/
def closeConnection (c : Connection) : Connection :=
  { c with fileOpen := false, usesTls := false, socketFd := none }

/-! ## Reading -/

/-- `continue_tls_handshake`. -/
def continueTlsHandshake (c : Connection) (now : Nat) (answer : SslAccept) : Int × Connection :=
  if ¬ c.usesTls then (1, { c with tlsHandshakeDone := true })
  else
    match answer with
    | .done => (1, { c with tlsHandshakeDone := true }.updateActivity now)
    | .wantRead => (0, { c with tlsWant := .read })
    | .wantWrite => (0, { c with tlsWant := .write })
    | .failed => (-1, c)

/-- How the loop over `SSL_read` is left. -/
inductive SslReadEnd where
  /-- By a `break`. -/
  | left
  | closeNotify
  | failed
deriving DecidableEq

/-- The loop over `SSL_read`, with `total` bytes read so far and the answer of
the last call. -/
def sslReadLoop : List SslRead → Connection → Nat → Option SslRead →
    Connection × Nat × SslReadEnd × Option SslRead
  | answers, c, total, last =>
      let space := readBufferSize - c.readBuffer.length
      if space = 0 then (c, total, .left, last)
      else
        match answers with
        | .data first rest :: answers =>
            let bytes := (first :: rest).take space
            sslReadLoop answers { c with readBuffer := c.readBuffer ++ bytes }
              (total + bytes.length) (some (.data first rest))
        | .wantRead :: _ => ({ c with tlsWant := .read }, total, .left, some .wantRead)
        | .wantWrite :: _ => ({ c with tlsWant := .write }, total, .left, some .wantWrite)
        | .closeNotify :: _ => (c, total, .closeNotify, some .closeNotify)
        -- with bytes in hand the error is left to the next read
        | .failed :: _ => (c, total, if 0 < total then .left else .failed, some .failed)
        | [] => (c, total, if 0 < total then .left else .failed, some .failed)

/-- `read_data`: the result, the connection, and the answer of the last
`SSL_read`, when there was one. -/
def readData (c : Connection) (now : Nat) (recv : RecvResult) (ssl : List SslRead) :
    Int × Connection × Option SslRead :=
  if ¬ c.isOpen then (0, c, none)
  else
    let availableSpace := readBufferSize - c.readBuffer.length
    if availableSpace = 0 then (0, c, none)
    else if c.usesTls then
      let (c, total, ending, last) := sslReadLoop ssl c 0 none
      match ending with
      | .closeNotify => (total, c, last)
      | .failed => (-1, c, last)
      | .left =>
          if 0 < total then (total, c.updateActivity now, last) else (readWouldBlock, c, last)
    else
      match recv with
      | .data first rest =>
          let bytes := (first :: rest).take availableSpace
          (bytes.length,
            { c with readBuffer := c.readBuffer ++ bytes }.updateActivity now, none)
      | .closed => (0, c, none)
      | .wouldBlock => (readWouldBlock, c, none)
      | .failed => (-1, c, none)

/-! ## Writing -/

/-- What a call of `write_data` comes to: its result, the connection, and the
bytes that the socket took of the headers and of the body. -/
structure Written where
  ret : Int
  conn : Connection
  head : Bytes := []
  body : Bytes := []

/-- A stage of `write_data` goes on, or the call returns. -/
inductive Stage where
  | goOn (w : Written)
  | return_ (w : Written)

/-- The headers, by `send`. -/
def sendHeaders (c : Connection) (answer : SendResult) : Stage :=
  if c.headersSent then .goOn ⟨0, c, [], []⟩
  else if c.rawHeadersToSend = [] then .goOn ⟨0, { c with headersSent := true }, [], []⟩
  else
    match answer with
    | .wouldBlock => .return_ ⟨0, c, [], []⟩
    | .failed => .return_ ⟨-1, c, [], []⟩
    | .sent more =>
        let head := c.rawHeadersToSend.take (more + 1)
        let c := { c with rawHeadersToSend := c.rawHeadersToSend.drop (more + 1) }
        if c.rawHeadersToSend ≠ [] then .return_ ⟨head.length, c, head, []⟩
        else .goOn ⟨head.length, { c with headersSent := true }, head, []⟩

/-- The headers, by `SSL_write`, `head` taken so far. -/
def sslHeaders : List SslWrite → Connection → Bytes → Stage
  | answers, c, head =>
      if c.headersSent then .goOn ⟨head.length, c, head, []⟩
      else if c.rawHeadersToSend = [] then
        .goOn ⟨head.length, { c with headersSent := true }, head, []⟩
      else
        match answers with
        | .sent more :: answers =>
            sslHeaders answers { c with rawHeadersToSend := c.rawHeadersToSend.drop (more + 1) }
              (head ++ c.rawHeadersToSend.take (more + 1))
        | .wantWrite :: _ => .return_ ⟨head.length, { c with tlsWant := .write }, head, []⟩
        | .wantRead :: _ => .return_ ⟨head.length, { c with tlsWant := .read }, head, []⟩
        | .failed :: _ => .return_ ⟨-1, c, head, []⟩
        | [] => .return_ ⟨-1, c, head, []⟩

/-- `count` more bytes of the file have been taken. -/
def advanceFile (c : Connection) (count : Nat) : Connection :=
  { c with fileOffset := c.fileOffset + count, fileRemaining := c.fileRemaining - count }

/-- The file body, by `sendfile`. -/
def sendfileLoop : List SendfileResult → Connection → Bytes → Stage
  | answers, c, body =>
      if c.fileRemaining ≤ 0 then .goOn ⟨0, c, [], body⟩
      else
        let count := min c.fileRemaining.toNat fileSendChunk
        match answers with
        | .sent first rest :: answers =>
            let bytes := (first :: rest).take count
            sendfileLoop answers (c.advanceFile bytes.length) (body ++ bytes)
        | .wouldBlock :: _ => .return_ ⟨0, c, [], body⟩
        | .eof :: _ => .goOn ⟨0, c, [], body⟩
        | .failed :: _ => .return_ ⟨-1, c, [], body⟩
        | [] => .return_ ⟨-1, c, [], body⟩

/-- The file body, by `pread` and `SSL_write`. What `SSL_write` takes is a part of
what `pread` has read. -/
def sslFileLoop : List (Option (UInt8 × Bytes) × SslWrite) → Connection → Bytes → Stage
  | answers, c, body =>
      if c.fileRemaining ≤ 0 then .goOn ⟨0, c, [], body⟩
      else
        let want := min c.fileRemaining.toNat 16384
        match answers with
        | (some (first, rest), .sent more) :: answers =>
            let bytes := ((first :: rest).take want).take (more + 1)
            sslFileLoop answers (c.advanceFile bytes.length) (body ++ bytes)
        | (some _, .wantWrite) :: _ => .return_ ⟨0, { c with tlsWant := .write }, [], body⟩
        | (some _, .wantRead) :: _ => .return_ ⟨0, { c with tlsWant := .read }, [], body⟩
        | (some _, .failed) :: _ => .return_ ⟨-1, c, [], body⟩
        -- the file ends, or cannot be read
        | (none, _) :: _ => .goOn ⟨0, c, [], body⟩
        | [] => .return_ ⟨-1, c, [], body⟩

/-- Behind the loop over the file: a file that is sent is closed. -/
def finishFile (c : Connection) (now : Nat) : Connection :=
  { c with fileOpen := c.fileOpen && decide (0 < c.fileRemaining) }.updateActivity now

/-- The string body, by `send`. -/
def sendBody (c : Connection) (answer : SendResult) : Stage :=
  if c.writeBodyOffset < c.writeBody.length then
    match answer with
    | .wouldBlock => .return_ ⟨0, c, [], []⟩
    | .failed => .return_ ⟨-1, c, [], []⟩
    | .sent more =>
        let body := (c.writeBody.drop c.writeBodyOffset).take (more + 1)
        .goOn ⟨0, { c with writeBodyOffset := c.writeBodyOffset + body.length }, [], body⟩
  else .goOn ⟨0, c, [], []⟩

/-- The string body, by `SSL_write`. -/
def sslBody (c : Connection) (answer : SslWrite) : Stage :=
  if c.writeBodyOffset < c.writeBody.length then
    match answer with
    | .wantWrite => .return_ ⟨0, { c with tlsWant := .write }, [], []⟩
    | .wantRead => .return_ ⟨0, { c with tlsWant := .read }, [], []⟩
    | .failed => .return_ ⟨-1, c, [], []⟩
    | .sent more =>
        let body := (c.writeBody.drop c.writeBodyOffset).take (more + 1)
        .goOn ⟨0, { c with writeBodyOffset := c.writeBodyOffset + body.length }, [], body⟩
  else .goOn ⟨0, c, [], []⟩

/-- A stage after one that took `head`: the bytes add up, an error stays one. -/
def Written.after (w : Written) (head : Bytes) : Written :=
  { w with
    ret := if w.ret < 0 then w.ret else head.length + w.body.length
    head := head }

/-- What is done behind a stage that goes on. -/
def Stage.andThen (behind : Connection → Connection) : Stage → Written
  | .goOn w => { w with conn := behind w.conn }
  | .return_ w => w

/-- The stage of the file body. -/
def fileStage (c : Connection) (answers : WriteAnswers) : Stage :=
  if c.usesTls then sslFileLoop answers.sslFile c [] else sendfileLoop answers.sendfile c []

/-- The stage of the string body. -/
def textStage (c : Connection) (answers : WriteAnswers) : Stage :=
  if c.usesTls then c.sslBody answers.sslBody else c.sendBody answers.sendBody

/-- The stage of the headers. -/
def headerStage (c : Connection) (answers : WriteAnswers) : Stage :=
  if c.usesTls then sslHeaders answers.sslHead c [] else c.sendHeaders answers.sendHead

/-- What follows the headers. -/
def bodyStage (c : Connection) (now : Nat) (answers : WriteAnswers) : Written :=
  if c.headOnly then ⟨0, c.updateActivity now, [], []⟩
  else if c.fileOpen then (c.fileStage answers).andThen fun c => c.finishFile now
  else (c.textStage answers).andThen fun c => c.updateActivity now

/-- `write_data`. -/
def writeData (c : Connection) (now : Nat) (answers : WriteAnswers) : Written :=
  if ¬ c.isOpen then ⟨0, c, [], []⟩
  else
    match c.headerStage answers with
    | .return_ w => w
    | .goOn w => (bodyStage w.conn now answers).after w.head

/-! ## Responses -/

/-- `set_response_content`. `date` is what the header block is dated with;
`opened` answers `open`, `none` for a failure, with what `fstat` says of the size,
`none` for an error. -/
def setResponseContent (c : Connection) (res : HttpResponse) (date : Bytes)
    (opened : Option (Option Int)) : Connection :=
  let c := { c.clearResponseState with
    rawHeadersToSend := res.buildHeadersString date
    headOnly := res.headOnly }
  if res.isFile then
    match opened with
    | none => c
    | some size =>
        let length :=
          if res.fileLength < 0 then
            match size with
            | some size => max (size - res.fileOffset) 0
            | none => 0
          else res.fileLength
        { c with fileOpen := true, fileOffset := res.fileOffset, fileRemaining := length }
  else
    match res.bodyContent with
    | .text content => { c with writeBody := content }
    | .filePath _ => c

/-- The request is at its body and asks for an interim response. -/
def expectsContinue (c : Connection) : Bool :=
  c.httpParser.state = .body &&
    match c.currentRequest.header (lit "Expect") with
    | none => false
    | some value => decide (lit "100-continue" <:+: value.bytes.map tolower)

/-- `maybe_send_100_continue`: whether the interim response is sent (its result
is not looked at). -/
def maybeSend100Continue (c : Connection) : Bool × Connection :=
  if c.continueSent ∨ ¬ c.isOpen then (false, c)
  else if c.expectsContinue then (true, { c with continueSent := true })
  else (false, c)

/-! ## What a call leaves alone -/

/-- A connection without what `read_data` changes. -/
def outsideRead (c : Connection) : Connection :=
  { c with readBuffer := [], tlsWant := .read, lastActivity := 0 }

/-- A connection without what the stages of `write_data` change. -/
def outsideStage (c : Connection) : Connection :=
  { c with
    rawHeadersToSend := []
    headersSent := false
    writeBodyOffset := 0
    fileOpen := false
    fileOffset := 0
    fileRemaining := 0
    tlsWant := .read }

/-- A connection without what `write_data` changes. -/
def outsideWrite (c : Connection) : Connection := { c.outsideStage with lastActivity := 0 }

theorem sslReadLoop_outside (answers : List SslRead) (c : Connection) (total : Nat)
    (last : Option SslRead) :
    (sslReadLoop answers c total last).1.outsideRead = c.outsideRead := by
  fun_induction sslReadLoop answers c total last with
  | case2 c total last space hspace first rest answers bytes ih => exact ih
  | _ => rfl

/-- A read changes the buffer, the time and the state of TLS, and nothing else. -/
theorem readData_outside (c : Connection) (now : Nat) (recv : RecvResult) (ssl : List SslRead) :
    (c.readData now recv ssl).2.1.outsideRead = c.outsideRead := by
  unfold readData
  split
  · rfl
  dsimp only
  split
  · rfl
  split
  · have hloop := sslReadLoop_outside ssl c 0 none
    split
    · exact hloop
    · exact hloop
    · split
      · exact hloop
      · exact hloop
  · cases recv with
    | data first rest => rfl
    | closed => rfl
    | wouldBlock => rfl
    | failed => rfl

theorem sslReadLoop_lastActivity (answers : List SslRead) (c : Connection) (total : Nat)
    (last : Option SslRead) :
    (sslReadLoop answers c total last).1.lastActivity = c.lastActivity := by
  fun_induction sslReadLoop answers c total last with
  | case2 c total last space hspace first rest answers bytes ih => exact ih
  | _ => rfl

/-- A read leaves the time of the last activity or sets it. -/
theorem readData_lastActivity (c : Connection) (now : Nat) (recv : RecvResult)
    (ssl : List SslRead) :
    (c.readData now recv ssl).2.1.lastActivity = c.lastActivity ∨
      (c.readData now recv ssl).2.1.lastActivity = now := by
  unfold readData
  split
  · exact .inl rfl
  dsimp only
  split
  · exact .inl rfl
  split
  · have hloop := sslReadLoop_lastActivity ssl c 0 none
    split
    · exact .inl hloop
    · exact .inl hloop
    · split
      · exact .inr rfl
      · exact .inl hloop
  · cases recv with
    | data first rest => exact .inr rfl
    | closed => exact .inl rfl
    | wouldBlock => exact .inl rfl
    | failed => exact .inl rfl

/-- What a stage has come to, whether it goes on or not. -/
def Stage.written : Stage → Written
  | .goOn w => w
  | .return_ w => w

/-- The stage of the headers leaves everything but the headers. -/
theorem sendHeaders_outside (c : Connection) (answer : SendResult) :
    (c.sendHeaders answer).written.conn.outsideStage = c.outsideStage := by
  unfold sendHeaders
  split
  · rfl
  split
  · rfl
  cases answer with
  | sent more =>
      dsimp only
      split
      · rfl
      · rfl
  | wouldBlock => rfl
  | failed => rfl

theorem sslHeaders_outside (answers : List SslWrite) (c : Connection) (head : Bytes) :
    (sslHeaders answers c head).written.conn.outsideStage = c.outsideStage := by
  fun_induction sslHeaders answers c head with
  | case3 c head hsent hraw more answers ih => exact ih
  | _ => rfl

theorem sendfileLoop_outside (answers : List SendfileResult) (c : Connection) (body : Bytes) :
    (sendfileLoop answers c body).written.conn.outsideStage = c.outsideStage := by
  fun_induction sendfileLoop answers c body with
  | case2 c body hmore count first rest answers bytes ih => exact ih
  | _ => rfl

theorem sslFileLoop_outside (answers : List (Option (UInt8 × Bytes) × SslWrite))
    (c : Connection) (body : Bytes) :
    (sslFileLoop answers c body).written.conn.outsideStage = c.outsideStage := by
  fun_induction sslFileLoop answers c body with
  | case2 c body hmore want first rest more answers bytes ih => exact ih
  | _ => rfl

theorem sendBody_outside (c : Connection) (answer : SendResult) :
    (c.sendBody answer).written.conn.outsideStage = c.outsideStage := by
  unfold sendBody
  split
  · cases answer with
    | sent more => rfl
    | wouldBlock => rfl
    | failed => rfl
  · rfl

theorem sslBody_outside (c : Connection) (answer : SslWrite) :
    (c.sslBody answer).written.conn.outsideStage = c.outsideStage := by
  unfold sslBody
  split
  · cases answer with
    | sent more => rfl
    | wantRead => rfl
    | wantWrite => rfl
    | failed => rfl
  · rfl

theorem fileStage_outside (c : Connection) (answers : WriteAnswers) :
    (c.fileStage answers).written.conn.outsideStage = c.outsideStage := by
  unfold fileStage
  split
  · exact sslFileLoop_outside _ _ _
  · exact sendfileLoop_outside _ _ _

theorem textStage_outside (c : Connection) (answers : WriteAnswers) :
    (c.textStage answers).written.conn.outsideStage = c.outsideStage := by
  unfold textStage
  split
  · exact sslBody_outside _ _
  · exact sendBody_outside _ _

theorem headerStage_outside (c : Connection) (answers : WriteAnswers) :
    (c.headerStage answers).written.conn.outsideStage = c.outsideStage := by
  unfold headerStage
  split
  · exact sslHeaders_outside _ _ _
  · exact sendHeaders_outside _ _

/-- A stage that goes on refreshes the clock, one that returns leaves it alone. -/
theorem andThen_clock {stage : Stage} {c : Connection} {now : Nat}
    {behind : Connection → Connection}
    (hbehind : ∀ c', (behind c').outsideStage = (c'.updateActivity now).outsideStage)
    (hstage : stage.written.conn.outsideStage = c.outsideStage) :
    (stage.andThen behind).conn.outsideStage = c.outsideStage ∨
      (stage.andThen behind).conn.outsideStage = (c.updateActivity now).outsideStage := by
  cases stage with
  | goOn w =>
      right
      exact (hbehind w.conn).trans (congrArg (fun c => { c with lastActivity := now }) hstage)
  | return_ w =>
      left
      exact hstage

/-- The body stage changes no more than the stages do, but for the clock. -/
theorem bodyStage_clock (c : Connection) (now : Nat) (answers : WriteAnswers) :
    (bodyStage c now answers).conn.outsideStage = c.outsideStage ∨
      (bodyStage c now answers).conn.outsideStage = (c.updateActivity now).outsideStage := by
  unfold bodyStage
  split
  · right
    rfl
  split
  · exact andThen_clock (fun _ => rfl) (fileStage_outside c answers)
  · exact andThen_clock (fun _ => rfl) (textStage_outside c answers)

/-- A write changes the response being sent and perhaps the time, and nothing else. -/
theorem writeData_clock (c : Connection) (now : Nat) (answers : WriteAnswers) :
    (c.writeData now answers).conn.outsideStage = c.outsideStage ∨
      (c.writeData now answers).conn.outsideStage = (c.updateActivity now).outsideStage := by
  unfold writeData
  split
  · left
    rfl
  have hhead := headerStage_outside c answers
  cases hstage : c.headerStage answers with
  | return_ w =>
      rw [hstage] at hhead
      left
      exact hhead
  | goOn w =>
      rw [hstage] at hhead
      have hw : w.conn.outsideStage = c.outsideStage := hhead
      rcases bodyStage_clock w.conn now answers with hbody | hbody
      · left
        exact hbody.trans hw
      · right
        exact hbody.trans (congrArg (fun c => { c with lastActivity := now }) hw)

theorem writeData_outside (c : Connection) (now : Nat) (answers : WriteAnswers) :
    (c.writeData now answers).conn.outsideWrite = c.outsideWrite := by
  rcases writeData_clock c now answers with h | h
  · exact congrArg (fun c => { c with lastActivity := 0 }) h
  · exact congrArg (fun c => { c with lastActivity := 0 }) h

/-- A write leaves the clock of the connection or sets it to now. -/
theorem writeData_lastActivity (c : Connection) (now : Nat) (answers : WriteAnswers) :
    (c.writeData now answers).conn.lastActivity = c.lastActivity ∨
      (c.writeData now answers).conn.lastActivity = now := by
  rcases writeData_clock c now answers with h | h
  · have hclock := congrArg Connection.lastActivity h
    exact .inl hclock
  · have hclock := congrArg Connection.lastActivity h
    exact .inr hclock

/-! ## Writing with nothing to write -/

/-- Nothing is left to write: no header, and no body unless the answer is for a HEAD. -/
theorem hasDataToWrite_false {c : Connection} :
    c.hasDataToWrite = false ↔ c.rawHeadersToSend = [] ∧ (c.headOnly = true ∨
      (c.fileOpen = true → c.fileRemaining ≤ 0) ∧ c.writeBody.length ≤ c.writeBodyOffset) := by
  unfold hasDataToWrite
  by_cases hraw : c.rawHeadersToSend = []
  · by_cases hhead : c.headOnly = true
    · simp [hraw, hhead]
    · by_cases hfile : c.fileOpen = true
      · by_cases hrem : 0 < c.fileRemaining
        · simp [hraw, hhead, hfile, hrem]
        · simp [hraw, hhead, hfile, hrem, Int.not_lt.1 hrem]
      · simp [hraw, hhead, hfile]
  · simp [hraw]

/-- Without its file a connection has less to write. -/
theorem closeConnection_hasData {c : Connection} (h : c.closeConnection.hasDataToWrite = true) :
    c.hasDataToWrite = true := by
  by_contra hnone
  obtain ⟨hraw, hbody⟩ := hasDataToWrite_false.1 (Bool.eq_false_iff.2 hnone)
  have hfalse : c.closeConnection.hasDataToWrite = false := by
    apply hasDataToWrite_false.2
    refine ⟨hraw, hbody.imp id fun hbody => ⟨?_, hbody.2⟩⟩
    intro hopen
    cases hopen
  rw [h] at hfalse
  cases hfalse

/-- Headers that are gone are passed over. -/
theorem headerStage_done {c : Connection} (hraw : c.rawHeadersToSend = []) (answers : WriteAnswers) :
    c.headerStage answers = .goOn ⟨0, { c with headersSent := true }, [], []⟩ := by
  have hsent : c.headersSent = true → c = { c with headersSent := true } := by
    intro h
    rw [← h]
  unfold headerStage
  split
  · unfold sslHeaders
    split
    case isTrue h => rw [← hsent h]; rfl
    case isFalse => rfl
  · unfold sendHeaders
    split
    case isTrue h => rw [← hsent h]
    case isFalse => rfl

/-- With nothing to write the stage of the body does nothing. -/
theorem bodyStage_idle {c : Connection} (hidle : c.hasDataToWrite = false) (now : Nat)
    (answers : WriteAnswers) :
    ∃ c', bodyStage c now answers = ⟨0, c', [], []⟩ ∧ c'.hasDataToWrite = false := by
  obtain ⟨hraw, hbody⟩ := hasDataToWrite_false.1 hidle
  unfold bodyStage
  split
  case isTrue hhead =>
    exact ⟨_, rfl, hasDataToWrite_false.2 ⟨hraw, .inl hhead⟩⟩
  case isFalse hhead =>
    obtain ⟨hfile, htext⟩ := hbody.resolve_left hhead
    split
    case isTrue hopen =>
      have hrem : c.fileRemaining ≤ 0 := hfile hopen
      have hstage : c.fileStage answers = .goOn ⟨0, c, [], []⟩ := by
        unfold fileStage
        split
        · unfold sslFileLoop
          rw [if_pos hrem]
        · unfold sendfileLoop
          rw [if_pos hrem]
      rw [hstage]
      refine ⟨_, rfl, hasDataToWrite_false.2 ⟨hraw, .inr ⟨fun _ => hrem, htext⟩⟩⟩
    case isFalse hopen =>
      have hstage : c.textStage answers = .goOn ⟨0, c, [], []⟩ := by
        unfold textStage
        split
        · unfold sslBody
          rw [if_neg (Nat.not_lt.2 htext)]
        · unfold sendBody
          rw [if_neg (Nat.not_lt.2 htext)]
      rw [hstage]
      exact ⟨_, rfl, hasDataToWrite_false.2 ⟨hraw, .inr ⟨hfile, htext⟩⟩⟩

/-- With nothing to write, nothing is written. -/
theorem writeData_idle {c : Connection} (hidle : c.hasDataToWrite = false) (now : Nat)
    (answers : WriteAnswers) :
    ∃ c', c.writeData now answers = ⟨0, c', [], []⟩ ∧ c'.hasDataToWrite = false := by
  unfold writeData
  split
  · exact ⟨c, rfl, hidle⟩
  rw [headerStage_done (hasDataToWrite_false.1 hidle).1]
  dsimp only
  have hidle' : ({ c with headersSent := true } : Connection).hasDataToWrite = false := hidle
  obtain ⟨c', hc', hdata⟩ := bodyStage_idle hidle' now answers
  refine ⟨c', ?_, hdata⟩
  rw [hc']
  rfl

/-! ## Writing without a body -/

theorem sslHeaders_body (answers : List SslWrite) (c : Connection) (head : Bytes) :
    (sslHeaders answers c head).written.body = [] := by
  fun_induction sslHeaders answers c head with
  | case3 c head hsent hraw more answers ih => exact ih
  | _ => rfl

/-- The stage of the headers sends no byte of the body. -/
theorem sendHeaders_body (c : Connection) (answer : SendResult) :
    (c.sendHeaders answer).written.body = [] := by
  unfold sendHeaders
  split
  · rfl
  split
  · rfl
  cases answer with
  | sent more =>
      dsimp only
      split
      · rfl
      · rfl
  | wouldBlock => rfl
  | failed => rfl

/-- The stage of the headers takes nothing of the body. -/
theorem headerStage_body (c : Connection) (answers : WriteAnswers) :
    (c.headerStage answers).written.body = [] := by
  unfold headerStage
  split
  · exact sslHeaders_body _ _ _
  · exact sendHeaders_body _ _

/-- Of a head-only response no body is sent. -/
theorem writeData_headOnly {c : Connection} (hhead : c.headOnly = true) (now : Nat)
    (answers : WriteAnswers) : (c.writeData now answers).body = [] := by
  unfold writeData
  split
  · rfl
  have hbody := headerStage_body c answers
  have hout := headerStage_outside c answers
  cases hstage : c.headerStage answers with
  | return_ w =>
      rw [hstage] at hbody
      exact hbody
  | goOn w =>
      rw [hstage] at hout
      have hw : w.conn.headOnly = true := (congrArg Connection.headOnly hout).trans hhead
      unfold bodyStage
      dsimp only
      rw [if_pos hw]
      rfl

/-! ## Installing a response -/

theorem buildHeadersString_ne_nil (res : HttpResponse) (date : Bytes) :
    res.buildHeadersString date ≠ [] := by
  unfold HttpResponse.buildHeadersString
  intro h
  have hlen := congrArg List.length h
  simp [crlf] at hlen

/-- The header block that is to be sent is the one of the response. -/
theorem setResponseContent_raw (c : Connection) (res : HttpResponse) (date : Bytes)
    (opened : Option (Option Int)) :
    (c.setResponseContent res date opened).rawHeadersToSend = res.buildHeadersString date := by
  unfold setResponseContent
  dsimp only
  split
  · split
    · rfl
    · rfl
  · split
    · rfl
    · rfl

/-- An installed response is to be written. -/
theorem setResponseContent_hasData (c : Connection) (res : HttpResponse) (date : Bytes)
    (opened : Option (Option Int)) :
    (c.setResponseContent res date opened).hasDataToWrite = true := by
  unfold hasDataToWrite
  rw [setResponseContent_raw, if_pos (buildHeadersString_ne_nil res date)]

/-- The connection takes `head_only` from the response. -/
theorem setResponseContent_headOnly (c : Connection) (res : HttpResponse) (date : Bytes)
    (opened : Option (Option Int)) :
    (c.setResponseContent res date opened).headOnly = res.headOnly := by
  unfold setResponseContent
  dsimp only
  split
  · split
    · rfl
    · rfl
  · split
    · rfl
    · rfl

/-- Only the state of the response changes. -/
theorem setResponseContent_outside (c : Connection) (res : HttpResponse) (date : Bytes)
    (opened : Option (Option Int)) :
    (c.setResponseContent res date opened).clearResponseState = c.clearResponseState := by
  unfold setResponseContent
  dsimp only
  split
  · split
    · rfl
    · rfl
  · split
    · rfl
    · rfl

end Connection

end Oreshnek
