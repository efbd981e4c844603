import Oreshnek.Net.Connection
import Oreshnek.Server.Worker

/-!
# Callbacks on one connection

`handle_client_data`, `handle_write_ready` and `dispatch_next`, as far as they
work on their connection: each leaves the connection in some state and says what
the server is to do next (`Outcome`). A handler either ends by itself or in
`dispatch_next` (`Flow`).

A `Session` is a connection object together with its `History`: what has happened
to it so far, in the order in which it happened. No definition of the code reads
the history.
-/

namespace Oreshnek

/-! ## What happens to a connection -/

/-- Why a connection is closed. -/
inductive CloseReason where
  | peerClosed
  /-- `read_data` finds no space, and answers as for a closed peer. -/
  | bufferFull
  /-- A failed read, write, handshake or `epoll_ctl`, or an error event. -/
  | ioError
  | notOpen
  | badRequest
  /-- Behind the last byte of a response, when the connection is not reused. -/
  | finished
  | readTimeout
  | handlerTimeout
  | writeTimeout
  | idleTimeout
deriving DecidableEq

/-- A timeout, a close by the peer, or an I/O error. -/
def CloseReason.external : CloseReason → Bool
  | .peerClosed | .ioError | .readTimeout | .handlerTimeout | .writeTimeout | .idleTimeout => true
  | .bufferFull | .notOpen | .badRequest | .finished => false

/-- A response for a request; `serial` counts the requests of the connection
from 0. -/
structure Production where
  serial : Nat
  request : HttpRequest
  response : HttpResponse
deriving DecidableEq

/-- A response installed by `set_response_content`. -/
structure Installation where
  /-- The request that it answers. -/
  serial : Nat
  /-- The connection object that it was made for. -/
  madeFor : Nat
  response : HttpResponse
  /-- Made by `dispatch_next` itself. -/
  inline : Bool
  /-- How many requests had been parsed by then. -/
  parsed : Nat
  /-- Whether bytes were still to be written then. -/
  pending : Bool
deriving DecidableEq

/-- Bytes that the socket has taken, of the response installed at `index`. -/
structure Emission where
  index : Nat
  head : Bytes
  body : Bytes
deriving DecidableEq

structure History where
  /-- The requests parsed from the buffer. -/
  requests : List HttpRequest := []
  /-- The responses made for them. -/
  produced : List Production := []
  installed : List Installation := []
  emitted : List Emission := []
  /-- How many responses have been handed to the socket in full. -/
  finished : Nat := 0
  /-- When the last response was installed or the last byte of it written. -/
  progressAt : Nat := 0
  /-- When each byte of the buffer arrived. -/
  arrivals : List Nat := []
  /-- The requests that have waited for an interim response, and those that one
  was sent for. -/
  awaited : List Nat := []
  interim : List Nat := []
  /-- All that has been read from the socket. -/
  received : Bytes := []
  /-- All that the socket has taken, in front of what goes out as the connection is closed. -/
  sent : Bytes := []
  /-- What the last `SSL_read` answered. -/
  lastSslRead : Option SslRead := none
  closedBy : Option CloseReason := none
deriving DecidableEq

structure Session where
  conn : Connection
  hist : History := {}
deriving DecidableEq

/-! ## Environment -/

/-- What the system answers during one callback. -/
structure Answers where
  accept : SslAccept := .failed
  recv : RecvResult := .failed
  sslRead : List SslRead := []
  write : WriteAnswers := {}
  /-- How many bytes of an interim response the socket takes. -/
  interim : Nat := 25
  /-- `rate_limiter_->allow`. -/
  allow : Bool := true
  /-- `epoll_ctl` succeeds in arming the socket again. -/
  rearmed : Bool := true
  /-- The date of a header block. -/
  date : Bytes := []
  /-- `open` of a file to be sent, as in `setResponseContent`. -/
  opened : Option (Option Int) := none
deriving DecidableEq

/-- The direction that a socket is armed for. -/
inductive Direction where
  | read
  | write
deriving DecidableEq

/-- What a callback leaves to the server. -/
inductive Outcome where
  /-- Nothing: the socket stays unarmed. -/
  | wait
  | rearm (dir : Direction)
  | close (reason : CloseReason)
  /-- A request was answered on the spot, with this status. -/
  | reject (status : HttpStatus)
  /-- A request goes to the thread pool. -/
  | handOver (request : HttpRequest)
deriving DecidableEq

/-- A handler goes on in `dispatch_next`, or it is through. -/
inductive Flow where
  | dispatch (x : Session)
  | done (x : Session) (outcome : Outcome)

namespace Session

/-- The object `o` of a socket accepted at `now`. -/
def new (fd now : Nat) (clientIp : Bytes) (tls : Bool) : Session where
  conn := { Connection.new fd now with clientIp := clientIp, usesTls := tls }

/-! ## Responses -/

/-- `set_response_content`, for the answer to the request `serial` of the object
`madeFor`. -/
def install (x : Session) (now : Nat) (ans : Answers) (serial madeFor : Nat) (inline : Bool)
    (res : HttpResponse) : Session where
  conn := x.conn.setResponseContent res ans.date ans.opened
  hist := { x.hist with
    installed := x.hist.installed ++
      [⟨serial, madeFor, res, inline, x.hist.requests.length, x.conn.hasDataToWrite⟩]
    progressAt := now }

/-- The worker has finished. -/
def workerDone (x : Session) : Session :=
  { x with conn := { x.conn with workerInFlight := false } }

/-- A 429 or 503 of `dispatch_next`. -/
def rejection (status : HttpStatus) (error : Bytes) : HttpResponse :=
  ((HttpResponse.new.setStatus status).json (errorJson error)).header (lit "Retry-After") (lit "1")

def tooManyRequests : HttpResponse := rejection .tooManyRequests (lit "Too Many Requests")

def serviceUnavailable : HttpResponse := rejection .serviceUnavailable (lit "Service Unavailable")

/-! ## `dispatch_next` -/

/-- The interim response of `maybe_send_100_continue`. -/
def kContinue : Bytes := lit "HTTP/1.1 100 Continue\r\n\r\n"

/-- The parser has been run. -/
def parsed (x : Session) (inb : Inbound) : Session :=
  { x with conn := { x.conn with toInbound := inb } }

/-- A complete request of `consumed` bytes leaves the buffer, and is in flight. -/
def takeRequest (x : Session) (consumed : Nat) : Session where
  conn := { x.conn with toInbound := x.conn.toInbound.consume consumed, processing := true }
  hist := { x.hist with
    requests := x.hist.requests ++ [x.conn.toInbound.ownedRequest consumed]
    arrivals := x.hist.arrivals.drop consumed }

/-- The request is answered on the spot, on the object `o`. -/
def reject (x : Session) (now : Nat) (ans : Answers) (o consumed : Nat) (res : HttpResponse) :
    Session :=
  let serial := x.hist.requests.length
  let production : Production := ⟨serial, x.conn.toInbound.ownedRequest consumed, res⟩
  let x := x.takeRequest consumed
  let x := { x with hist.produced := x.hist.produced ++ [production] }
  x.install now ans serial o true res

/-- The request is handed over to the thread pool. -/
def handOver (x : Session) (now consumed : Nat) : Session :=
  let x := x.takeRequest consumed
  { x with conn := { x.conn with workerInFlight := true, processingSince := now } }

/-- The request is incomplete: an interim response when it asks for one. -/
def await (x : Session) (ans : Answers) : Session :=
  let serial := x.hist.requests.length
  let (sent, conn) := x.conn.maybeSend100Continue
  { conn := conn
    hist := { x.hist with
      awaited := if x.conn.expectsContinue then x.hist.awaited ++ [serial] else x.hist.awaited
      interim := if sent then x.hist.interim ++ [serial] else x.hist.interim
      sent := if sent then x.hist.sent ++ kContinue.take ans.interim else x.hist.sent } }

/-- The direction that an incomplete request is waited for. -/
def awaitDirection (c : Connection) : Direction :=
  if c.usesTls ∧ c.tlsWant = .write then .write else .read

/-- `dispatch_next` on the object `o`; `none` for undefined behaviour of the
parser. -/
def dispatchNext (x : Session) (limited overloaded : Bool) (now : Nat) (ans : Answers) (o : Nat) :
    Option (Session × Outcome) :=
  if x.conn.processing then some (x, .wait)
  else
    match x.conn.toInbound.parseNext with
    | none => none
    | some (true, consumed, inb) =>
        let x := x.parsed inb
        if limited ∧ ¬ ans.allow then
          some (x.reject now ans o consumed tooManyRequests, .reject .tooManyRequests)
        else if overloaded then
          some (x.reject now ans o consumed serviceUnavailable, .reject .serviceUnavailable)
        else
          some (x.handOver now consumed, .handOver (x.conn.toInbound.ownedRequest consumed))
    | some (false, _, inb) =>
        let x := x.parsed inb
        if x.conn.toInbound.parserFailed then some (x, .close .badRequest)
        else some (x.await ans, .rearm (awaitDirection (x.await ans).conn))

/-! ## `handle_client_data` and `handle_write_ready` -/

/-- The direction that the handshake asks for. -/
def handshakeDirection (c : Connection) : Direction :=
  match c.tlsWant with
  | .read => .read
  | .write => .write

/-- `read_data`, on the record. -/
def afterRead (x : Session) (now : Nat) (ans : Answers) : Session :=
  let (_, conn, last) := x.conn.readData now ans.recv ans.sslRead
  { conn := conn
    hist := { x.hist with
      arrivals := x.hist.arrivals ++
        List.replicate (conn.readBuffer.length - x.conn.readBuffer.length) now
      received := x.hist.received ++ conn.readBuffer.drop x.conn.readBuffer.length
      lastSslRead := if last.isSome then last else x.hist.lastSslRead } }

/-- The part of `handle_client_data` behind the handshake. -/
def readAndDispatch (x : Session) (now : Nat) (ans : Answers) : Flow :=
  let bytesRead := (x.conn.readData now ans.recv ans.sslRead).1
  let y := x.afterRead now ans
  if bytesRead = 0 then
    .done y (.close (if x.conn.readBuffer.length < Connection.readBufferSize then .peerClosed
      else .bufferFull))
  else if bytesRead = -1 then .done y (.close .ioError)
  else .dispatch y

/-- `handle_client_data`. -/
def handleClientData (x : Session) (now : Nat) (ans : Answers) : Flow :=
  if ¬ x.conn.isOpen then .done x (.close .notOpen)
  else if x.conn.usesTls ∧ ¬ x.conn.tlsHandshakeDone then
    let (r, conn) := x.conn.continueTlsHandshake now ans.accept
    let x := { x with conn := conn }
    if r = 1 then x.readAndDispatch now ans
    else if r = 0 then .done x (.rearm (handshakeDirection conn))
    else .done x (.close .ioError)
  else x.readAndDispatch now ans

/-- `write_data`, on the record. -/
def afterWrite (x : Session) (now : Nat) (ans : Answers) : Session :=
  let w := x.conn.writeData now ans.write
  { conn := w.conn
    hist := { x.hist with
      emitted := x.hist.emitted ++ [⟨x.hist.installed.length - 1, w.head, w.body⟩]
      sent := x.hist.sent ++ (w.head ++ w.body)
      progressAt := if w.head ++ w.body = [] then x.hist.progressAt else now } }

/-- A response has been handed to the socket in full. -/
def complete (x : Session) : Session :=
  { x with hist.finished := x.hist.installed.length }

/-- The connection is ready for its next request. -/
def reuse (x : Session) (now : Nat) : Session :=
  { x with conn := { x.conn.clearResponseState with processing := false }.updateActivity now }

/-- `handle_write_ready`. -/
def handleWriteReady (x : Session) (draining : Bool) (now : Nat) (ans : Answers) : Flow :=
  if ¬ x.conn.isOpen then .done x (.close .notOpen)
  else if x.conn.usesTls ∧ ¬ x.conn.tlsHandshakeDone then
    let (r, conn) := x.conn.continueTlsHandshake now ans.accept
    let x := { x with conn := conn }
    if r = 1 then .done x (.rearm .read)
    else if r = 0 then .done x (.rearm (handshakeDirection conn))
    else .done x (.close .ioError)
  else
    let y := x.afterWrite now ans
    if (x.conn.writeData now ans.write).ret < 0 then .done y (.close .ioError)
    else if y.conn.hasDataToWrite then .done y (.rearm .write)
    else if ¬ y.conn.keepAlive ∨ draining then .done y.complete (.close .finished)
    else .dispatch (y.complete.reuse now)

/-- The handler of an event. -/
def handle (x : Session) (draining : Bool) (now : Nat) (ans : Answers) : Direction → Flow
  | .read => x.handleClientData now ans
  | .write => x.handleWriteReady draining now ans

/-- A handler with the `dispatch_next` that it may end in. -/
def react (x : Session) (draining limited overloaded : Bool) (now : Nat) (ans : Answers) (o : Nat)
    (dir : Direction) : Option (Session × Outcome) :=
  match x.handle draining now ans dir with
  | .done x outcome => some (x, outcome)
  | .dispatch x => x.dispatchNext limited overloaded now ans o

/-- What `enforce_timeouts` sends in front of a close, as far as the socket takes it: `k408`,
`k504` or nothing. -/
def notice : CloseReason → Bytes
  | .readTimeout =>
      lit "HTTP/1.1 408 Request Timeout\r\nConnection: close\r\nContent-Length: 0\r\n\r\n"
  | .handlerTimeout =>
      lit "HTTP/1.1 504 Gateway Timeout\r\nConnection: close\r\nContent-Length: 0\r\n\r\n"
  | _ => []

/-- The socket may have taken these bytes. How much of a notice it took is not recorded. -/
def Took (x : Session) (bytes : Bytes) : Prop :=
  ∃ part, bytes = x.hist.sent ++ part ∧ part <+: (x.hist.closedBy.elim [] notice)

/-- `close_connection` of the object. -/
def close (x : Session) (reason : CloseReason) : Session :=
  { conn := x.conn.closeConnection
    hist := { x.hist with closedBy := some reason } }

end Session

end Oreshnek
