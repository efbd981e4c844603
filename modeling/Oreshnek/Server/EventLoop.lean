import Mathlib.Data.List.AList
import Oreshnek.Lib.Runs
import Oreshnek.Server.Session

/-!
# The event loop and its workers

`Server` with its one event-loop thread, its thread pool and the self-pipe between
them, as a transition system. The loop goes through the events of one `epoll_wait`
after the other; a callback is one step, the reading of the pipe and the exchange
of `completed_` are steps of their own. The workers take steps in between: a task
is taken from the queue, run up to the push of its response, reported through the
pipe, and left. Time passes between the steps, in nanoseconds. What the clients,
the system and the handlers do is in the labels, `Act`.

The build is the one with `epoll`: sockets are armed for one event
(`EPOLLONESHOT`). A step that is not defined is not enabled, or is undefined
behaviour of the parser or of the route search. The last step of the loop is one that ends
in `Phase.stopped`; `Server.teardown`, which follows it, is no step.

Connection objects are numbered in the order of their creation. The serials of
tasks and completed responses belong to the histories of the objects; the code
does not have them. An accepted socket that cannot be made non-blocking or be
registered, or gets no TLS session, is closed at once and leaves no trace.
-/

namespace Oreshnek

/-! ## State -/

/-- `Settings`, as far as the loop reads it. -/
structure Settings where
  readTimeoutSec : Int := 30
  writeTimeoutSec : Int := 30
  idleTimeoutSec : Int := 60
  shutdownGraceSec : Int := 10
  handlerTimeoutSec : Int := 30
  maxConcurrentHandlers : Int := 0

structure Config (H : Type) where
  settings : Settings := {}
  router : RouterNode H
  /-- Threads of the pool. -/
  workers : Nat := 1
  /-- Bytes that fit into the self-pipe. -/
  pipeCapacity : Nat := 65536
  pipeCapacity_pos : 0 < pipeCapacity := by decide
  /-- `tls_ctx_` is set. -/
  tls : Bool := false
  /-- `rate_limiter_` is set. -/
  rateLimited : Bool := false

/-- The counters of `Metrics`. -/
structure Metrics where
  requestsTotal : Nat := 0
  responses2xx : Nat := 0
  responses3xx : Nat := 0
  responses4xx : Nat := 0
  responses5xx : Nat := 0
  connectionsAccepted : Nat := 0
  connectionsActive : Int := 0
  rateLimitedTotal : Nat := 0
  handlerTimeoutsTotal : Nat := 0
  loadShedTotal : Nat := 0
  workersInFlight : Int := 0
deriving DecidableEq

/-- `record_status`. -/
def Metrics.recordStatus (m : Metrics) (code : Nat) : Metrics :=
  if 200 ≤ code ∧ code < 300 then { m with responses2xx := m.responses2xx + 1 }
  else if 300 ≤ code ∧ code < 400 then { m with responses3xx := m.responses3xx + 1 }
  else if 400 ≤ code ∧ code < 500 then { m with responses4xx := m.responses4xx + 1 }
  else if 500 ≤ code then { m with responses5xx := m.responses5xx + 1 }
  else m

/-- A request is answered on the spot, with 429 or 503. -/
def Metrics.countRejection (m : Metrics) (status : HttpStatus) : Metrics :=
  let m : Metrics := { m with
    requestsTotal := m.requestsTotal + 1
    rateLimitedTotal := m.rateLimitedTotal + (if status = .tooManyRequests then 1 else 0)
    loadShedTotal := m.loadShedTotal + (if status = .serviceUnavailable then 1 else 0) }
  m.recordStatus status.code

/-- A request is handed over to the pool. -/
def Metrics.countHandOver (m : Metrics) : Metrics :=
  { m with
    requestsTotal := m.requestsTotal + 1
    workersInFlight := m.workersInFlight + 1 }

/-- A handler has timed out, which is answered with 504. -/
def Metrics.countTimeout (m : Metrics) : Metrics :=
  { m with handlerTimeoutsTotal := m.handlerTimeoutsTotal + 1 }.recordStatus 504

/-- A task of the pool: the captures of its closure. -/
structure Task where
  fd : Nat
  conn : Nat
  serial : Nat
  request : HttpRequest
deriving DecidableEq

/-- Where the worker of a task is. -/
inductive TaskStage where
  /-- It has not yet pushed a response. -/
  | working
  /-- It has, and has not yet written to the pipe. -/
  | pushed
  /-- Only the guard is left to be destroyed. -/
  | leaving
deriving DecidableEq

structure RunningTask where
  stage : TaskStage
  task : Task
deriving DecidableEq

/-- An element of `completed_`. -/
structure Completion where
  serial : Nat
  item : CompletedResponse
deriving DecidableEq

/-- What an event is about. -/
inductive Source where
  | socket (fd : Nat)
  | wakeup
  | listener
deriving DecidableEq

inductive Event where
  /-- A socket armed for `dir`; `error` for `EPOLLERR` or `EPOLLHUP`. -/
  | client (fd : Nat) (dir : Direction) (error : Bool)
  | wakeup
  | listener
deriving DecidableEq

def Event.source : Event → Source
  | .client fd _ _ => .socket fd
  | .wakeup => .wakeup
  | .listener => .listener

/-- Where `run` is, with the events still to be looked at. -/
inductive Phase where
  /-- In `epoll_wait`. -/
  | waiting
  /-- Between two events. -/
  | batch (rest : List Event)
  /-- In `handle_new_connection`. -/
  | accepting (rest : List Event)
  /-- In `drain_wakeup`. -/
  | drainingPipe (rest : List Event)
  /-- Before the exchange in `process_completions`. -/
  | swapping (rest : List Event)
  /-- In the loop of `process_completions`. -/
  | completing (ready : List Completion) (rest : List Event)
  /-- Behind the loop; `clean` when the drain has ended by itself. -/
  | stopped (clean : Bool)
deriving DecidableEq

structure Server where
  /-- The objects by their numbers, and the next number. -/
  objects : Nat → Session
  nextObject : Nat
  /-- `connections_`. -/
  connections : AList fun _ : Nat => Nat
  /-- The sockets that `epoll` watches. -/
  armed : Nat → Option Direction
  /-- The queue of the pool, and the tasks that its threads run. -/
  tasks : List Task
  running : List RunningTask
  completed : List Completion
  /-- Bytes in the self-pipe. -/
  pipe : Nat
  phase : Phase
  draining : Bool
  stopRequested : Bool
  now : Nat
  lastCleanup : Nat
  drainDeadline : Int
  metrics : Metrics

namespace Server

/-- `run` begins at `now`. -/
def start (now : Nat) : Server where
  objects := fun _ => ⟨{}, {}⟩
  nextObject := 0
  connections := ∅
  armed := fun _ => none
  tasks := []
  running := []
  completed := []
  pipe := 0
  phase := .waiting
  draining := false
  stopRequested := false
  now := now
  lastCleanup := now
  drainDeadline := 0
  metrics := {}

/-! ## Connections -/

def setSession (s : Server) (o : Nat) (x : Session) : Server :=
  { s with objects := Function.update s.objects o x }

def arm (s : Server) (fd : Nat) (dir : Option Direction) : Server :=
  { s with armed := Function.update s.armed fd dir }

/-- `close_connection`. -/
def closeConnection (s : Server) (fd : Nat) (reason : CloseReason) : Server :=
  let s := s.arm fd none
  match s.connections.lookup fd with
  | none => s
  | some o =>
      { s.setSession o ((s.objects o).close reason) with
        connections := s.connections.erase fd
        metrics := { s.metrics with connectionsActive := s.metrics.connectionsActive - 1 } }

/-- `rearm`. -/
def rearm (s : Server) (fd : Nat) (dir : Direction) (success : Bool) : Server :=
  if success then s.arm fd (some dir) else s.closeConnection fd .ioError

/-- What the server does when a callback on the object `o` of `fd` is through. -/
def conclude (s : Server) (fd o : Nat) (x : Session) (success : Bool) : Outcome → Server
  | .wait => s.setSession o x
  | .rearm dir => (s.setSession o x).rearm fd dir success
  | .close reason => (s.setSession o x).closeConnection fd reason
  | .reject status =>
      { s.setSession o x with metrics := s.metrics.countRejection status }.rearm fd .write success
  | .handOver request =>
      { s.setSession o x with
        tasks := s.tasks ++ [⟨fd, o, x.hist.requests.length - 1, request⟩]
        metrics := s.metrics.countHandOver }

/-! ## Timeouts -/

def nanosPerSec : Nat := 1000000000

/-- `duration_cast<seconds>(now - since).count()`. -/
def elapsedSec (now since : Nat) : Int := ((now - since) / nanosPerSec : Nat)

/-- More than `limit` seconds, which is set. -/
def expired (limit : Int) (now since : Nat) : Bool :=
  decide (0 < limit ∧ limit < elapsedSec now since)

/-- What `enforce_timeouts` decides on a connection. -/
def timeoutOf (settings : Settings) (now : Nat) (c : Connection) : Option CloseReason :=
  if c.workerInFlight then
    if expired settings.handlerTimeoutSec now c.processingSince then some .handlerTimeout else none
  else if c.hasDataToWrite then
    if expired settings.writeTimeoutSec now c.lastActivity then some .writeTimeout else none
  else if c.processing then none
  else if c.readBuffer ≠ [] then
    if expired settings.readTimeoutSec now c.lastActivity then some .readTimeout else none
  else
    if expired settings.idleTimeoutSec now c.lastActivity then some .idleTimeout else none

/-- The connections that have timed out, each with what for. -/
def timeouts (s : Server) (settings : Settings) : List (Nat × CloseReason) :=
  s.connections.entries.filterMap fun e =>
    (timeoutOf settings s.now (s.objects e.2).conn).map fun reason => (e.1, reason)

/-- A connection that has timed out is closed. -/
def timeOut (s : Server) (e : Nat × CloseReason) : Server :=
  let s : Server := { s with
    metrics := if e.2 = .handlerTimeout then s.metrics.countTimeout else s.metrics }
  s.closeConnection e.1 e.2

/-- `enforce_timeouts`: the connections are collected first and closed
afterwards. -/
def enforceTimeouts (s : Server) (settings : Settings) : Server :=
  let all := s.timeouts settings
  let readTimeouts := all.filter fun e => e.2 = .readTimeout
  let handlerTimeouts := all.filter fun e => e.2 = .handlerTimeout
  let plainCloses := all.filter fun e => e.2 = .writeTimeout ∨ e.2 = .idleTimeout
  (readTimeouts ++ handlerTimeouts ++ plainCloses).foldl timeOut s

/-! ## Steps -/

/-- `max_concurrent_handlers` are in flight. -/
def overloaded (s : Server) (settings : Settings) : Bool :=
  decide (0 < settings.maxConcurrentHandlers ∧
    settings.maxConcurrentHandlers ≤ s.metrics.workersInFlight)

/-- `MAX_EVENTS`. -/
def maxEvents : Nat := 1024

/-- `epoll_wait` can report these events: each source once, a socket for what it
is armed for, the pipe when there is something in it, and no new connection while
draining. -/
def Reports (s : Server) (events : List Event) : Prop :=
  events.length ≤ maxEvents ∧ (events.map Event.source).Nodup ∧
    ∀ event ∈ events,
      match event with
      | .client fd dir _ => s.armed fd = some dir
      | .wakeup => 0 < s.pipe
      | .listener => s.draining = false

instance (s : Server) (events : List Event) : Decidable (s.Reports events) := by
  unfold Reports
  have : DecidablePred fun event : Event =>
      match event with
      | .client fd dir _ => s.armed fd = some dir
      | .wakeup => 0 < s.pipe
      | .listener => s.draining = false := fun event => by
    cases event
    case client fd dir e => exact inferInstanceAs (Decidable (s.armed fd = some dir))
    case wakeup => exact inferInstanceAs (Decidable (0 < s.pipe))
    case listener => exact inferInstanceAs (Decidable (s.draining = false))
  infer_instance

/-- A socket whose event is reported is no longer armed. -/
def disarm (s : Server) (events : List Event) : Server :=
  { s with armed := fun fd => if .socket fd ∈ events.map Event.source then none else s.armed fd }

/-- `process_completions`, for one response. -/
def processCompletion (s : Server) (ans : Answers) (c : Completion) : Server :=
  match s.connections.lookup c.item.fd with
  | none => s
  | some o =>
      if o ≠ c.item.conn ∨ ¬ (s.objects o).conn.isOpen then s
      else
        let x := (s.objects o).workerDone.install s.now ans c.serial c.item.conn false
          c.item.response
        (s.setSession o x).rearm c.item.fd .write ans.rearmed

/-- `draining_` is set by the first look at a stop request. -/
def beginDrain (s : Server) (settings : Settings) : Server :=
  if ¬ s.draining ∧ s.stopRequested then
    { s with
      draining := true
      drainDeadline := s.now + settings.shutdownGraceSec * nanosPerSec }
  else s

/-- The periodic `enforce_timeouts`. -/
def cleanup (s : Server) (settings : Settings) : Server :=
  if s.draining ∨ 1 ≤ elapsedSec s.now s.lastCleanup then
    { s.enforceTimeouts settings with lastCleanup := s.now }
  else s

/-- `work_in_flight`. -/
def workInFlight (s : Server) : Bool :=
  s.connections.entries.any fun e =>
    (s.objects e.2).conn.processing || (s.objects e.2).conn.hasDataToWrite

/-- The end of the drain. -/
def checkDrain (s : Server) : Server :=
  { s with phase :=
      if ¬ s.draining then .waiting
      else if ¬ s.workInFlight then .stopped true
      else if s.drainDeadline ≤ s.now then .stopped false
      else .waiting }

/-- A worker has run the task at `k`, which ended with these responses pushed. -/
def push (s : Server) (k : Nat) (t : Task) (pushed : List CompletedResponse) : Server :=
  match pushed with
  | [] => { s with running := s.running.set k ⟨.leaving, t⟩ }
  | item :: _ =>
      let x := s.objects t.conn
      let production : Production := ⟨t.serial, t.request, item.response⟩
      { s.setSession t.conn { x with hist.produced := x.hist.produced ++ [production] } with
        running := s.running.set k ⟨.pushed, t⟩
        completed := s.completed ++ [⟨t.serial, item⟩]
        metrics := s.metrics.recordStatus item.response.status.code }

/-- One byte to the self-pipe, unless it is full. -/
def notifyEventLoop (s : Server) (capacity : Nat) : Server :=
  { s with pipe := if s.pipe < capacity then s.pipe + 1 else s.pipe }

/-- A task, one that is run, or a response that is waiting holds the object `o`. -/
def stillHeld (s : Server) (o : Nat) : Prop :=
  (∃ t ∈ s.tasks, t.conn = o) ∨ (∃ r ∈ s.running, r.task.conn = o) ∨
    ∃ c ∈ s.completed, c.item.conn = o

instance (s : Server) (o : Nat) : Decidable (s.stillHeld o) := by
  unfold stillHeld
  infer_instance

/-- What `run` does behind its loop: `connections_.clear()` destroys the objects that nothing
else holds, and closes their sockets. -/
def teardown (s : Server) : Server :=
  { s with
    connections := ∅
    objects := fun o =>
      if (∃ e ∈ s.connections.entries, e.2 = o) ∧ ¬ s.stillHeld o then
        { s.objects o with conn := (s.objects o).conn.closeConnection }
      else s.objects o }

/-- A connection is accepted on the socket `fd`. -/
def accept (s : Server) (fd : Nat) (clientIp : Bytes) (tls : Bool) : Server :=
  { (s.setSession s.nextObject (.new fd s.now clientIp tls)).arm fd (some .read) with
    nextObject := s.nextObject + 1
    connections := s.connections.insert fd s.nextObject
    metrics := { s.metrics with
      connectionsAccepted := s.metrics.connectionsAccepted + 1
      connectionsActive := s.metrics.connectionsActive + 1 } }

end Server

inductive Act (H : Type) where
  | tick (nanos : Nat)
  /-- `epoll_wait` returns. -/
  | poll (events : List Event)
  /-- It fails. -/
  | pollFailed
  /-- The next event is taken up, when it is the pipe or the listener. -/
  | enter
  /-- The next event is one of a client. -/
  | client (ans : Answers)
  | accept (fd : Nat) (clientIp : Bytes)
  | acceptEnd
  /-- One `read` of the pipe; `failed` for one that fails though there is
  something. -/
  | drainRead (failed : Bool)
  | swap
  /-- The next response of `process_completions`, or its end. -/
  | complete (ans : Answers)
  /-- What `run` does behind the events. -/
  | afterBatch
  /-- A thread takes the first task. -/
  | take
  /-- The task at `k` runs. -/
  | work (k : Nat) (env : TaskEnv H)
  /-- Its `notify_event_loop`. -/
  | notify (k : Nat)
  /-- Its guard is destroyed. -/
  | exit (k : Nat)
  | requestStop
  /-- The `notify_event_loop` of a `request_stop`. -/
  | stopNotify

namespace Server

variable {H : Type}

def step (cfg : Config H) (s : Server) : Act H → Option Server
  | .tick nanos => some { s with now := s.now + nanos }
  | .poll events =>
      match s.phase with
      | .waiting =>
          if s.Reports events then some { s.disarm events with phase := .batch events } else none
      | _ => none
  | .pollFailed =>
      match s.phase with
      | .waiting => some { s with phase := .stopped false }
      | _ => none
  | .enter =>
      match s.phase with
      | .batch (.wakeup :: rest) => some { s with phase := .drainingPipe rest }
      | .batch (.listener :: rest) => some { s with phase := .accepting rest }
      | _ => none
  | .client ans =>
      match s.phase with
      | .batch (.client fd dir error :: rest) =>
          let s := { s with phase := .batch rest }
          if error then some (s.closeConnection fd .ioError)
          else
            match s.connections.lookup fd with
            | none => some s
            | some o =>
                ((s.objects o).react s.draining cfg.rateLimited (s.overloaded cfg.settings) s.now
                  ans o dir).map fun r => s.conclude fd o r.1 ans.rearmed r.2
      | _ => none
  | .accept fd clientIp =>
      match s.phase with
      | .accepting _ => if s.connections.lookup fd = none then some (s.accept fd clientIp cfg.tls)
          else none
      | _ => none
  | .acceptEnd =>
      match s.phase with
      | .accepting rest => some { s with phase := .batch rest }
      | _ => none
  | .drainRead failed =>
      match s.phase with
      | .drainingPipe rest =>
          if failed ∨ s.pipe = 0 then some { s with phase := .swapping rest }
          else some { s with pipe := s.pipe - 256 }
      | _ => none
  | .swap =>
      match s.phase with
      | .swapping rest => some { s with completed := [], phase := .completing s.completed rest }
      | _ => none
  | .complete ans =>
      match s.phase with
      | .completing (c :: ready) rest =>
          some ({ s with phase := .completing ready rest }.processCompletion ans c)
      | .completing [] rest => some { s with phase := .batch rest }
      | _ => none
  | .afterBatch =>
      match s.phase with
      | .batch [] => some ((s.beginDrain cfg.settings).cleanup cfg.settings).checkDrain
      | _ => none
  | .take =>
      match s.tasks with
      | [] => none
      | t :: tasks =>
          if s.running.length < cfg.workers then
            some { s with tasks := tasks, running := s.running ++ [⟨.working, t⟩] }
          else none
  | .work k env =>
      match s.running[k]? with
      | some ⟨.working, t⟩ =>
          (workerTask env cfg.router t.fd t.conn t.request []).map fun r => s.push k t r.2
      | _ => none
  | .notify k =>
      match s.running[k]? with
      | some ⟨.pushed, t⟩ =>
          some ({ s with running := s.running.set k ⟨.leaving, t⟩ }.notifyEventLoop
            cfg.pipeCapacity)
      | _ => none
  | .exit k =>
      match s.running[k]? with
      | some ⟨.leaving, _⟩ =>
          some { s with
            running := s.running.eraseIdx k
            metrics := { s.metrics with workersInFlight := s.metrics.workersInFlight - 1 } }
      | _ => none
  | .requestStop => some { s with stopRequested := true }
  | .stopNotify => if s.stopRequested then some (s.notifyEventLoop cfg.pipeCapacity) else none

/-! ## What a step can be -/

/-- The steps, one constructor for each way to take one. -/
inductive Steps (cfg : Config H) (s : Server) : Act H → Server → Prop where
  | tick (nanos : Nat) : Steps cfg s (.tick nanos) { s with now := s.now + nanos }
  | poll (events : List Event) (hphase : s.phase = .waiting) (hreports : s.Reports events) :
      Steps cfg s (.poll events) { s.disarm events with phase := .batch events }
  | pollFailed (hphase : s.phase = .waiting) :
      Steps cfg s .pollFailed { s with phase := .stopped false }
  | enterPipe {rest : List Event} (hphase : s.phase = .batch (.wakeup :: rest)) :
      Steps cfg s .enter { s with phase := .drainingPipe rest }
  | enterListener {rest : List Event} (hphase : s.phase = .batch (.listener :: rest)) :
      Steps cfg s .enter { s with phase := .accepting rest }
  | clientError (ans : Answers) (fd : Nat) (dir : Direction) (rest : List Event)
      (hphase : s.phase = .batch (.client fd dir true :: rest)) :
      Steps cfg s (.client ans) (({ s with phase := .batch rest } : Server).closeConnection fd .ioError)
  | clientGone {ans : Answers} {fd : Nat} {dir : Direction} {rest : List Event}
      (hphase : s.phase = .batch (.client fd dir false :: rest))
      (hlookup : s.connections.lookup fd = none) :
      Steps cfg s (.client ans) { s with phase := .batch rest }
  | client (ans : Answers) (fd o : Nat) (dir : Direction) (rest : List Event) (x : Session)
      (outcome : Outcome) (hphase : s.phase = .batch (.client fd dir false :: rest))
      (hlookup : s.connections.lookup fd = some o)
      (hreact : (s.objects o).react s.draining cfg.rateLimited (s.overloaded cfg.settings) s.now
        ans o dir = some (x, outcome)) :
      Steps cfg s (.client ans)
        (({ s with phase := .batch rest } : Server).conclude fd o x ans.rearmed outcome)
  | accept (fd : Nat) (clientIp : Bytes) {rest : List Event} (hphase : s.phase = .accepting rest)
      (hlookup : s.connections.lookup fd = none) :
      Steps cfg s (.accept fd clientIp) (s.accept fd clientIp cfg.tls)
  | acceptEnd {rest : List Event} (hphase : s.phase = .accepting rest) :
      Steps cfg s .acceptEnd { s with phase := .batch rest }
  | drainRead {rest : List Event} (hphase : s.phase = .drainingPipe rest) (hpipe : s.pipe ≠ 0) :
      Steps cfg s (.drainRead false) { s with pipe := s.pipe - 256 }
  | drainEnd {rest : List Event} {failed : Bool} (hphase : s.phase = .drainingPipe rest)
      (hend : failed = true ∨ s.pipe = 0) :
      Steps cfg s (.drainRead failed) { s with phase := .swapping rest }
  | swap {rest : List Event} (hphase : s.phase = .swapping rest) :
      Steps cfg s .swap { s with completed := [], phase := .completing s.completed rest }
  | complete (ans : Answers) (c : Completion) (ready : List Completion) (rest : List Event)
      (hphase : s.phase = .completing (c :: ready) rest) :
      Steps cfg s (.complete ans)
        (({ s with phase := .completing ready rest } : Server).processCompletion ans c)
  | completeEnd {ans : Answers} {rest : List Event} (hphase : s.phase = .completing [] rest) :
      Steps cfg s (.complete ans) { s with phase := .batch rest }
  | afterBatch (hphase : s.phase = .batch []) :
      Steps cfg s .afterBatch ((s.beginDrain cfg.settings).cleanup cfg.settings).checkDrain
  | take (t : Task) (tasks : List Task) (htasks : s.tasks = t :: tasks)
      (hthread : s.running.length < cfg.workers) :
      Steps cfg s .take { s with tasks := tasks, running := s.running ++ [⟨.working, t⟩] }
  | work (k : Nat) (env : TaskEnv H) (t : Task) {ending : TaskEnd}
      (pushed : List CompletedResponse) (hk : s.running[k]? = some ⟨.working, t⟩)
      (htask : workerTask env cfg.router t.fd t.conn t.request [] = some (ending, pushed)) :
      Steps cfg s (.work k env) (s.push k t pushed)
  | notify (k : Nat) (t : Task) (hk : s.running[k]? = some ⟨.pushed, t⟩) :
      Steps cfg s (.notify k)
        (({ s with running := s.running.set k ⟨.leaving, t⟩ } : Server).notifyEventLoop
          cfg.pipeCapacity)
  | exit (k : Nat) (t : Task) (hk : s.running[k]? = some ⟨.leaving, t⟩) :
      Steps cfg s (.exit k) { s with
        running := s.running.eraseIdx k
        metrics := { s.metrics with workersInFlight := s.metrics.workersInFlight - 1 } }
  | requestStop : Steps cfg s .requestStop { s with stopRequested := true }
  | stopNotify (hstop : s.stopRequested = true) :
      Steps cfg s .stopNotify (s.notifyEventLoop cfg.pipeCapacity)

/-- What a step can do, guards included: a case for each action and each branch that it may
take. Every invariant is read off here. -/
theorem step_cases {cfg : Config H} {s s' : Server} {a : Act H} (h : step cfg s a = some s') :
    Steps cfg s a s' := by
  -- where the guard of an action fails there is no step
  cases a with
  | tick nanos =>
      cases h
      exact .tick nanos
  | poll events =>
      unfold step at h
      dsimp only at h
      split at h
      next hphase =>
        split at h
        next hreports =>
          cases h
          exact .poll events hphase hreports
        · cases h
      · cases h
  | pollFailed =>
      unfold step at h
      dsimp only at h
      split at h
      next hphase =>
        cases h
        exact .pollFailed hphase
      · cases h
  | enter =>
      unfold step at h
      dsimp only at h
      split at h
      next rest hphase =>
        cases h
        exact .enterPipe hphase
      next rest hphase =>
        cases h
        exact .enterListener hphase
      · cases h
  | client ans =>
      unfold step at h
      dsimp only at h
      split at h
      next fd dir error rest hphase =>
        -- an error event closes; a descriptor that is in no map is passed over
        split at h
        next herror =>
          cases h
          subst herror
          exact .clientError ans fd dir rest hphase
        next herror =>
          rw [Bool.not_eq_true] at herror
          subst herror
          split at h
          next hlookup =>
            cases h
            exact .clientGone hphase hlookup
          next o hlookup =>
            obtain ⟨⟨x, outcome⟩, hreact, rfl⟩ := Option.map_eq_some_iff.1 h
            exact .client ans fd o dir rest x outcome hphase hlookup hreact
      · cases h
  | accept fd clientIp =>
      unfold step at h
      dsimp only at h
      split at h
      next rest hphase =>
        split at h
        next hlookup =>
          cases h
          exact .accept fd clientIp hphase hlookup
        · cases h
      · cases h
  | acceptEnd =>
      unfold step at h
      dsimp only at h
      split at h
      next rest hphase =>
        cases h
        exact .acceptEnd hphase
      · cases h
  | drainRead failed =>
      unfold step at h
      dsimp only at h
      split at h
      next rest hphase =>
        split at h
        next hend =>
          cases h
          exact .drainEnd hphase hend
        next hgo =>
          cases h
          rw [not_or, Bool.not_eq_true] at hgo
          obtain ⟨rfl, hpipe⟩ := hgo
          exact .drainRead hphase hpipe
      · cases h
  | swap =>
      unfold step at h
      dsimp only at h
      split at h
      next rest hphase =>
        cases h
        exact .swap hphase
      · cases h
  | complete ans =>
      unfold step at h
      dsimp only at h
      split at h
      next c ready rest hphase =>
        cases h
        exact .complete ans c ready rest hphase
      next rest hphase =>
        cases h
        exact .completeEnd hphase
      · cases h
  | afterBatch =>
      unfold step at h
      dsimp only at h
      split at h
      next hphase =>
        cases h
        exact .afterBatch hphase
      · cases h
  | take =>
      unfold step at h
      dsimp only at h
      split at h
      · cases h
      next t tasks htasks =>
        split at h
        next hthread =>
          cases h
          exact .take t tasks htasks hthread
        · cases h
  | work k env =>
      unfold step at h
      dsimp only at h
      split at h
      next t hk =>
        -- the task may run into undefined behaviour, and then there is no step
        obtain ⟨⟨ending, pushed⟩, htask, rfl⟩ := Option.map_eq_some_iff.1 h
        exact .work k env t pushed hk htask
      · cases h
  | notify k =>
      unfold step at h
      dsimp only at h
      split at h
      next t hk =>
        cases h
        exact .notify k t hk
      · cases h
  | exit k =>
      unfold step at h
      dsimp only at h
      split at h
      next t hk =>
        cases h
        exact .exit k t hk
      · cases h
  | requestStop =>
      cases h
      exact .requestStop
  | stopNotify =>
      unfold step at h
      dsimp only at h
      split at h
      next hstop =>
        cases h
        exact .stopNotify hstop
      · cases h

end Server

/-- The server as a system: `run` can begin at any time. -/
def serverSystem {H : Type} (cfg : Config H) : Runs.System Server (Act H) where
  Start := fun s => ∃ now, s = Server.start now
  step := Server.step cfg

theorem reachable_of_start {H : Type} {cfg : Config H} {now : Nat} {acts : List (Act H)} {s : Server}
    (h : (serverSystem cfg).run (Server.start now) acts = some s) :
    Runs.Reachable (serverSystem cfg) s :=
  Runs.reachable_of_run (.start ⟨now, rfl⟩) h

/-! ## A small server -/

/-- One route, one thread, and at most one handler at a time. -/
def smallConfig : Config Nat where
  settings := { maxConcurrentHandlers := 1 }
  router := RouterNode.addRoutes [(.get, lit "/", 0)]

/-- Its handler answers with a short text. -/
def smallEnv : TaskEnv Nat where
  middlewares := []
  handlers := fun _ _ res => .returned () (res.json (lit "1"))
  stat := fun _ => none
  compressors := ⟨fun _ => [], fun _ => []⟩
  compressionEnabled := false
  compressionMinBytes := 256
  compressionBrotli := false

/-- These bytes arrive. -/
def arriving : Bytes → RecvResult
  | [] => .wouldBlock
  | first :: rest => .data first rest

/-- A connection is accepted on the socket 7. -/
def acceptOne : List (Act Nat) := [.poll [.listener], .enter, .accept 7 [], .acceptEnd, .afterBatch]

/-- These bytes arrive on it. -/
def receiveOne (bytes : Bytes) : List (Act Nat) :=
  [.poll [.client 7 .read false], .client { recv := arriving bytes }]

def getRequest : Bytes := lit "GET / HTTP/1.1\r\n\r\n"

/-- Its first request is handed over, and answered by the handler. -/
def answerOne : List (Act Nat) :=
  acceptOne ++ receiveOne getRequest ++ [.afterBatch, .take, .work 0 smallEnv]

/-- The socket takes all it is offered. -/
def takeAll : WriteAnswers := { sendHead := .sent 1000, sendBody := .sent 1000 }

/-- The response of a worker is installed. -/
def installOne : List (Act Nat) :=
  [.notify 0, .poll [.wakeup], .enter, .drainRead false, .drainRead false, .swap, .complete {},
    .complete {}]

/-- It is sent, too. -/
def deliverOne : List (Act Nat) :=
  installOne ++ [.afterBatch, .poll [.client 7 .write false], .client { write := takeAll }]

end Oreshnek
