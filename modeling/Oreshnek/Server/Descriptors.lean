import Oreshnek.Lib.Ledger
import Oreshnek.Lib.Runs

/-!
# Descriptors of the server

What `listen`, `run`, `stop` and the destructor do to the descriptors of a server: the
listening socket, the `epoll` instance, the ends of the self-pipe and the accepted
sockets. Each of these calls may come in any order, `stop` and the destructor when no
thread is in `run` (which is what `stop` asks of its caller); any system or OpenSSL call
may fail. Workers, completed responses and `request_stop` take steps in between.

Descriptors are numbered in the order in which they are obtained and a number is not
used again, so that a second `close` shows as one, whatever the number stands for by
then. A field is `none` when it is negative. A connection object goes by the descriptor
it was made for. Events are reported for sockets in `connections_` only
(`Server.Inv.stranger`).

`closed_once` says that each descriptor is closed exactly once, and not used behind
that, in those runs in which `listen` overwrites no open descriptor, `run`, `stop` and
the destructor do not meet one that a failed `listen` has closed by hand, and no TLS
session fails to be created. Each of the excluded steps leaks a descriptor or closes one
again, at once or at the end of `run`.
-/

namespace Oreshnek.Descriptors

/-! ## State -/

inductive Phase where
  /-- No thread is in `run`. -/
  | idle
  /-- At the head of its loop. -/
  | polling
  /-- At the events of one `epoll_wait`. -/
  | batch
  /-- The server has been destroyed. -/
  | gone
deriving DecidableEq

structure Host where
  listenFd : Option Nat := none
  epollFd : Option Nat := none
  wakeupRead : Option Nat := none
  wakeupWrite : Option Nat := none
  running : Bool := false
  draining : Bool := false
  stopRequested : Bool := false
  /-- The pool has been shut down. -/
  poolDown : Bool := false
  phase : Phase := .idle
  /-- `connections_` has the object. -/
  mapped : Nat → Bool := fun _ => false
  /-- The tasks and the completed responses that hold it. -/
  holders : Nat → Nat := fun _ => 0
  /-- Its `socket_fd_` is not negative. -/
  isOpen : Nat → Bool := fun _ => false
  ledger : Ledger := {}

namespace Host

def use (s : Host) (fd : Nat) : Host := { s with ledger := s.ledger.use fd }

/-- A call on a field; on a negative one it fails. -/
def useField (s : Host) : Option Nat → Host
  | none => s
  | some fd => s.use fd

def close (s : Host) (fd : Nat) : Host := { s with ledger := s.ledger.release fd }

def closeField (s : Host) : Option Nat → Host
  | none => s
  | some fd => s.close fd

/-- A call returns a new descriptor, with the number `s.ledger.obtained`. -/
def acquire (s : Host) : Host := { s with ledger := s.ledger.acquire }

/-! ## `listen` -/

end Host

/-- Which of the calls of `listen` succeed. -/
structure ListenAnswers where
  socket : Bool := true
  reuseAddr : Bool := true
  nonBlocking : Bool := true
  /-- The host is an address. -/
  address : Bool := true
  bind : Bool := true
  listen : Bool := true
  epollCreate : Bool := true
  addListener : Bool := true
  pipe : Bool := true
  nonBlockingRead : Bool := true
  nonBlockingWrite : Bool := true
  addWakeup : Bool := true
deriving DecidableEq

namespace Host

/-- `setup_socket`. -/
def setupSocket (s : Host) (ans : ListenAnswers) : Bool × Host :=
  if ¬ ans.socket then (false, { s with listenFd := none })
  else
    let fd := s.ledger.obtained
    let s := { s.acquire with listenFd := some fd }
    -- `SO_REUSEADDR`
    let s := s.use fd
    if ¬ ans.reuseAddr then (false, s.close fd)
    else
      -- `SO_KEEPALIVE`, which may fail, and `set_non_blocking`
      let s := (s.use fd).use fd
      if ¬ ans.nonBlocking then (false, s.close fd)
      else if ¬ ans.address then (false, s.close fd)
      else
        let s := s.use fd
        if ¬ ans.bind then (false, s.close fd)
        else
          let s := s.use fd
          if ¬ ans.listen then (false, s.close fd) else (true, s)

/-- `setup_epoll`. -/
def setupEpoll (s : Host) (ans : ListenAnswers) : Bool × Host :=
  if ¬ ans.epollCreate then (false, { s with epollFd := none })
  else
    let fd := s.ledger.obtained
    let s := { s.acquire with epollFd := some fd }
    let s := (s.use fd).useField s.listenFd
    if ¬ ans.addListener then (false, s.close fd) else (true, s)

/-- `setup_wakeup`. -/
def setupWakeup (s : Host) (ans : ListenAnswers) : Bool × Host :=
  if ¬ ans.pipe then (false, s)
  else
    let r := s.ledger.obtained
    let s := { s.acquire with wakeupRead := some r }
    let w := s.ledger.obtained
    let s := { s.acquire with wakeupWrite := some w }
    let s := s.use r
    if ¬ ans.nonBlockingRead then (false, s)
    else
      let s := s.use w
      if ¬ ans.nonBlockingWrite then (false, s)
      else
        let s := (s.useField s.epollFd).use r
        if ¬ ans.addWakeup then (false, s) else (true, s)

/-- `listen`. -/
def listen (s : Host) (ans : ListenAnswers) : Host :=
  let (ready, s) := s.setupSocket ans
  if ¬ ready then s
  else
    let (ready, s) := s.setupEpoll ans
    if ¬ ready then s.closeField s.listenFd
    else
      let (ready, s) := s.setupWakeup ans
      if ¬ ready then s else { s with running := true }

/-! ## Connections -/

/-- The objects that `p` names lose their last owner, and close their sockets. -/
def destroyAll (s : Host) (p : Nat → Bool) : Host :=
  { s with
    ledger := s.ledger.releaseAll fun o => p o && s.isOpen o
    isOpen := fun o => s.isOpen o && !p o }

/-- `Connection::close_connection`, which the destructor calls, too. -/
def closeObject (s : Host) (o : Nat) : Host := s.destroyAll fun o' => decide (o' = o)

/-- `Server::close_connection`. -/
def closeConnection (s : Host) (fd : Nat) : Host :=
  let s := if s.epollFd.isSome then (s.useField s.epollFd).use fd else s
  if s.mapped fd then
    { s with mapped := Function.update s.mapped fd false }.closeObject fd
  else s

/-- A callback, a completed response or a timeout works on a connection, and may close
it. -/
def serve (s : Host) (fd : Nat) (closes : Bool) : Host :=
  if ¬ s.isOpen fd then s.closeConnection fd
  else
    let s := (s.use fd).useField s.epollFd
    if closes then s.closeConnection fd else s

end Host

/-- Which of the calls for an accepted socket succeed. -/
structure AcceptAnswers where
  accept : Bool := true
  nonBlocking : Bool := true
  epollAdd : Bool := true
  newSession : Bool := true
deriving DecidableEq

namespace Host

/-- One turn of the loop of `handle_new_connection`. -/
def handleNewConnection (s : Host) (tls : Bool) (ans : AcceptAnswers) : Host :=
  let s := s.useField s.listenFd
  if ¬ ans.accept then s
  else
    let fd := s.ledger.obtained
    let s := s.acquire
    let s := s.use fd
    if ¬ ans.nonBlocking then s.close fd
    else
      let s := (s.useField s.epollFd).use fd
      if ¬ ans.epollAdd then s.close fd
      else
        -- the `Connection`, in a local `shared_ptr`
        let s := { s with isOpen := Function.update s.isOpen fd true }
        if tls ∧ ¬ ans.newSession then (s.close fd).closeObject fd
        else { s with mapped := Function.update s.mapped fd true }

/-- A task or a completed response lets go of its connection. -/
def releaseHolder (s : Host) (o : Nat) : Host :=
  let s := { s with holders := Function.update s.holders o (s.holders o - 1) }
  if s.holders o = 0 ∧ ¬ s.mapped o then s.closeObject o else s

/-! ## `run`, `stop` and the destructor -/

/-- `connections_.clear()`. -/
def clearConnections (s : Host) : Host :=
  let s' := s.destroyAll fun o => s.mapped o && decide (s.holders o = 0)
  { s' with mapped := fun _ => false }

/-- `if (fd >= 0) { close(fd); fd = -1; }` for the `epoll` instance and the listening
socket. -/
def closeLoop (s : Host) : Host :=
  let s := { s.closeField s.epollFd with epollFd := none }
  { s.closeField s.listenFd with listenFd := none }

/-- The end of `run`. -/
def teardown (s : Host) : Host := { s.clearConnections.closeLoop with phase := .idle }

/-- `stop_accepting`. -/
def stopAccepting (s : Host) : Host :=
  match s.listenFd with
  | none => s
  | some fd =>
      let s := if s.epollFd.isSome then (s.useField s.epollFd).use fd else s
      { s.close fd with listenFd := none }

/-- What `run` does behind the events: `timedOut` are the sockets that
`enforce_timeouts` closes, `ended` tells that a drain ends. -/
def endBatch (s : Host) (timedOut : List Nat) (ended : Bool) : Host :=
  let s := if ¬ s.draining ∧ s.stopRequested then { s with draining := true }.stopAccepting else s
  let s := timedOut.foldl (fun s fd => if s.mapped fd then s.serve fd true else s) s
  { s with
    running := s.running && !(s.draining && ended)
    phase := .polling }

/-- `request_stop`. -/
def requestStop (s : Host) : Host := { s with stopRequested := true }.useField s.wakeupWrite

/-- `stop`. -/
def stop (s : Host) : Host :=
  let s := { s.requestStop with poolDown := true }
  let s := s.clearConnections.closeLoop
  let s := { s.closeField s.wakeupRead with wakeupRead := none }
  { s.closeField s.wakeupWrite with wakeupWrite := none }

/-- `~Server`: behind `stop`, the completed responses go with the other members. -/
def destroy (s : Host) : Host :=
  let s := s.stop
  let s' := s.destroyAll fun o => decide (0 < s.holders o)
  { s' with holders := fun _ => 0, phase := .gone }

end Host

/-! ## Runs -/

inductive Act where
  | listen (ans : ListenAnswers)
  | run
  /-- `epoll_wait`, when `running_` is set. -/
  | poll (success : Bool)
  /-- The loop is left, when it is not. -/
  | leave
  | accept (ans : AcceptAnswers)
  /-- `drain_wakeup`. -/
  | drainWakeup
  | serve (fd : Nat) (closes : Bool)
  /-- The request of a connection is handed over to the pool. -/
  | handOver (fd : Nat)
  | endBatch (timedOut : List Nat) (ended : Bool)
  /-- `enqueue` throws behind a shutdown, and `run` with it. -/
  | throw
  | releaseHolder (o : Nat)
  /-- `notify_event_loop`, by a worker. -/
  | notify
  | requestStop
  | stop
  | destroy
deriving DecidableEq

def step (tls : Bool) (s : Host) : Act → Option Host
  | .listen ans => if s.phase = .idle then some (s.listen ans) else none
  | .run => if s.phase = .idle then some { s with phase := .polling, draining := false } else none
  | .poll success =>
      if s.phase = .polling ∧ s.running then
        let s := s.useField s.epollFd
        if success ∧ s.epollFd.isSome then some { s with phase := .batch }
        else some { s with running := false }.teardown
      else none
  | .leave => if s.phase = .polling ∧ ¬ s.running then some s.teardown else none
  | .accept ans =>
      if s.phase = .batch ∧ s.listenFd.isSome then some (s.handleNewConnection tls ans) else none
  | .drainWakeup => if s.phase = .batch then some (s.useField s.wakeupRead) else none
  | .serve fd closes => if s.phase = .batch ∧ s.mapped fd then some (s.serve fd closes) else none
  | .handOver fd =>
      if s.phase = .batch ∧ s.mapped fd then
        some { s with holders := Function.update s.holders fd (s.holders fd + 1) }
      else none
  | .endBatch timedOut ended =>
      if s.phase = .batch then some (s.endBatch timedOut ended) else none
  | .throw => if s.phase = .batch ∧ s.poolDown then some { s with phase := .idle } else none
  | .releaseHolder o =>
      if s.phase ≠ .gone ∧ 0 < s.holders o then some (s.releaseHolder o) else none
  | .notify =>
      if s.phase ≠ .gone ∧ ¬ s.poolDown then some (s.useField s.wakeupWrite) else none
  | .requestStop => if s.phase ≠ .gone then some s.requestStop else none
  | .stop => if s.phase = .idle then some s.stop else none
  | .destroy => if s.phase = .idle then some s.destroy else none

def system (tls : Bool) : Runs.System Host Act where
  Start := fun s => s = {}
  step := step tls

/-! ## Owners -/

namespace Host

/-- A field holds a descriptor that has not been closed. -/
def inHand (s : Host) (f : Option Nat) : Bool := f.any fun fd => s.ledger.released fd == 0

/-- A field holds a descriptor that has been closed. -/
def stale (s : Host) (f : Option Nat) : Bool := f.any fun fd => s.ledger.released fd != 0

/-- Whether a field holds a descriptor, as a number. -/
def holds (f : Option Nat) (d : Nat) : Nat := if f = some d then 1 else 0

/-- The fields and open sockets that stand for a descriptor; `l` and `e` are the listening
socket and the `epoll` instance, when they are open. -/
def owners (s : Host) (l e : Option Nat) (d : Nat) : Nat :=
  holds l d + holds e d + holds s.wakeupRead d + holds s.wakeupWrite d +
    if s.isOpen d then 1 else 0

/-- Each descriptor is closed or has one owner, up to a stale `listen_fd_` or `epoll_fd_`. -/
structure Owned (s : Host) (l e : Option Nat) : Prop where
  balanced : s.ledger.Balanced (s.owners l e)
  mapped_open : ∀ d, s.mapped d = true → s.isOpen d = true
  held : ∀ d, s.isOpen d = true → s.mapped d = true ∨ 0 < s.holders d
  listener : l = s.listenFd ∨ l = none ∧ s.stale s.listenFd = true
  poller : e = s.epollFd ∨ e = none ∧ s.stale s.epollFd = true

/-- `Owned`, with no stale field. -/
def Tidy (s : Host) : Prop := s.Owned s.listenFd s.epollFd

theorem holds_self (d : Nat) : holds (some d) d = 1 := if_pos rfl

theorem holds_none (d : Nat) : holds none d = 0 := if_neg nofun

theorem holds_some (fd d : Nat) : holds (some fd) d = if d = fd then 1 else 0 := by
  unfold holds
  by_cases hd : d = fd
  · rw [if_pos (congrArg some hd.symm), if_pos hd]
  · rw [if_neg (fun heq => hd (Option.some.inj heq).symm), if_neg hd]

variable {s : Host} {l e : Option Nat} {fd d : Nat}

theorem owners_listener (h : l = some fd) : 0 < s.owners l e fd := by
  unfold owners
  rw [h, holds_self]
  omega

theorem owners_poller (h : e = some fd) : 0 < s.owners l e fd := by
  unfold owners
  rw [h, holds_self]
  omega

theorem owners_wakeupRead (h : s.wakeupRead = some fd) : 0 < s.owners l e fd := by
  unfold owners
  rw [h, holds_self]
  omega

theorem owners_wakeupWrite (h : s.wakeupWrite = some fd) : 0 < s.owners l e fd := by
  unfold owners
  rw [h, holds_self]
  omega

theorem owners_socket (h : s.isOpen fd = true) : 0 < s.owners l e fd := by
  unfold owners
  rw [if_pos h]
  omega

/-- A field that holds no closed descriptor is what the owners say. -/
theorem Owned.tidy (h : s.Owned l e) (hlisten : s.stale s.listenFd = false)
    (hepoll : s.stale s.epollFd = false) : s.Tidy := by
  have hl : l = s.listenFd := by
    rcases h.listener with heq | ⟨-, hstale⟩
    · exact heq
    · rw [hlisten] at hstale
      cases hstale
  have he : e = s.epollFd := by
    rcases h.poller with heq | ⟨-, hstale⟩
    · exact heq
    · rw [hepoll] at hstale
      cases hstale
  rw [hl, he] at h
  exact h

theorem not_inHand_owner (h : s.ledger.Balanced (s.owners l e)) {f : Option Nat}
    (hfree : s.inHand f = false) (howned : ∀ fd, f = some fd → 0 < s.owners l e fd) : f = none := by
  cases f with
  | none => rfl
  | some fd =>
      have hopen := (h.owned (howned fd rfl)).2
      have : s.inHand (some fd) = true := beq_iff_eq.2 hopen
      rw [hfree] at this
      cases this

theorem Owned.listener_none (h : s.Owned l e) (hfree : s.inHand s.listenFd = false) : l = none := by
  rcases h.listener with heq | ⟨hnone, -⟩
  · rw [heq]
    rw [heq] at h
    exact not_inHand_owner h.balanced hfree fun _ => owners_listener
  · exact hnone

theorem Owned.poller_none (h : s.Owned l e) (hfree : s.inHand s.epollFd = false) : e = none := by
  rcases h.poller with heq | ⟨hnone, -⟩
  · rw [heq]
    rw [heq] at h
    exact not_inHand_owner h.balanced hfree fun _ => owners_poller
  · exact hnone

/-! ### System calls -/

/-- What is stale stays so. -/
theorem stale_mono {s' : Host} (hle : ∀ d, s.ledger.released d ≤ s'.ledger.released d)
    {f : Option Nat} (h : s.stale f = true) : s'.stale f = true := by
  cases f with
  | none => cases h
  | some fd =>
      have hs : s.ledger.released fd ≠ 0 := bne_iff_ne.1 h
      have := hle fd
      exact bne_iff_ne.2 (by omega)

theorem stale_close (s : Host) (fd : Nat) : (s.close fd).stale (some fd) = true := by
  have hreleased : (s.close fd).ledger.released fd = s.ledger.released fd + 1 := by
    unfold close Ledger.release Ledger.releaseAll
    dsimp only
    rw [if_pos (decide_eq_true rfl)]
  exact bne_iff_ne.2 (by rw [hreleased]; omega)

theorem released_close (s : Host) (fd d : Nat) :
    s.ledger.released d ≤ (s.close fd).ledger.released d := Nat.le_add_right _ _

@[simp] theorem useField_listenFd (s : Host) (f : Option Nat) :
    (s.useField f).listenFd = s.listenFd := by cases f <;> rfl

@[simp] theorem useField_epollFd (s : Host) (f : Option Nat) :
    (s.useField f).epollFd = s.epollFd := by cases f <;> rfl

@[simp] theorem useField_wakeupRead (s : Host) (f : Option Nat) :
    (s.useField f).wakeupRead = s.wakeupRead := by cases f <;> rfl

@[simp] theorem useField_wakeupWrite (s : Host) (f : Option Nat) :
    (s.useField f).wakeupWrite = s.wakeupWrite := by cases f <;> rfl

@[simp] theorem useField_isOpen (s : Host) (f : Option Nat) :
    (s.useField f).isOpen = s.isOpen := by cases f <;> rfl

@[simp] theorem useField_mapped (s : Host) (f : Option Nat) :
    (s.useField f).mapped = s.mapped := by cases f <;> rfl

@[simp] theorem useField_holders (s : Host) (f : Option Nat) :
    (s.useField f).holders = s.holders := by cases f <;> rfl

@[simp] theorem useField_phase (s : Host) (f : Option Nat) :
    (s.useField f).phase = s.phase := by cases f <;> rfl

theorem Owned.use (h : s.Owned l e) (howned : 0 < s.owners l e fd) : (s.use fd).Owned l e where
  balanced := h.balanced.use howned
  mapped_open := h.mapped_open
  held := h.held
  listener := h.listener
  poller := h.poller

theorem Owned.useField (h : s.Owned l e) {f : Option Nat}
    (howned : ∀ fd, f = some fd → 0 < s.owners l e fd) : (s.useField f).Owned l e := by
  cases f with
  | none => exact h
  | some fd => exact h.use (howned fd rfl)

@[simp] theorem closeField_listenFd (s : Host) (f : Option Nat) :
    (s.closeField f).listenFd = s.listenFd := by cases f <;> rfl

@[simp] theorem closeField_epollFd (s : Host) (f : Option Nat) :
    (s.closeField f).epollFd = s.epollFd := by cases f <;> rfl

@[simp] theorem closeField_wakeupRead (s : Host) (f : Option Nat) :
    (s.closeField f).wakeupRead = s.wakeupRead := by cases f <;> rfl

@[simp] theorem closeField_wakeupWrite (s : Host) (f : Option Nat) :
    (s.closeField f).wakeupWrite = s.wakeupWrite := by cases f <;> rfl

@[simp] theorem closeField_mapped (s : Host) (f : Option Nat) :
    (s.closeField f).mapped = s.mapped := by cases f <;> rfl

@[simp] theorem closeField_phase (s : Host) (f : Option Nat) :
    (s.closeField f).phase = s.phase := by cases f <;> rfl

/-- The owner of a descriptor closes it. -/
theorem balanced_close {own own' : Nat → Nat} (h : s.ledger.Balanced own)
    (hsplit : ∀ d, own d = holds (some fd) d + own' d) :
    (s.close fd).ledger.Balanced own' := by
  have hself : 0 < own fd := by
    rw [hsplit, holds_self]
    omega
  apply h.release hself
  intro d
  have hle := h.owners_le d
  rw [hsplit d, holds_some] at *
  by_cases hd : d = fd
  · rw [if_pos hd] at hle ⊢
    omega
  · rw [if_neg hd, if_neg hd]
    omega

theorem listener_field (h : s.Owned (some fd) e) : s.listenFd = some fd := by
  rcases h.listener with heq | ⟨hnone, -⟩
  · exact heq.symm
  · cases hnone

theorem poller_field (h : s.Owned l (some fd)) : s.epollFd = some fd := by
  rcases h.poller with heq | ⟨hnone, -⟩
  · exact heq.symm
  · cases hnone

/-- A stale field stays stale when a descriptor is closed. -/
theorem Owned.listener_close (h : s.Owned l e) (fd : Nat) :
    l = s.listenFd ∨ l = none ∧ (s.close fd).stale s.listenFd = true := by
  rcases h.listener with heq | ⟨hnone, hstale⟩
  · exact Or.inl heq
  · exact Or.inr ⟨hnone, stale_mono (released_close s fd) hstale⟩

theorem Owned.poller_close (h : s.Owned l e) (fd : Nat) :
    e = s.epollFd ∨ e = none ∧ (s.close fd).stale s.epollFd = true := by
  rcases h.poller with heq | ⟨hnone, hstale⟩
  · exact Or.inl heq
  · exact Or.inr ⟨hnone, stale_mono (released_close s fd) hstale⟩

/-- The listening socket is closed; `listen_fd_` keeps its number. -/
theorem Owned.closeListener (h : s.Owned (some fd) e) : (s.close fd).Owned none e where
  balanced := by
    apply balanced_close h.balanced
    intro d
    change s.owners (some fd) e d = _ + s.owners none e d
    unfold owners
    rw [holds_none]
    omega
  mapped_open := h.mapped_open
  held := h.held
  listener := by
    right
    refine ⟨rfl, ?_⟩
    change (s.close fd).stale s.listenFd = true
    rw [listener_field h]
    exact stale_close s fd
  poller := h.poller_close fd

/-- The `epoll` instance is closed; `epoll_fd_` keeps its number. -/
theorem Owned.closePoller (h : s.Owned l (some fd)) : (s.close fd).Owned l none where
  balanced := by
    apply balanced_close h.balanced
    intro d
    change s.owners l (some fd) d = _ + s.owners l none d
    unfold owners
    rw [holds_none]
    omega
  mapped_open := h.mapped_open
  held := h.held
  listener := h.listener_close fd
  poller := by
    right
    refine ⟨rfl, ?_⟩
    change (s.close fd).stale s.epollFd = true
    rw [poller_field h]
    exact stale_close s fd

theorem Owned.dropListener (h : s.Owned none e) : Owned { s with listenFd := none } none e where
  balanced := h.balanced
  mapped_open := h.mapped_open
  held := h.held
  listener := Or.inl rfl
  poller := h.poller

theorem Owned.dropPoller (h : s.Owned l none) : Owned { s with epollFd := none } l none where
  balanced := h.balanced
  mapped_open := h.mapped_open
  held := h.held
  listener := h.listener
  poller := Or.inl rfl

/-- A new descriptor has no owner yet. -/
theorem owners_obtained (h : s.Owned l e) : s.owners l e s.ledger.obtained = 0 :=
  (h.balanced.fresh _ (Nat.le_refl _)).2

/-- The field that a new descriptor is assigned to owns it. -/
theorem balanced_acquire (h : s.Owned l e) {own : Nat → Nat}
    (hsplit : ∀ d, own d = holds (some s.ledger.obtained) d + s.owners l e d) :
    s.acquire.ledger.Balanced own := by
  apply h.balanced.acquire
  intro d
  rw [hsplit, holds_some]
  by_cases hd : d = s.ledger.obtained
  · rw [if_pos hd, if_pos hd, hd, owners_obtained h]
  · rw [if_neg hd, if_neg hd, Nat.zero_add]

theorem Owned.acquireListener (h : s.Owned none e) :
    Owned { s.acquire with listenFd := some s.ledger.obtained } (some s.ledger.obtained) e where
  balanced := by
    apply balanced_acquire h
    intro d
    unfold owners
    rw [holds_none]
    unfold acquire
    dsimp only
    omega
  mapped_open := h.mapped_open
  held := h.held
  listener := Or.inl rfl
  poller := h.poller

theorem Owned.acquirePoller (h : s.Owned l none) :
    Owned { s.acquire with epollFd := some s.ledger.obtained } l (some s.ledger.obtained) where
  balanced := by
    apply balanced_acquire h
    intro d
    unfold owners
    rw [holds_none]
    unfold acquire
    dsimp only
    omega
  mapped_open := h.mapped_open
  held := h.held
  listener := h.listener
  poller := Or.inl rfl

theorem Owned.acquireWakeupRead (h : s.Owned l e) (hfree : s.wakeupRead = none) :
    Owned { s.acquire with wakeupRead := some s.ledger.obtained } l e where
  balanced := by
    apply balanced_acquire h
    intro d
    unfold owners
    rw [hfree, holds_none]
    unfold acquire
    dsimp only
    omega
  mapped_open := h.mapped_open
  held := h.held
  listener := h.listener
  poller := h.poller

theorem Owned.acquireWakeupWrite (h : s.Owned l e) (hfree : s.wakeupWrite = none) :
    Owned { s.acquire with wakeupWrite := some s.ledger.obtained } l e where
  balanced := by
    apply balanced_acquire h
    intro d
    unfold owners
    rw [hfree, holds_none]
    unfold acquire
    dsimp only
    omega
  mapped_open := h.mapped_open
  held := h.held
  listener := h.listener
  poller := h.poller

/-! ### `listen` -/

end Host

/-- `setup_socket` succeeds. -/
def ListenAnswers.bound (ans : ListenAnswers) : Bool :=
  ans.socket && ans.reuseAddr && ans.nonBlocking && ans.address && ans.bind && ans.listen

/-- `setup_epoll` succeeds, and `pipe` does. -/
def ListenAnswers.piped (ans : ListenAnswers) : Bool :=
  ans.epollCreate && ans.addListener && ans.pipe

/-- No step of `listen` before the pipe loses an open descriptor. -/
def Host.mayListen (s : Host) (ans : ListenAnswers) : Bool :=
  !s.inHand s.listenFd && (!ans.bound ||
    !s.inHand s.epollFd && (!ans.piped || s.wakeupRead.isNone && s.wakeupWrite.isNone))

namespace Host

variable {s : Host} {l e : Option Nat} {fd d : Nat} {ans : ListenAnswers}

/-- `setup_socket` fails, behind `socket` with the descriptor closed by hand. -/
theorem setupSocket_failed (h : s.Owned none e) (hfail : ans.bound = false) :
    ∃ s', s.setupSocket ans = (false, s') ∧ s'.Owned none e ∧ s'.phase = s.phase := by
  unfold ListenAnswers.bound at hfail
  unfold setupSocket
  dsimp only
  by_cases hsocket : ans.socket = true
  · rw [if_neg (not_not.2 hsocket)]
    have h₁ := h.acquireListener.use (owners_listener rfl)
    by_cases hreuse : ans.reuseAddr = true
    · rw [if_neg (not_not.2 hreuse)]
      have h₂ := (h₁.use (owners_listener rfl)).use (owners_listener rfl)
      by_cases hnb : ans.nonBlocking = true
      · rw [if_neg (not_not.2 hnb)]
        by_cases haddress : ans.address = true
        · rw [if_neg (not_not.2 haddress)]
          have h₃ := h₂.use (owners_listener rfl)
          by_cases hbind : ans.bind = true
          · rw [if_neg (not_not.2 hbind)]
            have h₄ := h₃.use (owners_listener rfl)
            have hlisten : ¬ ans.listen = true := by
              intro hlisten
              rw [hsocket, hreuse, hnb, haddress, hbind, hlisten] at hfail
              cases hfail
            rw [if_pos hlisten]
            exact ⟨_, rfl, h₄.closeListener, rfl⟩
          · rw [if_pos hbind]
            exact ⟨_, rfl, h₃.closeListener, rfl⟩
        · rw [if_pos haddress]
          exact ⟨_, rfl, h₂.closeListener, rfl⟩
      · rw [if_pos hnb]
        exact ⟨_, rfl, h₂.closeListener, rfl⟩
    · rw [if_pos hreuse]
      exact ⟨_, rfl, h₁.closeListener, rfl⟩
  · rw [if_pos hsocket]
    exact ⟨_, rfl, h.dropListener, rfl⟩

theorem setupSocket_bound (h : s.Owned none e) (hbound : ans.bound = true) :
    ∃ fd s', s.setupSocket ans = (true, s') ∧ s'.Owned (some fd) e ∧
      s'.wakeupRead = s.wakeupRead ∧ s'.wakeupWrite = s.wakeupWrite ∧ s'.phase = s.phase := by
  unfold ListenAnswers.bound at hbound
  simp only [Bool.and_eq_true] at hbound
  obtain ⟨⟨⟨⟨⟨hsocket, hreuse⟩, hnb⟩, haddress⟩, hbind⟩, hlisten⟩ := hbound
  unfold setupSocket
  dsimp only
  rw [if_neg (not_not.2 hsocket), if_neg (not_not.2 hreuse), if_neg (not_not.2 hnb),
    if_neg (not_not.2 haddress), if_neg (not_not.2 hbind), if_neg (not_not.2 hlisten)]
  have h₁ := h.acquireListener.use (owners_listener rfl)
  have h₂ := (h₁.use (owners_listener rfl)).use (owners_listener rfl)
  have h₃ := (h₂.use (owners_listener rfl)).use (owners_listener rfl)
  exact ⟨_, _, rfl, h₃, rfl, rfl, rfl⟩

/-- `setup_epoll` fails, behind `epoll_create1` with the instance closed by hand. -/
theorem setupEpoll_failed (h : s.Owned l none) (hl : l = s.listenFd)
    (hfail : (ans.epollCreate && ans.addListener) = false) :
    ∃ s', s.setupEpoll ans = (false, s') ∧ s'.Owned l none ∧ s'.listenFd = s.listenFd ∧
      s'.phase = s.phase := by
  unfold setupEpoll
  dsimp only
  by_cases hcreate : ans.epollCreate = true
  · have hadd : ¬ ans.addListener = true := by
      intro hadd
      rw [hcreate, hadd] at hfail
      cases hfail
    rw [if_neg (not_not.2 hcreate), if_pos hadd]
    have h₁ := h.acquirePoller.use (owners_poller rfl)
    have h₂ := h₁.useField fun _ hfd => owners_listener (hl.trans hfd)
    exact ⟨_, rfl, h₂.closePoller, useField_listenFd _ _, useField_phase _ _⟩
  · rw [if_pos hcreate]
    exact ⟨_, rfl, h.dropPoller, rfl, rfl⟩

theorem setupEpoll_added (h : s.Owned l none) (hl : l = s.listenFd)
    (hcreate : ans.epollCreate = true) (hadd : ans.addListener = true) :
    ∃ fd s', s.setupEpoll ans = (true, s') ∧ s'.Owned l (some fd) ∧ s'.listenFd = s.listenFd ∧
      s'.wakeupRead = s.wakeupRead ∧ s'.wakeupWrite = s.wakeupWrite ∧ s'.phase = s.phase := by
  unfold setupEpoll
  dsimp only
  rw [if_neg (not_not.2 hcreate), if_neg (not_not.2 hadd)]
  have h₁ := h.acquirePoller.use (owners_poller rfl)
  have h₂ := h₁.useField fun _ hfd => owners_listener (hl.trans hfd)
  exact ⟨_, _, rfl, h₂, useField_listenFd _ _, useField_wakeupRead _ _,
    useField_wakeupWrite _ _, useField_phase _ _⟩

/-- However far it gets, `setup_wakeup` leaves the ends of the pipe in their fields. -/
theorem setupWakeup_owned (h : s.Owned l e) (he : e = s.epollFd)
    (hfree : ans.pipe = true → s.wakeupRead = none ∧ s.wakeupWrite = none) :
    (s.setupWakeup ans).2.Owned l e ∧ (s.setupWakeup ans).2.phase = s.phase := by
  unfold setupWakeup
  dsimp only
  by_cases hpipe : ans.pipe = true
  · obtain ⟨hread, hwrite⟩ := hfree hpipe
    rw [if_neg (not_not.2 hpipe)]
    have h₁ := (h.acquireWakeupRead hread).acquireWakeupWrite hwrite
    have h₂ := h₁.use (owners_wakeupRead rfl)
    by_cases hnbRead : ans.nonBlockingRead = true
    · rw [if_neg (not_not.2 hnbRead)]
      have h₃ := h₂.use (owners_wakeupWrite rfl)
      by_cases hnbWrite : ans.nonBlockingWrite = true
      · rw [if_neg (not_not.2 hnbWrite)]
        have h₄ := h₃.useField (f := s.epollFd) fun _ hfd => owners_poller (he.trans hfd)
        have h₅ := h₄.use (owners_wakeupRead (useField_wakeupRead _ _))
        by_cases hadd : ans.addWakeup = true
        · rw [if_neg (not_not.2 hadd)]
          exact ⟨h₅, useField_phase _ _⟩
        · rw [if_pos hadd]
          exact ⟨h₅, useField_phase _ _⟩
      · rw [if_pos hnbWrite]
        exact ⟨h₃, rfl⟩
    · rw [if_pos hnbRead]
      exact ⟨h₂, rfl⟩
  · rw [if_pos hpipe]
    exact ⟨h, rfl⟩

/-- Whatever fails in `listen`, each descriptor is in one field or closed. -/
theorem listen_owned (h : s.Owned l e) (hmay : s.mayListen ans = true) :
    (∃ l' e', (s.listen ans).Owned l' e') ∧ (s.listen ans).phase = s.phase := by
  unfold Host.mayListen at hmay
  rw [Bool.and_eq_true, Bool.not_eq_true'] at hmay
  obtain ⟨hlisten, hmay⟩ := hmay
  rw [h.listener_none hlisten] at h
  unfold listen
  cases hbound : ans.bound with
  | false =>
      obtain ⟨s₁, heq, h₁, hphase⟩ := setupSocket_failed h hbound
      rw [heq]
      exact ⟨⟨_, _, h₁⟩, hphase⟩
  | true =>
      rw [hbound, Bool.not_true, Bool.false_or, Bool.and_eq_true, Bool.not_eq_true'] at hmay
      obtain ⟨hepoll, hmay⟩ := hmay
      rw [h.poller_none hepoll] at h
      obtain ⟨fd, s₁, heq, h₁, hread, hwrite, hphase⟩ := setupSocket_bound h hbound
      have hfd := listener_field h₁
      rw [heq]
      dsimp only
      rw [if_neg (not_not.2 rfl)]
      cases hadded : ans.epollCreate && ans.addListener with
      | false =>
          -- both are closed by hand
          obtain ⟨s₂, heq, h₂, hlistenFd, hphase'⟩ := setupEpoll_failed h₁ hfd.symm hadded
          rw [heq]
          dsimp only
          rw [if_pos Bool.false_ne_true, hlistenFd, hfd]
          exact ⟨⟨_, _, h₂.closeListener⟩, hphase'.trans hphase⟩
      | true =>
          have hadded' := Bool.and_eq_true_iff.1 hadded
          obtain ⟨efd, s₂, heq, h₂, hlistenFd, hread', hwrite', hphase'⟩ :=
            setupEpoll_added h₁ hfd.symm hadded'.1 hadded'.2
          rw [heq]
          dsimp only
          rw [if_neg (not_not.2 rfl)]
          have hfree : ans.pipe = true → s₂.wakeupRead = none ∧ s₂.wakeupWrite = none := by
            intro hpipe
            unfold ListenAnswers.piped at hmay
            rw [hadded, hpipe, Bool.and_true, Bool.not_true, Bool.false_or, Bool.and_eq_true,
              Option.isNone_iff_eq_none, Option.isNone_iff_eq_none] at hmay
            exact ⟨hread'.trans (hread.trans hmay.1), hwrite'.trans (hwrite.trans hmay.2)⟩
          obtain ⟨h₃, hphase''⟩ := setupWakeup_owned h₂ (poller_field h₂).symm hfree
          have hphases := hphase''.trans (hphase'.trans hphase)
          generalize s₂.setupWakeup ans = r at h₃ hphases
          rcases r with ⟨ready, s₃⟩
          cases ready with
          | false => exact ⟨⟨_, _, h₃⟩, hphases⟩
          | true =>
              exact ⟨⟨_, _, ⟨h₃.balanced, h₃.mapped_open, h₃.held, h₃.listener, h₃.poller⟩⟩,
                hphases⟩

/-! ### Connections -/

theorem released_destroyAll (s : Host) (p : Nat → Bool) (d : Nat) :
    s.ledger.released d ≤ (s.destroyAll p).ledger.released d := Nat.le_add_right _ _

/-- Objects that are destroyed close what they own, each once. -/
theorem balanced_destroyAll (h : s.Owned l e) (p : Nat → Bool) :
    (s.destroyAll p).ledger.Balanced ((s.destroyAll p).owners l e) := by
  apply h.balanced.releaseAll
  · intro d hd
    exact owners_socket (Bool.and_eq_true_iff.1 hd).2
  · intro d
    have hle := h.balanced.owners_le d
    have hopen : (s.destroyAll p).isOpen d = (s.isOpen d && !p d) := rfl
    unfold owners at hle ⊢
    rw [hopen]
    change holds l d + holds e d + holds s.wakeupRead d + holds s.wakeupWrite d + _ = _
    cases hp : p d with
    | false => rw [Bool.not_false, Bool.and_true, Bool.false_and, if_neg Bool.false_ne_true]
    | true =>
        rw [Bool.not_true, Bool.and_false, Bool.true_and, if_neg Bool.false_ne_true]
        cases hs : s.isOpen d with
        | false => rfl
        | true =>
            rw [hs, if_pos rfl] at hle
            rw [if_pos rfl]
            omega

/-- Objects are destroyed that `connections_` does not have any more; those that are left
are in `connections_` or are held. -/
theorem Owned.destroyAll (h : s.Owned l e) {p m : Nat → Bool} {n : Nat → Nat}
    (hmapped : ∀ o, m o = true → s.mapped o = true ∧ p o = false)
    (hheld : ∀ o, s.isOpen o = true → p o = false → m o = true ∨ 0 < n o) :
    Owned { s.destroyAll p with mapped := m, holders := n } l e where
  balanced := balanced_destroyAll h p
  mapped_open := by
    intro o ho
    obtain ⟨hs, hp⟩ := hmapped o ho
    change (s.isOpen o && !p o) = true
    rw [h.mapped_open o hs, hp]
    rfl
  held := by
    intro o ho
    have ho : (s.isOpen o && !p o) = true := ho
    rw [Bool.and_eq_true, Bool.not_eq_true'] at ho
    exact hheld o ho.1 ho.2
  listener := by
    rcases h.listener with heq | ⟨hnone, hstale⟩
    · exact Or.inl heq
    · exact Or.inr ⟨hnone, stale_mono (released_destroyAll s p) hstale⟩
  poller := by
    rcases h.poller with heq | ⟨hnone, hstale⟩
    · exact Or.inl heq
    · exact Or.inr ⟨hnone, stale_mono (released_destroyAll s p) hstale⟩

/-- Destroying the connections leaves the other owners. -/
theorem clearConnections_owned (h : s.Owned l e) : s.clearConnections.Owned l e := by
  apply h.destroyAll
  · intro o ho
    cases ho
  · intro o hopen hp
    right
    rcases h.held o hopen with hmapped | hheld
    · rw [hmapped, Bool.true_and, decide_eq_false_iff_not] at hp
      exact Nat.pos_of_ne_zero hp
    · exact hheld

/-- A task that ends closes the object that it held last. -/
theorem releaseHolder_owned (h : s.Owned l e) (o : Nat) :
    (s.releaseHolder o).Owned l e ∧ (s.releaseHolder o).listenFd = s.listenFd ∧
      (s.releaseHolder o).epollFd = s.epollFd ∧ (s.releaseHolder o).phase = s.phase := by
  unfold releaseHolder
  dsimp only
  have hother : ∀ o', o' ≠ o → s.isOpen o' = true →
      s.mapped o' = true ∨ 0 < Function.update s.holders o (s.holders o - 1) o' := by
    intro o' ho' hopen
    rw [Function.update_of_ne ho']
    exact h.held o' hopen
  by_cases hlast : Function.update s.holders o (s.holders o - 1) o = 0 ∧ ¬ s.mapped o = true
  · rw [if_pos hlast]
    refine ⟨?_, rfl, rfl, rfl⟩
    apply h.destroyAll
    · intro o' hmapped
      refine ⟨hmapped, decide_eq_false ?_⟩
      rintro rfl
      exact hlast.2 hmapped
    · intro o' hopen hp
      exact hother o' (of_decide_eq_false hp) hopen
  · rw [if_neg hlast]
    refine ⟨⟨h.balanced, h.mapped_open, ?_, h.listener, h.poller⟩, rfl, rfl, rfl⟩
    intro o' hopen
    by_cases ho' : o' = o
    · subst ho'
      rw [Decidable.not_and_iff_not_or_not, not_not] at hlast
      rcases hlast with hsome | hmapped
      · exact Or.inr (Nat.pos_of_ne_zero hsome)
      · exact Or.inl hmapped
    · exact hother o' ho' hopen

theorem Tidy.use (h : s.Tidy) (howned : 0 < s.owners s.listenFd s.epollFd fd) :
    (s.use fd).Tidy := Owned.use h howned

theorem Tidy.useField (h : s.Tidy) {f : Option Nat}
    (howned : ∀ fd, f = some fd → 0 < s.owners s.listenFd s.epollFd fd) :
    (s.useField f).Tidy := by
  unfold Tidy
  rw [useField_listenFd, useField_epollFd]
  exact Owned.useField h howned

theorem Tidy.socket (h : s.Tidy) (hmapped : s.mapped fd = true) :
    0 < s.owners s.listenFd s.epollFd fd := owners_socket (h.mapped_open fd hmapped)

theorem Tidy.useEpoll (h : s.Tidy) : (s.useField s.epollFd).Tidy :=
  h.useField fun _ => owners_poller

/-- A connection in `connections_` is closed while the object may be held. -/
theorem closeConnection_tidy (h : s.Tidy) (hmapped : s.mapped fd = true) :
    (s.closeConnection fd).Tidy := by
  unfold closeConnection
  have herase : ∀ {s : Host}, s.Tidy →
      Tidy (closeObject { s with mapped := Function.update s.mapped fd false } fd) := by
    intro s h
    apply Owned.destroyAll h
    · intro o ho
      dsimp only at ho
      by_cases hfd : o = fd
      · subst hfd
        rw [Function.update_self] at ho
        cases ho
      · rw [Function.update_of_ne hfd] at ho
        exact ⟨ho, decide_eq_false hfd⟩
    · intro o hopen hp
      dsimp only
      rw [Function.update_of_ne (of_decide_eq_false hp)]
      exact h.held o hopen
  by_cases hepoll : s.epollFd.isSome = true
  · have hmapped' : ((s.useField s.epollFd).use fd).mapped fd = true := by
      change (s.useField s.epollFd).mapped fd = true
      rw [useField_mapped]
      exact hmapped
    rw [if_pos hepoll]
    dsimp only
    rw [if_pos hmapped']
    exact herase (h.useEpoll.use (h.useEpoll.socket hmapped'))
  · rw [if_neg hepoll]
    dsimp only
    rw [if_pos hmapped]
    exact herase h

/-- Serving a connection keeps the descriptors tidy. -/
theorem serve_tidy (h : s.Tidy) (hmapped : s.mapped fd = true) (closes : Bool) :
    (s.serve fd closes).Tidy := by
  unfold serve
  rw [if_neg (not_not.2 (h.mapped_open fd hmapped))]
  have h₁ : ((s.use fd).useField s.epollFd).Tidy := (h.use (h.socket hmapped)).useEpoll
  cases closes with
  | false => exact h₁
  | true =>
      apply closeConnection_tidy h₁
      rw [useField_mapped]
      exact hmapped

/-! ### `handle_new_connection` -/

theorem useField_ledger (s : Host) (f : Option Nat) :
    ∃ L, s.useField f = { s with ledger := L } := by
  cases f with
  | none => exact ⟨_, rfl⟩
  | some fd => exact ⟨_, rfl⟩

/-- The owners while the local `client_fd` stands for the accepted socket. -/
def ownersWith (s : Host) (fd d : Nat) : Nat :=
  holds (some fd) d + s.owners s.listenFd s.epollFd d

theorem ownersWith_self (s : Host) (fd : Nat) : 0 < s.ownersWith fd fd := by
  unfold ownersWith
  rw [holds_self]
  omega

/-- The accepted socket is closed before it has a `Connection`. -/
theorem refuse_tidy (h : s.Tidy) {L : Ledger} (hL : L.Balanced (s.ownersWith fd)) :
    (close { s with ledger := L } fd).Tidy where
  balanced := balanced_close (s := { s with ledger := L }) hL fun _ => rfl
  mapped_open := h.mapped_open
  held := h.held
  listener := Or.inl rfl
  poller := Or.inl rfl

/-- A new connection owns its descriptor. -/
theorem adopt_tidy (h : s.Tidy) {L : Ledger} (hL : L.Balanced (s.ownersWith fd)) :
    Tidy { s with
      ledger := L
      isOpen := Function.update s.isOpen fd true
      mapped := Function.update s.mapped fd true } where
  balanced := by
    apply hL.congr
    intro d
    unfold ownersWith owners
    dsimp only
    rw [holds_some]
    by_cases hd : d = fd
    · -- the accepted descriptor was no connection's
      subst hd
      have hle := hL.owners_le d
      have hclosed : ¬ s.isOpen d = true := by
        intro hopen
        have := owners_socket (l := s.listenFd) (e := s.epollFd) hopen
        unfold ownersWith at hle
        rw [holds_self] at hle
        omega
      rw [if_pos (Function.update_self d true s.isOpen), if_pos rfl, if_neg hclosed]
      omega
    · simp only [Function.update_of_ne hd, if_neg hd]
      omega
  mapped_open := by
    intro d hmapped
    dsimp only at hmapped ⊢
    by_cases hd : d = fd
    · rw [hd, Function.update_self]
    · rw [Function.update_of_ne hd] at hmapped ⊢
      exact h.mapped_open d hmapped
  held := by
    intro d hopen
    dsimp only at hopen ⊢
    by_cases hd : d = fd
    · rw [hd, Function.update_self]
      exact Or.inl rfl
    · rw [Function.update_of_ne hd] at hopen ⊢
      exact h.held d hopen
  listener := Or.inl rfl
  poller := Or.inl rfl

/-- A socket that is accepted is owned by an object or closed again, but when its TLS session
cannot be made. -/
theorem handleNewConnection_tidy (h : s.Tidy) {tls : Bool} {ans : AcceptAnswers}
    (hsession : ¬ (tls = true ∧ ans.accept = true ∧ ans.nonBlocking = true ∧
      ans.epollAdd = true ∧ ans.newSession = false)) :
    (s.handleNewConnection tls ans).Tidy := by
  unfold handleNewConnection
  have h₁ : (s.useField s.listenFd).Tidy := h.useField fun _ => owners_listener
  generalize s.useField s.listenFd = s at h₁
  dsimp only
  by_cases haccept : ans.accept = true
  · rw [if_neg (not_not.2 haccept)]
    have hlocal : s.ledger.acquire.Balanced (s.ownersWith s.ledger.obtained) :=
      balanced_acquire h₁ fun _ => rfl
    have hused := hlocal.use (ownersWith_self s _)
    by_cases hnb : ans.nonBlocking = true
    · rw [if_neg (not_not.2 hnb)]
      have hepoll : ((s.acquire.use s.ledger.obtained).useField s.epollFd).ledger.Balanced
          (s.ownersWith s.ledger.obtained) := by
        cases hfield : s.epollFd with
        | none => exact hused
        | some efd =>
            apply hused.use
            exact Nat.lt_of_lt_of_le (owners_poller hfield) (Nat.le_add_left _ _)
      obtain ⟨L, hL⟩ := useField_ledger (s.acquire.use s.ledger.obtained) s.epollFd
      have hfield : (s.acquire.use s.ledger.obtained).epollFd = s.epollFd := rfl
      rw [hfield, hL]
      rw [hL] at hepoll
      have hused := hepoll.use (ownersWith_self s _)
      by_cases hadd : ans.epollAdd = true
      · -- the connection takes it
        rw [if_neg (not_not.2 hadd)]
        have hmade : ¬ (tls = true ∧ ¬ ans.newSession = true) := by
          rintro ⟨htls, hnew⟩
          exact hsession ⟨htls, haccept, hnb, hadd, eq_false_of_ne_true hnew⟩
        rw [if_neg hmade]
        exact adopt_tidy h₁ hused
      · rw [if_pos hadd]
        exact refuse_tidy h₁ hused
    · -- it is closed again
      rw [if_pos hnb]
      exact refuse_tidy h₁ hused
  · rw [if_pos haccept]
    exact h₁

/-! ### `run`, `stop` and the destructor -/

theorem Owned.clearListener (h : s.Owned l e) (hl : l = s.listenFd) :
    Owned { s.closeField s.listenFd with listenFd := none } none e := by
  cases hfield : s.listenFd with
  | none =>
      rw [hl, hfield] at h
      exact h.dropListener
  | some fd =>
      rw [hl, hfield] at h
      exact h.closeListener.dropListener

theorem Owned.clearPoller (h : s.Owned l s.epollFd) :
    Owned { s.closeField s.epollFd with epollFd := none } l none := by
  cases hfield : s.epollFd with
  | none =>
      rw [hfield] at h
      exact h.dropPoller
  | some fd =>
      rw [hfield] at h
      exact h.closePoller.dropPoller

/-- An end of the self-pipe is closed, and its field is cleared. -/
theorem Owned.closeEnd (h : s.Owned l e) {r w : Option Nat}
    (hsplit : ∀ d, s.owners l e d = holds (some fd) d +
      Host.owners { s.close fd with wakeupRead := r, wakeupWrite := w } l e d) :
    Owned { s.close fd with wakeupRead := r, wakeupWrite := w } l e where
  balanced := balanced_close h.balanced hsplit
  mapped_open := h.mapped_open
  held := h.held
  listener := h.listener_close fd
  poller := h.poller_close fd

/-- The read end of the pipe is closed, and its field is emptied. -/
theorem Owned.clearWakeupRead (h : s.Owned l e) :
    Owned { s.closeField s.wakeupRead with wakeupRead := none } l e := by
  cases hfield : s.wakeupRead with
  | none =>
      have hsame : { s with wakeupRead := none } = s := by
        rw [← hfield]
      change Owned { s with wakeupRead := none } l e
      rw [hsame]
      exact h
  | some fd =>
      refine h.closeEnd (w := s.wakeupWrite) ?_
      intro d
      unfold owners close
      dsimp only
      rw [hfield, holds_none]
      omega

/-- So is the write end. -/
theorem Owned.clearWakeupWrite (h : s.Owned l e) :
    Owned { s.closeField s.wakeupWrite with wakeupWrite := none } l e := by
  cases hfield : s.wakeupWrite with
  | none =>
      have hsame : { s with wakeupWrite := none } = s := by
        rw [← hfield]
      change Owned { s with wakeupWrite := none } l e
      rw [hsame]
      exact h
  | some fd =>
      refine h.closeEnd (r := s.wakeupRead) ?_
      intro d
      unfold owners close
      dsimp only
      rw [hfield, holds_none]
      omega

theorem closeLoop_owned (h : s.Tidy) : s.closeLoop.Owned none none := by
  have hpoller := Owned.clearPoller h
  exact hpoller.clearListener (closeField_listenFd _ _).symm

theorem closeLoop_tidy (h : s.Tidy) : s.closeLoop.Tidy := by
  have hnone : s.closeLoop.epollFd = none := closeField_epollFd _ _
  unfold Tidy
  rw [hnone]
  exact closeLoop_owned h

theorem clearConnections_tidy (h : s.Tidy) : s.clearConnections.Tidy := clearConnections_owned h

theorem teardown_tidy (h : s.Tidy) : s.teardown.Tidy := by
  have := closeLoop_tidy (clearConnections_tidy h)
  exact ⟨this.balanced, this.mapped_open, this.held, this.listener, this.poller⟩

/-- The listener is closed once. -/
theorem stopAccepting_tidy (h : s.Tidy) : s.stopAccepting.Tidy := by
  unfold stopAccepting
  cases hfield : s.listenFd with
  | none => exact h
  | some fd =>
      have hclose : ∀ {s : Host}, s.Tidy → s.listenFd = some fd →
          Tidy { s.close fd with listenFd := none } := by
        intro s h hfield
        unfold Tidy at h
        rw [hfield] at h
        exact h.closeListener.dropListener
      dsimp only
      by_cases hepoll : s.epollFd.isSome = true
      · rw [if_pos hepoll]
        have hfield' : ((s.useField s.epollFd).use fd).listenFd = some fd :=
          (useField_listenFd _ _).trans hfield
        exact hclose (h.useEpoll.use (owners_listener hfield')) hfield'
      · rw [if_neg hepoll]
        exact hclose h hfield

/-- A sweep keeps the descriptors tidy. -/
theorem timeouts_tidy (timedOut : List Nat) (h : s.Tidy) :
    (timedOut.foldl (fun s fd => if s.mapped fd then s.serve fd true else s) s).Tidy := by
  induction timedOut generalizing s with
  | nil => exact h
  | cons fd fds ih =>
      apply ih
      dsimp only
      by_cases hmapped : s.mapped fd = true
      · rw [if_pos hmapped]
        exact serve_tidy h hmapped true
      · rw [if_neg hmapped]
        exact h

/-- So does the end of a batch. -/
theorem endBatch_tidy (h : s.Tidy) (timedOut : List Nat) (ended : Bool) :
    (s.endBatch timedOut ended).Tidy := by
  have hstopped : Tidy (if ¬ s.draining ∧ s.stopRequested then
      { s with draining := true }.stopAccepting else s) := by
    by_cases hstop : ¬ s.draining = true ∧ s.stopRequested = true
    · rw [if_pos hstop]
      apply stopAccepting_tidy
      exact ⟨h.balanced, h.mapped_open, h.held, h.listener, h.poller⟩
    · rw [if_neg hstop]
      exact h
  have := timeouts_tidy timedOut hstopped
  exact ⟨this.balanced, this.mapped_open, this.held, this.listener, this.poller⟩

theorem requestStop_owned (h : s.Owned l e) : s.requestStop.Owned l e := by
  apply Owned.useField _ fun _ => owners_wakeupWrite
  exact ⟨h.balanced, h.mapped_open, h.held, h.listener, h.poller⟩

/-- What the fields hold behind `stop`. -/
structure Stopped (s : Host) : Prop where
  listenFd : s.listenFd = none
  epollFd : s.epollFd = none
  wakeupRead : s.wakeupRead = none
  wakeupWrite : s.wakeupWrite = none
  mapped : ∀ o, s.mapped o = false

theorem stop_stopped (s : Host) : s.stop.Stopped where
  listenFd := by simp [stop, closeLoop]
  epollFd := by simp [stop, closeLoop]
  wakeupRead := by simp [stop]
  wakeupWrite := rfl
  mapped o := by simp [stop, closeLoop, clearConnections]

theorem stop_phase (s : Host) : s.stop.phase = s.phase := by
  simp [stop, closeLoop, clearConnections, requestStop, destroyAll]

/-- `stop` leaves no stale descriptor. -/
theorem stop_owned (h : s.Tidy) : s.stop.Owned none none := by
  have hrequest : s.requestStop.Tidy := by
    have hfields : s.requestStop.listenFd = s.listenFd ∧ s.requestStop.epollFd = s.epollFd :=
      ⟨useField_listenFd _ _, useField_epollFd _ _⟩
    unfold Tidy
    rw [hfields.1, hfields.2]
    exact requestStop_owned h
  have hdown : Tidy { s.requestStop with poolDown := true } :=
    ⟨hrequest.balanced, hrequest.mapped_open, hrequest.held, hrequest.listener, hrequest.poller⟩
  have hloop := closeLoop_owned (clearConnections_tidy hdown)
  exact hloop.clearWakeupRead.clearWakeupWrite

/-- Behind the destructor nothing is open: the objects that are left when `stop` has
emptied `connections_` go with the completed responses. -/
theorem destroy_owned (h : s.Tidy) :
    s.destroy.Owned none none ∧ ∀ d, s.destroy.owners none none d = 0 := by
  have hstop := stop_owned h
  have hfields := stop_stopped s
  have hleft : Owned { s.stop.destroyAll fun o => decide (0 < s.stop.holders o) with
      mapped := s.stop.mapped, holders := fun _ => 0 } none none := by
    apply hstop.destroyAll
    · intro o ho
      rw [hfields.mapped o] at ho
      cases ho
    · intro o hopen hp
      rcases hstop.held o hopen with hmapped | hheld
      · exact Or.inl hmapped
      · rw [decide_eq_false_iff_not] at hp
        exact absurd hheld hp
  have hdestroy : s.destroy.Owned none none :=
    ⟨hleft.balanced, hleft.mapped_open, hleft.held, hleft.listener, hleft.poller⟩
  refine ⟨hdestroy, fun d => ?_⟩
  have hread : s.destroy.wakeupRead = none := hfields.wakeupRead
  have hwrite : s.destroy.wakeupWrite = none := hfields.wakeupWrite
  have hclosed : ¬ s.destroy.isOpen d = true := by
    intro hopen
    rcases hdestroy.held d hopen with hmapped | hheld
    · have hmapped : s.stop.mapped d = true := hmapped
      rw [hfields.mapped d] at hmapped
      cases hmapped
    · exact absurd hheld (Nat.lt_irrefl 0)
  unfold owners
  rw [hread, hwrite, if_neg hclosed, holds_none]

end Host

/-! ## Main result -/

/-- A step that meets none of the error paths that close by hand, nor their traces. -/
def careful (tls : Bool) (s : Host) : Act → Bool
  | .listen ans => s.mayListen ans
  | .run | .stop | .destroy => !s.stale s.listenFd && !s.stale s.epollFd
  | .accept ans =>
      !(tls && ans.accept && ans.nonBlocking && ans.epollAdd && !ans.newSession)
  | _ => true

/-- The invariant: outside of `run` a closed descriptor may be left in a field. -/
structure Inv (s : Host) : Prop where
  owned : ∃ l e, s.Owned l e
  tidy : s.phase ≠ .idle → s.Tidy
  gone : s.phase = .gone → ∀ d, s.owners s.listenFd s.epollFd d = 0

theorem inv_idle {s : Host} {l e : Option Nat} (h : s.Owned l e) (hphase : s.phase = .idle) :
    Inv s where
  owned := ⟨l, e, h⟩
  tidy hne := absurd hphase hne
  gone hgone := absurd (hphase.symm.trans hgone) nofun

theorem inv_tidy {s : Host} (h : s.Tidy) (hphase : s.phase ≠ .gone) : Inv s where
  owned := ⟨_, _, h⟩
  tidy _ := h
  gone hgone := absurd hgone hphase

theorem closeConnection_phase (s : Host) (fd : Nat) : (s.closeConnection fd).phase = s.phase := by
  unfold Host.closeConnection Host.closeObject Host.destroyAll Host.use
  dsimp only
  split_ifs <;> simp

/-- Serving a connection leaves the phase. -/
theorem serve_phase (s : Host) (fd : Nat) (closes : Bool) :
    (s.serve fd closes).phase = s.phase := by
  unfold Host.serve
  dsimp only
  split_ifs
  · exact (closeConnection_phase _ fd).trans (Host.useField_phase _ _)
  · exact Host.useField_phase _ _
  · exact closeConnection_phase s fd

theorem handleNewConnection_phase (s : Host) (tls : Bool) (ans : AcceptAnswers) :
    (s.handleNewConnection tls ans).phase = s.phase := by
  unfold Host.handleNewConnection Host.closeObject Host.destroyAll Host.close Host.use Host.acquire
  dsimp only
  split_ifs <;> simp

/-- A step that other threads take as well, and that leaves both fields alone. -/
theorem inv_shared {s s' : Host} (h : Inv s) (hgone : s.phase ≠ .gone)
    (howned : ∀ l e, s.Owned l e → s'.Owned l e) (hlisten : s'.listenFd = s.listenFd)
    (hepoll : s'.epollFd = s.epollFd) (hphase : s'.phase = s.phase) : Inv s' where
  owned := by
    obtain ⟨l, e, hs⟩ := h.owned
    exact ⟨l, e, howned l e hs⟩
  tidy hidle := by
    rw [hphase] at hidle
    unfold Host.Tidy
    rw [hlisten, hepoll]
    exact howned _ _ (h.tidy hidle)
  gone hs' := absurd (hphase.symm.trans hs') hgone

/-- What becomes of the host when `epoll_wait` returns. -/
theorem poll_cases {tls success : Bool} {s s' : Host}
    (hstep : step tls s (.poll success) = some s') :
    s.phase = .polling ∧ (s' = { s.useField s.epollFd with phase := .batch } ∨
      s' = Host.teardown { s.useField s.epollFd with running := false }) := by
  have hstep : (if s.phase = .polling ∧ s.running then
      (if success ∧ (s.useField s.epollFd).epollFd.isSome then
        some { s.useField s.epollFd with phase := .batch }
      else some (Host.teardown { s.useField s.epollFd with running := false }))
      else none) = some s' := hstep
  by_cases hpoll : s.phase = .polling ∧ s.running = true
  · rw [if_pos hpoll] at hstep
    refine ⟨hpoll.1, ?_⟩
    split at hstep
    · exact Or.inl (Option.some.inj hstep).symm
    · exact Or.inr (Option.some.inj hstep).symm
  · rw [if_neg hpoll] at hstep
    cases hstep

/-- The loop goes on to another phase, or is told to end. -/
theorem Host.Tidy.goes {s : Host} (h : s.Tidy) (running draining : Bool) (phase : Phase) :
    Host.Tidy { s with running := running, draining := draining, phase := phase } :=
  ⟨h.balanced, h.mapped_open, h.held, h.listener, h.poller⟩

/-- A task holds the object of a connection as well. -/
theorem Host.Tidy.hold {s : Host} (h : s.Tidy) (fd : Nat) :
    Host.Tidy { s with holders := Function.update s.holders fd (s.holders fd + 1) } := by
  refine ⟨h.balanced, h.mapped_open, fun d hopen => ?_, h.listener, h.poller⟩
  refine (h.held d hopen).imp_right fun hheld => ?_
  dsimp only
  by_cases hd : d = fd
  · rw [hd, Function.update_self]
    omega
  · rw [Function.update_of_ne hd]
    exact hheld

/-- Under the condition of the run no session fails to be created; it would leave the socket with
two owners. -/
theorem careful_session {tls : Bool} {s : Host} {ans : AcceptAnswers}
    (h : careful tls s (.accept ans) = true) :
    ¬ (tls = true ∧ ans.accept = true ∧ ans.nonBlocking = true ∧ ans.epollAdd = true ∧
      ans.newSession = false) := by
  rintro ⟨htls, haccept, hnb, hadd, hnew⟩
  have hcareful : (!(tls && ans.accept && ans.nonBlocking && ans.epollAdd &&
      !ans.newSession)) = true := h
  rw [htls, haccept, hnb, hadd, hnew] at hcareful
  cases hcareful

/-- A host that is destroyed has no field left. -/
theorem inv_destroy {s : Host} (h : s.Tidy) : Inv s.destroy := by
  obtain ⟨hdestroy, hnone⟩ := Host.destroy_owned h
  have hlisten : s.destroy.listenFd = none := (Host.stop_stopped s).listenFd
  have hepoll : s.destroy.epollFd = none := (Host.stop_stopped s).epollFd
  refine ⟨⟨_, _, hdestroy⟩, fun _ => ?_, fun _ => ?_⟩
  · unfold Host.Tidy
    rw [hlisten, hepoll]
    exact hdestroy
  · rw [hlisten, hepoll]
    exact hnone

/-- Each step that meets the condition keeps the invariant. -/
theorem step_inv {tls : Bool} {s s' : Host} {a : Act} (h : Inv s)
    (hcareful : careful tls s a = true) (hstep : step tls s a = some s') : Inv s' := by
  obtain ⟨l, e, howned⟩ := h.owned
  -- no field is stale inside `run`; outside it the condition on the run says so
  have hbatch : s.phase = .batch → s.Tidy := fun hphase => h.tidy (by rw [hphase]; nofun)
  have hpolling : s.phase = .polling → s.Tidy := fun hphase => h.tidy (by rw [hphase]; nofun)
  have hfresh : (!s.stale s.listenFd && !s.stale s.epollFd) = true → s.Tidy := by
    intro hcond
    rw [Bool.and_eq_true, Bool.not_eq_true', Bool.not_eq_true'] at hcond
    exact howned.tidy hcond.1 hcond.2
  cases a with
  | listen ans =>
      obtain ⟨hphase, heq⟩ := Option.ite_some_none_eq_some.1 hstep
      subst heq
      obtain ⟨⟨l', e', h'⟩, hphase'⟩ := Host.listen_owned howned hcareful
      exact inv_idle h' (hphase'.trans hphase)
  | run =>
      obtain ⟨hphase, heq⟩ := Option.ite_some_none_eq_some.1 hstep
      subst heq
      exact inv_tidy ((hfresh hcareful).goes _ _ _) nofun
  | poll success =>
      obtain ⟨hphase, heq⟩ := poll_cases hstep
      have htidy := (hpolling hphase).useEpoll
      rcases heq with rfl | rfl
      · exact inv_tidy (htidy.goes _ _ _) nofun
      · exact inv_tidy (Host.teardown_tidy (htidy.goes _ _ _)) nofun
  | leave =>
      obtain ⟨⟨hphase, -⟩, heq⟩ := Option.ite_some_none_eq_some.1 hstep
      subst heq
      exact inv_tidy (Host.teardown_tidy (hpolling hphase)) nofun
  | accept ans =>
      obtain ⟨⟨hphase, -⟩, heq⟩ := Option.ite_some_none_eq_some.1 hstep
      subst heq
      apply inv_tidy (Host.handleNewConnection_tidy (hbatch hphase) (careful_session hcareful))
      rw [handleNewConnection_phase, hphase]
      nofun
  | drainWakeup =>
      obtain ⟨hphase, heq⟩ := Option.ite_some_none_eq_some.1 hstep
      subst heq
      apply inv_tidy ((hbatch hphase).useField fun _ => Host.owners_wakeupRead)
      rw [Host.useField_phase, hphase]
      nofun
  | serve fd closes =>
      obtain ⟨⟨hphase, hmapped⟩, heq⟩ := Option.ite_some_none_eq_some.1 hstep
      subst heq
      apply inv_tidy (Host.serve_tidy (hbatch hphase) hmapped closes)
      rw [serve_phase, hphase]
      nofun
  | handOver fd =>
      obtain ⟨⟨hphase, hmapped⟩, heq⟩ := Option.ite_some_none_eq_some.1 hstep
      subst heq
      apply inv_tidy ((hbatch hphase).hold fd)
      change s.phase ≠ .gone
      rw [hphase]
      nofun
  | endBatch timedOut ended =>
      obtain ⟨hphase, heq⟩ := Option.ite_some_none_eq_some.1 hstep
      subst heq
      exact inv_tidy (Host.endBatch_tidy (hbatch hphase) timedOut ended) nofun
  | throw =>
      obtain ⟨⟨hphase, -⟩, heq⟩ := Option.ite_some_none_eq_some.1 hstep
      subst heq
      exact inv_tidy ((hbatch hphase).goes _ _ _) nofun
  | releaseHolder o =>
      -- a worker lets go, in whatever phase the loop is
      obtain ⟨⟨hphase, -⟩, heq⟩ := Option.ite_some_none_eq_some.1 hstep
      subst heq
      obtain ⟨-, hlisten, hepoll, hphase'⟩ := Host.releaseHolder_owned howned o
      exact inv_shared h hphase (fun _ _ hs => (Host.releaseHolder_owned hs o).1) hlisten hepoll
        hphase'
  | notify =>
      obtain ⟨⟨hphase, -⟩, heq⟩ := Option.ite_some_none_eq_some.1 hstep
      subst heq
      exact inv_shared h hphase (fun _ _ hs => hs.useField fun _ => Host.owners_wakeupWrite)
        (Host.useField_listenFd _ _) (Host.useField_epollFd _ _) (Host.useField_phase _ _)
  | requestStop =>
      obtain ⟨hphase, heq⟩ := Option.ite_some_none_eq_some.1 hstep
      subst heq
      exact inv_shared h hphase (fun _ _ => Host.requestStop_owned)
        (Host.useField_listenFd _ _) (Host.useField_epollFd _ _) (Host.useField_phase _ _)
  | stop =>
      obtain ⟨hphase, heq⟩ := Option.ite_some_none_eq_some.1 hstep
      subst heq
      exact inv_idle (Host.stop_owned (hfresh hcareful)) ((Host.stop_phase s).trans hphase)
  | destroy =>
      obtain ⟨hphase, heq⟩ := Option.ite_some_none_eq_some.1 hstep
      subst heq
      exact inv_destroy (hfresh hcareful)

theorem inv_start : Inv {} := by
  apply inv_idle (l := none) (e := none) _ rfl
  exact ⟨Ledger.balanced_empty, nofun, nofun, Or.inl rfl, Or.inl rfl⟩

/-- The invariant holds in every state of a careful run. -/
theorem reached_inv {tls : Bool} {s : Host}
    (h : Runs.Reached (system tls) (fun s a => careful tls s a = true) s) : Inv s := by
  apply h.invariant
  · rintro s rfl
    exact inv_start
  · intro s a s' _ hinv hcareful hstep
    exact step_inv hinv hcareful hstep

/-- No descriptor has been closed twice or been used
behind its `close`, and behind the destructor each has been closed. -/
structure ClosedOnce (s : Host) : Prop where
  once : ∀ d, s.ledger.released d ≤ 1
  sound : ∀ d, s.ledger.misused d = false
  settled : s.phase = .gone → ∀ d < s.ledger.obtained, s.ledger.released d = 1

/-- In each run whose steps meet the condition every descriptor is closed exactly once and
is not used behind that. -/
theorem closed_once {tls : Bool} {s : Host}
    (h : Runs.Reached (system tls) (fun s a => careful tls s a = true) s) : ClosedOnce s := by
  have hinv := reached_inv h
  obtain ⟨l, e, howned⟩ := hinv.owned
  refine ⟨howned.balanced.released_le, howned.balanced.sound, fun hgone d hd => ?_⟩
  have htidy := hinv.tidy (by rw [hgone]; nofun)
  exact htidy.balanced.settled hd (hinv.gone hgone d)

/-- `bind` fails once and is tried again; a connection is served by a worker; `request_stop`
ends `run`, and the server is destroyed. -/
def retriedRun : List Act :=
  [.listen { bind := false }, .listen {}, .run, .poll true, .accept {}, .endBatch [] false,
    .poll true, .serve 5 false, .handOver 5, .endBatch [] false, .notify, .poll true,
    .drainWakeup, .releaseHolder 5, .requestStop, .endBatch [] true, .leave, .destroy]

/-- A first start that fails, and a second one. -/
theorem closed_once_retried :
    ∃ s, (system true).runIf (careful true) {} retriedRun = some s ∧ s.phase = .gone ∧
      s.ledger.obtained = 6 ∧ ∀ d < 6, s.ledger.released d = 1 := by
  have hrun : ((system true).runIf (careful true) {} retriedRun).map
      (fun s => (s.phase, s.ledger.obtained)) = some (.gone, 6) := by decide +kernel
  rw [Option.map_eq_some_iff] at hrun
  obtain ⟨s, hs, hfields⟩ := hrun
  obtain ⟨hgone, hobtained⟩ := Prod.mk.inj hfields
  refine ⟨s, hs, hgone, hobtained, fun d hd => ?_⟩
  rw [← hobtained] at hd
  exact (closed_once (Runs.reached_of_runIf (.start rfl) hs)).settled hgone d hd

/-- `bind` fails, and the destructor closes the listening socket again. -/
theorem listener_closed_twice :
    ¬ ∀ (tls : Bool) (s : Host), Runs.Reachable (system tls) s → ClosedOnce s := by
  intro h
  have hrun : ((system false).run {} [.listen { bind := false }, .destroy]).map
      (fun s => s.ledger.released 0) = some 2 := by decide +kernel
  rw [Option.map_eq_some_iff] at hrun
  obtain ⟨s, hs, htwice⟩ := hrun
  have := (h false s (Runs.reachable_of_run (.start rfl) hs)).once 0
  omega

end Oreshnek.Descriptors
