import Oreshnek.Server.Callbacks
import Oreshnek.Server.EventLoop

/-!
# What each connection is doing

`Inv` is what holds in every reachable state: each connection is in the mode that
goes with the arming of its socket, events are pending for connections only, and
at most one response is on its way to a connection, namely to one that waits for
it. `Inv.unchanged`, `Inv.changed` and `InHand` say what a step has to show;
`step_inv` is the step lemma, `one_mode` what follows for plain connections.
-/

namespace Oreshnek

/-! ## Modes of the server -/

/-- Two states of a connection in the same mode. -/
def Session.Alike (x y : Session) : Prop :=
  y.conn = x.conn ∧ y.hist.requests = x.hist.requests ∧ y.hist.installed = x.hist.installed ∧
    y.hist.finished = x.hist.finished

theorem Session.Alike.refl (x : Session) : x.Alike x := ⟨rfl, rfl, rfl, rfl⟩

/-- The events that are still to be looked at. -/
def Phase.rest : Phase → List Event
  | .waiting | .stopped _ => []
  | .batch rest | .accepting rest | .drainingPipe rest | .swapping rest | .completing _ rest => rest

/-- The completed responses that `process_completions` has taken. -/
def Phase.ready : Phase → List Completion
  | .completing ready _ => ready
  | _ => []

/-- The direction of the event reported for a socket. -/
def pendingDirection : List Event → Nat → Option Direction
  | [], _ => none
  | .client fd' dir _ :: rest, fd => if fd' = fd then some dir else pendingDirection rest fd
  | .wakeup :: rest, fd => pendingDirection rest fd
  | .listener :: rest, fd => pendingDirection rest fd

/-- What names a request: its connection and its number there. -/
abbrev Ticket := Nat × Nat

def Task.ticket (t : Task) : Ticket := (t.conn, t.serial)

def Completion.ticket (c : Completion) : Ticket := (c.item.conn, c.serial)

/-- The request of a task that has not yet pushed a response. -/
def RunningTask.ticket? (r : RunningTask) : Option Ticket :=
  match r.stage with
  | .working => some r.task.ticket
  | .pushed => none
  | .leaving => none

namespace Server

/-- The direction that a socket is armed for, also while its event is still to be
looked at. -/
def armedFor (s : Server) (fd : Nat) : Option Direction :=
  (s.armed fd).or (pendingDirection s.phase.rest fd)

/-- The requests whose responses are on their way, from the queue of the pool up
to `process_completions`. -/
def outstanding (s : Server) : Multiset Ticket :=
  (s.tasks.map Task.ticket ++ s.running.filterMap RunningTask.ticket? ++
    s.completed.map Completion.ticket ++ s.phase.ready.map Completion.ticket : List Ticket)

/-- Those of one connection object. -/
def tickets (s : Server) (o : Nat) : Multiset Ticket := s.outstanding.filter fun p => p.1 = o

/-- A connection in its mode. An armed one has no response on its way, one that is
not armed has at most that for its last request. -/
def InMode (x : Session) (o : Nat) (tickets : Multiset Ticket) : Option Direction → Prop
  | some dir => x.Left (.rearm dir) ∧ tickets = 0
  | none => x.HandedOver ∧ tickets ≤ {(o, x.hist.requests.length - 1)}

/-- The object `o` is the connection of the socket `fd`. -/
def Serves (s : Server) (fd o : Nat) : Prop :=
  o < s.nextObject ∧ (s.objects o).conn.socketFd = some fd ∧
    InMode (s.objects o) o (s.tickets o) (s.armedFor fd)

structure Inv (s : Server) : Prop where
  serves : ∀ fd o, s.connections.lookup fd = some o → s.Serves fd o
  stranger : ∀ fd, s.connections.lookup fd = none → s.armedFor fd = none
  /-- Each source has at most one event. -/
  once : (s.phase.rest.map Event.source).Nodup
  /-- A reported socket is not armed in addition. -/
  off : ∀ fd, pendingDirection s.phase.rest fd ≠ none → s.armed fd = none
  numbered : ∀ p ∈ s.outstanding, p.1 < s.nextObject

end Server

namespace Session

theorem Ready.alike {x y : Session} (h : x.Alike y) (hx : x.Ready) : y.Ready := by
  obtain ⟨hconn, hreq, hinst, hfin⟩ := h
  exact ⟨hconn ▸ hx.processing, hconn ▸ hx.workerInFlight, hconn ▸ hx.noData,
    hinst ▸ hreq ▸ hx.answered, hinst ▸ hfin ▸ hx.finished⟩

theorem Idle.alike {x y : Session} (h : x.Alike y) (hx : x.Idle) : y.Idle :=
  ⟨hx.toReady.alike h, h.1 ▸ hx.incomplete⟩

theorem Secured.alike {x y : Session} (h : x.Alike y) (hx : x.Secured) : y.Secured := by
  unfold Secured
  rw [h.1]
  exact hx

theorem Writing.alike {x y : Session} (h : x.Alike y) (hx : x.Writing) : y.Writing := by
  have hsecured := hx.secured.alike h
  obtain ⟨hconn, hreq, hinst, hfin⟩ := h
  exact ⟨hconn ▸ hx.processing, hconn ▸ hx.workerInFlight, hconn ▸ hx.data, hsecured,
    hinst ▸ hreq ▸ hx.answered, hinst ▸ hfin ▸ hx.finished⟩

theorem HandedOver.alike {x y : Session} (h : x.Alike y) (hx : x.HandedOver) : y.HandedOver := by
  have hsecured := hx.secured.alike h
  obtain ⟨hconn, hreq, hinst, hfin⟩ := h
  exact ⟨hconn ▸ hx.processing, hconn ▸ hx.workerInFlight, hconn ▸ hx.noData, hsecured,
    hinst ▸ hreq ▸ hx.answered, hinst ▸ hfin ▸ hx.finished⟩

/-- What a callback leaves depends only on what `Alike` compares. -/
theorem Left.alike {x y : Session} (h : x.Alike y) {dir : Direction} (hx : x.Left (.rearm dir)) :
    y.Left (.rearm dir) := by
  cases dir with
  | read => exact Idle.alike h hx
  | write =>
      rcases hx with hx | ⟨hx, htls⟩
      · exact .inl (hx.alike h)
      · exact .inr ⟨hx.alike h, h.1 ▸ htls⟩

end Session

namespace Server

/-- The mode of a connection depends only on what `Alike` compares, and on its tickets. -/
theorem InMode.alike {x y : Session} {o : Nat} {tickets tickets' : Multiset Ticket}
    {armed : Option Direction} (hx : InMode x o tickets armed) (h : x.Alike y)
    (htickets : tickets' ≤ tickets) : InMode y o tickets' armed := by
  cases armed with
  | some dir =>
      obtain ⟨hleft, hnone⟩ := hx
      exact ⟨hleft.alike h, Multiset.le_zero.1 (hnone ▸ htickets)⟩
  | none =>
      obtain ⟨hhanded, hone⟩ := hx
      refine ⟨hhanded.alike h, htickets.trans ?_⟩
      rw [h.2.1]
      exact hone

theorem tickets_mono {s s' : Server} (h : s'.outstanding ≤ s.outstanding) (o : Nat) :
    s'.tickets o ≤ s.tickets o :=
  Multiset.filter_le_filter _ h

/-- Nothing happens to the connections: they stay in their modes. -/
theorem Inv.unchanged {s s' : Server} (hinv : s.Inv)
    (hlookup : ∀ fd, s'.connections.lookup fd = s.connections.lookup fd)
    (hobjects : ∀ o, (s.objects o).Alike (s'.objects o))
    (harmed : ∀ fd, s'.armedFor fd = s.armedFor fd)
    (hout : s'.outstanding ≤ s.outstanding) (hnext : s'.nextObject = s.nextObject)
    (honce : (s'.phase.rest.map Event.source).Nodup)
    (hoff : ∀ fd, pendingDirection s'.phase.rest fd ≠ none → s'.armed fd = none) : s'.Inv := by
  constructor
  case serves =>
    intro fd o hfd
    rw [hlookup] at hfd
    obtain ⟨hknown, hsocket, hmode⟩ := hinv.serves fd o hfd
    refine ⟨hnext ▸ hknown, ?_, ?_⟩
    · rw [(hobjects o).1]
      exact hsocket
    · rw [harmed]
      exact hmode.alike (hobjects o) (tickets_mono hout o)
  case stranger =>
    intro fd hfd
    rw [harmed]
    exact hinv.stranger fd ((hlookup fd).symm.trans hfd)
  case once => exact honce
  case off => exact hoff
  case numbered =>
    intro p hp
    rw [hnext]
    exact hinv.numbered p (Multiset.mem_of_le hout hp)

/-- Two states that agree but for the socket `fd` and the object `o`. -/
structure Elsewhere (s s' : Server) (fd o : Nat) : Prop where
  lookup : ∀ fd', fd' ≠ fd → s'.connections.lookup fd' = s.connections.lookup fd'
  armed : ∀ fd', fd' ≠ fd → s'.armed fd' = s.armed fd'
  pending : ∀ fd', fd' ≠ fd →
    pendingDirection s'.phase.rest fd' = pendingDirection s.phase.rest fd'
  objects : ∀ o', o' ≠ o → s'.objects o' = s.objects o'
  tickets : ∀ o', o' ≠ o → s'.tickets o' ≤ s.tickets o'
  next : s.nextObject ≤ s'.nextObject

/-- Two steps that leave all others leave them together. -/
theorem Elsewhere.trans {s s' s'' : Server} {fd o : Nat} (h : Elsewhere s s' fd o)
    (h' : Elsewhere s' s'' fd o) : Elsewhere s s'' fd o where
  lookup fd' hne := (h'.lookup fd' hne).trans (h.lookup fd' hne)
  armed fd' hne := (h'.armed fd' hne).trans (h.armed fd' hne)
  pending fd' hne := (h'.pending fd' hne).trans (h.pending fd' hne)
  objects o' hne := (h'.objects o' hne).trans (h.objects o' hne)
  tickets o' hne := (h'.tickets o' hne).trans (h.tickets o' hne)
  next := h.next.trans h'.next

/-- Something happens to one connection, which is `o` on `fd` behind it or gone. -/
theorem Inv.changed {s s' : Server} {fd o : Nat} (hinv : s.Inv) (h : Elsewhere s s' fd o)
    (halone : ∀ fd', fd' ≠ fd → s.connections.lookup fd' ≠ some o)
    (honce : (s'.phase.rest.map Event.source).Nodup)
    (hpending : pendingDirection s'.phase.rest fd = none)
    (hat : (s'.connections.lookup fd = some o ∧ s'.Serves fd o) ∨
      (s'.connections.lookup fd = none ∧ s'.armed fd = none))
    (hnumbered : ∀ p ∈ s'.outstanding, p.1 < s'.nextObject) : s'.Inv := by
  have harmed : ∀ fd', fd' ≠ fd → s'.armedFor fd' = s.armedFor fd' := by
    intro fd' hne
    unfold armedFor
    rw [h.armed fd' hne, h.pending fd' hne]
  constructor
  case serves =>
    intro fd' o' hfd'
    by_cases hne : fd' = fd
    · subst hne
      rcases hat with ⟨hlookup, hserves⟩ | ⟨hlookup, -⟩
      · rw [hlookup] at hfd'
        cases hfd'
        exact hserves
      · rw [hlookup] at hfd'
        cases hfd'
    · -- another connection has another object
      rw [h.lookup fd' hne] at hfd'
      have hother : o' ≠ o := fun heq => halone fd' hne (heq ▸ hfd')
      obtain ⟨hknown, hsocket, hmode⟩ := hinv.serves fd' o' hfd'
      refine ⟨Nat.lt_of_lt_of_le hknown h.next, ?_, ?_⟩
      · rw [h.objects o' hother]
        exact hsocket
      · rw [harmed fd' hne, h.objects o' hother]
        exact hmode.alike (Session.Alike.refl _) (h.tickets o' hother)
  case stranger =>
    intro fd' hfd'
    by_cases hne : fd' = fd
    · subst hne
      rcases hat with ⟨hlookup, -⟩ | ⟨-, hoff⟩
      · rw [hlookup] at hfd'
        cases hfd'
      · unfold armedFor
        rw [hoff, hpending]
        rfl
    · rw [harmed fd' hne]
      exact hinv.stranger fd' ((h.lookup fd' hne).symm.trans hfd')
  case once => exact honce
  case off =>
    intro fd' hfd'
    by_cases hne : fd' = fd
    · subst hne
      exact absurd hpending hfd'
    · rw [h.armed fd' hne]
      rw [h.pending fd' hne] at hfd'
      exact hinv.off fd' hfd'
  case numbered => exact hnumbered

/-- The socket of an object is its only one. -/
theorem Inv.alone {s : Server} (hinv : s.Inv) {fd o : Nat} (h : s.connections.lookup fd = some o)
    (fd' : Nat) (hne : fd' ≠ fd) : s.connections.lookup fd' ≠ some o := by
  intro h'
  have hfd := (hinv.serves fd o h).2.1
  rw [(hinv.serves fd' o h').2.1] at hfd
  exact hne (Option.some.inj hfd)

/-! ## One connection in hand -/

/-- A callback that began in `s₀` has the connection `o` of the socket `fd` in
hand: nothing else has changed so far, and its event is no longer pending. -/
structure InHand (s₀ s : Server) (fd o : Nat) : Prop where
  inv : s₀.Inv
  elsewhere : Elsewhere s₀ s fd o
  alone : ∀ fd', fd' ≠ fd → s₀.connections.lookup fd' ≠ some o
  lookup : s.connections.lookup fd = some o
  known : o < s.nextObject
  socket : (s.objects o).conn.socketFd = some fd
  once : (s.phase.rest.map Event.source).Nodup
  pending : pendingDirection s.phase.rest fd = none
  numbered : ∀ p ∈ s.outstanding, p.1 < s.nextObject

@[simp] theorem closeConnection_outstanding (s : Server) (fd : Nat) (reason : CloseReason) :
    (s.closeConnection fd reason).outstanding = s.outstanding := by
  unfold closeConnection
  dsimp only
  split
  · rfl
  · rfl

@[simp] theorem closeConnection_phase (s : Server) (fd : Nat) (reason : CloseReason) :
    (s.closeConnection fd reason).phase = s.phase := by
  unfold closeConnection
  dsimp only
  split
  · rfl
  · rfl

@[simp] theorem closeConnection_nextObject (s : Server) (fd : Nat) (reason : CloseReason) :
    (s.closeConnection fd reason).nextObject = s.nextObject := by
  unfold closeConnection
  dsimp only
  split
  · rfl
  · rfl

theorem closeConnection_armed (s : Server) (fd : Nat) (reason : CloseReason) :
    (s.closeConnection fd reason).armed = Function.update s.armed fd none := by
  unfold closeConnection
  dsimp only
  split
  · rfl
  · rfl

/-- A connection that is closed is not found any more, and every other one is. -/
theorem closeConnection_lookup (s : Server) (fd : Nat) (reason : CloseReason) (fd' : Nat) :
    (s.closeConnection fd reason).connections.lookup fd' =
      if fd' = fd then none else s.connections.lookup fd' := by
  unfold closeConnection
  dsimp only
  split
  next hnone =>
    split
    next heq => exact heq ▸ hnone
    · rfl
  · split
    next heq =>
      subst heq
      exact AList.lookup_erase _ _
    next hne => exact AList.lookup_erase_ne hne

/-- Its object is closed. -/
theorem closeConnection_objects {s : Server} {fd o : Nat}
    (h : s.connections.lookup fd = some o) (reason : CloseReason) :
    (s.closeConnection fd reason).objects =
      Function.update s.objects o ((s.objects o).close reason) := by
  unfold closeConnection
  dsimp only
  split
  next hnone =>
    have hnone : s.connections.lookup fd = none := hnone
    rw [h] at hnone
    cases hnone
  next o' hsome =>
    have hsome : s.connections.lookup fd = some o' := hsome
    rw [h] at hsome
    cases hsome
    rfl

/-- No other object changes. -/
theorem closeConnection_objects_of_ne {s : Server} {fd o : Nat} {reason : CloseReason}
    (h : s.connections.lookup fd ≠ some o) :
    (s.closeConnection fd reason).objects o = s.objects o := by
  cases hlookup : s.connections.lookup fd with
  | some o' =>
      have hne : o ≠ o' := fun heq => h (heq ▸ hlookup)
      rw [closeConnection_objects hlookup, Function.update_of_ne hne]
  | none =>
      unfold closeConnection
      dsimp only
      split
      · rfl
      next o' hsome =>
        have hsome : s.connections.lookup fd = some o' := hsome
        rw [hlookup] at hsome
        cases hsome

/-- Arming a socket touches no other one. -/
theorem arm_elsewhere (s : Server) (fd o : Nat) (dir : Option Direction) :
    Elsewhere s (s.arm fd dir) fd o where
  lookup _ _ := rfl
  armed _ hne := Function.update_of_ne hne _ _
  pending _ _ := rfl
  objects _ _ := rfl
  tickets _ _ := le_rfl
  next := le_rfl

/-- Closing a connection touches no other one. -/
theorem closeConnection_elsewhere {s : Server} {fd o : Nat}
    (h : s.connections.lookup fd = some o) (reason : CloseReason) :
    Elsewhere s (s.closeConnection fd reason) fd o where
  lookup fd' hne := by rw [closeConnection_lookup, if_neg hne]
  armed fd' hne := by rw [closeConnection_armed, Function.update_of_ne hne]
  pending fd' _ := by rw [closeConnection_phase]
  objects o' hne := by rw [closeConnection_objects h, Function.update_of_ne hne]
  tickets o' _ := tickets_mono (closeConnection_outstanding s fd reason).le o'
  next := (closeConnection_nextObject s fd reason).ge

namespace InHand

variable {s₀ s : Server} {fd o : Nat}

/-- A session in hand is replaced by one on the same socket. -/
theorem setSession (h : InHand s₀ s fd o) {x : Session}
    (hsocket : x.conn.socketFd = (s.objects o).conn.socketFd) :
    InHand s₀ (s.setSession o x) fd o where
  inv := h.inv
  elsewhere := h.elsewhere.trans
    { lookup := fun _ _ => rfl
      armed := fun _ _ => rfl
      pending := fun _ _ => rfl
      objects := fun o' hne => Function.update_of_ne hne _ _
      tickets := fun _ _ => le_rfl
      next := le_rfl }
  alone := h.alone
  lookup := h.lookup
  known := h.known
  socket := by
    unfold Server.setSession
    dsimp only
    rw [Function.update_self]
    exact hsocket.trans h.socket
  once := h.once
  pending := h.pending
  numbered := h.numbered

theorem setMetrics (h : InHand s₀ s fd o) (m : Metrics) : InHand s₀ { s with metrics := m } fd o :=
  ⟨h.inv, h.elsewhere.trans ⟨fun _ _ => rfl, fun _ _ => rfl, fun _ _ => rfl, fun _ _ => rfl,
    fun _ _ => le_rfl, le_rfl⟩, h.alone, h.lookup, h.known, h.socket, h.once, h.pending,
    h.numbered⟩

theorem isOpen (h : InHand s₀ s fd o) : (s.objects o).conn.isOpen = true := by
  unfold Connection.isOpen
  rw [h.socket]
  rfl

/-- The connection is closed. -/
theorem close (h : InHand s₀ s fd o) (reason : CloseReason) :
    (s.closeConnection fd reason).Inv := by
  apply h.inv.changed (h.elsewhere.trans (closeConnection_elsewhere h.lookup reason)) h.alone
  · rw [closeConnection_phase]
    exact h.once
  · rw [closeConnection_phase]
    exact h.pending
  · right
    constructor
    · rw [closeConnection_lookup, if_pos rfl]
    · rw [closeConnection_armed, Function.update_self]
  · rw [closeConnection_outstanding, closeConnection_nextObject]
    exact h.numbered

/-- The socket is armed again, in a mode for which it can be; or that fails. -/
theorem rearm (h : InHand s₀ s fd o) {dir : Direction}
    (hleft : (s.objects o).Left (.rearm dir)) (htickets : s.tickets o = 0) (success : Bool) :
    (s.rearm fd dir success).Inv := by
  unfold Server.rearm
  split
  case isFalse => exact h.close _
  case isTrue =>
    have harm := arm_elsewhere s fd o (some dir)
    refine h.inv.changed (h.elsewhere.trans harm) h.alone h.once h.pending (.inl ⟨h.lookup, ?_⟩)
      h.numbered
    refine ⟨h.known, h.socket, ?_⟩
    have harmed : (s.arm fd (some dir)).armedFor fd = some dir := by
      unfold armedFor Server.arm
      dsimp only
      rw [Function.update_self]
      rfl
    rw [harmed]
    exact ⟨hleft, htickets⟩

/-- The request stays with the pool, and the socket unarmed. -/
theorem handedOver (h : InHand s₀ s fd o) (hx : (s.objects o).HandedOver)
    (htickets : s.tickets o ≤ {(o, (s.objects o).hist.requests.length - 1)})
    (harmed : s.armed fd = none) : s.Inv := by
  refine h.inv.changed h.elsewhere h.alone h.once h.pending (.inl ⟨h.lookup, ?_⟩) h.numbered
  refine ⟨h.known, h.socket, ?_⟩
  have hfor : s.armedFor fd = none := by
    unfold armedFor
    rw [harmed, h.pending]
    rfl
  rw [hfor]
  exact ⟨hx, htickets⟩

end InHand

/-- A connection with no pending event can be taken in hand. -/
theorem Inv.inHand {s : Server} (hinv : s.Inv) {fd o : Nat}
    (h : s.connections.lookup fd = some o) (hpending : pendingDirection s.phase.rest fd = none) :
    InHand s s fd o where
  inv := hinv
  elsewhere := ⟨fun _ _ => rfl, fun _ _ => rfl, fun _ _ => rfl, fun _ _ => rfl,
    fun _ _ => le_rfl, le_rfl⟩
  alone := hinv.alone h
  lookup := h
  known := (hinv.serves fd o h).1
  socket := (hinv.serves fd o h).2.1
  once := hinv.once
  pending := hpending
  numbered := hinv.numbered

/-! ## Events of clients -/

/-- A source that is not among the events has no pending direction. -/
theorem pendingDirection_of_notMem {events : List Event} {fd : Nat}
    (h : Source.socket fd ∉ events.map Event.source) : pendingDirection events fd = none := by
  induction events with
  | nil => rfl
  | cons event events ih =>
      rw [List.map_cons, List.mem_cons, not_or] at h
      cases event with
      | client fd' dir error =>
          have hne : fd' ≠ fd := fun heq => h.1 (heq ▸ rfl)
          unfold pendingDirection
          rw [if_neg hne]
          exact ih h.2
      | wakeup => exact ih h.2
      | listener => exact ih h.2

/-- The event at the head of the batch is taken up: its connection is in hand. It
was armed in the direction of the event, and no response for it is on its way. -/
theorem Inv.takeEvent {s : Server} (hinv : s.Inv) {fd : Nat} {dir : Direction} {error : Bool}
    {rest : List Event} (hphase : s.phase = .batch (.client fd dir error :: rest)) :
    ∃ o, s.connections.lookup fd = some o ∧ InHand s { s with phase := .batch rest } fd o ∧
      (s.objects o).Left (.rearm dir) ∧
      ({ s with phase := .batch rest } : Server).tickets o = 0 ∧ s.armed fd = none := by
  have hrest : s.phase.rest = .client fd dir error :: rest := by
    rw [hphase]
    rfl
  have hfor : pendingDirection s.phase.rest fd = some dir := by
    rw [hrest]
    unfold pendingDirection
    rw [if_pos rfl]
  -- one-shot: the socket is no longer armed, its event stands for it
  have hoff : s.armed fd = none := hinv.off fd (by simp [hfor])
  have harmed : s.armedFor fd = some dir := by
    unfold armedFor
    rw [hoff, hfor]
    rfl
  have honce := hinv.once
  rw [hrest, List.map_cons, List.nodup_cons] at honce
  cases hlookup : s.connections.lookup fd with
  | none =>
      -- a stranger is not armed
      rw [hinv.stranger fd hlookup] at harmed
      cases harmed
  | some o =>
      obtain ⟨hknown, hsocket, hmode⟩ := hinv.serves fd o hlookup
      rw [harmed] at hmode
      have hready : s.phase.ready = [] := by
        rw [hphase]
        rfl
      have hout : ({ s with phase := .batch rest } : Server).outstanding = s.outstanding := by
        unfold outstanding
        rw [hready]
        rfl
      have hnone : ({ s with phase := .batch rest } : Server).tickets o = 0 := by
        unfold tickets
        rw [hout]
        exact hmode.2
      refine ⟨o, rfl, ?_, hmode.1, hnone, hoff⟩
      constructor
      case inv => exact hinv
      case elsewhere =>
        refine ⟨fun _ _ => rfl, fun _ _ => rfl, ?_, fun _ _ => rfl,
          fun o' _ => tickets_mono hout.le o', le_rfl⟩
        intro fd' hne
        rw [hrest]
        exact (if_neg (Ne.symm hne)).symm
      case alone => exact hinv.alone hlookup
      case lookup => exact hlookup
      case known => exact hknown
      case socket => exact hsocket
      case once => exact honce.2
      case pending => exact pendingDirection_of_notMem honce.1
      case numbered =>
        rw [hout]
        exact hinv.numbered

/-- A new task adds its request to those under way. -/
theorem outstanding_enqueue (s : Server) (t : Task) :
    ({ s with tasks := s.tasks ++ [t] } : Server).outstanding = t.ticket ::ₘ s.outstanding := by
  unfold outstanding
  rw [Multiset.cons_coe, Multiset.coe_eq_coe]
  simp only [List.map_append, List.map_cons, List.map_nil, List.append_assoc,
    List.singleton_append]
  exact List.perm_middle

/-- The request of the connection in hand goes to the pool. -/
theorem InHand.enqueue {s₀ s : Server} {fd o : Nat} (h : InHand s₀ s fd o) {t : Task}
    (ht : t.conn = o) : InHand s₀ { s with tasks := s.tasks ++ [t] } fd o where
  inv := h.inv
  elsewhere := h.elsewhere.trans
    { lookup := fun _ _ => rfl
      armed := fun _ _ => rfl
      pending := fun _ _ => rfl
      objects := fun _ _ => rfl
      tickets := by
        intro o' hne
        unfold tickets
        rw [outstanding_enqueue, Multiset.filter_cons_of_neg]
        exact fun heq => hne (heq.symm.trans ht)
      next := le_rfl }
  alone := h.alone
  lookup := h.lookup
  known := h.known
  socket := h.socket
  once := h.once
  pending := h.pending
  numbered := by
    intro p hp
    rw [outstanding_enqueue, Multiset.mem_cons] at hp
    rcases hp with rfl | hp
    · have hconn : t.ticket.1 = o := ht
      rw [hconn]
      exact h.known
    · exact h.numbered p hp

/-- **What a callback leaves behind, put into the server.** -/
theorem InHand.conclude {s₀ s : Server} {fd o : Nat} (h : InHand s₀ s fd o)
    (htickets : s.tickets o = 0) (harmed : s.armed fd = none) {x : Session} {outcome : Outcome}
    (hx : x.Left outcome) (hsocket : x.conn.socketFd = (s.objects o).conn.socketFd)
    (success : Bool) : (s.conclude fd o x success outcome).Inv := by
  have hself : (s.setSession o x).objects o = x := Function.update_self _ _ _
  have hset := h.setSession hsocket
  cases outcome with
  | wait => exact hx.elim
  | rearm dir =>
      exact hset.rearm (by rw [hself]; exact hx) htickets success
  | close reason => exact hset.close reason
  | reject status =>
      have hleft : ((s.setSession o x).objects o).Left (.rearm .write) := by
        rw [hself]
        exact .inl hx
      exact (hset.setMetrics (s.metrics.countRejection status)).rearm hleft htickets success
  | handOver request =>
      have htask := (hset.enqueue (t := ⟨fd, o, x.hist.requests.length - 1, request⟩) rfl).setMetrics
        s.metrics.countHandOver
      refine htask.handedOver (by dsimp only; rw [hself]; exact hx) ?_ harmed
      dsimp only
      rw [hself]
      -- the request under way is the one just handed over
      have hout : (s.conclude fd o x success (.handOver request)).tickets o =
          (o, x.hist.requests.length - 1) ::ₘ s.tickets o := by
        unfold tickets
        have := outstanding_enqueue (s.setSession o x) ⟨fd, o, x.hist.requests.length - 1, request⟩
        have hcons : (s.conclude fd o x success (.handOver request)).outstanding =
            (o, x.hist.requests.length - 1) ::ₘ s.outstanding := this
        rw [hcons, Multiset.filter_cons_of_pos]
        rfl
      refine le_of_eq (hout.trans ?_)
      rw [htickets]
      rfl

/-! ## Completed responses -/

/-- The first response of `process_completions` is taken up. -/
theorem outstanding_ready {s : Server} {c : Completion} {ready : List Completion}
    {rest : List Event} (hphase : s.phase = .completing (c :: ready) rest) :
    s.outstanding =
      c.ticket ::ₘ ({ s with phase := .completing ready rest } : Server).outstanding := by
  have hready : s.phase.ready = c :: ready := by
    rw [hphase]
    rfl
  unfold outstanding
  rw [hready, Multiset.cons_coe, Multiset.coe_eq_coe]
  exact List.perm_middle

/-- A response that arrives at its own connection is the one for the request that
the connection has handed over. -/
theorem Inv.arrival {s : Server} (hinv : s.Inv) {c : Completion} {ready : List Completion}
    {rest : List Event} (hphase : s.phase = .completing (c :: ready) rest)
    (hlookup : s.connections.lookup c.item.fd = some c.item.conn) :
    (s.objects c.item.conn).HandedOver ∧
      c.serial = (s.objects c.item.conn).hist.requests.length - 1 ∧
      s.armedFor c.item.fd = none ∧ s.tickets c.item.conn = {c.ticket} := by
  obtain ⟨-, -, hmode⟩ := hinv.serves _ _ hlookup
  have hmem : c.ticket ∈ s.tickets c.item.conn := by
    unfold tickets
    rw [Multiset.mem_filter, outstanding_ready hphase]
    exact ⟨Multiset.mem_cons_self _ _, rfl⟩
  cases harmed : s.armedFor c.item.fd with
  | some dir =>
      rw [harmed] at hmode
      rw [hmode.2] at hmem
      exact absurd hmem (Multiset.notMem_zero _)
  | none =>
      rw [harmed] at hmode
      obtain ⟨hhanded, hone⟩ := hmode
      have hticket := Multiset.mem_singleton.1 (Multiset.mem_of_le hone hmem)
      refine ⟨hhanded, congrArg Prod.snd hticket, rfl, ?_⟩
      refine le_antisymm ?_ (Multiset.singleton_le.2 hmem)
      rw [hticket]
      exact hone

/-- A socket that counts as armed for nothing is disarmed and not reported. -/
theorem armedFor_none {s : Server} {fd : Nat} (h : s.armedFor fd = none) :
    s.armed fd = none ∧ pendingDirection s.phase.rest fd = none := by
  unfold armedFor at h
  cases harmed : s.armed fd with
  | some dir =>
      rw [harmed] at h
      cases h
  | none =>
      rw [harmed] at h
      exact ⟨rfl, h⟩

/-- It holds when a response comes back, to its connection or to none. -/
theorem processCompletion_inv {s : Server} (hinv : s.Inv) {c : Completion}
    {ready : List Completion} {rest : List Event} (hphase : s.phase = .completing (c :: ready) rest)
    (ans : Answers) :
    (({ s with phase := .completing ready rest } : Server).processCompletion ans c).Inv := by
  have hrest : s.phase.rest = rest := by
    rw [hphase]
    rfl
  have hout := outstanding_ready hphase
  have honce := hinv.once
  rw [hrest] at honce
  have hsame : ∀ fd, ({ s with phase := .completing ready rest } : Server).armedFor fd =
      s.armedFor fd := by
    intro fd
    unfold armedFor
    rw [hrest]
    rfl
  -- a response that is dropped is no longer on its way
  have hdropped : ({ s with phase := .completing ready rest } : Server).Inv := by
    refine hinv.unchanged (fun _ => rfl) (fun _ => Session.Alike.refl _) hsame ?_ rfl honce ?_
    · rw [hout]
      exact Multiset.le_cons_self _ _
    · intro fd hfd
      exact hinv.off fd (hrest.symm ▸ hfd)
  unfold processCompletion
  dsimp only
  split
  case h_1 => exact hdropped
  case h_2 o hlookup =>
    split
    case isTrue => exact hdropped
    case isFalse hown =>
      rw [not_or, not_ne_iff, not_not] at hown
      obtain ⟨rfl, -⟩ := hown
      obtain ⟨hhanded, hserial, harmed, htickets⟩ := hinv.arrival hphase hlookup
      have hnone : ({ s with phase := .completing ready rest } : Server).tickets c.item.conn = 0 := by
        unfold tickets at htickets ⊢
        rw [hout, Multiset.filter_cons_of_pos _ (by rfl)] at htickets
        exact (Multiset.cons_inj_right _).1 htickets
      have hhand : InHand s { s with phase := .completing ready rest } c.item.fd c.item.conn := by
        have hpending := (armedFor_none harmed).2
        rw [hrest] at hpending
        constructor
        case inv => exact hinv
        case elsewhere =>
          refine ⟨fun _ _ => rfl, fun _ _ => rfl, fun _ _ => ?_, fun _ _ => rfl,
            fun o' _ => tickets_mono ?_ o', le_rfl⟩
          · rw [hrest]
            rfl
          · rw [hout]
            exact Multiset.le_cons_self _ _
        case alone => exact hinv.alone hlookup
        case lookup => exact hlookup
        case known => exact (hinv.serves _ _ hlookup).1
        case socket => exact (hinv.serves _ _ hlookup).2.1
        case once => exact honce
        case pending => exact hpending
        case numbered =>
          intro p hp
          apply hinv.numbered
          rw [hout]
          exact Multiset.mem_cons_of_mem hp
      -- the worker is through, and its response is to be written
      have hwriting := Session.install_writing (x := (s.objects c.item.conn).workerDone)
        hhanded.processing rfl hhanded.answered hhanded.finished hhanded.secured s.now ans
        c.serial c.item.conn false c.item.response
      have hsocket := Session.install_sameSocket (s.objects c.item.conn).workerDone
        s.now ans c.serial c.item.conn false c.item.response
      refine (hhand.setSession hsocket.1).rearm ?_ hnone ans.rearmed
      unfold Server.setSession
      dsimp only
      rw [Function.update_self]
      exact .inl hwriting

/-! ## The other steps -/

/-- A connection is closed while no event is pending. -/
theorem Inv.close {s : Server} (hinv : s.Inv) (hrest : s.phase.rest = []) (fd : Nat)
    (reason : CloseReason) : (s.closeConnection fd reason).Inv := by
  cases hlookup : s.connections.lookup fd with
  | some o =>
      refine (hinv.inHand hlookup ?_).close reason
      rw [hrest]
      rfl
  | none =>
      have hstranger := (armedFor_none (hinv.stranger fd hlookup)).1
      have hsame : s.closeConnection fd reason = s := by
        unfold closeConnection
        dsimp only
        split
        next hnone =>
          unfold arm
          rw [← hstranger, Function.update_eq_self]
        next o hsome =>
          have hsome : s.connections.lookup fd = some o := hsome
          rw [hlookup] at hsome
          cases hsome
      rw [hsame]
      exact hinv

theorem Inv.setMetrics {s : Server} (hinv : s.Inv) (m : Metrics) :
    ({ s with metrics := m } : Server).Inv :=
  hinv.unchanged (fun _ => rfl) (fun _ => Session.Alike.refl _) (fun _ => rfl) le_rfl rfl
    hinv.once hinv.off

/-- The invariant holds over a sweep. -/
theorem timeOut_foldl_inv {s : Server} (hinv : s.Inv) (hrest : s.phase.rest = [])
    (es : List (Nat × CloseReason)) : (es.foldl timeOut s).Inv ∧ (es.foldl timeOut s).phase = s.phase := by
  induction es generalizing s with
  | nil => exact ⟨hinv, rfl⟩
  | cons e es ih =>
      have hone : (s.timeOut e).Inv := (hinv.setMetrics
        (if e.2 = .handlerTimeout then s.metrics.countTimeout else s.metrics)).close hrest e.1 e.2
      have hphase : (s.timeOut e).phase = s.phase := closeConnection_phase _ _ _
      obtain ⟨hall, hsame⟩ := ih hone (by rw [hphase]; exact hrest)
      exact ⟨hall, hsame.trans hphase⟩

/-- A direction that is pending was reported. -/
theorem pendingDirection_eq_some {events : List Event} {fd : Nat} {dir : Direction}
    (h : pendingDirection events fd = some dir) : ∃ error, .client fd dir error ∈ events := by
  induction events with
  | nil => cases h
  | cons event events ih =>
      cases event with
      | client fd' dir' error =>
          unfold pendingDirection at h
          split at h
          next heq =>
            cases h
            exact ⟨error, heq ▸ List.mem_cons_self⟩
          · obtain ⟨error', hmem⟩ := ih h
            exact ⟨error', List.mem_cons_of_mem _ hmem⟩
      | wakeup =>
          obtain ⟨error, hmem⟩ := ih h
          exact ⟨error, List.mem_cons_of_mem _ hmem⟩
      | listener =>
          obtain ⟨error, hmem⟩ := ih h
          exact ⟨error, List.mem_cons_of_mem _ hmem⟩

/-- A socket that was reported is pending in some direction. -/
theorem pendingDirection_isSome {events : List Event} {fd : Nat}
    (h : Source.socket fd ∈ events.map Event.source) : ∃ dir, pendingDirection events fd = some dir := by
  induction events with
  | nil => cases h
  | cons event events ih =>
      cases event with
      | client fd' dir error =>
          unfold pendingDirection
          split
          · exact ⟨dir, rfl⟩
          next hne =>
            rcases List.mem_cons.1 h with heq | hmem
            · cases heq
              exact absurd rfl hne
            · exact ih hmem
      | wakeup =>
          rcases List.mem_cons.1 h with heq | hmem
          · cases heq
          · exact ih hmem
      | listener =>
          rcases List.mem_cons.1 h with heq | hmem
          · cases heq
          · exact ih hmem

/-- The invariant holds when `epoll_wait` returns: what it reports is disarmed. -/
theorem poll_inv {s : Server} (hinv : s.Inv) (hphase : s.phase = .waiting) {events : List Event}
    (hreports : s.Reports events) : ({ s.disarm events with phase := .batch events } : Server).Inv := by
  obtain ⟨-, honce, hevents⟩ := hreports
  have hrest : s.phase.rest = [] := by
    rw [hphase]
    rfl
  have hready : s.phase.ready = [] := by
    rw [hphase]
    rfl
  have harmed : ∀ fd, ({ s.disarm events with phase := .batch events } : Server).armedFor fd =
      s.armedFor fd := by
    intro fd
    unfold armedFor disarm
    rw [hrest]
    dsimp only
    by_cases hmem : Source.socket fd ∈ events.map Event.source
    · -- the direction moves from the arming to the event
      rw [if_pos hmem]
      obtain ⟨dir, hdir⟩ := pendingDirection_isSome hmem
      obtain ⟨error, hevent⟩ := pendingDirection_eq_some hdir
      have hwas : s.armed fd = some dir := hevents _ hevent
      rw [hwas]
      exact hdir
    · rw [if_neg hmem]
      have hnone : pendingDirection events fd = none := pendingDirection_of_notMem hmem
      exact congrArg _ hnone
  refine hinv.unchanged (fun _ => rfl) (fun _ => Session.Alike.refl _) harmed ?_ rfl honce ?_
  · unfold outstanding
    rw [hready]
    exact le_rfl
  · intro fd hfd
    unfold disarm
    dsimp only
    by_cases hmem : Source.socket fd ∈ events.map Event.source
    · rw [if_pos hmem]
    · exact absurd (pendingDirection_of_notMem hmem) hfd

theorem new_idle (fd now : Nat) (clientIp : Bytes) (tls : Bool) :
    (Session.new fd now clientIp tls).Idle :=
  ⟨⟨rfl, rfl, rfl, rfl, rfl⟩, fun _ _ h => by cases h⟩

/-- A new connection is idle. -/
theorem accept_inv {s : Server} (hinv : s.Inv) {fd : Nat}
    (hlookup : s.connections.lookup fd = none) (clientIp : Bytes) (tls : Bool) :
    (s.accept fd clientIp tls).Inv := by
  have hpending := (armedFor_none (hinv.stranger fd hlookup)).2
  refine hinv.changed (o := s.nextObject) ?_ ?_ hinv.once hpending (.inl ⟨?_, ?_⟩) ?_
  · refine ⟨fun fd' hne => ?_, fun fd' hne => ?_, fun _ _ => rfl, fun o' hne => ?_,
      fun _ _ => le_rfl, Nat.le_succ _⟩
    · exact AList.lookup_insert_ne hne
    · exact Function.update_of_ne hne _ _
    · exact Function.update_of_ne hne _ _
  · intro fd' _ h
    exact absurd (hinv.serves fd' _ h).1 (Nat.lt_irrefl _)
  · exact AList.lookup_insert _
  · have hself : (s.accept fd clientIp tls).objects s.nextObject = .new fd s.now clientIp tls :=
      Function.update_self _ _ _
    have harmed : (s.accept fd clientIp tls).armedFor fd = some .read := by
      unfold armedFor accept arm
      dsimp only
      rw [Function.update_self]
      rfl
    -- no request of an object that did not exist is under way
    have hnone : s.tickets s.nextObject = 0 := by
      unfold tickets
      rw [Multiset.filter_eq_nil]
      intro p hp heq
      have := hinv.numbered p hp
      omega
    refine ⟨Nat.lt_succ_self _, ?_, ?_⟩
    · rw [hself]
      rfl
    · rw [hself, harmed]
      exact ⟨new_idle _ _ _ _, hnone⟩
  · intro p hp
    exact Nat.lt_succ_of_lt (hinv.numbered p hp)

/-- The place of an element in a list. -/
theorem exists_split {α : Type*} {l : List α} {k : Nat} {x : α} (h : l[k]? = some x) :
    ∃ front back, l = front ++ x :: back ∧ (∀ y, l.set k y = front ++ y :: back) ∧
      l.eraseIdx k = front ++ back := by
  obtain ⟨hlt, hx⟩ := List.getElem?_eq_some_iff.1 h
  refine ⟨l.take k, l.drop (k + 1), ?_, fun y => ?_, ?_⟩
  · rw [← hx, ← List.drop_eq_getElem_cons hlt, List.take_append_drop]
  · rw [List.set_eq_take_append_cons_drop, if_pos hlt]
  · exact List.eraseIdx_eq_take_drop_succ l k

/-- What a change of the running tasks and of `completed_` does to the requests
under way. -/
theorem outstanding_le {s s' : Server} (htasks : s'.tasks = s.tasks) (hphase : s'.phase = s.phase)
    {front back : List RunningTask} {r : RunningTask} (rs : List RunningTask)
    (added : List Completion) (hrunning : s.running = front ++ r :: back)
    (hrunning' : s'.running = front ++ rs ++ back) (hcompleted : s'.completed = s.completed ++ added)
    (hr : (rs.filterMap RunningTask.ticket? ++ added.map Completion.ticket : List Ticket).Subperm
      r.ticket?.toList) : s'.outstanding ≤ s.outstanding := by
  have hsplit : s.running.filterMap RunningTask.ticket? =
      front.filterMap RunningTask.ticket? ++ (r.ticket?.toList ++
        back.filterMap RunningTask.ticket?) := by
    rw [hrunning, List.filterMap_append, List.filterMap_cons]
    cases r.ticket? with
    | none => rfl
    | some p => rfl
  have hle : (rs.filterMap RunningTask.ticket? : Multiset Ticket) +
      (added.map Completion.ticket : Multiset Ticket) ≤ (r.ticket?.toList : Multiset Ticket) := by
    rw [Multiset.coe_add, Multiset.coe_le]
    exact hr
  unfold outstanding
  rw [htasks, hphase, hrunning', hcompleted, hsplit]
  simp only [List.filterMap_append, List.map_append, ← Multiset.coe_add]
  -- only the last summand differs
  calc _ = (s.tasks.map Task.ticket : Multiset Ticket) +
          (front.filterMap RunningTask.ticket? : Multiset Ticket) +
          (back.filterMap RunningTask.ticket? : Multiset Ticket) +
          (s.completed.map Completion.ticket : Multiset Ticket) +
          (s.phase.ready.map Completion.ticket : Multiset Ticket) +
          ((rs.filterMap RunningTask.ticket? : Multiset Ticket) +
            (added.map Completion.ticket : Multiset Ticket)) := by abel
    _ ≤ (s.tasks.map Task.ticket : Multiset Ticket) +
          (front.filterMap RunningTask.ticket? : Multiset Ticket) +
          (back.filterMap RunningTask.ticket? : Multiset Ticket) +
          (s.completed.map Completion.ticket : Multiset Ticket) +
          (s.phase.ready.map Completion.ticket : Multiset Ticket) +
          (r.ticket?.toList : Multiset Ticket) := by gcongr
    _ = _ := by abel

/-- A worker changes the record of a connection, and not the connection. -/
theorem push_objects (s : Server) (k : Nat) (t : Task) (pushed : List CompletedResponse) (o : Nat) :
    (s.objects o).Alike ((s.push k t pushed).objects o) := by
  cases pushed with
  | nil => exact Session.Alike.refl _
  | cons item pushed =>
      by_cases ho : o = t.conn
      · subst ho
        have hself : (s.push k t (item :: pushed)).objects t.conn =
            { s.objects t.conn with hist.produced := (s.objects t.conn).hist.produced ++
              [⟨t.serial, t.request, item.response⟩] } := Function.update_self _ _ _
        rw [hself]
        exact ⟨rfl, rfl, rfl, rfl⟩
      · have hother : (s.push k t (item :: pushed)).objects o = s.objects o :=
          Function.update_of_ne ho _ _
        rw [hother]
        exact Session.Alike.refl _

/-- A response that is pushed takes the place of its task. -/
theorem push_outstanding {s : Server} {k : Nat} {t : Task}
    (hk : s.running[k]? = some ⟨.working, t⟩) {pushed : List CompletedResponse}
    (hpushed : pushed = [] ∨ ∃ res, pushed = [⟨t.fd, t.conn, res⟩]) :
    (s.push k t pushed).outstanding ≤ s.outstanding := by
  obtain ⟨front, back, hrunning, hset, -⟩ := exists_split hk
  rcases hpushed with rfl | ⟨res, rfl⟩
  · refine outstanding_le rfl rfl [⟨.leaving, t⟩] [] hrunning ?_ ?_ ?_
    · rw [List.append_assoc]
      exact hset _
    · exact (List.append_nil _).symm
    · exact List.nil_subperm
  · refine outstanding_le rfl rfl [⟨.pushed, t⟩] [⟨t.serial, t.fd, t.conn, res⟩]
      hrunning ?_ rfl ?_
    · rw [List.append_assoc]
      exact hset _
    · exact List.Subperm.refl _

/-! ## All steps -/

variable {H : Type} {cfg : Config H}

theorem start_inv (now : Nat) : (Server.start now).Inv where
  serves := fun fd o h => by cases h
  stranger := fun _ _ => rfl
  once := List.nodup_nil
  off := fun _ h => absurd rfl h
  numbered := fun _ h => absurd h (Multiset.notMem_zero _)

/-- The step that `phase` takes leaves out an event that is not a client's. -/
theorem Inv.passEvent {s : Server} (hinv : s.Inv) {event : Event} {rest : List Event}
    (hphase : s.phase = .batch (event :: rest)) (hevent : ∀ fd, pendingDirection (event :: rest) fd =
      pendingDirection rest fd) {phase : Phase} (hrest : phase.rest = rest)
    (hready : phase.ready = []) : ({ s with phase } : Server).Inv := by
  have hwas : s.phase.rest = event :: rest := by
    rw [hphase]
    rfl
  have honce := hinv.once
  rw [hwas, List.map_cons, List.nodup_cons] at honce
  refine hinv.unchanged (fun _ => rfl) (fun _ => Session.Alike.refl _) (fun fd => ?_) ?_ rfl ?_ ?_
  · unfold armedFor
    dsimp only
    rw [hwas, hrest, hevent]
  · unfold outstanding
    dsimp only
    rw [hready, hphase]
    exact le_rfl
  · dsimp only
    rw [hrest]
    exact honce.2
  · intro fd hfd
    dsimp only at hfd
    rw [hrest, ← hevent, ← hwas] at hfd
    exact hinv.off fd hfd

/-- A step that keeps the connections, their sockets and their events. -/
theorem Inv.pass {s s' : Server} (hinv : s.Inv) (hconnections : s'.connections = s.connections)
    (hobjects : ∀ o, (s.objects o).Alike (s'.objects o)) (harmed : s'.armed = s.armed)
    (hrest : s'.phase.rest = s.phase.rest) (hnext : s'.nextObject = s.nextObject)
    (hout : s'.outstanding ≤ s.outstanding) : s'.Inv := by
  refine hinv.unchanged (fun _ => by rw [hconnections]) hobjects (fun fd => ?_) hout hnext ?_ ?_
  · unfold armedFor
    rw [harmed, hrest]
  · rw [hrest]
    exact hinv.once
  · rw [hrest, harmed]
    exact hinv.off

/-- Behind a batch there are neither events nor responses left. -/
theorem checkDrain_phase (s : Server) :
    s.checkDrain.phase.rest = [] ∧ s.checkDrain.phase.ready = [] := by
  unfold checkDrain
  dsimp only
  split
  · exact ⟨rfl, rfl⟩
  split
  · exact ⟨rfl, rfl⟩
  split
  · exact ⟨rfl, rfl⟩
  · exact ⟨rfl, rfl⟩

/-- The invariant holds behind the end of a batch. -/
theorem afterBatch_inv {s : Server} (hinv : s.Inv) (hphase : s.phase = .batch [])
    (settings : Settings) : ((s.beginDrain settings).cleanup settings).checkDrain.Inv := by
  have hbegin : (s.beginDrain settings).Inv ∧ (s.beginDrain settings).phase = .batch [] := by
    unfold beginDrain
    split
    · exact ⟨hinv.pass rfl (fun _ => Session.Alike.refl _) rfl rfl rfl le_rfl, hphase⟩
    · exact ⟨hinv, hphase⟩
  have hcleanup : ((s.beginDrain settings).cleanup settings).Inv ∧
      ((s.beginDrain settings).cleanup settings).phase = .batch [] := by
    unfold cleanup
    split
    · have hfold := timeOut_foldl_inv hbegin.1 (by rw [hbegin.2]; rfl)
        (((s.beginDrain settings).timeouts settings).filter (fun e => e.2 = .readTimeout) ++
          ((s.beginDrain settings).timeouts settings).filter (fun e => e.2 = .handlerTimeout) ++
          ((s.beginDrain settings).timeouts settings).filter
            (fun e => e.2 = .writeTimeout ∨ e.2 = .idleTimeout))
      exact ⟨hfold.1.pass rfl (fun _ => Session.Alike.refl _) rfl rfl rfl le_rfl, hfold.2.trans hbegin.2⟩
    · exact hbegin
  obtain ⟨hrest, hready⟩ := checkDrain_phase ((s.beginDrain settings).cleanup settings)
  refine hcleanup.1.pass rfl (fun _ => Session.Alike.refl _) rfl ?_ rfl ?_
  · rw [hrest, hcleanup.2]
    rfl
  · unfold outstanding
    rw [hready, hcleanup.2]
    exact le_rfl

/-- A change of phase that keeps the events and has no response in hand. -/
theorem Inv.setPhase {s : Server} (hinv : s.Inv) {phase : Phase} (hrest : phase.rest = s.phase.rest)
    (hready : phase.ready = []) : ({ s with phase } : Server).Inv := by
  refine hinv.pass rfl (fun _ => Session.Alike.refl _) rfl hrest rfl ?_
  unfold outstanding
  dsimp only
  rw [hready, List.map_nil, List.append_nil]
  exact Multiset.coe_le.2 (List.sublist_append_left _ _).subperm

/-- A worker that takes a task leaves what is outstanding. -/
theorem take_outstanding {s : Server} {t : Task} {tasks : List Task} (htasks : s.tasks = t :: tasks) :
    ({ s with tasks := tasks, running := s.running ++ [⟨.working, t⟩] } : Server).outstanding =
      s.outstanding := by
  unfold outstanding
  rw [htasks, Multiset.coe_eq_coe]
  have hticket : ([⟨.working, t⟩] : List RunningTask).filterMap RunningTask.ticket? = [t.ticket] := rfl
  dsimp only
  rw [List.filterMap_append, hticket, List.map_cons, List.append_assoc (tasks.map Task.ticket),
    List.append_assoc (tasks.map Task.ticket)]
  simp only [List.append_assoc, List.cons_append]
  exact (List.perm_middle.trans (List.Perm.refl _) |>.append_left _).trans List.perm_middle

/-- **Step lemma.** The invariant of the server is kept by every step. -/
theorem step_inv {s s' : Server} {a : Act H} (hinv : s.Inv) (hstep : step cfg s a = some s') :
    s'.Inv := by
  cases step_cases hstep with
  | tick nanos => exact hinv.pass rfl (fun _ => Session.Alike.refl _) rfl rfl rfl le_rfl
  | poll events hphase hreports => exact poll_inv hinv hphase hreports
  | pollFailed hphase => exact hinv.setPhase (by rw [hphase]; rfl) rfl
  | enterPipe hphase => exact hinv.passEvent hphase (fun _ => rfl) rfl rfl
  | enterListener hphase => exact hinv.passEvent hphase (fun _ => rfl) rfl rfl
  | clientError ans fd dir rest hphase =>
      obtain ⟨o, -, hhand, -⟩ := hinv.takeEvent hphase
      exact hhand.close _
  | clientGone hphase hlookup =>
      obtain ⟨o, hsome, -⟩ := hinv.takeEvent hphase
      rw [hlookup] at hsome
      cases hsome
  | client ans fd o dir rest x outcome hphase hlookup hreact =>
      obtain ⟨o', hsome, hhand, hleft, htickets, harmed⟩ := hinv.takeEvent hphase
      rw [hlookup] at hsome
      cases hsome
      -- what the callback may assume holds, since the connection was armed
      obtain ⟨hx, hsocket⟩ := Session.react_left hleft hhand.isOpen hreact
      exact hhand.conclude htickets harmed hx hsocket.1 ans.rearmed
  | accept fd clientIp hphase hlookup => exact accept_inv hinv hlookup clientIp cfg.tls
  | acceptEnd hphase => exact hinv.setPhase (by rw [hphase]; rfl) rfl
  | drainRead hphase hpipe =>
      refine hinv.pass rfl (fun _ => Session.Alike.refl _) rfl rfl rfl ?_
      unfold outstanding
      exact le_rfl
  | drainEnd hphase hend => exact hinv.setPhase (by rw [hphase]; rfl) rfl
  | swap hphase =>
      refine hinv.pass rfl (fun _ => Session.Alike.refl _) rfl (by rw [hphase]; rfl) rfl (le_of_eq ?_)
      unfold outstanding
      rw [hphase]
      simp [Phase.ready]
  | complete ans c ready rest hphase => exact processCompletion_inv hinv hphase ans
  | completeEnd hphase => exact hinv.setPhase (by rw [hphase]; rfl) rfl
  | afterBatch hphase => exact afterBatch_inv hinv hphase cfg.settings
  | take t tasks htasks hthread =>
      exact hinv.pass rfl (fun _ => Session.Alike.refl _) rfl rfl rfl (take_outstanding htasks).le
  | work k env t pushed hk htask =>
      -- at most one response, for the task's own connection
      have hpushed : pushed = [] ∨ ∃ res, pushed = [⟨t.fd, t.conn, res⟩] :=
        (workerTask_pushed htask).imp id fun ⟨_, _, _, h⟩ => ⟨_, h⟩
      refine hinv.pass ?_ (push_objects s k t pushed) ?_ ?_ ?_ (push_outstanding hk hpushed)
      all_goals cases pushed <;> rfl
  | notify k t hk =>
      obtain ⟨front, back, hrunning, hset, -⟩ := exists_split hk
      refine hinv.pass rfl (fun _ => Session.Alike.refl _) rfl rfl rfl ?_
      refine outstanding_le rfl rfl [⟨.leaving, t⟩] [] hrunning ?_
        (List.append_nil _).symm List.nil_subperm
      rw [List.append_assoc]
      exact hset _
  | exit k t hk =>
      obtain ⟨front, back, hrunning, -, herase⟩ := exists_split hk
      refine hinv.pass rfl (fun _ => Session.Alike.refl _) rfl rfl rfl ?_
      refine outstanding_le rfl rfl [] [] hrunning ?_
        (List.append_nil _).symm List.nil_subperm
      rw [List.append_nil]
      exact herase
  | requestStop => exact hinv.pass rfl (fun _ => Session.Alike.refl _) rfl rfl rfl le_rfl
  | stopNotify hstop => exact hinv.pass rfl (fun _ => Session.Alike.refl _) rfl rfl rfl le_rfl

theorem reachable_inv {s : Server} (h : Runs.Reachable (serverSystem cfg) s) : s.Inv := by
  apply Runs.Reachable.invariant ?_ ?_ h
  · rintro s ⟨now, rfl⟩
    exact start_inv now
  · intro s a s' _ hinv hstep
    exact step_inv hinv hstep

/-- A connection is with the pool, or is writing, or is idle. -/
theorem Inv.modes {s : Server} (hinv : s.Inv) {fd o : Nat}
    (hlookup : s.connections.lookup fd = some o) :
    (s.objects o).HandedOver ∨ (s.objects o).Writing ∨ (s.objects o).Idle := by
  obtain ⟨-, -, hmode⟩ := hinv.serves fd o hlookup
  cases harmed : s.armedFor fd with
  | none =>
      rw [harmed] at hmode
      exact .inl hmode.1
  | some dir =>
      rw [harmed] at hmode
      cases dir with
      | read => exact .inr (.inr hmode.1)
      | write =>
          rcases hmode.1 with hwriting | ⟨hidle, -⟩
          · exact .inr (.inl hwriting)
          · exact .inr (.inr hidle)

/-! ## The three modes of a plain connection -/

/-- A request is with the pool, and the socket is not armed. -/
structure WithPool (s : Server) (fd o : Nat) : Prop where
  processing : (s.objects o).conn.processing = true
  workerInFlight : (s.objects o).conn.workerInFlight = true
  noData : (s.objects o).conn.hasDataToWrite = false
  unarmed : s.armedFor fd = none
  /-- The last request has been handed over, and has no response yet. -/
  unanswered : (s.objects o).hist.installed.length + 1 = (s.objects o).hist.requests.length

/-- A response is being written. -/
structure Responding (s : Server) (fd o : Nat) : Prop where
  processing : (s.objects o).conn.processing = true
  workerInFlight : (s.objects o).conn.workerInFlight = false
  data : (s.objects o).conn.hasDataToWrite = true
  armed : s.armedFor fd = some .write

/-- The next request is being waited for, and is not complete in the buffer. -/
structure Listening (s : Server) (fd o : Nat) : Prop where
  processing : (s.objects o).conn.processing = false
  workerInFlight : (s.objects o).conn.workerInFlight = false
  noData : (s.objects o).conn.hasDataToWrite = false
  armed : s.armedFor fd = some .read
  incomplete : ∀ n c', (s.objects o).conn.toInbound.parseNext ≠ some (true, n, c')

/-- **One mode.** A plain connection is in exactly one of the three modes, in every
reachable state. -/
theorem one_mode {s : Server} (h : Runs.Reachable (serverSystem cfg) s) {fd o : Nat}
    (hfd : s.connections.lookup fd = some o) (hplain : (s.objects o).conn.usesTls = false) :
    (s.WithPool fd o ∧ ¬ s.Responding fd o ∧ ¬ s.Listening fd o) ∨
      (¬ s.WithPool fd o ∧ s.Responding fd o ∧ ¬ s.Listening fd o) ∨
      (¬ s.WithPool fd o ∧ ¬ s.Responding fd o ∧ s.Listening fd o) := by
  obtain ⟨-, -, hmode⟩ := (reachable_inv h).serves fd o hfd
  -- the flags tell the modes apart
  have hpool : s.WithPool fd o → ¬ s.Responding fd o ∧ ¬ s.Listening fd o := by
    intro hw
    constructor
    · intro hr
      cases hw.workerInFlight.symm.trans hr.workerInFlight
    · intro hl
      cases hw.workerInFlight.symm.trans hl.workerInFlight
  have hresponding : s.Responding fd o → ¬ s.WithPool fd o ∧ ¬ s.Listening fd o := by
    intro hr
    constructor
    · intro hw
      cases hw.workerInFlight.symm.trans hr.workerInFlight
    · intro hl
      cases hr.processing.symm.trans hl.processing
  have hlistening : s.Listening fd o → ¬ s.WithPool fd o ∧ ¬ s.Responding fd o := by
    intro hl
    constructor
    · intro hw
      cases hw.processing.symm.trans hl.processing
    · intro hr
      cases hr.processing.symm.trans hl.processing
  cases harmed : s.armedFor fd with
  | none =>
      rw [harmed] at hmode
      have hx := hmode.1
      have hw : s.WithPool fd o :=
        ⟨hx.processing, hx.workerInFlight, hx.noData, harmed, hx.answered⟩
      exact .inl ⟨hw, hpool hw⟩
  | some dir =>
      rw [harmed] at hmode
      cases dir with
      | read =>
          have hx : (s.objects o).Idle := hmode.1
          have hl : s.Listening fd o :=
            ⟨hx.processing, hx.workerInFlight, hx.noData, harmed, hx.incomplete⟩
          exact .inr (.inr ⟨(hlistening hl).1, (hlistening hl).2, hl⟩)
      | write =>
          rcases hmode.1 with hx | ⟨-, htls⟩
          · have hr : s.Responding fd o :=
              ⟨hx.processing, hx.workerInFlight, hx.data, harmed⟩
            exact .inr (.inl ⟨(hresponding hr).1, hr, (hresponding hr).2⟩)
          · cases hplain.symm.trans htls

/-- A connection whose request is with the pool. -/
theorem one_mode_handedOver :
    ∃ s, (serverSystem smallConfig).run (Server.start 0) (acceptOne ++ receiveOne getRequest) =
        some s ∧ (s.objects 0).conn.workerInFlight = true ∧
      ((s.WithPool 7 0 ∧ ¬ s.Responding 7 0 ∧ ¬ s.Listening 7 0) ∨
        (¬ s.WithPool 7 0 ∧ s.Responding 7 0 ∧ ¬ s.Listening 7 0) ∨
        (¬ s.WithPool 7 0 ∧ ¬ s.Responding 7 0 ∧ s.Listening 7 0)) := by
  have hrun : ((serverSystem smallConfig).run (Server.start 0)
      (acceptOne ++ receiveOne getRequest)).map (fun s => (s.connections.lookup 7,
        (s.objects 0).conn.usesTls, (s.objects 0).conn.workerInFlight)) =
      some (some 0, false, true) := by
    decide +kernel
  obtain ⟨s, hs, hvalues⟩ := Option.map_eq_some_iff.1 hrun
  have hlookup := congrArg (·.1) hvalues
  have hplain := congrArg (·.2.1) hvalues
  have hworker := congrArg (·.2.2) hvalues
  exact ⟨s, hs, hworker, one_mode (reachable_of_start hs) hlookup hplain⟩

end Server

end Oreshnek
