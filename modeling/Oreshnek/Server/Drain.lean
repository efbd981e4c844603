import Oreshnek.Server.Backlog

/-!
# The graceful drain

An object of a connection that is open is in `connections_` (`Owned`), and one that
has been closed has all its responses sent, or was closed for an outside reason
(`Settled`). When the drain ends by itself no connection has a request in flight,
so that no request is lost (`clean_drain`).
-/

namespace Oreshnek

namespace Session

/-- A connection has been closed or it is open. If it was closed for a reason of its
own, all its requests have been answered in full. -/
def Settled (x : Session) : Prop :=
  (x.hist.closedBy = none ↔ x.conn.isOpen = true) ∧
    ∀ reason, x.hist.closedBy = some reason →
      reason.external = true ∨ x.hist.finished = x.hist.requests.length

theorem isOpen_congr {x y : Session} (h : y.conn.socketFd = x.conn.socketFd) :
    y.conn.isOpen = x.conn.isOpen := by
  unfold Connection.isOpen
  rw [h]

/-- A connection closed from outside, or with all its requests answered, is settled. -/
theorem close_settled {x : Session} {reason : CloseReason}
    (h : reason.external = true ∨ x.hist.finished = x.hist.requests.length) :
    (x.close reason).Settled := by
  constructor
  · constructor
    · intro hnone
      cases hnone
    · intro hopen
      cases hopen
  · intro reason' hreason
    cases hreason
    exact h

/-- What has not been closed stays settled when its socket stays. -/
theorem Settled.keep {x y : Session} (h : x.Settled) (hopen : x.conn.isOpen = true)
    (hsocket : y.conn.socketFd = x.conn.socketFd) (hclosed : y.hist.closedBy = x.hist.closedBy) :
    y.Settled := by
  have hnone : y.hist.closedBy = none := hclosed.trans (h.1.2 hopen)
  constructor
  · rw [hnone, isOpen_congr hsocket, hopen]
    simp
  · intro reason hreason
    rw [hnone] at hreason
    cases hreason

/-- No callback closes the object by itself. -/
theorem react_closedBy {x y : Session} {draining limited overloaded : Bool} {now o : Nat}
    {ans : Answers} {dir : Direction} {outcome : Outcome} (hx : x.Left (.rearm dir))
    (hopen : x.conn.isOpen = true)
    (h : x.react draining limited overloaded now ans o dir = some (y, outcome)) :
    y.hist.closedBy = x.hist.closedBy := by
  have hentered : ∀ {z}, Entered x now ans z → z.hist.closedBy = x.hist.closedBy := by
    intro z hz
    cases hz with
    | plain => rfl
    | shaken => rfl
  rcases react_cases hx hopen h with hhandle | ⟨z, -, hhandle, -, hdispatch⟩
  · cases hhandle with
    | shaken => rfl
    | readEnd reason hz =>
        have hsame := hentered hz
        exact hsame
    | wrote => rfl
    | finished => rfl
  · have hz : z.hist.closedBy = x.hist.closedBy := by
      cases hhandle with
      | read hz =>
          have hsame := hentered hz
          exact hsame
      | reused => rfl
    cases hdispatch with
    | limited => exact hz
    | shed => exact hz
    | handedOver => exact hz
    | bad => exact hz
    | waits => exact hz

/-- A callback ends; if it closes the connection, then for an outside reason or with everything
answered. -/
theorem concluded_settled {x y : Session} {outcome : Outcome} (hx : x.Settled)
    (hopen : x.conn.isOpen = true) (hleft : y.Left outcome)
    (hsocket : y.conn.socketFd = x.conn.socketFd) (hclosed : y.hist.closedBy = x.hist.closedBy)
    (success : Bool) : (y.concluded success outcome).Settled := by
  have hkeep := hx.keep hopen hsocket hclosed
  unfold concluded
  cases outcome with
  | wait => exact hkeep
  | rearm dir =>
      dsimp only
      split
      · exact hkeep
      · exact close_settled (.inl rfl)
  | close reason => exact close_settled hleft
  | reject status =>
      dsimp only
      split
      · exact hkeep
      · exact close_settled (.inl rfl)
  | handOver request => exact hkeep

end Session

namespace Server

variable {H : Type} {cfg : Config H}

/-- The timeouts are all outside reasons. -/
theorem timeoutOf_external {settings : Settings} {now : Nat} {c : Connection}
    {reason : CloseReason} (h : timeoutOf settings now c = some reason) :
    reason.external = true := by
  rcases timeoutOf_reason h with rfl | rfl | rfl | rfl
  all_goals rfl

theorem serves_open {s : Server} (hinv : s.Inv) {fd o : Nat}
    (h : s.connections.lookup fd = some o) : (s.objects o).conn.isOpen = true := by
  unfold Connection.isOpen
  rw [(hinv.serves fd o h).2.1]
  rfl

/-- No move closes a connection without a reason. -/
theorem moves_settled {s : Server} {a : Act H} {o : Nat} {y : Session} (hinv : s.Inv)
    (hx : (s.objects o).Settled) (h : Moves cfg s a o y) : y.Settled := by
  cases h with
  | same => exact hx
  | created fd clientIp ha ho => exact ⟨⟨fun _ => rfl, fun _ => rfl⟩, fun _ h => by cases h⟩
  | failed => exact Session.close_settled (.inl rfl)
  | reacted ans fd dir rest x outcome ha hphase hlookup hleft hopen hreact =>
      obtain ⟨hafter, hsocket⟩ := Session.react_left hleft hopen hreact
      exact Session.concluded_settled hx hopen hafter hsocket.1
        (Session.react_closedBy hleft hopen hreact) ans.rearmed
  | completed ans c ready rest ha hphase hconn hlookup hhanded hserial =>
      have hwriting := Session.install_writing (x := (s.objects o).workerDone) hhanded.processing
        rfl hhanded.answered hhanded.finished hhanded.secured s.now ans c.serial o false
        c.item.response
      have hsocket := Session.install_sameSocket (s.objects o).workerDone s.now ans c.serial o
        false c.item.response
      exact Session.concluded_settled hx (serves_open hinv hlookup) hwriting.left hsocket.1 rfl
        ans.rearmed
  | timedOut fd reason ha hlookup hreason =>
      exact Session.close_settled (.inl (timeoutOf_external hreason))
  | pushed => exact hx

theorem reachable_settled {s : Server} (h : Runs.Reachable (serverSystem cfg) s) :
    ∀ o, o < s.nextObject → (s.objects o).Settled := by
  apply reached_session (J := fun _ x => x.Settled) ?_ ?_ h
  · exact fun o fd now clientIp => ⟨⟨fun _ => rfl, fun _ => rfl⟩, fun _ h => by cases h⟩
  · intro s a o y hs _ _ hx hmove
    exact moves_settled (reachable_inv hs.reachable) hx hmove

/-! ## Open objects are connections -/

/-- A connection stays, or its object is closed. -/
def Keeps (s s' : Server) : Prop :=
  ∀ fd o, s.connections.lookup fd = some o →
    s'.connections.lookup fd = some o ∨ (s'.objects o).conn.isOpen = false

/-- Closing a connection closes its object. -/
theorem closeConnection_keeps (s : Server) (fd : Nat) (reason : CloseReason) :
    Keeps s (s.closeConnection fd reason) := by
  intro fd' o h
  by_cases hfd : fd' = fd
  · subst hfd
    right
    rw [closeConnection_objects h, Function.update_self]
    rfl
  · left
    rw [closeConnection_lookup, if_neg hfd]
    exact h

theorem rearm_keeps (s : Server) (fd : Nat) (dir : Direction) (success : Bool) :
    Keeps s (s.rearm fd dir success) := by
  unfold rearm
  split
  · exact fun _ _ h => .inl h
  · exact closeConnection_keeps _ _ _

/-- The end of a callback keeps a connection or closes its object. -/
theorem conclude_keeps (s : Server) (fd o : Nat) (x : Session) (success : Bool)
    (outcome : Outcome) : Keeps s (s.conclude fd o x success outcome) := by
  cases outcome with
  | wait => exact fun _ _ h => .inl h
  | rearm dir => exact fun fd' o' h => rearm_keeps (s.setSession o x) fd dir success fd' o' h
  | close reason => exact fun fd' o' h => closeConnection_keeps (s.setSession o x) fd reason fd' o' h
  | reject status =>
      exact fun fd' o' h => rearm_keeps { s.setSession o x with
        metrics := s.metrics.countRejection status } fd .write success fd' o' h
  | handOver request => exact fun _ _ h => .inl h

/-- What is closed stays closed while others time out. -/
theorem foldl_timeOut_closed (es : List (Nat × CloseReason)) {s : Server} {o : Nat}
    (h : (s.objects o).conn.isOpen = false) :
    ((es.foldl timeOut s).objects o).conn.isOpen = false := by
  induction es generalizing s with
  | nil => exact h
  | cons e es ih =>
      apply ih
      by_cases hlookup : s.connections.lookup e.1 = some o
      · have hobjects := closeConnection_objects (s := { s with
          metrics := if e.2 = .handlerTimeout then s.metrics.countTimeout else s.metrics })
          hlookup e.2
        have hself : (s.timeOut e).objects o = (s.objects o).close e.2 :=
          (congrFun hobjects o).trans (Function.update_self _ _ _)
        rw [hself]
        rfl
      · have hother : (s.timeOut e).objects o = s.objects o :=
          closeConnection_objects_of_ne hlookup
        rw [hother]
        exact h

/-- Closing for timeouts keeps a connection or closes its object. -/
theorem foldl_timeOut_keeps (es : List (Nat × CloseReason)) (s : Server) :
    Keeps s (es.foldl timeOut s) := by
  induction es generalizing s with
  | nil => exact fun _ _ h => .inl h
  | cons e es ih =>
      intro fd o h
      have hone : Keeps s (s.timeOut e) :=
        fun fd' o' h' => closeConnection_keeps { s with
          metrics := if e.2 = .handlerTimeout then s.metrics.countTimeout else s.metrics }
          e.1 e.2 fd' o' h'
      rcases hone fd o h with hstay | hclosed
      · exact ih _ fd o hstay
      · exact .inr (foldl_timeOut_closed es hclosed)

/-- So does the work behind a batch. -/
theorem afterBatch_keeps (s : Server) (settings : Settings) :
    Keeps s ((s.beginDrain settings).cleanup settings).checkDrain := by
  obtain ⟨draining, deadline, hbegin⟩ := beginDrain_eq s settings
  intro fd o h
  have hcleanup : Keeps (s.beginDrain settings) ((s.beginDrain settings).cleanup settings) := by
    unfold cleanup
    split
    · exact foldl_timeOut_keeps ((s.beginDrain settings).sweepList settings) _
    · exact fun _ _ h => .inl h
  have h' : (s.beginDrain settings).connections.lookup fd = some o := by
    rw [hbegin]
    exact h
  exact hcleanup fd o h'

/-- No step loses a connection that is open. -/
theorem step_keeps {s s' : Server} {a : Act H} (hstep : step cfg s a = some s') : Keeps s s' := by
  cases step_cases hstep with
  | clientError ans fd dir rest hphase =>
      exact fun fd' o h => closeConnection_keeps { s with phase := .batch rest } fd .ioError fd' o h
  | client ans fd o dir rest x outcome hphase hlookup hreact =>
      exact fun fd' o' h => conclude_keeps { s with phase := .batch rest } fd o x ans.rearmed
        outcome fd' o' h
  | accept fd clientIp hphase hlookup =>
      intro fd' o h
      left
      have hne : fd' ≠ fd := by
        rintro rfl
        rw [hlookup] at h
        cases h
      exact (AList.lookup_insert_ne hne).trans h
  | complete ans c ready rest hphase =>
      unfold processCompletion
      dsimp only
      split
      · exact fun _ _ h => .inl h
      split
      · exact fun _ _ h => .inl h
      · exact fun fd' o' h => rearm_keeps _ _ _ _ fd' o' h
  | afterBatch hphase => exact afterBatch_keeps s cfg.settings
  | work k env t pushed hk htask =>
      cases pushed with
      | nil => exact fun _ _ h => .inl h
      | cons item pushed => exact fun _ _ h => .inl h
  | _ => exact fun _ _ h => .inl h

/-- An open object is the connection of some socket. -/
def Owned (s : Server) : Prop :=
  ∀ o, o < s.nextObject → (s.objects o).conn.isOpen = true →
    ∃ fd, s.connections.lookup fd = some o

/-- No move opens an object again. -/
theorem moves_isOpen {s : Server} {a : Act H} {o : Nat} {y : Session} (hinv : s.Inv)
    (h : Moves cfg s a o y) (hy : y.conn.isOpen = true) (ho : o < s.nextObject) :
    (s.objects o).conn.isOpen = true := by
  cases h with
  | same => exact hy
  | created fd clientIp ha hnew => exact absurd hnew (Nat.ne_of_lt ho)
  | failed => cases hy
  | reacted ans fd dir rest x outcome ha hphase hlookup hleft hopen hreact => exact hopen
  | completed ans c ready rest ha hphase hconn hlookup hhanded hserial =>
      exact serves_open hinv hlookup
  | timedOut fd reason ha hlookup hreason => cases hy
  | pushed => exact hy

/-- **Step lemma.** An open object is a connection of the server. -/
theorem step_owned {s s' : Server} {a : Act H} (hinv : s.Inv) (h : s.Owned)
    (hstep : step cfg s a = some s') : s'.Owned := by
  intro o ho hopen
  have hold : o < s.nextObject → ∃ fd, s'.connections.lookup fd = some o := by
    intro hlt
    obtain ⟨fd, hfd⟩ := h o hlt (moves_isOpen hinv (step_moves hinv hstep o) hopen hlt)
    rcases step_keeps hstep fd o hfd with hstay | hclosed
    · exact ⟨fd, hstay⟩
    · rw [hopen] at hclosed
      cases hclosed
  rcases step_nextObject hstep with hnext | ⟨fd, clientIp, rfl, hnext, -⟩
  · exact hold (hnext ▸ ho)
  · rcases Nat.lt_succ_iff_lt_or_eq.1 (hnext ▸ ho) with hlt | rfl
    · exact hold hlt
    · cases step_cases hstep with
      | accept fd clientIp hphase hlookup => exact ⟨fd, AList.lookup_insert _⟩

theorem reachable_owned {s : Server} (h : Runs.Reachable (serverSystem cfg) s) : s.Owned := by
  apply Runs.Reachable.invariant (P := Owned) ?_ ?_ h
  · rintro s ⟨now, rfl⟩ o ho
    exact absurd ho (Nat.not_lt_zero _)
  · intro s a s' hs howned hstep
    exact step_owned (reachable_inv hs) howned hstep

/-! ## The end of the drain -/

/-- Behind a clean drain no connection has a request in flight. -/
def Quiet (s : Server) : Prop :=
  s.phase = .stopped true → ∀ fd o, s.connections.lookup fd = some o →
    (s.objects o).conn.processing = false

/-- With no work in flight no connection is being processed. -/
theorem workInFlight_false {s : Server} (h : s.workInFlight = false) {fd o : Nat}
    (hlookup : s.connections.lookup fd = some o) : (s.objects o).conn.processing = false := by
  unfold workInFlight at h
  rw [List.any_eq_false] at h
  have hentry := h ⟨fd, o⟩ (AList.mem_lookup_iff.1 hlookup)
  rw [Bool.or_eq_true, not_or] at hentry
  exact Bool.eq_false_iff.2 hentry.1

/-- The loop leaves through the clean branch only with no request in flight. -/
theorem checkDrain_quiet (s : Server) : s.checkDrain.Quiet := by
  intro hstopped fd o hlookup
  have hphase : (if ¬ s.draining then Phase.waiting
      else if ¬ s.workInFlight then .stopped true
      else if s.drainDeadline ≤ s.now then .stopped false else .waiting) = .stopped true :=
    hstopped
  split at hphase
  · cases hphase
  split at hphase
  next hwork => exact workInFlight_false (Bool.eq_false_iff.2 hwork) hlookup
  split at hphase
  · cases hphase
  · cases hphase

/-- A step that keeps the phase and the connections keeps them quiet. -/
theorem Quiet.keep {s s' : Server} (h : s.Quiet) (hphase : s'.phase = s.phase)
    (hconnections : s'.connections = s.connections)
    (hobjects : ∀ o, (s'.objects o).conn = (s.objects o).conn) : s'.Quiet := by
  intro hstopped fd o hlookup
  rw [hobjects]
  exact h (hphase ▸ hstopped) fd o (hconnections ▸ hlookup)

/-- The loop is not behind its end. -/
theorem quiet_of_phase {s : Server} (h : s.phase ≠ .stopped true) : s.Quiet :=
  fun hstopped => absurd hstopped h

/-- **Step lemma.** Behind a clean drain no request is in flight. -/
theorem step_quiet {s s' : Server} {a : Act H} (h : s.Quiet) (hstep : step cfg s a = some s') :
    s'.Quiet := by
  cases step_cases hstep with
  | tick nanos => exact h.keep rfl rfl fun _ => rfl
  | poll events hphase hreports => exact quiet_of_phase nofun
  | pollFailed hphase => exact quiet_of_phase (by simp)
  | enterPipe hphase => exact quiet_of_phase nofun
  | enterListener hphase => exact quiet_of_phase nofun
  | clientError ans fd dir rest hphase =>
      apply quiet_of_phase
      rw [closeConnection_phase]
      nofun
  | clientGone hphase hlookup => exact quiet_of_phase nofun
  | client ans fd o dir rest x outcome hphase hlookup hreact =>
      -- a callback does not leave the batch
      apply quiet_of_phase
      rw [conclude_frame Server.phase (fun _ => rfl) (fun _ _ _ => rfl)]
      nofun
  | accept fd clientIp hphase hlookup =>
      have hsame : (s.accept fd clientIp cfg.tls).phase = s.phase := rfl
      exact quiet_of_phase (by rw [hsame, hphase]; nofun)
  | acceptEnd hphase => exact quiet_of_phase nofun
  | drainRead hphase hpipe => exact h.keep rfl rfl fun _ => rfl
  | drainEnd hphase hend => exact quiet_of_phase nofun
  | swap hphase => exact quiet_of_phase nofun
  | complete ans c ready rest hphase =>
      have hsame := congrArg Server.phase
        (processCompletion_without { s with phase := .completing ready rest } ans c)
      have hsame : (({ s with phase := .completing ready rest } : Server).processCompletion ans
          c).phase = .completing ready rest := hsame
      exact quiet_of_phase (by rw [hsame]; nofun)
  | completeEnd hphase => exact quiet_of_phase nofun
  | afterBatch hphase => exact checkDrain_quiet _
  | take t tasks htasks hthread => exact h.keep rfl rfl fun _ => rfl
  | work k env t pushed hk htask =>
      refine h.keep ?_ ?_ fun o => (push_objects s k t pushed o).1
      all_goals cases pushed <;> rfl
  | notify k t hk => exact h.keep rfl rfl fun _ => rfl
  | exit k t hk => exact h.keep rfl rfl fun _ => rfl
  | requestStop => exact h.keep rfl rfl fun _ => rfl
  | stopNotify hstop => exact h.keep rfl rfl fun _ => rfl

theorem reachable_quiet {s : Server} (h : Runs.Reachable (serverSystem cfg) s) : s.Quiet := by
  apply Runs.Reachable.invariant (P := Quiet) ?_ ?_ h
  · rintro s ⟨now, rfl⟩
    exact quiet_of_phase nofun
  · intro s a s' _ hquiet hstep
    exact step_quiet hquiet hstep

/-- A connection without a request in flight has answered all its requests. -/
theorem answered_of_not_processing {s : Server} (hinv : s.Inv) {fd o : Nat}
    (hlookup : s.connections.lookup fd = some o)
    (hprocessing : (s.objects o).conn.processing = false) :
    (s.objects o).hist.finished = (s.objects o).hist.requests.length := by
  rcases hinv.modes hlookup with hhanded | hwriting | hidle
  · cases hprocessing.symm.trans hhanded.processing
  · cases hprocessing.symm.trans hwriting.processing
  · exact hidle.toReady.done

/-- **No request is dropped by a clean drain.** Behind it, of every connection object
there has been, every request taken from its buffer has had its whole response handed
to the socket, or the connection was closed by a timeout, by the peer or by an I/O
error. -/
theorem clean_drain {s : Server} (h : Runs.Reachable (serverSystem cfg) s)
    (hstopped : s.phase = .stopped true) {o : Nat} (ho : o < s.nextObject) :
    (s.objects o).hist.finished = (s.objects o).hist.requests.length ∨
      ∃ reason, (s.objects o).hist.closedBy = some reason ∧ reason.external = true := by
  cases hclosed : (s.objects o).hist.closedBy with
  | none =>
      have hopen := (reachable_settled h o ho).1.1 hclosed
      obtain ⟨fd, hlookup⟩ := reachable_owned h o ho hopen
      exact .inl (answered_of_not_processing (reachable_inv h) hlookup
        (reachable_quiet h hstopped fd o hlookup))
  | some reason =>
      rcases (reachable_settled h o ho).2 reason hclosed with hexternal | hanswered
      · exact .inr ⟨reason, rfl, hexternal⟩
      · exact .inl hanswered

/-- The response is sent, and the server stopped. -/
def drainOne : List (Act Nat) :=
  answerOne ++ [.notify 0, .poll [.wakeup], .enter, .drainRead false, .drainRead false, .swap,
    .complete {}, .complete {}, .requestStop, .stopNotify, .afterBatch,
    .poll [.client 7 .write false],
    .client { write := { sendHead := .sent 1000, sendBody := .sent 1000 } }, .afterBatch]

/-- One request answered, and the server stopped. -/
theorem clean_drain_one :
    ∃ s, (serverSystem smallConfig).run (Server.start 0) drainOne = some s ∧
      ((s.objects 0).hist.finished = (s.objects 0).hist.requests.length ∨
        ∃ reason, (s.objects 0).hist.closedBy = some reason ∧ reason.external = true) := by
  have hrun : ((serverSystem smallConfig).run (Server.start 0) drainOne).map
      (fun s => (decide (s.phase = .stopped true), decide (0 < s.nextObject))) =
        some (true, true) := by
    decide +kernel
  obtain ⟨s, hs, hvalues⟩ := Option.map_eq_some_iff.1 hrun
  exact ⟨s, hs, clean_drain (reachable_of_start hs) (of_decide_eq_true (congrArg Prod.fst hvalues))
    (of_decide_eq_true (congrArg Prod.snd hvalues))⟩

end Server

end Oreshnek
