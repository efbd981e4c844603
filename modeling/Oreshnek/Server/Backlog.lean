import Oreshnek.Server.Moves

/-!
# The pool and the wake-ups of the loop

Two invariants between the event loop and the workers, in every interleaving:
`completion_signalled` (a response in `completed_` has a wake-up under way) and
`in_flight_eq` (`workers_in_flight` counts the tasks of the pool, and stays within
`max_concurrent_handlers`).
-/

namespace Oreshnek

namespace Server

variable {H : Type} {cfg : Config H}

/-! ## Wake-ups -/

/-- The loop has begun to drain the pipe, and not yet exchanged `completed_`. -/
def BetweenDrainAndSwap (s : Server) : Prop :=
  ∃ rest, s.phase = .drainingPipe rest ∨ s.phase = .swapping rest

/-- Some worker has pushed its response, and not yet written to the pipe. -/
def Notifying (s : Server) : Prop := ∃ r ∈ s.running, r.stage = .pushed

/-- A completed response has a wake-up under way. -/
def Signalled (s : Server) : Prop :=
  s.completed ≠ [] → 0 < s.pipe ∨ s.Notifying ∨ s.BetweenDrainAndSwap

/-- A step that keeps the queue, the pipe and the workers, outside of the part of
`process_completions` up to the exchange. -/
theorem Signalled.keep {s s' : Server} (h : s.Signalled) (hcompleted : s'.completed = s.completed)
    (hpipe : s.pipe ≤ s'.pipe) (hrunning : s'.running = s.running)
    (hphase : ¬ s.BetweenDrainAndSwap) : s'.Signalled := by
  intro hne
  rw [hcompleted] at hne
  rcases h hne with hpos | hnotify | hbetween
  · exact .inl (Nat.lt_of_lt_of_le hpos hpipe)
  · right
    left
    unfold Notifying
    rw [hrunning]
    exact hnotify
  · exact absurd hbetween hphase

/-- The same, for a step that keeps the phase. -/
theorem Signalled.keepPhase {s s' : Server} (h : s.Signalled)
    (hcompleted : s'.completed = s.completed) (hpipe : s.pipe ≤ s'.pipe)
    (hrunning : ∀ r ∈ s.running, r.stage = .pushed → r ∈ s'.running)
    (hphase : s'.phase = s.phase) : s'.Signalled := by
  intro hne
  rw [hcompleted] at hne
  rcases h hne with hpos | ⟨r, hr, hstage⟩ | ⟨rest, hbetween⟩
  · exact .inl (Nat.lt_of_lt_of_le hpos hpipe)
  · exact .inr (.inl ⟨r, hrunning r hr hstage, hstage⟩)
  · exact .inr (.inr ⟨rest, hphase ▸ hbetween⟩)

/-- The other running tasks, when the one at `k` changes or leaves. -/
theorem exists_others {l : List RunningTask} {k : Nat} {x : RunningTask} (h : l[k]? = some x) :
    ∀ r ∈ l, r.stage ≠ x.stage → (∀ y, r ∈ l.set k y) ∧ r ∈ l.eraseIdx k := by
  obtain ⟨front, back, hl, hset, herase⟩ := exists_split h
  intro r hr hne
  rw [hl, List.mem_append, List.mem_cons] at hr
  have hmem : r ∈ front ∨ r ∈ back := by
    rcases hr with hr | rfl | hr
    · exact .inl hr
    · exact absurd rfl hne
    · exact .inr hr
  constructor
  · intro y
    rw [hset, List.mem_append, List.mem_cons]
    exact hmem.imp id .inr
  · rw [herase, List.mem_append]
    exact hmem

/-- Behind a notification the pipe is not empty. -/
theorem notifyEventLoop_pipe {s : Server} {capacity : Nat} (hcapacity : 0 < capacity) :
    s.pipe ≤ (s.notifyEventLoop capacity).pipe ∧ 0 < (s.notifyEventLoop capacity).pipe := by
  unfold notifyEventLoop
  dsimp only
  split
  · omega
  · omega

theorem not_between {s : Server} {phase : Phase} (hphase : s.phase = phase)
    (hdrain : ∀ rest, phase ≠ .drainingPipe rest) (hswap : ∀ rest, phase ≠ .swapping rest) :
    ¬ s.BetweenDrainAndSwap := by
  rintro ⟨rest, h | h⟩
  · exact hdrain rest (hphase.symm.trans h)
  · exact hswap rest (hphase.symm.trans h)

/-- **Step lemma.** A completed response has a byte in the pipe, or a wake-up under way. -/
theorem step_signalled {s s' : Server} {a : Act H} (h : s.Signalled)
    (hstep : step cfg s a = some s') : s'.Signalled := by
  have hloop : ∀ {t : Server} {phase : Phase}, s.phase = phase →
      (∀ rest, phase ≠ .drainingPipe rest) → (∀ rest, phase ≠ .swapping rest) →
      (t.withoutConnections.completed = s.completed) → (t.withoutConnections.pipe = s.pipe) →
      (t.withoutConnections.running = s.running) → t.Signalled := by
    intro t phase hphase hdrain hswap hcompleted hpipe hrunning
    exact h.keep hcompleted hpipe.ge hrunning (not_between hphase hdrain hswap)
  cases step_cases hstep with
  | tick nanos => exact h.keepPhase rfl le_rfl (fun _ hr _ => hr) rfl
  | poll events hphase hreports =>
      exact hloop hphase (fun _ => nofun) (fun _ => nofun) rfl rfl rfl
  | pollFailed hphase => exact hloop hphase (fun _ => nofun) (fun _ => nofun) rfl rfl rfl
  | enterPipe hphase => exact hloop hphase (fun _ => nofun) (fun _ => nofun) rfl rfl rfl
  | enterListener hphase => exact hloop hphase (fun _ => nofun) (fun _ => nofun) rfl rfl rfl
  | clientError ans fd dir rest hphase =>
      have hwithout := closeConnection_without { s with phase := .batch rest } fd .ioError
      refine hloop hphase (fun _ => nofun) (fun _ => nofun) ?_ ?_ ?_
      all_goals rw [hwithout]; rfl
  | clientGone hphase hlookup =>
      exact hloop hphase (fun _ => nofun) (fun _ => nofun) rfl rfl rfl
  | client ans fd o dir rest x outcome hphase hlookup hreact =>
      refine hloop hphase (fun _ => nofun) (fun _ => nofun) ?_ ?_ ?_
      · exact conclude_frame Server.completed (fun _ => rfl) (fun _ _ _ => rfl) ..
      · exact conclude_frame Server.pipe (fun _ => rfl) (fun _ _ _ => rfl) ..
      · exact conclude_frame Server.running (fun _ => rfl) (fun _ _ _ => rfl) ..
  | accept fd clientIp hphase hlookup =>
      exact hloop hphase (fun _ => nofun) (fun _ => nofun) rfl rfl rfl
  | acceptEnd hphase => exact hloop hphase (fun _ => nofun) (fun _ => nofun) rfl rfl rfl
  | drainRead hphase hpipe => exact fun _ => .inr (.inr ⟨_, .inl hphase⟩)
  | drainEnd hphase hend => exact fun _ => .inr (.inr ⟨_, .inr rfl⟩)
  | swap hphase => exact fun hne => absurd rfl hne
  | complete ans c ready rest hphase =>
      have hwithout := processCompletion_without { s with phase := .completing ready rest } ans c
      refine hloop hphase (fun _ => nofun) (fun _ => nofun) ?_ ?_ ?_
      all_goals rw [hwithout]; rfl
  | completeEnd hphase => exact hloop hphase (fun _ => nofun) (fun _ => nofun) rfl rfl rfl
  | afterBatch hphase =>
      obtain ⟨draining, deadline, last, phase, hwithout⟩ := afterBatch_without s cfg.settings
      refine hloop hphase (fun _ => nofun) (fun _ => nofun) ?_ ?_ ?_
      all_goals rw [hwithout]; rfl
  | take t tasks htasks hthread =>
      exact h.keepPhase rfl le_rfl (fun _ hr _ => List.mem_append_left _ hr) rfl
  | work k env t pushed hk htask =>
      cases pushed with
      | nil =>
          refine h.keepPhase rfl le_rfl (fun r hr hstage => ?_) rfl
          exact (exists_others hk r hr (by rw [hstage]; nofun)).1 _
      | cons item pushed =>
          -- the worker has still to write to the pipe
          obtain ⟨front, back, -, hset, -⟩ := exists_split hk
          intro _
          right
          left
          refine ⟨⟨.pushed, t⟩, ?_, rfl⟩
          show _ ∈ s.running.set k ⟨.pushed, t⟩
          rw [hset]
          exact List.mem_append_right _ List.mem_cons_self
  | notify k t hk => exact fun _ => .inl (notifyEventLoop_pipe cfg.pipeCapacity_pos).2
  | exit k t hk =>
      refine h.keepPhase rfl le_rfl (fun r hr hstage => ?_) rfl
      exact (exists_others hk r hr (by rw [hstage]; nofun)).2
  | requestStop => exact h.keepPhase rfl le_rfl (fun _ hr _ => hr) rfl
  | stopNotify hstop =>
      exact h.keepPhase rfl (notifyEventLoop_pipe cfg.pipeCapacity_pos).1 (fun _ hr _ => hr) rfl

/-- **No lost wake-up.** In every reachable state in which `completed_` is not empty
there is a byte in the pipe, or a worker is about to write one, or the loop is
between its drain and its exchange. -/
theorem completion_signalled {s : Server} (h : Runs.Reachable (serverSystem cfg) s)
    (hcompleted : s.completed ≠ []) : 0 < s.pipe ∨ s.Notifying ∨ s.BetweenDrainAndSwap := by
  have hsignalled : s.Signalled := by
    apply Runs.Reachable.invariant (P := Signalled) ?_ ?_ h
    · rintro s ⟨now, rfl⟩ hne
      exact absurd rfl hne
    · intro s a s' _ hs hstep
      exact step_signalled hs hstep
  exact hsignalled hcompleted

/-- One request answered. -/
theorem completion_signalled_answered :
    ∃ s, (serverSystem smallConfig).run (Server.start 0) answerOne = some s ∧
      (0 < s.pipe ∨ s.Notifying ∨ s.BetweenDrainAndSwap) := by
  have hrun : ((serverSystem smallConfig).run (Server.start 0) answerOne).map
      (fun s => decide (s.completed ≠ [])) = some true := by
    decide +kernel
  obtain ⟨s, hs, hvalue⟩ := Option.map_eq_some_iff.1 hrun
  exact ⟨s, hs, completion_signalled (reachable_of_start hs) (of_decide_eq_true hvalue)⟩

/-! ## The backlog of the pool -/

/-- `workers_in_flight` counts the tasks of the pool, queued or running. -/
def Counted (s : Server) : Prop :=
  s.metrics.workersInFlight = s.tasks.length + s.running.length

/-- They are no more than the handlers that may run at once, where that is limited. -/
def Bounded (settings : Settings) (s : Server) : Prop :=
  0 < settings.maxConcurrentHandlers →
    s.metrics.workersInFlight ≤ settings.maxConcurrentHandlers

def Backlog (settings : Settings) (s : Server) : Prop := s.Counted ∧ Bounded settings s

/-- What moves neither the counter nor the tasks keeps them equal. -/
theorem Backlog.keep {settings : Settings} {s s' : Server} (h : Backlog settings s)
    (hflight : s'.metrics.workersInFlight = s.metrics.workersInFlight)
    (htasks : s'.tasks.length + s'.running.length = s.tasks.length + s.running.length) :
    Backlog settings s' := by
  constructor
  · have hcounted := h.1
    unfold Counted at hcounted ⊢
    omega
  · intro hlimited
    rw [hflight]
    exact h.2 hlimited

/-- The backlog does not depend on the connections. -/
theorem Backlog.without {settings : Settings} {s s' : Server} (h : Backlog settings s)
    (hwithout : s'.withoutConnections = s.withoutConnections) : Backlog settings s' := by
  have hflight : s'.withoutConnections.metrics.workersInFlight = s.metrics.workersInFlight := by
    rw [hwithout]
    rfl
  have htasks : s'.withoutConnections.tasks = s.tasks := by
    rw [hwithout]
    rfl
  have hrunning : s'.withoutConnections.running = s.running := by
    rw [hwithout]
    rfl
  have htasks : s'.tasks = s.tasks := htasks
  have hrunning : s'.running = s.running := hrunning
  exact h.keep hflight (by rw [htasks, hrunning])

/-- **Step lemma.** The requests in flight are counted, and stay within the bound. -/
theorem step_backlog {s s' : Server} {a : Act H} (hinv : s.Inv) (h : Backlog cfg.settings s)
    (hstep : step cfg s a = some s') : Backlog cfg.settings s' := by
  cases step_cases hstep with
  | clientError ans fd dir rest hphase =>
      exact Backlog.without (s := { s with phase := .batch rest }) h (closeConnection_without _ _ _)
  | client ans fd o dir rest x outcome hphase hlookup hreact =>
      rcases conclude_without { s with phase := .batch rest } fd o x ans.rearmed outcome with
        hwithout | ⟨t, houtcome, hwithout⟩
      · exact Backlog.without (s := { s with phase := .batch rest }) h hwithout
      · -- a request is handed over, below the limit
        subst houtcome
        obtain ⟨o', hsome, hhand, hleft, -⟩ := hinv.takeEvent hphase
        rw [hlookup] at hsome
        cases hsome
        have hadmitted := Session.react_admits hleft hhand.isOpen hreact
        unfold overloaded at hadmitted
        rw [decide_eq_false_iff_not] at hadmitted
        have hflight := congrArg (fun s : Server => s.metrics.workersInFlight) hwithout
        have htasks := congrArg (fun s : Server => s.tasks.length) hwithout
        have hrunning := congrArg (fun s : Server => s.running.length) hwithout
        simp only [withoutConnections, List.length_append, List.length_singleton]
          at hflight htasks hrunning
        obtain ⟨hcounted, hbounded⟩ := h
        unfold Counted at hcounted
        unfold Bounded at hbounded
        constructor
        · unfold Counted
          omega
        · intro hlimited
          have hroom : ¬ cfg.settings.maxConcurrentHandlers ≤ s.metrics.workersInFlight :=
            fun hle => hadmitted ⟨hlimited, hle⟩
          omega
  | complete ans c ready rest hphase =>
      exact Backlog.without (s := { s with phase := .completing ready rest }) h
        (processCompletion_without _ _ _)
  | afterBatch hphase =>
      obtain ⟨draining, deadline, last, phase, hwithout⟩ := afterBatch_without s cfg.settings
      have hflight := congrArg (fun s : Server => s.metrics.workersInFlight) hwithout
      have htasks := congrArg (fun s : Server => s.tasks.length) hwithout
      have hrunning := congrArg (fun s : Server => s.running.length) hwithout
      simp only [withoutConnections] at hflight htasks hrunning
      exact h.keep hflight (by rw [htasks, hrunning])
  | take t tasks htasks hthread =>
      -- from the queue to a thread: their sum is the same
      refine h.keep rfl ?_
      rw [htasks]
      simp only [List.length_append, List.length_cons, List.length_nil]
      omega
  | work k env t pushed hk htask =>
      cases pushed with
      | nil => exact h.keep rfl (by simp [push])
      | cons item pushed =>
          refine h.keep (recordStatus_inFlight _ _) ?_
          simp [push, setSession]
  | notify k t hk => exact h.keep rfl (by simp [notifyEventLoop])
  | exit k t hk =>
      -- the counter goes down with the thread's task
      obtain ⟨hlt, -⟩ := List.getElem?_eq_some_iff.1 hk
      have hlength := List.length_eraseIdx_of_lt hlt
      obtain ⟨hcounted, hbounded⟩ := h
      unfold Counted at hcounted
      unfold Bounded at hbounded
      constructor
      · unfold Counted
        dsimp only
        omega
      · intro hlimited
        have := hbounded hlimited
        dsimp only
        omega
  | drainRead hphase hpipe => exact h.keep rfl rfl
  | _ => exact h.keep rfl rfl

/-- **The backlog of the pool.** In every reachable state `workers_in_flight` is the
number of tasks queued in the pool or running on it, and where the handlers are
limited it does not exceed the limit. -/
theorem in_flight_eq {s : Server} (h : Runs.Reachable (serverSystem cfg) s) :
    s.metrics.workersInFlight = s.tasks.length + s.running.length ∧
      (0 < cfg.settings.maxConcurrentHandlers →
        s.metrics.workersInFlight ≤ cfg.settings.maxConcurrentHandlers) := by
  apply Runs.Reachable.invariant (P := Backlog cfg.settings) ?_ ?_ h
  · rintro s ⟨now, rfl⟩
    exact ⟨rfl, fun hlimited => le_of_lt hlimited⟩
  · intro s a s' hs hback hstep
    exact step_backlog (reachable_inv hs) hback hstep

/-- One request answered. -/
theorem in_flight_eq_answered :
    ∃ s, (serverSystem smallConfig).run (Server.start 0) answerOne = some s ∧
      s.metrics.workersInFlight = s.tasks.length + s.running.length ∧
      (0 < smallConfig.settings.maxConcurrentHandlers →
        s.metrics.workersInFlight ≤ smallConfig.settings.maxConcurrentHandlers) := by
  have hrun : ((serverSystem smallConfig).run (Server.start 0) answerOne).isSome = true := by
    decide +kernel
  obtain ⟨s, hs⟩ := Option.isSome_iff_exists.1 hrun
  exact ⟨s, hs, in_flight_eq (reachable_of_start hs)⟩

end Server

end Oreshnek
