import Oreshnek.Server.Persistence

/-!
# The end of a run

A stop request is seen behind the events of a batch, and from then on the server drains. It
takes no new connection, each connection gets at most the response it is waiting for and is
closed behind it, and `run` goes on to another batch only while the time read behind the last
one is within the grace period (`drain_bounded`).
-/

namespace Oreshnek

/-- Nothing is accepted in this batch. -/
def Phase.Deaf (phase : Phase) : Prop :=
  .listener ∉ phase.rest ∧ ∀ rest, phase ≠ .accepting rest

/-- No event comes up that was not there before. -/
theorem Phase.Deaf.less {phase phase' : Phase} (hrest : phase'.rest <:+ phase.rest)
    (haccept : ∀ rest, phase' ≠ .accepting rest) (h : phase.Deaf) : phase'.Deaf :=
  ⟨fun hin => h.1 (hrest.mem hin), haccept⟩

namespace Session

/-- The responses have been sent, but for one. -/
def Behind (x : Session) : Prop := x.hist.requests.length ≤ x.hist.finished + 1

/-- What can have become of a connection on which `n` responses had been finished when the
drain began. -/
structure Winding (n : Nat) (x : Session) : Prop where
  least : n ≤ x.hist.finished
  most : x.hist.finished ≤ n + 1
  closed : x.hist.finished = n + 1 → x.conn.isOpen = false
  requests : x.hist.requests.length ≤ n + 1

end Session

namespace Server

variable {H : Type} {cfg : Config H}

/-! ## Responses -/

/-- A request is taken only when all the responses before it have been finished. -/
theorem moves_behind {s : Server} (hs : Runs.Reachable (serverSystem cfg) s) {a : Act H} {o : Nat}
    {y : Session} (ho : o < s.nextObject) (hx : (s.objects o).Behind) (h : Moves cfg s a o y) :
    y.Behind := by
  cases h with
  | same => exact hx
  | created fd clientIp ha hnew => exact absurd hnew (Nat.ne_of_lt ho)
  | failed => exact hx
  | reacted ans fd dir rest x outcome ha hphase hlookup hleft hopen hreact =>
      unfold Session.Behind at hx ⊢
      have hrequests := (x.concluded_hist ans.rearmed outcome).1
      rw [hrequests, x.concluded_finished]
      have hafter := (Session.react_left hleft hopen hreact).1
      -- responses only become more, and a request more needs a finished one
      have hbefore : (s.objects o).hist.finished ≤ x.hist.finished := by
        have hbound := reachable_bound hs o ho
        cases Session.react_finishes hleft hopen (reachable_keepAlive hs o ho) hreact with
        | same dir outcome hsame => omega
        | closed hall => omega
        | reused outcome hall => omega
      cases Session.react_grows hleft hopen hreact with
      | same hsame =>
          rw [hsame]
          omega
      | taken request =>
          have hhanded : x.HandedOver := hafter
          have hanswered := hhanded.answered
          have hfinished := hhanded.finished
          omega
      | rejected request res status =>
          have hwriting : x.Writing := hafter
          have hanswered := hwriting.answered
          have hfinished := hwriting.finished
          omega
  | completed ans c ready rest ha hphase hconn hlookup hhanded hserial =>
      unfold Session.Behind at hx ⊢
      have hrequests := (((s.objects o).workerDone.install s.now ans c.serial o false
        c.item.response).concluded_hist ans.rearmed (.rearm .write)).1
      rw [hrequests, Session.concluded_finished]
      exact hx
  | timedOut => exact hx
  | pushed => exact hx

theorem reachable_behind {s : Server} (h : Runs.Reachable (serverSystem cfg) s) :
    ∀ o, o < s.nextObject → (s.objects o).Behind :=
  reached_session (J := fun _ x => x.Behind) (fun _ _ _ _ => Nat.zero_le _)
    (fun _ _ _ _ hs _ ho hx hmove => moves_behind hs ho hx hmove) h

/-- While draining a connection is closed behind the response that it finishes. -/
theorem moves_winding {s : Server} (hs : Runs.Reachable (serverSystem cfg) s)
    (hdraining : s.draining = true) {a : Act H} {o n : Nat} {y : Session} (ho : o < s.nextObject)
    (hx : (s.objects o).Winding n) (h : Moves cfg s a o y) : y.Winding n := by
  have hshut : ∀ reason, ((s.objects o).close reason).Winding n :=
    fun reason => ⟨hx.least, hx.most, fun _ => rfl, hx.requests⟩
  cases h with
  | same => exact hx
  | created fd clientIp ha hnew => exact absurd hnew (Nat.ne_of_lt ho)
  | failed => exact hshut _
  | reacted ans fd dir rest x outcome ha hphase hlookup hleft hopen hreact =>
      have hlast : (s.objects o).hist.finished = n := by
        have hleast := hx.least
        have hmost := hx.most
        by_contra hne
        have hclosed := hx.closed (by omega)
        rw [hopen] at hclosed
        cases hclosed
      have hrequests := hx.requests
      have hafter := (Session.react_left hleft hopen hreact).1
      have hgrows := Session.react_grows hleft hopen hreact
      cases Session.react_finishes hleft hopen (reachable_keepAlive hs o ho) hreact with
      | same dir outcome hsame houtcome =>
          have hfinished : x.hist.finished = n := hsame.trans hlast
          have htaken : x.hist.requests.length ≤ n + 1 := by
            cases hgrows with
            | same hkept =>
                rw [hkept]
                exact hrequests
            | taken request =>
                have hhanded : x.HandedOver := hafter
                have hanswered := hhanded.answered
                have hbehind := hhanded.finished
                omega
            | rejected request res status =>
                have hwriting : x.Writing := hafter
                have hanswered := hwriting.answered
                have hbehind := hwriting.finished
                omega
          have hkeeps : ∀ z : Session, z.hist.finished = n → z.hist.requests.length ≤ n + 1 →
              z.Winding n := by
            intro z hz hrequests
            exact ⟨by omega, by omega, fun h => absurd h (by omega), hrequests⟩
          exact Session.concluded_keeps (P := fun z => z.Winding n)
            (hkeeps x hfinished htaken) (fun reason => hkeeps _ hfinished htaken) _ _
      | closed hall hdraining =>
          -- the response that was being written, if there was one
          have hkept : x.hist.requests = (s.objects o).hist.requests := by
            cases hgrows with
            | same hkept => exact hkept
          have hone : n ≤ x.hist.finished ∧ x.hist.finished ≤ n + 1 := by
            rcases hleft with hwriting | ⟨hidle, -⟩
            · have hpending := hwriting.finished
              omega
            · have hdone := hidle.finished
              omega
          exact ⟨hone.1, hone.2, fun _ => rfl, le_of_eq_of_le (congrArg _ hkept) hrequests⟩
      | reused outcome hall hnot =>
          rw [hdraining] at hnot
          cases hnot
  | completed ans c ready rest ha hphase hconn hlookup hhanded hserial =>
      have hsocket := (s.objects o).workerDone.install_sameSocket s.now ans c.serial o false
        c.item.response
      have hinstalled : ((s.objects o).workerDone.install s.now ans c.serial o false
          c.item.response).Winding n := by
        refine ⟨hx.least, hx.most, fun h => ?_, hx.requests⟩
        exact (Session.isOpen_congr hsocket.1).trans (hx.closed h)
      exact Session.concluded_keeps (P := fun z => z.Winding n) hinstalled
        (fun reason => ⟨hx.least, hx.most, fun _ => rfl, hx.requests⟩) _ _
  | timedOut => exact hshut _
  | pushed => exact ⟨hx.least, hx.most, hx.closed, hx.requests⟩

/-! ## The clock of the drain -/

/-- What the loop alone works on. -/
def control (s : Server) : Bool × Phase × Nat × Int :=
  (s.draining, s.phase, s.lastCleanup, s.drainDeadline)

/-- What a step does to it. -/
inductive Turns (cfg : Config H) (s : Server) (a : Act H) (s' : Server) : Prop where
  | same (hcontrol : s'.control = s.control)
  /-- The loop goes on to another phase of the batch. -/
  | goes (phase : Phase) (hcontrol : s'.control = ({ s with phase := phase } : Server).control)
      (hphase : phase ≠ .waiting) (hdeaf : s.draining = true → s.phase.Deaf → phase.Deaf)
  /-- The batch is through. -/
  | ends (ha : a = .afterBatch)
      (hcontrol : s'.control =
        ((s.beginDrain cfg.settings).cleanup cfg.settings).checkDrain.control)

theorem control_of_without {s s' : Server} (h : s'.withoutConnections = s.withoutConnections) :
    s'.control = s.control := by
  have hcontrol : ∀ s : Server, s.control = s.withoutConnections.control := fun _ => rfl
  rw [hcontrol, h, ← hcontrol]

/-- What a step does to the phase and the clock while the server drains. -/
theorem step_turns {s s' : Server} {a : Act H} (hstep : step cfg s a = some s') :
    Turns cfg s a s' := by
  -- the phases behind the next event, and those that stay at it
  have hnext : ∀ {event rest} (phase : Phase), s.phase = .batch (event :: rest) →
      phase.rest = rest → (∀ rest, phase ≠ .accepting rest) → s.phase.Deaf → phase.Deaf := by
    intro event rest phase hphase hrest
    apply Phase.Deaf.less
    rw [hphase, hrest]
    exact List.suffix_cons event rest
  have hstay : ∀ {rest} (phase : Phase), s.phase.rest = rest → phase.rest = rest →
      (∀ rest, phase ≠ .accepting rest) → s.phase.Deaf → phase.Deaf := by
    intro rest phase hphase hrest
    apply Phase.Deaf.less
    rw [hphase, hrest]
  cases step_cases hstep with
  | tick nanos => exact .same rfl
  | poll events hphase hreports =>
      refine .goes (.batch events) rfl nofun fun hdraining _ => ⟨fun hin => ?_, nofun⟩
      have hlistens : s.draining = false := hreports.2.2 .listener hin
      rw [hdraining] at hlistens
      cases hlistens
  | pollFailed hphase => exact .goes (.stopped false) rfl nofun fun _ _ => ⟨nofun, nofun⟩
  | enterPipe hphase => exact .goes _ rfl nofun fun _ => hnext _ hphase rfl nofun
  | enterListener hphase =>
      refine .goes _ rfl nofun fun _ hdeaf => absurd ?_ hdeaf.1
      rw [hphase]
      exact List.mem_cons_self
  | clientError ans fd dir rest hphase =>
      exact .goes (.batch rest) (control_of_without (closeConnection_without _ fd .ioError)) nofun
        fun _ => hnext _ hphase rfl nofun
  | clientGone hphase hlookup => exact .goes _ rfl nofun fun _ => hnext _ hphase rfl nofun
  | client ans fd o dir rest x outcome hphase hlookup hreact =>
      exact .goes (.batch rest) (conclude_frame control (fun _ => rfl) (fun _ _ _ => rfl) ..) nofun
        fun _ => hnext _ hphase rfl nofun
  | accept fd clientIp hphase hlookup => exact .same rfl
  | acceptEnd hphase =>
      exact .goes _ rfl nofun fun _ => hstay _ (congrArg Phase.rest hphase) rfl nofun
  | drainRead hphase hpipe =>
      apply Turns.same
      unfold control
      rfl
  | drainEnd hphase hend =>
      exact .goes _ rfl nofun fun _ => hstay _ (congrArg Phase.rest hphase) rfl nofun
  | swap hphase =>
      exact .goes _ rfl nofun fun _ => hstay _ (congrArg Phase.rest hphase) rfl nofun
  | complete ans c ready rest hphase =>
      exact .goes (.completing ready rest)
        (control_of_without (processCompletion_without
          ({ s with phase := .completing ready rest } : Server) ans c)) nofun
        fun _ => hstay _ (congrArg Phase.rest hphase) rfl nofun
  | completeEnd hphase =>
      exact .goes _ rfl nofun fun _ => hstay _ (congrArg Phase.rest hphase) rfl nofun
  | afterBatch hphase => exact .ends rfl rfl
  | take t tasks htasks hthread => exact .same rfl
  | work k env t pushed hk htask =>
      cases pushed with
      | nil => exact .same rfl
      | cons item pushed => exact .same rfl
  | notify k t hk => exact .same rfl
  | exit k t hk => exact .same rfl
  | requestStop => exact .same rfl
  | stopNotify hstop => exact .same rfl

/-- The loop as it is while the server drains. -/
structure Winds (deadline : Int) (s : Server) : Prop where
  draining : s.draining = true
  due : s.drainDeadline = deadline
  deaf : s.phase.Deaf
  /-- The last look at the time was in time. -/
  inTime : s.phase = .waiting → (s.lastCleanup : Int) < deadline

/-- A sweep leaves the shutdown as it is. -/
theorem cleanup_control {s : Server} (settings : Settings) (h : s.draining = true) :
    (s.cleanup settings).control = (true, s.phase, s.now, s.drainDeadline) ∧
      (s.cleanup settings).now = s.now := by
  have hwithout := enforceTimeouts_without s settings
  have hsweep := control_of_without hwithout
  have hnow := congrArg Server.now hwithout
  unfold cleanup
  rw [if_pos (.inl h)]
  unfold control at hsweep ⊢
  simp only [Prod.mk.injEq] at hsweep ⊢
  exact ⟨⟨hsweep.1.trans h, hsweep.2.1, trivial, hsweep.2.2.2⟩, hnow⟩

/-- The end of a batch in a drain. -/
theorem checkDrain_winds {s : Server} (settings : Settings) (h : s.draining = true) :
    (s.cleanup settings).checkDrain.Winds s.drainDeadline := by
  rcases cleanup_control settings h with ⟨hcontrol, hnow⟩
  unfold control at hcontrol
  simp only [Prod.mk.injEq] at hcontrol
  rcases hcontrol with ⟨hdraining, hphase, hlast, hdeadline⟩
  refine ⟨hdraining, hdeadline, ?_, ?_⟩
  · constructor
    · rw [(checkDrain_phase _).1]
      exact List.not_mem_nil
    · unfold checkDrain
      dsimp only
      repeat' split
      all_goals nofun
  · intro hwaiting
    have hlate : ¬ (s.cleanup settings).drainDeadline ≤ (s.cleanup settings).now := by
      intro hlate
      unfold checkDrain at hwaiting
      dsimp only at hwaiting
      rw [if_neg (not_not_intro hdraining), if_pos hlate] at hwaiting
      split at hwaiting <;> cases hwaiting
    have hlast' : (s.cleanup settings).checkDrain.lastCleanup = s.now := hlast
    rw [hdeadline, hnow] at hlate
    rw [hlast']
    omega

/-- **Step lemma.** The deadline stays. -/
theorem step_winds {s s' : Server} {a : Act H} {deadline : Int} (h : s.Winds deadline)
    (hstep : step cfg s a = some s') : s'.Winds deadline := by
  have hof : ∀ {t : Server}, t.Winds deadline → s'.control = t.control → s'.Winds deadline := by
    intro t ht hcontrol
    unfold control at hcontrol
    simp only [Prod.mk.injEq] at hcontrol
    rcases hcontrol with ⟨hdraining, hphase, hlast, hdue⟩
    refine ⟨hdraining.trans ht.draining, hdue.trans ht.due, hphase ▸ ht.deaf, ?_⟩
    rw [hphase, hlast]
    exact ht.inTime
  cases step_turns hstep with
  | same hcontrol => exact hof h hcontrol
  | goes phase hcontrol hphase hdeaf =>
      have hgone : ({ s with phase := phase } : Server).Winds deadline :=
        ⟨h.draining, h.due, hdeaf h.draining h.deaf, fun hwait => absurd hwait hphase⟩
      exact hof hgone hcontrol
  | ends ha hcontrol =>
      have hbegin : s.beginDrain cfg.settings = s := by
        unfold beginDrain
        rw [if_neg fun hb => hb.1 h.draining]
      rw [hbegin] at hcontrol
      have hends := checkDrain_winds cfg.settings h.draining
      rw [h.due] at hends
      exact hof hends hcontrol

/-- No connection is accepted. -/
theorem step_closed {s s' : Server} {a : Act H} {deadline : Int} (h : s.Winds deadline)
    (hstep : step cfg s a = some s') : s'.nextObject = s.nextObject := by
  rcases step_nextObject hstep with hsame | ⟨fd, clientIp, rfl, -⟩
  · exact hsame
  · cases step_cases hstep with
    | accept fd clientIp hphase hlookup => exact absurd hphase (h.deaf.2 _)

/-! ## The drain -/

/-- **Run lemma.** Every run behind the stop keeps the deadline, the objects and what each may
still do. -/
theorem run_winding {s s' : Server} {acts : List (Act H)} {deadline : Int} {n : Nat → Nat}
    (hs : Runs.Reachable (serverSystem cfg) s) (h : s.Winds deadline)
    (hx : ∀ o, o < s.nextObject → (s.objects o).Winding (n o))
    (hrun : (serverSystem cfg).run s acts = some s') :
    s'.Winds deadline ∧ s'.nextObject = s.nextObject ∧
      ∀ o, o < s.nextObject → (s'.objects o).Winding (n o) := by
  induction acts generalizing s with
  | nil =>
      cases hrun
      exact ⟨h, rfl, hx⟩
  | cons a acts ih =>
      rcases Option.bind_eq_some_iff.1 hrun with ⟨t, hstep, hrest⟩
      have hsame := step_closed h hstep
      rw [← hsame]
      apply ih (hs.step hstep) (step_winds h hstep) ?_ hrest
      intro o ho
      rw [hsame] at ho
      exact moves_winding hs h.draining ho (hx o ho) (step_moves (reachable_inv hs) hstep o)

/-- **A drain is bounded.** From the moment at which a stop request has been seen, no
connection is accepted, each connection gets at most one more response and is closed behind
it, and the loop goes on only while the time it reads behind a batch is within the grace
period. -/
theorem drain_bounded {s₀ s s' : Server} {acts : List (Act H)}
    (hs : Runs.Reachable (serverSystem cfg) s₀) (hbefore : s₀.draining = false)
    (hbegin : step cfg s₀ .afterBatch = some s) (hdraining : s.draining = true)
    (hrun : (serverSystem cfg).run s acts = some s') :
    s'.draining = true ∧ s'.nextObject = s.nextObject ∧
      (s'.phase = .waiting →
        (s'.lastCleanup : Int) < s₀.now + cfg.settings.shutdownGraceSec * nanosPerSec) ∧
      ∀ o, o < s.nextObject → (s'.objects o).Winding (s.objects o).hist.finished := by
  have hreached : Runs.Reachable (serverSystem cfg) s := hs.step (a := .afterBatch) hbegin
  have hwinds : s.Winds (s₀.now + cfg.settings.shutdownGraceSec * nanosPerSec) := by
    cases step_cases hbegin with
    | afterBatch hphase =>
        have hset : (s₀.beginDrain cfg.settings).draining = true := by
          rcases cleanup_without (s₀.beginDrain cfg.settings) cfg.settings with ⟨last, hlast⟩
          exact (congrArg Server.draining hlast).symm.trans hdraining
        have hdue : (s₀.beginDrain cfg.settings).drainDeadline =
            s₀.now + cfg.settings.shutdownGraceSec * nanosPerSec := by
          unfold beginDrain at hset ⊢
          split
          · rfl
          next hnone =>
            rw [if_neg hnone, hbefore] at hset
            cases hset
        rw [← hdue]
        exact checkDrain_winds cfg.settings hset
  have hstart : ∀ o, o < s.nextObject →
      (s.objects o).Winding (s.objects o).hist.finished := by
    intro o ho
    exact ⟨le_rfl, Nat.le_succ _, fun h => absurd h (by omega), reachable_behind hreached o ho⟩
  rcases run_winding hreached hwinds hstart hrun with ⟨hafter, hnext, hobjects⟩
  exact ⟨hafter.draining, hnext, hafter.inTime, hobjects⟩

/-- A stop is requested while a request is with a worker. -/
def stopOne : List (Act Nat) := acceptOne ++ receiveOne getRequest ++ [.requestStop]

/-- Its response is sent while the server drains. -/
def answerLast : List (Act Nat) := [.take, .work 0 smallEnv] ++ deliverOne ++ [.afterBatch]

/-- A stop while one request is in flight. -/
theorem drain_bounded_one : ∃ s₀ s s' : Server,
    (serverSystem smallConfig).run (Server.start 0) stopOne = some s₀ ∧
      step smallConfig s₀ .afterBatch = some s ∧
      (serverSystem smallConfig).run s answerLast = some s' ∧ s'.phase = .stopped true ∧
      s'.draining = true ∧ s'.nextObject = s.nextObject ∧
      (s'.phase = .waiting → (s'.lastCleanup : Int) <
        s₀.now + smallConfig.settings.shutdownGraceSec * nanosPerSec) ∧
      ∀ o, o < s.nextObject → (s'.objects o).Winding (s.objects o).hist.finished := by
  have hrun : (((serverSystem smallConfig).run (Server.start 0) stopOne).bind fun s₀ =>
      (step smallConfig s₀ .afterBatch).bind fun s =>
        ((serverSystem smallConfig).run s answerLast).map fun s' =>
          decide (s₀.draining = false ∧ s.draining = true ∧ s'.phase = .stopped true)) =
        some true := by
    decide +kernel
  rcases Option.bind_eq_some_iff.1 hrun with ⟨s₀, hs₀, hrest⟩
  rcases Option.bind_eq_some_iff.1 hrest with ⟨s, hs, hrest⟩
  rcases Option.map_eq_some_iff.1 hrest with ⟨s', hs', hvalue⟩
  rcases of_decide_eq_true hvalue with ⟨hbefore, hdraining, hphase⟩
  exact ⟨s₀, s, s', hs₀, hs, hs', hphase,
    drain_bounded (reachable_of_start hs₀) hbefore hs hdraining hs'⟩

end Server

end Oreshnek
