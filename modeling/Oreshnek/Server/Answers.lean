import Oreshnek.Server.Drain

/-!
# Every response answers its own request

What a callback does to the requests, the responses made for them and the responses
installed of one object (`Grows`, `react_grows`), and what a step does to these and to
the tasks and completed responses of the server (`Progress`, `step_progress`). From
this follows the invariant `Matched`: a task holds its own request of its own
connection, a completed response is the one made for such a task, and each request
has at most one. `installed_in_order` is the result for all runs.
-/

namespace Oreshnek

/-! ## Histories of one object -/

/-- The entry of a response that is installed in order. -/
def inOrder (o serial : Nat) (res : HttpResponse) (inline : Bool) : Installation :=
  ⟨serial, o, res, inline, serial + 1, false⟩

/-- A request has been taken from the buffer. -/
def Outcome.takes : Outcome → Bool
  | .reject _ | .handOver _ => true
  | .wait | .rearm _ | .close _ => false

/-- What a callback adds to the history of the object `o`. -/
inductive Grows (o : Nat) (x y : Session) : Outcome → Prop where
  | same {outcome : Outcome} (hrequests : y.hist.requests = x.hist.requests)
      (hproduced : y.hist.produced = x.hist.produced)
      (hinstalled : y.hist.installed = x.hist.installed)
      (houtcome : outcome.takes = false) : Grows o x y outcome
  | taken (request : HttpRequest)
      (hrequests : y.hist.requests = x.hist.requests ++ [request])
      (hproduced : y.hist.produced = x.hist.produced)
      (hinstalled : y.hist.installed = x.hist.installed) : Grows o x y (.handOver request)
  | rejected (request : HttpRequest) (res : HttpResponse) (status : HttpStatus)
      (hres : res = Session.tooManyRequests ∨ res = Session.serviceUnavailable)
      (hanswered : x.hist.installed.length = x.hist.requests.length)
      (hrequests : y.hist.requests = x.hist.requests ++ [request])
      (hproduced : y.hist.produced = x.hist.produced ++
        [⟨x.hist.requests.length, request, res⟩])
      (hinstalled : y.hist.installed = x.hist.installed ++
        [inOrder o x.hist.requests.length res true]) : Grows o x y (.reject status)

namespace Session

theorem entered_hist {x z : Session} {now : Nat} {ans : Answers} (h : Entered x now ans z) :
    z.hist = x.hist := by
  cases h with
  | plain => rfl
  | shaken => rfl

/-- What a handler leaves to `dispatch_next` has the same requests and responses. -/
theorem handles_hist {x z : Session} {draining : Bool} {now : Nat} {ans : Answers}
    {dir : Direction} (h : Handles x draining now ans dir (.dispatch z)) :
    z.hist.requests = x.hist.requests ∧ z.hist.produced = x.hist.produced ∧
      z.hist.installed = x.hist.installed := by
  cases h with
  | read hz =>
      rw [← entered_hist hz]
      exact ⟨rfl, rfl, rfl⟩
  | reused => exact ⟨rfl, rfl, rfl⟩

/-- A handler that is through has taken, produced and installed nothing. -/
theorem handles_done_hist {x y : Session} {draining : Bool} {now : Nat} {ans : Answers}
    {dir : Direction} {outcome : Outcome}
    (h : Handles x draining now ans dir (.done y outcome)) :
    y.hist.requests = x.hist.requests ∧ y.hist.produced = x.hist.produced ∧
      y.hist.installed = x.hist.installed ∧ outcome.takes = false := by
  cases h with
  | shaken dir outcome htls hdone houtcome =>
      refine ⟨rfl, rfl, rfl, ?_⟩
      rcases houtcome with rfl | rfl | ⟨-, d, rfl⟩
      · rfl
      · rfl
      · rfl
  | readEnd reason hz =>
      rw [← entered_hist hz]
      exact ⟨rfl, rfl, rfl, rfl⟩
  | wrote outcome houtcome =>
      refine ⟨rfl, rfl, rfl, ?_⟩
      rcases houtcome with rfl | ⟨rfl, -⟩
      · rfl
      · rfl
  | finished => exact ⟨rfl, rfl, rfl, rfl⟩

/-- The 429 and 503 answers are installed in order, with nothing left to write. -/
theorem reject_installed {z : Session} (hz : z.Ready) (inb : Inbound) (now : Nat) (ans : Answers)
    (o consumed : Nat) (res : HttpResponse) :
    ((z.parsed inb).reject now ans o consumed res).hist.installed =
      z.hist.installed ++ [inOrder o z.hist.requests.length res true] := by
  have hdata : (z.parsed inb).conn.hasDataToWrite = false := hz.noData
  have hpending : ((z.parsed inb).takeRequest consumed).conn.hasDataToWrite = false := hdata
  unfold reject install inOrder
  dsimp only
  rw [hpending]
  simp [takeRequest, parsed]

/-- What a callback adds to the history: nothing, a request, or a request with its answer. -/
theorem react_grows {x y : Session} {draining limited overloaded : Bool} {now o : Nat}
    {ans : Answers} {dir : Direction} {outcome : Outcome} (hx : x.Left (.rearm dir))
    (hopen : x.conn.isOpen = true)
    (h : x.react draining limited overloaded now ans o dir = some (y, outcome)) :
    Grows o x y outcome := by
  rcases react_cases hx hopen h with hhandle | ⟨z, -, hhandle, hz, hdispatch⟩
  · obtain ⟨hrequests, hproduced, hinstalled, houtcome⟩ := handles_done_hist hhandle
    exact .same hrequests hproduced hinstalled houtcome
  · obtain ⟨hrequests, hproduced, hinstalled⟩ := handles_hist hhandle
    have hanswered : x.hist.installed.length = x.hist.requests.length := by
      rw [← hinstalled, ← hrequests]
      exact hz.answered
    -- an answer on the spot, whichever it is
    have hreject : ∀ consumed inb res status, res = tooManyRequests ∨ res = serviceUnavailable →
        Grows o x ((z.parsed inb).reject now ans o consumed res) (.reject status) := by
      intro consumed inb res status hres
      refine .rejected (inb.ownedRequest consumed) res status hres hanswered ?_ ?_ ?_
      · exact congrArg (· ++ [inb.ownedRequest consumed]) hrequests
      · rw [← hrequests]
        exact congrArg (· ++ [⟨z.hist.requests.length, inb.ownedRequest consumed, res⟩]) hproduced
      · rw [← hinstalled, ← hrequests]
        exact reject_installed hz inb now ans o consumed res
    cases hdispatch with
    | limited consumed inb => exact hreject _ _ _ _ (.inl rfl)
    | shed consumed inb => exact hreject _ _ _ _ (.inr rfl)
    | handedOver consumed inb =>
        exact .taken _ (congrArg (· ++ [inb.ownedRequest consumed]) hrequests) hproduced hinstalled
    | bad n inb => exact .same hrequests hproduced hinstalled rfl
    | waits n inb => exact .same hrequests hproduced hinstalled rfl

/-- The end of a callback adds nothing to the history of requests and responses. -/
theorem concluded_hist (x : Session) (success : Bool) (outcome : Outcome) :
    (x.concluded success outcome).hist.requests = x.hist.requests ∧
      (x.concluded success outcome).hist.produced = x.hist.produced ∧
      (x.concluded success outcome).hist.installed = x.hist.installed :=
  concluded_keeps (P := fun y => y.hist.requests = x.hist.requests ∧
    y.hist.produced = x.hist.produced ∧ y.hist.installed = x.hist.installed)
    ⟨rfl, rfl, rfl⟩ (fun _ => ⟨rfl, rfl, rfl⟩) success outcome

end Session

/-! ## Histories of the server -/

/-- The requests, the responses made for them, and those installed. -/
def Session.log (x : Session) : List HttpRequest × List Production × List Installation :=
  (x.hist.requests, x.hist.produced, x.hist.installed)

theorem Session.concluded_log (x : Session) (success : Bool) (outcome : Outcome) :
    (x.concluded success outcome).log = x.log := by
  obtain ⟨hrequests, hproduced, hinstalled⟩ := x.concluded_hist success outcome
  unfold log
  rw [hrequests, hproduced, hinstalled]

/-- The task of a worker that has not yet pushed. -/
def RunningTask.pending? (r : RunningTask) : Option Task :=
  match r.stage with
  | .working => some r.task
  | .pushed => none
  | .leaving => none

namespace Server

variable {H : Type} {cfg : Config H}

/-- The tasks without a response so far. -/
def pendingTasks (s : Server) : Multiset Task :=
  (s.tasks ++ s.running.filterMap RunningTask.pending? : List Task)

/-- The responses on their way back. -/
def completions (s : Server) : Multiset Completion :=
  (s.completed ++ s.phase.ready : List Completion)

/-- What a step adds to the histories, and what it does to the tasks and completed
responses. -/
inductive Progress (s s' : Server) : Prop where
  | quiet (hnext : s.nextObject ≤ s'.nextObject)
      (hlog : ∀ o, o < s.nextObject → (s'.objects o).log = (s.objects o).log)
      (hnew : ∀ o, s.nextObject ≤ o → o < s'.nextObject → (s'.objects o).log = ([], [], []))
      (hpending : s'.pendingTasks ≤ s.pendingTasks)
      (hcompletions : s'.completions ≤ s.completions)
  | taken (t : Task) (ht : t.conn < s.nextObject)
      (hserial : t.serial = (s.objects t.conn).hist.requests.length)
      (hlog : (s'.objects t.conn).log = ((s.objects t.conn).hist.requests ++ [t.request],
        (s.objects t.conn).hist.produced, (s.objects t.conn).hist.installed))
      (hothers : ∀ o, o ≠ t.conn → (s'.objects o).log = (s.objects o).log)
      (hnext : s'.nextObject = s.nextObject)
      (hpending : s'.pendingTasks = t ::ₘ s.pendingTasks)
      (hcompletions : s'.completions ≤ s.completions)
  | rejected (o : Nat) (request : HttpRequest) (res : HttpResponse) (ho : o < s.nextObject)
      (hanswered : (s.objects o).hist.installed.length = (s.objects o).hist.requests.length)
      (hlog : (s'.objects o).log = ((s.objects o).hist.requests ++ [request],
        (s.objects o).hist.produced ++ [⟨(s.objects o).hist.requests.length, request, res⟩],
        (s.objects o).hist.installed ++ [inOrder o (s.objects o).hist.requests.length res true]))
      (hothers : ∀ o', o' ≠ o → (s'.objects o').log = (s.objects o').log)
      (hnext : s'.nextObject = s.nextObject)
      (hpending : s'.pendingTasks ≤ s.pendingTasks)
      (hcompletions : s'.completions ≤ s.completions)
  | installed (c : Completion) (hc : c ∈ s.completions) (ho : c.item.conn < s.nextObject)
      (hserial : c.serial = (s.objects c.item.conn).hist.installed.length)
      (hlog : (s'.objects c.item.conn).log = ((s.objects c.item.conn).hist.requests,
        (s.objects c.item.conn).hist.produced, (s.objects c.item.conn).hist.installed ++
          [inOrder c.item.conn c.serial c.item.response false]))
      (hothers : ∀ o, o ≠ c.item.conn → (s'.objects o).log = (s.objects o).log)
      (hnext : s'.nextObject = s.nextObject)
      (hpending : s'.pendingTasks ≤ s.pendingTasks)
      (hcompletions : s'.completions ≤ s.completions)
  | pushed (t : Task) (res : HttpResponse)
      (hlog : (s'.objects t.conn).log = ((s.objects t.conn).hist.requests,
        (s.objects t.conn).hist.produced ++ [⟨t.serial, t.request, res⟩],
        (s.objects t.conn).hist.installed))
      (hothers : ∀ o, o ≠ t.conn → (s'.objects o).log = (s.objects o).log)
      (hnext : s'.nextObject = s.nextObject)
      (hpending : s.pendingTasks = t ::ₘ s'.pendingTasks)
      (hcompletions : s'.completions = ⟨t.serial, t.fd, t.conn, res⟩ ::ₘ s.completions)

/-- A step that only changes where the loop is, or what the workers do without a
response. -/
theorem Progress.idle {s s' : Server} (hobjects : s'.objects = s.objects)
    (hnext : s'.nextObject = s.nextObject) (hpending : s'.pendingTasks ≤ s.pendingTasks)
    (hcompletions : s'.completions ≤ s.completions) : Progress s s' := by
  refine .quiet hnext.ge (fun o _ => by rw [hobjects]) (fun o hle hlt => ?_) hpending
    hcompletions
  rw [hnext] at hlt
  exact absurd hlt (Nat.not_lt.2 hle)

/-- A phase without responses in hand leaves the completed ones alone. -/
theorem completions_setPhase (s : Server) (phase : Phase) (hready : phase.ready = []) :
    ({ s with phase } : Server).completions ≤ s.completions := by
  unfold completions
  dsimp only
  rw [hready, List.append_nil]
  exact Multiset.coe_le.2 (List.sublist_append_left _ _).subperm

/-- The completions depend on two fields of the server. -/
theorem completions_congr {s s' : Server}
    (h : s'.withoutConnections.completed = s.withoutConnections.completed)
    (hphase : s'.withoutConnections.phase = s.withoutConnections.phase) :
    s'.completions = s.completions := by
  have h : s'.completed = s.completed := h
  have hphase : s'.phase = s.phase := hphase
  unfold completions
  rw [h, hphase]

/-- So do the tasks that are pending. -/
theorem pendingTasks_congr {s s' : Server}
    (h : s'.withoutConnections.tasks = s.withoutConnections.tasks)
    (hrunning : s'.withoutConnections.running = s.withoutConnections.running) :
    s'.pendingTasks = s.pendingTasks := by
  have h : s'.tasks = s.tasks := h
  have hrunning : s'.running = s.running := hrunning
  unfold pendingTasks
  rw [h, hrunning]

theorem without_pool {s s' : Server} (h : s'.withoutConnections = s.withoutConnections) :
    s'.pendingTasks = s.pendingTasks ∧ s'.completions = s.completions := by
  constructor
  · exact pendingTasks_congr (by rw [h]) (by rw [h])
  · exact completions_congr (by rw [h]) (by rw [h])

theorem pendingTasks_enqueue (s : Server) (t : Task) :
    ({ s with tasks := s.tasks ++ [t] } : Server).pendingTasks = t ::ₘ s.pendingTasks := by
  unfold pendingTasks
  rw [Multiset.cons_coe, Multiset.coe_eq_coe, List.append_assoc]
  exact List.perm_middle

/-- The end of a callback gives the pool a task when a request is handed over, and otherwise
nothing. -/
theorem conclude_pool (s : Server) (fd o : Nat) (x : Session) (success : Bool)
    (outcome : Outcome) :
    (s.conclude fd o x success outcome).completions = s.completions ∧
      (((∀ request, outcome ≠ .handOver request) ∧
          (s.conclude fd o x success outcome).pendingTasks = s.pendingTasks) ∨
        ∃ request, outcome = .handOver request ∧
          (s.conclude fd o x success outcome).pendingTasks =
            ⟨fd, o, x.hist.requests.length - 1, request⟩ ::ₘ s.pendingTasks) := by
  have hquiet : (∀ request, outcome ≠ .handOver request) →
      (s.conclude fd o x success outcome).withoutConnections = s.withoutConnections := by
    intro hno
    rcases conclude_without s fd o x success outcome with h | ⟨t, ht, -⟩
    · exact h
    · exact absurd ht (hno _)
  cases outcome with
  | handOver request =>
      exact ⟨rfl, .inr ⟨request, rfl, pendingTasks_enqueue (s.setSession o x) _⟩⟩
  | wait =>
      obtain ⟨hpending, hcompletions⟩ := without_pool (hquiet nofun)
      exact ⟨hcompletions, .inl ⟨nofun, hpending⟩⟩
  | rearm dir =>
      obtain ⟨hpending, hcompletions⟩ := without_pool (hquiet nofun)
      exact ⟨hcompletions, .inl ⟨nofun, hpending⟩⟩
  | close reason =>
      obtain ⟨hpending, hcompletions⟩ := without_pool (hquiet nofun)
      exact ⟨hcompletions, .inl ⟨nofun, hpending⟩⟩
  | reject status =>
      obtain ⟨hpending, hcompletions⟩ := without_pool (hquiet nofun)
      exact ⟨hcompletions, .inl ⟨nofun, hpending⟩⟩

/-- A callback on the connection `o` of `fd`. -/
theorem conclude_progress {s : Server} (hinv : s.Inv) {fd o : Nat}
    {rest : List Event} {ans : Answers} {x : Session} {outcome : Outcome}
    (hlookup : s.connections.lookup fd = some o)
    (hgrows : Grows o (s.objects o) x outcome) :
    Progress s (({ s with phase := .batch rest } : Server).conclude fd o x ans.rearmed outcome) := by
  have ho := (hinv.serves fd o hlookup).1
  have hobjects := conclude_objects (s := { s with phase := .batch rest }) hlookup x ans.rearmed
    outcome
  -- only the log of `o` may change, and it is that of `x`
  have hself : ((({ s with phase := .batch rest } : Server).conclude fd o x ans.rearmed
      outcome).objects o).log = x.log := by
    rw [hobjects, Function.update_self]
    exact x.concluded_log ans.rearmed outcome
  have hothers : ∀ o', o' ≠ o → ((({ s with phase := .batch rest } : Server).conclude fd o x
      ans.rearmed outcome).objects o').log = (s.objects o').log := by
    intro o' hne
    rw [hobjects, Function.update_of_ne hne]
  have hnext : (({ s with phase := .batch rest } : Server).conclude fd o x ans.rearmed
      outcome).nextObject = s.nextObject := conclude_nextObject _ _ _ _ _ _
  obtain ⟨hcompletions, hpending⟩ :=
    conclude_pool { s with phase := .batch rest } fd o x ans.rearmed outcome
  have hle := hcompletions.trans_le (completions_setPhase s (.batch rest) rfl)
  cases hgrows with
  | same hrequests hproduced hinstalled houtcome =>
      refine .quiet hnext.ge (fun o' _ => ?_) (fun o' hge hlt => ?_) ?_ hle
      · by_cases hne : o' = o
        · subst hne
          rw [hself]
          unfold Session.log
          rw [hrequests, hproduced, hinstalled]
        · exact hothers o' hne
      · rw [hnext] at hlt
        exact absurd hlt (Nat.not_lt.2 hge)
      · rcases hpending with ⟨-, hpending⟩ | ⟨request, heq, -⟩
        · exact hpending.le
        · rw [heq] at houtcome
          cases houtcome
  | taken request hrequests hproduced hinstalled =>
      -- a request taken over goes with a task for it
      rcases hpending with ⟨hno, -⟩ | ⟨request', heq, hpending⟩
      · exact absurd rfl (hno request)
      · cases heq
        refine .taken _ ho ?_ ?_ hothers hnext hpending hle
        · dsimp only
          rw [hrequests, List.length_append]
          rfl
        · rw [hself]
          unfold Session.log
          rw [hrequests, hproduced, hinstalled]
  | rejected request res status hres hanswered hrequests hproduced hinstalled =>
      refine .rejected o request res ho hanswered ?_ hothers hnext ?_ hle
      · rw [hself]
        unfold Session.log
        rw [hrequests, hproduced, hinstalled]
      · rcases hpending with ⟨-, hpending⟩ | ⟨request', heq, -⟩
        · exact hpending.le
        · cases heq

/-- A response that comes back is installed, or its connection is gone. -/
theorem completion_progress {s : Server} (hinv : s.Inv) {c : Completion}
    {ready : List Completion} {rest : List Event} (hphase : s.phase = .completing (c :: ready) rest)
    (ans : Answers) :
    Progress s (({ s with phase := .completing ready rest } : Server).processCompletion ans c) := by
  have hready : s.phase.ready = c :: ready := by
    rw [hphase]
    rfl
  have hmem : c ∈ s.completions := by
    unfold completions
    rw [hready]
    exact Multiset.mem_coe.2 (List.mem_append_right _ List.mem_cons_self)
  have hrest : ({ s with phase := .completing ready rest } : Server).completions ≤
      s.completions := by
    unfold completions
    rw [hready]
    exact Multiset.coe_le.2 ((List.sublist_cons_self c ready).append_left _).subperm
  obtain ⟨hpending, hcompletions⟩ := without_pool
    (processCompletion_without { s with phase := .completing ready rest } ans c)
  have hpending : (({ s with phase := .completing ready rest } : Server).processCompletion ans
      c).pendingTasks ≤ s.pendingTasks := hpending.le
  have hle := hcompletions.trans_le hrest
  have hnext : (({ s with phase := .completing ready rest } : Server).processCompletion ans
      c).nextObject = s.nextObject := processCompletion_nextObject _ _ _
  revert hpending hle hnext
  unfold processCompletion
  dsimp only
  split
  · exact fun hpending hle _ => .idle rfl rfl hpending hle
  next o hlookup =>
    split
    · exact fun hpending hle _ => .idle rfl rfl hpending hle
    next hown =>
      rw [not_or, not_ne_iff, not_not] at hown
      obtain ⟨rfl, -⟩ := hown
      obtain ⟨hhanded, hserial, -⟩ := hinv.arrival hphase hlookup
      intro hpending hle hnext
      have hobjects := rearm_objects (s := ({ s with
        phase := .completing ready rest } : Server).setSession c.item.conn
          ((s.objects c.item.conn).workerDone.install s.now ans c.serial c.item.conn false
            c.item.response)) hlookup .write ans.rearmed
      have hanswered := hhanded.answered
      have hcount : c.serial = (s.objects c.item.conn).hist.installed.length := by omega
      refine .installed c hmem (hinv.serves _ _ hlookup).1 hcount ?_ ?_ hnext hpending hle
      · rw [hobjects, Function.update_self]
        unfold setSession
        dsimp only
        rw [Function.update_self]
        -- nothing is left to write, and this is the last request
        have hdata : (s.objects c.item.conn).workerDone.conn.hasDataToWrite = false :=
          hhanded.noData
        have hlast : (s.objects c.item.conn).hist.requests.length = c.serial + 1 := by omega
        have hentry : ((s.objects c.item.conn).workerDone.install s.now ans c.serial c.item.conn
            false c.item.response).log = ((s.objects c.item.conn).hist.requests,
            (s.objects c.item.conn).hist.produced, (s.objects c.item.conn).hist.installed ++
              [inOrder c.item.conn c.serial c.item.response false]) := by
          unfold Session.log Session.install inOrder
          dsimp only
          rw [hdata]
          dsimp only [Session.workerDone]
          rw [hlast]
        cases ans.rearmed with
        | true => exact hentry
        | false => exact hentry
      · intro o' hne
        rw [hobjects, Function.update_of_ne hne]
        unfold setSession
        dsimp only
        rw [Function.update_of_ne hne]

/-- A worker that takes a task leaves what is pending. -/
theorem take_pending {s : Server} {t : Task} {tasks : List Task} (htasks : s.tasks = t :: tasks) :
    ({ s with tasks := tasks, running := s.running ++ [⟨.working, t⟩] } : Server).pendingTasks =
      s.pendingTasks := by
  unfold pendingTasks
  rw [htasks, Multiset.coe_eq_coe]
  have htask : ([⟨.working, t⟩] : List RunningTask).filterMap RunningTask.pending? = [t] := rfl
  dsimp only
  rw [List.filterMap_append, htask, ← List.append_assoc]
  exact List.perm_append_singleton t _

/-- The tasks without a response, when the one at `k` leaves them. -/
theorem set_pending {s : Server} {k : Nat} {t : Task} (stage : TaskStage)
    (hk : s.running[k]? = some ⟨.working, t⟩) (hstage : stage ≠ .working) :
    s.pendingTasks =
      t ::ₘ ({ s with running := s.running.set k ⟨stage, t⟩ } : Server).pendingTasks := by
  obtain ⟨front, back, hrunning, hset, -⟩ := exists_split hk
  have hworking : RunningTask.pending? ⟨.working, t⟩ = some t := rfl
  have hother : RunningTask.pending? ⟨stage, t⟩ = none := by
    cases stage with
    | working => exact absurd rfl hstage
    | pushed => rfl
    | leaving => rfl
  unfold pendingTasks
  dsimp only
  rw [hset, hrunning, Multiset.cons_coe, Multiset.coe_eq_coe, List.filterMap_append,
    List.filterMap_append, List.filterMap_cons_some hworking, List.filterMap_cons_none hother,
    ← List.append_assoc, ← List.append_assoc]
  exact List.perm_middle

/-- What is not a working task has no part in the tasks without a response. -/
theorem leave_pending {s : Server} {k : Nat} {r : RunningTask} (hk : s.running[k]? = some r)
    (hr : r.pending? = none) :
    ({ s with running := s.running.eraseIdx k } : Server).pendingTasks = s.pendingTasks ∧
      ∀ r', r'.pending? = none →
        ({ s with running := s.running.set k r' } : Server).pendingTasks = s.pendingTasks := by
  obtain ⟨front, back, hrunning, hset, herase⟩ := exists_split hk
  have hall : s.running.filterMap RunningTask.pending? =
      (front ++ back).filterMap RunningTask.pending? := by
    rw [hrunning, List.filterMap_append, List.filterMap_cons_none hr, List.filterMap_append]
  constructor
  · unfold pendingTasks
    dsimp only
    rw [herase, hall]
  · intro r' hr'
    unfold pendingTasks
    dsimp only
    rw [hset, List.filterMap_append, List.filterMap_cons_none hr', hall, List.filterMap_append]

theorem completions_push (s : Server) (c : Completion) :
    ({ s with completed := s.completed ++ [c] } : Server).completions = c ::ₘ s.completions := by
  unfold completions
  rw [Multiset.cons_coe, Multiset.coe_eq_coe, List.append_assoc]
  exact List.perm_middle

/-- A worker pushes at most one response, for its own request. -/
theorem push_progress {s : Server} {k : Nat} {t : Task}
    (hk : s.running[k]? = some ⟨.working, t⟩) {pushed : List CompletedResponse}
    (hpushed : pushed = [] ∨ ∃ res, pushed = [⟨t.fd, t.conn, res⟩]) :
    Progress s (s.push k t pushed) := by
  rcases hpushed with rfl | ⟨res, rfl⟩
  · refine .idle rfl rfl ?_ le_rfl
    rw [set_pending .leaving hk nofun]
    exact Multiset.le_cons_self _ _
  · refine .pushed t res ?_ ?_ rfl (set_pending .pushed hk nofun) ?_
    · have hself := Function.update_self t.conn
        ({ s.objects t.conn with hist.produced := (s.objects t.conn).hist.produced ++
          [⟨t.serial, t.request, res⟩] } : Session) s.objects
      exact congrArg Session.log hself
    · intro o hne
      have hother := Function.update_of_ne hne
        ({ s.objects t.conn with hist.produced := (s.objects t.conn).hist.produced ++
          [⟨t.serial, t.request, res⟩] } : Session) s.objects
      exact congrArg Session.log hother
    · exact completions_push s ⟨t.serial, t.fd, t.conn, res⟩

/-- What a step of the server adds to the histories and to the pool. -/
theorem step_progress {s s' : Server} {a : Act H} (hinv : s.Inv) (hstep : step cfg s a = some s') :
    Progress s s' := by
  cases step_cases hstep with
  | tick nanos => exact .idle rfl rfl le_rfl le_rfl
  | poll events hphase hreports =>
      exact .idle rfl rfl le_rfl (completions_setPhase s (.batch events) rfl)
  | pollFailed hphase => exact .idle rfl rfl le_rfl (completions_setPhase s _ rfl)
  | enterPipe hphase => exact .idle rfl rfl le_rfl (completions_setPhase s _ rfl)
  | enterListener hphase => exact .idle rfl rfl le_rfl (completions_setPhase s _ rfl)
  | clientError ans fd dir rest hphase =>
      obtain ⟨o, hlookup, -⟩ := hinv.takeEvent hphase
      have hobjects := closeConnection_objects (s := { s with phase := .batch rest }) hlookup
        .ioError
      obtain ⟨hpending, hcompletions⟩ := without_pool
        (closeConnection_without { s with phase := .batch rest } fd .ioError)
      have hnext := closeConnection_nextObject { s with phase := .batch rest } fd .ioError
      -- a close leaves the log of the object as it is
      refine .quiet hnext.ge (fun o' _ => ?_) (fun o' hge hlt => ?_) hpending.le
        (hcompletions.trans_le (completions_setPhase s (.batch rest) rfl))
      · rw [hobjects]
        by_cases hne : o' = o
        · subst hne
          rw [Function.update_self]
          rfl
        · rw [Function.update_of_ne hne]
      · rw [closeConnection_nextObject] at hlt
        exact absurd hlt (Nat.not_lt.2 hge)
  | clientGone hphase hlookup => exact .idle rfl rfl le_rfl (completions_setPhase s _ rfl)
  | client ans fd o dir rest x outcome hphase hlookup hreact =>
      obtain ⟨o', hsome, hhand, hleft, -⟩ := hinv.takeEvent hphase
      rw [hlookup] at hsome
      cases hsome
      exact conclude_progress hinv hlookup (Session.react_grows hleft hhand.isOpen hreact)
  | accept fd clientIp hphase hlookup =>
      refine .quiet (Nat.le_succ _) (fun o ho => ?_) (fun o hge hlt => ?_) le_rfl le_rfl
      · have hother := Function.update_of_ne (Nat.ne_of_lt ho)
          (Session.new fd s.now clientIp cfg.tls) s.objects
        exact congrArg Session.log hother
      · -- the new object has an empty log
        have heq : o = s.nextObject := Nat.le_antisymm (Nat.lt_succ_iff.1 hlt) hge
        subst heq
        have hself := Function.update_self s.nextObject (Session.new fd s.now clientIp cfg.tls)
          s.objects
        exact congrArg Session.log hself
  | acceptEnd hphase => exact .idle rfl rfl le_rfl (completions_setPhase s _ rfl)
  | drainRead hphase hpipe =>
      refine .idle rfl rfl ?_ ?_
      · unfold pendingTasks
        exact le_rfl
      · unfold completions
        exact le_rfl
  | drainEnd hphase hend => exact .idle rfl rfl le_rfl (completions_setPhase s _ rfl)
  | swap hphase =>
      refine .idle rfl rfl le_rfl (le_of_eq ?_)
      unfold completions
      rw [hphase]
      simp [Phase.ready]
  | complete ans c ready rest hphase => exact completion_progress hinv hphase ans
  | completeEnd hphase => exact .idle rfl rfl le_rfl (completions_setPhase s _ rfl)
  | afterBatch hphase =>
      obtain ⟨draining, deadline, last, phase, hwithout⟩ := afterBatch_without s cfg.settings
      have hready : ((s.beginDrain cfg.settings).cleanup cfg.settings).checkDrain.phase.ready =
          [] := by
        unfold checkDrain
        dsimp only
        repeat' split
        all_goals rfl
      -- the sweep closes connections and drops no task
      refine .quiet (afterBatch_nextObject _ _).ge (fun o _ => ?_) (fun o hge hlt => ?_) ?_ ?_
      · rcases cleanup_objects hinv hphase cfg.settings o with hsame |
          ⟨fd, reason, hlookup, hreason, -, hclosed⟩
        · exact congrArg Session.log hsame
        · have hlog := congrArg Session.log hclosed
          exact hlog
      · rw [afterBatch_nextObject] at hlt
        exact absurd hlt (Nat.not_lt.2 hge)
      · refine (pendingTasks_congr ?_ ?_).le
        · rw [hwithout]
        · rw [hwithout]
      · have hcompleted := congrArg Server.completed hwithout
        have hcompleted : ((s.beginDrain cfg.settings).cleanup cfg.settings).checkDrain.completed =
            s.completed := hcompleted
        unfold completions
        rw [hready, hcompleted, List.append_nil]
        exact Multiset.coe_le.2 (List.sublist_append_left _ _).subperm
  | take t tasks htasks hthread => exact .idle rfl rfl (take_pending htasks).le le_rfl
  | work k env t pushed hk htask =>
      apply push_progress hk
      rcases workerTask_pushed htask with h | ⟨req', res, -, h⟩
      · exact .inl h
      · exact .inr ⟨_, h⟩
  | notify k t hk => exact .idle rfl rfl ((leave_pending hk rfl).2 _ rfl).le le_rfl
  | exit k t hk => exact .idle rfl rfl (leave_pending hk rfl).1.le le_rfl
  | requestStop => exact .idle rfl rfl le_rfl le_rfl
  | stopNotify hstop => exact .idle rfl rfl le_rfl le_rfl

/-! ## Responses and their requests -/

/-- The history of the object `o`: a response was made for the request with its
number, and those installed are in order and were made for it. -/
structure InOrder (o : Nat) (log : List HttpRequest × List Production × List Installation) :
    Prop where
  made : ∀ p ∈ log.2.1, log.1[p.serial]? = some p.request
  installed : ∀ i e, log.2.2[i]? = some e → e = inOrder o i e.response e.inline ∧
    ∃ p ∈ log.2.1, p.serial = i ∧ p.response = e.response

/-- The numbers of the requests of `o` that are answered or being answered. -/
def serials (s : Server) (o : Nat) : Multiset Nat :=
  (s.pendingTasks.filter fun t => t.conn = o).map Task.serial +
    ((s.objects o).log.2.1.map Production.serial : List Nat)

/-- Tasks and completed responses belong to the histories of their objects. -/
structure Matched (s : Server) : Prop where
  order : ∀ o, o < s.nextObject → InOrder o (s.objects o).log
  task : ∀ t ∈ s.pendingTasks, t.conn < s.nextObject ∧
    (s.objects t.conn).log.1[t.serial]? = some t.request
  completion : ∀ c ∈ s.completions, c.item.conn < s.nextObject ∧
    ∃ p ∈ (s.objects c.item.conn).log.2.1, p.serial = c.serial ∧ p.response = c.item.response
  once : ∀ o, o < s.nextObject → (s.serials o).Nodup

/-- A request that is taken leaves the order. -/
theorem InOrder.take {o : Nat} {requests : List HttpRequest} {produced : List Production}
    {installed : List Installation} (h : InOrder o (requests, produced, installed))
    (request : HttpRequest) : InOrder o (requests ++ [request], produced, installed) where
  made p hp := by
    have hold := h.made p hp
    rw [List.getElem?_append_left (List.getElem?_eq_some_iff.1 hold).1]
    exact hold
  installed := h.installed

/-- A response made for a request that was taken. -/
theorem InOrder.make {o : Nat} {requests : List HttpRequest} {produced : List Production}
    {installed : List Installation} (h : InOrder o (requests, produced, installed))
    {p : Production} (hp : requests[p.serial]? = some p.request) :
    InOrder o (requests, produced ++ [p], installed) where
  made q hq := by
    rcases List.mem_append.1 hq with hq | hq
    · exact h.made q hq
    · rw [List.mem_singleton.1 hq]
      exact hp
  installed i e he := by
    obtain ⟨hentry, q, hq, hmade⟩ := h.installed i e he
    exact ⟨hentry, q, List.mem_append_left _ hq, hmade⟩

/-- The next response is installed for the next request. -/
theorem InOrder.install {o : Nat} {requests : List HttpRequest} {produced : List Production}
    {installed : List Installation} (h : InOrder o (requests, produced, installed))
    {p : Production} (hp : p ∈ produced) (hserial : p.serial = installed.length) (inline : Bool) :
    InOrder o (requests, produced, installed ++ [inOrder o p.serial p.response inline]) where
  made := h.made
  installed i e he := by
    rcases Nat.lt_or_ge i installed.length with hlt | hge
    · rw [List.getElem?_append_left hlt] at he
      exact h.installed i e he
    · rw [List.getElem?_append_right hge] at he
      rw [List.getElem?_singleton] at he
      split at he
      next hzero =>
        cases he
        have hi : i = p.serial := by omega
        subst hi
        exact ⟨rfl, p, hp, rfl, rfl⟩
      · cases he

/-- A history goes on from another one. -/
def Extends (log log' : List HttpRequest × List Production × List Installation) : Prop :=
  log.1 <+: log'.1 ∧ log.2.1 <+: log'.2.1

/-- Behind a step the histories of the objects go on from what they were. -/
theorem Progress.extends {s s' : Server} (h : Progress s s') :
    s.nextObject ≤ s'.nextObject ∧
      ∀ o, o < s.nextObject → Extends (s.objects o).log (s'.objects o).log := by
  have hsame : ∀ {o}, (s'.objects o).log = (s.objects o).log →
      Extends (s.objects o).log (s'.objects o).log := by
    intro o hlog
    rw [hlog]
    exact ⟨List.prefix_rfl, List.prefix_rfl⟩
  -- all steps but the quiet ones change the history of one object
  have hone : ∀ o, (∀ o', o' ≠ o → (s'.objects o').log = (s.objects o').log) →
      Extends (s.objects o).log (s'.objects o).log →
      ∀ o', o' < s.nextObject → Extends (s.objects o').log (s'.objects o').log := by
    intro o hothers hself o' _
    by_cases hne : o' = o
    · exact hne ▸ hself
    · exact hsame (hothers o' hne)
  cases h with
  | quiet hnext hlog => exact ⟨hnext, fun o ho => hsame (hlog o ho)⟩
  | taken t ht hserial hlog hothers hnext =>
      refine ⟨hnext.ge, hone t.conn hothers ?_⟩
      rw [hlog]
      exact ⟨List.prefix_append _ _, List.prefix_rfl⟩
  | rejected o request res ho hanswered hlog hothers hnext =>
      refine ⟨hnext.ge, hone o hothers ?_⟩
      rw [hlog]
      exact ⟨List.prefix_append _ _, List.prefix_append _ _⟩
  | installed c hc ho hserial hlog hothers hnext =>
      refine ⟨hnext.ge, hone c.item.conn hothers ?_⟩
      rw [hlog]
      exact ⟨List.prefix_rfl, List.prefix_rfl⟩
  | pushed t res hlog hothers hnext =>
      refine ⟨hnext.ge, hone t.conn hothers ?_⟩
      rw [hlog]
      exact ⟨List.prefix_rfl, List.prefix_append _ _⟩

theorem filter_cons_self (t : Task) (tasks : Multiset Task) :
    ((t ::ₘ tasks).filter fun t' => t'.conn = t.conn) =
      t ::ₘ tasks.filter fun t' => t'.conn = t.conn :=
  Multiset.filter_cons_of_pos tasks rfl

theorem filter_cons_other {t : Task} {o : Nat} (h : o ≠ t.conn) (tasks : Multiset Task) :
    ((t ::ₘ tasks).filter fun t' => t'.conn = o) = tasks.filter fun t' => t'.conn = o :=
  Multiset.filter_cons_of_neg tasks fun heq => h (Eq.symm heq)

theorem mem_serials {s : Server} {o n : Nat} :
    n ∈ s.serials o ↔ (∃ t ∈ s.pendingTasks, t.conn = o ∧ t.serial = n) ∨
      ∃ p ∈ (s.objects o).log.2.1, p.serial = n := by
  unfold serials
  simp [and_assoc]

/-- The numbers of requests are below the number of requests. -/
theorem Matched.serial_lt {s : Server} (h : s.Matched) {o n : Nat} (ho : o < s.nextObject)
    (hn : n ∈ s.serials o) : n < (s.objects o).log.1.length := by
  rcases mem_serials.1 hn with ⟨t, ht, rfl, rfl⟩ | ⟨p, hp, rfl⟩
  · exact (List.getElem?_eq_some_iff.1 (h.task t ht).2).1
  · exact (List.getElem?_eq_some_iff.1 ((h.order o ho).made p hp)).1

theorem serials_mono {s s' : Server} {o : Nat} (hlog : (s'.objects o).log.2.1 = (s.objects o).log.2.1)
    (hpending : s'.pendingTasks ≤ s.pendingTasks) : s'.serials o ≤ s.serials o := by
  unfold serials
  rw [hlog]
  exact add_le_add_left (Multiset.map_le_map (Multiset.filter_le_filter _ hpending)) _

/-- What was known of a task or a completed response stays so. -/
theorem Progress.task {s s' : Server} (h : Progress s s') {t : Task}
    (ht : t.conn < s.nextObject ∧ (s.objects t.conn).log.1[t.serial]? = some t.request) :
    t.conn < s'.nextObject ∧ (s'.objects t.conn).log.1[t.serial]? = some t.request := by
  obtain ⟨hnext, hextends⟩ := h.extends
  refine ⟨Nat.lt_of_lt_of_le ht.1 hnext, ?_⟩
  obtain ⟨more, hmore⟩ := (hextends t.conn ht.1).1
  rw [← hmore, List.getElem?_append_left (List.getElem?_eq_some_iff.1 ht.2).1]
  exact ht.2

theorem Progress.completion {s s' : Server} (h : Progress s s') {c : Completion}
    (hc : c.item.conn < s.nextObject ∧ ∃ p ∈ (s.objects c.item.conn).log.2.1,
      p.serial = c.serial ∧ p.response = c.item.response) :
    c.item.conn < s'.nextObject ∧ ∃ p ∈ (s'.objects c.item.conn).log.2.1,
      p.serial = c.serial ∧ p.response = c.item.response := by
  obtain ⟨hnext, hextends⟩ := h.extends
  obtain ⟨hknown, p, hp, hmade⟩ := hc
  exact ⟨Nat.lt_of_lt_of_le hknown hnext, p, (hextends _ hknown).2.subset hp, hmade⟩

/-- A request with a new number leaves the numbers free of duplicates. -/
theorem Matched.fresh {s : Server} (h : s.Matched) {o : Nat} (ho : o < s.nextObject)
    {numbers : Multiset Nat} (hle : numbers ≤ s.serials o) :
    ((s.objects o).hist.requests.length ::ₘ numbers).Nodup := by
  rw [Multiset.nodup_cons]
  refine ⟨fun hmem => ?_, Multiset.nodup_of_le hle (h.once o ho)⟩
  exact absurd (h.serial_lt ho (Multiset.mem_of_le hle hmem)) (Nat.lt_irrefl _)

/-- The log of each object stays in order. -/
theorem Progress.keepsOrder {s s' : Server} (hprogress : Progress s s') (h : s.Matched) {o : Nat}
    (ho : o < s'.nextObject) : InOrder o (s'.objects o).log := by
  have hsame : o < s.nextObject → (s'.objects o).log = (s.objects o).log →
      InOrder o (s'.objects o).log := by
    intro hlt hlog
    rw [hlog]
    exact h.order o hlt
  cases hprogress with
  | quiet hnext hlog hnew hpending hcompletions =>
      rcases Nat.lt_or_ge o s.nextObject with hlt | hge
      · exact hsame hlt (hlog o hlt)
      · -- a new object has done nothing
        rw [hnew o hge ho]
        constructor
        · intro p hp
          cases hp
        · intro i e he
          cases he
  | taken t ht hserial hlog hothers hnext hpending hcompletions =>
      rw [hnext] at ho
      by_cases hne : o = t.conn
      · subst hne
        rw [hlog]
        exact (h.order _ ho).take t.request
      · exact hsame ho (hothers o hne)
  | rejected o' request res ho' hanswered hlog hothers hnext hpending hcompletions =>
      rw [hnext] at ho
      by_cases hne : o = o'
      · -- the answer is made and installed at once
        subst hne
        rw [hlog]
        have hmade := ((h.order _ ho).take request).make
          (p := ⟨(s.objects o).hist.requests.length, request, res⟩) List.getElem?_concat_length
        exact hmade.install (List.mem_append_right _ (List.mem_singleton_self _))
          hanswered.symm true
      · exact hsame ho (hothers o hne)
  | installed c hc ho' hserial hlog hothers hnext hpending hcompletions =>
      rw [hnext] at ho
      by_cases hne : o = c.item.conn
      · -- the response has been made for this object
        subst hne
        obtain ⟨-, p, hp, hpserial, hpres⟩ := h.completion c hc
        have hinstall := (h.order _ ho).install hp (hpserial.trans hserial) false
        rw [hpserial, hpres] at hinstall
        rw [hlog]
        exact hinstall
      · exact hsame ho (hothers o hne)
  | pushed t res hlog hothers hnext hpending hcompletions =>
      have hknown := h.task t (hpending ▸ Multiset.mem_cons_self _ _)
      rw [hnext] at ho
      by_cases hne : o = t.conn
      · subst hne
        rw [hlog]
        exact (h.order _ ho).make hknown.2
      · exact hsame ho (hothers o hne)

/-- The tasks of the pool stay requests of their objects. -/
theorem Progress.keepsTasks {s s' : Server} (hprogress : Progress s s') (h : s.Matched) :
    ∀ t ∈ s'.pendingTasks, t.conn < s'.nextObject ∧
      (s'.objects t.conn).log.1[t.serial]? = some t.request := by
  have hold : ∀ t ∈ s.pendingTasks, t.conn < s'.nextObject ∧
      (s'.objects t.conn).log.1[t.serial]? = some t.request :=
    fun t ht => hprogress.task (h.task t ht)
  intro t ht
  cases hprogress with
  | quiet hnext hlog hnew hpending => exact hold t (Multiset.mem_of_le hpending ht)
  | taken t' ht' hserial hlog hothers hnext hpending =>
      rw [hpending] at ht
      rcases Multiset.mem_cons.1 ht with rfl | ht
      · -- the request has just been taken
        rw [hnext, hlog, hserial]
        exact ⟨ht', List.getElem?_concat_length⟩
      · exact hold t ht
  | rejected o request res ho hanswered hlog hothers hnext hpending =>
      exact hold t (Multiset.mem_of_le hpending ht)
  | installed c hc ho hserial hlog hothers hnext hpending =>
      exact hold t (Multiset.mem_of_le hpending ht)
  | pushed t' res hlog hothers hnext hpending =>
      exact hold t (Multiset.mem_of_le (hpending ▸ Multiset.le_cons_self _ _) ht)

/-- The responses on their way back stay those made for their objects. -/
theorem Progress.keepsCompletions {s s' : Server} (hprogress : Progress s s') (h : s.Matched) :
    ∀ c ∈ s'.completions, c.item.conn < s'.nextObject ∧
      ∃ p ∈ (s'.objects c.item.conn).log.2.1,
        p.serial = c.serial ∧ p.response = c.item.response := by
  have hold : ∀ c ∈ s.completions, c.item.conn < s'.nextObject ∧
      ∃ p ∈ (s'.objects c.item.conn).log.2.1,
        p.serial = c.serial ∧ p.response = c.item.response :=
    fun c hc => hprogress.completion (h.completion c hc)
  intro c hc
  cases hprogress with
  | quiet hnext hlog hnew hpending hcompletions =>
      exact hold c (Multiset.mem_of_le hcompletions hc)
  | taken t ht hserial hlog hothers hnext hpending hcompletions =>
      exact hold c (Multiset.mem_of_le hcompletions hc)
  | rejected o request res ho hanswered hlog hothers hnext hpending hcompletions =>
      exact hold c (Multiset.mem_of_le hcompletions hc)
  | installed c' hc' ho hserial hlog hothers hnext hpending hcompletions =>
      exact hold c (Multiset.mem_of_le hcompletions hc)
  | pushed t res hlog hothers hnext hpending hcompletions =>
      have hknown := h.task t (hpending ▸ Multiset.mem_cons_self _ _)
      rw [hcompletions] at hc
      rcases Multiset.mem_cons.1 hc with rfl | hc
      · -- the response has just been made
        rw [hnext]
        refine ⟨hknown.1, ⟨t.serial, t.request, res⟩, ?_, rfl, rfl⟩
        dsimp only
        rw [hlog]
        exact List.mem_append_right _ (List.mem_singleton_self _)
      · exact hold c hc

/-- Each request of an object goes on having one task or one response. -/
theorem Progress.keepsOnce {s s' : Server} (hprogress : Progress s s') (h : s.Matched) {o : Nat}
    (ho : o < s'.nextObject) : (s'.serials o).Nodup := by
  have hsame : s'.pendingTasks ≤ s.pendingTasks → o < s.nextObject →
      (s'.objects o).log.2.1 = (s.objects o).log.2.1 → (s'.serials o).Nodup :=
    fun hle hlt hlog => Multiset.nodup_of_le (serials_mono hlog hle) (h.once o hlt)
  cases hprogress with
  | quiet hnext hlog hnew hpending hcompletions =>
      rcases Nat.lt_or_ge o s.nextObject with hlt | hge
      · exact hsame hpending hlt (by rw [hlog o hlt])
      · -- no task is of a new object
        have hnone : s'.serials o = 0 := by
          rw [Multiset.eq_zero_iff_forall_notMem]
          intro n hn
          rcases mem_serials.1 hn with ⟨t, ht, rfl, -⟩ | ⟨p, hp, -⟩
          · exact absurd (h.task t (Multiset.mem_of_le hpending ht)).1 (Nat.not_lt.2 hge)
          · rw [hnew o hge ho] at hp
            cases hp
        rw [hnone]
        exact Multiset.nodup_zero
  | taken t ht hserial hlog hothers hnext hpending hcompletions =>
      rw [hnext] at ho
      unfold serials
      rw [hpending]
      by_cases hne : o = t.conn
      · -- the number of the request is a new one
        subst hne
        rw [hlog, filter_cons_self, Multiset.map_cons, Multiset.cons_add, hserial]
        exact h.fresh ho le_rfl
      · rw [hothers o hne, filter_cons_other hne]
        exact h.once o ho
  | rejected o' request res ho' hanswered hlog hothers hnext hpending hcompletions =>
      rw [hnext] at ho
      by_cases hne : o = o'
      · subst hne
        have hle : ((s'.pendingTasks.filter fun t => t.conn = o).map Task.serial +
            ((s.objects o).log.2.1.map Production.serial : List Nat)) ≤ s.serials o :=
          add_le_add_left (Multiset.map_le_map (Multiset.filter_le_filter _ hpending)) _
        have hfresh := h.fresh ho hle
        unfold serials
        rw [hlog]
        dsimp only
        rw [List.map_append, ← Multiset.coe_add, ← add_assoc, List.map_singleton,
          Multiset.coe_singleton, add_comm, Multiset.singleton_add]
        exact hfresh
      · exact hsame hpending ho (by rw [hothers o hne])
  | installed c hc ho' hserial hlog hothers hnext hpending hcompletions =>
      rw [hnext] at ho
      apply hsame hpending ho
      by_cases hne : o = c.item.conn
      · subst hne
        rw [hlog]
        rfl
      · rw [hothers o hne]
  | pushed t res hlog hothers hnext hpending hcompletions =>
      -- the number goes over from the tasks to the responses
      rw [hnext] at ho
      have hnodup := h.once o ho
      unfold serials at hnodup ⊢
      rw [hpending] at hnodup
      by_cases hne : o = t.conn
      · subst hne
        rw [filter_cons_self, Multiset.map_cons, Multiset.cons_add] at hnodup
        rw [hlog]
        dsimp only
        rw [List.map_append, ← Multiset.coe_add, ← add_assoc, List.map_singleton,
          Multiset.coe_singleton, add_comm, Multiset.singleton_add]
        exact hnodup
      · rw [filter_cons_other hne] at hnodup
        rw [hothers o hne]
        exact hnodup

/-- **Step lemma.** What is asked, made and installed stays matched. -/
theorem Progress.matched {s s' : Server} (hprogress : Progress s s') (h : s.Matched) :
    s'.Matched where
  order _ ho := hprogress.keepsOrder h ho
  task := hprogress.keepsTasks h
  completion := hprogress.keepsCompletions h
  once _ ho := hprogress.keepsOnce h ho

/-- The state is matched in every reachable state. -/
theorem reachable_matched {s : Server} (h : Runs.Reachable (serverSystem cfg) s) : s.Matched := by
  apply Runs.Reachable.invariant (P := Matched) ?_ ?_ h
  · rintro s ⟨now, rfl⟩
    have hnew : ∀ o, ¬ o < (Server.start now).nextObject := fun o => Nat.not_lt_zero o
    exact ⟨fun o ho => absurd ho (hnew o), fun t ht => absurd ht (Multiset.notMem_zero t),
      fun c hc => absurd hc (Multiset.notMem_zero c), fun o ho => absurd ho (hnew o)⟩
  · intro s a s' hs hmatched hstep
    exact (step_progress (reachable_inv hs) hstep).matched hmatched

/-! ## How responses come about -/

/-- A response of the object `o` is what a worker has made of the request, or one of
the two answers given on the spot. -/
inductive Made (cfg : Config H) (o : Nat) (p : Production) : Prop where
  | worker (env : TaskEnv H) (fd : Nat) (ending : TaskEnd)
      (htask : workerTask env cfg.router fd o p.request [] =
        some (ending, [⟨fd, o, p.response⟩]))
  | rejected (hres : p.response = Session.tooManyRequests ∨
      p.response = Session.serviceUnavailable)

/-- What is produced is made by a worker or on the spot. -/
theorem moves_made {s : Server} {a : Act H} {o : Nat} {y : Session} (h : Moves cfg s a o y)
    (hx : ∀ p ∈ (s.objects o).hist.produced, Made cfg o p) :
    ∀ p ∈ y.hist.produced, Made cfg o p := by
  cases h with
  | same => exact hx
  | created fd clientIp ha ho => exact fun p hp => absurd hp List.not_mem_nil
  | failed ans fd dir rest ha hphase hlookup => exact hx
  | reacted ans fd dir rest x outcome ha hphase hlookup hleft hopen hreact =>
      have hconcluded := (x.concluded_hist ans.rearmed outcome).2.1
      rw [hconcluded]
      clear hconcluded
      cases Session.react_grows hleft hopen hreact with
      | same hrequests hproduced hinstalled houtcome =>
          rw [hproduced]
          exact hx
      | taken request hrequests hproduced hinstalled =>
          rw [hproduced]
          exact hx
      | rejected request res status hres hanswered hrequests hproduced hinstalled =>
          rw [hproduced]
          -- the answer that `dispatch_next` gives itself
          intro p hp
          rcases List.mem_append.1 hp with hp | hp
          · exact hx p hp
          · rw [List.mem_singleton.1 hp]
            exact .rejected hres
  | completed ans c ready rest ha hphase hconn hlookup hhanded hserial =>
      obtain ⟨-, hproduced, -⟩ := ((s.objects o).workerDone.install s.now ans c.serial o false
        c.item.response).concluded_hist ans.rearmed (.rearm .write)
      rw [hproduced]
      exact hx
  | timedOut fd reason ha hlookup hreason => exact hx
  | pushed k env t ending res ha hk hconn htask =>
      intro p hp
      rcases List.mem_append.1 hp with hp | hp
      · exact hx p hp
      · rw [List.mem_singleton.1 hp]
        subst hconn
        exact .worker env t.fd ending htask

theorem reachable_made {s : Server} (h : Runs.Reachable (serverSystem cfg) s) :
    ∀ o, o < s.nextObject → ∀ p ∈ (s.objects o).hist.produced, Made cfg o p := by
  apply reached_session (J := fun o x => ∀ p ∈ x.hist.produced, Made cfg o p) ?_ ?_ h
  · exact fun o fd now clientIp p hp => absurd hp List.not_mem_nil
  · exact fun _ _ _ _ _ _ _ hx hmove => moves_made hmove hx

/-- **Every response answers its own request.** Of every connection object there has
been, the `i`-th response installed is one made for it and for the `i`-th request taken
from its buffer; it was the last one taken, and nothing was left to be written. No
request has two responses. -/
theorem installed_in_order {s : Server} (h : Runs.Reachable (serverSystem cfg) s) {o : Nat}
    (ho : o < s.nextObject) :
    (∀ i e, (s.objects o).hist.installed[i]? = some e →
      e.serial = i ∧ e.madeFor = o ∧ e.parsed = i + 1 ∧ e.pending = false ∧
      ∃ p ∈ (s.objects o).hist.produced, p.serial = i ∧ p.response = e.response ∧
        (s.objects o).hist.requests[i]? = some p.request ∧ Made cfg o p) ∧
    ((s.objects o).hist.produced.map Production.serial).Nodup := by
  have hmatched := reachable_matched h
  have hinorder := hmatched.order o ho
  constructor
  · intro i e he
    obtain ⟨hentry, p, hp, rfl, hres⟩ := hinorder.installed i e he
    rw [hentry]
    exact ⟨rfl, rfl, rfl, rfl, p, hp, rfl, hres, hinorder.made p hp, reachable_made h o ho p hp⟩
  · have hnodup := Multiset.nodup_of_le (Multiset.le_add_left _ _) (hmatched.once o ho)
    exact Multiset.coe_nodup.1 hnodup

/-- One request is answered. -/
theorem installed_in_order_one :
    ∃ s, (serverSystem smallConfig).run (Server.start 0) drainOne = some s ∧
      (∀ i e, (s.objects 0).hist.installed[i]? = some e →
        e.serial = i ∧ e.madeFor = 0 ∧ e.parsed = i + 1 ∧ e.pending = false ∧
        ∃ p ∈ (s.objects 0).hist.produced, p.serial = i ∧ p.response = e.response ∧
          (s.objects 0).hist.requests[i]? = some p.request ∧ Made smallConfig 0 p) ∧
      ((s.objects 0).hist.produced.map Production.serial).Nodup := by
  have hrun : ((serverSystem smallConfig).run (Server.start 0) drainOne).map
      (fun s => decide (0 < s.nextObject)) = some true := by
    decide +kernel
  obtain ⟨s, hs, hvalue⟩ := Option.map_eq_some_iff.1 hrun
  exact ⟨s, hs, installed_in_order (reachable_of_start hs) (of_decide_eq_true hvalue)⟩

end Server

end Oreshnek
