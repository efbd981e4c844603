import Oreshnek.Server.Answers

/-!
# Response accounting

Every status is recorded for a response that has been made, or with the close of a
connection whose handler has timed out (`Tallied`, in every run). A request is recorded
twice when both happen to it; `responses_le_requests` says that the counters are
conserved in those runs in which this does not happen (`recordsOnce`).
-/

namespace Oreshnek

open Finset in
/-- A sum over the first `n` numbers when its term at `o` changes. -/
theorem sum_range_one {n o : Nat} (ho : o < n) {f g : Nat → Nat} (h : ∀ i, i ≠ o → g i = f i) :
    ∑ i ∈ range n, g i + f o = ∑ i ∈ range n, f i + g o := by
  have hmem := mem_range.2 ho
  have hrest : ∑ i ∈ (range n).erase o, g i = ∑ i ∈ (range n).erase o, f i :=
    sum_congr rfl fun i hi => h i (ne_of_mem_erase hi)
  rw [← add_sum_erase _ g hmem, ← add_sum_erase _ f hmem, hrest]
  omega

/-! ## Counters -/

/-- All the statuses recorded. -/
def Metrics.statuses (m : Metrics) : Nat :=
  m.responses2xx + m.responses3xx + m.responses4xx + m.responses5xx

/-- The two sides of the account. -/
def Metrics.account (m : Metrics) : Nat × Nat := (m.requestsTotal, m.statuses)

/-- A status adds at most one to the classes, and nothing to the requests. -/
theorem recordStatus_statuses (m : Metrics) (code : Nat) :
    (m.recordStatus code).statuses ≤ m.statuses + 1 ∧
      (m.recordStatus code).requestsTotal = m.requestsTotal := by
  unfold Metrics.recordStatus
  split
  · refine ⟨?_, rfl⟩
    dsimp only [Metrics.statuses]
    omega
  split
  · refine ⟨?_, rfl⟩
    dsimp only [Metrics.statuses]
    omega
  split
  · refine ⟨?_, rfl⟩
    dsimp only [Metrics.statuses]
    omega
  split
  · exact ⟨le_rfl, rfl⟩
  · exact ⟨Nat.le_succ _, rfl⟩

/-- How often a status may have been recorded for the requests of a connection: once
for each response made, and once when its handler has timed out. -/
def Session.recorded (x : Session) : Nat :=
  x.hist.produced.length + if x.hist.closedBy = some .handlerTimeout then 1 else 0

theorem Session.recorded_of_ne {x : Session} (h : x.hist.closedBy ≠ some .handlerTimeout) :
    x.recorded = x.hist.produced.length := by
  unfold recorded
  rw [if_neg h, Nat.add_zero]

namespace Server

variable {H : Type} {cfg : Config H}

/-- The counters against the histories of all connections. -/
structure Tallied (s : Server) : Prop where
  requests : s.metrics.requestsTotal =
    ∑ o ∈ Finset.range s.nextObject, (s.objects o).hist.requests.length
  statuses : s.metrics.statuses ≤ ∑ o ∈ Finset.range s.nextObject, (s.objects o).recorded

/-- Neither the counters change nor what they count. -/
theorem Tallied.keep {s s' : Server} (h : s.Tallied) (hnext : s'.nextObject = s.nextObject)
    (hmetrics : s'.metrics.account = s.metrics.account)
    (heach : ∀ o, o < s.nextObject →
      (s'.objects o).hist.requests.length = (s.objects o).hist.requests.length ∧
        (s'.objects o).recorded = (s.objects o).recorded) : s'.Tallied := by
  have hrequests := congrArg Prod.fst hmetrics
  have hstatuses := congrArg Prod.snd hmetrics
  dsimp only [Metrics.account] at hrequests hstatuses
  constructor
  · rw [hnext, hrequests, h.requests]
    exact Finset.sum_congr rfl fun o ho => (heach o (Finset.mem_range.1 ho)).1.symm
  · rw [hnext, hstatuses]
    refine h.statuses.trans (le_of_eq ?_)
    exact Finset.sum_congr rfl fun o ho => (heach o (Finset.mem_range.1 ho)).2.symm

theorem Tallied.same {s s' : Server} (h : s.Tallied) (hobjects : s'.objects = s.objects)
    (hnext : s'.nextObject = s.nextObject) (hmetrics : s'.metrics.account = s.metrics.account) :
    s'.Tallied := by
  refine h.keep hnext hmetrics fun o _ => ?_
  rw [hobjects]
  exact ⟨rfl, rfl⟩

/-- One connection changes, and the counters go along with it. -/
theorem Tallied.one {s s' : Server} (h : s.Tallied) {o : Nat} (ho : o < s.nextObject)
    (hothers : ∀ o', o' ≠ o → s'.objects o' = s.objects o')
    (hnext : s'.nextObject = s.nextObject)
    (hrequests : s'.metrics.requestsTotal + (s.objects o).hist.requests.length =
      s.metrics.requestsTotal + (s'.objects o).hist.requests.length)
    (hstatuses : s'.metrics.statuses + (s.objects o).recorded ≤
      s.metrics.statuses + (s'.objects o).recorded) : s'.Tallied := by
  have hcount := sum_range_one ho (f := fun o => (s.objects o).hist.requests.length)
    (g := fun o => (s'.objects o).hist.requests.length)
    fun o' hne => by rw [hothers o' hne]
  have hrecord := sum_range_one ho (f := fun o => (s.objects o).recorded)
    (g := fun o => (s'.objects o).recorded) fun o' hne => by rw [hothers o' hne]
  have hold := h.requests
  have hold' := h.statuses
  constructor
  · rw [hnext]
    omega
  · rw [hnext]
    omega

/-- Closing counts no response. -/
theorem closeConnection_account (s : Server) (fd : Nat) (reason : CloseReason) :
    (s.closeConnection fd reason).metrics.account = s.metrics.account := by
  unfold closeConnection
  dsimp only
  split
  · rfl
  · rfl

theorem rearm_account (s : Server) (fd : Nat) (dir : Direction) (success : Bool) :
    (s.rearm fd dir success).metrics.account = s.metrics.account := by
  unfold rearm
  split
  · rfl
  · exact closeConnection_account _ _ _

/-- Nor does a completion that is installed. -/
theorem processCompletion_account (s : Server) (ans : Answers) (c : Completion) :
    (s.processCompletion ans c).metrics.account = s.metrics.account := by
  unfold processCompletion
  split
  · rfl
  split
  · rfl
  · exact rearm_account _ _ _ _

/-- A rejection counts one request and at most one response. -/
theorem countRejection_account (m : Metrics) (status : HttpStatus) :
    (m.countRejection status).requestsTotal = m.requestsTotal + 1 ∧
      (m.countRejection status).statuses ≤ m.statuses + 1 := by
  obtain ⟨hstatuses, htotal⟩ := recordStatus_statuses { m with
    requestsTotal := m.requestsTotal + 1
    rateLimitedTotal := m.rateLimitedTotal + (if status = .tooManyRequests then 1 else 0)
    loadShedTotal := m.loadShedTotal + (if status = .serviceUnavailable then 1 else 0) } status.code
  exact ⟨htotal, hstatuses⟩

/-- What the end of a callback does to the counters. -/
theorem conclude_account (s : Server) (fd o : Nat) (x : Session) (success : Bool)
    (outcome : Outcome) :
    (outcome.takes = false ∧
        (s.conclude fd o x success outcome).metrics.account = s.metrics.account) ∨
      ((∃ request, outcome = .handOver request) ∧
        (s.conclude fd o x success outcome).metrics.account =
          (s.metrics.requestsTotal + 1, s.metrics.statuses)) ∨
      ((∃ status, outcome = .reject status) ∧
        (s.conclude fd o x success outcome).metrics.requestsTotal = s.metrics.requestsTotal + 1 ∧
        (s.conclude fd o x success outcome).metrics.statuses ≤ s.metrics.statuses + 1) := by
  cases outcome with
  | wait => exact .inl ⟨rfl, rfl⟩
  | rearm dir => exact .inl ⟨rfl, rearm_account _ _ _ _⟩
  | close reason => exact .inl ⟨rfl, closeConnection_account _ _ _⟩
  | reject status =>
      right
      right
      have hrearm := rearm_account
        { s.setSession o x with metrics := s.metrics.countRejection status } fd .write success
      have htotal := congrArg Prod.fst hrearm
      have hstatuses := congrArg Prod.snd hrearm
      dsimp only [Metrics.account] at htotal hstatuses
      obtain ⟨hmore, hless⟩ := countRejection_account s.metrics status
      exact ⟨⟨status, rfl⟩, htotal.trans hmore, hstatuses.trans_le hless⟩
  | handOver request => exact .inr (.inl ⟨⟨request, rfl⟩, rfl⟩)

/-- The counters go along with the histories. -/
theorem conclude_counts {s : Server} (fd : Nat) {o : Nat} {x y : Session} {outcome : Outcome}
    (h : Grows o x y outcome) (success : Bool) :
    (s.conclude fd o y success outcome).metrics.requestsTotal + x.hist.requests.length =
        s.metrics.requestsTotal + y.hist.requests.length ∧
      (s.conclude fd o y success outcome).metrics.statuses + x.hist.produced.length ≤
        s.metrics.statuses + y.hist.produced.length := by
  have haccount := conclude_account s fd o y success outcome
  cases h with
  | same hrequests hproduced hinstalled houtcome =>
      rw [hrequests, hproduced]
      rcases haccount with ⟨-, hsame⟩ | ⟨⟨request, rfl⟩, -⟩ | ⟨⟨status, rfl⟩, -⟩
      · have htotal := congrArg Prod.fst hsame
        have hstatuses := congrArg Prod.snd hsame
        dsimp only [Metrics.account] at htotal hstatuses
        rw [htotal, hstatuses]
        exact ⟨rfl, le_rfl⟩
      · cases houtcome
      · cases houtcome
  | taken request hrequests hproduced hinstalled =>
      rw [hrequests, hproduced, List.length_append, List.length_singleton]
      rcases haccount with ⟨htakes, -⟩ | ⟨-, hmore⟩ | ⟨⟨status, heq⟩, -⟩
      · cases htakes
      · have htotal := congrArg Prod.fst hmore
        have hstatuses := congrArg Prod.snd hmore
        dsimp only [Metrics.account] at htotal hstatuses
        rw [htotal, hstatuses]
        exact ⟨by omega, le_rfl⟩
      · cases heq
  | rejected request res status hres hanswered hrequests hproduced hinstalled =>
      rw [hrequests, hproduced, List.length_append, List.length_append, List.length_singleton,
        List.length_singleton]
      rcases haccount with ⟨htakes, -⟩ | ⟨⟨request, heq⟩, -⟩ | ⟨-, htotal, hstatuses⟩
      · cases htakes
      · cases heq
      · omega

/-- An open connection is not closed for a timeout by the end of its callback. -/
theorem concluded_closedBy {x : Session} {outcome : Outcome} (hopen : x.hist.closedBy = none)
    (hreason : outcome ≠ .close .handlerTimeout) (success : Bool) :
    (x.concluded success outcome).hist.closedBy ≠ some .handlerTimeout := by
  rcases x.concluded_cases success outcome with
    ⟨hsame, -⟩ | ⟨reason, hclosed, rfl | ⟨rfl, -⟩⟩
  · rw [hsame, hopen]
    nofun
  · rw [hclosed]
    intro h
    exact hreason (congrArg Outcome.close (Option.some.inj h))
  · rw [hclosed]
    nofun

theorem concluded_recorded {x : Session} {outcome : Outcome} (hopen : x.hist.closedBy = none)
    (hreason : outcome ≠ .close .handlerTimeout) (success : Bool) :
    (x.concluded success outcome).recorded = x.hist.produced.length := by
  rw [Session.recorded_of_ne (concluded_closedBy hopen hreason success),
    (x.concluded_hist success outcome).2.1]

/-- A callback records a status only when it answers on the spot. -/
theorem client_tallied {s : Server} (hinv : s.Inv) (h : s.Tallied) {fd o : Nat} {dir : Direction}
    {rest : List Event} {x : Session} {ans : Answers} {outcome : Outcome}
    (hphase : s.phase = .batch (.client fd dir false :: rest))
    (hlookup : s.connections.lookup fd = some o)
    (hsettled : (s.objects o).Settled)
    (hreact : (s.objects o).react s.draining cfg.rateLimited (s.overloaded cfg.settings) s.now
      ans o dir = some (x, outcome)) :
    (({ s with phase := .batch rest } : Server).conclude fd o x ans.rearmed outcome).Tallied := by
  obtain ⟨o', hsome, hhand, hleft, -⟩ := hinv.takeEvent hphase
  rw [hlookup] at hsome
  cases hsome
  have hobjects := conclude_objects (s := { s with phase := .batch rest }) hlookup x ans.rearmed
    outcome
  have hself : (({ s with phase := .batch rest } : Server).conclude fd o x ans.rearmed
      outcome).objects o = x.concluded ans.rearmed outcome := by
    rw [hobjects, Function.update_self]
  have hopen : (s.objects o).hist.closedBy = none := hsettled.1.2 hhand.isOpen
  have hclosed := Session.react_closedBy hleft hhand.isOpen hreact
  have hreason : outcome ≠ .close .handlerTimeout := by
    rintro rfl
    rcases Session.react_reason hleft hhand.isOpen hreact with h | h | h | h | h
    all_goals cases h
  have hrecorded := concluded_recorded (hclosed.trans hopen) hreason ans.rearmed
  have hbefore : (s.objects o).recorded = (s.objects o).hist.produced.length :=
    Session.recorded_of_ne (by rw [hopen]; nofun)
  have hcounts := conclude_counts (s := { s with phase := .batch rest }) fd
    (Session.react_grows hleft hhand.isOpen hreact) ans.rearmed
  refine h.one (hinv.serves fd o hlookup).1 (fun o' hne => ?_) (conclude_nextObject _ _ _ _ _ _)
    ?_ ?_
  · rw [hobjects, Function.update_of_ne hne]
  · rw [hself, (x.concluded_hist ans.rearmed outcome).1]
    exact hcounts.1
  · rw [hself, hrecorded, hbefore]
    exact hcounts.2

/-! ## The sweep -/

/-- A connection that times out is closed; one status is recorded when it was the
handler. -/
theorem timeOut_tallied {s : Server} (h : s.Tallied) {e : Nat × CloseReason} {o : Nat}
    (hlookup : s.connections.lookup e.1 = some o) (ho : o < s.nextObject)
    (hopen : (s.objects o).hist.closedBy = none) : (s.timeOut e).Tallied := by
  have hobjects : (s.timeOut e).objects = Function.update s.objects o ((s.objects o).close e.2) :=
    closeConnection_objects (s := { s with
      metrics := if e.2 = .handlerTimeout then s.metrics.countTimeout else s.metrics }) hlookup e.2
  have haccount : (s.timeOut e).metrics.account =
      (if e.2 = .handlerTimeout then s.metrics.countTimeout else s.metrics).account :=
    closeConnection_account _ _ _
  have htotal := congrArg Prod.fst haccount
  have hstatuses := congrArg Prod.snd haccount
  dsimp only [Metrics.account] at htotal hstatuses
  have hbefore : (s.objects o).recorded = (s.objects o).hist.produced.length :=
    Session.recorded_of_ne (by rw [hopen]; nofun)
  refine h.one ho (fun o' hne => ?_) (closeConnection_nextObject _ _ _) ?_ ?_
  · rw [hobjects, Function.update_of_ne hne]
  · rw [hobjects, Function.update_self, htotal]
    split
    · exact congrArg (· + _) (recordStatus_statuses _ 504).2
    · rfl
  · rw [hobjects, Function.update_self, hstatuses, hbefore]
    unfold Session.recorded Session.close
    dsimp only
    split
    next htimeout =>
      rw [if_pos (congrArg some htimeout)]
      have hmore : s.metrics.countTimeout.statuses ≤ s.metrics.statuses + 1 :=
        (recordStatus_statuses _ 504).1
      omega
    · exact Nat.add_le_add_left (Nat.le_add_right _ _) _

/-- Each 504 is recorded for the connection that it closes. -/
theorem foldl_timeOut_tallied {es : List (Nat × CloseReason)} {s : Server} (hinv : s.Inv)
    (hrest : s.phase.rest = []) (h : s.Tallied) (hnodup : (es.map Prod.fst).Nodup)
    (hes : ∀ e ∈ es, ∃ o, s.connections.lookup e.1 = some o ∧
      (s.objects o).hist.closedBy = none) : (es.foldl timeOut s).Tallied := by
  induction es generalizing s with
  | nil => exact h
  | cons e es ih =>
      obtain ⟨o, hlookup, hopen⟩ := hes e List.mem_cons_self
      rw [List.map_cons, List.nodup_cons] at hnodup
      obtain ⟨hinv', hphase⟩ := timeOut_foldl_inv hinv hrest [e]
      refine ih hinv' (hphase.symm ▸ hrest)
        (timeOut_tallied h hlookup (hinv.serves _ _ hlookup).1 hopen) hnodup.2 fun e' he' => ?_
      -- the other entries are for other connections
      obtain ⟨o', hlookup', hopen'⟩ := hes e' (List.mem_cons_of_mem _ he')
      have hne : e'.1 ≠ e.1 := fun heq => hnodup.1 (List.mem_map.2 ⟨e', he', heq⟩)
      have hsame : (s.timeOut e).objects o' = s.objects o' :=
        closeConnection_objects_of_ne (hinv.alone hlookup' e.1 (Ne.symm hne))
      refine ⟨o', ?_, ?_⟩
      · rw [timeOut_lookup, if_neg hne]
        exact hlookup'
      · rw [hsame]
        exact hopen'

/-- No descriptor times out twice in one sweep. -/
theorem timeouts_nodup (s : Server) (settings : Settings) :
    ((s.timeouts settings).map Prod.fst).Nodup := by
  refine List.Nodup.sublist ?_ s.connections.nodupKeys
  unfold timeouts
  induction s.connections.entries with
  | nil => exact List.Sublist.refl _
  | cons e entries ih =>
      rw [List.filterMap_cons]
      cases timeoutOf settings s.now (s.objects e.2).conn with
      | none => exact ih.cons e.1
      | some reason => exact ih.cons_cons e.1

/-- The sweep has one entry for each connection. -/
theorem sweepList_nodup (s : Server) (settings : Settings) :
    ((s.sweepList settings).map Prod.fst).Nodup := by
  have hone : ∀ e ∈ s.sweepList settings, ∀ e' ∈ s.sweepList settings, e.1 = e'.1 → e = e' := by
    rintro ⟨fd, reason⟩ he ⟨fd', reason'⟩ he' heq
    dsimp only at heq
    subst heq
    obtain ⟨o, hlookup, hreason⟩ := mem_sweepList.1 he
    obtain ⟨o', hlookup', hreason'⟩ := mem_sweepList.1 he'
    rw [hlookup] at hlookup'
    cases hlookup'
    rw [hreason] at hreason'
    cases hreason'
    rfl
  apply List.Nodup.map_on hone
  -- the three parts of the list have different reasons
  have hparts : ∀ p : Nat × CloseReason → Bool, ((s.timeouts settings).filter p).Nodup :=
    fun p => (List.Nodup.of_map _ (timeouts_nodup s settings)).filter p
  unfold sweepList
  rw [List.nodup_append, List.nodup_append]
  refine ⟨⟨hparts _, hparts _, ?_⟩, hparts _, ?_⟩
  · rintro e he e' he' rfl
    have hread := of_decide_eq_true (List.mem_filter.1 he).2
    have hhandler := of_decide_eq_true (List.mem_filter.1 he').2
    rw [hread] at hhandler
    cases hhandler
  · rintro e he e' he' rfl
    have hplain := of_decide_eq_true (List.mem_filter.1 he').2
    rcases List.mem_append.1 he with he | he
    · have hread := of_decide_eq_true (List.mem_filter.1 he).2
      rw [hread] at hplain
      rcases hplain with h | h
      · cases h
      · cases h
    · have hhandler := of_decide_eq_true (List.mem_filter.1 he).2
      rw [hhandler] at hplain
      rcases hplain with h | h
      · cases h
      · cases h

/-- Behind a batch only the timeouts record something. -/
theorem afterBatch_tallied {s : Server} (hinv : s.Inv) (h : s.Tallied)
    (hsettled : ∀ o, o < s.nextObject → (s.objects o).Settled) (hphase : s.phase = .batch [])
    (settings : Settings) : ((s.beginDrain settings).cleanup settings).checkDrain.Tallied := by
  obtain ⟨draining, deadline, hbegin⟩ := beginDrain_eq s settings
  have hinv' := hinv.beginDrain settings
  have hstart : (s.beginDrain settings).Tallied := by
    rw [hbegin]
    exact h.same rfl rfl rfl
  suffices hcleanup : ((s.beginDrain settings).cleanup settings).Tallied from
    hcleanup.same rfl rfl rfl
  rcases cleanup_cases s settings with ⟨-, hcleanup⟩ | ⟨-, hcleanup⟩
  · rw [hcleanup]
    suffices hsweep : ((s.beginDrain settings).enforceTimeouts settings).Tallied from
      hsweep.same rfl rfl rfl
    rw [enforceTimeouts_eq]
    refine foldl_timeOut_tallied hinv' ?_ hstart (sweepList_nodup _ _) ?_
    · rw [hbegin, hphase]
      rfl
    · rintro ⟨fd, reason⟩ he
      obtain ⟨o, hlookup, -⟩ := mem_sweepList.1 he
      refine ⟨o, hlookup, ?_⟩
      rw [hbegin] at hlookup ⊢
      exact (hsettled o (hinv.serves fd o hlookup).1).1.2 (serves_open hinv hlookup)
  · rw [hcleanup]
    exact hstart

/-! ## All steps -/

/-- A worker records the status of the response that it pushes. -/
theorem push_tallied {s : Server} (h : s.Tallied) {k : Nat} {t : Task} (ho : t.conn < s.nextObject)
    (pushed : List CompletedResponse) : (s.push k t pushed).Tallied := by
  cases pushed with
  | nil => exact h.same rfl rfl rfl
  | cons item pushed =>
      have hself : (s.push k t (item :: pushed)).objects t.conn =
          { s.objects t.conn with hist.produced := (s.objects t.conn).hist.produced ++
            [⟨t.serial, t.request, item.response⟩] } := Function.update_self _ _ _
      obtain ⟨hstatuses, htotal⟩ := recordStatus_statuses s.metrics item.response.status.code
      have hmetrics : (s.push k t (item :: pushed)).metrics =
          s.metrics.recordStatus item.response.status.code := rfl
      have hmore : ((s.push k t (item :: pushed)).objects t.conn).recorded =
          (s.objects t.conn).recorded + 1 := by
        rw [hself]
        unfold Session.recorded
        dsimp only
        rw [List.length_append, List.length_singleton]
        omega
      refine h.one ho (fun o' hne => Function.update_of_ne hne _ _) rfl ?_ ?_
      · rw [hmetrics, htotal, hself]
      · rw [hmetrics, hmore]
        omega

/-- A new connection has recorded nothing. -/
theorem accept_tallied {s : Server} (h : s.Tallied) (fd : Nat) (clientIp : Bytes) (tls : Bool) :
    (s.accept fd clientIp tls).Tallied := by
  have hself : (s.accept fd clientIp tls).objects s.nextObject = .new fd s.now clientIp tls :=
    Function.update_self _ _ _
  have hothers : ∀ o ∈ Finset.range s.nextObject,
      (s.accept fd clientIp tls).objects o = s.objects o :=
    fun o ho => Function.update_of_ne (Nat.ne_of_lt (Finset.mem_range.1 ho)) _ _
  have hnext : (s.accept fd clientIp tls).nextObject = s.nextObject + 1 := rfl
  constructor
  · rw [hnext, Finset.sum_range_succ, hself]
    refine h.requests.trans ?_
    exact (Finset.sum_congr rfl fun o ho => by rw [hothers o ho]).symm
  · rw [hnext, Finset.sum_range_succ, hself]
    refine h.statuses.trans ?_
    exact (Finset.sum_congr rfl fun o ho => by rw [hothers o ho]).ge

/-- **Step lemma.** The classes count what the connections have recorded. -/
theorem step_tallied {s s' : Server} {a : Act H} (hs : Runs.Reachable (serverSystem cfg) s)
    (h : s.Tallied) (hstep : step cfg s a = some s') : s'.Tallied := by
  have hinv := reachable_inv hs
  cases step_cases hstep with
  | clientError ans fd dir rest hphase =>
      refine h.keep (closeConnection_nextObject _ _ _) (closeConnection_account _ _ _)
        fun o ho => ?_
      have hmove := step_moves hinv hstep o
      generalize (({ s with phase := .batch rest } : Server).closeConnection fd .ioError).objects o =
        y at hmove ⊢
      cases hmove with
      | same => exact ⟨rfl, rfl⟩
      | failed ans fd dir rest ha hphase hlookup =>
          -- closed for an error, not for a timeout: no 504 is counted
          have hopen := (reachable_settled hs o ho).1.2 (serves_open hinv hlookup)
          refine ⟨rfl, ?_⟩
          rw [Session.recorded_of_ne, Session.recorded_of_ne]
          · rfl
          · rw [hopen]
            nofun
          · nofun
      | created fd clientIp ha => cases ha
      | reacted ans' fd' dir' rest' x outcome ha hphase' =>
          rw [hphase] at hphase'
          cases hphase'
      | completed ans c ready rest ha => cases ha
      | timedOut fd reason ha => cases ha
      | pushed k env t ending res ha => cases ha
  | client ans fd o dir rest x outcome hphase hlookup hreact =>
      exact client_tallied hinv h hphase hlookup
        (reachable_settled hs o (hinv.serves fd o hlookup).1) hreact
  | accept fd clientIp hphase hlookup => exact accept_tallied h fd clientIp cfg.tls
  | complete ans c ready rest hphase =>
      refine h.keep (processCompletion_nextObject _ _ _) (processCompletion_account _ _ _)
        fun o ho => ?_
      have hmove := step_moves hinv hstep o
      generalize (({ s with phase := .completing ready rest } : Server).processCompletion ans
        c).objects o = y at hmove ⊢
      cases hmove with
      | same => exact ⟨rfl, rfl⟩
      | completed ans c ready rest ha hphase hconn hlookup =>
          have hopen := (reachable_settled hs o ho).1.2 (serves_open hinv hlookup)
          obtain ⟨hrequests, -, -⟩ := ((s.objects o).workerDone.install s.now ans c.serial o false
            c.item.response).concluded_hist ans.rearmed (.rearm .write)
          -- the response is written, not a timeout
          have hreason : Outcome.rearm .write ≠ .close .handlerTimeout := nofun
          have hrecorded := concluded_recorded (x := (s.objects o).workerDone.install s.now ans
            c.serial o false c.item.response) hopen hreason ans.rearmed
          refine ⟨congrArg List.length hrequests, hrecorded.trans ?_⟩
          rw [Session.recorded_of_ne]
          · rfl
          · rw [hopen]
            nofun
      | created fd clientIp ha => cases ha
      | failed ans fd dir rest ha => cases ha
      | reacted ans fd dir rest x outcome ha => cases ha
      | timedOut fd reason ha => cases ha
      | pushed k env t ending res ha => cases ha
  | afterBatch hphase =>
      exact afterBatch_tallied hinv h (reachable_settled hs) hphase cfg.settings
  | work k env t pushed hk htask =>
      -- the task was pending, so its response is still owed
      have hmem : t ∈ s.pendingTasks := by
        rw [set_pending .leaving hk nofun]
        exact Multiset.mem_cons_self _ _
      exact push_tallied h ((reachable_matched hs).task t hmem).1 pushed
  | _ => exact h.same rfl rfl rfl

theorem reachable_tallied {s : Server} (h : Runs.Reachable (serverSystem cfg) s) : s.Tallied := by
  apply Runs.Reachable.invariant (P := Tallied) ?_ ?_ h
  · rintro s ⟨now, rfl⟩
    exact ⟨rfl, le_rfl⟩
  · intro s a s' hs htallied hstep
    exact step_tallied hs htallied hstep

/-! ## One status for each request -/

/-- In this step no worker makes a response for a request that has been answered with
504, and no request that has its response is answered with 504. -/
def recordsOnce (cfg : Config H) (s : Server) : Act H → Bool
  | .work k env =>
      match s.running[k]? with
      | some ⟨.working, t⟩ =>
          decide ((s.objects t.conn).hist.closedBy = some .handlerTimeout →
            (workerTask env cfg.router t.fd t.conn t.request []).all
              (fun r => decide (r.2 = [])) = true)
      | _ => true
  | .afterBatch =>
      decide (sweeps cfg.settings s = true → ∀ e ∈ s.connections.entries,
        timeoutOf cfg.settings s.now (s.objects e.2).conn = some .handlerTimeout →
          ∀ p ∈ (s.objects e.2).hist.produced,
            p.serial + 1 ≠ (s.objects e.2).hist.requests.length)
  | _ => true

/-- A connection whose handler has timed out has no response for its last request. -/
def AnsweredOnce (x : Session) : Prop :=
  x.hist.closedBy = some .handlerTimeout → x.hist.requests ≠ [] ∧
    ∀ p ∈ x.hist.produced, p.serial + 1 ≠ x.hist.requests.length

/-- Only a connection with a worker in flight runs into the limit of the handlers. -/
theorem timeoutOf_handler {settings : Settings} {now : Nat} {c : Connection}
    (h : timeoutOf settings now c = some .handlerTimeout) : c.workerInFlight = true := by
  by_contra hworker
  unfold timeoutOf at h
  rw [if_neg hworker] at h
  split at h
  · split at h
    · cases h
    · cases h
  split at h
  · cases h
  split at h
  · split at h
    · cases h
    · cases h
  · split at h
    · cases h
    · cases h

/-- A 504 and a response of the worker are not both recorded for one request. -/
theorem moves_answeredOnce {s : Server} {a : Act H} {o : Nat} {y : Session}
    (hs : Runs.Reachable (serverSystem cfg) s) (ho : o < s.nextObject)
    (hok : recordsOnce cfg s a = true) (hx : AnsweredOnce (s.objects o))
    (h : Moves cfg s a o y) : AnsweredOnce y := by
  have hinv := reachable_inv hs
  have hsettled := reachable_settled hs o ho
  cases h with
  | same => exact hx
  | created fd clientIp ha ho => exact nofun
  | failed => exact nofun
  | reacted ans fd dir rest x outcome ha hphase hlookup hleft hopen hreact =>
      have hnone := (Session.react_closedBy hleft hopen hreact).trans (hsettled.1.2 hopen)
      refine fun htimeout => absurd htimeout (concluded_closedBy hnone ?_ ans.rearmed)
      rintro rfl
      rcases Session.react_reason hleft hopen hreact with h | h | h | h | h
      all_goals cases h
  | completed ans c ready rest ha hphase hconn hlookup hhanded hserial =>
      have hnone := hsettled.1.2 (serves_open hinv hlookup)
      have hreason : Outcome.rearm .write ≠ .close .handlerTimeout := nofun
      exact fun htimeout => absurd htimeout (concluded_closedBy (x := (s.objects o).workerDone.install
        s.now ans c.serial o false c.item.response) hnone hreason ans.rearmed)
  | timedOut fd reason ha hlookup hreason hsweep =>
      subst ha
      intro htimeout
      cases htimeout
      have hentry := AList.mem_lookup_iff.1 hlookup
      refine ⟨?_, of_decide_eq_true hok hsweep _ hentry hreason⟩
      -- the request with the pool is its last one
      have hworker := timeoutOf_handler hreason
      rcases hinv.modes hlookup with hhanded | hwriting | hidle
      · intro hnone
        have hanswered := hhanded.answered
        have hnone : (s.objects o).hist.requests = [] := hnone
        rw [hnone] at hanswered
        cases hanswered
      · cases hworker.symm.trans hwriting.workerInFlight
      · cases hworker.symm.trans hidle.workerInFlight
  | pushed k env t ending res ha hk hconn htask =>
      subst ha
      intro htimeout
      subst hconn
      unfold recordsOnce at hok
      dsimp only at hok
      rw [hk] at hok
      dsimp only at hok
      have hnone := of_decide_eq_true hok htimeout
      rw [htask] at hnone
      cases hnone

/-- The statuses recorded for the request `k` of a connection. -/
def recordings (x : Session) (k : Nat) : Nat :=
  (x.hist.produced.map Production.serial).count k +
    if x.hist.closedBy = some .handlerTimeout ∧ k + 1 = x.hist.requests.length then 1 else 0

/-- For one request at most one status is recorded. -/
theorem recordings_le_one {x : Session} (h : AnsweredOnce x)
    (hnodup : (x.hist.produced.map Production.serial).Nodup) (k : Nat) : recordings x k ≤ 1 := by
  have hcount := List.nodup_iff_count_le_one.1 hnodup k
  unfold recordings
  split
  next htimeout =>
    -- the last request has no response
    have hnone : (x.hist.produced.map Production.serial).count k = 0 := by
      rw [List.count_eq_zero]
      intro hmem
      obtain ⟨p, hp, rfl⟩ := List.mem_map.1 hmem
      exact (h htimeout.1).2 p hp htimeout.2
    rw [hnone]
  · exact hcount

/-- A connection records no more than it has requests. -/
theorem recorded_le {x : Session} (h : AnsweredOnce x)
    (hnodup : (x.hist.produced.map Production.serial).Nodup)
    (hserial : ∀ p ∈ x.hist.produced, p.serial < x.hist.requests.length) :
    x.recorded ≤ x.hist.requests.length := by
  have hbound : ∀ n, (∀ p ∈ x.hist.produced, p.serial < n) → x.hist.produced.length ≤ n := by
    intro n hn
    have hsub : x.hist.produced.map Production.serial ⊆ List.range n := by
      intro k hk
      obtain ⟨p, hp, rfl⟩ := List.mem_map.1 hk
      exact List.mem_range.2 (hn p hp)
    have hle := (List.subperm_of_subset hnodup hsub).length_le
    rwa [List.length_map, List.length_range] at hle
  unfold Session.recorded
  split
  next htimeout =>
    obtain ⟨hne, hlast⟩ := h htimeout
    have hpos := List.length_pos_iff.2 hne
    have hle := hbound (x.hist.requests.length - 1) fun p hp => by
      have hlt := hserial p hp
      have hother := hlast p hp
      omega
    omega
  · exact hbound _ hserial

/-- **Response accounting.** In a run in which no request gets both a 504 and a response
of its worker, one status at most is recorded for each request, and the statuses are no
more than the requests. -/
theorem responses_le_requests {s : Server}
    (h : Runs.Reached (serverSystem cfg) (fun s a => recordsOnce cfg s a = true) s) :
    (∀ o, o < s.nextObject → ∀ k, recordings (s.objects o) k ≤ 1) ∧
      s.metrics.responses2xx + s.metrics.responses3xx + s.metrics.responses4xx +
        s.metrics.responses5xx ≤ s.metrics.requestsTotal := by
  have honce : ∀ o, o < s.nextObject → AnsweredOnce (s.objects o) := by
    apply reached_session (J := fun _ x => AnsweredOnce x) ?_ ?_ h
    · exact fun _ _ _ _ => nofun
    · exact fun _ _ _ _ hs hok ho hx hmove => moves_answeredOnce hs.reachable ho hok hx hmove
  have hmatched := reachable_matched h.reachable
  have hnodup : ∀ o, o < s.nextObject →
      ((s.objects o).hist.produced.map Production.serial).Nodup := by
    intro o ho
    exact Multiset.coe_nodup.1
      (Multiset.nodup_of_le (Multiset.le_add_left _ _) (hmatched.once o ho))
  constructor
  · exact fun o ho k => recordings_le_one (honce o ho) (hnodup o ho) k
  · obtain ⟨hrequests, hstatuses⟩ := reachable_tallied h.reachable
    rw [hrequests]
    refine hstatuses.trans (Finset.sum_le_sum fun o ho => ?_)
    have ho := Finset.mem_range.1 ho
    refine recorded_le (honce o ho) (hnodup o ho) fun p hp => ?_
    exact (List.getElem?_eq_some_iff.1 ((hmatched.order o ho).made p hp)).1

/-- One request answered. -/
theorem responses_le_requests_one :
    ∃ s, (serverSystem smallConfig).runIf (recordsOnce smallConfig) (Server.start 0) drainOne =
        some s ∧
      (∀ o, o < s.nextObject → ∀ k, recordings (s.objects o) k ≤ 1) ∧
      s.metrics.responses2xx + s.metrics.responses3xx + s.metrics.responses4xx +
        s.metrics.responses5xx ≤ s.metrics.requestsTotal := by
  have hrun : ((serverSystem smallConfig).runIf (recordsOnce smallConfig) (Server.start 0)
      drainOne).isSome = true := by
    decide +kernel
  obtain ⟨s, hs⟩ := Option.isSome_iff_exists.1 hrun
  exact ⟨s, hs, responses_le_requests (Runs.reached_of_runIf (.start ⟨0, rfl⟩) hs)⟩

/-- The handler takes 40 seconds, and the sweep does not wait for it. -/
def lateOne : List (Act Nat) :=
  acceptOne ++ receiveOne getRequest ++ [.afterBatch, .take, .tick (40 * nanosPerSec), .poll [],
    .afterBatch, .work 0 smallEnv]

/-- A request is answered with 504, and then by its worker. -/
theorem late_answer_counted_twice :
    ¬ ∀ s, Runs.Reachable (serverSystem smallConfig) s →
      s.metrics.responses2xx + s.metrics.responses3xx + s.metrics.responses4xx +
        s.metrics.responses5xx ≤ s.metrics.requestsTotal := by
  intro h
  have hrun : ((serverSystem smallConfig).run (Server.start 0) lateOne).map (fun s =>
      decide (s.metrics.responses2xx = 1 ∧ s.metrics.responses5xx = 1 ∧
        s.metrics.requestsTotal = 1)) = some true := by
    decide +kernel
  obtain ⟨s, hs, hvalue⟩ := Option.map_eq_some_iff.1 hrun
  obtain ⟨hok, herror, htotal⟩ := of_decide_eq_true hvalue
  have hle := h s (reachable_of_start hs)
  omega

end Server

end Oreshnek
