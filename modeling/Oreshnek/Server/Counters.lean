import Oreshnek.Server.Accounting
import Oreshnek.Server.Drain

/-!
# What the counters count

Requests turned away with 429 and 503, handlers timed out, connections open: each of these
counters is the number of such events in the histories of the connections, in every
reachable state (`counters_exact`). The difference of a counter and what it counts is the
`balance`, which no step changes. The end of `run` breaks one of them: the gauge of open
connections keeps its value when `connections_.clear()` closes their sockets.
-/

namespace Oreshnek

/-- A counter that is exact. -/
inductive Gauge where
  | rateLimited
  | loadShed
  | handlerTimeouts
  | accepted
  | active
deriving DecidableEq

def Metrics.reading (m : Metrics) : Gauge → Int
  | .rateLimited => m.rateLimitedTotal
  | .loadShed => m.loadShedTotal
  | .handlerTimeouts => m.handlerTimeoutsTotal
  | .accepted => m.connectionsAccepted
  | .active => m.connectionsActive

namespace Session

/-- The answers of `dispatch_next` with this status. -/
def turnedAway (x : Session) (status : HttpStatus) : Nat :=
  x.hist.installed.countP fun e => e.inline && decide (e.response.status = status)

/-- What a connection contributes to a counter. -/
def share (x : Session) : Gauge → Int
  | .rateLimited => x.turnedAway .tooManyRequests
  | .loadShed => x.turnedAway .serviceUnavailable
  | .handlerTimeouts => if x.hist.closedBy = some .handlerTimeout then 1 else 0
  | .accepted => 1
  | .active => if x.conn.isOpen then 1 else 0

/-- What an answer with this status adds to a counter. -/
def toll (status : HttpStatus) : Gauge → Int
  | .rateLimited => if status = .tooManyRequests then 1 else 0
  | .loadShed => if status = .serviceUnavailable then 1 else 0
  | .handlerTimeouts | .accepted | .active => 0

/-- What the end of a callback adds by itself. -/
def outcomeToll : Outcome → Gauge → Int
  | .reject status => toll status
  | .wait | .rearm _ | .close _ | .handOver _ => fun _ => 0

/-- What closing an open connection adds. -/
def closingToll (reason : CloseReason) : Gauge → Int
  | .rateLimited => 0
  | .loadShed => 0
  | .handlerTimeouts => if reason = .handlerTimeout then 1 else 0
  | .accepted => 0
  | .active => -1

theorem share_congr {x y : Session} (hinstalled : y.hist.installed = x.hist.installed)
    (hclosed : y.hist.closedBy = x.hist.closedBy) (hopen : y.conn.isOpen = x.conn.isOpen)
    (g : Gauge) : y.share g = x.share g := by
  cases g <;> simp only [share, turnedAway, hinstalled, hclosed, hopen]

/-- A response is installed. -/
theorem share_installed {x y : Session} {e : Installation}
    (hinstalled : y.hist.installed = x.hist.installed ++ [e])
    (hclosed : y.hist.closedBy = x.hist.closedBy) (hopen : y.conn.isOpen = x.conn.isOpen)
    (g : Gauge) :
    y.share g = x.share g + if e.inline then toll e.response.status g else 0 := by
  have hcount : ∀ status, y.turnedAway status = x.turnedAway status +
      if e.inline && decide (e.response.status = status) then 1 else 0 := by
    intro status
    unfold turnedAway
    rw [hinstalled, List.countP_append, List.countP_singleton]
  cases g with
  | rateLimited =>
      simp only [share, toll, hcount]
      cases e.inline <;> simp
  | loadShed =>
      simp only [share, toll, hcount]
      cases e.inline <;> simp
  | handlerTimeouts => simp [share, toll, hclosed]
  | accepted => simp [share, toll]
  | active => simp [share, toll, hopen]

/-- A connection that is closed gives back its share. -/
theorem share_close {x : Session} (hopen : x.conn.isOpen = true) (hclosed : x.hist.closedBy = none)
    (reason : CloseReason) (g : Gauge) :
    (x.close reason).share g = x.share g + closingToll reason g := by
  have hshut : (x.close reason).conn.isOpen = false := rfl
  cases g with
  | rateLimited => exact (Int.add_zero _).symm
  | loadShed => exact (Int.add_zero _).symm
  | handlerTimeouts => simp [share, closingToll, close, hclosed]
  | accepted => exact (Int.add_zero _).symm
  | active => simp [share, closingToll, hshut, hopen]

/-- What a callback installs: an answer with the status that it reports, or nothing. -/
theorem react_installs {x y : Session} {draining limited overloaded : Bool} {now o : Nat}
    {ans : Answers} {dir : Direction} {outcome : Outcome} (hx : x.Left (.rearm dir))
    (hopen : x.conn.isOpen = true)
    (h : x.react draining limited overloaded now ans o dir = some (y, outcome)) :
    (∃ e status, outcome = .reject status ∧ e.inline = true ∧ e.response.status = status ∧
        y.hist.installed = x.hist.installed ++ [e]) ∨
      (∀ status, outcome ≠ .reject status) ∧ y.hist.installed = x.hist.installed := by
  rcases react_cases hx hopen h with hhandle | ⟨z, -, hhandle, hz, hdispatch⟩
  · right
    rcases handles_done_hist hhandle with ⟨-, -, hinstalled, htakes⟩
    refine ⟨?_, hinstalled⟩
    rintro status rfl
    cases htakes
  · have hkept := (handles_hist hhandle).2.2
    cases hdispatch with
    | limited consumed inb =>
        refine .inl ⟨inOrder o z.hist.requests.length tooManyRequests true, .tooManyRequests,
          rfl, rfl, rfl, ?_⟩
        rw [reject_installed hz, hkept]
    | shed consumed inb =>
        refine .inl ⟨inOrder o z.hist.requests.length serviceUnavailable true,
          .serviceUnavailable, rfl, rfl, rfl, ?_⟩
        rw [reject_installed hz, hkept]
    | handedOver consumed inb => exact .inr ⟨nofun, hkept⟩
    | bad n inb => exact .inr ⟨nofun, hkept⟩
    | waits n inb => exact .inr ⟨nofun, hkept⟩

end Session

namespace Server

variable {H : Type} {cfg : Config H}

/-! ## The balance -/

/-- A counter less what it counts. -/
def balance (s : Server) (g : Gauge) : Int :=
  s.metrics.reading g - ∑ o ∈ Finset.range s.nextObject, (s.objects o).share g

/-- One connection changes. -/
theorem balance_update {s t : Server} {o : Nat} {y : Session} (ho : o < s.nextObject)
    (hobjects : t.objects = Function.update s.objects o y) (hnext : t.nextObject = s.nextObject)
    (g : Gauge) :
    t.balance g = s.balance g + (t.metrics.reading g - s.metrics.reading g) -
      (y.share g - (s.objects o).share g) := by
  have hmem := Finset.mem_range.2 ho
  have hrest : ∑ i ∈ (Finset.range s.nextObject).erase o, (t.objects i).share g =
      ∑ i ∈ (Finset.range s.nextObject).erase o, (s.objects i).share g := by
    apply Finset.sum_congr rfl
    intro i hi
    rw [hobjects, Function.update_of_ne (Finset.ne_of_mem_erase hi)]
  have hself : t.objects o = y := by rw [hobjects, Function.update_self]
  unfold balance
  rw [hnext, ← Finset.add_sum_erase _ (fun i => (t.objects i).share g) hmem,
    ← Finset.add_sum_erase _ (fun i => (s.objects i).share g) hmem, hrest, hself]
  ring

/-- A connection in the hand of the server is closed. -/
theorem closeConnection_balance {s : Server} {fd o : Nat}
    (hlookup : s.connections.lookup fd = some o)
    (ho : o < s.nextObject) (hopen : (s.objects o).conn.isOpen = true)
    (hclosed : (s.objects o).hist.closedBy = none) (reason : CloseReason) (g : Gauge) :
    (s.closeConnection fd reason).balance g =
      s.balance g - if reason = .handlerTimeout ∧ g = .handlerTimeouts then 1 else 0 := by
  have hmetrics : (s.closeConnection fd reason).metrics =
      { s.metrics with connectionsActive := s.metrics.connectionsActive - 1 } := by
    unfold closeConnection arm
    dsimp only
    rw [hlookup]
  rw [balance_update ho (closeConnection_objects hlookup reason) (closeConnection_nextObject _ _ _),
    Session.share_close hopen hclosed, hmetrics]
  cases g <;> simp [Metrics.reading, Session.closingToll]

/-- Closing moves the gauges and what they count alike. -/
theorem closeConnection_keeps_balance {s : Server} {fd o : Nat}
    (hlookup : s.connections.lookup fd = some o) (ho : o < s.nextObject)
    (hopen : (s.objects o).conn.isOpen = true) (hclosed : (s.objects o).hist.closedBy = none)
    (reason : CloseReason) (hreason : reason ≠ .handlerTimeout) (g : Gauge) :
    (s.closeConnection fd reason).balance g = s.balance g := by
  rw [closeConnection_balance hlookup ho hopen hclosed, if_neg fun h => hreason h.1]
  exact sub_zero _

/-- So does rearming. -/
theorem rearm_balance {s : Server} {fd o : Nat} (hlookup : s.connections.lookup fd = some o)
    (ho : o < s.nextObject) (hopen : (s.objects o).conn.isOpen = true)
    (hclosed : (s.objects o).hist.closedBy = none) (dir : Direction) (success : Bool) (g : Gauge) :
    (s.rearm fd dir success).balance g = s.balance g := by
  unfold rearm
  split
  · rfl
  · exact closeConnection_keeps_balance hlookup ho hopen hclosed .ioError nofun g

theorem recordStatus_reading (m : Metrics) (code : Nat) (g : Gauge) :
    (m.recordStatus code).reading g = m.reading g := by
  unfold Metrics.recordStatus
  repeat' split
  all_goals cases g <;> rfl

/-- A rejection moves its own counter. -/
theorem countRejection_reading (m : Metrics) (status : HttpStatus) (g : Gauge) :
    (m.countRejection status).reading g = m.reading g + Session.toll status g := by
  unfold Metrics.countRejection
  dsimp only
  rw [recordStatus_reading]
  cases g with
  | rateLimited => simp [Metrics.reading, Session.toll]
  | loadShed => simp [Metrics.reading, Session.toll]
  | handlerTimeouts => simp [Metrics.reading, Session.toll]
  | accepted => simp [Metrics.reading, Session.toll]
  | active => simp [Metrics.reading, Session.toll]

theorem countTimeout_reading (m : Metrics) (g : Gauge) :
    m.countTimeout.reading g = m.reading g + if g = .handlerTimeouts then 1 else 0 := by
  unfold Metrics.countTimeout
  rw [recordStatus_reading]
  cases g <;> simp [Metrics.reading]

/-- The counters go along with what a callback leaves. -/
theorem conclude_balance {s : Server} {fd o : Nat} {x : Session} {outcome : Outcome}
    (hlookup : s.connections.lookup fd = some o) (ho : o < s.nextObject)
    (hopen : x.conn.isOpen = true) (hclosed : x.hist.closedBy = none)
    (hreason : outcome ≠ .close .handlerTimeout) (success : Bool) (g : Gauge)
    (hshare : x.share g = (s.objects o).share g + Session.outcomeToll outcome g) :
    (s.conclude fd o x success outcome).balance g = s.balance g := by
  have hself : ∀ m : Metrics,
      ({ s.setSession o x with metrics := m } : Server).objects o = x :=
    fun _ => Function.update_self _ _ _
  -- before anything is closed
  have hset : ∀ m : Metrics,
      m.reading g = s.metrics.reading g + Session.outcomeToll outcome g →
      ({ s.setSession o x with metrics := m } : Server).balance g = s.balance g := by
    intro m hm
    rw [balance_update (t := { s.setSession o x with metrics := m }) ho rfl rfl]
    dsimp only
    rw [hm, hshare]
    ring
  cases outcome with
  | wait => exact hset s.metrics (Int.add_zero _).symm
  | rearm dir =>
      exact (rearm_balance (s := { s.setSession o x with metrics := s.metrics }) hlookup ho
        (by rw [hself]; exact hopen) (by rw [hself]; exact hclosed) dir success g).trans
        (hset s.metrics (Int.add_zero _).symm)
  | close reason =>
      exact (closeConnection_keeps_balance (s := { s.setSession o x with metrics := s.metrics })
        hlookup ho (by rw [hself]; exact hopen) (by rw [hself]; exact hclosed)
        reason (fun h => hreason (congrArg Outcome.close h)) g).trans
        (hset s.metrics (Int.add_zero _).symm)
  | reject status =>
      exact (rearm_balance
        (s := { s.setSession o x with metrics := s.metrics.countRejection status }) hlookup ho
        (by rw [hself]; exact hopen) (by rw [hself]; exact hclosed) .write success g).trans
        (hset _ (countRejection_reading _ _ _))
  | handOver request =>
      have hcount : s.metrics.countHandOver.reading g = s.metrics.reading g + 0 := by
        cases g <;> exact (Int.add_zero _).symm
      have hpool : (s.conclude fd o x success (.handOver request)).balance g =
          ({ s.setSession o x with metrics := s.metrics.countHandOver } : Server).balance g := rfl
      exact hpool.trans (hset _ hcount)

/-- A connection that times out is closed, and counted when its handler has. -/
theorem timeOut_balance {s : Server} {e : Nat × CloseReason} {o : Nat}
    (hlookup : s.connections.lookup e.1 = some o) (ho : o < s.nextObject)
    (hopen : (s.objects o).conn.isOpen = true) (hclosed : (s.objects o).hist.closedBy = none)
    (g : Gauge) : (s.timeOut e).balance g = s.balance g := by
  have hshut := closeConnection_balance (s := { s with
    metrics := if e.2 = .handlerTimeout then s.metrics.countTimeout else s.metrics }) hlookup ho
    hopen hclosed e.2 g
  refine hshut.trans ?_
  unfold balance
  dsimp only
  split
  next htimeout =>
    rw [countTimeout_reading, htimeout]
    simp only [true_and]
    ring
  next hother =>
    rw [if_neg fun h => hother h.1]
    ring

/-- So it is when several connections time out. -/
theorem foldl_timeOut_balance {es : List (Nat × CloseReason)} {s : Server} (hinv : s.Inv)
    (hrest : s.phase.rest = []) (hnodup : (es.map Prod.fst).Nodup)
    (hes : ∀ e ∈ es, ∃ o, s.connections.lookup e.1 = some o ∧
      (s.objects o).conn.isOpen = true ∧ (s.objects o).hist.closedBy = none) (g : Gauge) :
    (es.foldl timeOut s).balance g = s.balance g := by
  induction es generalizing s with
  | nil => rfl
  | cons e es ih =>
      rcases hes e List.mem_cons_self with ⟨o, hlookup, hopen, hclosed⟩
      rw [List.map_cons, List.nodup_cons] at hnodup
      have hinv' : (s.timeOut e).Inv := (timeOut_foldl_inv hinv hrest [e]).1
      have hphase : (s.timeOut e).phase = s.phase := (timeOut_foldl_inv hinv hrest [e]).2
      rw [List.foldl_cons, ih hinv' (hphase.symm ▸ hrest) hnodup.2 ?_,
        timeOut_balance hlookup (hinv.serves _ _ hlookup).1 hopen hclosed]
      -- the other entries are for other connections
      intro e' he'
      rcases hes e' (List.mem_cons_of_mem _ he') with ⟨o', hlookup', hopen', hclosed'⟩
      have hne : e'.1 ≠ e.1 := fun heq => hnodup.1 (List.mem_map.2 ⟨e', he', heq⟩)
      have hsame : (s.timeOut e).objects o' = s.objects o' :=
        closeConnection_objects_of_ne (hinv.alone hlookup' e.1 (Ne.symm hne))
      refine ⟨o', ?_, ?_⟩
      · rw [timeOut_lookup, if_neg hne]
        exact hlookup'
      · rw [hsame]
        exact ⟨hopen', hclosed'⟩

/-- Behind a batch each connection that is closed is counted off once. -/
theorem afterBatch_balance {s : Server} (hinv : s.Inv)
    (hsettled : ∀ o, o < s.nextObject → (s.objects o).Settled) (hphase : s.phase = .batch [])
    (settings : Settings) (g : Gauge) :
    (((s.beginDrain settings).cleanup settings).checkDrain).balance g = s.balance g := by
  rcases beginDrain_eq s settings with ⟨draining, deadline, hbegin⟩
  have hinv' := hinv.beginDrain settings
  have hstart : (s.beginDrain settings).balance g = s.balance g := by
    rw [hbegin]
    rfl
  have hcheck : (((s.beginDrain settings).cleanup settings).checkDrain).balance g =
      ((s.beginDrain settings).cleanup settings).balance g := rfl
  rw [hcheck, ← hstart]
  rcases cleanup_cases s settings with ⟨-, hcleanup⟩ | ⟨-, hcleanup⟩
  · have hsweep : ((s.beginDrain settings).cleanup settings).balance g =
        ((s.beginDrain settings).enforceTimeouts settings).balance g := by
      rw [hcleanup]
      rfl
    rw [hsweep, enforceTimeouts_eq]
    apply foldl_timeOut_balance hinv' ?_ (sweepList_nodup _ _)
    · rintro ⟨fd, reason⟩ he
      rcases mem_sweepList.1 he with ⟨o, hlookup, -⟩
      refine ⟨o, hlookup, ?_⟩
      rw [hbegin] at hlookup ⊢
      have hopen := serves_open hinv hlookup
      exact ⟨hopen, (hsettled o (hinv.serves fd o hlookup).1).1.2 hopen⟩
    · rw [hbegin, hphase]
      rfl
  · rw [hcleanup]

/-! ## All steps -/

/-- A completion that is pushed moves no counter. -/
theorem push_balance {s : Server} {k : Nat} {t : Task} (ho : t.conn < s.nextObject)
    (pushed : List CompletedResponse) (g : Gauge) :
    (s.push k t pushed).balance g = s.balance g := by
  cases pushed with
  | nil => rfl
  | cons item pushed =>
      rw [balance_update (t := s.push k t (item :: pushed)) ho rfl rfl]
      have hmetrics : (s.push k t (item :: pushed)).metrics =
          s.metrics.recordStatus item.response.status.code := rfl
      have hshare : ({ s.objects t.conn with hist.produced :=
          (s.objects t.conn).hist.produced ++ [⟨t.serial, t.request, item.response⟩] } :
          Session).share g = (s.objects t.conn).share g := Session.share_congr rfl rfl rfl g
      rw [hmetrics, recordStatus_reading, hshare]
      ring

/-- A new connection is counted as it gets its object. -/
theorem accept_balance (s : Server) (fd : Nat) (clientIp : Bytes) (tls : Bool) (g : Gauge) :
    (s.accept fd clientIp tls).balance g = s.balance g := by
  have hself : (s.accept fd clientIp tls).objects s.nextObject = .new fd s.now clientIp tls :=
    Function.update_self _ _ _
  have hothers : ∑ o ∈ Finset.range s.nextObject,
      ((s.accept fd clientIp tls).objects o).share g =
      ∑ o ∈ Finset.range s.nextObject, (s.objects o).share g := by
    apply Finset.sum_congr rfl
    intro o ho
    have hother : (s.accept fd clientIp tls).objects o = s.objects o :=
      Function.update_of_ne (Nat.ne_of_lt (Finset.mem_range.1 ho)) _ _
    rw [hother]
  have hnext : (s.accept fd clientIp tls).nextObject = s.nextObject + 1 := rfl
  have hnew : (s.accept fd clientIp tls).metrics.reading g =
      s.metrics.reading g + (Session.new fd s.now clientIp tls).share g := by
    cases g with
    | accepted => rfl
    | active => rfl
    | _ => exact (Int.add_zero _).symm
  unfold balance
  rw [hnext, Finset.sum_range_succ, hself, hothers, hnew]
  ring

/-- **Step lemma.** A counter moves with what it counts. -/
theorem step_balance {s s' : Server} {a : Act H} (hs : Runs.Reachable (serverSystem cfg) s)
    (hstep : step cfg s a = some s') (g : Gauge) : s'.balance g = s.balance g := by
  have hinv := reachable_inv hs
  have hsettled := reachable_settled hs
  cases step_cases hstep with
  | clientError ans fd dir rest hphase =>
      rcases hinv.takeEvent hphase with ⟨o, hlookup, -⟩
      have hopen := serves_open hinv hlookup
      have hlt := (hinv.serves fd o hlookup).1
      apply closeConnection_keeps_balance (s := { s with phase := .batch rest }) hlookup hlt
        hopen ((hsettled o hlt).1.2 hopen)
      intro hreason
      cases hreason
  | client ans fd o dir rest x outcome hphase hlookup hreact =>
      rcases hinv.takeEvent hphase with ⟨o', hsome, hhand, hleft, -⟩
      rw [hlookup] at hsome
      cases hsome
      have hlt := (hinv.serves fd o hlookup).1
      have hclosed := (hsettled o hlt).1.2 hhand.isOpen
      have hafter := Session.react_closedBy hleft hhand.isOpen hreact
      have hsocket := Session.isOpen_congr (Session.react_left hleft hhand.isOpen hreact).2.1
      have hreason : outcome ≠ .close .handlerTimeout := by
        rintro rfl
        rcases Session.react_reason hleft hhand.isOpen hreact with h | h | h | h | h
        all_goals cases h
      apply conclude_balance (s := { s with phase := .batch rest }) hlookup hlt
        (hsocket.trans hhand.isOpen) (hafter.trans hclosed) hreason
      rcases Session.react_installs hleft hhand.isOpen hreact with
        ⟨e, status, rfl, hinline, rfl, hinstalled⟩ | ⟨hnone, hinstalled⟩
      · have hshare := Session.share_installed hinstalled hafter hsocket g
        rw [if_pos hinline] at hshare
        exact hshare
      · have hfree : Session.outcomeToll outcome g = 0 := by
          cases outcome with
          | reject status => exact absurd rfl (hnone status)
          | _ => rfl
        rw [hfree, Session.share_congr hinstalled hafter hsocket]
        exact (Int.add_zero _).symm
  | accept fd clientIp hphase hlookup => exact accept_balance s fd clientIp cfg.tls g
  | complete ans c ready rest hphase =>
      unfold processCompletion
      dsimp only
      split
      · rfl
      next o hlookup =>
        split
        · rfl
        next hown =>
          rw [not_or, not_ne_iff, not_not] at hown
          rcases hown with ⟨rfl, hopen⟩
          have hlt := (hinv.serves _ _ hlookup).1
          have hclosed := (hsettled _ hlt).1.2 hopen
          have hrearm : Outcome.rearm .write ≠ .close .handlerTimeout := by
            intro hreason
            cases hreason
          -- the answer of a worker is in none of these counters
          have hsocket := Session.isOpen_congr
            ((s.objects c.item.conn).workerDone.install_sameSocket s.now ans c.serial
              c.item.conn false c.item.response).1
          have hshare := Session.share_installed (x := s.objects c.item.conn)
            (y := (s.objects c.item.conn).workerDone.install s.now ans c.serial c.item.conn false
              c.item.response) rfl rfl hsocket g
          rw [if_neg (by exact Bool.false_ne_true)] at hshare
          exact conclude_balance (s := { s with phase := .completing ready rest })
            hlookup hlt (hsocket.trans hopen) hclosed hrearm ans.rearmed g hshare
  | afterBatch hphase => exact afterBatch_balance hinv hsettled hphase cfg.settings g
  | work k env t pushed hk htask =>
      have hmem : t ∈ s.pendingTasks := by
        rw [set_pending .leaving hk]
        · exact Multiset.mem_cons_self _ _
        · intro hleaving
          cases hleaving
      exact push_balance ((reachable_matched hs).task t hmem).1 pushed g
  | drainRead hphase hpipe =>
      unfold balance
      rfl
  | _ => rfl

/-- The balance is zero in every reachable state. -/
theorem reachable_balance {s : Server} (h : Runs.Reachable (serverSystem cfg) s) (g : Gauge) :
    s.balance g = 0 := by
  apply Runs.Reachable.invariant (P := fun s => s.balance g = 0) ?_ ?_ h
  · rintro s ⟨now, rfl⟩
    cases g <;> rfl
  · intro s a s' hs hbalance hstep
    exact (step_balance hs hstep g).trans hbalance

/-- A socket that is open behind the loop belongs to an object that something holds. -/
theorem teardown_closes {s : Server} (h : Runs.Reachable (serverSystem cfg) s) {o : Nat}
    (ho : o < s.nextObject) (hopen : (s.teardown.objects o).conn.isOpen = true) : s.stillHeld o := by
  by_contra hfree
  unfold teardown at hopen
  dsimp only at hopen
  by_cases hlisted : ∃ e ∈ s.connections.entries, e.2 = o
  · rw [if_pos ⟨hlisted, hfree⟩] at hopen
    cases hopen
  · rw [if_neg fun hboth => hlisted hboth.1] at hopen
    rcases reachable_owned h o ho hopen with ⟨fd, hfd⟩
    exact hlisted ⟨⟨fd, o⟩, AList.mem_lookup_iff.1 hfd, rfl⟩

/-- **The counters are exact.** Until `run` has left its loop each of them is the number of
the events that it is for. What follows the loop closes every socket that no task or response
holds, and leaves `connections_active` at the number of those that were open. -/
theorem counters_exact {s : Server} (h : Runs.Reachable (serverSystem cfg) s) :
    s.metrics.requestsTotal =
        ∑ o ∈ Finset.range s.nextObject, (s.objects o).hist.requests.length ∧
      s.metrics.rateLimitedTotal =
        ∑ o ∈ Finset.range s.nextObject, (s.objects o).turnedAway .tooManyRequests ∧
      s.metrics.loadShedTotal =
        ∑ o ∈ Finset.range s.nextObject, (s.objects o).turnedAway .serviceUnavailable ∧
      s.metrics.handlerTimeoutsTotal = ((Finset.range s.nextObject).filter
        fun o => (s.objects o).hist.closedBy = some .handlerTimeout).card ∧
      s.metrics.connectionsAccepted = s.nextObject ∧
      s.metrics.connectionsActive =
        ((Finset.range s.nextObject).filter fun o => (s.objects o).conn.isOpen = true).card ∧
      s.teardown.metrics = s.metrics ∧
      ∀ o, o < s.nextObject → (s.teardown.objects o).conn.isOpen = true → s.stillHeld o := by
  have hexact : ∀ g, s.metrics.reading g =
      ∑ o ∈ Finset.range s.nextObject, (s.objects o).share g :=
    fun g => sub_eq_zero.1 (reachable_balance h g)
  have hlimited := hexact .rateLimited
  have hshed := hexact .loadShed
  have htimeouts := hexact .handlerTimeouts
  have haccepted := hexact .accepted
  have hactive := hexact .active
  unfold Metrics.reading Session.share at hlimited hshed htimeouts haccepted hactive
  dsimp only at hlimited hshed htimeouts haccepted hactive
  refine ⟨(reachable_tallied h).requests, ?_, ?_, ?_, ?_, ?_, rfl, ?_⟩
  · exact_mod_cast hlimited
  · exact_mod_cast hshed
  · rw [Finset.card_filter]
    exact_mod_cast htimeouts
  · rw [Finset.sum_const, Finset.card_range, nsmul_one] at haccepted
    exact_mod_cast haccepted
  · rw [Finset.card_filter]
    exact_mod_cast hactive
  · exact fun o ho hopen => teardown_closes h ho hopen

/-- Of two clients that send a request at once, the second one is turned away. -/
def shedSecond : List (Act Nat) :=
  [.poll [.listener], .enter, .accept 7 [], .accept 8 [], .acceptEnd, .afterBatch,
    .poll [.client 7 .read false, .client 8 .read false], .client { recv := arriving getRequest },
    .client { recv := arriving getRequest }]

/-- The second of two connections is turned away with a 503. -/
theorem counters_exact_shedSecond : ∃ s : Server,
    (serverSystem smallConfig).run (Server.start 0) shedSecond = some s ∧
      s.metrics.loadShedTotal = 1 ∧
      s.metrics.requestsTotal =
        ∑ o ∈ Finset.range s.nextObject, (s.objects o).hist.requests.length ∧
      s.metrics.rateLimitedTotal =
        ∑ o ∈ Finset.range s.nextObject, (s.objects o).turnedAway .tooManyRequests ∧
      s.metrics.loadShedTotal =
        ∑ o ∈ Finset.range s.nextObject, (s.objects o).turnedAway .serviceUnavailable ∧
      s.metrics.handlerTimeoutsTotal = ((Finset.range s.nextObject).filter
        fun o => (s.objects o).hist.closedBy = some .handlerTimeout).card ∧
      s.metrics.connectionsAccepted = s.nextObject ∧
      s.metrics.connectionsActive =
        ((Finset.range s.nextObject).filter fun o => (s.objects o).conn.isOpen = true).card ∧
      s.teardown.metrics = s.metrics ∧
      ∀ o, o < s.nextObject → (s.teardown.objects o).conn.isOpen = true → s.stillHeld o := by
  have hrun : ((serverSystem smallConfig).run (Server.start 0) shedSecond).map
      (fun s => decide (s.metrics.loadShedTotal = 1)) = some true := by
    decide +kernel
  rcases Option.map_eq_some_iff.1 hrun with ⟨s, hs, hvalue⟩
  exact ⟨s, hs, of_decide_eq_true hvalue, counters_exact (reachable_of_start hs)⟩

end Server

end Oreshnek
