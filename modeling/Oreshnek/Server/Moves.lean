import Oreshnek.Server.Modes

/-!
# What a step does to one connection object

`Moves` lists what may become of a connection object in one step, with what is known
of the server at that moment. `step_moves` is the inversion lemma; a property of
the histories of all objects follows from one case for each move
(`reached_session`).
-/

namespace Oreshnek

/-- The session when its callback has been concluded. -/
def Session.concluded (x : Session) (success : Bool) : Outcome → Session
  | .wait | .handOver _ => x
  | .rearm _ | .reject _ => if success then x else x.close .ioError
  | .close reason => x.close reason

/-- It is left as it is, or closed: as the callback says, or because it could not be armed. -/
theorem Session.concluded_cases (x : Session) (success : Bool) (outcome : Outcome) :
    (x.concluded success outcome = x ∧ ∀ reason, outcome ≠ .close reason) ∨
      ∃ reason, x.concluded success outcome = x.close reason ∧
        (outcome = .close reason ∨ reason = .ioError ∧ ∀ reason', outcome ≠ .close reason') := by
  cases outcome with
  | wait => exact .inl ⟨rfl, nofun⟩
  | rearm dir =>
      cases success with
      | true => exact .inl ⟨rfl, nofun⟩
      | false => exact .inr ⟨.ioError, rfl, .inr ⟨rfl, nofun⟩⟩
  | close reason => exact .inr ⟨reason, rfl, .inl rfl⟩
  | reject status =>
      cases success with
      | true => exact .inl ⟨rfl, nofun⟩
      | false => exact .inr ⟨.ioError, rfl, .inr ⟨rfl, nofun⟩⟩
  | handOver request => exact .inl ⟨rfl, nofun⟩

/-- What holds after a callback, and of the connection closed there, holds at its end. -/
theorem Session.concluded_keeps {P : Session → Prop} {x : Session} (h : P x)
    (hclose : ∀ reason, P (x.close reason)) (success : Bool) (outcome : Outcome) :
    P (x.concluded success outcome) := by
  rcases x.concluded_cases success outcome with ⟨hsame, -⟩ | ⟨reason, hclosed, -⟩
  · rw [hsame]
    exact h
  · rw [hclosed]
    exact hclose reason

namespace Server

variable {H : Type} {cfg : Config H}

/-! ## Objects behind the parts of a step -/

/-- Rearming leaves the connection, or closes it when it fails. -/
theorem rearm_objects {s : Server} {fd o : Nat} (h : s.connections.lookup fd = some o)
    (dir : Direction) (success : Bool) :
    (s.rearm fd dir success).objects =
      Function.update s.objects o
        (if success then s.objects o else (s.objects o).close .ioError) := by
  unfold rearm
  split
  · rw [Function.update_eq_self]
    rfl
  · exact closeConnection_objects h .ioError

/-- The end of a callback changes the object that it was made for. -/
theorem conclude_objects {s : Server} {fd o : Nat} (h : s.connections.lookup fd = some o)
    (x : Session) (success : Bool) (outcome : Outcome) :
    (s.conclude fd o x success outcome).objects =
      Function.update s.objects o (x.concluded success outcome) := by
  have hset : ∀ m : Metrics,
      ({ s.setSession o x with metrics := m } : Server).objects o = x :=
    fun _ => Function.update_self _ _ _
  have hself : (s.setSession o x).objects o = x := Function.update_self _ _ _
  cases outcome with
  | wait => rfl
  | rearm dir =>
      refine (rearm_objects (s := s.setSession o x) h dir success).trans ?_
      rw [hself]
      exact Function.update_idem _ _ _
  | close reason =>
      refine (closeConnection_objects (s := s.setSession o x) h reason).trans ?_
      rw [hself]
      exact Function.update_idem _ _ _
  | reject status =>
      refine (rearm_objects (s := { s.setSession o x with
        metrics := s.metrics.countRejection status }) h .write success).trans ?_
      rw [hset]
      exact Function.update_idem _ _ _
  | handOver request => rfl

/-! ## The sweep -/

theorem timeOut_lookup (s : Server) (e : Nat × CloseReason) (fd : Nat) :
    (s.timeOut e).connections.lookup fd = if fd = e.1 then none else s.connections.lookup fd :=
  closeConnection_lookup _ _ _ _

/-- Closing for timeouts takes away just the descriptors of the list. -/
theorem foldl_timeOut_lookup (es : List (Nat × CloseReason)) (s : Server) (fd : Nat) :
    (es.foldl timeOut s).connections.lookup fd =
      if fd ∈ es.map Prod.fst then none else s.connections.lookup fd := by
  induction es generalizing s with
  | nil => rfl
  | cons e es ih =>
      rw [List.foldl_cons, ih, timeOut_lookup, List.map_cons]
      by_cases he : fd = e.1
      · rw [if_pos he, ite_self, if_pos (he ▸ List.mem_cons_self)]
      · rw [if_neg he]
        by_cases hes : fd ∈ es.map Prod.fst
        · rw [if_pos hes, if_pos (List.mem_cons_of_mem _ hes)]
        · rw [if_neg hes, if_neg (fun h => (List.mem_cons.1 h).elim he hes)]

/-- An object is closed by the entry for its socket, and by no other. -/
theorem foldl_timeOut_objects {es : List (Nat × CloseReason)} {s : Server} (hinv : s.Inv)
    (hrest : s.phase.rest = []) (o : Nat) :
    (es.foldl timeOut s).objects o = s.objects o ∨
      ∃ fd reason, (fd, reason) ∈ es ∧ s.connections.lookup fd = some o ∧
        (es.foldl timeOut s).objects o = (s.objects o).close reason := by
  -- entry by entry; each closes a connection of its own
  induction es generalizing s with
  | nil => exact .inl rfl
  | cons e es ih =>
      have hinv' : (s.timeOut e).Inv := (timeOut_foldl_inv hinv hrest [e]).1
      have hphase : (s.timeOut e).phase = s.phase := (timeOut_foldl_inv hinv hrest [e]).2
      have hback : ∀ fd, (s.timeOut e).connections.lookup fd = some o →
          fd ≠ e.1 ∧ s.connections.lookup fd = some o := by
        intro fd hfd
        rw [timeOut_lookup] at hfd
        split at hfd
        · cases hfd
        next hne => exact ⟨hne, hfd⟩
      rcases ih hinv' (by rw [hphase]; exact hrest) with hsame | ⟨fd, reason, hmem, hfd, hclosed⟩
      · by_cases hlookup : s.connections.lookup e.1 = some o
        · right
          refine ⟨e.1, e.2, List.mem_cons_self, hlookup, hsame.trans ?_⟩
          have hobjects := closeConnection_objects (s := { s with
            metrics := if e.2 = .handlerTimeout then s.metrics.countTimeout else s.metrics })
            hlookup e.2
          exact (congrFun hobjects o).trans (Function.update_self _ _ _)
        · left
          refine hsame.trans ?_
          exact closeConnection_objects_of_ne hlookup
      · -- the other entry is for the same socket only if this one was not
        obtain ⟨hne, hfd⟩ := hback fd hfd
        right
        refine ⟨fd, reason, List.mem_cons_of_mem _ hmem, hfd, hclosed.trans ?_⟩
        congr 1
        exact closeConnection_objects_of_ne fun h => hinv.alone hfd e.1 (Ne.symm hne) h

/-- The four timeouts. -/
theorem timeoutOf_reason {settings : Settings} {now : Nat} {c : Connection} {reason : CloseReason}
    (h : timeoutOf settings now c = some reason) :
    reason = .readTimeout ∨ reason = .handlerTimeout ∨ reason = .writeTimeout ∨
      reason = .idleTimeout := by
  unfold timeoutOf at h
  split at h
  · split at h
    · cases h
      exact .inr (.inl rfl)
    · cases h
  split at h
  · split at h
    · cases h
      exact .inr (.inr (.inl rfl))
    · cases h
  split at h
  · cases h
  split at h
  · split at h
    · cases h
      exact .inl rfl
    · cases h
  · split at h
    · cases h
      exact .inr (.inr (.inr rfl))
    · cases h

/-- The timeouts are those of the connections held. -/
theorem mem_timeouts {s : Server} {settings : Settings} {fd : Nat} {reason : CloseReason} :
    (fd, reason) ∈ s.timeouts settings ↔ ∃ o, s.connections.lookup fd = some o ∧
      timeoutOf settings s.now (s.objects o).conn = some reason := by
  unfold timeouts
  rw [List.mem_filterMap]
  constructor
  · rintro ⟨⟨fd', o⟩, hmem, hmap⟩
    obtain ⟨reason', hreason, heq⟩ := Option.map_eq_some_iff.1 hmap
    cases heq
    exact ⟨o, AList.mem_lookup_iff.2 hmem, hreason⟩
  · rintro ⟨o, hlookup, hreason⟩
    exact ⟨⟨fd, o⟩, AList.mem_lookup_iff.1 hlookup, by rw [hreason]; rfl⟩

/-- The entries that `enforce_timeouts` goes through. -/
def sweepList (s : Server) (settings : Settings) : List (Nat × CloseReason) :=
  (s.timeouts settings).filter (fun e => e.2 = .readTimeout) ++
    (s.timeouts settings).filter (fun e => e.2 = .handlerTimeout) ++
    (s.timeouts settings).filter (fun e => e.2 = .writeTimeout ∨ e.2 = .idleTimeout)

theorem enforceTimeouts_eq (s : Server) (settings : Settings) :
    s.enforceTimeouts settings = (s.sweepList settings).foldl timeOut s := rfl

/-- The connections to be closed are those that have timed out. -/
theorem mem_sweepList {s : Server} {settings : Settings} {fd : Nat} {reason : CloseReason} :
    (fd, reason) ∈ s.sweepList settings ↔ ∃ o, s.connections.lookup fd = some o ∧
      timeoutOf settings s.now (s.objects o).conn = some reason := by
  rw [← mem_timeouts]
  unfold sweepList
  simp only [List.mem_append, List.mem_filter, decide_eq_true_eq]
  constructor
  · rintro ((⟨h, -⟩ | ⟨h, -⟩) | ⟨h, -⟩)
    · exact h
    · exact h
    · exact h
  · intro h
    obtain ⟨o, -, hreason⟩ := mem_timeouts.1 h
    rcases timeoutOf_reason hreason with rfl | rfl | rfl | rfl
    · exact .inl (.inl ⟨h, rfl⟩)
    · exact .inl (.inr ⟨h, rfl⟩)
    · exact .inr ⟨h, .inl rfl⟩
    · exact .inr ⟨h, .inr rfl⟩

/-- A connection stays through the sweep exactly when it has not timed out. -/
theorem enforceTimeouts_lookup (s : Server) (settings : Settings) (fd o : Nat) :
    (s.enforceTimeouts settings).connections.lookup fd = some o ↔
      s.connections.lookup fd = some o ∧
        timeoutOf settings s.now (s.objects o).conn = none := by
  rw [enforceTimeouts_eq, foldl_timeOut_lookup]
  constructor
  · intro h
    split at h
    · cases h
    next hnot =>
      refine ⟨h, ?_⟩
      rw [Option.eq_none_iff_forall_ne_some]
      intro reason hreason
      exact hnot (List.mem_map.2 ⟨(fd, reason), mem_sweepList.2 ⟨o, h, hreason⟩, rfl⟩)
  · rintro ⟨h, hnone⟩
    rw [if_neg ?_]
    · exact h
    · intro hmem
      obtain ⟨⟨fd', reason⟩, hentry, rfl⟩ := List.mem_map.1 hmem
      obtain ⟨o', hlookup, hreason⟩ := mem_sweepList.1 hentry
      rw [h] at hlookup
      cases hlookup
      rw [hnone] at hreason
      cases hreason

/-- A sweep leaves a connection or closes it for its timeout. -/
theorem enforceTimeouts_objects {s : Server} (hinv : s.Inv) (hrest : s.phase.rest = [])
    (settings : Settings) (o : Nat) :
    (s.enforceTimeouts settings).objects o = s.objects o ∨
      ∃ fd reason, s.connections.lookup fd = some o ∧
        timeoutOf settings s.now (s.objects o).conn = some reason ∧
        (s.enforceTimeouts settings).objects o = (s.objects o).close reason := by
  rw [enforceTimeouts_eq]
  rcases foldl_timeOut_objects hinv hrest o with h | ⟨fd, reason, hmem, hfd, hclosed⟩
  · exact .inl h
  · obtain ⟨o', hlookup, hreason⟩ := mem_sweepList.1 hmem
    rw [hfd] at hlookup
    cases hlookup
    exact .inr ⟨fd, reason, hfd, hreason, hclosed⟩

/-- Beginning to drain sets two fields. -/
theorem beginDrain_eq (s : Server) (settings : Settings) :
    ∃ draining deadline, s.beginDrain settings =
      { s with draining := draining, drainDeadline := deadline } := by
  unfold beginDrain
  split
  · exact ⟨_, _, rfl⟩
  · exact ⟨s.draining, s.drainDeadline, rfl⟩

/-- Behind the events of a batch `enforce_timeouts` is run. -/
def sweeps (settings : Settings) (s : Server) : Bool :=
  decide ((s.beginDrain settings).draining = true ∨ 1 ≤ elapsedSec s.now s.lastCleanup)

/-- The periodic `enforce_timeouts`, behind the look at a stop request. -/
theorem cleanup_cases (s : Server) (settings : Settings) :
    (sweeps settings s = true ∧ (s.beginDrain settings).cleanup settings =
        { (s.beginDrain settings).enforceTimeouts settings with lastCleanup := s.now }) ∨
      (sweeps settings s = false ∧ (s.beginDrain settings).cleanup settings =
        s.beginDrain settings) := by
  obtain ⟨draining, deadline, hbegin⟩ := beginDrain_eq s settings
  have hnow : (s.beginDrain settings).now = s.now := by rw [hbegin]
  have hlast : (s.beginDrain settings).lastCleanup = s.lastCleanup := by rw [hbegin]
  unfold sweeps cleanup
  rw [hnow, hlast]
  split
  next hsweep => exact .inl ⟨decide_eq_true hsweep, rfl⟩
  next hrest => exact .inr ⟨decide_eq_false hrest, rfl⟩

theorem Inv.beginDrain {s : Server} (hinv : s.Inv) (settings : Settings) :
    (s.beginDrain settings).Inv := by
  obtain ⟨draining, deadline, hbegin⟩ := beginDrain_eq s settings
  rw [hbegin]
  exact hinv.pass rfl (fun _ => Session.Alike.refl _) rfl rfl rfl le_rfl

/-- The end of a batch changes an object only when it has timed out. -/
theorem cleanup_objects {s : Server} (hinv : s.Inv) (hphase : s.phase = .batch [])
    (settings : Settings) (o : Nat) :
    ((s.beginDrain settings).cleanup settings).objects o = s.objects o ∨
      ∃ fd reason, s.connections.lookup fd = some o ∧
        timeoutOf settings s.now (s.objects o).conn = some reason ∧ sweeps settings s = true ∧
        ((s.beginDrain settings).cleanup settings).objects o = (s.objects o).close reason := by
  obtain ⟨draining, deadline, hbegin⟩ := beginDrain_eq s settings
  have hinv' := hinv.beginDrain settings
  have hrest : s.phase.rest = [] := by
    rw [hphase]
    rfl
  rcases cleanup_cases s settings with ⟨hsweep, hcleanup⟩ | ⟨-, hcleanup⟩
  · rw [hcleanup]
    rw [hbegin] at hinv' ⊢
    rcases enforceTimeouts_objects hinv' hrest settings o with hsame |
      ⟨fd, reason, hlookup, hreason, hclosed⟩
    · exact .inl hsame
    · exact .inr ⟨fd, reason, hlookup, hreason, hsweep, hclosed⟩
  · rw [hcleanup, hbegin]
    exact .inl rfl

/-! ## Moves -/

/-- What the object `o` may be behind a step. -/
inductive Moves (cfg : Config H) (s : Server) (a : Act H) (o : Nat) : Session → Prop where
  | same : Moves cfg s a o (s.objects o)
  | created (fd : Nat) (clientIp : Bytes) (ha : a = .accept fd clientIp) (ho : o = s.nextObject) :
      Moves cfg s a o (.new fd s.now clientIp cfg.tls)
  /-- An error event. -/
  | failed (ans : Answers) (fd : Nat) (dir : Direction) (rest : List Event)
      (ha : a = .client ans) (hphase : s.phase = .batch (.client fd dir true :: rest))
      (hlookup : s.connections.lookup fd = some o) :
      Moves cfg s a o ((s.objects o).close .ioError)
  /-- Any other event of a client. -/
  | reacted (ans : Answers) (fd : Nat) (dir : Direction) (rest : List Event) (x : Session)
      (outcome : Outcome) (ha : a = .client ans)
      (hphase : s.phase = .batch (.client fd dir false :: rest))
      (hlookup : s.connections.lookup fd = some o) (hleft : (s.objects o).Left (.rearm dir))
      (hopen : (s.objects o).conn.isOpen = true)
      (hreact : (s.objects o).react s.draining cfg.rateLimited (s.overloaded cfg.settings) s.now
        ans o dir = some (x, outcome)) :
      Moves cfg s a o (x.concluded ans.rearmed outcome)
  /-- Its response comes back. -/
  | completed (ans : Answers) (c : Completion) (ready : List Completion) (rest : List Event)
      (ha : a = .complete ans) (hphase : s.phase = .completing (c :: ready) rest)
      (hconn : c.item.conn = o) (hlookup : s.connections.lookup c.item.fd = some o)
      (hhanded : (s.objects o).HandedOver)
      (hserial : c.serial = (s.objects o).hist.requests.length - 1) :
      Moves cfg s a o (((s.objects o).workerDone.install s.now ans c.serial o false
        c.item.response).concluded ans.rearmed (.rearm .write))
  | timedOut (fd : Nat) (reason : CloseReason) (ha : a = .afterBatch)
      (hlookup : s.connections.lookup fd = some o)
      (hreason : timeoutOf cfg.settings s.now (s.objects o).conn = some reason)
      (hsweep : sweeps cfg.settings s = true) : Moves cfg s a o ((s.objects o).close reason)
  /-- Its worker pushes a response. -/
  | pushed (k : Nat) (env : TaskEnv H) (t : Task) (ending : TaskEnd) (res : HttpResponse)
      (ha : a = .work k env) (hk : s.running[k]? = some ⟨.working, t⟩) (hconn : t.conn = o)
      (htask : workerTask env cfg.router t.fd t.conn t.request [] =
        some (ending, [⟨t.fd, t.conn, res⟩])) :
      Moves cfg s a o { s.objects o with hist.produced :=
        (s.objects o).hist.produced ++ [⟨t.serial, t.request, res⟩] }

/-- **What becomes of a connection object in one step.** -/
theorem step_moves {s s' : Server} {a : Act H} (hinv : s.Inv) (hstep : step cfg s a = some s')
    (o : Nat) : Moves cfg s a o (s'.objects o) := by
  cases step_cases hstep with
  | clientError ans fd dir rest hphase =>
      obtain ⟨o', hlookup, -⟩ := hinv.takeEvent hphase
      by_cases ho : o' = o
      · subst ho
        -- the object the event was reported for is closed
        have hobjects := closeConnection_objects (s := { s with phase := .batch rest }) hlookup
          .ioError
        rw [hobjects, Function.update_self]
        exact .failed ans fd dir rest rfl hphase hlookup
      · rw [closeConnection_objects_of_ne]
        · exact .same
        · intro h
          have h : s.connections.lookup fd = some o := h
          rw [hlookup] at h
          exact ho (Option.some.inj h)
  | client ans fd o' dir rest x outcome hphase hlookup hreact =>
      obtain ⟨o'', hsome, hhand, hleft, -⟩ := hinv.takeEvent hphase
      rw [hlookup] at hsome
      cases hsome
      rw [conclude_objects (s := { s with phase := .batch rest }) hlookup]
      by_cases ho : o' = o
      · subst ho
        rw [Function.update_self]
        exact .reacted ans fd dir rest x outcome rfl hphase hlookup hleft hhand.isOpen hreact
      · rw [Function.update_of_ne (Ne.symm ho)]
        exact .same
  | accept fd clientIp hphase hlookup =>
      by_cases ho : o = s.nextObject
      · subst ho
        have hself : (s.accept fd clientIp cfg.tls).objects s.nextObject =
            .new fd s.now clientIp cfg.tls := Function.update_self _ _ _
        rw [hself]
        exact .created fd clientIp rfl rfl
      · have hother : (s.accept fd clientIp cfg.tls).objects o = s.objects o :=
          Function.update_of_ne ho _ _
        rw [hother]
        exact .same
  | complete ans c ready rest hphase =>
      unfold processCompletion
      dsimp only
      split
      · exact .same
      next o' hlookup =>
        -- the number may stand for another connection by now; then the response is dropped
        split
        · exact .same
        next hown =>
          rw [not_or, not_ne_iff, not_not] at hown
          obtain ⟨rfl, -⟩ := hown
          obtain ⟨hhanded, hserial, -⟩ := hinv.arrival hphase hlookup
          have hobjects := rearm_objects (s := ({ s with
            phase := .completing ready rest } : Server).setSession c.item.conn
              ((s.objects c.item.conn).workerDone.install s.now ans c.serial c.item.conn false
                c.item.response)) hlookup .write ans.rearmed
          rw [hobjects]
          unfold setSession
          dsimp only
          rw [Function.update_self, Function.update_idem]
          by_cases ho : c.item.conn = o
          · subst ho
            rw [Function.update_self]
            exact .completed ans c ready rest rfl hphase rfl hlookup hhanded hserial
          · rw [Function.update_of_ne (Ne.symm ho)]
            exact .same
  | afterBatch hphase =>
      rcases cleanup_objects hinv hphase cfg.settings o with hsame |
        ⟨fd, reason, hlookup, hreason, hsweep, hclosed⟩
      · have hsame : (((s.beginDrain cfg.settings).cleanup cfg.settings).checkDrain).objects o =
            s.objects o := hsame
        rw [hsame]
        exact .same
      · have hclosed : (((s.beginDrain cfg.settings).cleanup cfg.settings).checkDrain).objects o =
            (s.objects o).close reason := hclosed
        rw [hclosed]
        exact .timedOut fd reason rfl hlookup hreason hsweep
  | work k env t pushed hk htask =>
      -- a task that ends with a response has produced it
      rcases workerTask_pushed htask with rfl | ⟨req', res, -, rfl⟩
      · exact .same
      · by_cases ho : t.conn = o
        · subst ho
          have hself := Function.update_self t.conn
            ({ s.objects t.conn with hist.produced := (s.objects t.conn).hist.produced ++
              [⟨t.serial, t.request, finishResponse env req' res⟩] } : Session) s.objects
          unfold push
          dsimp only [setSession]
          rw [hself]
          exact .pushed k env t _ _ rfl hk rfl htask
        · have hother : (s.push k t [⟨t.fd, t.conn, finishResponse env req' res⟩]).objects o =
              s.objects o := Function.update_of_ne (Ne.symm ho) _ _
          rw [hother]
          exact .same
  | _ => exact .same

theorem rearm_nextObject (s : Server) (fd : Nat) (dir : Direction) (success : Bool) :
    (s.rearm fd dir success).nextObject = s.nextObject := by
  unfold rearm
  split
  · rfl
  · exact closeConnection_nextObject _ _ _

/-- The end of a callback makes no object. -/
theorem conclude_nextObject (s : Server) (fd o : Nat) (x : Session) (success : Bool)
    (outcome : Outcome) : (s.conclude fd o x success outcome).nextObject = s.nextObject := by
  cases outcome with
  | wait => rfl
  | rearm dir => exact rearm_nextObject _ _ _ _
  | close reason => exact closeConnection_nextObject _ _ _
  | reject status => exact rearm_nextObject _ _ _ _
  | handOver request => rfl

/-- Nor does a completion. -/
theorem processCompletion_nextObject (s : Server) (ans : Answers) (c : Completion) :
    (s.processCompletion ans c).nextObject = s.nextObject := by
  unfold processCompletion
  split
  · rfl
  split
  · rfl
  · exact rearm_nextObject _ _ _ _

/-- The end of a batch makes no object. -/
theorem afterBatch_nextObject (s : Server) (settings : Settings) :
    ((s.beginDrain settings).cleanup settings).checkDrain.nextObject = s.nextObject := by
  obtain ⟨draining, deadline, hbegin⟩ := beginDrain_eq s settings
  have hfold : ∀ (es : List (Nat × CloseReason)) (s : Server),
      (es.foldl timeOut s).nextObject = s.nextObject := by
    intro es
    induction es with
    | nil => exact fun _ => rfl
    | cons e es ih => exact fun s => (ih _).trans (closeConnection_nextObject _ _ _)
  have hcleanup : ((s.beginDrain settings).cleanup settings).nextObject = s.nextObject := by
    rw [hbegin]
    unfold cleanup
    split
    · exact hfold _ _
    · rfl
  exact hcleanup

/-- Only a connection that is accepted makes an object. -/
theorem step_nextObject {s s' : Server} {a : Act H} (hstep : step cfg s a = some s') :
    s'.nextObject = s.nextObject ∨ ∃ fd clientIp, a = .accept fd clientIp ∧
      s'.nextObject = s.nextObject + 1 ∧
      s'.objects s.nextObject = .new fd s.now clientIp cfg.tls := by
  cases step_cases hstep with
  | accept fd clientIp hphase hlookup =>
      exact .inr ⟨fd, clientIp, rfl, rfl, Function.update_self _ _ _⟩
  | clientError ans fd dir rest hphase => exact .inl (closeConnection_nextObject _ _ _)
  | client ans fd o dir rest x outcome hphase hlookup hreact =>
      exact .inl (conclude_nextObject _ _ _ _ _ _)
  | complete ans c ready rest hphase => exact .inl (processCompletion_nextObject _ _ _)
  | afterBatch hphase => exact .inl (afterBatch_nextObject _ _)
  | work k env t pushed hk htask =>
      left
      cases pushed with
      | nil => rfl
      | cons item pushed => rfl
  | _ => exact .inl rfl

/-! ## What the connections do not touch -/

/-- A server without its connections, and without the counters other than
`workers_in_flight`. -/
def withoutConnections (s : Server) : Server :=
  { s with
    objects := fun _ => ⟨{}, {}⟩
    nextObject := 0
    connections := ∅
    armed := fun _ => none
    metrics := { workersInFlight := s.metrics.workersInFlight } }

theorem recordStatus_inFlight (m : Metrics) (code : Nat) :
    (m.recordStatus code).workersInFlight = m.workersInFlight := by
  unfold Metrics.recordStatus
  repeat' split
  all_goals rfl

theorem setMetrics_without (s : Server) {m : Metrics}
    (hm : m.workersInFlight = s.metrics.workersInFlight) :
    ({ s with metrics := m } : Server).withoutConnections = s.withoutConnections := by
  unfold withoutConnections
  dsimp only
  rw [hm]

/-- Closing changes the connections and nothing else. -/
theorem closeConnection_without (s : Server) (fd : Nat) (reason : CloseReason) :
    (s.closeConnection fd reason).withoutConnections = s.withoutConnections := by
  unfold closeConnection
  dsimp only
  split
  · rfl
  · rfl

theorem rearm_without (s : Server) (fd : Nat) (dir : Direction) (success : Bool) :
    (s.rearm fd dir success).withoutConnections = s.withoutConnections := by
  unfold rearm
  split
  · rfl
  · exact closeConnection_without _ _ _

theorem timeOut_without (s : Server) (e : Nat × CloseReason) :
    (s.timeOut e).withoutConnections = s.withoutConnections := by
  refine (closeConnection_without _ _ _).trans (setMetrics_without s ?_)
  split
  · exact recordStatus_inFlight _ _
  · rfl

/-- A sweep for timeouts changes the connections and nothing else. -/
theorem enforceTimeouts_without (s : Server) (settings : Settings) :
    (s.enforceTimeouts settings).withoutConnections = s.withoutConnections := by
  rw [enforceTimeouts_eq]
  generalize s.sweepList settings = es
  induction es generalizing s with
  | nil => rfl
  | cons e es ih => exact (ih (s.timeOut e)).trans (timeOut_without s e)

/-- A completion changes the connections and nothing else. -/
theorem processCompletion_without (s : Server) (ans : Answers) (c : Completion) :
    (s.processCompletion ans c).withoutConnections = s.withoutConnections := by
  unfold processCompletion
  split
  · rfl
  split
  · rfl
  · exact rearm_without _ _ _ _

/-- Only a hand-over reaches the pool. -/
theorem conclude_without (s : Server) (fd o : Nat) (x : Session) (success : Bool)
    (outcome : Outcome) :
    (s.conclude fd o x success outcome).withoutConnections = s.withoutConnections ∨
      ∃ t, outcome = .handOver t.request ∧
        (s.conclude fd o x success outcome).withoutConnections =
          { s.withoutConnections with
            tasks := s.tasks ++ [t]
            metrics := { workersInFlight := s.metrics.workersInFlight + 1 } } := by
  cases outcome with
  | wait => exact .inl rfl
  | rearm dir => exact .inl (rearm_without _ _ _ _)
  | close reason => exact .inl (closeConnection_without _ _ _)
  | reject status =>
      left
      refine (rearm_without _ _ _ _).trans (setMetrics_without (s.setSession o x) ?_)
      exact recordStatus_inFlight _ _
  | handOver request => exact .inr ⟨_, rfl, rfl⟩

/-- A conclusion keeps what is neither of the connections nor of the tasks. -/
theorem conclude_frame {α : Type*} (f : Server → α) (hconnections : ∀ s, f s.withoutConnections = f s)
    (htasks : ∀ (s : Server) tasks metrics, f { s with tasks := tasks, metrics := metrics } = f s)
    (s : Server) (fd o : Nat) (x : Session) (success : Bool) (outcome : Outcome) :
    f (s.conclude fd o x success outcome) = f s := by
  rw [← hconnections (s.conclude fd o x success outcome)]
  rcases conclude_without s fd o x success outcome with h | ⟨t, -, h⟩
  · rw [h, hconnections]
  · rw [h, htasks, hconnections]

/-- A sweep changes the connections and the time of the last sweep. -/
theorem cleanup_without (s : Server) (settings : Settings) :
    ∃ last, (s.cleanup settings).withoutConnections =
      { s.withoutConnections with lastCleanup := last } := by
  unfold cleanup
  split
  · have h := enforceTimeouts_without s settings
    exact ⟨s.now, congrArg (fun s' : Server => { s' with lastCleanup := s.now }) h⟩
  · exact ⟨s.lastCleanup, rfl⟩

/-- The end of a batch changes nothing for the workers. -/
theorem afterBatch_without (s : Server) (settings : Settings) :
    ∃ draining deadline last phase,
      ((s.beginDrain settings).cleanup settings).checkDrain.withoutConnections =
        { s.withoutConnections with
          draining := draining
          drainDeadline := deadline
          lastCleanup := last
          phase := phase } := by
  obtain ⟨draining, deadline, hbegin⟩ := beginDrain_eq s settings
  obtain ⟨last, hlast⟩ := cleanup_without (s.beginDrain settings) settings
  refine ⟨draining, deadline, last,
    ((s.beginDrain settings).cleanup settings).checkDrain.phase, ?_⟩
  have hcheck : ((s.beginDrain settings).cleanup settings).checkDrain.withoutConnections =
      { ((s.beginDrain settings).cleanup settings).withoutConnections with
        phase := ((s.beginDrain settings).cleanup settings).checkDrain.phase } := rfl
  rw [hcheck, hlast]
  generalize ((s.beginDrain settings).cleanup settings).checkDrain.phase = phase
  rw [hbegin]
  rfl

/-! ## Time -/

/-- Time does not run backwards. -/
theorem step_now {s s' : Server} {a : Act H} (hstep : step cfg s a = some s') : s.now ≤ s'.now := by
  have hwithout : ∀ {t : Server}, s'.withoutConnections = t.withoutConnections →
      t.now = s.now → s.now ≤ s'.now := by
    intro t h ht
    have hnow := congrArg Server.now h
    have hnow : s'.now = t.now := hnow
    rw [hnow, ht]
  cases step_cases hstep with
  | tick nanos => exact Nat.le_add_right _ _
  | clientError ans fd dir rest hphase =>
      exact hwithout (closeConnection_without { s with phase := .batch rest } fd .ioError) rfl
  | client ans fd o dir rest x outcome hphase hlookup hreact =>
      rw [conclude_frame Server.now (fun _ => rfl) (fun _ _ _ => rfl)]
  | complete ans c ready rest hphase =>
      exact hwithout (processCompletion_without { s with phase := .completing ready rest } ans c)
        rfl
  | afterBatch hphase =>
      obtain ⟨draining, deadline, last, phase, h⟩ := afterBatch_without s cfg.settings
      have hnow := congrArg Server.now h
      exact Nat.le_of_eq (Eq.symm hnow)
  | work k env t pushed hk htask =>
      cases pushed with
      | nil => exact le_rfl
      | cons item pushed => exact le_rfl
  | _ => exact le_rfl

/-- **Properties of the objects in time.** What holds of a new object, stays true as
time passes and is kept by every move holds of every object in every state that is
reached. -/
theorem reached_session_at {ok : Server → Act H → Prop} {J : Nat → Nat → Session → Prop}
    (hlater : ∀ o now now' x, now ≤ now' → J o now x → J o now' x)
    (hnew : ∀ o fd now clientIp, J o now (.new fd now clientIp cfg.tls))
    (hmove : ∀ s a o y, Runs.Reached (serverSystem cfg) ok s → ok s a → o < s.nextObject →
      J o s.now (s.objects o) → Moves cfg s a o y → J o s.now y)
    {s : Server} (h : Runs.Reached (serverSystem cfg) ok s) :
    ∀ o, o < s.nextObject → J o s.now (s.objects o) := by
  apply Runs.Reached.invariant (P := fun s => ∀ o, o < s.nextObject → J o s.now (s.objects o))
    ?_ ?_ h
  · rintro s ⟨now, rfl⟩ o ho
    exact absurd ho (Nat.not_lt_zero _)
  · intro s a s' hs hJ hok hstep o ho
    apply hlater o s.now s'.now _ (step_now hstep)
    have hmoves := step_moves (reachable_inv hs.reachable) hstep o
    rcases step_nextObject hstep with hnext | ⟨fd, clientIp, -, hnext, hobject⟩
    · rw [hnext] at ho
      exact hmove s a o _ hs hok ho (hJ o ho) hmoves
    · rw [hnext] at ho
      rcases Nat.lt_succ_iff_lt_or_eq.1 ho with ho | rfl
      · exact hmove s a o _ hs hok ho (hJ o ho) hmoves
      · rw [hobject]
        exact hnew _ fd s.now clientIp

/-- **Properties of the objects.** What holds of a new object and is kept by every
move holds of every object in every state that is reached. -/
theorem reached_session {ok : Server → Act H → Prop} {J : Nat → Session → Prop}
    (hnew : ∀ o fd now clientIp, J o (.new fd now clientIp cfg.tls))
    (hmove : ∀ s a o y, Runs.Reached (serverSystem cfg) ok s → ok s a → o < s.nextObject →
      J o (s.objects o) → Moves cfg s a o y → J o y)
    {s : Server} (h : Runs.Reached (serverSystem cfg) ok s) :
    ∀ o, o < s.nextObject → J o (s.objects o) :=
  reached_session_at (J := fun o _ x => J o x) (fun _ _ _ _ _ hx => hx) hnew hmove h

/-! ## Steps that go into `dispatch_next` -/

/-- The object of a step that goes into `dispatch_next`, with the answers of the
system and the connection as it is by then. -/
def dispatching (s : Server) : Act H → Option (Nat × Answers × Session)
  | .client ans =>
      match s.phase with
      | .batch (.client fd dir false :: _) =>
          match s.connections.lookup fd with
          | none => none
          | some o =>
              match (s.objects o).handle s.draining s.now ans dir with
              | .dispatch z => some (o, ans, z)
              | .done _ _ => none
      | _ => none
  | _ => none

/-- A callback that dispatches. -/
theorem dispatching_eq {s : Server} {ans : Answers} {fd o : Nat} {dir : Direction}
    {rest : List Event} {z : Session} (hphase : s.phase = .batch (.client fd dir false :: rest))
    (hlookup : s.connections.lookup fd = some o)
    (hhandle : (s.objects o).handle s.draining s.now ans dir = .dispatch z) :
    s.dispatching (.client ans : Act H) = some (o, ans, z) := by
  unfold dispatching
  dsimp only
  rw [hphase]
  dsimp only
  rw [hlookup]
  dsimp only
  rw [hhandle]

end Server

end Oreshnek
