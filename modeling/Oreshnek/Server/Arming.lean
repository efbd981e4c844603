import Oreshnek.Server.Moves

/-!
# Why a socket is armed

A socket stays armed while its connection is left alone. `Arms` lists what arms one,
with the connection as it is by then; `step_arms` says that nothing else does, and
`reached_armed` carries a property of armed connections along a run.
-/

namespace Oreshnek

namespace Server

variable {H : Type} {cfg : Config H}

/-! ## Left alone -/

/-- The connection of a socket is left alone: it is armed as it was. -/
structure Untouched (s s' : Server) (fd o : Nat) : Prop where
  lookup : s.connections.lookup fd = some o
  armed : s'.armedFor fd = s.armedFor fd
  object : s'.objects o = s.objects o

/-- What happens to one connection leaves the others alone. -/
theorem Elsewhere.untouched {s s' : Server} {fd o fd' o' : Nat} (h : Elsewhere s s' fd o)
    (halone : ∀ fd', fd' ≠ fd → s.connections.lookup fd' ≠ some o) (hne : fd' ≠ fd)
    (hlookup : s'.connections.lookup fd' = some o') : Untouched s s' fd' o' := by
  rw [h.lookup fd' hne] at hlookup
  refine ⟨hlookup, ?_, ?_⟩
  · unfold armedFor
    rw [h.armed fd' hne, h.pending fd' hne]
  · exact h.objects o' fun heq => halone fd' hne (heq ▸ hlookup)

theorem rearm_elsewhere {s : Server} {fd o : Nat} (h : s.connections.lookup fd = some o)
    (dir : Direction) (success : Bool) : Elsewhere s (s.rearm fd dir success) fd o := by
  unfold rearm
  split
  · exact arm_elsewhere s fd o (some dir)
  · exact closeConnection_elsewhere h .ioError

/-- The end of a callback touches no other connection. -/
theorem InHand.conclude_elsewhere {s₀ s : Server} {fd o : Nat} (h : InHand s₀ s fd o)
    {x : Session} (hsocket : x.conn.socketFd = (s.objects o).conn.socketFd) (success : Bool)
    (outcome : Outcome) : Elsewhere s₀ (s.conclude fd o x success outcome) fd o := by
  have hset := h.setSession hsocket
  cases outcome with
  | wait => exact hset.elsewhere
  | rearm dir => exact hset.elsewhere.trans (rearm_elsewhere hset.lookup dir success)
  | close reason => exact hset.elsewhere.trans (closeConnection_elsewhere hset.lookup reason)
  | reject status =>
      have hcount := hset.setMetrics (s.metrics.countRejection status)
      exact hcount.elsewhere.trans (rearm_elsewhere hcount.lookup .write success)
  | handOver request =>
      have htask := hset.enqueue (t := ⟨fd, o, x.hist.requests.length - 1, request⟩) rfl
      exact (htask.setMetrics s.metrics.countHandOver).elsewhere

/-! ## Armed again -/

/-- A socket that is armed behind `rearm` has been armed by it, for the object it had. -/
theorem rearm_armedFor {s : Server} {fd o : Nat} {dir dir' : Direction} {success : Bool}
    (hlookup : (s.rearm fd dir success).connections.lookup fd = some o)
    (h : (s.rearm fd dir success).armedFor fd = some dir') :
    dir' = dir ∧ success = true ∧ s.connections.lookup fd = some o := by
  unfold rearm at hlookup h
  split at hlookup
  next hsuccess =>
    rw [if_pos hsuccess] at h
    unfold armedFor arm at h
    dsimp only at h
    rw [Function.update_self] at h
    exact ⟨(Option.some.inj h).symm, hsuccess, hlookup⟩
  · rw [closeConnection_lookup, if_pos rfl] at hlookup
    cases hlookup

/-- What arms the socket `fd` of the object `o`, and for which direction. -/
inductive Arms (cfg : Config H) (s : Server) (a : Act H) (fd o : Nat) :
    Direction → Session → Prop where
  | created (clientIp : Bytes) (ha : a = .accept fd clientIp) :
      Arms cfg s a fd o .read (.new fd s.now clientIp cfg.tls)
  /-- A callback. -/
  | reacted (ans : Answers) (dir : Direction) (rest : List Event) (x : Session)
      (back : Direction) (ha : a = .client ans)
      (hphase : s.phase = .batch (.client fd dir false :: rest))
      (hlookup : s.connections.lookup fd = some o) (hleft : (s.objects o).Left (.rearm dir))
      (hopen : (s.objects o).conn.isOpen = true)
      (hreact : (s.objects o).react s.draining cfg.rateLimited (s.overloaded cfg.settings) s.now
        ans o dir = some (x, .rearm back)) (hrearmed : ans.rearmed = true) :
      Arms cfg s a fd o back x
  /-- A response to be written: an answer on the spot, or one that comes back. -/
  | answered (x : Session) (hwriting : x.Writing) : Arms cfg s a fd o .write x

/-- A callback arms its connection as it says, and no other one. -/
theorem conclude_arms {s : Server} {ans : Answers} {fd o : Nat} {dir : Direction}
    {rest : List Event} {x : Session} {outcome : Outcome} (hinv : s.Inv)
    (hphase : s.phase = .batch (.client fd dir false :: rest))
    (hreact : (s.objects o).react s.draining cfg.rateLimited (s.overloaded cfg.settings) s.now
      ans o dir = some (x, outcome)) (hlookup : s.connections.lookup fd = some o)
    {o' : Nat} {dir' : Direction}
    (hlookup' : (({ s with phase := .batch rest } : Server).conclude fd o x ans.rearmed
      outcome).connections.lookup fd = some o')
    (harmed : (({ s with phase := .batch rest } : Server).conclude fd o x ans.rearmed
      outcome).armedFor fd = some dir') :
    o' = o ∧ Arms cfg s (.client ans) fd o dir' (x.concluded ans.rearmed outcome) := by
  obtain ⟨o'', hsome, hhand, hleft, -, hoff⟩ := hinv.takeEvent hphase
  rw [hlookup] at hsome
  cases hsome
  have hleft' := (Session.react_left hleft hhand.isOpen hreact).1
  cases outcome with
  | wait => exact hleft'.elim
  | rearm back =>
      obtain ⟨rfl, hsuccess, hwas⟩ := rearm_armedFor hlookup' harmed
      have hsame : some o = some o' := hlookup.symm.trans hwas
      refine ⟨(Option.some.inj hsame).symm, ?_⟩
      have hx : x.concluded ans.rearmed (.rearm dir') = x := if_pos hsuccess
      rw [hx]
      exact .reacted ans dir rest x dir' rfl hphase hlookup hleft hhand.isOpen hreact hsuccess
  | close reason =>
      unfold conclude at hlookup'
      dsimp only at hlookup'
      rw [closeConnection_lookup, if_pos rfl] at hlookup'
      cases hlookup'
  | reject status =>
      obtain ⟨rfl, hsuccess, hwas⟩ := rearm_armedFor hlookup' harmed
      have hsame : some o = some o' := hlookup.symm.trans hwas
      refine ⟨(Option.some.inj hsame).symm, ?_⟩
      have hx : x.concluded ans.rearmed (.reject status) = x := if_pos hsuccess
      rw [hx]
      exact .answered x hleft'
  | handOver request =>
      -- the socket of a request that is handed over stays unarmed
      have hnone : (({ s with phase := .batch rest } : Server).conclude fd o x ans.rearmed
          (.handOver request)).armedFor fd = none := by
        have hpending := hhand.pending
        unfold armedFor conclude setSession
        dsimp only at hpending ⊢
        rw [hoff, hpending]
        rfl
      rw [hnone] at harmed
      cases harmed

/-- A completed response is dropped, or installed on its own connection. -/
theorem processCompletion_cases (s : Server) (ans : Answers) (c : Completion) :
    s.processCompletion ans c = s ∨ (s.connections.lookup c.item.fd = some c.item.conn ∧
      s.processCompletion ans c =
        (s.setSession c.item.conn ((s.objects c.item.conn).workerDone.install s.now ans c.serial
          c.item.conn false c.item.response)).rearm c.item.fd .write ans.rearmed) := by
  unfold processCompletion
  split
  case h_1 => exact .inl rfl
  case h_2 o hlookup =>
    split
    case isTrue => exact .inl rfl
    case isFalse hown =>
      rw [not_or, not_ne_iff, not_not] at hown
      obtain ⟨rfl, -⟩ := hown
      exact .inr ⟨hlookup, rfl⟩

/-- A response that comes back arms its connection for writing. -/
theorem complete_arms {s : Server} (hinv : s.Inv) {ans : Answers} {c : Completion}
    {ready : List Completion} {rest : List Event}
    (hphase : s.phase = .completing (c :: ready) rest) {fd o : Nat} {dir : Direction} {s' : Server}
    (hs' : ({ s with phase := .completing ready rest } : Server).processCompletion ans c = s')
    (hlookup : s'.connections.lookup fd = some o) (harmed : s'.armedFor fd = some dir) :
    Untouched s s' fd o ∨ Arms cfg s (.complete ans) fd o dir (s'.objects o) := by
  have hrest : s.phase.rest = rest := by
    rw [hphase]
    rfl
  have hfor : ∀ fd, ({ s with phase := .completing ready rest } : Server).armedFor fd =
      s.armedFor fd := by
    intro fd
    unfold armedFor
    rw [hrest]
    rfl
  rcases processCompletion_cases ({ s with phase := .completing ready rest } : Server) ans c with
    hdropped | ⟨hserved, hinstalled⟩
  · -- no connection takes the response
    have hs'' := hs'.symm.trans hdropped
    subst hs''
    exact .inl ⟨hlookup, hfor fd, rfl⟩
  · have hs'' := hs'.symm.trans hinstalled
    have hserved : s.connections.lookup c.item.fd = some c.item.conn := hserved
    generalize ht : ({ s with phase := .completing ready rest } : Server).setSession
      c.item.conn ((s.objects c.item.conn).workerDone.install s.now ans c.serial c.item.conn
        false c.item.response) = t at hs''
    have hconnections : t.connections = s.connections := by
      rw [← ht]
      rfl
    have hself : t.objects c.item.conn = (s.objects c.item.conn).workerDone.install s.now ans
        c.serial c.item.conn false c.item.response := by
      rw [← ht]
      exact Function.update_self _ _ _
    have harm : ∀ fd, t.armedFor fd = s.armedFor fd := by
      intro fd
      rw [← hfor fd, ← ht]
      rfl
    by_cases hne : fd = c.item.fd
    · -- the socket of the response
      subst hne
      rw [hs''] at hlookup harmed ⊢
      obtain ⟨rfl, hsuccess, hsame⟩ := rearm_armedFor hlookup harmed
      unfold rearm
      rw [if_pos hsuccess]
      rw [hconnections, hserved] at hsame
      obtain rfl := Option.some.inj hsame
      right
      obtain ⟨hhanded, -⟩ := hinv.arrival hphase hserved
      have hwriting := Session.install_writing (x := (s.objects c.item.conn).workerDone)
        hhanded.processing rfl hhanded.answered hhanded.finished hhanded.secured s.now ans
        c.serial c.item.conn false c.item.response
      rw [← hself] at hwriting
      exact .answered _ hwriting
    · -- another socket
      have hother : Elsewhere t s' c.item.fd c.item.conn := by
        rw [hs'']
        exact rearm_elsewhere (hconnections ▸ hserved) .write ans.rearmed
      have huntouched := hother.untouched (hconnections ▸ hinv.alone hserved) hne hlookup
      have hwas := huntouched.lookup
      rw [hconnections] at hwas
      refine .inl ⟨hwas, huntouched.armed.trans (harm fd), huntouched.object.trans ?_⟩
      rw [← ht]
      refine Function.update_of_ne ?_ _ _
      rintro rfl
      exact hinv.alone hserved fd hne hwas

/-- A sweep leaves the other sockets armed as they are. -/
theorem foldl_timeOut_armed (es : List (Nat × CloseReason)) (s : Server) (fd : Nat)
    (h : fd ∉ es.map Prod.fst) : (es.foldl timeOut s).armed fd = s.armed fd := by
  induction es generalizing s with
  | nil => rfl
  | cons e es ih =>
      rw [List.map_cons, List.mem_cons, not_or] at h
      rw [List.foldl_cons, ih _ h.2]
      have harmed := congrFun (closeConnection_armed { s with
        metrics := if e.2 = .handlerTimeout then s.metrics.countTimeout else s.metrics } e.1 e.2) fd
      exact harmed.trans (Function.update_of_ne h.1 _ _)

/-- A connection that stays through the sweep is left alone. -/
theorem afterBatch_untouched {s : Server} (hinv : s.Inv) (hphase : s.phase = .batch [])
    {settings : Settings} {fd o : Nat}
    (hlookup : ((s.beginDrain settings).cleanup settings).checkDrain.connections.lookup fd =
      some o) : Untouched s ((s.beginDrain settings).cleanup settings).checkDrain fd o := by
  have hrest : s.phase.rest = [] := by
    rw [hphase]
    rfl
  have hpending := (checkDrain_phase ((s.beginDrain settings).cleanup settings)).1
  obtain ⟨draining, deadline, hbegin⟩ := beginDrain_eq s settings
  change ((s.beginDrain settings).cleanup settings).connections.lookup fd = some o at hlookup
  have harmed : ∀ h : ((s.beginDrain settings).cleanup settings).armed fd = s.armed fd,
      ((s.beginDrain settings).cleanup settings).checkDrain.armedFor fd = s.armedFor fd := by
    intro h
    unfold armedFor
    rw [hpending, hrest]
    exact congrArg (fun armed => Option.or armed none) h
  rcases cleanup_cases s settings with ⟨-, hcleanup⟩ | ⟨-, hcleanup⟩
  · rw [hcleanup] at hlookup
    obtain ⟨hwas, hstays⟩ := (enforceTimeouts_lookup _ settings fd o).1 hlookup
    -- the sweep does not name a connection that stays
    have hfree : fd ∉ ((s.beginDrain settings).sweepList settings).map Prod.fst := by
      intro hmem
      obtain ⟨⟨fd', reason⟩, hentry, rfl⟩ := List.mem_map.1 hmem
      obtain ⟨o', hlookup', hreason⟩ := mem_sweepList.1 hentry
      rw [hwas] at hlookup'
      cases hlookup'
      rw [hstays] at hreason
      cases hreason
    have hserved : s.connections.lookup fd = some o := by
      rw [hbegin] at hwas
      exact hwas
    refine ⟨hserved, harmed ?_, ?_⟩
    · rw [hcleanup]
      refine (foldl_timeOut_armed _ _ fd hfree).trans ?_
      rw [hbegin]
    · rcases cleanup_objects hinv hphase settings o with hsame | ⟨fd', reason, hfd', hreason, -⟩
      · exact hsame
      · rw [hbegin] at hstays
        rw [hstays] at hreason
        cases hreason
  · -- no sweep in this iteration
    rw [hcleanup, hbegin] at hlookup
    refine ⟨hlookup, harmed ?_, ?_⟩
    · rw [hcleanup, hbegin]
    · change ((s.beginDrain settings).cleanup settings).objects o = s.objects o
      rw [hcleanup, hbegin]

/-- A reported socket counts as armed in the direction of its event, as it was. -/
theorem poll_untouched {s : Server} {events : List Event} (hphase : s.phase = .waiting)
    (hreports : s.Reports events) {fd o : Nat} (hlookup : s.connections.lookup fd = some o) :
    Untouched s { s.disarm events with phase := .batch events } fd o := by
  refine ⟨hlookup, ?_, rfl⟩
  have hwas : ∀ fd', pendingDirection s.phase.rest fd' = none := by
    intro fd'
    rw [hphase]
    rfl
  unfold armedFor
  rw [hwas]
  by_cases hmem : Source.socket fd ∈ events.map Event.source
  · obtain ⟨dir', hdir⟩ := pendingDirection_isSome hmem
    obtain ⟨error, hevent⟩ := pendingDirection_eq_some hdir
    have harm : s.armed fd = some dir' := hreports.2.2 _ hevent
    rw [harm]
    unfold disarm
    dsimp only
    rw [if_pos hmem]
    exact hdir
  · have hnone := pendingDirection_of_notMem hmem
    unfold disarm
    dsimp only
    rw [if_neg hmem]
    exact congrArg _ hnone

/-- A new connection is armed for reading, and no other one is touched. -/
theorem accept_arms {s : Server} (hinv : s.Inv) {fd' : Nat} {clientIp : Bytes} {fd o : Nat}
    {dir : Direction} (hlookup : (s.accept fd' clientIp cfg.tls).connections.lookup fd = some o)
    (harmed : (s.accept fd' clientIp cfg.tls).armedFor fd = some dir) :
    Untouched s (s.accept fd' clientIp cfg.tls) fd o ∨
      Arms cfg s (.accept fd' clientIp) fd o dir ((s.accept fd' clientIp cfg.tls).objects o) := by
  by_cases hne : fd = fd'
  · subst hne
    have hself : (s.accept fd clientIp cfg.tls).connections.lookup fd = some s.nextObject :=
      AList.lookup_insert _
    rw [hself] at hlookup
    obtain rfl := Option.some.inj hlookup
    have hread : (s.accept fd clientIp cfg.tls).armedFor fd = some .read := by
      unfold armedFor accept arm
      dsimp only
      rw [Function.update_self]
      rfl
    rw [hread] at harmed
    obtain rfl := Option.some.inj harmed
    have hobject : (s.accept fd clientIp cfg.tls).objects s.nextObject =
        .new fd s.now clientIp cfg.tls := Function.update_self _ _ _
    rw [hobject]
    exact .inr (.created clientIp rfl)
  · have hwas : s.connections.lookup fd = some o := by
      have hother : (s.accept fd' clientIp cfg.tls).connections.lookup fd =
          s.connections.lookup fd := AList.lookup_insert_ne hne
      rw [← hother]
      exact hlookup
    refine .inl ⟨hwas, ?_, ?_⟩
    · unfold armedFor accept arm
      dsimp only
      rw [Function.update_of_ne hne]
      rfl
    · exact Function.update_of_ne (Nat.ne_of_lt (hinv.serves fd o hwas).1) _ _

/-- A worker pushes its response for an object whose socket is not armed. -/
theorem push_untouched {s : Server} (hinv : s.Inv) {k : Nat} {t : Task}
    (hk : s.running[k]? = some ⟨.working, t⟩) {pushed : List CompletedResponse} {fd o : Nat}
    {dir : Direction} (hlookup : (s.push k t pushed).connections.lookup fd = some o)
    (harmed : (s.push k t pushed).armedFor fd = some dir) :
    Untouched s (s.push k t pushed) fd o := by
  cases pushed with
  | nil => exact ⟨hlookup, rfl, rfl⟩
  | cons item pushed =>
      have hlookup : s.connections.lookup fd = some o := hlookup
      have harmed : s.armedFor fd = some dir := harmed
      obtain ⟨-, -, hmode⟩ := hinv.serves fd o hlookup
      rw [harmed] at hmode
      refine ⟨hlookup, rfl, Function.update_of_ne ?_ _ _⟩
      rintro rfl
      have hmem : t.ticket ∈ s.tickets t.conn := by
        unfold tickets outstanding
        rw [Multiset.mem_filter]
        refine ⟨?_, rfl⟩
        rw [Multiset.mem_coe]
        simp only [List.mem_append, List.mem_filterMap]
        exact .inl (.inl (.inr ⟨_, List.mem_of_getElem? hk, rfl⟩))
      rw [hmode.2] at hmem
      exact absurd hmem (Multiset.notMem_zero _)

/-- **Why a socket is armed.** Behind a step it is armed as it was, on a connection
that has been left alone, or by one of `Arms`. -/
theorem step_arms {s s' : Server} {a : Act H} (hinv : s.Inv) (hstep : step cfg s a = some s')
    {fd o : Nat} {dir : Direction} (hlookup : s'.connections.lookup fd = some o)
    (harmed : s'.armedFor fd = some dir) :
    Untouched s s' fd o ∨ Arms cfg s a fd o dir (s'.objects o) := by
  -- a step that only moves the phase on
  have hpass : s'.connections = s.connections → s'.objects = s.objects → s'.armed = s.armed →
      (∀ fd, pendingDirection s'.phase.rest fd = pendingDirection s.phase.rest fd) →
      Untouched s s' fd o := by
    intro hconnections hobjects hsockets hpending
    refine ⟨hconnections ▸ hlookup, ?_, congrFun hobjects o⟩
    unfold armedFor
    rw [hsockets, hpending]
  cases step_cases hstep with
  | tick => exact .inl (hpass rfl rfl rfl fun _ => rfl)
  | poll events hphase hreports =>
      exact .inl (poll_untouched hphase hreports hlookup)
  | pollFailed hphase =>
      exact .inl (hpass rfl rfl rfl fun _ => by rw [hphase]; rfl)
  | enterPipe hphase => exact .inl (hpass rfl rfl rfl fun _ => by rw [hphase]; rfl)
  | enterListener hphase => exact .inl (hpass rfl rfl rfl fun _ => by rw [hphase]; rfl)
  | clientError ans fd' dir' rest hphase =>
      obtain ⟨o', hlookup', hhand, -⟩ := hinv.takeEvent hphase
      have hne : fd ≠ fd' := by
        rintro rfl
        rw [closeConnection_lookup, if_pos rfl] at hlookup
        cases hlookup
      have hother := hhand.elsewhere.trans (closeConnection_elsewhere hhand.lookup .ioError)
      exact .inl (hother.untouched hhand.alone hne hlookup)
  | clientGone hphase hgone =>
      obtain ⟨o', hsome, -⟩ := hinv.takeEvent hphase
      rw [hgone] at hsome
      cases hsome
  | client ans fd' o' dir' rest x outcome hphase hlookup' hreact =>
      obtain ⟨o'', hsome, hhand, hleft, -⟩ := hinv.takeEvent hphase
      rw [hlookup'] at hsome
      cases hsome
      by_cases hne : fd = fd'
      · subst hne
        obtain ⟨rfl, harms⟩ := conclude_arms hinv hphase hreact hlookup' hlookup harmed
        right
        have hobjects := conclude_objects (s := { s with phase := .batch rest }) hlookup' x
          ans.rearmed outcome
        rw [hobjects, Function.update_self]
        exact harms
      · have hsocket := (Session.react_left hleft hhand.isOpen hreact).2
        have hother := hhand.conclude_elsewhere hsocket.1 ans.rearmed outcome
        exact .inl (hother.untouched hhand.alone hne hlookup)
  | accept fd' clientIp hphase hfree => exact accept_arms hinv hlookup harmed
  | acceptEnd hphase => exact .inl (hpass rfl rfl rfl fun _ => by rw [hphase]; rfl)
  | drainRead => exact .inl (hpass rfl rfl rfl fun _ => rfl)
  | drainEnd hphase => exact .inl (hpass rfl rfl rfl fun _ => by rw [hphase]; rfl)
  | swap hphase => exact .inl (hpass rfl rfl rfl fun _ => by rw [hphase]; rfl)
  | complete ans c ready rest hphase => exact complete_arms hinv hphase rfl hlookup harmed
  | completeEnd hphase => exact .inl (hpass rfl rfl rfl fun _ => by rw [hphase]; rfl)
  | afterBatch hphase => exact .inl (afterBatch_untouched hinv hphase hlookup)
  | take => exact .inl (hpass rfl rfl rfl fun _ => rfl)
  | work k env t pushed hk htask => exact .inl (push_untouched hinv hk hlookup harmed)
  | notify => exact .inl (hpass rfl rfl rfl fun _ => rfl)
  | exit => exact .inl (hpass rfl rfl rfl fun _ => rfl)
  | requestStop => exact .inl (hpass rfl rfl rfl fun _ => rfl)
  | stopNotify => exact .inl (hpass rfl rfl rfl fun _ => rfl)

/-- The socket of an event that is looked at counts as armed for it. -/
theorem Inv.reported {s : Server} (hinv : s.Inv) {fd : Nat} {dir : Direction} {error : Bool}
    {rest : List Event} (hphase : s.phase = .batch (.client fd dir error :: rest)) :
    s.armedFor fd = some dir := by
  have hpending : pendingDirection s.phase.rest fd = some dir := by
    rw [hphase]
    exact if_pos rfl
  have hoff : s.armed fd = none := hinv.off fd (by rw [hpending]; simp)
  unfold armedFor
  rw [hoff, hpending]
  rfl

/-- **Properties of armed connections.** What holds of a connection whenever its
socket is armed anew holds of every connection with an armed socket, in every state
that is reached. -/
theorem reached_armed {ok : Server → Act H → Prop} {P : Session → Direction → Prop}
    (harms : ∀ s a fd o dir x, Runs.Reached (serverSystem cfg) ok s → ok s a →
      (∀ fd o dir, s.connections.lookup fd = some o → s.armedFor fd = some dir →
        P (s.objects o) dir) →
      Arms cfg s a fd o dir x → P x dir)
    {s : Server} (h : Runs.Reached (serverSystem cfg) ok s) :
    ∀ fd o dir, s.connections.lookup fd = some o → s.armedFor fd = some dir →
      P (s.objects o) dir := by
  apply Runs.Reached.invariant (P := fun s => ∀ fd o dir, s.connections.lookup fd = some o →
    s.armedFor fd = some dir → P (s.objects o) dir) ?_ ?_ h
  · rintro s ⟨now, rfl⟩ fd o dir hlookup
    cases hlookup
  · intro s a s' hs hP hok hstep fd o dir hlookup harmed
    rcases step_arms (reachable_inv hs.reachable) hstep hlookup harmed with hsame | harm
    · rw [hsame.object]
      exact hP fd o dir hsame.lookup (hsame.armed ▸ harmed)
    · exact harms s a fd o dir _ hs hok hP harm

end Server

end Oreshnek
