import Oreshnek.Server.Clocks

/-!
# The read timeout

`enforce_timeouts` measures the read timeout from `last_activity_`, and not from the
arrival of the first byte of the request that is being waited for. `read_deadline` says
when this is no difference: as long as no request is left incomplete with a clock that
was refreshed after its first byte had arrived (`arrivesAtOnce`).
-/

namespace Oreshnek

/-- The parser takes nothing off the buffer. -/
theorem Inbound.parseNext_length {c c' : Inbound} {b : Bool} {n : Nat}
    (h : c.parseNext = some (b, n, c')) : c'.readBuffer.length = c.readBuffer.length := by
  unfold parseNext at h
  split at h
  · cases h
    rfl
  split at h
  · cases h
  next r hr =>
    have hsize := (parseRequest_consumed hr).1
    split at h
    · cases h
      exact hsize
    · cases h
      exact hsize

namespace Connection

/-- Reading does not shorten the buffer. -/
theorem sslReadLoop_grows (answers : List SslRead) (c : Connection) (total : Nat)
    (last : Option SslRead) :
    c.readBuffer.length ≤ (sslReadLoop answers c total last).1.readBuffer.length := by
  fun_induction sslReadLoop answers c total last with
  | case2 c total last space hspace first rest answers bytes ih =>
      refine Nat.le_trans ?_ ih
      rw [List.length_append]
      exact Nat.le_add_right _ _
  | _ => exact le_rfl

/-- A read takes nothing off the buffer. -/
theorem readData_grows (c : Connection) (now : Nat) (recv : RecvResult) (ssl : List SslRead) :
    c.readBuffer.length ≤ (c.readData now recv ssl).2.1.readBuffer.length := by
  unfold readData
  split
  · exact le_rfl
  dsimp only
  split
  · exact le_rfl
  split
  · have hloop := sslReadLoop_grows ssl c 0 none
    split
    · exact hloop
    · exact hloop
    · split
      · exact hloop
      · exact hloop
  · cases recv with
    | data first rest =>
        dsimp only [updateActivity]
        rw [List.length_append]
        exact Nat.le_add_right _ _
    | closed => exact le_rfl
    | wouldBlock => exact le_rfl
    | failed => exact le_rfl

end Connection

namespace Session

/-! ## One connection -/

/-- The times of arrival are those of the bytes in the buffer. -/
def Aligned (x : Session) : Prop := x.hist.arrivals.length = x.conn.readBuffer.length

/-- What a read adds has its time of arrival. -/
theorem Aligned.read {x : Session} (h : x.Aligned) (now : Nat) (ans : Answers) :
    (x.afterRead now ans).Aligned := by
  have hgrows := Connection.readData_grows x.conn now ans.recv ans.sslRead
  have harrivals : (x.afterRead now ans).hist.arrivals = x.hist.arrivals ++ List.replicate
      ((x.conn.readData now ans.recv ans.sslRead).2.1.readBuffer.length -
        x.conn.readBuffer.length) now := rfl
  have hconn : (x.afterRead now ans).conn = (x.conn.readData now ans.recv ans.sslRead).2.1 := rfl
  unfold Aligned at h ⊢
  rw [harrivals, hconn, List.length_append, List.length_replicate]
  omega

theorem Aligned.parse {x : Session} (h : x.Aligned) {b : Bool} {n : Nat} {inb : Inbound}
    (hparse : x.conn.toInbound.parseNext = some (b, n, inb)) : (x.parsed inb).Aligned := by
  have hlength := Inbound.parseNext_length hparse
  unfold Aligned at h ⊢
  exact h.trans hlength.symm

theorem Aligned.take {x : Session} (h : x.Aligned) (consumed : Nat) :
    (x.takeRequest consumed).Aligned := by
  unfold Aligned at h ⊢
  unfold takeRequest
  dsimp only
  rw [Inbound.consume_buffer, List.length_drop, List.length_drop, h]

/-- A handshake leaves the buffer. -/
theorem Aligned.shake {x : Session} (h : x.Aligned) (now : Nat) (ans : Answers) :
    (x.shake now ans).Aligned := by
  obtain ⟨done, want, last, hconn⟩ := handshake_outside x.conn now ans.accept
  have hbuffer := congrArg (fun c : Connection => c.readBuffer) hconn
  have hbuffer : (x.shake now ans).conn.readBuffer = x.conn.readBuffer := hbuffer
  unfold Aligned at h ⊢
  rw [hbuffer]
  exact h

theorem Aligned.enter {x z : Session} {now : Nat} {ans : Answers} (h : x.Aligned)
    (hz : Entered x now ans z) : z.Aligned := by
  cases hz with
  | plain => exact h
  | shaken => exact h.shake now ans

/-- So does a write. -/
theorem Aligned.write {x : Session} (h : x.Aligned) (now : Nat) (ans : Answers) :
    (x.afterWrite now ans).Aligned := by
  have hbuffer := congrArg (fun c : Connection => c.readBuffer) (x.afterWrite_outside now ans)
  have hbuffer : (x.afterWrite now ans).conn.readBuffer = x.conn.readBuffer := hbuffer
  unfold Aligned at h ⊢
  rw [hbuffer]
  exact h

/-- A response that is installed leaves the buffer. -/
theorem Aligned.install {x : Session} (h : x.Aligned) (now : Nat) (ans : Answers)
    (serial madeFor : Nat) (inline : Bool) (res : HttpResponse) :
    (x.install now ans serial madeFor inline res).Aligned := by
  have hbuffer := congrArg (fun c : Connection => c.readBuffer)
    (x.install_outside now ans serial madeFor inline res)
  have hbuffer : (x.install now ans serial madeFor inline res).conn.readBuffer =
      x.conn.readBuffer := hbuffer
  unfold Aligned at h ⊢
  rw [hbuffer]
  exact h

/-- Nothing is read during the handshake, and while a request is waited for the clock
has not been refreshed since the first byte of it arrived. -/
structure Dated (x : Session) : Prop where
  aligned : x.Aligned
  shaking : x.Secured ∨ x.conn.readBuffer = []
  unrefreshed : x.conn.isOpen = true → x.conn.processing = false →
    ∀ t, x.hist.arrivals.head? = some t → x.conn.lastActivity ≤ t

/-- A closed connection is dated. -/
theorem Aligned.close {x : Session} (h : x.Aligned) (reason : CloseReason) :
    (x.close reason).Dated where
  aligned := h
  shaking := by
    left
    intro htls
    cases htls
  unrefreshed := by
    intro hopen
    cases hopen

/-- A request is in flight. -/
theorem Aligned.inFlight {x : Session} (h : x.Aligned) (hsecured : x.Secured)
    (hprocessing : x.conn.processing = true) : x.Dated := by
  refine ⟨h, .inl hsecured, fun _ hidle => ?_⟩
  cases hprocessing.symm.trans hidle

/-- The end of a callback leaves a connection dated. -/
theorem Dated.conclude {x : Session} {outcome : Outcome} (haligned : x.Aligned)
    (h : (∀ reason, outcome ≠ .close reason) → x.Dated) (success : Bool) :
    (x.concluded success outcome).Dated := by
  rcases x.concluded_cases success outcome with ⟨hsame, hother⟩ | ⟨reason, hclosed, -⟩
  · rw [hsame]
    exact h hother
  · rw [hclosed]
    exact haligned.close reason

/-- A new connection is dated. -/
theorem new_dated (fd now : Nat) (clientIp : Bytes) (tls : Bool) :
    (Session.new fd now clientIp tls).Dated where
  aligned := rfl
  shaking := .inr rfl
  unrefreshed := by
    intro _ _ t ht
    cases ht

end Session

namespace Server

variable {H : Type} {cfg : Config H}

/-! ## Runs -/

/-- A request that `dispatch_next` finds incomplete in this step has had no refresh of
the clock since its first byte arrived. -/
def arrivesAtOnce (s : Server) (a : Act H) : Bool :=
  match s.dispatching a with
  | none => true
  | some (_, _, z) =>
      match z.conn.toInbound.parseNext with
      | some (false, _, _) =>
          match z.hist.arrivals with
          | [] => true
          | first :: _ => decide (z.conn.lastActivity ≤ first)
      | _ => true

/-- The condition of the run, at the step that leaves an incomplete request in the buffer. -/
theorem arrivesAtOnce_waits {s : Server} {a : Act H} (h : arrivesAtOnce s a = true) {o n : Nat}
    {ans : Answers} {z : Session} (hz : s.dispatching a = some (o, ans, z)) {inb : Inbound}
    (hparse : z.conn.toInbound.parseNext = some (false, n, inb)) {t : Nat}
    (ht : z.hist.arrivals.head? = some t) : z.conn.lastActivity ≤ t := by
  unfold arrivesAtOnce at h
  rw [hz] at h
  dsimp only at h
  rw [hparse] at h
  dsimp only at h
  cases harrivals : z.hist.arrivals with
  | nil =>
      rw [harrivals] at ht
      cases ht
  | cons first rest =>
      rw [harrivals] at h ht
      cases ht
      exact of_decide_eq_true h

/-- Nor does a callback: what it reads arrives at its own time, and what it takes leaves with
the request. -/
theorem react_dated {s : Server} {ans : Answers}
    (hok : arrivesAtOnce s (.client ans : Act H) = true) {fd o : Nat} {dir : Direction}
    {rest : List Event} {x : Session} {outcome : Outcome}
    (hx : (s.objects o).Dated) (hphase : s.phase = .batch (.client fd dir false :: rest))
    (hlookup : s.connections.lookup fd = some o) (hleft : (s.objects o).Left (.rearm dir))
    (hopen : (s.objects o).conn.isOpen = true)
    (hreact : (s.objects o).react s.draining cfg.rateLimited (s.overloaded cfg.settings) s.now
      ans o dir = some (x, outcome)) (success : Bool) : (x.concluded success outcome).Dated := by
  have hafter := (Session.react_left hleft hopen hreact).1
  rcases Session.react_cases hleft hopen hreact with
    hhandle | ⟨z, hz, hhandle, hready, hdispatch⟩
  · cases hhandle with
    | shaken dir outcome htls hdone =>
        have haligned := hx.aligned.shake s.now ans
        refine Session.Dated.conclude haligned (fun _ => ?_) success
        -- nothing has been read so far
        have hbuffer : (s.objects o).conn.readBuffer = [] := by
          refine hx.shaking.resolve_left fun hsecured => ?_
          cases hdone.symm.trans (hsecured htls)
        have hnone : (s.objects o).hist.arrivals = [] := by
          have haligned := hx.aligned
          unfold Session.Aligned at haligned
          rw [hbuffer] at haligned
          exact List.eq_nil_of_length_eq_zero haligned
        refine ⟨haligned, .inr ?_, fun _ _ t ht => ?_⟩
        · obtain ⟨done, want, last, hconn⟩ :=
            Session.handshake_outside (s.objects o).conn s.now ans.accept
          have hsame := congrArg (fun c : Connection => c.readBuffer) hconn
          exact Eq.trans hsame hbuffer
        · have ht : (s.objects o).hist.arrivals.head? = some t := ht
          rw [hnone] at ht
          cases ht
    | readEnd reason hz =>
        -- the connection is closed
        exact Session.Dated.conclude ((hx.aligned.enter hz).read s.now ans)
          (fun hno => absurd rfl (hno reason)) success
    | wrote outcome houtcome =>
        -- while a response is being written no request is waited for
        have haligned := hx.aligned.write s.now ans
        refine Session.Dated.conclude haligned (fun hno => ?_) success
        rcases houtcome with rfl | ⟨rfl, hdata⟩
        · exact absurd rfl (hno _)
        · rcases hafter with hwriting | ⟨hidle, -⟩
          · exact haligned.inFlight hwriting.secured hwriting.processing
          · cases hdata.symm.trans hidle.noData
    | finished hret hdata =>
        have haligned : ((s.objects o).afterWrite s.now ans).complete.Aligned :=
          hx.aligned.write s.now ans
        exact Session.Dated.conclude haligned (fun hno => absurd rfl (hno _)) success
  · have haligned : z.Aligned := by
      cases hhandle with
      | read hentered => exact (hx.aligned.enter hentered).read s.now ans
      | reused => exact hx.aligned.write s.now ans
    have hsecured : z.Secured := by
      have hflow := Session.handle_sound hleft hopen s.draining s.now ans
      rw [hz] at hflow
      exact hflow.2.1
    have hdispatching := dispatching_eq (H := H) hphase hlookup hz
    -- a request is taken, and answered on the spot or handed over
    have htaken : ∀ {consumed inb}, z.conn.toInbound.parseNext = some (true, consumed, inb) →
        ((z.parsed inb).takeRequest consumed).Aligned :=
      fun hparse => (haligned.parse hparse).take _
    cases hdispatch with
    | limited consumed inb hparse =>
        have hwriting : ((z.parsed inb).reject s.now ans o consumed _).Writing := hafter
        have haligned := Session.Aligned.install (x := (z.parsed inb).answering consumed
          Session.tooManyRequests) (htaken hparse) s.now ans z.hist.requests.length o true
          Session.tooManyRequests
        exact Session.Dated.conclude haligned
          (fun _ => haligned.inFlight hwriting.secured hwriting.processing) success
    | shed consumed inb hparse =>
        have hwriting : ((z.parsed inb).reject s.now ans o consumed _).Writing := hafter
        have haligned := Session.Aligned.install (x := (z.parsed inb).answering consumed
          Session.serviceUnavailable) (htaken hparse) s.now ans z.hist.requests.length o true
          Session.serviceUnavailable
        exact Session.Dated.conclude haligned
          (fun _ => haligned.inFlight hwriting.secured hwriting.processing) success
    | handedOver consumed inb hparse =>
        have hhanded : ((z.parsed inb).handOver s.now consumed).HandedOver := hafter
        have haligned : ((z.parsed inb).handOver s.now consumed).Aligned := htaken hparse
        exact haligned.inFlight hhanded.secured hhanded.processing
    | bad n inb hparse => exact (haligned.parse hparse).close .badRequest
    | waits n inb hparse =>
        obtain ⟨b, hconn⟩ := Session.await_conn (z.parsed inb) ans
        have haligned : ((z.parsed inb).await ans).Aligned := by
          have hparsed := haligned.parse hparse
          unfold Session.Aligned at hparsed ⊢
          rw [hconn]
          exact hparsed
        refine Session.Dated.conclude haligned (fun _ => ⟨haligned, .inl ?_, ?_⟩) success
        · unfold Session.Secured
          rw [hconn]
          exact hsecured
        · intro _ _ t ht
          rw [hconn]
          exact arrivesAtOnce_waits hok hdispatching hparse ht

/-- While a request is waited for, no move refreshes the clock behind the arrival of its first
byte. -/
theorem moves_dated {s : Server} {a : Act H} {o : Nat} {y : Session}
    (hok : arrivesAtOnce s a = true) (hx : (s.objects o).Dated) (h : Moves cfg s a o y) :
    y.Dated := by
  cases h with
  | same => exact hx
  | created fd clientIp ha ho => exact Session.new_dated fd s.now clientIp cfg.tls
  | failed => exact hx.aligned.close .ioError
  | reacted ans fd dir rest x outcome ha hphase hlookup hleft hopen hreact =>
      subst ha
      exact react_dated hok hx hphase hlookup hleft hopen hreact ans.rearmed
  | completed ans c ready rest ha hphase hconn hlookup hhanded hserial =>
      have hdone : (s.objects o).workerDone.Aligned := hx.aligned
      have haligned := hdone.install s.now ans c.serial o false c.item.response
      have hwriting := Session.install_writing (x := (s.objects o).workerDone) hhanded.processing
        rfl hhanded.answered hhanded.finished hhanded.secured s.now ans c.serial o false
        c.item.response
      exact Session.Dated.conclude haligned
        (fun _ => haligned.inFlight hwriting.secured hwriting.processing) ans.rearmed
  | timedOut fd reason ha hlookup hreason => exact hx.aligned.close reason
  | pushed => exact ⟨hx.aligned, hx.shaking, hx.unrefreshed⟩

/-- The connections behind a sweep have not timed out. -/
theorem afterBatch_survivor {s s' : Server} (hinv : s.Inv)
    (hstep : step cfg s .afterBatch = some s') (hsweep : sweeps cfg.settings s = true) {fd o : Nat}
    (hlookup : s'.connections.lookup fd = some o) :
    s.connections.lookup fd = some o ∧ s'.objects o = s.objects o ∧
      timeoutOf cfg.settings s.now (s.objects o).conn = none := by
  obtain ⟨draining, deadline, hbegin⟩ := beginDrain_eq s cfg.settings
  have hcleanup : (s.beginDrain cfg.settings).cleanup cfg.settings =
      { (s.beginDrain cfg.settings).enforceTimeouts cfg.settings with lastCleanup := s.now } := by
    rcases cleanup_cases s cfg.settings with ⟨-, hcleanup⟩ | ⟨hrest, -⟩
    · exact hcleanup
    · cases hsweep.symm.trans hrest
  cases step_cases hstep with
  | afterBatch hphase =>
      have hfd : ((s.beginDrain cfg.settings).enforceTimeouts cfg.settings).connections.lookup fd =
          some o := by
        have hlookup : ((s.beginDrain cfg.settings).cleanup cfg.settings).connections.lookup fd =
            some o := hlookup
        rw [hcleanup] at hlookup
        exact hlookup
      rw [enforceTimeouts_lookup, hbegin] at hfd
      obtain ⟨hfd, hnone⟩ := hfd
      refine ⟨hfd, ?_, hnone⟩
      rcases cleanup_objects hinv hphase cfg.settings o with hsame |
        ⟨fd', reason, -, hreason, -, -⟩
      · exact hsame
      · have hnone : timeoutOf cfg.settings s.now (s.objects o).conn = none := hnone
        rw [hnone] at hreason
        cases hreason

/-- **The read timeout.** In a run in which no request is left incomplete with a clock
refreshed since its first byte arrived, no connection without a request in flight holds
an incomplete request behind a sweep whose first byte arrived more than `T + 1` seconds
before. -/
theorem read_deadline {s s' : Server}
    (h : Runs.Reached (serverSystem cfg) (fun s a => arrivesAtOnce s a = true) s)
    (hlimit : 0 < cfg.settings.readTimeoutSec) (hstep : step cfg s .afterBatch = some s')
    (hsweep : sweeps cfg.settings s = true) {fd o : Nat}
    (hlookup : s'.connections.lookup fd = some o)
    (hidle : (s'.objects o).conn.processing = false)
    (hheld : (s'.objects o).conn.readBuffer ≠ []) :
    ∃ t, (s'.objects o).hist.arrivals.head? = some t ∧
      (s.now : Int) - t ≤ (cfg.settings.readTimeoutSec + 1) * nanosPerSec := by
  have hinv := reachable_inv h.reachable
  obtain ⟨hfd, hsame, hnone⟩ := afterBatch_survivor hinv hstep hsweep hlookup
  rw [hsame] at hidle hheld ⊢
  have hdated : ∀ o, o < s.nextObject → (s.objects o).Dated := by
    apply reached_session (J := fun _ x => x.Dated) ?_ ?_ h
    · exact fun o fd now clientIp => Session.new_dated fd now clientIp cfg.tls
    · exact fun _ _ _ _ _ hok _ hx hmove => moves_dated hok hx hmove
  obtain ⟨hknown, hsocket, -⟩ := hinv.serves fd o hfd
  have hopen : (s.objects o).conn.isOpen = true := by
    unfold Connection.isOpen
    rw [hsocket]
    rfl
  -- no request is in flight and nothing is being written, so the read timeout applies
  have hready : (s.objects o).Idle := by
    rcases hinv.modes hfd with hhanded | hwriting | hidle'
    · cases hidle.symm.trans hhanded.processing
    · cases hidle.symm.trans hwriting.processing
    · exact hidle'
  have haligned := (hdated o hknown).aligned
  unfold Session.Aligned at haligned
  cases harrivals : (s.objects o).hist.arrivals with
  | nil =>
      rw [harrivals] at haligned
      exact absurd (List.eq_nil_of_length_eq_zero haligned.symm) hheld
  | cons t ts =>
      refine ⟨t, rfl, ?_⟩
      -- the clock is not past the arrival of the first byte
      have hclock := (hdated o hknown).unrefreshed hopen hidle t (by rw [harrivals]; rfl)
      unfold timeoutOf at hnone
      rw [hready.workerInFlight, if_neg (by simp), hready.noData, if_neg (by simp), hidle,
        if_neg (by simp), if_pos hheld] at hnone
      split at hnone
      · cases hnone
      next hfresh =>
        unfold expired elapsedSec at hfresh
        rw [decide_eq_true_eq] at hfresh
        unfold nanosPerSec at hfresh ⊢
        omega

/-- The first byte of a request arrives, and ten seconds later no other one. -/
def beginOne : List (Act Nat) :=
  acceptOne ++ receiveOne (lit "G") ++ [.afterBatch, .tick (10 * nanosPerSec), .poll []]

theorem read_deadline_one :
    ∃ s s', (serverSystem smallConfig).runIf arrivesAtOnce (Server.start 0) beginOne = some s ∧
      step smallConfig s .afterBatch = some s' ∧ s'.connections.lookup 7 = some 0 ∧
      ∃ t, (s'.objects 0).hist.arrivals.head? = some t ∧
        (s.now : Int) - t ≤ (smallConfig.settings.readTimeoutSec + 1) * nanosPerSec := by
  have hrun : (((serverSystem smallConfig).runIf arrivesAtOnce (Server.start 0) beginOne).bind
      fun s => (step smallConfig s .afterBatch).map fun s' =>
        decide (sweeps smallConfig.settings s = true ∧ s'.connections.lookup 7 = some 0 ∧
          (s'.objects 0).conn.processing = false ∧ (s'.objects 0).conn.readBuffer ≠ [])) =
      some true := by
    decide +kernel
  obtain ⟨s, hs, hrest⟩ := Option.bind_eq_some_iff.1 hrun
  obtain ⟨s', hs', hvalue⟩ := Option.map_eq_some_iff.1 hrest
  obtain ⟨hsweep, hlookup, hidle, hheld⟩ := of_decide_eq_true hvalue
  exact ⟨s, s', hs, hs', hlookup, read_deadline (Runs.reached_of_runIf (.start ⟨0, rfl⟩) hs)
    (by decide) hs' hsweep hlookup hidle hheld⟩

/-- Every 20 seconds one byte of a request arrives. -/
def trickleOne : List (Act Nat) :=
  acceptOne ++ receiveOne (lit "G") ++ [.afterBatch, .tick (20 * nanosPerSec)] ++
    receiveOne (lit "E") ++ [.afterBatch, .tick (20 * nanosPerSec), .poll []]

/-- A client that sends one byte at a time holds its request for more than the read
timeout. -/
theorem trickle_held :
    ¬ ∀ s s', Runs.Reachable (serverSystem smallConfig) s →
      step smallConfig s .afterBatch = some s' → sweeps smallConfig.settings s = true →
      ∀ fd o, s'.connections.lookup fd = some o → (s'.objects o).conn.processing = false →
      (s'.objects o).conn.readBuffer ≠ [] →
        ∃ t, (s'.objects o).hist.arrivals.head? = some t ∧
          (s.now : Int) - t ≤ (smallConfig.settings.readTimeoutSec + 1) * nanosPerSec := by
  intro h
  have hrun : (((serverSystem smallConfig).run (Server.start 0) trickleOne).bind fun s =>
      (step smallConfig s .afterBatch).map fun s' =>
        decide (sweeps smallConfig.settings s = true ∧ s'.connections.lookup 7 = some 0 ∧
          (s'.objects 0).conn.processing = false ∧ (s'.objects 0).conn.readBuffer ≠ [] ∧
          s.now = 40 * nanosPerSec ∧ (s'.objects 0).hist.arrivals.head? = some 0)) =
      some true := by
    decide +kernel
  obtain ⟨s, hs, hrest⟩ := Option.bind_eq_some_iff.1 hrun
  obtain ⟨s', hs', hvalue⟩ := Option.map_eq_some_iff.1 hrest
  obtain ⟨hsweep, hlookup, hidle, hheld, hnow, hfirst⟩ := of_decide_eq_true hvalue
  obtain ⟨t, ht, hle⟩ := h s s' (reachable_of_start hs) hs' hsweep 7 0 hlookup hidle hheld
  rw [hfirst] at ht
  cases ht
  have hlimit : smallConfig.settings.readTimeoutSec = 30 := rfl
  rw [hnow, hlimit] at hle
  unfold nanosPerSec at hle
  omega

end Server

end Oreshnek
