import Oreshnek.Server.Deadlines
import Oreshnek.Server.Drain
import Oreshnek.Net.Progress

/-!
# Stalled responses

The write timeout is measured from `last_activity_`. `stalled_closed` says when this
catches every stall: as long as no call of `write_data` refreshes the clock because a
file has become shorter than its range (`keepsClock`), a connection whose response has
made no progress for `W + 1` seconds is closed by the next sweep.
-/

namespace Oreshnek

namespace Session

/-! ## The progress of a connection -/

/-- So does a read. -/
theorem read_sendable {x z : Session} {now : Nat} {ans : Answers} (h : x.conn.Sendable)
    (hz : Entered x now ans z) : (z.afterRead now ans).conn.Sendable := by
  have hentered : z.conn.Sendable := by
    cases hz with
    | plain => exact h
    | shaken =>
        obtain ⟨done, want, last, hconn⟩ := handshake_outside x.conn now ans.accept
        have hshaken : (x.shake now ans).conn = _ := hconn
        rw [hshaken]
        exact h.keep rfl rfl id rfl
  have hout := z.afterRead_outside now ans
  have hsent := congrArg Connection.headersSent hout
  have hraw := congrArg Connection.rawHeadersToSend hout
  have hopen := congrArg Connection.fileOpen hout
  have hbody := congrArg Connection.writeBody hout
  exact hentered.keep hsent hraw (fun hopened => hopen.symm.trans hopened) hbody

theorem install_sendable (x : Session) (now : Nat) (ans : Answers) (serial madeFor : Nat)
    (inline : Bool) (res : HttpResponse) :
    (x.install now ans serial madeFor inline res).conn.Sendable :=
  Connection.setResponseContent_sendable _ _ _ _

/-- A callback leaves a response that can be sent on. -/
theorem react_sendable {x y : Session} {draining limited overloaded : Bool} {now o : Nat}
    {ans : Answers} {dir : Direction} {outcome : Outcome} (h : x.conn.Sendable)
    (hx : x.Left (.rearm dir)) (hopen : x.conn.isOpen = true)
    (hreact : x.react draining limited overloaded now ans o dir = some (y, outcome)) :
    y.conn.Sendable := by
  have hwritten := Connection.writeData_sendable h now ans.write
  rcases react_cases hx hopen hreact with hhandle | ⟨z, -, hhandle, -, hdispatch⟩
  · cases hhandle with
    | shaken =>
        obtain ⟨done, want, last, hconn⟩ := handshake_outside x.conn now ans.accept
        have hshaken : (x.shake now ans).conn = _ := hconn
        rw [hshaken]
        exact h.keep rfl rfl id rfl
    | readEnd reason hz => exact read_sendable h hz
    | wrote => exact hwritten
    | finished => exact hwritten
  · have hz : z.conn.Sendable := by
      cases hhandle with
      | read hz => exact read_sendable h hz
      | reused =>
          exact (Connection.clearResponseState_sendable (x.afterWrite now ans).conn).keep rfl rfl
            id rfl
    cases hdispatch with
    | limited consumed inb =>
        exact ((z.parsed inb).answering consumed _).install_sendable now ans _ o true _
    | shed consumed inb =>
        exact ((z.parsed inb).answering consumed _).install_sendable now ans _ o true _
    | handedOver => exact hz.keep rfl rfl id rfl
    | bad => exact hz.keep rfl rfl id rfl
    | waits n inb =>
        obtain ⟨b, hconn⟩ := await_conn (z.parsed inb) ans
        rw [hconn]
        exact hz.keep rfl rfl id rfl

theorem close_sendable {x : Session} (h : x.conn.Sendable) (reason : CloseReason) :
    (x.close reason).conn.Sendable := by
  refine h.keep rfl rfl ?_ rfl
  intro hopen
  cases hopen

theorem conclude_sendable {x : Session} (h : x.conn.Sendable) (success : Bool)
    (outcome : Outcome) : (x.concluded success outcome).conn.Sendable :=
  concluded_keeps (P := fun y => y.conn.Sendable) h (close_sendable h) success outcome

/-- The clock is not ahead of the time, nor, while a response is to be written, of the
last progress made with it. -/
structure Paced (now : Nat) (x : Session) : Prop where
  clock : x.conn.lastActivity ≤ now
  progress : x.conn.hasDataToWrite = true → x.conn.lastActivity ≤ x.hist.progressAt

theorem Paced.done {now : Nat} {x : Session} (hclock : x.conn.lastActivity ≤ now)
    (hdata : x.conn.hasDataToWrite = false) : x.Paced now := by
  refine ⟨hclock, fun h => ?_⟩
  rw [hdata] at h
  cases h

theorem Paced.close {now : Nat} {x : Session} (h : x.Paced now) (reason : CloseReason) :
    (x.close reason).Paced now :=
  ⟨h.clock, fun hdata => h.progress (Connection.closeConnection_hasData hdata)⟩

theorem Paced.conclude {now : Nat} {x : Session} (h : x.Paced now) (success : Bool)
    (outcome : Outcome) : (x.concluded success outcome).Paced now :=
  concluded_keeps h h.close success outcome

/-- A response is installed, which is progress. -/
theorem Paced.install {x : Session} {now : Nat} (hclock : x.conn.lastActivity ≤ now)
    (ans : Answers) (serial madeFor : Nat) (inline : Bool) (res : HttpResponse) :
    (x.install now ans serial madeFor inline res).Paced now := by
  have hsame := install_lastActivity x now ans serial madeFor inline res
  constructor
  · rw [hsame]
    exact hclock
  · intro _
    rw [hsame]
    exact hclock

/-- Bytes go out, or the clock stands. -/
theorem Paced.write {x : Session} {now : Nat} {ans : Answers} (h : x.Paced now)
    (hsendable : x.conn.Sendable)
    (hkeeps : x.conn.endsEarly ans.write = true → x.conn.lastActivity = now) :
    (x.afterWrite now ans).Paced now := by
  have hclock := x.afterWrite_lastActivity now ans
  refine ⟨clock_le h.clock hclock, fun hdata => ?_⟩
  have hbefore : x.conn.hasDataToWrite = true := afterWrite_pending hdata
  have hold := h.progress hbefore
  rw [afterWrite_progressAt]
  split
  next hnone =>
    -- nothing was sent: the clock stands
    have hstands : (x.afterWrite now ans).conn.lastActivity = x.conn.lastActivity := by
      by_cases hearly : x.conn.endsEarly ans.write = true
      · rcases hclock with hlast | hlast
        · exact hlast
        · exact hlast.trans (hkeeps hearly).symm
      · rcases Connection.writeData_stirs hsendable hbefore now (eq_false_of_ne_true hearly)
          with hbytes | hlast
        · exact absurd hnone hbytes
        · exact hlast
    rw [hstands]
    exact hold
  · exact clock_le h.clock hclock

end Session

namespace Server

variable {H : Type} {cfg : Config H}

/-- In every reachable state a response can be sent on. -/
theorem reachable_sendable {s : Server} (h : Runs.Reachable (serverSystem cfg) s) :
    ∀ o, o < s.nextObject → (s.objects o).conn.Sendable := by
  have hnew : ∀ fd now clientIp, (Session.new fd now clientIp cfg.tls).conn.Sendable :=
    fun _ _ _ => ⟨fun _ => rfl, fun _ => rfl⟩
  apply reached_session (J := fun _ x => x.conn.Sendable) ?_ ?_ h
  · exact fun _ fd now clientIp => hnew fd now clientIp
  · intro s a o y _ _ _ hx hmove
    cases hmove with
    | same => exact hx
    | created fd clientIp => exact hnew fd s.now clientIp
    | failed => exact Session.close_sendable hx .ioError
    | reacted ans fd dir rest x outcome ha hphase hlookup hleft hopen hreact =>
        exact Session.conclude_sendable (Session.react_sendable hx hleft hopen hreact) _ _
    | completed ans c =>
        exact Session.conclude_sendable (Session.install_sendable _ _ _ _ _ _ _) _ _
    | timedOut fd reason => exact Session.close_sendable hx reason
    | pushed => exact hx

/-! ## Runs -/

/-- No call of `write_data` in this step finds the file at its end before it has sent a
byte, unless its clock is of now. -/
def keepsClock (s : Server) : Act H → Bool
  | .client ans =>
      match s.phase with
      | .batch (.client fd .write false :: _) =>
          match s.connections.lookup fd with
          | none => true
          | some o =>
              !(s.objects o).conn.endsEarly ans.write ||
                decide ((s.objects o).conn.lastActivity = s.now)
      | _ => true
  | _ => true

/-- The condition at a write that ends early. -/
theorem keepsClock_at {s : Server} {ans : Answers} (h : keepsClock s (.client ans : Act H) = true)
    {fd o : Nat} {rest : List Event} (hphase : s.phase = .batch (.client fd .write false :: rest))
    (hlookup : s.connections.lookup fd = some o)
    (hearly : (s.objects o).conn.endsEarly ans.write = true) :
    (s.objects o).conn.lastActivity = s.now := by
  unfold keepsClock at h
  dsimp only at h
  rw [hphase] at h
  dsimp only at h
  rw [hlookup] at h
  dsimp only at h
  rw [hearly] at h
  exact of_decide_eq_true h

/-- So it is in a callback. -/
theorem react_paced {s : Server} {ans : Answers} (hok : keepsClock s (.client ans : Act H) = true)
    {fd o : Nat} {dir : Direction} {rest : List Event} {x : Session} {outcome : Outcome}
    (hx : (s.objects o).Paced s.now) (hsendable : (s.objects o).conn.Sendable)
    (hphase : s.phase = .batch (.client fd dir false :: rest))
    (hlookup : s.connections.lookup fd = some o) (hleft : (s.objects o).Left (.rearm dir))
    (hopen : (s.objects o).conn.isOpen = true)
    (hreact : (s.objects o).react s.draining cfg.rateLimited (s.overloaded cfg.settings) s.now
      ans o dir = some (x, outcome)) : x.Paced s.now := by
  rcases Session.react_cases hleft hopen hreact with
    hhandle | ⟨z, -, hhandle, hready, hdispatch⟩
  · have hclock : x.conn.lastActivity ≤ s.now := Session.handles_clock hhandle hx.clock
    cases hhandle with
    | shaken dir outcome htls hdone =>
        -- no response is written before the handshake is done
        apply Session.Paced.done hclock
        rw [Session.shake_hasData]
        cases dir with
        | read =>
            have hidle : (s.objects o).Idle := hleft
            exact hidle.noData
        | write =>
            rcases hleft with hwriting | ⟨hidle, -⟩
            · cases hdone.symm.trans (hwriting.secured htls)
            · exact hidle.noData
    | @readEnd z reason hz =>
        have hidle : (s.objects o).Idle := hleft
        have hdata := congrArg Connection.hasDataToWrite (z.afterRead_outside s.now ans)
        exact Session.Paced.done hclock (hdata.trans (hz.hasData.trans hidle.noData))
    | wrote => exact hx.write hsendable (keepsClock_at hok hphase hlookup)
    | finished hret hdata => exact Session.Paced.done hclock hdata
  · have hclock : z.conn.lastActivity ≤ s.now := Session.handles_clock hhandle hx.clock
    cases hdispatch with
    | limited consumed inb =>
        exact Session.Paced.install (x := (z.parsed inb).answering consumed _) hclock ans _ o
          true _
    | shed consumed inb =>
        exact Session.Paced.install (x := (z.parsed inb).answering consumed _) hclock ans _ o
          true _
    | handedOver consumed inb => exact Session.Paced.done hclock hready.noData
    | bad n inb => exact Session.Paced.done hclock hready.noData
    | waits n inb =>
        obtain ⟨b, hconn⟩ := Session.await_conn (z.parsed inb) ans
        apply Session.Paced.done
        · rw [hconn]
          exact hclock
        · rw [hconn]
          exact hready.noData

/-- While a response is to be written, the clock is not ahead of the last progress made with it.
-/
theorem moves_paced {s : Server} {a : Act H} {o : Nat} {y : Session}
    (hok : keepsClock s a = true) (hx : (s.objects o).Paced s.now)
    (hsendable : (s.objects o).conn.Sendable) (h : Moves cfg s a o y) : y.Paced s.now := by
  cases h with
  | same => exact hx
  | created fd clientIp ha ho => exact Session.Paced.done le_rfl rfl
  | failed => exact hx.close .ioError
  | reacted ans fd dir rest x outcome ha hphase hlookup hleft hopen hreact =>
      subst ha
      exact (react_paced hok hx hsendable hphase hlookup hleft hopen hreact).conclude _ _
  | completed ans c ready rest ha hphase hconn hlookup hhanded hserial =>
      exact (Session.Paced.install (x := (s.objects o).workerDone) hx.clock ans c.serial o false
        c.item.response).conclude _ _
  | timedOut fd reason ha hlookup hreason => exact hx.close reason
  | pushed => exact ⟨hx.clock, hx.progress⟩

/-- Every connection is paced in every state reached. -/
theorem reached_paced {s : Server}
    (h : Runs.Reached (serverSystem cfg) (fun s a => keepsClock s a = true) s) :
    ∀ o, o < s.nextObject → (s.objects o).Paced s.now := by
  apply reached_session_at (J := fun _ now x => x.Paced now) ?_ ?_ ?_ h
  · exact fun _ _ _ _ hle hx => ⟨hx.clock.trans hle, hx.progress⟩
  · exact fun _ _ _ _ => Session.Paced.done le_rfl rfl
  · intro s a o y hs hok ho hx hmove
    exact moves_paced hok hx (reachable_sendable hs.reachable o ho) hmove

/-- More than `limit` seconds are behind a clock that is not ahead of `since'`. -/
theorem expired_of_since {limit : Int} {now since since' : Nat} (hpos : 0 < limit)
    (hle : since ≤ since') (hlate : (limit + 1) * nanosPerSec ≤ (now : Int) - since') :
    expired limit now since = true := by
  unfold expired elapsedSec
  apply decide_eq_true
  refine ⟨hpos, ?_⟩
  unfold nanosPerSec at hlate ⊢
  omega

/-- **Stalls are caught.** In a run in which no call finds a file at its end before it has
sent a byte, a response on which there has been no progress for `W + 1` seconds has its
connection closed by the next sweep. In each state of it, a call sends a byte, fails or
leaves the clock alone exactly when it does not find the file so. -/
theorem stalled_closed {s : Server}
    (h : Runs.Reached (serverSystem cfg) (fun s a => keepsClock s a = true) s) {fd o : Nat}
    (hlookup : s.connections.lookup fd = some o)
    (hdata : (s.objects o).conn.hasDataToWrite = true) :
    (∀ answers : WriteAnswers,
      ((((s.objects o).conn.writeData s.now answers).head ++
            ((s.objects o).conn.writeData s.now answers).body ≠ [] ∨
          ((s.objects o).conn.writeData s.now answers).ret = -1 ∨
          ((s.objects o).conn.writeData s.now answers).conn.lastActivity =
            (s.objects o).conn.lastActivity) ↔
        ¬ ((s.objects o).conn.endsEarly answers = true ∧
          (s.objects o).conn.lastActivity ≠ s.now))) ∧
      ∀ s', step cfg s .afterBatch = some s' → sweeps cfg.settings s = true →
        0 < cfg.settings.writeTimeoutSec →
        (cfg.settings.writeTimeoutSec + 1) * nanosPerSec ≤
          (s.now : Int) - (s.objects o).hist.progressAt →
        (s'.objects o).hist.closedBy = some .writeTimeout ∧ s'.connections.lookup fd = none := by
  have hinv := reachable_inv h.reachable
  obtain ⟨hknown, hsocket, -⟩ := hinv.serves fd o hlookup
  constructor
  · exact fun answers => Connection.writeData_progress_iff
      (reachable_sendable h.reachable o hknown) hdata s.now answers
  intro s' hstep hsweep hlimit hlate
  -- no worker is in flight with a response to be written
  have hworker : (s.objects o).conn.workerInFlight = false := by
    rcases hinv.modes hlookup with hhanded | hwriting | hidle
    · cases hdata.symm.trans hhanded.noData
    · exact hwriting.workerInFlight
    · cases hdata.symm.trans hidle.noData
  have htimeout : timeoutOf cfg.settings s.now (s.objects o).conn = some .writeTimeout := by
    unfold timeoutOf
    rw [hworker, if_neg (by simp), if_pos hdata, if_pos]
    exact expired_of_since hlimit ((reached_paced h o hknown).progress hdata) hlate
  -- who is still served behind the sweep has not timed out
  have hgone : ∀ fd', s'.connections.lookup fd' ≠ some o := by
    intro fd' hserved
    have hnone := (afterBatch_survivor hinv hstep hsweep hserved).2.2
    rw [htimeout] at hnone
    cases hnone
  constructor
  · have hmove := step_moves hinv hstep o
    generalize hy : s'.objects o = y at hmove ⊢
    cases hmove with
    | same =>
        -- it would be open, and served on some socket
        exfalso
        have hsystem : (serverSystem cfg).step s .afterBatch = some s' := hstep
        have hreached := h.reachable.step hsystem
        have hopen : (s'.objects o).conn.isOpen = true := by
          rw [hy]
          unfold Connection.isOpen
          rw [hsocket]
          rfl
        have hknown' : o < s'.nextObject := by
          rcases step_nextObject hstep with hnext | ⟨_, _, ha, -, -⟩
          · rw [hnext]
            exact hknown
          · cases ha
        rcases reachable_owned hreached o hknown' hopen with ⟨fd', hserved⟩
        exact hgone fd' hserved
    | created fd clientIp ha => cases ha
    | failed ans fd dir rest ha => cases ha
    | reacted ans fd dir rest x outcome ha => cases ha
    | completed ans c ready rest ha => cases ha
    | pushed k env t ending res ha => cases ha
    | timedOut fd' reason ha hlookup' hreason =>
        rw [htimeout] at hreason
        cases hreason
        rfl
  · cases hserved : s'.connections.lookup fd with
    | none => rfl
    | some o' =>
        have hbefore := (afterBatch_survivor hinv hstep hsweep hserved).1
        rw [hlookup] at hbefore
        cases hbefore
        exact absurd hserved (hgone fd)

/-- A client that stops reading is closed. -/
theorem stalled_closed_one :
    ∃ s s', (serverSystem smallConfig).runIf keepsClock (Server.start 0) stallOne = some s ∧
      step smallConfig s .afterBatch = some s' ∧
      (s'.objects 0).hist.closedBy = some .writeTimeout := by
  have hrun : (((serverSystem smallConfig).runIf keepsClock (Server.start 0) stallOne).bind
      fun s => (step smallConfig s .afterBatch).map fun _ =>
        decide (s.connections.lookup 7 = some 0 ∧ (s.objects 0).conn.hasDataToWrite = true ∧
          sweeps smallConfig.settings s = true ∧ 0 < smallConfig.settings.writeTimeoutSec ∧
          (smallConfig.settings.writeTimeoutSec + 1) * nanosPerSec ≤
            (s.now : Int) - (s.objects 0).hist.progressAt)) = some true := by
    decide +kernel
  obtain ⟨s, hs, hrest⟩ := Option.bind_eq_some_iff.1 hrun
  obtain ⟨s', hs', hvalue⟩ := Option.map_eq_some_iff.1 hrest
  obtain ⟨hlookup, hdata, hsweep, hlimit, hlate⟩ := of_decide_eq_true hvalue
  rcases stalled_closed (Runs.reached_of_runIf (.start ⟨0, rfl⟩) hs) hlookup hdata with
    ⟨-, hsweeps⟩
  exact ⟨s, s', hs, hs', (hsweeps s' hs' hsweep hlimit hlate).1⟩

/-- The handler answers with a file of five bytes. -/
def fileEnv : TaskEnv Nat :=
  { smallEnv with
    handlers := fun _ _ res => .returned () (res.file (lit "a") (lit "text/plain") (some 5)) }

/-- The response is installed and its headers are sent; by then the file is empty. -/
def emptiedOne : List (Act Nat) :=
  acceptOne ++ receiveOne getRequest ++ [.afterBatch, .take, .work 0 fileEnv, .notify 0,
    .poll [.wakeup], .enter, .drainRead false, .drainRead false, .swap,
    .complete { opened := some (some 5) }, .complete {}, .afterBatch,
    .poll [.client 7 .write false],
    .client { write := { sendHead := .sent 1000, sendfile := [.eof] } }, .afterBatch]

/-- Twenty seconds later the socket is still writable. -/
def idleRound : List (Act Nat) :=
  [.tick (20 * nanosPerSec), .poll [.client 7 .write false],
    .client { write := { sendfile := [.eof] } }]

/-- A response with a file that has become shorter is never given up, though no byte of it
is sent any more. -/
theorem emptied_file_kept :
    ¬ ∀ s s', Runs.Reachable (serverSystem smallConfig) s →
      step smallConfig s .afterBatch = some s' → sweeps smallConfig.settings s = true →
      ∀ fd o, s.connections.lookup fd = some o → (s.objects o).conn.hasDataToWrite = true →
      (smallConfig.settings.writeTimeoutSec + 1) * nanosPerSec ≤
        (s.now : Int) - (s.objects o).hist.progressAt →
      (s'.objects o).hist.closedBy = some .writeTimeout := by
  intro hclaim
  have hrun : (((serverSystem smallConfig).run (Server.start 0)
      (emptiedOne ++ idleRound ++ [.afterBatch] ++ idleRound)).bind fun s =>
        (step smallConfig s .afterBatch).map fun s' =>
          decide (sweeps smallConfig.settings s = true ∧ s.connections.lookup 7 = some 0 ∧
            (s.objects 0).conn.hasDataToWrite = true ∧
            (smallConfig.settings.writeTimeoutSec + 1) * nanosPerSec ≤
              (s.now : Int) - (s.objects 0).hist.progressAt ∧
            (s'.objects 0).hist.closedBy = none)) = some true := by
    decide +kernel
  obtain ⟨s, hs, hrest⟩ := Option.bind_eq_some_iff.1 hrun
  obtain ⟨s', hs', hvalue⟩ := Option.map_eq_some_iff.1 hrest
  obtain ⟨hsweep, hlookup, hdata, hlate, hopen⟩ := of_decide_eq_true hvalue
  have hclosed := hclaim s s' (reachable_of_start hs) hs' hsweep 7 0 hlookup hdata hlate
  rw [hopen] at hclosed
  cases hclosed

end Server

end Oreshnek
