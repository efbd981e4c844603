import Oreshnek.Server.Backlog
import Oreshnek.Server.Heads

/-!
# The activity clock and the write timeout

Each connection has one clock, `last_activity_`, which `enforce_timeouts` reads for
all its limits but the one on the handler. `write_timeout_fair` says when a connection
with a response to be written is not closed too early: as long as no response is
installed, and no byte of one taken, by a step that leaves a clock standing that is a
second or more behind (`prompt`).
-/

namespace Oreshnek

namespace Session

/-! ## One connection -/

/-- The clock is not ahead, and while a response is to be written it is less than a
second behind the last progress made with it. -/
structure Timely (now : Nat) (x : Session) : Prop where
  clock : x.conn.lastActivity ≤ now
  progress : x.conn.hasDataToWrite = true →
    x.hist.progressAt < x.conn.lastActivity + Server.nanosPerSec

theorem Timely.later {now now' : Nat} {x : Session} (hle : now ≤ now') (h : x.Timely now) :
    x.Timely now' :=
  ⟨h.clock.trans hle, h.progress⟩

/-- A connection with nothing to be written. -/
theorem Timely.done {now : Nat} {x : Session} (hclock : x.conn.lastActivity ≤ now)
    (hdata : x.conn.hasDataToWrite = false) : x.Timely now := by
  refine ⟨hclock, fun h => ?_⟩
  rw [hdata] at h
  cases h

theorem Timely.close {now : Nat} {x : Session} (h : x.Timely now) (reason : CloseReason) :
    (x.close reason).Timely now :=
  ⟨h.clock, fun hdata => h.progress (Connection.closeConnection_hasData hdata)⟩

theorem Timely.conclude {now : Nat} {x : Session} (h : x.Timely now) (success : Bool)
    (outcome : Outcome) : (x.concluded success outcome).Timely now :=
  concluded_keeps h h.close success outcome

/-- A handshake step leaves the clock of the connection or sets it to now. -/
theorem shake_lastActivity (x : Session) (now : Nat) (ans : Answers) :
    (x.shake now ans).conn.lastActivity = x.conn.lastActivity ∨
      (x.shake now ans).conn.lastActivity = now := by
  unfold shake Connection.continueTlsHandshake
  dsimp only
  split
  · exact .inl rfl
  cases ans.accept with
  | done => exact .inr rfl
  | wantRead => exact .inl rfl
  | wantWrite => exact .inl rfl
  | failed => exact .inl rfl

theorem afterRead_lastActivity (x : Session) (now : Nat) (ans : Answers) :
    (x.afterRead now ans).conn.lastActivity = x.conn.lastActivity ∨
      (x.afterRead now ans).conn.lastActivity = now :=
  Connection.readData_lastActivity x.conn now ans.recv ans.sslRead

theorem afterWrite_lastActivity (x : Session) (now : Nat) (ans : Answers) :
    (x.afterWrite now ans).conn.lastActivity = x.conn.lastActivity ∨
      (x.afterWrite now ans).conn.lastActivity = now :=
  Connection.writeData_lastActivity x.conn now ans.write

/-- Progress is made with the bytes that the socket takes. -/
theorem afterWrite_progressAt (x : Session) (now : Nat) (ans : Answers) :
    (x.afterWrite now ans).hist.progressAt =
      if (x.conn.writeData now ans.write).head ++ (x.conn.writeData now ans.write).body = [] then
        x.hist.progressAt
      else now := rfl

theorem install_lastActivity (x : Session) (now : Nat) (ans : Answers) (serial madeFor : Nat)
    (inline : Bool) (res : HttpResponse) :
    (x.install now ans serial madeFor inline res).conn.lastActivity = x.conn.lastActivity := by
  have hsame := congrArg Connection.lastActivity
    (x.install_outside now ans serial madeFor inline res)
  exact hsame

theorem clock_le {x y : Session} {now : Nat} (hx : x.conn.lastActivity ≤ now)
    (h : y.conn.lastActivity = x.conn.lastActivity ∨ y.conn.lastActivity = now) :
    y.conn.lastActivity ≤ now := by
  rcases h with h | h
  · exact h ▸ hx
  · exact h.le

theorem Entered.clock {x z : Session} {now : Nat} {ans : Answers} (h : Entered x now ans z)
    (hx : x.conn.lastActivity ≤ now) : z.conn.lastActivity ≤ now := by
  cases h with
  | plain => exact hx
  | shaken => exact clock_le hx (x.shake_lastActivity now ans)

/-- No handler puts the clock ahead. -/
theorem handles_clock {x : Session} {draining : Bool} {now : Nat} {ans : Answers}
    {dir : Direction} {flow : Flow} (h : Handles x draining now ans dir flow)
    (hx : x.conn.lastActivity ≤ now) :
    match flow with
    | .dispatch z => z.conn.lastActivity ≤ now
    | .done y _ => y.conn.lastActivity ≤ now := by
  cases h with
  | shaken => exact clock_le hx (x.shake_lastActivity now ans)
  | readEnd reason hz => exact clock_le (hz.clock hx) (afterRead_lastActivity _ now ans)
  | read hz => exact clock_le (hz.clock hx) (afterRead_lastActivity _ now ans)
  | wrote => exact clock_le hx (Connection.writeData_lastActivity x.conn now ans.write)
  | finished => exact clock_le hx (Connection.writeData_lastActivity x.conn now ans.write)
  | reused => exact le_rfl

/-- Bytes go out, and the clock is refreshed or was not far behind. -/
theorem Timely.write {x : Session} {now : Nat} {ans : Answers} (h : x.Timely now)
    (hprompt : (x.conn.writeData now ans.write).head ++ (x.conn.writeData now ans.write).body ≠ [] →
      (x.conn.writeData now ans.write).conn.lastActivity ≠ now →
        now < x.conn.lastActivity + Server.nanosPerSec) : (x.afterWrite now ans).Timely now := by
  have hclock := x.afterWrite_lastActivity now ans
  refine ⟨clock_le h.clock hclock, fun hdata => ?_⟩
  have hbefore : x.conn.hasDataToWrite = true := afterWrite_pending hdata
  have hold := h.progress hbefore
  have hpast := h.clock
  rw [afterWrite_progressAt]
  split
  · -- nothing has been taken
    rcases hclock with hclock | hclock
    · rw [hclock]
      exact hold
    · rw [hclock]
      omega
  next hbytes =>
    -- some bytes have been taken, so the progress is now
    rcases hclock with hclock | hclock
    · by_cases hnow : (x.conn.writeData now ans.write).conn.lastActivity = now
      · have hnow : (x.afterWrite now ans).conn.lastActivity = now := hnow
        rw [hnow]
        exact Nat.lt_add_of_pos_right (by decide)
      · rw [hclock]
        exact hprompt hbytes hnow
    · rw [hclock]
      exact Nat.lt_add_of_pos_right (by decide)

/-- A response installed within a second of the last activity is timely. -/
theorem Timely.install {x : Session} {now : Nat} (hclock : x.conn.lastActivity ≤ now)
    (hprompt : now < x.conn.lastActivity + Server.nanosPerSec) (ans : Answers)
    (serial madeFor : Nat) (inline : Bool) (res : HttpResponse) :
    (x.install now ans serial madeFor inline res).Timely now := by
  have hsame := install_lastActivity x now ans serial madeFor inline res
  constructor
  · rw [hsame]
    exact hclock
  · intro _
    rw [hsame]
    exact hprompt

end Session

namespace Server

variable {H : Type} {cfg : Config H}

/-! ## Runs -/

/-- The clock was refreshed less than a second ago. -/
def recent (now : Nat) (c : Connection) : Bool := decide (now < c.lastActivity + nanosPerSec)

/-- `write_data` takes no bytes in this step, or refreshes the clock, or finds it
recent. -/
def writesPromptly (s : Server) (ans : Answers) : Bool :=
  match s.phase with
  | .batch (.client fd .write false :: _) =>
      match s.connections.lookup fd with
      | none => true
      | some o =>
          let w := (s.objects o).conn.writeData s.now ans.write
          decide (w.head ++ w.body ≠ [] → w.conn.lastActivity ≠ s.now →
            recent s.now (s.objects o).conn = true)
  | _ => true

/-- `dispatch_next` answers no request itself in this step, or finds the clock recent. -/
def answersPromptly (cfg : Config H) (s : Server) (a : Act H) : Bool :=
  match s.dispatching a with
  | none => true
  | some (_, ans, z) =>
      match z.conn.toInbound.parseNext with
      | some (true, _, _) =>
          decide (((cfg.rateLimited = true ∧ ans.allow = false) ∨
            s.overloaded cfg.settings = true) → recent s.now z.conn = true)
      | _ => true

/-- `process_completions` installs no response in this step, or finds the clock recent. -/
def completesPromptly (s : Server) : Bool :=
  match s.phase with
  | .completing (c :: _) _ =>
      decide (s.connections.lookup c.item.fd = some c.item.conn →
        recent s.now (s.objects c.item.conn).conn = true)
  | _ => true

/-- No response is installed, and no byte of one taken, in a step that leaves a clock
standing that is a second or more behind. -/
def prompt (cfg : Config H) (s : Server) : Act H → Bool
  | .client ans => s.writesPromptly ans && s.answersPromptly cfg (.client ans)
  | .complete _ => s.completesPromptly
  | _ => true

/-- The condition at a connection that is being written. -/
theorem writesPromptly_at {s : Server} {ans : Answers} (h : s.writesPromptly ans = true)
    {fd o : Nat} {rest : List Event} (hphase : s.phase = .batch (.client fd .write false :: rest))
    (hlookup : s.connections.lookup fd = some o)
    (hbytes : ((s.objects o).conn.writeData s.now ans.write).head ++
      ((s.objects o).conn.writeData s.now ans.write).body ≠ [])
    (hclock : ((s.objects o).conn.writeData s.now ans.write).conn.lastActivity ≠ s.now) :
    s.now < (s.objects o).conn.lastActivity + nanosPerSec := by
  unfold writesPromptly at h
  rw [hphase] at h
  dsimp only at h
  rw [hlookup] at h
  exact of_decide_eq_true (of_decide_eq_true h hbytes hclock)

/-- The condition at a request that is answered on the spot. -/
theorem answersPromptly_at {s : Server} {a : Act H} (h : s.answersPromptly cfg a = true) {o : Nat}
    {ans : Answers} {z : Session} (hz : s.dispatching a = some (o, ans, z)) {consumed : Nat}
    {inb : Inbound} (hparse : z.conn.toInbound.parseNext = some (true, consumed, inb))
    (hrefused : (cfg.rateLimited = true ∧ ans.allow = false) ∨ s.overloaded cfg.settings = true) :
    s.now < z.conn.lastActivity + nanosPerSec := by
  unfold answersPromptly at h
  rw [hz] at h
  dsimp only at h
  rw [hparse] at h
  exact of_decide_eq_true (of_decide_eq_true h hrefused)

/-- The condition at a completion. -/
theorem completesPromptly_at {s : Server} (h : s.completesPromptly = true) {c : Completion}
    {ready : List Completion} {rest : List Event} (hphase : s.phase = .completing (c :: ready) rest)
    (hlookup : s.connections.lookup c.item.fd = some c.item.conn) :
    s.now < (s.objects c.item.conn).conn.lastActivity + nanosPerSec := by
  unfold completesPromptly at h
  rw [hphase] at h
  exact of_decide_eq_true (of_decide_eq_true h hlookup)

/-- So it does in a callback, under the condition of the run. -/
theorem react_timely {s : Server} {ans : Answers} (hok : prompt cfg s (.client ans) = true)
    {fd o : Nat} {dir : Direction} {rest : List Event} {x : Session} {outcome : Outcome}
    (hx : (s.objects o).Timely s.now) (hphase : s.phase = .batch (.client fd dir false :: rest))
    (hlookup : s.connections.lookup fd = some o) (hleft : (s.objects o).Left (.rearm dir))
    (hopen : (s.objects o).conn.isOpen = true)
    (hreact : (s.objects o).react s.draining cfg.rateLimited (s.overloaded cfg.settings) s.now
      ans o dir = some (x, outcome)) : x.Timely s.now := by
  obtain ⟨hwrites, hanswers⟩ := (Bool.and_eq_true_iff.1 hok)
  rcases Session.react_cases hleft hopen hreact with
    hhandle | ⟨z, hz, hhandle, hready, hdispatch⟩
  · have hclock : x.conn.lastActivity ≤ s.now := Session.handles_clock hhandle hx.clock
    cases hhandle with
    | shaken =>
        -- the handshake leaves the response alone, and the clock does not go back
        refine ⟨hclock, fun hdata => ?_⟩
        rw [Session.shake_hasData] at hdata
        have hold := hx.progress hdata
        have hpast := hx.clock
        have hat : ((s.objects o).shake s.now ans).hist.progressAt =
            (s.objects o).hist.progressAt := rfl
        rcases (s.objects o).shake_lastActivity s.now ans with hlast | hlast
        · rw [hlast, hat]
          exact hold
        · rw [hlast, hat]
          omega
    | @readEnd z reason hz =>
        have hidle : (s.objects o).Idle := hleft
        have hout := z.afterRead_outside s.now ans
        have hdata := congrArg Connection.hasDataToWrite hout
        exact Session.Timely.done hclock (hdata.trans (hz.hasData.trans hidle.noData))
    | wrote =>
        exact hx.write (writesPromptly_at hwrites hphase hlookup)
    | finished hret hdata => exact Session.Timely.done hclock hdata
  · have hclock : z.conn.lastActivity ≤ s.now := Session.handles_clock hhandle hx.clock
    have hdispatching := dispatching_eq (H := H) hphase hlookup hz
    cases hdispatch with
    | limited consumed inb hparse hlimited =>
        have hprompt := answersPromptly_at hanswers hdispatching hparse (.inl hlimited)
        exact Session.Timely.install (x := (z.parsed inb).answering consumed _) hclock hprompt ans _
          o true _
    | shed consumed inb hparse hoverloaded =>
        have hprompt := answersPromptly_at hanswers hdispatching hparse (.inr hoverloaded)
        exact Session.Timely.install (x := (z.parsed inb).answering consumed _) hclock hprompt ans _
          o true _
    | handedOver consumed inb => exact Session.Timely.done hclock hready.noData
    | bad n inb => exact Session.Timely.done hclock hready.noData
    | waits n inb =>
        obtain ⟨b, hconn⟩ := Session.await_conn (z.parsed inb) ans
        apply Session.Timely.done
        · rw [hconn]
          exact hclock
        · rw [hconn]
          exact hready.noData

/-- While a response is to be written, the clock stays less than a second behind its progress.
-/
theorem moves_timely {s : Server} {a : Act H} {o : Nat} {y : Session}
    (hok : prompt cfg s a = true) (hx : (s.objects o).Timely s.now) (h : Moves cfg s a o y) :
    y.Timely s.now := by
  cases h with
  | same => exact hx
  | created fd clientIp ha ho => exact Session.Timely.done le_rfl rfl
  | failed => exact hx.close .ioError
  | reacted ans fd dir rest x outcome ha hphase hlookup hleft hopen hreact =>
      subst ha
      exact (react_timely hok hx hphase hlookup hleft hopen hreact).conclude _ _
  | completed ans c ready rest ha hphase hconn hlookup hhanded hserial =>
      subst ha
      subst hconn
      have hprompt := completesPromptly_at hok hphase hlookup
      exact (Session.Timely.install (x := (s.objects c.item.conn).workerDone) hx.clock hprompt ans
        c.serial c.item.conn false c.item.response).conclude _ _
  | timedOut fd reason ha hlookup hreason => exact hx.close reason
  | pushed => exact ⟨hx.clock, hx.progress⟩

/-- More than `limit` seconds have passed since a time that is less than a second
before `since'`. -/
theorem expired_since {limit : Int} {now since since' : Nat} (h : expired limit now since = true)
    (hlt : since' < since + nanosPerSec) :
    0 < limit ∧ limit * nanosPerSec < (now : Int) - since' := by
  unfold expired elapsedSec at h
  obtain ⟨hpos, hlimit⟩ := of_decide_eq_true h
  refine ⟨hpos, ?_⟩
  unfold nanosPerSec at hlt hlimit ⊢
  omega

/-- **No early write timeout.** In a run whose steps are `prompt`, a sweep that closes a
connection with a response to be written does so for the write timeout, and more than so
many seconds after the response was installed and after the last byte of it was taken. -/
theorem write_timeout_fair {s s' : Server}
    (h : Runs.Reached (serverSystem cfg) (fun s a => prompt cfg s a = true) s)
    (hstep : step cfg s .afterBatch = some s') {o : Nat} (ho : o < s.nextObject)
    (hdata : (s.objects o).conn.hasDataToWrite = true)
    (hopen : (s.objects o).hist.closedBy = none) (hclosed : (s'.objects o).hist.closedBy ≠ none) :
    (s'.objects o).hist.closedBy = some .writeTimeout ∧ 0 < cfg.settings.writeTimeoutSec ∧
      cfg.settings.writeTimeoutSec * nanosPerSec <
        (s.now : Int) - (s.objects o).hist.progressAt := by
  have htimely : ∀ o, o < s.nextObject → (s.objects o).Timely s.now := by
    apply reached_session_at (J := fun _ now x => x.Timely now) ?_ ?_ ?_ h
    · exact fun _ _ _ _ hle hx => hx.later hle
    · exact fun _ _ _ _ => Session.Timely.done le_rfl rfl
    · exact fun _ _ _ _ _ hok _ hx hmove => moves_timely hok hx hmove
  have hinv := reachable_inv h.reachable
  have hmove := step_moves hinv hstep o
  generalize s'.objects o = y at hmove hclosed ⊢
  cases hmove with
  | same => exact absurd hopen hclosed
  | created fd clientIp ha => cases ha
  | failed ans fd dir rest ha => cases ha
  | reacted ans fd dir rest x outcome ha => cases ha
  | completed ans c ready rest ha => cases ha
  | pushed k env t ending res ha => cases ha
  | timedOut fd reason ha hlookup hreason =>
      -- a response is to be written, so no worker is in flight
      have hworker : (s.objects o).conn.workerInFlight = false := by
        rcases hinv.modes hlookup with hhanded | hwriting | hidle
        · cases hdata.symm.trans hhanded.noData
        · exact hwriting.workerInFlight
        · cases hdata.symm.trans hidle.noData
      unfold timeoutOf at hreason
      rw [hworker, if_neg (by simp), if_pos hdata] at hreason
      split at hreason
      next hexpired =>
        cases hreason
        exact ⟨rfl, expired_since hexpired ((htimely o ho).progress hdata)⟩
      · cases hreason

/-- The client takes nothing of its response for 40 seconds. -/
def stallOne : List (Act Nat) :=
  answerOne ++ installOne ++ [.afterBatch, .tick (40 * nanosPerSec), .poll []]

/-- A client that stops reading is closed. -/
theorem write_timeout_fair_one :
    ∃ s s', (serverSystem smallConfig).runIf (prompt smallConfig) (Server.start 0) stallOne =
        some s ∧ step smallConfig s .afterBatch = some s' ∧
      (s'.objects 0).hist.closedBy = some .writeTimeout ∧
      0 < smallConfig.settings.writeTimeoutSec ∧
      smallConfig.settings.writeTimeoutSec * nanosPerSec <
        (s.now : Int) - (s.objects 0).hist.progressAt := by
  have hrun : (((serverSystem smallConfig).runIf (prompt smallConfig) (Server.start 0)
      stallOne).bind fun s => (step smallConfig s .afterBatch).map fun s' =>
        decide (0 < s.nextObject ∧ (s.objects 0).conn.hasDataToWrite = true ∧
          (s.objects 0).hist.closedBy = none ∧ (s'.objects 0).hist.closedBy ≠ none)) =
      some true := by
    decide +kernel
  obtain ⟨s, hs, hrest⟩ := Option.bind_eq_some_iff.1 hrun
  obtain ⟨s', hs', hvalue⟩ := Option.map_eq_some_iff.1 hrest
  obtain ⟨ho, hdata, hopen, hclosed⟩ := of_decide_eq_true hvalue
  exact ⟨s, s', hs, hs', write_timeout_fair (Runs.reached_of_runIf (.start ⟨0, rfl⟩) hs) hs' ho
    hdata hopen hclosed⟩

/-- The small server without a limit on its handlers. -/
def patientConfig : Config Nat :=
  { smallConfig with settings := { smallConfig.settings with handlerTimeoutSec := 0 } }

/-- The handler takes 40 seconds. -/
def slowOne : List (Act Nat) :=
  acceptOne ++ receiveOne getRequest ++ [.afterBatch, .take, .tick (40 * nanosPerSec),
    .work 0 smallEnv] ++ installOne

/-- The response of a slow handler is dropped in the sweep right after it has been
installed. -/
theorem slow_handler_dropped :
    ¬ ∀ s s', Runs.Reachable (serverSystem patientConfig) s →
      step patientConfig s .afterBatch = some s' → ∀ o, o < s.nextObject →
      (s.objects o).conn.hasDataToWrite = true → (s.objects o).hist.closedBy = none →
      (s'.objects o).hist.closedBy ≠ none →
        patientConfig.settings.writeTimeoutSec * nanosPerSec <
          (s.now : Int) - (s.objects o).hist.progressAt := by
  intro h
  have hrun : (((serverSystem patientConfig).run (Server.start 0) slowOne).bind fun s =>
      (step patientConfig s .afterBatch).map fun s' =>
        decide (0 < s.nextObject ∧ (s.objects 0).conn.hasDataToWrite = true ∧
          (s.objects 0).hist.closedBy = none ∧ (s'.objects 0).hist.closedBy ≠ none ∧
          (s.objects 0).hist.progressAt = s.now)) = some true := by
    decide +kernel
  obtain ⟨s, hs, hrest⟩ := Option.bind_eq_some_iff.1 hrun
  obtain ⟨s', hs', hvalue⟩ := Option.map_eq_some_iff.1 hrest
  obtain ⟨ho, hdata, hopen, hclosed, hprogress⟩ := of_decide_eq_true hvalue
  have hlate := h s s' (reachable_of_start hs) hs' 0 ho hdata hopen hclosed
  have hlimit : patientConfig.settings.writeTimeoutSec = 30 := rfl
  rw [hprogress, hlimit] at hlate
  unfold nanosPerSec at hlate
  omega

end Server

end Oreshnek
