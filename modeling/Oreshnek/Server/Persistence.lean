import Oreshnek.Server.Answers

/-!
# Persistent connections

What a client asks for and what a response says about the connection, and what the
server does behind the last byte of the response. The server looks at `keep_alive_`,
which nothing ever clears, so that it closes a connection there only in a drain.
`persistence_agrees` says that this agrees with the headers in those runs in which
neither the request nor the response of a connection that goes on says
`Connection: close`.
-/

namespace Oreshnek

/-! ## What the headers say -/

/-- A text without the blanks around it. -/
def trimBlanks (text : Bytes) : Bytes :=
  ((text.dropWhile isspace).reverse.dropWhile isspace).reverse

/-- The token `close` in the list of a `Connection` header. -/
def hasCloseToken (value : Bytes) : Bool :=
  (value.splitOn 44).any fun token => (trimBlanks token).map tolower == lit "close"

/-- The request carries it, in its header map. -/
def HttpRequest.asksClose (req : HttpRequest) : Bool :=
  req.headers.entries.any fun e => e.1.map tolower == lit "connection" && hasCloseToken e.2.2.bytes

/-- The response does, in the map that its header block is written from. -/
def HttpResponse.saysClose (res : HttpResponse) : Bool :=
  res.headers.entries.any fun e => e.1.map tolower == lit "connection" && hasCloseToken e.2

namespace Session

/-- The `k`-th response says `close`, or the request that it answers does. -/
def saysClose (x : Session) (k : Nat) : Bool :=
  x.hist.installed[k]?.any fun e =>
    e.response.saysClose || x.hist.requests[e.serial]?.any HttpRequest.asksClose

/-- What has been said does not change. -/
theorem saysClose_keep {x y : Session} {k : Nat} {e : Installation} {request : HttpRequest}
    (hinstalled : x.hist.installed <+: y.hist.installed)
    (hrequests : x.hist.requests <+: y.hist.requests) (he : x.hist.installed[k]? = some e)
    (hrequest : x.hist.requests[e.serial]? = some request) : y.saysClose k = x.saysClose k := by
  have he' : y.hist.installed[k]? = some e := by
    obtain ⟨more, hmore⟩ := hinstalled
    rw [← hmore, List.getElem?_append_left (List.getElem?_eq_some_iff.1 he).1]
    exact he
  have hrequest' : y.hist.requests[e.serial]? = some request := by
    obtain ⟨more, hmore⟩ := hrequests
    rw [← hmore, List.getElem?_append_left (List.getElem?_eq_some_iff.1 hrequest).1]
    exact hrequest
  unfold saysClose
  rw [he, he', Option.any_some, Option.any_some, hrequest, hrequest']

/-! ## `keep_alive_` -/

/-- Entering a callback leaves `keep_alive_`. -/
theorem entered_keepAlive {x z : Session} {now : Nat} {ans : Answers} (h : Entered x now ans z) :
    z.conn.keepAlive = x.conn.keepAlive := by
  cases h with
  | plain => rfl
  | shaken =>
      obtain ⟨done, want, last, hconn⟩ := handshake_outside x.conn now ans.accept
      have hkeep := congrArg Connection.keepAlive hconn
      exact hkeep

theorem afterRead_keepAlive (x : Session) (now : Nat) (ans : Answers) :
    (x.afterRead now ans).conn.keepAlive = x.conn.keepAlive := by
  have hkeep := congrArg Connection.keepAlive (x.afterRead_outside now ans)
  exact hkeep

theorem afterWrite_keepAlive (x : Session) (now : Nat) (ans : Answers) :
    (x.afterWrite now ans).conn.keepAlive = x.conn.keepAlive := by
  have hkeep := congrArg Connection.keepAlive (x.afterWrite_outside now ans)
  exact hkeep

theorem install_keepAlive (x : Session) (now : Nat) (ans : Answers) (serial madeFor : Nat)
    (inline : Bool) (res : HttpResponse) :
    (x.install now ans serial madeFor inline res).conn.keepAlive = x.conn.keepAlive := by
  have hkeep := congrArg Connection.keepAlive (x.install_outside now ans serial madeFor inline res)
  exact hkeep

/-- No callback touches it. -/
theorem react_keepAlive {x y : Session} {draining limited overloaded : Bool} {now o : Nat}
    {ans : Answers} {dir : Direction} {outcome : Outcome} (hx : x.Left (.rearm dir))
    (hopen : x.conn.isOpen = true)
    (h : x.react draining limited overloaded now ans o dir = some (y, outcome)) :
    y.conn.keepAlive = x.conn.keepAlive := by
  rcases react_cases hx hopen h with hhandle | ⟨z, -, hhandle, -, hdispatch⟩
  · cases hhandle with
    | shaken dir outcome htls hdone =>
        obtain ⟨done, want, last, hconn⟩ := handshake_outside x.conn now ans.accept
        have hkeep := congrArg Connection.keepAlive hconn
        exact hkeep
    | readEnd reason hz => exact (afterRead_keepAlive _ now ans).trans (entered_keepAlive hz)
    | wrote => exact afterWrite_keepAlive x now ans
    | finished => exact afterWrite_keepAlive x now ans
  · have hz : z.conn.keepAlive = x.conn.keepAlive := by
      cases hhandle with
      | read hz => exact (afterRead_keepAlive _ now ans).trans (entered_keepAlive hz)
      | reused => exact afterWrite_keepAlive x now ans
    cases hdispatch with
    | limited consumed inb => exact (install_keepAlive _ _ _ _ _ _ _).trans hz
    | shed consumed inb => exact (install_keepAlive _ _ _ _ _ _ _).trans hz
    | handedOver => exact hz
    | bad => exact hz
    | waits n inb =>
        obtain ⟨b, hconn⟩ := await_conn (z.parsed inb) ans
        have hkeep := congrArg Connection.keepAlive hconn
        exact hkeep.trans hz

theorem concluded_keepAlive (x : Session) (success : Bool) (outcome : Outcome) :
    (x.concluded success outcome).conn.keepAlive = x.conn.keepAlive :=
  concluded_keeps (P := fun y => y.conn.keepAlive = x.conn.keepAlive) rfl (fun _ => rfl)
    success outcome

/-! ## Behind the last byte -/

/-- This write hands the response to the socket in full. -/
def writesLast (x : Session) (now : Nat) (ans : Answers) : Bool :=
  x.conn.hasDataToWrite && decide (0 ≤ (x.conn.writeData now ans.write).ret) &&
    !(x.afterWrite now ans).conn.hasDataToWrite

/-- What a callback counts as finished, and how it goes on from there. -/
inductive Finishes (x : Session) (draining : Bool) (now : Nat) (ans : Answers) (y : Session) :
    Direction → Outcome → Prop where
  | same (dir : Direction) (outcome : Outcome) (hfinished : y.hist.finished = x.hist.finished)
      (houtcome : outcome ≠ .close .finished) : Finishes x draining now ans y dir outcome
  | closed (hfinished : y.hist.finished = x.hist.installed.length) (hdraining : draining = true) :
      Finishes x draining now ans y .write (.close .finished)
  | reused (outcome : Outcome) (hfinished : y.hist.finished = x.hist.installed.length)
      (hdraining : draining = false) (houtcome : outcome ≠ .close .finished)
      (hlast : x.conn.hasDataToWrite = true → x.writesLast now ans = true) :
      Finishes x draining now ans y .write outcome

/-- A dispatch finishes no response. -/
theorem dispatches_finished {y z : Session} {limited overloaded : Bool} {now o : Nat}
    {ans : Answers} {outcome : Outcome} (h : Dispatches z limited overloaded now ans o y outcome) :
    y.hist.finished = z.hist.finished ∧ outcome ≠ .close .finished := by
  cases h with
  | limited => exact ⟨rfl, fun h => (nomatch h)⟩
  | shed => exact ⟨rfl, fun h => (nomatch h)⟩
  | handedOver => exact ⟨rfl, fun h => (nomatch h)⟩
  | bad => exact ⟨rfl, fun h => (nomatch h)⟩
  | waits => exact ⟨rfl, fun h => (nomatch h)⟩

/-- Which way the server goes behind the last byte. -/
theorem handle_write_ends {x : Session} (hkeep : x.conn.keepAlive = true)
    (hopen : x.conn.isOpen = true) (draining : Bool) (now : Nat) (ans : Answers) :
    (∀ y, x.handle draining now ans .write = .done y (.close .finished) → draining = true) ∧
      ∀ z, x.handle draining now ans .write = .dispatch z → draining = false := by
  have hafter := (x.afterWrite_keepAlive now ans).trans hkeep
  have hboth : ∀ flow, x.handle draining now ans .write = flow →
      (∀ y, flow = .done y (.close .finished) → draining = true) ∧
        ∀ z, flow = .dispatch z → draining = false := by
    rintro flow rfl
    show (∀ y, x.handleWriteReady draining now ans = _ → _) ∧
      ∀ z, x.handleWriteReady draining now ans = _ → _
    unfold handleWriteReady
    rw [if_neg (not_not_intro hopen)]
    dsimp only
    split
    · split
      · exact ⟨fun y h => (nomatch h), fun z h => (nomatch h)⟩
      · split
        · exact ⟨fun y h => (nomatch h), fun z h => (nomatch h)⟩
        · exact ⟨fun y h => (nomatch h), fun z h => (nomatch h)⟩
    · split
      · exact ⟨fun y h => (nomatch h), fun z h => (nomatch h)⟩
      · split
        · exact ⟨fun y h => (nomatch h), fun z h => (nomatch h)⟩
        · rw [hafter]
          split
          case isTrue hclose =>
            refine ⟨fun y _ => ?_, fun z h => (nomatch h)⟩
            exact hclose.resolve_left fun h => h rfl
          case isFalse hgo =>
            refine ⟨fun y h => (nomatch h), fun z _ => ?_⟩
            rw [← Bool.not_eq_true]
            exact fun h => hgo (.inr h)
  exact hboth _ rfl

/-- What a callback can do when a response has been sent in full. -/
theorem react_finishes {x y : Session} {draining limited overloaded : Bool} {now o : Nat}
    {ans : Answers} {dir : Direction} {outcome : Outcome} (hx : x.Left (.rearm dir))
    (hopen : x.conn.isOpen = true) (hkeep : x.conn.keepAlive = true)
    (h : x.react draining limited overloaded now ans o dir = some (y, outcome)) :
    Finishes x draining now ans y dir outcome := by
  have hends := handle_write_ends hkeep hopen draining now ans
  have hhandle := handle_cases hopen draining now ans dir
  have hflow := handle_sound hx hopen draining now ans
  unfold react at h
  split at h
  next z outcome' hz =>
    -- nothing was dispatched: a response ends only where the connection is closed for it
    cases h
    rw [hz] at hhandle
    cases hhandle with
    | shaken dir outcome htls hdone houtcome =>
        refine .same _ _ rfl ?_
        rcases houtcome with rfl | rfl | ⟨-, d, rfl⟩
        · exact fun h => (nomatch h)
        · exact fun h => (nomatch h)
        · exact fun h => (nomatch h)
    | readEnd reason hentered hreason =>
        refine .same _ _ (by rw [← entered_hist hentered]; rfl) ?_
        rcases hreason with rfl | rfl | rfl
        · exact fun h => (nomatch h)
        · exact fun h => (nomatch h)
        · exact fun h => (nomatch h)
    | wrote outcome houtcome =>
        refine .same _ _ rfl ?_
        rcases houtcome with rfl | ⟨rfl, -⟩
        · exact fun h => (nomatch h)
        · exact fun h => (nomatch h)
    | finished => exact .closed rfl (hends.1 _ hz)
  next z hz =>
    -- dispatched, after a read or behind the last byte of a response
    rw [hz] at hhandle hflow
    obtain ⟨hfinished, houtcome⟩ := dispatches_finished (dispatch_cases hflow.1.processing h)
    cases hhandle with
    | read hentered =>
        exact .same _ _ (hfinished.trans (by rw [← entered_hist hentered]; rfl)) houtcome
    | reused hsecured hret hdata =>
        refine .reused _ hfinished (hends.2 _ hz) houtcome fun hpending => ?_
        unfold writesLast
        rw [hpending, hdata, decide_eq_true hret]
        rfl

theorem concluded_finished (x : Session) (success : Bool) (outcome : Outcome) :
    (x.concluded success outcome).hist.finished = x.hist.finished :=
  concluded_keeps (P := fun y => y.hist.finished = x.hist.finished) rfl (fun _ => rfl)
    success outcome

/-- An open connection is closed as finished by this outcome only. -/
theorem concluded_closed {x : Session} (hx : x.hist.closedBy = none) (success : Bool)
    (outcome : Outcome) :
    (x.concluded success outcome).hist.closedBy = some .finished ↔
      outcome = .close .finished := by
  rcases x.concluded_cases success outcome with
    ⟨hsame, hother⟩ | ⟨reason, hclosed, rfl | ⟨rfl, hother⟩⟩
  · rw [hsame, hx]
    exact iff_of_false nofun (hother .finished)
  · rw [hclosed]
    exact ⟨fun h => congrArg Outcome.close (Option.some.inj h), fun h => congrArg some
      (Outcome.close.inj h)⟩
  · rw [hclosed]
    exact iff_of_false nofun (hother .finished)

/-- Behind a response that says `close` the connection is closed. -/
def Closes (x : Session) : Prop :=
  ∀ k < x.hist.finished, x.saysClose k = true →
    x.hist.closedBy = some .finished ∧ k + 1 = x.hist.finished

end Session

namespace Server

variable {H : Type} {cfg : Config H}

/-! ## Draining never ends -/

/-- A server that drains goes on to do so. -/
theorem step_draining {s s' : Server} {a : Act H} (hstep : step cfg s a = some s')
    (h : s.draining = true) : s'.draining = true := by
  have hwithout : ∀ {t : Server}, s'.withoutConnections = t.withoutConnections →
      t.draining = true → s'.draining = true := by
    intro t ht hdraining
    have hsame := congrArg Server.draining ht
    have hsame : s'.draining = t.draining := hsame
    rw [hsame]
    exact hdraining
  cases step_cases hstep with
  | clientError ans fd dir rest hphase =>
      exact hwithout (closeConnection_without { s with phase := .batch rest } fd .ioError) h
  | client ans fd o dir rest x outcome hphase hlookup hreact =>
      exact (conclude_frame Server.draining (fun _ => rfl) (fun _ _ _ => rfl) ..).trans h
  | complete ans c ready rest hphase =>
      exact hwithout (processCompletion_without { s with phase := .completing ready rest } ans c) h
  | afterBatch hphase =>
      have hbegin : s.beginDrain cfg.settings = s := by
        unfold beginDrain
        rw [if_neg fun hb => hb.1 h]
      rw [hbegin]
      obtain ⟨last, hlast⟩ := cleanup_without s cfg.settings
      have hdraining := congrArg Server.draining hlast
      exact hdraining.trans h
  | work k env t pushed hk htask =>
      cases pushed with
      | nil => exact h
      | cons item pushed => exact h
  | _ => exact h

/-! ## Every object -/

/-- No move changes `keep_alive_`. -/
theorem moves_keepAlive {s : Server} {a : Act H} {o : Nat} {y : Session}
    (hx : (s.objects o).conn.keepAlive = true) (h : Moves cfg s a o y) :
    y.conn.keepAlive = true := by
  cases h with
  | same => exact hx
  | created => rfl
  | failed => exact hx
  | reacted ans fd dir rest x outcome ha hphase hlookup hleft hopen hreact =>
      exact (x.concluded_keepAlive ans.rearmed outcome).trans
        ((Session.react_keepAlive hleft hopen hreact).trans hx)
  | completed ans c ready rest ha hphase hconn hlookup hhanded hserial =>
      exact (Session.concluded_keepAlive _ ans.rearmed _).trans
        ((Session.install_keepAlive _ _ _ _ _ _ _).trans hx)
  | timedOut => exact hx
  | pushed => exact hx

theorem reachable_keepAlive {s : Server} (h : Runs.Reachable (serverSystem cfg) s) :
    ∀ o, o < s.nextObject → (s.objects o).conn.keepAlive = true :=
  reached_session (J := fun _ x => x.conn.keepAlive = true) (fun _ _ _ _ => rfl)
    (fun _ _ _ _ _ _ _ hx hmove => moves_keepAlive hx hmove) h

/-- The requests and responses of an object only become more. -/
theorem moves_log {s : Server} {a : Act H} {o : Nat} {y : Session} (ho : o < s.nextObject)
    (h : Moves cfg s a o y) :
    (s.objects o).hist.installed <+: y.hist.installed ∧
      (s.objects o).hist.requests <+: y.hist.requests := by
  cases h with
  | same => exact ⟨List.prefix_rfl, List.prefix_rfl⟩
  | created fd clientIp ha hnew => exact absurd hnew (Nat.ne_of_lt ho)
  | failed => exact ⟨List.prefix_rfl, List.prefix_rfl⟩
  | reacted ans fd dir rest x outcome ha hphase hlookup hleft hopen hreact =>
      obtain ⟨hreq, -, hinst⟩ := x.concluded_hist ans.rearmed outcome
      rw [hreq, hinst]
      clear hreq hinst
      cases Session.react_grows hleft hopen hreact with
      | same hrequests hproduced hinstalled =>
          rw [hrequests, hinstalled]
          exact ⟨List.prefix_rfl, List.prefix_rfl⟩
      | taken request hrequests hproduced hinstalled =>
          rw [hrequests, hinstalled]
          exact ⟨List.prefix_rfl, List.prefix_append _ _⟩
      | rejected request res status hres hanswered hrequests hproduced hinstalled =>
          rw [hrequests, hinstalled]
          exact ⟨List.prefix_append _ _, List.prefix_append _ _⟩
  | completed ans c ready rest ha hphase hconn hlookup hhanded hserial =>
      obtain ⟨hrequests, -, hinstalled⟩ := ((s.objects o).workerDone.install s.now ans c.serial o
        false c.item.response).concluded_hist ans.rearmed (.rearm .write)
      rw [hrequests, hinstalled]
      exact ⟨List.prefix_append _ _, List.prefix_rfl⟩
  | timedOut => exact ⟨List.prefix_rfl, List.prefix_rfl⟩
  | pushed => exact ⟨List.prefix_rfl, List.prefix_rfl⟩

/-- No more responses are finished than have been installed. -/
theorem moves_bound {s : Server} {a : Act H} {o : Nat} {y : Session}
    (hs : Runs.Reachable (serverSystem cfg) s) (ho : o < s.nextObject)
    (hx : (s.objects o).hist.finished ≤ (s.objects o).hist.installed.length)
    (h : Moves cfg s a o y) : y.hist.finished ≤ y.hist.installed.length := by
  have hgrows := (moves_log ho h).1.length_le
  cases h with
  | same => exact hx
  | created fd clientIp ha hnew => exact absurd hnew (Nat.ne_of_lt ho)
  | failed => exact hx
  | reacted ans fd dir rest x outcome ha hphase hlookup hleft hopen hreact =>
      have hfinished := x.concluded_finished ans.rearmed outcome
      cases Session.react_finishes hleft hopen (reachable_keepAlive hs o ho) hreact with
      | same dir outcome hsame => omega
      | closed hall => omega
      | reused outcome hall => omega
  | completed ans c ready rest ha hphase hconn hlookup hhanded hserial =>
      have hfinished := ((s.objects o).workerDone.install s.now ans c.serial o false
        c.item.response).concluded_finished ans.rearmed (.rearm .write)
      have hsame : ((s.objects o).workerDone.install s.now ans c.serial o false
        c.item.response).hist.finished = (s.objects o).hist.finished := rfl
      omega
  | timedOut => exact hx
  | pushed => exact hx

theorem reachable_bound {s : Server} (h : Runs.Reachable (serverSystem cfg) s) :
    ∀ o, o < s.nextObject → (s.objects o).hist.finished ≤ (s.objects o).hist.installed.length :=
  reached_session (J := fun _ x => x.hist.finished ≤ x.hist.installed.length)
    (fun _ _ _ _ => le_rfl) (fun _ _ _ _ hs _ ho hx hmove => moves_bound hs ho hx hmove) h

/-- The object whose response is handed to the socket in full by this step. -/
def finishing (s : Server) : Act H → Option Nat
  | .client ans =>
      match s.phase with
      | .batch (.client fd .write false :: _) =>
          (s.connections.lookup fd).filter fun o => (s.objects o).writesLast s.now ans
      | _ => none
  | _ => none

/-- Outside a drain, neither the response that is finished by this step nor its request
says `close`. -/
def persists (s : Server) (a : Act H) : Bool :=
  match s.finishing a with
  | none => true
  | some o => s.draining || !(s.objects o).saysClose (s.objects o).hist.finished

/-- The condition at the end of a response. -/
theorem persists_last {s : Server} {ans : Answers} {fd o : Nat} {rest : List Event}
    (hok : persists s (.client ans : Act H) = true)
    (hphase : s.phase = .batch (.client fd .write false :: rest))
    (hlookup : s.connections.lookup fd = some o) (hdraining : s.draining = false)
    (hlast : (s.objects o).writesLast s.now ans = true) :
    (s.objects o).saysClose (s.objects o).hist.finished = false := by
  have hfinishing : s.finishing (.client ans : Act H) = some o := by
    unfold finishing
    dsimp only
    rw [hphase]
    dsimp only
    rw [hlookup, Option.filter_some, if_pos hlast]
  unfold persists at hok
  rw [hfinishing] at hok
  dsimp only at hok
  rw [hdraining, Bool.false_or] at hok
  simpa using hok

/-- Whatever becomes of an object, its connection is closed behind a response that says so. -/
theorem moves_closes {s : Server} {a : Act H} {o : Nat} {y : Session}
    (hs : Runs.Reachable (serverSystem cfg) s) (hok : persists s a = true) (ho : o < s.nextObject)
    (hx : (s.objects o).Closes) (h : Moves cfg s a o y) : y.Closes := by
  have hinv := reachable_inv hs
  have hlog := moves_log ho h
  have hsettled := reachable_settled hs o ho
  -- what the responses so far have said is said behind the step
  have hsaid : ∀ k < (s.objects o).hist.installed.length,
      y.saysClose k = (s.objects o).saysClose k := by
    intro k hk
    have he := List.getElem?_eq_getElem hk
    obtain ⟨hentry, p, hp, hserial, -⟩ := ((reachable_matched hs).order o ho).installed k _ he
    have hmade := ((reachable_matched hs).order o ho).made p hp
    have hserial' : ((s.objects o).hist.installed[k]).serial = p.serial := by
      rw [hentry, hserial]
      rfl
    exact Session.saysClose_keep hlog.1 hlog.2 he (hserial' ▸ hmade)
  have hbound := reachable_bound hs o ho
  -- an open connection has finished no response that says `close`
  have hnever : (s.objects o).conn.isOpen = true → ∀ k < (s.objects o).hist.finished,
      (s.objects o).saysClose k = false := by
    intro hopen k hk
    rw [← Bool.not_eq_true]
    intro hsays
    have hclosed := (hx k hk hsays).1
    rw [hsettled.1.2 hopen] at hclosed
    cases hclosed
  have hquiet : (s.objects o).conn.isOpen = true →
      y.hist.finished = (s.objects o).hist.finished → y.Closes := by
    intro hopen hfinished k hk hsays
    rw [hfinished] at hk
    rw [hsaid k (Nat.lt_of_lt_of_le hk hbound), hnever hopen k hk] at hsays
    cases hsays
  cases h with
  | same => exact hx
  | created fd clientIp ha hnew => exact absurd hnew (Nat.ne_of_lt ho)
  | failed ans fd dir rest ha hphase hlookup => exact hquiet (serves_open hinv hlookup) rfl
  | reacted ans fd dir rest x outcome ha hphase hlookup hleft hopen hreact =>
      have hfinished := x.concluded_finished ans.rearmed outcome
      have hnone : x.hist.closedBy = none :=
        (Session.react_closedBy hleft hopen hreact).trans (hsettled.1.2 hopen)
      have hclosed := Session.concluded_closed hnone ans.rearmed outcome
      cases Session.react_finishes hleft hopen (reachable_keepAlive hs o ho) hreact with
      | same dir outcome hsame => exact hquiet hopen (hfinished.trans hsame)
      | closed hall hdraining =>
          -- the response that says `close` is the one that has just been finished
          intro k hk hsays
          rw [hfinished, hall] at hk ⊢
          rw [hsaid k hk] at hsays
          refine ⟨hclosed.2 rfl, ?_⟩
          have hlast : ¬ k < (s.objects o).hist.finished := by
            intro hk
            rw [hnever hopen k hk] at hsays
            cases hsays
          rcases hleft with hwriting | ⟨hidle, -⟩
          · have := hwriting.finished
            omega
          · have := hidle.finished
            omega
      | reused outcome hall hdraining houtcome hlast =>
          -- under the condition of the run the response just finished does not say `close`
          subst ha
          intro k hk hsays
          rw [hfinished, hall] at hk
          rw [hsaid k hk] at hsays
          have hnext : ¬ k < (s.objects o).hist.finished := by
            intro hk
            rw [hnever hopen k hk] at hsays
            cases hsays
          rcases hleft with hwriting | ⟨hidle, -⟩
          · have hsilent := persists_last hok hphase hlookup hdraining (hlast hwriting.data)
            have hk : k = (s.objects o).hist.finished := by
              have := hwriting.finished
              omega
            rw [hk, hsilent] at hsays
            cases hsays
          · have := hidle.finished
            omega
  | completed ans c ready rest ha hphase hconn hlookup hhanded hserial =>
      exact hquiet (serves_open hinv hlookup) (Session.concluded_finished _ ans.rearmed _)
  | timedOut fd reason ha hlookup => exact hquiet (serves_open hinv hlookup) rfl
  | pushed => exact hx

/-- A connection is closed as finished in a drain only. -/
theorem moves_finished {s : Server} {a : Act H} {o : Nat} {y : Session}
    (hs : Runs.Reachable (serverSystem cfg) s) (ho : o < s.nextObject)
    (hx : (s.objects o).hist.closedBy = some .finished → s.draining = true)
    (h : Moves cfg s a o y) (hy : y.hist.closedBy = some .finished) : s.draining = true := by
  have hsettled := reachable_settled hs o ho
  cases h with
  | same => exact hx hy
  | created fd clientIp ha hnew => exact absurd hnew (Nat.ne_of_lt ho)
  | failed => cases hy
  | reacted ans fd dir rest x outcome ha hphase hlookup hleft hopen hreact =>
      have hnone : x.hist.closedBy = none :=
        (Session.react_closedBy hleft hopen hreact).trans (hsettled.1.2 hopen)
      have houtcome := (Session.concluded_closed hnone ans.rearmed outcome).1 hy
      cases Session.react_finishes hleft hopen (reachable_keepAlive hs o ho) hreact with
      | same dir outcome hsame hother => exact absurd houtcome hother
      | closed hall hdraining => exact hdraining
      | reused outcome hall hdraining hother => exact absurd houtcome hother
  | completed ans c ready rest ha hphase hconn hlookup hhanded hserial =>
      have hopen := serves_open (reachable_inv hs) hlookup
      have hnone : ((s.objects o).workerDone.install s.now ans c.serial o false
          c.item.response).hist.closedBy = none := hsettled.1.2 hopen
      cases (Session.concluded_closed hnone ans.rearmed (.rearm .write)).1 hy
  | timedOut fd reason ha hlookup hreason =>
      rcases timeoutOf_reason hreason with rfl | rfl | rfl | rfl
      · cases hy
      · cases hy
      · cases hy
      · cases hy
  | pushed => exact hx hy

/-- A connection is closed as finished only while the server drains. -/
theorem reached_finished {s : Server} (h : Runs.Reachable (serverSystem cfg) s) :
    ∀ o, o < s.nextObject → (s.objects o).hist.closedBy = some .finished → s.draining = true := by
  apply Runs.Reachable.invariant (P := fun s => ∀ o, o < s.nextObject →
    (s.objects o).hist.closedBy = some .finished → s.draining = true) ?_ ?_ h
  · rintro s ⟨now, rfl⟩ o ho
    exact absurd ho (Nat.not_lt_zero _)
  · intro s a s' hs hx hstep o ho hclosed
    apply step_draining hstep
    have hmoves := step_moves (reachable_inv hs) hstep o
    rcases step_nextObject hstep with hnext | ⟨fd, clientIp, -, hnext, hobject⟩
    · rw [hnext] at ho
      exact moves_finished hs ho (hx o ho) hmoves hclosed
    · rw [hnext] at ho
      rcases Nat.lt_succ_iff_lt_or_eq.1 ho with ho | rfl
      · exact moves_finished hs ho (hx o ho) hmoves hclosed
      · rw [hobject] at hclosed
        cases hclosed

/-- **What is said and what is done agree.** In a run in which no response that is
finished outside a drain says `close`, nor its request, each connection behind such a
response is closed, and any other one stays open outside a drain. -/
theorem persistence_agrees {s : Server}
    (h : Runs.Reached (serverSystem cfg) (fun s a => persists s a = true) s) {o : Nat}
    (ho : o < s.nextObject) :
    (∀ k < (s.objects o).hist.finished, (s.objects o).saysClose k = true →
      (s.objects o).hist.closedBy = some .finished ∧ k + 1 = (s.objects o).hist.finished) ∧
    ((s.objects o).hist.closedBy = some .finished →
      s.draining = true ∨ (s.objects o).saysClose ((s.objects o).hist.finished - 1) = true) := by
  constructor
  · apply reached_session (J := fun _ x => x.Closes) ?_ ?_ h o ho
    · intro o fd now clientIp k hk
      exact absurd hk (Nat.not_lt_zero _)
    · exact fun s a o y hs hok ho hx hmove => moves_closes hs.reachable hok ho hx hmove
  · intro hclosed
    exact .inl (reached_finished h.reachable o ho hclosed)

/-- A request is answered, and the answer sent. -/
def exchangeOne (request : Bytes) : List (Act Nat) :=
  acceptOne ++ receiveOne request ++ [.afterBatch, .take, .work 0 smallEnv] ++ deliverOne

/-- One request answered on a connection that stays open. -/
theorem persistence_agrees_one :
    ∃ s, (serverSystem smallConfig).runIf persists (Server.start 0) (exchangeOne getRequest) =
        some s ∧
      (s.objects 0).hist.finished = 1 ∧ (s.objects 0).hist.closedBy = none ∧
      ∀ k < (s.objects 0).hist.finished, (s.objects 0).saysClose k = true →
        (s.objects 0).hist.closedBy = some .finished ∧ k + 1 = (s.objects 0).hist.finished := by
  have hrun : ((serverSystem smallConfig).runIf persists (Server.start 0)
      (exchangeOne getRequest)).map (fun s => decide (0 < s.nextObject ∧
        (s.objects 0).hist.finished = 1 ∧ (s.objects 0).hist.closedBy = none)) = some true := by
    decide +kernel
  obtain ⟨s, hs, hvalue⟩ := Option.map_eq_some_iff.1 hrun
  obtain ⟨ho, hfinished, hclosed⟩ := of_decide_eq_true hvalue
  refine ⟨s, hs, hfinished, hclosed, ?_⟩
  exact (persistence_agrees (Runs.reached_of_runIf (.start ⟨0, rfl⟩) hs) ho).1

/-- A request that asks for its connection to be closed. -/
def closeRequest : Bytes := lit "GET / HTTP/1.1\r\nConnection: close\r\n\r\n"

/-- The connection stays open behind its response. -/
theorem close_ignored :
    ¬ ∀ s, Runs.Reachable (serverSystem smallConfig) s → ∀ o, o < s.nextObject →
      ∀ k < (s.objects o).hist.finished, (s.objects o).saysClose k = true →
        (s.objects o).hist.closedBy = some .finished := by
  intro h
  have hrun : ((serverSystem smallConfig).run (Server.start 0) (exchangeOne closeRequest)).map
      (fun s => decide (0 < s.nextObject ∧ 0 < (s.objects 0).hist.finished ∧
        (s.objects 0).saysClose 0 = true ∧ (s.objects 0).hist.closedBy = none)) = some true := by
    decide +kernel
  obtain ⟨s, hs, hvalue⟩ := Option.map_eq_some_iff.1 hrun
  obtain ⟨ho, hfinished, hsays, hopen⟩ := of_decide_eq_true hvalue
  have hclosed := h s (reachable_of_start hs) 0 ho 0 hfinished hsays
  rw [hopen] at hclosed
  cases hclosed

end Server

end Oreshnek
