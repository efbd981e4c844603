import Oreshnek.Server.Answers

/-!
# Responses without a body

A response that is `headOnly` gets no body byte on its way out
(`Session.Suppressed`), whatever the run. A worker makes every answer to a HEAD
request such a response; `dispatch_next` does not, for a request that it answers with
429 or 503 itself. `head_bodiless` says that this is the only way in which a HEAD
request gets a body.
-/

namespace Oreshnek

namespace Session

/-! ## Emissions -/

/-- Body bytes go out for responses with a body only. -/
structure Suppressed (x : Session) : Prop where
  emitted : ∀ e ∈ x.hist.emitted, e.body = [] ∨
    ∃ entry, x.hist.installed[e.index]? = some entry ∧ entry.response.headOnly = false
  writing : x.conn.hasDataToWrite = true → ∀ entry, x.hist.installed.getLast? = some entry →
    x.conn.headOnly = entry.response.headOnly

/-- Nothing has gone out, and the last response is still the one to be written. -/
theorem Suppressed.keep {x y : Session} (h : x.Suppressed)
    (hemitted : y.hist.emitted = x.hist.emitted)
    (hinstalled : y.hist.installed = x.hist.installed)
    (hdata : y.conn.hasDataToWrite = x.conn.hasDataToWrite)
    (hhead : y.conn.headOnly = x.conn.headOnly) : y.Suppressed where
  emitted e he := by
    rw [hinstalled]
    exact h.emitted e (hemitted ▸ he)
  writing hy entry hentry := by
    rw [hinstalled] at hentry
    exact hhead.trans (h.writing (hdata.symm.trans hy) entry hentry)

/-- Nothing is to be written any more. -/
theorem Suppressed.done {x y : Session} (h : x.Suppressed)
    (hemitted : y.hist.emitted = x.hist.emitted)
    (hinstalled : y.hist.installed = x.hist.installed)
    (hdata : y.conn.hasDataToWrite = false) : y.Suppressed where
  emitted e he := by
    rw [hinstalled]
    exact h.emitted e (hemitted ▸ he)
  writing hy := by
    rw [hdata] at hy
    cases hy

/-- A response is installed, and the connection takes its `headOnly`. -/
theorem Suppressed.install {x : Session} (h : x.Suppressed) (now : Nat) (ans : Answers)
    (serial madeFor : Nat) (inline : Bool) (res : HttpResponse) :
    (x.install now ans serial madeFor inline res).Suppressed where
  emitted e he := by
    rcases h.emitted e he with hbody | ⟨entry, hentry, hhead⟩
    · exact .inl hbody
    · refine .inr ⟨entry, ?_, hhead⟩
      exact (List.getElem?_append_left (List.getElem?_eq_some_iff.1 hentry).1).trans hentry
  writing hy entry hentry := by
    have hlast : (x.install now ans serial madeFor inline res).hist.installed.getLast? =
        some ⟨serial, madeFor, res, inline, x.hist.requests.length, x.conn.hasDataToWrite⟩ :=
      List.getLast?_concat
    rw [hlast] at hentry
    cases hentry
    exact Connection.setResponseContent_headOnly _ _ _ _

theorem Suppressed.close {x : Session} (h : x.Suppressed) (reason : CloseReason) :
    (x.close reason).Suppressed where
  emitted := h.emitted
  writing hy := h.writing (Connection.closeConnection_hasData hy)

/-- Bytes go out: of a body only when the last response has one. -/
theorem Suppressed.write {x : Session} (h : x.Suppressed) (hx : x.Left (.rearm .write))
    (now : Nat) (ans : Answers) : (x.afterWrite now ans).Suppressed := by
  have hhead : (x.afterWrite now ans).conn.headOnly = x.conn.headOnly := by
    have hout := congrArg Connection.headOnly (x.afterWrite_outside now ans)
    exact hout
  constructor
  · intro e he
    rcases List.mem_append.1 he with he | he
    · exact h.emitted e he
    · rw [List.mem_singleton.1 he]
      rcases hx with hwriting | ⟨hx, -⟩
      · -- armed with a response to write
        by_cases hsupp : x.conn.headOnly = true
        · exact .inl (Connection.writeData_headOnly hsupp now ans.write)
        · -- a response is being written, and it has a body
          have hpos : x.hist.installed.length - 1 < x.hist.installed.length := by
            have := hwriting.finished
            omega
          have hlast : x.hist.installed.getLast? =
              some x.hist.installed[x.hist.installed.length - 1] := by
            rw [List.getLast?_eq_getElem?]
            exact List.getElem?_eq_getElem hpos
          refine .inr ⟨x.hist.installed[x.hist.installed.length - 1], ?_, ?_⟩
          · exact List.getElem?_eq_getElem hpos
          · rw [← h.writing hwriting.data _ hlast]
            exact Bool.eq_false_iff.2 hsupp
      · -- armed for the handshake, with nothing to write
        exact .inl (afterWrite_idle hx.noData now ans).1
  · intro hdata entry hentry
    rw [hhead]
    exact h.writing (afterWrite_pending hdata) entry hentry

theorem Suppressed.shake {x : Session} (h : x.Suppressed) (now : Nat) (ans : Answers) :
    (x.shake now ans).Suppressed := by
  obtain ⟨done, want, last, hconn⟩ := handshake_outside x.conn now ans.accept
  have hhead := congrArg Connection.headOnly hconn
  exact h.keep (y := x.shake now ans) rfl rfl (x.shake_hasData now ans) hhead

theorem Suppressed.enter {x z : Session} {now : Nat} {ans : Answers} (h : x.Suppressed)
    (hz : Entered x now ans z) : z.Suppressed := by
  cases hz with
  | plain => exact h
  | shaken => exact h.shake now ans

theorem Suppressed.read {x : Session} (h : x.Suppressed) (now : Nat) (ans : Answers) :
    (x.afterRead now ans).Suppressed := by
  have hout := x.afterRead_outside now ans
  have hdata := congrArg Connection.hasDataToWrite hout
  have hhead := congrArg Connection.headOnly hout
  exact h.keep rfl rfl hdata hhead

/-- So it is in a callback. -/
theorem react_suppressed {x y : Session} {draining limited overloaded : Bool} {now o : Nat}
    {ans : Answers} {dir : Direction} {outcome : Outcome} (h : x.Suppressed)
    (hx : x.Left (.rearm dir)) (hopen : x.conn.isOpen = true)
    (hreact : x.react draining limited overloaded now ans o dir = some (y, outcome)) :
    y.Suppressed := by
  rcases react_cases hx hopen hreact with hhandle | ⟨z, -, hhandle, hready, hdispatch⟩
  · cases hhandle with
    | shaken => exact h.shake now ans
    | readEnd reason hz => exact (h.enter hz).read now ans
    | wrote => exact h.write hx now ans
    | finished => exact (h.write hx now ans).keep rfl rfl rfl rfl
  · have hz : z.Suppressed := by
      cases hhandle with
      | read hz => exact (h.enter hz).read now ans
      | reused => exact (h.write hx now ans).done rfl rfl rfl
    -- an answer on the spot, whichever it is
    have hreject : ∀ consumed inb res, ((z.parsed inb).reject now ans o consumed res).Suppressed := by
      intro consumed inb res
      have htaken := hz.done (y := (z.parsed inb).answering consumed res) rfl rfl hready.noData
      exact htaken.install now ans _ o true res
    cases hdispatch with
    | limited consumed inb => exact hreject consumed inb _
    | shed consumed inb => exact hreject consumed inb _
    | handedOver consumed inb => exact hz.done rfl rfl hready.noData
    | bad n inb => exact hz.done rfl rfl hready.noData
    | waits n inb =>
        obtain ⟨b, hconn⟩ := await_conn (z.parsed inb) ans
        refine hz.done (y := (z.parsed inb).await ans) rfl rfl ?_
        rw [hconn]
        exact hready.noData

theorem Suppressed.conclude {x : Session} (h : x.Suppressed) (success : Bool) (outcome : Outcome) :
    (x.concluded success outcome).Suppressed :=
  concluded_keeps h h.close success outcome

end Session

namespace Server

variable {H : Type} {cfg : Config H}

/-- Of a head-only response no byte of the body goes out. -/
theorem moves_suppressed {s : Server} {a : Act H} {o : Nat} {y : Session}
    (hx : (s.objects o).Suppressed) (h : Moves cfg s a o y) : y.Suppressed := by
  cases h with
  | same => exact hx
  | created fd clientIp ha ho =>
      exact ⟨fun e he => absurd he List.not_mem_nil, fun hdata => by cases hdata⟩
  | failed => exact hx.close .ioError
  | reacted ans fd dir rest x outcome ha hphase hlookup hleft hopen hreact =>
      exact (Session.react_suppressed hx hleft hopen hreact).conclude ans.rearmed outcome
  | completed ans c ready rest ha hphase hconn hlookup hhanded hserial =>
      have hdone : (s.objects o).workerDone.Suppressed := hx.keep rfl rfl rfl rfl
      exact (hdone.install s.now ans c.serial o false c.item.response).conclude _ _
  | timedOut fd reason ha hlookup hreason => exact hx.close reason
  | pushed => exact hx.keep rfl rfl rfl rfl

theorem reachable_suppressed {s : Server} (h : Runs.Reachable (serverSystem cfg) s) :
    ∀ o, o < s.nextObject → (s.objects o).Suppressed := by
  apply reached_session (J := fun _ x => x.Suppressed) ?_ ?_ h
  · intro o fd now clientIp
    exact ⟨fun e he => absurd he List.not_mem_nil, fun hdata => by cases hdata⟩
  · exact fun _ _ _ _ _ _ _ hx hmove => moves_suppressed hx hmove

/-! ## HEAD requests -/

/-- No HEAD request is answered by `dispatch_next` itself in this step: the rate
limiter allows it, and it is not shed. -/
def admitsHeads (cfg : Config H) (s : Server) (a : Act H) : Bool :=
  match s.dispatching a with
  | none => true
  | some (_, ans, z) =>
      match z.conn.toInbound.parseNext with
      | some (true, consumed, inb) =>
          decide ((inb.ownedRequest consumed).method = .head →
            ¬ (cfg.rateLimited = true ∧ ans.allow = false) ∧ s.overloaded cfg.settings = false)
      | _ => true

/-- The condition at a HEAD request: it is not turned away. -/
theorem admitsHeads_request {s : Server} {a : Act H} (h : admitsHeads cfg s a = true) {o : Nat}
    {ans : Answers} {z : Session} (hz : s.dispatching a = some (o, ans, z)) {consumed : Nat}
    {inb : Inbound} (hparse : z.conn.toInbound.parseNext = some (true, consumed, inb))
    (hhead : (inb.ownedRequest consumed).method = .head) :
    ¬ (cfg.rateLimited = true ∧ ans.allow = false) ∧ s.overloaded cfg.settings = false := by
  unfold admitsHeads at h
  rw [hz] at h
  dsimp only at h
  rw [hparse] at h
  exact of_decide_eq_true h hhead

/-- The responses made for HEAD requests have no body. -/
def HeadsOnly (x : Session) : Prop :=
  ∀ p ∈ x.hist.produced, p.request.method = .head → p.response.headOnly = true

/-- An answer to a HEAD request is installed as head-only. -/
theorem moves_headsOnly {s : Server} {a : Act H} {o : Nat} {y : Session}
    (hok : admitsHeads cfg s a = true) (hx : HeadsOnly (s.objects o)) (h : Moves cfg s a o y) :
    HeadsOnly y := by
  have hadd : ∀ p : Production, (p.request.method = .head → p.response.headOnly = true) →
      ∀ q ∈ (s.objects o).hist.produced ++ [p], q.request.method = .head →
        q.response.headOnly = true := by
    intro p hp q hq
    rcases List.mem_append.1 hq with hq | hq
    · exact hx q hq
    · rw [List.mem_singleton.1 hq]
      exact hp
  cases h with
  | same => exact hx
  | created fd clientIp ha ho => exact fun p hp => absurd hp List.not_mem_nil
  | failed => exact hx
  | reacted ans fd dir rest x outcome ha hphase hlookup hleft hopen hreact =>
      subst ha
      unfold HeadsOnly
      rw [(x.concluded_hist ans.rearmed outcome).2.1]
      rcases Session.react_cases hleft hopen hreact with
        hhandle | ⟨z, hz, hhandle, hready, hdispatch⟩
      · rw [(Session.handles_done_hist hhandle).2.1]
        exact hx
      · have hproduced := (Session.handles_hist hhandle).2.1
        have hdispatching := dispatching_eq (H := H) hphase hlookup hz
        have hsame : ∀ {y : Session}, y.hist.produced = z.hist.produced →
            ∀ p ∈ y.hist.produced, p.request.method = .head → p.response.headOnly = true := by
          intro y hy
          rw [hy, hproduced]
          exact hx
        cases hdispatch with
        | limited consumed inb hparse hlimited =>
            have hnew := hadd ⟨z.hist.requests.length, inb.ownedRequest consumed,
              Session.tooManyRequests⟩ fun hhead =>
                absurd hlimited (admitsHeads_request hok hdispatching hparse hhead).1
            rw [← hproduced] at hnew
            exact hnew
        | shed consumed inb hparse hoverloaded =>
            have hnew := hadd ⟨z.hist.requests.length, inb.ownedRequest consumed,
              Session.serviceUnavailable⟩ fun hhead => by
                have hroom := (admitsHeads_request hok hdispatching hparse hhead).2
                rw [hoverloaded] at hroom
                cases hroom
            rw [← hproduced] at hnew
            exact hnew
        | handedOver consumed inb => exact hsame rfl
        | bad n inb => exact hsame rfl
        | waits n inb => exact hsame rfl
  | completed ans c ready rest ha hphase hconn hlookup hhanded hserial =>
      unfold HeadsOnly
      rw [(((s.objects o).workerDone.install s.now ans c.serial o false
        c.item.response).concluded_hist ans.rearmed (.rearm .write)).2.1]
      exact hx
  | timedOut fd reason ha hlookup hreason => exact hx
  | pushed k env t ending res ha hk hconn htask =>
      apply hadd
      intro hhead
      -- a worker goes through `apply_http_semantics`
      rcases workerTask_pushed htask with hnone | ⟨req', res', hmethod, hpushed⟩
      · cases hnone
      · cases hpushed
        exact applyHttpSemantics_head _ (hmethod.trans hhead) _

/-- **A HEAD request gets no body.** In a run in which no HEAD request is refused by the
rate limiter or shed, `write_data` emits no body byte for the response to one. -/
theorem head_bodiless {s : Server}
    (h : Runs.Reached (serverSystem cfg) (fun s a => admitsHeads cfg s a = true) s) {o : Nat}
    (ho : o < s.nextObject) {e : Emission} (he : e ∈ (s.objects o).hist.emitted)
    {request : HttpRequest} (hrequest : (s.objects o).hist.requests[e.index]? = some request)
    (hhead : request.method = .head) : e.body = [] := by
  have hheads : ∀ o, o < s.nextObject → HeadsOnly (s.objects o) := by
    apply reached_session (J := fun _ x => HeadsOnly x) ?_ ?_ h
    · exact fun o fd now clientIp p hp => absurd hp List.not_mem_nil
    · exact fun _ _ _ _ _ hok _ hx hmove => moves_headsOnly hok hx hmove
  rcases (reachable_suppressed h.reachable o ho).emitted e he with hbody | ⟨entry, hentry, hfull⟩
  · exact hbody
  · -- the response of that entry was made for this request
    have horder := (reachable_matched h.reachable).order o ho
    obtain ⟨-, p, hp, hserial, hresponse⟩ := horder.installed e.index entry hentry
    have hmade : (s.objects o).hist.requests[e.index]? = some p.request := hserial ▸ horder.made p hp
    rw [hrequest] at hmade
    cases hmade
    have hsuppressed := hheads o ho p hp hhead
    rw [hresponse, hfull] at hsuppressed
    cases hsuppressed

def headRequest : Bytes := lit "HEAD / HTTP/1.1\r\n\r\n"

def headOne : List (Act Nat) :=
  acceptOne ++ receiveOne headRequest ++ [.afterBatch, .take, .work 0 smallEnv] ++ deliverOne

/-- One HEAD request. -/
theorem head_bodiless_one :
    ∃ s e request, (serverSystem smallConfig).runIf (admitsHeads smallConfig) (Server.start 0)
        headOne = some s ∧ e ∈ (s.objects 0).hist.emitted ∧
      (s.objects 0).hist.requests[e.index]? = some request ∧ request.method = .head ∧
      e.body = [] := by
  have hrun : (((serverSystem smallConfig).runIf (admitsHeads smallConfig) (Server.start 0)
      headOne).bind fun s => (s.objects 0).hist.emitted[0]?.bind fun e =>
        (s.objects 0).hist.requests[e.index]?.map fun request =>
          decide (0 < s.nextObject ∧ request.method = .head)) = some true := by
    decide +kernel
  obtain ⟨s, hs, hrest⟩ := Option.bind_eq_some_iff.1 hrun
  obtain ⟨e, he, hrest⟩ := Option.bind_eq_some_iff.1 hrest
  obtain ⟨request, hrequest, hvalue⟩ := Option.map_eq_some_iff.1 hrest
  obtain ⟨ho, hhead⟩ := of_decide_eq_true hvalue
  have hemitted := List.mem_of_getElem? he
  exact ⟨s, e, request, hs, hemitted, hrequest, hhead,
    head_bodiless (Runs.reached_of_runIf (.start ⟨0, rfl⟩) hs) ho hemitted hrequest hhead⟩

/-- The small server with a rate limiter. -/
def throttledConfig : Config Nat := { smallConfig with rateLimited := true }

/-- A HEAD request is throttled, and the answer sent. -/
def throttleHead : List (Act Nat) :=
  acceptOne ++ [.poll [.client 7 .read false],
    .client { recv := arriving headRequest, allow := false }, .afterBatch,
    .poll [.client 7 .write false], .client { write := takeAll }]

/-- The 429 answer to a HEAD request has a body. -/
theorem throttled_head_body :
    ¬ ∀ s, Runs.Reachable (serverSystem throttledConfig) s → ∀ o, o < s.nextObject →
      ∀ e ∈ (s.objects o).hist.emitted, ∀ request,
        (s.objects o).hist.requests[e.index]? = some request → request.method = .head →
          e.body = [] := by
  intro h
  have hrun : (((serverSystem throttledConfig).run (Server.start 0) throttleHead).bind fun s =>
      (s.objects 0).hist.emitted[0]?.bind fun e =>
        (s.objects 0).hist.requests[e.index]?.map fun request =>
          decide (0 < s.nextObject ∧ request.method = .head ∧ e.body ≠ [])) = some true := by
    decide +kernel
  obtain ⟨s, hs, hrest⟩ := Option.bind_eq_some_iff.1 hrun
  obtain ⟨e, he, hrest⟩ := Option.bind_eq_some_iff.1 hrest
  obtain ⟨request, hrequest, hvalue⟩ := Option.map_eq_some_iff.1 hrest
  obtain ⟨ho, hhead, hbody⟩ := of_decide_eq_true hvalue
  exact hbody (h s (reachable_of_start hs) 0 ho e (List.mem_of_getElem? he) request hrequest hhead)

end Server

end Oreshnek
