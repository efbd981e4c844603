import Oreshnek.Server.Moves

/-!
# Interim responses

`continue_sent_` records that the interim response has been sent. It is set once in
the life of a connection (`Session.Continued`), since nothing takes it back when the
next request begins. `interim_once` says that each request that waits for its interim
response gets one in those runs in which no earlier request of the connection got one.
-/

namespace Oreshnek

namespace Session

/-- The flag says that the interim response has been sent, which was at most once; the
requests that waited for one have got it. -/
structure Continued (x : Session) : Prop where
  flag : x.conn.continueSent = true ↔ x.hist.interim ≠ []
  single : x.hist.interim.length ≤ 1
  sent : ∀ k ∈ x.hist.awaited, k ∈ x.hist.interim

/-- What leaves the flag and the two lists keeps the relation. -/
theorem Continued.keep {x y : Session} (h : x.Continued)
    (hflag : y.conn.continueSent = x.conn.continueSent)
    (hawaited : y.hist.awaited = x.hist.awaited) (hinterim : y.hist.interim = x.hist.interim) :
    y.Continued := by
  constructor
  · rw [hflag, hinterim]
    exact h.flag
  · rw [hinterim]
    exact h.single
  · rw [hawaited, hinterim]
    exact h.sent

/-- A new connection has sent no interim response. -/
theorem new_continued (fd now : Nat) (clientIp : Bytes) (tls : Bool) :
    (Session.new fd now clientIp tls).Continued := by
  constructor
  · constructor
    · intro hflag
      cases hflag
    · intro hne
      exact absurd rfl hne
  · exact Nat.zero_le _
  · intro k hk
    exact absurd hk List.not_mem_nil

theorem Continued.shake {x : Session} (h : x.Continued) (now : Nat) (ans : Answers) :
    (x.shake now ans).Continued := by
  obtain ⟨done, want, last, hconn⟩ := handshake_outside x.conn now ans.accept
  have hflag := congrArg Connection.continueSent hconn
  exact h.keep (y := x.shake now ans) hflag rfl rfl

theorem Continued.enter {x z : Session} {now : Nat} {ans : Answers} (h : x.Continued)
    (hz : Entered x now ans z) : z.Continued := by
  cases hz with
  | plain => exact h
  | shaken => exact h.shake now ans

theorem Continued.read {x : Session} (h : x.Continued) (now : Nat) (ans : Answers) :
    (x.afterRead now ans).Continued := by
  have hflag := congrArg Connection.continueSent (x.afterRead_outside now ans)
  exact h.keep hflag rfl rfl

theorem Continued.write {x : Session} (h : x.Continued) (now : Nat) (ans : Answers) :
    (x.afterWrite now ans).Continued := by
  have hflag := congrArg Connection.continueSent (x.afterWrite_outside now ans)
  exact h.keep hflag rfl rfl

theorem Continued.install {x : Session} (h : x.Continued) (now : Nat) (ans : Answers)
    (serial madeFor : Nat) (inline : Bool) (res : HttpResponse) :
    (x.install now ans serial madeFor inline res).Continued := by
  have hflag := congrArg Connection.continueSent
    (x.install_outside now ans serial madeFor inline res)
  exact h.keep hflag rfl rfl

/-- A request is waited for, and no other one has got the interim response. -/
theorem Continued.await {x : Session} (h : x.Continued) (ans : Answers) (hopen : x.conn.isOpen = true)
    (hfirst : x.conn.expectsContinue = true → ∀ k ∈ x.hist.interim, k = x.hist.requests.length) :
    (x.await ans).Continued := by
  by_cases hexpects : x.conn.expectsContinue = true
  · by_cases hsent : x.conn.continueSent = true
    · -- it was this request that got it
      have hsame : x.await ans = { x with
          hist.awaited := x.hist.awaited ++ [x.hist.requests.length] } := by
        unfold Session.await Connection.maybeSend100Continue
        rw [if_pos (.inl hsent)]
        dsimp only
        rw [if_pos hexpects]
        rfl
      rw [hsame]
      refine ⟨h.flag, h.single, fun k hk => ?_⟩
      rcases List.mem_append.1 hk with hk | hk
      · exact h.sent k hk
      · obtain ⟨j, hj⟩ := List.exists_mem_of_ne_nil _ (h.flag.1 hsent)
        rw [List.mem_singleton.1 hk, ← hfirst hexpects j hj]
        exact hj
    · -- none has been sent: it is sent now, for this request
      have hnone : x.hist.interim = [] := by
        by_contra hne
        exact hsent (h.flag.2 hne)
      have hnew : x.await ans = { x with
          conn.continueSent := true
          hist.awaited := x.hist.awaited ++ [x.hist.requests.length]
          hist.interim := x.hist.interim ++ [x.hist.requests.length]
          hist.sent := x.hist.sent ++ kContinue.take ans.interim } := by
        unfold Session.await Connection.maybeSend100Continue
        rw [if_neg (by simp [hsent, hopen]), if_pos hexpects]
        dsimp only
        rw [if_pos hexpects]
        rfl
      rw [hnew]
      refine ⟨by simp, by simp [hnone], fun k hk => ?_⟩
      rcases List.mem_append.1 hk with hk | hk
      · exact List.mem_append_left _ (h.sent k hk)
      · exact List.mem_append_right _ hk
  · -- the request does not ask for one
    have hsame : x.await ans = x := by
      unfold Session.await Connection.maybeSend100Continue
      rw [if_neg hexpects, ite_self]
      dsimp only
      rw [if_neg hexpects]
      rfl
    rw [hsame]
    exact h

theorem Continued.conclude {x : Session} (h : x.Continued) (success : Bool) (outcome : Outcome) :
    (x.concluded success outcome).Continued :=
  concluded_keeps h (fun _ => h.keep rfl rfl rfl) success outcome

/-- `dispatch_next` is left with an open connection. -/
theorem handle_isOpen {x z : Session} {draining : Bool} {now : Nat} {ans : Answers}
    {dir : Direction} (hx : x.Left (.rearm dir)) (hopen : x.conn.isOpen = true)
    (hz : x.handle draining now ans dir = .dispatch z) : z.conn.isOpen = true := by
  have hflow := handle_sound hx hopen draining now ans
  rw [hz] at hflow
  obtain ⟨-, -, hsocket, -⟩ := hflow
  unfold Connection.isOpen at hopen ⊢
  rw [hsocket]
  exact hopen

end Session

namespace Server

variable {H : Type} {cfg : Config H}

/-- When a request waits for its interim response in this step, no other request of
its connection has got one. -/
def firstInterim (s : Server) (a : Act H) : Bool :=
  match s.dispatching a with
  | none => true
  | some (_, _, z) =>
      match z.conn.toInbound.parseNext with
      | some (false, _, inb) =>
          decide ((z.parsed inb).conn.expectsContinue = true →
            ∀ k ∈ z.hist.interim, k = z.hist.requests.length)
      | _ => true

/-- The condition at a request that waits for its body. -/
theorem firstInterim_waits {s : Server} {a : Act H} (h : firstInterim s a = true) {o n : Nat}
    {ans : Answers} {z : Session} (hz : s.dispatching a = some (o, ans, z)) {inb : Inbound}
    (hparse : z.conn.toInbound.parseNext = some (false, n, inb))
    (hexpects : (z.parsed inb).conn.expectsContinue = true) :
    ∀ k ∈ z.hist.interim, k = z.hist.requests.length := by
  unfold firstInterim at h
  rw [hz] at h
  dsimp only at h
  rw [hparse] at h
  exact of_decide_eq_true h hexpects

/-- Under the condition of the run each request that waits for its interim response has got it.
-/
theorem moves_continued {s : Server} {a : Act H} {o : Nat} {y : Session}
    (hok : firstInterim s a = true) (hx : (s.objects o).Continued) (h : Moves cfg s a o y) :
    y.Continued := by
  cases h with
  | same => exact hx
  | created fd clientIp ha ho =>
      exact Session.new_continued fd s.now clientIp cfg.tls
  | failed => exact hx.keep rfl rfl rfl
  | reacted ans fd dir rest x outcome ha hphase hlookup hleft hopen hreact =>
      subst ha
      apply Session.Continued.conclude
      rcases Session.react_cases hleft hopen hreact with
        hhandle | ⟨z, hz, hhandle, hready, hdispatch⟩
      · cases hhandle with
        | shaken => exact hx.shake s.now ans
        | readEnd reason hz => exact (hx.enter hz).read s.now ans
        | wrote => exact hx.write s.now ans
        | finished => exact (hx.write s.now ans).keep rfl rfl rfl
      · have hcontinued : z.Continued := by
          cases hhandle with
          | read hentered => exact (hx.enter hentered).read s.now ans
          | reused => exact (hx.write s.now ans).keep rfl rfl rfl
        have hzopen := Session.handle_isOpen hleft hopen hz
        have hdispatching := dispatching_eq (H := H) hphase hlookup hz
        -- an answer on the spot, whichever it is
        have hreject : ∀ consumed inb res,
            ((z.parsed inb).reject s.now ans o consumed res).Continued := by
          intro consumed inb res
          have htaken := hcontinued.keep (y := (z.parsed inb).answering consumed res) rfl rfl rfl
          exact htaken.install s.now ans _ o true res
        cases hdispatch with
        | limited consumed inb => exact hreject consumed inb _
        | shed consumed inb => exact hreject consumed inb _
        | handedOver consumed inb => exact hcontinued.keep rfl rfl rfl
        | bad n inb => exact hcontinued.keep rfl rfl rfl
        | waits n inb hparse =>
            have hparsed : (z.parsed inb).Continued := hcontinued.keep rfl rfl rfl
            exact hparsed.await ans hzopen (firstInterim_waits hok hdispatching hparse)
  | completed ans c ready rest ha hphase hconn hlookup hhanded hserial =>
      have hdone : (s.objects o).workerDone.Continued := hx.keep rfl rfl rfl
      exact (hdone.install s.now ans c.serial o false c.item.response).conclude _ _
  | timedOut fd reason ha hlookup hreason => exact hx.keep rfl rfl rfl
  | pushed => exact hx.keep rfl rfl rfl

/-- **One interim response.** In a run in which no request waits for its interim
response on a connection where an earlier one got it, each request that waits for one
gets exactly one, however often it is parsed again. -/
theorem interim_once {s : Server}
    (h : Runs.Reached (serverSystem cfg) (fun s a => firstInterim s a = true) s) {o : Nat}
    (ho : o < s.nextObject) {k : Nat} (hk : k ∈ (s.objects o).hist.awaited) :
    (s.objects o).hist.interim.count k = 1 := by
  have hcontinued : ∀ o, o < s.nextObject → (s.objects o).Continued := by
    apply reached_session (J := fun _ x => x.Continued) ?_ ?_ h
    · exact fun o fd now clientIp => Session.new_continued fd now clientIp cfg.tls
    · exact fun _ _ _ _ _ hok _ hx hmove => moves_continued hok hx hmove
  have hsent := (hcontinued o ho).sent k hk
  have hpos := List.count_pos_iff.2 hsent
  have hle := List.count_le_length (a := k) (l := (s.objects o).hist.interim)
  have hsingle := (hcontinued o ho).single
  omega

/-- A request that waits for its interim response; its body is one byte. -/
def expectRequest : Bytes :=
  lit "POST / HTTP/1.1\r\nExpect: 100-continue\r\nContent-Length: 1\r\n\r\n"

def expectOne : List (Act Nat) := acceptOne ++ receiveOne expectRequest

/-- One request that waits for an interim response. -/
theorem interim_once_one :
    ∃ s, (serverSystem smallConfig).runIf firstInterim (Server.start 0) expectOne = some s ∧
      0 ∈ (s.objects 0).hist.awaited ∧ (s.objects 0).hist.interim.count 0 = 1 := by
  have hrun : ((serverSystem smallConfig).runIf firstInterim (Server.start 0) expectOne).map
      (fun s => decide (0 < s.nextObject ∧ 0 ∈ (s.objects 0).hist.awaited)) = some true := by
    decide +kernel
  obtain ⟨s, hs, hvalue⟩ := Option.map_eq_some_iff.1 hrun
  obtain ⟨ho, hk⟩ := of_decide_eq_true hvalue
  exact ⟨s, hs, hk, interim_once (Runs.reached_of_runIf (.start ⟨0, rfl⟩) hs) ho hk⟩

/-- The body arrives, the answer is sent, and a second such request begins. -/
def expectTwo : List (Act Nat) :=
  expectOne ++ [.afterBatch] ++ receiveOne (lit "x") ++ [.afterBatch, .take, .work 0 smallEnv] ++
    deliverOne ++ [.afterBatch] ++ receiveOne expectRequest

/-- The second request on a connection that waits for its interim response does not
get one. -/
theorem second_interim_missing :
    ¬ ∀ s, Runs.Reachable (serverSystem smallConfig) s → ∀ o, o < s.nextObject →
      ∀ k ∈ (s.objects o).hist.awaited, (s.objects o).hist.interim.count k = 1 := by
  intro h
  have hrun : ((serverSystem smallConfig).run (Server.start 0) expectTwo).map
      (fun s => decide (0 < s.nextObject ∧ 1 ∈ (s.objects 0).hist.awaited ∧
        (s.objects 0).hist.interim.count 1 = 0)) = some true := by
    decide +kernel
  obtain ⟨s, hs, hvalue⟩ := Option.map_eq_some_iff.1 hrun
  obtain ⟨ho, hk, hnone⟩ := of_decide_eq_true hvalue
  have hone := h s (reachable_of_start hs) 0 ho 1 hk
  omega

end Server

end Oreshnek
