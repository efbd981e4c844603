import Oreshnek.Server.Worker
import Oreshnek.Server.Routing

/-!
# HEAD and GET

The task of a HEAD request and that of the same request with GET. The search for a
HEAD route fails, since none can be registered, and comes back to the GET routes;
compression does not look at the method; and `apply_http_semantics` sets the flag
that keeps the body back before it does what it does for GET. `head_mirrors_get` puts
the two runs side by side.
-/

namespace Oreshnek

/-! ## Callables that do not look at the method -/

/-- A middleware or a handler for which the method makes no difference. -/
def MethodBlind {α : Type} (f : HttpRequest → HttpResponse → CallResult α) : Prop :=
  ∀ req method res, f { req with method := method } res = f req res

/-- Middlewares that do not look at the method do alike for HEAD and GET. -/
theorem runMiddlewares_blind {mws : List Middleware} (hblind : ∀ mw ∈ mws, MethodBlind mw)
    (req : HttpRequest) (method : HttpMethod) (res : HttpResponse) :
    runMiddlewares mws { req with method := method } res = runMiddlewares mws req res := by
  induction mws generalizing res with
  | nil => rfl
  | cons mw mws ih =>
      have hrest := ih fun mw' hmw' => hblind mw' (List.mem_cons_of_mem _ hmw')
      unfold runMiddlewares
      rw [hblind mw List.mem_cons_self]
      cases mw req res with
      | returned go left =>
          cases go with
          | true => exact hrest left
          | false => rfl
      | threw thrown left =>
          cases thrown with
          | exception => rfl
          | other => rfl

/-! ## The flag that keeps the body back -/

/-- A range is worked out alike for HEAD and GET. -/
theorem applyRange_setHeadOnly (req : HttpRequest) (method : HttpMethod) (res : HttpResponse)
    (size : Int) :
    applyRange { req with method := method } (res.setHeadOnly true) size =
      (applyRange req res size).setHeadOnly true := by
  have hheader : ({ req with method := method } : HttpRequest).header (lit "Range") =
      req.header (lit "Range") := rfl
  unfold applyRange
  rw [hheader]
  cases req.header (lit "Range") with
  | none => rfl
  | some spec =>
      dsimp only
      cases rangeSides spec.bytes with
      | none => rfl
      | some sides =>
          dsimp only
          cases rangeBounds size sides with
          | none => rfl
          | some bounds => rfl

/-- The flag is all that HEAD changes. -/
theorem applyHttpSemantics_mirror (stat : Bytes → Option Stat) (req : HttpRequest)
    (res : HttpResponse) :
    applyHttpSemantics stat { req with method := .head } res =
      (applyHttpSemantics stat { req with method := .get } res).setHeadOnly true := by
  have hhead : (if HttpMethod.head = .head then res.setHeadOnly true else res) =
      res.setHeadOnly true := if_pos rfl
  have hget : (if HttpMethod.get = .head then res.setHeadOnly true else res) = res :=
    if_neg (by decide)
  unfold applyHttpSemantics
  dsimp only
  rw [hhead, hget]
  show (if ¬res.isFile = true then _ else _) = _
  by_cases hfile : res.isFile = true
  · rw [if_neg (not_not_intro hfile), if_neg (not_not_intro hfile)]
    have hpath : (res.setHeadOnly true).filePath = res.filePath := rfl
    rw [hpath]
    cases stat res.filePath with
    | none => rfl
    | some st =>
        have hsame : notModified { req with method := .head } st =
            notModified { req with method := .get } st := rfl
        dsimp only
        rw [hsame]
        by_cases hmatch : notModified { req with method := .get } st = true
        · rw [if_pos ⟨.inr rfl, hmatch⟩, if_pos ⟨.inl rfl, hmatch⟩]
          rfl
        · rw [if_neg fun h => hmatch h.2, if_neg fun h => hmatch h.2]
          exact applyRange_setHeadOnly { req with method := .get } .head
            (((res.header (lit "Accept-Ranges") (lit "bytes")).header (lit "ETag")
              (makeEtag st)).header (lit "Last-Modified") (httpDate st.mtime)) st.size
  · rw [if_pos hfile, if_pos hfile]

section Task

variable {H : Type}

theorem finishResponse_mirror (env : TaskEnv H) (req : HttpRequest) (res : HttpResponse) :
    finishResponse env { req with method := .head } res =
      (finishResponse env { req with method := .get } res).setHeadOnly true :=
  applyHttpSemantics_mirror env.stat req _

/-! ## The search -/

/-- The methods of `get`, `post`, `put`, `del`, `patch` and `serve_static` of `Server`. -/
def registrable : List HttpMethod := [.get, .post, .put, .delete, .patch]

/-- `find_route` answers as the registered patterns demand; a path without a leading
slash matches none. -/
def ExactFor (rs : List (Route H)) (method : HttpMethod) (path : StringView)
    (result : MatchResult H) : Prop :=
  if path.bytes.head? = some 47 then Agrees rs method (segmentsOf path.bytes) result
  else result = .notFound ∅

/-- No route is registered for HEAD. -/
theorem head_not_found {calls : List (HttpMethod × Bytes × H)} {path : StringView}
    {result : MatchResult H} (hcalls : ∀ call ∈ calls, call.1 ∈ registrable)
    (hexact : ExactFor (routesOf calls) .head path result) : result = .notFound ∅ := by
  unfold ExactFor at hexact
  split at hexact
  · cases result with
    | found handler params =>
        rcases hexact with ⟨pattern, hchosen, -⟩
        rcases lastRegistered_mem hchosen.last with ⟨r, hr, hmethod, -, -⟩
        rcases List.mem_filterMap.1 hr with ⟨call, hcall, hroute⟩
        split at hroute
        · cases hroute
          have hmem := hcalls call hcall
          rw [show call.1 = .head from hmethod] at hmem
          exact absurd hmem (by decide)
        · cases hroute
    | notFound params => rw [hexact.2]
    | overrun => exact hexact.elim
  · exact hexact

/-- An exact search stays inside its vector. -/
theorem ExactFor.not_overrun {rs : List (Route H)} {method : HttpMethod} {path : StringView}
    {result : MatchResult H} (h : ExactFor rs method path result) : result ≠ .overrun := by
  rintro rfl
  unfold ExactFor at h
  split at h
  · exact h
  · cases h

/-! ## The two tasks -/

/-- The task for GET and the task for HEAD both end without a response, or the two
responses differ in `head_only`. -/
def Mirrored (fd conn : Nat) (completed : List CompletedResponse)
    (get head : Option (TaskEnd × List CompletedResponse)) : Prop :=
  (get = some (.threw, completed) ∧ head = some (.threw, completed)) ∨
    ∃ res : HttpResponse, get = some (.returned, completed ++ [⟨fd, conn, res⟩]) ∧
      head = some (.returned, completed ++ [⟨fd, conn, res.setHeadOnly true⟩])

/-- **HEAD mirrors GET.** With an exact `find_route`, and middlewares and handlers
that do not look at the method, a HEAD request gets the response of the GET request
with the same headers, without its body. -/
theorem head_mirrors_get (env : TaskEnv H) (calls : List (HttpMethod × Bytes × H))
    (req : HttpRequest) (fd conn : Nat) (completed : List CompletedResponse)
    (hcalls : ∀ call ∈ calls, call.1 ∈ registrable)
    (hmws : ∀ mw ∈ env.middlewares, MethodBlind mw)
    (hhandlers : ∀ handler, MethodBlind (env.handlers handler))
    (hexact : ∀ method, ExactFor (routesOf calls) method req.path
      ((RouterNode.addRoutes calls).findRoute method req.path ∅)) :
    Mirrored fd conn completed
      (workerTask env (RouterNode.addRoutes calls) fd conn { req with method := .get } completed)
      (workerTask env (RouterNode.addRoutes calls) fd conn { req with method := .head }
        completed) := by
  -- HEAD has no routes of its own, so the search ends with those of GET
  have hsearch : searchRoute (RouterNode.addRoutes calls) { req with method := .head } =
      searchRoute (RouterNode.addRoutes calls) { req with method := .get } := by
    unfold searchRoute
    dsimp only
    rw [head_not_found hcalls (hexact .head), MatchResult.orElse_notFound, if_pos rfl]
    cases (RouterNode.addRoutes calls).findRoute .get req.path ∅ with
    | found handler params => rfl
    | notFound params => rfl
    | overrun => rfl
  have hoverrun : searchRoute (RouterNode.addRoutes calls) { req with method := .get } ≠
      .overrun := by
    have hget := (hexact .get).not_overrun
    unfold searchRoute
    dsimp only
    cases hresult : (RouterNode.addRoutes calls).findRoute .get req.path ∅ with
    | found handler params => exact fun h => nomatch h
    | notFound params => exact fun h => nomatch h
    | overrun => exact absurd hresult hget
  -- a response that is pushed is the same but for its body
  have hpush : ∀ (params : Params) (res : HttpResponse), Mirrored fd conn completed
      (some (.returned, completed ++ [⟨fd, conn,
        finishResponse env { req with method := .get, pathParams := params } res⟩]))
      (some (.returned, completed ++ [⟨fd, conn,
        finishResponse env { req with method := .head, pathParams := params } res⟩])) := by
    intro params res
    refine Or.inr ⟨_, rfl, ?_⟩
    rw [← finishResponse_mirror env { req with pathParams := params }]
  unfold workerTask
  dsimp only
  rw [runMiddlewares_blind hmws req .get, runMiddlewares_blind hmws req .head, hsearch]
  cases runMiddlewares env.middlewares req .new with
  | escaped => exact Or.inl ⟨rfl, rfl⟩
  | stopped res => exact hpush req.pathParams res
  | proceed res =>
      dsimp only
      cases hfound : searchRoute (RouterNode.addRoutes calls) { req with method := .get } with
      | overrun => exact absurd hfound hoverrun
      | notFound params => exact hpush req.pathParams _
      | found handler params =>
          dsimp only
          -- the handler does not look at the method
          have hcall : ∀ method, env.handlers handler
              { req with method := method, pathParams := params } res =
                env.handlers handler { req with pathParams := params } res :=
            fun method => hhandlers handler { req with pathParams := params } method res
          rw [hcall .get, hcall .head]
          cases env.handlers handler { req with pathParams := params } res with
          | returned a left => exact hpush params left
          | threw thrown left =>
              cases thrown with
              | exception => exact hpush params (serverError left)
              | other => exact Or.inl ⟨rfl, rfl⟩

end Task

/-- The root answers with a text. -/
def pingEnv : TaskEnv Nat where
  middlewares := []
  handlers := fun _ _ res => .returned () (res.body (lit "pong"))
  stat := fun _ => none
  compressors := ⟨fun _ => [], fun _ => []⟩
  compressionEnabled := true
  compressionMinBytes := 256
  compressionBrotli := false

/-- A handler that answers with a text. -/
theorem head_mirrors_get_ping :
    Mirrored 7 1 []
      (workerTask pingEnv (RouterNode.addRoutes [(.get, lit "/", 0)]) 7 1
        { method := .get, path := ⟨0, lit "/"⟩ } [])
      (workerTask pingEnv (RouterNode.addRoutes [(.get, lit "/", 0)]) 7 1
        { method := .head, path := ⟨0, lit "/"⟩ } []) := by
  have hroutes : routesOf [(HttpMethod.get, lit "/", 0)] = [⟨.get, [], 0⟩] := by
    decide +kernel
  refine head_mirrors_get pingEnv [(.get, lit "/", 0)] { path := ⟨0, lit "/"⟩ } 7 1 []
    (by decide) (fun mw hmw => absurd hmw List.not_mem_nil) (fun _ _ _ _ => rfl) ?_
  intro method
  unfold ExactFor
  rw [if_pos (by decide), hroutes, show segmentsOf (lit "/") = [] by decide +kernel]
  by_cases hget : method = .get
  · subst hget
    have hmatch : PatternMatches [] [] := List.Forall₂.nil
    refine ⟨[], ⟨rfl, hmatch, ?_⟩, fun name => rfl⟩
    intro r hr _ _ hfirst
    cases List.mem_singleton.1 hr
    cases hfirst
  · have hnone : (RouterNode.addRoutes [(HttpMethod.get, lit "/", 0)]).findRoute method
        ⟨0, lit "/"⟩ ∅ = .notFound ∅ := by
      cases method with
      | get => exact absurd rfl hget
      | _ => rfl
    rw [hnone]
    refine ⟨?_, rfl⟩
    rintro ⟨r, hr, hmethod, -⟩
    cases List.mem_singleton.1 hr
    exact hget hmethod.symm

end Oreshnek
