import Oreshnek.Server.Router
import Oreshnek.Server.Semantics

/-!
# Middlewares, handlers and the worker task

A middleware or handler is any function from a request and a response to a way of
ending: it returns, or it throws, and either way leaves the response (which it is
given by reference) in some state. `workerTask` is the task that `dispatch_next`
queues on the thread pool. `workerTask_pushes_iff` says when it delivers its one
response.
-/

namespace Oreshnek

/-! ## Callables -/

/-- What a C++ callable can throw. -/
inductive Thrown where
  /-- Something that derives from `std::exception`. -/
  | exception
  | other
deriving DecidableEq

/-- How a call ends, with the response it leaves behind. -/
inductive CallResult (α : Type) where
  | returned (a : α) (res : HttpResponse)
  | threw (thrown : Thrown) (res : HttpResponse)

/-- `Middleware`: false stops the chain. -/
abbrev Middleware := HttpRequest → HttpResponse → CallResult Bool

/-- `RouteHandler`. -/
abbrev RouteHandler := HttpRequest → HttpResponse → CallResult Unit

/-- The token of an `Authorization: Bearer` header, empty when there is none. -/
def bearerToken (req : HttpRequest) : Bytes :=
  match req.header (lit "Authorization") with
  | none => []
  | some value => if lit "Bearer " <+: value.bytes then value.bytes.drop 7 else []

/-- `require_jwt(secret, prefixes)`, for a `validateJWT` of any kind. -/
def requireJwt (validateJWT : Bytes → Bytes → Bool) (secret : Bytes) (prefixes : List Bytes) :
    Middleware := fun req res =>
  let protectedRoute :=
    prefixes.isEmpty || prefixes.any fun p => req.path.bytes.take p.length == p
  if ¬ protectedRoute then .returned true res
  else
    let token := bearerToken req
    if token = [] ∨ ¬ validateJWT token secret then
      .returned false ((res.setStatus .unauthorized).json
        (lit "\x7b\"message\":\"Unauthorized\",\"success\":false\x7d"))
    else .returned true res

/-! ## The middleware chain -/

/-- Where the chain leaves the task. -/
inductive ChainResult where
  | proceed (res : HttpResponse)
  | stopped (res : HttpResponse)
  | escaped

/-- The 500 answer to a `std::exception`. -/
def serverError (res : HttpResponse) : HttpResponse :=
  (res.setStatus .internalServerError).json (errorJson (lit "Server error"))

/-- The loop over `middlewares_`. Only a `std::exception` is caught. -/
def runMiddlewares : List Middleware → HttpRequest → HttpResponse → ChainResult
  | [], _, res => .proceed res
  | mw :: rest, req, res =>
      match mw req res with
      | .returned true res => runMiddlewares rest req res
      | .returned false res => .stopped res
      | .threw .exception res => .stopped (serverError res)
      | .threw .other _ => .escaped

/-! ## The task -/

/-- What the task is run with: the chain, what each registered handler does,
the file system, and the compressors. -/
structure TaskEnv (H : Type) where
  middlewares : List Middleware
  handlers : H → RouteHandler
  stat : Bytes → Option Stat
  compressors : Compressors
  compressionEnabled : Bool
  compressionMinBytes : Nat
  compressionBrotli : Bool

/-- `CompletedResponse`; a connection object is named by a number. -/
structure CompletedResponse where
  fd : Nat
  conn : Nat
  response : HttpResponse
deriving DecidableEq

/-- How the task ends. What it throws ends in the `packaged_task` of the pool. -/
inductive TaskEnd where
  | returned
  | threw
deriving DecidableEq

section Task

variable {H : Type}

/-- The search for a handler: HEAD falls back to the GET routes, with the same
parameter map. -/
def searchRoute (router : RouterNode H) (req : HttpRequest) : MatchResult H :=
  (router.findRoute req.method req.path ∅).orElse fun params =>
    if req.method = .head then router.findRoute .get req.path params else .notFound params

/-- Compression and request-driven semantics, in this order. -/
def finishResponse (env : TaskEnv H) (req : HttpRequest) (res : HttpResponse) : HttpResponse :=
  let res :=
    if env.compressionEnabled then
      maybeCompress env.compressors req res env.compressionMinBytes env.compressionBrotli
    else res
  applyHttpSemantics env.stat req res

/-- The task queued by `dispatch_next`, from the queue `completed_` to how it
ends and what the queue is then; `none` when the route search leaves its
vector. -/
def workerTask (env : TaskEnv H) (router : RouterNode H) (fd conn : Nat) (req : HttpRequest)
    (completed : List CompletedResponse) : Option (TaskEnd × List CompletedResponse) :=
  let push : HttpRequest → HttpResponse → Option (TaskEnd × List CompletedResponse) :=
    fun req res => some (.returned, completed ++ [⟨fd, conn, finishResponse env req res⟩])
  match runMiddlewares env.middlewares req .new with
  | .escaped => some (.threw, completed)
  | .stopped res => push req res
  | .proceed res =>
      match searchRoute router req with
      | .overrun => none
      | .notFound _ =>
          push req ((res.setStatus .notFound).json (errorJson (lit "Not Found")))
      | .found handler params =>
          let req := { req with pathParams := params }
          match env.handlers handler req res with
          | .returned () res => push req res
          | .threw .exception res => push req (serverError res)
          | .threw .other _ => some (.threw, completed)

/-! ## When the response is delivered -/

/-- The responses that a chain hands on, one middleware after the other. -/
def passes : List Middleware → HttpRequest → HttpResponse → Option HttpResponse
  | [], _, res => some res
  | mw :: rest, req, res =>
      match mw req res with
      | .returned true res => passes rest req res
      | _ => none

/-- A middleware that the task reaches throws something other than a
`std::exception`. -/
def ForeignMiddleware (mws : List Middleware) (req : HttpRequest) (res : HttpResponse) : Prop :=
  ∃ before mw after given left, mws = before ++ mw :: after ∧
    passes before req res = some given ∧ mw req given = .threw .other left

/-- The handler that the task reaches does. -/
def ForeignHandler (env : TaskEnv H) (router : RouterNode H) (req : HttpRequest) : Prop :=
  ∃ given handler params left, passes env.middlewares req .new = some given ∧
    searchRoute router req = .found handler params ∧
    env.handlers handler { req with pathParams := params } given = .threw .other left

/-- The task reaches the route search, and that leaves its vector. -/
def SearchOverruns (env : TaskEnv H) (router : RouterNode H) (req : HttpRequest) : Prop :=
  (passes env.middlewares req .new).isSome ∧ searchRoute router req = .overrun

/-- The task adds one response, for this connection, to the queue. -/
def PushesOne (env : TaskEnv H) (router : RouterNode H) (fd conn : Nat) (req : HttpRequest)
    (completed : List CompletedResponse) : Prop :=
  ∃ ending res, workerTask env router fd conn req completed =
    some (ending, completed ++ [⟨fd, conn, res⟩])

/-- It goes on to the handler exactly when all let the request pass. -/
theorem runMiddlewares_proceed {mws : List Middleware} {req : HttpRequest}
    {res out : HttpResponse} :
    runMiddlewares mws req res = .proceed out ↔ passes mws req res = some out := by
  induction mws generalizing res with
  | nil => simp [runMiddlewares, passes]
  | cons mw mws ih =>
      unfold runMiddlewares passes
      cases mw req res with
      | returned go left =>
          cases go with
          | true => exact ih
          | false => simp
      | threw thrown left =>
          cases thrown with
          | exception => simp
          | other => simp

/-- The chain ends in an exception exactly at a middleware that throws a foreign one. -/
theorem runMiddlewares_escaped {mws : List Middleware} {req : HttpRequest}
    {res : HttpResponse} :
    runMiddlewares mws req res = .escaped ↔ ForeignMiddleware mws req res := by
  induction mws generalizing res with
  | nil =>
      constructor
      · intro h
        cases h
      · rintro ⟨before, mw, after, given, left, hsplit, -⟩
        cases before with
        | nil => cases hsplit
        | cons => cases hsplit
  | cons mw mws ih =>
      -- a foreign throw further down is one behind a middleware that passes
      have hskip : ∀ left, mw req res = .returned true left →
          (ForeignMiddleware (mw :: mws) req res ↔ ForeignMiddleware mws req left) := by
        intro left hmw
        constructor
        · rintro ⟨before, mw', after, given, out, hsplit, hpass, hthrow⟩
          cases before with
          | nil =>
              cases hsplit
              cases hpass
              rw [hmw] at hthrow
              cases hthrow
          | cons b before =>
              cases hsplit
              unfold passes at hpass
              rw [hmw] at hpass
              exact ⟨before, mw', after, given, out, rfl, hpass, hthrow⟩
        · rintro ⟨before, mw', after, given, out, rfl, hpass, hthrow⟩
          refine ⟨mw :: before, mw', after, given, out, rfl, ?_, hthrow⟩
          unfold passes
          rw [hmw]
          exact hpass
      -- and none is reached behind one that does not pass
      have hstop : (∀ left, mw req res ≠ .returned true left) →
          (ForeignMiddleware (mw :: mws) req res ↔ ∃ left, mw req res = .threw .other left) := by
        intro hmw
        constructor
        · rintro ⟨before, mw', after, given, out, hsplit, hpass, hthrow⟩
          cases before with
          | nil =>
              cases hsplit
              cases hpass
              exact ⟨out, hthrow⟩
          | cons b before =>
              cases hsplit
              unfold passes at hpass
              split at hpass
              · next left hleft => exact absurd hleft (hmw left)
              · cases hpass
        · rintro ⟨left, hthrow⟩
          exact ⟨[], mw, mws, res, left, rfl, rfl, hthrow⟩
      unfold runMiddlewares
      cases hmw : mw req res with
      | returned go left =>
          cases go with
          | true =>
              rw [hskip left hmw]
              exact ih
          | false =>
              rw [hstop (by simp [hmw])]
              simp [hmw]
      | threw thrown left =>
          rw [hstop (by simp [hmw])]
          cases thrown with
          | exception => simp [hmw]
          | other => simp [hmw]

/-- **Delivery.** The task adds its one response to the queue exactly when no
middleware or handler it reaches throws something that is not a
`std::exception`, and the route search stays inside its vector. -/
theorem workerTask_pushes_iff (env : TaskEnv H) (router : RouterNode H) (fd conn : Nat)
    (req : HttpRequest) (completed : List CompletedResponse) :
    PushesOne env router fd conn req completed ↔
      ¬ ForeignMiddleware env.middlewares req .new ∧ ¬ ForeignHandler env router req ∧
        ¬ SearchOverruns env router req := by
  unfold PushesOne workerTask
  rw [← runMiddlewares_escaped]
  unfold ForeignHandler SearchOverruns
  simp only [← runMiddlewares_proceed, Option.isSome_iff_exists]
  cases hchain : runMiddlewares env.middlewares req .new with
  | escaped => simp
  | stopped res => simp
  | proceed res =>
      cases hsearch : searchRoute router req with
      | overrun => simp
      | notFound params => simp
      | found handler params =>
          dsimp only
          cases hcall : env.handlers handler { req with pathParams := params } res with
          | returned a left => simp [hcall]
          | threw thrown left =>
              cases thrown with
              | exception => simp [hcall]
              | other => simp [hcall]

/-- What the task adds to the queue: at most one response, finished for a request
with the same method. -/
theorem workerTask_pushed {env : TaskEnv H} {router : RouterNode H} {fd conn : Nat}
    {req : HttpRequest} {ending : TaskEnd} {pushed : List CompletedResponse}
    (h : workerTask env router fd conn req [] = some (ending, pushed)) :
    pushed = [] ∨ ∃ req' res, req'.method = req.method ∧
      pushed = [⟨fd, conn, finishResponse env req' res⟩] := by
  unfold workerTask at h
  dsimp only at h
  cases hchain : runMiddlewares env.middlewares req .new with
  | escaped =>
      rw [hchain] at h
      cases h
      exact .inl rfl
  | stopped res =>
      rw [hchain] at h
      cases h
      exact .inr ⟨req, res, rfl, rfl⟩
  | proceed res =>
      rw [hchain] at h
      dsimp only at h
      cases hsearch : searchRoute router req with
      | overrun =>
          -- undefined behaviour: there is no result
          rw [hsearch] at h
          cases h
      | notFound params =>
          rw [hsearch] at h
          cases h
          exact .inr ⟨req, _, rfl, rfl⟩
      | found handler params =>
          rw [hsearch] at h
          dsimp only at h
          cases hcall : env.handlers handler { req with pathParams := params } res with
          | returned a left =>
              rw [hcall] at h
              cases h
              -- what the handler has left
              exact .inr ⟨{ req with pathParams := params }, left, rfl, rfl⟩
          | threw thrown left =>
              rw [hcall] at h
              cases thrown with
              | exception =>
                  cases h
                  -- caught, and answered with a 500
                  exact .inr ⟨{ req with pathParams := params }, serverError left, rfl, rfl⟩
              | other =>
                  cases h
                  exact .inl rfl

end Task

/-- One handler that throws an `int`. -/
def throwingEnv : TaskEnv Nat where
  middlewares := []
  handlers := fun _ _ res => .threw .other res
  stat := fun _ => none
  compressors := ⟨fun _ => [], fun _ => []⟩
  compressionEnabled := false
  compressionMinBytes := 256
  compressionBrotli := false

/-- Its response never reaches the queue. -/
theorem throwingEnv_loses :
    ¬ PushesOne throwingEnv (RouterNode.addRoutes [(.get, lit "/", 0)]) 7 1
      { method := .get, path := ⟨0, lit "/"⟩ } [] := by
  rintro ⟨ending, res, h⟩
  have hrun : workerTask throwingEnv (RouterNode.addRoutes [(.get, lit "/", 0)]) 7 1
      { method := .get, path := ⟨0, lit "/"⟩ } [] = some (.threw, []) := rfl
  rw [hrun] at h
  cases h

end Oreshnek
