import Oreshnek.Server.Routing
import Oreshnek.Server.Worker

/-!
# Protected routes

`require_jwt` compares the bytes of the path with its prefixes, while the router
splits the path at its slashes and drops empty segments. So many paths lead to
one handler, and the middleware protects those whose slashes stand where the
pattern has them (`guarded_iff`).
-/

namespace Oreshnek

/-! ## Paths with the same segments -/

/-- The segments are the bytes between the slashes. -/
theorem segmentsOf_flatten (path : Bytes) :
    (segmentsOf path).flatten = path.filter (· ≠ 47) := by
  have hkeep : ∀ part : Bytes, 47 ∉ part → part.filter (· ≠ 47) = part := by
    intro part h
    rw [List.filter_eq_self]
    intro c hc
    simp only [ne_eq, decide_not, Bool.not_eq_true', decide_eq_false_iff_not]
    rintro rfl
    exact h hc
  induction path using Search.delim_induction (show ([47] : Bytes) ≠ [] by decide) with
  | stop b h =>
      have hfree : 47 ∉ b := fun hmem => h (Search.singleton_infix_iff.2 hmem)
      rw [segmentsOf_free hfree, hkeep b hfree]
      by_cases hnil : b = []
      · simp [hnil]
      · simp [hnil]
  | part line rest h ih =>
      have hfree : 47 ∉ line := fun hmem => h (Search.singleton_infix_iff.2 hmem)
      rw [List.append_assoc, List.singleton_append, segmentsOf_slash hfree,
        List.flatten_append, ih, List.filter_append, hkeep line hfree]
      by_cases hnil : line = []
      · simp [hnil]
      · simp [hnil]

/-- Below position `n` the slashes stand at the same positions. -/
def SlashesAgree (n : Nat) (p q : Bytes) : Prop :=
  ∀ k < n, p[k]? = some 47 ↔ q[k]? = some 47

/-- Paths that agree up to their slashes, and in where the first ones stand,
begin alike. -/
theorem take_eq_of_slashes {n : Nat} {p q : Bytes} (hlen : n ≤ q.length)
    (hsame : p.filter (· ≠ 47) = q.filter (· ≠ 47)) (hslashes : SlashesAgree n p q) :
    p.take n = q.take n := by
  induction n generalizing p q with
  | zero => simp
  | succ n ih =>
      cases q with
      | nil => simp at hlen
      | cons b q =>
          have hfirst := hslashes 0 (Nat.succ_pos n)
          have hrest : ∀ a p', p = a :: p' → SlashesAgree n p' q := by
            rintro a p' rfl k hk
            have := hslashes (k + 1) (Nat.succ_lt_succ hk)
            simpa using this
          by_cases hb : b = 47
          · -- a slash in both
            subst hb
            cases p with
            | nil => simp at hfirst
            | cons a p =>
                have ha : a = 47 := by simpa using hfirst
                subst ha
                simp only [ne_eq, decide_not, List.filter_cons, decide_true, Bool.not_true,
                  Bool.false_eq_true, if_false] at hsame
                rw [List.take_succ_cons, List.take_succ_cons,
                  ih (Nat.le_of_succ_le_succ hlen) (by simpa using hsame) (hrest _ _ rfl)]
          · -- the same other byte in both
            cases p with
            | nil => simp [hb] at hsame
            | cons a p =>
                have ha : a ≠ 47 := by
                  rintro rfl
                  simp [hb] at hfirst
                simp only [ne_eq, ha, hb, not_false_eq_true, decide_true,
                  List.filter_cons, if_true] at hsame
                injection hsame with hab hsame
                rw [List.take_succ_cons, List.take_succ_cons, hab,
                  ih (Nat.le_of_succ_le_succ hlen) hsame (hrest _ _ rfl)]

/-- Behind a prefix of the pattern nothing but the slashes is left to compare. -/
theorem prefix_iff_slashesAgree {p q pre : Bytes} (hsame : segmentsOf p = segmentsOf q)
    (hpre : pre <+: q) : pre <+: p ↔ SlashesAgree pre.length p q := by
  constructor
  · rintro ⟨t, rfl⟩ k hk
    rcases hpre with ⟨u, rfl⟩
    rw [List.getElem?_append_left hk, List.getElem?_append_left hk]
  · intro hslashes
    have hfilter : p.filter (· ≠ 47) = q.filter (· ≠ 47) := by
      rw [← segmentsOf_flatten, ← segmentsOf_flatten, hsame]
    have htake := take_eq_of_slashes hpre.length_le hfilter hslashes
    rw [← List.prefix_iff_eq_take.1 hpre] at htake
    rw [← htake]
    exact List.take_prefix _ _

/-! ## The middleware -/

/-- The request carries a token that `validateJWT` accepts. -/
def HasAcceptedToken (validateJWT : Bytes → Bytes → Bool) (secret : Bytes) (req : HttpRequest) :
    Prop :=
  bearerToken req ≠ [] ∧ validateJWT (bearerToken req) secret = true

/-- Without an accepted token no chain that contains the middleware goes on to
the handler for a request with this path. -/
def Guarded (validateJWT : Bytes → Bytes → Bool) (secret : Bytes) (prefixes : List Bytes)
    (path : Bytes) : Prop :=
  ∀ mws, requireJwt validateJWT secret prefixes ∈ mws → ∀ req : HttpRequest,
    req.path.bytes = path → ¬ HasAcceptedToken validateJWT secret req →
    ∀ res out, runMiddlewares mws req res ≠ .proceed out

/-- Some protected prefix covers this spelling of the pattern `q`: one that the
pattern starts with, its slashes standing where the pattern has them, or one that
only the path starts with. -/
def SpelledProtected (prefixes : List Bytes) (path q : Bytes) : Prop :=
  ∃ pre ∈ prefixes,
    if pre <+: q then SlashesAgree pre.length path q else pre <+: path

/-- The comparison with `compare(0, n, prefix)` is that of a prefix. -/
theorem take_beq_iff {p pre : Bytes} : (p.take pre.length == pre) = true ↔ pre <+: p := by
  rw [beq_iff_eq]
  constructor
  · intro h
    rw [← h]
    exact List.take_prefix _ _
  · intro h
    exact (List.prefix_iff_eq_take.1 h).symm

/-- With a list of prefixes the middleware protects the paths that start with
one of them. -/
theorem requireJwt_stops {validateJWT : Bytes → Bytes → Bool} {secret : Bytes}
    {prefixes : List Bytes} {req : HttpRequest} (hpre : ∃ pre ∈ prefixes, pre <+: req.path.bytes)
    (htoken : ¬ HasAcceptedToken validateJWT secret req) (res : HttpResponse) :
    ∃ out, requireJwt validateJWT secret prefixes req res = .returned false out := by
  have hany : (prefixes.any fun p => req.path.bytes.take p.length == p) = true := by
    rcases hpre with ⟨pre, hmem, hpre⟩
    exact List.any_eq_true.2 ⟨pre, hmem, take_beq_iff.2 hpre⟩
  unfold requireJwt
  simp only [hany, Bool.or_true, not_true_eq_false, if_false]
  rw [if_pos]
  · exact ⟨_, rfl⟩
  · unfold HasAcceptedToken at htoken
    by_cases hnil : bearerToken req = []
    · exact Or.inl hnil
    · exact Or.inr fun h => htoken ⟨hnil, h⟩

/-- A path under no prefix is let through. -/
theorem requireJwt_passes {validateJWT : Bytes → Bytes → Bool} {secret : Bytes}
    {prefixes : List Bytes} {req : HttpRequest} (hne : prefixes ≠ [])
    (hpre : ¬ ∃ pre ∈ prefixes, pre <+: req.path.bytes) (res : HttpResponse) :
    requireJwt validateJWT secret prefixes req res = .returned true res := by
  have hany : (prefixes.any fun p => req.path.bytes.take p.length == p) = false := by
    rw [List.any_eq_false]
    intro pre hmem h
    exact hpre ⟨pre, hmem, take_beq_iff.1 h⟩
  have hempty : prefixes.isEmpty = false := by simpa using hne
  unfold requireJwt
  simp [hany, hempty]

/-- A middleware that stops keeps the chain from proceeding. -/
theorem runMiddlewares_stops {mws : List Middleware} {mw : Middleware} {req : HttpRequest}
    (hmem : mw ∈ mws) (hstop : ∀ res, ∃ out, mw req res = .returned false out)
    (res out : HttpResponse) : runMiddlewares mws req res ≠ .proceed out := by
  rw [ne_eq, runMiddlewares_proceed]
  induction mws generalizing res with
  | nil => cases hmem
  | cons first mws ih =>
      unfold passes
      rcases List.mem_cons.1 hmem with rfl | hmem
      · rcases hstop res with ⟨left, hleft⟩
        rw [hleft]
        simp
      · cases first req res with
        | returned go left =>
            cases go with
            | true => exact ih hmem left
            | false => simp
        | threw thrown left => simp

/-- A path is guarded if it starts with one of the prefixes. -/
theorem guarded_iff_startsWith {validateJWT : Bytes → Bytes → Bool} {secret : Bytes}
    {prefixes : List Bytes} (hne : prefixes ≠ []) (path : Bytes) :
    Guarded validateJWT secret prefixes path ↔ ∃ pre ∈ prefixes, pre <+: path := by
  constructor
  · intro h
    by_contra hpre
    -- a request without headers gets through
    let req : HttpRequest := { path := ⟨0, path⟩ }
    have hpass : requireJwt validateJWT secret prefixes req {} = .returned true {} :=
      requireJwt_passes hne hpre {}
    have htoken : ¬ HasAcceptedToken validateJWT secret req := by
      rintro ⟨hnil, -⟩
      exact hnil rfl
    refine h [requireJwt validateJWT secret prefixes] List.mem_cons_self req rfl htoken {} {} ?_
    unfold runMiddlewares
    rw [hpass]
    rfl
  · rintro hpre mws hmem req rfl htoken res out
    exact runMiddlewares_stops hmem (requireJwt_stops hpre htoken) res out

/-! ## Patterns without parameters -/

/-- A path that is dispatched to a pattern without parameters has its segments. -/
theorem findRoute_static {calls : List (HttpMethod × Bytes)} {method m : HttpMethod}
    {path : StringView} {q : Bytes} {i : Nat} {params out : Params}
    (hfound : (RouterNode.addRoutes (numbered calls)).findRoute method path params =
      .found i out)
    (hcall : calls[i]? = some (m, q)) (hstatic : ∀ s ∈ segmentsOf q, isParam s = false) :
    segmentsOf path.bytes = segmentsOf q := by
  rcases findRoute_found hfound with ⟨-, r, hr, -, hhandler, htrail⟩
  rcases List.mem_filterMap.1 hr with ⟨call, hmem, heq⟩
  rcases List.mem_map.1 hmem with ⟨⟨c, k⟩, hk, rfl⟩
  split at heq
  case isFalse => cases heq
  case isTrue =>
    cases heq
    have hc := List.mem_zipIdx_iff_getElem?.1 hk
    simp only at hhandler hc
    rw [hhandler, hcall] at hc
    cases hc
    exact (htrail.static_eq hstatic).symm

/-- **Protection.** For a path that the router dispatches to a pattern without
parameters that starts with a protected prefix, the middleware protects it
exactly when it is spelled so that a protected prefix covers it. -/
theorem guarded_iff (calls : List (HttpMethod × Bytes)) (prefixes : List Bytes)
    (validateJWT : Bytes → Bytes → Bool) (secret : Bytes) {method m : HttpMethod}
    {path : StringView} {q : Bytes} {i : Nat} {out : Params}
    (hfound : (RouterNode.addRoutes (numbered calls)).findRoute method path ∅ = .found i out)
    (hcall : calls[i]? = some (m, q)) (hstatic : ∀ s ∈ segmentsOf q, isParam s = false)
    (hprotected : ∃ pre ∈ prefixes, pre <+: q) :
    Guarded validateJWT secret prefixes path.bytes ↔ SpelledProtected prefixes path.bytes q := by
  have hsame := findRoute_static hfound hcall hstatic
  have hne : prefixes ≠ [] := by
    rcases hprotected with ⟨pre, hmem, -⟩
    exact List.ne_nil_of_mem hmem
  rw [guarded_iff_startsWith hne]
  unfold SpelledProtected
  constructor
  · rintro ⟨pre, hmem, hpre⟩
    refine ⟨pre, hmem, ?_⟩
    by_cases hq : pre <+: q
    · rw [if_pos hq]
      exact (prefix_iff_slashesAgree hsame hq).1 hpre
    · rw [if_neg hq]
      exact hpre
  · rintro ⟨pre, hmem, h⟩
    refine ⟨pre, hmem, ?_⟩
    by_cases hq : pre <+: q
    · rw [if_pos hq] at h
      exact (prefix_iff_slashesAgree hsame hq).2 h
    · rw [if_neg hq] at h
      exact h

/-- One upload route. -/
def uploadCalls : List (HttpMethod × Bytes) := [(.post, lit "/api/upload")]

/-- The handler of the upload is found for every path with these segments. -/
theorem uploadCalls_found {path : StringView} (hslash : path.bytes.head? = some 47)
    (hsegs : segmentsOf path.bytes = [lit "api", lit "upload"]) :
    (RouterNode.addRoutes (numbered uploadCalls)).findRoute .post path ∅ = .found 0 ∅ := by
  have hroutes : routesOf (numbered uploadCalls) = [⟨.post, [lit "api", lit "upload"], 0⟩] := by
    decide +kernel
  rcases findRoute_slash hslash (RouterNode.addRoutes (numbered uploadCalls)) .post ∅ with
    ⟨xs, hxs, hrun⟩
  rw [hrun, addRoutes_eq_build, hroutes]
  rw [hsegs] at hxs
  rcases List.map_eq_cons_iff.1 hxs with ⟨⟨k, x⟩, ys, rfl, rfl, hys⟩
  rcases List.map_eq_cons_iff.1 hys with ⟨⟨k', y⟩, zs, rfl, rfl, hzs⟩
  rcases List.map_eq_nil_iff.1 hzs
  rfl

/-- A protected path with a doubled slash inside. -/
theorem guarded_iff_upload :
    Guarded (fun _ _ => false) [] [lit "/api"] (lit "/api//upload") := by
  have hfound := @uploadCalls_found ⟨0, lit "/api//upload"⟩ (by decide) (by decide +kernel)
  apply (guarded_iff uploadCalls [lit "/api"] (fun _ _ => false) [] hfound rfl
    (by decide +kernel) ⟨_, List.mem_cons_self, ⟨lit "/upload", rfl⟩⟩).2
  refine ⟨_, List.mem_cons_self, ?_⟩
  rw [if_pos ⟨lit "/upload", rfl⟩]
  unfold SlashesAgree
  decide +kernel

/-- A second slash in front leads to the same handler, past the middleware. -/
theorem doubleSlash_unguarded :
    (RouterNode.addRoutes (numbered uploadCalls)).findRoute .post ⟨0, lit "//api/upload"⟩ ∅ =
        .found 0 ∅ ∧
      uploadCalls[0]? = some (.post, lit "/api/upload") ∧
      (∀ s ∈ segmentsOf (lit "/api/upload"), isParam s = false) ∧
      (∃ pre ∈ [lit "/api/upload"], pre <+: lit "/api/upload") ∧
      ¬ Guarded (fun _ _ => false) [] [lit "/api/upload"] (lit "//api/upload") := by
  refine ⟨uploadCalls_found (by decide) (by decide +kernel), rfl, by decide +kernel,
    ⟨_, List.mem_cons_self, List.prefix_refl _⟩, ?_⟩
  rw [guarded_iff_startsWith (List.cons_ne_nil _ _)]
  decide +kernel

end Oreshnek
