import Oreshnek.Server.Routing

/-!
# Leaving the vector of segments

`match_route_recursive` steps its iterator for the static child and, when that fails,
once more for the parameter beside it. At the last segment the second step goes beyond
`path_segment_end`, and the callee reads there. `FallsOff` follows the search over the
registered patterns to such a place; `findRoute_stays_iff` says that it is the only way
out of the vector.
-/

namespace Oreshnek

section Routes

variable {H : Type}

/-- No walk from here ends at a handler or behind the last segment. -/
def InVain (method : HttpMethod) (rs : List (Route H)) (xs : List Bytes) : Prop :=
  ¬ Greedy method rs xs ∧ ¬ Strays method rs xs

/-- The search comes, at the last segment of the path, to a place where a registered
pattern goes on with this segment and another with a parameter, and where no pattern
that ends with the segment has the method. It falls back from a static child to the
parameter beside it only when all behind the static child is in vain; the segment that
follows is skipped then. -/
inductive FallsOff (method : HttpMethod) : List (Route H) → List Bytes → Prop where
  | static {rs : List (Route H)} {x : Bytes} {xs : List Bytes} (hstatic : underStatic x rs ≠ [])
      (h : FallsOff method (underStatic x rs) xs) : FallsOff method rs (x :: xs)
  | param {rs : List (Route H)} {x : Bytes} {xs : List Bytes} (hstatic : underStatic x rs = [])
      (h : FallsOff method (underParam rs) xs) : FallsOff method rs (x :: xs)
  | skip {rs : List (Route H)} {x y : Bytes} {xs : List Bytes} (hstatic : underStatic x rs ≠ [])
      (hvain : InVain method (underStatic x rs) (y :: xs))
      (h : FallsOff method (underParam rs) xs) : FallsOff method rs (x :: y :: xs)
  | off {rs : List (Route H)} {x : Bytes} (hstatic : underStatic x rs ≠ [])
      (hparam : underParam rs ≠ []) (hvain : ∀ r ∈ rs, r.method = method → r.segs ≠ [x]) :
      FallsOff method rs [x]

/-! ## The search -/

/-- Nothing is found exactly where every walk is in vain. -/
theorem match_inVain {method : HttpMethod} {xs : List StringView} {rs : List (Route H)}
    {params : Params} :
    (∃ left, (build rs).matchRouteRecursive method xs params = .notFound left) ↔
      InVain method rs (xs.map StringView.bytes) := by
  have hwalk := match_explained method xs rs params
  constructor
  · rintro ⟨left, hresult⟩
    rw [hresult] at hwalk
    exact hwalk
  · intro hvain
    cases hresult : (build rs).matchRouteRecursive method xs params with
    | notFound left => exact ⟨left, rfl⟩
    | found handler out =>
        rw [hresult] at hwalk
        rcases hwalk with ⟨-, -, -, -, -, hgreedy | ⟨hstrays, -⟩⟩
        · exact absurd hgreedy hvain.1
        · exact absurd hstrays hvain.2
    | overrun =>
        rw [hresult] at hwalk
        exact absurd hwalk hvain.2

/-- The second attempt overruns only when the first has found nothing. -/
theorem orElse_overrun_iff {result : MatchResult H} {next : Params → MatchResult H} :
    result.orElse next = .overrun ↔
      result = .overrun ∨ ∃ left, result = .notFound left ∧ next left = .overrun := by
  cases result with
  | found handler params =>
      constructor
      · intro h
        cases h
      · rintro (h | ⟨left, h, -⟩)
        · cases h
        · cases h
  | overrun => exact iff_of_true rfl (Or.inl rfl)
  | notFound params =>
      constructor
      · intro h
        exact Or.inr ⟨params, rfl, h⟩
      · rintro (h | ⟨left, h, hnext⟩)
        · cases h
        · cases h
          exact hnext

/-- Taking a name away leaves an overrun. -/
theorem unbind_overrun {result : MatchResult H} {name : Bytes} :
    result.unbind name = .overrun ↔ result = .overrun := by
  unfold MatchResult.unbind
  rw [orElse_overrun_iff]
  refine or_iff_left ?_
  rintro ⟨left, -, h⟩
  cases h

theorem paramAttempt_overrun {method : HttpMethod} {rs : List (Route H)} {x : StringView}
    {xs : List StringView} {params : Params} :
    paramAttempt method rs x xs params = .overrun ↔
      (build (underParam rs)).matchRouteRecursive method xs
        (params.insert (build rs).paramName x) = .overrun :=
  unbind_overrun

theorem not_fallsOff_nil {rs : List (Route H)} {method : HttpMethod} :
    ¬ FallsOff method rs [] := by
  intro h
  cases h

/-- Where no pattern goes on, the search ends. -/
theorem not_fallsOff_empty {method : HttpMethod} {xs : List Bytes} :
    ¬ FallsOff method ([] : List (Route H)) xs := by
  intro h
  generalize hrs : ([] : List (Route H)) = rs at h
  induction h with
  | static hstatic _ _ =>
      subst hrs
      exact hstatic rfl
  | param _ _ ih =>
      subst hrs
      exact ih rfl
  | skip hstatic _ _ _ =>
      subst hrs
      exact hstatic rfl
  | off hstatic _ _ =>
      subst hrs
      exact hstatic rfl

/-- A pattern that is `[x]` ends behind the static child `x`. -/
theorem inVain_last {method : HttpMethod} {rs : List (Route H)} {x : Bytes}
    (hx : isParam x = false) :
    InVain method (underStatic x rs) [] ↔ ∀ r ∈ rs, r.method = method → r.segs ≠ [x] := by
  constructor
  · intro hvain r hr hmethod hsegs
    apply hvain.1
    have hunder : { r with segs := [] } ∈ underStatic x rs := by
      rw [mem_underStatic, ← hsegs]
      exact ⟨hx, hr⟩
    exact Greedy.done hunder hmethod rfl
  · intro hnone
    refine ⟨?_, not_strays_nil⟩
    intro hgreedy
    cases hgreedy with
    | done hr hmethod hsegs =>
        rcases mem_underStatic.1 hr with ⟨-, hmem⟩
        exact hnone _ hmem hmethod (by rw [hsegs])

theorem isParam_of_underStatic {x : Bytes} {rs : List (Route H)} (h : underStatic x rs ≠ []) :
    isParam x = false := by
  rcases List.exists_mem_of_ne_nil _ h with ⟨r, hr⟩
  exact (mem_underStatic.1 hr).1

/-- Without a static match a search falls off only under the parameter. -/
theorem fallsOff_param {method : HttpMethod} {rs : List (Route H)} {x : Bytes} {xs : List Bytes}
    (hstatic : underStatic x rs = []) :
    FallsOff method rs (x :: xs) ↔ FallsOff method (underParam rs) xs := by
  constructor
  · intro h
    cases h with
    | static hne _ => exact absurd hstatic hne
    | param _ h => exact h
    | skip hne _ _ => exact absurd hstatic hne
    | off hne _ _ => exact absurd hstatic hne
  · exact FallsOff.param hstatic

/-- At the last segment. -/
theorem fallsOff_last {method : HttpMethod} {rs : List (Route H)} {x : Bytes}
    (hstatic : underStatic x rs ≠ []) :
    FallsOff method rs [x] ↔ InVain method (underStatic x rs) [] ∧ underParam rs ≠ [] := by
  rw [inVain_last (isParam_of_underStatic hstatic)]
  constructor
  · intro h
    cases h with
    | static _ h => exact absurd h not_fallsOff_nil
    | param hnil _ => exact absurd hnil hstatic
    | off _ hparam hvain => exact ⟨hvain, hparam⟩
  · rintro ⟨hvain, hparam⟩
    exact FallsOff.off hstatic hparam hvain

/-- Before it. -/
theorem fallsOff_static {method : HttpMethod} {rs : List (Route H)} {x y : Bytes}
    {ys : List Bytes} (hstatic : underStatic x rs ≠ []) :
    FallsOff method rs (x :: y :: ys) ↔ FallsOff method (underStatic x rs) (y :: ys) ∨
      InVain method (underStatic x rs) (y :: ys) ∧ FallsOff method (underParam rs) ys := by
  constructor
  · intro h
    cases h with
    | static _ h => exact Or.inl h
    | param hnil _ => exact absurd hnil hstatic
    | skip _ hvain h => exact Or.inr ⟨hvain, h⟩
  · rintro (h | ⟨hvain, h⟩)
    · exact FallsOff.static hstatic h
    · exact FallsOff.skip hstatic hvain h

/-- **The search.** It leaves the vector exactly where it falls off. -/
theorem match_overrun_iff (method : HttpMethod) (xs : List StringView) (rs : List (Route H))
    (params : Params) :
    (build rs).matchRouteRecursive method xs params = .overrun ↔
      FallsOff method rs (xs.map StringView.bytes) := by
  induction rs, xs using search_induction generalizing params with
  | done rs =>
      rw [match_done]
      refine iff_of_false ?_ not_fallsOff_nil
      cases lastRegistered method [] rs with
      | some handler =>
          intro h
          cases h
      | none =>
          intro h
          cases h
  | param rs x xs hstatic ih =>
      -- no static child: the parameter takes this segment
      rw [List.map_cons, match_param hstatic, fallsOff_param hstatic]
      by_cases hparam : underParam rs = []
      · rw [if_pos hparam, hparam]
        exact iff_of_false nofun not_fallsOff_empty
      · rw [if_neg hparam]
        exact paramAttempt_overrun.trans (ih _)
  | static rs x xs hstatic ih ihskip =>
      -- the static child first
      rw [List.map_cons, match_static hstatic, orElse_overrun_iff, ih params]
      cases xs with
      | nil =>
          rw [List.map_nil, fallsOff_last hstatic, or_iff_right not_fallsOff_nil]
          have hnext : ∀ left : Params, (if underParam rs = [] then MatchResult.notFound left
              else .overrun) = (MatchResult.overrun : MatchResult H) ↔ underParam rs ≠ [] := by
            intro left
            by_cases hparam : underParam rs = []
            · rw [if_pos hparam]
              exact iff_of_false nofun (not_not.2 hparam)
            · rw [if_neg hparam]
              exact iff_of_true rfl hparam
          simp only [hnext, exists_and_right, match_inVain, List.map_nil]
      | cons y ys =>
          rw [List.map_cons, fallsOff_static hstatic]
          have hnext : ∀ left : Params, (if underParam rs = [] then MatchResult.notFound left
              else paramAttempt method rs x ys left) = .overrun ↔
                FallsOff method (underParam rs) (ys.map StringView.bytes) := by
            intro left
            by_cases hparam : underParam rs = []
            · rw [if_pos hparam, hparam]
              exact iff_of_false nofun not_fallsOff_empty
            · rw [if_neg hparam]
              exact paramAttempt_overrun.trans (ihskip y ys rfl _)
          simp only [hnext, exists_and_right, match_inVain, List.map_cons]

/-- **Inside the vector.** For all registrations, methods and paths, `find_route` never
steps or reads beyond the last segment exactly when the search does not fall off. -/
theorem findRoute_stays_iff (calls : List (HttpMethod × Bytes × H)) (method : HttpMethod)
    (path : StringView) (params : Params) :
    (RouterNode.addRoutes calls).findRoute method path params ≠ .overrun ↔
      ¬ (path.bytes.head? = some 47 ∧
        FallsOff method (routesOf calls) (segmentsOf path.bytes)) := by
  by_cases hslash : path.bytes.head? = some 47
  swap
  · -- the path is refused
    rw [findRoute_other hslash]
    exact iff_of_true (fun h => nomatch h) fun h => hslash h.1
  rw [addRoutes_eq_build, not_iff_not]
  rcases findRoute_slash hslash (build (routesOf calls)) method params with ⟨xs, hxs, hrun⟩
  rw [hrun, ← hxs, match_overrun_iff]
  exact (and_iff_right hslash).symm

end Routes

/-- The page `/a` can be read; to any other page of that depth a form can be sent. -/
def formCalls : List (HttpMethod × Bytes × Nat) := [(.get, lit "/a", 0), (.post, lit "/:x", 1)]

/-- A form sent to `/a`: the static child has no handler for it, and the parameter is
tried behind the end. -/
theorem form_overruns :
    ¬ ∀ (calls : List (HttpMethod × Bytes × Nat)) (method : HttpMethod) (path : StringView),
      (RouterNode.addRoutes calls).findRoute method path ∅ ≠ .overrun := by
  intro hclaim
  apply hclaim formCalls .post ⟨0, lit "/a"⟩
  have hsplit : splitPathToSegments (StringView.substrFrom ⟨0, lit "/a"⟩ 1) =
      [⟨1, lit "a"⟩] := by
    decide +kernel
  have hroutes : routesOf formCalls =
      [⟨.get, [lit "a"], 0⟩, ⟨.post, [lit ":x"], 1⟩] := by
    decide +kernel
  unfold RouterNode.findRoute
  rw [if_pos (by decide), if_neg (by decide), hsplit, addRoutes_eq_build, hroutes]
  rfl

end Oreshnek
