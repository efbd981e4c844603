import Oreshnek.Server.Routing

/-!
# The parameters a handler sees

A node keeps one name for its parameter, that of the first registration through
it, and a failed attempt erases the names it has tried. So what a handler sees
depends on the other routes. `Visit` follows the walk that ends at a handler with
what is bound before and after it, and `own_params_iff` says when these are the
parameters of the handler's own pattern.

A parameter is compared as a view: the segment at its position, not another one
that happens to read the same.
-/

namespace Oreshnek

/-! ## Names at the nodes -/

section Routes

variable {H : Type}

/-- The name the first of these registrations gives to the parameter it starts
with. -/
def firstName (rs : List (Route H)) : Bytes :=
  (((rs.filterMap fun r => r.segs.head?).find? isParam).map List.tail).getD []

/-- The names stored along a pattern. -/
def nodeNames : List (Route H) → List Bytes → List Bytes
  | _, [] => []
  | rs, p :: pattern =>
      if isParam p then firstName rs :: nodeNames (underParam rs) pattern
      else nodeNames (underStatic p rs) pattern

/-- The names a search that fails has tried, each erased again. -/
def tried : List (Route H) → List Bytes → List Bytes
  | _, [] => []
  | rs, [x] =>
      if underStatic x rs = [] then if underParam rs = [] then [] else [firstName rs] else []
  | rs, x :: y :: xs =>
      if underStatic x rs = [] then
        if underParam rs = [] then [] else firstName rs :: tried (underParam rs) (y :: xs)
      else
        tried (underStatic x rs) (y :: xs) ++
          -- the fallback has skipped a segment
          if underParam rs = [] then [] else firstName rs :: tried (underParam rs) xs

theorem tried_param {rs : List (Route H)} {x : Bytes} (hstatic : underStatic x rs = [])
    (xs : List Bytes) :
    tried rs (x :: xs) =
      if underParam rs = [] then [] else firstName rs :: tried (underParam rs) xs := by
  cases xs with
  | nil => rw [tried, tried, if_pos hstatic]
  | cons y ys => rw [tried, if_pos hstatic]

theorem tried_static {rs : List (Route H)} {x : Bytes} (hstatic : underStatic x rs ≠ [])
    (hparam : underParam rs = []) (xs : List Bytes) :
    tried rs (x :: xs) = tried (underStatic x rs) xs := by
  cases xs with
  | nil => rw [tried, tried, if_neg hstatic]
  | cons y ys => rw [tried, if_neg hstatic, if_pos hparam, List.append_nil]

theorem tried_skip {rs : List (Route H)} {x : Bytes} (hstatic : underStatic x rs ≠ [])
    (hparam : underParam rs ≠ []) (y : Bytes) (xs : List Bytes) :
    tried rs (x :: y :: xs) =
      tried (underStatic x rs) (y :: xs) ++ firstName rs :: tried (underParam rs) xs := by
  rw [tried, if_neg hstatic, if_neg hparam]

/-- The name of a parameter node is that of the first route through it. -/
theorem firstName_append_param {rs : List (Route H)} {r : Route H} {t : Bytes} {rest : List Bytes}
    (hsegs : r.segs = t :: rest) (ht : isParam t = true) :
    firstName (rs ++ [r]) = if underParam rs = [] then t.tail else firstName rs := by
  unfold firstName
  rw [List.filterMap_append, List.find?_append]
  have hlast : ([r].filterMap fun r => r.segs.head?).find? isParam = some t := by
    simp [hsegs, ht]
  rw [hlast]
  cases hfind : (rs.filterMap fun r => r.segs.head?).find? isParam with
  | none =>
      have hnil : underParam rs = [] := by
        rw [List.eq_nil_iff_forall_not_mem]
        intro r' hr'
        rcases mem_underParam.1 hr' with ⟨s, hs, hmem⟩
        rw [List.find?_eq_none] at hfind
        exact hfind s (List.mem_filterMap.2 ⟨_, hmem, rfl⟩) hs
      rw [if_pos hnil]
      rfl
  | some s =>
      have hne : underParam rs ≠ [] := by
        rcases List.mem_filterMap.1 (List.mem_of_find?_eq_some hfind) with ⟨r', hr', hhead⟩
        rcases r' with ⟨m, segs, handler⟩
        cases segs with
        | nil => cases hhead
        | cons u segs =>
            cases hhead
            have hs : isParam s = true := List.find?_some hfind
            exact List.ne_nil_of_mem (a := ⟨m, segs, handler⟩) (mem_underParam.2 ⟨s, hs, hr'⟩)
      rw [if_neg hne]
      rfl

/-- A route without a parameter in front leaves the first name. -/
theorem firstName_append_other {rs : List (Route H)} {r : Route H}
    (h : ∀ t rest, r.segs = t :: rest → isParam t = false) :
    firstName (rs ++ [r]) = firstName rs := by
  unfold firstName
  rw [List.filterMap_append, List.find?_append]
  have hlast : ([r].filterMap fun r => r.segs.head?).find? isParam = none := by
    rcases r with ⟨m, segs, handler⟩
    cases segs with
    | nil => rfl
    | cons t rest =>
        have ht := h t rest rfl
        simp [ht]
  rw [hlast, Option.or_none]

/-- A node keeps the name of the first registration. -/
theorem build_firstName (rs : List (Route H)) : (build rs).paramName = firstName rs := by
  induction rs using List.reverseRecOn with
  | nil => rfl
  | append_singleton rs r ih =>
      rw [build_append]
      rcases r with ⟨m, segs, handler⟩
      cases segs with
      | nil =>
          rw [firstName_append_other (by rintro t rest ⟨⟩)]
          exact ih
      | cons t rest =>
          unfold RouterNode.addRouteRecursive
          by_cases ht : isParam t = true
          · rw [if_pos ht, firstName_append_param rfl ht, build_paramChild]
            by_cases hnil : underParam rs = []
            · rw [if_pos hnil, if_pos hnil]
            · rw [if_neg hnil, if_neg hnil]
              exact ih
          · rw [if_neg ht, firstName_append_other]
            · exact ih
            · rintro _ _ ⟨⟩
              simpa using ht

/-! ## What a failed search leaves -/

/-- What is bound, as a function of the name. -/
def bound (params : Params) (name : Bytes) : Option StringView := params.lookup name

/-- These names erased. -/
def without (names : List Bytes) (seen : Bytes → Option StringView) (name : Bytes) :
    Option StringView :=
  if name ∈ names then none else seen name

/-- A name that is inserted is bound. -/
theorem bound_insert (params : Params) (name : Bytes) (x : StringView) :
    bound (params.insert name x) = Function.update (bound params) name (some x) := by
  funext other
  by_cases h : other = name
  · subst h
    simp [bound]
  · rw [Function.update_of_ne h]
    exact AList.lookup_insert_ne h

/-- A name erased is bound no more. -/
theorem bound_erase (params : Params) (name : Bytes) :
    bound (params.erase name) = without [name] (bound params) := by
  funext other
  unfold bound without
  by_cases h : other = name
  · subst h
    simp
  · rw [if_neg (by simpa using h)]
    exact AList.lookup_erase_ne h

theorem without_nil (seen : Bytes → Option StringView) : without [] seen = seen := by
  funext name
  simp [without]

/-- Names are taken away one list after the other. -/
theorem without_append (names others : List Bytes) (seen : Bytes → Option StringView) :
    without others (without names seen) = without (names ++ others) seen := by
  funext name
  simp only [without, List.mem_append]
  by_cases h : name ∈ others
  · simp [h]
  · simp [h]

/-- A name that is written and erased later was only erased. -/
theorem without_update (name : Bytes) (names : List Bytes) (v : Option StringView)
    (seen : Bytes → Option StringView) :
    without [name] (without names (Function.update seen name v)) =
      without (name :: names) seen := by
  funext other
  simp only [without, List.mem_cons, List.not_mem_nil, or_false]
  by_cases h : other = name
  · simp [h]
  · simp [h]

/-- A parameter attempt that fails: its name has been tried, and all behind it. -/
theorem paramAttempt_failed {method : HttpMethod} {rs : List (Route H)} {x : StringView}
    {ys : List StringView} {params left : Params}
    (hbehind : ∀ params left,
      (build (underParam rs)).matchRouteRecursive method ys params = .notFound left →
      bound left = without (tried (underParam rs) (ys.map StringView.bytes)) (bound params))
    (h : paramAttempt method rs x ys params = .notFound left) :
    bound left = without (firstName rs :: tried (underParam rs) (ys.map StringView.bytes))
      (bound params) := by
  rcases paramAttempt_notFound h with ⟨inner, hrun, hleft⟩
  rw [build_firstName] at hrun hleft
  rw [hleft, bound_erase, hbehind _ _ hrun, bound_insert, without_update]

/-- **What a failed search leaves**: what was bound, without the names it has
tried. -/
theorem match_failed {method : HttpMethod} (xs : List StringView) {rs : List (Route H)}
    {params left : Params}
    (h : (build rs).matchRouteRecursive method xs params = .notFound left) :
    bound left = without (tried rs (xs.map StringView.bytes)) (bound params) := by
  induction rs, xs using search_induction generalizing params left with
  | done rs =>
      rw [match_done] at h
      split at h
      · cases h
      · cases h
        rw [List.map_nil, tried, without_nil]
  | param rs x xs hstatic ih =>
      rw [match_param hstatic] at h
      rw [List.map_cons, tried_param hstatic]
      by_cases hparam : underParam rs = []
      · rw [if_pos hparam] at h
        cases h
        rw [if_pos hparam, without_nil]
      · rw [if_neg hparam] at h
        rw [if_neg hparam]
        exact paramAttempt_failed (fun _ _ => ih) h
  | static rs x xs hstatic ih ihskip =>
      rw [match_static hstatic] at h
      rcases MatchResult.orElse_eq_notFound.1 h with ⟨inner, hrun, h⟩
      have hinner := ih hrun
      by_cases hparam : underParam rs = []
      · rw [if_pos hparam] at h
        cases h
        rw [hinner, List.map_cons, tried_static hstatic hparam]
      · rw [if_neg hparam] at h
        cases xs with
        | nil => cases h
        | cons y ys =>
            have hskip := paramAttempt_failed (fun _ _ => ihskip y ys rfl) h
            rw [hskip, hinner, without_append, List.map_cons, List.map_cons, List.map_cons,
              tried_skip hstatic hparam]

/-! ## The walk that ends at a handler -/

/-- The walk along a pattern that succeeds, with what is bound before and after
it. The walk that falls back from a static child has lost what the failed search
has tried, and skips a segment. -/
inductive Visit : List (Route H) → List Bytes → List StringView →
    (Bytes → Option StringView) → (Bytes → Option StringView) → Prop where
  | done {rs : List (Route H)} {seen : Bytes → Option StringView} : Visit rs [] [] seen seen
  | static {rs : List (Route H)} {pattern : List Bytes} {x : StringView} {xs : List StringView}
      {seen after : Bytes → Option StringView} (hx : isParam x.bytes = false)
      (h : Visit (underStatic x.bytes rs) pattern xs seen after) :
      Visit rs (x.bytes :: pattern) (x :: xs) seen after
  | param {rs : List (Route H)} {p : Bytes} {pattern : List Bytes} {x : StringView}
      {xs : List StringView} {seen after : Bytes → Option StringView} (hp : isParam p = true)
      (hstatic : underStatic x.bytes rs = [])
      (h : Visit (underParam rs) pattern xs
        (Function.update seen (firstName rs) (some x)) after) :
      Visit rs (p :: pattern) (x :: xs) seen after
  | skip {rs : List (Route H)} {p : Bytes} {pattern : List Bytes} {x y : StringView}
      {xs : List StringView} {seen after : Bytes → Option StringView} (hp : isParam p = true)
      (hstatic : underStatic x.bytes rs ≠ [])
      (h : Visit (underParam rs) pattern xs
        (Function.update
          (without (tried (underStatic x.bytes rs) ((y :: xs).map StringView.bytes)) seen)
          (firstName rs) (some x)) after) :
      Visit rs (p :: pattern) (x :: y :: xs) seen after

/-- A parameter attempt that finds a handler. -/
theorem paramAttempt_found {method : HttpMethod} {rs : List (Route H)} {x : StringView}
    {xs : List StringView} {params out : Params} {handler : H}
    (h : paramAttempt method rs x xs params = .found handler out) :
    (build (underParam rs)).matchRouteRecursive method xs (params.insert (firstName rs) x) =
      .found handler out := by
  unfold paramAttempt MatchResult.unbind at h
  rw [build_firstName] at h
  rcases MatchResult.orElse_eq_found.1 h with hrun | ⟨inner, -, hfound⟩
  · exact hrun
  · cases hfound

/-- **What a search that succeeds binds.** -/
theorem match_visit {method : HttpMethod} (xs : List StringView) {rs : List (Route H)}
    {params out : Params} {handler : H}
    (h : (build rs).matchRouteRecursive method xs params = .found handler out) :
    ∃ r ∈ rs, r.handler = handler ∧ Visit rs r.segs xs (bound params) (bound out) := by
  induction rs, xs using search_induction generalizing params out with
  | done rs =>
      rw [match_done] at h
      cases hlast : lastRegistered method [] rs with
      | none =>
          rw [hlast] at h
          cases h
      | some last =>
          rw [hlast] at h
          cases h
          rcases lastRegistered_mem hlast with ⟨r, hr, -, hsegs, hhandler⟩
          refine ⟨r, hr, hhandler, ?_⟩
          rw [hsegs]
          exact Visit.done
  | param rs x xs hstatic ih =>
      rw [match_param hstatic] at h
      by_cases hparam : underParam rs = []
      · rw [if_pos hparam] at h
        cases h
      · rw [if_neg hparam] at h
        rcases ih (paramAttempt_found h) with ⟨r, hr, hhandler, hvisit⟩
        rcases mem_underParam.1 hr with ⟨p, hp, hmem⟩
        rw [bound_insert] at hvisit
        exact ⟨_, hmem, hhandler, Visit.param hp hstatic hvisit⟩
  | static rs x xs hstatic ih ihskip =>
      rw [match_static hstatic] at h
      rcases MatchResult.orElse_eq_found.1 h with hrun | ⟨inner, hrun, h⟩
      · -- found behind the static child
        rcases ih hrun with ⟨r, hr, hhandler, hvisit⟩
        rcases mem_underStatic.1 hr with ⟨hx, hmem⟩
        exact ⟨_, hmem, hhandler, Visit.static hx hvisit⟩
      · -- found by the parameter, after the static child has failed
        by_cases hparam : underParam rs = []
        · rw [if_pos hparam] at h
          cases h
        · rw [if_neg hparam] at h
          cases xs with
          | nil => cases h
          | cons y ys =>
              rcases ihskip y ys rfl (paramAttempt_found h) with ⟨r, hr, hhandler, hvisit⟩
              rcases mem_underParam.1 hr with ⟨p, hp, hmem⟩
              rw [bound_insert, match_failed _ hrun] at hvisit
              exact ⟨_, hmem, hhandler, Visit.skip hp hstatic hvisit⟩

/-- A segment that the walk no longer meets was bound before it. -/
theorem Visit.of_old {rs : List (Route H)} {pattern : List Bytes} {xs : List StringView}
    {seen after : Bytes → Option StringView} (h : Visit rs pattern xs seen after) {name : Bytes}
    {v : StringView} (hv : after name = some v) (hold : v ∉ xs) : seen name = some v := by
  induction h with
  | done => exact hv
  | static _ _ ih => exact ih hv fun hmem => hold (List.mem_cons_of_mem _ hmem)
  | @param rs _ _ x _ _ _ _ _ _ ih =>
      have hbefore := ih hv fun hmem => hold (List.mem_cons_of_mem _ hmem)
      by_cases hname : name = firstName rs
      · subst hname
        rw [Function.update_self] at hbefore
        cases hbefore
        exact absurd List.mem_cons_self hold
      · rwa [Function.update_of_ne hname] at hbefore
  | @skip rs _ _ x y _ _ _ _ _ _ ih =>
      have hbefore := ih hv fun hmem =>
        hold (List.mem_cons_of_mem _ (List.mem_cons_of_mem _ hmem))
      by_cases hname : name = firstName rs
      · subst hname
        rw [Function.update_self] at hbefore
        cases hbefore
        exact absurd List.mem_cons_self hold
      · rw [Function.update_of_ne hname] at hbefore
        unfold without at hbefore
        split at hbefore
        · cases hbefore
        · exact hbefore

/-- Only names stored along the pattern are bound by the walk. -/
theorem Visit.binds {rs : List (Route H)} {pattern : List Bytes} {xs : List StringView}
    {seen after : Bytes → Option StringView} (h : Visit rs pattern xs seen after) {name : Bytes}
    (hname : name ∉ nodeNames rs pattern) {v : StringView} (hv : after name = some v) :
    seen name = some v := by
  induction h with
  | done => exact hv
  | static hx _ ih =>
      rw [nodeNames, hx] at hname
      exact ih hname hv
  | param hp _ _ ih =>
      rw [nodeNames, if_pos hp, List.mem_cons, not_or] at hname
      have hbefore := ih hname.2 hv
      rwa [Function.update_of_ne hname.1] at hbefore
  | skip hp _ _ ih =>
      rw [nodeNames, if_pos hp, List.mem_cons, not_or] at hname
      have hbefore := ih hname.2 hv
      rw [Function.update_of_ne hname.1] at hbefore
      unfold without at hbefore
      split at hbefore
      · cases hbefore
      · exact hbefore

/-- A walk without parameters binds nothing. -/
theorem Visit.unchanged {rs : List (Route H)} {pattern : List Bytes} {xs : List StringView}
    {seen after : Bytes → Option StringView} (h : Visit rs pattern xs seen after)
    (hstatic : ∀ p ∈ pattern, isParam p = false) : after = seen := by
  induction h with
  | done => rfl
  | static _ _ ih => exact ih fun p hp => hstatic p (List.mem_cons_of_mem _ hp)
  | param hp _ _ _ =>
      rw [hstatic _ List.mem_cons_self] at hp
      cases hp
  | skip hp _ _ _ =>
      rw [hstatic _ List.mem_cons_self] at hp
      cases hp

/-! ## A pattern that keeps its names -/

/-- No fallback from a static child harms the parameters of the pattern: there
is none up to its last parameter, and one there only when the failed search
behind the static child has tried none of the names given before. -/
inductive Straight : List (Route H) → List Bytes → List Bytes → List Bytes → Prop where
  | rest {rs : List (Route H)} {names pattern xs : List Bytes}
      (h : ∀ p ∈ pattern, isParam p = false) : Straight rs names pattern xs
  | static {rs : List (Route H)} {names pattern xs : List Bytes} {x : Bytes}
      (hx : isParam x = false) (h : Straight (underStatic x rs) names pattern xs) :
      Straight rs names (x :: pattern) (x :: xs)
  | param {rs : List (Route H)} {names pattern xs : List Bytes} {p x : Bytes}
      (hp : isParam p = true) (hstatic : underStatic x rs = [])
      (h : Straight (underParam rs) (p.tail :: names) pattern xs) :
      Straight rs names (p :: pattern) (x :: xs)
  | last {rs : List (Route H)} {names pattern xs : List Bytes} {p x : Bytes}
      (hp : isParam p = true) (hstatic : underStatic x rs ≠ [])
      (hkept : ∀ name ∈ names, name ∉ tried (underStatic x rs) xs)
      (hrest : ∀ q ∈ pattern, isParam q = false) : Straight rs names (p :: pattern) (x :: xs)

/-- The pattern's parameters reach its handler: the nodes store the names it
gives, these differ, and no fallback harms them. -/
structure KeepsNames (rs : List (Route H)) (pattern xs : List Bytes) : Prop where
  own : nodeNames rs pattern = paramNames pattern
  distinct : (paramNames pattern).Nodup
  straight : Straight rs [] pattern xs

/-- Each parameter of the pattern is bound to the segment at its position. -/
def Places (pattern : List Bytes) (xs : List StringView)
    (seen : Bytes → Option StringView) : Prop :=
  ∀ (k : Nat) (p : Bytes), pattern[k]? = some p → isParam p = true →
    ∃ x, xs[k]? = some x ∧ seen p.tail = some x

/-- What a handler of this pattern should see. -/
structure OwnParams (pattern : List Bytes) (xs : List StringView) (params : Params) : Prop where
  own : Places pattern xs (bound params)
  only : ∀ name ∈ params, name ∈ paramNames pattern

theorem places_nil (xs : List StringView) (seen : Bytes → Option StringView) :
    Places [] xs seen := by
  intro k p hp
  cases hp

/-- The parameters of a pattern are bound segment by segment. -/
theorem places_cons {p : Bytes} {pattern : List Bytes} {x : StringView} {xs : List StringView}
    {seen : Bytes → Option StringView} :
    Places (p :: pattern) (x :: xs) seen ↔
      (isParam p = true → seen p.tail = some x) ∧ Places pattern xs seen := by
  constructor
  · intro h
    constructor
    · intro hp
      rcases h 0 p rfl hp with ⟨y, hy, hseen⟩
      cases hy
      exact hseen
    · exact fun k q hq => h (k + 1) q hq
  · rintro ⟨hhead, htail⟩ k q hq hparam
    cases k with
    | zero =>
        cases hq
        exact ⟨x, rfl, hhead hparam⟩
    | succ k => exact htail k q hq hparam

theorem places_static {pattern : List Bytes} (h : ∀ p ∈ pattern, isParam p = false)
    (xs : List StringView) (seen : Bytes → Option StringView) : Places pattern xs seen := by
  intro k p hp hparam
  rw [h p (List.mem_of_getElem? hp)] at hparam
  cases hparam

/-- A pattern without parameters names none. -/
theorem paramNames_eq_nil {pattern : List Bytes} (h : ∀ p ∈ pattern, isParam p = false) :
    paramNames pattern = [] := by
  unfold paramNames
  rw [List.map_eq_nil_iff, List.filter_eq_nil_iff]
  intro p hp
  rw [h p hp]
  exact Bool.false_ne_true

theorem nodeNames_eq_nil {pattern : List Bytes} (h : ∀ p ∈ pattern, isParam p = false)
    (rs : List (Route H)) : nodeNames rs pattern = [] := by
  induction pattern generalizing rs with
  | nil => rfl
  | cons p pattern ih =>
      rw [nodeNames, h p List.mem_cons_self]
      exact ih (fun q hq => h q (List.mem_cons_of_mem _ hq)) _

/-- **A pattern that keeps its names gets them.** On the way the names given
before stay as they are. -/
theorem Visit.delivers {rs : List (Route H)} {pattern : List Bytes} {xs : List StringView}
    {seen after : Bytes → Option StringView} (h : Visit rs pattern xs seen after)
    {names : List Bytes} (hown : nodeNames rs pattern = paramNames pattern)
    (hdistinct : (paramNames pattern).Nodup) (hnames : ∀ name ∈ names, name ∉ paramNames pattern)
    (hstraight : Straight rs names pattern (xs.map StringView.bytes)) :
    Places pattern xs after ∧ ∀ name ∈ names, after name = seen name := by
  induction h generalizing names with
  | done => exact ⟨places_nil _ _, fun _ _ => rfl⟩
  | static hx hvisit ih =>
      rw [nodeNames, hx, paramNames_static hx] at hown
      rw [paramNames_static hx] at hdistinct hnames
      cases hstraight with
      | rest hrest =>
          -- no parameter is left in the pattern, so nothing is bound any more
          have hrest := fun p hp => hrest p (List.mem_cons_of_mem _ hp)
          refine ⟨places_cons.2 ⟨?_, places_static hrest _ _⟩, ?_⟩
          · intro hp
            rw [hx] at hp
            cases hp
          · rw [hvisit.unchanged hrest]
            exact fun _ _ => rfl
      | static _ hstraight =>
          rcases ih hown hdistinct hnames hstraight with ⟨hplaces, hkept⟩
          refine ⟨places_cons.2 ⟨?_, hplaces⟩, hkept⟩
          intro hp
          rw [hx] at hp
          cases hp
      | param hp _ _ =>
          rw [hx] at hp
          cases hp
      | last hp _ _ _ =>
          rw [hx] at hp
          cases hp
  | @param rs p pattern x xs seen after hp hstatic hvisit ih =>
      rw [nodeNames, if_pos hp, paramNames_param hp] at hown
      rw [paramNames_param hp] at hdistinct hnames
      rcases List.cons.inj hown with ⟨hname, hown⟩
      rcases List.nodup_cons.1 hdistinct with ⟨hnew, hdistinct⟩
      cases hstraight with
      | rest hrest =>
          rw [hrest p List.mem_cons_self] at hp
          cases hp
      | static hx _ =>
          rw [hx] at hp
          cases hp
      | last _ hne _ _ => exact absurd hstatic hne
      | param _ _ hstraight =>
          -- the name bound here is not bound again behind it
          have hlater : ∀ name ∈ p.tail :: names, name ∉ paramNames pattern := by
            intro name hmem
            rcases List.mem_cons.1 hmem with rfl | hmem
            · exact hnew
            · exact fun hin => hnames name hmem (List.mem_cons_of_mem _ hin)
          rcases ih hown hdistinct hlater hstraight with ⟨hplaces, hkept⟩
          constructor
          · refine places_cons.2 ⟨fun _ => ?_, hplaces⟩
            rw [hkept p.tail List.mem_cons_self, hname, Function.update_self]
          · intro name hmem
            have hne : name ≠ firstName rs := by
              rintro rfl
              exact hnames _ hmem (hname ▸ List.mem_cons_self)
            rw [hkept name (List.mem_cons_of_mem _ hmem), Function.update_of_ne hne]
  | @skip rs p pattern x y xs seen after hp hstatic hvisit ih =>
      rw [nodeNames, if_pos hp, paramNames_param hp] at hown
      rw [paramNames_param hp] at hnames
      rcases List.cons.inj hown with ⟨hname, -⟩
      cases hstraight with
      | rest hrest =>
          rw [hrest p List.mem_cons_self] at hp
          cases hp
      | static hx _ =>
          rw [hx] at hp
          cases hp
      | param _ hnil _ => exact absurd hnil hstatic
      | last _ _ hkept hrest =>
          -- the last parameter: what follows is static, and the failed search has tried no name of it
          rw [hvisit.unchanged hrest]
          constructor
          · refine places_cons.2 ⟨fun _ => ?_, places_static hrest _ _⟩
            rw [← hname, Function.update_self]
          · intro name hmem
            have hne : name ≠ firstName rs := by
              rintro rfl
              exact hnames _ hmem (hname ▸ List.mem_cons_self)
            rw [Function.update_of_ne hne]
            exact if_neg (hkept name hmem)

/-- Behind a skipped segment no parameter gets the segment at its position. -/
theorem Visit.shifted {rs : List (Route H)} {pattern : List Bytes} {xs : List StringView}
    {seen after : Bytes → Option StringView} (h : Visit rs pattern xs seen after) {y : StringView}
    (hnodup : (y :: xs).Nodup) (hseen : ∀ name x, seen name = some x → x ∉ y :: xs)
    (hplaces : Places pattern (y :: xs) after) : ∀ p ∈ pattern, isParam p = false := by
  induction h generalizing y with
  | done => exact fun _ hp => absurd hp List.not_mem_nil
  | @static rs pattern x xs _ _ hx hvisit ih =>
      intro p hp
      rcases List.mem_cons.1 hp with rfl | hp
      · exact hx
      · refine ih (List.nodup_cons.1 hnodup).2 ?_ (places_cons.1 hplaces).2 p hp
        exact fun name v hv hmem => hseen name v hv (List.mem_cons_of_mem _ hmem)
  | param hp hstatic hvisit _ =>
      -- the parameter would have to be bound to the skipped segment
      have hy := (places_cons.1 hplaces).1 hp
      have hbefore := (Visit.param hp hstatic hvisit).of_old hy (List.nodup_cons.1 hnodup).1
      exact absurd List.mem_cons_self (hseen _ _ hbefore)
  | skip hp hstatic hvisit _ =>
      have hy := (places_cons.1 hplaces).1 hp
      have hbefore := (Visit.skip hp hstatic hvisit).of_old hy (List.nodup_cons.1 hnodup).1
      exact absurd List.mem_cons_self (hseen _ _ hbefore)

/-- What is left is not among the names taken away. -/
theorem without_some {names : List Bytes} {seen : Bytes → Option StringView} {name : Bytes}
    {x : StringView} (h : without names seen name = some x) :
    name ∉ names ∧ seen name = some x := by
  unfold without at h
  split at h
  · cases h
  case isFalse hname => exact ⟨hname, h⟩

/-- Segments still to come stay unbound when another one is bound. -/
theorem update_fresh {seen : Bytes → Option StringView} {xs : List StringView} {x : StringView}
    (hx : x ∉ xs) (hseen : ∀ name v, seen name = some v → v ∉ xs) (stored name : Bytes)
    (v : StringView) (hv : Function.update seen stored (some x) name = some v) : v ∉ xs := by
  by_cases hname : name = stored
  · subst hname
    rw [Function.update_self] at hv
    cases hv
    exact hx
  · rw [Function.update_of_ne hname] at hv
    exact hseen name v hv

/-- The parameter that takes a segment and gets it: the node stores its name,
which was not given before. -/
theorem Visit.taken {rs : List (Route H)} {pattern names : List Bytes} {xs : List StringView}
    {seen after : Bytes → Option StringView} {stored name : Bytes} {x : StringView}
    (h : Visit rs pattern xs (Function.update seen stored (some x)) after) (hx : x ∉ xs)
    (hseen : ∀ other, seen other ≠ some x) (hname : after name = some x)
    (hnames : ∀ other ∈ names, ∃ v, seen other = some v ∧ after other = some v) :
    stored = name ∧ name ∉ names ∧ ∀ other ∈ name :: names, ∃ v,
      Function.update seen stored (some x) other = some v ∧ after other = some v := by
  have hstored : stored = name := by
    by_contra hne
    have hbefore := h.of_old hname hx
    rw [Function.update_of_ne (Ne.symm hne)] at hbefore
    exact hseen name hbefore
  have hnew : name ∉ names := by
    intro hmem
    rcases hnames name hmem with ⟨v, hv, hafter⟩
    rw [hname] at hafter
    cases hafter
    exact hseen name hv
  refine ⟨hstored, hnew, ?_⟩
  subst hstored
  intro other hmem
  rcases List.mem_cons.1 hmem with rfl | hother
  · exact ⟨x, Function.update_self _ _ _, hname⟩
  · have hne : other ≠ stored := by
      rintro rfl
      exact hnew hother
    rw [Function.update_of_ne hne]
    exact hnames other hother

/-- **A pattern that gets its parameters keeps its names.** Segments are told
apart by where they are, so none of them is bound twice. -/
theorem Visit.keeps {rs : List (Route H)} {pattern : List Bytes} {xs : List StringView}
    {seen after : Bytes → Option StringView} (h : Visit rs pattern xs seen after)
    {names : List Bytes} (hnodup : xs.Nodup) (hseen : ∀ name x, seen name = some x → x ∉ xs)
    (hnames : ∀ name ∈ names, ∃ x, seen name = some x ∧ after name = some x)
    (hplaces : Places pattern xs after) :
    nodeNames rs pattern = paramNames pattern ∧ (paramNames pattern).Nodup ∧
      (∀ name ∈ names, name ∉ paramNames pattern) ∧
      Straight rs names pattern (xs.map StringView.bytes) := by
  induction h generalizing names with
  | done =>
      refine ⟨rfl, List.nodup_nil, fun _ _ => List.not_mem_nil, ?_⟩
      exact Straight.rest fun _ hp => absurd hp List.not_mem_nil
  | @static rs pattern x xs seen after hx _ ih =>
      rw [nodeNames, hx, paramNames_static hx]
      have hold : ∀ name v, seen name = some v → v ∉ xs := fun name v hv hmem =>
        hseen name v hv (List.mem_cons_of_mem _ hmem)
      rcases ih (List.nodup_cons.1 hnodup).2 hold hnames (places_cons.1 hplaces).2 with
        ⟨hown, hdistinct, hfresh, hstraight⟩
      exact ⟨hown, hdistinct, hfresh, Straight.static hx hstraight⟩
  | @param rs p pattern x xs seen after hp hstatic hvisit ih =>
      rcases List.nodup_cons.1 hnodup with ⟨hx, hnodup⟩
      rcases places_cons.1 hplaces with ⟨hhead, hplaces⟩
      have hunseen : ∀ other, seen other ≠ some x := fun other hother =>
        hseen other x hother List.mem_cons_self
      have hold : ∀ name v, seen name = some v → v ∉ xs := fun name v hv hmem =>
        hseen name v hv (List.mem_cons_of_mem _ hmem)
      rcases hvisit.taken hx hunseen (hhead hp) hnames with ⟨hstored, hnew, hgiven⟩
      rcases ih hnodup (update_fresh hx hold _) hgiven hplaces with
        ⟨hown, hdistinct, hfresh, hstraight⟩
      rw [nodeNames, if_pos hp, paramNames_param hp, hstored, hown]
      refine ⟨rfl, List.nodup_cons.2 ⟨hfresh _ List.mem_cons_self, hdistinct⟩, ?_, ?_⟩
      · intro name hmem hin
        rcases List.mem_cons.1 hin with rfl | hin
        · exact hnew hmem
        · exact hfresh name (List.mem_cons_of_mem _ hmem) hin
      · exact Straight.param hp hstatic hstraight
  | @skip rs p pattern x y xs seen after hp hstatic hvisit _ =>
      rcases List.nodup_cons.1 hnodup with ⟨hx, hnodup⟩
      rcases places_cons.1 hplaces with ⟨hhead, hplaces⟩
      have hx' : x ∉ xs := fun hmem => hx (List.mem_cons_of_mem _ hmem)
      generalize hlost : tried (underStatic x.bytes rs) ((y :: xs).map StringView.bytes) = lost
        at hvisit
      have hunseen : ∀ other, without lost seen other ≠ some x := fun other hother =>
        hseen other x (without_some hother).2 List.mem_cons_self
      -- what was given before is still there behind the walk, so it was not tried
      have hgiven : ∀ name ∈ names, ∃ v, without lost seen name = some v ∧ after name = some v := by
        intro name hmem
        rcases hnames name hmem with ⟨v, hv, hafter⟩
        have hvnew := hseen name v hv
        have hbefore := hvisit.of_old hafter fun hmem =>
          hvnew (List.mem_cons_of_mem _ (List.mem_cons_of_mem _ hmem))
        by_cases hname : name = firstName rs
        · subst hname
          rw [Function.update_self] at hbefore
          cases hbefore
          exact absurd List.mem_cons_self hvnew
        · rw [Function.update_of_ne hname] at hbefore
          exact ⟨v, hbefore, hafter⟩
      rcases hvisit.taken hx' hunseen (hhead hp) hgiven with ⟨hstored, hnew, -⟩
      have hold : ∀ name v, without lost seen name = some v → v ∉ y :: xs :=
        fun name v hv hmem => hseen name v (without_some hv).2 (List.mem_cons_of_mem _ hmem)
      have hrest := hvisit.shifted hnodup (update_fresh hx hold _) hplaces
      have hown : nodeNames (underParam rs) pattern = [] := nodeNames_eq_nil hrest _
      rw [nodeNames, if_pos hp, paramNames_param hp, hstored, hown, paramNames_eq_nil hrest]
      refine ⟨rfl, List.nodup_singleton _, ?_, ?_⟩
      · intro name hmem hin
        rw [List.mem_singleton] at hin
        subst hin
        exact hnew hmem
      · refine Straight.last hp hstatic ?_ hrest
        intro name hmem
        rcases hgiven name hmem with ⟨v, hv, -⟩
        rw [hlost]
        exact (without_some hv).1

end Routes

/-! ## When a handler sees its own parameters -/

/-- **The parameters of the pattern.** The handler that `find_route` returns
sees the parameters of its own pattern exactly when the pattern keeps its names
along this path. -/
theorem own_params_iff (calls : List (HttpMethod × Bytes)) (method : HttpMethod)
    (path : StringView) {i : Nat} {call : HttpMethod × Bytes} (hcall : calls[i]? = some call)
    {out : Params}
    (hfound : (RouterNode.addRoutes (numbered calls)).findRoute method path ∅ = .found i out) :
    OwnParams (segmentsOf call.2) (splitPathToSegments (path.substrFrom 1)) out ↔
      KeepsNames (routesOf (numbered calls)) (segmentsOf call.2) (segmentsOf path.bytes) := by
  have hslash := (findRoute_found hfound).1
  rw [findRoute_split hslash, addRoutes_eq_build] at hfound
  rcases match_visit _ hfound with ⟨r, hr, hhandler, hvisit⟩
  rcases numbered_call hr with ⟨call', hcall', hroute⟩
  rw [hhandler, hcall] at hcall'
  cases hcall'
  have hsegs : r.segs = segmentsOf call.2 := congrArg Route.segs hroute
  rw [hsegs] at hvisit
  rw [← split_rest hslash]
  -- `find_route` starts with an empty map
  have hempty : ∀ name, bound ∅ name = none := fun name => AList.lookup_empty name
  constructor
  · intro hown
    have hseen : ∀ name x, bound ∅ name = some x →
        x ∉ splitPathToSegments (path.substrFrom 1) := by
      intro name x hx
      rw [hempty] at hx
      cases hx
    rcases hvisit.keeps (splitPathToSegments_nodup _) hseen
      (fun _ hmem => absurd hmem List.not_mem_nil) hown.own with
      ⟨hnames, hdistinct, -, hstraight⟩
    exact ⟨hnames, hdistinct, hstraight⟩
  · intro hkeeps
    constructor
    · exact (hvisit.delivers hkeeps.own hkeeps.distinct
        (fun _ hmem => absurd hmem List.not_mem_nil) hkeeps.straight).1
    · intro name hmem
      by_contra hother
      rcases Option.isSome_iff_exists.1 (AList.lookup_isSome.2 hmem) with ⟨v, hv⟩
      -- a name outside the pattern is bound by no step of the walk
      rw [← hkeeps.own] at hother
      have hbefore := hvisit.binds hother hv
      rw [hempty] at hbefore
      cases hbefore

/-- The posts of a user: no fallback, and the first name is the pattern's own. -/
theorem own_params_iff_users :
    OwnParams (segmentsOf (lit "/users/:id/posts"))
      (splitPathToSegments (StringView.substrFrom ⟨0, lit "/users/7/posts"⟩ 1))
      ((∅ : Params).insert (lit "id") ⟨7, lit "7"⟩) := by
  have hsegs : segmentsOf (lit "/users/7/posts") = [lit "users", lit "7", lit "posts"] := by
    decide +kernel
  have hpattern : segmentsOf (lit "/users/:id/posts") = [lit "users", lit ":id", lit "posts"] := by
    decide +kernel
  have hsplit : splitPathToSegments (StringView.substrFrom ⟨0, lit "/users/7/posts"⟩ 1) =
      [⟨1, lit "users"⟩, ⟨7, lit "7"⟩, ⟨9, lit "posts"⟩] := by
    decide +kernel
  have hroutes : routesOf (numbered userCalls) =
      [⟨.get, [lit "users", lit "new"], 0⟩, ⟨.get, [lit "users", lit ":id"], 1⟩,
        ⟨.get, [lit "users", lit ":id", lit "posts"], 2⟩] := by
    decide +kernel
  have hfound : (RouterNode.addRoutes (numbered userCalls)).findRoute .get
      ⟨0, lit "/users/7/posts"⟩ ∅ = .found 2 ((∅ : Params).insert (lit "id") ⟨7, lit "7"⟩) := by
    unfold RouterNode.findRoute
    rw [if_pos (by decide), if_neg (by decide), hsplit, addRoutes_eq_build, hroutes]
    rfl
  apply (own_params_iff userCalls .get ⟨0, lit "/users/7/posts"⟩ (i := 2) rfl hfound).2
  dsimp only
  rw [hroutes, hsegs, hpattern]
  refine ⟨by decide +kernel, by decide +kernel, ?_⟩
  apply Straight.static (by decide +kernel)
  apply Straight.param (by decide +kernel) (by decide +kernel)
  exact Straight.rest (by decide +kernel)

/-- Two patterns with different names for one position. -/
def sharedCalls : List (HttpMethod × Bytes) :=
  [(.get, lit "/a/:x"), (.get, lit "/a/:y/b")]

/-- The second handler sees `x`, the name the first pattern gave. -/
theorem sharedName_lost :
    ∃ out, (RouterNode.addRoutes (numbered sharedCalls)).findRoute .get ⟨0, lit "/a/1/b"⟩ ∅ =
        .found 1 out ∧
      ¬ OwnParams (segmentsOf (lit "/a/:y/b"))
        (splitPathToSegments (StringView.substrFrom ⟨0, lit "/a/1/b"⟩ 1)) out := by
  have hsplit : splitPathToSegments (StringView.substrFrom ⟨0, lit "/a/1/b"⟩ 1) =
      [⟨1, lit "a"⟩, ⟨3, lit "1"⟩, ⟨5, lit "b"⟩] := by
    decide +kernel
  have hpattern : segmentsOf (lit "/a/:y/b") = [lit "a", lit ":y", lit "b"] := by
    decide +kernel
  have hroutes : routesOf (numbered sharedCalls) =
      [⟨.get, [lit "a", lit ":x"], 0⟩, ⟨.get, [lit "a", lit ":y", lit "b"], 1⟩] := by
    decide +kernel
  refine ⟨(∅ : Params).insert (lit "x") ⟨3, lit "1"⟩, ?_, ?_⟩
  · unfold RouterNode.findRoute
    rw [if_pos (by decide), if_neg (by decide), hsplit, addRoutes_eq_build, hroutes]
    rfl
  · intro hown
    have honly := hown.only (lit "x") ((AList.mem_insert _).2 (Or.inl rfl))
    rw [hpattern] at honly
    exact absurd honly (by decide +kernel)

end Oreshnek
