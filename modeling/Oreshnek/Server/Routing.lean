import Oreshnek.Server.Routes

/-!
# What `find_route` finds

The reference is a matcher over the registered patterns: same number of
segments, static segments equal, a parameter matches anything, and among the
matching patterns the first in the order that puts a static segment before a
parameter. `match_explained` compares the search over the tree with it. The
search may follow two kinds of walks: the greedy one, which enters a static child
wherever there is one, and the ones that fall back to a parameter next to a static
child and then skip a segment of the path. `findRoute_agrees_iff` says when that
does no harm.
-/

namespace Oreshnek

/-! ## The reference -/

/-- A pattern matches segment by segment. -/
def PatternMatches (pattern xs : List Bytes) : Prop :=
  List.Forall₂ (fun p x => isParam p = true ∨ p = x) pattern xs

/-- The first segment where the kinds differ is static on the left. -/
inductive StaticFirst : List Bytes → List Bytes → Prop where
  | here {s p : Bytes} {ps qs : List Bytes} (hs : isParam s = false) (hp : isParam p = true) :
      StaticFirst (s :: ps) (p :: qs)
  | there {s p : Bytes} {ps qs : List Bytes} (hkind : isParam s = isParam p)
      (h : StaticFirst ps qs) : StaticFirst (s :: ps) (p :: qs)

/-- The names a pattern gives to its parameters. -/
def paramNames (pattern : List Bytes) : List Bytes :=
  (pattern.filter fun p => isParam p).map List.tail

/-- Those names with the segments they stand for. -/
def bindings (pattern xs : List Bytes) : List (Bytes × Bytes) :=
  ((pattern.zip xs).filter fun b => isParam b.1).map fun b => (b.1.tail, b.2)

/-- Two patterns give no parameter position two names: up to where they part
they are spelled alike. -/
def namesAgree : List Bytes → List Bytes → Bool
  | s :: ps, t :: qs =>
      if isParam s && isParam t then s == t && namesAgree ps qs
      else if s == t then namesAgree ps qs
      else true
  | _, _ => true

section Routes

variable {H : Type}

def SameNames (rs : List (Route H)) : Prop :=
  ∀ r ∈ rs, ∀ r' ∈ rs, namesAgree r.segs r'.segs = true

def DistinctNames (rs : List (Route H)) : Prop :=
  ∀ r ∈ rs, (paramNames r.segs).Nodup

instance (rs : List (Route H)) : Decidable (SameNames rs) :=
  inferInstanceAs (Decidable (∀ r ∈ rs, ∀ r' ∈ rs, namesAgree r.segs r'.segs = true))

instance (rs : List (Route H)) : Decidable (DistinctNames rs) :=
  inferInstanceAs (Decidable (∀ r ∈ rs, (paramNames r.segs).Nodup))

/-- Some registered route matches. -/
def Matched (rs : List (Route H)) (method : HttpMethod) (xs : List Bytes) : Prop :=
  ∃ r ∈ rs, r.method = method ∧ PatternMatches r.segs xs

/-- The reference's choice: the matching pattern that is first in the order, and
the handler registered last for it. -/
structure Chosen (rs : List (Route H)) (method : HttpMethod) (xs pattern : List Bytes)
    (handler : H) : Prop where
  last : lastRegistered method pattern rs = some handler
  matching : PatternMatches pattern xs
  first : ∀ r ∈ rs, r.method = method → PatternMatches r.segs xs → ¬ StaticFirst r.segs pattern

/-- The router's answer is the reference's. -/
def Agrees (rs : List (Route H)) (method : HttpMethod) (xs : List Bytes) : MatchResult H → Prop
  | .found handler params => ∃ pattern, Chosen rs method xs pattern handler ∧
      ∀ name, (params.lookup name).map StringView.bytes = (bindings pattern xs).lookup name
  | .notFound params => ¬ Matched rs method xs ∧ params = ∅
  | .overrun => False

/-! ## The walks of the search -/

/-- The walk that takes the static child wherever there is one ends at a handler. -/
inductive Greedy (method : HttpMethod) : List (Route H) → List Bytes → Prop where
  | done {rs : List (Route H)} {r : Route H} (hr : r ∈ rs) (hmethod : r.method = method)
      (hsegs : r.segs = []) : Greedy method rs []
  | static {rs : List (Route H)} {x : Bytes} {xs : List Bytes} (hstatic : underStatic x rs ≠ [])
      (h : Greedy method (underStatic x rs) xs) : Greedy method rs (x :: xs)
  | param {rs : List (Route H)} {x : Bytes} {xs : List Bytes} (hstatic : underStatic x rs = [])
      (hparam : underParam rs ≠ []) (h : Greedy method (underParam rs) xs) :
      Greedy method rs (x :: xs)

/-- A walk ends at a handler, or behind the last segment, after a parameter
next to a static child has swallowed two segments of the path. -/
inductive Strays (method : HttpMethod) : List (Route H) → List Bytes → Prop where
  | static {rs : List (Route H)} {x : Bytes} {xs : List Bytes} (hstatic : underStatic x rs ≠ [])
      (h : Strays method (underStatic x rs) xs) : Strays method rs (x :: xs)
  | param {rs : List (Route H)} {x : Bytes} {xs : List Bytes} (hstatic : underStatic x rs = [])
      (hparam : underParam rs ≠ []) (h : Strays method (underParam rs) xs) :
      Strays method rs (x :: xs)
  | skip {rs : List (Route H)} {x y : Bytes} {xs : List Bytes} (hstatic : underStatic x rs ≠ [])
      (hparam : underParam rs ≠ []) (h : Greedy method (underParam rs) xs) :
      Strays method rs (x :: y :: xs)
  | skipOn {rs : List (Route H)} {x y : Bytes} {xs : List Bytes}
      (hstatic : underStatic x rs ≠ []) (hparam : underParam rs ≠ [])
      (h : Strays method (underParam rs) xs) : Strays method rs (x :: y :: xs)
  | overrun {rs : List (Route H)} {x : Bytes} (hstatic : underStatic x rs ≠ [])
      (hparam : underParam rs ≠ []) : Strays method rs [x]

/-- A pattern followed along a path, each parameter taking one segment or two. -/
inductive Trail : List Bytes → List Bytes → Prop where
  | done : Trail [] []
  | static {x : Bytes} {ps xs : List Bytes} (hx : isParam x = false) (h : Trail ps xs) :
      Trail (x :: ps) (x :: xs)
  | param {p x : Bytes} {ps xs : List Bytes} (hp : isParam p = true) (h : Trail ps xs) :
      Trail (p :: ps) (x :: xs)
  | skip {p x y : Bytes} {ps xs : List Bytes} (hp : isParam p = true) (h : Trail ps xs) :
      Trail (p :: ps) (x :: y :: xs)

/-- What an answer of the search says about the walks. -/
def Explained (rs : List (Route H)) (method : HttpMethod) (xs : List Bytes) :
    MatchResult H → Prop
  | .found handler _ =>
      ∃ r ∈ rs, r.method = method ∧ r.handler = handler ∧ Trail r.segs xs ∧
        (Greedy method rs xs ∨ Strays method rs xs ∧ r.segs.length < xs.length)
  | .notFound _ => ¬ Greedy method rs xs ∧ ¬ Strays method rs xs
  | .overrun => Strays method rs xs

/-- A pattern is not longer than the path it is followed along. -/
theorem Trail.length_le {pattern xs : List Bytes} (h : Trail pattern xs) :
    pattern.length ≤ xs.length := by
  induction h with
  | done => exact Nat.le_refl _
  | static _ _ ih => exact Nat.succ_le_succ ih
  | param _ _ ih => exact Nat.succ_le_succ ih
  | skip _ _ ih =>
      simp only [List.length_cons] at ih ⊢
      omega

/-- An all-static pattern is followed only along itself. -/
theorem Trail.static_eq {pattern xs : List Bytes} (h : Trail pattern xs)
    (hstatic : ∀ p ∈ pattern, isParam p = false) : pattern = xs := by
  induction h with
  | done => rfl
  | static _ _ ih =>
      rw [ih fun p hp => hstatic p (List.mem_cons_of_mem _ hp)]
  | param hp _ _ =>
      rw [hstatic _ List.mem_cons_self] at hp
      cases hp
  | skip hp _ _ =>
      rw [hstatic _ List.mem_cons_self] at hp
      cases hp

/-! ## One step of the search -/

/-- At the end of the path the handler of this node is found. -/
theorem match_done (method : HttpMethod) (rs : List (Route H)) (params : Params) :
    (build rs).matchRouteRecursive method [] params =
      match lastRegistered method [] rs with
      | some handler => .found handler params
      | none => .notFound params := by
  rewrite [RouterNode.matchRouteRecursive, build_handlers]
  cases lastRegistered method [] rs with
  | some handler => rfl
  | none => rfl

/-- The parameter attempt at a node, with the segments that are left for it. -/
def paramAttempt (method : HttpMethod) (rs : List (Route H)) (x : StringView)
    (xs : List StringView) (params : Params) : MatchResult H :=
  ((build (underParam rs)).matchRouteRecursive method xs
    (params.insert (build rs).paramName x)).unbind (build rs).paramName

/-- Without a static match the parameter is tried. -/
theorem match_param {method : HttpMethod} {rs : List (Route H)} {x : StringView}
    (hstatic : underStatic x.bytes rs = []) (xs : List StringView) (params : Params) :
    (build rs).matchRouteRecursive method (x :: xs) params =
      if underParam rs = [] then .notFound params
      else paramAttempt method rs x xs params := by
  rw [RouterNode.matchRouteRecursive, build_children, if_pos hstatic]
  dsimp only
  rw [build_paramChild]
  by_cases hparam : underParam rs = []
  · rw [if_pos hparam, if_pos hparam]
  · rw [if_neg hparam, if_neg hparam]
    rfl

/-- A static match is tried first; the parameter then goes one segment too far. -/
theorem match_static {method : HttpMethod} {rs : List (Route H)} {x : StringView}
    (hstatic : underStatic x.bytes rs ≠ []) (xs : List StringView) (params : Params) :
    (build rs).matchRouteRecursive method (x :: xs) params =
      ((build (underStatic x.bytes rs)).matchRouteRecursive method xs params).orElse
        fun params =>
          if underParam rs = [] then .notFound params
          else
            match xs with
            | _ :: ys => paramAttempt method rs x ys params
            | [] => .overrun := by
  rw [RouterNode.matchRouteRecursive, build_children, if_neg hstatic]
  dsimp only
  congr 1
  funext params
  rw [build_paramChild]
  by_cases hparam : underParam rs = []
  · rw [if_pos hparam, if_pos hparam]
  · rw [if_neg hparam, if_neg hparam]
    cases xs with
    | nil => rfl
    | cons y ys => rfl

/-- Induction over the search. Beside a static child the parameter is tried one segment
further on. -/
theorem search_induction {P : List (Route H) → List StringView → Prop}
    (done : ∀ rs, P rs [])
    (param : ∀ rs x xs, underStatic x.bytes rs = [] → P (underParam rs) xs → P rs (x :: xs))
    (static : ∀ rs x xs, underStatic x.bytes rs ≠ [] → P (underStatic x.bytes rs) xs →
      (∀ y ys, xs = y :: ys → P (underParam rs) ys) → P rs (x :: xs))
    (rs : List (Route H)) (xs : List StringView) : P rs xs := by
  induction hn : xs.length using Nat.strong_induction_on generalizing xs rs with
  | _ n ih =>
  cases xs with
  | nil => exact done rs
  | cons x xs =>
      have hlen : xs.length < n := by
        rw [← hn]
        exact Nat.lt_succ_self _
      by_cases hstatic : underStatic x.bytes rs = []
      · exact param rs x xs hstatic (ih _ hlen _ xs rfl)
      · refine static rs x xs hstatic (ih _ hlen _ xs rfl) ?_
        rintro y ys rfl
        exact ih _ (Nat.lt_of_succ_lt hlen) _ ys rfl

/-- A parameter attempt fails when the search behind it does. -/
theorem paramAttempt_notFound {method : HttpMethod} {rs : List (Route H)} {x : StringView}
    {xs : List StringView} {params left : Params}
    (h : paramAttempt method rs x xs params = .notFound left) :
    ∃ inner, (build (underParam rs)).matchRouteRecursive method xs
        (params.insert (build rs).paramName x) = .notFound inner ∧
      left = inner.erase (build rs).paramName := by
  unfold paramAttempt MatchResult.unbind at h
  rcases MatchResult.orElse_eq_notFound.1 h with ⟨inner, hrun, hleft⟩
  cases hleft
  exact ⟨inner, hrun, rfl⟩

/-! ## The search explained -/

/-- Taking a name away leaves the explanation. -/
theorem Explained.unbind {rs : List (Route H)} {method : HttpMethod} {xs : List Bytes}
    {name : Bytes} {result : MatchResult H} :
    Explained rs method xs (result.unbind name) ↔ Explained rs method xs result := by
  cases result with
  | found handler params => rfl
  | notFound params => rfl
  | overrun => rfl

/-- At the end of the path a handler is found where one is registered. -/
theorem greedy_nil {rs : List (Route H)} {method : HttpMethod} :
    Greedy method rs [] ↔ (lastRegistered method [] rs).isSome := by
  constructor
  · rintro (⟨hr, hmethod, hsegs⟩ | _ | _)
    have := lastRegistered_isSome hr hmethod
    rwa [hsegs] at this
  · intro h
    rcases Option.isSome_iff_exists.1 h with ⟨handler, hlast⟩
    rcases lastRegistered_mem hlast with ⟨r, hr, hmethod, hsegs, -⟩
    exact Greedy.done hr hmethod hsegs

theorem not_strays_nil {rs : List (Route H)} {method : HttpMethod} :
    ¬ Strays method rs [] := by
  intro h
  cases h

/-- Where a static child is entered, the walks are those behind it and those
that fall back to the parameter. -/
theorem greedy_static {rs : List (Route H)} {method : HttpMethod} {x : Bytes} {xs : List Bytes}
    (hstatic : underStatic x rs ≠ []) :
    Greedy method rs (x :: xs) ↔ Greedy method (underStatic x rs) xs := by
  constructor
  · intro h
    cases h with
    | static _ h => exact h
    | param hnil _ _ => exact absurd hnil hstatic
  · exact Greedy.static hstatic

/-- Below a static child the search strays by itself, or through the parameter one segment too
far on. -/
theorem strays_static {rs : List (Route H)} {method : HttpMethod} {x : Bytes} {xs : List Bytes}
    (hstatic : underStatic x rs ≠ []) :
    Strays method rs (x :: xs) ↔ Strays method (underStatic x rs) xs ∨
      underParam rs ≠ [] ∧
        (xs = [] ∨ ∃ y ys, xs = y :: ys ∧
          (Greedy method (underParam rs) ys ∨ Strays method (underParam rs) ys)) := by
  constructor
  · intro h
    cases h with
    | static _ h => exact Or.inl h
    | param hnil _ _ => exact absurd hnil hstatic
    | skip _ hparam h => exact Or.inr ⟨hparam, Or.inr ⟨_, _, rfl, Or.inl h⟩⟩
    | skipOn _ hparam h => exact Or.inr ⟨hparam, Or.inr ⟨_, _, rfl, Or.inr h⟩⟩
    | overrun _ hparam => exact Or.inr ⟨hparam, Or.inl rfl⟩
  · rintro (h | ⟨hparam, rfl | ⟨y, ys, rfl, h | h⟩⟩)
    · exact Strays.static hstatic h
    · exact Strays.overrun hstatic hparam
    · exact Strays.skip hstatic hparam h
    · exact Strays.skipOn hstatic hparam h

/-- Where there is none, they are those behind the parameter. -/
theorem greedy_param {rs : List (Route H)} {method : HttpMethod} {x : Bytes} {xs : List Bytes}
    (hstatic : underStatic x rs = []) :
    Greedy method rs (x :: xs) ↔ underParam rs ≠ [] ∧ Greedy method (underParam rs) xs := by
  constructor
  · intro h
    cases h with
    | static hne _ => exact absurd hstatic hne
    | param _ hparam h => exact ⟨hparam, h⟩
  · rintro ⟨hparam, h⟩
    exact Greedy.param hstatic hparam h

/-- Without a static match a search strays only under the parameter. -/
theorem strays_param {rs : List (Route H)} {method : HttpMethod} {x : Bytes} {xs : List Bytes}
    (hstatic : underStatic x rs = []) :
    Strays method rs (x :: xs) ↔ underParam rs ≠ [] ∧ Strays method (underParam rs) xs := by
  constructor
  · intro h
    cases h with
    | static hne _ => exact absurd hstatic hne
    | param _ hparam h => exact ⟨hparam, h⟩
    | skip hne _ _ => exact absurd hstatic hne
    | skipOn hne _ _ => exact absurd hstatic hne
    | overrun hne _ => exact absurd hstatic hne
  · rintro ⟨hparam, h⟩
    exact Strays.param hstatic hparam h

/-- An answer found behind a static child. -/
theorem Explained.static {rs : List (Route H)} {method : HttpMethod} {x : Bytes}
    {xs : List Bytes} {handler : H} {params : Params} (hstatic : underStatic x rs ≠ [])
    (h : Explained (underStatic x rs) method xs (.found handler params)) :
    Explained rs method (x :: xs) (.found handler params) := by
  rcases h with ⟨r, hr, hmethod, hhandler, htrail, hwalk⟩
  rcases mem_underStatic.1 hr with ⟨hx, hmem⟩
  refine ⟨_, hmem, hmethod, hhandler, Trail.static hx htrail, ?_⟩
  rw [greedy_static hstatic, strays_static hstatic]
  rcases hwalk with hgreedy | ⟨hstrays, hlt⟩
  · exact Or.inl hgreedy
  · exact Or.inr ⟨Or.inl hstrays, Nat.succ_lt_succ hlt⟩

/-- An answer found behind the parameter, no segment skipped. -/
theorem Explained.param {rs : List (Route H)} {method : HttpMethod} {x : Bytes}
    {xs : List Bytes} {handler : H} {params : Params} (hstatic : underStatic x rs = [])
    (h : Explained (underParam rs) method xs (.found handler params)) :
    Explained rs method (x :: xs) (.found handler params) := by
  rcases h with ⟨r, hr, hmethod, hhandler, htrail, hwalk⟩
  rcases mem_underParam.1 hr with ⟨p, hp, hmem⟩
  have hne : underParam rs ≠ [] := List.ne_nil_of_mem hr
  refine ⟨_, hmem, hmethod, hhandler, Trail.param hp htrail, ?_⟩
  rw [greedy_param hstatic, strays_param hstatic]
  rcases hwalk with hgreedy | ⟨hstrays, hlt⟩
  · exact Or.inl ⟨hne, hgreedy⟩
  · exact Or.inr ⟨⟨hne, hstrays⟩, Nat.succ_lt_succ hlt⟩

/-- An answer found behind the parameter with a segment skipped. -/
theorem Explained.skip {rs : List (Route H)} {method : HttpMethod} {x y : Bytes}
    {xs : List Bytes} {handler : H} {params : Params} (hstatic : underStatic x rs ≠ [])
    (h : Explained (underParam rs) method xs (.found handler params)) :
    Explained rs method (x :: y :: xs) (.found handler params) := by
  rcases h with ⟨r, hr, hmethod, hhandler, htrail, hwalk⟩
  rcases mem_underParam.1 hr with ⟨p, hp, hmem⟩
  have hne : underParam rs ≠ [] := List.ne_nil_of_mem hr
  refine ⟨_, hmem, hmethod, hhandler, Trail.skip hp htrail, Or.inr ⟨?_, ?_⟩⟩
  · rw [strays_static hstatic]
    refine Or.inr ⟨hne, Or.inr ⟨_, _, rfl, ?_⟩⟩
    rcases hwalk with hgreedy | ⟨hstrays, -⟩
    · exact Or.inl hgreedy
    · exact Or.inr hstrays
  · have hle := htrail.length_le
    simp only [List.length_cons]
    omega

/-- **The search explained.** Every answer comes from a walk of its kind. -/
theorem match_explained (method : HttpMethod) (xs : List StringView) (rs : List (Route H))
    (params : Params) :
    Explained rs method (xs.map StringView.bytes)
      ((build rs).matchRouteRecursive method xs params) := by
  induction rs, xs using search_induction generalizing params with
  | done rs =>
      rw [match_done]
      cases hlast : lastRegistered method [] rs with
      | some handler =>
          rcases lastRegistered_mem hlast with ⟨r, hr, hmethod, hsegs, hhandler⟩
          refine ⟨r, hr, hmethod, hhandler, ?_, Or.inl (Greedy.done hr hmethod hsegs)⟩
          rw [hsegs]
          exact Trail.done
      | none =>
          refine ⟨?_, not_strays_nil⟩
          rw [List.map_nil, greedy_nil, hlast]
          exact Bool.false_ne_true
  | param rs x xs hstatic ih =>
      rw [List.map_cons]
      -- no static child: the parameter takes this segment
      rw [match_param hstatic]
      by_cases hparam : underParam rs = []
      · rw [if_pos hparam]
        constructor
        · rw [greedy_param hstatic]
          exact fun h => h.1 hparam
        · rw [strays_param hstatic]
          exact fun h => h.1 hparam
      · rw [if_neg hparam]
        unfold paramAttempt
        rw [Explained.unbind]
        have hattempt := ih (params.insert (build rs).paramName x)
        revert hattempt
        cases (build (underParam rs)).matchRouteRecursive method xs
          (params.insert (build rs).paramName x) with
        | found handler params => exact Explained.param hstatic
        | notFound params =>
            rintro ⟨hgreedy, hstrays⟩
            constructor
            · rw [greedy_param hstatic]
              exact fun h => hgreedy h.2
            · rw [strays_param hstatic]
              exact fun h => hstrays h.2
        | overrun => exact Strays.param hstatic hparam
  | static rs x xs hstatic ih ihskip =>
      rw [List.map_cons]
      -- the static child first
      rw [match_static hstatic]
      have hfirst := ih params
      revert hfirst
      cases (build (underStatic x.bytes rs)).matchRouteRecursive method xs params with
      | found handler params => exact Explained.static hstatic
      | overrun => exact Strays.static hstatic
      | notFound params =>
          rintro ⟨hgreedy, hstrays⟩
          rw [MatchResult.orElse_notFound]
          have hnot : ¬ Greedy method rs (x.bytes :: xs.map StringView.bytes) := by
            rw [greedy_static hstatic]
            exact hgreedy
          by_cases hparam : underParam rs = []
          · rw [if_pos hparam]
            refine ⟨hnot, ?_⟩
            rw [strays_static hstatic]
            rintro (h | h)
            · exact hstrays h
            · exact h.1 hparam
          · rw [if_neg hparam]
            cases xs with
            | nil => exact Strays.overrun hstatic hparam
            | cons y ys =>
                dsimp only
                unfold paramAttempt
                rw [Explained.unbind]
                have hattempt := ihskip y ys rfl (params.insert (build rs).paramName x)
                revert hattempt
                cases (build (underParam rs)).matchRouteRecursive method ys
                  (params.insert (build rs).paramName x) with
                | found handler params => exact Explained.skip hstatic
                | overrun => exact Strays.skipOn hstatic hparam
                | notFound params =>
                    rintro ⟨hgreedy', hstrays'⟩
                    refine ⟨hnot, ?_⟩
                    rw [List.map_cons, strays_static hstatic]
                    rintro (h | ⟨-, h | ⟨z, zs, heq, h⟩⟩)
                    · exact hstrays h
                    · cases h
                    · cases heq
                      rcases h with h | h
                      · exact hgreedy' h
                      · exact hstrays' h

/-! ## Parameter names -/

theorem namesAgree_static {x : Bytes} (hx : isParam x = false) (ps qs : List Bytes) :
    namesAgree (x :: ps) (x :: qs) = namesAgree ps qs := by
  simp [namesAgree, hx]

theorem namesAgree_param {s t : Bytes} (hs : isParam s = true) (ht : isParam t = true)
    {ps qs : List Bytes} (h : namesAgree (s :: ps) (t :: qs) = true) :
    s = t ∧ namesAgree ps qs = true := by
  simpa [namesAgree, hs, ht] using h

/-- The routes under a segment have the same names. -/
theorem SameNames.static {rs : List (Route H)} (h : SameNames rs) (x : Bytes) :
    SameNames (underStatic x rs) := by
  intro r hr r' hr'
  rcases mem_underStatic.1 hr with ⟨hx, hmem⟩
  rcases mem_underStatic.1 hr' with ⟨-, hmem'⟩
  rw [← namesAgree_static hx]
  exact h _ hmem _ hmem'

theorem SameNames.param {rs : List (Route H)} (h : SameNames rs) : SameNames (underParam rs) := by
  intro r hr r' hr'
  rcases mem_underParam.1 hr with ⟨s, hs, hmem⟩
  rcases mem_underParam.1 hr' with ⟨t, ht, hmem'⟩
  exact (namesAgree_param hs ht (h _ hmem _ hmem')).2

/-- All parameters registered first under a node are spelled alike. -/
theorem SameNames.first {rs : List (Route H)} (h : SameNames rs) {r r' : Route H} (hr : r ∈ rs)
    (hr' : r' ∈ rs) {s t : Bytes} {ps qs : List Bytes} (hsegs : r.segs = s :: ps)
    (hsegs' : r'.segs = t :: qs) (hs : isParam s = true) (ht : isParam t = true) : s = t := by
  have hagree := h r hr r' hr'
  rw [hsegs, hsegs'] at hagree
  exact (namesAgree_param hs ht hagree).1

theorem paramNames_static {x : Bytes} (hx : isParam x = false) (pattern : List Bytes) :
    paramNames (x :: pattern) = paramNames pattern := by
  simp [paramNames, hx]

theorem paramNames_param {p : Bytes} (hp : isParam p = true) (pattern : List Bytes) :
    paramNames (p :: pattern) = p.tail :: paramNames pattern := by
  simp [paramNames, hp]

theorem DistinctNames.static {rs : List (Route H)} (h : DistinctNames rs) (x : Bytes) :
    DistinctNames (underStatic x rs) := by
  intro r hr
  rcases mem_underStatic.1 hr with ⟨hx, hmem⟩
  have := h _ hmem
  rwa [paramNames_static hx] at this

/-- The routes under a parameter have distinct names. -/
theorem DistinctNames.param {rs : List (Route H)} (h : DistinctNames rs) :
    DistinctNames (underParam rs) := by
  intro r hr
  rcases mem_underParam.1 hr with ⟨p, hp, hmem⟩
  have := h _ hmem
  rw [paramNames_param hp] at this
  exact (List.nodup_cons.1 this).2

/-- None of the names that are still to come is bound. -/
def FreshNames (rs : List (Route H)) (params : Params) : Prop :=
  ∀ r ∈ rs, ∀ name ∈ paramNames r.segs, name ∉ params

theorem FreshNames.static {rs : List (Route H)} {params : Params} (h : FreshNames rs params)
    (x : Bytes) : FreshNames (underStatic x rs) params := by
  intro r hr name hname
  rcases mem_underStatic.1 hr with ⟨hx, hmem⟩
  refine h _ hmem name ?_
  rwa [paramNames_static hx]

/-- The parameter of a node with at least one: its spelling, and the name the
node stores. -/
theorem exists_param {rs : List (Route H)} (hnames : SameNames rs) (hne : underParam rs ≠ []) :
    ∃ p, isParam p = true ∧ (build rs).paramName = p.tail ∧
      ∀ r ∈ rs, ∀ t rest, r.segs = t :: rest → isParam t = true → t = p := by
  rcases List.exists_mem_of_ne_nil _ hne with ⟨r₀, hr₀⟩
  rcases mem_underParam.1 hr₀ with ⟨p, hp, hmem⟩
  have hsame : ∀ r ∈ rs, ∀ t rest, r.segs = t :: rest → isParam t = true → t = p :=
    fun r hr t rest hsegs ht => hnames.first hr hmem hsegs rfl ht hp
  refine ⟨p, hp, build_paramName hne ?_, hsame⟩
  intro r hr t rest hsegs ht
  rw [hsame r hr t rest hsegs ht]

/-- Names stay fresh below a parameter. -/
theorem FreshNames.param {rs : List (Route H)} {params : Params} (h : FreshNames rs params)
    (hdistinct : DistinctNames rs) {p : Bytes} (hp : isParam p = true)
    (hsame : ∀ r ∈ rs, ∀ t rest, r.segs = t :: rest → isParam t = true → t = p)
    (x : StringView) : FreshNames (underParam rs) (params.insert p.tail x) := by
  intro r hr name hname
  rcases mem_underParam.1 hr with ⟨t, ht, hmem⟩
  obtain rfl := hsame _ hmem t _ rfl ht
  have hnodup := hdistinct _ hmem
  rw [paramNames_param ht] at hnodup
  rw [AList.mem_insert]
  rintro (rfl | hold)
  · exact (List.nodup_cons.1 hnodup).1 hname
  · refine h _ hmem name ?_ hold
    rw [paramNames_param ht]
    exact List.mem_cons_of_mem _ hname

theorem erase_insert {params : Params} {name : Bytes} (h : name ∉ params) (x : StringView) :
    (params.insert name x).erase name = params := by
  rw [AList.insert_of_notMem h]
  apply AList.ext
  exact List.kerase_cons_eq rfl

/-! ## Failed attempts leave no parameter behind -/

/-- A parameter attempt that fails has undone the bindings behind it, and then its own. -/
theorem paramAttempt_restores {method : HttpMethod} {rs : List (Route H)} {x : StringView}
    {ys : List StringView} {params left : Params} (hnames : SameNames rs)
    (hdistinct : DistinctNames rs) (hfresh : FreshNames rs params) (hne : underParam rs ≠ [])
    (hbehind : ∀ params left, FreshNames (underParam rs) params →
      (build (underParam rs)).matchRouteRecursive method ys params = .notFound left →
      left = params)
    (h : paramAttempt method rs x ys params = .notFound left) : left = params := by
  rcases exists_param hnames hne with ⟨p, hp, hname, hsame⟩
  rcases List.exists_mem_of_ne_nil _ hne with ⟨r, hr⟩
  have hold : p.tail ∉ params := by
    rcases mem_underParam.1 hr with ⟨t, ht, hmem⟩
    obtain rfl := hsame _ hmem t _ rfl ht
    refine hfresh _ hmem _ ?_
    rw [paramNames_param ht]
    exact List.mem_cons_self
  rcases paramAttempt_notFound h with ⟨inner, hrun, hleft⟩
  rw [hname] at hrun hleft
  have hinner := hbehind _ _ (hfresh.param hdistinct hp hsame x) hrun
  rw [hleft, hinner, erase_insert hold]

/-- Names that agree and do not repeat: a search that fails has undone every
binding. -/
theorem match_restores (method : HttpMethod) (xs : List StringView) (rs : List (Route H))
    (params : Params) (hnames : SameNames rs) (hdistinct : DistinctNames rs)
    (hfresh : FreshNames rs params) {left : Params}
    (h : (build rs).matchRouteRecursive method xs params = .notFound left) : left = params := by
  induction rs, xs using search_induction generalizing params left with
  | done rs =>
      rw [match_done] at h
      split at h
      · cases h
      · cases h
        rfl
  | param rs x xs hstatic ih =>
      rw [match_param hstatic] at h
      by_cases hparam : underParam rs = []
      · rw [if_pos hparam] at h
        cases h
        rfl
      · rw [if_neg hparam] at h
        refine paramAttempt_restores hnames hdistinct hfresh hparam ?_ h
        intro params left hfresh' hrun
        exact ih params hnames.param hdistinct.param hfresh' hrun
  | static rs x xs hstatic ih ihskip =>
      rw [match_static hstatic] at h
      rcases MatchResult.orElse_eq_notFound.1 h with ⟨inner, hrun, h⟩
      -- the search behind the static child has failed, and left the map as it was
      have hinner := ih params (hnames.static _) (hdistinct.static _) (hfresh.static _) hrun
      rw [hinner] at h
      by_cases hparam : underParam rs = []
      · rw [if_pos hparam] at h
        cases h
        rfl
      · rw [if_neg hparam] at h
        cases xs with
        | nil => cases h
        | cons y ys =>
            refine paramAttempt_restores hnames hdistinct hfresh hparam ?_ h
            intro params left hfresh' hrun
            exact ihskip y ys rfl params hnames.param hdistinct.param hfresh' hrun

/-! ## The greedy walk is the reference's choice -/

/-- Where a static segment fits, the choice is made below it. -/
theorem Chosen.static {rs : List (Route H)} {method : HttpMethod} {x : Bytes}
    {xs pattern : List Bytes} {handler : H} (hx : isParam x = false)
    (h : Chosen (underStatic x rs) method xs pattern handler) :
    Chosen rs method (x :: xs) (x :: pattern) handler := by
  constructor
  · rw [lastRegistered_static hx]
    exact h.last
  · exact List.Forall₂.cons (Or.inr rfl) h.matching
  · rintro ⟨m, segs, hand⟩ hr hmethod hmatch hfirst
    cases hmatch with
    | cons hhead htail =>
        cases hfirst with
        | here _ hp =>
            rw [hx] at hp
            cases hp
        | there hkind hrest =>
            rcases hhead with hp | rfl
            · rw [hkind, hx] at hp
              cases hp
            · exact h.first ⟨m, _, hand⟩ (mem_underStatic.2 ⟨hx, hr⟩) hmethod htail hrest

/-- Where no static segment fits, the choice is made below the parameter. -/
theorem Chosen.param {rs : List (Route H)} {method : HttpMethod} {p x : Bytes}
    {xs pattern : List Bytes} {handler : H} (hp : isParam p = true)
    (hsame : ∀ r ∈ rs, ∀ t rest, r.segs = t :: rest → isParam t = true → t = p)
    (hstatic : underStatic x rs = [])
    (h : Chosen (underParam rs) method xs pattern handler) :
    Chosen rs method (x :: xs) (p :: pattern) handler := by
  constructor
  · rw [lastRegistered_param hp method pattern hsame]
    exact h.last
  · exact List.Forall₂.cons (Or.inl hp) h.matching
  · rintro ⟨m, segs, hand⟩ hr hmethod hmatch hfirst
    cases hmatch with
    | @cons t _ rest _ hhead htail =>
        cases ht : isParam t with
        | true =>
            cases hfirst with
            | here hs _ =>
                rw [ht] at hs
                cases hs
            | there _ hrest =>
                exact h.first ⟨m, rest, hand⟩ (mem_underParam.2 ⟨t, ht, hr⟩) hmethod htail hrest
        | false =>
            -- a static segment that matches would be a static child
            rcases hhead with hpar | rfl
            · rw [ht] at hpar
              cases hpar
            · have hmem : (⟨m, rest, hand⟩ : Route H) ∈ underStatic t rs :=
                mem_underStatic.2 ⟨ht, hr⟩
              rw [hstatic] at hmem
              cases hmem

/-- The bindings of a walk that skips nothing. -/
def bindAll : List Bytes → List StringView → Params → Params
  | p :: pattern, x :: xs, params =>
      bindAll pattern xs (if isParam p then params.insert p.tail x else params)
  | _, _, params => params

/-- Where the greedy descent succeeds, the search finds the route that is to be chosen. -/
theorem match_greedy {method : HttpMethod} {rs : List (Route H)} (hnames : SameNames rs)
    {xs : List StringView} (h : Greedy method rs (xs.map StringView.bytes)) (params : Params) :
    ∃ pattern handler, Chosen rs method (xs.map StringView.bytes) pattern handler ∧
      (build rs).matchRouteRecursive method xs params =
        .found handler (bindAll pattern xs params) := by
  induction xs generalizing rs params with
  | nil =>
      rw [List.map_nil, greedy_nil] at h
      rcases Option.isSome_iff_exists.1 h with ⟨handler, hlast⟩
      refine ⟨[], handler, ⟨hlast, List.Forall₂.nil, ?_⟩, ?_⟩
      · intro r _ _ _ hfirst
        generalize r.segs = segs at hfirst
        cases hfirst
      · rw [match_done, hlast]
        rfl
  | cons x xs ih =>
      rw [List.map_cons] at h ⊢
      by_cases hstatic : underStatic x.bytes rs = []
      · rw [greedy_param hstatic] at h
        rcases h with ⟨hne, h⟩
        rcases exists_param hnames hne with ⟨p, hp, hname, hsame⟩
        rcases ih hnames.param h (params.insert p.tail x) with ⟨pattern, handler, hchosen, hrun⟩
        refine ⟨p :: pattern, handler, hchosen.param hp hsame hstatic, ?_⟩
        rw [match_param hstatic, if_neg hne]
        unfold paramAttempt
        rw [hname, hrun, bindAll, if_pos hp]
        rfl
      · rw [greedy_static hstatic] at h
        rcases List.exists_mem_of_ne_nil _ hstatic with ⟨r, hr⟩
        have hx := (mem_underStatic.1 hr).1
        rcases ih (hnames.static _) h params with ⟨pattern, handler, hchosen, hrun⟩
        refine ⟨x.bytes :: pattern, handler, hchosen.static hx, ?_⟩
        rw [match_static hstatic, hrun, MatchResult.orElse_found, bindAll, hx]
        rfl

/-- A name that is no parameter of the pattern is not bound. -/
theorem bindings_lookup_none {pattern xs : List Bytes} {name : Bytes}
    (h : name ∉ paramNames pattern) : (bindings pattern xs).lookup name = none := by
  rw [List.lookup_eq_none_iff]
  rintro ⟨k, v⟩ hmem
  unfold bindings at hmem
  rcases List.mem_map.1 hmem with ⟨⟨p, x⟩, hp, heq⟩
  rw [List.mem_filter] at hp
  cases heq
  rw [bne_iff_ne]
  rintro rfl
  exact h (List.mem_map.2 ⟨p, List.mem_filter.2 ⟨(List.of_mem_zip hp.1).1, hp.2⟩, rfl⟩)

/-- What is looked up among the bindings of a pattern whose names differ. -/
theorem bindAll_lookup {pattern : List Bytes} (hnodup : (paramNames pattern).Nodup)
    (xs : List StringView) (params : Params) (name : Bytes) :
    ((bindAll pattern xs params).lookup name).map StringView.bytes =
      ((bindings pattern (xs.map StringView.bytes)).lookup name).or
        ((params.lookup name).map StringView.bytes) := by
  induction pattern generalizing xs params with
  | nil => simp [bindAll, bindings]
  | cons p pattern ih =>
      cases xs with
      | nil => simp [bindAll, bindings]
      | cons x xs =>
          rw [bindAll]
          cases hp : isParam p with
          | false =>
              rw [paramNames_static hp] at hnodup
              have hstep : bindings (p :: pattern) (x.bytes :: xs.map StringView.bytes) =
                  bindings pattern (xs.map StringView.bytes) := by
                simp [bindings, hp]
              rw [List.map_cons, hstep]
              exact ih hnodup xs params
          | true =>
              rw [paramNames_param hp, List.nodup_cons] at hnodup
              have hstep : bindings (p :: pattern) (x.bytes :: xs.map StringView.bytes) =
                  (p.tail, x.bytes) :: bindings pattern (xs.map StringView.bytes) := by
                simp [bindings, hp]
              rw [List.map_cons, hstep, if_pos rfl, ih hnodup.2, List.lookup_cons]
              by_cases hname : name = p.tail
              · subst hname
                rw [bindings_lookup_none hnodup.1, AList.lookup_insert]
                simp
              · rw [AList.lookup_insert_ne hname, show (name == p.tail) = false by simpa using hname]

/-! ## Sequences of calls -/

/-- What a sequence of `add_route` calls registers: those it does not throw for. -/
def routesOf (calls : List (HttpMethod × Bytes × H)) : List (Route H) :=
  calls.filterMap fun call =>
    if call.2.1.head? = some 47 then some ⟨call.1, segmentsOf call.2.1, call.2.2⟩ else none

/-- Without its leading slash a path has the same segments. -/
theorem split_rest {path : StringView} (h : path.bytes.head? = some 47) :
    (splitPathToSegments (path.substrFrom 1)).map StringView.bytes = segmentsOf path.bytes := by
  rw [splitPathToSegments_bytes, StringView.substrFrom_bytes]
  cases hbytes : path.bytes with
  | nil =>
      rw [hbytes] at h
      cases h
  | cons c rest =>
      rw [hbytes] at h
      cases h
      exact (segmentsOf_cons rest).symm

/-- A path that starts with a slash is accepted. -/
theorem addRoute_ok {path : Bytes} (h : path.head? = some 47) (root : RouterNode H)
    (method : HttpMethod) (handler : H) :
    root.addRoute method path handler =
      .ok (root.addRouteRecursive method (segmentsOf path) handler) := by
  unfold RouterNode.addRoute
  rw [if_pos h]
  by_cases hroot : path = lit "/"
  · rw [if_pos hroot, hroot]
    rfl
  · rw [if_neg hroot]
    dsimp only
    rw [@split_rest ⟨0, path⟩ h]

/-- The tree of a sequence of calls is the tree of what they register. -/
theorem addRoutes_eq_build (calls : List (HttpMethod × Bytes × H)) :
    RouterNode.addRoutes calls = build (routesOf calls) := by
  unfold RouterNode.addRoutes build routesOf
  generalize RouterNode.empty = root
  induction calls generalizing root with
  | nil => rfl
  | cons call calls ih =>
      rw [List.foldl_cons, ih]
      by_cases hslash : call.2.1.head? = some 47
      · rw [addRoute_ok hslash]
        simp [hslash]
      · simp [RouterNode.addRoute, hslash]

/-- A path with a leading slash is searched by its segments, the root as well. -/
theorem findRoute_split {path : StringView} (h : path.bytes.head? = some 47)
    (root : RouterNode H) (method : HttpMethod) (params : Params) :
    root.findRoute method path params =
      root.matchRouteRecursive method (splitPathToSegments (path.substrFrom 1)) params := by
  unfold RouterNode.findRoute
  rw [if_pos h]
  by_cases hroot : path.bytes = lit "/"
  · have hnil : splitPathToSegments (path.substrFrom 1) = [] := by
      rw [← List.map_eq_nil_iff, split_rest h, hroot]
      rfl
    rw [if_pos hroot, hnil, RouterNode.matchRouteRecursive]
  · rw [if_neg hroot]

theorem findRoute_slash {path : StringView} (h : path.bytes.head? = some 47)
    (root : RouterNode H) (method : HttpMethod) (params : Params) :
    ∃ xs, xs.map StringView.bytes = segmentsOf path.bytes ∧
      root.findRoute method path params = root.matchRouteRecursive method xs params :=
  ⟨_, split_rest h, findRoute_split h root method params⟩

theorem findRoute_other {path : StringView} (h : path.bytes.head? ≠ some 47)
    (root : RouterNode H) (method : HttpMethod) (params : Params) :
    root.findRoute method path params = .notFound params := by
  unfold RouterNode.findRoute
  rw [if_neg h]

/-- A handler that `find_route` returns was registered, for a pattern that the
path follows. -/
theorem findRoute_found {calls : List (HttpMethod × Bytes × H)} {method : HttpMethod}
    {path : StringView} {params out : Params} {handler : H}
    (h : (RouterNode.addRoutes calls).findRoute method path params = .found handler out) :
    path.bytes.head? = some 47 ∧
      ∃ r ∈ routesOf calls, r.method = method ∧ r.handler = handler ∧
        Trail r.segs (segmentsOf path.bytes) := by
  by_cases hslash : path.bytes.head? = some 47
  · rcases findRoute_slash hslash (RouterNode.addRoutes calls) method params with ⟨xs, hxs, hrun⟩
    rw [hrun, addRoutes_eq_build] at h
    have hwalk := match_explained method xs (routesOf calls) params
    rw [h, hxs] at hwalk
    rcases hwalk with ⟨r, hr, hmethod, hhandler, htrail, -⟩
    exact ⟨hslash, r, hr, hmethod, hhandler, htrail⟩
  · rw [findRoute_other hslash] at h
    cases h

end Routes

/-! ## When the router agrees with the reference -/

/-- Calls told apart by their number, which stands for the handler. -/
def numbered (calls : List (HttpMethod × Bytes)) : List (HttpMethod × Bytes × Nat) :=
  calls.zipIdx.map fun call => (call.1.1, call.1.2, call.2)

/-- What the call with this number has registered. -/
theorem numbered_call {calls : List (HttpMethod × Bytes)} {r : Route Nat}
    (hr : r ∈ routesOf (numbered calls)) :
    ∃ call, calls[r.handler]? = some call ∧ r = ⟨call.1, segmentsOf call.2, r.handler⟩ := by
  rcases List.mem_filterMap.1 hr with ⟨call, hmem, heq⟩
  rcases List.mem_map.1 hmem with ⟨⟨c, i⟩, hi, rfl⟩
  split at heq
  · cases heq
    exact ⟨c, List.mem_zipIdx_iff_getElem?.1 hi, rfl⟩
  · cases heq

/-- A handler number stands for one route. -/
theorem numbered_unique {calls : List (HttpMethod × Bytes)} {r r' : Route Nat}
    (hr : r ∈ routesOf (numbered calls)) (hr' : r' ∈ routesOf (numbered calls))
    (h : r.handler = r'.handler) : r = r' := by
  rcases numbered_call hr with ⟨call, hget, heq⟩
  rcases numbered_call hr' with ⟨call', hget', heq'⟩
  rw [h, hget'] at hget
  cases hget
  rw [heq, heq', h]

/-- No fallback from a static child to the parameter next to it plays a part:
the greedy walk arrives, or nothing matches and no walk strays either. A path
without a leading slash is refused, which is right when nothing matches it. -/
def Unswerving {H : Type} (rs : List (Route H)) (method : HttpMethod) (path : Bytes) : Prop :=
  if path.head? = some 47 then
    Greedy method rs (segmentsOf path) ∨
      ¬ Strays method rs (segmentsOf path) ∧ ¬ Matched rs method (segmentsOf path)
  else ¬ Matched rs method (segmentsOf path)

/-- **The router and the reference.** They agree on a path exactly when the
search does not fall back from a static child, or falls back in vain where
nothing matches. -/
theorem findRoute_agrees_iff (calls : List (HttpMethod × Bytes))
    (hnames : SameNames (routesOf (numbered calls)))
    (hdistinct : DistinctNames (routesOf (numbered calls)))
    (method : HttpMethod) (path : StringView) :
    Agrees (routesOf (numbered calls)) method (segmentsOf path.bytes)
        ((RouterNode.addRoutes (numbered calls)).findRoute method path ∅) ↔
      Unswerving (routesOf (numbered calls)) method path.bytes := by
  unfold Unswerving
  by_cases hslash : path.bytes.head? = some 47
  swap
  · -- without a slash no route is looked for
    rw [if_neg hslash, findRoute_other hslash]
    exact and_iff_left rfl
  rw [if_pos hslash, addRoutes_eq_build]
  generalize hrs : routesOf (numbered calls) = rs at hnames hdistinct ⊢
  rcases findRoute_slash hslash (build rs) method ∅ with ⟨xs, hxs, hrun⟩
  rw [hrun, ← hxs]
  have hwalk := match_explained method xs rs ∅
  have hfresh : FreshNames rs ∅ := fun _ _ _ _ => AList.notMem_empty _
  constructor
  · intro hagrees
    cases hresult : (build rs).matchRouteRecursive method xs ∅ with
    | overrun =>
        rw [hresult] at hagrees
        exact hagrees.elim
    | notFound left =>
        rw [hresult] at hagrees hwalk
        exact Or.inr ⟨hwalk.2, hagrees.1⟩
    | found handler params =>
        rw [hresult] at hagrees hwalk
        rcases hwalk with ⟨r, hr, -, hhandler, -, hgreedy | ⟨-, hlt⟩⟩
        · exact Or.inl hgreedy
        · -- the route that was found is too short to be the reference's
          rcases hagrees with ⟨pattern, hchosen, -⟩
          rcases lastRegistered_mem hchosen.last with ⟨r', hr', -, hsegs, hhandler'⟩
          rw [← hrs] at hr hr'
          have hsame := numbered_unique hr hr' (hhandler.trans hhandler'.symm)
          have hlen := hchosen.matching.length_eq
          rw [hsame, hsegs, hlen] at hlt
          exact absurd hlt (Nat.lt_irrefl _)
  · rintro (hgreedy | ⟨hstrays, hmatched⟩)
    · -- the greedy search finds the route of the reference
      rcases match_greedy hnames hgreedy ∅ with ⟨pattern, handler, hchosen, hfound⟩
      rw [hfound]
      refine ⟨pattern, hchosen, ?_⟩
      intro name
      rcases lastRegistered_mem hchosen.last with ⟨r, hr, -, rfl, -⟩
      rw [bindAll_lookup (hdistinct r hr)]
      simp
    · cases hresult : (build rs).matchRouteRecursive method xs ∅ with
      | overrun =>
          rw [hresult] at hwalk
          exact absurd hwalk hstrays
      | notFound left =>
          exact ⟨hmatched, match_restores method xs rs ∅ hnames hdistinct hfresh hresult⟩
      | found handler params =>
          rw [hresult] at hwalk
          rcases hwalk with ⟨-, -, -, -, -, hgreedy | ⟨h, -⟩⟩
          · rcases match_greedy hnames hgreedy ∅ with ⟨pattern, handler, hchosen, -⟩
            rcases lastRegistered_mem hchosen.last with ⟨r, hr, hmethod, rfl, -⟩
            exact absurd ⟨r, hr, hmethod, hchosen.matching⟩ hmatched
          · exact absurd h hstrays

/-- A user page, the page that creates one, and the posts of a user. -/
def userCalls : List (HttpMethod × Bytes) :=
  [(.get, lit "/users/new"), (.get, lit "/users/:id"), (.get, lit "/users/:id/posts")]

/-- Doubled slashes, and a parameter in the middle. -/
theorem findRoute_agrees_iff_users :
    Agrees (routesOf (numbered userCalls)) .get (segmentsOf (lit "/users//7/posts"))
      ((RouterNode.addRoutes (numbered userCalls)).findRoute .get ⟨0, lit "/users//7/posts"⟩ ∅) := by
  have hsegs : segmentsOf (lit "/users//7/posts") = [lit "users", lit "7", lit "posts"] := by
    decide +kernel
  apply (findRoute_agrees_iff userCalls (by decide +kernel) (by decide +kernel) .get
    ⟨0, lit "/users//7/posts"⟩).2
  unfold Unswerving
  rw [if_pos (by decide)]
  apply Or.inl
  dsimp only
  rw [hsegs]
  apply Greedy.static (by decide +kernel)
  apply Greedy.param (by decide +kernel) (by decide +kernel)
  apply Greedy.static (by decide +kernel)
  exact Greedy.done (r := ⟨.get, [], 2⟩) (by decide +kernel) rfl rfl

/-- The posts of the user called `new`: behind the static child the parameter
is tried with `posts` skipped, and the user page answers. -/
theorem newPosts_disagree :
    SameNames (routesOf (numbered userCalls)) ∧ DistinctNames (routesOf (numbered userCalls)) ∧
      ¬ Agrees (routesOf (numbered userCalls)) .get (segmentsOf (lit "/users/new/posts"))
        ((RouterNode.addRoutes (numbered userCalls)).findRoute .get
          ⟨0, lit "/users/new/posts"⟩ ∅) := by
  refine ⟨by decide +kernel, by decide +kernel, ?_⟩
  have hsplit : splitPathToSegments (StringView.substrFrom ⟨0, lit "/users/new/posts"⟩ 1) =
      [⟨1, lit "users"⟩, ⟨7, lit "new"⟩, ⟨11, lit "posts"⟩] := by
    decide +kernel
  have hroutes : routesOf (numbered userCalls) =
      [⟨.get, [lit "users", lit "new"], 0⟩, ⟨.get, [lit "users", lit ":id"], 1⟩,
        ⟨.get, [lit "users", lit ":id", lit "posts"], 2⟩] := by
    decide +kernel
  have hresult : ∃ out, (RouterNode.addRoutes (numbered userCalls)).findRoute .get
      ⟨0, lit "/users/new/posts"⟩ ∅ = .found 1 out := by
    unfold RouterNode.findRoute
    rw [if_pos (by decide), if_neg (by decide), hsplit, addRoutes_eq_build, hroutes]
    exact ⟨(∅ : Params).insert (lit "id") ⟨7, lit "new"⟩, rfl⟩
  have hshort : ∀ r ∈ routesOf (numbered userCalls), r.handler = 1 → r.segs.length = 2 := by
    decide +kernel
  have hsegs : (segmentsOf (lit "/users/new/posts")).length = 3 := by
    decide +kernel
  rcases hresult with ⟨out, hresult⟩
  rw [hresult]
  rintro ⟨pattern, hchosen, -⟩
  rcases lastRegistered_mem hchosen.last with ⟨r, hr, -, rfl, hhandler⟩
  have hlen := hchosen.matching.length_eq
  rw [hshort r hr hhandler, hsegs] at hlen
  cases hlen

end Oreshnek
