import Oreshnek.Server.ParamNames

/-!
# The order of registrations

Routes that do not clash can be registered in any order: when no route is registered twice
and no parameter position has two names, the tree of the router is the same
(`registration_order`). A route registered twice goes to its last handler, and a second name
for a parameter is ignored, so that both conditions are needed.
-/

namespace Oreshnek

section Routes

variable {H : Type}

/-- No method is registered twice for a pattern. -/
def RegisteredOnce (rs : List (Route H)) : Prop :=
  rs.Pairwise fun r r' => ¬ (r.method = r'.method ∧ r.segs = r'.segs)

/-- So they are below a static node. -/
theorem RegisteredOnce.static {rs : List (Route H)} (h : RegisteredOnce rs) (x : Bytes) :
    RegisteredOnce (underStatic x rs) := by
  apply List.Pairwise.filterMap _ _ h
  rintro ⟨method, segs, handler⟩ ⟨method', segs', handler'⟩ hne r hr r' hr' ⟨hmethod, hsegs⟩
  -- both begin with the same segment
  cases segs with
  | nil => cases hr
  | cons s rest =>
      cases segs' with
      | nil => cases hr'
      | cons t rest' =>
          dsimp only at hr hr' hne
          split at hr
          next hs =>
            split at hr'
            next ht =>
              cases hr
              cases hr'
              dsimp only at hmethod hsegs
              exact hne ⟨hmethod, by rw [hs.1, ht.1, hsegs]⟩
            · cases hr'
          · cases hr

/-- Below a parameter node the routes are still registered once. -/
theorem RegisteredOnce.param {rs : List (Route H)} (h : RegisteredOnce rs)
    (hnames : SameNames rs) : RegisteredOnce (underParam rs) := by
  apply List.Pairwise.filterMap _ _ (List.Pairwise.and_mem.1 h)
  rintro ⟨method, segs, handler⟩ ⟨method', segs', handler'⟩ ⟨hmem, hmem', hne⟩ r hr r' hr'
    ⟨hmethod, hsegs⟩
  cases segs with
  | nil => cases hr
  | cons s rest =>
      cases segs' with
      | nil => cases hr'
      | cons t rest' =>
          dsimp only at hr hr' hne
          split at hr
          next hs =>
            split at hr'
            next ht =>
              cases hr
              cases hr'
              dsimp only at hmethod hsegs
              have hst : s = t := hnames.first hmem hmem' rfl rfl hs ht
              exact hne ⟨hmethod, by rw [hst, hsegs]⟩
            · cases hr'
          · cases hr

/-- The handler of a pattern does not depend on the order. -/
theorem lastRegistered_perm {rs rs' : List (Route H)} (hperm : rs.Perm rs')
    (hunique : RegisteredOnce rs) (method : HttpMethod) (pattern : List Bytes) :
    lastRegistered method pattern rs' = lastRegistered method pattern rs := by
  unfold lastRegistered
  have hsame := hperm.filter fun r => decide (r.method = method ∧ r.segs = pattern)
  have hone := hunique.filter fun r => decide (r.method = method ∧ r.segs = pattern)
  have hall : ∀ r ∈ rs.filter fun r => decide (r.method = method ∧ r.segs = pattern),
      r.method = method ∧ r.segs = pattern :=
    fun r hr => of_decide_eq_true (List.mem_filter.1 hr).2
  generalize rs.filter (fun r => decide (r.method = method ∧ r.segs = pattern)) = found
    at hsame hone hall
  cases found with
  | nil => rw [hsame.nil_eq]
  | cons r found =>
      cases found with
      | nil => rw [List.perm_singleton.1 hsame.symm]
      | cons r' found =>
          -- two of them would be one route registered twice
          have hr := hall r List.mem_cons_self
          have hr' := hall r' (List.mem_cons_of_mem _ List.mem_cons_self)
          have hne := (List.pairwise_cons.1 hone).1 r' List.mem_cons_self
          exact absurd ⟨hr.1.trans hr'.1.symm, hr.2.trans hr'.2.symm⟩ hne

/-- With consistent names the order of the routes does not matter for them. -/
theorem paramName_perm {rs rs' : List (Route H)} (hperm : rs.Perm rs') (hnames : SameNames rs) :
    (build rs').paramName = (build rs).paramName := by
  have hparam : (underParam rs).Perm (underParam rs') := hperm.filterMap _
  by_cases hne : underParam rs = []
  · have hnone : ∀ ts : List (Route H), underParam ts = [] → (build ts).paramName = [] := by
      intro ts hts
      rw [build_firstName]
      unfold firstName
      rw [List.find?_eq_none.2]
      · rfl
      · intro t ht hp
        rcases List.mem_filterMap.1 ht with ⟨r, hr, hhead⟩
        rcases List.head?_eq_some_iff.1 hhead with ⟨rest, hsegs⟩
        have hin : ({ r with segs := rest } : Route H) ∈ underParam ts := by
          refine mem_underParam.2 ⟨t, hp, ?_⟩
          rw [← hsegs]
          exact hr
        rw [hts] at hin
        cases hin
    rw [hnone rs hne, hnone rs' (List.nil_perm.1 (hne ▸ hparam))]
  · rcases exists_param hnames hne with ⟨p, -, hname, hsame⟩
    have hne' : underParam rs' ≠ [] := fun hnil => hne (List.perm_nil.1 (hnil ▸ hparam))
    rw [hname]
    apply build_paramName hne'
    intro r hr t rest hsegs ht
    rw [hsame r (hperm.mem_iff.2 hr) t rest hsegs ht]

theorem RouterNode.eq_of_parts {node node' : RouterNode H}
    (hchildren : node.children = node'.children)
    (hparam : node.paramChild = node'.paramChild) (hname : node.paramName = node'.paramName)
    (hhandlers : node.handlers = node'.handlers) : node = node' := by
  cases node
  cases node'
  dsimp only at hchildren hparam hname hhandlers
  rw [hchildren, hparam, hname, hhandlers]

/-- The tree of routes that do not clash does not depend on their order. -/
theorem build_perm {rs rs' : List (Route H)} (hperm : rs.Perm rs') (hnames : SameNames rs)
    (hunique : RegisteredOnce rs) : build rs' = build rs := by
  have hsize : ∀ r ∈ rs, r.segs.length < (rs.map fun r => r.segs.length).sum + 1 :=
    fun r hr => Nat.lt_succ_of_le (List.le_sum_of_mem (List.mem_map_of_mem hr))
  -- the children are trees of shorter patterns
  generalize (rs.map fun r => r.segs.length).sum + 1 = n at hsize
  induction n generalizing rs rs' with
  | zero =>
      have hnil : rs = [] :=
        List.eq_nil_iff_forall_not_mem.2 fun r hr => Nat.not_lt_zero _ (hsize r hr)
      rw [hnil] at hperm ⊢
      rw [List.nil_perm.1 hperm]
  | succ n ih =>
      have hstatic : ∀ x, (underStatic x rs).Perm (underStatic x rs') := fun x => hperm.filterMap _
      have hparam : (underParam rs).Perm (underParam rs') := hperm.filterMap _
      apply RouterNode.eq_of_parts
      · funext x
        rw [build_children, build_children]
        by_cases hnil : underStatic x rs = []
        · rw [if_pos hnil, if_pos (List.nil_perm.1 (hnil ▸ hstatic x))]
        · have hnil' : underStatic x rs' ≠ [] := fun h =>
            hnil (List.perm_nil.1 (h ▸ hstatic x))
          rw [if_neg hnil, if_neg hnil']
          apply congrArg some
          apply ih (hstatic x) (hnames.static x) (hunique.static x)
          intro r hr
          have hlong := hsize _ (mem_underStatic.1 hr).2
          exact Nat.lt_of_succ_lt_succ hlong
      · rw [build_paramChild, build_paramChild]
        by_cases hnil : underParam rs = []
        · rw [if_pos hnil, if_pos (List.nil_perm.1 (hnil ▸ hparam))]
        · have hnil' : underParam rs' ≠ [] := fun h => hnil (List.perm_nil.1 (h ▸ hparam))
          rw [if_neg hnil, if_neg hnil']
          apply congrArg some
          apply ih hparam hnames.param (hunique.param hnames)
          intro r hr
          rcases mem_underParam.1 hr with ⟨t, -, hmem⟩
          exact Nat.lt_of_succ_lt_succ (hsize _ hmem)
      · exact paramName_perm hperm hnames
      · funext method
        rw [build_handlers, build_handlers]
        exact lastRegistered_perm hperm hunique method []

/-- **The order of registrations does not matter.** Routes of which none is registered twice
and none gives a second name to a parameter are found the same way in whatever order they are
registered; calls that throw can stand anywhere between them. -/
theorem registration_order {calls calls' : List (HttpMethod × Bytes × H)}
    (hperm : (routesOf calls).Perm (routesOf calls')) (hnames : SameNames (routesOf calls))
    (hunique : RegisteredOnce (routesOf calls)) (method : HttpMethod) (path : StringView)
    (params : Params) :
    (RouterNode.addRoutes calls').findRoute method path params =
      (RouterNode.addRoutes calls).findRoute method path params := by
  rw [addRoutes_eq_build, addRoutes_eq_build, build_perm hperm hnames hunique]

end Routes

/-- The calls of an application, and the same ones the other way round with one that throws. -/
def usersFirst : List (HttpMethod × Bytes × ℕ) :=
  [(.get, lit "/users/new", 0), (.get, lit "/users/:id", 1), (.post, lit "/users/:id", 2)]

def usersLast : List (HttpMethod × Bytes × ℕ) :=
  [(.post, lit "/users/:id", 2), (.get, lit "users", 3), (.get, lit "/users/:id", 1),
    (.get, lit "/users/new", 0)]

/-- The same routes, registered in another order. -/
theorem registration_order_users :
    (RouterNode.addRoutes usersLast).findRoute .get ⟨0, lit "/users/new"⟩ ∅ =
      (RouterNode.addRoutes usersFirst).findRoute .get ⟨0, lit "/users/new"⟩ ∅ := by
  have hfirst : routesOf usersFirst =
      [⟨.get, [lit "users", lit "new"], 0⟩, ⟨.get, [lit "users", lit ":id"], 1⟩,
        ⟨.post, [lit "users", lit ":id"], 2⟩] := by
    decide +kernel
  have hlast : routesOf usersLast = (routesOf usersFirst).reverse := by
    decide +kernel
  apply registration_order
  · rw [hlast]
    exact (List.reverse_perm _).symm
  · decide +kernel
  · rw [hfirst]
    unfold RegisteredOnce
    decide +kernel

end Oreshnek
