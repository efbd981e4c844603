import Oreshnek.Server.Router

/-!
# Registered routes

What the routing tree stands for: a list of registrations, each a method, a list
of pattern segments and a handler, in the order of the `add_route` calls. A step
along an edge of the tree is a derivative of that list (`underStatic`,
`underParam`): the registrations that go on there, without their first segment.
`build_children` and its companions say that the tree built from a list is made
of the trees of its derivatives.
-/

namespace Oreshnek

/-! ## Segments of a path -/

/-- The non-empty segments of a path. -/
def segmentsOf (path : Bytes) : List Bytes := (path.splitOn 47).filter (· ≠ [])

theorem segmentsOf_free {part : Bytes} (h : 47 ∉ part) :
    segmentsOf part = if part = [] then [] else [part] := by
  unfold segmentsOf
  rw [List.splitOn_eq_singleton h]
  by_cases hnil : part = []
  · simp [hnil]
  · simp [hnil]

/-- A part in front of a slash, and the segments behind it. -/
theorem segmentsOf_slash {part : Bytes} (h : 47 ∉ part) (rest : Bytes) :
    segmentsOf (part ++ 47 :: rest) =
      (if part = [] then [] else [part]) ++ segmentsOf rest := by
  unfold segmentsOf
  rw [List.splitOn_append_cons_self_of_not_mem h]
  by_cases hnil : part = []
  · simp [hnil]
  · simp [hnil]

/-- A slash in front adds no segment. -/
theorem segmentsOf_cons (rest : Bytes) : segmentsOf (47 :: rest) = segmentsOf rest := by
  have h := segmentsOf_slash (show (47 : UInt8) ∉ ([] : Bytes) from List.not_mem_nil) rest
  simpa using h

/-- The loop of `split_path_to_segments` finds exactly the segments behind
`start`. -/
theorem splitLoop_bytes (path : StringView) (start : Nat) (segments : List StringView) :
    (splitLoop path start segments).map StringView.bytes =
      segments.map StringView.bytes ++ segmentsOf (path.bytes.drop start) := by
  induction start, segments using splitLoop.induct path with
  | case1 start segments stop hfind ih =>
      simp only [dite_eq_ite] at ih
      rw [splitLoop, hfind]
      dsimp only
      rw [ih]
      -- the part before the slash, and what follows it
      rcases Option.map_eq_some_iff.1 hfind with ⟨n, hn, rfl⟩
      have hsplit := Search.find_split hn
      have hfree : (47 : UInt8) ∉ (path.bytes.drop start).take n := by
        intro hmem
        have hin := Search.not_infix_of_find_take hn (by decide)
        exact hin (Search.singleton_infix_iff.2 hmem)
      have hrest : ((path.bytes.drop start).drop (n + (lit "/").length)) =
          path.bytes.drop (n + start + 1) := by
        rw [List.drop_drop]
        congr 1
        show start + (n + 1) = n + start + 1
        omega
      rw [hrest] at hsplit
      have hsegs : segmentsOf (path.bytes.drop start) =
          (if (path.bytes.drop start).take n = [] then [] else [(path.bytes.drop start).take n]) ++
            segmentsOf (path.bytes.drop (n + start + 1)) := by
        conv_lhs => rw [hsplit]
        rw [show lit "/" = [47] from rfl, List.append_assoc, List.singleton_append]
        exact segmentsOf_slash hfree _
      rw [hsegs, ← List.append_assoc]
      congr 1
      have hlen := Search.find_add_length_le hn
      by_cases hpos : 0 < n
      · have hne : (path.bytes.drop start).take n ≠ [] := by
          intro hnil
          have := congrArg List.length hnil
          rw [List.length_take] at this
          simp only [List.length_nil] at this
          have hone : (lit "/").length = 1 := rfl
          omega
        rw [if_pos (show start < n + start by omega), if_neg hne, List.map_append]
        simp [show n + start - start = n by omega]
      · obtain rfl : n = 0 := by omega
        simp
  | case2 start segments hfind hlt =>
      rw [splitLoop, hfind]
      dsimp only
      rw [if_pos hlt]
      have hfree : (47 : UInt8) ∉ path.bytes.drop start := by
        intro hmem
        rw [StringView.findFrom, Option.map_eq_none_iff, show lit "/" = [47] from rfl,
          Search.find_singleton_eq_none] at hfind
        exact hfind hmem
      have hne : path.bytes.drop start ≠ [] := by
        intro hnil
        rw [List.drop_eq_nil_iff] at hnil
        exact absurd hlt (Nat.not_lt.2 hnil)
      rw [segmentsOf_free hfree, if_neg hne, List.map_append]
      rfl
  | case3 start segments hfind hge =>
      rw [splitLoop, hfind]
      dsimp only
      rw [if_neg hge]
      have hnil : path.bytes.drop start = [] := List.drop_eq_nil_of_le (Nat.not_lt.1 hge)
      rw [hnil]
      simp [segmentsOf]

theorem splitPathToSegments_bytes (path : StringView) :
    (splitPathToSegments path).map StringView.bytes = segmentsOf path.bytes := by
  have h := splitLoop_bytes path 0 []
  simpa [splitPathToSegments] using h

/-- Each segment starts behind the ones before it. -/
theorem splitLoop_sorted (path : StringView) (start : Nat) (segments : List StringView)
    (hsorted : segments.Pairwise fun u v => u.pos < v.pos)
    (hbehind : ∀ u ∈ segments, u.pos < path.pos + start) :
    (splitLoop path start segments).Pairwise fun u v => u.pos < v.pos := by
  -- one more segment, which starts at `start`
  have hsnoc : ∀ start segments, segments.Pairwise (fun u v : StringView => u.pos < v.pos) →
      (∀ u ∈ segments, u.pos < path.pos + start) → ∀ v : StringView, v.pos = path.pos + start →
      (segments ++ [v]).Pairwise fun u v => u.pos < v.pos := by
    intro start segments hsorted hbehind v hv
    rw [List.pairwise_append]
    refine ⟨hsorted, List.pairwise_singleton _ _, ?_⟩
    intro u hu w hw
    rw [List.mem_singleton.1 hw, hv]
    exact hbehind u hu
  induction start, segments using splitLoop.induct path with
  | case1 start segments stop hfind ih =>
      rw [splitLoop, hfind]
      dsimp only
      have hle := StringView.le_of_findFrom hfind
      simp only [dite_eq_ite] at ih
      apply ih
      · split
        · exact hsnoc start segments hsorted hbehind _ rfl
        · exact hsorted
      · intro u hu
        split at hu
        · rcases List.mem_append.1 hu with hu | hu
          · have := hbehind u hu
            omega
          · rw [List.mem_singleton.1 hu]
            show path.pos + start < path.pos + (stop + 1)
            omega
        · have := hbehind u hu
          omega
  | case2 start segments hfind hlt =>
      rw [splitLoop, hfind]
      dsimp only
      rw [if_pos hlt]
      exact hsnoc start segments hsorted hbehind _ rfl
  | case3 start segments hfind hge =>
      rw [splitLoop, hfind]
      dsimp only
      rw [if_neg hge]
      exact hsorted

/-- No two segments are the same view. -/
theorem splitPathToSegments_nodup (path : StringView) : (splitPathToSegments path).Nodup := by
  have h := splitLoop_sorted path 0 [] List.Pairwise.nil fun _ hu => absurd hu List.not_mem_nil
  refine List.Pairwise.imp ?_ h
  rintro u _ hlt rfl
  exact absurd hlt (Nat.lt_irrefl _)

/-! ## Registrations and their derivatives -/

structure Route (H : Type) where
  method : HttpMethod
  segs : List Bytes
  handler : H
deriving DecidableEq

section Routes

variable {H : Type}

/-- The registrations that go on behind the static segment `s`. -/
def underStatic (s : Bytes) (rs : List (Route H)) : List (Route H) :=
  rs.filterMap fun r =>
    match r.segs with
    | [] => none
    | t :: rest => if t = s ∧ ¬ isParam t then some { r with segs := rest } else none

/-- The registrations that go on behind a parameter. -/
def underParam (rs : List (Route H)) : List (Route H) :=
  rs.filterMap fun r =>
    match r.segs with
    | [] => none
    | t :: rest => if isParam t then some { r with segs := rest } else none

/-- The handler registered last for this method and pattern. -/
def lastRegistered (method : HttpMethod) (pattern : List Bytes) (rs : List (Route H)) :
    Option H :=
  ((rs.filter fun r => r.method = method ∧ r.segs = pattern).map Route.handler).getLast?

/-- The routes that go on below a static child. -/
theorem mem_underStatic {s : Bytes} {rs : List (Route H)} {r : Route H} :
    r ∈ underStatic s rs ↔ isParam s = false ∧ { r with segs := s :: r.segs } ∈ rs := by
  unfold underStatic
  rw [List.mem_filterMap]
  constructor
  · rintro ⟨⟨method, segs, handler⟩, hmem, heq⟩
    cases segs with
    | nil => cases heq
    | cons t rest =>
        dsimp only at heq
        split at heq
        case isTrue h =>
          cases heq
          rcases h with ⟨rfl, hparam⟩
          exact ⟨by simpa using hparam, hmem⟩
        case isFalse => cases heq
  · rintro ⟨hparam, hmem⟩
    exact ⟨_, hmem, by simp [hparam]⟩

/-- The routes that go on below the parameter child. -/
theorem mem_underParam {rs : List (Route H)} {r : Route H} :
    r ∈ underParam rs ↔ ∃ t, isParam t = true ∧ { r with segs := t :: r.segs } ∈ rs := by
  unfold underParam
  rw [List.mem_filterMap]
  constructor
  · rintro ⟨⟨method, segs, handler⟩, hmem, heq⟩
    cases segs with
    | nil => cases heq
    | cons t rest =>
        dsimp only at heq
        split at heq
        case isTrue h =>
          cases heq
          exact ⟨t, h, hmem⟩
        case isFalse => cases heq
  · rintro ⟨t, hparam, hmem⟩
    exact ⟨_, hmem, by simp [hparam]⟩

/-! ## The tree of a list of registrations -/

/-- The tree after these registrations. -/
def build (rs : List (Route H)) : RouterNode H :=
  rs.foldl (fun node r => node.addRouteRecursive r.method r.segs r.handler) .empty

theorem build_append (rs : List (Route H)) (r : Route H) :
    build (rs ++ [r]) = (build rs).addRouteRecursive r.method r.segs r.handler := by
  simp [build]

/-- The handlers of its root: the last registration counts. -/
theorem build_handlers (rs : List (Route H)) (method : HttpMethod) :
    (build rs).handlers method = lastRegistered method [] rs := by
  induction rs using List.reverseRecOn with
  | nil => rfl
  | append_singleton rs r ih =>
      rw [build_append]
      unfold lastRegistered at ih ⊢
      rw [List.filter_append, List.map_append, List.getLast?_append]
      rcases r with ⟨m, segs, handler⟩
      cases segs with
      | nil =>
          show Function.update (build rs).handlers m (some handler) method = _
          by_cases hm : m = method
          · subst hm
            simp
          · rw [Function.update_of_ne (Ne.symm hm), ih]
            simp [hm]
      | cons t rest =>
          have hsame : ((build rs).addRouteRecursive m (t :: rest) handler).handlers =
              (build rs).handlers := by
            unfold RouterNode.addRouteRecursive
            split
            · cases (build rs).paramChild with
              | none => rfl
              | some child => rfl
            · rfl
          rw [hsame, ih]
          simp

/-- The static children of the tree. -/
theorem build_children (rs : List (Route H)) (s : Bytes) :
    (build rs).children s =
      if underStatic s rs = [] then none else some (build (underStatic s rs)) := by
  induction rs using List.reverseRecOn with
  | nil => rfl
  | append_singleton rs r ih =>
      rw [build_append]
      rcases r with ⟨m, segs, handler⟩
      cases segs with
      | nil =>
          -- a route that ends here goes under no segment
          have hnone : underStatic s (rs ++ [⟨m, [], handler⟩]) = underStatic s rs := by
            simp [underStatic]
          rw [hnone]
          exact ih
      | cons t rest =>
          by_cases hparam : isParam t = true
          · -- a parameter goes to the other child
            have hsame : ((build rs).addRouteRecursive m (t :: rest) handler).children =
                (build rs).children := by
              unfold RouterNode.addRouteRecursive
              rw [if_pos hparam]
              cases (build rs).paramChild with
              | none => rfl
              | some child => rfl
            have hnone : underStatic s (rs ++ [⟨m, t :: rest, handler⟩]) = underStatic s rs := by
              simp [underStatic, hparam]
            rw [hsame, hnone]
            exact ih
          · unfold RouterNode.addRouteRecursive
            rw [if_neg hparam]
            by_cases hs : s = t
            · -- the child of this segment gets the registration
              subst hs
              have hsome : underStatic s (rs ++ [⟨m, s :: rest, handler⟩]) =
                  underStatic s rs ++ [⟨m, rest, handler⟩] := by
                simp [underStatic, hparam]
              rw [hsome, if_neg (List.append_ne_nil_of_right_ne_nil _ (List.cons_ne_nil _ _)),
                build_append]
              simp only [Function.update_self, ih]
              split
              case isTrue hnil =>
                rw [hnil]
                rfl
              case isFalse => rfl
            · -- the child of another segment
              have hnone : underStatic s (rs ++ [⟨m, t :: rest, handler⟩]) =
                  underStatic s rs := by
                simp [underStatic, Ne.symm hs]
              rw [hnone]
              simp only [Function.update_of_ne hs]
              exact ih

/-- Its parameter child. -/
theorem build_paramChild (rs : List (Route H)) :
    (build rs).paramChild =
      if underParam rs = [] then none else some (build (underParam rs)) := by
  induction rs using List.reverseRecOn with
  | nil => rfl
  | append_singleton rs r ih =>
      rw [build_append]
      rcases r with ⟨m, segs, handler⟩
      cases segs with
      | nil =>
          have hnone : underParam (rs ++ [⟨m, [], handler⟩]) = underParam rs := by
            simp [underParam]
          rw [hnone]
          exact ih
      | cons t rest =>
          unfold RouterNode.addRouteRecursive
          by_cases hparam : isParam t = true
          · have hsome : underParam (rs ++ [⟨m, t :: rest, handler⟩]) =
                underParam rs ++ [⟨m, rest, handler⟩] := by
              simp [underParam, hparam]
            rw [if_pos hparam, hsome,
              if_neg (List.append_ne_nil_of_right_ne_nil _ (List.cons_ne_nil _ _)), build_append,
              ih]
            split
            case h_1 hchild =>
              have hnil : underParam rs = [] := by
                by_contra hne
                rw [if_neg hne] at hchild
                cases hchild
              rw [hnil]
              rfl
            case h_2 child hchild =>
              split at hchild
              · cases hchild
              · cases hchild
                rfl
          · have hnone : underParam (rs ++ [⟨m, t :: rest, handler⟩]) = underParam rs := by
              simp [underParam, hparam]
            rw [if_neg hparam, hnone]
            exact ih

/-- When all first parameters have one name, that is the name of the node. -/
theorem build_paramName {rs : List (Route H)} {name : Bytes} (hne : underParam rs ≠ [])
    (hname : ∀ r ∈ rs, ∀ t rest, r.segs = t :: rest → isParam t = true → t.tail = name) :
    (build rs).paramName = name := by
  induction rs using List.reverseRecOn with
  | nil => exact absurd rfl hne
  | append_singleton rs r ih =>
      have hrs : ∀ r' ∈ rs, ∀ t rest, r'.segs = t :: rest → isParam t = true → t.tail = name :=
        fun r' hr' => hname r' (List.mem_append_left _ hr')
      have hr := hname r (List.mem_append_right _ (List.mem_singleton_self r))
      rw [build_append]
      rcases r with ⟨m, segs, handler⟩
      cases segs with
      | nil =>
          refine ih ?_ hrs
          simpa [underParam] using hne
      | cons t rest =>
          unfold RouterNode.addRouteRecursive
          by_cases hparam : isParam t = true
          · rw [if_pos hparam]
            split
            case h_1 => exact hr t rest rfl hparam
            case h_2 child hchild =>
              refine ih ?_ hrs
              intro hnil
              rw [build_paramChild, if_pos hnil] at hchild
              cases hchild
          · rw [if_neg hparam]
            refine ih ?_ hrs
            simpa [underParam, hparam] using hne

/-- The handler is that of a route. -/
theorem lastRegistered_mem {method : HttpMethod} {pattern : List Bytes} {rs : List (Route H)}
    {h : H} (hlast : lastRegistered method pattern rs = some h) :
    ∃ r ∈ rs, r.method = method ∧ r.segs = pattern ∧ r.handler = h := by
  unfold lastRegistered at hlast
  rcases List.mem_map.1 (List.mem_of_getLast? hlast) with ⟨r, hr, rfl⟩
  rw [List.mem_filter, decide_eq_true_eq] at hr
  exact ⟨r, hr.1, hr.2.1, hr.2.2, rfl⟩

theorem lastRegistered_isSome {method : HttpMethod} {rs : List (Route H)} {r : Route H}
    (hr : r ∈ rs) (hmethod : r.method = method) :
    (lastRegistered method r.segs rs).isSome := by
  unfold lastRegistered
  rw [List.getLast?_isSome, ne_eq, List.map_eq_nil_iff]
  exact List.ne_nil_of_mem (List.mem_filter.2 ⟨hr, by simp [hmethod]⟩)

/-- Behind a static segment the last registration is that of the derivative. -/
theorem lastRegistered_static {s : Bytes} (hs : isParam s = false) (method : HttpMethod)
    (pattern : List Bytes) (rs : List (Route H)) :
    lastRegistered method (s :: pattern) rs =
      lastRegistered method pattern (underStatic s rs) := by
  unfold lastRegistered
  congr 1
  induction rs with
  | nil => rfl
  | cons r rs ih =>
      rcases r with ⟨m, segs, handler⟩
      cases segs with
      | nil => simpa [underStatic] using ih
      | cons t rest =>
          by_cases ht : t = s
          · subst ht
            have hcons : underStatic t (⟨m, t :: rest, handler⟩ :: rs) =
                ⟨m, rest, handler⟩ :: underStatic t rs := by
              simp [underStatic, hs]
            rw [hcons]
            by_cases hsame : m = method ∧ rest = pattern
            · rcases hsame with ⟨rfl, rfl⟩
              simpa using ih
            · simpa [hsame] using ih
          · have hcons : underStatic s (⟨m, t :: rest, handler⟩ :: rs) = underStatic s rs := by
              simp [underStatic, ht]
            rw [hcons]
            simpa [ht] using ih

/-- Likewise behind a parameter, when all first parameters are spelled alike. -/
theorem lastRegistered_param {p : Bytes} (hp : isParam p = true) (method : HttpMethod)
    (pattern : List Bytes) {rs : List (Route H)}
    (hname : ∀ r ∈ rs, ∀ t rest, r.segs = t :: rest → isParam t = true → t = p) :
    lastRegistered method (p :: pattern) rs = lastRegistered method pattern (underParam rs) := by
  unfold lastRegistered
  congr 1
  induction rs with
  | nil => rfl
  | cons r rs ih =>
      have ih := ih fun r' hr' => hname r' (List.mem_cons_of_mem _ hr')
      have hr := hname r List.mem_cons_self
      rcases r with ⟨m, segs, handler⟩
      cases segs with
      | nil => simpa [underParam] using ih
      | cons t rest =>
          by_cases ht : isParam t = true
          · obtain rfl := hr t rest rfl ht
            have hcons : underParam (⟨m, t :: rest, handler⟩ :: rs) =
                ⟨m, rest, handler⟩ :: underParam rs := by
              simp [underParam, ht]
            rw [hcons]
            by_cases hsame : m = method ∧ rest = pattern
            · rcases hsame with ⟨rfl, rfl⟩
              simpa using ih
            · simpa [hsame] using ih
          · have hcons : underParam (⟨m, t :: rest, handler⟩ :: rs) = underParam rs := by
              simp [underParam, ht]
            have hne : t ≠ p := by
              rintro rfl
              exact ht hp
            rw [hcons]
            simpa [hne] using ih

end Routes

end Oreshnek
