import Oreshnek.Http.Request

/-!
# The router

`Router`: a tree with one node per pattern prefix. Handlers stay abstract, of a
type `H`. The children of a node are a map from static segments; a parameter
segment has its own child, whose name is the first one registered there.

`match_route_recursive` advances its iterator once for the static child and once
more for the parameter child of the same node. Behind the end of the segments
the second step leaves the vector: the model answers `overrun` there, since the
source says nothing about what is read.
-/

namespace Oreshnek

/-- What `find_route` writes its parameters to. -/
abbrev Params := AList fun _ : Bytes => StringView

structure RouterNode (H : Type) where
  children : Bytes → Option (RouterNode H)
  paramChild : Option (RouterNode H)
  paramName : Bytes
  handlers : HttpMethod → Option H

/-- A segment that stands for a parameter starts with a colon. -/
def isParam (segment : Bytes) : Bool := segment.head? == some 58

/-! ## Splitting a path -/

/-- The loop of `split_path_to_segments`, with the segments found so far. -/
def splitLoop (path : StringView) (start : Nat) (segments : List StringView) :
    List StringView :=
  match hfind : path.findFrom (lit "/") start with
  | some stop =>
      splitLoop path (stop + 1)
        (if start < stop then segments ++ [path.substr start (stop - start)] else segments)
  | none => if start < path.length then segments ++ [path.substrFrom start] else segments
termination_by path.length - start
decreasing_by
  have hle := StringView.le_of_findFrom hfind
  have hlt := StringView.findFrom_add_le (by decide) hfind
  have hone : (lit "/").length = 1 := rfl
  omega

/-- `split_path_to_segments`. -/
def splitPathToSegments (path : StringView) : List StringView := splitLoop path 0 []

namespace RouterNode

variable {H : Type}

/-- `RouterNode()`. -/
def empty : RouterNode H := ⟨fun _ => none, none, [], fun _ => none⟩

/-- `handlers[method] = handler`. -/
def setHandler (node : RouterNode H) (method : HttpMethod) (handler : H) : RouterNode H :=
  { node with handlers := Function.update node.handlers method (some handler) }

/-! ## Registering -/

/-- `add_route_recursive`. A second name for the same parameter is only warned
about: the node keeps the first. -/
def addRouteRecursive (node : RouterNode H) (method : HttpMethod) :
    List Bytes → H → RouterNode H
  | [], handler => node.setHandler method handler
  | segment :: rest, handler =>
      if isParam segment then
        match node.paramChild with
        | none =>
            { node with
              paramChild := some (empty.addRouteRecursive method rest handler)
              paramName := segment.tail }
        | some child =>
            { node with paramChild := some (child.addRouteRecursive method rest handler) }
      else
        let child := (node.children segment).getD empty
        { node with
          children := Function.update node.children segment
            (some (child.addRouteRecursive method rest handler)) }

/-- `add_route`, which throws for a pattern that does not start with a slash. -/
def addRoute (root : RouterNode H) (method : HttpMethod) (path : Bytes) (handler : H) :
    Except Bytes (RouterNode H) :=
  if path.head? = some 47 then
    if path = lit "/" then .ok (root.setHandler method handler)
    else
      let segments := splitPathToSegments ((StringView.mk 0 path).substrFrom 1)
      .ok (root.addRouteRecursive method (segments.map StringView.bytes) handler)
  else .error (lit "Invalid route path: Must start with '/'")

/-- A sequence of `add_route` calls. One that throws leaves the tree as it is. -/
def addRoutes (calls : List (HttpMethod × Bytes × H)) : RouterNode H :=
  calls.foldl
    (fun root call =>
      match root.addRoute call.1 call.2.1 call.2.2 with
      | .ok root => root
      | .error _ => root) .empty

end RouterNode

/-! ## Matching -/

/-- How `match_route_recursive` ends, with the parameter map it leaves. -/
inductive MatchResult (H : Type) where
  | found (handler : H) (params : Params)
  | notFound (params : Params)
  | overrun
deriving DecidableEq

namespace MatchResult

variable {H : Type}

/-- `if (match…) return true;` and what follows it. -/
def orElse (r : MatchResult H) (next : Params → MatchResult H) : MatchResult H :=
  match r with
  | .notFound params => next params
  | r => r

/-- After a failed parameter attempt the name is erased again. -/
def unbind (r : MatchResult H) (name : Bytes) : MatchResult H :=
  r.orElse fun params => .notFound (params.erase name)

@[simp] theorem orElse_found (h : H) (params : Params) (next : Params → MatchResult H) :
    (found h params).orElse next = found h params := rfl
@[simp] theorem orElse_notFound (params : Params) (next : Params → MatchResult H) :
    (notFound params).orElse next = next params := rfl
@[simp] theorem orElse_overrun (next : Params → MatchResult H) :
    overrun.orElse next = overrun := rfl

/-- An attempt with another behind it fails when both do. -/
theorem orElse_eq_notFound {r : MatchResult H} {next : Params → MatchResult H} {left : Params} :
    r.orElse next = .notFound left ↔ ∃ inner, r = .notFound inner ∧ next inner = .notFound left := by
  cases r with
  | found handler params => exact iff_of_false nofun (by rintro ⟨_, ⟨⟩, _⟩)
  | notFound inner => simp
  | overrun => exact iff_of_false nofun (by rintro ⟨_, ⟨⟩, _⟩)

/-- A handler found by the first search or, that failing, by the second. -/
theorem orElse_eq_found {r : MatchResult H} {next : Params → MatchResult H} {handler : H}
    {out : Params} : r.orElse next = .found handler out ↔
      r = .found handler out ∨ ∃ inner, r = .notFound inner ∧ next inner = .found handler out := by
  cases r with
  | found handler params => simp
  | notFound inner => simp
  | overrun => exact iff_of_false nofun (by rintro (⟨⟨⟩⟩ | ⟨_, ⟨⟩, _⟩))

end MatchResult

namespace RouterNode

variable {H : Type}

/-- `match_route_recursive`. -/
def matchRouteRecursive (method : HttpMethod) :
    RouterNode H → List StringView → Params → MatchResult H
  | node, [], params =>
      match node.handlers method with
      | some handler => .found handler params
      | none => .notFound params
  | node, segment :: rest, params =>
      match node.children segment.bytes with
      | some child =>
          (matchRouteRecursive method child rest params).orElse fun params =>
            match node.paramChild, rest with
            | none, _ => .notFound params
            -- the iterator has moved already: the segment's successor is skipped
            | some paramChild, _ :: rest =>
                (matchRouteRecursive method paramChild rest
                  (params.insert node.paramName segment)).unbind node.paramName
            | some _, [] => .overrun
      | none =>
          match node.paramChild with
          | none => .notFound params
          | some paramChild =>
              (matchRouteRecursive method paramChild rest
                (params.insert node.paramName segment)).unbind node.paramName

/-- `find_route`. -/
def findRoute (root : RouterNode H) (method : HttpMethod) (path : StringView)
    (params : Params) : MatchResult H :=
  if path.bytes.head? = some 47 then
    if path.bytes = lit "/" then
      match root.handlers method with
      | some handler => .found handler params
      | none => .notFound params
    else matchRouteRecursive method root (splitPathToSegments (path.substrFrom 1)) params
  else .notFound params

end RouterNode

end Oreshnek
