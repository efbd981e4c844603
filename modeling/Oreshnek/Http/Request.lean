import Oreshnek.Base

/-!
# Requests

The method enumeration and `HttpRequest`. A parsed request is a set of views
into the socket buffer; `makeOwned` copies the bytes it occupies and points
every view at the copy.
-/

namespace Oreshnek

inductive HttpMethod where
  | get | post | put | delete | patch | head | options | unknown
deriving DecidableEq, Repr

/-- `http_method_to_string`. -/
def HttpMethod.toBytes : HttpMethod → Bytes
  | .get => lit "GET"
  | .post => lit "POST"
  | .put => lit "PUT"
  | .delete => lit "DELETE"
  | .patch => lit "PATCH"
  | .head => lit "HEAD"
  | .options => lit "OPTIONS"
  | .unknown => lit "UNKNOWN"

structure HttpRequest where
  method : HttpMethod := .unknown
  path : StringView := .empty
  version : StringView := .empty
  headers : ViewMap := ∅
  queryParams : ViewMap := ∅
  /-- Set by the router; the names are the router's own strings. -/
  pathParams : AList (fun _ : Bytes => StringView) := ∅
  body : StringView := .empty
  /-- When non-empty, the views above point into this string. -/
  ownedStorage : Bytes := []
deriving DecidableEq

namespace HttpRequest

/-- `header(name)`: an exact-match lookup. -/
def header (r : HttpRequest) (name : Bytes) : Option StringView := r.headers.get name

def query (r : HttpRequest) (name : Bytes) : Option StringView := r.queryParams.get name

/-! ## Taking ownership -/

/-- `shift_view`: the same offset and length in the new storage. -/
def shiftView (storage : Bytes) (v : StringView) : StringView :=
  ⟨v.pos, (storage.drop v.pos).take v.length⟩

/-- `shift_map`: the map is rebuilt, keyed by what the moved key views show;
`emplace` leaves the first of two equal keys. -/
def shiftMap (storage : Bytes) (m : ViewMap) : ViewMap :=
  m.entries.foldl
    (fun rebuilt e =>
      let k := shiftView storage e.2.1
      if k.bytes ∈ rebuilt then rebuilt
      else rebuilt.insert k.bytes (k, shiftView storage e.2.2)) ∅

/-- `make_owned(base, len)` for views relative to `base`: `path_params_` is
left alone, as in the source. -/
def makeOwned (r : HttpRequest) (base : Bytes) (len : Nat) : HttpRequest :=
  let storage := base.take len
  { r with
    ownedStorage := storage
    path := shiftView storage r.path
    version := shiftView storage r.version
    body := shiftView storage r.body
    headers := shiftMap storage r.headers
    queryParams := shiftMap storage r.queryParams }

@[simp] theorem makeOwned_method (r : HttpRequest) (base : Bytes) (len : Nat) :
    (r.makeOwned base len).method = r.method := rfl

end HttpRequest

end Oreshnek
