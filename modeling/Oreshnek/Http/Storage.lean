import Oreshnek.Lib.Slices
import Oreshnek.Http.Owned

/-!
# Requests in memory

A parsed request and the string it owns, with the views as slices of memory
blocks: the read buffer of the connection, the buffer inside a request object
that short strings use, and the heap. What a request says is read from the memory
each time, so that writing to the read buffer, freeing a string or moving it shows.
What a request owns is all that its views show (`RequestShown.makeOwned`), so it says
the same whatever happens to the read buffer.
-/

namespace Oreshnek

open Blocks

inductive Block where
  | buffer
  | inline (object : Nat)
  | heap (address : Nat)
deriving DecidableEq, Repr

/-- `HttpRequest` as an object: `storage` is the block `owned_storage_` uses. The
names of path parameters are the router's own strings. -/
structure StoredRequest where
  method : HttpMethod
  path : Slice Block
  version : Slice Block
  headers : SliceMap Block
  queryParams : SliceMap Block
  pathParams : List (Bytes × Slice Block)
  body : Slice Block
  storage : Block
deriving DecidableEq

namespace StoredRequest

/-- `header(name)`: `none` where the name is missing, `some none` where the value
dangles. -/
def header (m : Memory Block UInt8) (r : StoredRequest) (name : Bytes) : Option (Option Bytes) :=
  r.headers.find m name

def query (m : Memory Block UInt8) (r : StoredRequest) (name : Bytes) : Option (Option Bytes) :=
  r.queryParams.find m name

def param (m : Memory Block UInt8) (r : StoredRequest) (name : Bytes) : Option (Option Bytes) :=
  (r.pathParams.find? fun e => e.1 = name).map fun e => e.2.read m

/-- `rebase_views`: `path_params_` is left untouched. -/
def rebaseViews (m : Memory Block UInt8) (oldBase newBase : Block) (r : StoredRequest) :
    StoredRequest :=
  if oldBase = newBase then r
  else
    { r with
      path := r.path.rebase oldBase newBase
      version := r.version.rebase oldBase newBase
      body := r.body.rebase oldBase newBase
      headers := r.headers.rebase m oldBase newBase
      queryParams := r.queryParams.rebase m oldBase newBase }

/-- `make_owned(base, len)`, the string being assigned in the block `place`. -/
def makeOwned (m : Memory Block UInt8) (r : StoredRequest) (base : Block) (len : Nat)
    (place : Block) : Memory Block UInt8 × StoredRequest :=
  let m := Function.update m place (some (((m base).getD []).take len))
  (m, rebaseViews m base place { r with storage := place })

/-- `path_params_` set after routing: the names are the router's, each value is the
part of the path of this offset and length. -/
def withParams (r : StoredRequest) (params : List (Bytes × Nat × Nat)) : StoredRequest :=
  { r with
    pathParams := params.map fun p => (p.1, ⟨r.path.block, r.path.offset + p.2.1, p.2.2⟩) }

end StoredRequest

/-! ## What a request says -/

/-- What a request says, and the bytes it owns. -/
structure RequestValue where
  storage : Bytes
  method : HttpMethod
  path : Bytes
  version : Bytes
  headers : List (Bytes × Bytes)
  queryParams : List (Bytes × Bytes)
  pathParams : List (Bytes × Bytes)
  body : Bytes
  headers_distinct : (headers.map Prod.fst).Nodup
  queryParams_distinct : (queryParams.map Prod.fst).Nodup

def RequestValue.withParams (v : RequestValue) (params : List (Bytes × Nat × Nat)) :
    RequestValue :=
  { v with pathParams := params.map fun p => (p.1, (v.path.drop p.2.1).take p.2.2) }

/-- The value of the first entry called `name`. -/
def entryOf (l : List (Bytes × Bytes)) (name : Bytes) : Option Bytes :=
  (l.find? fun x => x.1 = name).map Prod.snd

/-- The request says in this memory what `v` says, by every accessor. -/
structure Reads (m : Memory Block UInt8) (r : StoredRequest) (v : RequestValue) : Prop where
  method : r.method = v.method
  path : r.path.read m = some v.path
  version : r.version.read m = some v.version
  body : r.body.read m = some v.body
  header : ∀ name, r.header m name = (entryOf v.headers name).map some
  query : ∀ name, r.query m name = (entryOf v.queryParams name).map some
  param : ∀ name, r.param m name = (entryOf v.pathParams name).map some

/-- Its views stand for what `v` says, in the block `b`. -/
structure Represents (b : Block) (r : StoredRequest) (v : RequestValue) : Prop where
  method : r.method = v.method
  path : Stands b v.storage r.path v.path
  version : Stands b v.storage r.version v.version
  body : Stands b v.storage r.body v.body
  headers : MapStands b v.storage r.headers v.headers
  queryParams : MapStands b v.storage r.queryParams v.queryParams
  pathParams : List.Forall₂ (fun e x => e.1 = x.1 ∧ Stands b v.storage e.2 x.2) r.pathParams
    v.pathParams

theorem map_entryOf (l : List (Bytes × Bytes)) (name : Bytes) :
    ((l.find? fun x => x.1 = name).map fun x => some x.2) = (entryOf l name).map some := by
  unfold entryOf
  rw [Option.map_map]
  rfl

namespace Represents

variable {m : Memory Block UInt8} {b : Block} {r : StoredRequest} {v : RequestValue}

/-- The block is all that counts. -/
theorem reads (h : Represents b r v) (hm : m b = some v.storage) : Reads m r v where
  method := h.method
  path := h.path.read hm
  version := h.version.read hm
  body := h.body.read hm
  header := fun name => (h.headers.find hm name).trans (map_entryOf _ name)
  query := fun name => (h.queryParams.find hm name).trans (map_entryOf _ name)
  param := by
    intro name
    rw [← map_entryOf]
    unfold StoredRequest.param
    have hparams := h.pathParams
    generalize r.pathParams = es, v.pathParams = xs at hparams
    induction hparams with
    | nil => rfl
    | @cons e x es xs hentry hrest ih =>
        have hvalue := hentry.2.read hm
        rw [List.find?_cons, List.find?_cons, hentry.1]
        by_cases hname : x.1 = name
        · simp only [decide_eq_true hname, Option.map_some, hvalue]
        · simp only [decide_eq_false hname, ih]

/-- Parameters that are parts of the path stand for parts of it. -/
theorem withParams (h : Represents b r v) {params : List (Bytes × Nat × Nat)}
    (hparams : ∀ p ∈ params, p.2.1 + p.2.2 ≤ v.path.length) :
    Represents b (r.withParams params) (v.withParams params) := by
  refine ⟨h.method, h.path, h.version, h.body, h.headers, h.queryParams, ?_⟩
  show List.Forall₂ _ (params.map _) (params.map _)
  rw [List.forall₂_map_left_iff, List.forall₂_map_right_iff, List.forall₂_same]
  intro p hp
  exact ⟨rfl, h.path.part (hparams p hp)⟩

/-- Where no byte is owned all views are empty, and stand for it in any block. -/
theorem of_nil (h : Represents b r v) (hnil : v.storage = []) (new : Block) :
    Represents new r v where
  method := h.method
  path := h.path.anywhere hnil new
  version := h.version.anywhere hnil new
  body := h.body.anywhere hnil new
  headers := h.headers.imp fun _ _ he => ⟨he.1.anywhere hnil new, he.2.anywhere hnil new⟩
  queryParams := h.queryParams.imp fun _ _ he => ⟨he.1.anywhere hnil new, he.2.anywhere hnil new⟩
  pathParams := h.pathParams.imp fun _ _ he => ⟨he.1, he.2.anywhere hnil new⟩

/-- Rebased to another block with the same bytes, the views say the same; so do
the path parameters, which are not rebased, where they are empty. -/
theorem rebaseViews (h : Represents b r v) {newBase : Block} (hm : m newBase = some v.storage)
    (hparams : b = newBase ∨ ∀ e ∈ r.pathParams, e.2.length = 0) :
    Represents newBase (r.rebaseViews m b newBase) v := by
  unfold StoredRequest.rebaseViews
  by_cases hsame : b = newBase
  · rw [if_pos hsame]
    exact hsame ▸ h
  rw [if_neg hsame]
  have hempty := hparams.resolve_left hsame
  refine ⟨h.method, h.path.rebase newBase, h.version.rebase newBase, h.body.rebase newBase,
    h.headers.rebase v.headers_distinct hm, h.queryParams.rebase v.queryParams_distinct hm, ?_⟩
  refine List.Forall₂.imp ?_ ((List.forall₂_and_left _ _).2 ⟨hempty, h.pathParams⟩)
  rintro e x ⟨hzero, hname, hvalue⟩
  have hnil : x.2 = [] := by
    apply List.length_eq_zero_iff.1
    rw [← hvalue.length, hzero]
  exact ⟨hname, hnil ▸ Stands.empty newBase v.storage hzero⟩

end Represents

/-! ## From the parser to a worker -/

/-- A view of the read buffer. -/
def StringView.slice (v : StringView) : Slice Block := ⟨some .buffer, v.pos, v.length⟩

def ViewMap.slices (map : ViewMap) : SliceMap Block :=
  map.entries.map fun e => (e.2.1.slice, e.2.2.slice)

/-- The names and values of a map. -/
def ViewMap.texts (map : ViewMap) : List (Bytes × Bytes) :=
  map.entries.map fun e => (e.2.1.bytes, e.2.2.bytes)

/-- A request as the parser leaves it: its views point into the read buffer, its
own string is empty. -/
def HttpRequest.stored (r : HttpRequest) (object : Nat) : StoredRequest where
  method := r.method
  path := r.path.slice
  version := r.version.slice
  headers := r.headers.slices
  queryParams := r.queryParams.slices
  pathParams := []
  body := r.body.slice
  storage := .inline object

theorem Shown.stands {mem : Bytes} {limit : Nat} {v : StringView} (h : Shown mem limit v) {len : Nat}
    (hle : limit ≤ len) : Stands .buffer (mem.take len) v.slice v.bytes := by
  refine ⟨rfl, fun _ => ⟨rfl, ?_⟩⟩
  have hown : Shown (mem.take len) limit v :=
    h.of_take (by rw [List.take_take, Nat.min_eq_left hle])
  exact hown.bytes

/-- Views into a buffer stand in its copy, at the same offsets. -/
theorem MapShown.stands {mem : Bytes} {limit : Nat} {map : ViewMap} (h : MapShown mem limit map)
    {len : Nat} (hle : limit ≤ len) : MapStands .buffer (mem.take len) map.slices map.texts := by
  have hall : ∀ es : List (Sigma fun _ : Bytes => StringView × StringView),
      (∀ e ∈ es, Shown mem limit e.2.1 ∧ Shown mem limit e.2.2) →
      MapStands .buffer (mem.take len) (es.map fun e => (e.2.1.slice, e.2.2.slice))
        (es.map fun e => (e.2.1.bytes, e.2.2.bytes)) := by
    intro es
    induction es with
    | nil =>
        intro _
        exact List.Forall₂.nil
    | cons e es ih =>
        intro hes
        rcases hes e List.mem_cons_self with ⟨hk, hv⟩
        exact List.Forall₂.cons ⟨hk.stands hle, hv.stands hle⟩
          (ih fun e' he' => hes e' (List.mem_cons_of_mem _ he'))
  exact hall map.entries fun e he => (h e he).2

/-- The names of a map are distinct. -/
theorem MapShown.texts_distinct {mem : Bytes} {limit : Nat} {map : ViewMap}
    (h : MapShown mem limit map) : (map.texts.map Prod.fst).Nodup := by
  have hkeys : map.texts.map Prod.fst = map.entries.map Sigma.fst := by
    unfold ViewMap.texts
    rw [List.map_map]
    exact List.map_congr_left fun e he => (h e he).1
  rw [hkeys]
  exact map.nodupKeys

/-- A lookup in the map finds the entry. -/
theorem MapShown.entryOf_texts {mem : Bytes} {limit : Nat} {map : ViewMap}
    (h : MapShown mem limit map) (name : Bytes) :
    entryOf map.texts name = (map.get name).map (·.bytes) := by
  have hall : ∀ es : List (Sigma fun _ : Bytes => StringView × StringView),
      (∀ e ∈ es, e.2.1.bytes = e.1) →
      entryOf (es.map fun e => (e.2.1.bytes, e.2.2.bytes)) name =
        ((List.dlookup name es).map Prod.snd).map (·.bytes) := by
    intro es
    induction es with
    | nil =>
        intro _
        rfl
    | cons e es ih =>
        intro hes
        -- a key of the map is what its view shows
        have hkey := hes e List.mem_cons_self
        have hrest := ih fun e' he' => hes e' (List.mem_cons_of_mem _ he')
        obtain ⟨k, kv, vv⟩ := e
        unfold entryOf at hrest ⊢
        rw [List.map_cons, List.find?_cons]
        by_cases hname : k = name
        · have hfound : decide (kv.bytes = name) = true := by simpa [hname] using hkey
          subst hname
          rw [List.dlookup_cons_eq]
          simp only [hfound, Option.map_some]
        · have hother : decide (kv.bytes = name) = false := by
            rw [decide_eq_false_iff_not]
            exact fun hsame => hname (hkey.symm.trans hsame)
          rw [List.dlookup_cons_ne _ _ (Ne.symm hname)]
          simp only [hother, hrest]
  exact hall map.entries fun e he => (h e he).1

namespace RequestShown

variable {mem : Bytes} {limit : Nat} {r : HttpRequest}

/-- What a parsed request says, in the first `len` bytes of the read buffer. -/
def value (h : RequestShown mem limit r) (len : Nat) : RequestValue where
  storage := mem.take len
  method := r.method
  path := r.path.bytes
  version := r.version.bytes
  headers := r.headers.texts
  queryParams := r.queryParams.texts
  pathParams := []
  body := r.body.bytes
  headers_distinct := h.headers.texts_distinct
  queryParams_distinct := h.queryParams.texts_distinct

/-- A request whose views are shown is represented by its stored form. -/
theorem represents (h : RequestShown mem limit r) {len : Nat} (hle : limit ≤ len) (object : Nat) :
    Represents .buffer (r.stored object) (h.value len) where
  method := rfl
  path := h.path.stands hle
  version := h.version.stands hle
  body := h.body.stands hle
  headers := h.headers.stands hle
  queryParams := h.queryParams.stands hle
  pathParams := List.Forall₂.nil

/-- After `make_owned` the block of the request's own string holds all it says. -/
theorem makeOwned (h : RequestShown mem limit r) {len : Nat} (hle : limit ≤ len)
    {m : Memory Block UInt8} (hm : m .buffer = some mem) (object : Nat) (place : Block) :
    Represents place ((r.stored object).makeOwned m .buffer len place).2 (h.value len) ∧
      ((r.stored object).makeOwned m .buffer len place).1 place = some (mem.take len) := by
  have hplace : ((r.stored object).makeOwned m .buffer len place).1 place =
      some (mem.take len) := by
    unfold StoredRequest.makeOwned
    dsimp only
    rw [Function.update_self, hm]
    rfl
  refine ⟨?_, hplace⟩
  have hrep : Represents .buffer { r.stored object with storage := place } (h.value len) :=
    let hr := h.represents hle object
    ⟨hr.method, hr.path, hr.version, hr.body, hr.headers, hr.queryParams, hr.pathParams⟩
  exact hrep.rebaseViews hplace (Or.inr fun e he => nomatch he)

end RequestShown

end Oreshnek
