import Oreshnek.Http.Request
import Oreshnek.Http.Response
import Oreshnek.Http.Dates

/-!
# What the server does to a finished response

`apply_http_semantics` (HEAD, cache validators, conditional requests, a single
byte range) and `maybe_compress`. The file system is seen through `stat`, and the
two compressors through their results, an empty one for a failure.
-/

namespace Oreshnek

/-- The fields of `struct stat` that are used. -/
structure Stat where
  size : Int
  mtime : Int
deriving DecidableEq

/-- `make_etag`: `<size>-<mtime>` in quotes, both as unsigned numbers in base 16. -/
def makeEtag (st : Stat) : Bytes :=
  lit "\"" ++ toHex (st.size % 2 ^ 64).toNat ++ lit "-" ++ toHex (st.mtime % 2 ^ 64).toNat ++
    lit "\""

/-! ## Conditional requests and ranges -/

/-- Whether the validators of the request say that the file has not changed. -/
def notModified (req : HttpRequest) (st : Stat) : Bool :=
  match req.header (lit "If-None-Match") with
  | some inm => inm.bytes = lit "*" || (inm.find (makeEtag st)).isSome
  | none =>
      match req.header (lit "If-Modified-Since") with
      | some ims =>
          let since := parseHttpDate ims.bytes
          since ≠ -1 && decide (st.mtime ≤ since)
      | none => false

/-- The two sides of `bytes=START-END`, `none` for a form that is not supported. -/
def rangeSides (spec : Bytes) : Option (Bytes × Bytes) :=
  if ¬ lit "bytes=" <+: spec ∨ 44 ∈ spec then none
  else
    let r := spec.drop (lit "bytes=").length
    match Search.find [45] r with
    | none => none
    | some dash => some (r.take dash, r.drop (dash + 1))

/-- The range of a file of this size that the two sides select, `none` for one
that cannot be satisfied. -/
def rangeBounds (size : Int) (sides : Bytes × Bytes) : Option (Int × Int) :=
  let bounds : Option (Int × Int) :=
    if sides.1 ≠ [] then
      match stoll sides.1 with
      | none => none
      | some start =>
          if sides.2 ≠ [] then (stoll sides.2).map fun stop => (start, stop)
          else some (start, size - 1)
    else if sides.2 ≠ [] then
      -- a suffix: the last n bytes
      match stoll sides.2 with
      | none => none
      | some n =>
          if n ≤ 0 then none else some (if size ≤ n then 0 else size - n, size - 1)
    else none
  match bounds with
  | none => none
  | some (start, stop) =>
      if 0 < size then
        let stop := if size ≤ stop then size - 1 else stop
        if start < 0 ∨ stop < start then none else some (start, stop)
      else none

/-- The 416 answer. -/
def rangeNotSatisfiable (res : HttpResponse) (size : Int) : HttpResponse :=
  ((((res.setStatus .rangeNotSatisfiable).header (lit "Content-Range")
    (lit "bytes */" ++ toStringInt size)).header (lit "Content-Length") (lit "0")).setHeadOnly
      true).setFileRange 0 0

/-- The 206 answer. -/
def partialContent (res : HttpResponse) (size start stop : Int) : HttpResponse :=
  let length := stop - start + 1
  (((res.setStatus .partialContent).header (lit "Content-Range")
    (lit "bytes " ++ toStringInt start ++ lit "-" ++ toStringInt stop ++ lit "/" ++
      toStringInt size)).header (lit "Content-Length") (toStringInt length)).setFileRange
        start length

/-- The part of `apply_http_semantics` that looks at `Range`. -/
def applyRange (req : HttpRequest) (res : HttpResponse) (size : Int) : HttpResponse :=
  match req.header (lit "Range") with
  | none => res.setFileRange 0 size
  | some spec =>
      match rangeSides spec.bytes with
      | none => res.setFileRange 0 size
      | some sides =>
          match rangeBounds size sides with
          | none => rangeNotSatisfiable res size
          | some (start, stop) => partialContent res size start stop

/-- `apply_http_semantics`. `stat` answers for a path, `none` for an error. -/
def applyHttpSemantics (stat : Bytes → Option Stat) (req : HttpRequest) (res : HttpResponse) :
    HttpResponse :=
  let res := if req.method = .head then res.setHeadOnly true else res
  if ¬ res.isFile then res
  else
    match stat res.filePath with
    | none => res
    | some st =>
        let res := ((res.header (lit "Accept-Ranges") (lit "bytes")).header (lit "ETag")
          (makeEtag st)).header (lit "Last-Modified") (httpDate st.mtime)
        let safeMethod := req.method = .get ∨ req.method = .head
        if safeMethod ∧ notModified req st then
          (((res.setStatus .notModified).header (lit "Content-Length") (lit "0")).setHeadOnly
            true).setFileRange 0 0
        else applyRange req res st.size

/-- A range keeps a response without a body so. -/
theorem applyRange_headOnly {req : HttpRequest} {res : HttpResponse} {size : Int}
    (h : res.headOnly = true) : (applyRange req res size).headOnly = true := by
  unfold applyRange
  split
  · exact h
  · split
    · exact h
    · split
      · rfl
      · exact h

/-- **HEAD.** Whatever else the response becomes, its body is suppressed. -/
theorem applyHttpSemantics_head (stat : Bytes → Option Stat) {req : HttpRequest}
    (hmethod : req.method = .head) (res : HttpResponse) :
    (applyHttpSemantics stat req res).headOnly = true := by
  unfold applyHttpSemantics
  rw [if_pos hmethod]
  dsimp only
  split
  · rfl
  · split
    · rfl
    · split
      · rfl
      · exact applyRange_headOnly rfl

/-! ## Compression -/

/-- `is_compressible_type`, for a lowercased type. -/
def isCompressibleType (contentType : Bytes) : Bool :=
  lit "text/" <+: contentType ||
    [lit "application/json", lit "application/javascript", lit "application/xml",
      lit "application/x-mpegurl", lit "application/vnd.apple.mpegurl",
      lit "application/dash+xml", lit "application/manifest+json",
      lit "image/svg+xml"].any fun t => decide (t <+: contentType)

/-- `std::isalnum` in the "C" locale. -/
def isalnum (c : UInt8) : Bool :=
  isdigit c || (65 ≤ c && c ≤ 90) || (97 ≤ c && c ≤ 122)

/-- `find(pat, p)` on a string. -/
def findAt (pat s : Bytes) (p : Nat) : Option Nat :=
  (Search.find pat (s.drop p)).map (· + p)

theorem findAt_bounds {pat s : Bytes} {p i : Nat} (h : findAt pat s p = some i) :
    p ≤ i ∧ i + pat.length ≤ max s.length p := by
  unfold findAt at h
  rcases Option.map_eq_some_iff.1 h with ⟨a, ha, rfl⟩
  have hle := Search.find_add_length_le ha
  rw [List.length_drop] at hle
  omega

/-- The loop of `accepts_encoding` from position `p`: an occurrence of the token
that stands alone counts, unless a `q=` before the next comma is zero. -/
def acceptsEncodingFrom (ae token : Bytes) (htoken : token ≠ []) (p : Nat) : Bool :=
  match hfind : findAt token ae p with
  | none => false
  | some at_ =>
      let stop := at_ + token.length
      let leftBound := at_ == 0 || !isalnum (ae.getD (at_ - 1) 0)
      let rightBound := stop == ae.length || !isalnum (ae.getD stop 0)
      let refused :=
        match findAt (lit "q=") ae stop with
        | none => false
        | some q =>
            let before := match findAt (lit ",") ae stop with
              | none => true
              | some comma => decide (q < comma)
            before && atofIsZero (ae.drop (q + 2))
      if leftBound && rightBound && !refused then true
      else acceptsEncodingFrom ae token htoken stop
termination_by ae.length + 1 - p
decreasing_by
  have hpos := List.length_pos_iff.2 htoken
  have hbounds := findAt_bounds hfind
  omega

/-- `accepts_encoding`, for a lowercased header value. -/
def acceptsEncoding (ae token : Bytes) (htoken : token ≠ []) : Bool :=
  acceptsEncodingFrom ae token htoken 0

/-- The compressors; an empty result is a failure. -/
structure Compressors where
  gzip : Bytes → Bytes
  brotli : Bytes → Bytes

/-- The coding `maybe_compress` chooses, with what it makes of the body. -/
def chosenCoding (z : Compressors) (ae body : Bytes) (allowBrotli : Bool) :
    Option (Bytes × Bytes) :=
  if allowBrotli ∧ acceptsEncoding ae (lit "br") (by decide) then some (lit "br", z.brotli body)
  else if acceptsEncoding ae (lit "gzip") (by decide) then some (lit "gzip", z.gzip body)
  else none

/-- `maybe_compress`. -/
def maybeCompress (z : Compressors) (req : HttpRequest) (res : HttpResponse) (minBytes : Nat)
    (allowBrotli : Bool) : HttpResponse :=
  if res.isFile ∨ res.headOnly then res
  else
    match res.bodyContent with
    | .filePath _ => res
    | .text body =>
        if (res.headers.lookup (lit "Content-Encoding")).isSome ∨ body.length < minBytes then res
        else
          let contentType := ((res.headers.lookup (lit "Content-Type")).getD []).map tolower
          if ¬ isCompressibleType contentType then res
          else
            match req.header (lit "Accept-Encoding") with
            | none => res
            | some accept =>
                match chosenCoding z (accept.bytes.map tolower) body allowBrotli with
                | none => res
                | some (coding, encoded) =>
                    if encoded = [] ∨ body.length ≤ encoded.length then res
                    else
                      ((res.body encoded).header (lit "Content-Encoding") coding).header
                        (lit "Vary") (lit "Accept-Encoding")

end Oreshnek
