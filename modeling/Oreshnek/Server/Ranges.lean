import Oreshnek.Server.Lengths

/-!
# Byte ranges

What the `Range` part of `apply_http_semantics` does to a file response, for every value of
the header. `applyHttpSemantics_file` names the parts of the answer, and `rangeSides_eq_some`
and `rangeBounds_bounds` say what the two steps of the range code can do.

A `RangeForm` is one of the three forms a range has, with numbers of any length: the code
reads them with `stoll`, so that numbers from `2 ^ 63` on are not read at all
(`range_selected_iff`).
-/

namespace Oreshnek

/-! ## The parts of the answer -/

/-- The headers every file response gets. -/
def HttpResponse.advertise (r : HttpResponse) (st : Stat) : HttpResponse :=
  ((r.header (lit "Accept-Ranges") (lit "bytes")).header (lit "ETag") (makeEtag st)).header
    (lit "Last-Modified") (httpDate st.mtime)

/-- The 304 answer. -/
def HttpResponse.unchanged (r : HttpResponse) : HttpResponse :=
  (((r.setStatus .notModified).header (lit "Content-Length") (lit "0")).setHeadOnly
    true).setFileRange 0 0

/-- The response as it is when its file has been looked up. -/
def HttpResponse.looked (r : HttpResponse) (req : HttpRequest) (st : Stat) : HttpResponse :=
  (if req.method = .head then r.setHeadOnly true else r).advertise st

/-- The method is one for which conditions are looked at. -/
def HttpRequest.Safe (req : HttpRequest) : Prop := req.method = .get ∨ req.method = .head

instance (req : HttpRequest) : Decidable req.Safe :=
  inferInstanceAs (Decidable (req.method = .get ∨ req.method = .head))

theorem looked_status (req : HttpRequest) (res : HttpResponse) (st : Stat) :
    (res.looked req st).status = res.status := by
  unfold HttpResponse.looked
  split <;> rfl

theorem looked_headOnly (req : HttpRequest) (res : HttpResponse) (st : Stat) :
    (res.looked req st).headOnly = (res.headOnly || decide (req.method = .head)) := by
  unfold HttpResponse.looked
  by_cases hhead : req.method = .head
  · rw [if_pos hhead, decide_eq_true hhead, Bool.or_true]
    rfl
  · rw [if_neg hhead, decide_eq_false hhead, Bool.or_false]
    rfl

section Looked

variable {req : HttpRequest} {res : HttpResponse} {st : Stat}

/-- HEAD changes neither the file nor its path. -/
theorem ofHead_file (req : HttpRequest) (hfile : res.isFile = true) :
    (if req.method = .head then res.setHeadOnly true else res).isFile = true ∧
      (if req.method = .head then res.setHeadOnly true else res).filePath = res.filePath := by
  split
  · exact ⟨hfile, rfl⟩
  · exact ⟨hfile, rfl⟩

/-- `apply_http_semantics` on a file that is there. -/
theorem applyHttpSemantics_file {stat : Bytes → Option Stat} (hfile : res.isFile = true)
    (hstat : stat res.filePath = some st) :
    applyHttpSemantics stat req res =
      if req.Safe ∧ notModified req st then (res.looked req st).unchanged
      else applyRange req (res.looked req st) st.size := by
  obtain ⟨hisFile, hpath⟩ := ofHead_file req hfile
  unfold applyHttpSemantics HttpResponse.looked
  generalize (if req.method = .head then res.setHeadOnly true else res) = r at hisFile hpath ⊢
  dsimp only
  rw [if_neg (not_not.2 hisFile), hpath, hstat]
  rfl

/-- A file that cannot be looked up is answered as the handler left it. -/
theorem applyHttpSemantics_lost {stat : Bytes → Option Stat} (hfile : res.isFile = true)
    (hstat : stat res.filePath = none) :
    applyHttpSemantics stat req res =
      if req.method = .head then res.setHeadOnly true else res := by
  obtain ⟨hisFile, hpath⟩ := ofHead_file req hfile
  unfold applyHttpSemantics
  generalize (if req.method = .head then res.setHeadOnly true else res) = r at hisFile hpath ⊢
  dsimp only
  rw [if_neg (not_not.2 hisFile), hpath, hstat]

end Looked

/-- The two sides of the range a request asks for, when it has the supported form. -/
def HttpRequest.rangeAsked (req : HttpRequest) : Option (Bytes × Bytes) :=
  (req.header (lit "Range")).bind fun spec => rangeSides spec.bytes

/-- `apply_range` by what is asked and by what is left of it. -/
theorem applyRange_eq (req : HttpRequest) (res : HttpResponse) (size : Int) :
    applyRange req res size =
      match req.rangeAsked with
      | none => res.setFileRange 0 size
      | some sides =>
          match rangeBounds size sides with
          | none => rangeNotSatisfiable res size
          | some (start, stop) => partialContent res size start stop := by
  unfold applyRange HttpRequest.rangeAsked
  cases req.header (lit "Range") with
  | none => rfl
  | some spec => rfl

/-- A range leaves all headers but its own two. -/
theorem applyRange_keeps {name : Bytes} (hrange : name ≠ lit "Content-Range")
    (hlength : name ≠ lit "Content-Length") (req : HttpRequest) (res : HttpResponse)
    (size : Int) : (applyRange req res size).headers.lookup name = res.headers.lookup name := by
  rw [applyRange_eq]
  split
  · rfl
  split
  · exact (header_lookup_ne _ _ hlength).trans (header_lookup_ne _ _ hrange)
  · exact (header_lookup_ne _ _ hlength).trans (header_lookup_ne _ _ hrange)

/-- What an answer says of the file is in it, whichever it is. -/
theorem looked_sent {stat : Bytes → Option Stat} {req : HttpRequest} {res : HttpResponse}
    {st : Stat} {name : Bytes} (hfile : res.isFile = true) (hstat : stat res.filePath = some st)
    (hrange : name ≠ lit "Content-Range") (hlength : name ≠ lit "Content-Length") :
    (applyHttpSemantics stat req res).headers.lookup name =
      (res.looked req st).headers.lookup name := by
  rw [applyHttpSemantics_file hfile hstat]
  split
  · exact header_lookup_ne _ _ hlength
  · exact applyRange_keeps hrange hlength _ _ _

theorem setHead_filePath (res : HttpResponse) (req : HttpRequest) :
    (if req.method = .head then res.setHeadOnly true else res).isFile = res.isFile ∧
      (if req.method = .head then res.setHeadOnly true else res).filePath = res.filePath := by
  split
  · exact ⟨rfl, rfl⟩
  · exact ⟨rfl, rfl⟩

/-- A range leaves the file. -/
theorem applyRange_filePath (req : HttpRequest) (res : HttpResponse) (size : Int) :
    (applyRange req res size).isFile = res.isFile ∧
      (applyRange req res size).filePath = res.filePath := by
  rw [applyRange_eq]
  split
  · exact ⟨rfl, rfl⟩
  split
  · exact ⟨rfl, rfl⟩
  · exact ⟨rfl, rfl⟩

/-- The request decides on the part of the file, not on the file. -/
theorem applyHttpSemantics_filePath (stat : Bytes → Option Stat) (req : HttpRequest)
    (res : HttpResponse) :
    (applyHttpSemantics stat req res).isFile = res.isFile ∧
      (applyHttpSemantics stat req res).filePath = res.filePath := by
  by_cases hfile : res.isFile = true
  · cases hstat : stat res.filePath with
    | none =>
        rw [applyHttpSemantics_lost hfile hstat]
        exact setHead_filePath res req
    | some st =>
        have hlooked : (res.looked req st).isFile = res.isFile ∧
            (res.looked req st).filePath = res.filePath := setHead_filePath res req
        rw [applyHttpSemantics_file hfile hstat]
        split
        · exact hlooked
        · rw [(applyRange_filePath req _ _).1, (applyRange_filePath req _ _).2]
          exact hlooked
  · unfold applyHttpSemantics
    dsimp only
    rw [if_pos (by rw [(setHead_filePath res req).1]; exact hfile)]
    exact setHead_filePath res req

/-! ## Reading a range -/

/-- The supported values: `bytes=`, the two sides around the first dash, no comma. -/
theorem rangeSides_eq_some {spec first last : Bytes} :
    rangeSides spec = some (first, last) ↔
      spec = lit "bytes=" ++ first ++ 45 :: last ∧ 45 ∉ first ∧ 44 ∉ spec := by
  unfold rangeSides
  constructor
  · intro h
    by_cases hform : ¬ lit "bytes=" <+: spec ∨ 44 ∈ spec
    · rw [if_pos hform] at h
      cases h
    · rw [if_neg hform] at h
      obtain ⟨hunit, hcomma⟩ := not_or.1 hform
      obtain ⟨r, rfl⟩ := not_not.1 hunit
      rw [List.drop_left] at h
      dsimp only at h
      cases hdash : Search.find [45] r with
      | none =>
          rw [hdash] at h
          cases h
      | some dash =>
          rw [hdash] at h
          obtain ⟨hfirst, hlast⟩ := Prod.mk.inj (Option.some.inj h)
          have hsplit := Search.find_split hdash
          have hnot := Search.not_infix_of_find_take hdash (List.cons_ne_nil _ _)
          rw [hfirst, Search.singleton_infix_iff] at hnot
          have hr : r = first ++ 45 :: last := by
            rw [hsplit, hfirst, List.length_singleton, hlast]
            exact List.append_assoc _ _ _
          refine ⟨?_, hnot, hcomma⟩
          rw [hr, List.append_assoc]
  · rintro ⟨rfl, hdash, hcomma⟩
    have hform : ¬ (¬ lit "bytes=" <+: lit "bytes=" ++ first ++ 45 :: last ∨
        44 ∈ lit "bytes=" ++ first ++ 45 :: last) := by
      rintro (hunit | hin)
      · exact hunit ⟨_, (List.append_assoc _ _ _).symm⟩
      · exact hcomma hin
    rw [if_neg hform, List.append_assoc, List.drop_left]
    dsimp only
    rw [Search.find_singleton hdash]
    dsimp only
    rw [List.take_left, ← List.drop_drop, List.drop_left]
    rfl

/-! ## The arithmetic -/

/-- The two numbers as the `try` block of the range code leaves them, with the values of the
`off_t` expressions it computes: `size - n` for a suffix. -/
def rangeReadTraced (size : Int) (sides : Bytes × Bytes) : Option (Int × Int) × List Int :=
  if sides.1 ≠ [] then
    match stoll sides.1 with
    | none => (none, [])
    | some start =>
        if sides.2 ≠ [] then ((stoll sides.2).map fun stop => (start, stop), [])
        else (some (start, size - 1), [])
  else if sides.2 ≠ [] then
    match stoll sides.2 with
    | none => (none, [])
    | some n =>
        if n ≤ 0 then (none, [])
        else if size ≤ n then (some (0, size - 1), [])
        else (some (size - n, size - 1), [size - n])
  else (none, [])

/-- The checks behind it, with the expressions they compute: `size - 1` where `end` is cut to
the file, and the difference and the length of a range that is served. -/
def rangeCutTraced (size : Int) (bounds : Int × Int) : Option (Int × Int) × List Int :=
  if 0 < size then
    let cut : Int × List Int :=
      if size ≤ bounds.2 then (size - 1, [size - 1]) else (bounds.2, [])
    if bounds.1 < 0 ∨ cut.1 < bounds.1 then (none, cut.2)
    else (some (bounds.1, cut.1), cut.2 ++ [cut.1 - bounds.1, cut.1 - bounds.1 + 1])
  else (none, [])

/-- `rangeBounds` with the value of every `off_t` expression on the way, in order; the first is
`size - 1`, at the declaration of `end`. -/
def rangeBoundsTraced (size : Int) (sides : Bytes × Bytes) : Option (Int × Int) × List Int :=
  let read := rangeReadTraced size sides
  match read.1 with
  | none => (none, (size - 1) :: read.2)
  | some bounds =>
      let cut := rangeCutTraced size bounds
      (cut.1, (size - 1) :: read.2 ++ cut.2)

/-- The range that comes out of the cut. -/
theorem rangeCutTraced_fst (size start stop : Int) :
    (rangeCutTraced size (start, stop)).1 =
      if 0 < size then
        let stop := if size ≤ stop then size - 1 else stop
        if start < 0 ∨ stop < start then none else some (start, stop)
      else none := by
  unfold rangeCutTraced
  by_cases hsize : 0 < size
  · rw [if_pos hsize, if_pos hsize]
    by_cases hcut : size ≤ stop
    · simp only [if_pos hcut]
      split <;> rfl
    · simp only [if_neg hcut]
      split <;> rfl
  · rw [if_neg hsize, if_neg hsize]

/-- The bounds are read from the two sides of the hyphen. -/
theorem rangeReadTraced_fst (size : Int) (sides : Bytes × Bytes) :
    (rangeReadTraced size sides).1 =
      if sides.1 ≠ [] then
        match stoll sides.1 with
        | none => none
        | some start =>
            if sides.2 ≠ [] then (stoll sides.2).map fun stop => (start, stop)
            else some (start, size - 1)
      else if sides.2 ≠ [] then
        match stoll sides.2 with
        | none => none
        | some n =>
            if n ≤ 0 then none else some (if size ≤ n then 0 else size - n, size - 1)
      else none := by
  unfold rangeReadTraced
  split
  · cases stoll sides.1 with
    | none => rfl
    | some start =>
        dsimp only
        by_cases hlast : sides.2 ≠ []
        · rw [if_pos hlast, if_pos hlast]
        · rw [if_neg hlast, if_neg hlast]
  · split
    · cases stoll sides.2 with
      | none => rfl
      | some n =>
          dsimp only
          split
          · rfl
          · split <;> rfl
    · rfl

/-- The range is read and then cut to the file. -/
theorem rangeBounds_eq (size : Int) (sides : Bytes × Bytes) :
    rangeBounds size sides =
      (rangeReadTraced size sides).1.bind fun bounds => (rangeCutTraced size bounds).1 := by
  have hcut : ∀ bounds : Option (Int × Int),
      (bounds.bind fun bounds => (rangeCutTraced size bounds).1) =
        match bounds with
        | none => none
        | some (start, stop) =>
            if 0 < size then
              let stop := if size ≤ stop then size - 1 else stop
              if start < 0 ∨ stop < start then none else some (start, stop)
            else none := by
    rintro (_ | ⟨start, stop⟩)
    · rfl
    · exact rangeCutTraced_fst size start stop
  rw [rangeReadTraced_fst]
  exact (hcut _).symm

/-- What is traced is `rangeBounds`. -/
theorem rangeBoundsTraced_fst (size : Int) (sides : Bytes × Bytes) :
    (rangeBoundsTraced size sides).1 = rangeBounds size sides := by
  rw [rangeBounds_eq]
  unfold rangeBoundsTraced
  dsimp only
  cases (rangeReadTraced size sides).1 with
  | none => rfl
  | some bounds => rfl

/-- The only expression on the way to the two numbers is `size - n`, for an `n` of the file. -/
theorem rangeReadTraced_values {size : Int} (hmax : size < 2 ^ 63) (sides : Bytes × Bytes) :
    ∀ v ∈ (rangeReadTraced size sides).2, 0 ≤ v ∧ v < 2 ^ 63 := by
  intro v hv
  unfold rangeReadTraced at hv
  split at hv
  · split at hv
    · cases hv
    · split at hv
      · cases hv
      · cases hv
  · split at hv
    · split at hv
      · cases hv
      next n _ =>
      split at hv
      · cases hv
      split at hv
      · cases hv
      · rw [List.mem_singleton.1 hv]
        omega
    · cases hv

/-- Those behind it are of a range inside the file. -/
theorem rangeCutTraced_values {size : Int} (hmax : size < 2 ^ 63) (bounds : Int × Int) :
    ∀ v ∈ (rangeCutTraced size bounds).2, 0 ≤ v ∧ v < 2 ^ 63 := by
  intro v hv
  unfold rangeCutTraced at hv
  split at hv
  · by_cases hlong : size ≤ bounds.2
    · simp only [if_pos hlong] at hv
      split at hv
      · rw [List.mem_singleton.1 hv]
        omega
      · simp only [List.cons_append, List.nil_append, List.mem_cons, List.not_mem_nil,
          or_false] at hv
        omega
    · simp only [if_neg hlong] at hv
      split at hv
      · cases hv
      · simp only [List.nil_append, List.mem_cons, List.not_mem_nil, or_false] at hv
        omega
  · cases hv

/-- Whatever the sides say, no `off_t` value overflows, and only the `size - 1` of an empty
file is negative. -/
theorem rangeBoundsTraced_values {size : Int} (hsize : 0 ≤ size) (hmax : size < 2 ^ 63)
    (sides : Bytes × Bytes) :
    ∀ v ∈ (rangeBoundsTraced size sides).2,
      -2 ^ 63 ≤ v ∧ v < 2 ^ 63 ∧ (0 ≤ v ∨ size = 0 ∧ v = size - 1) := by
  intro v hv
  have hread := rangeReadTraced_values hmax sides v
  have hcut : ∀ bounds, v ∈ (rangeCutTraced size bounds).2 → 0 ≤ v ∧ v < 2 ^ 63 :=
    fun bounds => rangeCutTraced_values hmax bounds v
  have hfirst : v = size - 1 ∨ 0 ≤ v ∧ v < 2 ^ 63 := by
    unfold rangeBoundsTraced at hv
    dsimp only at hv
    split at hv
    · rcases List.mem_cons.1 hv with rfl | hin
      · exact Or.inl rfl
      · exact Or.inr (hread hin)
    · rcases List.mem_append.1 hv with hin | hin
      · rcases List.mem_cons.1 hin with rfl | hin
        · exact Or.inl rfl
        · exact Or.inr (hread hin)
      · exact Or.inr (hcut _ hin)
  omega

/-! ## The three answers -/

/-- The whole file, with the status it has. -/
structure ServesWhole (req : HttpRequest) (res res' : HttpResponse) (size : Int) : Prop where
  status : res'.status = res.status
  fileOffset : res'.fileOffset = 0
  fileLength : res'.fileLength = size
  headOnly : res'.headOnly = (res.headOnly || decide (req.method = .head))

/-- The bytes from `start` to `stop` of a file. -/
structure ServesRange (res' : HttpResponse) (size start stop : Int) : Prop where
  status : res'.status = .partialContent
  fileOffset : res'.fileOffset = start
  fileLength : res'.fileLength = stop - start + 1
  contentLength :
    res'.headers.lookup (lit "Content-Length") = some (toStringInt (stop - start + 1))
  contentRange :
    res'.headers.lookup (lit "Content-Range") =
      some (lit "bytes " ++ toStringInt start ++ lit "-" ++ toStringInt stop ++ lit "/" ++
        toStringInt size)

/-- Nothing of a file. -/
structure Unsatisfied (res' : HttpResponse) (size : Int) : Prop where
  status : res'.status = .rangeNotSatisfiable
  headOnly : res'.headOnly = true
  fileOffset : res'.fileOffset = 0
  fileLength : res'.fileLength = 0
  contentLength : res'.headers.lookup (lit "Content-Length") = some (lit "0")
  contentRange :
    res'.headers.lookup (lit "Content-Range") = some (lit "bytes */" ++ toStringInt size)

theorem looked_serves (req : HttpRequest) (res : HttpResponse) (st : Stat) (size : Int) :
    ServesWhole req res ((res.looked req st).setFileRange 0 size) size where
  status := looked_status req res st
  fileOffset := rfl
  fileLength := rfl
  headOnly := looked_headOnly req res st

/-- A 206 serves the range it was made for. -/
theorem partialContent_serves (res : HttpResponse) (size start stop : Int) :
    ServesRange (partialContent res size start stop) size start stop where
  status := rfl
  fileOffset := rfl
  fileLength := rfl
  contentLength := header_lookup _ _ _
  contentRange := (header_lookup_ne _ _ (by decide)).trans (header_lookup _ _ _)

/-- A 416 tells the size. -/
theorem rangeNotSatisfiable_unsatisfied (res : HttpResponse) (size : Int) :
    Unsatisfied (rangeNotSatisfiable res size) size where
  status := rfl
  headOnly := rfl
  fileOffset := rfl
  fileLength := rfl
  contentLength := header_lookup _ _ _
  contentRange := (header_lookup_ne _ _ (by decide)).trans (header_lookup _ _ _)

/-- One of the three, for a range inside the file. -/
def RangeOutcome (req : HttpRequest) (res res' : HttpResponse) (size : Int) : Prop :=
  ServesWhole req res res' size ∨ Unsatisfied res' size ∨
    ∃ start stop, 0 ≤ start ∧ start ≤ stop ∧ stop < size ∧ ServesRange res' size start stop

/-- A range request has one of its three outcomes. -/
theorem applyRange_outcome (req : HttpRequest) (res : HttpResponse) (st : Stat) :
    RangeOutcome req res (applyRange req (res.looked req st) st.size) st.size := by
  rw [applyRange_eq]
  cases req.rangeAsked with
  | none => exact Or.inl (looked_serves req res st st.size)
  | some sides =>
      dsimp only
      cases hbounds : rangeBounds st.size sides with
      | none => exact Or.inr (Or.inl (rangeNotSatisfiable_unsatisfied _ _))
      | some bounds =>
          obtain ⟨start, stop⟩ := bounds
          obtain ⟨hstart, hle, hstop⟩ := rangeBounds_bounds hbounds
          exact Or.inr (Or.inr ⟨start, stop, hstart, hle, hstop, partialContent_serves _ _ _ _⟩)

/-- The `off_t` values that are computed for a request, for a file of this size. -/
def HttpRequest.rangeValues (req : HttpRequest) (size : Int) : List Int :=
  match req.rangeAsked with
  | none => []
  | some sides => (rangeBoundsTraced size sides).2

/-- A request without conditions is not answered on their account. -/
theorem notModified_unconditional {req : HttpRequest} (st : Stat)
    (hmatch : req.header (lit "If-None-Match") = none)
    (hsince : req.header (lit "If-Modified-Since") = none) : notModified req st = false := by
  unfold notModified
  rw [hmatch, hsince]

/-- **Every `Range` value.** A request without conditions is answered with the whole file, with
nothing of it, or with a part that lies inside it. The arithmetic on the way never overflows,
and it is negative only for an empty file, which has no byte to serve: then `size - 1` is -1. -/
theorem range_outcome {stat : Bytes → Option Stat} {req : HttpRequest} {res : HttpResponse}
    {st : Stat} (hmatch : req.header (lit "If-None-Match") = none)
    (hsince : req.header (lit "If-Modified-Since") = none) (hfile : res.isFile = true)
    (hstat : stat res.filePath = some st) (hsize : 0 ≤ st.size) (hmax : st.size < 2 ^ 63) :
    RangeOutcome req res (applyHttpSemantics stat req res) st.size ∧
      ∀ v ∈ req.rangeValues st.size, -2 ^ 63 ≤ v ∧ v < 2 ^ 63 ∧
        (0 ≤ v ∨ st.size = 0 ∧ v = st.size - 1 ∧
          Unsatisfied (applyHttpSemantics stat req res) st.size) := by
  have hanswer : applyHttpSemantics stat req res =
      applyRange req (res.looked req st) st.size := by
    rw [applyHttpSemantics_file hfile hstat, notModified_unconditional st hmatch hsince]
    exact if_neg (by simp)
  rw [hanswer]
  constructor
  · exact applyRange_outcome req res st
  · intro v hv
    unfold HttpRequest.rangeValues at hv
    rw [applyRange_eq]
    cases hasked : req.rangeAsked with
    | none =>
        rw [hasked] at hv
        cases hv
    | some sides =>
        rw [hasked] at hv
        dsimp only at hv ⊢
        obtain ⟨hlow, hhigh, hsign⟩ := rangeBoundsTraced_values hsize hmax sides v hv
        refine ⟨hlow, hhigh, ?_⟩
        rcases hsign with hpos | ⟨hempty, hlast⟩
        · exact Or.inl hpos
        · -- no range of an empty file can be satisfied
          have hnone : rangeBounds st.size sides = none := by
            rw [← rangeBoundsTraced_fst]
            cases hbounds : (rangeBoundsTraced st.size sides).1 with
            | none => rfl
            | some bounds =>
                rw [rangeBoundsTraced_fst] at hbounds
                have := rangeBounds_bounds (show rangeBounds st.size sides = some (bounds.1, bounds.2) from
                  hbounds)
                omega
          rw [hnone]
          exact Or.inr ⟨hempty, hlast, rangeNotSatisfiable_unsatisfied _ _⟩

/-- A request with one header. -/
def oneField (method : HttpMethod) (name value : Bytes) : HttpRequest :=
  { method, headers := ViewMap.assign ∅ ⟨0, name⟩ ⟨0, value⟩ }

theorem oneField_header (method : HttpMethod) (name value : Bytes) :
    (oneField method name value).header name = some ⟨0, value⟩ := by
  unfold oneField HttpRequest.header
  exact (ViewMap.get_assign _ _ _ _).trans (if_pos rfl)

/-- A response with a file. -/
def filed (status : HttpStatus) : HttpResponse :=
  (HttpResponse.new.setStatus status).file (lit "/srv/a") (lit "text/plain") (some 5)

/-- A file system in which every file is of this size. -/
def allSized (size : Int) : Bytes → Option Stat := fun _ => some ⟨size, 0⟩

/-- The last two bytes of five. -/
theorem range_outcome_suffix :
    RangeOutcome (oneField .get (lit "Range") (lit "bytes=-2")) (filed .ok)
        (applyHttpSemantics (allSized 5) (oneField .get (lit "Range") (lit "bytes=-2"))
          (filed .ok)) 5 ∧
      ∀ v ∈ (oneField .get (lit "Range") (lit "bytes=-2")).rangeValues 5,
        -2 ^ 63 ≤ v ∧ v < 2 ^ 63 ∧
          (0 ≤ v ∨ (5 : Int) = 0 ∧ v = 5 - 1 ∧
            Unsatisfied (applyHttpSemantics (allSized 5)
              (oneField .get (lit "Range") (lit "bytes=-2")) (filed .ok)) 5) :=
  range_outcome (by decide) (by decide) rfl (show allSized 5 _ = some ⟨5, 0⟩ from rfl)
    (by decide) (by decide)

/-- An empty file: the code computes `size - 1`. -/
theorem empty_file_negative :
    ¬ ∀ (stat : Bytes → Option Stat) (req : HttpRequest) (res : HttpResponse) (st : Stat),
      req.method = .get → req.header (lit "If-None-Match") = none →
      req.header (lit "If-Modified-Since") = none → res.isFile = true →
      stat res.filePath = some st → 0 ≤ st.size → st.size < 2 ^ 63 →
      RangeOutcome req res (applyHttpSemantics stat req res) st.size ∧
        ∀ v ∈ req.rangeValues st.size, 0 ≤ v ∧ v < 2 ^ 63 := by
  intro h
  have hvalues := (h (allSized 0) (oneField .get (lit "Range") (lit "bytes=0-")) (filed .ok)
    ⟨0, 0⟩ rfl (by decide) (by decide) rfl rfl (by decide) (by decide)).2
  have hneg : (-1 : Int) ∈ (oneField .get (lit "Range") (lit "bytes=0-")).rangeValues 0 := by
    decide
  exact absurd (hvalues (-1) hneg).1 (by decide)

/-! ## The three forms -/

/-- A non-empty string of decimal digits. -/
structure DigitString where
  digits : Bytes
  nonempty : digits ≠ []
  decimal : digits.all isdigit

namespace DigitString

def value (d : DigitString) : Nat := decValue d.digits

/-- Of all numbers, `stoll` reads the ones below `2 ^ 63`. -/
theorem stoll_eq (d : DigitString) :
    stoll d.digits = if d.value < 2 ^ 63 then some (d.value : Int) else none := by
  obtain ⟨ds, hne, hall⟩ := d
  have hdigits : ∀ c ∈ ds, isdigit c := List.all_eq_true.1 hall
  cases ds with
  | nil => exact absurd rfl hne
  | cons c ds =>
      obtain ⟨hspace, hplus, hminus⟩ := not_isspace_of_isdigit (hdigits c List.mem_cons_self)
      have hdrop : (c :: ds).dropWhile isspace = c :: ds := by
        rw [List.dropWhile_cons, hspace]
        rfl
      have htake : (c :: ds).takeWhile isdigit = c :: ds := List.takeWhile_eq_self_iff.2 hdigits
      unfold stoll value
      simp only [hdrop]
      split
      case h_1 hcons => exact absurd (List.cons.inj hcons).1 hplus
      case h_2 hcons => exact absurd (List.cons.inj hcons).1 hminus
      case h_3 =>
        simp only [htake, List.isEmpty_cons, Bool.false_eq_true, if_false]
        by_cases hlt : decValue (c :: ds) < 2 ^ 63
        · rw [if_pos hlt, if_pos (by omega)]
        · rw [if_neg hlt, if_neg (by omega)]

theorem not_mem (d : DigitString) {c : UInt8} (hc : isdigit c = false) : c ∉ d.digits := by
  intro hin
  have := List.all_eq_true.1 d.decimal c hin
  rw [hc] at this
  cases this

end DigitString

/-- A `Range` value for one range of bytes. -/
inductive RangeForm where
  /-- `bytes=a-b` -/
  | closed (first last : DigitString) (ordered : first.value ≤ last.value)
  /-- `bytes=a-` -/
  | fromByte (first : DigitString)
  /-- `bytes=-n` -/
  | suffix (count : DigitString)

namespace RangeForm

/-- The two sides of the dash. -/
def sides : RangeForm → Bytes × Bytes
  | .closed first last _ => (first.digits, last.digits)
  | .fromByte first => (first.digits, [])
  | .suffix count => ([], count.digits)

/-- The value of the header. -/
def text (form : RangeForm) : Bytes := lit "bytes=" ++ form.sides.1 ++ 45 :: form.sides.2

/-- The first and the last byte it selects of a file, `none` when there are none. -/
def selected (size : Int) : RangeForm → Option (Int × Int)
  | .closed first last _ =>
      if (first.value : Int) < size then
        some ((first.value : Int), min (last.value : Int) (size - 1)) else none
  | .fromByte first =>
      if (first.value : Int) < size then some ((first.value : Int), size - 1) else none
  | .suffix count =>
      if 1 ≤ count.value then some (size - min (count.value : Int) size, size - 1) else none

/-- The number that decides where the range ends is one that `stoll` reads: the last byte of
a range that begins in the file, the length of a suffix. -/
def Readable (size : Int) : RangeForm → Prop
  | .closed first last _ => (first.value : Int) < size → last.value < 2 ^ 63
  | .fromByte _ => True
  | .suffix count => count.value < 2 ^ 63

/-- A range is split at its hyphen. -/
theorem rangeSides_text (form : RangeForm) : rangeSides form.text = some form.sides := by
  have hdigits : ∀ c : UInt8, isdigit c = false → c ∉ form.sides.1 ∧ c ∉ form.sides.2 := by
    intro c hc
    cases form with
    | closed first last _ => exact ⟨first.not_mem hc, last.not_mem hc⟩
    | fromByte first => exact ⟨first.not_mem hc, List.not_mem_nil⟩
    | suffix count => exact ⟨List.not_mem_nil, count.not_mem hc⟩
  refine rangeSides_eq_some.2 ⟨rfl, (hdigits 45 (by decide)).1, ?_⟩
  intro hin
  obtain ⟨hfirst, hlast⟩ := hdigits 44 (by decide)
  rcases List.mem_append.1 hin with hin | hin
  · rcases List.mem_append.1 hin with hin | hin
    · exact absurd hin (by decide)
    · exact hfirst hin
  · rcases List.mem_cons.1 hin with hin | hin
    · exact absurd hin (by decide)
    · exact hlast hin

/-- Two numbers that were read select what they have in common with the file. -/
theorem rangeBounds_read {size start stop : Int} {sides : Bytes × Bytes} (hsize : 1 ≤ size)
    (hstart : 0 ≤ start) (hread : (rangeReadTraced size sides).1 = some (start, stop)) :
    rangeBounds size sides =
      if start < size ∧ start ≤ stop then some (start, min stop (size - 1)) else none := by
  rw [rangeBounds_eq, hread, Option.bind_some, rangeCutTraced_fst,
    if_pos (show 0 < size by omega)]
  dsimp only
  by_cases hlong : size ≤ stop
  · rw [if_pos hlong, min_eq_right (by omega)]
    by_cases hin : start < size
    · rw [if_neg (by omega), if_pos (by omega)]
    · rw [if_pos (by omega), if_neg (by omega)]
  · rw [if_neg hlong, min_eq_left (by omega)]
    by_cases hin : start ≤ stop
    · rw [if_neg (by omega), if_pos (by omega)]
    · rw [if_pos (by omega), if_neg (by omega)]

theorem rangeBounds_unread {size : Int} {sides : Bytes × Bytes}
    (hread : (rangeReadTraced size sides).1 = none) : rangeBounds size sides = none := by
  rw [rangeBounds_eq, hread, Option.bind_none]

/-- The numbers of a form as they are read. -/
theorem rangeReadTraced_sides (size : Int) (form : RangeForm) :
    (rangeReadTraced size form.sides).1 =
      match form with
      | .closed first last _ =>
          if first.value < 2 ^ 63 ∧ last.value < 2 ^ 63 then
            some ((first.value : Int), (last.value : Int)) else none
      | .fromByte first =>
          if first.value < 2 ^ 63 then some ((first.value : Int), size - 1) else none
      | .suffix count =>
          if 1 ≤ count.value ∧ count.value < 2 ^ 63 then
            some (size - min (count.value : Int) size, size - 1) else none := by
  cases form with
  | closed first last ordered =>
      -- the second number is read only when the first one fits
      show (rangeReadTraced size (first.digits, last.digits)).1 = _
      unfold rangeReadTraced
      dsimp only
      rw [if_pos first.nonempty, first.stoll_eq]
      by_cases hfirst : first.value < 2 ^ 63
      · rw [if_pos hfirst]
        dsimp only
        rw [if_pos last.nonempty, last.stoll_eq]
        by_cases hlast : last.value < 2 ^ 63
        · rw [if_pos hlast, if_pos ⟨hfirst, hlast⟩]
          rfl
        · rw [if_neg hlast, if_neg (by omega)]
          rfl
      · rw [if_neg hfirst, if_neg (by omega)]
  | fromByte first =>
      show (rangeReadTraced size (first.digits, [])).1 = _
      unfold rangeReadTraced
      dsimp only
      rw [if_pos first.nonempty, first.stoll_eq]
      by_cases hfirst : first.value < 2 ^ 63
      · rw [if_pos hfirst, if_pos hfirst]
        rfl
      · rw [if_neg hfirst, if_neg hfirst]
  | suffix count =>
      -- a count of zero is refused, a long one is cut to the size
      show (rangeReadTraced size ([], count.digits)).1 = _
      unfold rangeReadTraced
      dsimp only
      rw [if_neg (by simp), if_pos count.nonempty, count.stoll_eq]
      by_cases hcount : count.value < 2 ^ 63
      · rw [if_pos hcount]
        dsimp only
        by_cases hzero : (count.value : Int) ≤ 0
        · rw [if_pos hzero, if_neg (by omega)]
        · rw [if_neg hzero, if_pos (show 1 ≤ count.value ∧ count.value < 2 ^ 63 by omega)]
          by_cases hlong : size ≤ count.value
          · rw [if_pos hlong, min_eq_right hlong, Int.sub_self]
          · rw [if_neg hlong, min_eq_left (by omega)]
      · rw [if_neg hcount, if_neg (by omega)]

/-- The code selects what the form does when its numbers can be read. -/
theorem rangeBounds_readable {size : Int} (hpos : 1 ≤ size) (hmax : size < 2 ^ 63)
    {form : RangeForm} (h : form.Readable size) :
    rangeBounds size form.sides = form.selected size := by
  have hread := rangeReadTraced_sides size form
  cases form with
  | closed first last ordered =>
      unfold selected
      dsimp only at hread ⊢
      by_cases hin : (first.value : Int) < size
      · have hlast : last.value < 2 ^ 63 := h hin
        rw [if_pos (by omega)] at hread
        rw [rangeBounds_read hpos (by omega) hread, if_pos hin, if_pos (by omega)]
      · rw [if_neg hin]
        by_cases hfits : first.value < 2 ^ 63 ∧ last.value < 2 ^ 63
        · rw [if_pos hfits] at hread
          rw [rangeBounds_read hpos (by omega) hread, if_neg (by omega)]
        · rw [if_neg hfits] at hread
          exact rangeBounds_unread hread
  | fromByte first =>
      unfold selected
      dsimp only at hread ⊢
      by_cases hfits : first.value < 2 ^ 63
      · rw [if_pos hfits] at hread
        rw [rangeBounds_read hpos (by omega) hread, min_self]
        by_cases hin : (first.value : Int) < size
        · rw [if_pos hin, if_pos (by omega)]
        · rw [if_neg hin, if_neg (by omega)]
      · rw [if_neg hfits] at hread
        rw [if_neg (by omega)]
        exact rangeBounds_unread hread
  | suffix count =>
      unfold selected
      have hfits : count.value < 2 ^ 63 := h
      dsimp only at hread ⊢
      by_cases hone : 1 ≤ count.value
      · rw [if_pos ⟨hone, hfits⟩] at hread
        rw [rangeBounds_read hpos (by omega) hread, min_self, if_pos hone, if_pos (by omega)]
      · rw [if_neg (by omega)] at hread
        rw [if_neg hone]
        exact rangeBounds_unread hread

/-- Otherwise it selects nothing, though the form has bytes of the file. -/
theorem rangeBounds_unreadable {size : Int} {form : RangeForm} (h : ¬ form.Readable size) :
    rangeBounds size form.sides = none ∧ form.selected size ≠ none := by
  have hread := rangeReadTraced_sides size form
  cases form with
  | closed first last ordered =>
      unfold Readable at h
      dsimp only at hread h
      obtain ⟨hin, hlast⟩ := Classical.not_imp.1 h
      rw [if_neg (by omega)] at hread
      refine ⟨rangeBounds_unread hread, ?_⟩
      unfold selected
      dsimp only
      rw [if_pos hin]
      nofun
  | fromByte first => exact absurd trivial h
  | suffix count =>
      have hlong : ¬ count.value < 2 ^ 63 := h
      dsimp only at hread
      rw [if_neg (by omega)] at hread
      refine ⟨rangeBounds_unread hread, ?_⟩
      unfold selected
      dsimp only
      rw [if_pos (by omega)]
      nofun

end RangeForm

/-- The answer to a range: the bytes that are selected, or 416 when there are none. -/
def AnswersRange (res' : HttpResponse) (size : Int) : Option (Int × Int) → Prop
  | some (start, stop) => ServesRange res' size start stop
  | none => Unsatisfied res' size

/-- **A range.** The bytes it stands for are served exactly when the request has no condition
that the file meets, and the number that decides where the range ends fits in 64 bits. -/
theorem range_selected_iff {stat : Bytes → Option Stat} {req : HttpRequest} {res : HttpResponse}
    {st : Stat} (hmethod : req.method = .get) (hfile : res.isFile = true)
    (hstat : stat res.filePath = some st) (hpos : 1 ≤ st.size) (hmax : st.size < 2 ^ 63)
    {spec : StringView} (hrange : req.header (lit "Range") = some spec) {form : RangeForm}
    (hspec : spec.bytes = form.text) :
    AnswersRange (applyHttpSemantics stat req res) st.size (form.selected st.size) ↔
      notModified req st = false ∧ form.Readable st.size := by
  have hasked : req.rangeAsked = some form.sides := by
    unfold HttpRequest.rangeAsked
    rw [hrange, Option.bind_some, hspec, form.rangeSides_text]
  have hsafe : req.Safe := Or.inl hmethod
  rw [applyHttpSemantics_file hfile hstat]
  cases hcond : notModified req st with
  | true =>
      rw [if_pos ⟨hsafe, rfl⟩]
      refine iff_of_false ?_ fun h => Bool.noConfusion h.1
      -- a 304 is neither of the two answers
      cases form.selected st.size with
      | none => exact fun h => HttpStatus.noConfusion h.status
      | some bounds => exact fun h => HttpStatus.noConfusion h.status
  | false =>
      rw [if_neg fun h => Bool.noConfusion h.2, applyRange_eq, hasked]
      dsimp only
      by_cases hread : form.Readable st.size
      · refine iff_of_true ?_ ⟨rfl, hread⟩
        rw [form.rangeBounds_readable hpos hmax hread]
        cases form.selected st.size with
        | none => exact rangeNotSatisfiable_unsatisfied _ _
        | some bounds => exact partialContent_serves _ _ _ _
      · obtain ⟨hnone, hsome⟩ := form.rangeBounds_unreadable hread
        refine iff_of_false ?_ fun h => hread h.2
        rw [hnone]
        cases hselected : form.selected st.size with
        | none => exact absurd hselected hsome
        | some bounds => exact fun h => HttpStatus.noConfusion h.status

/-- `bytes=1-9` -/
def oneToNine : RangeForm :=
  .closed ⟨lit "1", by decide, by decide⟩ ⟨lit "9", by decide, by decide⟩ (by decide)

/-- A range that goes beyond the end. -/
theorem range_selected_iff_inner :
    AnswersRange (applyHttpSemantics (allSized 5)
        (oneField .get (lit "Range") (lit "bytes=1-9")) (filed .ok)) 5 (oneToNine.selected 5) ↔
      notModified (oneField .get (lit "Range") (lit "bytes=1-9")) ⟨5, 0⟩ = false ∧
        oneToNine.Readable 5 :=
  range_selected_iff rfl rfl (show allSized 5 (filed .ok).filePath = some ⟨5, 0⟩ from rfl)
    (by decide) (by decide)
    (show (oneField .get (lit "Range") (lit "bytes=1-9")).header (lit "Range") =
      some ⟨0, lit "bytes=1-9"⟩ by decide)
    (show lit "bytes=1-9" = oneToNine.text by decide)

/-- `bytes=0-99999999999999999999` -/
def zeroToFar : RangeForm :=
  .closed ⟨lit "0", by decide, by decide⟩ ⟨lit "99999999999999999999", by decide, by decide⟩
    (by decide)

/-- A last byte that does not fit in 64 bits: the range begins in the file, the answer is 416. -/
theorem long_last_byte_refused :
    ¬ ∀ (stat : Bytes → Option Stat) (req : HttpRequest) (res : HttpResponse) (st : Stat)
        (spec : StringView) (form : RangeForm),
      req.method = .get → res.isFile = true → res.status = .ok →
      stat res.filePath = some st → 1 ≤ st.size → st.size < 2 ^ 63 →
      notModified req st = false → req.header (lit "Range") = some spec →
      spec.bytes = form.text →
      AnswersRange (applyHttpSemantics stat req res) st.size (form.selected st.size) := by
  intro h
  have hanswer := h (allSized 5)
    (oneField .get (lit "Range") (lit "bytes=0-99999999999999999999")) (filed .ok) ⟨5, 0⟩
    ⟨0, lit "bytes=0-99999999999999999999"⟩ zeroToFar rfl rfl rfl rfl (by decide) (by decide)
    (by decide) (by decide) (by decide)
  have hrefused : (applyHttpSemantics (allSized 5)
      (oneField .get (lit "Range") (lit "bytes=0-99999999999999999999"))
      (filed .ok)).status = .rangeNotSatisfiable := by decide
  exact absurd (hrefused.symm.trans (ServesRange.status hanswer)) (by decide)

/-! ## Responses that are not a 200 to GET or HEAD -/

/-- The request asks for a range of the supported form: `bytes=`, the two sides around the
first dash, no comma. -/
def HttpRequest.AsksRange (req : HttpRequest) (first last : Bytes) : Prop :=
  ∃ spec, req.header (lit "Range") = some spec ∧
    spec.bytes = lit "bytes=" ++ first ++ 45 :: last ∧ 45 ∉ first ∧ 44 ∉ spec.bytes

theorem rangeAsked_eq_some {req : HttpRequest} {first last : Bytes} :
    req.rangeAsked = some (first, last) ↔ req.AsksRange first last := by
  unfold HttpRequest.rangeAsked HttpRequest.AsksRange
  rw [Option.bind_eq_some_iff]
  exact exists_congr fun spec => and_congr_right fun _ => rangeSides_eq_some

/-- The two sides begin at the first byte of a file and reach its end. -/
def CoversFile (size : Int) (first last : Bytes) : Prop :=
  0 < size ∧
    ((stoll first = some 0 ∧ (last = [] ∨ ∃ n, stoll last = some n ∧ size - 1 ≤ n)) ∨
      (first = [] ∧ ∃ n, stoll last = some n ∧ size ≤ n))

/-- A range that is read is cut to the whole file when it reaches from end to end. -/
theorem rangeCutTraced_whole_iff (size start stop : Int) :
    (rangeCutTraced size (start, stop)).1 = some (0, size - 1) ↔
      0 < size ∧ start = 0 ∧ size - 1 ≤ stop := by
  rw [rangeCutTraced_fst]
  by_cases hsize : 0 < size
  · rw [if_pos hsize]
    dsimp only
    by_cases hbad : start < 0 ∨ (if size ≤ stop then size - 1 else stop) < start
    · rw [if_pos hbad]
      refine iff_of_false nofun ?_
      rintro ⟨-, rfl, hstop⟩
      split at hbad
      · omega
      · omega
    · rw [if_neg hbad, Option.some.injEq, Prod.mk.injEq]
      split
      · omega
      · omega
  · rw [if_neg hsize]
    exact iff_of_false nofun fun h => hsize h.1

/-- What is read of a suffix range. -/
theorem rangeReadTraced_suffix_iff {size start stop : Int} {last : Bytes} :
    (rangeReadTraced size ([], last)).1 = some (start, stop) ↔
      ∃ n, stoll last = some n ∧ 0 < n ∧ start = (if size ≤ n then 0 else size - n) ∧
        stop = size - 1 := by
  have hnil : stoll [] = none := rfl
  rw [rangeReadTraced_fst]
  dsimp only
  rw [if_neg (not_not.2 rfl)]
  by_cases hlast : last = []
  · rw [if_neg (not_not.2 hlast), hlast, hnil]
    refine iff_of_false nofun ?_
    rintro ⟨n, hn, -⟩
    cases hn
  · rw [if_pos hlast]
    cases hread : stoll last with
    | none =>
        refine iff_of_false nofun ?_
        rintro ⟨n, hn, -⟩
        cases hn
    | some n =>
        dsimp only
        by_cases hpos : n ≤ 0
        · rw [if_pos hpos]
          refine iff_of_false nofun ?_
          rintro ⟨m, hm, hmpos, -⟩
          cases hm
          omega
        · rw [if_neg hpos, Option.some.injEq, Prod.mk.injEq]
          constructor
          · rintro ⟨hstart, hstop⟩
            exact ⟨n, rfl, by omega, hstart.symm, hstop.symm⟩
          · rintro ⟨m, hm, -, hstart, hstop⟩
            cases hm
            exact ⟨hstart.symm, hstop.symm⟩

/-- What is read of a range with a first byte. -/
theorem rangeReadTraced_first_iff {size start stop : Int} {first last : Bytes} (hfirst : first ≠ []) :
    (rangeReadTraced size (first, last)).1 = some (start, stop) ↔
      stoll first = some start ∧
        ((last = [] ∧ stop = size - 1) ∨ (last ≠ [] ∧ stoll last = some stop)) := by
  rw [rangeReadTraced_fst]
  dsimp only
  rw [if_pos hfirst]
  cases hread : stoll first with
  | none =>
      refine iff_of_false nofun ?_
      rintro ⟨hno, -⟩
      cases hno
  | some n =>
      dsimp only
      by_cases hlast : last = []
      · rw [if_neg (not_not.2 hlast), Option.some.injEq, Prod.mk.injEq, Option.some.injEq]
        constructor
        · rintro ⟨hstart, hstop⟩
          exact ⟨hstart, .inl ⟨hlast, hstop.symm⟩⟩
        · rintro ⟨hstart, ⟨-, hstop⟩ | ⟨hno, -⟩⟩
          · exact ⟨hstart, hstop.symm⟩
          · exact absurd hlast hno
      · rw [if_pos hlast, Option.map_eq_some_iff, Option.some.injEq]
        constructor
        · rintro ⟨m, hm, hpair⟩
          obtain ⟨rfl, rfl⟩ := Prod.mk.inj hpair
          exact ⟨rfl, .inr ⟨hlast, hm⟩⟩
        · rintro ⟨rfl, ⟨hno, -⟩ | ⟨-, hstop⟩⟩
          · exact absurd hno hlast
          · exact ⟨stop, hstop, rfl⟩

/-- The ranges that cover the whole file. -/
theorem rangeBounds_whole_iff {size : Int} {first last : Bytes} :
    rangeBounds size (first, last) = some (0, size - 1) ↔ CoversFile size first last := by
  have hread : rangeBounds size (first, last) = some (0, size - 1) ↔
      ∃ start stop, (rangeReadTraced size (first, last)).1 = some (start, stop) ∧
        0 < size ∧ start = 0 ∧ size - 1 ≤ stop := by
    rw [rangeBounds_eq, Option.bind_eq_some_iff]
    constructor
    · rintro ⟨⟨start, stop⟩, hsome, hcut⟩
      exact ⟨start, stop, hsome, (rangeCutTraced_whole_iff size start stop).1 hcut⟩
    · rintro ⟨start, stop, hsome, hcut⟩
      exact ⟨(start, stop), hsome, (rangeCutTraced_whole_iff size start stop).2 hcut⟩
  rw [hread]
  unfold CoversFile
  by_cases hfirst : first = []
  · -- a suffix covers the file when it is not shorter
    rw [hfirst]
    constructor
    · rintro ⟨start, stop, hsome, hsize, hzero, -⟩
      obtain ⟨n, hn, -, hstart, -⟩ := rangeReadTraced_suffix_iff.1 hsome
      refine ⟨hsize, Or.inr ⟨rfl, n, hn, ?_⟩⟩
      by_contra hlong
      rw [if_neg hlong] at hstart
      omega
    · rintro ⟨hsize, ⟨hno, -⟩ | ⟨-, n, hn, hle⟩⟩
      · cases hno
      · have hsome := rangeReadTraced_suffix_iff.2 ⟨n, hn, by omega, (if_pos hle).symm, rfl⟩
        exact ⟨0, size - 1, hsome, hsize, rfl, le_refl _⟩
  · -- else the range starts with the first byte and has no end before the last
    constructor
    · rintro ⟨start, stop, hsome, hsize, rfl, hstop⟩
      obtain ⟨hstart, hend⟩ := (rangeReadTraced_first_iff hfirst).1 hsome
      rcases hend with ⟨hlast, -⟩ | ⟨-, hlast⟩
      · exact ⟨hsize, Or.inl ⟨hstart, Or.inl hlast⟩⟩
      · exact ⟨hsize, Or.inl ⟨hstart, Or.inr ⟨stop, hlast, hstop⟩⟩⟩
    · rintro ⟨hsize, ⟨hzero, hend⟩ | ⟨hno, -⟩⟩
      · by_cases hlast : last = []
        · have hsome : (rangeReadTraced size (first, last)).1 = some (0, size - 1) :=
            (rangeReadTraced_first_iff hfirst).2 ⟨hzero, Or.inl ⟨hlast, rfl⟩⟩
          exact ⟨0, size - 1, hsome, hsize, rfl, le_refl _⟩
        · obtain ⟨n, hn, hle⟩ := hend.resolve_left hlast
          have hsome : (rangeReadTraced size (first, last)).1 = some (0, n) :=
            (rangeReadTraced_first_iff hfirst).2 ⟨hzero, Or.inr ⟨hlast, hn⟩⟩
          exact ⟨0, n, hsome, hsize, rfl, hle⟩
      · exact absurd hno hfirst

/-- The conditions and the range of the request do not touch a response: it is not a GET or
HEAD with a condition that the file meets, and no range is asked for.

The rest is where the branch that is taken writes what the handler has written before it: its
own 304 or 416 for an empty file without a body, its own 206 for a range over the whole file. -/
def Untouched (req : HttpRequest) (res : HttpResponse) (st : Stat) : Prop :=
  let bodiless := (res.headOnly || decide (req.method = .head)) = true
  if req.Safe ∧ notModified req st then res.status = .notModified ∧ st.size = 0 ∧ bodiless
  else
    ∀ first last, req.AsksRange first last →
      (res.status = .partialContent ∧ CoversFile st.size first last) ∨
        (res.status = .rangeNotSatisfiable ∧ st.size = 0 ∧ bodiless)

/-- A file that is there is served whole when nothing touches the response. -/
theorem serves_whole_iff {stat : Bytes → Option Stat} {req : HttpRequest} {res : HttpResponse}
    {st : Stat} (hfile : res.isFile = true) (hstat : stat res.filePath = some st) :
    ServesWhole req res (applyHttpSemantics stat req res) st.size ↔ Untouched req res st := by
  rw [applyHttpSemantics_file hfile hstat]
  unfold Untouched
  dsimp only
  by_cases hcond : req.Safe ∧ notModified req st = true
  · -- the 304 of the code sends no file
    rw [if_pos hcond, if_pos hcond]
    constructor
    · intro h
      exact ⟨h.status.symm, h.fileLength.symm, h.headOnly.symm⟩
    · rintro ⟨hstatus, hsize, hbodiless⟩
      exact ⟨hstatus.symm, rfl, hsize.symm, hbodiless.symm⟩
  · rw [if_neg hcond, if_neg hcond, applyRange_eq]
    cases hasked : req.rangeAsked with
    | none =>
        refine iff_of_true (looked_serves req res st st.size) fun first last h => ?_
        rw [← rangeAsked_eq_some, hasked] at h
        cases h
    | some sides =>
        obtain ⟨first, last⟩ := sides
        have honly : ∀ first' last', req.AsksRange first' last' → first' = first ∧
            last' = last := by
          intro first' last' h
          rw [← rangeAsked_eq_some, hasked] at h
          obtain ⟨rfl, rfl⟩ := Prod.mk.inj (Option.some.inj h)
          exact ⟨rfl, rfl⟩
        dsimp only
        cases hbounds : rangeBounds st.size (first, last) with
        | none =>
            -- the 416 sends none either
            constructor
            · intro h first' last' _
              exact Or.inr ⟨h.status.symm, h.fileLength.symm, h.headOnly.symm⟩
            · intro h
              rcases h first last (rangeAsked_eq_some.1 hasked) with
                ⟨-, hcovers⟩ | ⟨hstatus, hsize, hbodiless⟩
              · rw [rangeBounds_whole_iff.2 hcovers] at hbounds
                cases hbounds
              · exact ⟨hstatus.symm, rfl, hsize.symm, hbodiless.symm⟩
        | some bounds =>
            obtain ⟨start, stop⟩ := bounds
            obtain ⟨hstart, hle, hstop⟩ := rangeBounds_bounds hbounds
            dsimp only
            -- the 206 sends the whole file where the range is from end to end
            constructor
            · intro h first' last' hasks
              obtain ⟨rfl, rfl⟩ := honly first' last' hasks
              have hoffset : start = 0 := h.fileOffset
              have hlength : stop - start + 1 = st.size := h.fileLength
              have hlast : stop = st.size - 1 := by omega
              rw [hoffset, hlast] at hbounds
              exact Or.inl ⟨h.status.symm, rangeBounds_whole_iff.1 hbounds⟩
            · intro h
              rcases h first last (rangeAsked_eq_some.1 hasked) with
                ⟨hstatus, hcovers⟩ | ⟨-, hempty, -⟩
              · rw [rangeBounds_whole_iff.2 hcovers] at hbounds
                obtain ⟨rfl, rfl⟩ := Prod.mk.inj (Option.some.inj hbounds)
                refine ⟨hstatus.symm, rfl, ?_, looked_headOnly req res st⟩
                show st.size - 1 - 0 + 1 = st.size
                omega
              · omega

/-- The status is the handler's, and the whole file is to be sent: all of its bytes when its
size is known, else what the handler asked for. -/
def KeepsFile (found : Option Stat) (req : HttpRequest) (res res' : HttpResponse) : Prop :=
  match found with
  | some st => ServesWhole req res res' st.size
  | none => res'.status = res.status ∧ res'.fileOffset = res.fileOffset ∧
      res'.fileLength = res.fileLength

/-- **The handler's answer.** A file response keeps its status and serves the whole file exactly
when neither the conditions nor the range of the request touch it, whatever its status and the
method are. -/
theorem keeps_file_iff {stat : Bytes → Option Stat} {req : HttpRequest} {res : HttpResponse}
    (hfile : res.isFile = true) :
    KeepsFile (stat res.filePath) req res (applyHttpSemantics stat req res) ↔
      ∀ st, stat res.filePath = some st → Untouched req res st := by
  unfold KeepsFile
  cases hstat : stat res.filePath with
  | none =>
      rw [applyHttpSemantics_lost hfile hstat]
      refine iff_of_true ?_ nofun
      dsimp only
      split
      · exact ⟨rfl, rfl, rfl⟩
      · exact ⟨rfl, rfl, rfl⟩
  | some st =>
      dsimp only
      rw [serves_whole_iff hfile hstat]
      constructor
      · intro h other hsame
        rw [← Option.some.inj hsame]
        exact h
      · intro h
        exact h st rfl

/-- A POST with a Range header. -/
theorem keeps_file_iff_posted :
    KeepsFile (allSized 5 (filed .ok).filePath) (oneField .post (lit "Range") (lit "bytes=0"))
        (filed .ok) (applyHttpSemantics (allSized 5)
          (oneField .post (lit "Range") (lit "bytes=0")) (filed .ok)) ↔
      ∀ st, allSized 5 (filed .ok).filePath = some st →
        Untouched (oneField .post (lit "Range") (lit "bytes=0")) (filed .ok) st :=
  keeps_file_iff rfl

/-- A page for 404 is served in part, as a 206. -/
theorem error_page_cut :
    ¬ ∀ (stat : Bytes → Option Stat) (req : HttpRequest) (res : HttpResponse),
      res.isFile = true → res.status ≠ .ok ∨ ¬ req.Safe →
      KeepsFile (stat res.filePath) req res (applyHttpSemantics stat req res) := by
  intro h
  have hwhole : ServesWhole _ _ _ _ := h (allSized 5)
    (oneField .get (lit "Range") (lit "bytes=0-1")) (filed .notFound) rfl (Or.inl (by decide))
  have hcut : (applyHttpSemantics (allSized 5) (oneField .get (lit "Range") (lit "bytes=0-1"))
      (filed .notFound)).status = .partialContent := by decide
  exact absurd (hcut.symm.trans hwhole.status) (by decide)

end Oreshnek
