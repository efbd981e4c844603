import Oreshnek.Lib.Pieces
import Oreshnek.Server.Validators
import Oreshnek.Net.Delivery

/-!
# Downloads in pieces

A client collects a file over several requests: an answer can break off behind any byte, the
file can change between two of them, and each request can ask for any range. The client puts
the body of a 206 where its `Content-Range` says, that of a 200 at the front, and begins anew
when the `ETag` is not the one it has. What it has is then always part of one version of the
file, and asking for the bytes behind the ones it has completes it (`download_resumed`).
-/

namespace Oreshnek

/-- What a client has of a file: the tag it came with, and the bytes at their places. -/
structure Download where
  tag : Option Bytes := none
  bytes : Nat → Option UInt8 := Pieces.nothing

/-- The place of the body in the file, as the status and `Content-Range` tell it. -/
def HttpResponse.place (res : HttpResponse) : Option Nat :=
  if res.status = .ok then some 0
  else if res.status = .partialContent then
    (res.headers.lookup (lit "Content-Range")).map fun range =>
      decValue ((range.drop (lit "bytes ").length).takeWhile isdigit)
  else none

/-- The client takes what has arrived of the body of an answer. -/
def Download.take (d : Download) (res : HttpResponse) (arrived : Bytes) : Download :=
  match res.place, res.headers.lookup (lit "ETag") with
  | some start, some tag =>
      ⟨some tag,
        Pieces.write (if d.tag = some tag then d.bytes else Pieces.nothing) start arrived⟩
  | _, _ => d

/-- A request for the file: how the file is then, what is asked, the answer of the handler,
and how much of the body arrives. -/
structure Fetch where
  st : Stat
  request : HttpRequest
  response : HttpResponse
  count : Nat

namespace Fetch

def answer (e : Fetch) : HttpResponse :=
  applyHttpSemantics (fun _ => some e.st) e.request e.response

def arrived (content : Stat → Bytes) (e : Fetch) : Bytes :=
  (e.answer.selectedBody (content e.st)).take e.count

/-- The handler answers with the file, and size and time tell its content. -/
structure Plain (content : Stat → Bytes) (e : Fetch) : Prop where
  isFile : e.response.isFile = true
  status : e.response.status = .ok
  fits : e.st.Fits
  size : ((content e.st).length : Int) = e.st.size

end Fetch

/-- One request after the other. -/
def download (content : Stat → Bytes) (fetches : List Fetch) : Download :=
  fetches.foldl (fun d e => d.take e.answer (e.arrived content)) {}

/-! ## What an answer says of its body -/

/-- Every answer has the tag of the file. -/
theorem Fetch.etag_sent {content : Stat → Bytes} (e : Fetch) (he : e.Plain content) :
    e.answer.headers.lookup (lit "ETag") = some (makeEtag e.st) :=
  (looked_sent he.isFile rfl (by decide) (by decide)).trans
    ((header_lookup_ne _ _ (by decide)).trans (header_lookup _ _ _))

/-- The first number of a `Content-Range` is read back. -/
theorem contentRange_read {start : Int} (hstart : 0 ≤ start) (rest : Bytes) :
    decValue (((lit "bytes " ++ toStringInt start ++ lit "-" ++ rest).drop
      (lit "bytes ").length).takeWhile isdigit) = start.toNat := by
  rcases toString_spec start.natAbs with ⟨-, hdigits, hvalue⟩
  have htext : toStringInt start = toString_ start.natAbs := if_neg (Int.not_lt.2 hstart)
  have hdash : (lit "-" ++ rest).takeWhile isdigit = [] := rfl
  rw [List.append_assoc, List.append_assoc, List.drop_left, htext,
    List.takeWhile_append_of_pos hdigits, hdash, List.append_nil, hvalue]
  exact (Int.toNat_of_nonneg hstart ▸ rfl : start.natAbs = start.toNat)

/-- The body of a file response begins at its offset. -/
theorem selectedBody_part {res : HttpResponse} (hfile : res.isFile = true) (file : Bytes) :
    res.selectedBody file <+: file.drop res.fileOffset.toNat := by
  unfold HttpResponse.selectedBody
  by_cases hhead : res.headOnly = true
  · rw [if_pos hhead]
    exact List.nil_prefix
  rw [if_neg hhead, if_pos hfile]
  split
  · exact List.prefix_rfl
  · exact List.take_prefix _ _

/-- A 200 or 206 tells the offset of its file. -/
theorem Fetch.place_eq_offset {content : Stat → Bytes} (e : Fetch) (he : e.Plain content)
    {start : Nat} (hplace : e.answer.place = some start) :
    e.answer.fileOffset.toNat = start := by
  unfold answer at hplace ⊢
  rw [applyHttpSemantics_file he.isFile rfl] at hplace ⊢
  split at hplace
  · cases hplace
  next hcond =>
    rw [if_neg hcond]
    unfold HttpResponse.place at hplace
    rcases applyRange_outcome e.request e.response e.st with
      hwhole | hnone | ⟨first, last, hpos, -, -, hpart⟩
    · rw [hwhole.status, he.status, if_pos rfl] at hplace
      rw [hwhole.fileOffset]
      exact Option.some.inj hplace
    · rw [hnone.status] at hplace
      cases hplace
    · rw [hpart.status, if_neg (by decide), if_pos rfl, hpart.contentRange, Option.map_some,
        List.append_assoc (_ ++ lit "-"), List.append_assoc (_ ++ lit "-"),
        contentRange_read hpos] at hplace
      rw [hpart.fileOffset]
      exact Option.some.inj hplace

/-- What arrives of a body goes where it belongs. -/
theorem arrived_part {content : Stat → Bytes} {e : Fetch} (he : e.Plain content)
    {start : Nat} (hplace : e.answer.place = some start) :
    e.arrived content <+: (content e.st).drop start := by
  have hoffset := e.place_eq_offset he hplace
  have hfile : e.answer.isFile = true := (applyHttpSemantics_filePath _ _ _).1.trans he.isFile
  rw [← hoffset]
  exact (List.take_prefix _ _).trans (selectedBody_part hfile _)

/-! ## What the client has -/

/-- What is there is of one version, and the tag is of that version. -/
structure Download.Sound (content : Stat → Bytes) (fetches : List Fetch) (d : Download) :
    Prop where
  empty : d.tag = none → d.bytes = Pieces.nothing
  version : ∀ tag, d.tag = some tag →
    ∃ e ∈ fetches, tag = makeEtag e.st ∧ Pieces.Of (content e.st) d.bytes

/-- The tag tells the version. -/
theorem makeEtag_injective {st st' : Stat} (hst : st.Fits) (hst' : st'.Fits)
    (h : makeEtag st = makeEtag st') : st = st' := by
  rw [makeEtag_eq, makeEtag_eq] at h
  exact etagBody_injective hst hst' (List.append_cancel_right (List.cons.inj h).2)

/-- A further answer adds bytes of the file that its tag names. -/
theorem Download.Sound.take {content : Stat → Bytes} {fetches : List Fetch} {d : Download}
    (hd : d.Sound content fetches) (hplain : ∀ e ∈ fetches, e.Plain content) {e : Fetch}
    (he : e.Plain content) :
    (d.take e.answer (e.arrived content)).Sound content (fetches ++ [e]) := by
  have hkept : d.Sound content (fetches ++ [e]) := by
    constructor
    · exact hd.empty
    · intro tag htag
      rcases hd.version tag htag with ⟨e', he', hsame, hof⟩
      exact ⟨e', List.mem_append_left _ he', hsame, hof⟩
  have htag : e.answer.headers.lookup (lit "ETag") = some (makeEtag e.st) := e.etag_sent he
  unfold Download.take
  rw [htag]
  cases hplace : e.answer.place with
  | none => exact hkept
  | some start =>
      constructor
      · intro hnone
        cases hnone
      · intro tag hsome
        cases hsome
        refine ⟨e, List.mem_append_right _ List.mem_cons_self, rfl, ?_⟩
        apply Pieces.Of.write _ (arrived_part he hplace)
        split
        next hsame =>
          rcases hd.version _ hsame with ⟨e', he', hversion, hof⟩
          have hst := makeEtag_injective he.fits (hplain e' he').fits hversion
          rw [hst]
          exact hof
        · exact Pieces.of_nothing _

/-- **Run lemma.** So do any number of answers. -/
theorem download_sound {content : Stat → Bytes} (fetches : List Fetch)
    (hplain : ∀ e ∈ fetches, e.Plain content) :
    (download content fetches).Sound content fetches := by
  induction fetches using List.reverseRecOn with
  | nil =>
      constructor
      · intro _
        rfl
      · intro tag htag
        cases htag
  | append_singleton fetches e ih =>
      have hbefore : ∀ e' ∈ fetches, e'.Plain content :=
        fun e' he' => hplain e' (List.mem_append_left _ he')
      have he : e.Plain content := hplain e (List.mem_append_right _ List.mem_cons_self)
      unfold download
      rw [List.foldl_append]
      exact (ih hbefore).take hbefore he

/-! ## Asking for the rest -/

/-- A request for the bytes behind the first ones. -/
structure HttpRequest.AsksFrom (req : HttpRequest) (got : Nat) : Prop where
  method : req.method = .get
  ifNoneMatch : req.header (lit "If-None-Match") = none
  ifModifiedSince : req.header (lit "If-Modified-Since") = none
  range : ∃ spec, req.header (lit "Range") = some spec ∧
    spec.bytes = lit "bytes=" ++ toString_ got ++ lit "-"

/-- Its range, as a digit string. -/
def openRange (got : Nat) : RangeForm :=
  .fromByte ⟨toString_ got, (toString_spec got).1, List.all_eq_true.2 (toString_spec got).2.1⟩

/-- The range that such a request asks for. -/
theorem HttpRequest.AsksFrom.rangeAsked {req : HttpRequest} {got : Nat} (h : req.AsksFrom got) :
    req.rangeAsked = some (toString_ got, []) := by
  rcases h.range with ⟨spec, hspec, htext⟩
  have hform : spec.bytes = (openRange got).text := htext
  unfold HttpRequest.rangeAsked
  rw [hspec, Option.bind_some, hform, RangeForm.rangeSides_text]
  rfl

/-- It selects the rest of the file, if there is one. -/
theorem rangeBounds_from {size : Int} (hmax : size < 2 ^ 63) (got : Nat) :
    rangeBounds size (toString_ got, []) =
      if (got : Int) < size then some ((got : Int), size - 1) else none := by
  by_cases hpos : 1 ≤ size
  · have hread : (openRange got).Readable size := trivial
    have hselected := RangeForm.rangeBounds_readable hpos hmax hread
    unfold openRange RangeForm.selected DigitString.value at hselected
    dsimp only at hselected
    rw [(toString_spec got).2.2] at hselected
    exact hselected
  · rw [if_neg (by omega)]
    cases hsome : rangeBounds size (toString_ got, []) with
    | none => rfl
    | some bounds =>
        rcases bounds with ⟨start, stop⟩
        have hin := rangeBounds_bounds hsome
        omega

/-- It is answered by these bytes, or by a 416 when there are none. -/
theorem applyHttpSemantics_from {stat : Bytes → Option Stat} {req : HttpRequest}
    {res : HttpResponse} {st : Stat} {got : Nat} (hreq : req.AsksFrom got)
    (hfile : res.isFile = true) (hstat : stat res.filePath = some st) (hmax : st.size < 2 ^ 63) :
    applyHttpSemantics stat req res =
      if (got : Int) < st.size then partialContent (res.looked req st) st.size got (st.size - 1)
      else rangeNotSatisfiable (res.looked req st) st.size := by
  rw [applyHttpSemantics_file hfile hstat,
    notModified_unconditional st hreq.ifNoneMatch hreq.ifModifiedSince,
    if_neg fun h => Bool.noConfusion h.2, applyRange_eq, hreq.rangeAsked]
  dsimp only
  rw [rangeBounds_from hmax got]
  by_cases hin : (got : Int) < st.size
  · rw [if_pos hin, if_pos hin]
  · rw [if_neg hin, if_neg hin]

/-- What arrives then. -/
theorem Fetch.arrived_from {content : Stat → Bytes} (e : Fetch) (he : e.Plain content)
    {got : Nat} (hreq : e.request.AsksFrom got) (hhead : e.response.headOnly = false)
    (hin : got < (content e.st).length) :
    e.answer.place = some got ∧ e.arrived content = ((content e.st).drop got).take e.count := by
  have hsize := he.size
  have hanswer : e.answer =
      partialContent (e.response.looked e.request e.st) e.st.size got (e.st.size - 1) := by
    unfold answer
    rw [applyHttpSemantics_from hreq he.isFile rfl he.fits.size_lt, if_pos (by omega)]
  have hfile : e.answer.isFile = true := (applyHttpSemantics_filePath _ _ _).1.trans he.isFile
  have hpart := partialContent_serves (e.response.looked e.request e.st) e.st.size got
    (e.st.size - 1)
  have hbody : e.answer.headOnly = false := by
    have hget : e.request.method ≠ .head := by
      rw [hreq.method]
      nofun
    have hsame : e.answer.headOnly = (e.response.looked e.request e.st).headOnly := by
      rw [hanswer]
      rfl
    rw [hsame, looked_headOnly, hhead, decide_eq_false hget]
    rfl
  rw [← hanswer] at hpart
  constructor
  · have hplace : e.answer.place ≠ none := by
      unfold HttpResponse.place
      rw [hpart.status, if_neg (by decide), if_pos rfl, hpart.contentRange]
      nofun
    rcases Option.ne_none_iff_exists'.1 hplace with ⟨start, hstart⟩
    have hoffset := e.place_eq_offset he hstart
    rw [hpart.fileOffset] at hoffset
    rw [hstart, ← hoffset]
    rfl
  · unfold arrived HttpResponse.selectedBody
    have hlast : ((e.st.size - 1 : Int) - got + 1).toNat = (content e.st).length - got := by omega
    have hall : ((content e.st).drop got).take ((content e.st).length - got) =
        (content e.st).drop got := List.take_of_length_le (by rw [List.length_drop])
    rw [if_neg (by rw [hbody]; exact Bool.false_ne_true), if_pos hfile, hpart.fileLength,
      if_neg (by omega), hpart.fileOffset, hlast, Int.toNat_natCast, hall]

/-- **Downloads in pieces.** Whatever the requests were, however their answers were cut off and
however the file changed in between, what a client has is part of the version of the file its
tag is of. While the file stays that version, a request for the bytes behind the first `got`
ones adds what arrives of its answer; so it has the whole file once all of the rest arrives,
and keeps it when there is no rest. -/
theorem download_resumed {content : Stat → Bytes} {fetches : List Fetch}
    (hplain : ∀ e ∈ fetches, e.Plain content) :
    (download content fetches).Sound content fetches ∧
      ∀ (e : Fetch) (got : Nat), e.Plain content → e.request.AsksFrom got →
        e.response.headOnly = false →
        (download content fetches).tag = some (makeEtag e.st) →
        Pieces.Front (download content fetches).bytes got →
        (download content (fetches ++ [e])).tag = some (makeEtag e.st) ∧
          ∀ i < got + e.count,
            (download content (fetches ++ [e])).bytes i = (content e.st)[i]? := by
  have hsound := download_sound fetches hplain
  refine ⟨hsound, ?_⟩
  intro e got he hreq hhead htag hfront
  have hof : Pieces.Of (content e.st) (download content fetches).bytes := by
    rcases hsound.version _ htag with ⟨e', he', hversion, hof⟩
    rw [makeEtag_injective he.fits (hplain e' he').fits hversion]
    exact hof
  have hnext : download content (fetches ++ [e]) =
      (download content fetches).take e.answer (e.arrived content) := by
    unfold download
    rw [List.foldl_append]
    rfl
  rw [hnext]
  unfold Download.take
  rw [e.etag_sent he]
  by_cases hin : got < (content e.st).length
  · -- what arrives goes behind what there is
    rcases e.arrived_from he hreq hhead hin with ⟨hplace, harrived⟩
    rw [hplace, harrived]
    dsimp only
    rw [if_pos htag]
    refine ⟨rfl, fun i hi => hof.write_front hfront (List.take_prefix _ _) ?_⟩
    rw [List.length_take, List.length_drop]
    omega
  · -- a 416: there is nothing behind the bytes it has
    have hsize := he.size
    have hplace : e.answer.place = none := by
      unfold Fetch.answer
      rw [applyHttpSemantics_from hreq he.isFile rfl he.fits.size_lt, if_neg (by omega)]
      rfl
    rw [hplace]
    refine ⟨htag, fun i _ => hof.eq_of_front hfront ?_⟩
    omega

/-- A file of three bytes. -/
def smallFile : Stat → Bytes := fun _ => lit "abc"

/-- Its first byte arrives. -/
def cutAnswer : Fetch := ⟨⟨3, 0⟩, { method := .get }, filed .ok, 1⟩

/-- The client asks for the others. -/
def askedRest : Fetch := ⟨⟨3, 0⟩, oneField .get (lit "Range") (lit "bytes=1-"), filed .ok, 9⟩

/-- A small file, cut and then resumed. -/
theorem download_resumed_small :
    (download smallFile [cutAnswer, askedRest]).tag = some (makeEtag ⟨3, 0⟩) ∧
      ∀ i < 1 + 9, (download smallFile [cutAnswer, askedRest]).bytes i = (lit "abc")[i]? := by
  have hfits : Stat.Fits ⟨3, 0⟩ := by
    constructor <;> decide
  have hplain : ∀ e ∈ [cutAnswer], e.Plain smallFile := by
    intro e he
    cases List.mem_singleton.1 he
    exact ⟨rfl, rfl, hfits, rfl⟩
  have hasks : askedRest.request.AsksFrom 1 :=
    ⟨rfl, by decide, by decide, ⟨_, oneField_header _ _ _, by decide +kernel⟩⟩
  have hfront : Pieces.Front (download smallFile [cutAnswer]).bytes 1 := by
    unfold Pieces.Front
    decide +kernel
  exact (download_resumed hplain).2 askedRest 1 ⟨rfl, rfl, hfits, rfl⟩ hasks rfl
    (by decide +kernel) hfront

end Oreshnek
