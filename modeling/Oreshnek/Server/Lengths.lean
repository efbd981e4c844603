import Oreshnek.Net.Sending
import Oreshnek.Server.Worker

/-!
# The length of a response, declared and sent

A handler builds its response by calls (`BuilderCall`); `finishResponse` may compress it and
applies the semantics of the request; `set_response_content` installs it and `write_data`
sends it. `Content-Length` is written by the calls and by `finishResponse`, while the
number of body bytes that are sent is settled when the response is installed, by a second
and a third look at a file.

A `Draft` is what the calls say about the length. `self_delimiting_iff` tells from the
draft, the request and the answers of the file system exactly when the two agree.
-/

namespace Oreshnek

/-! ## The calls of a handler -/

inductive BuilderCall where
  | status (status : HttpStatus)
  | header (name value : Bytes)
  | body (content : Bytes)
  /-- With what `dump` makes of the value. -/
  | json (content : Bytes)
  | text (content : Bytes)
  | html (content : Bytes)
  /-- With what `file_size` answers then. -/
  | file (path contentType : Bytes) (fileSize : Option Nat)
deriving DecidableEq

def BuilderCall.apply (r : HttpResponse) : BuilderCall → HttpResponse
  | .status s => r.setStatus s
  | .header name value => r.header name value
  | .body content => r.body content
  | .json content => r.json content
  | .text content => r.text content
  | .html content => r.html content
  | .file path contentType fileSize => r.file path contentType fileSize

/-- The response that the calls leave. -/
def buildResponse (calls : List BuilderCall) : HttpResponse := calls.foldl BuilderCall.apply .new

/-- A call of `header` leaves `Content-Length` alone. -/
def BuilderCall.Ordinary : BuilderCall → Prop
  | .header name _ => name ≠ lit "Content-Length"
  | _ => True

/-! ## Drafts -/

inductive DraftBody where
  | unset
  | text (content : Bytes)
  | file (path : Bytes)
deriving DecidableEq

/-- The body, and the length recorded last: by a text, or by a file whose size is known. -/
structure Draft where
  body : DraftBody := .unset
  recorded : Option Nat := none
deriving DecidableEq

def Draft.note (d : Draft) : BuilderCall → Draft
  | .status _ | .header _ _ => d
  | .body content | .json content | .text content | .html content =>
      { body := .text content, recorded := some content.length }
  | .file path _ fileSize => { body := .file path, recorded := fileSize.or d.recorded }

def draft (calls : List BuilderCall) : Draft := calls.foldl Draft.note {}

/-- What the response has for the body of a draft. -/
def Draft.Shows (d : Draft) (r : HttpResponse) : Prop :=
  match d.body with
  | .unset => r.isFile = false ∧ r.bodyContent = .text [] ∧ d.recorded = none
  | .text content =>
      r.isFile = false ∧ r.bodyContent = .text content ∧ d.recorded = some content.length
  | .file path => r.isFile = true ∧ r.bodyContent = .filePath path

/-- A response is the one of a draft. -/
structure Drafts (d : Draft) (r : HttpResponse) : Prop where
  length : r.headers.lookup (lit "Content-Length") = d.recorded.map toString_
  shows : d.Shows r
  headOnly : r.headOnly = false
  fileOffset : r.fileOffset = 0
  fileLength : r.fileLength = -1

theorem header_lookup (r : HttpResponse) (name value : Bytes) :
    (r.header name value).headers.lookup name = some value := AList.lookup_insert _

theorem header_lookup_ne (r : HttpResponse) {name other : Bytes} (value : Bytes)
    (h : name ≠ other) :
    (r.header other value).headers.lookup name = r.headers.lookup name := AList.lookup_insert_ne h

theorem drafts_new : Drafts {} .new where
  length := by decide
  shows := ⟨rfl, rfl, rfl⟩
  headOnly := rfl
  fileOffset := rfl
  fileLength := rfl

/-- Headers other than `Content-Length` do not matter. -/
theorem Drafts.header {d : Draft} {r : HttpResponse} (h : Drafts d r) (name value : Bytes)
    (hname : name ≠ lit "Content-Length") : Drafts d (r.header name value) where
  length := (header_lookup_ne r value hname.symm).trans h.length
  shows := h.shows
  headOnly := h.headOnly
  fileOffset := h.fileOffset
  fileLength := h.fileLength

/-- A text sets the body and its length. -/
theorem Drafts.body {d : Draft} {r : HttpResponse} (h : Drafts d r) (content : Bytes) :
    Drafts { body := .text content, recorded := some content.length } (r.body content) where
  length := header_lookup _ _ _
  shows := ⟨rfl, rfl, rfl⟩
  headOnly := h.headOnly
  fileOffset := h.fileOffset
  fileLength := h.fileLength

/-- A file takes the place of the body, and its size, where it is given, that of the length. -/
theorem Drafts.file {d : Draft} {r : HttpResponse} (h : Drafts d r) (path contentType : Bytes)
    (fileSize : Option Nat) :
    Drafts { body := .file path, recorded := fileSize.or d.recorded }
      (r.file path contentType fileSize) := by
  have htyped : Drafts { body := .file path, recorded := d.recorded }
      ({ r with bodyContent := .filePath path, isFile := true }.header (lit "Content-Type")
        contentType) :=
    ⟨(header_lookup_ne _ _ (by decide)).trans h.length, ⟨rfl, rfl⟩, h.headOnly, h.fileOffset,
      h.fileLength⟩
  unfold HttpResponse.file
  cases fileSize with
  | none => exact htyped
  | some size =>
      exact ⟨header_lookup _ _ _, ⟨rfl, rfl⟩, htyped.headOnly, htyped.fileOffset,
        htyped.fileLength⟩

/-- A call of the builder is noted. -/
theorem Drafts.call {d : Draft} {r : HttpResponse} (h : Drafts d r) {call : BuilderCall}
    (hcall : call.Ordinary) : Drafts (d.note call) (call.apply r) := by
  cases call with
  | status status => exact ⟨h.length, h.shows, h.headOnly, h.fileOffset, h.fileLength⟩
  | header name value => exact h.header name value hcall
  | body content => exact h.body content
  | json content => exact (h.body content).header (lit "Content-Type") _ (by decide)
  | text content => exact (h.body content).header (lit "Content-Type") _ (by decide)
  | html content => exact (h.body content).header (lit "Content-Type") _ (by decide)
  | file path contentType fileSize => exact h.file path contentType fileSize

/-- So is any sequence of calls. -/
theorem drafts_foldl {calls : List BuilderCall} (hcalls : ∀ call ∈ calls, call.Ordinary)
    {d : Draft} {r : HttpResponse} (h : Drafts d r) :
    Drafts (calls.foldl Draft.note d) (calls.foldl BuilderCall.apply r) := by
  induction calls generalizing d r with
  | nil => exact h
  | cons call calls ih =>
      apply ih
      · exact fun other hother => hcalls other (List.mem_cons_of_mem _ hother)
      · exact h.call (hcalls call List.mem_cons_self)

/-- **The calls.** Whatever their order, the response is the one of their draft. -/
theorem buildResponse_drafts {calls : List BuilderCall} (hcalls : ∀ call ∈ calls, call.Ordinary) :
    Drafts (draft calls) (buildResponse calls) := drafts_foldl hcalls drafts_new

/-! ## Compression -/

/-- Compression makes another text of a text, with its length recorded. -/
theorem maybeCompress_drafts (z : Compressors) (req : HttpRequest) (minBytes : Nat)
    (allowBrotli : Bool) {d : Draft} {r : HttpResponse} (h : Drafts d r) :
    ∃ d', Drafts d' (maybeCompress z req r minBytes allowBrotli) ∧
      (d' = d ∨ ∃ content encoded, d.body = .text content ∧ d'.body = .text encoded) := by
  unfold maybeCompress
  split
  · exact ⟨d, h, Or.inl rfl⟩
  split
  · exact ⟨d, h, Or.inl rfl⟩
  next content hcontent =>
  split
  · exact ⟨d, h, Or.inl rfl⟩
  dsimp only
  split
  · exact ⟨d, h, Or.inl rfl⟩
  split
  · exact ⟨d, h, Or.inl rfl⟩
  split
  · exact ⟨d, h, Or.inl rfl⟩
  next coding encoded _ =>
  split
  · exact ⟨d, h, Or.inl rfl⟩
  next hgain =>
  -- a body that is made smaller is not empty, so a call has set it
  have hset : ∃ content, d.body = .text content := by
    have hshows := h.shows
    unfold Draft.Shows at hshows
    split at hshows
    · have hempty : content = [] := BodyContent.text.inj (hcontent.symm.trans hshows.2.1)
      rw [hempty, List.length_nil] at hgain
      exact absurd (Or.inr (Nat.zero_le _)) hgain
    next content' _ => exact ⟨content', by assumption⟩
    · have := hcontent.symm.trans hshows.2
      cases this
  obtain ⟨content', hbody⟩ := hset
  have hencoded := ((h.body encoded).header (lit "Content-Encoding") coding (by decide)).header
    (lit "Vary") (lit "Accept-Encoding") (by decide)
  exact ⟨_, hencoded, Or.inr ⟨content', encoded, hbody, rfl⟩⟩

/-! ## Semantics of the request -/

/-- The length `recorded` for a file is the one that is sent, where `stat` has told its size:
of the whole file, when that is what was recorded; of a range, when the file opens. -/
def rangeDelimited (recorded : Option Nat) (req : HttpRequest) (size : Int)
    (opened : Option (Option Int)) : Bool :=
  match (req.header (lit "Range")).bind fun spec => rangeSides spec.bytes with
  | none => decide (recorded = some (Connection.fileBytes opened 0 size))
  | some sides => (rangeBounds size sides).isNone || opened.isSome

/-- The declared length is the one that is sent, as far as the draft, the request, and the
answers of `stat` and `open` tell. -/
def Draft.delimited (d : Draft) (stat : Bytes → Option Stat) (req : HttpRequest)
    (opened : Option (Option Int)) : Bool :=
  match d.body with
  | .unset => false
  | .text _ => true
  | .file path =>
      match stat path with
      | none => decide (d.recorded = some (Connection.fileBytes opened 0 (-1)))
      | some st => rangeDelimited d.recorded req st.size opened

/-- The response declares as many body bytes as are to be sent when it is installed. -/
def Declares (c : Connection) (res : HttpResponse) (date : Bytes) (opened : Option (Option Int)) :
    Prop :=
  res.headers.lookup (lit "Content-Length") =
    some (toString_ (c.setResponseContent res date opened).bodyPending)

theorem map_toString_iff {o : Option Nat} {n : Nat} :
    o.map toString_ = some (toString_ n) ↔ o = some n := by
  constructor
  · intro h
    obtain ⟨m, hm, hsame⟩ := Option.map_eq_some_iff.1 h
    rw [hm, toString_injective hsame]
  · rintro rfl
    rfl

theorem toStringInt_toNat {n : Int} (h : 0 ≤ n) : toStringInt n = toString_ n.toNat := by
  have habs : n.natAbs = n.toNat := by omega
  unfold toStringInt
  rw [if_neg (Int.not_lt.2 h), habs]

/-- What is selected lies inside the file. -/
theorem rangeBounds_bounds {size : Int} {sides : Bytes × Bytes} {start stop : Int}
    (h : rangeBounds size sides = some (start, stop)) : 0 ≤ start ∧ start ≤ stop ∧ stop < size := by
  unfold rangeBounds at h
  dsimp only at h
  split at h
  · cases h
  next a b _ =>
  by_cases hsize : 0 < size
  · rw [if_pos hsize] at h
    by_cases hbad : a < 0 ∨ (if size ≤ b then size - 1 else b) < a
    · rw [if_pos hbad] at h
      cases h
    · rw [if_neg hbad] at h
      obtain ⟨rfl, rfl⟩ := Prod.mk.inj (Option.some.inj h)
      refine ⟨Int.not_lt.1 fun hlt => hbad (Or.inl hlt),
        Int.not_lt.1 fun hlt => hbad (Or.inr hlt), ?_⟩
      split
      · omega
      · omega
  · rw [if_neg hsize] at h
    cases h

section Declared

variable {d : Draft} {r : HttpResponse} {c : Connection} {date : Bytes}
  {opened : Option (Option Int)}

/-- Of a file as it is, the number of bytes is declared that was recorded. -/
theorem declares_file {res : HttpResponse}
    (hlength : res.headers.lookup (lit "Content-Length") = d.recorded.map toString_)
    (hhead : res.headOnly = false) (hfile : res.isFile = true) :
    Declares c res date opened ↔
      d.recorded = some (Connection.fileBytes opened res.fileOffset res.fileLength) := by
  unfold Declares
  rw [hlength, Connection.setResponseContent_file c date opened hhead hfile]
  exact map_toString_iff

/-- A text declares its length. -/
theorem declares_text {content : Bytes} (h : Drafts d r) (hbody : d.body = .text content) :
    Declares c r date opened := by
  have hshows := h.shows
  unfold Draft.Shows at hshows
  rw [hbody] at hshows
  obtain ⟨hfile, hcontent, hrecorded⟩ := hshows
  unfold Declares
  rw [h.length, hrecorded,
    Connection.setResponseContent_text c date opened h.headOnly hfile hcontent]
  rfl

/-- A response without a body declares no length. -/
theorem not_declares_unset (h : Drafts d r) (hbody : d.body = .unset) :
    ¬ Declares c r date opened := by
  have hshows := h.shows
  unfold Draft.Shows at hshows
  rw [hbody] at hshows
  unfold Declares
  rw [h.length, hshows.2.2]
  nofun

/-- A 416 declares its length. -/
theorem declares_unsatisfiable (res : HttpResponse) (size : Int) :
    Declares c (rangeNotSatisfiable res size) date opened := by
  unfold Declares
  have hzero : lit "0" = toString_ 0 := by
    rw [toString_small (by decide)]
    decide
  rw [Connection.setResponseContent_head c date opened rfl, ← hzero]
  exact header_lookup _ _ _

/-- A part of a file is sent when the file opens. -/
theorem declares_partial {res : HttpResponse} (hhead : res.headOnly = false)
    (hfile : res.isFile = true) (size : Int) {start stop : Int} (hle : start ≤ stop) :
    Declares c (partialContent res size start stop) date opened ↔ opened.isSome = true := by
  have hlength : (partialContent res size start stop).headers.lookup (lit "Content-Length") =
      some (toString_ (stop - start + 1).toNat) := by
    rw [← toStringInt_toNat (by omega)]
    exact header_lookup _ _ _
  have hpending : (c.setResponseContent (partialContent res size start stop) date
      opened).bodyPending = Connection.fileBytes opened start (stop - start + 1) :=
    Connection.setResponseContent_file c date opened hhead hfile
  unfold Declares
  rw [hlength, hpending]
  unfold Connection.fileBytes
  cases opened with
  | none =>
      constructor
      · intro h
        have := toString_injective (Option.some.inj h)
        change (stop - start + 1).toNat = 0 at this
        omega
      · nofun
  | some size =>
      dsimp only
      rw [if_neg (by omega)]
      exact ⟨fun _ => rfl, fun _ => rfl⟩

/-- The part of the semantics that looks at `Range`. -/
theorem applyRange_declares {req : HttpRequest} {res : HttpResponse} {size : Int}
    (hlength : res.headers.lookup (lit "Content-Length") = d.recorded.map toString_)
    (hhead : res.headOnly = false) (hfile : res.isFile = true) :
    Declares c (applyRange req res size) date opened ↔
      rangeDelimited d.recorded req size opened = true := by
  have hrecorded : Declares c (res.setFileRange 0 size) date opened ↔
      d.recorded = some (Connection.fileBytes opened 0 size) :=
    declares_file hlength hhead hfile
  have hwhole := hrecorded.trans decide_eq_true_iff.symm
  unfold applyRange rangeDelimited
  cases hrange : req.header (lit "Range") with
  | none => exact hwhole
  | some spec =>
      rw [Option.bind_some]
      dsimp only
      cases rangeSides spec.bytes with
      | none => exact hwhole
      | some sides =>
          dsimp only
          cases hbounds : rangeBounds size sides with
          | none => exact iff_of_true (declares_unsatisfiable res size) rfl
          | some bounds =>
              obtain ⟨start, stop⟩ := bounds
              dsimp only
              rw [Option.isNone_some, Bool.false_or]
              exact declares_partial hhead hfile size (rangeBounds_bounds hbounds).2.1

/-- The semantics of a request that is not HEAD, when they do not end in a 304. -/
theorem applyHttpSemantics_declares (h : Drafts d r) {stat : Bytes → Option Stat}
    {req : HttpRequest} (hmethod : req.method ≠ .head)
    (hstatus : (applyHttpSemantics stat req r).status ≠ .notModified) :
    Declares c (applyHttpSemantics stat req r) date opened ↔
      d.delimited stat req opened = true := by
  have hshows := h.shows
  unfold Draft.Shows at hshows
  unfold Draft.delimited
  unfold applyHttpSemantics at hstatus ⊢
  rw [if_neg hmethod] at hstatus ⊢
  cases hbody : d.body with
  | unset =>
      rw [hbody] at hshows
      rw [if_pos (by rw [hshows.1]; nofun)]
      exact iff_of_false (not_declares_unset h hbody) Bool.false_ne_true
  | text content =>
      rw [hbody] at hshows
      rw [if_pos (by rw [hshows.1]; nofun)]
      exact iff_of_true (declares_text h hbody) rfl
  | file path =>
      rw [hbody] at hshows
      obtain ⟨hfile, hcontent⟩ := hshows
      have hpath : r.filePath = path := by
        unfold HttpResponse.filePath
        rw [hfile, hcontent]
      rw [if_neg (not_not.2 hfile), hpath] at hstatus ⊢
      dsimp only
      cases hstat : stat path with
      | none =>
          -- a file that is not there keeps the length the draft gave it
          have hwhole : Declares c r date opened ↔
              d.recorded = some (Connection.fileBytes opened r.fileOffset r.fileLength) :=
            declares_file h.length h.headOnly hfile
          rw [h.fileOffset, h.fileLength] at hwhole
          exact hwhole.trans decide_eq_true_iff.symm
      | some st =>
          rw [hstat] at hstatus
          dsimp only at hstatus ⊢
          split at hstatus
          · exact absurd rfl hstatus
          next hmodified =>
          rw [if_neg hmodified]
          -- the three headers added here are not `Content-Length`
          have hnamed := ((h.header (lit "Accept-Ranges") (lit "bytes") (by decide)).header
            (lit "ETag") (makeEtag st) (by decide)).header (lit "Last-Modified")
              (httpDate st.mtime) (by decide)
          exact applyRange_declares hnamed.length hnamed.headOnly hfile

end Declared

/-! ## Sent -/

/-- Whenever the response installed in `c` has been sent in full, its header block has a
`Content-Length`, which is the number of the body bytes that were sent. -/
def SelfDelimiting (c : Connection) (res : HttpResponse) (date : Bytes) : Prop :=
  ∀ calls, (c.writeAll calls).conn.hasDataToWrite = false →
    (c.writeAll calls).head = res.buildHeadersString date ∧
      res.headers.lookup (lit "Content-Length") =
        some (toString_ (c.writeAll calls).body.length)

/-- A response tells its length exactly when it declares it. -/
theorem selfDelimiting_iff_declares {c : Connection} (hopen : c.isOpen = true)
    (res : HttpResponse) (date : Bytes) (opened : Option (Option Int)) :
    SelfDelimiting (c.setResponseContent res date opened) res date ↔
      Declares c res date opened := by
  constructor
  · intro h
    obtain ⟨calls, hfinished⟩ := Connection.setResponseContent_finishes hopen res date opened
    have hlength := (h calls hfinished).2
    rw [(Connection.writeAll_sent hfinished).2] at hlength
    exact hlength
  · intro h calls hfinished
    obtain ⟨hhead, hbody⟩ := Connection.writeAll_sent hfinished
    rw [hbody]
    exact ⟨hhead.trans (Connection.setResponseContent_raw c res date opened), h⟩

/-- A response that a handler has built delimits itself exactly in the cases that its draft,
the request and the answers of the file system tell. -/
theorem self_delimiting_iff {H : Type} (env : TaskEnv H) {req : HttpRequest}
    {calls : List BuilderCall} (hcalls : ∀ call ∈ calls, call.Ordinary)
    (hmethod : req.method ≠ .head)
    (hstatus : (finishResponse env req (buildResponse calls)).status ≠ .notModified)
    {c : Connection} (hopen : c.isOpen = true) (date : Bytes) (opened : Option (Option Int)) :
    SelfDelimiting (c.setResponseContent (finishResponse env req (buildResponse calls)) date opened)
        (finishResponse env req (buildResponse calls)) date ↔
      (draft calls).delimited env.stat req opened = true := by
  rw [selfDelimiting_iff_declares hopen]
  have hbuild := buildResponse_drafts hcalls
  unfold finishResponse at hstatus ⊢
  dsimp only at hstatus ⊢
  by_cases hcompress : env.compressionEnabled = true
  · rw [if_pos hcompress] at hstatus ⊢
    obtain ⟨d, hd, hsame⟩ := maybeCompress_drafts env.compressors req env.compressionMinBytes
      env.compressionBrotli hbuild
    rw [applyHttpSemantics_declares hd hmethod hstatus]
    rcases hsame with rfl | ⟨content, encoded, hcontent, hencoded⟩
    · exact Iff.rfl
    · -- both are texts
      unfold Draft.delimited
      rw [hcontent, hencoded]
  · rw [if_neg hcompress] at hstatus ⊢
    exact applyHttpSemantics_declares hbuild hmethod hstatus

/-- A server with one file of five bytes. -/
def oneFile : TaskEnv Unit where
  middlewares := []
  handlers := fun _ _ res => .returned () res
  stat := fun path => if path = lit "/srv/a" then some ⟨5, 0⟩ else none
  compressors := ⟨fun _ => [], fun _ => []⟩
  compressionEnabled := true
  compressionMinBytes := 256
  compressionBrotli := false

/-- A server with one file. -/
theorem self_delimiting_iff_file :
    SelfDelimiting ((Connection.new 4 0).setResponseContent
        (finishResponse oneFile { method := .get }
          (buildResponse [.text (lit "?"), .file (lit "/srv/a") (lit "text/plain") (some 5)])) []
        (some (some 5)))
      (finishResponse oneFile { method := .get }
        (buildResponse [.text (lit "?"), .file (lit "/srv/a") (lit "text/plain") (some 5)])) [] :=
  (self_delimiting_iff oneFile (by simp [BuilderCall.Ordinary]) (by decide) (by decide) rfl []
    (some (some 5))).2 (by decide)

/-- A handler only sets a status: the response has no `Content-Length`. -/
theorem status_only_undelimited :
    ¬ ∀ (env : TaskEnv Unit) (req : HttpRequest) (calls : List BuilderCall) (c : Connection)
        (date : Bytes) (opened : Option (Option Int)),
      (∀ call ∈ calls, call.Ordinary) → req.method ≠ .head →
      (finishResponse env req (buildResponse calls)).status ≠ .noContent →
      (finishResponse env req (buildResponse calls)).status ≠ .notModified → c.isOpen = true →
      SelfDelimiting
        (c.setResponseContent (finishResponse env req (buildResponse calls)) date opened)
        (finishResponse env req (buildResponse calls)) date := by
  intro h
  have hsent := h oneFile { method := .get } [.status .created] (Connection.new 4 0) [] none
    (by simp [BuilderCall.Ordinary]) (by decide) (by decide) (by decide) rfl
  rw [selfDelimiting_iff_declares rfl] at hsent
  have hnone : (finishResponse oneFile { method := .get }
      (buildResponse [.status .created])).headers.lookup (lit "Content-Length") = none := by
    decide
  unfold Declares at hsent
  rw [hnone] at hsent
  cases hsent

end Oreshnek
