import Oreshnek.Http.HeaderText
import Oreshnek.Lib.Frames
import Oreshnek.Server.Persistence
import Oreshnek.Server.Stream

/-!
# What the client makes of the responses

A client reads the responses one after the other, knowing the methods of its requests: a head
up to its blank line, then as many bytes as `Content-Length` says, none behind an answer to
HEAD or one of the codes that have no body. It passes over an interim response in front of a
response. If every response tells its own length (`Framed`), the client reads exactly the
responses to its first requests, each with the status line, the headers and the body it was
produced with, behind them at most the notice of a timeout, and takes no part of a response for
a whole one (`stream_read`).
-/

namespace Oreshnek

/-! ## The reader -/

/-- A response as the client has read it. -/
structure Received where
  status : Bytes
  fields : List (Bytes × Bytes)
  body : Bytes
deriving DecidableEq

/-- No body follows such a head. -/
def bodiless (method : HttpMethod) (code : Nat) : Bool :=
  method = .head || code / 100 = 1 || code = 204 || code = 304

/-- The code in a status line. -/
def statusCode (line : Bytes) : Nat :=
  decValue ((line.drop (lit "HTTP/1.1 ").length).takeWhile isdigit)

/-- Field names are compared without case. -/
def named (name : Bytes) (f : Bytes × Bytes) : Bool := f.1.map tolower = name

theorem named_length (value : Bytes) :
    named (lit "content-length") (lit "Content-Length", value) = true := by
  have hlower : (lit "Content-Length").map tolower = lit "content-length" := by decide
  exact decide_eq_true hlower

/-- The length of the body, if the head tells it. -/
def bodyLength (method : HttpMethod) (line : Bytes) (fields : List (Bytes × Bytes)) : Option Nat :=
  if bodiless method (statusCode line) then some 0
  else if fields.any (named (lit "transfer-encoding")) then none
  else (fields.find? (named (lit "content-length"))).map fun f => decValue f.2

/-- The answer to a request with this method, and what follows it. -/
def readResponse (method : HttpMethod) (b : Bytes) : Option (Received × Bytes) :=
  match headLines b with
  | (line :: lines, some rest) =>
      let fields := lines.filterMap splitField
      match bodyLength method line fields with
      | none => none
      | some n =>
          if rest.length < n then none else some (⟨line, fields, rest.take n⟩, rest.drop n)
  | _ => none

/-- A head that has come in whole does not change with more bytes behind it. -/
theorem headLines_append {b rest : Bytes} {ls : List Bytes} (h : headLines b = (ls, some rest))
    (q : Bytes) : headLines (b ++ q) = (ls, some (rest ++ q)) := by
  rcases lines_of_headLines h with ⟨hplain, hb⟩
  have hall := headLines_lines hplain (rest ++ q)
  rw [hb]
  simp only [List.append_assoc] at hall ⊢
  exact hall

/-- A head that has arrived. -/
theorem readResponse_head {b line rest : Bytes} {lines : List Bytes}
    (h : headLines b = (line :: lines, some rest)) (method : HttpMethod) :
    readResponse method b =
      (bodyLength method line (lines.filterMap splitField)).bind fun n =>
        if rest.length < n then none
        else some (⟨line, lines.filterMap splitField, rest.take n⟩, rest.drop n) := by
  unfold readResponse
  rw [h]
  dsimp only
  cases bodyLength method line (lines.filterMap splitField) with
  | none => rfl
  | some n => rfl

theorem readResponse_empty (method : HttpMethod) : readResponse method [] = none := by
  unfold readResponse
  rw [headLines_more (by decide)]

/-- A response is read alike whatever follows it. -/
theorem readResponse_local (method : HttpMethod) : Frames.Local (readResponse method) := by
  intro p r rest h q
  have hparts : ∃ line lines behind, headLines p = (line :: lines, some behind) := by
    unfold readResponse at h
    split at h
    next line lines behind hlines => exact ⟨line, lines, behind, hlines⟩
    next => cases h
  rcases hparts with ⟨line, lines, behind, hlines⟩
  rw [readResponse_head hlines] at h
  rw [readResponse_head (headLines_append hlines q)]
  rcases Option.bind_eq_some_iff.1 h with ⟨n, hn, hread⟩
  rw [hn, Option.bind_some]
  by_cases hshort : behind.length < n
  · rw [if_pos hshort] at hread
    cases hread
  rw [if_neg hshort] at hread
  have hlong : ¬ (behind ++ q).length < n := by
    rw [List.length_append]
    omega
  rw [if_neg hlong, List.take_append_of_le_length (Nat.not_lt.1 hshort),
    List.drop_append_of_le_length (Nat.not_lt.1 hshort)]
  cases hread
  rfl

/-- The answer to a request with this method, behind an interim response if there is one. -/
def readFinal (method : HttpMethod) (b : Bytes) : Option (Received × Bytes) :=
  match readResponse method b with
  | none => none
  | some (r, rest) =>
      if statusCode r.status / 100 = 1 then readResponse method rest else some (r, rest)

theorem readFinal_none {method : HttpMethod} {b : Bytes} (h : readResponse method b = none) :
    readFinal method b = none := by
  unfold readFinal
  rw [h]

/-- A response that is not an interim one. -/
theorem readFinal_final {method : HttpMethod} {b rest : Bytes} {r : Received}
    (h : readResponse method b = some (r, rest)) (hfinal : statusCode r.status / 100 ≠ 1) :
    readFinal method b = some (r, rest) := by
  unfold readFinal
  rw [h]
  exact if_neg hfinal

theorem readFinal_over {method : HttpMethod} {b rest : Bytes} {r : Received}
    (h : readResponse method b = some (r, rest)) (hinterim : statusCode r.status / 100 = 1) :
    readFinal method b = readResponse method rest := by
  unfold readFinal
  rw [h]
  exact if_pos hinterim

/-- The reader looks at nothing behind the response. -/
theorem readFinal_local (method : HttpMethod) : Frames.Local (readFinal method) := by
  intro p b rest h q
  cases hread : readResponse method p with
  | none =>
      rw [readFinal_none hread] at h
      cases h
  | some first =>
      rcases first with ⟨r, behind⟩
      have hlonger := readResponse_local method p r behind hread q
      by_cases hinterim : statusCode r.status / 100 = 1
      · rw [readFinal_over hread hinterim] at h
        rw [readFinal_over hlonger hinterim]
        exact readResponse_local method behind b rest h q
      · rw [readFinal_final hread hinterim] at h
        cases h
        exact readFinal_final hlonger hinterim

/-- A head without a body. -/
theorem readResponse_lines {method : HttpMethod} {line : Bytes} {lines : List Bytes}
    (hplain : Plain (line :: lines))
    (hnone : bodyLength method line (lines.filterMap splitField) = some 0) (q : Bytes) :
    readResponse method ((((line :: lines).flatMap fun l => l ++ crlf) ++ crlf) ++ q) =
      some (⟨line, lines.filterMap splitField, []⟩, q) := by
  rw [List.append_assoc, readResponse_head (headLines_lines hplain q), hnone]
  rfl

/-- The client passes over the interim response. -/
theorem readFinal_kContinue (method : HttpMethod) (q : Bytes) :
    readFinal method (Session.kContinue ++ q) = readResponse method q := by
  have hplain : Plain [lit "HTTP/1.1 100 Continue"] := by
    intro l hl
    rw [List.mem_singleton.1 hl]
    exact ⟨by decide, by decide +kernel⟩
  have hcode : statusCode (lit "HTTP/1.1 100 Continue") = 100 := by decide +kernel
  have hnone : bodyLength method (lit "HTTP/1.1 100 Continue") [] = some 0 := by
    have hinterim : bodiless method 100 = true := by simp [bodiless]
    unfold bodyLength
    rw [hcode, if_pos hinterim]
  refine readFinal_over (readResponse_lines hplain hnone q) ?_
  show statusCode (lit "HTTP/1.1 100 Continue") / 100 = 1
  rw [hcode]

theorem readFinal_kContinue_alone (method : HttpMethod) :
    readFinal method Session.kContinue = none := by
  have hover := readFinal_kContinue method []
  rw [List.append_nil] at hover
  rw [hover, readResponse_empty]

/-! ## Notices -/

/-- The status line of a notice. -/
def noticeLine : CloseReason → Bytes
  | .handlerTimeout => lit "HTTP/1.1 504 Gateway Timeout"
  | _ => lit "HTTP/1.1 408 Request Timeout"

/-- What the client makes of a notice. -/
def noticeRead (reason : CloseReason) : Received where
  status := noticeLine reason
  fields := [(lit "Connection", lit "close"), (lit "Content-Length", lit "0")]
  body := []

theorem notice_reason {reason : CloseReason} (h : Session.notice reason ≠ []) :
    reason = .readTimeout ∨ reason = .handlerTimeout := by
  cases reason with
  | readTimeout => exact .inl rfl
  | handlerTimeout => exact .inr rfl
  | _ => exact absurd rfl h

/-- **The round trip of a notice**, whatever the request was. -/
theorem readFinal_notice {reason : CloseReason} (h : Session.notice reason ≠ [])
    (method : HttpMethod) (q : Bytes) :
    readResponse method (Session.notice reason ++ q) = some (noticeRead reason, q) ∧
      statusCode (noticeRead reason).status / 100 ≠ 1 := by
  have hplain : Plain [noticeLine reason, lit "Connection: close", lit "Content-Length: 0"] := by
    intro l hl
    rcases notice_reason h with rfl | rfl
    all_goals
      simp only [List.mem_cons, List.not_mem_nil, or_false] at hl
      rcases hl with rfl | rfl | rfl
      all_goals exact ⟨by decide, by decide +kernel⟩
  have hnone : bodyLength method (noticeLine reason)
      ([lit "Connection: close", lit "Content-Length: 0"].filterMap splitField) = some 0 := by
    rcases notice_reason h with rfl | rfl
    all_goals
      cases method
      all_goals decide +kernel
  have hread := readResponse_lines hplain hnone q
  rcases notice_reason h with rfl | rfl
  · exact ⟨hread, by decide +kernel⟩
  · exact ⟨hread, by decide +kernel⟩

/-! ## Responses that tell their length -/

/-- The head of a response can be read, and tells the length of its body; it is not that of an
interim response. -/
structure Framed (files : Files) (method : HttpMethod) (res : HttpResponse) : Prop where
  final : res.status.code / 100 ≠ 1
  names : ∀ e ∈ res.headers.entries, e.1 ≠ [] ∧ e.1.all tokenChar = true
  values : ∀ e ∈ res.headers.entries, ¬ crlf <:+: e.2
  /-- No other spelling of `Content-Length`, and no `Transfer-Encoding`. -/
  spelling : ∀ e ∈ res.headers.entries,
    (e.1.map tolower = lit "content-length" → e.1 = lit "Content-Length") ∧
      e.1.map tolower ≠ lit "transfer-encoding"
  body : if bodiless method res.status.code = true then res.selectedBody (res.fileOn files) = []
    else (res.headers.lookup (lit "Content-Length")).map decValue =
      some (res.selectedBody (res.fileOn files)).length

instance (files : Files) (method : HttpMethod) (res : HttpResponse) :
    Decidable (Framed files method res) :=
  decidable_of_iff (res.status.code / 100 ≠ 1 ∧
      (∀ e ∈ res.headers.entries, e.1 ≠ [] ∧ e.1.all tokenChar = true) ∧
      (∀ e ∈ res.headers.entries, ¬ crlf <:+: e.2) ∧
      (∀ e ∈ res.headers.entries,
        (e.1.map tolower = lit "content-length" → e.1 = lit "Content-Length") ∧
          e.1.map tolower ≠ lit "transfer-encoding") ∧
      if bodiless method res.status.code = true then res.selectedBody (res.fileOn files) = []
      else (res.headers.lookup (lit "Content-Length")).map decValue =
        some (res.selectedBody (res.fileOn files)).length)
    ⟨fun h => ⟨h.1, h.2.1, h.2.2.1, h.2.2.2.1, h.2.2.2.2⟩,
      fun h => ⟨h.final, h.names, h.values, h.spelling, h.body⟩⟩

/-- A response as the client should read it. -/
def HttpResponse.received (res : HttpResponse) (date : Bytes) (files : Files) : Received where
  status := statusLine res
  fields := (lit "Date", date) :: headerFields res
  body := res.selectedBody (res.fileOn files)

/-- The lines of a header block behind the status line. -/
def fieldLines (res : HttpResponse) (date : Bytes) : List Bytes :=
  fieldText (lit "Date") date :: res.headers.entries.map fun e => fieldText e.1 e.2

/-- A response on the wire is its lines, an empty line and its body. -/
theorem onWire_lines (res : HttpResponse) (date : Bytes) (files : Files) (q : Bytes) :
    res.onWire date files ++ q =
      ((statusLine res :: fieldLines res date).flatMap fun l => l ++ crlf) ++
        (crlf ++ (res.selectedBody (res.fileOn files) ++ q)) := by
  have hdate : lit "Date: " = lit "Date" ++ lit ": " := by decide
  unfold HttpResponse.onWire HttpResponse.buildHeadersString fieldLines statusLine
  rw [hdate, List.flatMap_cons, List.flatMap_cons, List.flatMap_map]
  unfold fieldText
  simp only [List.append_assoc]

/-- The code reads back from the status line. -/
theorem statusCode_statusLine (res : HttpResponse) :
    statusCode (statusLine res) = res.status.code := by
  rcases toString_spec res.status.code with ⟨-, hdigits, hvalue⟩
  have hspace : (lit " " ++ res.status.toBytes).takeWhile isdigit = [] := rfl
  unfold statusCode statusLine
  rw [List.append_assoc, List.append_assoc, List.drop_left,
    List.takeWhile_append_of_pos hdigits, hspace, List.append_nil, hvalue]

namespace Framed

variable {files : Files} {method : HttpMethod} {res : HttpResponse}

theorem token (h : Framed files method res) {e : Sigma fun _ : Bytes => Bytes}
    (he : e ∈ res.headers.entries) : Token e.1 := ⟨(h.names e he).1, (h.names e he).2⟩

/-- The lines of a response have no line end in them. -/
theorem plain (h : Framed files method res) (t : Int) :
    Plain (statusLine res :: fieldLines res (httpDate t)) := by
  intro l hl
  rcases List.mem_cons.1 hl with rfl | hl
  · exact ⟨by simp [statusLine, lit], statusLine_no_crlf res⟩
  rcases List.mem_cons.1 hl with rfl | hl
  · exact ⟨fieldText_ne_nil _ _,
      fieldText_no_crlf ⟨by decide, by decide⟩ (httpDate_no_crlf t)⟩
  · rcases List.mem_map.1 hl with ⟨e, he, rfl⟩
    exact ⟨fieldText_ne_nil _ _, fieldText_no_crlf (h.token he) (h.values e he)⟩

/-- The header lines split into the fields of the response. -/
theorem fields (h : Framed files method res) (date : Bytes) :
    (fieldLines res date).filterMap splitField = (lit "Date", date) :: headerFields res := by
  have hentry : ∀ e ∈ res.headers.entries, splitField (fieldText e.1 e.2) = some (e.1, e.2) :=
    fun e he => splitField_field e.2 ((h.token he).not_mem (by decide))
  have hdate : splitField (fieldText (lit "Date") date) = some (lit "Date", date) :=
    splitField_field date (by decide)
  unfold fieldLines headerFields
  rw [List.filterMap_cons_some hdate, List.filterMap_map, ← List.filterMap_eq_map]
  exact congrArg _ (List.filterMap_congr hentry)

/-- The client finds the one `Content-Length`. -/
theorem find_length (h : Framed files method res) :
    (headerFields res).find? (named (lit "content-length")) =
      (res.headers.lookup (lit "Content-Length")).map fun v => (lit "Content-Length", v) := by
  have hspelling := h.spelling
  unfold headerFields AList.lookup
  generalize res.headers.entries = es at hspelling
  induction es with
  | nil => rfl
  | cons e es ih =>
      have hothers := ih fun e' he' => hspelling e' (List.mem_cons_of_mem _ he')
      have hfirst := (hspelling e List.mem_cons_self).1
      rcases e with ⟨name, value⟩
      rw [List.map_cons, List.find?_cons]
      by_cases hname : name = lit "Content-Length"
      · subst hname
        rw [named_length, List.dlookup_cons_eq]
        rfl
      · have hother : named (lit "content-length") (name, value) = false :=
          decide_eq_false fun hlower => hname (hfirst hlower)
        rw [hother, List.dlookup_cons_ne _ _ (Ne.symm hname)]
        exact hothers

/-- The client reads the length that the response has. -/
theorem length (h : Framed files method res) (date : Bytes) :
    bodyLength method (statusLine res) ((lit "Date", date) :: headerFields res) =
      some (res.selectedBody (res.fileOn files)).length := by
  have hbody := h.body
  unfold bodyLength
  rw [statusCode_statusLine]
  by_cases hnone : bodiless method res.status.code = true
  · rw [if_pos hnone] at hbody ⊢
    rw [hbody]
    rfl
  rw [if_neg hnone] at hbody ⊢
  have hcoding : ((lit "Date", date) :: headerFields res).any
      (named (lit "transfer-encoding")) = false := by
    rw [List.any_eq_false]
    intro f hf
    rcases List.mem_cons.1 hf with rfl | hf
    · show ¬ decide ((lit "Date").map tolower = lit "transfer-encoding") = true
      decide
    · rcases List.mem_map.1 hf with ⟨e, he, rfl⟩
      unfold named
      simpa using (h.spelling e he).2
  have hdate : named (lit "content-length") (lit "Date", date) = false := by
    show decide ((lit "Date").map tolower = lit "content-length") = false
    decide
  rw [hcoding, if_neg Bool.false_ne_true, List.find?_cons, hdate]
  dsimp only
  rw [h.find_length, Option.map_map]
  exact hbody

/-- **The round trip of a response.** -/
theorem read (h : Framed files method res) (t : Int) (q : Bytes) :
    readResponse method (res.onWire (httpDate t) files ++ q) =
      some (res.received (httpDate t) files, q) := by
  have hhead := headLines_lines (h.plain t) (res.selectedBody (res.fileOn files) ++ q)
  rw [onWire_lines, readResponse_head hhead, h.fields, h.length, Option.bind_some,
    if_neg (by rw [List.length_append]; omega), List.take_left, List.drop_left]
  rfl

end Framed

namespace Server

open WireRequest

variable {H : Type} {cfg : Config H}

/-- What the client should read in an exchange. -/
def Exchange.received (e : Exchange) (files : Files) : Received := e.response.received e.date files

/-- The dates that `http_date` writes. -/
def HttpDated (date : Bytes) : Prop := ∃ t, date = httpDate t

/-- A frame of what the client reads. -/
structure Answer where
  method : HttpMethod
  text : Bytes
  received : Received

def Exchange.answer (e : Exchange) (files : Files) : Answer where
  method := e.request.method
  text := e.onWire files
  received := e.received files

/-- An answer that is read as such, with or without an interim response in front of it. -/
def Answer.Readable (a : Answer) : Prop :=
  ∀ q, readResponse a.method (a.text ++ q) = some (a.received, q) ∧
    statusCode a.received.status / 100 ≠ 1

theorem answers_written {as : List Answer} (h : ∀ a ∈ as, a.Readable) :
    Frames.Written readFinal Answer.method Answer.text Answer.received as where
  reads a ha q := readFinal_final (h a ha q).1 (h a ha q).2
  isLocal a _ := readFinal_local a.method
  empty method := readFinal_none (readResponse_empty method)

/-- Each answer reads back with an interim response in front of it. -/
theorem answers_written_over {as : List Answer} (h : ∀ a ∈ as, a.Readable) :
    Frames.Written readFinal Answer.method (fun a => Session.kContinue ++ a.text)
      Answer.received as where
  reads a ha q := by
    rw [List.append_assoc, readFinal_kContinue]
    exact (h a ha q).1
  isLocal a _ := readFinal_local a.method
  empty method := readFinal_none (readResponse_empty method)

/-- A response that tells its length can be read. -/
theorem Exchange.answer_readable {files : Files} {e : Exchange} (hdate : HttpDated e.date)
    (hframed : Framed files e.request.method e.response) : (e.answer files).Readable := by
  intro q
  rcases hdate with ⟨t, ht⟩
  have hread := hframed.read t q
  rw [← ht] at hread
  refine ⟨hread, ?_⟩
  show statusCode (statusLine e.response) / 100 ≠ 1
  rw [statusCode_statusLine]
  exact hframed.final

/-- An interim response is taken whole, or not at all. -/
def Whole (part : Bytes) : Prop := part = [] ∨ part = Session.kContinue

instance (part : Bytes) : Decidable (Whole part) :=
  inferInstanceAs (Decidable (part = [] ∨ part = Session.kContinue))

/-- The answers that a connection has got, and the notice that may come next. -/
def answers (files : Files) (es : List Exchange) (method : HttpMethod) (reason : CloseReason) :
    List Answer :=
  es.map (·.answer files) ++ [⟨method, Session.notice reason, noticeRead reason⟩]

/-- The text of all answers, the notice behind them. -/
theorem answers_text (files : Files) (es : List Exchange) (method : HttpMethod)
    (reason : CloseReason) :
    (answers files es method reason).flatMap Answer.text =
      es.flatMap (·.onWire files) ++ Session.notice reason := by
  unfold answers
  rw [List.flatMap_append, List.flatMap_singleton, List.flatMap_map]
  rfl

theorem answers_take (files : Files) {es : List Exchange} (method : HttpMethod)
    (reason : CloseReason) {k : Nat} (hk : k ≤ es.length) :
    (answers files es method reason).take k = (es.take k).map (·.answer files) := by
  unfold answers
  rw [List.take_append_of_le_length (by rwa [List.length_map]), ← List.map_take]

theorem answers_take_text (files : Files) {es : List Exchange} (method : HttpMethod)
    (reason : CloseReason) {k : Nat} (hk : k ≤ es.length) :
    ((answers files es method reason).take k).flatMap Answer.text =
      (es.take k).flatMap (·.onWire files) := by
  rw [answers_take files method reason hk, List.flatMap_map]
  rfl

theorem answers_length (files : Files) (es : List Exchange) (method : HttpMethod)
    (reason : CloseReason) : (answers files es method reason).length = es.length + 1 := by
  unfold answers
  rw [List.length_append, List.length_map]
  rfl

/-- So can all of them, and the notice behind them. -/
theorem answers_readable {files : Files} {es : List Exchange}
    (hdates : ∀ e ∈ es, HttpDated e.date)
    (hframed : ∀ e ∈ es, Framed files e.request.method e.response) (method : HttpMethod)
    {reason : CloseReason} (hnotice : Session.notice reason ≠ []) :
    ∀ a ∈ answers files es method reason, a.Readable := by
  intro a ha
  rcases List.mem_append.1 ha with ha | ha
  · rcases List.mem_map.1 ha with ⟨e, he, rfl⟩
    exact Exchange.answer_readable (hdates e he) (hframed e he)
  · rw [List.mem_singleton.1 ha]
    exact fun q => readFinal_notice hnotice method q

/-- The client knows the methods of its requests. -/
theorem answers_index (files : Files) {es : List Exchange} {methods : List HttpMethod}
    (h : es.map (fun e => e.request.method) <+: methods) (reason : CloseReason) :
    ∀ p ∈ (answers files es ((methods[es.length]?).getD .get) reason).zip methods,
      p.2 = p.1.method := by
  rcases h with ⟨more, rfl⟩
  have hlength : (es.map fun e => e.request.method).length = es.length := List.length_map _
  have hnext : ((es.map fun e => e.request.method) ++ more)[es.length]? = more.head? := by
    rw [List.getElem?_append_right hlength.le, hlength, Nat.sub_self, List.head?_eq_getElem?]
  rw [hnext]
  unfold answers
  rw [List.zip_append (by rw [List.length_map, List.length_map])]
  intro p hp
  rcases List.mem_append.1 hp with hp | hp
  · rw [List.zip_map'] at hp
    rcases List.mem_map.1 hp with ⟨e, -, rfl⟩
    rfl
  · cases more with
    | nil => cases hp
    | cons method more =>
        rw [List.mem_singleton.1 hp]
        rfl

/-- What the socket has taken but for the interim response is the front of the answers; the
notice is there only when the connection has been closed with it. -/
theorem Carries.front {files : Files} {parts : Bytes → Prop} {x : Session} {es : List Exchange}
    {bytes : Bytes} (h : Carries files parts x es bytes)
    (hwire : x.wire <+: es.flatMap (·.onWire files))
    (method : HttpMethod) :
    ∃ main reason, Session.notice reason ≠ [] ∧
      Frames.Spliced parts ((answers files es method reason).map Answer.text) x.hist.interim main
        bytes ∧
      main <+: (answers files es method reason).flatMap Answer.text ∧ x.wire <+: main ∧
      (x.hist.closedBy ≠ some reason → main <+: es.flatMap (·.onWire files)) := by
  rcases h with ⟨sent, part, rfl, hspliced, hpart⟩
  have htexts : ∀ reason, (answers files es method reason).map Answer.text =
      es.map (·.onWire files) ++ [Session.notice reason] := by
    intro reason
    unfold answers
    rw [List.map_append, List.map_map]
    rfl
  by_cases hnone : part = []
  · refine ⟨x.wire, .readTimeout, by decide, ?_, ?_, List.prefix_rfl, fun _ => hwire⟩
    · rw [htexts, hnone, List.append_nil]
      exact hspliced.extend _
    · rw [answers_text]
      exact hwire.trans (List.prefix_append _ _)
  · rcases hpart hnone with ⟨hall, reason, hclosed, hfront⟩
    refine ⟨x.wire ++ part, reason, ?_, ?_, ?_, List.prefix_append _ _,
      fun hother => absurd hclosed hother⟩
    · intro hempty
      rw [hempty] at hfront
      exact hnone (List.prefix_nil.1 hfront)
    · rw [htexts]
      exact (hspliced.extend _).append part
    · rw [answers_text, hall]
      exact (List.prefix_append_right_inj _).2 hfront

/-- Header blocks get the first date of all. -/
def atEpoch : Act Nat → Act Nat
  | .client ans => .client { ans with date := httpDate 0 }
  | .complete ans => .complete { ans with date := httpDate 0 }
  | a => a

/-- Two requests are answered, and the responses sent. -/
def pipelineDated : List (Act Nat) := pipelineAnswered.map atEpoch

theorem atEpoch_dates (a : Act Nat) : Dates HttpDated (atEpoch a) := by
  cases a with
  | client ans => exact ⟨0, rfl⟩
  | complete ans => exact ⟨0, rfl⟩
  | _ => trivial

theorem atEpoch_plain {a : Act Nat} (h : WithoutFiles a) : WithoutFiles (atEpoch a) := by
  cases a with
  | client ans => exact h
  | complete ans => exact h
  | _ => exact h

/-- The socket takes all of an interim response. -/
theorem atEpoch_takes {a : Act Nat} (h : Takes Whole a) : Takes Whole (atEpoch a) := by
  cases a with
  | client ans => exact h
  | _ => trivial

end Server

end Oreshnek
