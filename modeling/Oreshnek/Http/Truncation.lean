import Oreshnek.Http.Segments
import Oreshnek.Http.FormData

/-!
# Bodies that break off

`Multipart::parse` keeps what it has read wherever it leaves its loop. `WellFormed` is the
grammar of a body, and a `Stretch` is what one turn of the loop reads. A body that breaks off
gives the parts in front of the break (`parse_of_prefix`), so that a malformed body comes to
nothing exactly when no stretch that is complete in it names a part.
-/

namespace Oreshnek

namespace Multipart

/-! ## The grammar -/

/-- A part: header lines, and a content without a delimiter in it. -/
structure BodyPart (boundary : Bytes) where
  lines : List Bytes
  content : Bytes
  lines_line : ∀ l ∈ lines, Line l
  content_free : ¬ nextDelim boundary <:+: content

/-- A part behind its delimiter, and the delimiter that ends it. -/
def BodyPart.encode {boundary : Bytes} (p : BodyPart boundary) : Bytes :=
  crlf ++ p.lines.flatMap (· ++ crlf) ++ crlf ++ p.content ++ nextDelim boundary

/-- What closes a body. -/
def closeDelim (boundary : Bytes) : Bytes := delim boundary ++ lit "--"

/-- A delimiter line, parts with a delimiter behind each, and `--` behind the last delimiter.
A preamble and an epilogue are allowed. -/
def WellFormed (boundary body : Bytes) : Prop :=
  ∃ preamble epilogue, ∃ parts : List (BodyPart boundary), ¬ delim boundary <:+: preamble ∧
    body = preamble ++ delim boundary ++ parts.flatMap BodyPart.encode ++ lit "--" ++ epilogue

/-- What a turn of the loop reads behind a delimiter: down to the first empty line, and from
there to the next delimiter. -/
structure Stretch (boundary : Bytes) where
  headers : Bytes
  content : Bytes
  headers_end : Search.find blankLine (headers ++ blankLine) = some headers.length
  content_end : Search.find (nextDelim boundary) (content ++ nextDelim boundary) =
    some content.length

/-- Its text, with the delimiter that ends it. -/
def Stretch.text {boundary : Bytes} (s : Stretch boundary) : Bytes :=
  crlf ++ (s.headers ++ blankLine ++ (s.content ++ nextDelim boundary))

/-- No stretch that is complete in the body has a line that names a part. -/
def NothingNamed (boundary body : Bytes) : Prop :=
  ∀ (opening rest : Bytes) (ss : List (Stretch boundary)),
    Search.find (delim boundary) body = some opening.length →
    body = opening ++ delim boundary ++ (ss.flatMap Stretch.text ++ rest) →
    ∀ s ∈ ss, Nameless (pieceLines s.headers)

section

variable {body : StringView} {boundary : Bytes} {pos : Nat} {turn : Turn}

/-- The closing delimiter is in every well-formed body. -/
theorem WellFormed.closed {b : Bytes} (h : WellFormed boundary b) : closeDelim boundary <:+: b := by
  obtain ⟨preamble, epilogue, parts, -, rfl⟩ := h
  have hends : delim boundary <:+ delim boundary ++ parts.flatMap BodyPart.encode := by
    -- the last part ends in a delimiter, and where there is none the first one stands
    rcases List.eq_nil_or_concat parts with rfl | ⟨front, last, rfl⟩
    · simp
    · refine List.IsSuffix.trans ?_ (List.suffix_append _ _)
      rw [List.concat_eq_append, List.flatMap_append, List.flatMap_singleton]
      refine List.IsSuffix.trans ?_ (List.suffix_append _ _)
      refine List.IsSuffix.trans ?_ (List.suffix_append _ _)
      exact List.suffix_append _ _
  obtain ⟨front, hfront⟩ := hends
  refine ⟨preamble ++ front, epilogue, ?_⟩
  unfold closeDelim
  rw [List.append_assoc preamble (delim boundary), ← hfront]
  simp only [List.append_assoc]

theorem intercalate_append {α : Type*} (sep : List α) {ls : List (List α)} (hne : ls ≠ []) :
    sep.intercalate ls ++ sep = ls.flatMap (· ++ sep) := by
  induction ls with
  | nil => exact absurd rfl hne
  | cons l ls ih =>
      cases ls with
      | nil => simp
      | cons l' ls =>
          rw [List.intercalate_cons_cons, List.flatMap_cons, ← ih (List.cons_ne_nil _ _),
            List.append_assoc, List.append_assoc]

/-- What a client sends is well formed. -/
theorem encode_wellFormed (parts : List (WrittenPart boundary)) (epilogue : Bytes) :
    WellFormed boundary (encode boundary parts epilogue) := by
  refine ⟨[], epilogue,
    parts.map fun w => ⟨w.lines, w.part.content, w.lines_line, w.part.content_free⟩, ?_, ?_⟩
  · rw [List.infix_nil]
    unfold delim
    simp [lit]
  · have hencode : (WrittenPart.encode : WrittenPart boundary → Bytes) = fun w =>
        BodyPart.encode ⟨w.lines, w.part.content, w.lines_line, w.part.content_free⟩ := by
      funext w
      unfold WrittenPart.encode BodyPart.encode
      rw [← intercalate_append crlf w.lines_ne_nil]
      simp only [List.append_assoc]
    unfold encode
    rw [List.flatMap_map, List.nil_append, List.append_assoc, List.append_assoc, hencode]

/-! ## Turns and stretches -/

/-- A stretch is taken in one turn. -/
theorem Stretch.taken (s : Stretch boundary) {tail : Bytes}
    (h : body.bytes.drop pos = s.text ++ tail) :
    ∃ turn, takeSegment body (nextDelim boundary) pos = some turn ∧
      turn.headers.bytes = s.headers ∧ body.bytes.drop turn.next = tail := by
  have htext : body.bytes.drop pos =
      crlf ++ (s.headers ++ blankLine ++ (s.content ++ nextDelim boundary ++ tail)) := by
    rw [h]
    unfold Stretch.text
    simp only [List.append_assoc]
  have hblank := Search.find_append s.headers_end (s.content ++ nextDelim boundary ++ tail)
  have hdelim := Search.find_append s.content_end tail
  obtain ⟨turn, hturn, hheaders, -, hnext⟩ := exists_taken htext hblank hdelim
  exact ⟨turn, hturn, hheaders, hnext⟩

/-- A turn reads a stretch. -/
theorem Taken.exists_stretch {i n : Nat} {rest : Bytes}
    (h : Taken body (nextDelim boundary) pos i n rest turn) :
    ∃ s : Stretch boundary, s.headers = turn.headers.bytes ∧
      body.bytes.drop pos = s.text ++ body.bytes.drop turn.next := by
  have hsplit := Search.find_split h.blank
  have hthen := Search.find_split h.delim
  have hi := Search.find_add_length_le h.blank
  have hn := Search.find_add_length_le h.delim
  have hheaders : (rest.take i).length = i := by
    rw [List.length_take]
    omega
  have hcontent : ((rest.drop (i + 4)).take n).length = n := by
    rw [List.length_take]
    omega
  have hfour : (crlf ++ crlf).length = 4 := rfl
  rw [hfour] at hsplit hi
  refine ⟨⟨rest.take i, (rest.drop (i + 4)).take n, ?_, ?_⟩, h.headers_bytes.symm, ?_⟩
  · have hlen : (rest.take i ++ blankLine).length = i + 4 := by
      rw [List.length_append, hheaders]
      rfl
    rw [hheaders]
    exact Search.find_shorten h.blank ⟨rest.drop (i + 4), hsplit.symm⟩ hlen.ge
  · rw [hcontent]
    refine Search.find_shorten h.delim ⟨_, hthen.symm⟩ (le_of_eq ?_)
    rw [List.length_append, hcontent]
  · rw [h.text, h.drop_next]
    show _ = crlf ++ (rest.take i ++ blankLine ++ ((rest.drop (i + 4)).take n ++ _)) ++ _
    conv_lhs => rw [hsplit, hthen]
    simp only [List.append_assoc]

/-- The turns read the stretches that the text begins with, whatever follows them. -/
theorem headers_prefix_turnsFrom {rest : Bytes} (ss : List (Stretch boundary)) (pos : Nat)
    (h : body.bytes.drop pos = ss.flatMap Stretch.text ++ rest) :
    ss.map Stretch.headers <+:
      (turnsFrom body (nextDelim boundary) pos).map fun turn => turn.headers.bytes := by
  induction ss generalizing pos with
  | nil => exact List.nil_prefix
  | cons s ss ih =>
      rw [List.flatMap_cons, List.append_assoc] at h
      obtain ⟨turn, hturn, hheaders, hnext⟩ := s.taken h
      rw [turnsFrom_some hturn, List.map_cons, List.map_cons, ← hheaders, List.cons_prefix_cons]
      exact ⟨rfl, ih turn.next hnext⟩

/-- And they are complete stretches, one behind the other. -/
theorem exists_stretches (body : StringView) (boundary : Bytes) (pos : Nat) :
    ∃ (ss : List (Stretch boundary)) (rest : Bytes),
      body.bytes.drop pos = ss.flatMap Stretch.text ++ rest ∧
      ss.map Stretch.headers =
        (turnsFrom body (nextDelim boundary) pos).map fun turn => turn.headers.bytes := by
  induction pos using turn_induction body (nextDelim boundary) with
  | leave pos h =>
      refine ⟨[], body.bytes.drop pos, (List.nil_append _).symm, ?_⟩
      rw [turnsFrom_none h]
      rfl
  | turn pos turn h ih =>
      obtain ⟨rest', i, n, htaken⟩ := takeSegment_eq_some_iff.1 h
      obtain ⟨s, hs, hfirst⟩ := htaken.exists_stretch
      obtain ⟨ss, rest, hthen, hss⟩ := ih
      refine ⟨s :: ss, rest, ?_, ?_⟩
      · rw [hfirst, hthen, List.flatMap_cons, List.append_assoc]
      · rw [turnsFrom_some h, List.map_cons, List.map_cons, hs, hss]

/-! ## Where nothing comes of a body -/

theorem parse_eq_nil_iff_turns :
    parse body boundary = [] ↔ ∀ turn ∈ turns body boundary, pushed turn = none := by
  rw [parse_eq, List.filterMap_eq_nil_iff]

/-- **Nothing comes of a body** exactly when no complete stretch of it names a part. -/
theorem parse_eq_nil_iff (body : StringView) (boundary : Bytes) :
    parse body boundary = [] ↔ boundary = [] ∨ NothingNamed boundary body.bytes := by
  by_cases hempty : boundary = []
  · refine iff_of_true ?_ (.inl hempty)
    rw [hempty]
    rfl
  rw [or_iff_right hempty, parse_eq_nil_iff_turns]
  have hfalse : ¬ boundary.isEmpty = true := fun h => hempty (List.isEmpty_iff.1 h)
  unfold turns NothingNamed StringView.find
  rw [if_neg hfalse]
  cases hfind : Search.find (delim boundary) body.bytes with
  | none =>
      refine iff_of_true ?_ ?_
      · intro turn hturn
        exact absurd hturn List.not_mem_nil
      · intro opening rest ss hopening
        exact nomatch hopening
  | some pos =>
      have hsplit := Search.find_split hfind
      constructor
      · -- the headers of a stretch are those of a turn
        intro hnone opening rest ss hopening hbody s hs
        obtain rfl := Option.some.inj hopening
        have hdrop : body.bytes.drop (opening.length + (delim boundary).length) =
            ss.flatMap Stretch.text ++ rest := by
          rw [hbody, ← List.length_append, List.drop_left]
        have hin := (headers_prefix_turnsFrom ss _ hdrop).subset (List.mem_map_of_mem hs)
        obtain ⟨turn, hturn, hheaders⟩ := List.mem_map.1 hin
        rw [← hheaders]
        exact (pushed_eq_none_iff turn).1 (hnone turn hturn)
      · -- the headers of a turn are those of a stretch
        intro hnamed turn hturn
        obtain ⟨ss, rest, hdrop, hss⟩ := exists_stretches body boundary (pos + (delim boundary).length)
        have hin : turn.headers.bytes ∈ ss.map Stretch.headers := by
          rw [hss]
          exact List.mem_map_of_mem hturn
        obtain ⟨s, hs, hheaders⟩ := List.mem_map.1 hin
        have hlen : (body.bytes.take pos).length = pos := by
          have := Search.find_add_length_le hfind
          rw [List.length_take]
          omega
        rw [pushed_eq_none_iff, ← hheaders]
        refine hnamed (body.bytes.take pos) rest ss (by rw [hlen]) ?_ s hs
        rw [← hdrop]
        exact hsplit

/-- **A malformed body** comes to nothing exactly when it has no complete stretch that names a
part. -/
theorem nothing_from_malformed_iff (body : StringView) (boundary : Bytes) :
    (¬ WellFormed boundary body.bytes → parse body boundary = []) ↔
      WellFormed boundary body.bytes ∨ boundary = [] ∨ NothingNamed boundary body.bytes := by
  rw [parse_eq_nil_iff]
  constructor
  · intro h
    by_cases hwell : WellFormed boundary body.bytes
    · exact .inl hwell
    · exact .inr (h hwell)
  · rintro (hwell | hnothing) hmalformed
    · exact absurd hwell hmalformed
    · exact hnothing

/-- An upload of two parts that broke off in the header of the second one. -/
def cutUpload : StringView :=
  ⟨0, delim (lit "B") ++ (writtenUpload.encode ++ (crlf ++ lit "Content-Disp"))⟩

/-- What was to follow. -/
def restOfUpload : Bytes := (writtenNote.encode ++ lit "--").drop 14

/-- The part that came through is handed out as if it were all of them. -/
theorem cut_upload_accepted :
    ¬ WellFormed (lit "B") cutUpload.bytes ∧
      WellFormed (lit "B") (cutUpload.bytes ++ restOfUpload) ∧
      (parse cutUpload (lit "B")).map MultipartPart.text = [upload.text] := by
  have hopen : ¬ closeDelim (lit "B") <:+: cutUpload.bytes :=
    Search.find_eq_none_iff.1 (by decide +kernel)
  have hwhole : cutUpload.bytes ++ restOfUpload =
      encode (lit "B") [writtenUpload, writtenNote] [] := by
    have hcut : crlf ++ lit "Content-Disp" ++ restOfUpload = writtenNote.encode ++ lit "--" :=
      List.take_append_drop 14 (writtenNote.encode ++ lit "--")
    show delim (lit "B") ++ (writtenUpload.encode ++ (crlf ++ lit "Content-Disp")) ++ restOfUpload = _
    rw [List.append_assoc, List.append_assoc, hcut]
    unfold encode
    simp only [List.flatMap_cons, List.flatMap_nil, List.append_nil, List.append_assoc]
  refine ⟨fun h => hopen h.closed, hwhole ▸ encode_wellFormed _ _, ?_⟩
  have hfind : cutUpload.find (delim (lit "B")) = some 0 := by decide
  obtain ⟨turn, hturn, htext, hnext⟩ :=
    writtenUpload.taken (by decide) (show cutUpload.bytes.drop 3 = _ from rfl)
  -- behind the second delimiter there is no empty line
  have hleave : takeSegment cutUpload (nextDelim (lit "B")) turn.next = none := by
    cases hthen : takeSegment cutUpload (nextDelim (lit "B")) turn.next with
    | none => rfl
    | some turn' =>
        obtain ⟨rest, i, n, htaken⟩ := takeSegment_eq_some_iff.1 hthen
        have hrest : rest = lit "Content-Disp" :=
          (List.append_cancel_left (hnext.symm.trans htaken.text)).symm
        have hnone : Search.find (crlf ++ crlf) (lit "Content-Disp") = none := by decide
        exact absurd (hnone.symm.trans (hrest ▸ htaken.blank)) (Option.some_ne_none i).symm
  have hturns : turns cutUpload (lit "B") = [turn] := by
    unfold turns
    rw [hfind]
    refine (turnsFrom_some hturn).trans ?_
    rw [turnsFrom_none hleave]
  have hname : turn.part.text.name ≠ [] := by
    rw [htext]
    decide
  rw [parse_eq, hturns, List.filterMap_cons_some (pushed_eq_some hname), List.filterMap_nil,
    List.map_singleton, htext]
  rfl

/-! ## Breaking off -/

/-- A turn that was read stays the same whatever else arrives. -/
theorem takeSegment_append {b more nextDelim : Bytes} {start : Nat}
    (h : takeSegment ⟨start, b⟩ nextDelim pos = some turn) :
    takeSegment ⟨start, b ++ more⟩ nextDelim pos = some turn := by
  obtain ⟨rest, i, n, htaken⟩ := takeSegment_eq_some_iff.1 h
  have htext : b.drop pos = crlf ++ rest := htaken.text
  have hblank := Search.find_add_length_le htaken.blank
  have hdelim := Search.find_add_length_le htaken.delim
  have hlen := congrArg List.length htext
  simp only [List.length_drop, List.length_append, crlf, List.length_cons, List.length_nil]
    at hblank hdelim hlen
  refine takeSegment_eq_some_iff.2 ⟨rest ++ more, i, n, ?_, Search.find_append htaken.blank more,
    ?_, ?_⟩
  · show (b ++ more).drop pos = _
    rw [List.drop_append_of_le_length (by omega), htext, List.append_assoc]
  · rw [List.drop_append_of_le_length (by omega)]
    exact Search.find_append htaken.delim more
  · -- both views lie in what was there before
    have hview : ∀ p k, p + k ≤ b.length →
        StringView.substr ⟨start, b ++ more⟩ p k = StringView.substr ⟨start, b⟩ p k := by
      intro p k hle
      show StringView.mk (start + p) (((b ++ more).drop p).take k) = ⟨start + p, (b.drop p).take k⟩
      rw [List.drop_append_of_le_length (by omega), List.take_append_of_le_length]
      rw [List.length_drop]
      omega
    rw [hview _ _ (by omega), hview _ _ (by omega)]
    exact htaken.turn_eq

/-- With more bytes behind it a body gives the same segments first. -/
theorem turnsFrom_prefix (start : Nat) (b more nextDelim : Bytes) (pos : Nat) :
    turnsFrom ⟨start, b⟩ nextDelim pos <+: turnsFrom ⟨start, b ++ more⟩ nextDelim pos := by
  induction pos using turn_induction ⟨start, b⟩ nextDelim with
  | leave pos h =>
      rw [turnsFrom_none h]
      exact List.nil_prefix
  | turn pos turn h ih =>
      rw [turnsFrom_some h, turnsFrom_some (takeSegment_append h), List.cons_prefix_cons]
      exact ⟨rfl, ih⟩

/-- **A body that breaks off** gives the first of the parts that the whole one gives. -/
theorem parse_of_prefix (start : Nat) (b more boundary : Bytes) :
    parse ⟨start, b⟩ boundary <+: parse ⟨start, b ++ more⟩ boundary := by
  have hturns : turns ⟨start, b⟩ boundary <+: turns ⟨start, b ++ more⟩ boundary := by
    unfold turns StringView.find
    by_cases hempty : boundary.isEmpty
    · rw [if_pos hempty, if_pos hempty]
    · rw [if_neg hempty, if_neg hempty]
      cases hfind : Search.find (delim boundary) b with
      | none => exact List.nil_prefix
      | some pos =>
          rw [Search.find_append hfind more]
          exact turnsFrom_prefix start b more (nextDelim boundary) _
  rw [parse_eq, parse_eq]
  exact hturns.filterMap pushed

end

end Multipart

end Oreshnek
