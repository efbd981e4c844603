import Oreshnek.Http.Disposition

/-!
# Encoded form data, read back

A `FormPart` is what a client sends as one part; `WrittenPart` is one with its header lines in
the order in which they are written. `encode` writes a body, and `Multipart::parse` reads its
parts back as they were (`parse_encode`): each search stops at the line end, the empty line or
the delimiter that was written for it.
-/

namespace Oreshnek

namespace Multipart

/-! ## What is sent -/

/-- A byte of a name or a filename. -/
def nameByte (c : UInt8) : Bool := valueByte c && c != 61

/-- A name or a filename. -/
abbrev NameText := {b : Bytes // b.all nameByte = true}

/-- A byte of a `Content-Type`. -/
def mediaByte (c : UInt8) : Bool := c != 13 && c != 10

/-- A `Content-Type` without blanks around it. -/
structure MediaType where
  bytes : Bytes
  line : bytes.all mediaByte = true
  begins : ∀ c ∈ bytes.head?, blank c = false
  ends : ∀ c ∈ bytes.getLast?, blank c = false

/-- A header line that can be written. -/
def Line (l : Bytes) : Prop := l ≠ [] ∧ ¬ crlf <:+: l

/-- A part. The content is any bytes that hold no delimiter. -/
structure FormPart (boundary : Bytes) where
  name : NameText
  filename : Option NameText := none
  contentType : Option MediaType := none
  others : List Bytes := []
  content : Bytes
  name_nonempty : name.1 ≠ []
  others_line : ∀ l ∈ others, Line l
  others_field : ∀ l ∈ others, ¬ IsField dispositionField l ∧ ¬ IsField typeField l
  content_free : ¬ nextDelim boundary <:+: content

/-- What a parameter may hold. -/
theorem NameText.value_bytes (v : NameText) : v.1.all valueByte = true := by
  rw [List.all_eq_true]
  intro c hc
  exact (Bool.and_eq_true_iff.1 (List.all_eq_true.1 v.2 c hc)).1

/-- `; name="…"`. -/
def NameText.nameParam (v : NameText) : Param :=
  .plain (lit "name") v.1 name_nonempty name_bytes v.value_bytes

/-- `; filename="…"`. -/
def NameText.filenameParam (v : NameText) : Param :=
  .plain (lit "filename") v.1 filename_nonempty filename_bytes v.value_bytes

namespace FormPart

variable {boundary : Bytes}

/-- What the views of the part read should show. -/
def text (p : FormPart boundary) : PartText where
  name := p.name.1
  filename := p.filename.elim [] Subtype.val
  contentType := p.contentType.elim [] MediaType.bytes
  content := p.content

/-- The name, and the filename of a file. -/
def params (p : FormPart boundary) : List Param :=
  p.name.nameParam :: (p.filename.map NameText.filenameParam).toList

theorem params_distinct (p : FormPart boundary) : (p.params.map Param.key).Nodup := by
  have hne : lit "name" ≠ lit "filename" := by decide
  unfold params
  cases p.filename with
  | none => exact List.nodup_singleton _
  | some f => exact List.nodup_cons.2 ⟨fun h => hne (List.mem_singleton.1 h), List.nodup_singleton _⟩

/-- `Content-Disposition: form-data; name="…"; filename="…"`. -/
def disposition (p : FormPart boundary) : Disposition := .formData p.params p.params_distinct

/-- `Content-Type: …`. -/
def typeLine (t : MediaType) : Bytes := lit "Content-Type: " ++ t.bytes

/-- The header lines. -/
def headerLines (p : FormPart boundary) : List Bytes :=
  p.disposition.line :: (p.contentType.toList.map typeLine ++ p.others)

end FormPart

/-- A part with its header lines in some order. -/
structure WrittenPart (boundary : Bytes) where
  part : FormPart boundary
  lines : List Bytes
  order : lines.Perm part.headerLines

variable {boundary : Bytes}

/-- A part behind a delimiter, and the delimiter that ends it. -/
def WrittenPart.encode (w : WrittenPart boundary) : Bytes :=
  crlf ++ (crlf.intercalate w.lines ++ (crlf ++ crlf) ++ (w.part.content ++ nextDelim boundary))

/-- The body. Whatever follows the closing `--` is ignored. -/
def encode (boundary : Bytes) (parts : List (WrittenPart boundary)) (epilogue : Bytes) : Bytes :=
  delim boundary ++ (parts.flatMap WrittenPart.encode ++ (lit "--" ++ epilogue))

/-! ## Lines -/

/-- The lines of a block are split where they were joined. -/
theorem pieceLines_intercalate {ls : List Bytes} (hne : ls ≠ []) (h : ∀ l ∈ ls, Line l) :
    pieceLines (crlf.intercalate ls) = ls := by
  induction ls with
  | nil => exact absurd rfl hne
  | cons l ls ih =>
      have hl := (h l List.mem_cons_self).2
      cases ls with
      | nil => rw [List.intercalate_singleton, pieceLines_single hl]
      | cons l' ls =>
          rw [List.intercalate_cons_cons, pieceLines_line hl,
            ih (List.cons_ne_nil _ _) fun l'' hl'' => h l'' (List.mem_cons_of_mem _ hl'')]

/-- A line does not begin with its end. -/
theorem Line.not_crlf_prefix {l : Bytes} (h : Line l) (rest : Bytes) :
    ¬ crlf <+: l ++ crlf ++ rest := by
  intro hpre
  have hfound := find_crlf h.2 rest
  obtain ⟨-, -, hmin⟩ := Search.find_eq_some_iff.1 hfound
  exact hmin 0 (List.length_pos_iff.2 h.1) hpre

/-- The first empty line is the one behind the last header. -/
theorem find_blank_intercalate {ls : List Bytes} (hne : ls ≠ []) (h : ∀ l ∈ ls, Line l)
    (rest : Bytes) :
    Search.find (crlf ++ crlf) (crlf.intercalate ls ++ (crlf ++ crlf) ++ rest) =
      some (crlf.intercalate ls).length := by
  induction ls with
  | nil => exact absurd rfl hne
  | cons l ls ih =>
      have hl := h l List.mem_cons_self
      cases ls with
      | nil =>
          -- the last line: its end and the empty one
          have hassoc : crlf.intercalate [l] ++ (crlf ++ crlf) ++ rest =
              l ++ crlf ++ (crlf ++ rest) := by
            rw [List.intercalate_singleton]
            simp only [List.append_assoc]
          rw [hassoc, Search.find_delim_then crlf_unbordered crlf_ne_nil hl.2,
            if_pos (List.prefix_append _ _), List.intercalate_singleton]
      | cons l' ls =>
          -- the next line is not empty, so that the search goes on behind this one
          have hl' := h l' (List.mem_cons_of_mem _ List.mem_cons_self)
          have hnext : ∃ tail, crlf.intercalate (l' :: ls) ++ (crlf ++ crlf) ++ rest =
              l' ++ crlf ++ tail := by
            cases ls with
            | nil =>
                refine ⟨crlf ++ rest, ?_⟩
                simp only [List.intercalate_singleton, List.append_assoc]
            | cons l'' ls =>
                refine ⟨crlf.intercalate (l'' :: ls) ++ (crlf ++ (crlf ++ rest)), ?_⟩
                simp only [List.intercalate_cons_cons, List.append_assoc]
          obtain ⟨tail, htail⟩ := hnext
          have hassoc : crlf.intercalate (l :: l' :: ls) ++ (crlf ++ crlf) ++ rest =
              l ++ crlf ++ (crlf.intercalate (l' :: ls) ++ (crlf ++ crlf) ++ rest) := by
            rw [List.intercalate_cons_cons]
            simp only [List.append_assoc]
          have hno : ¬ crlf <+: crlf.intercalate (l' :: ls) ++ (crlf ++ crlf) ++ rest := by
            rw [htail]
            exact hl'.not_crlf_prefix tail
          rw [hassoc, Search.find_delim_then crlf_unbordered crlf_ne_nil hl.2, if_neg hno,
            ih (List.cons_ne_nil _ _) fun l'' hl'' => h l'' (List.mem_cons_of_mem _ hl''),
            Option.map_some, List.intercalate_cons_cons]
          congr 1
          simp only [List.length_append, Nat.add_comm]

/-! ## The headers of a part -/

/-- A line does not begin with both names. -/
theorem not_typeField {l : Bytes} (h : IsField dispositionField l) : ¬ IsField typeField l := by
  intro ht
  have hpre : typeField <+: dispositionField := by
    refine List.prefix_of_prefix_length_le ht h ?_
    decide
  exact absurd hpre (by decide)

/-- A blank at either end is all that `trim` takes away. -/
theorem MediaType.trimText_eq (t : MediaType) : trimText (32 :: t.bytes) = t.bytes := by
  have hdrop : t.bytes.dropWhile blank = t.bytes := by
    have hbegins := t.begins
    cases ht : t.bytes with
    | nil => rfl
    | cons c b =>
        rw [ht] at hbegins
        rw [List.dropWhile_cons, hbegins c rfl]
        rfl
  unfold trimText
  rw [List.dropWhile_cons_of_pos (by decide), hdrop, List.rdropWhile_eq_self_iff]
  intro hne hlast
  have hbyte := List.all_eq_true.1 t.line _ (List.getLast_mem hne)
  rw [Bool.or_eq_true, t.ends _ (List.getLast?_eq_some_getLast hne)] at hlast
  rcases hlast with hblank | hcr
  · cases hblank
  · rw [beq_iff_eq] at hcr
    rw [hcr] at hbyte
    exact absurd hbyte (by decide)

namespace FormPart

/-- What `quoted_attr` reads in the `Content-Disposition` line. -/
theorem params_read (p : FormPart boundary) :
    readAttr (lit "name") p.params = p.name.1 ∧
      readAttr (lit "filename") p.params = p.filename.elim [] Subtype.val := by
  have hother : ¬ lit "filename" <:+ lit "name" := by decide
  -- there is no `=` in the name
  have hvalue : ¬ lit "filename" ++ [61] <:+ p.name.1 := by
    intro hin
    exact not_mem_of_all p.name.2 (c := 61) (by decide) (hin.subset (by simp))
  constructor
  · exact if_pos (List.suffix_refl (lit "name"))
  · refine (if_neg hother).trans ((if_neg hvalue).trans ?_)
    cases p.filename with
    | none => rfl
    | some f => exact if_pos (List.suffix_refl (lit "filename"))

theorem typeLine_isField (t : MediaType) : IsField typeField (typeLine t) := by
  unfold IsField typeLine
  rw [List.map_append]
  exact (show typeField <+: (lit "Content-Type: ").map tolower by decide).trans
    (List.prefix_append _ _)

/-- Only the `Content-Disposition` line is one. -/
theorem not_disposition {p : FormPart boundary} {l : Bytes}
    (h : l ∈ p.contentType.toList.map typeLine ++ p.others) : ¬ IsField dispositionField l := by
  rcases List.mem_append.1 h with htype | hother
  · obtain ⟨t, -, rfl⟩ := List.mem_map.1 htype
    intro hin
    exact not_typeField hin (typeLine_isField t)
  · exact (p.others_field l hother).1

/-- All lines can be written. -/
theorem headerLines_line {p : FormPart boundary} {l : Bytes} (h : l ∈ p.headerLines) : Line l := by
  have hfield : ∀ {name l' : Bytes}, name ≠ [] → IsField name l' → l' ≠ [] := by
    rintro name l' hne hin rfl
    exact hne (List.prefix_nil.1 hin)
  rcases List.mem_cons.1 h with rfl | hrest
  · exact ⟨hfield (by decide) p.disposition.isField, p.disposition.line_no_crlf⟩
  · rcases List.mem_append.1 hrest with htype | hother
    · obtain ⟨t, -, rfl⟩ := List.mem_map.1 htype
      refine ⟨hfield (by decide) (typeLine_isField t), not_infix_crlf ?_⟩
      have hbytes := not_mem_of_all t.line (c := 13) (by decide)
      unfold typeLine
      rw [List.mem_append, not_or]
      exact ⟨by decide, hbytes⟩
    · exact p.others_line l hother

/-- The type comes from its line, wherever that stands. -/
theorem lines_contentType (p : FormPart boundary) {ls : List Bytes} (h : ls.Perm p.headerLines)
    (start : PartText) (hstart : start.contentType = []) :
    (ls.foldl PartText.withLine start).contentType =
      p.contentType.elim [] MediaType.bytes := by
  have hkeep : ∀ {l : Bytes}, ¬ IsField typeField l → ∀ q : PartText,
      (q.withLine l).contentType = q.contentType := by
    intro l hl q
    unfold PartText.withLine
    rw [if_neg hl]
    split
    · rfl
    · rfl
  have hdisp : ¬ IsField typeField p.disposition.line := not_typeField p.disposition.isField
  unfold headerLines at h
  cases htype : p.contentType with
  | none =>
      rw [htype] at h
      have hnone : ∀ l ∈ ls, ¬ IsField typeField l := by
        intro l hl
        rcases List.mem_cons.1 (h.subset hl) with rfl | hother
        · exact hdisp
        · exact (p.others_field l hother).2
      rw [foldl_withLine_keep PartText.contentType fun l hl => hkeep (hnone l hl)]
      exact hstart
  | some t =>
      rw [htype] at h
      -- wherever the type line stands, no other one is left around it
      have hswap : ls.Perm (typeLine t :: (p.disposition.line :: p.others)) :=
        h.trans (List.Perm.swap _ _ _)
      obtain ⟨before, after, rfl⟩ := List.append_of_mem (hswap.symm.subset List.mem_cons_self)
      have hrest := (List.perm_middle.symm.trans hswap).cons_inv
      have hafter : ∀ l ∈ after, ¬ IsField typeField l := by
        intro l hl
        rcases List.mem_cons.1 (hrest.subset (List.mem_append_right _ hl)) with rfl | hother
        · exact hdisp
        · exact (p.others_field l hother).2
      have hdrop : (typeLine t).drop typeField.length = 32 :: t.bytes := rfl
      have hnot : ¬ IsField dispositionField (typeLine t) := fun hin =>
        not_typeField hin (typeLine_isField t)
      rw [List.foldl_append, List.foldl_cons,
        foldl_withLine_keep PartText.contentType fun l hl => hkeep (hafter l hl)]
      unfold PartText.withLine
      rw [if_neg hnot, if_pos (typeLine_isField t), hdrop]
      exact t.trimText_eq

/-- **The lines of a part**, in any order, give its name, its filename and its type. -/
theorem lines_text (p : FormPart boundary) {ls : List Bytes} (h : ls.Perm p.headerLines) :
    ls.foldl PartText.withLine { content := p.content } = p.text := by
  obtain ⟨before, after, rfl⟩ := List.append_of_mem (h.symm.subset List.mem_cons_self)
  have hrest := (List.perm_middle.symm.trans h).cons_inv
  have hafter : ∀ l ∈ after, ¬ IsField dispositionField l := fun l hl =>
    not_disposition (hrest.subset (List.mem_append_right _ hl))
  obtain ⟨hname, hfilename⟩ :=
    foldl_withLine_names (before ++ p.disposition.line :: after) { content := p.content }
  rw [lastDisposition_eq p.disposition.isField hafter] at hname hfilename
  obtain ⟨hread, hread'⟩ := p.params_read
  have hcontent : ∀ l ∈ before ++ p.disposition.line :: after, ∀ q : PartText,
      (q.withLine l).content = q.content := by
    intro l _ q
    unfold PartText.withLine
    split
    · rfl
    · split
      · rfl
      · rfl
  refine PartText.ext ?_ ?_ ?_ (foldl_withLine_keep PartText.content hcontent _)
  · exact hname.trans ((attrText_line word_name p.disposition).trans hread)
  · exact hfilename.trans ((attrText_line word_filename p.disposition).trans hread')
  · exact p.lines_contentType h _ rfl

end FormPart

/-! ## The body -/

theorem nextDelim_unbordered (h : 13 ∉ boundary) : Search.Unbordered (nextDelim boundary) := by
  have htail : (13 : UInt8) ∉ 10 :: delim boundary := by
    unfold delim
    simp [lit, h]
  exact Search.unbordered_cons htail

/-- A turn whose part has a name pushes it. -/
theorem pushed_eq_some {turn : Turn} (h : turn.part.text.name ≠ []) :
    pushed turn = some turn.part := by
  have hlen : ¬ turn.part.name.length = 0 := fun hzero => h (List.length_eq_zero_iff.1 hzero)
  unfold pushed
  rw [if_neg hlen]

theorem WrittenPart.lines_ne_nil (w : WrittenPart boundary) : w.lines ≠ [] := by
  intro hnil
  have := w.order.length_eq
  rw [hnil] at this
  exact absurd this (by simp [FormPart.headerLines])

theorem WrittenPart.lines_line (w : WrittenPart boundary) : ∀ l ∈ w.lines, Line l :=
  fun _ hl => FormPart.headerLines_line (w.order.subset hl)

/-- A written part is taken in one turn, up to the delimiter behind it. -/
theorem WrittenPart.taken (w : WrittenPart boundary) (hcr : 13 ∉ boundary) {body : StringView}
    {pos : Nat} {tail : Bytes} (h : body.bytes.drop pos = w.encode ++ tail) :
    ∃ turn, takeSegment body (nextDelim boundary) pos = some turn ∧
      turn.part.text = w.part.text ∧ body.bytes.drop turn.next = tail := by
  have hblank := find_blank_intercalate w.lines_ne_nil w.lines_line
    (w.part.content ++ nextDelim boundary ++ tail)
  have hdelim := Search.find_delim (nextDelim_unbordered hcr) w.part.content_free tail
  have htext : body.bytes.drop pos = crlf ++ (crlf.intercalate w.lines ++ (crlf ++ crlf) ++
      (w.part.content ++ nextDelim boundary ++ tail)) := by
    rw [h]
    unfold WrittenPart.encode
    simp only [List.append_assoc]
  obtain ⟨turn, hturn, hheaders, hcontent, hnext⟩ := exists_taken htext hblank hdelim
  refine ⟨turn, hturn, ?_, hnext⟩
  refine (parsePartHeaders_text _ _).trans ?_
  rw [hheaders, pieceLines_intercalate w.lines_ne_nil w.lines_line,
    ← w.part.lines_text w.order, ← hcontent]
  rfl

/-- **From any delimiter on**, by induction on the parts that follow. -/
theorem turns_encoded (hcr : 13 ∉ boundary) {body : StringView} {epilogue : Bytes}
    (parts : List (WrittenPart boundary)) (pos : Nat)
    (h : body.bytes.drop pos = parts.flatMap WrittenPart.encode ++ (lit "--" ++ epilogue)) :
    ((turnsFrom body (nextDelim boundary) pos).filterMap pushed).map MultipartPart.text =
      parts.map fun w => w.part.text := by
  induction parts generalizing pos with
  | nil =>
      -- the closing `--` is no line end
      have hnone : takeSegment body (nextDelim boundary) pos = none := by
        cases hturn : takeSegment body (nextDelim boundary) pos with
        | none => rfl
        | some turn =>
            obtain ⟨rest, i, n, htaken⟩ := takeSegment_eq_some_iff.1 hturn
            have hclash := h.symm.trans htaken.text
            exact absurd (List.cons.inj hclash).1 (by decide)
      rw [turnsFrom_none hnone]
      rfl
  | cons w parts ih =>
      rw [List.flatMap_cons, List.append_assoc] at h
      obtain ⟨turn, hturn, htext, hnext⟩ := w.taken hcr h
      have hname : turn.part.text.name ≠ [] := by
        rw [htext]
        exact w.part.name_nonempty
      rw [turnsFrom_some hturn, List.filterMap_cons_some (pushed_eq_some hname), List.map_cons,
        htext, ih turn.next hnext, List.map_cons]

/-- **Round trip**: the parts of an encoded body are read as they were written, in order. -/
theorem parse_encode {boundary : Bytes} (hne : boundary ≠ []) (hcr : 13 ∉ boundary)
    (parts : List (WrittenPart boundary)) (epilogue : Bytes) {body : StringView}
    (hbody : body.bytes = encode boundary parts epilogue) :
    (parse body boundary).map MultipartPart.text = parts.map fun w => w.part.text := by
  have hfalse : ¬ boundary.isEmpty = true := fun h => hne (List.isEmpty_iff.1 h)
  have hfind : body.find (delim boundary) = some 0 := by
    unfold StringView.find
    rw [hbody]
    exact Search.find_eq_some_iff.2 ⟨Nat.zero_le _, List.prefix_append _ _, by simp⟩
  have hdrop : body.bytes.drop (0 + (delim boundary).length) =
      parts.flatMap WrittenPart.encode ++ (lit "--" ++ epilogue) := by
    rw [hbody, Nat.zero_add]
    exact List.drop_left
  have hturns : turns body boundary =
      turnsFrom body (nextDelim boundary) (0 + (delim boundary).length) := by
    unfold turns
    rw [if_neg hfalse, hfind]
  rw [parse_eq, hturns]
  exact turns_encoded hcr parts _ hdrop

/-- A text without a file. -/
def note : FormPart (lit "B") where
  name := ⟨lit "note", by decide⟩
  content := lit "two files"
  name_nonempty := by decide
  others_line := by simp
  others_field := by simp
  content_free := by decide

/-- A file with its type, whose content ends in the beginning of a delimiter. -/
def upload : FormPart (lit "B") where
  name := ⟨lit "f", by decide⟩
  filename := some ⟨lit "a.txt", by decide⟩
  contentType := some ⟨lit "text/plain", by decide, by decide +kernel, by decide +kernel⟩
  content := lit "x" ++ crlf ++ crlf ++ lit "--A" ++ crlf ++ lit "--"
  name_nonempty := by decide
  others_line := by simp
  others_field := by simp
  content_free := by decide

/-- Its lines as they come. -/
def writtenNote : WrittenPart (lit "B") := ⟨note, note.headerLines, List.Perm.refl _⟩

/-- The lines of the other one, the type in front. -/
def writtenUpload : WrittenPart (lit "B") :=
  ⟨upload, upload.headerLines.reverse, List.reverse_perm _⟩

theorem parse_encode_upload :
    (parse ⟨0, encode (lit "B") [writtenNote, writtenUpload] crlf⟩ (lit "B")).map
        MultipartPart.text = [note.text, upload.text] :=
  parse_encode (by decide) (by decide) [writtenNote, writtenUpload] crlf rfl

end Multipart

end Oreshnek
