import Oreshnek.Lib.Quoted
import Oreshnek.Http.Multipart

/-!
# The parameters of a `Content-Disposition` line

`quoted_attr` looks for `name="` anywhere in the line, so that it may stop at a longer key
that ends in the word or inside a value. `readAttr` says what it reads in a line with these
parameters (`attrText_line`), `paramValue` what the parameter of exactly this key holds. The
two are the same exactly for the lines that are `Unmistaken`.
-/

namespace Oreshnek

namespace Multipart

/-! ## The line -/

/-- A byte of a key. -/
def keyByte (c : UInt8) : Bool := !(lit "=; \t\r\n").contains c && c != 34

/-- A byte of a quoted value. -/
def valueByte (c : UInt8) : Bool := c != 34 && c != 13 && c != 10

/-- A byte of the disposition type, or of the blanks around it. -/
def typeByte (c : UInt8) : Bool := valueByte c && c != 59

/-- A parameter and the semicolon before it, with blanks on either side. -/
structure Param where
  before : Bytes
  after : Bytes
  key : Bytes
  value : Bytes
  before_blank : before.all blank = true
  after_blank : after.all blank = true
  key_nonempty : key ≠ []
  key_bytes : key.all keyByte = true
  value_bytes : value.all valueByte = true

/-- `; key="value"`. -/
def Param.plain (key value : Bytes) (hne : key ≠ []) (hkey : key.all keyByte = true)
    (hvalue : value.all valueByte = true) : Param where
  before := []
  after := lit " "
  key := key
  value := value
  before_blank := by decide
  after_blank := by decide
  key_nonempty := hne
  key_bytes := hkey
  value_bytes := hvalue

/-- A `Content-Disposition` line. Its name may be in any letter case. -/
structure Disposition where
  header : Bytes
  type : Bytes
  params : List Param
  header_name : header.map tolower = dispositionField
  type_bytes : type.all typeByte = true
  distinct : (params.map Param.key).Nodup

/-- `Content-Disposition: form-data` and parameters. -/
def Disposition.formData (params : List Param) (h : (params.map Param.key).Nodup) :
    Disposition where
  header := lit "Content-Disposition:"
  type := lit " form-data"
  params := params
  header_name := by decide
  type_bytes := by decide
  distinct := h

theorem name_nonempty : lit "name" ≠ [] := by decide

theorem name_bytes : (lit "name").all keyByte = true := by decide

theorem filename_nonempty : lit "filename" ≠ [] := by decide

theorem filename_bytes : (lit "filename").all keyByte = true := by decide

/-- What stands before the value. -/
def Param.lead (p : Param) : Bytes := p.before ++ 59 :: (p.after ++ p.key ++ [61])

/-- The parameters as they are written. -/
def paramsText (ps : List Param) : Bytes := Quoted.pieces 34 (ps.map fun p => (p.lead, p.value))

/-- The line. -/
def Disposition.line (d : Disposition) : Bytes := d.header ++ d.type ++ paramsText d.params

/-- The value of the parameter with exactly this key, empty without one. -/
def paramValue (attr : Bytes) : List Param → Bytes
  | [] => []
  | p :: ps => if p.key = attr then p.value else paramValue attr ps

/-- What stands between a value and the next one. -/
def nextLead : List Param → Bytes
  | [] => []
  | p :: _ => p.lead

/-- What `quoted_attr` reads: the value of the first key that ends in the word, or what
follows the first value that ends in the word and `=`. -/
def readAttr (attr : Bytes) : List Param → Bytes
  | [] => []
  | p :: ps =>
      if attr <:+ p.key then p.value
      else if attr ++ [61] <:+ p.value then nextLead ps
      else readAttr attr ps

/-- The search is not misled: the first place where it can stop is the parameter itself, or
what is read there happens to be its value. -/
def Unmistaken (attr : Bytes) : List Param → Prop
  | [] => True
  | p :: ps =>
      if p.key = attr then True
      else if attr <:+ p.key then p.value = paramValue attr ps
      else if attr ++ [61] <:+ p.value then nextLead ps = paramValue attr ps
      else Unmistaken attr ps

instance decidableUnmistaken (attr : Bytes) : (ps : List Param) → Decidable (Unmistaken attr ps)
  | [] => isTrue trivial
  | p :: ps =>
      have := decidableUnmistaken attr ps
      inferInstanceAs (Decidable
        (if p.key = attr then True
        else if attr <:+ p.key then p.value = paramValue attr ps
        else if attr ++ [61] <:+ p.value then nextLead ps = paramValue attr ps
        else Unmistaken attr ps))

/-- **Unmistaken** is exactly what makes the text that is read the value. -/
theorem readAttr_eq_iff (attr : Bytes) (ps : List Param) :
    readAttr attr ps = paramValue attr ps ↔ Unmistaken attr ps := by
  induction ps with
  | nil => exact iff_of_true rfl trivial
  | cons p ps ih =>
      unfold readAttr paramValue Unmistaken
      by_cases hkey : p.key = attr
      · have hsuffix : attr <:+ p.key := hkey ▸ List.suffix_refl _
        rw [if_pos hsuffix, if_pos hkey, if_pos hkey]
        exact iff_of_true rfl trivial
      · by_cases hsuffix : attr <:+ p.key
        · simp only [hkey, hsuffix, if_true, if_false]
        · by_cases hvalue : attr ++ [61] <:+ p.value
          · simp only [hkey, hsuffix, hvalue, if_true, if_false]
          · simp only [hkey, hsuffix, hvalue, if_false]
            exact ih

/-! ## The search -/

theorem not_mem_of_all {f : UInt8 → Bool} {b : Bytes} (h : b.all f = true) {c : UInt8}
    (hc : f c = false) : c ∉ b := by
  intro hin
  have := List.all_eq_true.1 h c hin
  rw [hc] at this
  cases this

/-- A byte that is neither `;`, `=` nor one of those a key and blanks are made of. -/
theorem Param.lead_not_mem (p : Param) {c : UInt8} (hblank : blank c = false)
    (hkey : keyByte c = false) (hne : c ≠ 59 ∧ c ≠ 61) : c ∉ p.lead := by
  have hbefore := not_mem_of_all p.before_blank hblank
  have hafter := not_mem_of_all p.after_blank hblank
  have hin := not_mem_of_all p.key_bytes hkey
  unfold Param.lead
  simp [hbefore, hafter, hin, hne]

theorem Param.lead_no_quote (p : Param) : 34 ∉ p.lead :=
  p.lead_not_mem (by decide) (by decide) (by decide)

theorem Param.value_no_quote (p : Param) : 34 ∉ p.value := not_mem_of_all p.value_bytes (by decide)

theorem paramsText_cons (p : Param) (ps : List Param) :
    paramsText (p :: ps) = p.lead ++ 34 :: (p.value ++ 34 :: paramsText ps) :=
  Quoted.pieces_cons 34 _ _

theorem Disposition.header_not_mem (d : Disposition) {c : UInt8}
    (hc : tolower c ∉ dispositionField) : c ∉ d.header := by
  intro hin
  have hmem : tolower c ∈ d.header.map tolower := List.mem_map_of_mem hin
  rw [d.header_name] at hmem
  exact hc hmem

/-- It is one line. -/
theorem Disposition.line_no_crlf (d : Disposition) : ¬ crlf <:+: d.line := by
  have hparams : ∀ ps : List Param, 13 ∉ paramsText ps := by
    intro ps
    induction ps with
    | nil => exact List.not_mem_nil
    | cons p ps ih =>
        have hlead := p.lead_not_mem (c := 13) (by decide) (by decide) (by decide)
        have hvalue := not_mem_of_all p.value_bytes (c := 13) (by decide)
        rw [paramsText_cons]
        simp [hlead, hvalue, ih]
  have hheader : 13 ∉ d.header := d.header_not_mem (by decide)
  have htype : 13 ∉ d.type := not_mem_of_all d.type_bytes (by decide)
  refine not_infix_crlf ?_
  unfold Disposition.line
  simp [hheader, htype, hparams]

/-- The words that are looked for: neither `"` nor `;` nor a blank is in them. -/
structure Word (attr : Bytes) : Prop where
  no_quote : 34 ∉ attr
  no_semicolon : 59 ∉ attr
  no_blank : attr.all (fun c => !blank c) = true

theorem word_name : Word (lit "name") := ⟨by decide, by decide, by decide⟩

theorem word_filename : Word (lit "filename") := ⟨by decide, by decide, by decide⟩

/-- Only the end of the key counts. -/
theorem suffix_lead_iff {attr : Bytes} (hw : Word attr) (front : Bytes) (p : Param) :
    attr ++ [61] <:+ front ++ p.lead ↔ attr <:+ p.key := by
  have hlead : front ++ p.lead = front ++ p.before ++ 59 :: (p.after ++ p.key) ++ [61] := by
    unfold Param.lead
    simp only [List.append_assoc, List.cons_append]
  have hblanks : ∀ blanks : Bytes, blanks.all blank = true →
      (attr <:+ blanks ++ p.key ↔ attr <:+ p.key) := by
    intro blanks hall
    induction blanks with
    | nil => exact Iff.rfl
    | cons c blanks ih =>
        rw [List.all_cons, Bool.and_eq_true] at hall
        have hc : c ∉ attr := not_mem_of_all hw.no_blank (by rw [hall.1]; rfl)
        exact (Quoted.suffix_append_cons_iff hc [] _).trans (ih hall.2)
  rw [hlead, List.suffix_append_self_iff, Quoted.suffix_append_cons_iff hw.no_semicolon,
    hblanks _ p.after_blank]

/-- The search from one quote to the next. -/
theorem attrText_stretch {attr s : Bytes} (hattr : 34 ∉ attr) (hs : 34 ∉ s) (rest : Bytes) :
    attrText attr (s ++ 34 :: rest) =
      if attr ++ [61] <:+ s then upToQuote rest else attrText attr rest := by
  have hw : 34 ∉ attr ++ [61] := by simp [hattr]
  unfold attrText
  rw [Quoted.find_closed hw hs]
  by_cases hin : attr ++ [61] <:+ s
  · -- the needle ends at this quote
    have hle := hin.length_le
    rw [List.length_append, List.length_singleton] at hle
    have hdrop : (s ++ 34 :: rest).drop (s.length - (attr ++ [61]).length + (attr.length + 2)) =
        rest := by
      have hlen : s.length - (attr ++ [61]).length + (attr.length + 2) = s.length + 1 := by
        rw [List.length_append, List.length_singleton]
        omega
      rw [hlen, ← List.drop_drop, List.drop_left]
      rfl
    rw [if_pos hin, if_pos hin]
    dsimp only
    rw [hdrop]
  · rw [if_neg hin, if_neg hin]
    cases Search.find (attr ++ [61] ++ [34]) rest with
    | none => rfl
    | some i =>
        have hdrop : (s ++ 34 :: rest).drop (i + (s.length + 1) + (attr.length + 2)) =
            rest.drop (i + (attr.length + 2)) := by
          have hlen : i + (s.length + 1) + (attr.length + 2) =
              s.length + (1 + (i + (attr.length + 2))) := by omega
          rw [hlen, ← List.drop_drop, List.drop_left, ← List.drop_drop]
          rfl
        rw [Option.map_some]
        dsimp only
        rw [hdrop]

/-- Without a quote nothing is found. -/
theorem attrText_no_quote (attr : Bytes) {b : Bytes} (h : 34 ∉ b) : attrText attr b = [] := by
  have hnone : Search.find (attr ++ [61] ++ [34]) b = none := by
    rw [Search.find_eq_none_iff]
    intro hin
    exact h (hin.subset (by simp))
  unfold attrText
  rw [hnone]

theorem upToQuote_closed {s : Bytes} (h : 34 ∉ s) (rest : Bytes) :
    upToQuote (s ++ 34 :: rest) = s := by
  unfold upToQuote
  rw [Search.find_singleton h]
  exact List.take_left

theorem upToQuote_paramsText (ps : List Param) : upToQuote (paramsText ps) = nextLead ps := by
  cases ps with
  | nil => rfl
  | cons p ps =>
      rw [paramsText_cons]
      exact upToQuote_closed p.lead_no_quote _

/-- **What `quoted_attr` reads** in the parameters, whatever stands before them. -/
theorem attrText_params {attr : Bytes} (hw : Word attr) {front : Bytes} (hfront : 34 ∉ front)
    (ps : List Param) : attrText attr (front ++ paramsText ps) = readAttr attr ps := by
  induction ps generalizing front with
  | nil =>
      have hnil : front ++ paramsText [] = front := List.append_nil front
      rw [hnil, attrText_no_quote attr hfront]
      rfl
  | cons p ps ih =>
      have hlead : 34 ∉ front ++ p.lead := by
        rw [List.mem_append, not_or]
        exact ⟨hfront, p.lead_no_quote⟩
      rw [paramsText_cons, ← List.append_assoc, attrText_stretch hw.no_quote hlead]
      unfold readAttr
      by_cases hkey : attr <:+ p.key
      · rw [if_pos ((suffix_lead_iff hw front p).2 hkey), if_pos hkey,
          upToQuote_closed p.value_no_quote]
      · rw [if_neg fun h => hkey ((suffix_lead_iff hw front p).1 h), if_neg hkey,
          attrText_stretch hw.no_quote p.value_no_quote, upToQuote_paramsText]
        by_cases hvalue : attr ++ [61] <:+ p.value
        · rw [if_pos hvalue, if_pos hvalue]
        · rw [if_neg hvalue, if_neg hvalue]
          exact @ih [] List.not_mem_nil

/-- An attribute is read from the line as from its parameters. -/
theorem attrText_line {attr : Bytes} (hw : Word attr) (d : Disposition) :
    attrText attr d.line = readAttr attr d.params := by
  have htype : 34 ∉ d.type := not_mem_of_all d.type_bytes (by decide)
  have hheader : 34 ∉ d.header := d.header_not_mem (by decide)
  refine attrText_params hw ?_ d.params
  rw [List.mem_append, not_or]
  exact ⟨hheader, htype⟩

/-! ## The header block -/

/-- What no line of a block changes is kept. -/
theorem foldl_withLine_keep {β : Type} (f : PartText → β) {ls : List Bytes}
    (h : ∀ l ∈ ls, ∀ p : PartText, f (p.withLine l) = f p) (p : PartText) :
    f (ls.foldl PartText.withLine p) = f p := by
  induction ls generalizing p with
  | nil => rfl
  | cons l ls ih =>
      rw [List.foldl_cons, ih (fun l' hl' => h l' (List.mem_cons_of_mem _ hl')),
        h l List.mem_cons_self]

/-- A line of another name leaves the name and the filename. -/
theorem withLine_other {l : Bytes} (h : ¬ IsField dispositionField l) (p : PartText) :
    (p.withLine l).name = p.name ∧ (p.withLine l).filename = p.filename := by
  unfold PartText.withLine
  rw [if_neg h]
  split
  · exact ⟨rfl, rfl⟩
  · exact ⟨rfl, rfl⟩

theorem Disposition.isField (d : Disposition) : IsField dispositionField d.line := by
  unfold IsField Disposition.line
  rw [List.append_assoc, List.map_append, d.header_name]
  exact List.prefix_append _ _

/-- The last `Content-Disposition` line of a block. -/
def lastDisposition (ls : List Bytes) : Option Bytes :=
  ls.reverse.find? fun l => decide (IsField dispositionField l)

/-- The last line of this name counts. -/
theorem lastDisposition_eq {before after : List Bytes} {l : Bytes}
    (hl : IsField dispositionField l) (hafter : ∀ l' ∈ after, ¬ IsField dispositionField l') :
    lastDisposition (before ++ l :: after) = some l := by
  have hnone : after.reverse.find? (fun l => decide (IsField dispositionField l)) = none := by
    rw [List.find?_eq_none]
    intro l' hl'
    simpa using hafter l' (List.mem_reverse.1 hl')
  unfold lastDisposition
  rw [List.reverse_append, List.reverse_cons, List.append_assoc, List.find?_append, hnone,
    List.singleton_append, List.find?_cons, decide_eq_true hl]
  rfl

/-- It names the part, each such line replacing what the one before it said. -/
theorem foldl_withLine_names (ls : List Bytes) (p : PartText) :
    (ls.foldl PartText.withLine p).name =
        (lastDisposition ls).elim p.name (attrText (lit "name")) ∧
      (ls.foldl PartText.withLine p).filename =
        (lastDisposition ls).elim p.filename (attrText (lit "filename")) := by
  unfold lastDisposition
  induction ls using List.reverseRecOn with
  | nil => exact ⟨rfl, rfl⟩
  | append_singleton ls l ih =>
      rw [List.foldl_append, List.foldl_cons, List.foldl_nil, List.reverse_append,
        List.reverse_singleton, List.singleton_append, List.find?_cons]
      by_cases hl : IsField dispositionField l
      · rw [decide_eq_true hl]
        unfold PartText.withLine
        rw [if_pos hl]
        exact ⟨rfl, rfl⟩
      · rw [decide_eq_false hl, (withLine_other hl _).1, (withLine_other hl _).2]
        exact ih

/-- **The name and the filename** of a part, from the last `Content-Disposition` line of its
headers, are the values of the parameters `name` and `filename` exactly when the search is
misled for neither. -/
theorem params_read_iff (headers : StringView) (part : MultipartPart) (d : Disposition)
    {before after : List Bytes} (hlines : pieceLines headers.bytes = before ++ d.line :: after)
    (hafter : ∀ l ∈ after, ¬ IsField dispositionField l) :
    ((parsePartHeaders headers part).name.bytes = paramValue (lit "name") d.params ∧
        (parsePartHeaders headers part).filename.bytes =
          paramValue (lit "filename") d.params) ↔
      Unmistaken (lit "name") d.params ∧ Unmistaken (lit "filename") d.params := by
  have htext := parsePartHeaders_text headers part
  obtain ⟨hname, hfilename⟩ := foldl_withLine_names (pieceLines headers.bytes) part.text
  rw [← htext, hlines, lastDisposition_eq d.isField hafter] at hname hfilename
  have hname' : (parsePartHeaders headers part).name.bytes = readAttr (lit "name") d.params :=
    hname.trans (attrText_line word_name d)
  have hfilename' : (parsePartHeaders headers part).filename.bytes =
      readAttr (lit "filename") d.params := hfilename.trans (attrText_line word_filename d)
  rw [hname', hfilename', readAttr_eq_iff, readAttr_eq_iff]

/-- The field and the file of an upload. -/
def avatarParam : Param := .plain (lit "name") (lit "avatar") name_nonempty name_bytes (by decide)

def fileParam : Param :=
  .plain (lit "filename") (lit "me.png") filename_nonempty filename_bytes (by decide)

/-- `name` before `filename`. -/
def avatarLine : Disposition := .formData [avatarParam, fileParam] (by decide)

/-- A line whose parameters are read as they are written. -/
theorem params_read_iff_avatar :
    (parsePartHeaders ⟨0, avatarLine.line⟩ {}).name.bytes =
        paramValue (lit "name") avatarLine.params ∧
      (parsePartHeaders ⟨0, avatarLine.line⟩ {}).filename.bytes =
        paramValue (lit "filename") avatarLine.params := by
  have hlines : pieceLines avatarLine.line = [] ++ avatarLine.line :: [] :=
    pieceLines_single (Disposition.line_no_crlf _)
  exact (params_read_iff ⟨0, avatarLine.line⟩ {} avatarLine hlines (by simp)).2
    ⟨by decide, by decide⟩

/-- The same parameters in the other order. -/
def swappedLine : Disposition := .formData [fileParam, avatarParam] (by decide)

/-- `filename=` before `name=`: the part is filed under the name of the file. -/
theorem filename_taken_for_name :
    (parsePartHeaders ⟨0, swappedLine.line⟩ {}).name.bytes = lit "me.png" ∧
      paramValue (lit "name") swappedLine.params = lit "avatar" := by
  have hlines : pieceLines swappedLine.line = [swappedLine.line] :=
    pieceLines_single swappedLine.line_no_crlf
  have hlast : lastDisposition [swappedLine.line] = some swappedLine.line :=
    @lastDisposition_eq [] [] _ swappedLine.isField (by simp)
  have htext := parsePartHeaders_text ⟨0, swappedLine.line⟩ {}
  have hname := (foldl_withLine_names (pieceLines swappedLine.line) {}).1
  rw [hlines, hlast] at hname
  rw [hlines] at htext
  constructor
  · refine (congrArg PartText.name htext).trans (hname.trans ?_)
    show attrText (lit "name") swappedLine.line = lit "me.png"
    decide
  · decide

end Multipart

end Oreshnek
