import Oreshnek.Http.Dates
import Oreshnek.Http.Parser
import Oreshnek.Http.Response

/-!
# The header block of a response, read back

`build_headers_string` writes the headers as they are. `crlfLines` splits a text at every
CRLF and `splitField` a line at its first `: `; what they make of a text with a CRLF in the
middle of a piece is told by `crlfLines_append`. The headers are read back from the block
exactly when no value has a CRLF in it (`parses_back_iff`).
-/

namespace Oreshnek

/-! ## Lines -/

/-- The complete lines of a text, and what follows the last CRLF. -/
def crlfLines (b : Bytes) : List Bytes × Bytes :=
  match h : Search.find crlf b with
  | none => ([], b)
  | some e =>
      let t := crlfLines (b.drop (e + 2))
      (b.take e :: t.1, t.2)
termination_by b.length
decreasing_by exact drop_line_lt h

theorem crlfLines_more {b : Bytes} (h : ¬ crlf <:+: b) : crlfLines b = ([], b) := by
  rw [crlfLines]
  exact match_find_more h _ _

theorem crlfLines_line {l : Bytes} (h : ¬ crlf <:+: l) (rest : Bytes) :
    crlfLines (l ++ crlf ++ rest) = (l :: (crlfLines rest).1, (crlfLines rest).2) := by
  rw [crlfLines]
  refine (match_find_line h rfl _ _).trans ?_
  rw [take_line, drop_line]

/-- The lines of a piece that is followed by a CRLF. -/
def pieceLines (b : Bytes) : List Bytes := (crlfLines b).1 ++ [(crlfLines b).2]

/-- A CRLF ends a line wherever it stands. -/
theorem crlfLines_append (a b : Bytes) :
    crlfLines (a ++ crlf ++ b) = (pieceLines a ++ (crlfLines b).1, (crlfLines b).2) := by
  unfold pieceLines
  induction a using line_induction with
  | stop a ha =>
      rw [crlfLines_line ha, crlfLines_more ha]
      rfl
  | line l rest hl ih =>
      have hassoc : l ++ crlf ++ rest ++ crlf ++ b = l ++ crlf ++ (rest ++ crlf ++ b) := by
        simp only [List.append_assoc]
      rw [hassoc, crlfLines_line hl, ih, crlfLines_line hl]
      rfl

theorem pieceLines_single {b : Bytes} (h : ¬ crlf <:+: b) : pieceLines b = [b] := by
  unfold pieceLines
  rw [crlfLines_more h]
  rfl

theorem pieceLines_line {l : Bytes} (h : ¬ crlf <:+: l) (rest : Bytes) :
    pieceLines (l ++ crlf ++ rest) = l :: pieceLines rest := by
  unfold pieceLines
  rw [crlfLines_line h]
  rfl

/-- A piece with a CRLF in it is more than one line. -/
theorem pieceLines_length_iff {b : Bytes} : (pieceLines b).length = 1 ↔ ¬ crlf <:+: b := by
  constructor
  · rintro hone ⟨s, t, rfl⟩
    unfold pieceLines at hone
    rw [crlfLines_append] at hone
    unfold pieceLines at hone
    simp only [List.length_append, List.length_singleton] at hone
    omega
  · intro h
    rw [pieceLines_single h]
    rfl

theorem pieceLines_length_pos (b : Bytes) : 1 ≤ (pieceLines b).length := by
  unfold pieceLines
  simp

/-! ## Fields -/

/-- A line split at its first `: `. -/
def splitField (l : Bytes) : Option (Bytes × Bytes) :=
  (Search.find (lit ": ") l).map fun i => (l.take i, l.drop (i + 2))

/-- A field line splits at its first colon. -/
theorem splitField_field {n : Bytes} (v : Bytes) (h : 58 ∉ n) :
    splitField (n ++ lit ": " ++ v) = some (n, v) := by
  have hub : Search.Unbordered (lit ": ") := by
    intro k hpos hlt
    have : (lit ": ").length = 2 := rfl
    obtain rfl : k = 1 := by omega
    decide
  have hn : ¬ lit ": " <:+: n := fun hin => h (hin.subset (by decide))
  have hdrop : (n ++ lit ": " ++ v).drop (n.length + 2) = v := by
    have : (n ++ lit ": ").length = n.length + 2 := by simp [lit]
    rw [← this, List.drop_left]
  unfold splitField
  rw [Search.find_delim hub hn, Option.map_some, hdrop, List.append_assoc, List.take_left]

/-- A character of a token. -/
def tokenChar (c : UInt8) : Bool :=
  isdigit c || (65 ≤ c && c ≤ 90) || (97 ≤ c && c ≤ 122) || c ∈ lit "!#$%&'*+-.^_|~" || c == 96

/-- A header name: a token. -/
structure Token (name : Bytes) : Prop where
  nonempty : name ≠ []
  chars : name.all tokenChar = true

theorem Token.not_mem {name : Bytes} (h : Token name) {c : UInt8} (hc : tokenChar c = false) :
    c ∉ name := by
  intro hin
  have := List.all_eq_true.1 h.chars c hin
  rw [hc] at this
  cases this

/-! ## The block -/

/-- `HTTP/1.1`, the status code and its reason. -/
def statusLine (r : HttpResponse) : Bytes :=
  lit "HTTP/1.1 " ++ toString_ r.status.code ++ lit " " ++ r.status.toBytes

/-- A field as it is written, without its CRLF. -/
def fieldText (name value : Bytes) : Bytes := name ++ lit ": " ++ value

/-- The lines of the block, whatever the values hold. -/
theorem buildHeadersString_lines (r : HttpResponse) (date : Bytes) :
    crlfLines (r.buildHeadersString date) =
      (pieceLines (statusLine r) ++ (pieceLines (fieldText (lit "Date") date) ++
        ((r.headers.entries.flatMap fun e => pieceLines (fieldText e.1 e.2)) ++ [[]])), []) := by
  have hfields : ∀ es : List (Sigma fun _ : Bytes => Bytes),
      crlfLines ((es.flatMap fun e => e.1 ++ lit ": " ++ e.2 ++ crlf) ++ crlf) =
        ((es.flatMap fun e => pieceLines (fieldText e.1 e.2)) ++ [[]], []) := by
    intro es
    induction es with
    | nil =>
        have hblank := crlfLines_line (l := []) (by decide) []
        have hnil : crlfLines [] = ([], []) := crlfLines_more (by decide)
        rw [hnil] at hblank
        exact hblank
    | cons e es ih =>
        have hsplit : ((e :: es).flatMap fun e => e.1 ++ lit ": " ++ e.2 ++ crlf) ++ crlf =
            fieldText e.1 e.2 ++ crlf ++
              ((es.flatMap fun e => e.1 ++ lit ": " ++ e.2 ++ crlf) ++ crlf) := by
          unfold fieldText
          simp only [List.flatMap_cons, List.append_assoc]
        rw [hsplit, crlfLines_append, ih, List.flatMap_cons, List.append_assoc]
  have hblock : r.buildHeadersString date =
      statusLine r ++ crlf ++ (fieldText (lit "Date") date ++ crlf ++
        ((r.headers.entries.flatMap fun e => e.1 ++ lit ": " ++ e.2 ++ crlf) ++ crlf)) := by
    have hdate : lit "Date: " = lit "Date" ++ lit ": " := by decide
    unfold HttpResponse.buildHeadersString statusLine fieldText
    rw [hdate]
    simp only [List.append_assoc]
  rw [hblock, crlfLines_append, crlfLines_append, hfields]

/-! ## The pieces the server writes itself -/

theorem not_infix_crlf {b : Bytes} (h : 13 ∉ b) : ¬ crlf <:+: b :=
  fun hin => h (hin.subset (by decide))

theorem toString_no_cr (n : Nat) : (13 : UInt8) ∉ toString_ n := by
  intro h
  have := (toString_spec n).2.1 13 h
  exact absurd this (by decide)

/-- A status line has no line end in it. -/
theorem statusLine_no_crlf (r : HttpResponse) : ¬ crlf <:+: statusLine r := by
  have hreason : ∀ s : HttpStatus, (13 : UInt8) ∉ s.toBytes := by
    intro s
    cases s <;> decide
  refine not_infix_crlf ?_
  unfold statusLine
  simp only [List.mem_append, not_or]
  exact ⟨⟨⟨by decide, toString_no_cr _⟩, by decide⟩, hreason _⟩

theorem padded_no_cr (width n : Nat) : (13 : UInt8) ∉ padded width n := by
  unfold padded
  rw [List.mem_append, not_or]
  constructor
  · intro h
    exact absurd (List.eq_of_mem_replicate h) (by decide)
  · exact toString_no_cr n

/-- An entry of a table without CR, cut to three letters. -/
theorem name_no_cr {names : List Bytes} (h : ∀ name ∈ names, (13 : UInt8) ∉ name) (i : Nat) :
    (13 : UInt8) ∉ (names.getD i []).take 3 := by
  intro hin
  have hname := List.mem_of_mem_take hin
  rw [List.getD_eq_getElem?_getD] at hname
  cases hget : names[i]? with
  | none =>
      rw [hget] at hname
      cases hname
  | some name =>
      rw [hget] at hname
      exact h name (List.mem_of_getElem? hget) hname

/-- A date is written on one line. -/
theorem httpDate_no_crlf (t : Int) : ¬ crlf <:+: httpDate t := by
  have hdays : ∀ name ∈ dayNames, (13 : UInt8) ∉ name := by decide
  have hmonths : ∀ name ∈ monthNames, (13 : UInt8) ∉ name := by decide
  have hyear : ∀ y : Int, (13 : UInt8) ∉
      (if y < 0 then 45 :: padded 3 y.natAbs else padded 4 y.natAbs) := by
    intro y
    split
    · rw [List.mem_cons, not_or]
      exact ⟨by decide, padded_no_cr _ _⟩
    · exact padded_no_cr _ _
  refine not_infix_crlf ?_
  unfold httpDate
  simp only [List.mem_append, not_or, and_assoc]
  exact ⟨name_no_cr hdays _, by decide, padded_no_cr _ _, by decide, name_no_cr hmonths _,
    by decide, hyear _, by decide, padded_no_cr _ _, by decide, padded_no_cr _ _, by decide,
    padded_no_cr _ _, by decide⟩

/-! ## Reading it back -/

/-- The text consists of a status line, a line for each field and an empty line at its end; no
other line is empty. -/
def ParsesBack (text status : Bytes) (fields : List (Bytes × Bytes)) : Prop :=
  ∃ ls, crlfLines text = (status :: (ls ++ [[]]), []) ∧ [] ∉ status :: ls ∧
    ls.map splitField = fields.map some

/-- The header map as a list of fields. -/
def headerFields (r : HttpResponse) : List (Bytes × Bytes) :=
  r.headers.entries.map fun e => (e.1, e.2)

theorem fieldText_ne_nil (name value : Bytes) : fieldText name value ≠ [] := by
  unfold fieldText
  simp [lit]

theorem fieldText_crlf {name value : Bytes} (h : crlf <:+: value) :
    crlf <:+: fieldText name value :=
  h.trans (List.suffix_append _ _).isInfix

/-- A token, a colon and a value without CRLF are one line. -/
theorem fieldText_no_crlf {name value : Bytes} (hname : Token name) (h : ¬ crlf <:+: value) :
    ¬ crlf <:+: fieldText name value := by
  have hcolon : 13 ∉ name ++ lit ": " := by
    rw [List.mem_append, not_or]
    exact ⟨hname.not_mem (by decide), by decide⟩
  unfold fieldText
  intro hin
  -- without a CR in front, it would stand in the value
  generalize name ++ lit ": " = front at hcolon hin
  induction front with
  | nil => exact h hin
  | cons c front ih =>
      rw [List.cons_append, List.infix_cons_iff] at hin
      rcases hin with hpre | hin
      · have hfirst : (13 : UInt8) = c := (List.cons_prefix_cons.1 hpre).1
        exact hcolon (hfirst ▸ List.mem_cons_self)
      · exact ih (List.not_mem_of_not_mem_cons hcolon) hin

/-- The lines before the fields are the server's own. -/
theorem buildHeadersString_fieldLines (r : HttpResponse) (now : Int) :
    crlfLines (r.buildHeadersString (httpDate now)) =
      (statusLine r :: (fieldText (lit "Date") (httpDate now) ::
        (r.headers.entries.flatMap fun e => pieceLines (fieldText e.1 e.2)) ++ [[]]), []) := by
  have hdateLine : ¬ crlf <:+: fieldText (lit "Date") (httpDate now) :=
    fieldText_no_crlf ⟨by decide, by decide⟩ (httpDate_no_crlf now)
  rw [buildHeadersString_lines, pieceLines_single (statusLine_no_crlf r),
    pieceLines_single hdateLine]
  rfl

/-- Pieces that are as many lines as there are pieces are a line each. -/
theorem pieceLines_one {es : List (Sigma fun _ : Bytes => Bytes)}
    (h : (es.flatMap fun e => pieceLines (fieldText e.1 e.2)).length = es.length) :
    ∀ e ∈ es, (pieceLines (fieldText e.1 e.2)).length = 1 := by
  have hge : ∀ es : List (Sigma fun _ : Bytes => Bytes),
      es.length ≤ (es.flatMap fun e => pieceLines (fieldText e.1 e.2)).length := by
    intro es
    induction es with
    | nil => exact Nat.le_refl _
    | cons e es ih =>
        have hpos := pieceLines_length_pos (fieldText e.1 e.2)
        rw [List.flatMap_cons, List.length_append, List.length_cons]
        omega
  induction es with
  | nil =>
      intro e he
      cases he
  | cons e es ih =>
      have hpos := pieceLines_length_pos (fieldText e.1 e.2)
      have hrest := hge es
      rw [List.flatMap_cons, List.length_append, List.length_cons] at h
      intro e' he'
      rcases List.mem_cons.1 he' with rfl | hin
      · omega
      · exact ih (by omega) e' hin

/-- A block that reads back has no CRLF in a value: the number of its lines leaves one to each
field. -/
theorem ParsesBack.no_crlf {r : HttpResponse} {now : Int}
    (h : ParsesBack (r.buildHeadersString (httpDate now)) (statusLine r)
      ((lit "Date", httpDate now) :: headerFields r)) {name value : Bytes}
    (hvalue : r.headers.lookup name = some value) : ¬ crlf <:+: value := by
  obtain ⟨ls, hlines, -, hfields⟩ := h
  rw [buildHeadersString_fieldLines] at hlines
  have hmem : (⟨name, value⟩ : Sigma fun _ : Bytes => Bytes) ∈ r.headers.entries :=
    AList.mem_lookup_iff.1 hvalue
  have hcount : (r.headers.entries.flatMap
      fun e => pieceLines (fieldText e.1 e.2)).length = r.headers.entries.length := by
    have htotal := congrArg List.length (Prod.mk.inj hlines).1
    have hls := congrArg List.length hfields
    unfold headerFields at hls
    simp only [List.length_append, List.length_cons, List.length_nil, List.length_map]
      at htotal hls
    omega
  intro hcrlf
  exact pieceLines_length_iff.1 (pieceLines_one hcount _ hmem) (fieldText_crlf hcrlf)

/-- A header block without CRLF in its values is read back line by line. -/
theorem parsesBack_of_no_crlf {r : HttpResponse} (now : Int)
    (hnames : ∀ name ∈ r.headers.keys, Token name)
    (h : ∀ name value, r.headers.lookup name = some value → ¬ crlf <:+: value) :
    ParsesBack (r.buildHeadersString (httpDate now)) (statusLine r)
      ((lit "Date", httpDate now) :: headerFields r) := by
  have htoken : ∀ e ∈ r.headers.entries, Token e.1 := by
    intro e he
    exact hnames e.1 (List.mem_map_of_mem he)
  have hlines : ∀ es : List (Sigma fun _ : Bytes => Bytes),
      (∀ e ∈ es, e ∈ r.headers.entries) →
      (es.flatMap fun e => pieceLines (fieldText e.1 e.2)) =
        es.map fun e => fieldText e.1 e.2 := by
    intro es hes
    induction es with
    | nil => rfl
    | cons e es ih =>
        have he := hes e List.mem_cons_self
        have hline := fieldText_no_crlf (htoken e he) (h e.1 e.2 (AList.mem_lookup_iff.2 he))
        rw [List.flatMap_cons, List.map_cons, pieceLines_single hline,
          ih fun e' he' => hes e' (List.mem_cons_of_mem _ he')]
        rfl
  refine ⟨fieldText (lit "Date") (httpDate now) ::
    r.headers.entries.map fun e => fieldText e.1 e.2, ?_, ?_, ?_⟩
  · rw [buildHeadersString_fieldLines, hlines _ fun _ he => he]
  · -- the status line and the fields are not empty
    intro hin
    rcases List.mem_cons.1 hin with hstatus | hin
    · exact absurd hstatus.symm (by simp [statusLine, lit])
    · rcases List.mem_cons.1 hin with hline | hin
      · exact fieldText_ne_nil _ _ hline.symm
      · obtain ⟨e, -, hline⟩ := List.mem_map.1 hin
        exact fieldText_ne_nil _ _ hline
  · unfold headerFields
    rw [List.map_cons, List.map_cons, List.map_map, List.map_map]
    refine congrArg₂ List.cons (splitField_field _ (by decide)) ?_
    refine List.map_congr_left fun e he => ?_
    exact splitField_field _ ((htoken e he).not_mem (by decide))

/-- **Header blocks.** The header block reads back as the status line, the date and exactly the
headers that were set, with its only empty line at the end, if and only if no value has a CRLF
in it: a value is written as it is. -/
theorem parses_back_iff (r : HttpResponse) (now : Int)
    (hnames : ∀ name ∈ r.headers.keys, Token name) :
    ParsesBack (r.buildHeadersString (httpDate now)) (statusLine r)
        ((lit "Date", httpDate now) :: headerFields r) ↔
      ∀ name value, r.headers.lookup name = some value → ¬ crlf <:+: value := by
  constructor
  · intro h name value hvalue
    exact h.no_crlf hvalue
  · intro h
    exact parsesBack_of_no_crlf now hnames h

/-- A response as a handler makes it. -/
def pinged : HttpResponse := (HttpResponse.new.text (lit "pong")).header (lit "X") (lit "a: b")

/-- A response with one header of its own. -/
theorem parses_back_iff_pinged :
    ParsesBack (pinged.buildHeadersString (httpDate 0)) (statusLine pinged)
        ((lit "Date", httpDate 0) :: headerFields pinged) ↔
      ∀ name value, pinged.headers.lookup name = some value → ¬ crlf <:+: value :=
  parses_back_iff pinged 0 (show ∀ name ∈ pinged.headers.keys, Token name by
    have hkeys : pinged.headers.keys = [lit "X", lit "Content-Type", lit "Content-Length",
        lit "Connection", lit "Server"] := by decide
    intro name hname
    rw [hkeys] at hname
    simp only [List.mem_cons, List.not_mem_nil, or_false] at hname
    rcases hname with rfl | rfl | rfl | rfl | rfl
    · exact ⟨by decide, by decide⟩
    · exact ⟨by decide, by decide⟩
    · exact ⟨by decide, by decide⟩
    · exact ⟨by decide, by decide⟩
    · exact ⟨by decide, by decide⟩)

/-- A value with a CRLF adds a header. -/
theorem header_line_added :
    ¬ ∀ (r : HttpResponse) (now : Int), (∀ name ∈ r.headers.keys, Token name) →
      ParsesBack (r.buildHeadersString (httpDate now)) (statusLine r)
        ((lit "Date", httpDate now) :: headerFields r) := by
  intro h
  have hback := h (HttpResponse.new.header (lit "X") (lit "a\r\nSet-Cookie: b")) 0 (by
    have hkeys : (HttpResponse.new.header (lit "X") (lit "a\r\nSet-Cookie: b")).headers.keys =
        [lit "X", lit "Connection", lit "Server"] := by decide
    intro name hname
    rw [hkeys] at hname
    simp only [List.mem_cons, List.not_mem_nil, or_false] at hname
    rcases hname with rfl | rfl | rfl
    · exact ⟨by decide, by decide⟩
    · exact ⟨by decide, by decide⟩
    · exact ⟨by decide, by decide⟩)
  have hvalue : (HttpResponse.new.header (lit "X") (lit "a\r\nSet-Cookie: b")).headers.lookup
      (lit "X") = some (lit "a\r\nSet-Cookie: b") := AList.lookup_insert _
  exact hback.no_crlf hvalue ⟨lit "a", lit "Set-Cookie: b", by decide⟩

end Oreshnek
