import Oreshnek.Http.HeaderText

/-!
# Multipart bodies

`Multipart::parse` and its helpers. The loop is told apart into its turns: `takeSegment` is
one turn, `none` where the loop leaves, and `turnsFrom` are the turns it completes, each with
its header block and its content. A part is pushed for a turn that finds a name
(`parse_eq`). What the headers of a part come to depends on the lines of the block only
(`parsePartHeaders_text`).
-/

namespace Oreshnek

/-! ## The parser -/

/-- `MultipartPart`. -/
structure MultipartPart where
  name : StringView := .empty
  filename : StringView := .empty
  contentType : StringView := .empty
  content : StringView := .empty
deriving DecidableEq, Repr

namespace Multipart

/-- `quoted_attr`. -/
def quotedAttr (line : StringView) (attr : Bytes) : StringView :=
  let needle := attr ++ [61, 34]
  match line.find needle with
  | none => .empty
  | some pos =>
      let pos := pos + needle.length
      match line.findFrom [34] pos with
      | none => .empty
      | some close => line.substr pos (close - pos)

/-- `iequals_prefix`. -/
def iequalsPrefix (s : StringView) (start : Bytes) : Bool :=
  if s.length < start.length then false
  else (s.bytes.zip start).all fun c => tolower c.1 == tolower c.2

/-- A blank of the first loop of `trim`. The second one takes CR for a blank as well. -/
def blank (c : UInt8) : Bool := c == 32 || c == 9

/-- `trim`. -/
def trim (s : StringView) : StringView :=
  let s := s.removePrefix (s.bytes.takeWhile blank).length
  ⟨s.pos, s.bytes.rdropWhile fun c => blank c || c == 13⟩

/-- The body of the loop of `parse_part_headers`. -/
def applyLine (line : StringView) (part : MultipartPart) : MultipartPart :=
  if iequalsPrefix line (lit "content-disposition:") then
    { part with
      name := quotedAttr line (lit "name")
      filename := quotedAttr line (lit "filename") }
  else if iequalsPrefix line (lit "content-type:") then
    { part with contentType := trim (line.substrFrom (lit "content-type:").length) }
  else part

/-- The loop of `parse_part_headers`, from `pos`. -/
def partHeadersFrom (headers : StringView) (pos : Nat) (part : MultipartPart) : MultipartPart :=
  if h : pos < headers.length then
    match heol : headers.findFrom crlf pos with
    | none => applyLine (headers.substrFrom pos) part
    | some eol =>
        partHeadersFrom headers (eol + 2) (applyLine (headers.substr pos (eol - pos)) part)
  else part
termination_by headers.length - pos
decreasing_by
  have := StringView.le_of_findFrom heol
  omega

/-- `parse_part_headers`. -/
def parsePartHeaders (headers : StringView) (part : MultipartPart) : MultipartPart :=
  partHeadersFrom headers 0 part

/-- What a turn of the loop of `parse` takes: the header block, the content and where the
next turn begins. -/
structure Turn where
  headers : StringView
  content : StringView
  next : Nat
deriving DecidableEq, Repr

/-- The part that a turn fills. -/
def Turn.part (turn : Turn) : MultipartPart :=
  parsePartHeaders turn.headers { content := turn.content }

/-- One turn, from behind a delimiter. -/
def takeSegment (body : StringView) (nextDelim : Bytes) (pos : Nat) : Option Turn :=
  if body.length < pos + 2 then none
  else if (body.substr pos 2).bytes = lit "--" then none
  else if (body.substr pos 2).bytes ≠ crlf then none
  else
    let pos := pos + 2
    match body.findFrom (crlf ++ crlf) pos with
    | none => none
    | some hdrEnd =>
        let contentStart := hdrEnd + 4
        match body.findFrom nextDelim contentStart with
        | none => none
        | some next =>
            some
              { headers := body.substr pos (hdrEnd - pos)
                content := body.substr contentStart (next - contentStart)
                next := next + nextDelim.length }

/-- What a turn takes from the text at `pos`: behind a CRLF, the first blank line ends the
header block, and the first delimiter behind that the content. -/
structure Taken (body : StringView) (nextDelim : Bytes) (pos i n : Nat) (rest : Bytes)
    (turn : Turn) : Prop where
  text : body.bytes.drop pos = crlf ++ rest
  blank : Search.find (crlf ++ crlf) rest = some i
  delim : Search.find nextDelim (rest.drop (i + 4)) = some n
  turn_eq : turn = ⟨body.substr (pos + 2) i, body.substr (pos + (i + 6)) n,
    pos + (i + 6) + n + nextDelim.length⟩

/-- A segment is taken exactly where its headers end and the next delimiter follows. -/
theorem takeSegment_eq_some_iff {body : StringView} {nextDelim : Bytes} {pos : Nat} {turn : Turn} :
    takeSegment body nextDelim pos = some turn ↔
      ∃ rest i n, Taken body nextDelim pos i n rest turn := by
  have hbehind : ∀ {rest : Bytes}, body.bytes.drop pos = crlf ++ rest →
      ∀ k, body.bytes.drop (pos + 2 + k) = rest.drop k := by
    intro rest hrest k
    have htwo : body.bytes.drop (pos + 2) = rest := by
      rw [← List.drop_drop, hrest]
      rfl
    rw [← List.drop_drop, htwo]
  constructor
  · intro h
    -- the three tests in front of the searches
    unfold takeSegment at h
    by_cases hshort : body.length < pos + 2
    · rw [if_pos hshort] at h
      cases h
    rw [if_neg hshort] at h
    by_cases hend : (body.substr pos 2).bytes = lit "--"
    · rw [if_pos hend] at h
      cases h
    rw [if_neg hend] at h
    by_cases hline : (body.substr pos 2).bytes ≠ crlf
    · rw [if_pos hline] at h
      cases h
    rw [if_neg hline] at h
    -- behind them the two positions, told from `pos` and not from the start of the body
    have hrest : body.bytes.drop pos = crlf ++ body.bytes.drop (pos + 2) := by
      rw [← not_not.1 hline, StringView.substr_bytes, ← List.drop_drop, List.take_append_drop]
    dsimp only at h
    split at h
    · cases h
    next hdrEnd hhdr =>
      split at h
      · cases h
      next next hnext =>
        obtain ⟨i, hi, rfl⟩ := Option.map_eq_some_iff.1 hhdr
        obtain ⟨n, hn, rfl⟩ := Option.map_eq_some_iff.1 hnext
        have hsix : i + (pos + 2) + 4 = pos + (i + 6) := by omega
        have hfour : i + (pos + 2) + 4 = pos + 2 + (i + 4) := by omega
        rw [hfour, hbehind hrest] at hn
        refine ⟨_, i, n, hrest, hi, hn, ?_⟩
        rw [← Option.some.inj h, hsix, Nat.add_sub_cancel, Nat.add_sub_cancel, Nat.add_comm n]
  · rintro ⟨rest, i, n, hrest, hi, hn, rfl⟩
    have hlen : ¬ body.length < pos + 2 := by
      have := congrArg List.length hrest
      simp only [List.length_drop, List.length_append, crlf, List.length_cons] at this
      unfold StringView.length
      omega
    have hline : (body.substr pos 2).bytes = crlf := by
      rw [StringView.substr_bytes, hrest]
      rfl
    have hend : ¬ (body.substr pos 2).bytes = lit "--" := by
      rw [hline]
      decide
    have hhdr : body.findFrom (crlf ++ crlf) (pos + 2) = some (i + (pos + 2)) := by
      have := hbehind hrest 0
      rw [Nat.add_zero, List.drop_zero] at this
      unfold StringView.findFrom
      rw [this, hi, Option.map_some]
    have hsix : i + (pos + 2) + 4 = pos + (i + 6) := by omega
    have hnext : body.findFrom nextDelim (pos + (i + 6)) = some (n + (pos + (i + 6))) := by
      have hfour : pos + (i + 6) = pos + 2 + (i + 4) := by omega
      unfold StringView.findFrom
      rw [hfour, hbehind hrest, hn, Option.map_some]
    unfold takeSegment
    rw [if_neg hlen, if_neg hend, if_neg (not_not.2 hline)]
    dsimp only
    rw [hhdr]
    dsimp only
    rw [hsix, hnext]
    dsimp only
    rw [Nat.add_sub_cancel, Nat.add_sub_cancel, Nat.add_comm n]

namespace Taken

variable {body : StringView} {nextDelim rest : Bytes} {pos i n : Nat} {turn : Turn}

theorem drop_two_add (h : Taken body nextDelim pos i n rest turn) (k : Nat) :
    body.bytes.drop (pos + (k + 2)) = rest.drop k := by
  rw [Nat.add_comm k, ← List.drop_drop, ← List.drop_drop, h.text]
  rfl

theorem headers_bytes (h : Taken body nextDelim pos i n rest turn) :
    turn.headers.bytes = rest.take i := by
  rw [h.turn_eq]
  show (body.bytes.drop (pos + (0 + 2))).take i = rest.take i
  rw [h.drop_two_add, List.drop_zero]

theorem content_bytes (h : Taken body nextDelim pos i n rest turn) :
    turn.content.bytes = (rest.drop (i + 4)).take n := by
  rw [h.turn_eq]
  show (body.bytes.drop (pos + (i + 4 + 2))).take n = _
  rw [h.drop_two_add]

/-- The next turn starts behind the delimiter. -/
theorem drop_next (h : Taken body nextDelim pos i n rest turn) :
    body.bytes.drop turn.next = (rest.drop (i + 4)).drop (n + nextDelim.length) := by
  have hnext : turn.next = pos + (i + 4 + (n + nextDelim.length) + 2) := by
    rw [h.turn_eq]
    show pos + (i + 6) + n + nextDelim.length = _
    omega
  rw [hnext, h.drop_two_add, List.drop_drop]

end Taken

/-- A text that is a header block, a blank line, a content and a delimiter is taken as that. -/
theorem exists_taken {body : StringView} {nextDelim headers content tail : Bytes} {pos : Nat}
    (htext : body.bytes.drop pos =
      crlf ++ (headers ++ (crlf ++ crlf) ++ (content ++ nextDelim ++ tail)))
    (hblank : Search.find (crlf ++ crlf) (headers ++ (crlf ++ crlf) ++ (content ++ nextDelim ++ tail))
      = some headers.length)
    (hdelim : Search.find nextDelim (content ++ nextDelim ++ tail) = some content.length) :
    ∃ turn, takeSegment body nextDelim pos = some turn ∧ turn.headers.bytes = headers ∧
      turn.content.bytes = content ∧ body.bytes.drop turn.next = tail := by
  have hbehind : (headers ++ (crlf ++ crlf) ++ (content ++ nextDelim ++ tail)).drop
      (headers.length + 4) = content ++ nextDelim ++ tail := by
    have hlen : headers.length + 4 = (headers ++ (crlf ++ crlf)).length := by simp [crlf]
    rw [hlen, List.drop_left]
  rw [← hbehind] at hdelim
  obtain ⟨turn, htaken⟩ : ∃ turn, Taken body nextDelim pos _ _ _ turn :=
    ⟨_, htext, hblank, hdelim, rfl⟩
  refine ⟨turn, takeSegment_eq_some_iff.2 ⟨_, _, _, htaken⟩, ?_, ?_, ?_⟩
  · rw [htaken.headers_bytes, List.append_assoc, List.take_left]
  · rw [htaken.content_bytes, hbehind, List.append_assoc, List.take_left]
  · rw [htaken.drop_next, hbehind, ← List.length_append, List.drop_left]

/-- A turn moves forward. -/
theorem next_of_takeSegment {body : StringView} {nextDelim : Bytes} {pos : Nat} {turn : Turn}
    (h : takeSegment body nextDelim pos = some turn) :
    pos < turn.next ∧ pos + 2 ≤ body.length := by
  obtain ⟨rest, i, n, hrest, -, -, rfl⟩ := takeSegment_eq_some_iff.1 h
  have := congrArg List.length hrest
  simp only [List.length_drop, List.length_append, crlf, List.length_cons] at this
  constructor
  · show pos < pos + (i + 6) + n + nextDelim.length
    omega
  · unfold StringView.length
    omega

/-- The loop of `parse`, from `pos`. -/
def parseFrom (body : StringView) (nextDelim : Bytes) (pos : Nat) (parts : List MultipartPart) :
    List MultipartPart :=
  match h : takeSegment body nextDelim pos with
  | none => parts
  | some turn =>
      let part := turn.part
      parseFrom body nextDelim turn.next (if part.name.length = 0 then parts else parts ++ [part])
termination_by body.length - pos
decreasing_by
  have := next_of_takeSegment h
  omega

/-- `--` and the boundary. -/
def delim (boundary : Bytes) : Bytes := lit "--" ++ boundary

/-- A delimiter at the start of a line. -/
def nextDelim (boundary : Bytes) : Bytes := crlf ++ delim boundary

/-- `Multipart::parse`. -/
def parse (body : StringView) (boundary : Bytes) : List MultipartPart :=
  if boundary.isEmpty then []
  else
    match body.find (delim boundary) with
    | none => []
    | some pos => parseFrom body (nextDelim boundary) (pos + (delim boundary).length) []

/-! ## The turns of the loop -/

/-- The turns that the loop completes, from `pos`. -/
def turnsFrom (body : StringView) (nextDelim : Bytes) (pos : Nat) : List Turn :=
  match h : takeSegment body nextDelim pos with
  | none => []
  | some turn => turn :: turnsFrom body nextDelim turn.next
termination_by body.length - pos
decreasing_by
  have := next_of_takeSegment h
  omega

/-- Those of the whole body. -/
def turns (body : StringView) (boundary : Bytes) : List Turn :=
  if boundary.isEmpty then []
  else
    match body.find (delim boundary) with
    | none => []
    | some pos => turnsFrom body (nextDelim boundary) (pos + (delim boundary).length)

/-- The part is pushed when it has a name. -/
def pushed (turn : Turn) : Option MultipartPart :=
  if turn.part.name.length = 0 then none else some turn.part

section Loop

variable {body : StringView} {nextDelim : Bytes} {pos : Nat} {turn : Turn}

theorem turnsFrom_none (h : takeSegment body nextDelim pos = none) :
    turnsFrom body nextDelim pos = [] := by
  rw [turnsFrom]
  split
  · rfl
  next turn hturn => cases h.symm.trans hturn

/-- A turn that succeeds is the first, and the others follow it. -/
theorem turnsFrom_some (h : takeSegment body nextDelim pos = some turn) :
    turnsFrom body nextDelim pos = turn :: turnsFrom body nextDelim turn.next := by
  rw [turnsFrom]
  split
  next hnone => cases h.symm.trans hnone
  next turn' hturn =>
    cases h.symm.trans hturn
    rfl

/-- Induction over the turns of the loop. -/
theorem turn_induction (body : StringView) (nextDelim : Bytes) {P : Nat → Prop}
    (leave : ∀ pos, takeSegment body nextDelim pos = none → P pos)
    (turn : ∀ pos turn, takeSegment body nextDelim pos = some turn → P turn.next → P pos)
    (pos : Nat) : P pos := by
  cases h : takeSegment body nextDelim pos with
  | none => exact leave pos h
  | some t => exact turn pos t h (turn_induction body nextDelim leave turn t.next)
termination_by body.length - pos
decreasing_by
  have := next_of_takeSegment h
  omega

/-- The loop pushes the parts of its turns. -/
theorem parseFrom_eq (parts : List MultipartPart) :
    parseFrom body nextDelim pos parts = parts ++ (turnsFrom body nextDelim pos).filterMap pushed := by
  induction pos using turn_induction body nextDelim generalizing parts with
  | leave pos h =>
      rw [parseFrom, turnsFrom_none h, List.filterMap_nil, List.append_nil]
      split
      · rfl
      next turn hturn => cases h.symm.trans hturn
  | turn pos turn h ih =>
      rw [parseFrom, turnsFrom_some h]
      split
      next hnone => cases h.symm.trans hnone
      next turn' hturn =>
        cases h.symm.trans hturn
        dsimp only
        rw [ih, List.filterMap_cons]
        unfold pushed
        by_cases hname : turn.part.name.length = 0
        · rw [if_pos hname, if_pos hname]
        · rw [if_neg hname, if_neg hname, List.append_assoc]
          rfl

end Loop

/-- **The parts** are those of the turns that find a name. -/
theorem parse_eq (body : StringView) (boundary : Bytes) :
    parse body boundary = (turns body boundary).filterMap pushed := by
  unfold parse turns
  split
  · rfl
  · split
    · rfl
    · rw [parseFrom_eq, List.nil_append]

/-! ## The headers of a part -/

/-- What the views of a part show. -/
@[ext]
structure PartText where
  name : Bytes := []
  filename : Bytes := []
  contentType : Bytes := []
  content : Bytes := []
deriving DecidableEq, Repr

end Multipart

/-- What a part shows. -/
def MultipartPart.text (part : MultipartPart) : Multipart.PartText where
  name := part.name.bytes
  filename := part.filename.bytes
  contentType := part.contentType.bytes
  content := part.content.bytes

namespace Multipart

/-- A text up to its first quote, nothing without one. -/
def upToQuote (b : Bytes) : Bytes :=
  match Search.find [34] b with
  | none => []
  | some close => b.take close

/-- What `quoted_attr` reads in a line. -/
def attrText (attr line : Bytes) : Bytes :=
  match Search.find (attr ++ [61] ++ [34]) line with
  | none => []
  | some pos => upToQuote (line.drop (pos + (attr.length + 2)))

/-- The attribute found depends on the text of the line only. -/
theorem quotedAttr_bytes (line : StringView) (attr : Bytes) :
    (quotedAttr line attr).bytes = attrText attr line.bytes := by
  have hneedle : attr ++ [61] ++ [34] = attr ++ [61, 34] := by simp
  unfold quotedAttr attrText upToQuote StringView.find StringView.findFrom
  rw [hneedle]
  dsimp only
  cases hfind : Search.find (attr ++ [61, 34]) line.bytes with
  | none => rfl
  | some pos =>
      have hlen : (attr ++ [(61 : UInt8), 34]).length = attr.length + 2 := by simp
      rw [hlen]
      dsimp only
      cases hclose : Search.find [34] (line.bytes.drop (pos + (attr.length + 2))) with
      | none => rfl
      | some close =>
          show (line.bytes.drop _).take (close + (pos + (attr.length + 2)) - _) = _
          rw [Nat.add_sub_cancel]

/-- `iequals_prefix` compares the beginning but for the case of letters. -/
theorem iequalsPrefix_iff (s : StringView) (start : Bytes) :
    iequalsPrefix s start = true ↔ start.map tolower <+: s.bytes.map tolower := by
  obtain ⟨pos, b⟩ := s
  unfold iequalsPrefix StringView.length
  dsimp only
  induction start generalizing b with
  | nil => simp
  | cons c start ih =>
      cases b with
      | nil => simp
      | cons d b =>
          rw [List.map_cons, List.map_cons, List.cons_prefix_cons, ← ih b]
          simp only [List.length_cons, Nat.add_lt_add_iff_right, List.zip_cons_cons,
            List.all_cons]
          by_cases hlt : b.length < start.length
          · simp only [hlt, if_true, Bool.false_eq_true, and_false]
          · simp only [hlt, if_false, Bool.and_eq_true, beq_iff_eq]
            exact and_congr_left fun _ => eq_comm

/-- The bytes that `trim` leaves. -/
def trimText (b : Bytes) : Bytes :=
  (b.dropWhile blank).rdropWhile fun c => blank c || c == 13

theorem trim_bytes (s : StringView) : (trim s).bytes = trimText s.bytes := by
  show (s.bytes.drop (s.bytes.takeWhile blank).length).rdropWhile _ = _
  rw [drop_takeWhile_length]
  rfl

/-- The line begins with this field name, which is in lower case here. -/
def IsField (name line : Bytes) : Prop := name <+: line.map tolower

instance (name line : Bytes) : Decidable (IsField name line) :=
  inferInstanceAs (Decidable (name <+: line.map tolower))

/-- The header that names the part. -/
abbrev dispositionField : Bytes := lit "content-disposition:"

/-- The header that types it. -/
abbrev typeField : Bytes := lit "content-type:"

/-- What a header line does to a part. -/
def PartText.withLine (p : PartText) (line : Bytes) : PartText :=
  if IsField dispositionField line then
    { p with name := attrText (lit "name") line, filename := attrText (lit "filename") line }
  else if IsField typeField line then
    { p with contentType := trimText (line.drop typeField.length) }
  else p

/-- A header line changes the part as its text says, wherever its views point. -/
theorem applyLine_text (line : StringView) (part : MultipartPart) :
    (applyLine line part).text = part.text.withLine line.bytes := by
  have hdisp : iequalsPrefix line (lit "content-disposition:") = true ↔
      IsField dispositionField line.bytes := iequalsPrefix_iff line _
  have htype : iequalsPrefix line (lit "content-type:") = true ↔
      IsField typeField line.bytes := iequalsPrefix_iff line _
  unfold applyLine PartText.withLine MultipartPart.text
  by_cases hd : IsField dispositionField line.bytes
  · rw [if_pos hd, if_pos (hdisp.2 hd)]
    simp only [quotedAttr_bytes]
  · rw [if_neg hd, if_neg fun h => hd (hdisp.1 h)]
    by_cases ht : IsField typeField line.bytes
    · rw [if_pos ht, if_pos (htype.2 ht)]
      simp only [trim_bytes, StringView.substrFrom_bytes]
    · rw [if_neg ht, if_neg fun h => ht (htype.1 h)]

/-- An empty line does nothing. -/
@[simp] theorem PartText.withLine_nil (p : PartText) : p.withLine [] = p := rfl

/-- **The headers of a part** are applied line by line. -/
theorem parsePartHeaders_text (headers : StringView) (part : MultipartPart) :
    (parsePartHeaders headers part).text =
      (pieceLines headers.bytes).foldl PartText.withLine part.text := by
  have hfrom : ∀ (b : Bytes) (pos : Nat) (part : MultipartPart), headers.bytes.drop pos = b →
      (partHeadersFrom headers pos part).text =
        (pieceLines b).foldl PartText.withLine part.text := by
    intro b
    induction b using line_induction with
    | stop b hb =>
        intro pos part hdrop
        have hnone : headers.findFrom crlf pos = none := by
          unfold StringView.findFrom
          rw [hdrop, Search.find_eq_none_iff.2 hb, Option.map_none]
        rw [pieceLines_single hb, List.foldl_cons, List.foldl_nil, partHeadersFrom]
        split
        · split
          · rw [applyLine_text, StringView.substrFrom_bytes, hdrop]
          next eol heol => cases hnone.symm.trans heol
        next hend =>
          -- nothing is left, and that is an empty line
          have hnil : b = [] := by
            rw [← hdrop]
            exact List.drop_eq_nil_of_le (Nat.le_of_not_lt hend)
          rw [hnil, PartText.withLine_nil]
    | line l rest hl ih =>
        intro pos part hdrop
        have hfound : headers.findFrom crlf pos = some (l.length + pos) := by
          unfold StringView.findFrom
          rw [hdrop, find_crlf hl, Option.map_some]
        have hlt : pos < headers.length := by
          have := congrArg List.length hdrop
          simp only [List.length_drop, List.length_append, crlf, List.length_cons] at this
          unfold StringView.length
          omega
        have hnext : headers.bytes.drop (l.length + pos + 2) = rest := by
          have : l.length + pos + 2 = pos + (l.length + 2) := by omega
          rw [this, ← List.drop_drop, hdrop, drop_line]
        rw [pieceLines_line hl, List.foldl_cons, partHeadersFrom, dif_pos hlt]
        split
        next hnone => cases hfound.symm.trans hnone
        next eol heol =>
          obtain rfl : l.length + pos = eol := Option.some.inj (hfound.symm.trans heol)
          rw [ih _ _ hnext, applyLine_text, StringView.substr_bytes, hdrop, Nat.add_sub_cancel,
            take_line]
  exact hfrom headers.bytes 0 part rfl

end Multipart

end Oreshnek
