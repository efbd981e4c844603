import Oreshnek.Http.Disposition

/-!
# The segments of a multipart body

`segments` are the texts between one delimiter and the next. `Multipart::parse` looks for the
blank line of a part without minding the delimiters before it, so that the header block of a
segment without one may end in a later segment. `Headed` says for which texts it does not;
`one_segment_each_iff` that the parts then come from one segment each, and only then.
-/

namespace Oreshnek

/-- The view lies inside the other one. -/
def StringView.Inside (v w : StringView) : Prop :=
  w.pos ≤ v.pos ∧ v.pos + v.length ≤ w.pos + w.length

theorem StringView.substr_length {v : StringView} {p n : Nat} (h : p + n ≤ v.length) :
    (v.substr p n).length = n := by
  unfold StringView.length at *
  rw [StringView.substr_bytes, List.length_take, List.length_drop]
  omega

namespace Multipart

/-! ## Segments -/

theorem nextDelim_length (boundary : Bytes) : (nextDelim boundary).length = boundary.length + 4 := by
  unfold nextDelim delim
  simp [crlf, lit]

/-- The segments from `pos` on, each up to the next delimiter. -/
def segmentsFrom (body : StringView) (boundary : Bytes) (pos : Nat) : List StringView :=
  match h : Search.find (nextDelim boundary) (body.bytes.drop pos) with
  | none => []
  | some stop =>
      body.substr pos stop ::
        segmentsFrom body boundary (pos + (stop + (nextDelim boundary).length))
termination_by body.length - pos
decreasing_by
  have hle := Search.find_add_length_le h
  have hpos := nextDelim_length boundary
  rw [List.length_drop] at hle
  unfold StringView.length
  omega

/-- The segments of a body: from behind the first delimiter on. -/
def segments (body : StringView) (boundary : Bytes) : List StringView :=
  match body.find (delim boundary) with
  | none => []
  | some pos => segmentsFrom body boundary (pos + (delim boundary).length)

/-- An empty line. -/
abbrev blankLine : Bytes := crlf ++ crlf

/-- A segment without headers: an empty line is all there is before its content, or there is
no empty line in it. -/
def Headless (segment : Bytes) : Prop := blankLine <+: segment ∨ ¬ blankLine <:+: segment

/-- The turn takes its header block and its content from the segment, and pushes no part for
one without headers. -/
structure Within (turn : Turn) (segment : StringView) : Prop where
  headers : turn.headers.Inside segment
  content : turn.content.Inside segment
  headless : Headless segment.bytes → pushed turn = none

/-- Every part comes from one segment, and no two from the same. -/
structure OneSegmentEach (body : StringView) (boundary : Bytes) : Prop where
  parts : parse body boundary = (turns body boundary).filterMap pushed
  each : ∃ own, own.Sublist (segments body boundary) ∧
    List.Forall₂ Within (turns body boundary) own

/-- The lines before the first empty one. -/
def blockLines (b : Bytes) : List Bytes :=
  pieceLines (b.take ((Search.find blankLine b).getD b.length))

/-- No `Content-Disposition` line, or the last one has no name. -/
def Nameless (ls : List Bytes) : Prop := ∀ l ∈ lastDisposition ls, attrText (lit "name") l = []

/-- The text behind a delimiter, down to where the reading stops. A segment with an empty line
in it may not name a part if it begins with one and so has no headers; behind a segment without
one there may be no empty line that a delimiter follows. -/
def Headed (boundary text : Bytes) : Prop :=
  match h : Search.find (nextDelim boundary) text with
  | none => True
  | some stop =>
      if crlf <+: text then
        if blankLine <:+: (text.take stop).drop 2 then
          (blankLine <+: text → Nameless (blockLines (text.drop 2))) ∧
            Headed boundary (text.drop (stop + (nextDelim boundary).length))
        else ¬ ∃ a b, text.drop 2 = a ++ blankLine ++ b ∧ nextDelim boundary <:+: b
      else True
termination_by text.length
decreasing_by
  have hle := Search.find_add_length_le h
  have hpos := nextDelim_length boundary
  rw [List.length_drop]
  omega

/-- The text behind the first delimiter is. -/
def HeadedBody (body boundary : Bytes) : Prop :=
  boundary ≠ [] → ∀ pos, Search.find (delim boundary) body = some pos →
    Headed boundary (body.drop (pos + (delim boundary).length))

section

variable {body : StringView} {boundary text : Bytes} {pos stop : Nat} {turn : Turn}

/-- Without a further delimiter there is no segment. -/
theorem segmentsFrom_none
    (h : Search.find (nextDelim boundary) (body.bytes.drop pos) = none) :
    segmentsFrom body boundary pos = [] := by
  rw [segmentsFrom]
  split
  · rfl
  next stop hstop => cases h.symm.trans hstop

/-- A segment up to the next delimiter, and those behind it. -/
theorem segmentsFrom_some
    (h : Search.find (nextDelim boundary) (body.bytes.drop pos) = some stop) :
    segmentsFrom body boundary pos = body.substr pos stop ::
      segmentsFrom body boundary (pos + (stop + (nextDelim boundary).length)) := by
  rw [segmentsFrom]
  split
  next hnone => cases h.symm.trans hnone
  next stop' hstop =>
    cases h.symm.trans hstop
    rfl

theorem headed_none (h : Search.find (nextDelim boundary) text = none) : Headed boundary text := by
  rw [Headed]
  split
  · trivial
  next stop hstop => cases h.symm.trans hstop

/-- Whether a text has a segment with a header, by what stands in front of its next delimiter.
-/
theorem headed_some (h : Search.find (nextDelim boundary) text = some stop) :
    Headed boundary text ↔
      if crlf <+: text then
        if blankLine <:+: (text.take stop).drop 2 then
          (blankLine <+: text → Nameless (blockLines (text.drop 2))) ∧
            Headed boundary (text.drop (stop + (nextDelim boundary).length))
        else ¬ ∃ a b, text.drop 2 = a ++ blankLine ++ b ∧ nextDelim boundary <:+: b
      else True := by
  rw [Headed]
  split
  next hnone => cases h.symm.trans hnone
  next stop' hstop =>
    cases h.symm.trans hstop
    exact Iff.rfl

/-- A segment does not begin before the place it is looked for from. -/
theorem le_pos_of_mem_segmentsFrom {pos : Nat} {segment : StringView}
    (h : segment ∈ segmentsFrom body boundary pos) : body.pos + pos ≤ segment.pos := by
  cases hfind : Search.find (nextDelim boundary) (body.bytes.drop pos) with
  | none =>
      rw [segmentsFrom_none hfind] at h
      cases h
  | some stop =>
      have hle := Search.find_add_length_le hfind
      rw [List.length_drop] at hle
      rw [segmentsFrom_some hfind] at h
      rcases List.mem_cons.1 h with rfl | hlater
      · exact Nat.le_refl _
      · have := le_pos_of_mem_segmentsFrom hlater
        omega
termination_by body.length - pos
decreasing_by
  have hle := Search.find_add_length_le hfind
  rw [List.length_drop] at hle
  have hlen := nextDelim_length boundary
  unfold StringView.length
  omega

/-! ## One turn -/

/-- Where an empty line is followed by a delimiter, a turn is taken. -/
theorem exists_turn {rest a b : Bytes} (hrest : body.bytes.drop pos = crlf ++ rest)
    (hsplit : rest = a ++ blankLine ++ b) (hdelim : nextDelim boundary <:+: b) :
    ∃ turn, takeSegment body (nextDelim boundary) pos = some turn := by
  obtain ⟨i, hi, hle⟩ := Search.find_le_of_append blankLine a b
  rw [← List.append_assoc, ← hsplit] at hi
  -- the first empty line leaves the delimiter behind it
  have hin : nextDelim boundary <:+: rest.drop (i + 4) := by
    have hb : rest.drop (a.length + 4) = b := by
      have hlen : a.length + 4 = (a ++ blankLine).length := by simp [crlf]
      rw [hlen, hsplit, List.drop_left]
    have hsub : b <:+ rest.drop (i + 4) := by
      have hdrop : (rest.drop (i + 4)).drop (a.length - i) = b := by
        rw [List.drop_drop, ← hb]
        congr 1
        omega
      exact hdrop ▸ List.drop_suffix _ _
    exact hdelim.trans hsub.isInfix
  obtain ⟨n, hn⟩ := Search.exists_find hin
  exact ⟨_, takeSegment_eq_some_iff.2 ⟨rest, i, n, ⟨hrest, hi, hn, rfl⟩⟩⟩

/-- An empty line inside the first segment is followed by the delimiter that ends it. -/
theorem exists_split_of_segment {rest : Bytes} (htext : text = crlf ++ rest)
    (hstop : Search.find (nextDelim boundary) text = some stop)
    (hblank : blankLine <:+: (text.take stop).drop 2) :
    ∃ a b, rest = a ++ blankLine ++ b ∧ nextDelim boundary <:+: b := by
  obtain ⟨a, c, hac⟩ := hblank
  have htwo : 2 ≤ stop := by
    have := congrArg List.length hac
    simp only [List.length_append, List.length_drop, List.length_take, crlf,
      List.length_cons] at this
    omega
  obtain ⟨-, hat, -⟩ := Search.find_eq_some_iff.1 hstop
  have hrest : rest = text.drop 2 := by
    rw [htext]
    rfl
  refine ⟨a, c ++ text.drop stop, ?_, ?_⟩
  · have hcut : (text.take stop).drop 2 ++ text.drop stop = text.drop 2 := by
      conv_rhs => rw [← List.take_append_drop stop text]
      rw [List.drop_append_of_le_length]
      have := Search.find_add_length_le hstop
      rw [List.length_take]
      omega
    rw [hrest, ← hcut, ← hac, List.append_assoc (a ++ blankLine)]
  · exact hat.isInfix.trans (List.suffix_append _ _).isInfix

/-- Where the loop leaves, nothing is asked of the text. -/
theorem headed_of_leave (h : takeSegment body (nextDelim boundary) pos = none) :
    Headed boundary (body.bytes.drop pos) := by
  cases hstop : Search.find (nextDelim boundary) (body.bytes.drop pos) with
  | none => exact headed_none hstop
  | some stop =>
      rw [headed_some hstop]
      by_cases hline : crlf <+: body.bytes.drop pos
      · rw [if_pos hline]
        obtain ⟨rest, hrest⟩ := hline
        have hno : ¬ ∃ a b, rest = a ++ blankLine ++ b ∧ nextDelim boundary <:+: b := by
          rintro ⟨a, b, hsplit, hdelim⟩
          obtain ⟨turn, hturn⟩ := exists_turn hrest.symm hsplit hdelim
          cases h.symm.trans hturn
        by_cases hblank : blankLine <:+: ((body.bytes.drop pos).take stop).drop 2
        · exact absurd (exists_split_of_segment hrest.symm hstop hblank) hno
        · rw [if_neg hblank, ← hrest]
          exact hno
      · rw [if_neg hline]
        trivial

/-- A turn pushes nothing exactly when its lines name no part. -/
theorem pushed_eq_none_iff (turn : Turn) :
    pushed turn = none ↔ Nameless (pieceLines turn.headers.bytes) := by
  have htext := parsePartHeaders_text turn.headers { content := turn.content }
  have hname := (foldl_withLine_names (pieceLines turn.headers.bytes)
    (MultipartPart.text { content := turn.content })).1
  rw [← htext] at hname
  have hbytes : turn.part.name.bytes =
      (lastDisposition (pieceLines turn.headers.bytes)).elim [] (attrText (lit "name")) := hname
  have hpushed : pushed turn = none ↔ turn.part.name.bytes = [] := by
    unfold pushed StringView.length
    by_cases hnil : turn.part.name.bytes.length = 0
    · rw [if_pos hnil]
      exact iff_of_true rfl (List.length_eq_zero_iff.1 hnil)
    · rw [if_neg hnil]
      exact iff_of_false (Option.some_ne_none _) fun h => hnil (List.length_eq_zero_iff.2 h)
  unfold Nameless
  rw [hpushed, hbytes]
  cases lastDisposition (pieceLines turn.headers.bytes) with
  | none => simp
  | some l => simp

namespace Taken

variable {i n : Nat} {rest : Bytes}

/-- What a turn takes lies in the body. -/
theorem length_le (h : Taken body (nextDelim boundary) pos i n rest turn) :
    pos + (i + 6) + n + (nextDelim boundary).length ≤ body.length := by
  have hlen := congrArg List.length h.text
  have hle := Search.find_add_length_le h.delim
  have hblank := Search.find_add_length_le h.blank
  simp only [List.length_drop, List.length_append, crlf, List.length_cons,
    List.length_nil] at hlen hle hblank
  unfold StringView.length
  omega

theorem headers_pos (h : Taken body (nextDelim boundary) pos i n rest turn) :
    turn.headers.pos = body.pos + (pos + 2) := by
  rw [h.turn_eq]
  rfl

/-- The next delimiter is there, no later than the one that ends the content. -/
theorem exists_stop (h : Taken body (nextDelim boundary) pos i n rest turn) :
    ∃ stop, Search.find (nextDelim boundary) (body.bytes.drop pos) = some stop := by
  have hin : nextDelim boundary <:+: rest.drop (i + 4) := Search.infix_of_find h.delim
  have hsuffix : rest.drop (i + 4) <:+ body.bytes.drop pos := by
    rw [h.text]
    exact (List.drop_suffix _ _).trans (List.suffix_append _ _)
  exact Search.exists_find (hin.trans hsuffix.isInfix)

/-- The empty line lies in the first segment exactly when it ends before the delimiter. -/
theorem blank_in_segment_iff (h : Taken body (nextDelim boundary) pos i n rest turn) (stop : Nat) :
    blankLine <:+: ((body.bytes.drop pos).take stop).drop 2 ↔ i + 6 ≤ stop := by
  have hcut : ((body.bytes.drop pos).take stop).drop 2 = rest.take (stop - 2) := by
    rw [h.text, List.drop_take]
    rfl
  obtain ⟨-, hat, -⟩ := Search.find_eq_some_iff.1 h.blank
  rw [hcut]
  constructor
  · rintro ⟨a, c, hac⟩
    obtain ⟨i', hi', hle⟩ := Search.find_le_of_append blankLine a (c ++ rest.drop (stop - 2))
    have hrest : a ++ (blankLine ++ (c ++ rest.drop (stop - 2))) = rest := by
      conv_rhs => rw [← List.take_append_drop (stop - 2) rest, ← hac]
      simp only [List.append_assoc]
    rw [hrest] at hi'
    obtain rfl : i = i' := Option.some.inj (h.blank.symm.trans hi')
    have hlen := congrArg List.length hac
    simp only [List.length_append, List.length_take, crlf, List.length_cons,
      List.length_nil] at hlen
    omega
  · intro hfit
    have hsub : blankLine <+: (rest.take (stop - 2)).drop i := by
      rw [List.drop_take]
      have := hat.take (stop - 2 - i)
      rwa [List.take_of_length_le (by simp [crlf]; omega)] at this
    exact hsub.isInfix.trans (List.drop_suffix _ _).isInfix

/-- If it does, the turn lies in that segment. -/
theorem within_iff (h : Taken body (nextDelim boundary) pos i n rest turn)
    (hfit : i + 6 ≤ stop) (hn : i + 6 + n = stop) :
    Within turn (body.substr pos stop) ↔
      (blankLine <+: body.bytes.drop pos → Nameless (blockLines rest)) := by
  have hlines : blockLines rest = pieceLines turn.headers.bytes := by
    unfold blockLines
    rw [h.blank, h.headers_bytes]
    rfl
  have hle := h.length_le
  have hlen : (body.substr pos stop).length = stop := StringView.substr_length (by omega)
  have hheaders : (body.substr (pos + 2) i).length = i := StringView.substr_length (by omega)
  have hcontent : (body.substr (pos + (i + 6)) n).length = n := StringView.substr_length (by omega)
  have hheadless : Headless (body.substr pos stop).bytes ↔ blankLine <+: body.bytes.drop pos := by
    have hin : blankLine <:+: (body.bytes.drop pos).take stop :=
      ((h.blank_in_segment_iff stop).2 hfit).trans (List.drop_suffix _ _).isInfix
    unfold Headless
    rw [StringView.substr_bytes]
    constructor
    · rintro (hpre | hno)
      · exact hpre.trans (List.take_prefix _ _)
      · exact absurd hin hno
    · intro hpre
      left
      have := hpre.take stop
      rwa [List.take_of_length_le (by simp [crlf]; omega)] at this
  rw [hlines, ← pushed_eq_none_iff, ← hheadless]
  constructor
  · intro hwithin
    exact hwithin.headless
  · intro hnone
    refine ⟨?_, ?_, hnone⟩
    · rw [h.turn_eq]
      constructor
      · show body.pos + pos ≤ body.pos + (pos + 2)
        omega
      · show body.pos + (pos + 2) + (body.substr (pos + 2) i).length ≤
          body.pos + pos + (body.substr pos stop).length
        omega
    · rw [h.turn_eq]
      constructor
      · show body.pos + pos ≤ body.pos + (pos + (i + 6))
        omega
      · show body.pos + (pos + (i + 6)) + (body.substr (pos + (i + 6)) n).length ≤
          body.pos + pos + (body.substr pos stop).length
        omega

/-- Otherwise it does not. -/
theorem not_within (h : Taken body (nextDelim boundary) pos i n rest turn)
    (hfit : ¬ i + 6 ≤ stop) : ¬ Within turn (body.substr pos stop) := by
  intro hwithin
  have hlen : (body.substr pos stop).length ≤ stop := by
    unfold StringView.length
    rw [StringView.substr_bytes]
    exact List.length_take_le _ _
  have hend := hwithin.content.2
  rw [h.turn_eq] at hend
  have hend' : body.pos + (pos + (i + 6)) + (body.substr (pos + (i + 6)) n).length ≤
      body.pos + pos + (body.substr pos stop).length := hend
  omega

/-- A later segment begins behind the header block. -/
theorem not_within_later (h : Taken body (nextDelim boundary) pos i n rest turn) {segment : StringView}
    (hmem : segment ∈ segmentsFrom body boundary (pos + (stop + (nextDelim boundary).length))) :
    ¬ Within turn segment := by
  intro hwithin
  have hpos := le_pos_of_mem_segmentsFrom hmem
  have hbegin := hwithin.headers.1
  have hlen := nextDelim_length boundary
  rw [h.headers_pos] at hbegin
  omega

end Taken

/-! ## The loop -/

/-- Segments for the turns from `pos` on. -/
def EachFrom (body : StringView) (boundary : Bytes) (pos : Nat) : Prop :=
  ∃ own, own.Sublist (segmentsFrom body boundary pos) ∧
    List.Forall₂ Within (turnsFrom body (nextDelim boundary) pos) own

/-- The first turn is in the first segment, if it is in any. -/
theorem Taken.eachFrom_iff {i n : Nat} {rest : Bytes}
    (h : Taken body (nextDelim boundary) pos i n rest turn)
    (hturn : takeSegment body (nextDelim boundary) pos = some turn)
    (hstop : Search.find (nextDelim boundary) (body.bytes.drop pos) = some stop)
    (hnext : turn.next = pos + (stop + (nextDelim boundary).length)) :
    EachFrom body boundary pos ↔
      Within turn (body.substr pos stop) ∧ EachFrom body boundary turn.next := by
  unfold EachFrom
  rw [turnsFrom_some hturn, segmentsFrom_some hstop, ← hnext]
  constructor
  · rintro ⟨own, hsub, hown⟩
    cases hown with
    | @cons _ segment _ own hwithin hown =>
        cases hsub with
        | cons _ hsub =>
            rw [hnext] at hsub
            exact absurd hwithin (h.not_within_later (hsub.subset List.mem_cons_self))
        | cons_cons _ hsub => exact ⟨hwithin, own, hsub, hown⟩
  · rintro ⟨hwithin, own, hsub, hown⟩
    exact ⟨_, hsub.cons_cons _, .cons hwithin hown⟩

/-- **From any delimiter on**, the turns come from one segment each exactly when the text is
`Headed`. -/
theorem eachFrom_iff_headed (body : StringView) (boundary : Bytes) (pos : Nat) :
    EachFrom body boundary pos ↔ Headed boundary (body.bytes.drop pos) := by
  induction pos using turn_induction body (nextDelim boundary) with
  | leave pos h =>
      refine iff_of_true ⟨[], List.nil_sublist _, ?_⟩ (headed_of_leave h)
      rw [turnsFrom_none h]
      exact .nil
  | turn pos turn h ih =>
      obtain ⟨rest, i, n, htaken⟩ := takeSegment_eq_some_iff.1 h
      have hrest := htaken.text
      obtain ⟨stop, hstop⟩ := htaken.exists_stop
      have hline : crlf <+: body.bytes.drop pos := hrest ▸ List.prefix_append _ _
      have htwo : (body.bytes.drop pos).drop 2 = rest := by
        rw [hrest]
        rfl
      rw [headed_some hstop, if_pos hline, htwo]
      by_cases hfit : i + 6 ≤ stop
      · -- the content ends at the delimiter that ends the segment
        have hsame : i + 6 + n = stop := by
          have hfound := Search.find_drop hstop hfit
          have hdrop : (body.bytes.drop pos).drop (i + 6) = rest.drop (i + 4) := by
            rw [← htwo, List.drop_drop, List.drop_drop, List.drop_drop]
            congr 1
            omega
          rw [hdrop, htaken.delim] at hfound
          have := Option.some.inj hfound
          omega
        have hnext : turn.next = pos + (stop + (nextDelim boundary).length) := by
          rw [htaken.turn_eq]
          show pos + (i + 6) + n + (nextDelim boundary).length = _
          omega
        rw [if_pos ((htaken.blank_in_segment_iff stop).2 hfit),
          htaken.eachFrom_iff h hstop hnext, htaken.within_iff hfit hsame, ih, hnext,
          List.drop_drop]
      · -- the empty line was found behind it
        rw [if_neg fun hblank => hfit ((htaken.blank_in_segment_iff stop).1 hblank)]
        refine iff_of_false ?_ (not_not.2 ⟨rest.take i, rest.drop (i + 4), ?_, ?_⟩)
        · rintro ⟨own, hsub, hown⟩
          rw [turnsFrom_some h] at hown
          rw [segmentsFrom_some hstop] at hsub
          cases hown with
          | @cons _ segment _ own hwithin hown =>
              rcases List.mem_cons.1 (hsub.subset List.mem_cons_self) with rfl | hlater
              · exact htaken.not_within hfit hwithin
              · exact htaken.not_within_later hlater hwithin
        · exact Search.find_split htaken.blank
        · exact Search.infix_of_find htaken.delim

/-- **One segment each**: every header block and every content that `parse` takes lies between
two consecutive delimiters, and a segment without headers gives no part, exactly when each
segment that is read ends its headers before the next delimiter. -/
theorem one_segment_each_iff (body : StringView) (boundary : Bytes) :
    OneSegmentEach body boundary ↔ HeadedBody body.bytes boundary := by
  have heach : OneSegmentEach body boundary ↔ ∃ own, own.Sublist (segments body boundary) ∧
      List.Forall₂ Within (turns body boundary) own :=
    ⟨fun h => h.each, fun h => ⟨parse_eq body boundary, h⟩⟩
  have hnothing : turns body boundary = [] → ∃ own, own.Sublist (segments body boundary) ∧
      List.Forall₂ Within (turns body boundary) own := by
    intro hnil
    rw [hnil]
    exact ⟨[], List.nil_sublist _, .nil⟩
  rw [heach]
  unfold HeadedBody
  by_cases hempty : boundary = []
  · refine iff_of_true (hnothing ?_) fun hne => absurd hempty hne
    rw [hempty]
    rfl
  · have hfalse : ¬ boundary.isEmpty = true := fun h => hempty (List.isEmpty_iff.1 h)
    cases hfind : Search.find (delim boundary) body.bytes with
    | none =>
        refine iff_of_true (hnothing ?_) fun _ pos hpos => nomatch hpos
        unfold turns StringView.find
        rw [if_neg hfalse, hfind]
    | some pos =>
        have hturns : turns body boundary =
            turnsFrom body (nextDelim boundary) (pos + (delim boundary).length) := by
          unfold turns StringView.find
          rw [if_neg hfalse, hfind]
        have hsegments : segments body boundary =
            segmentsFrom body boundary (pos + (delim boundary).length) := by
          unfold segments StringView.find
          rw [hfind]
        rw [hturns, hsegments]
        refine (eachFrom_iff_headed body boundary _).trans ?_
        constructor
        · rintro h - pos' hpos'
          obtain rfl := Option.some.inj hpos'
          exact h
        · intro h
          exact h hempty pos rfl

/-- A segment of one line, without an empty one, and then a part. -/
def strayBody : StringView :=
  ⟨0, lit "--B" ++ crlf ++ lit "x" ++ crlf ++ lit "--B" ++ crlf ++
    lit "Content-Disposition: form-data; name=\"a\"" ++ blankLine ++ lit "hi" ++ crlf ++
    lit "--B--"⟩

/-- What is taken for the header block: the line, the delimiter and the header of the part. -/
def strayTurn : Turn where
  headers := ⟨5, lit "x" ++ crlf ++ lit "--B" ++ crlf ++
    lit "Content-Disposition: form-data; name=\"a\""⟩
  content := ⟨57, lit "hi"⟩
  next := 64

/-- The first segment has no headers and swallows its successor. -/
theorem segment_swallows_successor :
    turns strayBody (lit "B") = [strayTurn] ∧ ¬ OneSegmentEach strayBody (lit "B") := by
  have hfind : strayBody.find (delim (lit "B")) = some 0 := by decide
  have hfirst : takeSegment strayBody (nextDelim (lit "B")) 3 = some strayTurn := by decide
  have hthen : takeSegment strayBody (nextDelim (lit "B")) strayTurn.next = none := by decide
  have hturns : turns strayBody (lit "B") = [strayTurn] := by
    unfold turns
    rw [hfind]
    refine (turnsFrom_some hfirst).trans ?_
    rw [turnsFrom_none hthen]
  have hsegments : ∀ segment ∈ segments strayBody (lit "B"), ¬ Within strayTurn segment := by
    have hone : Search.find (nextDelim (lit "B")) (strayBody.bytes.drop 3) = some 3 := by decide
    have hcons : segments strayBody (lit "B") = strayBody.substr 3 3 ::
        segmentsFrom strayBody (lit "B") (3 + (3 + (nextDelim (lit "B")).length)) := by
      unfold segments
      rw [hfind]
      exact segmentsFrom_some hone
    intro segment hmem hwithin
    rw [hcons] at hmem
    rcases List.mem_cons.1 hmem with rfl | hlater
    · exact absurd hwithin.headers.2 (by decide)
    · have hpos := le_pos_of_mem_segmentsFrom hlater
      exact absurd (hpos.trans hwithin.headers.1) (by decide)
  refine ⟨hturns, fun h => ?_⟩
  obtain ⟨own, hsub, hown⟩ := h.each
  rw [hturns] at hown
  cases hown with
  | cons hwithin _ => exact hsegments _ (hsub.subset List.mem_cons_self) hwithin

end

end Multipart

end Oreshnek
