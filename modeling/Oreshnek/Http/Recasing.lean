import Oreshnek.Http.Framing

/-!
# The letter case of header names

Header names are looked up as they are spelled. `HeadRecased keeps` relates two
header blocks that differ in the letter case of header names only, where
`keeps` says which names may stand for which. As long as the spellings
`Content-Length` and `Transfer-Encoding` are neither made nor unmade, the parser
comes to the same outcome on both (`parseRequest_recased`); a name recased into
or out of them may change where the message ends.
-/

namespace Oreshnek

/-! ## Buffers that differ in letter case -/

/-- Equal but for the case of letters. -/
def SameLetters (n n' : Bytes) : Prop := n.map tolower = n'.map tolower

instance (n n' : Bytes) : Decidable (SameLetters n n') :=
  inferInstanceAs (Decidable (n.map tolower = n'.map tolower))

/-- A header line with its name recased. -/
inductive LineRecased (keeps : Bytes → Bytes → Prop) : Bytes → Bytes → Prop
  | same (l : Bytes) : LineRecased keeps l l
  | field {n n' : Bytes} (v : Bytes) (hcolon : 58 ∉ n) (hcase : SameLetters n n')
      (hkeeps : keeps n n') : LineRecased keeps (n ++ 58 :: v) (n' ++ 58 :: v)

/-- A header block with names recased. The last line may not have arrived, or not
even its name. -/
inductive HeadRecased (keeps : Bytes → Bytes → Prop) : Bytes → Bytes → Prop
  | blank (body : Bytes) : HeadRecased keeps (crlf ++ body) (crlf ++ body)
  | line {l l' b b' : Bytes} (hl : ¬ crlf <:+: l) (hne : l ≠ []) (h : LineRecased keeps l l')
      (hb : HeadRecased keeps b b') : HeadRecased keeps (l ++ crlf ++ b) (l' ++ crlf ++ b')
  | last {l l' : Bytes} (hl : ¬ crlf <:+: l) (h : LineRecased keeps l l') : HeadRecased keeps l l'
  | lastName {n n' : Bytes} (hn : ¬ crlf <:+: n) (hcolon : 58 ∉ n) (hcase : SameLetters n n') :
      HeadRecased keeps n n'

/-- A buffer with header names recased: what stands before the first CRLF is no
header. -/
inductive NamesRecased (keeps : Bytes → Bytes → Prop) : Bytes → Bytes → Prop
  | requestLine (b : Bytes) (h : ¬ crlf <:+: b) : NamesRecased keeps b b
  | head {l b b' : Bytes} (hl : ¬ crlf <:+: l) (h : HeadRecased keeps b b') :
      NamesRecased keeps (l ++ crlf ++ b) (l ++ crlf ++ b')

/-- A name spelled `Content-Length` or `Transfer-Encoding` stays that name, and no
other becomes one. -/
def KeepsFraming (n n' : Bytes) : Prop :=
  (lit "Content-Length" = n ↔ lit "Content-Length" = n') ∧
    (lit "Transfer-Encoding" = n ↔ lit "Transfer-Encoding" = n')

/-! ## What letter case leaves alone -/

/-- Only letters are changed by `tolower`, and only into letters. -/
theorem tolower_eq {p : UInt8} (hp : p < 65) {x : UInt8} (h : tolower x = tolower p) : x = p := by
  have hid : tolower p = p := by
    unfold tolower
    rw [if_neg]
    simp only [Bool.and_eq_true, decide_eq_true_eq, not_and]
    intro h65
    exact absurd hp (UInt8.not_lt.2 h65)
  rw [hid] at h
  unfold tolower at h
  split at h
  case isFalse => exact h
  case isTrue hx =>
    -- an upper-case letter becomes a lower-case one, which is no such symbol
    simp only [Bool.and_eq_true, decide_eq_true_eq, UInt8.le_iff_toNat_le] at hx
    have hadd := congrArg UInt8.toNat h
    rw [UInt8.toNat_add] at hadd
    rw [UInt8.lt_iff_toNat_lt] at hp
    have h32 : (32 : UInt8).toNat = 32 := rfl
    have h65 : (65 : UInt8).toNat = 65 := rfl
    have h90 : (90 : UInt8).toNat = 90 := rfl
    omega

theorem SameLetters.length {n n' : Bytes} (h : SameLetters n n') : n.length = n'.length := by
  have := congrArg List.length h
  rwa [List.length_map, List.length_map] at this

/-- Patterns without letters are found at the same place. -/
theorem SameLetters.find {n n' pat : Bytes} (h : SameLetters n n') (hpat : ∀ p ∈ pat, p < 65) :
    Search.find pat n = Search.find pat n' := by
  have hmap : ∀ p ∈ pat, ∀ x, tolower x = tolower p → x = p := fun p hp x => tolower_eq (hpat p hp)
  rw [← Search.find_map hmap n, ← Search.find_map hmap n', show n.map tolower = _ from h]

theorem SameLetters.infix_iff {n n' pat : Bytes} (h : SameLetters n n')
    (hpat : ∀ p ∈ pat, p < 65) : pat <:+: n ↔ pat <:+: n' := by
  have hfind := h.find hpat
  rw [← not_iff_not, ← Search.find_eq_none_iff, ← Search.find_eq_none_iff, hfind]

theorem SameLetters.colon {n n' : Bytes} (h : SameLetters n n') (hcolon : 58 ∉ n) : 58 ∉ n' := by
  rw [← Search.singleton_infix_iff] at hcolon ⊢
  rwa [← h.infix_iff (by simp)]

theorem SameLetters.append {a a' b b' : Bytes} (ha : SameLetters a a') (hb : SameLetters b b') :
    SameLetters (a ++ b) (a' ++ b') := by
  unfold SameLetters at *
  rw [List.map_append, List.map_append, ha, hb]

section Recased

variable {keeps : Bytes → Bytes → Prop}

theorem LineRecased.sameLetters {l l' : Bytes} (h : LineRecased keeps l l') : SameLetters l l' := by
  cases h with
  | same => rfl
  | field v _ hcase _ => exact hcase.append rfl

/-- A head in another letter case has the same letters. -/
theorem HeadRecased.sameLetters {b b' : Bytes} (h : HeadRecased keeps b b') :
    SameLetters b b' := by
  induction h with
  | blank => rfl
  | line _ _ h _ ih => exact (h.sameLetters.append rfl).append ih
  | last _ h => exact h.sameLetters
  | lastName _ _ hcase => exact hcase

theorem NamesRecased.sameLetters {b b' : Bytes} (h : NamesRecased keeps b b') :
    SameLetters b b' := by
  cases h with
  | requestLine => rfl
  | head _ h => exact SameLetters.append rfl h.sameLetters

theorem SameLetters.crlf {l l' : Bytes} (h : SameLetters l l') (hl : ¬ crlf <:+: l) :
    ¬ crlf <:+: l' := by
  rwa [← h.infix_iff (by simp [Oreshnek.crlf])]

/-- Both header blocks have the same lines, recased, and the same bytes behind
them. -/
theorem HeadRecased.lines {b b' : Bytes} (h : HeadRecased keeps b b') :
    List.Forall₂ (LineRecased keeps) (headLines b).1 (headLines b').1 ∧
      (headLines b).2 = (headLines b').2 := by
  induction h with
  | blank body =>
      have hblank : headLines (Oreshnek.crlf ++ body) = ([], some body) :=
        headLines_line (l := []) (by decide) body
      rw [hblank]
      exact ⟨List.Forall₂.nil, rfl⟩
  | @line l l' b b' hl hne h _ ih =>
      have hne' : l' ≠ [] := by
        intro hnil
        have hlen := h.sameLetters.length
        rw [hnil, List.length_nil, List.length_eq_zero_iff] at hlen
        exact hne hlen
      rw [headLines_line hl, headLines_line (h.sameLetters.crlf hl), if_neg hne, if_neg hne']
      exact ⟨List.Forall₂.cons h ih.1, ih.2⟩
  | last hl h =>
      rw [headLines_more hl, headLines_more (h.sameLetters.crlf hl)]
      exact ⟨List.Forall₂.nil, rfl⟩
  | lastName hn _ hcase =>
      rw [headLines_more hn, headLines_more (hcase.crlf hn)]
      exact ⟨List.Forall₂.nil, rfl⟩

/-- A line is a field in either letter case. -/
theorem LineRecased.fieldOf_isSome {l l' : Bytes} (h : LineRecased keeps l l') :
    (fieldOf l).isSome = (fieldOf l').isSome := by
  cases h with
  | same => rfl
  | field v hcolon hcase _ =>
      rw [fieldOf_field v hcolon, fieldOf_field v (hcase.colon hcolon)]
      rfl

/-- A name whose spelling is respected keeps its value. -/
theorem lastValue_recased {name : Bytes} {ls ls' : List Bytes}
    (hkeeps : ∀ n n', keeps n n' → (name = n ↔ name = n'))
    (h : List.Forall₂ (LineRecased keeps) ls ls') (old : Option Bytes) :
    lastValue name old ls = lastValue name old ls' := by
  induction h generalizing old with
  | nil => rfl
  | @cons l l' ls ls' hl _ ih =>
      unfold lastValue
      cases hl with
      | same =>
          cases fieldOf l with
          | none => exact ih old
          | some f => exact ih _
      | field v hcolon hcase hk =>
          rw [fieldOf_field v hcolon, fieldOf_field v (hcase.colon hcolon)]
          simp only [hkeeps _ _ hk]
          exact ih _

theorem sum_lengths_recased {ls ls' : List Bytes} (h : List.Forall₂ (LineRecased keeps) ls ls') :
    (ls.map fun l => l.length + 2).sum = (ls'.map fun l => l.length + 2).sum := by
  induction h with
  | nil => rfl
  | cons hl _ ih => rw [List.map_cons, List.map_cons, List.sum_cons, List.sum_cons, ih,
      hl.sameLetters.length]

end Recased

/-! ## Two runs -/

/-- What of a run the letter case of names must not change. -/
def outcome (x : Nat × Cursor) : ParsingState × Nat × Bytes :=
  (x.2.parser.state, x.1, x.2.request.body.bytes)

def ParseResult.outcome (r : ParseResult) : ParsingState × Nat × Bytes :=
  (r.parser.state, r.bytesProcessed, r.request.body.bytes)

/-- The body phase depends on the parser and the bytes in front of it. -/
theorem bodyPhase_congr {rawLength n : Nat} {c c' : Cursor} (hp : c.parser = c'.parser)
    (hd : c.data.bytes = c'.data.bytes) (hb : c.request.body.bytes = c'.request.body.bytes) :
    (bodyPhase rawLength n c).map outcome = (bodyPhase rawLength n c').map outcome := by
  have hlen : c.data.length = c'.data.length := congrArg List.length hd
  unfold bodyPhase
  by_cases hchunked : c.parser.isChunked = true
  · rw [parseBody_chunked hchunked, parseBody_chunked (hp ▸ hchunked), parseChunkedBody_eq,
      parseChunkedBody_eq, ← hd]
    cases scanChunks c.data.bytes 0 with
    | needMore => simp [outcome, hp, hb, hlen]
    | error m => simp [outcome, hb]
    | complete =>
        cases decodeChunks c.data.bytes with
        | none => rfl
        | some d => simp [outcome, StringView.length]
  rw [Bool.not_eq_true] at hchunked
  have hchunked' : c'.parser.isChunked = false := hp ▸ hchunked
  by_cases hpos : 0 < c.parser.bodyExpectedLength
  · rw [parseBody_sized hchunked hpos, parseBody_sized hchunked' (hp ▸ hpos), ← hlen, ← hp]
    split
    · simp [outcome, hp, hb, hlen]
    · simp [outcome, StringView.length, hd]
  · rw [parseBody_none hchunked hpos, parseBody_none hchunked' (hp ▸ hpos)]
    simp [outcome, hb, hlen]

/-- The header phase comes to the same outcome on a recased block. -/
theorem headersPhase_recased {rawLength n : Nat} {c c' : Cursor} (hp : c.parser = c'.parser)
    (hstate : c.parser.state = .headers) (hempty : c.request.headers = ∅)
    (hempty' : c'.request.headers = ∅) (hb : c.request.body.bytes = c'.request.body.bytes)
    (h : HeadRecased KeepsFraming c.data.bytes c'.data.bytes) :
    (headersPhase rawLength n c).map outcome = (headersPhase rawLength n c').map outcome := by
  obtain ⟨hlines, htail⟩ := h.lines
  have hall : (∀ l ∈ (headLines c.data.bytes).1, (fieldOf l).isSome) ↔
      (∀ l ∈ (headLines c'.data.bytes).1, (fieldOf l).isSome) := by
    generalize (headLines c.data.bytes).1 = ls at hlines
    generalize (headLines c'.data.bytes).1 = ls' at hlines
    induction hlines with
    | nil => exact Iff.rfl
    | cons hl _ ih => rw [List.forall_mem_cons, List.forall_mem_cons, ih, hl.fieldOf_isSome]
  by_cases hfields : ∀ l ∈ (headLines c.data.bytes).1, (fieldOf l).isSome
  swap
  · -- a line without a colon, in both
    have hbad : ∀ d : Cursor, (¬ ∀ l ∈ (headLines d.data.bytes).1, (fieldOf l).isSome) →
        ∃ l ∈ (headLines d.data.bytes).1, fieldOf l = none := by
      intro d hd
      push Not at hd
      obtain ⟨l, hl, hnone⟩ := hd
      exact ⟨l, hl, by simpa using hnone⟩
    obtain ⟨d, hd, hds, hdb⟩ := headersPhase_bad (N := rawLength) (n := n)
      (hbad c hfields)
    obtain ⟨d', hd', hds', hdb'⟩ := headersPhase_bad (N := rawLength) (n := n)
      (hbad c' (by rwa [← hall]))
    rw [hd, hd']
    simp only [Option.map_some, outcome, hds, hds', hdb, hdb', hb]
  have hfields' := hall.1 hfields
  cases hbody : (headLines c.data.bytes).2 with
  | none =>
      -- the block has not arrived
      obtain ⟨hrun, hst⟩ := headersPhase_wait (N := rawLength) (n := n) hstate hfields hbody
      obtain ⟨hrun', hst'⟩ := headersPhase_wait (N := rawLength) (n := n)
        (hp ▸ hstate) hfields' (htail ▸ hbody)
      obtain ⟨m, hm⟩ := c.storeHeaders_request (headLines c.data.bytes).1
      obtain ⟨m', hm'⟩ := c'.storeHeaders_request (headLines c'.data.bytes).1
      have hlen : (c.storeHeaders (headLines c.data.bytes).1).data.length =
          (c'.storeHeaders (headLines c'.data.bytes).1).data.length := by
        rw [Cursor.storeHeaders_data, Cursor.storeHeaders_data, sum_lengths_recased hlines]
        simp only [StringView.length, StringView.removePrefix_bytes, List.length_drop,
          h.sameLetters.length]
      rw [hrun, hrun']
      simp only [Option.map_some, outcome, hst, hst', hlen, hm, hm', hb]
  | some body =>
      obtain ⟨hrun, hdata⟩ := headersPhase_lines (N := rawLength) (n := n) hempty hfields hbody
      obtain ⟨hrun', hdata'⟩ := headersPhase_lines (N := rawLength) (n := n) hempty'
        hfields' (htail ▸ hbody)
      obtain ⟨m, hm⟩ := c.storeHeaders_request (headLines c.data.bytes).1
      obtain ⟨m', hm'⟩ := c'.storeHeaders_request (headLines c'.data.bytes).1
      have hdecision : decision c.parser (headLines c.data.bytes).1 =
          decision c'.parser (headLines c'.data.bytes).1 := by
        unfold decision
        rw [hp, lastValue_recased (fun _ _ hk => hk.1) hlines,
          lastValue_recased (fun _ _ hk => hk.2) hlines]
      have hbodies : (c.afterHeaders (headLines c.data.bytes).1).request.body.bytes =
          (c'.afterHeaders (headLines c'.data.bytes).1).request.body.bytes := by
        simp only [Cursor.afterHeaders, Cursor.dropLine_request, hm, hm', hb]
      have hrest := hdata.trans hdata'.symm
      have hlen : (c.afterHeaders (headLines c.data.bytes).1).data.length =
          (c'.afterHeaders (headLines c'.data.bytes).1).data.length := congrArg List.length hrest
      rw [hrun, hrun', hdecision]
      unfold afterDecision
      rw [hlen]
      split
      · simp only [Option.map_some, outcome, hbodies]
      split
      · exact bodyPhase_congr rfl hrest hbodies
      · simp only [Option.map_some, outcome, hbodies]

/-- The request line is parsed alike: only header names have been recased. -/
theorem requestLinePhase_recased {raw raw' : Bytes} (h : NamesRecased KeepsFraming raw raw') :
    (requestLinePhase raw.length 0 (Cursor.start raw)).map outcome =
      (requestLinePhase raw'.length 0 (Cursor.start raw')).map outcome := by
  have hlen := h.sameLetters.length
  cases h with
  | requestLine => rfl
  | @head l b b' hl h =>
      rw [← hlen]
      by_cases hbad : BadRequestLine l
      · obtain ⟨d, hd, hds, hdb⟩ := requestLinePhase_bad (N := (l ++ crlf ++ b).length)
          (n := 0) (c := Cursor.start (l ++ crlf ++ b)) hl rfl hbad
        obtain ⟨d', hd', hds', hdb'⟩ := requestLinePhase_bad
          (N := (l ++ crlf ++ b).length) (n := 0)
          (c := Cursor.start (l ++ crlf ++ b')) hl rfl hbad
        rw [hd, hd']
        simp only [Option.map_some, outcome, hds, hds', hdb, hdb']
        rfl
      obtain ⟨m, t, v, hparts, hm⟩ := exists_parts hbad
      obtain ⟨hrun, hrest⟩ := requestLinePhase_line (N := (l ++ crlf ++ b).length)
        (n := 0) (c := Cursor.start (l ++ crlf ++ b)) hl rfl hparts hm
      obtain ⟨hrun', hrest'⟩ := requestLinePhase_line (N := (l ++ crlf ++ b).length)
        (n := 0) (c := Cursor.start (l ++ crlf ++ b')) hl rfl hparts hm
      rw [hrun, hrun', h.sameLetters.length]
      refine headersPhase_recased rfl rfl ?_ ?_ rfl ?_
      · exact HttpRequest.ofLine_headers _ _ _ _ _
      · exact HttpRequest.ofLine_headers _ _ _ _ _
      · rw [hrest, hrest']
        exact h

/-- **Letter case and framing**: recasing that respects the two framing names
changes neither the state, nor the bytes processed, nor the body; and a request
whose lines are spelled so and that carries a length and a chunked coding is
rejected. -/
theorem parseRequest_recased :
    (∀ raw raw', NamesRecased KeepsFraming raw raw' →
      (parseRequest {} raw {}).map ParseResult.outcome =
        (parseRequest {} raw' {}).map ParseResult.outcome) ∧
    (∀ raw, HeadArrived raw → valuesOf (lit "Content-Length") (headerLines raw) ≠ [] →
      (∃ v, (valuesOf (lit "Transfer-Encoding") (headerLines raw)).getLast? = some v ∧
        lit "chunked" <:+: v) →
      ∀ r, parseRequest {} raw {} = some r → r.parser.state = .error) := by
  constructor
  · intro raw raw' h
    have hspan : headerSpan raw = headerSpan raw' := by
      unfold headerSpan
      rw [h.sameLetters.find (show ∀ p ∈ crlf ++ crlf, p < 65 by simp [crlf]), h.sameLetters.length]
    rw [parseRequest_eq, parseRequest_eq, ← hspan]
    by_cases hbig : maxHeaderBytes < headerSpan raw
    · rw [if_pos hbig, if_pos hbig]
      rfl
    · have hrun := requestLinePhase_recased h
      rw [if_neg hbig, if_neg hbig, Option.map_map, Option.map_map]
      exact hrun
  · rintro raw ⟨l, rest, body, hfirst, hbody⟩ hcl hte r hr
    have hlines : headerLines raw = (headLines rest).1 := by
      unfold headerLines
      rw [hfirst]
    rw [hlines] at hcl hte
    rw [parseRequest_error_iff hr]
    by_cases hfield : ∃ f ∈ (headLines rest).1, fieldOf f = none
    · exact Or.inr ⟨l, rest, hfirst, Or.inr (Or.inl hfield)⟩
    have hfields : ∀ f ∈ (headLines rest).1, (fieldOf f).isSome := by
      intro f hf
      rw [Option.isSome_iff_ne_none]
      exact fun hnone => hfield ⟨f, hf, hnone⟩
    refine Or.inr ⟨l, rest, hfirst, Or.inr (Or.inr ⟨body, hbody, Or.inl (Or.inl ⟨?_, ?_⟩)⟩)⟩
    · rw [lastValue_eq hfields, Option.or_none]
      exact hte
    · rw [lastValue_eq hfields, Option.or_none]
      intro hnone
      exact hcl (List.getLast?_eq_none_iff.1 hnone)

/-- An upload of five bytes, its length under a name spelled `name`. -/
def upload (name : Bytes) : Bytes :=
  lit "POST /up HTTP/1.1" ++ crlf ++
    ((lit "Host" ++ 58 :: lit " a") ++ crlf ++
      ((name ++ 58 :: lit " 5") ++ crlf ++ (crlf ++ lit "hello")))

/-- The same with the host in capitals. -/
def uploadHost : Bytes :=
  lit "POST /up HTTP/1.1" ++ crlf ++
    ((lit "HOST" ++ 58 :: lit " a") ++ crlf ++
      ((lit "Content-Length" ++ 58 :: lit " 5") ++ crlf ++ (crlf ++ lit "hello")))

/-- An upload with two ways to find its end. -/
def uploadTwice : Bytes :=
  lit "POST /up HTTP/1.1\r\nContent-Length: 5\r\nTransfer-Encoding: chunked\r\n\r\n0\r\n\r\n"

/-- A host recased changes nothing; the length given twice in two spellings is refused. -/
theorem parseRequest_recased_upload :
    (parseRequest {} (upload (lit "Content-Length")) {}).map ParseResult.outcome =
        (parseRequest {} uploadHost {}).map ParseResult.outcome ∧
      ∀ r, parseRequest {} uploadTwice {} = some r → r.parser.state = .error := by
  obtain ⟨hsame, hreject⟩ := parseRequest_recased
  constructor
  · refine hsame _ _ (.head (by decide +kernel) (.line (by decide +kernel) (by decide)
      (.field _ (by decide) (by decide) ⟨by decide, by decide⟩) (.line (by decide +kernel)
        (by decide) (.same _) (.blank _))))
  · refine hreject uploadTwice ⟨_, _, lit "0\r\n\r\n", rfl, ?_⟩ (by decide +kernel) ⟨lit "chunked", ?_⟩
    · decide +kernel
    · decide +kernel

/-- A length that is not found under its recased name. -/
theorem upload_recased_differs :
    ¬ ∀ raw raw', NamesRecased (fun _ _ => True) raw raw' →
      (parseRequest {} raw {}).map ParseResult.outcome =
        (parseRequest {} raw' {}).map ParseResult.outcome := by
  intro hall
  have hrel : NamesRecased (fun _ _ => True) (upload (lit "Content-Length"))
      (upload (lit "content-length")) :=
    .head (by decide +kernel) (.line (by decide +kernel) (by decide) (.same _)
      (.line (by decide +kernel) (by decide) (.field _ (by decide) (by decide) trivial)
        (.blank _)))
  have hdiffer : (parseRequest {} (upload (lit "Content-Length")) {}).map ParseResult.outcome ≠
      (parseRequest {} (upload (lit "content-length")) {}).map ParseResult.outcome := by
    decide +kernel
  exact hdiffer (hall _ _ hrel)

end Oreshnek
