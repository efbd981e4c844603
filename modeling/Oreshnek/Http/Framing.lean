import Oreshnek.Http.Lines

/-!
# Framing decisions

How the end of a message is decided and what the decision depends on.

* `parseRequest_error_iff`: exactly the malformed buffers are rejected, where
  `Malformed` is stated on the lines of the buffer.
* `framing_unambiguous_iff`: for which accepted requests the framing headers are
  unambiguous.
* `parseRequest_recased`: what the letter case of header names may change.
-/

namespace Oreshnek

/-! ## The decision at the blank line -/

/-- The last `Transfer-Encoding` value mentions `chunked`. -/
def NamesChunked (te : Option Bytes) : Prop := ∃ v, te = some v ∧ lit "chunked" <:+: v

theorem namesChunked_iff (te : Option Bytes) :
    (te.bind (Search.find (lit "chunked"))).isSome = true ↔ NamesChunked te := by
  cases te with
  | none => simp [NamesChunked]
  | some v =>
      rw [Option.bind_some, Option.isSome_iff_ne_none, Ne, Search.find_eq_none_iff, not_not]
      simp [NamesChunked]

section Framing

variable (p : HttpParser) {cl te : Option Bytes}

theorem framing_conflict (hte : NamesChunked te) (hcl : cl ≠ none) :
    framing p cl te = (false, p.fail (lit "Both Content-Length and Transfer-Encoding present")) := by
  have hsome : cl.isSome = true := Option.isSome_iff_ne_none.2 hcl
  unfold framing
  simp only [(namesChunked_iff te).2 hte, hsome, Bool.and_true, if_true]

theorem framing_chunked (hte : NamesChunked te) :
    framing p none te = (true, { p with isChunked := true, state := .body }) := by
  unfold framing
  simp only [(namesChunked_iff te).2 hte]
  rfl

/-- Without a length the body expected is the one from before. -/
theorem framing_none (hte : ¬ NamesChunked te) :
    framing p none te =
      (true, { p with state := if p.bodyExpectedLength > 0 then .body else .complete }) := by
  have hnot : (te.bind (Search.find (lit "chunked"))).isSome = false :=
    Bool.eq_false_iff.2 fun h => hte ((namesChunked_iff te).1 h)
  unfold framing
  simp only [hnot]
  rfl

/-- A length within the limit frames the body. -/
theorem framing_length (hte : ¬ NamesChunked te) {v : Bytes} {n : Nat} (hv : stoul v = some n)
    (hn : n ≤ maxBodyBytes) :
    framing p (some v) te =
      (true, { p with bodyExpectedLength := n, state := if n > 0 then .body else .complete }) := by
  have hnot : (te.bind (Search.find (lit "chunked"))).isSome = false :=
    Bool.eq_false_iff.2 fun h => hte ((namesChunked_iff te).1 h)
  unfold framing
  simp only [hnot, hv, if_neg (Nat.not_lt.2 hn)]
  rfl

/-- A length that is not read, or is too large, is an error. -/
theorem framing_badLength (hte : ¬ NamesChunked te) {v : Bytes}
    (hv : ∀ n, stoul v = some n → maxBodyBytes < n) :
    (framing p (some v) te).2.state = .error := by
  have hnot : (te.bind (Search.find (lit "chunked"))).isSome = false :=
    Bool.eq_false_iff.2 fun h => hte ((namesChunked_iff te).1 h)
  unfold framing
  simp only [hnot]
  cases hs : stoul v with
  | none => rfl
  | some n => simp [hv n hs, HttpParser.fail]

end Framing

/-- Framing headers the parser refuses: a chunked body with a length as well, or
a length that is no number or too large. -/
def BadFraming (cl te : Option Bytes) : Prop :=
  (NamesChunked te ∧ cl ≠ none) ∨
    (¬ NamesChunked te ∧ ∃ v, cl = some v ∧ ∀ n, stoul v = some n → maxBodyBytes < n)

/-- The decisions that let a message through. -/
theorem framing_cases (p : HttpParser) (cl te : Option Bytes) :
    (BadFraming cl te ∧ (framing p cl te).2.state = .error) ∨
      (¬ BadFraming cl te ∧ NamesChunked te ∧ cl = none ∧
        framing p cl te = (true, { p with isChunked := true, state := .body })) ∨
      (¬ BadFraming cl te ∧ ¬ NamesChunked te ∧ ∃ n, framing p cl te =
        (true, { p with bodyExpectedLength := n, state := if n > 0 then .body else .complete })) := by
  by_cases hte : NamesChunked te
  · cases cl with
    | none =>
        refine Or.inr (Or.inl ⟨?_, hte, rfl, framing_chunked p hte⟩)
        rintro (⟨-, h⟩ | ⟨h, -⟩)
        · exact h rfl
        · exact h hte
    | some v =>
        have hne : some v ≠ none := Option.some_ne_none v
        exact Or.inl ⟨Or.inl ⟨hte, hne⟩, by rw [framing_conflict p hte hne]; rfl⟩
  · cases cl with
    | none =>
        refine Or.inr (Or.inr ⟨?_, hte, p.bodyExpectedLength, framing_none p hte⟩)
        rintro (⟨h, -⟩ | ⟨-, v, hv, -⟩)
        · exact hte h
        · cases hv
    | some v =>
        by_cases hv : ∀ n, stoul v = some n → maxBodyBytes < n
        · exact Or.inl ⟨Or.inr ⟨hte, v, rfl, hv⟩, framing_badLength p hte hv⟩
        · push Not at hv
          obtain ⟨n, hn, hle⟩ := hv
          refine Or.inr (Or.inr ⟨?_, hte, n, framing_length p hte hn hle⟩)
          rintro (⟨h, -⟩ | ⟨-, w, hw, hbad⟩)
          · exact hte h
          · obtain rfl := Option.some.inj hw
            exact absurd (hbad n hn) (Nat.not_lt.2 hle)

/-! ## What is rejected -/

/-- The first line of a buffer and what follows it. -/
def firstLine (b : Bytes) : Option (Bytes × Bytes) :=
  (Search.find crlf b).map fun e => (b.take e, b.drop (e + 2))

theorem firstLine_line {l : Bytes} (hl : ¬ crlf <:+: l) (rest : Bytes) :
    firstLine (l ++ crlf ++ rest) = some (l, rest) := by
  unfold firstLine
  rw [find_crlf hl, Option.map_some, take_line, drop_line]

theorem firstLine_more {b : Bytes} (h : ¬ crlf <:+: b) : firstLine b = none := by
  unfold firstLine
  rw [Search.find_eq_none_iff.2 h]
  rfl

/-- A message with an error in the part that has arrived: in the request line,
in a header line, in the framing headers or in a chunk-size line. -/
def MalformedMessage (raw : Bytes) : Prop :=
  ∃ l rest, firstLine raw = some (l, rest) ∧
    (BadRequestLine l ∨ (∃ f ∈ (headLines rest).1, fieldOf f = none) ∨
      ∃ body, (headLines rest).2 = some body ∧
        (BadFraming (lastValue (lit "Content-Length") none (headLines rest).1)
            (lastValue (lit "Transfer-Encoding") none (headLines rest).1) ∨
          (NamesChunked (lastValue (lit "Transfer-Encoding") none (headLines rest).1) ∧
            ∃ m, scanChunks body 0 = .error m)))

/-- A buffer with a malformed message or a header block over the limit. -/
def Malformed (raw : Bytes) : Prop :=
  maxHeaderBytes < headerSpan raw ∨ MalformedMessage raw

/-- The error outcomes of the body phase are those of pass 1, and the phase does
not change how the body is framed. -/
theorem bodyPhase_error_iff {rawLength n k : Nat} {c c' : Cursor} (hstate : c.parser.state = .body)
    (h : bodyPhase rawLength n c = some (k, c')) :
    (c'.parser.state = .error ↔
        c.parser.isChunked = true ∧ ∃ m, scanChunks c.data.bytes 0 = .error m) ∧
      c'.parser.isChunked = c.parser.isChunked := by
  unfold bodyPhase at h
  rw [Option.map_eq_some_iff] at h
  obtain ⟨⟨ok, d⟩, hd, hx⟩ := h
  obtain rfl : d = c' := congrArg Prod.snd hx
  by_cases hchunked : c.parser.isChunked = true
  · rw [parseBody_chunked hchunked, parseChunkedBody_eq] at hd
    cases hscan : scanChunks c.data.bytes 0 with
    | needMore =>
        rw [hscan] at hd
        cases hd
        simp [hstate]
    | error m =>
        rw [hscan] at hd
        cases hd
        exact ⟨by simp [hchunked], rfl⟩
    | complete =>
        rw [hscan, Option.map_eq_some_iff] at hd
        obtain ⟨x, _, hx⟩ := hd
        cases hx
        simp
  have hnot : c.parser.isChunked = false := by rwa [Bool.not_eq_true] at hchunked
  rw [iff_false_right fun hc => hchunked hc.1]
  by_cases hpos : 0 < c.parser.bodyExpectedLength
  · rw [parseBody_sized hnot hpos] at hd
    split at hd
    · cases hd
      rw [hstate]
      exact ⟨ParsingState.noConfusion, rfl⟩
    · cases hd
      exact ⟨ParsingState.noConfusion, rfl⟩
  · rw [parseBody_none hnot hpos] at hd
    cases hd
    exact ⟨ParsingState.noConfusion, rfl⟩

/-- The header lines of a buffer and what follows them, when the whole head has
arrived and neither the request line nor a header line is malformed. -/
def HeadOf (raw : Bytes) (ls : List Bytes) (body : Bytes) : Prop :=
  ∃ l rest, firstLine raw = some (l, rest) ∧ ¬ BadRequestLine l ∧
    (∀ f ∈ ls, (fieldOf f).isSome) ∧ headLines rest = (ls, some body)

/-- What follows the framing decision: an error exactly for bad framing headers or
a bad chunk, and a body read as the headers say. -/
theorem afterDecision_outcome {rawLength n₀ n : Nat} {c c' : Cursor} {cl te : Option Bytes}
    (hnot : c.parser.isChunked = false)
    (h : afterDecision rawLength n₀ c (framing c.parser cl te).2 = some (n, c')) :
    (c'.parser.state = .error ↔ BadFraming cl te ∨
        (NamesChunked te ∧ ∃ m, scanChunks c.data.bytes 0 = .error m)) ∧
      (¬ BadFraming cl te → (NamesChunked te → cl = none) ∧
        (c'.parser.isChunked = true ↔ NamesChunked te)) := by
  unfold afterDecision at h
  rcases framing_cases c.parser cl te with ⟨hbad, herr⟩ | ⟨hgood, hte, hcl, heq⟩ |
    ⟨hgood, hte, j, heq⟩
  · -- refused
    rw [if_pos herr] at h
    cases h
    exact ⟨iff_of_true herr (Or.inl hbad), fun hgood => absurd hbad hgood⟩
  · -- chunked
    rw [heq, if_neg (by simp), if_pos rfl] at h
    obtain ⟨herr, hsame⟩ := bodyPhase_error_iff (c := { c with
      parser := { c.parser with isChunked := true, state := .body } }) rfl h
    refine ⟨?_, fun _ => ⟨fun _ => hcl, ?_⟩⟩
    · rw [herr]
      simp [hgood, hte]
    · rw [hsame]
      simp [hte]
  · -- by length
    rw [heq] at h
    have hno : ¬ (BadFraming cl te ∨
        (NamesChunked te ∧ ∃ m, scanChunks c.data.bytes 0 = .error m)) := by
      rintro (hb | ⟨hc, -⟩)
      · exact hgood hb
      · exact hte hc
    by_cases hpos : j > 0
    · simp only [if_pos hpos, reduceCtorEq, if_false, if_true] at h
      obtain ⟨herr, hsame⟩ := bodyPhase_error_iff (c := { c with
        parser := { c.parser with bodyExpectedLength := j, state := .body } }) rfl h
      refine ⟨iff_of_false ?_ hno, fun _ => ⟨fun hc => absurd hc hte, ?_⟩⟩
      · rw [herr]
        simp [hnot]
      · rw [hsame]
        simp [hnot, hte]
    · simp only [if_neg hpos, reduceCtorEq, if_false] at h
      cases h
      refine ⟨iff_of_false ParsingState.noConfusion hno, fun _ => ⟨fun hc => absurd hc hte, ?_⟩⟩
      simp [hnot, hte]

/-- Only a complete pass 1 leads to undefined behaviour. -/
theorem afterDecision_none {rawLength n₀ : Nat} {c : Cursor} {cl te : Option Bytes}
    (h : afterDecision rawLength n₀ c (framing c.parser cl te).2 = none) :
    ¬ (BadFraming cl te ∨ (NamesChunked te ∧ ∃ m, scanChunks c.data.bytes 0 = .error m)) := by
  unfold afterDecision at h
  rcases framing_cases c.parser cl te with ⟨-, herr⟩ | ⟨hgood, hte, -, heq⟩ | ⟨hgood, hte, j, heq⟩
  · rw [if_pos herr] at h
    cases h
  · rintro (hb | ⟨-, m, hscan⟩)
    · exact hgood hb
    · rw [heq, if_neg (by simp), if_pos rfl] at h
      simp [bodyPhase, parseBody_chunked, parseChunkedBody_eq, hscan] at h
  · rintro (hb | ⟨hc, -⟩)
    · exact hgood hb
    · exact hte hc

/-- The blank line that ends the header block has arrived. -/
def HeadArrived (raw : Bytes) : Prop :=
  ∃ l rest body, firstLine raw = some (l, rest) ∧ (headLines rest).2 = some body

/-- The loop on a whole buffer: it stops at an error in the head, waits for the
head to arrive, or makes the framing decision of the header lines. -/
theorem requestLinePhase_head (raw : Bytes) :
    (MalformedMessage raw ∧ ∃ n c', requestLinePhase raw.length 0 (Cursor.start raw) = some (n, c') ∧
        c'.parser.state = .error) ∨
      (¬ MalformedMessage raw ∧ ¬ HeadArrived raw ∧
        ∃ n c', requestLinePhase raw.length 0 (Cursor.start raw) = some (n, c') ∧
          (c'.parser.state = .requestLine ∨ c'.parser.state = .headers)) ∨
      (∃ ls body n c, HeadOf raw ls body ∧ c.parser.isChunked = false ∧ c.data.bytes = body ∧
        requestLinePhase raw.length 0 (Cursor.start raw) =
          afterDecision raw.length n c (framing c.parser
            (lastValue (lit "Content-Length") none ls)
            (lastValue (lit "Transfer-Encoding") none ls)).2 ∧
        (MalformedMessage raw ↔
          BadFraming (lastValue (lit "Content-Length") none ls)
              (lastValue (lit "Transfer-Encoding") none ls) ∨
            (NamesChunked (lastValue (lit "Transfer-Encoding") none ls) ∧
              ∃ m, scanChunks body 0 = .error m))) := by
  by_cases hmore : crlf <:+: raw
  swap
  · -- the request line has not arrived
    have hfirst := firstLine_more hmore
    refine Or.inr (Or.inl ⟨?_, ?_, 0, Cursor.start raw, ?_, Or.inl rfl⟩)
    · rintro ⟨l, rest, h, -⟩
      rw [hfirst] at h
      cases h
    · rintro ⟨l, rest, body, h, -⟩
      rw [hfirst] at h
      cases h
    · unfold requestLinePhase
      rw [parseRequestLine_more hmore]
      rfl
  obtain ⟨l, rest, hl, hraw⟩ := exists_line hmore
  have hfirst : firstLine raw = some (l, rest) := hraw ▸ firstLine_line hl rest
  have hunique : ∀ {l' rest'}, firstLine raw = some (l', rest') → l' = l ∧ rest' = rest := by
    intro l' rest' h'
    rw [hfirst] at h'
    cases h'
    exact ⟨rfl, rfl⟩
  have hdata : (Cursor.start raw).data.bytes = l ++ crlf ++ rest := hraw
  -- a request line that is refused
  by_cases hbad : BadRequestLine l
  · obtain ⟨d, hd, hstate, -⟩ := requestLinePhase_bad (N := raw.length) (n := 0) hl hdata hbad
    exact Or.inl ⟨⟨l, rest, hfirst, Or.inl hbad⟩, 0, d, hd, hstate⟩
  obtain ⟨m, t, v, hparts, hm⟩ := exists_parts hbad
  obtain ⟨hphase, hrest⟩ := requestLinePhase_line (N := raw.length) (n := 0) hl hdata
    hparts hm
  rw [hphase]
  generalize hc : (Cursor.start raw).afterLine l m t v = c at hrest
  have hstate : c.parser.state = .headers := by rw [← hc]; rfl
  have hempty : c.request.headers = ∅ := by
    rw [← hc]
    exact HttpRequest.ofLine_headers _ _ _ _ _
  -- a header line that is refused
  by_cases hfield : ∃ f ∈ (headLines rest).1, fieldOf f = none
  · obtain ⟨d, hd, hdstate, -⟩ := headersPhase_bad (N := raw.length)
      (n := raw.length - rest.length) (c := c) (by rw [hrest]; exact hfield)
    exact Or.inl ⟨⟨l, rest, hfirst, Or.inr (Or.inl hfield)⟩, _, d, hd, hdstate⟩
  have hfields : ∀ f ∈ (headLines rest).1, (fieldOf f).isSome := by
    intro f hf
    rw [Option.isSome_iff_ne_none]
    exact fun hnone => hfield ⟨f, hf, hnone⟩
  cases hbody : (headLines rest).2 with
  | none =>
      -- the empty line has not arrived
      obtain ⟨hd, hdstate⟩ := headersPhase_wait (N := raw.length)
        (n := raw.length - rest.length) hstate (by rw [hrest]; exact hfields)
        (by rw [hrest]; exact hbody)
      refine Or.inr (Or.inl ⟨?_, ?_, _, _, hd, Or.inr hdstate⟩)
      · rintro ⟨l', rest', hfirst', hcase⟩
        obtain ⟨rfl, rfl⟩ := hunique hfirst'
        rcases hcase with hc' | hc' | ⟨body, hb, -⟩
        · exact hbad hc'
        · exact hfield hc'
        · rw [hbody] at hb
          cases hb
      · rintro ⟨l', rest', body, hfirst', hb⟩
        obtain ⟨rfl, rfl⟩ := hunique hfirst'
        rw [hbody] at hb
        cases hb
  | some body =>
      obtain ⟨heq, hdata'⟩ := headersPhase_lines (N := raw.length)
        (n := raw.length - rest.length) hempty (by rw [hrest]; exact hfields)
        (by rw [hrest]; exact hbody)
      rw [hrest] at heq hdata'
      have hparser : (c.afterHeaders (headLines rest).1).parser = c.parser := by
        simp [Cursor.afterHeaders]
      refine Or.inr (Or.inr ⟨(headLines rest).1, body, raw.length - rest.length,
        c.afterHeaders (headLines rest).1, ⟨l, rest, hfirst, hbad, hfields, by rw [← hbody]⟩,
        ?_, hdata', ?_, ?_⟩)
      · rw [hparser, ← hc]
        rfl
      · rw [heq, hparser]
        rfl
      · -- a well-formed head is malformed only in its framing or its chunks
        constructor
        · rintro ⟨l', rest', hfirst', hcase⟩
          obtain ⟨rfl, rfl⟩ := hunique hfirst'
          rcases hcase with hc' | hc' | ⟨body', hb, hcase⟩
          · exact absurd hc' hbad
          · exact absurd hc' hfield
          · rw [hbody] at hb
            cases hb
            exact hcase
        · intro hcase
          exact ⟨l, rest, hfirst, Or.inr (Or.inr ⟨body, hbody, hcase⟩)⟩

/-- The settled outcomes of the loop. -/
theorem requestLinePhase_cases {raw : Bytes} {n : Nat} {c' : Cursor}
    (h : requestLinePhase raw.length 0 (Cursor.start raw) = some (n, c')) :
    (MalformedMessage raw ∧ c'.parser.state = .error) ∨
      (¬ MalformedMessage raw ∧
        (c'.parser.state = .requestLine ∨ c'.parser.state = .headers)) ∨
      (¬ MalformedMessage raw ∧ c'.parser.state ≠ .error ∧ ∃ ls body, HeadOf raw ls body ∧
        (NamesChunked (lastValue (lit "Transfer-Encoding") none ls) →
          lastValue (lit "Content-Length") none ls = none) ∧
        (c'.parser.isChunked = true ↔
          NamesChunked (lastValue (lit "Transfer-Encoding") none ls))) := by
  rcases requestLinePhase_head raw with ⟨hm, k, d, hd, hs⟩ | ⟨hm, -, k, d, hd, hs⟩ |
    ⟨ls, body, k, c, hhead, hnot, hdata, hd, hmal⟩
  · rw [hd] at h
    cases h
    exact Or.inl ⟨hm, hs⟩
  · rw [hd] at h
    cases h
    exact Or.inr (Or.inl ⟨hm, hs⟩)
  · rw [hd] at h
    obtain ⟨herr, hgood⟩ := afterDecision_outcome hnot h
    rw [hdata, ← hmal] at herr
    by_cases hstop : c'.parser.state = .error
    · exact Or.inl ⟨herr.1 hstop, hstop⟩
    · have hno : ¬ MalformedMessage raw := fun hm => hstop (herr.2 hm)
      obtain ⟨hcl, hch⟩ := hgood fun hb => hno (hmal.2 (Or.inl hb))
      exact Or.inr (Or.inr ⟨hno, hstop, ls, body, hhead, hcl, hch⟩)

theorem HeadOf.arrived {raw body : Bytes} {ls : List Bytes} (h : HeadOf raw ls body) :
    HeadArrived raw := by
  obtain ⟨l, rest, hfirst, -, -, hlines⟩ := h
  exact ⟨l, rest, body, hfirst, congrArg Prod.snd hlines⟩

/-- Undefined behaviour is met only behind a head that has arrived, in a message
that is not malformed. -/
theorem requestLinePhase_none {raw : Bytes}
    (h : requestLinePhase raw.length 0 (Cursor.start raw) = none) :
    HeadArrived raw ∧ ¬ MalformedMessage raw := by
  rcases requestLinePhase_head raw with ⟨-, k, d, hd, -⟩ | ⟨-, -, k, d, hd, -⟩ |
    ⟨ls, body, k, c, hhead, hnot, hdata, hd, hmal⟩
  · rw [hd] at h
    cases h
  · rw [hd] at h
    cases h
  · rw [hd] at h
    have hno := afterDecision_none h
    rw [hdata, ← hmal] at hno
    exact ⟨hhead.arrived, hno⟩

/-- **Exactly the malformed buffers are rejected.** -/
theorem parseRequest_error_iff {raw : Bytes} {r : ParseResult}
    (h : parseRequest {} raw {} = some r) : r.parser.state = .error ↔ Malformed raw := by
  rw [parseRequest_eq] at h
  unfold Malformed
  by_cases hbig : maxHeaderBytes < headerSpan raw
  · rw [if_pos hbig] at h
    cases h
    exact iff_of_true rfl (Or.inl hbig)
  rw [if_neg hbig, Option.map_eq_some_iff] at h
  obtain ⟨⟨n, c'⟩, hphase, rfl⟩ := h
  rw [or_iff_right hbig]
  rcases requestLinePhase_cases hphase with ⟨hm, hs⟩ | ⟨hm, hs⟩ | ⟨hm, hs, -⟩
  · exact iff_of_true hs hm
  · refine iff_of_false ?_ hm
    rcases hs with hs | hs
    · rw [hs]
      exact ParsingState.noConfusion
    · rw [hs]
      exact ParsingState.noConfusion
  · exact iff_of_false hs hm

/-- What is accepted has a well-formed head, and its body was read as the header
map says. -/
theorem parseRequest_complete_head {raw : Bytes} {r : ParseResult}
    (h : parseRequest {} raw {} = some r) (hc : r.isComplete) :
    ∃ ls body, HeadOf raw ls body ∧
      (NamesChunked (lastValue (lit "Transfer-Encoding") none ls) →
        lastValue (lit "Content-Length") none ls = none) ∧
      (r.parser.isChunked = true ↔ NamesChunked (lastValue (lit "Transfer-Encoding") none ls)) := by
  have hstate : r.parser.state = .complete := by simpa [ParseResult.isComplete] using hc
  rw [parseRequest_eq] at h
  split at h
  · cases h
    cases hstate
  rw [Option.map_eq_some_iff] at h
  obtain ⟨⟨n, c'⟩, hphase, rfl⟩ := h
  rcases requestLinePhase_cases hphase with ⟨-, hs⟩ | ⟨-, hs⟩ | ⟨-, -, hhead⟩
  · rw [hs] at hstate
    cases hstate
  · rcases hs with hs | hs
    · rw [hs] at hstate
      cases hstate
    · rw [hs] at hstate
      cases hstate
  · exact hhead

/-! ## Unambiguous framing -/

/-- The header lines of a buffer, as they stand in it. -/
def headerLines (raw : Bytes) : List Bytes :=
  match firstLine raw with
  | none => []
  | some (_, rest) => (headLines rest).1

/-- The values of the lines spelled exactly `name`, in order. -/
def valuesOf (name : Bytes) (ls : List Bytes) : List Bytes :=
  ls.filterMap fun l => (fieldOf l).bind fun f => if name = f.1 then some f.2 else none

/-- A value without the white space around it. -/
def trimSpace (v : Bytes) : Bytes := ((v.dropWhile isspace).reverse.dropWhile isspace).reverse

/-- The codings a `Transfer-Encoding` value names. -/
def codings (v : Bytes) : List Bytes := ((v.splitOn 44).map trimSpace).filter (· ≠ [])

theorem headerLines_of_head {raw body : Bytes} {ls : List Bytes} (h : HeadOf raw ls body) :
    headerLines raw = ls ∧ ∀ f ∈ ls, (fieldOf f).isSome := by
  obtain ⟨l, rest, hfirst, -, hfields, hlines⟩ := h
  unfold headerLines
  rw [hfirst]
  exact ⟨congrArg Prod.fst hlines, hfields⟩

/-- The map keeps the last of the values. -/
theorem lastValue_eq {ls : List Bytes} (h : ∀ l ∈ ls, (fieldOf l).isSome) (name : Bytes)
    (old : Option Bytes) : lastValue name old ls = (valuesOf name ls).getLast?.or old := by
  induction ls generalizing old with
  | nil => rfl
  | cons l ls ih =>
      obtain ⟨⟨n, v⟩, hf⟩ := Option.isSome_iff_exists.1 (h l List.mem_cons_self)
      have ih' := ih fun l' hl' => h l' (List.mem_cons_of_mem _ hl')
      unfold lastValue
      rw [hf]
      simp only [ih']
      by_cases hn : name = n
      · have hvals : valuesOf name (l :: ls) = v :: valuesOf name ls := by
          simp [valuesOf, hf, hn]
        rw [if_pos hn, hvals, List.getLast?_cons]
        cases (valuesOf name ls).getLast? with
        | none => rfl
        | some w => rfl
      · have hvals : valuesOf name (l :: ls) = valuesOf name ls := by
          simp [valuesOf, hf, hn]
        rw [if_neg hn, hvals]

theorem infix_of_trimSpace (v : Bytes) : trimSpace v <:+: v := by
  unfold trimSpace
  have hsuf : (v.dropWhile isspace) <:+ v := List.dropWhile_suffix _
  have hpre : ((v.dropWhile isspace).reverse.dropWhile isspace).reverse <+: v.dropWhile isspace := by
    rw [← List.reverse_suffix, List.reverse_reverse]
    exact List.dropWhile_suffix _
  exact hpre.isInfix.trans hsuf.isInfix

/-- An element between commas is a part of the value. -/
theorem infix_of_mem_splitOn {v e : Bytes} (h : e ∈ v.splitOn 44) : e <:+: v := by
  have hjoin : [(44 : UInt8)].intercalate (v.splitOn 44) = v := List.intercalate_splitOn 44
  have hmem : ∀ parts : List Bytes, e ∈ parts → e <:+: [(44 : UInt8)].intercalate parts := by
    intro parts hparts
    induction parts with
    | nil => cases hparts
    | cons p ps ih =>
        cases ps with
        | nil =>
            rw [List.intercalate_singleton, List.mem_singleton.1 hparts]
        | cons q qs =>
            rw [List.intercalate_cons_cons]
            rcases List.mem_cons.1 hparts with rfl | hin
            · exact (List.prefix_append e _).isInfix.trans (List.prefix_append _ _).isInfix
            · exact (ih hin).trans (List.suffix_append _ _).isInfix
  exact hjoin ▸ hmem _ h

/-- A joined list has nothing but its parts and the commas. -/
theorem mem_of_mem_intercalate {parts : List Bytes} {x : UInt8}
    (h : x ∈ [(44 : UInt8)].intercalate parts) : x = 44 ∨ ∃ p ∈ parts, x ∈ p := by
  induction parts with
  | nil => cases h
  | cons p ps ih =>
      cases ps with
      | nil =>
          rw [List.intercalate_singleton] at h
          exact Or.inr ⟨p, List.mem_cons_self, h⟩
      | cons q qs =>
          rw [List.intercalate_cons_cons, List.mem_append, List.mem_append,
            List.mem_singleton] at h
          rcases h with (h | h) | h
          · exact Or.inr ⟨p, List.mem_cons_self, h⟩
          · exact Or.inl h
          · rcases ih h with h | ⟨p', hp', hx⟩
            · exact Or.inl h
            · exact Or.inr ⟨p', List.mem_cons_of_mem _ hp', hx⟩

/-- Trimming leaves nothing only of white space. -/
theorem isspace_of_trimSpace_nil {v : Bytes} (h : trimSpace v = []) : ∀ x ∈ v, isspace x := by
  unfold trimSpace at h
  rw [List.reverse_eq_nil_iff, List.dropWhile_eq_nil_iff] at h
  rw [← List.dropWhile_eq_nil_iff]
  cases hd : v.dropWhile isspace with
  | nil => rfl
  | cons a t =>
      have hhead := List.head_dropWhile_not isspace (l := v) (by rw [hd]; exact List.cons_ne_nil a t)
      have ha : isspace a = true := h a (by rw [hd]; simp)
      simp only [hd, List.head_cons, ha] at hhead
      cases hhead

/-- A value that mentions `chunked` names some coding. -/
theorem codings_ne_nil {v : Bytes} (h : lit "chunked" <:+: v) : codings v ≠ [] := by
  intro hnil
  have hc : (99 : UInt8) ∈ v := h.subset (by decide)
  rw [← show List.intercalate [44] (v.splitOn 44) = v from List.intercalate_splitOn 44] at hc
  rcases mem_of_mem_intercalate hc with h44 | ⟨p, hp, hx⟩
  · cases h44
  · have htrim : trimSpace p = [] := by
      by_contra hne
      have hmem : trimSpace p ∈ codings v :=
        List.mem_filter.2 ⟨List.mem_map_of_mem hp, by simpa using hne⟩
      rw [hnil] at hmem
      cases hmem
    exact absurd (isspace_of_trimSpace_nil htrim 99 hx) (by decide)

/-- A value mentions every coding it names. -/
theorem infix_of_mem_codings {v e : Bytes} (h : e ∈ codings v) : e <:+: v := by
  obtain ⟨hmem, -⟩ := List.mem_filter.1 h
  obtain ⟨p, hp, rfl⟩ := List.mem_map.1 hmem
  exact (infix_of_trimSpace p).trans (infix_of_mem_splitOn hp)

/-- The framing headers of an accepted request say one thing: lengths agree, and
with a transfer coding the body was decoded as chunked, `chunked` is the last
coding named and there is no length. -/
structure Unambiguous (raw : Bytes) (r : ParseResult) : Prop where
  sameLength : ∀ v ∈ valuesOf (lit "Content-Length") (headerLines raw),
    ∀ w ∈ valuesOf (lit "Content-Length") (headerLines raw), trimSpace v = trimSpace w
  chunked : valuesOf (lit "Transfer-Encoding") (headerLines raw) ≠ [] →
    r.parser.isChunked = true ∧
      ((valuesOf (lit "Transfer-Encoding") (headerLines raw)).flatMap codings).getLast? =
        some (lit "chunked") ∧
      valuesOf (lit "Content-Length") (headerLines raw) = []

/-- The part of it that the parser does not look at: every length says the same,
and the last `Transfer-Encoding` line ends with the coding `chunked`. -/
def FramingLinesAgree (raw : Bytes) : Prop :=
  (∀ v ∈ valuesOf (lit "Content-Length") (headerLines raw),
    ∀ w ∈ valuesOf (lit "Content-Length") (headerLines raw), trimSpace v = trimSpace w) ∧
  ∀ v, (valuesOf (lit "Transfer-Encoding") (headerLines raw)).getLast? = some v →
    (codings v).getLast? = some (lit "chunked")

/-- The last coding of several lines is the last one of the last line, if that
line names any. -/
theorem getLast?_codings {vs : List Bytes} {v : Bytes} (h : vs.getLast? = some v)
    (hne : codings v ≠ []) : (vs.flatMap codings).getLast? = (codings v).getLast? := by
  obtain ⟨ws, rfl⟩ := List.getLast?_eq_some_iff.1 h
  rw [List.flatMap_append, List.flatMap_singleton, List.getLast?_append]
  cases hl : (codings v).getLast? with
  | none => exact absurd (List.getLast?_eq_none_iff.1 hl) hne
  | some e => rfl

/-- **Accepted requests with unambiguous framing headers** are those whose
framing lines agree; the parser itself only supplies that a chunked request
carries no length. -/
theorem framing_unambiguous_iff {raw : Bytes} {r : ParseResult}
    (h : parseRequest {} raw {} = some r) (hc : r.isComplete) :
    Unambiguous raw r ↔ FramingLinesAgree raw := by
  obtain ⟨ls, body, hhead, hexclusive, hchunked⟩ := parseRequest_complete_head h hc
  obtain ⟨hls, hfields⟩ := headerLines_of_head hhead
  have hlast : ∀ name, lastValue name none ls = (valuesOf name ls).getLast? := by
    intro name
    rw [lastValue_eq hfields, Option.or_none]
  rw [hlast, hlast] at hexclusive
  rw [hlast] at hchunked
  constructor
  · intro hu
    refine ⟨hu.sameLength, ?_⟩
    rw [hls]
    intro v hv
    have hne : valuesOf (lit "Transfer-Encoding") (headerLines raw) ≠ [] := by
      rw [hls]
      intro hnil
      rw [hnil] at hv
      cases hv
    obtain ⟨hdec, hcoding, -⟩ := hu.chunked hne
    obtain ⟨w, hw, hin⟩ := hchunked.1 hdec
    rw [hv] at hw
    obtain rfl := Option.some.inj hw
    rw [hls] at hcoding
    rw [← getLast?_codings hv (codings_ne_nil hin), hcoding]
  · rintro ⟨hsame, hte⟩
    refine ⟨hsame, ?_⟩
    rw [hls] at hte ⊢
    intro hne
    cases hv : (valuesOf (lit "Transfer-Encoding") ls).getLast? with
    | none => exact absurd (List.getLast?_eq_none_iff.1 hv) hne
    | some v =>
        have hlastcoding := hte v hv
        have hmem : lit "chunked" ∈ codings v := List.mem_of_getLast? hlastcoding
        have hnames : NamesChunked (valuesOf (lit "Transfer-Encoding") ls).getLast? :=
          ⟨v, hv, infix_of_mem_codings hmem⟩
        refine ⟨hchunked.2 hnames, ?_, ?_⟩
        · rw [getLast?_codings hv (List.ne_nil_of_mem hmem), hlastcoding]
        · exact List.getLast?_eq_none_iff.1 (hexclusive hnames)

/-- A chunked request. -/
def chunkedUpload : Bytes :=
  lit "POST /up HTTP/1.1\r\nTransfer-Encoding: gzip, chunked\r\n\r\n2\r\nhi\r\n0\r\n\r\n"

/-- An upload in chunks is framed one way only. -/
theorem framing_unambiguous_iff_chunkedUpload :
    ∃ r, parseRequest {} chunkedUpload {} = some r ∧ r.isComplete ∧
      Unambiguous chunkedUpload r := by
  have hrun : (parseRequest {} chunkedUpload {}).map ParseResult.isComplete = some true := by
    decide +kernel
  obtain ⟨r, hr, hcomplete⟩ := Option.map_eq_some_iff.1 hrun
  refine ⟨r, hr, hcomplete, (framing_unambiguous_iff hr hcomplete).2 ⟨by decide +kernel, ?_⟩⟩
  intro v hv
  have hlast : (valuesOf (lit "Transfer-Encoding") (headerLines chunkedUpload)).getLast? =
      some (lit "gzip, chunked") := by decide +kernel
  rw [hlast] at hv
  obtain rfl := Option.some.inj hv
  decide +kernel

/-- Two lengths, the last of which wins. -/
def twoLengths : Bytes :=
  lit "POST / HTTP/1.1\r\nContent-Length: 0\r\nContent-Length: 5\r\n\r\nhello"

/-- Two different lengths are accepted, and the last one counts. -/
theorem twoLengths_ambiguous :
    ¬ ∀ raw r, parseRequest {} raw {} = some r → r.isComplete → Unambiguous raw r := by
  intro hall
  have hrun : (parseRequest {} twoLengths {}).map ParseResult.isComplete = some true := by
    decide +kernel
  obtain ⟨r, hr, hcomplete⟩ := Option.map_eq_some_iff.1 hrun
  have hu := hall twoLengths r hr hcomplete
  have hzero : lit "0" ∈ valuesOf (lit "Content-Length") (headerLines twoLengths) := by
    decide +kernel
  have hfive : lit "5" ∈ valuesOf (lit "Content-Length") (headerLines twoLengths) := by
    decide +kernel
  have hsame := hu.sameLength _ hzero _ hfive
  revert hsame
  decide

end Oreshnek
