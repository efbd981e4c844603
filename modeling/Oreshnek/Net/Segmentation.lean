import Oreshnek.Net.Inbound

/-!
# Segmentation of the byte stream

What the parser says of a prefix and of the whole. A prefix that is settled by
the phases stays settled; the guard against large header blocks is the one place
where it does not: without the blank line it measures the whole buffer, with it
only what stands before it. `segmentation_independent` says exactly which
prefixes that concerns, and that no other split of a stream into reads changes
the requests extracted from it.
-/

namespace Oreshnek

/-! ## The guard -/

/-- A block of header lines that ends, ends with two CRLFs. -/
theorem infix_of_headLines {b body : Bytes} (h : (headLines b).2 = some body) :
    crlf ++ crlf <:+: crlf ++ b := by
  induction b using line_induction with
  | stop b hmore =>
      rw [headLines_more hmore] at h
      cases h
  | line l rest hl ih =>
      rw [headLines_line hl] at h
      by_cases hnil : l = []
      · subst hnil
        exact (List.prefix_append (crlf ++ crlf) rest).isInfix
      · rw [if_neg hnil] at h
        have hsuf : crlf ++ rest <:+ crlf ++ (l ++ crlf ++ rest) := ⟨crlf ++ l, by simp⟩
        exact (ih h).trans hsuf.isInfix

/-- A head that has arrived ends with an empty line. -/
theorem HeadArrived.hasDelimiter {raw : Bytes} (h : HeadArrived raw) : crlf ++ crlf <:+: raw := by
  obtain ⟨l, rest, body, hfirst, hbody⟩ := h
  unfold firstLine at hfirst
  obtain ⟨e, he, heq⟩ := Option.map_eq_some_iff.1 hfirst
  have hsplit := Search.find_split he
  have hrest : rest = raw.drop (e + 2) := (congrArg Prod.snd heq).symm
  have hsuf : crlf ++ rest <:+ raw := by
    refine ⟨raw.take e, ?_⟩
    conv_rhs => rw [hsplit]
    rw [List.append_assoc, hrest]
    rfl
  exact (infix_of_headLines hbody).trans hsuf.isInfix

/-- Once the blank line is there, the guard measures the same however much
follows. -/
theorem headerSpan_append {p : Bytes} (h : crlf ++ crlf <:+: p) (r : Bytes) :
    headerSpan (p ++ r) = headerSpan p := by
  unfold headerSpan
  obtain ⟨i, hfind⟩ := Search.exists_find h
  rw [hfind, Search.find_append hfind]
  rfl

theorem headerSpan_of_none {p : Bytes} (h : ¬ crlf ++ crlf <:+: p) : headerSpan p = p.length := by
  unfold headerSpan
  rw [Search.find_eq_none_iff.2 h]
  rfl

/-! ## A prefix and the whole -/

theorem parseRequest_arrived {raw : Bytes} {r : ParseResult}
    (h : parseRequest {} raw {} = some r) (hc : r.parser.state = .complete) :
    crlf ++ crlf <:+: raw := by
  obtain ⟨ls, body, hhead, -⟩ := parseRequest_complete_head h (by simpa [ParseResult.isComplete])
  exact hhead.arrived.hasDelimiter

theorem phase_extend {p r : Bytes}
    (h : Settled (requestLinePhase p.length 0 (Cursor.start p))) :
    requestLinePhase (p ++ r).length 0 (Cursor.start (p ++ r)) =
      (requestLinePhase p.length 0 (Cursor.start p)).map fun x => (x.1, x.2.extend r) := by
  rw [List.length_append]
  exact requestLinePhase_extend rfl (Cursor.start_aligned p) h r

/-- A complete request is found again, at the front of whatever follows it. -/
theorem parseRequest_append {p : Bytes} {rp : ParseResult} (h : parseRequest {} p {} = some rp)
    (hc : rp.parser.state = .complete) (r : Bytes) :
    parseRequest {} (p ++ r) {} = some { rp with buffer := rp.buffer ++ r } := by
  have hspan := headerSpan_append (parseRequest_arrived h hc) r
  rw [parseRequest_eq] at h ⊢
  rw [hspan]
  split at h
  · cases h
    cases hc
  case isFalse hle =>
    rw [if_neg hle]
    obtain ⟨⟨n, c'⟩, hphase, rfl⟩ := Option.map_eq_some_iff.1 h
    have hset : Settled (requestLinePhase p.length 0 (Cursor.start p)) := by
      intro x hx
      rw [hphase] at hx
      cases hx
      exact Or.inl hc
    rw [phase_extend hset, hphase]
    rfl

/-- A sized body of which `p` has the head is waited for, until it is there in full. -/
theorem parseRequest_waits {p r : Bytes} {e : Nat} {c : Cursor} (hhead : crlf ++ crlf <:+: p)
    (hspan : headerSpan p ≤ maxHeaderBytes) (hline : (Cursor.start p).data.find crlf = some e)
    (hstate : (parseRequestLine (Cursor.start p)).2.parser.state = .headers)
    (hc : (parseHeaders (parseRequestLine (Cursor.start p)).2).2 = c)
    (hbody : c.parser.state = .body) (hsized : c.parser.isChunked = false)
    (hshort : c.data.length + r.length < c.parser.bodyExpectedLength) :
    ∃ q, parseRequest {} (p ++ r) {} = some q ∧ q.parser.state = .body := by
  have hwas : (parseHeaders (parseRequestLine (Cursor.start p)).2).2.parser.state ≠ .headers := by
    rw [hc, hbody]
    exact ParsingState.noConfusion
  -- the head is read as before, and the body is still too short
  have hheaders := parseHeaders_extend hstate hwas r
  have hlength : (c.extend r).data.length = c.data.length + r.length := by
    simp only [StringView.length, Cursor.extend_data, StringView.extend_bytes, List.length_append]
  have hwaits : parseBody (c.extend r) = some (false, c.extend r) := by
    rw [parseBody_sized (c := c.extend r) hsized (Nat.lt_of_le_of_lt (Nat.zero_le _) hshort),
      Cursor.extend_http, if_pos (hlength.trans_lt hshort)]
  have hphase : ∃ n, requestLinePhase (p ++ r).length 0 (Cursor.start (p ++ r)) =
      some (n, c.extend r) := by
    have hstart : Cursor.start (p ++ r) = (Cursor.start p).extend r := rfl
    rw [hstart]
    unfold requestLinePhase
    rw [parseRequestLine_extend hline]
    dsimp only
    have hstate' : ((parseRequestLine (Cursor.start p)).2.extend r).parser.state = .headers := hstate
    rw [if_pos hstate']
    unfold headersPhase
    rw [hheaders, hc]
    dsimp only
    have hbody' : (c.extend r).parser.state = .body := hbody
    rw [if_neg (by rw [hbody']; exact ParsingState.noConfusion), if_pos hbody']
    unfold bodyPhase
    rw [hwaits]
    exact ⟨_, rfl⟩
  obtain ⟨n, hphase⟩ := hphase
  rw [parseRequest_eq, headerSpan_append hhead, if_neg (Nat.not_lt.2 hspan), hphase]
  exact ⟨_, rfl, hbody⟩

/-- Undefined behaviour stays so. -/
theorem parseRequest_none_append {p : Bytes} (h : parseRequest {} p {} = none) (r : Bytes) :
    parseRequest {} (p ++ r) {} = none := by
  rw [parseRequest_eq] at h
  split at h
  · cases h
  case isFalse hle =>
    rw [Option.map_eq_none_iff] at h
    have harrived := (requestLinePhase_none h).1.hasDelimiter
    have hset : Settled (requestLinePhase p.length 0 (Cursor.start p)) := by
      intro x hx
      rw [h] at hx
      cases hx
    rw [parseRequest_eq, headerSpan_append harrived, if_neg hle, phase_extend hset, h]
    rfl

/-- Malformed buffers are answered with an error, not with undefined behaviour. -/
theorem parseRequest_malformed {raw : Bytes} (h : Malformed raw) :
    ∃ r, parseRequest {} raw {} = some r ∧ r.parser.state = .error := by
  cases hrun : parseRequest {} raw {} with
  | some r => exact ⟨r, rfl, (parseRequest_error_iff hrun).2 h⟩
  | none =>
      rw [parseRequest_eq] at hrun
      split at hrun
      · cases hrun
      case isFalse hle =>
        rw [Option.map_eq_none_iff] at hrun
        rcases h with hbig | hm
        · exact absurd hbig hle
        · exact absurd hm (requestLinePhase_none hrun).2

/-- A malformed message is malformed with whatever follows it. -/
theorem malformedMessage_append {p : Bytes} (h : MalformedMessage p) (r : Bytes) :
    MalformedMessage (p ++ r) := by
  cases hrun : requestLinePhase p.length 0 (Cursor.start p) with
  | none => exact absurd h (requestLinePhase_none hrun).2
  | some x =>
      obtain ⟨n, c'⟩ := x
      have herr : c'.parser.state = .error := by
        rcases requestLinePhase_cases hrun with ⟨-, hs⟩ | ⟨hno, -⟩ | ⟨hno, -⟩
        · exact hs
        · exact absurd h hno
        · exact absurd h hno
      have hset : Settled (requestLinePhase p.length 0 (Cursor.start p)) := by
        intro y hy
        rw [hrun] at hy
        cases hy
        exact Or.inr herr
      have hext := phase_extend hset (r := r)
      rw [hrun] at hext
      rcases requestLinePhase_cases hext with ⟨hm, -⟩ | ⟨-, hs⟩ | ⟨-, hs, -⟩
      · exact hm
      · rw [Cursor.extend_http, herr] at hs
        rcases hs with hs | hs
        · cases hs
        · cases hs
      · exact absurd herr hs

/-- What the parser settles on a prefix it settles on the whole: the same request
with the same length, and an error for an error. -/
def SegmentationIndependent (p s : Bytes) : Prop :=
  ∀ rp, parseRequest {} p {} = some rp →
    (rp.parser.state = .complete → ∃ rs, parseRequest {} s {} = some rs ∧
      rs.parser.state = .complete ∧ rs.bytesProcessed = rp.bytesProcessed ∧
      rs.request = rp.request) ∧
    (rp.parser.state = .error → ∃ rs, parseRequest {} s {} = some rs ∧ rs.parser.state = .error)

/-- The prefix ends past the header limit and inside the CRLFCRLF that ends a
header block of allowed size. -/
def CutsHeaderLimit (p s : Bytes) : Prop :=
  maxHeaderBytes < p.length ∧ ¬ crlf ++ crlf <:+: p ∧
    ∃ h, Search.find (crlf ++ crlf) s = some h ∧ h ≤ maxHeaderBytes

/-- It does so in a message that is in order. -/
def SplitsHead (p s : Bytes) : Prop := CutsHeaderLimit p s ∧ ¬ MalformedMessage s

/-- A prefix is judged as the whole, unless it is cut where the head reaches the limit. -/
theorem segmentation_iff {p s : Bytes} (h : p <+: s) :
    SegmentationIndependent p s ↔ ¬ SplitsHead p s := by
  obtain ⟨r, rfl⟩ := h
  constructor
  · rintro hind ⟨⟨hlong, hno, i, hi, hle⟩, hgood⟩
    have hguard : Malformed p := Or.inl (by rwa [headerSpan_of_none hno])
    obtain ⟨rp, hrp, herr⟩ := parseRequest_malformed hguard
    obtain ⟨rs, hrs, herrs⟩ := (hind rp hrp).2 herr
    rcases (parseRequest_error_iff hrs).1 herrs with hbig | hm
    · unfold headerSpan at hbig
      rw [hi] at hbig
      exact absurd hle (Nat.not_le.2 hbig)
    · exact hgood hm
  · intro hsplit rp hrp
    constructor
    · intro hc
      exact ⟨_, parseRequest_append hrp hc r, hc, rfl, rfl⟩
    · intro herr
      refine parseRequest_malformed ?_
      rcases (parseRequest_error_iff hrp).1 herr with hbig | hm
      · by_cases hin : crlf ++ crlf <:+: p
        · exact Or.inl (by rwa [headerSpan_append hin])
        · -- the guard measured the whole prefix
          rw [headerSpan_of_none hin] at hbig
          by_cases hcut : CutsHeaderLimit p (p ++ r)
          · exact Or.inr (not_not.1 fun hgood => hsplit ⟨hcut, hgood⟩)
          · refine Or.inl (Nat.lt_of_not_le fun hle => hcut ?_)
            unfold headerSpan at hle
            cases hfind : Search.find (crlf ++ crlf) (p ++ r) with
            | none =>
                rw [hfind, Option.getD_none, List.length_append] at hle
                omega
            | some i =>
                rw [hfind] at hle
                exact ⟨hbig, hin, i, hfind, hle⟩
      · exact Or.inr (malformedMessage_append hm r)

/-! ## The stream -/

namespace Inbound

/-- With bytes in the buffer, only these matter. -/
theorem parseNext_congr {c d : Inbound} (h : c.readBuffer = d.readBuffer)
    (hne : c.readBuffer ≠ []) : c.parseNext = d.parseNext := by
  unfold parseNext
  rw [if_neg hne, if_neg (h ▸ hne), h]
  rfl

/-- Draining depends on the buffer only. -/
theorem drain_congr {c d : Inbound} (h : c.readBuffer = d.readBuffer)
    (hne : c.readBuffer ≠ []) : c.drain = d.drain := by
  have hparse := parseNext_congr h hne
  cases hrun : c.parseNext with
  | none => rw [drain_none hrun, drain_none (hparse ▸ hrun)]
  | some x =>
      obtain ⟨ok, n, c'⟩ := x
      cases ok with
      | false => rw [drain_stop hrun, drain_stop (hparse ▸ hrun)]
      | true => rw [drain_request hrun, drain_request (c := d) (hparse ▸ hrun)]

/-- What has been extracted: the requests, and the bytes still waiting unless the
connection has failed. -/
def extracted (x : List HttpRequest × Inbound) : List HttpRequest × Option Bytes :=
  (x.1, if x.2.parserFailed then none else some x.2.readBuffer)

/-- How a drain stops. -/
theorem parseNext_false {c c' : Inbound} {n : Nat} (h : c.parseNext = some (false, n, c')) :
    (c.readBuffer = [] ∧ c' = c) ∨
      (c.readBuffer ≠ [] ∧ c'.readBuffer = c.readBuffer ∧
        ∃ r, parseRequest {} c.readBuffer {} = some r ∧ r.parser = c'.httpParser) := by
  unfold parseNext at h
  split at h
  case isTrue hnil =>
    cases h
    exact Or.inl ⟨hnil, rfl⟩
  case isFalse hne =>
    cases hr : parseRequest c.httpParser.reset c.readBuffer {} with
    | none =>
        rw [hr] at h
        cases h
    | some r =>
        rw [hr] at h
        dsimp only at h
        obtain ⟨-, hsame, -⟩ := parseRequest_consumed hr
        split at h
        case isTrue herr =>
          cases h
          exact Or.inr ⟨hne, hsame (by rw [herr]; exact ParsingState.noConfusion), r, hr, rfl⟩
        case isFalse herr =>
          have hx := Option.some.inj h
          have hcomplete : r.isComplete = false := congrArg Prod.fst hx
          rw [hcomplete] at hx
          cases hx
          refine Or.inr ⟨hne, hsame fun hc => ?_, r, hr, rfl⟩
          simp [ParseResult.isComplete, hc] at hcomplete

/-- A parser that runs out of the buffer does so whatever arrives. -/
theorem parseNext_none_receive {c : Inbound} (hrun : c.parseNext = none) (r : Bytes) :
    (c.receive r).parseNext = none := by
  have hne : c.readBuffer ≠ [] := by
    intro hnil
    simp [parseNext, hnil] at hrun
  have hnone : parseRequest {} c.readBuffer {} = none := by
    unfold parseNext at hrun
    rw [if_neg hne] at hrun
    cases hr : parseRequest c.httpParser.reset c.readBuffer {} with
    | none => exact hr
    | some x =>
        rw [hr] at hrun
        dsimp only at hrun
        split at hrun
        · cases hrun
        · cases hrun
  have hne' : (c.receive r).readBuffer ≠ [] := by simp [receive, hne]
  unfold parseNext
  rw [if_neg hne']
  have hparse : parseRequest (c.receive r).httpParser.reset (c.receive r).readBuffer {} = none :=
    parseRequest_none_append hnone r
  rw [hparse]

/-- With an incomplete request, what arrives is drained with what there was; an error stays an
error, unless the head is cut at the limit. -/
theorem drain_receive_stop {c c' : Inbound} {n : Nat} (hlive : c.parserFailed = false)
    (hrun : c.parseNext = some (false, n, c')) {r : Bytes}
    (hsplit : ¬ SplitsHead c'.readBuffer (c'.readBuffer ++ r)) :
    ((c.receive r).drain).map extracted =
      if c'.parserFailed then some ([], none)
      else ((c'.receive r).drain).map fun x => ([] ++ (extracted x).1, (extracted x).2) := by
  rcases parseNext_false hrun with ⟨hnil, rfl⟩ | ⟨hne, hsame, rp, hrp, hparser⟩
  · -- nothing to parse
    rw [hlive]
    rfl
  have hne' : (c.receive r).readBuffer ≠ [] := by simp [receive, hne]
  have hbuf : (c.receive r).readBuffer = (c'.receive r).readBuffer := by
    simp [receive, hsame]
  by_cases hfail : c'.parserFailed = true
  · -- an error, which more data leaves an error
    rw [if_pos hfail]
    have herr : rp.parser.state = .error := by
      rw [hparser]
      simpa [parserFailed] using hfail
    rw [hsame] at hsplit
    obtain ⟨rs, hrs, herrs⟩ :=
      ((segmentation_iff (List.prefix_append _ r)).2 hsplit rp hrp).2 herr
    have hnext : (c.receive r).parseNext = some (false, rs.bytesProcessed, ofResult rs) := by
      have hparse : parseRequest (c.receive r).httpParser.reset (c.receive r).readBuffer {} =
          some rs := hrs
      unfold parseNext
      rw [if_neg hne', hparse]
      simp [herrs]
    rw [drain_stop hnext]
    simp [extracted, parserFailed, ofResult, herrs]
  · -- waiting for more
    rw [if_neg hfail, drain_congr hbuf hne']
    cases (c'.receive r).drain with
    | none => rfl
    | some y => simp

/-- A complete request is found as it is whatever arrives behind it, which stays behind it. -/
theorem parseNext_receive {c d : Inbound} {n : Nat} (hrun : c.parseNext = some (true, n, d))
    (r : Bytes) :
    (c.receive r).parseNext = some (true, n, d.receive r) ∧
      (d.receive r).consume n = (d.consume n).receive r ∧
      (d.receive r).ownedRequest n = d.ownedRequest n ∧ (d.consume n).parserFailed = false := by
  obtain ⟨rp, hrp, hc, rfl, rfl⟩ := parseNext_true hrun
  have hstate : rp.parser.state = .complete := by simpa [ParseResult.isComplete] using hc
  obtain ⟨hsize, -, hbytes⟩ := parseRequest_consumed hrp
  obtain ⟨hpos, hle⟩ := hbytes hc
  have hle' : rp.bytesProcessed ≤ (ofResult rp).readBuffer.length := hsize ▸ hle
  refine ⟨?_, ?_, ?_, ?_⟩
  · have hne' : (c.receive r).readBuffer ≠ [] := by
      intro hnil
      simp only [receive, List.append_eq_nil_iff] at hnil
      rw [hnil.1, List.length_nil] at hle
      omega
    have hparse : parseRequest (c.receive r).httpParser.reset (c.receive r).readBuffer {} =
        some { rp with buffer := rp.buffer ++ r } := parseRequest_append hrp hstate r
    unfold parseNext
    rw [if_neg hne', hparse]
    simp [hstate, ParseResult.isComplete, receive, ofResult]
  · rw [consume_eq, consume_eq]
    simp [receive, List.drop_append_of_le_length hle']
  · unfold ownedRequest HttpRequest.makeOwned receive
    rw [List.take_append_of_le_length hle']
  · rw [consume_eq]
    simp [parserFailed, ofResult, hstate]

/-- **Draining and what arrives later**: the requests complete so far come first,
then those of what is left together with what has arrived. -/
theorem drain_receive {c : Inbound} (hlive : c.parserFailed = false) (r : Bytes) :
    match c.drain with
    | none => (c.receive r).drain = none
    | some (reqs, c') =>
        ¬ SplitsHead c'.readBuffer (c'.readBuffer ++ r) →
          ((c.receive r).drain).map extracted =
            if c'.parserFailed then some (reqs, none)
            else ((c'.receive r).drain).map fun x => (reqs ++ (extracted x).1, (extracted x).2) := by
  induction hb : c.readBuffer.length using Nat.strong_induction_on generalizing c with
  | _ len ih =>
  cases hrun : c.parseNext with
  | none =>
      rw [drain_none hrun]
      exact drain_none (parseNext_none_receive hrun r)
  | some x =>
      obtain ⟨ok, n, d⟩ := x
      cases ok with
      | false =>
          rw [drain_stop hrun]
          exact fun hsplit => drain_receive_stop hlive hrun hsplit
      | true =>
          obtain ⟨hnext, hconsume, howned, hlive'⟩ := parseNext_receive hrun r
          rw [drain_request hrun, drain_request hnext, hconsume, howned]
          have hrec := ih _ (hb ▸ parseNext_shrinks hrun) hlive' rfl
          cases hdrain : (d.consume n).drain with
          | none =>
              rw [hdrain] at hrec
              rw [hrec]
              rfl
          | some y =>
              -- the request comes in front of those that follow
              rw [hdrain] at hrec
              intro hsplit
              have hstep := hrec hsplit
              rw [Option.map_map]
              have hcons : (extracted ∘ fun x : List HttpRequest × Inbound =>
                    (d.ownedRequest n :: x.1, x.2)) =
                  (fun z => (d.ownedRequest n :: z.1, z.2)) ∘ extracted := rfl
              rw [hcons, ← Option.map_map, hstep]
              by_cases hfail : y.2.parserFailed = true
              · rw [if_pos hfail, if_pos hfail]
                rfl
              · rw [if_neg hfail, if_neg hfail, Option.map_map]
                rfl

/-- What is left after a drain is at rest. -/
theorem drain_idle {c c' : Inbound} {reqs : List HttpRequest} (h : c.drain = some (reqs, c')) :
    (∃ n, c'.parseNext = some (false, n, c')) ∧
      c'.readBuffer.length ≤ c.readBuffer.length := by
  induction hb : c.readBuffer.length using Nat.strong_induction_on generalizing c reqs with
  | _ len ih =>
  cases hrun : c.parseNext with
  | none =>
      rw [drain_none hrun] at h
      cases h
  | some x =>
      obtain ⟨ok, n, d⟩ := x
      cases ok with
      | false =>
          rw [drain_stop hrun] at h
          cases h
          rcases parseNext_false hrun with ⟨hnil, rfl⟩ | ⟨hne, hsame, -⟩
          · exact ⟨⟨n, hrun⟩, hb.le⟩
          · rw [parseNext_congr hsame.symm hne] at hrun
            exact ⟨⟨n, hrun⟩, by rw [hsame, hb]⟩
      | true =>
          rw [drain_request hrun, Option.map_eq_some_iff] at h
          obtain ⟨y, hy, heq⟩ := h
          cases heq
          have hshrink := parseNext_shrinks hrun
          obtain ⟨hidle, hle⟩ := ih _ (hb ▸ hshrink) hy rfl
          exact ⟨hidle, by omega⟩

/-- No read of the sequence leaves a buffer that splits a head at the limit. -/
def NoReadSplits (c : Inbound) : List Bytes → Prop
  | [] => True
  | r :: rs => ∀ reqs c', (c.receive r).drain = some (reqs, c') →
      ¬ SplitsHead c'.readBuffer (c'.readBuffer ++ rs.flatten) ∧ NoReadSplits c' rs

/-- Streams no longer than the limit split nothing. -/
theorem noReadSplits_of_short {c : Inbound} {reads : List Bytes}
    (h : c.readBuffer.length + reads.flatten.length ≤ maxHeaderBytes) : c.NoReadSplits reads := by
  induction reads generalizing c with
  | nil => trivial
  | cons r rs ih =>
      intro reqs c' hdrain
      have hle := (drain_idle hdrain).2
      simp only [receive, List.length_append, List.flatten_cons] at hle h
      refine ⟨fun hsplit => ?_, ih (by omega)⟩
      have hlong := hsplit.1.1
      omega

/-- Feeding the reads one by one extracts what the whole stream holds. -/
theorem feed_eq_drain {c : Inbound} (hlive : c.parserFailed = false)
    (hidle : ∃ n, c.parseNext = some (false, n, c)) {reads : List Bytes}
    (h : c.NoReadSplits reads) :
    (c.feed reads).map extracted = ((c.receive reads.flatten).drain).map extracted := by
  induction reads generalizing c with
  | nil =>
      obtain ⟨n, hn⟩ := hidle
      have hsame : c.receive [].flatten = c := by simp [receive]
      rw [hsame, drain_stop hn]
      rfl
  | cons r rs ih =>
      have hassoc : c.receive (r :: rs).flatten = (c.receive r).receive rs.flatten := by
        simp [receive]
      -- drain what this read completes, then go on with the rest of the stream
      have hrec := drain_receive (c := c.receive r) hlive rs.flatten
      rw [hassoc]
      unfold feed
      cases hdrain : (c.receive r).drain with
      | none =>
          rw [hdrain] at hrec
          rw [hrec]
      | some x =>
          obtain ⟨reqs, c'⟩ := x
          obtain ⟨hsplit, hnext⟩ := h reqs c' hdrain
          rw [hdrain] at hrec
          rw [hrec hsplit]
          dsimp only
          by_cases hfail : c'.parserFailed = true
          · -- an error ends both
            rw [if_pos hfail, if_pos hfail]
            simp [extracted, hfail]
          · rw [if_neg hfail, if_neg hfail, Option.map_map]
            have hih := ih (by simpa using hfail) (drain_idle hdrain).1 hnext
            calc (c'.feed rs).map (extracted ∘ fun x => (reqs ++ x.1, x.2))
                = ((c'.feed rs).map extracted).map fun y => (reqs ++ y.1, y.2) := by
                  rw [Option.map_map]
                  rfl
              _ = (((c'.receive rs.flatten).drain).map extracted).map
                    fun y => (reqs ++ y.1, y.2) := by rw [hih]
              _ = _ := by
                  rw [Option.map_map]
                  rfl

end Inbound

/-- **Segmentation independence.** Between a prefix and the whole it holds exactly
when the prefix does not cut the end of a header block at the limit; and the
requests extracted from a stream are those of the whole, however it is split into
reads, as long as no read cuts a header block there. -/
theorem segmentation_independent {p s : Bytes} (h : p <+: s) (reads : List Bytes) :
    (SegmentationIndependent p s ↔ ¬ SplitsHead p s) ∧
    (Inbound.NoReadSplits {} reads →
      (Inbound.feed {} reads).map Inbound.extracted =
        (Inbound.drain { readBuffer := reads.flatten }).map Inbound.extracted) := by
  constructor
  · exact segmentation_iff h
  · intro hreads
    exact Inbound.feed_eq_drain rfl ⟨0, rfl⟩ hreads

/-- A request without headers. -/
def getRoot : Bytes := lit "GET / HTTP/1.1\r\n\r\n"

/-- A request line cut in two. -/
theorem segmentation_independent_getRoot :
    SegmentationIndependent getRoot (getRoot ++ lit "GET") ∧
      (Inbound.feed {} [lit "GET / HT", lit "TP/1.1\r\n\r\n"]).map Inbound.extracted =
        (Inbound.drain { readBuffer := [lit "GET / HT", lit "TP/1.1\r\n\r\n"].flatten }).map
          Inbound.extracted := by
  rcases segmentation_independent (List.prefix_append getRoot (lit "GET"))
    [lit "GET / HT", lit "TP/1.1\r\n\r\n"] with ⟨hpair, hstream⟩
  constructor
  · apply hpair.2
    intro hsplit
    exact absurd hsplit.1.1 (by decide)
  · exact hstream (Inbound.noReadSplits_of_short (by decide))

/-! ## A header block that ends at the limit -/

/-- Behind a line, two CRLFs in a row can only begin at its end. -/
theorem infix_line {l b : Bytes} (hl : ¬ crlf <:+: l)
    (h : crlf ++ crlf <:+: l ++ crlf ++ b) : crlf ++ crlf <:+: crlf ++ b := by
  obtain ⟨i, hfind⟩ := Search.exists_find h
  obtain ⟨-, hp, -⟩ := Search.find_eq_some_iff.1 hfind
  obtain ⟨-, -, hmin⟩ := Search.find_eq_some_iff.1 (find_crlf hl b)
  have hle : l.length ≤ i := by
    by_contra hlt
    exact hmin i (Nat.lt_of_not_le hlt) ((List.prefix_append _ _).trans hp)
  obtain ⟨k, rfl⟩ := Nat.exists_eq_add_of_le hle
  rw [List.append_assoc, List.drop_length_add_append] at hp
  exact hp.isInfix.trans (List.drop_suffix _ _).isInfix

/-- Nor can they begin at the end of a blank line's predecessor, if a line with
something in it follows. -/
theorem infix_crlf_line {l b : Bytes} (hl : ¬ crlf <:+: l) (hne : l ≠ [])
    (h : crlf ++ crlf <:+: crlf ++ (l ++ crlf ++ b)) : crlf ++ crlf <:+: crlf ++ b := by
  obtain ⟨s, t, hst⟩ := h
  rcases s with _ | ⟨x, _ | ⟨y, s⟩⟩
  · -- at its own start the line would be empty
    have hpre : crlf <+: l ++ crlf ++ b := by
      refine ⟨t, ?_⟩
      simpa [crlf] using hst
    have hzero : Search.find crlf (l ++ crlf ++ b) = some 0 :=
      Search.find_eq_some_iff.2 ⟨Nat.zero_le _, hpre, fun j hj => absurd hj (Nat.not_lt_zero j)⟩
    rw [find_crlf hl, Option.some.injEq, List.length_eq_zero_iff] at hzero
    exact absurd hzero hne
  · simp [crlf] at hst
  · refine infix_line hl ⟨s, t, ?_⟩
    simp only [crlf, List.cons_append, List.nil_append, List.cons.injEq] at hst ⊢
    exact hst.2.2

/-- A header line with a value of `k` bytes. -/
def longField (k : Nat) : Bytes := lit "X" ++ 58 :: List.replicate k 97

/-- A request with that header, up to the last byte of the blank line. -/
def longHead (k : Nat) : Bytes := lit "GET / HTTP/1.1" ++ crlf ++ (longField k ++ crlf ++ [13])

theorem longField_crlf (k : Nat) : ¬ crlf <:+: longField k := by
  intro h
  have hmem : (13 : UInt8) ∈ longField k := h.subset (by decide)
  simp [longField, lit, List.mem_replicate] at hmem

theorem longHead_length (k : Nat) : (longHead k).length = k + 21 := by
  simp [longHead, longField, crlf, lit]

/-- The values that bring the blank line of an orderly message to the limit. -/
theorem longHead_splits {k : Nat} (hlow : 65516 ≤ k) (hhigh : k ≤ 65518) :
    SplitsHead (longHead k) (longHead k ++ [10]) := by
  have hwhole : longHead k ++ [10] =
      lit "GET / HTTP/1.1" ++ crlf ++ (longField k ++ crlf ++ ([] ++ crlf ++ [])) := by
    simp [longHead, crlf]
  have hlen := longHead_length k
  have hget : ¬ crlf <:+: lit "GET / HTTP/1.1" := by decide +kernel
  have hne : longField k ≠ [] := by simp [longField]
  refine ⟨⟨?_, ?_, ?_⟩, ?_⟩
  · -- inside the limit
    rw [hlen, maxHeaderBytes]
    omega
  · intro h
    -- no blank line has arrived
    have hrest := infix_crlf_line (longField_crlf k) hne (infix_line hget h)
    exact absurd hrest.length_le (by decide)
  · have hblank : crlf ++ crlf <:+: longHead k ++ [10] :=
      ⟨lit "GET / HTTP/1.1" ++ crlf ++ longField k, [], by simp [longHead, crlf]⟩
    obtain ⟨i, hfind⟩ := Search.exists_find hblank
    have hle := Search.find_add_length_le hfind
    simp only [List.length_append, hlen, crlf, List.length_cons, List.length_nil] at hle
    exact ⟨i, hfind, by rw [maxHeaderBytes]; omega⟩
  · -- and the message is not malformed
    have hlines : headLines (longField k ++ crlf ++ ([] ++ crlf ++ [])) = ([longField k], some []) := by
      rw [headLines_line (longField_crlf k), if_neg hne, headLines_line (by decide), if_pos rfl]
    have hfield : fieldOf (longField k) = some (lit "X", (List.replicate k 97).dropWhile isspace) :=
      fieldOf_field _ (by decide)
    have hvalue : ∀ name, name ≠ lit "X" → lastValue name none [longField k] = none := by
      intro name hname
      simp only [lastValue, hfield, if_neg hname]
    rw [hwhole]
    rintro ⟨l, rest, hfirst, hcase⟩
    rw [firstLine_line hget] at hfirst
    cases hfirst
    rw [hlines] at hcase
    simp only [hvalue (lit "Content-Length") (by decide),
      hvalue (lit "Transfer-Encoding") (by decide)] at hcase
    rcases hcase with hbad | ⟨f, hf, hnone⟩ | ⟨body, -, hbad | ⟨⟨v, hv, -⟩, -⟩⟩
    · exact absurd (hbad (lit "GET") (lit "/") (lit "HTTP/1.1") (by decide +kernel)) (by decide)
    · rw [List.mem_singleton.1 hf, hfield] at hnone
      cases hnone
    · rcases hbad with ⟨⟨v, hv, -⟩, -⟩ | ⟨-, v, hv, -⟩
      · cases hv
      · cases hv
    · cases hv

/-- One byte decides between an error and a request. -/
theorem longHead_depends : ¬ ∀ p s, p <+: s → SegmentationIndependent p s := by
  intro hall
  have hleads : longHead 65516 <+: longHead 65516 ++ [10] := List.prefix_append _ _
  exact (segmentation_iff hleads).1 (hall _ _ hleads)
    (longHead_splits (by omega) (by omega))

end Oreshnek
