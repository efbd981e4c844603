import Oreshnek.Http.ChunkGrammar
import Oreshnek.Net.RoundTrip
import Oreshnek.Net.Segmentation

/-!
# The language of the parser

The requests that the parser accepts, lenient as it is, and what it makes of each
(`Accepted`): header names are compared letter by letter and the last line of a name counts,
`Content-Length` is read as `stoul` does, `Transfer-Encoding` need only contain `chunked`, and
neither the two bytes behind a chunk nor the letters of a trailer are looked at. A buffer
completes a request exactly when it begins with a word of this language
(`parse_complete_iff`), so that no word is the beginning of another (`Accepted.unique`).
-/

namespace Oreshnek

/-! ## The language -/

/-- A chunked body as it is accepted behind `t` bytes of decoded data, and its content. -/
inductive LooseChunks : Nat → Bytes → Bytes → Prop
  | last {t : Nat} {line : Bytes} {trailers : List Bytes} (hline : ¬ crlf <:+: line)
      (hsize : parseChunkSize line 0 = (true, 0))
      (htrailers : ∀ x ∈ trailers, x ≠ [] ∧ ¬ crlf <:+: x) :
      LooseChunks t (line ++ crlf ++ ((trailers.flatMap fun x => x ++ crlf) ++ crlf)) []
  /-- Any two bytes may stand behind the data. -/
  | chunk {t : Nat} {line data skipped w content : Bytes} (hline : ¬ crlf <:+: line)
      (hsize : parseChunkSize line 0 = (true, data.length)) (hdata : data ≠ [])
      (hskipped : skipped.length = 2) (htotal : t + data.length ≤ maxBodyBytes)
      (hrest : LooseChunks (t + data.length) w content) :
      LooseChunks t (line ++ crlf ++ (data ++ skipped ++ w)) (data ++ content)

/-- A body, for these values of `Content-Length` and `Transfer-Encoding`. -/
inductive LooseBody : Option Bytes → Option Bytes → Bytes → Bytes → Prop
  | absent {te : Option Bytes} (hte : ¬ NamesChunked te) : LooseBody none te [] []
  | sized {te : Option Bytes} {v body : Bytes} (hte : ¬ NamesChunked te)
      (hlength : stoul v = some body.length) (hmax : body.length ≤ maxBodyBytes) :
      LooseBody (some v) te body body
  | chunked {te : Option Bytes} {w content : Bytes} (hte : NamesChunked te)
      (hchunks : LooseChunks 0 w content) : LooseBody none te w content

/-- The request line and the header lines; a header is what stands around its first colon. -/
structure Head where
  method : HttpMethod
  target : Bytes
  version : Bytes
  fields : List (Bytes × Bytes)
  known : method ≠ .unknown
  target_space : 32 ∉ target
  line_crlf : ¬ crlf <:+: method.toBytes ++ 32 :: (target ++ 32 :: version)
  names : ∀ f ∈ fields, 58 ∉ f.1
  fields_crlf : ∀ f ∈ fields, ¬ crlf <:+: f.1 ++ 58 :: f.2

namespace Head

def line (h : Head) : Bytes := h.method.toBytes ++ 32 :: (h.target ++ 32 :: h.version)

def lines (h : Head) : List Bytes := h.fields.map fun f => f.1 ++ 58 :: f.2

/-- The head up to its blank line. -/
def text (h : Head) : Bytes := h.line ++ h.lines.flatMap fun l => crlf ++ l

def encode (h : Head) : Bytes := h.text ++ (crlf ++ crlf)

/-- The last line of a name, without the white space in front of its value. -/
def value (h : Head) (name : Bytes) : Option Bytes :=
  ((h.fields.filter fun f => decide (f.1 = name)).getLast?).map fun f => f.2.dropWhile isspace

def message (h : Head) (body : Bytes) : Message where
  method := h.method
  path := h.target.takeWhile (· ≠ 63)
  version := h.version
  headers := h.value
  body := body

end Head

/-- A request as it is accepted, and what it says. -/
def Accepted (w : Bytes) (m : Message) : Prop :=
  ∃ (h : Head) (body content : Bytes), h.text.length ≤ maxHeaderBytes ∧
    LooseBody (h.value (lit "Content-Length")) (h.value (lit "Transfer-Encoding")) body content ∧
    w = h.encode ++ body ∧ m = h.message content

/-! ## Chunked bodies -/

/-- What both passes get through is a word. -/
theorem loose_of_passes {b : Bytes} {t : Nat} {content tail : Bytes} (ht : t ≤ maxBodyBytes)
    (hscan : scanChunks b t = .complete) (hdecode : decodeChunks b = some (content, tail)) :
    ∃ w, b = w ++ tail ∧ LooseChunks t w content := by
  have hmax := maxBodyBytes_lt
  induction b using skip_induction generalizing t content with
  | stop b hmore =>
      rw [decodeChunks_more hmore] at hdecode
      cases hdecode
  | line l rest hl ih =>
      rw [scanChunks_line hl] at hscan
      rw [decodeChunks_line hl] at hdecode
      cases hsize : parseChunkSize l 0 with
      | mk ok sz =>
        rw [hsize] at hscan hdecode
        cases ok with
        | false => cases hscan
        | true =>
            dsimp only at hscan hdecode
            by_cases hzero : sz = 0
            · rw [if_pos hzero] at hdecode
              rcases Option.map_eq_some_iff.1 hdecode with ⟨r, hr, heq⟩
              cases heq
              rcases exists_trailers hr with ⟨trailers, htrailers, hrest⟩
              rw [hzero] at hsize
              refine ⟨_, ?_, .last hl hsize htrailers⟩
              rw [hrest]
              simp only [List.append_assoc]
            rw [if_neg hzero] at hscan hdecode
            by_cases hfit : sz < 2 ^ 63 ∧ sz + 2 ≤ rest.length
            swap
            · rw [if_neg hfit] at hdecode
              cases hdecode
            rw [if_pos hfit] at hdecode
            -- no sum wraps
            have htotal : sizeT (t + sz) = t + sz := Nat.mod_eq_of_lt (by omega)
            have hwrap : sizeT (sz + 2) = sz + 2 := Nat.mod_eq_of_lt (by omega)
            rw [htotal, hwrap] at hscan
            by_cases hbig : t + sz > maxBodyBytes
            · rw [if_pos hbig] at hscan
              cases hscan
            rw [if_neg hbig, if_neg (by omega)] at hscan
            rcases Option.map_eq_some_iff.1 hdecode with ⟨r, hr, heq⟩
            cases heq
            rcases ih (sz + 2) (Nat.not_lt.1 hbig) hscan hr with ⟨w, hw, hloose⟩
            have hdata : (rest.take sz).length = sz := List.length_take_of_le (by omega)
            have hskipped : ((rest.drop sz).take 2).length = 2 :=
              List.length_take_of_le (by rw [List.length_drop]; omega)
            refine ⟨l ++ crlf ++ (rest.take sz ++ (rest.drop sz).take 2 ++ w), ?_, ?_⟩
            · have hrest : rest = rest.take sz ++ (rest.drop sz).take 2 ++ (w ++ r.2) := by
                rw [← hw, ← List.drop_drop, List.append_assoc, List.take_append_drop,
                  List.take_append_drop]
              rw [List.append_assoc (l ++ crlf), List.append_assoc (_ ++ _) w, ← hrest]
            · rw [← hdata] at hsize hbig hloose
              refine .chunk hl hsize ?_ hskipped (Nat.not_lt.1 hbig) hloose
              intro hnil
              rw [hnil] at hdata
              exact hzero hdata.symm

/-- Both passes get through a word, whatever follows it. -/
theorem LooseChunks.passes {t : Nat} {w content : Bytes} (h : LooseChunks t w content)
    (tail : Bytes) : scanChunks (w ++ tail) t = .complete ∧
      decodeChunks (w ++ tail) = some (content, tail) := by
  have hmax := maxBodyBytes_lt
  induction h with
  | @last t line trailers hline hsize htrailers =>
      have hskip := skipTrailers_lines htrailers tail
      rw [List.append_assoc, List.append_assoc (_ : Bytes) crlf tail, scanChunks_line hline,
        decodeChunks_line hline, hsize]
      dsimp only
      rw [if_pos rfl, if_pos rfl, hskip]
      exact ⟨rfl, rfl⟩
  | @chunk t line data skipped w content hline hsize hdata hskipped htotal hrest ih =>
      have hpos := List.length_pos_iff.2 hdata
      have hsum : sizeT (t + data.length) = t + data.length := Nat.mod_eq_of_lt (by omega)
      have hwrap : sizeT (data.length + 2) = data.length + 2 := Nat.mod_eq_of_lt (by omega)
      have hfront : (data ++ skipped).length = data.length + 2 := by
        rw [List.length_append, hskipped]
      have hlong : data.length + 2 ≤ (data ++ skipped ++ (w ++ tail)).length := by
        rw [List.length_append, hfront]
        exact Nat.le_add_right _ _
      have hdrop : (data ++ skipped ++ (w ++ tail)).drop (data.length + 2) = w ++ tail :=
        List.drop_left' hfront
      have htake : (data ++ skipped ++ (w ++ tail)).take data.length = data := by
        rw [List.append_assoc, List.take_left]
      rw [List.append_assoc, List.append_assoc (data ++ skipped), scanChunks_line hline,
        decodeChunks_line hline, hsize]
      dsimp only
      rw [if_neg (by omega), if_neg (by omega), hsum, hwrap, if_neg (by omega),
        if_neg (by omega), if_pos ⟨by omega, hlong⟩, hdrop, htake, ih.1, ih.2]
      exact ⟨rfl, rfl⟩

/-! ## Bodies -/

/-- A chunked body is handed to its own function. -/
theorem afterDecision_chunked {te : Option Bytes} (hte : NamesChunked te) (N n : Nat)
    (c : Cursor) :
    afterDecision N n c (framing c.parser none te).2 =
      (parseChunkedBody { c with
        parser := { c.parser with isChunked := true, state := .body } }).map fun x =>
          (if x.2.parser.state = .error then N - c.data.length else N - x.2.data.length,
            x.2) := by
  rw [framing_chunked _ hte]
  unfold afterDecision bodyPhase
  simp only [reduceCtorEq, if_false, if_true]
  rw [parseBody_chunked (c := { c with
    parser := { c.parser with isChunked := true, state := .body } }) rfl]

/-- A body with a length is taken when all of it has arrived. -/
theorem afterDecision_sized {te : Option Bytes} {v : Bytes} {length : Nat}
    (hte : ¬ NamesChunked te) (hlength : stoul v = some length) (hmax : length ≤ maxBodyBytes)
    (hpos : 0 < length) {c : Cursor} (hparser : c.parser = { state := .headers }) (N n : Nat) :
    afterDecision N n c (framing c.parser (some v) te).2 =
      some (if c.data.length < length then
          (N - c.data.length,
            { c with parser := { state := .body, bodyExpectedLength := length } })
        else
          (N - (c.data.removePrefix length).length,
            { c with
              parser := { state := .complete, bodyExpectedLength := length }
              request := { c.request with body := c.data.substr 0 length }
              data := c.data.removePrefix length })) := by
  have hbody := parseBody_sized
    (c := { c with parser := { state := .body, bodyExpectedLength := length } }) rfl hpos
  dsimp only at hbody
  rw [framing_length _ hte hlength hmax, hparser]
  unfold afterDecision bodyPhase
  simp only [if_pos hpos, reduceCtorEq, if_false, if_true, hbody]
  split
  · rfl
  · rfl

/-- What follows the framing decision takes a word off the view. -/
theorem LooseBody.run {cl te : Option Bytes} {body content : Bytes}
    (h : LooseBody cl te body content) {N n : Nat} {c : Cursor} {tail : Bytes}
    (hparser : c.parser = { state := .headers }) (hempty : c.request.body = .empty)
    (hdata : c.data.bytes = body ++ tail) :
    ∃ k c' v, afterDecision N n c (framing c.parser cl te).2 = some (k, c') ∧
      c'.parser.state = .complete ∧ c'.data.bytes = tail ∧
      c'.request = { c.request with body := v } ∧ v.bytes = content := by
  cases h with
  | absent hte =>
      rw [framing_none _ hte, hparser]
      exact ⟨_, _, c.request.body, rfl, rfl, hdata, rfl, by rw [hempty]; rfl⟩
  | sized hte hlength hmax =>
      by_cases hpos : body.length > 0
      · -- the whole body has arrived
        have hlong : ¬ c.data.length < body.length := by
          rw [StringView.length, hdata, List.length_append]
          exact Nat.not_lt.2 (Nat.le_add_right _ _)
        rw [afterDecision_sized hte hlength hmax hpos hparser, if_neg hlong]
        refine ⟨_, _, c.data.substr 0 body.length, rfl, rfl, ?_, rfl, ?_⟩
        · rw [StringView.removePrefix_bytes, hdata, List.drop_left]
        · rw [StringView.substr_bytes, hdata, List.drop_zero, List.take_left]
      · have hnil : body = [] := List.eq_nil_of_length_eq_zero (by omega)
        subst hnil
        rw [framing_length _ hte hlength hmax, hparser]
        exact ⟨_, _, c.request.body, rfl, rfl, hdata, rfl, by rw [hempty]; rfl⟩
  | chunked hte hchunks =>
      rcases hchunks.passes tail with ⟨hscan, hdecode⟩
      rw [afterDecision_chunked hte, parseChunkedBody_eq]
      simp only [hdata, hscan, hdecode, Option.map_some]
      exact ⟨_, _, ⟨c.data.pos, content⟩, rfl, rfl, rfl, rfl, rfl⟩

/-- A chunked body that is got through is a word. -/
theorem loose_of_chunked {te : Option Bytes} (hte : NamesChunked te) {N n k : Nat}
    {c c' : Cursor} (hrun : afterDecision N n c (framing c.parser none te).2 = some (k, c'))
    (hcomplete : c'.parser.state = .complete) :
    ∃ body content, c.data.bytes = body ++ c'.data.bytes ∧ LooseBody none te body content ∧
      ∃ v, c'.request = { c.request with body := v } ∧ v.bytes = content := by
  rw [afterDecision_chunked hte, parseChunkedBody_eq] at hrun
  dsimp only at hrun
  cases hscan : scanChunks c.data.bytes 0 with
  | needMore =>
      rw [hscan] at hrun
      cases hrun
      cases hcomplete
  | error message =>
      rw [hscan] at hrun
      cases hrun
      cases hcomplete
  | complete =>
      rw [hscan] at hrun
      cases hdecode : decodeChunks c.data.bytes with
      | none =>
          rw [hdecode] at hrun
          cases hrun
      | some d =>
          rw [hdecode] at hrun
          cases hrun
          rcases loose_of_passes (Nat.zero_le _) hscan hdecode with ⟨w, hw, hloose⟩
          exact ⟨w, d.1, hw, .chunked hte hloose, _, rfl, rfl⟩

/-- So is a body with a length. -/
theorem loose_of_sized {te : Option Bytes} {v : Bytes} {length : Nat} (hte : ¬ NamesChunked te)
    (hlength : stoul v = some length) (hmax : length ≤ maxBodyBytes) {N n k : Nat} {c c' : Cursor}
    (hparser : c.parser = { state := .headers }) (hempty : c.request.body = .empty)
    (hrun : afterDecision N n c (framing c.parser (some v) te).2 = some (k, c'))
    (hcomplete : c'.parser.state = .complete) :
    ∃ body content, c.data.bytes = body ++ c'.data.bytes ∧ LooseBody (some v) te body content ∧
      ∃ v, c'.request = { c.request with body := v } ∧ v.bytes = content := by
  by_cases hpos : length > 0
  · rw [afterDecision_sized hte hlength hmax hpos hparser] at hrun
    by_cases hshort : c.data.length < length
    · rw [if_pos hshort] at hrun
      cases hrun
      cases hcomplete
    · rw [if_neg hshort] at hrun
      cases hrun
      have htake : (c.data.bytes.take length).length = length :=
        List.length_take_of_le (Nat.not_lt.1 hshort)
      refine ⟨c.data.bytes.take length, c.data.bytes.take length, ?_, ?_, _, rfl, ?_⟩
      · rw [StringView.removePrefix_bytes, List.take_append_drop]
      · rw [← htake] at hlength hmax
        exact .sized hte hlength hmax
      · rw [StringView.substr_bytes, List.drop_zero]
  · have hzero : length = 0 := by omega
    rw [framing_length _ hte hlength hmax, hparser, hzero] at hrun
    rw [hzero] at hlength
    cases hrun
    exact ⟨[], [], rfl, .sized hte hlength (Nat.zero_le _), c.request.body, rfl,
      by rw [hempty]; rfl⟩

/-- A framing decision that is an error is not got past. -/
theorem not_complete_of_error {N n k : Nat} {c c' : Cursor} {p : HttpParser}
    (herror : p.state = .error) (hrun : afterDecision N n c p = some (k, c')) :
    c'.parser.state ≠ .complete := by
  unfold afterDecision at hrun
  rw [if_pos herror] at hrun
  cases hrun
  rw [herror]
  exact ParsingState.noConfusion

/-- What is taken off the view is a word. -/
theorem loose_of_run {cl te : Option Bytes} {N n k : Nat} {c c' : Cursor}
    (hparser : c.parser = { state := .headers }) (hempty : c.request.body = .empty)
    (hrun : afterDecision N n c (framing c.parser cl te).2 = some (k, c'))
    (hcomplete : c'.parser.state = .complete) :
    ∃ body content, c.data.bytes = body ++ c'.data.bytes ∧ LooseBody cl te body content ∧
      ∃ v, c'.request = { c.request with body := v } ∧ v.bytes = content := by
  by_cases hte : NamesChunked te
  · cases cl with
    | some v =>
        have herror : (framing c.parser (some v) te).2.state = .error := by
          rw [framing_conflict _ hte (Option.some_ne_none v)]
          rfl
        exact absurd hcomplete (not_complete_of_error herror hrun)
    | none => exact loose_of_chunked hte hrun hcomplete
  · cases cl with
    | none =>
        rw [framing_none _ hte, hparser] at hrun
        cases hrun
        exact ⟨[], [], rfl, .absent hte, c.request.body, rfl, by rw [hempty]; rfl⟩
    | some v =>
        by_cases hbad : ∀ n, stoul v = some n → maxBodyBytes < n
        · have herror := framing_badLength c.parser hte hbad
          exact absurd hcomplete (not_complete_of_error herror hrun)
        · push Not at hbad
          rcases hbad with ⟨length, hlength, hmax⟩
          exact loose_of_sized hte hlength hmax hparser hempty hrun hcomplete

/-! ## Heads -/

/-- A header line is not empty and ends at its CRLF. -/
def Plain (ls : List Bytes) : Prop := ∀ l ∈ ls, l ≠ [] ∧ ¬ crlf <:+: l

theorem Plain.tail {l : Bytes} {ls : List Bytes} (h : Plain (l :: ls)) : Plain ls :=
  fun l' hl' => h l' (List.mem_cons_of_mem _ hl')

theorem flatMap_lines (l : Bytes) (ls : List Bytes) (rest : Bytes) :
    ((l :: ls).flatMap fun l => l ++ crlf) ++ rest =
      l ++ crlf ++ ((ls.flatMap fun l => l ++ crlf) ++ rest) := by
  rw [List.flatMap_cons, List.append_assoc]

/-- The CRLF that ends a line may as well begin the next. -/
theorem crlf_lines (ls : List Bytes) (rest : Bytes) :
    crlf ++ ((ls.flatMap fun l => l ++ crlf) ++ rest) =
      (ls.flatMap fun l => crlf ++ l) ++ (crlf ++ rest) := by
  induction ls with
  | nil => rfl
  | cons l ls ih =>
      rw [flatMap_lines, List.append_assoc l, ih, List.flatMap_cons, ← List.append_assoc crlf,
        ← List.append_assoc]

/-- Lines with an end behind each of them split into these lines. -/
theorem headLines_lines {ls : List Bytes} (h : Plain ls) (rest : Bytes) :
    headLines ((ls.flatMap fun l => l ++ crlf) ++ (crlf ++ rest)) = (ls, some rest) := by
  induction ls with
  | nil =>
      have hnil : ¬ crlf <:+: ([] : Bytes) := by decide
      exact (headLines_line hnil rest).trans (if_pos rfl)
  | cons l ls ih =>
      rcases h l List.mem_cons_self with ⟨hne, hcrlf⟩
      rw [flatMap_lines, headLines_line hcrlf, if_neg hne, ih h.tail]

/-- A head that has its blank line consists of its lines. -/
theorem lines_of_headLines {b rest : Bytes} {ls : List Bytes}
    (h : headLines b = (ls, some rest)) :
    Plain ls ∧ b = (ls.flatMap fun l => l ++ crlf) ++ (crlf ++ rest) := by
  induction b using line_induction generalizing ls with
  | stop b hmore =>
      rw [headLines_more hmore] at h
      cases h
  | line l b hl ih =>
      rw [headLines_line hl] at h
      by_cases hnil : l = []
      · rw [if_pos hnil] at h
        cases h
        refine ⟨fun l' hl' => absurd hl' List.not_mem_nil, ?_⟩
        rw [hnil]
        rfl
      · rw [if_neg hnil] at h
        have hparts := Prod.mk.inj h
        rcases ih (Prod.ext rfl hparts.2) with ⟨hplain, hb⟩
        rw [← hparts.1]
        constructor
        · intro l' hl'
          rcases List.mem_cons.1 hl' with rfl | hin
          · exact ⟨hnil, hl⟩
          · exact hplain l' hin
        · rw [flatMap_lines, ← hb]

/-- The blank line is the first place with two CRLFs in a row. -/
theorem find_blank {line : Bytes} (hline : ¬ crlf <:+: line) {ls : List Bytes} (h : Plain ls)
    (rest : Bytes) :
    Search.find (crlf ++ crlf)
        (line ++ crlf ++ ((ls.flatMap fun l => l ++ crlf) ++ (crlf ++ rest))) =
      some (line ++ ls.flatMap fun l => crlf ++ l).length := by
  induction ls generalizing line with
  | nil =>
      rw [Search.find_delim_then crlf_unbordered crlf_ne_nil hline]
      exact (if_pos (List.prefix_append crlf rest)).trans (by simp)
  | cons l ls ih =>
      rcases h l List.mem_cons_self with ⟨hne, hcrlf⟩
      have hfirst := find_crlf hcrlf ((ls.flatMap fun l => l ++ crlf) ++ (crlf ++ rest))
      have hnot : ¬ crlf <+: l ++ crlf ++ ((ls.flatMap fun l => l ++ crlf) ++ (crlf ++ rest)) := by
        intro hstart
        have hzero := (Search.find_eq_some_iff (i := 0)).2
          ⟨Nat.zero_le _, hstart, fun j hj => absurd hj (Nat.not_lt_zero j)⟩
        rw [hfirst] at hzero
        exact hne (List.eq_nil_of_length_eq_zero (Option.some.inj hzero))
      rw [flatMap_lines, Search.find_delim_then crlf_unbordered crlf_ne_nil hline, if_neg hnot,
        ih hcrlf h.tail, Option.map_some, List.flatMap_cons]
      simp only [List.length_append]
      congr 1
      omega

/-! ### The request line -/

/-- A request line splits at its first two spaces. -/
theorem requestLineParts_spaces {m t : Bytes} (hm : 32 ∉ m) (ht : 32 ∉ t) (v : Bytes) :
    requestLineParts (m ++ 32 :: (t ++ 32 :: v)) = some (m, t, v) := by
  have hfirst : Search.find (lit " ") (m ++ 32 :: (t ++ 32 :: v)) = some m.length :=
    Search.find_singleton hm _
  have hrest : (m ++ 32 :: (t ++ 32 :: v)).drop (m.length + 1) = t ++ 32 :: v :=
    List.drop_length_add_append 1
  have hsecond : Search.find (lit " ") (t ++ 32 :: v) = some t.length :=
    Search.find_singleton ht _
  have hversion : (m ++ 32 :: (t ++ 32 :: v)).drop (m.length + 1 + (t.length + 1)) = v := by
    rw [← List.drop_drop, hrest]
    exact List.drop_length_add_append 1
  unfold requestLineParts
  simp only [hfirst, hrest, hsecond, hversion, List.take_left]

/-- The text in front of a letter, at the first place where it stands. -/
theorem split_at_first (b : UInt8) {l : Bytes} {i : Nat} (h : Search.find [b] l = some i) :
    b ∉ l.take i ∧ l = l.take i ++ b :: l.drop (i + 1) := by
  have hnot := Search.not_infix_of_find_take h (List.cons_ne_nil _ _)
  have hsplit := Search.find_split h
  refine ⟨fun hin => hnot (Search.singleton_infix_iff.2 hin), ?_⟩
  rw [List.append_assoc] at hsplit
  exact hsplit

/-- The parts of a request line stand between its first two blanks. -/
theorem spaces_of_parts {l m t v : Bytes} (h : requestLineParts l = some (m, t, v)) :
    l = m ++ 32 :: (t ++ 32 :: v) ∧ 32 ∉ m ∧ 32 ∉ t := by
  unfold requestLineParts at h
  cases hi : Search.find (lit " ") l with
  | none =>
      rw [hi] at h
      cases h
  | some i =>
      cases hj : Search.find (lit " ") (l.drop (i + 1)) with
      | none =>
          rw [hi] at h
          dsimp only at h
          rw [hj] at h
          cases h
      | some j =>
          rw [hi] at h
          dsimp only at h
          rw [hj] at h
          cases h
          rcases split_at_first 32 hi with ⟨hm, hfirst⟩
          rcases split_at_first 32 hj with ⟨ht, hsecond⟩
          refine ⟨?_, hm, ht⟩
          rw [← List.drop_drop (i := j + 1) (j := i + 1), ← hsecond]
          exact hfirst

/-- A known method is written as it was read. -/
theorem methodOfBytes_eq {m : Bytes} (h : methodOfBytes m ≠ .unknown) :
    (methodOfBytes m).toBytes = m := by
  unfold methodOfBytes at h ⊢
  split
  next heq => exact heq.symm
  split
  next heq => exact heq.symm
  split
  next heq => exact heq.symm
  split
  next heq => exact heq.symm
  split
  next heq => exact heq.symm
  split
  next heq => exact heq.symm
  split
  next heq => exact heq.symm
  next h1 h2 h3 h4 h5 h6 h7 =>
    rw [if_neg h1, if_neg h2, if_neg h3, if_neg h4, if_neg h5, if_neg h6, if_neg h7] at h
    exact absurd rfl h

namespace Head

theorem line_plain (h : Head) : ¬ crlf <:+: h.line := h.line_crlf

theorem encode_append (h : Head) (rest : Bytes) :
    h.encode ++ rest =
      h.line ++ crlf ++ ((h.lines.flatMap fun l => l ++ crlf) ++ (crlf ++ rest)) := by
  rw [List.append_assoc h.line, crlf_lines]
  unfold encode text
  simp only [List.append_assoc]

theorem fieldOf_line (h : Head) {f : Bytes × Bytes} (hf : f ∈ h.fields) :
    fieldOf (f.1 ++ 58 :: f.2) = some (f.1, f.2.dropWhile isspace) :=
  fieldOf_field f.2 (h.names f hf)

theorem lines_fields (h : Head) : ∀ l ∈ h.lines, (fieldOf l).isSome := by
  intro l hl
  rcases List.mem_map.1 hl with ⟨f, hf, rfl⟩
  rw [h.fieldOf_line hf]
  rfl

theorem lines_plain (h : Head) : Plain h.lines := by
  intro l hl
  rcases List.mem_map.1 hl with ⟨f, hf, rfl⟩
  exact ⟨by simp, h.fields_crlf f hf⟩

theorem parts (h : Head) :
    requestLineParts h.line = some (h.method.toBytes, h.target, h.version) := by
  have hmethod : ∀ m : HttpMethod, (32 : UInt8) ∉ m.toBytes := by
    intro m
    cases m <;> decide
  exact requestLineParts_spaces (hmethod h.method) h.target_space h.version

theorem method_line (h : Head) : methodOfBytes h.method.toBytes = h.method := by
  have hknown := h.known
  cases hm : h.method <;> first | exact absurd hm hknown | rfl

/-- The header map keeps the last line of every name. -/
theorem value_eq (h : Head) (name : Bytes) : lastValue name none h.lines = h.value name := by
  rw [lastValue_eq h.lines_fields, Option.or_none]
  unfold value
  rw [← List.getLast?_map]
  congr 1
  unfold valuesOf lines
  rw [List.filterMap_map]
  have hfields := fun f hf => h.fieldOf_line (f := f) hf
  generalize h.fields = fs at hfields
  induction fs with
  | nil => rfl
  | cons f fs ih =>
      have hfirst := hfields f List.mem_cons_self
      have hothers := ih fun f' hf' => hfields f' (List.mem_cons_of_mem _ hf')
      rw [List.filterMap_cons, List.filter_cons]
      dsimp only [Function.comp]
      rw [hfirst, Option.bind_some]
      by_cases hname : f.1 = name
      · rw [if_pos hname.symm, if_pos (decide_eq_true hname), List.map_cons, ← hothers]
      · rw [if_neg fun heq => hname heq.symm, if_neg (by simpa using hname), ← hothers]

theorem headerSpan_encode (h : Head) (rest : Bytes) :
    headerSpan (h.encode ++ rest) = h.text.length := by
  unfold headerSpan
  rw [h.encode_append, find_blank h.line_plain h.lines_plain]
  rfl

/-- Behind the head the request says what it reads, but for the body. -/
theorem message_stored (h : Head) {c : Cursor}
    (hreq : c.request = HttpRequest.ofLine {} 0 h.method.toBytes h.target h.version) :
    (c.afterHeaders h.lines).request.message = h.message [] := by
  have hnone : ∀ name, c.headerBytes name = none := by
    intro name
    unfold Cursor.headerBytes HttpRequest.header
    rw [hreq, HttpRequest.ofLine_headers]
    rfl
  have hvalue : ∀ name, (c.storeHeaders h.lines).headerBytes name = h.value name := by
    intro name
    rw [Cursor.storeHeaders_value h.lines_fields, hnone, h.value_eq]
  rcases ofLine_path {} 0 h.method.toBytes h.target h.version with ⟨hpath, hmethod, hversion⟩
  rcases c.storeHeaders_request h.lines with ⟨m, hm⟩
  unfold HttpRequest.message message Cursor.afterHeaders
  rw [Cursor.dropLine_request]
  congr 1
  · rw [hm, hreq, hmethod, h.method_line]
  · rw [hm, hreq, hpath]
  · rw [hm, hreq, hversion]
  · funext name
    exact hvalue name
  · rw [hm, hreq, HttpRequest.ofLine_body]
    rfl

/-- A head that has arrived leads to the framing decision of its headers. -/
theorem phase (h : Head) {raw rest : Bytes} (hraw : raw = h.encode ++ rest) :
    ∃ n c, c.parser = { state := .headers } ∧ c.request.body = .empty ∧ c.data.bytes = rest ∧
      c.request.message = h.message [] ∧
      requestLinePhase raw.length 0 (Cursor.start raw) =
        afterDecision raw.length n c (framing c.parser (h.value (lit "Content-Length"))
          (h.value (lit "Transfer-Encoding"))).2 := by
  have hsplit := hraw.trans (h.encode_append rest)
  have hknown : methodOfBytes h.method.toBytes ≠ .unknown := by
    rw [h.method_line]
    exact h.known
  rcases requestLinePhase_line (N := raw.length) (n := 0) (c := .start raw) h.line_plain hsplit
    h.parts hknown with ⟨hphase, hrest⟩
  generalize hc : (Cursor.start raw).afterLine h.line h.method.toBytes h.target h.version = c
    at hphase hrest
  have hreq : c.request = HttpRequest.ofLine {} 0 h.method.toBytes h.target h.version := by
    rw [← hc]
    rfl
  have hempty : c.request.headers = ∅ := by
    rw [hreq]
    exact HttpRequest.ofLine_headers _ _ _ _ _
  have hbody : c.request.body = .empty := by
    rw [hreq]
    exact HttpRequest.ofLine_body _ _ _ _ _
  have hparser : c.parser = { state := .headers } := by
    rw [← hc]
    rfl
  have hlines := headLines_lines h.lines_plain rest
  generalize raw.length - ((h.lines.flatMap fun l => l ++ crlf) ++ (crlf ++ rest)).length = n
    at hphase
  rcases headersPhase_lines (N := raw.length) (n := n) hempty
    (by rw [hrest, hlines]; exact h.lines_fields) (by rw [hrest, hlines]) with ⟨hheaders, hdata⟩
  rw [hrest, hlines] at hheaders hdata
  rcases c.storeHeaders_request h.lines with ⟨m, hm⟩
  have hstored : (c.afterHeaders h.lines).parser = c.parser := by
    simp [Cursor.afterHeaders]
  refine ⟨n, c.afterHeaders h.lines, hstored.trans hparser, ?_, hdata, ?_, ?_⟩
  · rw [Cursor.afterHeaders, Cursor.dropLine_request, hm]
    exact hbody
  · exact h.message_stored hreq
  · rw [hphase, hheaders, hstored]
    unfold decision
    rw [h.value_eq, h.value_eq]

/-- A field for each line. -/
theorem exists_fields {ls : List Bytes} (h : ∀ l ∈ ls, (fieldOf l).isSome) :
    ∃ fields : List (Bytes × Bytes), (∀ f ∈ fields, 58 ∉ f.1) ∧
      (fields.map fun f => f.1 ++ 58 :: f.2) = ls := by
  induction ls with
  | nil => exact ⟨[], fun f hf => absurd hf List.not_mem_nil, rfl⟩
  | cons l ls ih =>
      rcases ih fun l' hl' => h l' (List.mem_cons_of_mem _ hl') with ⟨fields, hnames, hmap⟩
      rcases Option.isSome_iff_exists.1 (h l List.mem_cons_self) with ⟨f, hf⟩
      rcases Option.map_eq_some_iff.1 hf with ⟨i, hi, -⟩
      rcases split_at_first 58 hi with ⟨hname, hline⟩
      refine ⟨(l.take i, l.drop (i + 1)) :: fields, ?_, ?_⟩
      · intro f' hf'
        rcases List.mem_cons.1 hf' with rfl | hin
        · exact hname
        · exact hnames f' hin
      · rw [List.map_cons, hmap]
        dsimp only
        rw [← hline]

/-- The parser gets as far as the body only behind a head. -/
theorem exists_of_headOf {raw body : Bytes} {ls : List Bytes} (h : HeadOf raw ls body) :
    ∃ head : Head, raw = head.encode ++ body := by
  rcases h with ⟨l, rest, hfirst, hgood, hfields, hlines⟩
  by_cases hmore : crlf <:+: raw
  swap
  · rw [firstLine_more hmore] at hfirst
    cases hfirst
  rcases exists_line hmore with ⟨l', rest', hl, hraw⟩
  rw [hraw, firstLine_line hl] at hfirst
  cases hfirst
  rcases exists_parts hgood with ⟨m, t, v, hparts, hm⟩
  rcases spaces_of_parts hparts with ⟨hline, -, ht⟩
  rcases lines_of_headLines hlines with ⟨hplain, hrest⟩
  rcases exists_fields hfields with ⟨fields, hnames, hmap⟩
  have hname := methodOfBytes_eq hm
  refine ⟨⟨methodOfBytes m, t, v, fields, hm, ht, ?_, hnames, ?_⟩, ?_⟩
  · rw [hname, ← hline]
    exact hl
  · intro f hf
    apply (hplain (f.1 ++ 58 :: f.2) ?_).2
    rw [← hmap]
    exact List.mem_map_of_mem hf
  · rw [encode_append, hraw, hrest]
    unfold line lines
    dsimp only
    rw [hname, ← hline, hmap]

end Head

/-! ## Words -/

/-- How far a run gets that completes, and what is left of the buffer. -/
theorem processed_eq {raw : Bytes} {k : Nat} {c' : Cursor}
    (hrun : requestLinePhase raw.length 0 (Cursor.start raw) = some (k, c'))
    (hcomplete : c'.parser.state = .complete) :
    k + c'.data.bytes.length = raw.length ∧ c'.buffer.drop k = c'.data.bytes := by
  rcases requestLinePhase_consumed (Cursor.start_aligned raw) rfl rfl hrun with ⟨hconsumed, -⟩
  have hpos : k = c'.data.pos :=
    hconsumed.bytes (by rw [hcomplete]; exact ParsingState.noConfusion)
  have hsize : c'.buffer.length = raw.length := hconsumed.size
  constructor
  · rw [hpos, ← hsize]
    exact hconsumed.aligned.length
  · rw [hpos]
    exact hconsumed.aligned.bytes.symm

/-- A request that is complete is a word, and what is left behind it is as it arrived. -/
theorem parse_word {raw : Bytes} {r : ParseResult} (hr : parseRequest {} raw {} = some r)
    (hcomplete : r.isComplete = true) :
    ∃ w, raw = w ++ r.buffer.drop r.bytesProcessed ∧ w.length = r.bytesProcessed ∧
      Accepted w r.request.message := by
  rcases parseRequest_complete_head hr hcomplete with ⟨ls, rest, hhead, -, -⟩
  rcases Head.exists_of_headOf hhead with ⟨h, hraw⟩
  have hstate : r.parser.state = .complete := by simpa [ParseResult.isComplete] using hcomplete
  have hspan := h.headerSpan_encode rest
  rw [← hraw] at hspan
  rw [parseRequest_eq, hspan] at hr
  by_cases hbig : maxHeaderBytes < h.text.length
  · rw [if_pos hbig] at hr
    cases hr
    cases hstate
  rw [if_neg hbig] at hr
  rcases Option.map_eq_some_iff.1 hr with ⟨⟨k, c'⟩, hrun, rfl⟩
  rcases processed_eq hrun hstate with ⟨hprocessed, hleft⟩
  rcases h.phase hraw with ⟨n, c, hparser, hempty, hdata, hmessage, hphase⟩
  rw [hphase] at hrun
  rcases loose_of_run hparser hempty hrun hstate with ⟨body, content, hbody, hloose, v, hv, rfl⟩
  rw [hdata] at hbody
  refine ⟨h.encode ++ body, ?_, ?_, h, body, v.bytes, Nat.not_lt.1 hbig, hloose, rfl, ?_⟩
  · dsimp only
    rw [hleft, hraw, hbody, List.append_assoc]
  · rw [hraw, hbody, ← List.append_assoc, List.length_append] at hprocessed
    exact (Nat.add_right_cancel hprocessed).symm
  · have hset : c'.request.message = { c.request.message with body := v.bytes } := by
      rw [hv]
      rfl
    exact hset.trans (by rw [hmessage]; rfl)

/-- **What the parser accepts.** A buffer completes a request that takes `n` bytes and says `m`
exactly when its first `n` bytes are a word that says `m`. -/
theorem parse_complete_iff (raw : Bytes) (n : Nat) (m : Message) :
    (∃ r, parseRequest {} raw {} = some r ∧ r.isComplete = true ∧ r.bytesProcessed = n ∧
        r.request.message = m) ↔
      ∃ w tail, raw = w ++ tail ∧ w.length = n ∧ Accepted w m := by
  constructor
  · rintro ⟨r, hr, hcomplete, rfl, rfl⟩
    rcases parse_word hr hcomplete with ⟨w, hraw, hlength, hword⟩
    exact ⟨w, _, hraw, hlength, hword⟩
  · rintro ⟨w, tail, hraw, rfl, h, body, content, hshort, hloose, rfl, rfl⟩
    rw [List.append_assoc] at hraw
    rcases h.phase hraw with ⟨n, c, hparser, hempty, hdata, hmessage, hphase⟩
    rcases hloose.run (N := raw.length) (n := n) hparser hempty hdata with
      ⟨k, c', v, hrun, hstate, htail, hv, rfl⟩
    rw [← hphase] at hrun
    have hprocessed := (processed_eq hrun hstate).1
    have hspan := h.headerSpan_encode (body ++ tail)
    rw [← hraw] at hspan
    refine ⟨⟨k, c'.parser, c'.request, c'.buffer⟩, ?_, ?_, ?_, ?_⟩
    · rw [parseRequest_eq, hspan, if_neg (Nat.not_lt.2 hshort), hrun]
      rfl
    · simp [ParseResult.isComplete, hstate]
    · rw [htail, hraw, ← List.append_assoc, List.length_append] at hprocessed
      exact Nat.add_right_cancel hprocessed
    · have hset : c'.request.message = { c.request.message with body := v.bytes } := by
        rw [hv]
        rfl
      exact hset.trans (by rw [hmessage]; rfl)

/-- No word is the beginning of another one, and a word says one thing. -/
theorem Accepted.unique {w w' tail tail' : Bytes} {m m' : Message} (h : Accepted w m)
    (h' : Accepted w' m') (heq : w ++ tail = w' ++ tail') : w = w' ∧ m = m' := by
  rcases (parse_complete_iff (w ++ tail) w.length m).2 ⟨w, tail, rfl, rfl, h⟩ with
    ⟨r, hr, -, hn, rfl⟩
  rcases (parse_complete_iff (w ++ tail) w'.length m').2 ⟨w', tail', heq, rfl, h'⟩ with
    ⟨r', hr', -, hn', rfl⟩
  rw [hr] at hr'
  cases hr'
  exact ⟨(List.append_inj heq (hn.symm.trans hn')).1, rfl⟩

theorem Accepted.ne_nil {w : Bytes} {m : Message} (h : Accepted w m) : w ≠ [] := by
  rcases (parse_complete_iff w w.length m).2 ⟨w, [], (List.append_nil w).symm, rfl, h⟩ with
    ⟨r, hr, hcomplete, -⟩
  have hpos := (parseRequest_consumed hr).2.2 hcomplete
  exact List.length_pos_iff.1 (hpos.1.trans_le hpos.2)

end Oreshnek
