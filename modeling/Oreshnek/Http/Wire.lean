import Oreshnek.Http.Framing
import Oreshnek.Http.Owned

/-!
# Requests on the wire

`WireRequest` is a request as a client writes it: the pieces of its head and a
body framed by its length or in chunks, with the conditions that make it well
formed as fields. `encode` writes it out. The lemmas follow the parser over what
was written: the header lines come back as the fields (`headLines_fields`), the
chunks as the body (`scanChunks_chunks`, `decodeChunks_chunks`).
-/

namespace Oreshnek

/-! ## CRLF in pieces -/

theorem crlf_cons {x : UInt8} (hx : x ≠ 13) {b : Bytes} (h : crlf <:+: x :: b) : crlf <:+: b := by
  rcases List.infix_cons_iff.1 h with hp | h
  · exact absurd (List.cons_prefix_cons.1 hp).1.symm hx
  · exact h

/-- A CRLF does not reach across another symbol. -/
theorem crlf_append_cons {x : UInt8} (hx : x ≠ 13 ∧ x ≠ 10) {a b : Bytes}
    (h : crlf <:+: a ++ x :: b) : crlf <:+: a ∨ crlf <:+: b := by
  induction a with
  | nil => exact Or.inr (crlf_cons hx.1 h)
  | cons y a ih =>
      rcases List.infix_cons_iff.1 h with hp | h
      · left
        obtain ⟨hy, hp⟩ := List.cons_prefix_cons.1 hp
        cases a with
        | nil => exact absurd (List.cons_prefix_cons.1 hp).1.symm hx.2
        | cons z a =>
            obtain ⟨hz, -⟩ := List.cons_prefix_cons.1 hp
            exact ⟨[], a, by rw [← hy, ← hz]; rfl⟩
      · rcases ih h with ha | hb
        · exact Or.inl (ha.trans (List.suffix_cons y a).isInfix)
        · exact Or.inr hb

/-! ## Header fields -/

/-- A header field: a name, the white space behind the colon, and a value. -/
structure Field where
  name : Bytes
  space : Bytes
  value : Bytes
  name_ne : name ≠ []
  name_colon : 58 ∉ name
  name_crlf : ¬ crlf <:+: name
  space_blank : ∀ c ∈ space, c = 32 ∨ c = 9
  value_crlf : ¬ crlf <:+: value
  value_start : value.dropWhile isspace = value

namespace Field

def line (f : Field) : Bytes := f.name ++ 58 :: (f.space ++ f.value)

theorem line_ne (f : Field) : f.line ≠ [] := by simp [line]

theorem line_crlf (f : Field) : ¬ crlf <:+: f.line := by
  intro h
  rcases crlf_append_cons (by decide) h with h | h
  · exact f.name_crlf h
  · have hblank := f.space_blank
    generalize f.space = s at h hblank
    induction s with
    | nil => exact f.value_crlf h
    | cons c s ih =>
        have hc : c ≠ 13 := by
          rcases hblank c List.mem_cons_self with rfl | rfl
          · decide
          · decide
        exact ih (crlf_cons hc h) fun d hd => hblank d (List.mem_cons_of_mem _ hd)

/-- The white space is skipped and the value begins where it begins. -/
theorem fieldOf_line (f : Field) : fieldOf f.line = some (f.name, f.value) := by
  have hskip : (f.space ++ f.value).dropWhile isspace = f.value := by
    have hall : ∀ c ∈ f.space, isspace c = true := by
      intro c hc
      rcases f.space_blank c hc with rfl | rfl
      · decide
      · decide
    rw [List.dropWhile_append_of_pos hall, f.value_start]
  rw [line, fieldOf_field _ f.name_colon, hskip]

end Field

/-- The fields of a block, each line ended. -/
def encodeFields (fs : List Field) : Bytes := fs.flatMap fun f => f.line ++ crlf

/-- A head as it is written splits into its fields. -/
theorem headLines_fields (fs : List Field) (rest : Bytes) :
    headLines (encodeFields fs ++ (crlf ++ rest)) = (fs.map Field.line, some rest) := by
  induction fs with
  | nil => exact headLines_line (l := []) (by decide) rest
  | cons f fs ih =>
      have hcons : encodeFields (f :: fs) ++ (crlf ++ rest) =
          f.line ++ crlf ++ (encodeFields fs ++ (crlf ++ rest)) := by
        simp [encodeFields]
      rw [hcons, headLines_line f.line_crlf, if_neg f.line_ne, ih]
      rfl

/-- The value of the field called `name`. -/
def fieldValue (fs : List Field) (name : Bytes) : Option Bytes :=
  (fs.find? fun f => name = f.name).map Field.value

/-- With distinct names, the last value of a name is its value. -/
theorem lastValue_fields {fs : List Field} (h : (fs.map Field.name).Nodup) (name : Bytes)
    (old : Option Bytes) :
    lastValue name old (fs.map Field.line) = (fieldValue fs name).or old := by
  induction fs generalizing old with
  | nil => rfl
  | cons f fs ih =>
      rw [List.map_cons] at h
      obtain ⟨hnotin, hrest⟩ := List.nodup_cons.1 h
      rw [List.map_cons]
      unfold lastValue
      rw [f.fieldOf_line]
      simp only [ih hrest]
      by_cases hname : name = f.name
      · have hnone : fieldValue fs name = none := by
          unfold fieldValue
          rw [Option.map_eq_none_iff, List.find?_eq_none]
          intro g hg hgname
          refine hnotin (List.mem_map.2 ⟨g, hg, ?_⟩)
          rw [← hname]
          exact (of_decide_eq_true hgname).symm
        rw [hnone, if_pos hname]
        simp [fieldValue, hname]
      · rw [if_neg hname]
        simp [fieldValue, hname]

/-! ## Chunks -/

theorem le_hexValue (acc : Nat) (ds : Bytes) : acc ≤ hexValue acc ds := by
  induction ds generalizing acc with
  | nil => exact Nat.le_refl _
  | cons d ds ih =>
      have := ih (acc * 16 + (hexDigit d).getD 0)
      unfold hexValue at this ⊢
      rw [List.foldl_cons]
      omega

/-- The digit loop on a hex digit. -/
theorem digits_cons {d : UInt8} {n : Nat} (h : hexDigit d = some n) (ds : Bytes) (acc : Nat) :
    parseChunkSize.digits (d :: ds) acc = parseChunkSize.digits ds (sizeT (acc * 16 + n)) := by
  unfold hexDigit at h
  rw [parseChunkSize.digits]
  split at h
  case isTrue hc => rw [if_pos hc, Option.some.inj h]
  case isFalse hc =>
    split at h
    case isTrue hc' => rw [if_neg hc, if_pos hc', Option.some.inj h]
    case isFalse hc' =>
      split at h
      case isTrue hc'' => rw [if_neg hc, if_neg hc', if_pos hc'', Option.some.inj h]
      case isFalse => cases h

/-- Digits behind the same number but for multiples of `2 ^ 64`. -/
theorem hexValue_wrapped (acc : Nat) (ds : Bytes) :
    sizeT (hexValue (sizeT acc) ds) = sizeT (hexValue acc ds) := by
  have hlinear : ∀ acc, hexValue acc ds = acc * 16 ^ ds.length + hexValue 0 ds := by
    intro acc
    induction ds generalizing acc with
    | nil => simp [hexValue]
    | cons d ds ih =>
        have hstep : ∀ a, hexValue a (d :: ds) = hexValue (a * 16 + (hexDigit d).getD 0) ds :=
          fun _ => rfl
        rw [hstep, hstep, ih, ih (0 * 16 + _), List.length_cons]
        ring
  rw [hlinear, hlinear acc]
  unfold sizeT
  rw [Nat.add_mod, Nat.mul_mod, Nat.mod_mod, ← Nat.mul_mod, ← Nat.add_mod]

/-- The digit loop computes the number modulo `2 ^ 64`. -/
theorem digits_wrapped {ds : Bytes} (h : ∀ d ∈ ds, (hexDigit d).isSome) {acc : Nat}
    (hacc : acc < 2 ^ 64) :
    parseChunkSize.digits ds acc = (true, sizeT (hexValue acc ds)) := by
  induction ds generalizing acc with
  | nil => exact congrArg (Prod.mk true) (Nat.mod_eq_of_lt hacc).symm
  | cons d ds ih =>
      obtain ⟨n, hn⟩ := Option.isSome_iff_exists.1 (h d List.mem_cons_self)
      have hstep : hexValue acc (d :: ds) = hexValue (acc * 16 + n) ds := by
        simp [hexValue, hn]
      have hlt : sizeT (acc * 16 + n) < 2 ^ 64 := Nat.mod_lt _ (by decide)
      rw [digits_cons hn, ih (fun d' hd' => h d' (List.mem_cons_of_mem _ hd')) hlt,
        hexValue_wrapped, hstep]

/-- The number itself, as long as it fits. -/
theorem digits_hexValue {ds : Bytes} (h : ∀ d ∈ ds, (hexDigit d).isSome) {acc : Nat}
    (hlt : hexValue acc ds < 2 ^ 64) :
    parseChunkSize.digits ds acc = (true, hexValue acc ds) := by
  rw [digits_wrapped h (Nat.lt_of_le_of_lt (le_hexValue acc ds) hlt)]
  exact congrArg (Prod.mk true) (Nat.mod_eq_of_lt hlt)

/-- A hex digit is none of the symbols that end a chunk-size token. -/
theorem hexDigit_ne {c : UInt8} (h : (hexDigit c).isSome) :
    c ≠ 13 ∧ c ≠ 10 ∧ c ≠ 59 ∧ c ≠ 32 ∧ c ≠ 9 := by
  refine ⟨?_, ?_, ?_, ?_, ?_⟩ <;> rintro rfl <;> exact absurd h (by decide)

/-- A size line in front of its extension. -/
def beforeExtension (l : Bytes) : Bytes :=
  (Search.find (lit ";") l).elim l fun semi => l.take semi

/-- The token `parse_chunk_size` reads: without the blanks at the end. -/
def sizeToken (l : Bytes) : Bytes :=
  ((beforeExtension l).reverse.dropWhile fun c => c == 32 || c == 9).reverse

theorem parseChunkSize_token (l : Bytes) (out : Nat) :
    parseChunkSize l out =
      if (sizeToken l).isEmpty then (false, out) else parseChunkSize.digits (sizeToken l) 0 :=
  rfl

/-- The text of a chunk size: hex digits of either case, and an extension. -/
structure SizeLine where
  digits : Bytes
  extension : Bytes
  digits_ne : digits ≠ []
  digits_hex : ∀ d ∈ digits, (hexDigit d).isSome
  extension_start : extension = [] ∨ ∃ e, extension = 59 :: e ∧ ¬ crlf <:+: e

namespace SizeLine

def line (s : SizeLine) : Bytes := s.digits ++ s.extension

def size (s : SizeLine) : Nat := hexValue 0 s.digits

theorem digits_crlf (s : SizeLine) : ¬ crlf <:+: s.digits := by
  intro h
  have hmem : (13 : UInt8) ∈ s.digits := h.subset (by decide)
  exact (hexDigit_ne (s.digits_hex 13 hmem)).1 rfl

theorem line_crlf (s : SizeLine) : ¬ crlf <:+: s.line := by
  unfold line
  rcases s.extension_start with hnil | ⟨e, he, hcrlf⟩
  · rw [hnil, List.append_nil]
    exact s.digits_crlf
  · rw [he]
    intro h
    rcases crlf_append_cons (by decide) h with h | h
    · exact s.digits_crlf h
    · exact hcrlf h

/-- The extension begins at the first ';'. -/
theorem beforeExtension_line (s : SizeLine) : beforeExtension s.line = s.digits := by
  have hsemi : (59 : UInt8) ∉ s.digits := fun h => (hexDigit_ne (s.digits_hex 59 h)).2.2.1 rfl
  unfold beforeExtension line
  rcases s.extension_start with hnil | ⟨e, he, -⟩
  · have hnone : Search.find (lit ";") s.digits = none := Search.find_singleton_eq_none.2 hsemi
    rw [hnil, List.append_nil, hnone]
    rfl
  · have hfind : Search.find (lit ";") (s.digits ++ 59 :: e) = some s.digits.length :=
      Search.find_singleton hsemi e
    rw [he, hfind]
    exact List.take_left

/-- The last digit is no blank, so nothing is cut off. -/
theorem sizeToken_line (s : SizeLine) : sizeToken s.line = s.digits := by
  unfold sizeToken
  rw [s.beforeExtension_line]
  cases hrev : s.digits.reverse with
  | nil => exact absurd (List.reverse_eq_nil_iff.1 hrev) s.digits_ne
  | cons c cs =>
      have hmem : c ∈ s.digits := by
        rw [← List.mem_reverse, hrev]
        exact List.mem_cons_self
      obtain ⟨-, -, -, h32, h9⟩ := hexDigit_ne (s.digits_hex c hmem)
      have hkeep : (c :: cs).dropWhile (fun c => c == 32 || c == 9) = c :: cs := by
        rw [List.dropWhile_cons]
        simp [h32, h9]
      rw [hkeep, ← hrev, List.reverse_reverse]

/-- `parse_chunk_size` reads the number, not the extension. -/
theorem parseChunkSize_line (s : SizeLine) (hlt : s.size < 2 ^ 64) (out : Nat) :
    parseChunkSize s.line out = (true, s.size) := by
  rw [parseChunkSize_token, s.sizeToken_line, if_neg (by simpa using s.digits_ne)]
  exact digits_hexValue s.digits_hex hlt

end SizeLine

/-- A chunk with data. -/
structure Chunk where
  head : SizeLine
  data : Bytes
  data_ne : data ≠ []
  data_size : head.size = data.length

/-- The chunks, each with its size line and its CRLF. -/
def encodeChunks (cs : List Chunk) : Bytes :=
  cs.flatMap fun c => c.head.line ++ crlf ++ (c.data ++ crlf)

def chunksData (cs : List Chunk) : Bytes := cs.flatMap Chunk.data

/-- What follows the last data chunk: the size line of zero, trailer lines and a
blank line. -/
structure LastChunk where
  head : SizeLine
  size_zero : head.size = 0
  trailers : List Bytes
  trailers_line : ∀ t ∈ trailers, t ≠ [] ∧ ¬ crlf <:+: t

def LastChunk.encode (e : LastChunk) : Bytes :=
  e.head.line ++ crlf ++ ((e.trailers.flatMap fun t => t ++ crlf) ++ crlf)

/-- Trailer lines are skipped up to the empty line. -/
theorem skipTrailers_lines {ts : List Bytes} (h : ∀ t ∈ ts, t ≠ [] ∧ ¬ crlf <:+: t) (rest : Bytes) :
    skipTrailers ((ts.flatMap fun t => t ++ crlf) ++ (crlf ++ rest)) = some rest := by
  induction ts with
  | nil => exact skipTrailers_line (l := []) (by decide) rest
  | cons t ts ih =>
      obtain ⟨hne, hcrlf⟩ := h t List.mem_cons_self
      have hcons : ((t :: ts).flatMap fun t => t ++ crlf) ++ (crlf ++ rest) =
          t ++ crlf ++ ((ts.flatMap fun t => t ++ crlf) ++ (crlf ++ rest)) := by
        simp
      rw [hcons, skipTrailers_line hcrlf, if_neg hne]
      exact ih fun t' ht' => h t' (List.mem_cons_of_mem _ ht')

theorem chunk_split (c : Chunk) (cs : List Chunk) (rest : Bytes) :
    encodeChunks (c :: cs) ++ rest =
      c.head.line ++ crlf ++ (c.data ++ crlf ++ (encodeChunks cs ++ rest)) := by
  simp [encodeChunks]

/-- Behind a chunk's data and its CRLF the next chunk begins. -/
theorem drop_chunk (c : Chunk) (rest : Bytes) :
    (c.data ++ crlf ++ rest).drop (c.data.length + 2) = rest := drop_line c.data rest

theorem last_split (e : LastChunk) (tail : Bytes) :
    e.encode ++ tail = e.head.line ++ crlf ++
      ((e.trailers.flatMap fun t => t ++ crlf) ++ (crlf ++ tail)) := by
  simp [LastChunk.encode]

/-- Pass 1 accepts what was written, if it fits. -/
theorem scanChunks_chunks (cs : List Chunk) (e : LastChunk) (tail : Bytes) {t : Nat}
    (h : t + (chunksData cs).length ≤ maxBodyBytes) :
    scanChunks (encodeChunks cs ++ (e.encode ++ tail)) t = .complete := by
  have hmax := maxBodyBytes_lt
  induction cs generalizing t with
  | nil =>
      have hsize : e.head.size < 2 ^ 64 := by rw [e.size_zero]; decide
      show scanChunks (e.encode ++ tail) t = .complete
      rw [last_split, scanChunks_line e.head.line_crlf, e.head.parseChunkSize_line hsize,
        e.size_zero]
      simp only [if_true, skipTrailers_lines e.trailers_line]
  | cons c cs ih =>
      have hdata : (chunksData (c :: cs)).length = c.data.length + (chunksData cs).length := by
        simp [chunksData]
      have hpos : 0 < c.data.length := List.length_pos_iff.2 c.data_ne
      have hsize : c.head.size < 2 ^ 64 := by rw [c.data_size]; omega
      have hwrap : sizeT (c.data.length + 2) = c.data.length + 2 := Nat.mod_eq_of_lt (by omega)
      have htotal : sizeT (t + c.data.length) = t + c.data.length := Nat.mod_eq_of_lt (by omega)
      rw [chunk_split, scanChunks_line c.head.line_crlf, c.head.parseChunkSize_line hsize,
        c.data_size]
      simp only [hwrap, htotal, drop_chunk]
      rw [if_neg (by omega), if_neg (by omega), if_neg]
      · exact ih (by omega)
      · simp only [List.length_append, crlf, List.length_cons, List.length_nil]
        omega

/-- The decoder gives the data back. -/
theorem decodeChunks_chunks (cs : List Chunk) (e : LastChunk) (tail : Bytes)
    (h : (chunksData cs).length ≤ maxBodyBytes) :
    decodeChunks (encodeChunks cs ++ (e.encode ++ tail)) = some (chunksData cs, tail) := by
  have hmax := maxBodyBytes_lt
  induction cs with
  | nil =>
      have hsize : e.head.size < 2 ^ 64 := by rw [e.size_zero]; decide
      show decodeChunks (e.encode ++ tail) = some ([], tail)
      rw [last_split, decodeChunks_line e.head.line_crlf, e.head.parseChunkSize_line hsize,
        if_pos e.size_zero, skipTrailers_lines e.trailers_line]
      rfl
  | cons c cs ih =>
      have hdata : (chunksData (c :: cs)).length = c.data.length + (chunksData cs).length := by
        simp [chunksData]
      have hpos : 0 < c.data.length := List.length_pos_iff.2 c.data_ne
      have hsize : c.head.size < 2 ^ 64 := by rw [c.data_size]; omega
      rw [chunk_split, decodeChunks_line c.head.line_crlf, c.head.parseChunkSize_line hsize,
        c.data_size, if_neg (by omega), if_pos, drop_chunk, ih (by omega)]
      · simp [chunksData, List.append_assoc]
      · refine ⟨by omega, ?_⟩
        simp only [List.length_append, crlf, List.length_cons, List.length_nil]
        omega

/-! ## Requests -/

inductive WireBody where
  | none
  | length (body : Bytes)
  | chunked (chunks : List Chunk) (last : LastChunk)

namespace WireBody

def content : WireBody → Bytes
  | none => []
  | length body => body
  | chunked cs _ => chunksData cs

def encode : WireBody → Bytes
  | none => []
  | length body => body
  | chunked cs e => encodeChunks cs ++ e.encode

/-- The framing headers say how this body is framed. -/
def Framed (fs : List Field) : WireBody → Prop
  | none =>
      fieldValue fs (lit "Content-Length") = Option.none ∧
        ¬ NamesChunked (fieldValue fs (lit "Transfer-Encoding"))
  | length body =>
      fieldValue fs (lit "Content-Length") = some (toString_ body.length) ∧
        ¬ NamesChunked (fieldValue fs (lit "Transfer-Encoding")) ∧ body.length ≤ maxBodyBytes
  | chunked cs _ =>
      fieldValue fs (lit "Content-Length") = Option.none ∧
        fieldValue fs (lit "Transfer-Encoding") = some (lit "chunked") ∧
        (chunksData cs).length ≤ maxBodyBytes

end WireBody

/-- The bytes of a head in front of the CRLFCRLF that ends it. -/
def headSize (line : Bytes) (fs : List Field) : Nat :=
  line.length + (fs.map fun f => f.line.length + 2).sum

/-- A well-formed request. -/
structure WireRequest where
  method : HttpMethod
  target : Bytes
  version : Bytes
  fields : List Field
  body : WireBody
  method_known : method ≠ .unknown
  target_space : 32 ∉ target
  target_crlf : ¬ crlf <:+: target
  version_crlf : ¬ crlf <:+: version
  fields_distinct : (fields.map Field.name).Nodup
  head_size : headSize (method.toBytes ++ 32 :: (target ++ 32 :: version)) fields ≤ maxHeaderBytes
  framed : body.Framed fields

namespace WireRequest

def line (w : WireRequest) : Bytes := w.method.toBytes ++ 32 :: (w.target ++ 32 :: w.version)

def encode (w : WireRequest) : Bytes :=
  w.line ++ crlf ++ (encodeFields w.fields ++ (crlf ++ w.body.encode))

/-- What the request says: the path ends at the query. -/
def message (w : WireRequest) : Message where
  method := w.method
  path := w.target.takeWhile (· ≠ 63)
  version := w.version
  headers := fieldValue w.fields
  body := w.body.content

theorem line_crlf (w : WireRequest) : ¬ crlf <:+: w.line := by
  intro h
  rcases crlf_append_cons (by decide) h with h | h
  · revert h
    cases w.method <;> decide +kernel
  · rcases crlf_append_cons (by decide) h with h | h
    · exact w.target_crlf h
    · exact w.version_crlf h

/-- The request line is split into the parts it was written from. -/
theorem line_parts (w : WireRequest) :
    requestLineParts w.line = some (w.method.toBytes, w.target, w.version) := by
  have hmethod : (32 : UInt8) ∉ w.method.toBytes := by
    cases w.method <;> decide
  have hfirst : Search.find (lit " ") w.line = some w.method.toBytes.length :=
    Search.find_singleton hmethod _
  have hrest : w.line.drop (w.method.toBytes.length + 1) = w.target ++ 32 :: w.version :=
    List.drop_length_add_append 1
  have hsecond : Search.find (lit " ") (w.target ++ 32 :: w.version) = some w.target.length :=
    Search.find_singleton w.target_space _
  have hversion : w.line.drop (w.method.toBytes.length + 1 + (w.target.length + 1)) = w.version := by
    rw [← List.drop_drop, hrest]
    exact List.drop_length_add_append 1
  have hname : w.line.take w.method.toBytes.length = w.method.toBytes := List.take_left
  unfold requestLineParts
  simp only [hfirst, hrest, hsecond, hversion, hname, List.take_left]

theorem method_line (w : WireRequest) : methodOfBytes w.method.toBytes = w.method := by
  have hknown := w.method_known
  cases hm : w.method <;> first | exact absurd hm hknown | rfl

theorem encode_append (w : WireRequest) (tail : Bytes) :
    w.encode ++ tail =
      w.line ++ crlf ++ (encodeFields w.fields ++ (crlf ++ (w.body.encode ++ tail))) := by
  simp [encode]

/-- The CRLF that ends a line may as well begin the next. -/
theorem crlf_encodeFields (fs : List Field) (rest : Bytes) :
    crlf ++ (encodeFields fs ++ rest) = (fs.flatMap fun f => crlf ++ f.line) ++ (crlf ++ rest) := by
  induction fs with
  | nil => rfl
  | cons f fs ih =>
      have hcons : encodeFields (f :: fs) ++ rest =
          f.line ++ (crlf ++ (encodeFields fs ++ rest)) := by
        simp [encodeFields]
      rw [hcons, ih]
      simp

/-- The guard lets the head pass. -/
theorem headerSpan_encode (w : WireRequest) (tail : Bytes) :
    headerSpan (w.encode ++ tail) ≤ maxHeaderBytes := by
  have hsplit : w.encode ++ tail = (w.line ++ w.fields.flatMap fun f => crlf ++ f.line) ++
      (crlf ++ (crlf ++ (w.body.encode ++ tail))) := by
    rw [encode_append, List.append_assoc, crlf_encodeFields, List.append_assoc]
  have hlen : (w.line ++ w.fields.flatMap fun f => crlf ++ f.line).length =
      headSize w.line w.fields := by
    unfold headSize
    rw [List.length_append, List.length_flatMap]
    congr 2
  have hsize : headSize w.line w.fields ≤ maxHeaderBytes := w.head_size
  unfold headerSpan
  rw [hsplit]
  obtain ⟨i, hi, hle⟩ := Search.find_le_of_append (crlf ++ crlf)
    (w.line ++ w.fields.flatMap fun f => crlf ++ f.line) (w.body.encode ++ tail)
  rw [← List.append_assoc crlf, hi, Option.getD_some]
  omega

end WireRequest

/-- A chunked upload in two chunks, with an extension and a trailer. -/
example : ∃ w : WireRequest, w.encode =
    lit "POST /up?id=7 HTTP/1.1\r\nHost: a\r\nTransfer-Encoding:chunked\r\n\r\n" ++
      lit "A;x=1\r\n0123456789\r\n0b\r\nhello world\r\n0\r\nSum: 1\r\n\r\n" := by
  refine ⟨{
    method := .post, target := lit "/up?id=7", version := lit "HTTP/1.1"
    fields := [
      ⟨lit "Host", lit " ", lit "a", by decide, by decide, by decide +kernel, by decide +kernel,
        by decide +kernel, by decide⟩,
      ⟨lit "Transfer-Encoding", [], lit "chunked", by decide, by decide, by decide +kernel,
        by decide +kernel, by decide +kernel, by decide⟩]
    body := .chunked [
      ⟨⟨lit "A", lit ";x=1", by decide, by decide +kernel,
          .inr ⟨lit "x=1", rfl, by decide +kernel⟩⟩,
        lit "0123456789", by decide, by decide⟩,
      ⟨⟨lit "0b", [], by decide, by decide +kernel, .inl rfl⟩,
        lit "hello world", by decide, by decide⟩]
      ⟨⟨lit "0", [], by decide, by decide +kernel, .inl rfl⟩, by decide,
        [lit "Sum: 1"], by decide +kernel⟩
    method_known := by decide, target_space := by decide, target_crlf := by decide +kernel
    version_crlf := by decide +kernel, fields_distinct := by decide, head_size := by decide
    framed := ⟨by decide, by decide, by decide⟩ }, by decide +kernel⟩

end Oreshnek
