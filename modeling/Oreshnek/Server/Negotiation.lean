import Oreshnek.Http.Framing
import Oreshnek.Server.Ranges

/-!
# Negotiated compression

`accepts_encoding` looks for the name of a coding anywhere in `Accept-Encoding`.
`acceptsEncoding_iff` says what it finds: a mention of the name between characters that are no
letters or digits (`Mentions`), whatever element of the list it stands in. `listsCoding` reads
the value as the list it is. `Encodes` says when `maybe_compress` makes a body smaller, and
`maybeCompress_cases` that it does nothing else.
-/

namespace Oreshnek

/-! ## What the search finds -/

/-- The first `q=` of a text, before its next comma, is followed by a zero. -/
def RefusedBy (after : Bytes) : Prop :=
  ∃ q, Search.find (lit "q=") after = some q ∧
    (∀ comma, Search.find (lit ",") after = some comma → q < comma) ∧
    atofIsZero (after.drop (q + 2)) = true

/-- The token stands somewhere in the value, apart from letters and digits, and is not refused
by what follows it. -/
def Mentions (ae token : Bytes) : Prop :=
  ∃ before after, ae = before ++ token ++ after ∧
    (∀ c ∈ before.getLast?, isalnum c = false) ∧ (∀ c ∈ after.head?, isalnum c = false) ∧
    ¬ RefusedBy after

/-- The token stands alone at a position. -/
def aloneAt (ae token : Bytes) (i : Nat) : Bool :=
  (i == 0 || !isalnum (ae.getD (i - 1) 0)) &&
    (i + token.length == ae.length || !isalnum (ae.getD (i + token.length) 0))

/-- What follows a position refuses the coding. -/
def refusedFrom (ae : Bytes) (stop : Nat) : Bool :=
  match findAt (lit "q=") ae stop with
  | none => false
  | some q =>
      (match findAt (lit ",") ae stop with
        | none => true
        | some comma => decide (q < comma)) && atofIsZero (ae.drop (q + 2))

/-- The search for a token, from one place where it is found to the next. -/
theorem acceptsEncodingFrom_eq (ae token : Bytes) (htoken : token ≠ []) (p : Nat) :
    acceptsEncodingFrom ae token htoken p =
      match findAt token ae p with
      | none => false
      | some i =>
          (aloneAt ae token i && !refusedFrom ae (i + token.length)) ||
            acceptsEncodingFrom ae token htoken (i + token.length) := by
  rw [acceptsEncodingFrom]
  split
  next hnone => rw [hnone]
  next i hi =>
    rw [hi]
    show (if (aloneAt ae token i && !refusedFrom ae (i + token.length)) = true then true
      else acceptsEncodingFrom ae token htoken (i + token.length)) = _
    dsimp only
    by_cases hgood : (aloneAt ae token i && !refusedFrom ae (i + token.length)) = true
    · rw [if_pos hgood, hgood, Bool.true_or]
    · rw [if_neg hgood, Bool.eq_false_iff.2 hgood, Bool.false_or]

/-- A token stands alone if no letter or digit touches it. -/
theorem aloneAt_iff {before token after : Bytes} :
    aloneAt (before ++ token ++ after) token before.length = true ↔
      (∀ c ∈ before.getLast?, isalnum c = false) ∧ ∀ c ∈ after.head?, isalnum c = false := by
  unfold aloneAt
  rw [Bool.and_eq_true]
  apply and_congr
  · rcases List.eq_nil_or_concat' before with rfl | ⟨init, last, rfl⟩
    · simp
    · have hlast : (init ++ [last] ++ token ++ after).getD ((init ++ [last]).length - 1) 0 =
          last := by
        simp [List.getD_eq_getElem?_getD]
      rw [hlast]
      simp
  · cases after with
    | nil => simp
    | cons c after =>
        have hnext : (before ++ token ++ c :: after).getD (before.length + token.length) 0 =
            c := by
          rw [← List.length_append, List.getD_eq_getElem?_getD,
            List.getElem?_append_right (le_refl _)]
          simp
        rw [hnext]
        simp

theorem findAt_append (pat front after : Bytes) :
    findAt pat (front ++ after) front.length =
      (Search.find pat after).map (· + front.length) := by
  unfold findAt
  rw [List.drop_left]

/-- The search for the weight looks at nothing in front of the token. -/
theorem refusedFrom_iff {front after : Bytes} :
    refusedFrom (front ++ after) front.length = true ↔ RefusedBy after := by
  unfold refusedFrom RefusedBy
  rw [findAt_append, findAt_append]
  cases Search.find (lit "q=") after with
  | none => simp
  | some q =>
      have hdrop : (front ++ after).drop (q + front.length + 2) = after.drop (q + 2) := by
        have : q + front.length + 2 = front.length + (q + 2) := by omega
        rw [this, ← List.drop_drop, List.drop_left]
      simp only [Option.map_some, hdrop, Bool.and_eq_true]
      cases Search.find (lit ",") after with
      | none => simp
      | some comma => simp

/-- The loop from a position finds what is mentioned there or later. Occurrences of the token
do not overlap, so that none is stepped over. -/
theorem acceptsEncodingFrom_iff {ae token : Bytes} (htoken : token ≠ [])
    (hub : Search.Unbordered token) (p : Nat) :
    acceptsEncodingFrom ae token htoken p = true ↔
      ∃ i, p ≤ i ∧ token <+: ae.drop i ∧ aloneAt ae token i = true ∧
        refusedFrom ae (i + token.length) = false := by
  have hpos := List.length_pos_iff.2 htoken
  induction hn : ae.length + 1 - p using Nat.strong_induction_on generalizing p with
  | _ n ih =>
  rw [acceptsEncodingFrom_eq]
  cases hfind : findAt token ae p with
  | none =>
      -- the token does not come again
      unfold findAt at hfind
      rw [Option.map_eq_none_iff, Search.find_eq_none_iff] at hfind
      refine iff_of_false nofun ?_
      rintro ⟨i, hi, hpre, -⟩
      have hdrop : (ae.drop p).drop (i - p) = ae.drop i := by
        rw [List.drop_drop, Nat.add_sub_cancel' hi]
      rw [← hdrop] at hpre
      exact hfind (hpre.isInfix.trans (List.drop_suffix _ _).isInfix)
  | some i =>
      -- it is decided here, or behind this place
      have hbounds := findAt_bounds hfind
      unfold findAt at hfind
      obtain ⟨a, ha, rfl⟩ := Option.map_eq_some_iff.1 hfind
      obtain ⟨-, hat, hmin⟩ := Search.find_eq_some_iff.1 ha
      rw [List.drop_drop, Nat.add_comm p a] at hat
      have hrest := ih (ae.length + 1 - (a + p + token.length)) (by omega) _ rfl
      dsimp only
      rw [Bool.or_eq_true_iff]
      refine (or_congr_right hrest).trans ?_
      constructor
      · rintro (hhere | ⟨j, hj, hlater⟩)
        · rw [Bool.and_eq_true, Bool.not_eq_true'] at hhere
          exact ⟨a + p, by omega, hat, hhere.1, hhere.2⟩
        · exact ⟨j, by omega, hlater⟩
      · rintro ⟨j, hj, hpre, halone, hrefused⟩
        have hfirst : a + p ≤ j := by
          by_contra hlt
          refine hmin (j - p) (by omega) ?_
          rw [List.drop_drop, Nat.add_sub_cancel' hj]
          exact hpre
        rcases Nat.eq_or_lt_of_le hfirst with rfl | hlt
        · refine Or.inl ?_
          rw [Bool.and_eq_true, Bool.not_eq_true']
          exact ⟨halone, hrefused⟩
        · exact Or.inr ⟨j, hub.apart hat hpre hlt, hpre, halone, hrefused⟩

/-- **What `accepts_encoding` finds.** -/
theorem acceptsEncoding_iff {ae token : Bytes} (htoken : token ≠ [])
    (hub : Search.Unbordered token) :
    acceptsEncoding ae token htoken = true ↔ Mentions ae token := by
  unfold acceptsEncoding Mentions
  rw [acceptsEncodingFrom_iff htoken hub]
  constructor
  · rintro ⟨i, -, ⟨after, hafter⟩, halone, hrefused⟩
    have hlen : i ≤ ae.length := by
      by_contra hlt
      rw [List.drop_eq_nil_of_le (by omega), List.append_eq_nil_iff] at hafter
      exact htoken hafter.1
    have hsplit : ae = ae.take i ++ token ++ after := by
      rw [List.append_assoc, hafter, List.take_append_drop]
    have hi : (ae.take i).length = i := List.length_take_of_le hlen
    generalize ae.take i = before at hsplit hi
    subst hi
    subst hsplit
    rw [← List.length_append] at hrefused
    obtain ⟨hbefore, hnext⟩ := aloneAt_iff.1 halone
    refine ⟨before, after, rfl, hbefore, hnext, fun h => ?_⟩
    rw [refusedFrom_iff.2 h] at hrefused
    cases hrefused
  · rintro ⟨before, after, rfl, hbefore, hnext, hrefused⟩
    refine ⟨before.length, Nat.zero_le _, ?_, aloneAt_iff.2 ⟨hbefore, hnext⟩, ?_⟩
    · rw [List.append_assoc, List.drop_left]
      exact List.prefix_append _ _
    · rw [← List.length_append, Bool.eq_false_iff]
      exact fun h => hrefused (refusedFrom_iff.1 h)

/-! ## When a body is compressed -/

/-- The response has a text that may be compressed. -/
structure Compressible (res : HttpResponse) (minBytes : Nat) (body : Bytes) : Prop where
  notFile : res.isFile = false
  notHead : res.headOnly = false
  content : res.bodyContent = .text body
  plain : res.headers.lookup (lit "Content-Encoding") = none
  long : minBytes ≤ body.length
  type : isCompressibleType (((res.headers.lookup (lit "Content-Type")).getD []).map tolower) =
    true

/-- The coding is the first one the server looks for that is mentioned, with what the
compressor makes of the body. -/
inductive Chooses (z : Compressors) (ae body : Bytes) (allowBrotli : Bool) :
    Bytes → Bytes → Prop
  | brotli (hallow : allowBrotli = true) (h : Mentions ae (lit "br")) :
      Chooses z ae body allowBrotli (lit "br") (z.brotli body)
  | gzip (hnot : ¬ (allowBrotli = true ∧ Mentions ae (lit "br")))
      (h : Mentions ae (lit "gzip")) :
      Chooses z ae body allowBrotli (lit "gzip") (z.gzip body)

theorem unbordered_br : Search.Unbordered (lit "br") := by
  intro k hpos hlt
  have : (lit "br").length = 2 := rfl
  obtain rfl : k = 1 := by omega
  decide

theorem unbordered_gzip : Search.Unbordered (lit "gzip") := by
  intro k hpos hlt
  have : (lit "gzip").length = 4 := rfl
  obtain rfl | rfl | rfl : k = 1 ∨ k = 2 ∨ k = 3 := by omega
  · decide
  · decide
  · decide

/-- The coding chosen, with what it makes of the body. -/
theorem chosenCoding_iff {z : Compressors} {ae body : Bytes} {allowBrotli : Bool}
    {c encoded : Bytes} :
    chosenCoding z ae body allowBrotli = some (c, encoded) ↔
      Chooses z ae body allowBrotli c encoded := by
  have hbr : acceptsEncoding ae (lit "br") (by decide) = true ↔ Mentions ae (lit "br") :=
    acceptsEncoding_iff _ unbordered_br
  have hgzip : acceptsEncoding ae (lit "gzip") (by decide) = true ↔ Mentions ae (lit "gzip") :=
    acceptsEncoding_iff _ unbordered_gzip
  unfold chosenCoding
  by_cases hfirst : allowBrotli = true ∧ acceptsEncoding ae (lit "br") (by decide) = true
  · rw [if_pos hfirst]
    constructor
    · intro h
      obtain ⟨rfl, rfl⟩ := Prod.mk.inj (Option.some.inj h)
      exact .brotli hfirst.1 (hbr.1 hfirst.2)
    · intro h
      cases h with
      | brotli => rfl
      | gzip hnot => exact absurd ⟨hfirst.1, hbr.1 hfirst.2⟩ hnot
  · have hnot : ¬ (allowBrotli = true ∧ Mentions ae (lit "br")) := fun h =>
      hfirst ⟨h.1, hbr.2 h.2⟩
    rw [if_neg hfirst]
    by_cases hsecond : acceptsEncoding ae (lit "gzip") (by decide) = true
    · rw [if_pos hsecond]
      constructor
      · intro h
        obtain ⟨rfl, rfl⟩ := Prod.mk.inj (Option.some.inj h)
        exact .gzip hnot (hgzip.1 hsecond)
      · intro h
        cases h with
        | brotli hallow hmentions => exact absurd ⟨hallow, hmentions⟩ hnot
        | gzip => rfl
    · rw [if_neg hsecond]
      refine iff_of_false nofun fun h => ?_
      cases h with
      | brotli hallow hmentions => exact hnot ⟨hallow, hmentions⟩
      | gzip _ hmentions => exact hsecond (hgzip.2 hmentions)

/-- The body of the response is replaced by a smaller one in this coding. -/
structure Encodes (z : Compressors) (req : HttpRequest) (res : HttpResponse) (minBytes : Nat)
    (allowBrotli : Bool) (body c encoded : Bytes) : Prop where
  compressible : Compressible res minBytes body
  chooses : ∃ accept, req.header (lit "Accept-Encoding") = some accept ∧
    Chooses z (accept.bytes.map tolower) body allowBrotli c encoded
  shrinks : encoded ≠ [] ∧ encoded.length < body.length

/-- The response with its body in a coding. -/
def HttpResponse.encode (res : HttpResponse) (c encoded : Bytes) : HttpResponse :=
  ((res.body encoded).header (lit "Content-Encoding") c).header (lit "Vary")
    (lit "Accept-Encoding")

section Compression

variable {z : Compressors} {req : HttpRequest} {res : HttpResponse} {minBytes : Nat}
  {allowBrotli : Bool}

/-- A response that may not be compressed stays as it is. -/
theorem maybeCompress_unfit (h : ∀ body, ¬ Compressible res minBytes body) :
    maybeCompress z req res minBytes allowBrotli = res := by
  unfold maybeCompress
  by_cases hkind : res.isFile = true ∨ res.headOnly = true
  · rw [if_pos hkind]
  · rw [if_neg hkind]
    obtain ⟨hfile, hhead⟩ := not_or.1 hkind
    cases hcontent : res.bodyContent with
    | filePath path => rfl
    | text body =>
        dsimp only
        by_cases hplain : (res.headers.lookup (lit "Content-Encoding")).isSome ∨
            body.length < minBytes
        · rw [if_pos hplain]
        · rw [if_neg hplain]
          obtain ⟨hcoded, hshort⟩ := not_or.1 hplain
          rw [if_pos]
          intro htype
          exact h body ⟨Bool.eq_false_iff.2 hfile, Bool.eq_false_iff.2 hhead, hcontent,
            Option.not_isSome_iff_eq_none.1 hcoded, Nat.le_of_not_lt hshort, htype⟩

/-- For one that may be, the coding that is chosen decides. -/
theorem maybeCompress_fit {body : Bytes} (h : Compressible res minBytes body) :
    maybeCompress z req res minBytes allowBrotli =
      match (req.header (lit "Accept-Encoding")).bind fun accept =>
        chosenCoding z (accept.bytes.map tolower) body allowBrotli with
      | none => res
      | some (c, encoded) =>
          if encoded = [] ∨ body.length ≤ encoded.length then res else res.encode c encoded := by
  have hkind : ¬ (res.isFile = true ∨ res.headOnly = true) := by
    rw [h.notFile, h.notHead]
    rintro (hfile | hhead)
    · cases hfile
    · cases hhead
  have hplain : ¬ ((res.headers.lookup (lit "Content-Encoding")).isSome = true ∨
      body.length < minBytes) := by
    rw [h.plain]
    rintro (hcoded | hshort)
    · cases hcoded
    · exact Nat.not_lt.2 h.long hshort
  unfold maybeCompress
  rw [if_neg hkind, h.content]
  dsimp only
  rw [if_neg hplain, if_neg (not_not.2 h.type)]
  cases req.header (lit "Accept-Encoding") with
  | none => rfl
  | some accept =>
      rw [Option.bind_some]
      dsimp only
      cases chosenCoding z (accept.bytes.map tolower) body allowBrotli with
      | none => rfl
      | some choice => rfl

/-- **What `maybe_compress` does**: it encodes the body, or nothing. -/
theorem maybeCompress_cases (z : Compressors) (req : HttpRequest) (res : HttpResponse)
    (minBytes : Nat) (allowBrotli : Bool) :
    (∃ body c encoded, Encodes z req res minBytes allowBrotli body c encoded ∧
        maybeCompress z req res minBytes allowBrotli = res.encode c encoded) ∨
      ((∀ body c encoded, ¬ Encodes z req res minBytes allowBrotli body c encoded) ∧
        maybeCompress z req res minBytes allowBrotli = res) := by
  by_cases hfit : ∃ body, Compressible res minBytes body
  · obtain ⟨body, hcompressible⟩ := hfit
    rw [maybeCompress_fit hcompressible]
    -- an encoding of this response is one of this body, in the coding that is chosen
    have hchosen : ∀ {body' c encoded}, Encodes z req res minBytes allowBrotli body' c encoded →
        body' = body ∧ (req.header (lit "Accept-Encoding")).bind (fun accept =>
          chosenCoding z (accept.bytes.map tolower) body allowBrotli) = some (c, encoded) := by
      intro body' c encoded h
      obtain rfl : body' = body :=
        BodyContent.text.inj (h.compressible.content.symm.trans hcompressible.content)
      obtain ⟨accept, haccept, hchooses⟩ := h.chooses
      rw [haccept]
      exact ⟨rfl, chosenCoding_iff.2 hchooses⟩
    cases hchoice : (req.header (lit "Accept-Encoding")).bind fun accept =>
        chosenCoding z (accept.bytes.map tolower) body allowBrotli with
    | none =>
        right
        refine ⟨?_, rfl⟩
        intro body' c encoded h
        have hsome := (hchosen h).2
        rw [hchoice] at hsome
        cases hsome
    | some choice =>
        obtain ⟨c, encoded⟩ := choice
        dsimp only
        by_cases hgain : encoded = [] ∨ body.length ≤ encoded.length
        · rw [if_pos hgain]
          right
          refine ⟨?_, rfl⟩
          intro body' c' encoded' h
          obtain ⟨rfl, hsame⟩ := hchosen h
          rw [hchoice] at hsame
          obtain ⟨rfl, rfl⟩ := Prod.mk.inj (Option.some.inj hsame)
          obtain ⟨hne, hlt⟩ := h.shrinks
          rcases hgain with hnil | hle
          · exact hne hnil
          · omega
        · rw [if_neg hgain]
          left
          obtain ⟨hne, hlt⟩ := not_or.1 hgain
          obtain ⟨accept, haccept, hcoding⟩ := Option.bind_eq_some_iff.1 hchoice
          exact ⟨body, c, encoded, ⟨hcompressible, ⟨accept, haccept, chosenCoding_iff.1 hcoding⟩,
            hne, Nat.lt_of_not_le hlt⟩, rfl⟩
  · right
    constructor
    · intro body c encoded h
      exact hfit ⟨body, h.compressible⟩
    · exact maybeCompress_unfit fun body h => hfit ⟨body, h⟩

/-- There is one way to encode a response. -/
theorem Encodes.unique {body c encoded body' c' encoded' : Bytes}
    (h : Encodes z req res minBytes allowBrotli body c encoded)
    (h' : Encodes z req res minBytes allowBrotli body' c' encoded') :
    body' = body ∧ c' = c ∧ encoded' = encoded := by
  obtain rfl : body' = body :=
    BodyContent.text.inj (h'.compressible.content.symm.trans h.compressible.content)
  obtain ⟨accept, haccept, hchosen⟩ := h.chooses
  obtain ⟨accept', haccept', hchosen'⟩ := h'.chooses
  obtain rfl := Option.some.inj (haccept.symm.trans haccept')
  obtain ⟨hc, hencoded⟩ := Prod.mk.inj
    (Option.some.inj ((chosenCoding_iff.2 hchosen').symm.trans (chosenCoding_iff.2 hchosen)))
  exact ⟨rfl, hc, hencoded⟩

theorem encode_coding (res : HttpResponse) (c encoded : Bytes) :
    (res.encode c encoded).headers.lookup (lit "Content-Encoding") = some c :=
  (header_lookup_ne _ _ (by decide)).trans (header_lookup _ _ _)

theorem encode_length (res : HttpResponse) (c encoded : Bytes) :
    (res.encode c encoded).headers.lookup (lit "Content-Length") =
      some (toString_ encoded.length) :=
  (header_lookup_ne _ _ (by decide)).trans
    ((header_lookup_ne _ _ (by decide)).trans (header_lookup _ _ _))

theorem encode_vary (res : HttpResponse) (c encoded : Bytes) :
    (res.encode c encoded).headers.lookup (lit "Vary") = some (lit "Accept-Encoding") :=
  header_lookup _ _ _

/-- The other headers are left alone. -/
theorem encode_other (res : HttpResponse) (c encoded : Bytes) {name : Bytes}
    (hlength : name ≠ lit "Content-Length") (hcoding : name ≠ lit "Content-Encoding")
    (hvary : name ≠ lit "Vary") :
    (res.encode c encoded).headers.lookup name = res.headers.lookup name :=
  (header_lookup_ne _ _ hvary).trans
    ((header_lookup_ne _ _ hcoding).trans (header_lookup_ne _ _ hlength))

/-- The response is encoded when all conditions are met. -/
theorem maybeCompress_encodes {body c encoded : Bytes}
    (h : Encodes z req res minBytes allowBrotli body c encoded) :
    maybeCompress z req res minBytes allowBrotli = res.encode c encoded := by
  rcases maybeCompress_cases z req res minBytes allowBrotli with
    ⟨body', c', encoded', h', hres⟩ | ⟨hnone, -⟩
  · obtain ⟨-, rfl, rfl⟩ := h.unique h'
    exact hres
  · exact absurd h (hnone body c encoded)

/-! ## A text of one letter -/

def manyAs : Bytes := List.replicate 100 97

/-- What zlib makes of it. -/
def manyAsGzip : Bytes :=
  [31, 139, 8, 0, 0, 0, 0, 0, 0, 3, 75, 76, 164, 61, 0, 0, 100, 122, 112, 175, 100, 0, 0, 0]

/-- zlib on this text, without brotli. -/
def zlibOnAs : Compressors where
  gzip := fun b => if b = manyAs then manyAsGzip else []
  brotli := fun _ => []

/-- Its inverse. -/
def unzipAs (c encoded : Bytes) : Option Bytes :=
  if c = lit "gzip" ∧ encoded = manyAsGzip then some manyAs else none

theorem zlibOnAs_decodes (b : Bytes) :
    zlibOnAs.gzip b = [] ∨ unzipAs (lit "gzip") (zlibOnAs.gzip b) = some b := by
  by_cases hb : b = manyAs
  · refine Or.inr ?_
    rw [hb]
    decide
  · exact Or.inl (if_neg hb)

/-- A response with the text and one more header. -/
def textWith (name value : Bytes) : HttpResponse :=
  (HttpResponse.new.text manyAs).header name value

/-- A text response meets the conditions. -/
theorem textWith_encodes {name value accept : Bytes}
    (hcoding : (textWith name value).headers.lookup (lit "Content-Encoding") = none)
    (htype : isCompressibleType ((((textWith name value).headers.lookup
      (lit "Content-Type")).getD []).map tolower) = true)
    (hmentions : Mentions (accept.map tolower) (lit "gzip")) :
    Encodes zlibOnAs (oneField .get (lit "Accept-Encoding") accept) (textWith name value) 32 false
      manyAs (lit "gzip") (zlibOnAs.gzip manyAs) where
  compressible := ⟨rfl, rfl, rfl, hcoding, by decide, htype⟩
  chooses := ⟨⟨0, accept⟩, oneField_header _ _ _, .gzip (by simp) hmentions⟩
  shrinks := by decide

/-! ## What a client lists -/

/-- An element of `Accept-Encoding`: its coding, in lower case. -/
def elementCoding (e : Bytes) : Bytes := (trimSpace ((e.splitOn 59).headD [])).map tolower

/-- The value of its first parameter `q`, if it has one. -/
def elementWeight (e : Bytes) : Option Bytes :=
  (e.splitOn 59).tail.findSome? fun p =>
    match trimSpace p with
    | c :: 61 :: v => if tolower c = 113 then some v else none
    | _ => none

/-- A weight of zero: `0`, and zeros behind a point. -/
def zeroWeight : Bytes → Bool
  | [48] => true
  | 48 :: 46 :: zeros => zeros.all (· == 48)
  | _ => false

/-- The value, a list of codings, has the coding `c` in it with a weight other than zero. -/
def listsCoding (accept c : Bytes) : Bool :=
  (accept.splitOn 44).any fun e =>
    elementCoding e == c && !((elementWeight e).any zeroWeight)

/-- The request lists the coding. -/
def HttpRequest.Lists (req : HttpRequest) (c : Bytes) : Prop :=
  ∃ accept, req.header (lit "Accept-Encoding") = some accept ∧ listsCoding accept.bytes c = true

/-- `Content-Encoding` is set to `c`. -/
def SetsCoding (res res' : HttpResponse) (c : Bytes) : Prop :=
  res.headers.lookup (lit "Content-Encoding") = none ∧
    res'.headers.lookup (lit "Content-Encoding") = some c

/-- The coding the server settles on is one the client lists. It is the first one it looks for
that stands in the lower-cased value between characters that are no letters or digits, without
a `q=` and a zero behind it before the next comma; nothing is asked where the body is not
compressed. -/
def Agreed (z : Compressors) (req : HttpRequest) (res : HttpResponse) (minBytes : Nat)
    (allowBrotli : Bool) : Prop :=
  ∀ body accept, Compressible res minBytes body →
    req.header (lit "Accept-Encoding") = some accept →
    (allowBrotli = true → Mentions (accept.bytes.map tolower) (lit "br") →
      z.brotli body ≠ [] → (z.brotli body).length < body.length →
      listsCoding accept.bytes (lit "br") = true) ∧
    (¬ (allowBrotli = true ∧ Mentions (accept.bytes.map tolower) (lit "br")) →
      Mentions (accept.bytes.map tolower) (lit "gzip") →
      z.gzip body ≠ [] → (z.gzip body).length < body.length →
      listsCoding accept.bytes (lit "gzip") = true)

/-- A coding is agreed on if it is listed, whichever is chosen. -/
theorem agreed_iff :
    Agreed z req res minBytes allowBrotli ↔
      ∀ body c encoded, Encodes z req res minBytes allowBrotli body c encoded → req.Lists c := by
  constructor
  · rintro h body c encoded ⟨hcompressible, ⟨accept, haccept, hchosen⟩, hne, hlt⟩
    obtain ⟨hbr, hgzip⟩ := h body accept hcompressible haccept
    cases hchosen with
    | brotli hallow hmentions => exact ⟨accept, haccept, hbr hallow hmentions hne hlt⟩
    | gzip hnot hmentions => exact ⟨accept, haccept, hgzip hnot hmentions hne hlt⟩
  · intro h body accept hcompressible haccept
    have hlists : ∀ c encoded, Chooses z (accept.bytes.map tolower) body allowBrotli c encoded →
        encoded ≠ [] → encoded.length < body.length → listsCoding accept.bytes c = true := by
      intro c encoded hchosen hne hlt
      obtain ⟨accept', haccept', hlisted⟩ := h body c encoded
        ⟨hcompressible, ⟨accept, haccept, hchosen⟩, hne, hlt⟩
      rw [Option.some.inj (haccept.symm.trans haccept')]
      exact hlisted
    constructor
    · intro hallow hmentions hne hlt
      exact hlists _ _ (.brotli hallow hmentions) hne hlt
    · intro hnot hmentions hne hlt
      exact hlists _ _ (.gzip hnot hmentions) hne hlt

/-- **Negotiation.** A coding that is set is one the client lists exactly when the mention the
server goes by stands for an element of the list. -/
theorem negotiated_iff :
    (∀ c, SetsCoding res (maybeCompress z req res minBytes allowBrotli) c → req.Lists c) ↔
      Agreed z req res minBytes allowBrotli := by
  rw [agreed_iff]
  rcases maybeCompress_cases z req res minBytes allowBrotli with
    ⟨body, c, encoded, hencodes, hres⟩ | ⟨hnone, hres⟩
  · rw [hres]
    constructor
    · intro h body' c' encoded' h'
      obtain ⟨-, rfl, -⟩ := hencodes.unique h'
      exact h c' ⟨hencodes.compressible.plain, encode_coding res c' encoded⟩
    · rintro h c' ⟨-, hset⟩
      rw [encode_coding] at hset
      obtain rfl := Option.some.inj hset
      exact h body c encoded hencodes
  · -- nothing is set
    rw [hres]
    refine iff_of_true ?_ fun body c encoded h => absurd h (hnone body c encoded)
    rintro c ⟨hno, hset⟩
    rw [hno] at hset
    cases hset

/-- `x-gzip` is another coding; the server takes it for `gzip`. -/
theorem part_of_token_accepted :
    ¬ ∀ (z : Compressors) (req : HttpRequest) (res : HttpResponse) (minBytes : Nat)
        (allowBrotli : Bool) (c : Bytes),
      SetsCoding res (maybeCompress z req res minBytes allowBrotli) c → req.Lists c := by
  intro h
  -- a dash is no letter
  have hdash : ∀ c ∈ (lit "x-").getLast?, isalnum c = false := by
    intro c hc
    obtain rfl : 45 = c := Option.some.inj hc
    decide
  have hencodes : Encodes zlibOnAs (oneField .get (lit "Accept-Encoding") (lit "x-gzip"))
      (textWith (lit "X") (lit "y")) 32 false manyAs (lit "gzip") (zlibOnAs.gzip manyAs) :=
    textWith_encodes (by decide) (by decide) ⟨lit "x-", [], by decide, hdash, by simp, by
      rintro ⟨q, hq, -⟩
      cases hq⟩
  obtain ⟨accept, haccept, hlists⟩ := h zlibOnAs
    (oneField .get (lit "Accept-Encoding") (lit "x-gzip")) (textWith (lit "X") (lit "y")) 32 false
    (lit "gzip") ⟨hencodes.compressible.plain, by
      rw [maybeCompress_encodes hencodes]
      exact encode_coding _ _ _⟩
  rw [oneField_header] at haccept
  obtain rfl := Option.some.inj haccept
  exact absurd hlists (by decide)

/-! ## What compression keeps -/

/-- The field names a `Vary` value lists, in lower case. -/
def fieldNames (value : Bytes) : List Bytes := (codings value).map (List.map tolower)

/-- The response says the same as before, possibly in a coding: `decode` undoes a coding. -/
structure KeepsMeaning (decode : Bytes → Bytes → Option Bytes) (res res' : HttpResponse) :
    Prop where
  /-- A new body decodes to the handler's. -/
  decoded : res'.bodyContent ≠ res.bodyContent →
    ∃ body encoded c, res.bodyContent = .text body ∧ res'.bodyContent = .text encoded ∧
      res'.headers.lookup (lit "Content-Encoding") = some c ∧ decode c encoded = some body
  /-- It has its length declared. -/
  length : ∀ encoded, res'.bodyContent = .text encoded → res'.bodyContent ≠ res.bodyContent →
    res'.headers.lookup (lit "Content-Length") = some (toString_ encoded.length)
  /-- A body in a coding is not encoded again. -/
  once : (∃ name ∈ res.headers.keys, name.map tolower = lit "content-encoding") →
    res'.bodyContent = res.bodyContent
  others : ∀ name, name ≠ lit "Content-Length" → name ≠ lit "Content-Encoding" →
    name ≠ lit "Vary" → res'.headers.lookup name = res.headers.lookup name
  /-- `Vary` loses nothing that it listed. -/
  vary : ∀ value, res.headers.lookup (lit "Vary") = some value →
    ∃ value', res'.headers.lookup (lit "Vary") = some value' ∧
      ∀ f ∈ fieldNames value, f ∈ fieldNames value'
  /-- A new body depends on what the client accepts. -/
  varies : res'.bodyContent ≠ res.bodyContent →
    ∃ value', res'.headers.lookup (lit "Vary") = some value' ∧
      lit "accept-encoding" ∈ fieldNames value'

/-- A response keeps its own meaning. -/
theorem keepsMeaning_self (decode : Bytes → Bytes → Option Bytes) (res : HttpResponse) :
    KeepsMeaning decode res res where
  decoded := fun h => absurd rfl h
  length := fun _ _ h => absurd rfl h
  once := fun _ => rfl
  others := fun _ _ _ _ => rfl
  vary := fun value h => ⟨value, h, fun _ hf => hf⟩
  varies := fun h => absurd rfl h

/-- No header of the response is a `Content-Encoding`, in whatever letters, and its `Vary`, if
it has one, lists nothing but `Accept-Encoding`. -/
def Unencumbered (res : HttpResponse) : Prop :=
  (∀ name ∈ res.headers.keys, name.map tolower ≠ lit "content-encoding") ∧
    ∀ value, res.headers.lookup (lit "Vary") = some value →
      ∀ f ∈ fieldNames value, f = lit "accept-encoding"

theorem fieldNames_acceptEncoding :
    fieldNames (lit "Accept-Encoding") = [lit "accept-encoding"] := by decide

/-- An encoded body is another body. -/
theorem encode_bodyContent {body c encoded : Bytes}
    (h : Encodes z req res minBytes allowBrotli body c encoded) :
    (res.encode c encoded).bodyContent ≠ res.bodyContent := by
  intro hsame
  have hlt := h.shrinks.2
  rw [h.compressible.content] at hsame
  have hbody : encoded = body := BodyContent.text.inj hsame
  rw [hbody] at hlt
  exact absurd hlt (Nat.lt_irrefl _)

/-- What is encoded keeps its meaning exactly when nothing stands in the way. -/
theorem encode_keeps_iff {decode : Bytes → Bytes → Option Bytes} {body c encoded : Bytes}
    (h : Encodes z req res minBytes allowBrotli body c encoded)
    (hdecode : decode c encoded = some body) :
    KeepsMeaning decode res (res.encode c encoded) ↔ Unencumbered res := by
  have hnew := encode_bodyContent h
  constructor
  · intro hkeeps
    constructor
    · intro name hname hcoding
      exact hnew (hkeeps.once ⟨name, hname, hcoding⟩)
    · intro value hvalue f hf
      obtain ⟨value', hvalue', hkept⟩ := hkeeps.vary value hvalue
      rw [encode_vary] at hvalue'
      obtain rfl := Option.some.inj hvalue'
      have hin := hkept f hf
      rw [fieldNames_acceptEncoding] at hin
      exact List.mem_singleton.1 hin
  · rintro ⟨hundeclared, hvary⟩
    exact {
      decoded := fun _ =>
        ⟨body, encoded, c, h.compressible.content, rfl, encode_coding res c encoded, hdecode⟩
      length := by
        intro encoded' hcontent _
        obtain rfl : encoded = encoded' := BodyContent.text.inj hcontent
        exact encode_length res c encoded
      once := by
        rintro ⟨name, hname, hcoding⟩
        exact absurd hcoding (hundeclared name hname)
      others := fun name hlength hcoding hother => encode_other res c encoded hlength hcoding hother
      vary := by
        intro value hvalue
        refine ⟨lit "Accept-Encoding", encode_vary res c encoded, fun f hf => ?_⟩
        rw [fieldNames_acceptEncoding, List.mem_singleton]
        exact hvary value hvalue f hf
      varies := fun _ => ⟨lit "Accept-Encoding", encode_vary res c encoded, by
        rw [fieldNames_acceptEncoding]
        exact List.mem_singleton_self _⟩ }

/-- **Meaning.** With compressors that fail or make what decodes to their input, the meaning of
a response is kept exactly when it is not compressed or nothing stands in the way. -/
theorem keeps_meaning_iff {decode : Bytes → Bytes → Option Bytes}
    (hgzip : ∀ b, z.gzip b = [] ∨ decode (lit "gzip") (z.gzip b) = some b)
    (hbrotli : ∀ b, z.brotli b = [] ∨ decode (lit "br") (z.brotli b) = some b) :
    KeepsMeaning decode res (maybeCompress z req res minBytes allowBrotli) ↔
      ∀ body c encoded, Encodes z req res minBytes allowBrotli body c encoded →
        Unencumbered res := by
  rcases maybeCompress_cases z req res minBytes allowBrotli with
    ⟨body, c, encoded, hencodes, hres⟩ | ⟨hnone, hres⟩
  · have hdecode : decode c encoded = some body := by
      obtain ⟨accept, -, hchosen⟩ := hencodes.chooses
      have hne := hencodes.shrinks.1
      cases hchosen with
      | brotli => exact (hbrotli body).resolve_left hne
      | gzip => exact (hgzip body).resolve_left hne
    rw [hres, encode_keeps_iff hencodes hdecode]
    constructor
    · intro h _ _ _ _
      exact h
    · intro h
      exact h body c encoded hencodes
  · rw [hres]
    exact iff_of_true (keepsMeaning_self decode res)
      fun body c encoded h => absurd h (hnone body c encoded)

/-- A text that zlib compresses. -/
theorem keeps_meaning_iff_server :
    KeepsMeaning unzipAs (textWith (lit "X") (lit "y"))
        (maybeCompress zlibOnAs (oneField .get (lit "Accept-Encoding") (lit "gzip"))
          (textWith (lit "X") (lit "y")) 32 false) ↔
      ∀ body c encoded,
        Encodes zlibOnAs (oneField .get (lit "Accept-Encoding") (lit "gzip"))
          (textWith (lit "X") (lit "y")) 32 false body c encoded →
        Unencumbered (textWith (lit "X") (lit "y")) :=
  keeps_meaning_iff zlibOnAs_decodes fun _ => Or.inl rfl

/-- A handler's `Vary: Origin` is overwritten. -/
theorem vary_overwritten :
    ¬ ∀ (z : Compressors) (decode : Bytes → Bytes → Option Bytes) (req : HttpRequest)
        (res : HttpResponse) (minBytes : Nat) (allowBrotli : Bool),
      (∀ b, z.gzip b = [] ∨ decode (lit "gzip") (z.gzip b) = some b) →
      (∀ b, z.brotli b = [] ∨ decode (lit "br") (z.brotli b) = some b) →
      KeepsMeaning decode res (maybeCompress z req res minBytes allowBrotli) := by
  intro h
  have hencodes : Encodes zlibOnAs (oneField .get (lit "Accept-Encoding") (lit "gzip"))
      (textWith (lit "Vary") (lit "Origin")) 32 false manyAs (lit "gzip")
      (zlibOnAs.gzip manyAs) :=
    textWith_encodes (by decide) (by decide) ⟨[], [], by decide, by simp, by simp, by
      rintro ⟨q, hq, -⟩
      cases hq⟩
  have hkeeps := h zlibOnAs unzipAs (oneField .get (lit "Accept-Encoding") (lit "gzip"))
    (textWith (lit "Vary") (lit "Origin")) 32 false zlibOnAs_decodes fun _ => Or.inl rfl
  rw [maybeCompress_encodes hencodes] at hkeeps
  have honly := ((encode_keeps_iff hencodes (by decide)).1 hkeeps).2 (lit "Origin") (by decide)
    (lit "origin") (by decide)
  exact absurd honly (by decide)

end Compression

end Oreshnek
