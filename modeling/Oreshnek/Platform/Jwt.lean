import Oreshnek.Platform.Base64Url

/-!
# JSON Web Tokens

`generateJWT`, `validateJWT` and `decodeJWT` of `SecurityUtils`. HMAC-SHA256 and
the JSON library are parameters, `JwtLib`; the clock is an argument.

A token is accepted with one signature only, up to what the lenient decoder does
not look at (`signature_unique`). A token that is issued is accepted for a day and
says what was signed (`issued_accepted`).
-/

namespace Oreshnek

/-! ## JSON -/

/-- `nlohmann::json`. The members of an object are kept in the order of their
names. -/
inductive Json where
  | null
  | boolean (b : Bool)
  /-- A signed or unsigned number of 64 bits. -/
  | integer (i : Int)
  | float (q : Rat)
  | string (s : Bytes)
  | array (items : List Json)
  | object (members : List (Bytes × Json))

namespace Json

/-- `v[name] = value` on the members of an object. -/
def assign (name : Bytes) (value : Json) : List (Bytes × Json) → List (Bytes × Json)
  | [] => [(name, value)]
  | (n, v) :: members =>
      if name = n then (n, value) :: members
      else if name < n then (name, value) :: (n, v) :: members
      else (n, v) :: assign name value members

/-- The member of this name, of an object that has it. -/
def find (name : Bytes) : Json → Option Json
  | .object members => (members.find? fun m => m.1 = name).map Prod.snd
  | _ => none

/-- `get<long long>()` of a number. (A float that does not fit is undefined in the
source.) -/
def getLongLong : Json → Option Int
  | .integer i => some (Int.bmod i (2 ^ 64))
  | .float q => some (Int.bmod (q.num.tdiv q.den) (2 ^ 64))
  | _ => none

/-- The `alg` of a header is `HS256`. -/
def isHs256 (header : Json) : Bool :=
  match header.find (lit "alg") with
  | some (.string alg) => alg = lit "HS256"
  | _ => false

/-- A payload has a numeric `exp` that has not been reached. -/
def unexpired (payload : Json) (now : Int) : Bool :=
  match payload.find (lit "exp") with
  | some value =>
      match value.getLongLong with
      | some exp => ¬ exp ≤ now
      | none => false
  | none => false

end Json

/-- A text in UTF-8. -/
def Utf8 (text : Bytes) : Prop := ∃ s : String, s.toUTF8.data.toList = text

/-- What is used of OpenSSL and of the JSON library. -/
structure JwtLib where
  /-- `HMAC(EVP_sha256(), key, data)`. -/
  hmac : Bytes → Bytes → Bytes
  hmac_length : ∀ data key, (hmac data key).length = 32
  /-- `json::parse`, `none` where it throws. -/
  parse : Bytes → Option Json
  /-- `dump`, `none` where it throws. -/
  dump : Json → Option Bytes

/-- The value is written as a text that is read as the value. -/
def JwtLib.RoundTrips (lib : JwtLib) (v : Json) : Prop :=
  ∃ text, lib.dump v = some text ∧ lib.parse text = some v

/-- A reading of `system_clock`: nanoseconds in 64 bits. -/
structure TimePoint where
  nanos : Int
  low : -2 ^ 63 ≤ nanos := by decide
  high : nanos < 2 ^ 63 := by decide

/-- `duration_cast<seconds>(time_since_epoch()).count()`. -/
def TimePoint.seconds (t : TimePoint) : Int := t.nanos.tdiv 1000000000

/-! ## The code -/

/-- `split`: the calls of `getline`, which leave out an empty last field. -/
def split (str : Bytes) (delimiter : UInt8) : List Bytes :=
  if str = [] then []
  else
    str.takeWhile (· ≠ delimiter) ::
      split (str.drop ((str.takeWhile (· ≠ delimiter)).length + 1)) delimiter
termination_by str.length
decreasing_by
  rw [List.length_drop]
  have := List.length_pos_iff.2 ‹str ≠ []›
  omega

def dot : UInt8 := 46

/-- The header of the tokens that are issued. -/
def jwtHeader : Json :=
  .object (Json.assign (lit "typ") (.string (lit "JWT"))
    (Json.assign (lit "alg") (.string (lit "HS256")) []))

/-- Their payload. -/
def jwtPayload (userId : Int32) (username : Bytes) (now : TimePoint) : Json :=
  .object (Json.assign (lit "exp") (.integer (now.seconds + 24 * 3600))
    (Json.assign (lit "username") (.string username)
      (Json.assign (lit "user_id") (.integer userId.toInt) [])))

/-- `generateJWT`; `none` when a `dump` throws. -/
def generateJWT (lib : JwtLib) (now : TimePoint) (userId : Int32) (username secret : Bytes) :
    Option Bytes := do
  let header ← lib.dump jwtHeader
  let payload ← lib.dump (jwtPayload userId username now)
  let signingInput := base64urlEncode header ++ [dot] ++ base64urlEncode payload
  let signature := base64urlEncode (lib.hmac signingInput secret)
  return signingInput ++ [dot] ++ signature

/-- `validateJWT`. -/
def validateJWT (lib : JwtLib) (now : TimePoint) (token secret : Bytes) : Bool :=
  match split token dot with
  | [header, payload, signature] =>
      let expected := lib.hmac (header ++ [dot] ++ payload) secret
      let actual := base64urlDecode signature
      if actual ≠ expected then false
      else
        match lib.parse (base64urlDecode header) with
        | none => false
        | some header =>
            if ¬ header.isHs256 then false
            else
              match lib.parse (base64urlDecode payload) with
              | none => false
              | some payload => payload.unexpired now.seconds
  | _ => false

/-- `decodeJWT`. -/
def decodeJWT (lib : JwtLib) (token : Bytes) : Json :=
  match split token dot with
  | _ :: payload :: _ => (lib.parse (base64urlDecode payload)).getD .null
  | _ => .null

/-! ## Fields -/

theorem split_nil (delimiter : UInt8) : split [] delimiter = [] := by
  rw [split, if_pos rfl]

/-- A text without the delimiter is one field. -/
theorem split_last {field : Bytes} {delimiter : UInt8} (hne : field ≠ [])
    (hfree : delimiter ∉ field) : split field delimiter = [field] := by
  have htake : field.takeWhile (· ≠ delimiter) = field := by
    rw [List.takeWhile_eq_self_iff]
    intro c hc
    simpa using fun h : c = delimiter => hfree (h ▸ hc)
  rw [split, if_neg hne, htake, List.drop_eq_nil_of_le (Nat.le_succ _), split_nil]

/-- A field up to its delimiter, and the fields behind it. -/
theorem split_cons {field : Bytes} {delimiter : UInt8} (hfree : delimiter ∉ field)
    (rest : Bytes) : split (field ++ delimiter :: rest) delimiter = field :: split rest delimiter := by
  have htake : (field ++ delimiter :: rest).takeWhile (· ≠ delimiter) = field := by
    rw [List.takeWhile_append_of_pos, List.takeWhile_cons_of_neg (by simp), List.append_nil]
    intro c hc
    simpa using fun h : c = delimiter => hfree (h ▸ hc)
  rw [split, if_neg (by simp), htake]
  congr 2
  rw [← List.drop_drop, List.drop_left]
  rfl

/-- Fields with a separator behind each of them, and what follows. -/
theorem split_append (text rest : Bytes) (delimiter : UInt8) :
    split (text ++ delimiter :: rest) delimiter =
      text.splitOn delimiter ++ split rest delimiter := by
  induction hn : text.length using Nat.strong_induction_on generalizing text with
  | _ n ih =>
  by_cases hmem : delimiter ∈ text
  · rcases List.eq_append_cons_of_mem hmem with ⟨field, text', rfl, hfree⟩
    rw [List.splitOn_append_cons_self_of_not_mem hfree, List.append_assoc, List.cons_append,
      split_cons hfree, ih text'.length (by simp at hn; omega) text' rfl]
    rfl
  · rw [List.splitOn_eq_singleton hmem, split_cons hmem]
    rfl

theorem split_eq_nil {text : Bytes} {delimiter : UInt8} (h : split text delimiter = []) :
    text = [] := by
  by_contra hne
  rw [split, if_neg hne] at h
  cases h

/-- A single field, with or without a separator behind it. -/
theorem split_eq_singleton {text field : Bytes} {delimiter : UInt8}
    (h : split text delimiter = [field]) :
    delimiter ∉ field ∧ (text = field ∨ text = field ++ [delimiter]) := by
  by_cases hmem : delimiter ∈ text
  · rcases List.eq_append_cons_of_mem hmem with ⟨first, rest, rfl, hfree⟩
    rw [split_cons hfree] at h
    rcases List.cons.inj h with ⟨rfl, hrest⟩
    rw [split_eq_nil hrest]
    exact ⟨hfree, Or.inr rfl⟩
  · by_cases hne : text = []
    · rw [hne, split_nil] at h
      cases h
    · rw [split_last hne hmem] at h
      cases h
      exact ⟨hmem, Or.inl rfl⟩

/-! ## Signatures -/

/-- The token of three fields. -/
def token (header payload signature : Bytes) : Bytes :=
  header ++ [dot] ++ payload ++ [dot] ++ signature

theorem dot_notMem_alphabet : dot ∉ b64UrlAlphabet := by
  decide +kernel

/-- A token splits into the fields of its three parts. -/
theorem split_token (header payload signature : Bytes) :
    split (token header payload signature) dot =
      header.splitOn dot ++ (payload.splitOn dot ++ split signature dot) := by
  have hshape : token header payload signature =
      header ++ dot :: (payload ++ dot :: signature) := by
    simp [token]
  rw [hshape, split_append, split_append]

/-- A separator does not lengthen what the decoder reads. -/
theorem readable_dot (text : Bytes) : readable (text ++ [dot]) = readable text := by
  unfold readable
  rw [List.takeWhile_append]
  split
  case isTrue hall =>
    rw [List.takeWhile_cons_of_neg (by simpa using dot_notMem_alphabet), List.append_nil]
    exact ((List.takeWhile_prefix _).eq_of_length hall).symm
  case isFalse => rfl

/-- An accepted token ends with a signature field that decodes to the HMAC of
what precedes it. -/
theorem validateJWT_fields {lib : JwtLib} {now : TimePoint} {text secret : Bytes}
    (h : validateJWT lib now text secret = true) :
    ∃ header payload signature, split text dot = [header, payload, signature] ∧
      base64urlDecode signature = lib.hmac (header ++ [dot] ++ payload) secret := by
  unfold validateJWT at h
  split at h
  case h_1 header payload signature hsplit =>
    refine ⟨header, payload, signature, hsplit, ?_⟩
    by_contra hne
    dsimp only at h
    rw [if_pos hne] at h
    cases h
  case h_2 => cases h

theorem splitOn_length_pos (text : Bytes) (delimiter : UInt8) :
    0 < (text.splitOn delimiter).length :=
  List.length_pos_iff.2 (List.splitOn_ne_nil _ _)

theorem splitOn_length_two {text : Bytes} {delimiter : UInt8} (h : delimiter ∈ text) :
    1 < (text.splitOn delimiter).length := by
  rcases List.eq_append_cons_of_mem h with ⟨field, rest, rfl, hfree⟩
  rw [List.splitOn_append_cons_self_of_not_mem hfree, List.length_cons]
  have := splitOn_length_pos rest delimiter
  omega

/-- A token that is accepted has one signature field behind its header and
payload, unless these two have three fields between them. -/
theorem accepted_signature {lib : JwtLib} {now : TimePoint} {h p s secret : Bytes}
    (haccepted : validateJWT lib now (token h p s) secret = true) :
    (dot ∈ h ∨ dot ∈ p) ∧ s = [] ∨ ¬ (dot ∈ h ∨ dot ∈ p) ∧ ∃ field, split s dot = [field] ∧
      base64urlDecode field = lib.hmac (h ++ [dot] ++ p) secret := by
  rcases validateJWT_fields haccepted with ⟨header, payload, signature, hsplit, hsignature⟩
  rw [split_token] at hsplit
  by_cases hdots : dot ∈ h ∨ dot ∈ p
  · left
    refine ⟨hdots, ?_⟩
    have hlength := congrArg List.length hsplit
    simp only [List.length_append, List.length_cons, List.length_nil] at hlength
    have hh := splitOn_length_pos h dot
    have hp := splitOn_length_pos p dot
    have hmany : 3 ≤ (h.splitOn dot).length + (p.splitOn dot).length := by
      rcases hdots with hmem | hmem
      · have := splitOn_length_two hmem
        omega
      · have := splitOn_length_two hmem
        omega
    have hnone : split s dot = [] := List.length_eq_zero_iff.1 (by omega)
    exact split_eq_nil hnone
  · right
    have hfree := not_or.1 hdots
    rw [List.splitOn_eq_singleton hfree.1, List.splitOn_eq_singleton hfree.2] at hsplit
    rw [List.singleton_append, List.singleton_append] at hsplit
    simp only [List.cons.injEq] at hsplit
    rcases hsplit with ⟨hheader, hpayload, hfield⟩
    rw [hheader, hpayload]
    exact ⟨by rwa [← hheader, ← hpayload], signature, hfield, hsignature⟩

/-- The texts begin with the same signature: 43 characters of the alphabet, the
last of them up to its two unused bits. -/
def SameSignature (s s' : Bytes) : Prop :=
  ∃ init c c', readable s = init ++ [c] ∧ readable s' = init ++ [c'] ∧ init.length = 42 ∧
    b64UrlAlphabet.idxOf c / 4 = b64UrlAlphabet.idxOf c' / 4

/-- What 32 bytes are decoded from: 43 characters, with two bits to spare. -/
theorem readable_signature {s : Bytes} (h : (base64urlDecode s).length = 32) :
    ∃ init c v, readable s = init ++ [c] ∧ init.length = 42 ∧
      Regroup.Held 6 8 (sextets init ++ [b64UrlAlphabet.idxOf c])
        ((base64urlDecode s).map UInt8.toNat) 2 v := by
  rcases base64urlDecode_spec s with ⟨k, v, hk, hheld⟩
  have hcount := hheld.count
  simp only [sextets, List.length_map, h] at hcount
  obtain rfl : k = 2 := by omega
  rcases List.eq_nil_or_concat' (readable s) with hnil | ⟨init, c, hsnoc⟩
  · rw [hnil] at hcount
    cases hcount
  · rw [hsnoc, List.length_append, List.length_singleton] at hcount
    rw [hsnoc, sextets_snoc] at hheld
    exact ⟨init, c, v, hsnoc, by omega, hheld⟩

/-- Two texts with the same 32 bytes are the same signature. -/
theorem sameSignature_of_decode {s s' : Bytes} (hlength : (base64urlDecode s).length = 32)
    (h : base64urlDecode s = base64urlDecode s') : SameSignature s s' := by
  rcases readable_signature hlength with ⟨init, c, v, hread, hinit, hheld⟩
  rcases readable_signature (h ▸ hlength) with ⟨init', c', v', hread', hinit', hheld'⟩
  have hcodes : ∀ d ∈ init ++ [c], d ∈ b64UrlAlphabet := hread ▸ readable_mem
  have hcodes' : ∀ d ∈ init' ++ [c'], d ∈ b64UrlAlphabet := hread' ▸ readable_mem
  rw [← h] at hheld'
  have hfits := sextets_fits hcodes
  have hfits' := sextets_fits hcodes'
  rw [sextets_snoc] at hfits hfits'
  rcases hheld.determined hheld' hfits hfits' (by decide) (by decide) with ⟨hsame, hlast⟩
  have hinits : init = init' := sextets_injective
    (fun d hd => hcodes d (List.mem_append_left _ hd))
    (fun d hd => hcodes' d (List.mem_append_left _ hd)) hsame
  subst hinits
  exact ⟨init, c, c', hread, hread', hinit, hlast⟩

/-- What the signature field of a token decodes from. -/
theorem readable_field {s field : Bytes} (h : split s dot = [field]) :
    readable field = readable s := by
  rcases (split_eq_singleton h).2 with rfl | rfl
  · rfl
  · exact (readable_dot field).symm

/-- **One signature.** Next to a signature that is accepted for a header and a
payload, no other text is, unless it begins with the same signature and goes on
with something that is not of the alphabet. -/
theorem signature_unique (lib : JwtLib) (now : TimePoint) {h p s s' secret : Bytes}
    (haccepted : validateJWT lib now (token h p s) secret = true) (hne : s' ≠ s)
    (hother : ¬ SameSignature s s') : validateJWT lib now (token h p s') secret = false := by
  by_contra hvalid
  rw [Bool.not_eq_false] at hvalid
  rcases accepted_signature haccepted with ⟨hdots, rfl⟩ | ⟨hdots, field, hsplit, hfield⟩
  · rcases accepted_signature hvalid with ⟨-, hnil⟩ | ⟨hnone, -⟩
    · exact hne hnil
    · exact hnone hdots
  · rcases accepted_signature hvalid with ⟨hsome, -⟩ | ⟨-, field', hsplit', hfield'⟩
    · exact hdots hsome
    · apply hother
      have hlength : (base64urlDecode field).length = 32 := by
        rw [hfield, lib.hmac_length]
      have hsame := sameSignature_of_decode hlength (hfield.trans hfield'.symm)
      unfold SameSignature at hsame ⊢
      rwa [readable_field hsplit, readable_field hsplit'] at hsame

theorem SameSignature.take {s s' : Bytes} (h : SameSignature s s') :
    (readable s).take 42 = (readable s').take 42 := by
  rcases h with ⟨init, c, c', hread, hread', hinit, -⟩
  rw [hread, hread', ← hinit, List.take_left, List.take_left]

/-- OpenSSL and the JSON library on one token: that of the user 42, alice,
issued at 1700000000 with the secret `k`. -/
def aliceIssued : TimePoint where
  nanos := 1700000000000000000

def aliceHeader : Bytes := lit "\x7b\"alg\":\"HS256\",\"typ\":\"JWT\"\x7d"

def alicePayload : Bytes :=
  lit "\x7b\"exp\":1700086400,\"user_id\":42,\"username\":\"alice\"\x7d"

def aliceLib : JwtLib where
  hmac _ _ := [119, 141, 9, 173, 245, 88, 211, 124, 152, 67, 114, 45, 67, 227, 238, 197, 183, 223,
    173, 236, 70, 88, 255, 100, 105, 108, 86, 97, 38, 33, 38, 235]
  hmac_length _ _ := rfl
  parse text :=
    if text = aliceHeader then some jwtHeader
    else if text = alicePayload then some (jwtPayload 42 (lit "alice") aliceIssued)
    else none
  dump v := if (v.find (lit "alg")).isSome then some aliceHeader else some alicePayload

def aliceHeaderField : Bytes := lit "eyJhbGciOiJIUzI1NiIsInR5cCI6IkpXVCJ9"

def alicePayloadField : Bytes :=
  lit "eyJleHAiOjE3MDAwODY0MDAsInVzZXJfaWQiOjQyLCJ1c2VybmFtZSI6ImFsaWNlIn0"

def aliceSignature : Bytes := lit "d40JrfVY03yYQ3ItQ-PuxbffrexGWP9kaWxWYSYhJus"

/-- Its signature with another first character. -/
def tamperedSignature : Bytes := lit "A40JrfVY03yYQ3ItQ-PuxbffrexGWP9kaWxWYSYhJus"

theorem signature_unique_alice :
    validateJWT aliceLib aliceIssued (token aliceHeaderField alicePayloadField tamperedSignature)
      (lit "k") = false :=
  signature_unique aliceLib aliceIssued (s := aliceSignature) (by decide +kernel)
    (by decide +kernel) fun h => absurd h.take (by decide +kernel)

/-- Padding is tolerated: a `=` behind the signature changes the text and not
the verdict. -/
theorem padded_signature_accepted :
    aliceSignature ++ [61] ≠ aliceSignature ∧
      validateJWT aliceLib aliceIssued (token aliceHeaderField alicePayloadField aliceSignature)
        (lit "k") = true ∧
      validateJWT aliceLib aliceIssued
        (token aliceHeaderField alicePayloadField (aliceSignature ++ [61])) (lit "k") = true := by
  decide +kernel

/-! ## Issued tokens -/

/-- The text of an issued token splits into its three fields. -/
theorem split_issued {header payload signature : Bytes} (hsignature : signature ≠ []) :
    split (token (base64urlEncode header) (base64urlEncode payload) (base64urlEncode signature))
        dot =
      [base64urlEncode header, base64urlEncode payload, base64urlEncode signature] := by
  have hfree : ∀ text : Bytes, dot ∉ base64urlEncode text := by
    intro text hmem
    rcases base64urlEncode_spec text with ⟨-, -, -, -, hcodes⟩
    exact dot_notMem_alphabet (hcodes dot hmem)
  have hne : base64urlEncode signature ≠ [] := by
    intro hnil
    have hback := base64url_decode_encode signature
    rw [hnil] at hback
    exact hsignature hback.symm
  rw [split_token, List.splitOn_eq_singleton (hfree _), List.splitOn_eq_singleton (hfree _),
    split_last hne (hfree _)]
  rfl

/-- The seconds of a time point in nanoseconds lie in a range well inside 64 bits. -/
theorem TimePoint.seconds_bounds (t : TimePoint) :
    -9223372037 < t.seconds ∧ t.seconds < 9223372037 := by
  have hlow := t.low
  have hhigh := t.high
  unfold TimePoint.seconds
  by_cases hneg : 0 ≤ t.nanos
  · rw [Int.tdiv_eq_ediv_of_nonneg hneg]
    omega
  · have hpos : 0 ≤ -t.nanos := by omega
    have hflip : t.nanos.tdiv 1000000000 = -((-t.nanos) / 1000000000) := by
      rw [← Int.tdiv_eq_ediv_of_nonneg hpos, Int.neg_tdiv, Int.neg_neg]
    rw [hflip]
    omega

theorem find_exp (userId : Int32) (username : Bytes) (now : TimePoint) :
    (jwtPayload userId username now).find (lit "exp") =
      some (.integer (now.seconds + 24 * 3600)) := rfl

/-- The expiration is a day ahead, which does not leave the range of the clock. -/
theorem unexpired_payload (userId : Int32) (username : Bytes) (issued now : TimePoint) :
    (jwtPayload userId username issued).unexpired now.seconds =
      decide (now.seconds < issued.seconds + 24 * 3600) := by
  rcases issued.seconds_bounds with ⟨hlow, hhigh⟩
  have hexp : Int.bmod (issued.seconds + 24 * 3600) (2 ^ 64) = issued.seconds + 24 * 3600 :=
    Int.bmod_eq_of_le (by omega) (by omega)
  unfold Json.unexpired
  rw [find_exp]
  dsimp only [Json.getLongLong]
  rw [hexp]
  simp

/-- **Issuing and verifying.** A token issued at some time is accepted with the
same secret exactly while less than 24 hours have passed since, and its payload is
the one that was signed. -/
theorem issued_accepted (lib : JwtLib) (issued : TimePoint) (userId : Int32)
    {username : Bytes} (secret : Bytes) (husername : Utf8 username)
    (hheader : lib.RoundTrips jwtHeader)
    (hpayload : Utf8 username → lib.RoundTrips (jwtPayload userId username issued)) :
    ∃ text, generateJWT lib issued userId username secret = some text ∧
      (∀ now : TimePoint, validateJWT lib now text secret =
        decide (now.seconds < issued.seconds + 24 * 3600)) ∧
      decodeJWT lib text = jwtPayload userId username issued ∧
      (decodeJWT lib text).find (lit "user_id") = some (.integer userId.toInt) ∧
      (decodeJWT lib text).find (lit "username") = some (.string username) := by
  rcases hheader with ⟨header, hdump, hparse⟩
  rcases hpayload husername with ⟨payload, hdump', hparse'⟩
  generalize hsigned : base64urlEncode header ++ [dot] ++ base64urlEncode payload = signed
  have hsignature : lib.hmac signed secret ≠ [] := by
    intro hnil
    have hlength := lib.hmac_length signed secret
    rw [hnil] at hlength
    cases hlength
  -- no field holds a dot, so the text splits where it was joined
  have hsplit := @split_issued header payload _ hsignature
  have hissued : generateJWT lib issued userId username secret =
      some (token (base64urlEncode header) (base64urlEncode payload)
        (base64urlEncode (lib.hmac signed secret))) := by
    unfold generateJWT token
    rw [hdump, hdump', ← hsigned]
    rfl
  have hdecode : decodeJWT lib (token (base64urlEncode header) (base64urlEncode payload)
      (base64urlEncode (lib.hmac signed secret))) = jwtPayload userId username issued := by
    unfold decodeJWT
    rw [hsplit]
    dsimp only
    rw [base64url_decode_encode, hparse']
    rfl
  refine ⟨_, hissued, ?_, hdecode, ?_, ?_⟩
  · -- the signature is that of the same text, and what is left is the expiry
    intro now
    unfold validateJWT
    rw [hsplit]
    dsimp only
    rw [base64url_decode_encode, base64url_decode_encode, base64url_decode_encode, hsigned,
      hparse, hparse', if_neg (not_not_intro rfl)]
    dsimp only
    rw [if_neg (not_not_intro (show jwtHeader.isHs256 = true from rfl))]
    exact unexpired_payload userId username issued now
  · rw [hdecode]
    rfl
  · rw [hdecode]
    rfl

/-- A token for one user. -/
theorem issued_accepted_alice :
    ∃ text, generateJWT aliceLib aliceIssued 42 (lit "alice") (lit "k") = some text ∧
      (∀ now : TimePoint, validateJWT aliceLib now text (lit "k") =
        decide (now.seconds < aliceIssued.seconds + 24 * 3600)) ∧
      decodeJWT aliceLib text = jwtPayload 42 (lit "alice") aliceIssued ∧
      (decodeJWT aliceLib text).find (lit "user_id") = some (.integer (42 : Int32).toInt) ∧
      (decodeJWT aliceLib text).find (lit "username") = some (.string (lit "alice")) :=
  issued_accepted aliceLib aliceIssued 42 (lit "k") ⟨"alice", by decide⟩
    ⟨aliceHeader, by decide +kernel, rfl⟩
    fun _ => ⟨alicePayload, by decide +kernel, rfl⟩

end Oreshnek
