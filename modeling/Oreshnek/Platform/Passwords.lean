import Oreshnek.Platform.Jwt
import Oreshnek.Http.Dates

/-!
# Password hashes

`hashPassword` and `verifyPassword` of `SecurityUtils`. PBKDF2 is a parameter, `Pbkdf2`; the salt
that `RAND_bytes` draws is an argument.

What `hashPassword` writes is read back exactly, so that a password verifies when PBKDF2 gives the
stored digest for it (`verifyPassword_hashPassword`). `verifyPassword` reads more than that: a
`LenientHash` is a string that it reads, with everything that its field splitting, `stoi` and the
base64url decoder pass over, and `verifyPassword_iff` says that there are no others.
-/

namespace Oreshnek

/-! ## PBKDF2 -/

/-- `PKCS5_PBKDF2_HMAC` with SHA-256: for a password and its length, a salt and its length, the
iterations and the length of the output, what it writes; nothing unless it returns 1. -/
structure Pbkdf2 where
  run : Bytes → Int → Bytes → Int → Int → Int → Option Bytes
  run_length : ∀ {password passlen salt saltlen iterations keylen out},
    run password passlen salt saltlen iterations keylen = some out → out.length = keylen.toNat

/-- `static_cast<int>` on a size. -/
def castInt (n : Nat) : Int := Int.bmod n (2 ^ 32)

/-- The call, and the buffer of `size` bytes behind it. -/
def Pbkdf2.fill (lib : Pbkdf2) (password salt : Bytes) (iterations : Int) (size : Nat) :
    Option Bytes :=
  (lib.run password (castInt password.length) salt (castInt salt.length) iterations
    (castInt size)).map fun out => out ++ List.replicate (size - out.length) 0

/-! ## The code -/

def kPbkdf2Iterations : Nat := 200000
def kSaltLength : Nat := 16
def kHashLength : Nat := 32

/-- `$`. -/
def dollar : UInt8 := 36

/-- `std::stoi`. (`long` has the range of `long long`.) -/
def stoi (s : Bytes) : Option Int :=
  (stoll s).bind fun n => if -2 ^ 31 ≤ n ∧ n < 2 ^ 31 then some n else none

/-- What `RAND_bytes` draws. -/
abbrev Salt := {b : Bytes // b.length = kSaltLength}

/-- `hashPassword`; `none` when it throws. -/
def hashPassword (lib : Pbkdf2) (salt : Option Salt) (password : Bytes) : Option Bytes :=
  match salt with
  | none => none
  | some salt =>
      match lib.fill password salt.1 kPbkdf2Iterations kHashLength with
      | none => none
      | some hash =>
          some (lit "pbkdf2_sha256$" ++ toString_ kPbkdf2Iterations ++ [dollar] ++
            base64urlEncode salt.1 ++ [dollar] ++ base64urlEncode hash)

/-- `constant_time_equals`. -/
def constantTimeEquals (a b : Bytes) : Bool := if a.length ≠ b.length then false else a == b

/-- `verifyPassword`. -/
def verifyPassword (lib : Pbkdf2) (password stored : Bytes) : Bool :=
  match split stored dollar with
  | [algorithm, count, salt, hash] =>
      if algorithm ≠ lit "pbkdf2_sha256" then false
      else
        match stoi count with
        | none => false
        | some iterations =>
            if iterations ≤ 0 then false
            else
              let salt := base64urlDecode salt
              let expected := base64urlDecode hash
              if salt.isEmpty || expected.isEmpty then false
              else
                match lib.fill password salt iterations expected.length with
                | none => false
                | some computed => constantTimeEquals expected computed
  | _ => false

/-! ## The fields -/

/-- A field that is not the last one ends at its separator. -/
theorem split_eq_cons_cons {text first second : Bytes} {rest : List Bytes} {delimiter : UInt8}
    (h : split text delimiter = first :: second :: rest) : delimiter ∉ first ∧
      ∃ tail, text = first ++ delimiter :: tail ∧ split tail delimiter = second :: rest := by
  by_cases hmem : delimiter ∈ text
  · obtain ⟨field, tail, rfl, hfree⟩ := List.eq_append_cons_of_mem hmem
    rw [split_cons hfree] at h
    obtain ⟨rfl, htail⟩ := List.cons.inj h
    exact ⟨hfree, tail, rfl, htail⟩
  · by_cases hne : text = []
    · rw [hne, split_nil] at h
      cases h
    · rw [split_last hne hmem] at h
      cases h

/-- Four fields without a separator in them. -/
theorem split_four {a b c d ending : Bytes} {delimiter : UInt8} (ha : delimiter ∉ a)
    (hb : delimiter ∉ b) (hc : delimiter ∉ c) (hd : delimiter ∉ d) (hne : d ≠ [])
    (hending : ending = [] ∨ ending = [delimiter]) :
    split (a ++ delimiter :: (b ++ delimiter :: (c ++ delimiter :: (d ++ ending)))) delimiter =
      [a, b, c, d] := by
  have hlast : split (d ++ ending) delimiter = [d] := by
    rcases hending with rfl | rfl
    · rw [List.append_nil]
      exact split_last hne hd
    · rw [split_cons hd, split_nil]
  rw [split_cons ha, split_cons hb, split_cons hc, hlast]

/-- A text that splits into four fields, with or without one delimiter more at its end. -/
theorem split_eq_four {text a b c d : Bytes} {delimiter : UInt8}
    (h : split text delimiter = [a, b, c, d]) :
    ∃ ending, (ending = [] ∨ ending = [delimiter]) ∧ delimiter ∉ a ∧ delimiter ∉ b ∧
      delimiter ∉ c ∧ delimiter ∉ d ∧
      text = a ++ delimiter :: (b ++ delimiter :: (c ++ delimiter :: (d ++ ending))) := by
  obtain ⟨ha, t₁, rfl, h₁⟩ := split_eq_cons_cons h
  obtain ⟨hb, t₂, rfl, h₂⟩ := split_eq_cons_cons h₁
  obtain ⟨hc, t₃, rfl, h₃⟩ := split_eq_cons_cons h₂
  obtain ⟨hd, hlast⟩ := split_eq_singleton h₃
  rcases hlast with rfl | rfl
  · exact ⟨[], .inl rfl, ha, hb, hc, hd, by rw [List.append_nil]⟩
  · exact ⟨[delimiter], .inr rfl, ha, hb, hc, hd, rfl⟩

/-! ## What is read leniently -/

/-- The bytes that a text begins to spell: those that its leading characters of the alphabet
fill. -/
def Spells (text bytes : Bytes) : Prop :=
  ∃ k v, k < 8 ∧ Regroup.Held 6 8 (sextets (readable text)) (bytes.map UInt8.toNat) k v

/-- What the decoder makes of a text, by how the text spells it. -/
theorem base64urlDecode_eq_iff {text bytes : Bytes} :
    base64urlDecode text = bytes ↔ Spells text bytes := by
  constructor
  · rintro rfl
    exact base64urlDecode_spec text
  · rintro ⟨k, v, hk, h⟩
    obtain ⟨k', v', hk', h'⟩ := base64urlDecode_spec text
    exact toNat_map_injective (h'.unique h hk' hk)

/-- A number that `stoi` reads as one above zero: blanks, a plus sign, digits, and whatever does
not go on with a digit. -/
structure LenientCount where
  blanks : Bytes
  sign : Bytes
  digits : Bytes
  junk : Bytes
  blanks_space : ∀ c ∈ blanks, isspace c = true
  sign_plus : sign = [] ∨ sign = [43]
  digits_ne : digits ≠ []
  digits_decimal : ∀ c ∈ digits, isdigit c = true
  junk_stops : ∀ c ∈ junk.head?, isdigit c = false
  positive : 0 < decValue digits
  small : decValue digits < 2 ^ 31

def LenientCount.text (n : LenientCount) : Bytes := n.blanks ++ n.sign ++ n.digits ++ n.junk

/-- The number. -/
def LenientCount.value (n : LenientCount) : Int := decValue n.digits

theorem dropWhile_append_stop {p : UInt8 → Bool} {a b : Bytes} (ha : ∀ c ∈ a, p c = true)
    (hb : ∀ c ∈ b.head?, p c = false) : (a ++ b).dropWhile p = b := by
  rw [List.dropWhile_append_of_pos ha]
  cases b with
  | nil => rfl
  | cons c b => exact List.dropWhile_cons_of_neg (by simpa using hb c rfl)

theorem takeWhile_append_stop {p : UInt8 → Bool} {a b : Bytes} (ha : ∀ c ∈ a, p c = true)
    (hb : ∀ c ∈ b.head?, p c = false) : (a ++ b).takeWhile p = a := by
  rw [List.takeWhile_append_of_pos ha]
  cases b with
  | nil => simp
  | cons c b => rw [List.takeWhile_cons_of_neg (by simpa using hb c rfl), List.append_nil]

theorem head_dropWhile (p : UInt8 → Bool) (b : Bytes) : ∀ c ∈ (b.dropWhile p).head?, p c = false := by
  intro c hc
  have := List.head?_dropWhile_not p b
  rw [hc] at this
  simpa using this

/-- `stoi` reads the digits, and nothing behind them. -/
theorem stoi_lenient (n : LenientCount) : stoi n.text = some n.value := by
  obtain ⟨d, ds, hds⟩ := List.exists_cons_of_ne_nil n.digits_ne
  obtain ⟨hspace, hplus, hminus⟩ :=
    not_isspace_of_isdigit (n.digits_decimal d (hds ▸ List.mem_cons_self))
  have hdrop : n.text.dropWhile isspace = n.sign ++ (n.digits ++ n.junk) := by
    unfold LenientCount.text
    rw [List.append_assoc, List.append_assoc]
    refine dropWhile_append_stop n.blanks_space ?_
    intro c hc
    rcases n.sign_plus with hsign | hsign
    · rw [hsign, hds] at hc
      obtain rfl : d = c := Option.some.inj hc
      exact hspace
    · rw [hsign] at hc
      obtain rfl : 43 = c := Option.some.inj hc
      decide
  have hnumber : (n.digits ++ n.junk).takeWhile isdigit = n.digits :=
    takeWhile_append_stop n.digits_decimal n.junk_stops
  have hne : n.digits.isEmpty = false := by
    rw [hds]
    rfl
  have hpos := n.positive
  have hsmall := n.small
  have hstoll : stoll n.text = some n.value := by
    unfold stoll
    simp only [hdrop]
    split
    next r hr =>
      -- a sign, which cannot be the first digit
      rcases n.sign_plus with hsign | hsign
      · rw [hsign, hds] at hr
        exact absurd (List.cons.inj hr).1 hplus
      · rw [hsign] at hr
        obtain rfl : n.digits ++ n.junk = r := (List.cons.inj hr).2
        simp only [hnumber, hne, Bool.false_eq_true, if_false]
        exact if_pos ⟨by omega, by omega⟩
    next r hr =>
      rcases n.sign_plus with hsign | hsign
      · rw [hsign, hds] at hr
        exact absurd (List.cons.inj hr).1 hminus
      · rw [hsign] at hr
        exact absurd (List.cons.inj hr).1 (by decide)
    next hnoplus hnominus =>
      rcases n.sign_plus with hsign | hsign
      · rw [hsign, List.nil_append]
        simp only [hnumber, hne, Bool.false_eq_true, if_false]
        exact if_pos ⟨by omega, by omega⟩
      · exact absurd (by rw [hsign]; rfl) (hnoplus (n.digits ++ n.junk))
  unfold stoi
  rw [hstoll, Option.bind_some]
  have hvalue : n.value = decValue n.digits := rfl
  exact if_pos ⟨by omega, by omega⟩

/-- What `stoi` reads as a positive number is blanks, digits and any text behind them. -/
theorem exists_lenientCount {text : Bytes} {n : Int} (h : stoi text = some n) (hpos : 0 < n) :
    ∃ m : LenientCount, m.text = text ∧ m.value = n := by
  -- the value is that of a run of digits behind an optional plus sign
  have hparse : ∃ sign u, (sign = [] ∨ sign = [43]) ∧ text.dropWhile isspace = sign ++ u ∧
      u.takeWhile isdigit ≠ [] ∧ (decValue (u.takeWhile isdigit) : Int) = n ∧ n < 2 ^ 31 := by
    unfold stoi at h
    obtain ⟨m, hstoll, hm⟩ := Option.bind_eq_some_iff.1 h
    obtain ⟨hsmall, rfl⟩ : m < 2 ^ 31 ∧ m = n := by
      split at hm
      next hfits => exact ⟨hfits.2, Option.some.inj hm⟩
      next => cases hm
    have hread : ∀ (negative : Bool) (u : Bytes),
        (if (u.takeWhile isdigit).isEmpty then none
        else
          let value : Int := if negative then -(decValue (u.takeWhile isdigit) : Int)
            else decValue (u.takeWhile isdigit)
          if -2 ^ 63 ≤ value ∧ value < 2 ^ 63 then some value else none) = some m →
        u.takeWhile isdigit ≠ [] ∧ negative = false ∧ (decValue (u.takeWhile isdigit) : Int) = m := by
      intro negative u hu
      by_cases hempty : (u.takeWhile isdigit).isEmpty = true
      · rw [if_pos hempty] at hu
        cases hu
      · rw [if_neg hempty] at hu
        cases negative with
        | false =>
            dsimp only at hu
            rw [if_neg Bool.false_ne_true] at hu
            split at hu
            · exact ⟨fun hnil => hempty (by rw [hnil]; rfl), rfl, Option.some.inj hu⟩
            · cases hu
        | true =>
            -- a negative number is not above zero
            dsimp only at hu
            rw [if_pos rfl] at hu
            split at hu
            · have := Option.some.inj hu
              omega
            · cases hu
    unfold stoll at hstoll
    dsimp only at hstoll
    split at hstoll
    next r hr =>
      obtain ⟨hne, -, hvalue⟩ := hread false r hstoll
      exact ⟨[43], r, .inr rfl, hr, hne, hvalue, hsmall⟩
    next r hr =>
      obtain ⟨-, hneg, -⟩ := hread true r hstoll
      cases hneg
    next =>
      obtain ⟨hne, -, hvalue⟩ := hread false (text.dropWhile isspace) hstoll
      exact ⟨[], _, .inl rfl, rfl, hne, hvalue, hsmall⟩
  obtain ⟨sign, u, hsign, htext, hne, rfl, hsmall⟩ := hparse
  refine ⟨⟨text.takeWhile isspace, sign, u.takeWhile isdigit, u.dropWhile isdigit,
    fun c hc => List.mem_takeWhile_imp hc, hsign, hne, fun c hc => List.mem_takeWhile_imp hc,
    head_dropWhile isdigit u, by omega, by omega⟩, ?_, rfl⟩
  show text.takeWhile isspace ++ sign ++ u.takeWhile isdigit ++ u.dropWhile isdigit = text
  rw [List.append_assoc, List.takeWhile_append_dropWhile, List.append_assoc, ← htext,
    List.takeWhile_append_dropWhile]

/-- A string that `verifyPassword` reads, and what it takes from it. -/
structure LenientHash where
  count : LenientCount
  saltText : Bytes
  hashText : Bytes
  ending : Bytes
  salt : Bytes
  digest : Bytes
  count_free : dollar ∉ count.text
  saltText_free : dollar ∉ saltText
  hashText_free : dollar ∉ hashText
  ending_dollar : ending = [] ∨ ending = [dollar]
  salt_spelled : Spells saltText salt
  digest_spelled : Spells hashText digest
  salt_ne : salt ≠ []
  digest_ne : digest ≠ []

def LenientHash.text (h : LenientHash) : Bytes :=
  lit "pbkdf2_sha256" ++ dollar :: (h.count.text ++ dollar ::
    (h.saltText ++ dollar :: (h.hashText ++ h.ending)))

/-- The form that `hashPassword` writes, with any count and any bytes. -/
def WellFormedHash (stored : Bytes) : Prop :=
  ∃ digits salt digest : Bytes, digits ≠ [] ∧ (∀ c ∈ digits, isdigit c = true) ∧
    salt.length = kSaltLength ∧ digest.length = kHashLength ∧
    stored = lit "pbkdf2_sha256$" ++ digits ++ [dollar] ++ base64urlEncode salt ++ [dollar] ++
      base64urlEncode digest

/-- The comparison is that of the bytes. -/
theorem constantTimeEquals_iff {a b : Bytes} : constantTimeEquals a b = true ↔ a = b := by
  unfold constantTimeEquals
  by_cases hlength : a.length ≠ b.length
  · rw [if_pos hlength]
    refine iff_of_false Bool.false_ne_true ?_
    rintro rfl
    exact hlength rfl
  · rw [if_neg hlength, beq_iff_eq]

theorem Spells.ne_nil {text bytes : Bytes} (h : Spells text bytes) (hne : bytes ≠ []) :
    text ≠ [] := by
  rintro rfl
  exact hne (base64urlDecode_eq_iff.2 h).symm

/-- A string that is read verifies when PBKDF2 gives the digest in it. -/
theorem verifyPassword_text (lib : Pbkdf2) (password : Bytes) (h : LenientHash) :
    verifyPassword lib password h.text = true ↔
      lib.fill password h.salt h.count.value h.digest.length = some h.digest := by
  have halg : dollar ∉ lit "pbkdf2_sha256" := by decide
  have hsplit := split_four halg h.count_free h.saltText_free h.hashText_free
    (h.digest_spelled.ne_nil h.digest_ne) h.ending_dollar
  have hsalt := base64urlDecode_eq_iff.2 h.salt_spelled
  have hdigest := base64urlDecode_eq_iff.2 h.digest_spelled
  have hpos : ¬ h.count.value ≤ 0 := by
    have hcount := h.count.positive
    have hvalue : h.count.value = decValue h.count.digits := rfl
    omega
  have hempty : ¬ (h.salt.isEmpty || h.digest.isEmpty) = true := by
    simp only [Bool.or_eq_true, List.isEmpty_iff, not_or]
    exact ⟨h.salt_ne, h.digest_ne⟩
  unfold verifyPassword LenientHash.text
  rw [hsplit]
  dsimp only
  rw [if_neg (not_not.2 rfl), stoi_lenient]
  dsimp only
  rw [if_neg hpos, hsalt, hdigest, if_neg hempty]
  cases lib.fill password h.salt h.count.value h.digest.length with
  | none => exact iff_of_false Bool.false_ne_true (Option.some_ne_none _).symm
  | some computed =>
      rw [constantTimeEquals_iff, Option.some_inj]
      exact eq_comm

/-- **What verifies**: the strings that can be read, when PBKDF2 gives the digest in them. -/
theorem verifyPassword_iff {lib : Pbkdf2} {password stored : Bytes} :
    verifyPassword lib password stored = true ↔ ∃ h : LenientHash, h.text = stored ∧
      lib.fill password h.salt h.count.value h.digest.length = some h.digest := by
  constructor
  · intro hverify
    unfold verifyPassword at hverify
    split at hverify
    next algorithm count salt hash hsplit =>
      -- the tests, one after the other
      by_cases halg : algorithm ≠ lit "pbkdf2_sha256"
      · rw [if_pos halg] at hverify
        cases hverify
      rw [if_neg halg] at hverify
      cases hcount : stoi count with
      | none =>
          rw [hcount] at hverify
          cases hverify
      | some n =>
          rw [hcount] at hverify
          dsimp only at hverify
          by_cases hn : n ≤ 0
          · rw [if_pos hn] at hverify
            cases hverify
          rw [if_neg hn] at hverify
          by_cases hempty : ((base64urlDecode salt).isEmpty || (base64urlDecode hash).isEmpty) = true
          · rw [if_pos hempty] at hverify
            cases hverify
          rw [if_neg hempty] at hverify
          simp only [Bool.or_eq_true, List.isEmpty_iff, not_or] at hempty
          cases hfill : lib.fill password (base64urlDecode salt) n (base64urlDecode hash).length with
          | none =>
              rw [hfill] at hverify
              cases hverify
          | some computed =>
              rw [hfill] at hverify
              have heq : base64urlDecode hash = computed := constantTimeEquals_iff.1 hverify
              obtain ⟨m, rfl, rfl⟩ := exists_lenientCount hcount (Int.not_le.1 hn)
              obtain ⟨ending, hending, -, hcountfree, hsaltfree, hhashfree, htext⟩ :=
                split_eq_four hsplit
              refine ⟨⟨m, salt, hash, ending, base64urlDecode salt, base64urlDecode hash, hcountfree,
                hsaltfree, hhashfree, hending, base64urlDecode_eq_iff.1 rfl,
                base64urlDecode_eq_iff.1 rfl, hempty.1, hempty.2⟩, ?_, ?_⟩
              · rw [htext, not_not.1 halg]
                rfl
              · exact hfill.trans (congrArg some heq.symm)
    next => cases hverify
  · rintro ⟨h, rfl, hfill⟩
    exact (verifyPassword_text lib password h).2 hfill

/-! ## What is written -/

theorem castInt_small {n : Nat} (h : n < 2 ^ 31) : castInt n = n := by
  unfold castInt
  refine Int.bmod_eq_of_le ?_ ?_
  · omega
  · omega

/-- The call fills the buffer. -/
theorem Pbkdf2.fill_length {lib : Pbkdf2} {password salt out : Bytes} {iterations : Int} {size : Nat}
    (h : lib.fill password salt iterations size = some out) (hsize : size < 2 ^ 31) :
    out.length = size := by
  obtain ⟨written, hrun, rfl⟩ := Option.map_eq_some_iff.1 h
  have hlength := lib.run_length hrun
  rw [castInt_small hsize, Int.toNat_natCast] at hlength
  rw [List.length_append, List.length_replicate, hlength, Nat.sub_self, Nat.add_zero]

theorem iterations_value : decValue (toString_ kPbkdf2Iterations) = 200000 :=
  (toString_spec kPbkdf2Iterations).2.2

theorem iterations_pos : 0 < decValue (toString_ kPbkdf2Iterations) := by
  rw [iterations_value]
  decide

theorem iterations_small : decValue (toString_ kPbkdf2Iterations) < 2 ^ 31 := by
  rw [iterations_value]
  decide

/-- The count that is written. -/
def writtenCount : LenientCount where
  blanks := []
  sign := []
  digits := toString_ kPbkdf2Iterations
  junk := []
  blanks_space := fun _ hc => absurd hc List.not_mem_nil
  sign_plus := .inl rfl
  digits_ne := (toString_spec kPbkdf2Iterations).1
  digits_decimal := (toString_spec kPbkdf2Iterations).2.1
  junk_stops := fun _ hc => nomatch hc
  positive := iterations_pos
  small := iterations_small

theorem writtenCount_text : writtenCount.text = toString_ kPbkdf2Iterations := by
  show [] ++ [] ++ toString_ kPbkdf2Iterations ++ [] = _
  simp

theorem writtenCount_value : writtenCount.value = 200000 := congrArg Nat.cast iterations_value

theorem dollar_notMem_digits {digits : Bytes} (h : ∀ c ∈ digits, isdigit c = true) :
    dollar ∉ digits :=
  fun hin => absurd (h dollar hin) (by decide)

theorem dollar_notMem_encode (input : Bytes) : dollar ∉ base64urlEncode input := by
  have halphabet : dollar ∉ b64UrlAlphabet := by decide +kernel
  obtain ⟨-, -, -, -, hcodes⟩ := base64urlEncode_spec input
  exact fun hin => halphabet (hcodes dollar hin)

theorem spells_encode (input : Bytes) : Spells (base64urlEncode input) input :=
  base64urlDecode_eq_iff.1 (base64url_decode_encode input)

theorem writtenCount_free : dollar ∉ writtenCount.text := by
  rw [writtenCount_text]
  exact dollar_notMem_digits (toString_spec kPbkdf2Iterations).2.1

/-- What is written for a salt and a digest, with or without a separator behind it. -/
def writtenHash (salt digest ending : Bytes) (hsalt : salt ≠ []) (hdigest : digest ≠ [])
    (hending : ending = [] ∨ ending = [dollar]) : LenientHash where
  count := writtenCount
  saltText := base64urlEncode salt
  hashText := base64urlEncode digest
  ending := ending
  salt := salt
  digest := digest
  count_free := writtenCount_free
  saltText_free := dollar_notMem_encode salt
  hashText_free := dollar_notMem_encode digest
  ending_dollar := hending
  salt_spelled := spells_encode salt
  digest_spelled := spells_encode digest
  salt_ne := hsalt
  digest_ne := hdigest

/-- What `hashPassword` writes for a salt and a digest. -/
def storedText (salt digest : Bytes) : Bytes :=
  lit "pbkdf2_sha256$" ++ toString_ kPbkdf2Iterations ++ [dollar] ++ base64urlEncode salt ++
    [dollar] ++ base64urlEncode digest

/-- The text of a hash that was written, with or without a separator at its end. -/
theorem writtenHash_text {salt digest ending : Bytes} (hsalt : salt ≠ []) (hdigest : digest ≠ [])
    (hending : ending = [] ∨ ending = [dollar]) :
    (writtenHash salt digest ending hsalt hdigest hending).text =
      storedText salt digest ++ ending := by
  have hname : lit "pbkdf2_sha256$" = lit "pbkdf2_sha256" ++ [dollar] := by decide
  show lit "pbkdf2_sha256" ++ dollar :: (writtenCount.text ++ dollar :: (base64urlEncode salt ++
    dollar :: (base64urlEncode digest ++ ending))) = _
  unfold storedText
  rw [writtenCount_text, hname]
  simp only [List.append_assoc, List.cons_append, List.nil_append]

theorem ne_nil_of_length {b : Bytes} {n : Nat} (h : b.length = n + 1) : b ≠ [] := by
  rintro rfl
  cases h

/-- What is written, read back with any password: PBKDF2 has to give the digest. -/
theorem verifyPassword_storedText (lib : Pbkdf2) (password : Bytes) {salt digest ending : Bytes}
    (hsalt : salt.length = kSaltLength) (hdigest : digest.length = kHashLength)
    (hending : ending = [] ∨ ending = [dollar]) :
    verifyPassword lib password (storedText salt digest ++ ending) = true ↔
      lib.fill password salt 200000 32 = some digest := by
  have hverify := verifyPassword_text lib password
    (writtenHash salt digest ending (ne_nil_of_length hsalt) (ne_nil_of_length hdigest) hending)
  rw [writtenHash_text] at hverify
  refine hverify.trans ?_
  show lib.fill password salt writtenCount.value digest.length = some digest ↔ _
  rw [writtenCount_value, hdigest]
  rfl

/-- **Every password verifies** against its hash, and another one exactly when PBKDF2 gives it
the same digest. -/
theorem verifyPassword_hashPassword (lib : Pbkdf2) (salt : Salt) (password : Bytes) :
    match hashPassword lib (some salt) password with
    | none => lib.fill password salt.1 200000 32 = none
    | some stored => verifyPassword lib password stored = true ∧
        ∃ digest, digest.length = 32 ∧ stored = storedText salt.1 digest ∧
          ∀ password', verifyPassword lib password' stored = true ↔
            lib.fill password' salt.1 200000 32 = some digest := by
  cases hfill : lib.fill password salt.1 200000 32 with
  | none =>
      have hhash : hashPassword lib (some salt) password = none := by
        show (match lib.fill password salt.1 200000 32 with | none => none | some hash => _) = none
        rw [hfill]
      rw [hhash]
  | some digest =>
      have hhash : hashPassword lib (some salt) password = some (storedText salt.1 digest) := by
        show (match lib.fill password salt.1 200000 32 with | none => none | some hash => _) = _
        rw [hfill]
        rfl
      have hdigest : digest.length = kHashLength := lib.fill_length hfill (by decide)
      have hread : ∀ password', verifyPassword lib password' (storedText salt.1 digest) = true ↔
          lib.fill password' salt.1 200000 32 = some digest := by
        intro password'
        have := verifyPassword_storedText lib password' salt.2 hdigest (.inl rfl)
        rwa [List.append_nil] at this
      rw [hhash]
      exact ⟨(hread password).2 hfill, digest, hdigest, rfl, hread⟩

/-! ## What is malformed -/

/-- A well-formed string does not end in a separator. -/
theorem WellFormedHash.last_ne {text : Bytes} : ¬ WellFormedHash (text ++ [dollar]) := by
  rintro ⟨digits, salt, digest, -, -, -, hdigest, heq⟩
  have hne : base64urlEncode digest ≠ [] :=
    (spells_encode digest).ne_nil (ne_nil_of_length hdigest)
  have hlast := congrArg List.getLast? heq
  rw [List.getLast?_append_of_ne_nil _ hne, List.getLast?_concat] at hlast
  exact dollar_notMem_encode digest (List.mem_of_getLast? hlast.symm)

/-- **A malformed string** is rejected unless it can be read and PBKDF2 gives the digest that is
read from it. -/
theorem malformed_rejected_iff (lib : Pbkdf2) (password stored : Bytes) :
    (¬ WellFormedHash stored → verifyPassword lib password stored = false) ↔
      WellFormedHash stored ∨ ∀ h : LenientHash, h.text = stored →
        lib.fill password h.salt h.count.value h.digest.length ≠ some h.digest := by
  rw [← Bool.not_eq_true, verifyPassword_iff]
  constructor
  · intro hrejected
    by_cases hwell : WellFormedHash stored
    · exact .inl hwell
    · refine .inr fun h htext hfill => ?_
      exact hrejected hwell ⟨h, htext, hfill⟩
  · rintro (hwell | hnone) hmalformed
    · exact absurd hwell hmalformed
    · rintro ⟨h, htext, hfill⟩
      exact hnone h htext hfill

/-- Sixteen zero bytes. -/
def zeroSalt : Salt := ⟨List.replicate 16 0, rfl⟩

/-- A PBKDF2 that gives zeros. -/
def zeroPbkdf2 : Pbkdf2 where
  run _ _ _ _ _ keylen := some (List.replicate keylen.toNat 0)
  run_length h := by rw [← Option.some.inj h, List.length_replicate]

/-- Whatever PBKDF2 gives, a separator behind a stored string is passed over. -/
theorem trailing_separator_verifies :
    (hashPassword zeroPbkdf2 (some zeroSalt) (lit "secret") ≠ none) ∧
    ∀ (lib : Pbkdf2) (stored : Bytes),
      hashPassword lib (some zeroSalt) (lit "secret") = some stored →
      ¬ WellFormedHash (stored ++ [dollar]) ∧
        verifyPassword lib (lit "secret") (stored ++ [dollar]) = true := by
  constructor
  · exact Option.some_ne_none _
  · intro lib stored hhash
    refine ⟨WellFormedHash.last_ne, ?_⟩
    unfold hashPassword at hhash
    dsimp only at hhash
    split at hhash
    · cases hhash
    next digest hfill =>
      obtain rfl := Option.some.inj hhash
      have hdigest : digest.length = kHashLength := lib.fill_length hfill (by decide)
      exact (verifyPassword_storedText lib _ zeroSalt.2 hdigest (.inr rfl)).2 hfill

end Oreshnek
