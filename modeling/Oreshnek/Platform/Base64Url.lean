import Oreshnek.Base
import Oreshnek.Lib.Regroup

/-!
# base64url

`base64url_encode` and `base64url_decode` of `SecurityUtils`. Both keep the bits
that are not yet written in the low end of an `int`, which wraps around on long
inputs; `Sextets` says which digits a text stands for. The decoder is lenient: it
stops at the first character outside the alphabet, a `=` included, and drops the
bits that do not fill a byte.
-/

namespace Oreshnek

/-- `kB64UrlAlphabet`. -/
def b64UrlAlphabet : Bytes :=
  lit "ABCDEFGHIJKLMNOPQRSTUVWXYZabcdefghijklmnopqrstuvwxyz0123456789-_"

/-- `kB64UrlAlphabet[(bits >> shift) & 0x3F]`. -/
def b64Digit (bits : BitVec 32) (shift : Nat) : UInt8 :=
  b64UrlAlphabet.getD ((bits.sshiftRight shift) &&& 63).toNat 0

/-- The inner loop of `base64url_encode`. -/
def encodeDigits (val : BitVec 32) (valb : Int) (encoded : Bytes) : Int × Bytes :=
  if 0 ≤ valb then encodeDigits val (valb - 6) (encoded ++ [b64Digit val valb.toNat])
  else (valb, encoded)
termination_by (valb + 6).toNat
decreasing_by omega

/-- The loop over the input. -/
def encodeLoop : Bytes → BitVec 32 → Int → Bytes → BitVec 32 × Int × Bytes
  | [], val, valb, encoded => (val, valb, encoded)
  | c :: input, val, valb, encoded =>
      let val := val <<< 8 + BitVec.ofNat 32 c.toNat
      let (valb, encoded) := encodeDigits val (valb + 8) encoded
      encodeLoop input val valb encoded

/-- `base64url_encode`. -/
def base64urlEncode (input : Bytes) : Bytes :=
  let (val, valb, encoded) := encodeLoop input 0 (-6) []
  if -6 < valb then encoded ++ [b64Digit (val <<< 8) (valb + 8).toNat] else encoded

/-- The reverse table: -1 for a character outside the alphabet. -/
def b64Table (c : UInt8) : Int :=
  if c ∈ b64UrlAlphabet then b64UrlAlphabet.idxOf c else -1

/-- The loop of `base64url_decode`. -/
def decodeLoop : Bytes → BitVec 32 → Int → Bytes → Bytes
  | [], _, _, decoded => decoded
  | c :: input, val, valb, decoded =>
      if c = 61 then decoded
      else
        let d := b64Table c
        if d = -1 then decoded
        else
          let val := val <<< 6 + BitVec.ofInt 32 d
          let valb := valb + 6
          if 0 ≤ valb then
            decodeLoop input val (valb - 8)
              (decoded ++ [UInt8.ofNat ((val.sshiftRight valb.toNat) &&& 255).toNat])
          else decodeLoop input val valb decoded

/-- `base64url_decode`. -/
def base64urlDecode (input : Bytes) : Bytes := decodeLoop input 0 (-8) []

/-! ## The accumulator -/

/-- The `k` low bits of the accumulator are the pending ones. -/
def Low (val : BitVec 32) (k v : Nat) : Prop := val.toNat % 2 ^ k = v

/-- A shift and a mask take some bits out of the middle, whatever the sign. -/
theorem mask_sshiftRight (val : BitVec 32) {s w : Nat} (h : s + w ≤ 32) :
    ((val.sshiftRight s) &&& BitVec.ofNat 32 (2 ^ w - 1)).toNat = val.toNat / 2 ^ s % 2 ^ w := by
  have hlogical : (val.sshiftRight s) &&& BitVec.ofNat 32 (2 ^ w - 1) =
      (val >>> s) &&& BitVec.ofNat 32 (2 ^ w - 1) := by
    apply BitVec.eq_of_getLsbD_eq
    intro i hi
    rw [BitVec.getLsbD_and, BitVec.getLsbD_and, BitVec.getLsbD_sshiftRight,
      BitVec.getLsbD_ushiftRight, BitVec.getLsbD_ofNat, Nat.testBit_two_pow_sub_one]
    by_cases hw : i < w
    · have hlow : s + i < 32 := by omega
      simp [Nat.not_le.2 hi, hlow]
    · simp [hw]
  have hmask : 2 ^ w - 1 < 2 ^ 32 := by
    have hle : 2 ^ w ≤ 2 ^ 32 := Nat.pow_le_pow_right (by decide) (by omega)
    omega
  rw [hlogical, BitVec.toNat_and, BitVec.toNat_ushiftRight, BitVec.toNat_ofNat,
    Nat.mod_eq_of_lt hmask, Nat.and_two_pow_sub_one_eq_mod, Nat.shiftRight_eq_div_pow]

/-- A digit of `a` bits is shifted in. -/
theorem Low.push {val : BitVec 32} {k v a : Nat} (h : Low val k v) {d : BitVec 32}
    (hd : d.toNat < 2 ^ a) (hk : k + a ≤ 32) :
    Low (val <<< a + d) (k + a) (v * 2 ^ a + d.toNat) := by
  unfold Low at h ⊢
  have hdvd : 2 ^ (k + a) ∣ 2 ^ 32 := Nat.pow_dvd_pow 2 hk
  rw [BitVec.toNat_add, BitVec.toNat_shiftLeft, Nat.shiftLeft_eq, Nat.mod_mod_of_dvd _ hdvd,
    Nat.add_mod, Nat.mod_mod_of_dvd _ hdvd, ← Nat.add_mod, pow_add]
  have hsplit : val.toNat * 2 ^ a + d.toNat =
      (2 ^ k * 2 ^ a) * (val.toNat / 2 ^ k) + (v * 2 ^ a + d.toNat) := by
    conv_lhs => rw [← Nat.div_add_mod val.toNat (2 ^ k), h]
    ring
  have hlt : v * 2 ^ a + d.toNat < 2 ^ k * 2 ^ a := by
    have hv : v < 2 ^ k := h ▸ Nat.mod_lt _ (Nat.two_pow_pos k)
    calc v * 2 ^ a + d.toNat < v * 2 ^ a + 2 ^ a := Nat.add_lt_add_left hd _
      _ = (v + 1) * 2 ^ a := by ring
      _ ≤ 2 ^ k * 2 ^ a := Nat.mul_le_mul_right _ hv
  rw [hsplit, Nat.mul_add_mod, Nat.mod_eq_of_lt hlt]

/-- The topmost `w` of the pending bits, and what is pending without them. -/
theorem Low.emit {val : BitVec 32} {k v w : Nat} (h : Low val k v) (hw : w ≤ k) (hk : k ≤ 32) :
    ((val.sshiftRight (k - w)) &&& BitVec.ofNat 32 (2 ^ w - 1)).toNat = v / 2 ^ (k - w) ∧
      Low val (k - w) (v % 2 ^ (k - w)) := by
  have hpow : 2 ^ k = 2 ^ (k - w) * 2 ^ w := by
    rw [← pow_add]
    congr 1
    omega
  unfold Low at h ⊢
  rw [mask_sshiftRight val (by omega), ← h]
  constructor
  · rw [hpow, Nat.mod_mul_right_div_self]
  · rw [Nat.mod_mod_of_dvd]
    exact Dvd.intro _ hpow.symm

/-! ## What is encoded -/

/-- The digits that the characters of the alphabet stand for. -/
def sextets (codes : Bytes) : List Nat := codes.map fun c => b64UrlAlphabet.idxOf c

theorem sextets_snoc (codes : Bytes) (c : UInt8) :
    sextets (codes ++ [c]) = sextets codes ++ [b64UrlAlphabet.idxOf c] := by
  simp [sextets]

theorem sextets_fits {codes : Bytes} (h : ∀ c ∈ codes, c ∈ b64UrlAlphabet) :
    Regroup.Fits 6 (sextets codes) := by
  intro d hd
  rcases List.mem_map.1 hd with ⟨c, hc, rfl⟩
  exact List.idxOf_lt_length_of_mem (h c hc)

theorem bytes_fits (bytes : Bytes) : Regroup.Fits 8 (bytes.map UInt8.toNat) := by
  intro d hd
  rcases List.mem_map.1 hd with ⟨c, -, rfl⟩
  exact c.toNat_lt

/-- A digit is written as the character at its place. -/
theorem alphabet_digit :
    ∀ n < 64, b64UrlAlphabet.getD n 0 ∈ b64UrlAlphabet ∧
      b64UrlAlphabet.idxOf (b64UrlAlphabet.getD n 0) = n := by
  decide +kernel

/-- The encoder has read `ds`; `k` bits with the value `v` are pending. -/
structure Encoding (ds : List Nat) (val : BitVec 32) (valb : Int) (encoded : Bytes)
    (k v : Nat) : Prop where
  position : valb = k - 6
  low : Low val k v
  held : Regroup.Held 8 6 ds (sextets encoded) k v
  codes : ∀ c ∈ encoded, c ∈ b64UrlAlphabet

/-- Every character of `codes ++ [digit]` is in the alphabet. -/
theorem codes_snoc {encoded : Bytes} (h : ∀ c ∈ encoded, c ∈ b64UrlAlphabet) {n : Nat}
    (hn : n < 64) : ∀ c ∈ encoded ++ [b64UrlAlphabet.getD n 0], c ∈ b64UrlAlphabet := by
  intro c hc
  rcases List.mem_append.1 hc with hc | hc
  · exact h c hc
  · rw [List.mem_singleton.1 hc]
    exact (alphabet_digit n hn).1

/-- The inner loop writes digits until fewer than six bits are left. -/
theorem encodeDigits_spec (ds : List Nat) (val : BitVec 32) (k : Nat) (hk : k ≤ 32) {v : Nat}
    {encoded : Bytes} {valb : Int} (h : Encoding ds val valb encoded k v) :
    ∃ k' v', k' < 6 ∧ Encoding ds val (encodeDigits val valb encoded).1
      (encodeDigits val valb encoded).2 k' v' := by
  induction k using Nat.strong_induction_on generalizing v encoded valb with
  | _ k ih =>
  have hposition := h.position
  rw [encodeDigits]
  by_cases hvalb : 0 ≤ valb
  · rw [if_pos hvalb]
    have hsix : 6 ≤ k := by omega
    rcases h.low.emit hsix hk with ⟨hdigit, hlow⟩
    have hheld := h.held.emit hsix
    -- the digit has six bits
    have hlt : v / 2 ^ (k - 6) < 64 :=
      hheld.fits _ (List.mem_append_right _ (List.mem_singleton_self _))
    have hshift : valb.toNat = k - 6 := by omega
    have hchar : b64Digit val valb.toNat = b64UrlAlphabet.getD (v / 2 ^ (k - 6)) 0 := by
      unfold b64Digit
      rw [hshift, ← hdigit]
      rfl
    rw [hchar]
    refine ih (k - 6) (by omega) (by omega) ⟨by omega, hlow, ?_, codes_snoc h.codes hlt⟩
    rw [sextets_snoc, (alphabet_digit _ hlt).2]
    exact hheld
  · rw [if_neg hvalb]
    exact ⟨k, v, by omega, h⟩

/-- The encoder regroups bytes into sextets; `val` holds what is left over. -/
theorem encodeLoop_spec (input : Bytes) (ds : List Nat) {val : BitVec 32} {valb : Int}
    {encoded : Bytes} {k v : Nat} (hk : k < 6) (h : Encoding ds val valb encoded k v) :
    ∃ k' v', k' < 6 ∧ Encoding (ds ++ input.map UInt8.toNat) (encodeLoop input val valb encoded).1
      (encodeLoop input val valb encoded).2.1 (encodeLoop input val valb encoded).2.2 k' v' := by
  induction input generalizing ds val valb encoded k v with
  | nil => exact ⟨k, v, hk, by simpa [encodeLoop] using h⟩
  | cons c input ih =>
      have hc : (BitVec.ofNat 32 c.toNat).toNat = c.toNat :=
        Nat.mod_eq_of_lt (lt_trans c.toNat_lt (by decide))
      have hlow := h.low.push (a := 8) (d := BitVec.ofNat 32 c.toNat) (by rw [hc]; exact c.toNat_lt)
        (by omega)
      rw [hc] at hlow
      have hpushed : Encoding (ds ++ [c.toNat]) (val <<< 8 + BitVec.ofNat 32 c.toNat) (valb + 8)
          encoded (k + 8) (v * 2 ^ 8 + c.toNat) := by
        have hposition := h.position
        exact ⟨by omega, hlow, h.held.push c.toNat_lt, h.codes⟩
      rcases encodeDigits_spec _ _ _ (by omega) hpushed with ⟨k', v', hk', hdigits⟩
      rcases ih _ hk' hdigits with ⟨k'', v'', hk'', hrest⟩
      refine ⟨k'', v'', hk'', ?_⟩
      rw [List.append_assoc, List.singleton_append] at hrest
      exact hrest

/-- **The encoder.** It writes characters of the alphabet that spell the input,
with less than a digit of zeros behind it. -/
theorem base64urlEncode_spec (input : Bytes) :
    ∃ p < 6, Regroup.value 6 (sextets (base64urlEncode input)) =
        Regroup.value 8 (input.map UInt8.toNat) * 2 ^ p ∧
      6 * (base64urlEncode input).length = 8 * input.length + p ∧
      ∀ c ∈ base64urlEncode input, c ∈ b64UrlAlphabet := by
  have hstart : Encoding [] 0 (-6) [] 0 0 :=
    ⟨rfl, rfl, Regroup.Held.start 8 6, fun c hc => absurd hc List.not_mem_nil⟩
  rcases encodeLoop_spec input [] (by decide) hstart with ⟨k, v, hk, h⟩
  rw [List.nil_append] at h
  unfold base64urlEncode
  generalize encodeLoop input 0 (-6) [] = out at h
  rcases out with ⟨val, valb, encoded⟩
  have hposition : valb = k - 6 := h.position
  have hlow : Low val k v := h.low
  have hlength : (sextets encoded).length = encoded.length := List.length_map _
  dsimp only
  by_cases hpending : -6 < valb
  · rw [if_pos hpending]
    rcases h.held.flush (le_of_lt hk) with ⟨hvalue, hcount, hfits⟩
    have hlt : v * 2 ^ (6 - k) < 64 := hfits.of_snoc.2
    -- the pending bits are the topmost of a digit
    have hchar : b64Digit (val <<< 8) (valb + 8).toNat =
        b64UrlAlphabet.getD (v * 2 ^ (6 - k)) 0 := by
      have hshifted := hlow.push (a := 8) (d := 0) (by decide) (by omega)
      have hshift : (valb + 8).toNat = k + 8 - 6 := by omega
      have hdigit := (hshifted.emit (w := 6) (by omega) (by omega)).1
      have hzero : val <<< 8 + (0 : BitVec 32) = val <<< 8 := BitVec.add_zero _
      rw [hzero] at hdigit
      unfold b64Digit
      rw [hshift]
      have hv : (v * 2 ^ 8 + (0 : BitVec 32).toNat) / 2 ^ (k + 8 - 6) = v * 2 ^ (6 - k) := by
        have hsplit : v * 2 ^ 8 = v * 2 ^ (6 - k) * 2 ^ (k + 8 - 6) := by
          rw [Nat.mul_assoc, ← pow_add]
          congr 2
          omega
        show (v * 2 ^ 8 + 0) / 2 ^ (k + 8 - 6) = v * 2 ^ (6 - k)
        rw [Nat.add_zero, hsplit, Nat.mul_div_cancel _ (Nat.two_pow_pos _)]
      rw [← hv, ← hdigit]
      rfl
    rw [hchar]
    refine ⟨6 - k, by omega, ?_, ?_, codes_snoc h.codes hlt⟩
    · rw [sextets_snoc, (alphabet_digit _ hlt).2]
      exact hvalue
    · simpa [hlength] using hcount
  · rw [if_neg hpending]
    obtain rfl : k = 0 := by omega
    refine ⟨0, by decide, ?_, ?_, h.codes⟩
    · have hspelled := h.held.spelled
      have hzero : v = 0 := by
        have := h.held.pending
        omega
      rw [hzero] at hspelled
      simpa using hspelled.symm
    · have hcount := h.held.count
      simp only [List.length_map, hlength] at hcount
      omega

/-! ## What is decoded -/

/-- The part of a text that the decoder reads. -/
def readable (text : Bytes) : Bytes := text.takeWhile fun c => decide (c ∈ b64UrlAlphabet)

theorem readable_mem {text : Bytes} : ∀ c ∈ readable text, c ∈ b64UrlAlphabet := by
  intro c hc
  simpa using List.mem_takeWhile_imp hc

theorem readable_cons {c : UInt8} (hc : c ∈ b64UrlAlphabet) (text : Bytes) :
    readable (c :: text) = c :: readable text := by
  simp [readable, hc]

theorem readable_stop {c : UInt8} (hc : c ∉ b64UrlAlphabet) (text : Bytes) :
    readable (c :: text) = [] := by
  simp [readable, hc]

theorem readable_all {text : Bytes} (h : ∀ c ∈ text, c ∈ b64UrlAlphabet) : readable text = text :=
  List.takeWhile_eq_self_iff.2 fun c hc => by simpa using h c hc

/-- The decoder has read `ds`; `k` bits with the value `v` are pending. -/
structure Decoding (ds : List Nat) (val : BitVec 32) (valb : Int) (decoded : Bytes)
    (k v : Nat) : Prop where
  position : valb = k - 8
  low : Low val k v
  held : Regroup.Held 6 8 ds (decoded.map UInt8.toNat) k v

/-- The decoder regroups sextets into bytes; `val` holds what is left over. -/
theorem decodeLoop_spec (input : Bytes) (ds : List Nat) {val : BitVec 32} {valb : Int}
    {decoded : Bytes} {k v : Nat} (hk : k < 8) (h : Decoding ds val valb decoded k v) :
    ∃ k' v', k' < 8 ∧ Regroup.Held 6 8 (ds ++ sextets (readable input))
      ((decodeLoop input val valb decoded).map UInt8.toNat) k' v' := by
  induction input generalizing ds val valb decoded k v with
  | nil =>
      rw [decodeLoop]
      exact ⟨k, v, hk, by simpa [readable, sextets] using h.held⟩
  | cons c input ih =>
      rw [decodeLoop]
      by_cases hc : c ∈ b64UrlAlphabet
      · have hpad : c ≠ 61 := by
          rintro rfl
          exact absurd hc (by decide +kernel)
        have htable : b64Table c = (b64UrlAlphabet.idxOf c : Int) := if_pos hc
        have hlt : b64UrlAlphabet.idxOf c < 64 := List.idxOf_lt_length_of_mem hc
        have hd : (BitVec.ofInt 32 (b64Table c)).toNat = b64UrlAlphabet.idxOf c := by
          rw [htable, BitVec.ofInt_natCast, BitVec.toNat_ofNat]
          exact Nat.mod_eq_of_lt (by omega)
        rw [if_neg hpad, if_neg (by rw [htable]; omega), readable_cons hc]
        -- six more bits
        have hlow := h.low.push (a := 6) (d := BitVec.ofInt 32 (b64Table c))
          (by rw [hd]; exact hlt) (by omega)
        rw [hd] at hlow
        have hheld := h.held.push (d := b64UrlAlphabet.idxOf c) hlt
        have hposition := h.position
        have hrest : ds ++ sextets (c :: readable input) =
            (ds ++ [b64UrlAlphabet.idxOf c]) ++ sextets (readable input) := by
          simp [sextets]
        rw [hrest]
        dsimp only
        by_cases hfull : 0 ≤ valb + 6
        · -- eight of them make a byte
          rw [if_pos hfull]
          rcases hlow.emit (w := 8) (by omega) (by omega) with ⟨hbyte, hlow⟩
          have hemitted := hheld.emit (by omega)
          have hbyte' : (v * 2 ^ 6 + b64UrlAlphabet.idxOf c) / 2 ^ (k + 6 - 8) < 256 :=
            hemitted.fits _ (List.mem_append_right _ (List.mem_singleton_self _))
          have hshift : (valb + 6).toNat = k + 6 - 8 := by omega
          refine ih _ (by omega) ⟨by omega, hlow, ?_⟩
          have hmask : ((val <<< 6 + BitVec.ofInt 32 (b64Table c)).sshiftRight (k + 6 - 8) &&&
              255).toNat = (v * 2 ^ 6 + b64UrlAlphabet.idxOf c) / 2 ^ (k + 6 - 8) := hbyte
          rw [List.map_append, List.map_singleton, hshift, hmask, UInt8.toNat_ofNat',
            Nat.mod_eq_of_lt hbyte']
          exact hemitted
        · rw [if_neg hfull]
          exact ih _ (by omega) ⟨by omega, hlow, hheld⟩
      · -- a character outside the alphabet ends what is read
        have hstop : ds ++ sextets (readable (c :: input)) = ds := by
          simp [readable_stop hc, sextets]
        rw [hstop]
        have htable : b64Table c = -1 := if_neg hc
        refine ⟨k, v, hk, ?_⟩
        split
        · exact h.held
        · rw [if_pos htable]
          exact h.held

/-- **The decoder.** The bytes regroup what can be read of the text. -/
theorem base64urlDecode_spec (input : Bytes) :
    ∃ k v, k < 8 ∧ Regroup.Held 6 8 (sextets (readable input))
      ((base64urlDecode input).map UInt8.toNat) k v := by
  have hstart : Decoding [] 0 (-8) [] 0 0 := ⟨rfl, rfl, Regroup.Held.start 6 8⟩
  have h := decodeLoop_spec input [] (by decide) hstart
  rw [List.nil_append] at h
  exact h

theorem toNat_map_injective {bytes bytes' : Bytes}
    (h : bytes.map UInt8.toNat = bytes'.map UInt8.toNat) : bytes = bytes' :=
  List.map_injective_iff.2 (fun _ _ heq => UInt8.toNat_inj.1 heq) h

/-- Codes of the alphabet are told apart by their sextets. -/
theorem sextets_injective {codes codes' : Bytes} (h : ∀ c ∈ codes, c ∈ b64UrlAlphabet)
    (h' : ∀ c ∈ codes', c ∈ b64UrlAlphabet) (heq : sextets codes = sextets codes') :
    codes = codes' := by
  induction codes generalizing codes' with
  | nil =>
      cases codes' with
      | nil => rfl
      | cons => cases heq
  | cons c codes ih =>
      cases codes' with
      | nil => cases heq
      | cons c' codes' =>
          rcases List.cons.inj heq with ⟨hhead, htail⟩
          rw [(List.idxOf_inj (h c List.mem_cons_self)).1 hhead,
            ih (fun d hd => h d (List.mem_cons_of_mem _ hd))
              (fun d hd => h' d (List.mem_cons_of_mem _ hd)) htail]

/-- **The round trip.** -/
theorem base64url_decode_encode (input : Bytes) : base64urlDecode (base64urlEncode input) = input := by
  rcases base64urlEncode_spec input with ⟨p, hp, hvalue, hcount, hcodes⟩
  rcases base64urlDecode_spec (base64urlEncode input) with ⟨k, v, hk, hheld⟩
  rw [readable_all hcodes] at hheld
  apply toNat_map_injective
  refine hheld.inverse hk (bytes_fits input) (by omega) hvalue ?_
  simpa [sextets] using hcount

end Oreshnek
