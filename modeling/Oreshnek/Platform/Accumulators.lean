import Oreshnek.Platform.Base64Url

/-!
# The accumulators of base64url

`encodeChecked` and `decodeChecked` are `base64url_encode` and `base64url_decode` with every
addition of an `int` checked: they stop at one that overflows. The bits in `val` are never
masked and grow out of it at the top, but a shift leaves its low bits empty, so that adding a
byte or a digit stays below the next multiple (`shift_add`). `valb` keeps between -8 and 8. No
addition overflows (`encodeChecked_eq`, `decodeChecked_eq`).
-/

namespace Oreshnek

/-- The values of an `int`. -/
def IntFits (n : Int) : Prop := -2 ^ 31 ≤ n ∧ n < 2 ^ 31

instance (n : Int) : Decidable (IntFits n) := inferInstanceAs (Decidable (_ ∧ _))

/-- An addition of two `int`, nothing where it overflows. -/
def addInt (a b : Int) : Option Int := if IntFits (a + b) then some (a + b) else none

/-- The addition to an accumulator of 32 bits. -/
def addBits (val : BitVec 32) (n : Int) : Option (BitVec 32) :=
  (addInt val.toInt n).map (BitVec.ofInt 32)

theorem addInt_eq {a b : Int} (h : IntFits (a + b)) : addInt a b = some (a + b) := if_pos h

theorem lt_of_addInt {a b c : Int} (h : addInt a b = some c) : c = a + b := by
  unfold addInt at h
  split at h
  · exact (Option.some.inj h).symm
  · cases h

/-! ## The checked loops -/

/-- The inner loop of `base64url_encode`, checked. -/
def encodeDigitsChecked (val : BitVec 32) (valb : Int) (encoded : Bytes) : Option (Int × Bytes) :=
  if 0 ≤ valb then
    match h : addInt valb (-6) with
    | none => none
    | some less => encodeDigitsChecked val less (encoded ++ [b64Digit val valb.toNat])
  else some (valb, encoded)
termination_by (valb + 6).toNat
decreasing_by
  have := lt_of_addInt h
  omega

/-- The loop over the input, checked. -/
def encodeLoopChecked : Bytes → BitVec 32 → Int → Bytes → Option (BitVec 32 × Int × Bytes)
  | [], val, valb, encoded => some (val, valb, encoded)
  | c :: input, val, valb, encoded => do
      let val ← addBits (val <<< 8) c.toNat
      let valb ← addInt valb 8
      let (valb, encoded) ← encodeDigitsChecked val valb encoded
      encodeLoopChecked input val valb encoded

/-- `base64url_encode`, checked. -/
def encodeChecked (input : Bytes) : Option Bytes := do
  let (val, valb, encoded) ← encodeLoopChecked input 0 (-6) []
  if -6 < valb then
    let shift ← addInt valb 8
    some (encoded ++ [b64Digit (val <<< 8) shift.toNat])
  else some encoded

/-- The loop of `base64url_decode`, checked. -/
def decodeLoopChecked : Bytes → BitVec 32 → Int → Bytes → Option Bytes
  | [], _, _, decoded => some decoded
  | c :: input, val, valb, decoded =>
      if c = 61 then some decoded
      else
        let d := b64Table c
        if d = -1 then some decoded
        else do
          let val ← addBits (val <<< 6) d
          let valb ← addInt valb 6
          if 0 ≤ valb then
            let less ← addInt valb (-8)
            decodeLoopChecked input val less
              (decoded ++ [UInt8.ofNat ((val.sshiftRight valb.toNat) &&& 255).toNat])
          else decodeLoopChecked input val valb decoded

/-- `base64url_decode`, checked. -/
def decodeChecked (input : Bytes) : Option Bytes := decodeLoopChecked input 0 (-8) []

/-! ## No addition overflows -/

/-- A shift leaves a multiple of its power of two. -/
theorem shiftLeft_toInt_dvd (val : BitVec 32) {a : Nat} (ha : a ≤ 31) :
    (2 ^ a : Int) ∣ (val <<< a).toInt := by
  have hpow : (2 ^ a : Int) ∣ ((2 ^ 32 : Nat) : Int) := by
    rw [Nat.cast_pow]
    exact pow_dvd_pow 2 (by omega)
  have hshift : (2 ^ a : Int) ∣ ((val.toNat <<< a : Nat) : Int) := by
    rw [Nat.shiftLeft_eq, Nat.cast_mul, Nat.cast_pow]
    exact Dvd.intro_left _ rfl
  rw [BitVec.toInt_shiftLeft, Int.bmod_eq_self_sub_mul_bdiv]
  exact dvd_sub hshift (hpow.mul_right _)

/-- What is added to a shifted accumulator stays below the next multiple. -/
theorem shift_add (val : BitVec 32) {a : Nat} (ha : a ≤ 31) {n : Int} (hn : 0 ≤ n)
    (hlt : n < 2 ^ a) : IntFits ((val <<< a).toInt + n) := by
  have hlow : -2 ^ 31 ≤ (val <<< a).toInt := BitVec.le_toInt _
  have hhigh : (val <<< a).toInt < 2 ^ 31 := BitVec.toInt_lt
  obtain ⟨m, hm⟩ := shiftLeft_toInt_dvd val ha
  -- the number of values is a multiple as well
  have htop : (2 : Int) ^ 31 = 2 ^ a * 2 ^ (31 - a) := by
    rw [← pow_add]
    congr 1
    omega
  have hpos : (0 : Int) < 2 ^ a := by positivity
  have hless : m + 1 ≤ 2 ^ (31 - a) := by
    rw [hm, htop] at hhigh
    exact lt_of_mul_lt_mul_left hhigh hpos.le
  have hnext : 2 ^ a * m + 2 ^ a ≤ (2 : Int) ^ 31 := by
    have := mul_le_mul_of_nonneg_left hless hpos.le
    rw [mul_add, mul_one, ← htop] at this
    exact this
  constructor
  · linarith
  · rw [hm]
    linarith

theorem addBits_eq {val : BitVec 32} {n : Int} (h : IntFits (val.toInt + n)) :
    addBits val n = some (val + BitVec.ofInt 32 n) := by
  unfold addBits
  rw [addInt_eq h, Option.map_some, BitVec.ofInt_add, BitVec.ofInt_toInt]

/-- Nor does the loop that writes the digits. -/
theorem encodeDigitsChecked_eq (val : BitVec 32) (valb : Int) (encoded : Bytes) (hle : valb < 8) :
    encodeDigitsChecked val valb encoded = some (encodeDigits val valb encoded) := by
  rw [encodeDigitsChecked, encodeDigits]
  by_cases hvalb : 0 ≤ valb
  · rw [if_pos hvalb, if_pos hvalb]
    have hsum : addInt valb (-6) = some (valb - 6) := by
      refine addInt_eq ⟨?_, ?_⟩
      · omega
      · omega
    split
    next hnone => cases hsum.symm.trans hnone
    next less hless =>
      obtain rfl : valb - 6 = less := Option.some.inj (hsum.symm.trans hless)
      exact encodeDigitsChecked_eq val (valb - 6) _ (by omega)
  · rw [if_neg hvalb, if_neg hvalb]
termination_by (valb + 6).toNat

/-- The digits leave `valb` below zero, and no lower than it was. -/
theorem encodeDigits_fst (val : BitVec 32) (valb : Int) (encoded : Bytes) (hge : -6 ≤ valb) :
    -6 ≤ (encodeDigits val valb encoded).1 ∧ (encodeDigits val valb encoded).1 < 0 := by
  rw [encodeDigits]
  by_cases hvalb : 0 ≤ valb
  · rw [if_pos hvalb]
    exact encodeDigits_fst val (valb - 6) _ (by omega)
  · rw [if_neg hvalb]
    exact ⟨hge, Int.not_le.1 hvalb⟩
termination_by (valb + 6).toNat

/-- Nor does the encoder. -/
theorem encodeLoopChecked_eq (input : Bytes) (val : BitVec 32) {valb : Int} (encoded : Bytes)
    (hge : -6 ≤ valb) (hlt : valb < 0) :
    encodeLoopChecked input val valb encoded = some (encodeLoop input val valb encoded) := by
  induction input generalizing val valb encoded with
  | nil => rfl
  | cons c input ih =>
      have hval : addBits (val <<< 8) c.toNat = some (val <<< 8 + BitVec.ofNat 32 c.toNat) := by
        have hbyte := c.toNat_lt
        rw [addBits_eq (shift_add val (by omega) (by omega) (by omega)), BitVec.ofInt_natCast]
      have hvalb : addInt valb 8 = some (valb + 8) := by
        refine addInt_eq ⟨?_, ?_⟩
        · omega
        · omega
      rw [encodeLoopChecked, hval, Option.bind_eq_bind, Option.bind_some, hvalb, Option.bind_eq_bind,
        Option.bind_some, encodeDigitsChecked_eq _ _ _ (by omega), Option.bind_eq_bind,
        Option.bind_some]
      obtain ⟨hge', hlt'⟩ := encodeDigits_fst (val <<< 8 + BitVec.ofNat 32 c.toNat) (valb + 8) encoded
        (by omega)
      exact ih _ _ hge' hlt'

/-- The loop ends with fewer than six bits left. -/
theorem encodeLoop_valb (input : Bytes) (val : BitVec 32) {valb : Int} (encoded : Bytes)
    (hge : -6 ≤ valb) (hlt : valb < 0) : (encodeLoop input val valb encoded).2.1 < 0 := by
  induction input generalizing val valb encoded with
  | nil => exact hlt
  | cons c input ih =>
      obtain ⟨hge', hlt'⟩ := encodeDigits_fst (val <<< 8 + BitVec.ofNat 32 c.toNat) (valb + 8) encoded
        (by omega)
      exact ih _ _ hge' hlt'

/-- **Encoding** overflows on no input. -/
theorem encodeChecked_eq (input : Bytes) : encodeChecked input = some (base64urlEncode input) := by
  have hlt := encodeLoop_valb input 0 [] (le_refl (-6)) (by decide)
  unfold encodeChecked base64urlEncode
  rw [encodeLoopChecked_eq input 0 [] (le_refl (-6)) (by decide), Option.bind_eq_bind,
    Option.bind_some]
  generalize encodeLoop input 0 (-6) [] = out at hlt
  obtain ⟨val, valb, encoded⟩ := out
  dsimp only at hlt ⊢
  by_cases hpending : -6 < valb
  · have hsum : addInt valb 8 = some (valb + 8) := by
      refine addInt_eq ⟨?_, ?_⟩
      · omega
      · omega
    rw [if_pos hpending, if_pos hpending, hsum, Option.bind_eq_bind, Option.bind_some]
  · rw [if_neg hpending, if_neg hpending]

/-- The decoder never shifts by a wrong amount, nor adds with overflow. -/
theorem decodeLoopChecked_eq (input : Bytes) (val : BitVec 32) {valb : Int} (decoded : Bytes)
    (hge : -8 ≤ valb) (hlt : valb < 0) :
    decodeLoopChecked input val valb decoded = some (decodeLoop input val valb decoded) := by
  induction input generalizing val valb decoded with
  | nil => rfl
  | cons c input ih =>
      rw [decodeLoopChecked, decodeLoop]
      by_cases hpad : c = 61
      · rw [if_pos hpad, if_pos hpad]
      rw [if_neg hpad, if_neg hpad]
      dsimp only
      by_cases hd : b64Table c = -1
      · rw [if_pos hd, if_pos hd]
      rw [if_neg hd, if_neg hd]
      have hdigit : 0 ≤ b64Table c ∧ b64Table c < 64 := by
        unfold b64Table at hd ⊢
        by_cases hc : c ∈ b64UrlAlphabet
        · have hidx : b64UrlAlphabet.idxOf c < 64 := List.idxOf_lt_length_of_mem hc
          rw [if_pos hc]
          omega
        · rw [if_neg hc] at hd
          exact absurd rfl hd
      have hval : addBits (val <<< 6) (b64Table c) = some (val <<< 6 + BitVec.ofInt 32 (b64Table c)) :=
        addBits_eq (shift_add val (by omega) hdigit.1 (by omega))
      have hvalb : addInt valb 6 = some (valb + 6) := by
        refine addInt_eq ⟨?_, ?_⟩
        · omega
        · omega
      rw [hval, Option.bind_eq_bind, Option.bind_some, hvalb, Option.bind_eq_bind, Option.bind_some]
      by_cases hfull : 0 ≤ valb + 6
      · -- a byte is written
        have hless : addInt (valb + 6) (-8) = some (valb + 6 - 8) := by
          refine addInt_eq ⟨?_, ?_⟩
          · omega
          · omega
        rw [if_pos hfull, if_pos hfull, hless, Option.bind_some]
        exact ih _ _ (by omega) (by omega)
      · rw [if_neg hfull, if_neg hfull]
        exact ih _ _ (by omega) (by omega)

/-- **Decoding** overflows on no input, well formed or not. -/
theorem decodeChecked_eq (input : Bytes) : decodeChecked input = some (base64urlDecode input) :=
  decodeLoopChecked_eq input 0 [] (le_refl (-8)) (by decide)

/-- **The round trips**, with no overflow on the way: a text decodes to what was encoded, and
what the encoder writes is encoded again from what it decodes to. -/
theorem base64url_round_trips :
    (∀ x, encodeChecked x = some (base64urlEncode x) ∧
      decodeChecked (base64urlEncode x) = some x ∧ base64urlDecode (base64urlEncode x) = x) ∧
    ∀ s ∈ Set.range base64urlEncode, decodeChecked s = some (base64urlDecode s) ∧
      encodeChecked (base64urlDecode s) = some s ∧ base64urlEncode (base64urlDecode s) = s := by
  constructor
  · intro x
    refine ⟨encodeChecked_eq x, ?_, base64url_decode_encode x⟩
    rw [decodeChecked_eq, base64url_decode_encode]
  · rintro s ⟨x, rfl⟩
    refine ⟨decodeChecked_eq _, ?_, ?_⟩
    · rw [base64url_decode_encode]
      exact encodeChecked_eq x
    · rw [base64url_decode_encode]

end Oreshnek
