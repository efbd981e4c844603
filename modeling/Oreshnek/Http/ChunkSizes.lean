import Oreshnek.Http.ChunkGrammar

/-!
# Chunk sizes

`parse_chunk_size` against the numbers that chunk-size tokens denote. It takes every token of
hexadecimal digits, and gives the number modulo `2 ^ 64`. So it reads a token as the grammar does
exactly where this number is a `size_t` (`readsExactly_iff`).
-/

namespace Oreshnek

/-- What stands in front of the first `;`, without blanks at the end. -/
def tokenDigits (token : Bytes) : Bytes :=
  (token.takeWhile (· ≠ 59)).rdropWhile fun c => c == 32 || c == 9

/-- It is what `parse_chunk_size` reads. -/
theorem sizeToken_eq (token : Bytes) : sizeToken token = tokenDigits token := by
  unfold tokenDigits
  rw [Search.takeWhile_ne]
  rfl

/-- The token is a hexadecimal number. -/
def HexToken (token : Bytes) : Prop :=
  tokenDigits token ≠ [] ∧ ∀ d ∈ tokenDigits token, (hexDigit d).isSome

instance (token : Bytes) : Decidable (HexToken token) :=
  inferInstanceAs (Decidable (_ ∧ _))

/-- The number it denotes. -/
def tokenValue (token : Bytes) : Nat := hexValue 0 (tokenDigits token)

/-- A number that no `size_t` holds. -/
def Oversized (token : Bytes) : Prop := HexToken token ∧ 2 ^ 64 ≤ tokenValue token

instance (token : Bytes) : Decidable (Oversized token) :=
  inferInstanceAs (Decidable (_ ∧ _))

/-- The token is read as the number it denotes, or rejected if it denotes none below `2 ^ 64`. -/
def ReadsExactly (token : Bytes) (out : Nat) : Prop :=
  ((parseChunkSize token out).1 = true ↔ HexToken token ∧ tokenValue token < 2 ^ 64) ∧
    (HexToken token → tokenValue token < 2 ^ 64 →
      (parseChunkSize token out).2 = tokenValue token)

/-- A number is read modulo `2 ^ 64`. -/
theorem parseChunkSize_wrapped {token : Bytes} (h : HexToken token) (out : Nat) :
    parseChunkSize token out = (true, sizeT (tokenValue token)) := by
  obtain ⟨hne, hhex⟩ := h
  rw [parseChunkSize_token, sizeToken_eq, if_neg (by simpa using hne),
    digits_wrapped hhex (by decide)]
  rfl

/-- Nothing else is read. -/
theorem parseChunkSize_true_iff (token : Bytes) (out : Nat) :
    (parseChunkSize token out).1 = true ↔ HexToken token := by
  constructor
  · intro h
    have hhex := sizeToken_hex h
    rw [sizeToken_eq] at hhex
    exact hhex
  · intro h
    rw [parseChunkSize_wrapped h]

/-- **A chunk size is read exactly** if and only if it is not a number from `2 ^ 64` on. -/
theorem readsExactly_iff (token : Bytes) (out : Nat) :
    ReadsExactly token out ↔ ¬ Oversized token := by
  unfold ReadsExactly
  rw [parseChunkSize_true_iff]
  constructor
  · rintro ⟨hread, -⟩ ⟨hhex, hlarge⟩
    exact Nat.not_lt.2 hlarge (hread.1 hhex).2
  · intro hfits
    constructor
    · constructor
      · intro hhex
        exact ⟨hhex, Nat.not_le.1 fun hlarge => hfits ⟨hhex, hlarge⟩⟩
      · exact And.left
    · intro hhex hlt
      rw [parseChunkSize_wrapped hhex]
      exact Nat.mod_eq_of_lt hlt

/-- `2 ^ 64` is read as zero, the size of the last chunk. -/
theorem oversized_size_read :
    parseChunkSize (lit "10000000000000000") 0 = (true, 0) ∧
      HexToken (lit "10000000000000000") ∧ tokenValue (lit "10000000000000000") = 2 ^ 64 ∧
      ¬ ReadsExactly (lit "10000000000000000") 0 := by
  have hhex : HexToken (lit "10000000000000000") := by decide +kernel
  have hvalue : tokenValue (lit "10000000000000000") = 2 ^ 64 := by decide +kernel
  refine ⟨by decide +kernel, hhex, hvalue, ?_⟩
  intro h
  exact absurd ((h.1.1 (by decide +kernel)).2) (by rw [hvalue]; decide)

/-! ## Size lines -/

/-- The size lines of a buffer hold hexadecimal numbers. -/
theorem sizeLines_hex {b : Bytes} : ∀ p ∈ sizeLines b, HexToken p.1 := by
  intro p hp
  exact (parseChunkSize_true_iff p.1 0).1 (sizeLines_ok p hp)

/-- The sizes that the passes work with. -/
theorem chunkSizes_eq (b : Bytes) :
    chunkSizes b = (sizeLines b).map fun p => sizeT (tokenValue p.1) := by
  unfold chunkSizes
  refine List.map_congr_left ?_
  intro p hp
  rw [parseChunkSize_wrapped (sizeLines_hex p hp)]

/-- They are the ones of the lines when none is oversized. -/
theorem chunkSizes_exact {b : Bytes} (h : ∀ p ∈ sizeLines b, ¬ Oversized p.1) :
    chunkSizes b = (sizeLines b).map fun p => tokenValue p.1 := by
  rw [chunkSizes_eq]
  refine List.map_congr_left ?_
  intro p hp
  have hlt : tokenValue p.1 < 2 ^ 64 :=
    Nat.not_le.1 fun hlarge => h p hp ⟨sizeLines_hex p hp, hlarge⟩
  exact Nat.mod_eq_of_lt hlt

end Oreshnek
