import Oreshnek.Server.Negotiation

/-!
# The loop around zlib

`gzip_compress` calls `deflate` with `Z_FINISH` until it is through, and collects what each
call puts into a buffer of 32 KiB. zlib is a parameter, and `Zlib.Documented` is what its manual
says of these calls. Then the loop ends, with nothing or with the whole stream for the input
that zlib was told of. It is told the length as a `uInt`, so that a body from 4 GiB on loses
bytes; up to there compression keeps the meaning of a response (`compressed_keeps_iff`).
-/

namespace Oreshnek

/-! ## The loop -/

/-- What `deflate` answers; `failed` is any other code. -/
inductive DeflateRet where
  | ok
  | streamEnd
  | failed
deriving DecidableEq

/-- A `z_stream`: its state, and the `avail_in` bytes at `next_in`. -/
structure ZStream (S : Type) where
  state : S
  input : Bytes

/-- The calls of zlib that are made. -/
structure Zlib (S : Type) where
  /-- `deflateInit2` with the gzip wrapper; `none` for anything but `Z_OK`. -/
  deflateInit2 : Int → Option S
  /-- `deflate` with `Z_FINISH` and this `avail_out`: what it writes, its answer, the stream. -/
  deflate : ZStream S → Nat → Bytes × DeflateRet × ZStream S

variable {S : Type}

/-- The size of the buffer. -/
def bufSize : Nat := 32768

/-- The loop; `none` when it is not through after so many calls. -/
def gzipLoop (z : Zlib S) : Nat → ZStream S → Bytes → Option (Bytes × DeflateRet)
  | 0, _, _ => none
  | fuel + 1, zs, out =>
      let call := z.deflate zs bufSize
      let out := out ++ call.1
      if call.2.1 = .ok then gzipLoop z fuel call.2.2 out else some (out, call.2.1)

/-- `gzip_compress`, with `avail_in` as a `uInt`. -/
def gzipCompress (z : Zlib S) (fuel : Nat) (input : Bytes) (level : Int) : Option Bytes :=
  match z.deflateInit2 level with
  | none => some []
  | some state =>
      (gzipLoop z fuel ⟨state, input.take (input.length % 2 ^ 32)⟩ []).map fun r =>
        if r.2 ≠ .streamEnd then [] else r.1

/-! ## What the manual says -/

/-- `rest` is what is still to be written for a stream. `deflate` writes as much of it as there
is room for, and answers whether that was all; a stream inflates to its input. -/
structure Zlib.Documented (z : Zlib S) (inflate : Bytes → Option Bytes) (rest : ZStream S → Bytes) :
    Prop where
  last : ∀ zs n, (rest zs).length ≤ n →
    (z.deflate zs n).1 = rest zs ∧ (z.deflate zs n).2.1 = .streamEnd
  more : ∀ zs n, 0 < n → n < (rest zs).length →
    (z.deflate zs n).1 = (rest zs).take n ∧ (z.deflate zs n).2.1 = .ok ∧
      rest (z.deflate zs n).2.2 = (rest zs).drop n
  whole : ∀ level state input, z.deflateInit2 level = some state → input.length < 2 ^ 32 →
    inflate (rest ⟨state, input⟩) = some input

section Loop

variable {z : Zlib S} {inflate : Bytes → Option Bytes} {rest : ZStream S → Bytes}

/-- The loop collects what is still to be written, a buffer at a time. -/
theorem gzipLoop_collects (h : z.Documented inflate rest) {fuel : Nat} {zs : ZStream S}
    (hfuel : (rest zs).length ≤ fuel * bufSize) (out : Bytes) :
    gzipLoop z (fuel + 1) zs out = some (out ++ rest zs, .streamEnd) := by
  induction fuel generalizing zs out with
  | zero =>
      rcases h.last zs bufSize (by omega) with ⟨hout, hret⟩
      unfold gzipLoop
      dsimp only
      rw [hret, hout, if_neg (by decide)]
  | succ fuel ih =>
      unfold gzipLoop
      dsimp only
      by_cases hroom : (rest zs).length ≤ bufSize
      · rcases h.last zs bufSize hroom with ⟨hout, hret⟩
        rw [hret, hout, if_neg (by decide)]
      · rcases h.more zs bufSize (by decide) (Nat.not_le.1 hroom) with ⟨hout, hret, hnext⟩
        have hshorter : (rest (z.deflate zs bufSize).2.2).length ≤ fuel * bufSize := by
          rw [hnext, List.length_drop]
          rw [Nat.succ_mul] at hfuel
          omega
        rw [hret, if_pos rfl, ih hshorter, hout, hnext, List.append_assoc, List.take_append_drop]

/-- More calls change nothing once it is through. -/
theorem gzipLoop_le {fuel fuel' : Nat} (hle : fuel ≤ fuel') {zs : ZStream S} {out : Bytes}
    {r : Bytes × DeflateRet} (h : gzipLoop z fuel zs out = some r) :
    gzipLoop z fuel' zs out = some r := by
  induction fuel generalizing fuel' zs out with
  | zero => cases h
  | succ fuel ih =>
      cases fuel' with
      | zero => exact absurd hle (Nat.not_succ_le_zero fuel)
      | succ fuel' =>
          unfold gzipLoop at h ⊢
          dsimp only at h ⊢
          by_cases hok : (z.deflate zs bufSize).2.1 = .ok
          · rw [if_pos hok] at h ⊢
            exact ih (Nat.le_of_succ_le_succ hle) h
          · rw [if_neg hok] at h ⊢
            exact h

/-- What `gzip_compress` returns. -/
def gzipStream (z : Zlib S) (rest : ZStream S → Bytes) (input : Bytes) (level : Int) : Bytes :=
  match z.deflateInit2 level with
  | none => []
  | some state => rest ⟨state, input.take (input.length % 2 ^ 32)⟩

/-- The loop ends, with the stream that zlib has to give. -/
theorem gzipCompress_ends (h : z.Documented inflate rest) (input : Bytes) (level : Int) :
    ∃ fuel, gzipCompress z fuel input level = some (gzipStream z rest input level) := by
  unfold gzipCompress gzipStream
  cases z.deflateInit2 level with
  | none => exact ⟨0, rfl⟩
  | some state =>
      refine ⟨(rest ⟨state, input.take (input.length % 2 ^ 32)⟩).length + 1, ?_⟩
      dsimp only
      rw [gzipLoop_collects h (Nat.le_mul_of_pos_right _ (by decide)), Option.map_some]
      exact congrArg some ((if_neg (not_not.2 rfl)).trans (List.nil_append _))

/-- The loop puts out all that `deflate` has for the input. -/
theorem gzipCompress_eq (h : z.Documented inflate rest) {fuel : Nat} {input out : Bytes}
    {level : Int} (hout : gzipCompress z fuel input level = some out) :
    out = gzipStream z rest input level := by
  rcases gzipCompress_ends h input level with ⟨fuel', hends⟩
  unfold gzipCompress at hout hends
  cases hinit : z.deflateInit2 level with
  | none =>
      rw [hinit] at hout hends
      exact (Option.some.inj hout).symm.trans (Option.some.inj hends)
  | some state =>
      rw [hinit] at hout hends
      rcases Option.map_eq_some_iff.1 hout with ⟨r, hr, heq⟩
      rcases Option.map_eq_some_iff.1 hends with ⟨r', hr', heq'⟩
      -- both have the same loop behind them
      have hlong := gzipLoop_le (Nat.le_max_left fuel fuel') hr
      have hlong' := gzipLoop_le (Nat.le_max_right fuel fuel') hr'
      rw [hlong] at hlong'
      rw [← heq, ← heq', Option.some.inj hlong']

/-- It inflates to what zlib was told of. -/
theorem gzipStream_inflates (h : z.Documented inflate rest) (input : Bytes) (level : Int) :
    gzipStream z rest input level = [] ∨
      inflate (gzipStream z rest input level) = some (input.take (input.length % 2 ^ 32)) := by
  unfold gzipStream
  cases hinit : z.deflateInit2 level with
  | none => exact .inl rfl
  | some state =>
      right
      apply h.whole level state _ hinit
      rw [List.length_take]
      have hmod : input.length % 2 ^ 32 < 2 ^ 32 := Nat.mod_lt _ (by decide)
      omega

/-- That is all of the input exactly when its length is a `uInt`. -/
theorem take_uInt_iff (input : Bytes) :
    input.take (input.length % 2 ^ 32) = input ↔ input.length < 2 ^ 32 := by
  rw [List.take_eq_self_iff]
  constructor
  · intro hle
    exact hle.trans_lt (Nat.mod_lt _ (by decide))
  · intro hlt
    rw [Nat.mod_eq_of_lt hlt]

end Loop

/-! ## Compressed responses -/

section Meaning

variable {z : Zlib S} {rest : ZStream S → Bytes} {decode : Bytes → Bytes → Option Bytes}
  {c : Compressors} {req : HttpRequest} {res : HttpResponse} {minBytes : Nat} {allowBrotli : Bool}

/-- A body that has been chosen to be replaced decodes to the handler's, but for a long one in
gzip. -/
theorem encodes_decodes_iff (h : z.Documented (decode (lit "gzip")) rest)
    (hgzip : ∀ b, ∃ fuel, gzipCompress z fuel b 6 = some (c.gzip b))
    (hbrotli : ∀ b, c.brotli b = [] ∨ decode (lit "br") (c.brotli b) = some b)
    {body coding encoded : Bytes}
    (hencodes : Encodes c req res minBytes allowBrotli body coding encoded) :
    decode coding encoded = some body ↔ (coding = lit "gzip" → body.length < 2 ^ 32) := by
  rcases hencodes.chooses with ⟨accept, -, hchosen⟩
  have hne := hencodes.shrinks.1
  cases hchosen with
  | brotli =>
      have hother : lit "br" ≠ lit "gzip" := by decide
      exact iff_of_true ((hbrotli body).resolve_left hne) fun heq => absurd heq hother
  | gzip =>
      rcases hgzip body with ⟨fuel, hfuel⟩
      have hstream := gzipCompress_eq h hfuel
      have hinflates := gzipStream_inflates h body 6
      rw [← hstream] at hinflates
      rw [hinflates.resolve_left hne, Option.some.injEq, take_uInt_iff]
      exact ⟨fun hlt _ => hlt, fun hall => hall rfl⟩

end Meaning

/-- What is left of a stream that makes `manyAsGzip` of `manyAs`, and stores anything else. -/
def storedRest (zs : ZStream (Option Bytes)) : Bytes :=
  zs.state.getD (if zs.input = manyAs then manyAsGzip else 0 :: zs.input)

def storing : Zlib (Option Bytes) where
  deflateInit2 := fun _ => some none
  deflate := fun zs n => ((storedRest zs).take n,
    if (storedRest zs).length ≤ n then .streamEnd else .ok, ⟨some ((storedRest zs).drop n), []⟩)

/-- `gunzip` for it. -/
def unstored (coding b : Bytes) : Option Bytes :=
  if coding ≠ lit "gzip" then none else if b = manyAsGzip then some manyAs else some (b.drop 1)

/-- A compressor that stores its input behaves as the manual says. -/
theorem storing_documented : storing.Documented (unstored (lit "gzip")) storedRest := by
  constructor
  · intro zs n hroom
    exact ⟨List.take_of_length_le hroom, if_pos hroom⟩
  · intro zs n _ hshort
    exact ⟨rfl, if_neg (Nat.not_le.2 hshort), rfl⟩
  · intro level state input hinit _
    cases hinit
    unfold unstored storedRest
    rw [if_neg (not_not.2 rfl), Option.getD_none]
    dsimp only
    by_cases hmany : input = manyAs
    · rw [if_pos hmany, if_pos rfl, hmany]
    · have hfirst : 0 :: input ≠ manyAsGzip := by
        intro heq
        have hhead := congrArg List.head? heq
        exact absurd hhead (by
          rw [List.head?_cons]
          decide)
      rw [if_neg hmany, if_neg hfirst]
      rfl

/-- The server with that library and without Brotli. -/
def storingCompressors : Compressors where
  gzip := fun b => gzipStream storing storedRest b 6
  brotli := fun _ => []

end Oreshnek
