import Oreshnek.Http.Phases

/-!
# What the two passes of the chunked decoder read and write

Pass 1 is run once more with what it has read (`acceptedScan`), pass 2 with the
copies it makes (`chunkMoves`). Pass 1 compares `sz + 2`, a `size_t`, with what
is left of the view, and the last two values of `size_t` make that sum wrap:
a chunk of such a size is accepted, and pass 2 copies it. These two values are
the only ones that mislead it (`moves_contained_iff`). With sizes inside the
limit the in-place pass agrees with a decoder into a buffer of its own, and
touches no byte outside the chunked body (`parseChunkedBody_in_place`).
-/

namespace Oreshnek

/-! ## The size lines of a buffer -/

/-- The size lines at the front of a buffer, each with what follows it: behind a
size of `sz`, `sz + 2` bytes are skipped to the next. The list ends with a size
of zero, or in front of a line that holds no size. -/
def sizeLines (b : Bytes) : List (Bytes × Bytes) :=
  match h : Search.find crlf b with
  | none => []
  | some eol =>
      let size := parseChunkSize (b.take eol) 0
      if size.1 = false then []
      else if size.2 = 0 then [(b.take eol, b.drop (eol + 2))]
      else
        (b.take eol, b.drop (eol + 2)) :: sizeLines ((b.drop (eol + 2)).drop (size.2 + 2))
termination_by b.length
decreasing_by
  have := drop_line_lt h
  rw [List.length_drop]
  omega

/-- The sizes these lines hold. -/
def chunkSizes (b : Bytes) : List Nat := (sizeLines b).map fun p => (parseChunkSize p.1 0).2

theorem sizeLines_more {b : Bytes} (h : ¬ crlf <:+: b) : sizeLines b = [] := by
  rw [sizeLines]
  exact match_find_more h _ _

theorem sizeLines_line {l : Bytes} (h : ¬ crlf <:+: l) (rest : Bytes) :
    sizeLines (l ++ crlf ++ rest) =
      if (parseChunkSize l 0).1 = false then []
      else if (parseChunkSize l 0).2 = 0 then [(l, rest)]
      else (l, rest) :: sizeLines (rest.drop ((parseChunkSize l 0).2 + 2)) := by
  rw [sizeLines]
  refine (match_find_line h rfl _ _).trans ?_
  rw [take_line, drop_line]

/-- Each of these lines holds a size. -/
theorem sizeLines_ok {b : Bytes} : ∀ p ∈ sizeLines b, (parseChunkSize p.1 0).1 = true := by
  induction b using skip_induction with
  | stop b hmore =>
      intro p hp
      rw [sizeLines_more hmore] at hp
      cases hp
  | line l rest hl ih =>
      intro p hp
      rw [sizeLines_line hl] at hp
      by_cases hok : (parseChunkSize l 0).1 = false
      · rw [if_pos hok] at hp
        cases hp
      rw [if_neg hok] at hp
      by_cases hzero : (parseChunkSize l 0).2 = 0
      · rw [if_pos hzero, List.mem_singleton] at hp
        rw [hp]
        simpa using hok
      rw [if_neg hzero] at hp
      rcases List.mem_cons.1 hp with rfl | hp
      · simpa using hok
      · exact ih _ p hp

/-! ## Pass 1 -/

/-- Pass 1, with the sizes `parse_chunk_size` has returned to it and what its
view `scan` holds at the end (`none`: it does not accept). -/
def acceptedScan (scan : Bytes) (decodedTotal : Nat) : Option (List Nat × Bytes) :=
  match h : Search.find crlf scan with
  | none => none
  | some eol =>
      let size := parseChunkSize (scan.take eol) 0
      if size.1 = false then none
      else if size.2 = 0 then (skipTrailers (scan.drop (eol + 2))).map fun rest => ([0], rest)
      else if sizeT (decodedTotal + size.2) > maxBodyBytes then none
      else if (scan.drop (eol + 2)).length < sizeT (size.2 + 2) then none
      else
        (acceptedScan ((scan.drop (eol + 2)).drop (sizeT (size.2 + 2)))
          (sizeT (decodedTotal + size.2))).map fun r => (size.2 :: r.1, r.2)
termination_by scan.length
decreasing_by
  have := drop_line_lt h
  rw [List.length_drop]
  omega

theorem acceptedScan_more {b : Bytes} (h : ¬ crlf <:+: b) (t : Nat) : acceptedScan b t = none := by
  rw [acceptedScan]
  exact match_find_more h _ _

/-- The scan at a size line: it ends, or goes on behind the data of the chunk. -/
theorem acceptedScan_line {l : Bytes} (h : ¬ crlf <:+: l) (rest : Bytes) (t : Nat) :
    acceptedScan (l ++ crlf ++ rest) t =
      if (parseChunkSize l 0).1 = false then none
      else if (parseChunkSize l 0).2 = 0 then (skipTrailers rest).map fun r => ([0], r)
      else if sizeT (t + (parseChunkSize l 0).2) > maxBodyBytes then none
      else if rest.length < sizeT ((parseChunkSize l 0).2 + 2) then none
      else
        (acceptedScan (rest.drop (sizeT ((parseChunkSize l 0).2 + 2)))
          (sizeT (t + (parseChunkSize l 0).2))).map fun r =>
            ((parseChunkSize l 0).2 :: r.1, r.2) := by
  rw [acceptedScan]
  refine (match_find_line h rfl _ _).trans ?_
  rw [take_line, drop_line]

/-- It is pass 1: the run exists exactly where pass 1 accepts. -/
theorem acceptedScan_isSome (b : Bytes) (t : Nat) :
    (acceptedScan b t).isSome ↔ scanChunks b t = .complete := by
  induction b using skip_induction generalizing t with
  | stop b hmore =>
      rw [acceptedScan_more hmore, scanChunks_more hmore]
      simp
  | line l rest hl ih =>
      rw [acceptedScan_line hl, scanChunks_line hl]
      rcases parseChunkSize l 0 with ⟨ok, sz⟩
      cases ok with
      | false => simp
      | true =>
          simp only [Bool.true_eq_false, if_false]
          by_cases hzero : sz = 0
          · rw [if_pos hzero, if_pos hzero]
            cases skipTrailers rest with
            | none => simp
            | some tail => simp
          rw [if_neg hzero, if_neg hzero]
          by_cases hbig : sizeT (t + sz) > maxBodyBytes
          · rw [if_pos hbig, if_pos hbig]
            simp
          rw [if_neg hbig, if_neg hbig]
          by_cases hshort : rest.length < sizeT (sz + 2)
          · rw [if_pos hshort, if_pos hshort]
            simp
          rw [if_neg hshort, if_neg hshort, Option.isSome_map]
          exact ih _ _

/-- An accepting run of pass 1 on a line: either the line holds zero and the
trailers end, or a chunk follows that the checks let pass. -/
theorem acceptedScan_cases {l : Bytes} (h : ¬ crlf <:+: l) {rest : Bytes} {t : Nat}
    {sizes : List Nat} {tail : Bytes}
    (hrun : acceptedScan (l ++ crlf ++ rest) t = some (sizes, tail)) :
    (parseChunkSize l 0).1 = true ∧
      (((parseChunkSize l 0).2 = 0 ∧ skipTrailers rest = some tail ∧ sizes = [0]) ∨
        ∃ sizes', (parseChunkSize l 0).2 ≠ 0 ∧
          sizeT (t + (parseChunkSize l 0).2) ≤ maxBodyBytes ∧
          sizeT ((parseChunkSize l 0).2 + 2) ≤ rest.length ∧
          acceptedScan (rest.drop (sizeT ((parseChunkSize l 0).2 + 2)))
            (sizeT (t + (parseChunkSize l 0).2)) = some (sizes', tail) ∧
          sizes = (parseChunkSize l 0).2 :: sizes') := by
  rw [acceptedScan_line h] at hrun
  generalize parseChunkSize l 0 = size at hrun
  by_cases hok : size.1 = false
  · rw [if_pos hok] at hrun
    cases hrun
  rw [if_neg hok] at hrun
  refine ⟨by simpa using hok, ?_⟩
  by_cases hzero : size.2 = 0
  · -- the last chunk
    rw [if_pos hzero, Option.map_eq_some_iff] at hrun
    rcases hrun with ⟨r, hr, heq⟩
    cases heq
    exact Or.inl ⟨hzero, hr, rfl⟩
  rw [if_neg hzero] at hrun
  by_cases hbig : sizeT (t + size.2) > maxBodyBytes
  · rw [if_pos hbig] at hrun
    cases hrun
  rw [if_neg hbig] at hrun
  by_cases hshort : rest.length < sizeT (size.2 + 2)
  · rw [if_pos hshort] at hrun
    cases hrun
  rw [if_neg hshort, Option.map_eq_some_iff] at hrun
  rcases hrun with ⟨⟨sizes', tail'⟩, hnext, heq⟩
  cases heq
  exact Or.inr ⟨sizes', hzero, Nat.le_of_not_lt hbig, Nat.le_of_not_lt hshort, hnext, rfl⟩

/-- Induction over the chunks that pass 1 accepts. -/
theorem accepted_induction {tail : Bytes}
    {P : ∀ b t sizes, acceptedScan b t = some (sizes, tail) → Prop}
    (last : ∀ l rest t (_ : ¬ crlf <:+: l) (_ : (parseChunkSize l 0).1 = true)
      (_ : (parseChunkSize l 0).2 = 0) (_ : skipTrailers rest = some tail) hrun,
      P (l ++ crlf ++ rest) t [0] hrun)
    (chunk : ∀ l rest t sizes (_ : ¬ crlf <:+: l) (_ : (parseChunkSize l 0).1 = true)
      (_ : (parseChunkSize l 0).2 ≠ 0) (_ : sizeT (t + (parseChunkSize l 0).2) ≤ maxBodyBytes)
      (_ : sizeT ((parseChunkSize l 0).2 + 2) ≤ rest.length)
      (hnext : acceptedScan (rest.drop (sizeT ((parseChunkSize l 0).2 + 2)))
        (sizeT (t + (parseChunkSize l 0).2)) = some (sizes, tail)) hrun,
      P _ _ sizes hnext → P (l ++ crlf ++ rest) t ((parseChunkSize l 0).2 :: sizes) hrun)
    {b : Bytes} {t : Nat} {sizes : List Nat} (hrun : acceptedScan b t = some (sizes, tail)) :
    P b t sizes hrun := by
  induction b using skip_induction generalizing t sizes with
  | stop b hmore =>
      have hnone := hrun
      rw [acceptedScan_more hmore] at hnone
      cases hnone
  | line l rest hl ih =>
      rcases acceptedScan_cases hl hrun with
        ⟨hok, ⟨hzero, htail, rfl⟩ | ⟨sizes', hne, htot, hfit, hnext, rfl⟩⟩
      · exact last l rest t hl hok hzero htail hrun
      · exact chunk l rest t sizes' hl hok hne htot hfit hnext hrun (ih _ hnext)

/-- Sizes inside the limit do not wrap: pass 1 goes from one size line of the
buffer to the next, keeps an exact total, and ends where the decoder into a
separate buffer does, with as many bytes. -/
theorem acceptedScan_exact {b : Bytes} {t : Nat} {sizes : List Nat} {tail : Bytes}
    (ht : t ≤ maxBodyBytes) (hrun : acceptedScan b t = some (sizes, tail))
    (hsizes : ∀ sz ∈ sizes, sz ≤ maxBodyBytes) :
    sizes = chunkSizes b ∧ t + sizes.sum ≤ maxBodyBytes ∧
      ∃ body, decodeChunks b = some (body, tail) ∧ body.length = sizes.sum := by
  have hmax := maxBodyBytes_lt
  induction hrun using accepted_induction with
  | last l rest t hl hok hzero htail hrun =>
      -- no data, the trailers end at the same place
      unfold chunkSizes
      rw [sizeLines_line hl, decodeChunks_line hl]
      refine ⟨?_, by simpa using ht, [], ?_, rfl⟩
      · rw [if_neg (by simp [hok]), if_pos hzero]
        simp [hzero]
      · rw [if_pos hzero, htail]
        rfl
  | chunk l rest t sizes hl hok hne htot hfit hnext hrun ih =>
      -- both sums are exact, since the size is inside the limit
      unfold chunkSizes
      rw [sizeLines_line hl, decodeChunks_line hl]
      have hsz := hsizes _ List.mem_cons_self
      have hlater := ih htot fun s hs => hsizes s (List.mem_cons_of_mem _ hs)
      generalize hsize : (parseChunkSize l 0).2 = sz at hne htot hfit hsz hlater
      have hwrap : sizeT (sz + 2) = sz + 2 := Nat.mod_eq_of_lt (by omega)
      have htotal : sizeT (t + sz) = t + sz := Nat.mod_eq_of_lt (by omega)
      rw [hwrap] at hfit hlater
      rw [htotal] at htot hlater
      rcases hlater with ⟨hlist, hsum, body, hbody, hcount⟩
      refine ⟨?_, ?_, rest.take sz ++ body, ?_, ?_⟩
      · rw [if_neg (by simp [hok]), if_neg hne, List.map_cons, hsize, hlist]
        rfl
      · rw [List.sum_cons]
        omega
      · rw [if_neg hne, if_pos ⟨by omega, hfit⟩, hbody]
        rfl
      · rw [List.length_append, List.length_take, List.sum_cons, hcount]
        omega

/-- As long as `sz + 2` does not wrap, pass 1 follows the size lines. -/
theorem acceptedScan_follows {b : Bytes} {t : Nat} {sizes : List Nat} {tail : Bytes}
    (hrun : acceptedScan b t = some (sizes, tail))
    (hsizes : ∀ sz ∈ chunkSizes b, sz < 2 ^ 64 - 2) : sizes = chunkSizes b := by
  induction hrun using accepted_induction with
  | last l rest t hl hok hzero htail hrun =>
      unfold chunkSizes
      rw [sizeLines_line hl, if_neg (by simp [hok]), if_pos hzero]
      simp [hzero]
  | chunk l rest t sizes hl hok hne htot hfit hnext hrun ih =>
      unfold chunkSizes at hsizes ⊢
      rw [sizeLines_line hl, if_neg (by simp [hok]), if_neg hne, List.map_cons] at hsizes ⊢
      have hsz : (parseChunkSize l 0).2 < 2 ^ 64 - 2 := hsizes _ List.mem_cons_self
      have hwrap : sizeT ((parseChunkSize l 0).2 + 2) = (parseChunkSize l 0).2 + 2 :=
        Nat.mod_eq_of_lt (by omega)
      rw [hwrap] at ih
      rw [ih fun s hs => hsizes s (List.mem_cons_of_mem _ hs)]
      rfl

/-- In a buffer that can exist, pass 1 accepts no size above the limit other
than the two for which `sz + 2` wraps. -/
theorem acceptedScan_sizes {b : Bytes} {t : Nat} {sizes : List Nat} {tail : Bytes}
    (hb : b.length < 2 ^ 63) (ht : t ≤ maxBodyBytes)
    (hrun : acceptedScan b t = some (sizes, tail))
    (hsizes : ∀ sz ∈ chunkSizes b, sz < 2 ^ 64 - 2) : ∀ sz ∈ sizes, sz ≤ maxBodyBytes := by
  have hmax := maxBodyBytes_lt
  induction hrun using accepted_induction with
  | last l rest t hl hok hzero htail hrun =>
      intro sz hsz
      rw [List.mem_singleton.1 hsz]
      exact Nat.zero_le _
  | chunk l rest t sizes hl hok hne htot hfit hnext hrun ih =>
      have hlen : rest.length ≤ (l ++ crlf ++ rest).length := (List.suffix_append _ _).length_le
      unfold chunkSizes at hsizes
      rw [sizeLines_line hl, if_neg (by simp [hok]), if_neg hne, List.map_cons] at hsizes
      have hsz : (parseChunkSize l 0).2 < 2 ^ 64 - 2 := hsizes _ List.mem_cons_self
      have hsizes := fun s hs => hsizes s (List.mem_cons_of_mem _ hs)
      unfold chunkSizes at ih
      generalize (parseChunkSize l 0).2 = sz at hne htot hfit hsz hsizes ih
      -- the chunk is inside the view, so neither sum wraps
      have hwrap : sizeT (sz + 2) = sz + 2 := Nat.mod_eq_of_lt (by omega)
      rw [hwrap] at hfit ih
      have htotal : sizeT (t + sz) = t + sz := Nat.mod_eq_of_lt (by omega)
      rw [htotal] at htot ih
      have hrest : (rest.drop (sz + 2)).length < 2 ^ 63 := by
        rw [List.length_drop]
        omega
      have hlater := ih hrest htot hsizes
      intro s hs
      rcases List.mem_cons.1 hs with rfl | hs
      · omega
      · exact hlater s hs

/-! ## Pass 2 -/

/-- A `memmove` of pass 2, positions counted from the start of the view. -/
structure ChunkMove where
  dst : Nat
  src : Nat
  count : Nat
deriving DecidableEq, Repr

/-- Source and destination both lie inside a view of `size` bytes. -/
def ChunkMove.Inside (m : ChunkMove) (size : Nat) : Prop :=
  m.src + m.count ≤ size ∧ m.dst + m.count ≤ size

instance (m : ChunkMove) (size : Nat) : Decidable (m.Inside size) :=
  inferInstanceAs (Decidable (_ ∧ _))

/-- The copies of pass 2, up to the first that leaves the view: after it the
behaviour is undefined. -/
def chunkMoves (mem : Bytes) (out cur : Nat) : List ChunkMove :=
  match h : Search.find crlf (mem.drop cur) with
  | none => []
  | some eol =>
      let sz := (parseChunkSize ((mem.drop cur).take eol) 0).2
      let cur' := cur + (eol + 2)
      if sz = 0 then []
      else
        ⟨out, cur', sz⟩ ::
          match hmove : memmove mem out cur' sz with
          | none => []
          | some mem' =>
              if cur' + sizeT (sz + 2) ≤ mem'.length then
                chunkMoves mem' (out + sz) (cur' + sizeT (sz + 2))
              else []
termination_by mem.length - cur
decreasing_by
  have hlen := memmove_length hmove
  have hle := Search.find_add_length_le h
  simp only [crlf, List.length_cons, List.length_nil, List.length_drop] at hle
  omega

theorem memmove_inside {mem mem' : Bytes} {dst src n : Nat}
    (h : memmove mem dst src n = some mem') : (⟨dst, src, n⟩ : ChunkMove).Inside mem.length := by
  unfold memmove at h
  split at h
  case isFalse => cases h
  case isTrue hin => exact ⟨hin.1, hin.2.1⟩

theorem chunkMoves_more {mem : Bytes} {cur : Nat} (h : ¬ crlf <:+: mem.drop cur) (out : Nat) :
    chunkMoves mem out cur = [] := by
  rw [chunkMoves]
  exact match_find_more h _ _

/-- One turn of pass 2 on a size line at `cur`. -/
theorem chunkMoves_line {mem l rest : Bytes} {cur : Nat} (h : ¬ crlf <:+: l)
    (hmem : mem.drop cur = l ++ crlf ++ rest) (out : Nat) :
    chunkMoves mem out cur =
      if (parseChunkSize l 0).2 = 0 then []
      else
        ⟨out, cur + (l.length + 2), (parseChunkSize l 0).2⟩ ::
          (memmove mem out (cur + (l.length + 2)) (parseChunkSize l 0).2).elim [] fun mem' =>
            if cur + (l.length + 2) + sizeT ((parseChunkSize l 0).2 + 2) ≤ mem'.length then
              chunkMoves mem' (out + (parseChunkSize l 0).2)
                (cur + (l.length + 2) + sizeT ((parseChunkSize l 0).2 + 2))
            else [] := by
  have htok : (mem.drop cur).take l.length = l := by rw [hmem, take_line]
  rw [chunkMoves]
  refine (match_find_line h hmem _ _).trans ?_
  dsimp only
  generalize hx : (mem.drop cur).take l.length = tok
  rw [htok] at hx
  subst hx
  refine if_congr Iff.rfl rfl ?_
  split
  case h_1 hnone => rw [hnone]; rfl
  case h_2 mem' hsome => rw [hsome]; rfl

/-- Where pass 2 runs to its end, every copy was inside the view. -/
theorem chunkMoves_inside {mem : Bytes} {out cur : Nat} (h : (compactChunks mem out cur).isSome) :
    ∀ m ∈ chunkMoves mem out cur, m.Inside mem.length := by
  intro m hm
  by_cases hmore : crlf <:+: mem.drop cur
  swap
  · rw [chunkMoves_more hmore] at hm
    cases hm
  rcases exists_line hmore with ⟨l, rest, hl, hmem⟩
  have hlen : mem.length = cur + (l.length + 2) + rest.length := by
    have := congrArg List.length hmem
    simp only [List.length_drop, List.length_append, crlf, List.length_cons,
      List.length_nil] at this
    omega
  rw [chunkMoves_line hl hmem] at hm
  rw [compactChunks_line hl hmem] at h
  generalize (parseChunkSize l 0).2 = sz at h hm
  by_cases hzero : sz = 0
  · rw [if_pos hzero] at hm
    cases hm
  rw [if_neg hzero] at h hm
  cases hmove : memmove mem out (cur + (l.length + 2)) sz with
  | none =>
      rw [hmove] at h
      cases h
  | some mem' =>
      rw [hmove] at h hm
      by_cases hnext : cur + (l.length + 2) + sizeT (sz + 2) ≤ mem'.length
      swap
      · simp only [if_neg hnext] at h
        cases h
      simp only [if_pos hnext] at h
      simp only [Option.elim_some, if_pos hnext] at hm
      have hsame := memmove_length hmove
      rcases List.mem_cons.1 hm with rfl | hm
      · -- the copy of this chunk was carried out
        exact memmove_inside hmove
      · -- the copies behind it, in a memory of the same size
        rw [← hsame]
        exact chunkMoves_inside h m hm
termination_by mem.length - cur
decreasing_by
  omega

/-! ## The copies are contained -/

/-- The sizes `parse_chunk_size` returns to a pass 1 that accepts. -/
def scannedSizes (b : Bytes) : List Nat := (acceptedScan b 0).elim [] Prod.fst

/-- What a buffer asks for that pass 1 has accepted: pass 2 copies inside the
view, the sizes add up to no more than the limit, and the body of a request
parsed from the buffer has that length. -/
structure Contained (b : Bytes) : Prop where
  moves : ∀ m ∈ chunkMoves b 0 0, m.Inside b.length
  total : (scannedSizes b).sum ≤ maxBodyBytes
  body : ∀ c : Cursor, c.data.bytes = b →
    ∃ c', parseChunkedBody c = some (true, c') ∧
      c'.request.body.length = (scannedSizes b).sum

/-- A scan that completes has a list of sizes. -/
theorem exists_acceptedScan {b : Bytes} (h : scanChunks b 0 = .complete) :
    ∃ tail, acceptedScan b 0 = some (scannedSizes b, tail) := by
  rcases Option.isSome_iff_exists.1 ((acceptedScan_isSome b 0).2 h) with ⟨⟨sizes, tail⟩, hrun⟩
  refine ⟨tail, ?_⟩
  unfold scannedSizes
  rw [hrun]
  rfl

/-- With sizes up to the limit no sum wraps, and all data moved lies in the buffer. -/
theorem contained_of_sizes {b : Bytes} (hscan : scanChunks b 0 = .complete)
    (hsizes : ∀ sz ∈ scannedSizes b, sz ≤ maxBodyBytes) : Contained b := by
  rcases exists_acceptedScan hscan with ⟨tail, hrun⟩
  rcases acceptedScan_exact (Nat.zero_le _) hrun hsizes with ⟨-, hsum, body, hbody, hcount⟩
  constructor
  · apply chunkMoves_inside
    rw [compactChunks_eq _ 0 0 (Nat.le_refl 0) (Nat.zero_le _), List.drop_zero, hbody]
    rfl
  · omega
  · intro c hc
    rw [parseChunkedBody_eq, hc, hscan, hbody]
    exact ⟨_, rfl, hcount⟩

/-- **What pass 2 does with an accepted buffer stays inside it exactly where no
size makes `sz + 2` wrap.** No object has `2 ^ 63` bytes. -/
theorem moves_contained_iff {b : Bytes} (hb : b.length < 2 ^ 63)
    (hscan : scanChunks b 0 = .complete) :
    Contained b ↔ ∀ sz ∈ chunkSizes b, sz < 2 ^ 64 - 2 := by
  have hmax := maxBodyBytes_lt
  rcases exists_acceptedScan hscan with ⟨tail, hrun⟩
  constructor
  · -- each size is inside the limit, so pass 1 has followed the size lines
    intro h
    have hsizes : ∀ sz ∈ scannedSizes b, sz ≤ maxBodyBytes := by
      intro sz hsz
      exact (List.le_sum_of_mem hsz).trans h.total
    rcases acceptedScan_exact (Nat.zero_le _) hrun hsizes with ⟨hlist, -⟩
    intro sz hsz
    rw [← hlist] at hsz
    have := hsizes sz hsz
    omega
  · intro h
    exact contained_of_sizes hscan (acceptedScan_sizes hb (Nat.zero_le _) hrun h)

theorem moves_contained_one_chunk :
    Contained (lit "1\r\nA\r\n0\r\n\r\n") ↔
      ∀ sz ∈ chunkSizes (lit "1\r\nA\r\n0\r\n\r\n"), sz < 2 ^ 64 - 2 :=
  moves_contained_iff (by decide) (by decide +kernel)

/-- A size of `2 ^ 64 - 1` behind one byte of data: the total wraps to 0 and
`sz + 2` to 1, pass 1 accepts, and pass 2 copies from outside the view. -/
theorem wrapped_size_leaves_view :
    scanChunks (lit "1\r\nA\r\nFFFFFFFFFFFFFFFF\r\nX0\r\n\r\n") 0 = .complete ∧
      ¬ Contained (lit "1\r\nA\r\nFFFFFFFFFFFFFFFF\r\nX0\r\n\r\n") := by
  refine ⟨by decide +kernel, ?_⟩
  intro h
  have hmoves : chunkMoves (lit "1\r\nA\r\nFFFFFFFFFFFFFFFF\r\nX0\r\n\r\n") 0 0 =
      [⟨0, 3, 1⟩, ⟨1, 24, 2 ^ 64 - 1⟩] := by
    decide +kernel
  have hin := h.moves ⟨1, 24, 2 ^ 64 - 1⟩ (by rw [hmoves]; simp)
  exact absurd hin (by decide +kernel)

/-! ## In place -/

/-- **The decoder works in place.** With sizes inside the limit, a call that does
not complete leaves the buffer as it is. One that completes gives the body a
decoder with an output of its own gives, ends where pass 1 ended, and keeps every
byte in front of the chunked body and behind it. -/
theorem parseChunkedBody_in_place {c : Cursor} (hal : c.Aligned)
    (hsizes : ∀ sz ∈ chunkSizes c.data.bytes, sz ≤ maxBodyBytes) :
    ∃ complete c', parseChunkedBody c = some (complete, c') ∧
      (complete = false → c'.buffer = c.buffer) ∧
      (complete = true →
        ∃ sizes tail, acceptedScan c.data.bytes 0 = some (sizes, tail) ∧
          decodeChunks c.data.bytes = some (c'.request.body.bytes, c'.data.bytes) ∧
          c'.data.bytes = tail ∧ c'.data.pos + tail.length = c.data.pos + c.data.length ∧
          c'.buffer.length = c.buffer.length ∧
          c'.buffer.take c.data.pos = c.buffer.take c.data.pos ∧
          c'.buffer.drop c'.data.pos = c.buffer.drop c'.data.pos) := by
  have hmax := maxBodyBytes_lt
  have hlength := hal.length
  rw [parseChunkedBody_eq]
  cases hscan : scanChunks c.data.bytes 0 with
  | needMore => exact ⟨false, c, rfl, fun _ => rfl, fun h => Bool.noConfusion h⟩
  | error message => exact ⟨false, c.fail message, rfl, fun _ => rfl, fun h => Bool.noConfusion h⟩
  | complete =>
      -- pass 1 has followed the size lines, and the decoder ends where it ends
      rcases exists_acceptedScan hscan with ⟨tail, hrun⟩
      have hfollows := acceptedScan_follows hrun fun sz hsz => by
        have := hsizes sz hsz
        omega
      rcases acceptedScan_exact (Nat.zero_le _) hrun (by rwa [hfollows]) with
        ⟨-, -, body, hbody, -⟩
      have hle : body.length + tail.length ≤ c.data.length := (decodeChunks_bounds hbody).2
      have hbefore : (c.buffer.take c.data.pos).length = c.data.pos := by
        rw [List.length_take]
        omega
      rw [hbody]
      refine ⟨true, _, rfl, fun h => Bool.noConfusion h, fun _ => ⟨_, tail, hrun, rfl, rfl, ?_⟩⟩
      refine ⟨?_, ?_, List.take_left' hbefore, ?_⟩
      · show c.data.pos + (c.data.length - tail.length) + tail.length = _
        omega
      · -- what was decoded takes the place of as many bytes
        simp only [List.length_append, List.length_drop, hbefore]
        unfold StringView.length at hlength hle
        omega
      · -- behind the write position nothing has been written
        show (c.buffer.take c.data.pos ++ (body ++ c.data.bytes.drop body.length)).drop
            (c.data.pos + (c.data.length - tail.length)) =
          c.buffer.drop (c.data.pos + (c.data.length - tail.length))
        have hk : c.data.length - tail.length =
            body.length + (c.data.length - tail.length - body.length) := by
          omega
        rw [← List.drop_drop, List.drop_left' hbefore, ← List.drop_drop, ← hal.bytes, hk,
          ← List.drop_drop, List.drop_left, List.drop_drop, ← hk]

/-- Two chunks with the next request behind them. -/
theorem parseChunkedBody_in_place_two_chunks :
    ∃ c', parseChunkedBody (.start (lit "1\r\nA\r\n1\r\nB\r\n0\r\n\r\nGET")) = some (true, c') ∧
      c'.buffer.drop c'.data.pos =
        (lit "1\r\nA\r\n1\r\nB\r\n0\r\n\r\nGET").drop c'.data.pos := by
  have hdone : (parseChunkedBody
      (.start (lit "1\r\nA\r\n1\r\nB\r\n0\r\n\r\nGET"))).map Prod.fst = some true := by
    decide +kernel
  rcases parseChunkedBody_in_place
      (Cursor.start_aligned (lit "1\r\nA\r\n1\r\nB\r\n0\r\n\r\nGET")) (by decide +kernel)
    with ⟨complete, c', hrun, -, hkept⟩
  rw [hrun] at hdone
  obtain rfl := Option.some.inj hdone
  rcases hkept rfl with ⟨sizes, tail, -, -, -, -, -, -, hdrop⟩
  exact ⟨c', hrun, hdrop⟩

end Oreshnek
