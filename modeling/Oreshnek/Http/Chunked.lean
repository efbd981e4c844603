import Oreshnek.Http.Parser

/-!
# The chunked decoder

Line-by-line equations of the loops of `parse_chunked_body`, the decoder into a
separate output buffer (`decodeChunks`), and the fact that the in-place pass
computes the same (`compactChunks_eq`): the write position never passes the
position being read. Data that arrives later changes nothing a complete pass
has seen.
-/

namespace Oreshnek

/-! ## Trailers -/

theorem skipTrailers_more {b : Bytes} (h : ¬ crlf <:+: b) : skipTrailers b = none := by
  rw [skipTrailers]
  exact match_find_more h _ _

/-- A trailer line is skipped; the empty line ends them. -/
theorem skipTrailers_line {l : Bytes} (h : ¬ crlf <:+: l) (rest : Bytes) :
    skipTrailers (l ++ crlf ++ rest) = if l = [] then some rest else skipTrailers rest := by
  rw [skipTrailers]
  refine (match_find_line h rfl _ _).trans ?_
  by_cases hl : l = []
  · subst hl
    simp [crlf]
  · rw [if_neg (by simpa using hl), if_neg hl, drop_line]

/-- What `skipTrailers` leaves is a suffix of what it was given. -/
theorem skipTrailers_suffix {b rest : Bytes} (h : skipTrailers b = some rest) : rest <:+ b := by
  induction b using line_induction with
  | stop b hb =>
      rw [skipTrailers_more hb] at h
      cases h
  | line l tail hl ih =>
      rw [skipTrailers_line hl] at h
      have htail : tail <:+ l ++ crlf ++ tail := List.suffix_append _ _
      by_cases hnil : l = []
      · rw [if_pos hnil] at h
        obtain rfl := Option.some.inj h
        exact htail
      · rw [if_neg hnil] at h
        exact (ih h).trans htail

/-- What stands behind the trailers does not change what is skipped. -/
theorem skipTrailers_append {b rest : Bytes} (h : skipTrailers b = some rest) (r : Bytes) :
    skipTrailers (b ++ r) = some (rest ++ r) := by
  induction b using line_induction with
  | stop b hb =>
      rw [skipTrailers_more hb] at h
      cases h
  | line l tail hl ih =>
      rw [skipTrailers_line hl] at h
      rw [List.append_assoc, skipTrailers_line hl]
      by_cases hnil : l = []
      · rw [if_pos hnil] at h ⊢
        rw [Option.some.inj h]
      · rw [if_neg hnil] at h ⊢
        exact ih h

/-! ## Pass 1 -/

theorem scanChunks_more {b : Bytes} (h : ¬ crlf <:+: b) (t : Nat) :
    scanChunks b t = .needMore := by
  rw [scanChunks]
  exact match_find_more h _ _

/-- One turn of pass 1 on a size line. -/
theorem scanChunks_line {l : Bytes} (h : ¬ crlf <:+: l) (rest : Bytes) (t : Nat) :
    scanChunks (l ++ crlf ++ rest) t =
      match parseChunkSize l 0 with
      | (false, _) => .error (lit "Invalid chunk size")
      | (true, sz) =>
          if sz = 0 then
            match skipTrailers rest with
            | none => .needMore
            | some _ => .complete
          else if sizeT (t + sz) > maxBodyBytes then
            .error (lit "Chunked body exceeds maximum allowed size")
          else if rest.length < sizeT (sz + 2) then .needMore
          else scanChunks (rest.drop (sizeT (sz + 2))) (sizeT (t + sz)) := by
  rw [scanChunks]
  refine (match_find_line h rfl _ _).trans ?_
  rewrite [take_line, drop_line]
  rfl

/-! ## Decoding into a separate buffer -/

/-- The chunks decoded into an output of their own: the body and what follows
the last trailer line. -/
def decodeChunks (scan : Bytes) : Option (Bytes × Bytes) :=
  match h : Search.find crlf scan with
  | none => none
  | some eol =>
      let sz := (parseChunkSize (scan.take eol) 0).2
      let data := scan.drop (eol + 2)
      if sz = 0 then (skipTrailers data).map fun rest => ([], rest)
      else if sz < 2 ^ 63 ∧ sz + 2 ≤ data.length then
        (decodeChunks (data.drop (sz + 2))).map fun r => (data.take sz ++ r.1, r.2)
      else none
termination_by scan.length
decreasing_by
  have := drop_line_lt h
  rw [List.length_drop]
  omega

theorem decodeChunks_more {b : Bytes} (h : ¬ crlf <:+: b) : decodeChunks b = none := by
  rw [decodeChunks]
  exact match_find_more h _ _

/-- The decoder at a size line. -/
theorem decodeChunks_line {l : Bytes} (h : ¬ crlf <:+: l) (rest : Bytes) :
    decodeChunks (l ++ crlf ++ rest) =
      if (parseChunkSize l 0).2 = 0 then (skipTrailers rest).map fun r => ([], r)
      else if (parseChunkSize l 0).2 < 2 ^ 63 ∧ (parseChunkSize l 0).2 + 2 ≤ rest.length then
        (decodeChunks (rest.drop ((parseChunkSize l 0).2 + 2))).map fun r =>
          (rest.take (parseChunkSize l 0).2 ++ r.1, r.2)
      else none := by
  rw [decodeChunks]
  refine (match_find_line h rfl _ _).trans ?_
  rw [take_line, drop_line]

/-- The body and the rest are both accounted for by the bytes read. -/
theorem decodeChunks_bounds {b : Bytes} {d : Bytes × Bytes} (h : decodeChunks b = some d) :
    d.2 <:+ b ∧ d.1.length + d.2.length ≤ b.length := by
  induction b using skip_induction generalizing d with
  | stop b hmore =>
      rw [decodeChunks_more hmore] at h
      cases h
  | line l rest hl ih =>
      have hrest : rest <:+ l ++ crlf ++ rest := List.suffix_append _ _
      have hlen := hrest.length_le
      rw [decodeChunks_line hl] at h
      generalize (parseChunkSize l 0).2 = sz at h
      by_cases hzero : sz = 0
      · rw [if_pos hzero, Option.map_eq_some_iff] at h
        obtain ⟨tail, htail, rfl⟩ := h
        have hsuf := skipTrailers_suffix htail
        have hle := hsuf.length_le
        refine ⟨hsuf.trans hrest, ?_⟩
        simp only [List.length_nil]
        omega
      rw [if_neg hzero] at h
      by_cases hfit : sz < 2 ^ 63 ∧ sz + 2 ≤ rest.length
      · rw [if_pos hfit, Option.map_eq_some_iff] at h
        obtain ⟨d', hd', rfl⟩ := h
        obtain ⟨hsuf, hle⟩ := ih (sz + 2) hd'
        refine ⟨(hsuf.trans (List.drop_suffix _ _)).trans hrest, ?_⟩
        simp only [List.length_append, List.length_take, List.length_drop] at hle ⊢
        omega
      · rw [if_neg hfit] at h
        cases h

/-! ## The in-place pass -/

theorem compactChunks_more {mem : Bytes} {cur : Nat} (h : ¬ crlf <:+: mem.drop cur) (out : Nat) :
    compactChunks mem out cur = none := by
  rw [compactChunks]
  exact match_find_more h _ _

/-- One turn of pass 2 on a size line at `cur`. -/
theorem compactChunks_line {mem l rest : Bytes} {cur : Nat} (h : ¬ crlf <:+: l)
    (hmem : mem.drop cur = l ++ crlf ++ rest) (out : Nat) :
    compactChunks mem out cur =
      if (parseChunkSize l 0).2 = 0 then
        match skipTrailers rest with
        | none => none
        | some r => some (mem, out, mem.length - r.length)
      else
        match memmove mem out (cur + (l.length + 2)) (parseChunkSize l 0).2 with
        | none => none
        | some mem' =>
            if cur + (l.length + 2) + sizeT ((parseChunkSize l 0).2 + 2) ≤ mem'.length then
              compactChunks mem' (out + (parseChunkSize l 0).2)
                (cur + (l.length + 2) + sizeT ((parseChunkSize l 0).2 + 2))
            else none := by
  have hrest : mem.drop (cur + (l.length + 2)) = rest := by
    rw [← List.drop_drop, hmem, drop_line]
  have htok : (mem.drop cur).take l.length = l := by rw [hmem, take_line]
  rw [compactChunks]
  refine (match_find_line h hmem _ _).trans ?_
  dsimp only
  generalize hx : (mem.drop cur).take l.length = tok
  rw [htok] at hx
  subst hx
  rw [hrest]
  refine if_congr Iff.rfl rfl ?_
  split
  case h_1 hnone => rw [hnone]
  case h_2 mem' hsome => rw [hsome]

/-- After the move the memory starts with what was decoded so far and the new
chunk; from the end of the chunk on it is as before. -/
theorem memmove_pieces {mem mem' : Bytes} {out src n : Nat} (h : memmove mem out src n = some mem')
    (_hout : out ≤ src) :
    mem'.take (out + n) = mem.take out ++ (mem.drop src).take n ∧
      (∀ k, out + n ≤ k → mem'.drop k = mem.drop k) := by
  unfold memmove at h
  split at h
  case isFalse => cases h
  case isTrue hin =>
    obtain rfl := Option.some.inj h
    have hleft : (mem.take out ++ (mem.drop src).take n).length = out + n := by
      simp only [List.length_append, List.length_take, List.length_drop]
      omega
    constructor
    · rw [← hleft, List.take_left]
    · intro k hk
      have hsplit : k = (mem.take out ++ (mem.drop src).take n).length + (k - (out + n)) := by
        omega
      rw [hsplit, ← List.drop_drop, List.drop_left, List.drop_drop, hleft]

/-- **The in-place pass decodes as the separate one does**: the write position
`out` never passes the read position `cur`, so the size lines read from the
memory being overwritten are those that were sent. -/
theorem compactChunks_eq (mem : Bytes) (out cur : Nat) (hout : out ≤ cur)
    (hcur : cur ≤ mem.length) :
    compactChunks mem out cur = (decodeChunks (mem.drop cur)).map fun r =>
      (mem.take out ++ r.1 ++ mem.drop (out + r.1.length), out + r.1.length,
        mem.length - r.2.length) := by
  by_cases hmore : crlf <:+: mem.drop cur
  swap
  · rw [compactChunks_more hmore, decodeChunks_more hmore]
    rfl
  obtain ⟨l, rest, hl, hmem⟩ := exists_line hmore
  have hlen : mem.length = cur + (l.length + 2) + rest.length := by
    have := congrArg List.length hmem
    simp only [List.length_drop, List.length_append, crlf, List.length_cons,
      List.length_nil] at this
    omega
  have hrest : mem.drop (cur + (l.length + 2)) = rest := by
    rw [← List.drop_drop, hmem, drop_line]
  rw [compactChunks_line hl hmem, hmem, decodeChunks_line hl]
  by_cases hzero : (parseChunkSize l 0).2 = 0
  · -- last chunk: nothing is moved
    rw [if_pos hzero, if_pos hzero]
    cases skipTrailers rest with
    | none => rfl
    | some r => simp
  rw [if_neg hzero, if_neg hzero]
  generalize hsz : (parseChunkSize l 0).2 = sz at hzero
  by_cases hfit : sz < 2 ^ 63 ∧ sz + 2 ≤ rest.length
  · -- the chunk is inside the view
    have hwrap : sizeT (sz + 2) = sz + 2 := Nat.mod_eq_of_lt (by omega)
    obtain ⟨mem', hmove⟩ : ∃ mem', memmove mem out (cur + (l.length + 2)) sz = some mem' := by
      unfold memmove
      rw [if_pos ⟨by omega, by omega, hfit.1⟩]
      exact ⟨_, rfl⟩
    have hlen' := memmove_length hmove
    obtain ⟨htake, hdrop⟩ := memmove_pieces hmove (by omega)
    have hnext : mem'.drop (cur + (l.length + 2) + (sz + 2)) = rest.drop (sz + 2) := by
      rw [hdrop _ (by omega), ← List.drop_drop, hrest]
    rw [hmove, if_pos hfit]
    simp only [hwrap]
    rw [if_pos (by omega), compactChunks_eq mem' _ _ (by omega) (by omega), hnext,
      Option.map_map]
    refine congrArg (fun f => Option.map f _) (funext fun r => ?_)
    have htail : mem'.drop (out + sz + r.1.length) = mem.drop (out + sz + r.1.length) :=
      hdrop _ (by omega)
    have hchunk : (rest.take sz).length = sz := by
      rw [List.length_take]
      omega
    simp only [Function.comp_apply, htail, htake, hrest, hlen']
    simp only [List.length_append, hchunk, List.append_assoc, Nat.add_assoc]
  · -- it is not: both passes are undefined
    rw [if_neg hfit]
    cases hmove : memmove mem out (cur + (l.length + 2)) sz with
    | none => rfl
    | some mem' =>
        have hlen' := memmove_length hmove
        unfold memmove at hmove
        split at hmove
        case isFalse => cases hmove
        case isTrue hin =>
          have hwrap : sizeT (sz + 2) = sz + 2 := Nat.mod_eq_of_lt (by omega)
          have hout' : ¬ cur + (l.length + 2) + sizeT (sz + 2) ≤ mem'.length := by
            rw [hwrap]
            omega
          simp only [if_neg hout']
          rfl
termination_by mem.length - cur
decreasing_by
  omega

/-- `parse_chunked_body` in terms of the separate decoder: the body lies at the
front of what was the chunked text, the rest is untouched. -/
theorem parseChunkedBody_eq (c : Cursor) :
    parseChunkedBody c =
      match scanChunks c.data.bytes 0 with
      | .needMore => some (false, c)
      | .error message => some (false, c.fail message)
      | .complete =>
          (decodeChunks c.data.bytes).map fun d =>
            (true, { c with
              parser := { c.parser with state := .complete }
              data := ⟨c.data.pos + (c.data.length - d.2.length), d.2⟩
              request := { c.request with body := ⟨c.data.pos, d.1⟩ }
              buffer := c.buffer.take c.data.pos ++ (d.1 ++ c.data.bytes.drop d.1.length) }) := by
  unfold parseChunkedBody
  rw [compactChunks_eq _ 0 0 (Nat.le_refl 0) (Nat.zero_le _), List.drop_zero]
  cases scanChunks c.data.bytes 0 with
  | needMore => rfl
  | error message => rfl
  | complete =>
      cases hd : decodeChunks c.data.bytes with
      | none => rfl
      | some d =>
          obtain ⟨hsuf, hle⟩ := decodeChunks_bounds hd
          have hrest : c.data.bytes.drop (c.data.bytes.length - d.2.length) = d.2 :=
            List.suffix_iff_eq_drop.1 hsuf |>.symm
          have htail : (d.1 ++ c.data.bytes.drop d.1.length).drop
              (c.data.bytes.length - d.2.length) = d.2 := by
            have hk : c.data.bytes.length - d.2.length =
                d.1.length + (c.data.bytes.length - d.2.length - d.1.length) := by omega
            rw [hk, ← List.drop_drop, List.drop_left, List.drop_drop, ← hk, hrest]
          simp [htail, StringView.length]

/-- A call that completes has run pass 1 to its end and decoded. -/
theorem parseChunkedBody_done {c c' : Cursor} (h : parseChunkedBody c = some (true, c')) :
    scanChunks c.data.bytes 0 = .complete ∧
      ∃ body tail, decodeChunks c.data.bytes = some (body, tail) ∧
        c'.request.body.bytes = body ∧
        c'.data.pos - c.data.pos = c.data.bytes.length - tail.length := by
  rw [parseChunkedBody_eq] at h
  cases hscan : scanChunks c.data.bytes 0 with
  | needMore =>
      rw [hscan] at h
      cases h
  | error message =>
      rw [hscan] at h
      cases h
  | complete =>
      rw [hscan, Option.map_eq_some_iff] at h
      rcases h with ⟨⟨body, tail⟩, hdecode, heq⟩
      cases heq
      exact ⟨rfl, body, tail, hdecode, rfl, Nat.add_sub_cancel_left _ _⟩

/-! ## Data that arrives later -/

/-- A turn of pass 1 that does not wait for data depends only on the bytes it
has read: more data changes neither the end nor the error. -/
theorem scanChunks_append {b : Bytes} {t : Nat} (h : scanChunks b t ≠ .needMore) (r : Bytes) :
    scanChunks (b ++ r) t = scanChunks b t := by
  induction b using skip_induction generalizing t with
  | stop b hmore =>
      exact absurd (scanChunks_more hmore t) h
  | line l rest hl ih =>
      rw [List.append_assoc, scanChunks_line hl, scanChunks_line hl]
      rw [scanChunks_line hl] at h
      rcases hsize : parseChunkSize l 0 with ⟨ok, sz⟩
      rw [hsize] at h
      cases ok with
      | false => rfl
      | true =>
          by_cases hzero : sz = 0
          · -- the last chunk: the trailers are complete
            simp only [if_pos hzero] at h ⊢
            cases htr : skipTrailers rest with
            | none =>
                rw [htr] at h
                exact absurd rfl h
            | some tail => rw [skipTrailers_append htr]
          by_cases hbig : sizeT (t + sz) > maxBodyBytes
          · simp only [if_neg hzero, if_pos hbig]
          simp only [if_neg hzero, if_neg hbig] at h ⊢
          by_cases hshort : rest.length < sizeT (sz + 2)
          · exact absurd (if_pos hshort) h
          rw [if_neg hshort] at h ⊢
          have hle : sizeT (sz + 2) ≤ rest.length := Nat.le_of_not_lt hshort
          rw [if_neg (by rw [List.length_append]; omega), List.drop_append_of_le_length hle]
          exact ih _ h

/-- What stands behind a decoded body does not change it. -/
theorem decodeChunks_append {b : Bytes} {d : Bytes × Bytes} (h : decodeChunks b = some d)
    (r : Bytes) : decodeChunks (b ++ r) = some (d.1, d.2 ++ r) := by
  induction b using skip_induction generalizing d with
  | stop b hmore =>
      rw [decodeChunks_more hmore] at h
      cases h
  | line l rest hl ih =>
      rw [decodeChunks_line hl] at h
      rw [List.append_assoc, decodeChunks_line hl]
      generalize (parseChunkSize l 0).2 = sz at h
      by_cases hzero : sz = 0
      · rw [if_pos hzero, Option.map_eq_some_iff] at h
        obtain ⟨tail, htail, rfl⟩ := h
        rw [if_pos hzero, skipTrailers_append htail]
        rfl
      rw [if_neg hzero] at h ⊢
      by_cases hfit : sz < 2 ^ 63 ∧ sz + 2 ≤ rest.length
      · rw [if_pos hfit, Option.map_eq_some_iff] at h
        obtain ⟨d', hd', rfl⟩ := h
        have hfit' : sz < 2 ^ 63 ∧ sz + 2 ≤ (rest ++ r).length := by
          rw [List.length_append]
          exact ⟨hfit.1, by omega⟩
        rw [if_pos hfit', List.drop_append_of_le_length hfit.2, ih _ hd',
          List.take_append_of_le_length (by omega)]
        rfl
      · rw [if_neg hfit] at h
        cases h

/-- Where pass 1 accepts and pass 2 leaves the view, it leaves the view however
much more has arrived: the chunk size is one that no object has. -/
theorem decodeChunks_none_append {b : Bytes} {t : Nat} (hs : scanChunks b t = .complete)
    (h : decodeChunks b = none) (r : Bytes) : decodeChunks (b ++ r) = none := by
  induction b using skip_induction generalizing t with
  | stop b hmore =>
      rw [scanChunks_more hmore] at hs
      cases hs
  | line l rest hl ih =>
      rw [scanChunks_line hl] at hs
      rw [decodeChunks_line hl] at h
      rw [List.append_assoc, decodeChunks_line hl]
      rcases hsize : parseChunkSize l 0 with ⟨ok, sz⟩
      rw [hsize] at hs h
      cases ok with
      | false => cases hs
      | true =>
          simp only at hs h ⊢
          by_cases hzero : sz = 0
          · rw [if_pos hzero] at hs h
            cases htr : skipTrailers rest with
            | none =>
                rw [htr] at hs
                cases hs
            | some tail =>
                rw [htr] at h
                cases h
          rw [if_neg hzero] at hs h ⊢
          by_cases hbig : sizeT (t + sz) > maxBodyBytes
          · rw [if_pos hbig] at hs
            cases hs
          rw [if_neg hbig] at hs
          by_cases hshort : rest.length < sizeT (sz + 2)
          · rw [if_pos hshort] at hs
            cases hs
          rw [if_neg hshort] at hs
          by_cases hhuge : sz < 2 ^ 63
          · have hwrap : sizeT (sz + 2) = sz + 2 := Nat.mod_eq_of_lt (by omega)
            rw [hwrap] at hs hshort
            have hle : sz + 2 ≤ rest.length := Nat.le_of_not_lt hshort
            rw [if_pos ⟨hhuge, hle⟩, Option.map_eq_none_iff] at h
            rw [if_pos ⟨hhuge, by rw [List.length_append]; omega⟩,
              List.drop_append_of_le_length hle, ih _ hs h]
            rfl
          · rw [if_neg fun hf => hhuge hf.1]

end Oreshnek
