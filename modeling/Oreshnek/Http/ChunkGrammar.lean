import Oreshnek.Http.ChunkPasses
import Oreshnek.Http.Wire

/-!
# The chunked bodies the decoder accepts

`ChunkedWord` is the grammar of a chunked body. The decoder skips two bytes
behind the data of a chunk without reading them, and cuts blanks off behind the
digits of a size. So an accepted body is a word of the grammar exactly where
these two bytes are a CRLF and there are no such blanks (`chunked_word_iff`).
-/

namespace Oreshnek

/-- The grammar: chunks, the last chunk with its trailers, a blank line; and the
body it stands for. -/
def ChunkedWord (w body : Bytes) : Prop :=
  ∃ (cs : List Chunk) (e : LastChunk), w = encodeChunks cs ++ e.encode ∧ body = chunksData cs

/-! ## The token of a size line -/

/-- The digit loop gets through hex digits only. -/
theorem hex_of_digits {ds : Bytes} {acc : Nat} (h : (parseChunkSize.digits ds acc).1 = true) :
    ∀ d ∈ ds, (hexDigit d).isSome := by
  induction ds generalizing acc with
  | nil =>
      intro d hd
      cases hd
  | cons c ds ih =>
      cases hc : hexDigit c with
      | none =>
          -- none of the three ranges: the loop ends here
          exfalso
          unfold hexDigit at hc
          rw [parseChunkSize.digits] at h
          split at hc
          case isTrue => cases hc
          case isFalse h1 =>
            split at hc
            case isTrue => cases hc
            case isFalse h2 =>
              split at hc
              case isTrue => cases hc
              case isFalse h3 =>
                rw [if_neg h1, if_neg h2, if_neg h3] at h
                cases h
      | some n =>
          rw [digits_cons hc] at h
          intro d hd
          rcases List.mem_cons.1 hd with rfl | hd
          · rw [hc]
            rfl
          · exact ih h d hd

/-- A line the decoder takes a size from holds hex digits. -/
theorem sizeToken_hex {l : Bytes} {out : Nat} (h : (parseChunkSize l out).1 = true) :
    sizeToken l ≠ [] ∧ ∀ d ∈ sizeToken l, (hexDigit d).isSome := by
  rw [parseChunkSize_token] at h
  by_cases hnil : (sizeToken l).isEmpty = true
  · rw [if_pos hnil] at h
    cases h
  · rw [if_neg hnil] at h
    exact ⟨by simpa using hnil, hex_of_digits h⟩

/-- The size read off a line is the number its token stands for, if that fits. -/
theorem parseChunkSize_value {l : Bytes} (h : (parseChunkSize l 0).1 = true)
    (hlt : hexValue 0 (sizeToken l) < 2 ^ 64) :
    (parseChunkSize l 0).2 = hexValue 0 (sizeToken l) := by
  rcases sizeToken_hex h with ⟨hne, hhex⟩
  rw [parseChunkSize_token, if_neg (by simpa using hne), digits_hexValue hhex hlt]

/-- A line is the text in front of its extension, and the extension. -/
theorem line_split (l : Bytes) :
    ∃ extension, l = beforeExtension l ++ extension ∧
      (extension = [] ∨ ∃ e, extension = 59 :: e) := by
  unfold beforeExtension
  cases hsemi : Search.find (lit ";") l with
  | none => exact ⟨[], (List.append_nil l).symm, Or.inl rfl⟩
  | some i =>
      refine ⟨59 :: l.drop (i + 1), ?_, Or.inr ⟨_, rfl⟩⟩
      have hsplit := Search.find_split hsemi
      rw [List.append_assoc] at hsplit
      exact hsplit

/-- A line the decoder takes a size from, with no blank in front of the
extension, is a size line of the grammar. -/
theorem exists_sizeLine {l : Bytes} (hl : ¬ crlf <:+: l) (hok : (parseChunkSize l 0).1 = true)
    (hplain : sizeToken l = beforeExtension l) :
    ∃ s : SizeLine, s.line = l ∧ s.size = hexValue 0 (sizeToken l) := by
  rcases sizeToken_hex hok with ⟨hne, hhex⟩
  rcases line_split l with ⟨extension, hsplit, hstart⟩
  have hext : extension = [] ∨ ∃ e, extension = 59 :: e ∧ ¬ crlf <:+: e := by
    rcases hstart with hnil | ⟨e, he⟩
    · exact Or.inl hnil
    · refine Or.inr ⟨e, he, fun hcrlf => hl ?_⟩
      have hsuffix : e <:+ l := by
        rw [hsplit, he]
        exact (List.suffix_cons 59 e).trans (List.suffix_append _ _)
      exact hcrlf.trans hsuffix.isInfix
  refine ⟨⟨sizeToken l, extension, hne, hhex, hext⟩, ?_, rfl⟩
  show sizeToken l ++ extension = l
  rw [hplain]
  exact hsplit.symm

/-! ## Trailers -/

/-- What the trailer loop has skipped: lines, and the blank one. -/
theorem exists_trailers {b tail : Bytes} (h : skipTrailers b = some tail) :
    ∃ ts : List Bytes, (∀ t ∈ ts, t ≠ [] ∧ ¬ crlf <:+: t) ∧
      b = (ts.flatMap fun t => t ++ crlf) ++ (crlf ++ tail) := by
  induction b using line_induction with
  | stop b hb =>
      rw [skipTrailers_more hb] at h
      cases h
  | line l rest hl ih =>
      rw [skipTrailers_line hl] at h
      by_cases hnil : l = []
      · -- the blank line
        rw [if_pos hnil] at h
        obtain rfl := Option.some.inj h
        refine ⟨[], ?_, ?_⟩
        · intro t ht
          cases ht
        · rw [hnil]
          rfl
      · -- a trailer line, and what is skipped behind it
        rw [if_neg hnil] at h
        rcases ih h with ⟨ts, hts, hrest⟩
        refine ⟨l :: ts, ?_, ?_⟩
        · intro t ht
          rcases List.mem_cons.1 ht with rfl | ht
          · exact ⟨hnil, hl⟩
          · exact hts t ht
        · rw [hrest]
          simp

/-! ## What is read is a word -/

/-- The grammar asks of a size line, with what follows it, that no blank stands
behind the digits and that a CRLF ends the data. -/
structure Strict (p : Bytes × Bytes) : Prop where
  plain : sizeToken p.1 = beforeExtension p.1
  ended : (parseChunkSize p.1 0).2 ≠ 0 → (p.2.drop (parseChunkSize p.1 0).2).take 2 = crlf

/-- Strict size lines that pass 1 accepts are those of a word of the grammar. -/
theorem word_of_scan {b : Bytes} {t : Nat} {sizes : List Nat} {tail : Bytes}
    (hrun : acceptedScan b t = some (sizes, tail))
    (hvalue : ∀ p ∈ sizeLines b, hexValue 0 (sizeToken p.1) ≤ maxBodyBytes)
    (hstrict : ∀ p ∈ sizeLines b, Strict p) :
    ∃ (cs : List Chunk) (e : LastChunk), b = encodeChunks cs ++ (e.encode ++ tail) ∧
      (chunksData cs).length = sizes.sum := by
  have hmax := maxBodyBytes_lt
  induction hrun using accepted_induction with
  | last l rest t hl hok hzero htail hrun =>
      rw [sizeLines_line hl, if_neg (by simp [hok]), if_pos hzero] at hvalue hstrict
      have hmem : (l, rest) ∈ [(l, rest)] := List.mem_singleton_self _
      have hsmall : hexValue 0 (sizeToken l) ≤ maxBodyBytes := hvalue _ hmem
      rcases exists_sizeLine hl hok (hstrict _ hmem).plain with ⟨s, hline, hsize⟩
      rcases exists_trailers htail with ⟨ts, hts, hrest⟩
      have hszero : s.size = 0 := by
        rw [hsize, ← parseChunkSize_value hok (by omega)]
        exact hzero
      refine ⟨[], ⟨s, hszero, ts, hts⟩, ?_, rfl⟩
      rw [hrest]
      show _ = (⟨s, hszero, ts, hts⟩ : LastChunk).encode ++ tail
      rw [last_split, hline]
  | chunk l rest t sizes hl hok hne htot hfit hnext hrun ih =>
      -- its data and the CRLF behind it
      rw [sizeLines_line hl, if_neg (by simp [hok]), if_neg hne] at hvalue hstrict
      have hsmall : hexValue 0 (sizeToken l) ≤ maxBodyBytes := hvalue _ List.mem_cons_self
      have hsz : (parseChunkSize l 0).2 = hexValue 0 (sizeToken l) :=
        parseChunkSize_value hok (by omega)
      rcases exists_sizeLine hl hok (hstrict _ List.mem_cons_self).plain with ⟨s, hline, hsize⟩
      have hended := (hstrict _ List.mem_cons_self).ended hne
      rw [← hsz] at hsize hsmall
      dsimp only at hended
      have hvalue := fun p hp => hvalue p (List.mem_cons_of_mem _ hp)
      have hstrict := fun p hp => hstrict p (List.mem_cons_of_mem _ hp)
      generalize (parseChunkSize l 0).2 = sz at hne hfit ih hvalue hstrict hended hsize hsmall
      have hwrap : sizeT (sz + 2) = sz + 2 := Nat.mod_eq_of_lt (by omega)
      rw [hwrap] at hfit ih
      rcases ih hvalue hstrict with ⟨cs, e, hlater, hcount⟩
      have hdata : (rest.take sz).length = sz := by
        rw [List.length_take]
        omega
      have hdne : rest.take sz ≠ [] := by
        intro hnil
        rw [hnil] at hdata
        exact hne hdata.symm
      refine ⟨⟨s, rest.take sz, hdne, by rw [hsize, hdata]⟩ :: cs, e, ?_, ?_⟩
      · have hrest : rest = rest.take sz ++ crlf ++ rest.drop (sz + 2) := by
          rw [← hended, ← List.drop_drop, List.append_assoc, List.take_append_drop,
            List.take_append_drop]
        rw [chunk_split]
        show l ++ crlf ++ rest =
          s.line ++ crlf ++ (rest.take sz ++ crlf ++ (encodeChunks cs ++ (e.encode ++ tail)))
        rw [← hlater, hline, ← hrest]
      · show (rest.take sz ++ chunksData cs).length = (sz :: sizes).sum
        rw [List.length_append, hdata, hcount, List.sum_cons]

/-- The size lines of a word are strict. -/
theorem strict_of_word (cs : List Chunk) (e : LastChunk) (tail : Bytes)
    (h : (chunksData cs).length ≤ maxBodyBytes) :
    ∀ p ∈ sizeLines (encodeChunks cs ++ (e.encode ++ tail)), Strict p := by
  have hmax := maxBodyBytes_lt
  -- chunk by chunk, each on a line of its own
  induction cs with
  | nil =>
      have hsize : e.head.size < 2 ^ 64 := by rw [e.size_zero]; decide
      have hread := e.head.parseChunkSize_line hsize 0
      intro p hp
      rw [show encodeChunks [] ++ (e.encode ++ tail) = e.encode ++ tail from rfl, last_split,
        sizeLines_line e.head.line_crlf, hread, if_neg Bool.noConfusion, if_pos e.size_zero,
        List.mem_singleton] at hp
      rw [hp]
      constructor
      · rw [e.head.sizeToken_line, e.head.beforeExtension_line]
      · intro hne
        exact absurd (by rw [hread]; exact e.size_zero) hne
  | cons c cs ih =>
      have hdata : (chunksData (c :: cs)).length = c.data.length + (chunksData cs).length := by
        simp [chunksData]
      have hpos : 0 < c.data.length := List.length_pos_iff.2 c.data_ne
      have hsize : c.head.size < 2 ^ 64 := by rw [c.data_size]; omega
      have hread := c.head.parseChunkSize_line hsize 0
      have hne : c.head.size ≠ 0 := by rw [c.data_size]; omega
      intro p hp
      rw [chunk_split, sizeLines_line c.head.line_crlf, hread, if_neg Bool.noConfusion,
        if_neg hne] at hp
      rcases List.mem_cons.1 hp with rfl | hp
      · constructor
        · rw [c.head.sizeToken_line, c.head.beforeExtension_line]
        · intro _
          rw [hread]
          show ((c.data ++ crlf ++ _).drop c.head.size).take 2 = crlf
          rw [c.data_size, List.append_assoc, List.drop_left]
          rfl
      · refine ih (by omega) p ?_
        rwa [c.data_size, drop_chunk] at hp

/-- **An accepted body is a word of the grammar exactly where its size lines are
strict**: a CRLF behind the data of every chunk, and no blank behind a size. -/
theorem chunked_word_iff {c c' : Cursor} (hrun : parseChunkedBody c = some (true, c'))
    (hvalue : ∀ p ∈ sizeLines c.data.bytes, hexValue 0 (sizeToken p.1) ≤ maxBodyBytes) :
    ChunkedWord (c.data.bytes.take (c'.data.pos - c.data.pos)) c'.request.body.bytes ↔
      ∀ p ∈ sizeLines c.data.bytes, Strict p := by
  have hmax := maxBodyBytes_lt
  rcases parseChunkedBody_done hrun with ⟨hscan, body, tail, hdecode, hbody, hpos⟩
  rcases exists_acceptedScan hscan with ⟨tail', hscanned⟩
  -- the values are small, so the sizes are what the tokens stand for
  have hsizes : ∀ sz ∈ chunkSizes c.data.bytes, sz ≤ maxBodyBytes := by
    intro sz hsz
    rcases List.mem_map.1 hsz with ⟨p, hp, rfl⟩
    have hp' := hvalue p hp
    rw [parseChunkSize_value (sizeLines_ok p hp) (by omega)]
    exact hp'
  have hfollows := acceptedScan_follows hscanned fun sz hsz => by
    have := hsizes sz hsz
    omega
  rcases acceptedScan_exact (Nat.zero_le _) hscanned (by rwa [hfollows]) with
    ⟨-, htotal, body', hdecode', hcount⟩
  rw [hdecode] at hdecode'
  cases hdecode'
  rcases decodeChunks_bounds hdecode with ⟨⟨front, hfront⟩, -⟩
  have hfront' : front ++ tail = c.data.bytes := hfront
  have hconsumed : c.data.bytes.take (c'.data.pos - c.data.pos) = front := by
    rw [hpos, ← hfront']
    exact List.take_left' (by simp)
  rw [hconsumed, hbody]
  constructor
  · intro h
    rcases h with ⟨cs, e, hword, hdata⟩
    have hsmall : (chunksData cs).length ≤ maxBodyBytes := by
      rw [← hdata, hcount]
      omega
    rw [← hfront', hword, List.append_assoc]
    exact strict_of_word cs e tail hsmall
  · intro h
    rcases word_of_scan hscanned hvalue h with ⟨cs, e, hword, hlength⟩
    have hsmall : (chunksData cs).length ≤ maxBodyBytes := by
      rw [hlength]
      omega
    have hdata := decodeChunks_chunks cs e tail hsmall
    rw [← hword, hdecode] at hdata
    refine ⟨cs, e, ?_, by cases hdata; rfl⟩
    rw [← hfront', ← List.append_assoc] at hword
    exact List.append_cancel_right hword

/-- One chunk of one byte. -/
theorem chunked_word_one_chunk :
    ∃ c', parseChunkedBody (.start (lit "1\r\nA\r\n0\r\n\r\n")) = some (true, c') ∧
      (ChunkedWord ((lit "1\r\nA\r\n0\r\n\r\n").take (c'.data.pos - 0)) c'.request.body.bytes ↔
        ∀ p ∈ sizeLines (lit "1\r\nA\r\n0\r\n\r\n"), Strict p) := by
  have hdone : (parseChunkedBody (.start (lit "1\r\nA\r\n0\r\n\r\n"))).map Prod.fst =
      some true := by
    decide +kernel
  rcases Option.map_eq_some_iff.1 hdone with ⟨⟨done, c'⟩, hrun, rfl⟩
  exact ⟨c', hrun, chunked_word_iff hrun (by decide +kernel)⟩

/-- Two bytes that are no CRLF stand behind the data: the decoder completes, on
bytes that are no word of the grammar. -/
theorem unterminated_chunk_accepted :
    (∀ p ∈ sizeLines (lit "1\r\nAXX0\r\n\r\n"), hexValue 0 (sizeToken p.1) ≤ maxBodyBytes) ∧
      ∃ c', parseChunkedBody (.start (lit "1\r\nAXX0\r\n\r\n")) = some (true, c') ∧
        ¬ ChunkedWord ((lit "1\r\nAXX0\r\n\r\n").take (c'.data.pos - 0))
          c'.request.body.bytes := by
  have hdone : (parseChunkedBody (.start (lit "1\r\nAXX0\r\n\r\n"))).map
      (fun r => (r.1, r.2.data.pos, r.2.request.body.bytes)) = some (true, 11, lit "A") := by
    decide +kernel
  rcases Option.map_eq_some_iff.1 hdone with ⟨⟨done, c'⟩, hrun, heq⟩
  simp only [Prod.mk.injEq] at heq
  rcases heq with ⟨rfl, hpos, hbody⟩
  refine ⟨by decide +kernel, c', hrun, ?_⟩
  rw [hpos, hbody]
  intro h
  rcases h with ⟨cs, e, hword, hdata⟩
  have hstrict := strict_of_word cs e [] (by rw [← hdata]; decide)
  rw [List.append_nil, ← hword] at hstrict
  have hmem : (lit "1", lit "AXX0\r\n\r\n") ∈
      sizeLines ((lit "1\r\nAXX0\r\n\r\n").take (11 - 0)) := by
    decide +kernel
  exact absurd ((hstrict _ hmem).ended (by decide +kernel)) (by decide +kernel)

end Oreshnek
