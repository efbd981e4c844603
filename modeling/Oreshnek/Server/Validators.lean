import Oreshnek.Lib.Quoted
import Oreshnek.Server.Ranges

/-!
# Entity tags

`make_etag` writes the size and the time of a file in base 16, and `apply_http_semantics`
looks for the tag of the file anywhere in `If-None-Match`. The two numbers can be read back
from the tag (`etagBody_injective`), and a tag can only be found at one of the tags of a list
(`etag_in_list`): what stands between two of them is never one.
-/

namespace Oreshnek

/-! ## Numbers in base 16 -/

/-- A digit of `%llx`. -/
def hexByte (d : Nat) : UInt8 := UInt8.ofNat (if d < 10 then 48 + d else 87 + d)

theorem toHex_small {n : Nat} (h : n < 16) : toHex n = [hexByte n] := by
  rw [toHex]
  exact if_pos h

theorem toHex_large {n : Nat} (h : ¬ n < 16) :
    toHex n = toHex (n / 16) ++ [hexByte (n % 16)] := by
  rw [toHex]
  exact if_neg h

theorem toHex_ne_nil (n : Nat) : toHex n ≠ [] := by
  by_cases h : n < 16
  · rw [toHex_small h]
    exact List.cons_ne_nil _ _
  · rw [toHex_large h]
    exact List.append_ne_nil_of_right_ne_nil _ (List.cons_ne_nil _ _)

/-- A hexadecimal number is made of hexadecimal digits. -/
theorem mem_toHex {n : Nat} {c : UInt8} (h : c ∈ toHex n) : ∃ d < 16, c = hexByte d := by
  induction n using Nat.strong_induction_on with
  | _ n ih =>
  by_cases hsmall : n < 16
  · rw [toHex_small hsmall] at h
    exact ⟨n, hsmall, List.mem_singleton.1 h⟩
  · rw [toHex_large hsmall] at h
    rcases List.mem_append.1 h with hin | hin
    · exact ih (n / 16) (by omega) hin
    · exact ⟨n % 16, Nat.mod_lt _ (by decide), List.mem_singleton.1 hin⟩

theorem hexByte_injective {d e : Nat} (hd : d < 16) (he : e < 16)
    (h : hexByte d = hexByte e) : d = e := by
  have hall : ∀ d < 16, ∀ e < 16, hexByte d = hexByte e → d = e := by decide
  exact hall d hd e he h

/-- Different numbers have different digits. -/
theorem toHex_injective {m n : Nat} (h : toHex m = toHex n) : m = n := by
  induction m using Nat.strong_induction_on generalizing n with
  | _ m ih =>
  by_cases hm : m < 16
  · by_cases hn : n < 16
    · rw [toHex_small hm, toHex_small hn] at h
      exact hexByte_injective hm hn (List.cons.inj h).1
    · -- one digit is not two
      rw [toHex_small hm, toHex_large hn] at h
      have hlength := congrArg List.length h
      have hpos := List.length_pos_iff.2 (toHex_ne_nil (n / 16))
      simp only [List.length_append, List.length_singleton] at hlength
      omega
  · by_cases hn : n < 16
    · rw [toHex_large hm, toHex_small hn] at h
      have hlength := congrArg List.length h
      have hpos := List.length_pos_iff.2 (toHex_ne_nil (m / 16))
      simp only [List.length_append, List.length_singleton] at hlength
      omega
    · rw [toHex_large hm, toHex_large hn] at h
      obtain ⟨hhigh, hlow⟩ := List.append_inj' h rfl
      have hdiv : m / 16 = n / 16 := ih (m / 16) (by omega) hhigh
      have hmod : m % 16 = n % 16 :=
        hexByte_injective (Nat.mod_lt _ (by decide)) (Nat.mod_lt _ (by decide))
          (List.cons.inj hlow).1
      omega

/-! ## Tags -/

/-- The fields are 64-bit numbers. -/
structure Stat.Fits (st : Stat) : Prop where
  size_ge : -2 ^ 63 ≤ st.size
  size_lt : st.size < 2 ^ 63
  mtime_ge : -2 ^ 63 ≤ st.mtime
  mtime_lt : st.mtime < 2 ^ 63

/-- What a tag has between its quotes. -/
def etagBody (st : Stat) : Bytes :=
  toHex (st.size % 2 ^ 64).toNat ++ 45 :: toHex (st.mtime % 2 ^ 64).toNat

theorem makeEtag_eq (st : Stat) : makeEtag st = Quoted.quoted 34 (etagBody st) := by
  have hquote : lit "\"" = [34] := by decide
  have hdash : lit "-" = [45] := by decide
  unfold makeEtag Quoted.quoted etagBody
  rw [hquote, hdash]
  simp

/-- A tag holds digits and a dash. -/
theorem not_mem_etagBody {c : UInt8} (hdash : c ≠ 45) (hc : ∀ d < 16, c ≠ hexByte d)
    (st : Stat) : c ∉ etagBody st := by
  intro h
  rcases List.mem_append.1 h with hin | hin
  · obtain ⟨d, hd, hbyte⟩ := mem_toHex hin
    exact hc d hd hbyte
  · rcases List.mem_cons.1 hin with heq | hin
    · exact hdash heq
    · obtain ⟨d, hd, hbyte⟩ := mem_toHex hin
      exact hc d hd hbyte

theorem dash_not_mem_toHex (n : Nat) : (45 : UInt8) ∉ toHex n := by
  intro h
  obtain ⟨d, hd, hbyte⟩ := mem_toHex h
  have hall : ∀ d < 16, (45 : UInt8) ≠ hexByte d := by decide
  exact hall d hd hbyte

/-- A tag tells the size and the time. -/
theorem etagBody_injective {s t : Stat} (hs : s.Fits) (ht : t.Fits)
    (h : etagBody s = etagBody t) : s = t := by
  obtain ⟨hsize, hmtime⟩ :=
    (Quoted.append_cons_inj (dash_not_mem_toHex _) (dash_not_mem_toHex _)).1 h
  -- an unsigned number determines the signed one
  have hsigned : ∀ a b : Int, -2 ^ 63 ≤ a → a < 2 ^ 63 → -2 ^ 63 ≤ b → b < 2 ^ 63 →
      (a % 2 ^ 64).toNat = (b % 2 ^ 64).toNat → a = b := by
    intro a b _ _ _ _ hsame
    omega
  have hsizes := hsigned _ _ hs.size_ge hs.size_lt ht.size_ge ht.size_lt (toHex_injective hsize)
  have hmtimes :=
    hsigned _ _ hs.mtime_ge hs.mtime_lt ht.mtime_ge ht.mtime_lt (toHex_injective hmtime)
  cases s
  cases t
  exact congrArg₂ Stat.mk hsizes hmtimes

/-! ## Lists of tags -/

/-- The mark of a weak tag. -/
def weakMark (weak : Bool) : Bytes := if weak then lit "W/" else []

/-- A tag as a client sends it back. -/
def tagText (t : Bool × Stat) : Bytes := weakMark t.1 ++ makeEtag t.2

/-- A list of tags in `If-None-Match`. -/
def tagList (tags : List (Bool × Stat)) : Bytes := (lit ", ").intercalate (tags.map tagText)

/-- What stands before each tag of the list, and the tag. -/
def tagPieces : List (Bool × Stat) → List (Bytes × Bytes)
  | [] => []
  | t :: ts =>
      (weakMark t.1, etagBody t.2) :: ts.map fun t => (lit ", " ++ weakMark t.1, etagBody t.2)

theorem tagPieces_cons (t : Bool × Stat) (ts : List (Bool × Stat)) :
    tagPieces (t :: ts) = (weakMark t.1, etagBody t.2) ::
      ts.map fun t => (lit ", " ++ weakMark t.1, etagBody t.2) := rfl

theorem tagPieces_parts (tags : List (Bool × Stat)) :
    (tagPieces tags).map Prod.snd = tags.map fun t => etagBody t.2 := by
  cases tags with
  | nil => rfl
  | cons t ts =>
      rw [tagPieces_cons, List.map_cons, List.map_map]
      rfl

/-- A list of tags consists of quoted pieces. -/
theorem tagList_eq (tags : List (Bool × Stat)) :
    tagList tags = Quoted.pieces 34 (tagPieces tags) := by
  induction tags with
  | nil => rfl
  | cons t ts ih =>
      have htext : tagText t =
          weakMark t.1 ++ 34 :: (etagBody t.2 ++ 34 :: ([] : Bytes)) := by
        unfold tagText
        rw [makeEtag_eq]
        rfl
      cases ts with
      | nil =>
          rw [tagPieces_cons, Quoted.pieces_cons]
          show (lit ", ").intercalate [tagText t] = _
          rw [List.intercalate_singleton, htext]
          rfl
      | cons t' ts =>
          have hrest : tagList (t :: t' :: ts) =
              tagText t ++ lit ", " ++ tagList (t' :: ts) := by
            unfold tagList
            rw [List.map_cons, List.map_cons, List.intercalate_cons_cons]
          rw [hrest, ih, htext]
          simp only [tagPieces_cons, List.map_cons, Quoted.pieces_cons, List.append_assoc,
            List.cons_append, List.nil_append]

/-- A tag is found in a list exactly when it is one of its tags. -/
theorem etag_in_list {st : Stat} (hst : st.Fits) {tags : List (Bool × Stat)}
    (htags : ∀ t ∈ tags, t.2.Fits) :
    makeEtag st <:+: tagList tags ↔ ∃ t ∈ tags, t.2 = st := by
  have hquote : ∀ s, (34 : UInt8) ∉ etagBody s := not_mem_etagBody (by decide) (by decide)
  have hcomma : ∀ s, (44 : UInt8) ∉ etagBody s := not_mem_etagBody (by decide) (by decide)
  have hweak : ∀ weak, (34 : UInt8) ∉ weakMark weak := by decide
  have hsep : ∀ weak, (34 : UInt8) ∉ lit ", " ++ weakMark weak := by decide
  have hparts : ∀ p ∈ tagPieces tags, 34 ∉ p.1 ∧ 34 ∉ p.2 := by
    intro p hp
    cases tags with
    | nil => cases hp
    | cons t ts =>
        rcases List.mem_cons.1 hp with rfl | hp
        · exact ⟨hweak _, hquote _⟩
        · obtain ⟨t', -, rfl⟩ := List.mem_map.1 hp
          exact ⟨hsep _, hquote _⟩
  -- what stands between two tags has a comma, a tag has none
  have hgaps : ∀ p ∈ (tagPieces tags).tail, p.1 ≠ etagBody st := by
    intro p hp heq
    cases tags with
    | nil => cases hp
    | cons t ts =>
        obtain ⟨t', -, rfl⟩ := List.mem_map.1 hp
        refine hcomma st ?_
        rw [← heq]
        exact List.mem_append_left _ (by decide)
  rw [makeEtag_eq, tagList_eq, Quoted.quoted_infix_pieces (hquote st) hparts hgaps]
  have hbodies : (∃ p ∈ tagPieces tags, p.2 = etagBody st) ↔
      ∃ t ∈ tags, etagBody t.2 = etagBody st := by
    rw [← List.mem_map, tagPieces_parts, List.mem_map]
  rw [hbodies]
  constructor
  · rintro ⟨t, ht, hsame⟩
    exact ⟨t, ht, etagBody_injective (htags t ht) hst hsame⟩
  · rintro ⟨t, ht, rfl⟩
    exact ⟨t, ht, rfl⟩

/-- A list of tags is not `*`. -/
theorem tagList_ne_any (tags : List (Bool × Stat)) : tagList tags ≠ lit "*" := by
  intro h
  cases tags with
  | nil => exact absurd h (by decide)
  | cons t ts =>
      have hin : (34 : UInt8) ∈ tagList (t :: ts) := by
        rw [tagList_eq]
        unfold tagPieces
        rw [Quoted.pieces_cons]
        exact List.mem_append_right _ List.mem_cons_self
      rw [h] at hin
      exact absurd hin (by decide)

/-! ## Revalidation -/

/-- A 304 without a body. -/
structure Revalidated (res' : HttpResponse) : Prop where
  status : res'.status = .notModified
  headOnly : res'.headOnly = true
  fileOffset : res'.fileOffset = 0
  fileLength : res'.fileLength = 0
  contentLength : res'.headers.lookup (lit "Content-Length") = some (lit "0")

theorem unchanged_revalidated (res : HttpResponse) : Revalidated res.unchanged where
  status := rfl
  headOnly := rfl
  fileOffset := rfl
  fileLength := rfl
  contentLength := header_lookup _ _ _

/-- The range code makes no 304. -/
theorem applyRange_status {req : HttpRequest} {res : HttpResponse} {st : Stat}
    (h : (applyRange req (res.looked req st) st.size).status = .notModified) :
    res.status = .notModified := by
  rcases applyRange_outcome req res st with hwhole | hnone | ⟨start, stop, -, -, -, hrange⟩
  · exact hwhole.status.symm.trans h
  · exact absurd (hnone.status.symm.trans h) (by decide)
  · exact absurd (hrange.status.symm.trans h) (by decide)

/-- A list of tags that were issued is met by the tag of the file alone. -/
theorem notModified_list {req : HttpRequest} {st : Stat} (hst : st.Fits)
    {tags : List (Bool × Stat)} (htags : ∀ t ∈ tags, t.2.Fits) {inm : StringView}
    (hmatch : req.header (lit "If-None-Match") = some inm) (hlist : inm.bytes = tagList tags) :
    notModified req st = true ↔ ∃ t ∈ tags, t.2 = st := by
  have hany : decide (inm.bytes = lit "*") = false := by
    rw [hlist]
    exact decide_eq_false (tagList_ne_any tags)
  have hfound : (inm.find (makeEtag st)).isSome = true ↔ makeEtag st <:+: tagList tags := by
    unfold StringView.find
    rw [hlist, ← not_iff_not, ← Search.find_eq_none_iff]
    simp
  unfold notModified
  rw [hmatch]
  dsimp only
  rw [hany, Bool.false_or, hfound, etag_in_list hst htags]

/-- **Revalidation.** A GET or HEAD with a list of tags the server has issued, weak or not, is
answered by a 304 without a body when the file is in one of the listed states, and only then:
a 304 is the handler's own otherwise. Nothing else of the request but `Range` matters, in
particular not `If-Modified-Since`. -/
theorem etag_list_revalidates {stat : Bytes → Option Stat} {req : HttpRequest}
    {res : HttpResponse} {st : Stat} {tags : List (Bool × Stat)} {inm : StringView}
    (hmethod : req.method = .get ∨ req.method = .head) (hfile : res.isFile = true)
    (hstat : stat res.filePath = some st) (hst : st.Fits) (htags : ∀ t ∈ tags, t.2.Fits)
    (hmatch : req.header (lit "If-None-Match") = some inm) (hlist : inm.bytes = tagList tags) :
    ((∃ t ∈ tags, t.2 = st) → Revalidated (applyHttpSemantics stat req res)) ∧
      ((applyHttpSemantics stat req res).status = .notModified →
        (∃ t ∈ tags, t.2 = st) ∨ res.status = .notModified) ∧
      ∀ req' : HttpRequest, req'.method = req.method →
        req'.header (lit "If-None-Match") = some inm →
        req'.header (lit "Range") = req.header (lit "Range") →
        applyHttpSemantics stat req' res = applyHttpSemantics stat req res := by
  have hlisted := notModified_list hst htags hmatch hlist
  rw [applyHttpSemantics_file hfile hstat]
  refine ⟨?_, ?_, ?_⟩
  · intro hin
    rw [if_pos ⟨hmethod, hlisted.2 hin⟩]
    exact unchanged_revalidated _
  · intro hstatus
    by_cases hin : ∃ t ∈ tags, t.2 = st
    · exact Or.inl hin
    · rw [if_neg fun h => hin (hlisted.1 h.2)] at hstatus
      exact Or.inr (applyRange_status hstatus)
  · intro req' hsame hmatch' hrange
    have hlooked : res.looked req' st = res.looked req st := by
      unfold HttpResponse.looked
      rw [hsame]
    have hasked : req'.rangeAsked = req.rangeAsked := by
      unfold HttpRequest.rangeAsked
      rw [hrange]
    have hcond : notModified req' st = notModified req st := by
      unfold notModified
      rw [hmatch', hmatch]
    have hsafe : req'.Safe = req.Safe := by
      unfold HttpRequest.Safe
      rw [hsame]
    rw [applyHttpSemantics_file hfile hstat, hlooked, hcond, applyRange_eq, applyRange_eq,
      hasked]
    simp only [hsafe]

/-- The tags of two states of a file, the first one weak. -/
def twoTags : List (Bool × Stat) := [(true, ⟨5, 0⟩), (false, ⟨6, 1⟩)]

/-- A list of two tags, one of them weak. -/
theorem etag_list_revalidates_weak :
    Revalidated (applyHttpSemantics (allSized 5)
      (oneField .get (lit "If-None-Match") (tagList twoTags)) (filed .ok)) :=
  (etag_list_revalidates (Or.inl rfl) rfl
    (show allSized 5 (filed .ok).filePath = some ⟨5, 0⟩ from rfl)
    ⟨by decide, by decide, by decide, by decide⟩
    (show ∀ t ∈ twoTags, t.2.Fits by
      intro t ht
      simp only [twoTags, List.mem_cons, List.not_mem_nil, or_false] at ht
      rcases ht with rfl | rfl
      · exact ⟨by decide, by decide, by decide, by decide⟩
      · exact ⟨by decide, by decide, by decide, by decide⟩)
    (oneField_header _ _ _) rfl).1 ⟨(true, ⟨5, 0⟩), List.mem_cons_self, rfl⟩

end Oreshnek
