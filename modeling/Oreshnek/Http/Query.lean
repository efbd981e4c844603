import Oreshnek.Http.Parser

/-!
# The query of a request target

`queryMap` splits a query at every '&' and each piece at its first '='. The loop
of `parse_query_parameters` looks for the '=' first, and does not stop at an '&'
on the way: a piece without a '=' runs into the next one. So the loop computes
`queryMap` exactly where every piece but the last has a '='
(`parseQueryParameters_iff`).
-/

namespace Oreshnek

/-! ## The query, split -/

/-- The text behind the first '?' of a target. -/
def queryText (target : Bytes) : Bytes := (target.dropWhile (· ≠ 63)).drop 1

/-- A piece in front of its first '='. -/
def pieceKey (piece : Bytes) : Bytes := piece.takeWhile (· ≠ 61)

/-- What follows that '='; nothing, if there is none. -/
def pieceValue (piece : Bytes) : Bytes := (piece.dropWhile (· ≠ 61)).drop 1

/-- The pieces of a query, empty ones dropped. -/
def queryPieces (query : Bytes) : List Bytes := (query.splitOn 38).filter (· ≠ [])

/-- The map of a query: later pieces override earlier ones. -/
def queryMap (query : Bytes) : AList fun _ : Bytes => Bytes :=
  (queryPieces query).foldl (fun m piece => m.insert (pieceKey piece) (pieceValue piece)) ∅

/-- The value the pieces leave under `name`. -/
def lastPiece (name : Bytes) (old : Option Bytes) (pieces : List Bytes) : Option Bytes :=
  pieces.foldl (fun old piece => if name = pieceKey piece then some (pieceValue piece) else old) old

/-- Of several pieces with one key the last one counts. -/
theorem foldl_insert_lookup (name : Bytes) (pieces : List Bytes)
    (m : AList fun _ : Bytes => Bytes) :
    (pieces.foldl (fun m piece => m.insert (pieceKey piece) (pieceValue piece)) m).lookup name =
      lastPiece name (m.lookup name) pieces := by
  induction pieces generalizing m with
  | nil => rfl
  | cons piece pieces ih =>
      rw [List.foldl_cons, ih]
      unfold lastPiece
      rw [List.foldl_cons]
      by_cases hname : name = pieceKey piece
      · rw [if_pos hname, hname, AList.lookup_insert]
      · rw [if_neg hname, AList.lookup_insert_ne hname]

theorem queryMap_lookup (query name : Bytes) :
    (queryMap query).lookup name = lastPiece name none (queryPieces query) := by
  unfold queryMap
  rw [foldl_insert_lookup, AList.lookup_empty]

/-- A piece splits at its first equals sign. -/
theorem pieceKey_split {key : Bytes} (h : 61 ∉ key) (value : Bytes) :
    pieceKey (key ++ 61 :: value) = key ∧ pieceValue (key ++ 61 :: value) = value := by
  have hkey : ∀ c ∈ key, decide (c ≠ 61) = true := by
    intro c hc
    rw [decide_eq_true_eq]
    rintro rfl
    exact h hc
  constructor
  · unfold pieceKey
    rw [List.takeWhile_append_of_pos hkey, List.takeWhile_cons, if_neg (by decide), List.append_nil]
  · unfold pieceValue
    rw [List.dropWhile_append_of_pos hkey, List.dropWhile_cons, if_neg (by decide)]
    rfl

/-- A piece without an equals sign is a key with an empty value. -/
theorem pieceKey_whole {piece : Bytes} (h : 61 ∉ piece) :
    pieceKey piece = piece ∧ pieceValue piece = [] := by
  have hall : ∀ c ∈ piece, decide (c ≠ 61) = true := by
    intro c hc
    rw [decide_eq_true_eq]
    rintro rfl
    exact h hc
  constructor
  · exact List.takeWhile_eq_self_iff.2 hall
  · unfold pieceValue
    rw [List.dropWhile_eq_nil_iff.2 hall]
    rfl

/-- Induction over the pieces of a query. -/
theorem piece_induction {P : Bytes → Prop} (last : ∀ t, 38 ∉ t → P t)
    (more : ∀ piece rest, 38 ∉ piece → P rest → P (piece ++ 38 :: rest)) (t : Bytes) : P t := by
  have hamp : [(38 : UInt8)] ≠ [] := List.cons_ne_nil _ _
  refine Search.delim_induction hamp ?_ ?_ t
  · intro b hb
    exact last b fun hmem => hb (Search.singleton_infix_iff.2 hmem)
  · intro piece rest hpiece hrest
    rw [List.append_assoc]
    exact more piece rest (fun hmem => hpiece (Search.singleton_infix_iff.2 hmem)) hrest

theorem splitOn_more {piece : Bytes} (h : 38 ∉ piece) (rest : Bytes) :
    (piece ++ 38 :: rest).splitOn 38 = piece :: rest.splitOn 38 :=
  List.splitOn_append_cons_self_of_not_mem h rest

/-- No piece holds an '&'. -/
theorem amp_notMem {query : Bytes} : ∀ piece ∈ query.splitOn 38, 38 ∉ piece := by
  induction query using piece_induction with
  | last t ht =>
      intro piece hpiece
      rw [List.splitOn_eq_singleton ht, List.mem_singleton] at hpiece
      rwa [hpiece]
  | more p rest hp ih =>
      intro piece hpiece
      rw [splitOn_more hp] at hpiece
      rcases List.mem_cons.1 hpiece with rfl | hpiece
      · exact hp
      · exact ih piece hpiece

/-- So no key in the map holds one. -/
theorem queryMap_amp {query name : Bytes} (h : 38 ∈ name) : (queryMap query).lookup name = none := by
  have hnone : ∀ pieces : List Bytes, (∀ piece ∈ pieces, 38 ∉ piece) →
      lastPiece name none pieces = none := by
    intro pieces
    induction pieces with
    | nil =>
        intro _
        rfl
    | cons piece pieces ih =>
        intro hfree
        have hne : name ≠ pieceKey piece := by
          rintro rfl
          exact hfree piece List.mem_cons_self ((List.takeWhile_sublist _).subset h)
        unfold lastPiece
        rw [List.foldl_cons, if_neg hne]
        exact ih fun p hp => hfree p (List.mem_cons_of_mem _ hp)
  rw [queryMap_lookup]
  exact hnone _ fun piece hpiece => amp_notMem piece (List.mem_filter.1 hpiece).1

/-! ## The loop -/

/-- What a map of views holds under a name. -/
def ViewMap.shown (m : ViewMap) (name : Bytes) : Option Bytes := (m.get name).map (·.bytes)

/-- Assigning shows the new value under its name. -/
theorem ViewMap.shown_assign (m : ViewMap) (k v : StringView) (name : Bytes) :
    (m.assign k v).shown name = if name = k.bytes then some v.bytes else m.shown name := by
  unfold ViewMap.shown
  rw [ViewMap.get_assign]
  split
  · rfl
  · rfl

section Loop

variable {query : StringView} {start : Nat}

theorem lt_length_of_drop {t : Bytes} (h : query.bytes.drop start = t) (hne : t ≠ []) :
    start < query.length := by
  by_contra hge
  rw [List.drop_of_length_le (Nat.le_of_not_lt hge)] at h
  exact hne h.symm

/-- The next delimiter is behind `piece`, and behind it comes the rest. -/
theorem findFrom_delim {d : UInt8} {piece rest : Bytes}
    (h : query.bytes.drop start = piece ++ d :: rest) (hfree : d ∉ piece) :
    query.findFrom [d] start = some (piece.length + start) ∧
      query.bytes.drop (piece.length + start + 1) = rest := by
  constructor
  · unfold StringView.findFrom
    rw [h, Search.find_singleton hfree rest]
    rfl
  · rw [Nat.add_comm piece.length, Nat.add_assoc, ← List.drop_drop, h,
      List.drop_length_add_append 1]
    rfl

/-- One turn, with a '=' to come. -/
theorem parseQueryLoop_assign {eqPos : Nat} (hlt : start < query.length)
    (heq : query.findFrom (lit "=") start = some eqPos) (params : ViewMap) :
    parseQueryLoop query start params =
      match query.findFrom (lit "&") (eqPos + 1) with
      | none => params.assign (query.substr start (eqPos - start)) (query.substrFrom (eqPos + 1))
      | some ampPos => parseQueryLoop query (ampPos + 1) (params.assign
          (query.substr start (eqPos - start))
          (query.substr (eqPos + 1) (ampPos - (eqPos + 1)))) := by
  rw [parseQueryLoop, if_pos hlt]
  split
  case h_1 hnone => cases hnone.symm.trans heq
  case h_2 pos hpos =>
    obtain rfl := Option.some.inj (hpos.symm.trans heq)
    split
    case h_1 hamp => rw [hamp]
    case h_2 ampPos hamp => rw [hamp]

/-- Nothing is left. -/
theorem parseQueryLoop_nil (h : query.bytes.drop start = []) (params : ViewMap) :
    parseQueryLoop query start params = params := by
  rw [parseQueryLoop, if_neg]
  exact Nat.not_lt.2 (List.drop_eq_nil_iff.1 h)

/-- No '=' is left: all of the rest is a key. -/
theorem parseQueryLoop_key {t : Bytes} (h : query.bytes.drop start = t) (hne : t ≠ [])
    (heq : 61 ∉ t) (params : ViewMap) :
    parseQueryLoop query start params = params.assign (query.substrFrom start) .empty := by
  have hnone : query.findFrom (lit "=") start = none := by
    unfold StringView.findFrom
    rw [h, Option.map_eq_none_iff]
    exact Search.find_singleton_eq_none.2 heq
  rw [parseQueryLoop, if_pos (lt_length_of_drop h hne)]
  split
  case h_1 => rfl
  case h_2 eqPos hfind =>
    rw [hnone] at hfind
    cases hfind

/-- The next '=' is behind `key`, and no '&' behind it. -/
theorem parseQueryLoop_last {key value : Bytes} (h : query.bytes.drop start = key ++ 61 :: value)
    (hkey : 61 ∉ key) (hvalue : 38 ∉ value) (params : ViewMap) :
    ∃ k v : StringView, k.bytes = key ∧ v.bytes = value ∧
      parseQueryLoop query start params = params.assign k v := by
  have hlt := lt_length_of_drop h (by simp)
  obtain ⟨hsome, hdrop⟩ := findFrom_delim h hkey
  have hnone : query.findFrom (lit "&") (key.length + start + 1) = none := by
    unfold StringView.findFrom
    rw [hdrop, Option.map_eq_none_iff]
    exact Search.find_singleton_eq_none.2 hvalue
  refine ⟨query.substr start (key.length + start - start),
    query.substrFrom (key.length + start + 1), ?_, hdrop, ?_⟩
  · rw [StringView.substr_bytes, h, Nat.add_sub_cancel, List.take_left]
  · rw [parseQueryLoop_assign hlt hsome, hnone]

/-- The next '=' is behind `key`, and the next '&' behind `value`. -/
theorem parseQueryLoop_more {key value rest : Bytes}
    (h : query.bytes.drop start = key ++ 61 :: (value ++ 38 :: rest))
    (hkey : 61 ∉ key) (hvalue : 38 ∉ value) (params : ViewMap) :
    ∃ (k v : StringView) (start' : Nat), k.bytes = key ∧ v.bytes = value ∧
      query.bytes.drop start' = rest ∧
      parseQueryLoop query start params = parseQueryLoop query start' (params.assign k v) := by
  have hlt := lt_length_of_drop h (by simp)
  obtain ⟨hsome, hdrop⟩ := findFrom_delim h hkey
  obtain ⟨hfound, hnext⟩ := findFrom_delim hdrop hvalue
  have hamp : query.findFrom (lit "&") (key.length + start + 1) =
      some (value.length + (key.length + start + 1)) := hfound
  refine ⟨query.substr start (key.length + start - start),
    query.substr (key.length + start + 1)
      (value.length + (key.length + start + 1) - (key.length + start + 1)),
    value.length + (key.length + start + 1) + 1, ?_, ?_, hnext, ?_⟩
  · rw [StringView.substr_bytes, h, Nat.add_sub_cancel, List.take_left]
  · rw [StringView.substr_bytes, hdrop, Nat.add_sub_cancel, List.take_left]
  · rw [parseQueryLoop_assign hlt hsome, hamp]

end Loop

/-- What the loop assigns stays assigned. -/
theorem parseQueryLoop_keeps {query : StringView} {start : Nat} {params : ViewMap} {name : Bytes}
    (h : params.shown name ≠ none) : (parseQueryLoop query start params).shown name ≠ none := by
  have hassign : ∀ k v : StringView, (params.assign k v).shown name ≠ none := by
    intro k v
    rw [ViewMap.shown_assign]
    split
    · exact Option.some_ne_none _
    · exact h
  rw [parseQueryLoop]
  by_cases hlt : start < query.length
  swap
  · rw [if_neg hlt]
    exact h
  rw [if_pos hlt]
  split
  case h_1 => exact hassign _ _
  case h_2 eqPos heq =>
    split
    case h_1 => exact hassign _ _
    case h_2 ampPos hamp =>
      have hle := StringView.le_of_findFrom heq
      have hle' := StringView.le_of_findFrom hamp
      exact parseQueryLoop_keeps (hassign _ _)
termination_by query.length - start
decreasing_by omega

theorem parseQueryLoop_assigned {query : StringView} {start : Nat} {params : ViewMap}
    {k v : StringView} : (parseQueryLoop query start (params.assign k v)).shown k.bytes ≠ none := by
  apply parseQueryLoop_keeps
  rw [ViewMap.shown_assign, if_pos rfl]
  exact Option.some_ne_none _

/-- Where every piece but the last has a '=', the loop assigns the pieces. -/
theorem parseQueryLoop_pieces {query : StringView} {t : Bytes}
    (heq : ∀ piece ∈ (t.splitOn 38).dropLast, 61 ∈ piece) {start : Nat}
    (h : query.bytes.drop start = t) (params : ViewMap) (name : Bytes) :
    (parseQueryLoop query start params).shown name =
      lastPiece name (params.shown name) (queryPieces t) := by
  induction t using piece_induction generalizing start params with
  | last t hamp =>
      have hpieces : queryPieces t = if t = [] then [] else [t] := by
        unfold queryPieces
        rw [List.splitOn_eq_singleton hamp]
        by_cases hnil : t = []
        · rw [if_pos hnil, hnil]
          rfl
        · rw [if_neg hnil]
          simp [hnil]
      rw [hpieces]
      by_cases hnil : t = []
      · rw [if_pos hnil, parseQueryLoop_nil (by rw [h, hnil])]
        rfl
      rw [if_neg hnil]
      by_cases hmem : 61 ∈ t
      · -- a key and a value
        rcases List.eq_append_cons_of_mem hmem with ⟨key, value, ht, hkey⟩
        rw [ht] at hamp h ⊢
        have hvalue : 38 ∉ value := fun hv => hamp (by simp [hv])
        rcases parseQueryLoop_last h hkey hvalue params with ⟨k, v, rfl, rfl, hloop⟩
        rcases pieceKey_split hkey v.bytes with ⟨hk, hv⟩
        rw [hloop, ViewMap.shown_assign]
        unfold lastPiece
        rw [List.foldl_cons, List.foldl_nil, hk, hv]
      · -- a key alone
        rcases pieceKey_whole hmem with ⟨hk, hv⟩
        rw [parseQueryLoop_key h hnil hmem, ViewMap.shown_assign]
        unfold lastPiece
        rw [List.foldl_cons, List.foldl_nil, hk, hv, StringView.substrFrom_bytes, h]
        rfl
  | more piece rest hamp ih =>
      rw [splitOn_more hamp, List.dropLast_cons_of_ne_nil (List.splitOn_ne_nil _ _)] at heq
      have hmem : 61 ∈ piece := heq piece List.mem_cons_self
      rcases List.eq_append_cons_of_mem hmem with ⟨key, value, rfl, hkey⟩
      have hvalue : 38 ∉ value := fun hv => hamp (by simp [hv])
      rcases pieceKey_split hkey value with ⟨hk, hv⟩
      have hpieces : queryPieces (key ++ 61 :: value ++ 38 :: rest) =
          (key ++ 61 :: value) :: queryPieces rest := by
        unfold queryPieces
        rw [splitOn_more hamp, List.filter_cons, if_pos (by simp)]
      rw [List.append_assoc] at h
      rcases parseQueryLoop_more h hkey hvalue params with ⟨k, v, start', rfl, rfl, hrest, hloop⟩
      rw [hloop, hpieces, ih (fun p hp => heq p (List.mem_cons_of_mem _ hp)) hrest,
        ViewMap.shown_assign]
      unfold lastPiece
      rw [List.foldl_cons, hk, hv]

/-- A piece without a '=' in front of the last one leaves a name with an '&'. -/
theorem parseQueryLoop_runs_on {query : StringView} {t piece : Bytes}
    (hpiece : piece ∈ (t.splitOn 38).dropLast) (hkey : 61 ∉ piece) {start : Nat}
    (h : query.bytes.drop start = t) (params : ViewMap) :
    ∃ name, 38 ∈ name ∧ (parseQueryLoop query start params).shown name ≠ none := by
  induction t using piece_induction generalizing start params with
  | last t hamp =>
      -- there is no piece but the last one
      rw [List.splitOn_eq_singleton hamp] at hpiece
      cases hpiece
  | more first rest hamp ih =>
      rw [splitOn_more hamp, List.dropLast_cons_of_ne_nil (List.splitOn_ne_nil _ _)] at hpiece
      by_cases hmem : 61 ∈ first
      · -- this piece is read as it should be
        rcases List.eq_append_cons_of_mem hmem with ⟨key, value, rfl, hk⟩
        have hvalue : 38 ∉ value := fun hv => hamp (by simp [hv])
        rw [List.append_assoc] at h
        rcases parseQueryLoop_more h hk hvalue params with ⟨k, v, start', -, -, hrest, hloop⟩
        rw [hloop]
        rcases List.mem_cons.1 hpiece with heq | hlater
        · rw [heq] at hkey
          exact absurd hmem hkey
        · exact ih hlater hrest _
      by_cases hrest : 61 ∈ rest
      · -- the key runs on to the next '='
        rcases List.eq_append_cons_of_mem hrest with ⟨key, value, rfl, hk⟩
        have hkey' : 61 ∉ first ++ 38 :: key := by
          intro hin
          rcases List.mem_append.1 hin with hin | hin
          · exact hmem hin
          · rcases List.mem_cons.1 hin with heq | hin
            · cases heq
            · exact hk hin
        have hsplit : first ++ 38 :: (key ++ 61 :: value) =
            (first ++ 38 :: key) ++ 61 :: value := by simp
        rw [hsplit] at h
        refine ⟨first ++ 38 :: key, by simp, ?_⟩
        by_cases hvalue : 38 ∈ value
        · rcases List.eq_append_cons_of_mem hvalue with ⟨v, rest', rfl, hv⟩
          rcases parseQueryLoop_more h hkey' hv params with ⟨kv, vv, start', hbytes, -, -, hloop⟩
          rw [hloop, ← hbytes]
          exact parseQueryLoop_assigned
        · rcases parseQueryLoop_last h hkey' hvalue params with ⟨kv, vv, hbytes, -, hloop⟩
          rw [hloop, ViewMap.shown_assign, if_pos hbytes.symm]
          exact Option.some_ne_none _
      · -- no '=' is left: the key is all of the rest
        have hnone : 61 ∉ first ++ 38 :: rest := by
          intro hin
          rcases List.mem_append.1 hin with hin | hin
          · exact hmem hin
          · rcases List.mem_cons.1 hin with heq | hin
            · cases heq
            · exact hrest hin
        refine ⟨first ++ 38 :: rest, by simp, ?_⟩
        rw [parseQueryLoop_key h (by simp) hnone, ViewMap.shown_assign,
          if_pos (by rw [StringView.substrFrom_bytes, h])]
        exact Option.some_ne_none _

/-! ## The target -/

/-- The path and the map of a target are what its text says. -/
structure TargetRead (target : Bytes) (r : HttpRequest) : Prop where
  path : r.path.bytes = target.takeWhile (· ≠ 63)
  query : ∀ name, (r.query name).map (·.bytes) = (queryMap (queryText target)).lookup name

/-- The path ends at the first question mark, and the loop runs on what is behind it. -/
theorem parseQueryParameters_parts (target : StringView) (r : HttpRequest) :
    (parseQueryParameters target r).path.bytes = target.bytes.takeWhile (· ≠ 63) ∧
      ∃ query : StringView, query.bytes = queryText target.bytes ∧
        (parseQueryParameters target r).queryParams = parseQueryLoop query 0 r.queryParams := by
  unfold parseQueryParameters queryText
  by_cases hmem : 63 ∈ target.bytes
  · rcases List.eq_append_cons_of_mem hmem with ⟨path, query, hbytes, hpath⟩
    have hfind : target.find (lit "?") = some path.length := by
      unfold StringView.find
      rw [hbytes]
      exact Search.find_singleton hpath query
    have hall : ∀ c ∈ path, decide (c ≠ 63) = true := by
      intro c hc
      rw [decide_eq_true_eq]
      rintro rfl
      exact hpath hc
    rw [hfind]
    refine ⟨?_, target.substrFrom (path.length + 1), ?_, rfl⟩
    · show ((target.bytes.drop 0).take path.length) = _
      rw [List.drop_zero, hbytes, List.take_left, List.takeWhile_append_of_pos hall,
        List.takeWhile_cons, if_neg (by decide), List.append_nil]
    · rw [StringView.substrFrom_bytes, hbytes, List.drop_length_add_append 1,
        List.dropWhile_append_of_pos hall, List.dropWhile_cons, if_neg (by decide)]
  · have hnone : target.find (lit "?") = none := Search.find_singleton_eq_none.2 hmem
    have hall : ∀ c ∈ target.bytes, decide (c ≠ 63) = true := by
      intro c hc
      rw [decide_eq_true_eq]
      rintro rfl
      exact hmem hc
    rw [hnone]
    refine ⟨(List.takeWhile_eq_self_iff.2 hall).symm, .empty, ?_, ?_⟩
    · rw [List.dropWhile_eq_nil_iff.2 hall]
      rfl
    · exact (parseQueryLoop_nil (List.drop_nil) r.queryParams).symm

/-- **A target is read as its text says exactly where every piece of its query but
the last has a '='.** -/
theorem parseQueryParameters_iff (target : StringView) (r : HttpRequest) :
    TargetRead target.bytes (parseQueryParameters target { r with queryParams := ∅ }) ↔
      ∀ piece ∈ ((queryText target.bytes).splitOn 38).dropLast, 61 ∈ piece := by
  rcases parseQueryParameters_parts target { r with queryParams := ∅ } with
    ⟨hpath, query, hquery, hloop⟩
  have hdrop : query.bytes.drop 0 = queryText target.bytes := by rw [List.drop_zero, hquery]
  have hshown : ∀ name, ((parseQueryParameters target { r with queryParams := ∅ }).query name).map
      (·.bytes) = (parseQueryLoop query 0 ∅).shown name := by
    intro name
    unfold HttpRequest.query
    rw [hloop]
    rfl
  constructor
  · intro hread piece hpiece
    by_contra hkey
    rcases parseQueryLoop_runs_on hpiece hkey hdrop ∅ with ⟨name, hamp, hname⟩
    apply hname
    rw [← hshown, hread.query, queryMap_amp hamp]
  · intro heq
    refine ⟨hpath, ?_⟩
    intro name
    rw [hshown, parseQueryLoop_pieces heq hdrop, queryMap_lookup]
    rfl

/-- The piece `a` runs into the next one: its key is read as `a&b`. -/
theorem key_runs_on :
    ¬ TargetRead (lit "/?a&b=1") (parseQueryParameters ⟨0, lit "/?a&b=1"⟩ {}) := by
  intro h
  have hb := h.query (lit "b")
  revert hb
  decide +kernel

end Oreshnek
