import Oreshnek.Http.Phases

/-!
# Views and their storage

Every view of a parsed request lies inside the bytes the parser has consumed and
shows what stands there, also after the chunked decoder has moved the body
(`parseRequest_shown`). So the owning copy shows the same request
(`makeOwned_message`).
-/

namespace Oreshnek

/-- The view shows what stands in the memory, in front of `limit`. -/
structure Shown (mem : Bytes) (limit : Nat) (v : StringView) : Prop where
  bytes : v.bytes <+: mem.drop v.pos
  inside : v.pos + v.length ≤ limit

namespace Shown

variable {mem : Bytes} {limit : Nat} {v : StringView}

theorem empty (mem : Bytes) (limit : Nat) : Shown mem limit .empty :=
  ⟨List.nil_prefix, Nat.zero_le _⟩

theorem mono (h : Shown mem limit v) {limit' : Nat} (hle : limit ≤ limit') : Shown mem limit' v :=
  ⟨h.bytes, h.inside.trans hle⟩

/-- The rest of a view that is shown is shown. -/
theorem substrFrom (h : Shown mem limit v) {p : Nat} (hp : p ≤ v.length) :
    Shown mem limit (v.substrFrom p) := by
  obtain ⟨⟨t, ht⟩, hin⟩ := h
  constructor
  · refine ⟨t, ?_⟩
    show v.bytes.drop p ++ t = mem.drop (v.pos + p)
    rw [← List.drop_drop, ← ht, List.drop_append_of_le_length hp]
  · show v.pos + p + (v.bytes.drop p).length ≤ limit
    rw [List.length_drop]
    unfold StringView.length at hin hp
    omega

theorem removePrefix (h : Shown mem limit v) {p : Nat} (hp : p ≤ v.length) :
    Shown mem limit (v.removePrefix p) := h.substrFrom hp

/-- A part of a view that is shown is shown. -/
theorem substr (h : Shown mem limit v) {p : Nat} (hp : p ≤ v.length) (n : Nat) :
    Shown mem limit (v.substr p n) := by
  obtain ⟨hbytes, hin⟩ := h.substrFrom hp
  constructor
  · exact (List.take_prefix n _).trans hbytes
  · refine Nat.le_trans ?_ hin
    show v.pos + p + ((v.bytes.drop p).take n).length ≤ v.pos + p + (v.bytes.drop p).length
    rw [List.length_take]
    omega

theorem trimLeft (h : Shown mem limit v) : Shown mem limit (trimLeft v) := by
  refine h.removePrefix ?_
  exact (List.takeWhile_prefix _).length_le

/-- Memory that agrees in front of the limit shows the same. -/
theorem of_take (h : Shown mem limit v) {mem' : Bytes}
    (htake : mem'.take limit = mem.take limit) : Shown mem' limit v := by
  obtain ⟨⟨t, ht⟩, hin⟩ := h
  refine ⟨?_, hin⟩
  have hpre : v.bytes <+: (mem.take limit).drop v.pos := by
    rw [List.drop_take, ← ht]
    refine List.prefix_take_iff.2 ⟨List.prefix_append _ _, ?_⟩
    unfold StringView.length at hin
    omega
  rw [← htake] at hpre
  refine hpre.trans ?_
  rw [List.drop_take]
  exact List.take_prefix _ _

/-- The owning copy shows it at the same place. -/
theorem shiftView (h : Shown mem limit v) {len : Nat} (hle : limit ≤ len) :
    HttpRequest.shiftView (mem.take len) v = v := by
  have hown : Shown (mem.take len) limit v := by
    refine h.of_take ?_
    rw [List.take_take, Nat.min_eq_left hle]
  have hbytes : ((mem.take len).drop v.pos).take v.length = v.bytes :=
    (List.prefix_iff_eq_take.1 hown.bytes).symm
  unfold HttpRequest.shiftView
  rw [hbytes]

end Shown

/-! ## Maps of views -/

/-- Every entry is stored under what its key shows. -/
def MapShown (mem : Bytes) (limit : Nat) (m : ViewMap) : Prop :=
  ∀ e ∈ m.entries, e.2.1.bytes = e.1 ∧ Shown mem limit e.2.1 ∧ Shown mem limit e.2.2

namespace MapShown

variable {mem : Bytes} {limit : Nat} {m : ViewMap}

theorem empty (mem : Bytes) (limit : Nat) : MapShown mem limit ∅ := by
  intro e he
  cases he

theorem mono (h : MapShown mem limit m) {limit' : Nat} (hle : limit ≤ limit') :
    MapShown mem limit' m := by
  intro e he
  obtain ⟨hkey, hk, hv⟩ := h e he
  exact ⟨hkey, hk.mono hle, hv.mono hle⟩

theorem of_take (h : MapShown mem limit m) {mem' : Bytes}
    (htake : mem'.take limit = mem.take limit) : MapShown mem' limit m := by
  intro e he
  obtain ⟨hkey, hk, hv⟩ := h e he
  exact ⟨hkey, hk.of_take htake, hv.of_take htake⟩

/-- Assigning a view that is shown keeps all views of the map shown. -/
theorem assign (h : MapShown mem limit m) {k v : StringView} (hk : Shown mem limit k)
    (hv : Shown mem limit v) : MapShown mem limit (m.assign k v) := by
  intro e he
  unfold ViewMap.assign at he
  rw [AList.entries_insert, List.mem_cons] at he
  rcases he with rfl | he
  · -- the new entry keeps the key view that was there
    cases hlook : m.lookup k.bytes with
    | none => exact ⟨rfl, hk, hv⟩
    | some old =>
        obtain ⟨hkey, hold, -⟩ := h ⟨k.bytes, old⟩ (AList.mem_lookup_iff.1 hlook)
        exact ⟨hkey, hold, hv⟩
  · exact h e ((List.kerase_sublist _ _).subset he)

/-- The rebuilt map has the entries it is rebuilt from. -/
theorem shiftMap_get (h : MapShown mem limit m) {len : Nat} (hle : limit ≤ len) (name : Bytes) :
    (HttpRequest.shiftMap (mem.take len) m).get name = m.get name := by
  have hfold : ∀ (es : List (Sigma fun _ : Bytes => StringView × StringView)) (acc : ViewMap),
      (∀ e ∈ es, e.2.1.bytes = e.1 ∧ Shown mem limit e.2.1 ∧ Shown mem limit e.2.2) →
      (es.foldl (fun rebuilt e =>
        let k := HttpRequest.shiftView (mem.take len) e.2.1
        if k.bytes ∈ rebuilt then rebuilt
        else rebuilt.insert k.bytes (k, HttpRequest.shiftView (mem.take len) e.2.2)) acc).lookup
          name = (acc.lookup name).or (List.dlookup name es) := by
    intro es
    induction es with
    | nil =>
        intro acc _
        exact (Option.or_none).symm
    | cons e es ih =>
        intro acc hes
        obtain ⟨k, kv, vv⟩ := e
        obtain ⟨hkey, hk, hv⟩ := hes ⟨k, kv, vv⟩ List.mem_cons_self
        rw [List.foldl_cons, ih _ fun e he => hes e (List.mem_cons_of_mem _ he)]
        simp only [hk.shiftView hle, hv.shiftView hle]
        have hkey' : kv.bytes = k := hkey
        rw [hkey']
        by_cases hname : name = k
        · subst hname
          rw [List.dlookup_cons_eq]
          by_cases hin : name ∈ acc
          · rw [if_pos hin]
            obtain ⟨old, hold⟩ := Option.isSome_iff_exists.1 (AList.lookup_isSome.2 hin)
            rw [hold]
            rfl
          · rw [if_neg hin, AList.lookup_insert, AList.lookup_eq_none.2 hin]
            rfl
        · rw [List.dlookup_cons_ne _ _ hname]
          split
          · rfl
          · rw [AList.lookup_insert_ne hname]
  have hrun := hfold m.entries ∅ h
  unfold ViewMap.get HttpRequest.shiftMap
  rw [hrun, AList.lookup_empty, Option.none_or]
  rfl

end MapShown

/-! ## Requests -/

/-- All views of a request show what stands in the memory. -/
structure RequestShown (mem : Bytes) (limit : Nat) (r : HttpRequest) : Prop where
  path : Shown mem limit r.path
  version : Shown mem limit r.version
  headers : MapShown mem limit r.headers
  queryParams : MapShown mem limit r.queryParams
  body : Shown mem limit r.body

namespace RequestShown

variable {mem : Bytes} {limit : Nat} {r : HttpRequest}

theorem initial (mem : Bytes) (limit : Nat) : RequestShown mem limit {} :=
  ⟨.empty _ _, .empty _ _, .empty _ _, .empty _ _, .empty _ _⟩

theorem mono (h : RequestShown mem limit r) {limit' : Nat} (hle : limit ≤ limit') :
    RequestShown mem limit' r :=
  ⟨h.path.mono hle, h.version.mono hle, h.headers.mono hle, h.queryParams.mono hle, h.body.mono hle⟩

theorem of_take (h : RequestShown mem limit r) {mem' : Bytes}
    (htake : mem'.take limit = mem.take limit) : RequestShown mem' limit r :=
  ⟨h.path.of_take htake, h.version.of_take htake, h.headers.of_take htake,
    h.queryParams.of_take htake, h.body.of_take htake⟩

end RequestShown

/-- The views of the query show bytes of the target. -/
theorem parseQueryLoop_shown {mem : Bytes} {limit : Nat} {query : StringView}
    (hq : Shown mem limit query) (start : Nat) {params : ViewMap} (h : MapShown mem limit params) :
    MapShown mem limit (parseQueryLoop query start params) := by
  rw [parseQueryLoop]
  by_cases hlt : start < query.length
  swap
  · rw [if_neg hlt]
    exact h
  rw [if_pos hlt]
  split
  case h_1 => exact h.assign (hq.substrFrom hlt.le) (.empty _ _)
  case h_2 eqPos heq =>
    have heqle : eqPos + 1 ≤ query.length := StringView.findFrom_add_le (by decide) heq
    have hkey := hq.substr hlt.le (eqPos - start)
    split
    case h_1 => exact h.assign hkey (hq.substrFrom heqle)
    case h_2 ampPos hamp =>
      have hle := StringView.le_of_findFrom heq
      have hle' := StringView.le_of_findFrom hamp
      exact parseQueryLoop_shown hq _ (h.assign hkey (hq.substr heqle _))
termination_by query.length - start
decreasing_by omega

/-- The parameters of the query are views of the target. -/
theorem parseQueryParameters_shown {mem : Bytes} {limit : Nat} {target : StringView}
    {r : HttpRequest} (ht : Shown mem limit target) (h : RequestShown mem limit r) :
    RequestShown mem limit (parseQueryParameters target r) := by
  unfold parseQueryParameters
  cases hfind : target.find (lit "?") with
  | none => exact ⟨ht, h.version, h.headers, h.queryParams, h.body⟩
  | some q =>
      have hle : q + 1 ≤ target.length := target.find_add_le hfind
      exact ⟨ht.substr (Nat.zero_le _) q, h.version, h.headers,
        parseQueryLoop_shown (ht.substrFrom hle) 0 h.queryParams, h.body⟩

/-! ## The phases -/

/-- The request of a cursor shows what stands before the unread view. -/
def Cursor.ShowsRequest (c : Cursor) : Prop := RequestShown c.buffer c.data.pos c.request

/-- A line at the front of the view lies in front of what follows it. -/
theorem Cursor.Aligned.line {c : Cursor} (h : c.Aligned) (e : Nat) :
    Shown c.buffer (c.data.pos + (e + 2)) (c.data.substr 0 e) := by
  constructor
  · show (c.data.bytes.drop 0).take e <+: c.buffer.drop (c.data.pos + 0)
    rw [List.drop_zero, Nat.add_zero, h.bytes]
    exact List.take_prefix _ _
  · show c.data.pos + 0 + ((c.data.bytes.drop 0).take e).length ≤ _
    rw [List.length_take]
    omega

/-- The views of the request line show bytes of the buffer. -/
theorem parseRequestLine_shown {c : Cursor} (hal : c.Aligned) (h : c.ShowsRequest) :
    (parseRequestLine c).2.ShowsRequest := by
  cases hfind : c.data.find crlf with
  | none => rwa [parseRequestLine_more (Search.find_eq_none_iff.1 hfind)]
  | some e =>
      have hle : e + 2 ≤ c.data.length := c.data.find_add_le hfind
      have hline := hal.line e
      have hold : RequestShown c.buffer (c.data.pos + (e + 2)) c.request :=
        RequestShown.mono h (Nat.le_add_right _ _)
      generalize hl : c.data.substr 0 e = line at hline
      unfold parseRequestLine
      rw [hfind]
      dsimp only
      rw [hl]
      split
      case h_1 first second hfirst hsecond =>
        have hfirst' : first + 1 ≤ line.length := line.find_add_le hfirst
        rw [hfirst] at hsecond
        have hsecond' : second + 1 ≤ line.length := StringView.findFrom_add_le (by decide) hsecond
        have hversion : RequestShown c.buffer (c.data.pos + (e + 2))
            { c.request with
              version := line.substrFrom (second + 1)
              method := methodOfBytes (line.substr 0 first).bytes } :=
          ⟨hold.path, hline.substrFrom hsecond', hold.headers, hold.queryParams, hold.body⟩
        split
        · exact hversion
        · exact parseQueryParameters_shown (hline.substr hfirst' _) hversion
      case h_2 => exact hold

/-- The views of the headers show bytes of the buffer. -/
theorem parseHeaders_shown {c : Cursor} (hal : c.Aligned) (h : c.ShowsRequest) :
    (parseHeaders c).2.ShowsRequest := by
  induction hb : c.data.bytes using line_induction generalizing c with
  | stop b hmore => rwa [parseHeaders_more (hb ▸ hmore)]
  | line l rest hl ih =>
      have hlen : l.length + 2 ≤ c.data.length := by
        simp [StringView.length, hb, crlf]
      have hdrop : ∀ n, n + 2 ≤ c.data.length → (c.dropLine n).Aligned ∧ (c.dropLine n).ShowsRequest :=
        fun n hn => ⟨hal.removePrefix hn rfl rfl, RequestShown.mono h (Nat.le_add_right _ _)⟩
      rw [parseHeaders_line hl hb]
      by_cases hnil : l = []
      · rw [if_pos hnil]
        exact (hdrop 0 (by omega)).2
      rw [if_neg hnil]
      obtain ⟨hal', hshown⟩ := hdrop l.length hlen
      cases hcolon : Search.find (lit ":") l with
      | none => exact hshown
      | some i =>
          have hline : Shown c.buffer (c.data.pos + (l.length + 2)) ⟨c.data.pos, l⟩ := by
            have := hal.line l.length
            unfold StringView.substr at this
            rwa [hb, List.drop_zero, take_line] at this
          have hi : i + 1 ≤ l.length := Search.find_add_length_le hcolon
          refine ih (c := (c.dropLine l.length).addHeader ⟨c.data.pos, l⟩ i)
            ⟨hal'.pos_le, hal'.bytes⟩ ?_ (c.dropLine_bytes hb)
          exact ⟨hshown.path, hshown.version,
            MapShown.assign hshown.headers (hline.substr (Nat.zero_le _) i)
              (hline.substrFrom hi).trimLeft,
            hshown.queryParams, hshown.body⟩

/-- The body view shows the decoded body; the head in front of it is untouched. -/
theorem parseBody_shown {c c' : Cursor} {ok : Bool} (hal : c.Aligned) (h : c.ShowsRequest)
    (hrun : parseBody c = some (ok, c')) : c'.ShowsRequest := by
  have hpos := hal.length
  cases parseBody_step hrun with
  | waits => exact h
  | failed m => exact h
  | chunked d hd =>
      obtain ⟨-, hle⟩ := decodeChunks_bounds hd
      -- the copies land behind the head, which stays in front of them
      have hfront : (c.buffer.take c.data.pos).length = c.data.pos := by
        rw [List.length_take]
        omega
      have htake : (c.buffer.take c.data.pos ++ (d.1 ++ c.data.bytes.drop d.1.length)).take
          c.data.pos = c.buffer.take c.data.pos := List.take_left' hfront
      have hold := (RequestShown.of_take h htake).mono
        (Nat.le_add_right c.data.pos (c.data.length - d.2.length))
      refine ⟨hold.path, hold.version, hold.headers, hold.queryParams, ?_, ?_⟩
      · show d.1 <+: (c.buffer.take c.data.pos ++ (d.1 ++ _)).drop c.data.pos
        rw [List.drop_left' hfront]
        exact List.prefix_append _ _
      · show c.data.pos + d.1.length ≤ c.data.pos + (c.data.length - d.2.length)
        unfold StringView.length
        omega
  | sized hle =>
      -- the body is a part of the view
      have hold := RequestShown.mono h (Nat.le_add_right c.data.pos c.parser.bodyExpectedLength)
      refine ⟨hold.path, hold.version, hold.headers, hold.queryParams, ?_, ?_⟩
      · show (c.data.bytes.drop 0).take _ <+: c.buffer.drop (c.data.pos + 0)
        rw [List.drop_zero, Nat.add_zero, hal.bytes]
        exact List.take_prefix _ _
      · show c.data.pos + 0 + ((c.data.bytes.drop 0).take _).length ≤ c.data.pos + _
        rw [List.length_take]
        omega
  | none => exact h

/-- The phase of the request line keeps this of all views. -/
theorem requestLinePhase_shown {rawLength n k : Nat} {c c' : Cursor} (hal : c.Aligned)
    (h : c.ShowsRequest) (hrun : requestLinePhase rawLength n c = some (k, c')) :
    c'.ShowsRequest := by
  have hline := parseRequestLine_shown hal h
  unfold requestLinePhase at hrun
  dsimp only at hrun
  split at hrun
  case isFalse =>
    cases hrun
    exact hline
  have hal₁ : (parseRequestLine c).2.Aligned := by
    cases hfind : c.data.find crlf with
    | none => rwa [parseRequestLine_more (Search.find_eq_none_iff.1 hfind)]
    | some e =>
        obtain ⟨hdata, hbuf⟩ := parseRequestLine_data hfind
        exact hal.removePrefix (c.data.find_add_le hfind) hdata hbuf
  have hheaders := parseHeaders_shown hal₁ hline
  obtain ⟨⟨j, hj, hdata⟩, hbuf⟩ := parseHeaders_data (parseRequestLine c).2
  have hal₂ := hal₁.removePrefix hj hdata hbuf
  unfold headersPhase at hrun
  dsimp only at hrun
  split at hrun
  · cases hrun
    exact hheaders
  split at hrun
  · unfold bodyPhase at hrun
    obtain ⟨⟨ok, d⟩, hd, hx⟩ := Option.map_eq_some_iff.1 hrun
    cases hx
    exact parseBody_shown hal₂ hheaders hd
  · cases hrun
    exact hheaders

/-- **A complete request shows what stands in the bytes it has consumed.** -/
theorem parseRequest_shown {raw : Bytes} {r : ParseResult}
    (h : parseRequest {} raw {} = some r) (hc : r.isComplete) :
    RequestShown r.buffer r.bytesProcessed r.request := by
  have hstate : r.parser.state = .complete := by simpa [ParseResult.isComplete] using hc
  rw [parseRequest_eq] at h
  split at h
  · cases h
    cases hstate
  obtain ⟨⟨n, c'⟩, hphase, rfl⟩ := Option.map_eq_some_iff.1 h
  have hal := Cursor.start_aligned raw
  obtain ⟨hcons, -⟩ := requestLinePhase_consumed hal rfl rfl hphase
  have hbytes : n = c'.data.pos := hcons.bytes (by rw [hstate]; exact ParsingState.noConfusion)
  have hshown := requestLinePhase_shown hal (RequestShown.initial _ _) hphase
  rw [hbytes]
  exact hshown

/-! ## The owning copy -/

/-- What a request says, without where its views point. -/
structure Message where
  method : HttpMethod
  path : Bytes
  version : Bytes
  headers : Bytes → Option Bytes
  body : Bytes

def HttpRequest.message (r : HttpRequest) : Message where
  method := r.method
  path := r.path.bytes
  version := r.version.bytes
  headers name := (r.header name).map (·.bytes)
  body := r.body.bytes

/-- **The owning copy says what the request says.** -/
theorem makeOwned_message {mem : Bytes} {limit len : Nat} {r : HttpRequest}
    (h : RequestShown mem limit r) (hle : limit ≤ len) :
    (r.makeOwned mem len).message = r.message ∧
      ∀ name, (r.makeOwned mem len).query name = r.query name := by
  unfold HttpRequest.makeOwned HttpRequest.message HttpRequest.header HttpRequest.query
  simp only [h.path.shiftView hle, h.version.shiftView hle, h.body.shiftView hle,
    h.headers.shiftMap_get hle, h.queryParams.shiftMap_get hle, implies_true, and_self]

end Oreshnek
