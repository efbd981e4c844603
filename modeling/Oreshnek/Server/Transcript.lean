import Oreshnek.Lib.Frames
import Oreshnek.Net.Delivery
import Oreshnek.Server.Drain
import Oreshnek.Server.Ranges
import Oreshnek.Server.Answers

/-!
# What a client reads

All that the socket of a connection takes, in a run over files that do not change. A
callback of `write_data` hands over some of what remains of the last response installed
(`Telling`), and the next response is installed when nothing remains. So what `write_data`
hands over is at any time a prefix of the responses one behind the other, in the order of the
requests, and contains all that have been sent in full. An interim response is sent by a
`send` of its own, at most once on a connection and between two responses; so is the 408 or
504 of a timeout, behind all responses (`wire_in_order`).
-/

namespace Oreshnek

/-! ## Responses with their files -/

/-- The files by their paths; they do not change. -/
abbrev Files := Bytes → Option Bytes

namespace HttpResponse

/-- The file of a response, empty when it has none. -/
def fileOn (res : HttpResponse) (files : Files) : Bytes := (files res.filePath).getD []

/-- A response as it is sent, with this date. -/
def onWire (res : HttpResponse) (date : Bytes) (files : Files) : Bytes :=
  res.buildHeadersString date ++ res.selectedBody (res.fileOn files)

/-- The range of the response lies in its file, if there is one to be sent. -/
def Fits (files : Files) (res : HttpResponse) : Prop :=
  res.headOnly = false → res.isFile = true →
    ∀ file, files res.filePath = some file → res.InFile file

/-- What `open` and `fstat` answer for the file of a response. -/
def Opens (files : Files) (res : HttpResponse) (opened : Option (Option Int)) : Prop :=
  res.isFile = true → opened = (files res.filePath).map fun file => some (file.length : Int)

/-- The sizes that `stat` answers are those of the files. -/
def Sizes (files : Files) (stat : Bytes → Option Stat) : Prop :=
  ∀ path, (stat path).map Stat.size = (files path).map fun file => (file.length : Int)

/-- What a worker hands on fits its file. -/
theorem applyHttpSemantics_fits {files : Files} {stat : Bytes → Option Stat}
    (hsizes : Sizes files stat) (req : HttpRequest) (res : HttpResponse) :
    Fits files (applyHttpSemantics stat req res) := by
  intro hhead hfile file hthere
  rw [(applyHttpSemantics_filePath stat req res).1] at hfile
  rw [(applyHttpSemantics_filePath stat req res).2] at hthere
  have hsize := hsizes res.filePath
  rw [hthere] at hsize
  obtain ⟨st, hstat, hlength⟩ := Option.map_eq_some_iff.1 hsize
  have hlength : st.size = (file.length : Int) := hlength
  rw [applyHttpSemantics_file hfile hstat] at hhead ⊢
  split at hhead
  next =>
    -- a 304 has no body
    cases hhead
  next hchanged =>
    rw [if_neg hchanged]
    rcases applyRange_outcome req res st with
      hwhole | hnone | ⟨start, stop, hstart, hle, hlt, hpart⟩
    · constructor
      · rw [hwhole.fileOffset]
      · rw [hwhole.fileOffset, hwhole.fileLength]
        omega
    · rw [hnone.headOnly] at hhead
      cases hhead
    · constructor
      · rw [hpart.fileOffset]
        exact hstart
      · rw [hpart.fileOffset, hpart.fileLength]
        omega

end HttpResponse

/-! ## The response of a connection -/

namespace Connection

/-- A connection without anything but the response it is sending, and whether the interim
response has been sent. -/
def sending (c : Connection) : Connection :=
  { continueSent := c.continueSent
    rawHeadersToSend := c.rawHeadersToSend
    headersSent := c.headersSent
    writeBody := c.writeBody
    writeBodyOffset := c.writeBodyOffset
    fileOpen := c.fileOpen
    fileOffset := c.fileOffset
    fileRemaining := c.fileRemaining
    headOnly := c.headOnly }

theorem remaining_congr {c c' : Connection} (h : c'.sending = c.sending) (file : Bytes) :
    c'.remaining file = c.remaining file :=
  congrArg (fun c => c.remaining file) h

theorem Resumable.congr {c c' : Connection} (h : c'.sending = c.sending) {file : Bytes}
    (hc : c.Resumable file) : c'.Resumable file := by
  have hsending : c.sending.Resumable file := ⟨hc.headers, hc.offset, hc.range⟩
  rw [← h] at hsending
  exact ⟨hsending.headers, hsending.offset, hsending.range⟩

/-- With nothing to write nothing remains, of any file. -/
theorem remaining_of_idle {c : Connection} (hidle : c.hasDataToWrite = false) (file : Bytes) :
    c.remaining file = [] := by
  obtain ⟨hraw, hbody⟩ := hasDataToWrite_false.1 hidle
  unfold remaining remainingBody
  rw [hraw, List.nil_append]
  rcases hbody with hhead | ⟨hfile, htext⟩
  · rw [if_pos hhead]
  · split
    · rfl
    · rw [List.drop_eq_nil_of_le htext, List.append_nil]
      split
      next hopen => rw [Int.toNat_eq_zero.2 (hfile hopen), List.take_zero]
      · rfl

/-- Of a file that is not there only the headers are sent. -/
theorem install_missing (c : Connection) {res : HttpResponse} (date : Bytes) {files : Files}
    (hfile : res.isFile = true) (hthere : files res.filePath = none) :
    (c.setResponseContent res date none).remaining (res.fileOn files) = res.onWire date files ∧
      (c.setResponseContent res date none).Resumable (res.fileOn files) := by
  have hempty : res.fileOn files = [] := by
    unfold HttpResponse.fileOn
    rw [hthere]
    rfl
  have hclosed : (c.setResponseContent res date none).fileOpen = false := by
    rw [setResponseContent_fileOpen, Option.isSome_none, Bool.and_false]
  have hsent := (setResponseContent_start c res date none).1
  have htext : (c.setResponseContent res date none).writeBody = [] := by
    unfold setResponseContent
    dsimp only
    rw [if_pos hfile]
    rfl
  constructor
  · unfold remaining remainingBody HttpResponse.onWire HttpResponse.selectedBody
    rw [setResponseContent_raw, hclosed, setResponseContent_headOnly, hempty, if_pos hfile]
    congr 1
    simp only [htext, List.drop_nil, List.take_nil, List.append_nil, ite_self]
  · refine ⟨fun h => absurd (hsent.symm.trans h) Bool.false_ne_true, ?_, ?_⟩
    · exact fun _ h => absurd (hclosed.symm.trans h) Bool.false_ne_true
    · exact fun _ h => absurd (hclosed.symm.trans h) Bool.false_ne_true

/-- A response that has been installed with its file is sent as it is, whether the file is
there or not. -/
theorem install_remaining (c : Connection) {res : HttpResponse} (date : Bytes) {files : Files}
    {opened : Option (Option Int)} (hfits : res.Fits files) (hopens : res.Opens files opened) :
    (c.setResponseContent res date opened).remaining (res.fileOn files) = res.onWire date files ∧
      (c.setResponseContent res date opened).Resumable (res.fileOn files) := by
  by_cases hisFile : res.isFile = true
  · have hopened := hopens hisFile
    cases hthere : files res.filePath with
    | none =>
        rw [hthere] at hopened
        exact hopened ▸ c.install_missing date hisFile hthere
    | some file =>
        have hon : res.fileOn files = file := by
          unfold HttpResponse.fileOn
          rw [hthere]
          rfl
        have hhas : HasFile res file opened := by
          intro hhead _
          rw [hopened, hthere]
          exact ⟨rfl, hfits hhead hisFile file hthere⟩
        unfold HttpResponse.onWire
        rw [hon]
        exact ⟨setResponseContent_remaining c date hhas, setResponseContent_resumable c date hhas⟩
  · -- a text needs no file
    have hhas : HasFile res (res.fileOn files) opened := fun _ h => absurd h hisFile
    exact ⟨setResponseContent_remaining c date hhas, setResponseContent_resumable c date hhas⟩

end Connection

/-! ## What one connection has sent -/

/-- Responses with their dates, one behind the other. -/
def sequenceOf (files : Files) (rs : List (HttpResponse × Bytes)) : Bytes :=
  rs.flatMap fun r => r.1.onWire r.2 files

theorem sequenceOf_concat (files : Files) (rs : List (HttpResponse × Bytes)) (res : HttpResponse)
    (date : Bytes) :
    sequenceOf files (rs ++ [(res, date)]) = sequenceOf files rs ++ res.onWire date files := by
  unfold sequenceOf
  rw [List.flatMap_append, List.flatMap_singleton]

/-- The responses one by one. -/
def textsOf (files : Files) (rs : List (HttpResponse × Bytes)) : List Bytes :=
  rs.map fun r => r.1.onWire r.2 files

/-- What there is of the history about what goes out. -/
def History.outgoing (h : History) : History :=
  { installed := h.installed
    emitted := h.emitted
    finished := h.finished
    interim := h.interim
    sent := h.sent }

namespace Session

/-- What `write_data` has handed over to the socket. An interim response and a notice are sent
beside it. -/
def wire (x : Session) : Bytes := x.hist.emitted.flatMap fun e => e.head ++ e.body

/-- The file of the response that was installed last. -/
def lastFile (x : Session) (files : Files) : Bytes :=
  match x.hist.installed.getLast? with
  | none => []
  | some entry => entry.response.fileOn files

/-- The responses installed so far have been dated so that the client has read them, but
for what remains of the last one. The interim response has been sent at most once, between two
of them. -/
structure Telling (files : Files) (parts : Bytes → Prop) (x : Session)
    (rs : List (HttpResponse × Bytes)) : Prop where
  installed : rs.map Prod.fst = x.hist.installed.map Installation.response
  pending : x.hist.installed.length ≤ x.hist.finished + 1
  finished : sequenceOf files (rs.take x.hist.finished) <+: x.wire
  sent : x.wire <+: sequenceOf files rs
  flag : x.conn.continueSent = true ↔ x.hist.interim ≠ []
  spliced : Frames.Spliced parts (textsOf files rs) x.hist.interim x.wire x.hist.sent
  rest : x.conn.isOpen = true →
    x.wire ++ x.conn.remaining (x.lastFile files) = sequenceOf files rs ∧
      x.conn.Resumable (x.lastFile files)

/-- A notice has been sent behind complete responses only. -/
def Notified (files : Files) (x : Session) (rs : List (HttpResponse × Bytes)) : Prop :=
  ∀ reason, x.hist.closedBy = some reason → notice reason ≠ [] → x.wire = sequenceOf files rs

variable {files : Files} {parts : Bytes → Prop} {rs : List (HttpResponse × Bytes)}

theorem Notified.open {x : Session} (hnone : x.hist.closedBy = none) : x.Notified files rs := by
  intro reason hclosed
  rw [hnone] at hclosed
  cases hclosed

/-- A close without a notice. -/
theorem Notified.quiet {x : Session} {reason : CloseReason}
    (hclosed : x.hist.closedBy = some reason) (hquiet : notice reason = []) :
    x.Notified files rs := by
  intro reason' hclosed' hnotice
  rw [hclosed] at hclosed'
  cases hclosed'
  exact absurd hquiet hnotice

/-- Nothing is sent, and the response stays where it is. -/
theorem Telling.keep {x y : Session} (h : x.Telling files parts rs)
    (hhist : y.hist.outgoing = x.hist.outgoing) (hsending : y.conn.sending = x.conn.sending)
    (hopen : y.conn.isOpen = true → x.conn.isOpen = true) : y.Telling files parts rs := by
  have hinstalled : y.hist.installed = x.hist.installed :=
    (congrArg History.installed hhist :)
  have hfinished : y.hist.finished = x.hist.finished :=
    (congrArg History.finished hhist :)
  have hemitted : y.hist.emitted = x.hist.emitted :=
    (congrArg History.emitted hhist :)
  have hinterim : y.hist.interim = x.hist.interim :=
    (congrArg History.interim hhist :)
  have hall : y.hist.sent = x.hist.sent :=
    (congrArg History.sent hhist :)
  have hflag : y.conn.continueSent = x.conn.continueSent :=
    (congrArg Connection.continueSent hsending :)
  have hwire : y.wire = x.wire := by
    unfold wire
    rw [hemitted]
  have hfile : y.lastFile files = x.lastFile files := by
    unfold lastFile
    rw [hinstalled]
  constructor
  · rw [hinstalled]
    exact h.installed
  · rw [hinstalled, hfinished]
    exact h.pending
  · rw [hwire, hfinished]
    exact h.finished
  · rw [hwire]
    exact h.sent
  · rw [hflag, hinterim]
    exact h.flag
  · rw [hwire, hinterim, hall]
    exact h.spliced
  · intro hy
    rcases h.rest (hopen hy) with ⟨hrest, hresumable⟩
    rw [hwire, hfile, Connection.remaining_congr hsending]
    exact ⟨hrest, hresumable.congr hsending⟩

/-- A connection that is closed has sent what it has sent. -/
theorem Telling.close {x : Session} (h : x.Telling files parts rs) (reason : CloseReason) :
    (x.close reason).Telling files parts rs where
  installed := h.installed
  pending := h.pending
  finished := h.finished
  sent := h.sent
  flag := h.flag
  spliced := h.spliced
  rest hopen := by cases hopen

/-- With nothing to write the client has read everything. -/
theorem Telling.all {x : Session} (h : x.Telling files parts rs) (hopen : x.conn.isOpen = true)
    (hidle : x.conn.hasDataToWrite = false) : x.wire = sequenceOf files rs := by
  have hrest := (h.rest hopen).1
  rw [Connection.remaining_of_idle hidle, List.append_nil] at hrest
  exact hrest

/-- Bytes go out: the next ones of the response. -/
theorem Telling.write {x : Session} (h : x.Telling files parts rs) (hopen : x.conn.isOpen = true)
    (now : Nat) {ans : Answers} (hfaithful : x.conn.Faithful (x.lastFile files) ans.write) :
    (x.afterWrite now ans).Telling files parts rs := by
  rcases h.rest hopen with ⟨hrest, hresumable⟩
  rcases Connection.writeData_remaining hresumable now hfaithful with ⟨htaken, hnext⟩
  have hwire : (x.afterWrite now ans).wire = x.wire ++
      ((x.conn.writeData now ans.write).head ++ (x.conn.writeData now ans.write).body) := by
    unfold wire afterWrite
    dsimp only
    rw [List.flatMap_append, List.flatMap_singleton]
  have hall : (x.afterWrite now ans).wire ++
      (x.afterWrite now ans).conn.remaining (x.lastFile files) = sequenceOf files rs := by
    rw [hwire, List.append_assoc, ← hrest]
    exact congrArg (x.wire ++ ·) htaken
  constructor
  · exact h.installed
  · exact h.pending
  · rw [hwire]
    exact h.finished.trans (List.prefix_append _ _)
  · exact ⟨_, hall⟩
  · have hflag := congrArg Connection.continueSent (x.afterWrite_outside now ans)
    exact (iff_of_eq (congrArg (· = true) hflag)).trans h.flag
  · rw [hwire]
    exact h.spliced.append _
  · intro _
    exact ⟨hall, hnext⟩

/-- The last byte has been sent. -/
theorem Telling.complete {x : Session} (h : x.Telling files parts rs) (hopen : x.conn.isOpen = true)
    (hidle : x.conn.hasDataToWrite = false) : x.complete.Telling files parts rs where
  installed := h.installed
  pending := Nat.le_succ _
  finished := by
    have hlength : rs.length ≤ x.hist.installed.length := by
      have := congrArg List.length h.installed
      rw [List.length_map, List.length_map] at this
      exact this.le
    have hwire : x.complete.wire = sequenceOf files rs := h.all hopen hidle
    rw [hwire]
    show sequenceOf files (rs.take x.hist.installed.length) <+: _
    rw [List.take_of_length_le hlength]
  sent := h.sent
  flag := h.flag
  spliced := h.spliced
  rest := h.rest

/-- The connection is ready for its next request. -/
theorem Telling.reuse {x : Session} (h : x.Telling files parts rs) (hopen : x.conn.isOpen = true)
    (hidle : x.conn.hasDataToWrite = false) (now : Nat) : (x.reuse now).Telling files parts rs where
  installed := h.installed
  pending := h.pending
  finished := h.finished
  sent := h.sent
  flag := h.flag
  spliced := h.spliced
  rest _ := by
    have hwire : (x.reuse now).wire = sequenceOf files rs := h.all hopen hidle
    have hnone : (x.reuse now).conn.hasDataToWrite = false := rfl
    rw [hwire, Connection.remaining_of_idle hnone, List.append_nil]
    refine ⟨rfl, fun _ => rfl, ?_, ?_⟩
    · exact fun _ h => by cases h
    · exact fun _ h => by cases h

/-- The next response is installed. -/
theorem Telling.install {x : Session} (h : x.Telling files parts rs) (hopen : x.conn.isOpen = true)
    (hidle : x.conn.hasDataToWrite = false) (hdone : x.hist.finished = x.hist.installed.length)
    (now : Nat) (ans : Answers) (serial madeFor : Nat) (inline : Bool) {res : HttpResponse}
    (hfits : res.Fits files) (hopens : res.Opens files ans.opened) :
    (x.install now ans serial madeFor inline res).Telling files parts
      (rs ++ [(res, ans.date)]) := by
  have hwire : (x.install now ans serial madeFor inline res).wire = sequenceOf files rs :=
    h.all hopen hidle
  have hlength : rs.length = x.hist.installed.length := by
    have := congrArg List.length h.installed
    rw [List.length_map, List.length_map] at this
    exact this
  have hfile : (x.install now ans serial madeFor inline res).lastFile files = res.fileOn files := by
    unfold lastFile Session.install
    dsimp only
    rw [List.getLast?_concat]
  constructor
  · unfold Session.install
    dsimp only
    rw [List.map_append, List.map_append, h.installed]
    rfl
  · unfold Session.install
    dsimp only
    rw [List.length_append, List.length_singleton, hdone]
  · rw [hwire]
    show sequenceOf files ((rs ++ [(res, ans.date)]).take x.hist.finished) <+: _
    rw [hdone, ← hlength, List.take_left]
  · rw [hwire, sequenceOf_concat]
    exact List.prefix_append _ _
  · have hflag := congrArg Connection.continueSent
      (x.install_outside now ans serial madeFor inline res)
    exact (iff_of_eq (congrArg (· = true) hflag)).trans h.flag
  · have htexts : textsOf files (rs ++ [(res, ans.date)]) =
        textsOf files rs ++ [res.onWire ans.date files] := List.map_append
    rw [htexts]
    exact h.spliced.extend _
  · intro _
    rw [hwire, hfile, sequenceOf_concat]
    rcases x.conn.install_remaining ans.date hfits hopens with ⟨hrest, hresumable⟩
    exact ⟨congrArg (sequenceOf files rs ++ ·) hrest, hresumable⟩

/-- Entering a callback sends nothing. -/
theorem Telling.enter {x z : Session} (h : x.Telling files parts rs) {now : Nat} {ans : Answers}
    (hz : Entered x now ans z) : z.Telling files parts rs := by
  cases hz with
  | plain => exact h
  | shaken =>
      rcases handshake_outside x.conn now ans.accept with ⟨done, want, last, hconn⟩
      have hsending := congrArg Connection.sending hconn
      have hfd := congrArg Connection.isOpen hconn
      exact h.keep rfl hsending fun hopen => hfd.symm.trans hopen

theorem Telling.read {x : Session} (h : x.Telling files parts rs) (now : Nat) (ans : Answers) :
    (x.afterRead now ans).Telling files parts rs := by
  have hout := x.afterRead_outside now ans
  have hsending := congrArg Connection.sending hout
  have hfd := congrArg Connection.isOpen hout
  exact h.keep rfl hsending fun hopen => hfd.symm.trans hopen

/-- The interim response is sent, as far as the socket takes it, when all responses are. -/
theorem Telling.await {x : Session} (h : x.Telling files parts rs) (hopen : x.conn.isOpen = true)
    (hidle : x.conn.hasDataToWrite = false) (hanswered : x.hist.installed.length =
      x.hist.requests.length) {ans : Answers} (hpart : parts (kContinue.take ans.interim)) :
    (x.await ans).Telling files parts rs := by
  by_cases hsends : ¬ x.conn.continueSent = true ∧ x.conn.expectsContinue = true
  · -- no response is under way, so the interim one stands behind all of them
    have hnone : x.hist.interim = [] := by
      by_contra hne
      exact hsends.1 (h.flag.2 hne)
    have hlength : (textsOf files rs).length = x.hist.requests.length := by
      have hboth := congrArg List.length h.installed
      rw [List.length_map, List.length_map, hanswered] at hboth
      rw [textsOf, List.length_map]
      exact hboth
    have hput : Frames.Spliced parts (textsOf files rs) [x.hist.requests.length]
        (textsOf files rs).flatten (x.hist.sent ++ kContinue.take ans.interim) := by
      have hspliced := h.spliced
      rw [hnone, h.all hopen hidle] at hspliced
      rw [← hlength]
      exact hspliced.put hpart
    have hnew : x.await ans = { x with
        conn.continueSent := true
        hist.awaited := x.hist.awaited ++ [x.hist.requests.length]
        hist.interim := x.hist.interim ++ [x.hist.requests.length]
        hist.sent := x.hist.sent ++ kContinue.take ans.interim } := by
      unfold Session.await Connection.maybeSend100Continue
      rw [if_neg (by simp [hsends.1, hopen]), if_pos hsends.2]
      dsimp only
      rw [if_pos hsends.2]
      rfl
    rw [hnew]
    refine ⟨h.installed, h.pending, h.finished, h.sent, by simp, ?_, ?_⟩
    · show Frames.Spliced parts (textsOf files rs) (x.hist.interim ++ _) x.wire _
      rw [hnone, h.all hopen hidle]
      exact hput
    · intro _
      rcases h.rest hopen with ⟨hrest, hresumable⟩
      exact ⟨hrest, hresumable.headers, hresumable.offset, hresumable.range⟩
  · -- nothing is sent
    have hsame : x.conn.maybeSend100Continue = (false, x.conn) := by
      unfold Connection.maybeSend100Continue
      by_cases hsent : x.conn.continueSent = true
      · rw [if_pos (.inl hsent)]
      · rw [if_neg (by simp [hsent, hopen]), if_neg fun hexpects => hsends ⟨hsent, hexpects⟩]
    refine h.keep ?_ ?_ fun _ => hopen
    · unfold Session.await
      rw [hsame]
      rfl
    · unfold Session.await
      rw [hsame]

theorem mem_concat {res : HttpResponse} {date : Bytes} {r : HttpResponse × Bytes}
    (hr : r ∈ rs ++ [(res, date)]) : r ∈ rs ∨ r.2 = date := by
  rcases List.mem_append.1 hr with hr | hr
  · exact .inl hr
  · right
    rw [List.mem_singleton.1 hr]

/-- A text of the server itself needs no file. -/
theorem rejection_text {res : HttpResponse}
    (h : res = tooManyRequests ∨ res = serviceUnavailable) : res.isFile = false := by
  rcases h with rfl | rfl
  · rfl
  · rfl

/-- **Step lemma.** Whatever a callback does, the client goes on reading the responses in
order. -/
theorem react_telling {x y : Session} {draining limited overloaded : Bool} {now o : Nat}
    {ans : Answers} {dir : Direction} {outcome : Outcome} (h : x.Telling files parts rs)
    (hfaithful : dir = .write → x.conn.Faithful (x.lastFile files) ans.write)
    (hpart : parts (kContinue.take ans.interim)) (hx : x.Left (.rearm dir))
    (hopen : x.conn.isOpen = true)
    (hreact : x.react draining limited overloaded now ans o dir = some (y, outcome)) :
    ∃ rs', y.Telling files parts rs' ∧ ∀ r ∈ rs', r ∈ rs ∨ r.2 = ans.date := by
  have hsame : ∀ {z : Session}, z.Telling files parts rs →
      ∃ rs', z.Telling files parts rs' ∧ ∀ r ∈ rs', r ∈ rs ∨ r.2 = ans.date :=
    fun hz => ⟨rs, hz, fun _ hr => .inl hr⟩
  have hstill : (x.afterWrite now ans).conn.isOpen = true := by
    have hsocket := (x.afterWrite_sameSocket now ans).1
    exact (isOpen_congr hsocket).trans hopen
  rcases react_cases hx hopen hreact with hhandle | ⟨z, hflow, hhandle, hready, hdispatch⟩
  · cases hhandle with
    | shaken dir outcome htls hdone houtcome =>
        rcases handshake_outside x.conn now ans.accept with ⟨done, want, last, hconn⟩
        have hsending := congrArg Connection.sending hconn
        exact hsame (h.keep rfl hsending fun _ => hopen)
    | readEnd reason hz => exact hsame ((h.enter hz).read now ans)
    | wrote => exact hsame (h.write hopen now (hfaithful rfl))
    | finished hret hdata =>
        exact hsame ((h.write hopen now (hfaithful rfl)).complete hstill hdata)
  · have hz : z.Telling files parts rs := by
      cases hhandle with
      | read hz => exact (h.enter hz).read now ans
      | reused hsecured hret hdata =>
          have hdone := (h.write hopen now (hfaithful rfl)).complete hstill hdata
          exact hdone.reuse hstill hdata now
    have hzopen : z.conn.isOpen = true := by
      have hsound := handle_sound hx hopen draining now ans
      rw [hflow] at hsound
      exact (isOpen_congr hsound.2.2.1).trans hopen
    -- an answer on the spot, whichever it is
    have hreject : ∀ consumed inb res, res = tooManyRequests ∨ res = serviceUnavailable →
        ∃ rs', ((z.parsed inb).reject now ans o consumed res).Telling files parts rs' ∧
          ∀ r ∈ rs', r ∈ rs ∨ r.2 = ans.date := by
      intro consumed inb res hres
      have htext := rejection_text hres
      have htaken : ((z.parsed inb).answering consumed res).Telling files parts rs :=
        hz.keep rfl rfl fun hopen => hopen
      refine ⟨_, htaken.install hzopen hready.noData hready.finished now ans _ o true ?_ ?_, ?_⟩
      · intro _ hfile
        exact absurd (htext.symm.trans hfile) Bool.false_ne_true
      · intro hfile
        exact absurd (htext.symm.trans hfile) Bool.false_ne_true
      · exact fun r hr => mem_concat hr
    cases hdispatch with
    | limited consumed inb => exact hreject consumed inb _ (.inl rfl)
    | shed consumed inb => exact hreject consumed inb _ (.inr rfl)
    | handedOver consumed inb => exact hsame (hz.keep rfl rfl fun hopen => hopen)
    | bad n inb => exact hsame (hz.keep rfl rfl fun hopen => hopen)
    | waits n inb =>
        have hparsed : (z.parsed inb).Telling files parts rs := hz.keep rfl rfl fun hopen => hopen
        exact hsame (hparsed.await hzopen hready.noData hready.answered hpart)

end Session

namespace Server

variable {H : Type} {cfg : Config H}

/-! ## Runs over files that do not change -/

/-- What a step asks the system about files is answered as they are: `sendfile` and
`pread`, `open` with `fstat`, and `stat`. -/
def Steady (files : Files) (s : Server) : Act H → Prop
  | .client ans => ∀ fd rest o, s.phase = .batch (.client fd .write false :: rest) →
      s.connections.lookup fd = some o →
      (s.objects o).conn.Faithful ((s.objects o).lastFile files) ans.write
  | .complete ans => ∀ c ready rest, s.phase = .completing (c :: ready) rest →
      c.item.response.Opens files ans.opened
  | .work _ env => HttpResponse.Sizes files env.stat
  | _ => True

/-- The header blocks are dated so. -/
def Dates (dated : Bytes → Prop) : Act H → Prop
  | .client ans => dated ans.date
  | .complete ans => dated ans.date
  | _ => True

/-- The socket takes so much of an interim response. -/
def Takes (parts : Bytes → Prop) : Act H → Prop
  | .client ans => parts (Session.kContinue.take ans.interim)
  | _ => True

theorem takes_any (a : Act H) : Takes (· <+: Session.kContinue) a := by
  cases a with
  | client ans => exact List.take_prefix _ _
  | _ => trivial

theorem dates_any (a : Act H) : Dates (fun _ => True) a := by
  cases a with
  | client => trivial
  | complete => trivial
  | _ => trivial

/-- What is known of a connection object in such a run. -/
structure Tells (files : Files) (parts dated : Bytes → Prop) (x : Session) : Prop where
  telling : ∃ rs, x.Telling files parts rs ∧ x.Notified files rs ∧ ∀ r ∈ rs, dated r.2
  fits : ∀ p ∈ x.hist.produced, p.response.Fits files

/-- The client of a new connection has read nothing. -/
theorem new_tells (files : Files) (parts dated : Bytes → Prop) (fd now : Nat) (clientIp : Bytes)
    (tls : Bool) : Tells files parts dated (.new fd now clientIp tls) := by
  constructor
  · refine ⟨[], ⟨rfl, Nat.zero_le _, List.prefix_rfl, List.prefix_rfl, ?_, .plain _, ?_⟩,
      .open rfl, ?_⟩
    · exact ⟨fun hsent => (Bool.false_ne_true hsent).elim, fun hsome => absurd rfl hsome⟩
    · intro _
      refine ⟨rfl, fun _ => rfl, ?_, ?_⟩
      · exact fun _ h => by cases h
      · exact fun _ h => by cases h
    · intro r hr
      cases hr
  · intro p hp
    cases hp

/-- A callback ends that has not timed out. -/
theorem Tells.concluded {files : Files} {parts dated : Bytes → Prop} {x : Session}
    (h : Tells files parts dated x) (success : Bool)
    {outcome : Outcome} (hquiet : ∀ reason, outcome = .close reason → Session.notice reason = []) :
    Tells files parts dated (x.concluded success outcome) := by
  rcases x.concluded_cases success outcome with ⟨hsame, -⟩ | ⟨reason, hclosed, hreason⟩
  · rw [hsame]
    exact h
  · rcases h.telling with ⟨rs, hrs, -, hdates⟩
    have hnothing : Session.notice reason = [] := by
      rcases hreason with houtcome | ⟨hio, -⟩
      · exact hquiet reason houtcome
      · rw [hio]
        rfl
    rw [hclosed]
    exact ⟨⟨rs, hrs.close reason, .quiet rfl hnothing, hdates⟩, h.fits⟩

/-- Nothing is being written when a notice is sent. -/
theorem notice_idle {s : Server} (hinv : s.Inv) {settings : Settings} {fd o : Nat}
    {reason : CloseReason} (hlookup : s.connections.lookup fd = some o)
    (hreason : timeoutOf settings s.now (s.objects o).conn = some reason)
    (hnotice : Session.notice reason ≠ []) : (s.objects o).conn.hasDataToWrite = false := by
  rcases hinv.modes hlookup with hhanded | hwriting | hidle
  · exact hhanded.noData
  · -- a response that is not taken times out without a notice
    unfold timeoutOf at hreason
    rw [hwriting.workerInFlight, if_neg Bool.false_ne_true] at hreason
    by_cases hdata : (s.objects o).conn.hasDataToWrite = true
    · rw [if_pos hdata] at hreason
      split at hreason
      · cases hreason
        exact absurd rfl hnotice
      · cases hreason
    · exact Bool.eq_false_of_not_eq_true hdata
  · exact hidle.noData

/-- Whatever becomes of an object, its client goes on reading the responses in order. -/
theorem moves_tells {files : Files} {parts dated : Bytes → Prop} {s : Server} {a : Act H} {o : Nat}
    {y : Session} (hinv : s.Inv) (hmatched : s.Matched) (hsettled : (s.objects o).Settled)
    (hok : Steady files s a) (hdated : Dates dated a) (htakes : Takes parts a)
    (hx : Tells files parts dated (s.objects o)) (h : Moves cfg s a o y) :
    Tells files parts dated y := by
  rcases hx.telling with ⟨rs, hrs, hnotified, hdates⟩
  cases h with
  | same => exact hx
  | created fd clientIp ha ho => exact new_tells files parts dated fd s.now clientIp cfg.tls
  | failed => exact ⟨⟨rs, hrs.close .ioError, .quiet rfl rfl, hdates⟩, hx.fits⟩
  | reacted ans fd dir rest x outcome ha hphase hlookup hleft hopen hreact =>
      subst ha
      have hfaithful : dir = .write →
          (s.objects o).conn.Faithful ((s.objects o).lastFile files) ans.write := by
        rintro rfl
        exact hok fd rest o hphase hlookup
      rcases Session.react_telling hrs hfaithful htakes hleft hopen hreact with ⟨rs', hrs', hnew⟩
      have hdates' : ∀ r ∈ rs', dated r.2 := by
        intro r hr
        rcases hnew r hr with hold | hdate
        · exact hdates r hold
        · exact hdate ▸ hdated
      have hnone := (Session.react_closedBy hleft hopen hreact).trans (hsettled.1.2 hopen)
      have hquiet : ∀ reason, outcome = .close reason → Session.notice reason = [] := by
        rintro reason rfl
        rcases Session.react_reason hleft hopen hreact with rfl | rfl | rfl | rfl | rfl
        all_goals rfl
      refine Tells.concluded ⟨⟨rs', hrs', .open hnone, hdates'⟩, ?_⟩ ans.rearmed hquiet
      cases Session.react_grows hleft hopen hreact with
      | same hrequests hproduced hinstalled houtcome =>
          rw [hproduced]
          exact hx.fits
      | taken request hrequests hproduced hinstalled =>
          rw [hproduced]
          exact hx.fits
      | rejected request res status hres hanswered hrequests hproduced hinstalled =>
          rw [hproduced]
          intro p hp
          rcases List.mem_append.1 hp with hp | hp
          · exact hx.fits p hp
          · rw [List.mem_singleton.1 hp]
            intro _ hfile
            exact absurd ((Session.rejection_text hres).symm.trans hfile) Bool.false_ne_true
  | completed ans c ready rest ha hphase hconn hlookup hhanded hserial =>
      subst ha
      -- the response has been produced for this connection
      have hmem : c ∈ s.completions := by
        unfold completions
        rw [hphase]
        exact Multiset.mem_coe.2 (List.mem_append_right _ List.mem_cons_self)
      rcases hmatched.completion c hmem with ⟨-, p, hp, -, hres⟩
      rw [hconn] at hp
      have hfits : c.item.response.Fits files := hres ▸ hx.fits p hp
      have hdone : (s.objects o).workerDone.Telling files parts rs :=
        hrs.keep rfl rfl fun hopen => hopen
      have hnone := hsettled.1.2 (serves_open hinv hlookup)
      have hnext := hdone.install (serves_open hinv hlookup) hhanded.noData hhanded.finished s.now
        ans c.serial o false hfits (hok c ready rest hphase)
      refine Tells.concluded ⟨⟨_, hnext, .open hnone, ?_⟩, hx.fits⟩ ans.rearmed ?_
      · intro r hr
        rcases Session.mem_concat hr with hold | hdate
        · exact hdates r hold
        · exact hdate ▸ hdated
      · intro reason heq
        cases heq
  | timedOut fd reason ha hlookup hreason =>
      refine ⟨⟨rs, hrs.close reason, ?_, hdates⟩, hx.fits⟩
      intro reason' hclosed hnotice
      cases hclosed
      exact hrs.all (serves_open hinv hlookup) (notice_idle hinv hlookup hreason hnotice)
  | pushed k env t ending res ha hk hconn htask =>
      subst ha
      refine ⟨⟨rs, hrs.keep rfl rfl fun hopen => hopen, hnotified, hdates⟩, ?_⟩
      intro p hp
      rcases List.mem_append.1 hp with hp | hp
      · exact hx.fits p hp
      · rw [List.mem_singleton.1 hp]
        rcases workerTask_pushed htask with hnone | ⟨req', res', -, hpushed⟩
        · cases hnone
        · cases hpushed
          exact HttpResponse.applyHttpSemantics_fits hok req' _

/-- Every connection tells, in every state reached. -/
theorem reached_tells {files : Files} {parts dated : Bytes → Prop} {s : Server}
    (h : Runs.Reached (serverSystem cfg)
      (fun s a => Steady files s a ∧ Dates dated a ∧ Takes parts a) s) :
    ∀ o, o < s.nextObject → Tells files parts dated (s.objects o) := by
  apply reached_session (J := fun _ x => Tells files parts dated x) ?_ ?_ h
  · intro o fd now clientIp
    exact new_tells files parts dated fd now clientIp cfg.tls
  · intro s a o y hs hok ho hx hmove
    exact moves_tells (reachable_inv hs.reachable) (reachable_matched hs.reachable)
      (reachable_settled hs.reachable o ho) hok.1 hok.2.1 hok.2.2 hx hmove

/-! ## What the client reads -/

/-- A request with the response that was sent for it, and its date. -/
structure Exchange where
  request : HttpRequest
  response : HttpResponse
  date : Bytes

def Exchange.onWire (e : Exchange) (files : Files) : Bytes := e.response.onWire e.date files

/-- The responses of a connection belong to its first requests. -/
theorem exchanges_of {x : Session} {o : Nat} {rs : List (HttpResponse × Bytes)}
    (horder : InOrder o x.log) (hinstalled : rs.map Prod.fst =
      x.hist.installed.map Installation.response) :
    ∃ es : List Exchange, es.map (fun e => (e.response, e.date)) = rs ∧
      es.map Exchange.request <+: x.hist.requests ∧
      ∀ i e, es[i]? = some e → ⟨i, e.request, e.response⟩ ∈ x.hist.produced := by
  -- the response at `i` was produced for the request at `i`
  have hmade : ∀ i r, rs[i]? = some r → ∃ request, x.hist.requests[i]? = some request ∧
      ⟨i, request, r.1⟩ ∈ x.hist.produced := by
    intro i r hr
    have hentry : (rs.map Prod.fst)[i]? =
        (x.hist.installed.map Installation.response)[i]? := by rw [hinstalled]
    rw [List.getElem?_map, List.getElem?_map, hr] at hentry
    rcases Option.map_eq_some_iff.1 hentry.symm with ⟨entry, hentry, hres⟩
    rcases horder.installed i entry hentry with ⟨-, p, hp, hserial, hpres⟩
    refine ⟨p.request, hserial ▸ horder.made p hp, ?_⟩
    have hsame : r.1 = p.response := hres.symm.trans hpres.symm
    rw [hsame, ← hserial]
    exact hp
  have hle : rs.length ≤ x.hist.requests.length := by
    by_contra hlong
    rcases hmade x.hist.requests.length _ (List.getElem?_eq_getElem (Nat.not_le.1 hlong)) with
      ⟨request, hrequest, -⟩
    rw [List.getElem?_eq_none le_rfl] at hrequest
    cases hrequest
  have htaken : rs.length = (x.hist.requests.take rs.length).length := by
    rw [List.length_take, Nat.min_eq_left hle]
  refine ⟨(rs.zip (x.hist.requests.take rs.length)).map fun p => ⟨p.2, p.1.1, p.1.2⟩, ?_, ?_, ?_⟩
  · rw [List.map_map]
    exact List.map_fst_zip htaken.le
  · rw [List.map_map]
    change (rs.zip (x.hist.requests.take rs.length)).map Prod.snd <+: _
    rw [List.map_snd_zip htaken.ge]
    exact List.take_prefix _ _
  · intro i e he
    rw [List.getElem?_map] at he
    rcases Option.map_eq_some_iff.1 he with ⟨⟨r, request⟩, hp, rfl⟩
    rcases List.getElem?_zip_eq_some.1 hp with ⟨hr, hrequest⟩
    rcases hmade i r hr with ⟨request', hrequest', hproduced⟩
    rw [List.getElem?_take, hrequest'] at hrequest
    split at hrequest
    · cases hrequest
      exact hproduced
    · cases hrequest

theorem onWire_sequence (files : Files) (es : List Exchange) :
    es.flatMap (·.onWire files) = sequenceOf files (es.map fun e => (e.response, e.date)) := by
  unfold sequenceOf
  rw [List.flatMap_map]
  rfl

/-- The responses that a connection has got, each with its request, and what of them the socket
has taken. -/
structure Exchanged (files : Files) (parts dated : Bytes → Prop) (x : Session)
    (es : List Exchange) : Prop where
  requests : es.map Exchange.request <+: x.hist.requests
  produced : ∀ i e, es[i]? = some e → ⟨i, e.request, e.response⟩ ∈ x.hist.produced
  dates : ∀ e ∈ es, dated e.date
  installed : es.length = x.hist.installed.length
  pending : es.length ≤ x.hist.finished + 1
  finished : (es.take x.hist.finished).flatMap (·.onWire files) <+: x.wire
  wire : x.wire <+: es.flatMap (·.onWire files)
  sent : Frames.Spliced parts (es.map (·.onWire files)) x.hist.interim x.wire
    x.hist.sent
  noticed : ∀ reason, x.hist.closedBy = some reason → Session.notice reason ≠ [] →
    x.wire = es.flatMap (·.onWire files)
  all : x.conn.isOpen = true → x.conn.hasDataToWrite = false →
    x.wire = es.flatMap (·.onWire files)

/-- **Run lemma.** So it is in every run over files that do not change. -/
theorem reached_exchanged {files : Files} {parts dated : Bytes → Prop} {s : Server}
    (h : Runs.Reached (serverSystem cfg)
      (fun s a => Steady files s a ∧ Dates dated a ∧ Takes parts a) s) {o : Nat}
    (ho : o < s.nextObject) : ∃ es, Exchanged files parts dated (s.objects o) es := by
  rcases (reached_tells h o ho).telling with ⟨rs, hrs, hnotified, hdates⟩
  rcases exchanges_of ((reachable_matched h.reachable).order o ho) hrs.installed with
    ⟨es, hes, hrequests, hproduced⟩
  have hlength : es.length = (s.objects o).hist.installed.length := by
    have hboth := congrArg List.length hrs.installed
    rw [← hes, List.length_map, List.length_map, List.length_map] at hboth
    exact hboth
  have htexts : es.map (·.onWire files) = textsOf files rs := by
    rw [← hes]
    unfold textsOf
    rw [List.map_map]
    rfl
  refine ⟨es, hrequests, hproduced, ?_, hlength, hlength.trans_le hrs.pending, ?_, ?_, ?_, ?_, ?_⟩
  · intro e he
    apply hdates (e.response, e.date)
    rw [← hes]
    exact List.mem_map_of_mem he
  · rw [onWire_sequence, List.map_take, hes]
    exact hrs.finished
  · rw [onWire_sequence, hes]
    exact hrs.sent
  · rw [htexts]
    exact hrs.spliced
  · rw [onWire_sequence, hes]
    exact hnotified
  · rw [onWire_sequence, hes]
    exact hrs.all

/-- These bytes are what `write_data` has handed over, with at most one interim response
between two of the responses, and behind all of them what there is of a notice. -/
def Carries (files : Files) (parts : Bytes → Prop) (x : Session) (es : List Exchange)
    (bytes : Bytes) : Prop :=
  ∃ sent part, bytes = sent ++ part ∧
    Frames.Spliced parts (es.map (·.onWire files)) x.hist.interim x.wire sent ∧
    (part ≠ [] → x.wire = es.flatMap (·.onWire files) ∧
      ∃ reason, x.hist.closedBy = some reason ∧ part <+: Session.notice reason)

/-- All that the socket has taken, as far as the history goes and behind it. -/
theorem Exchanged.carries {files : Files} {parts dated : Bytes → Prop} {x : Session}
    {es : List Exchange} (h : Exchanged files parts dated x es) {bytes : Bytes}
    (htook : x.Took bytes) :
    Carries files parts x es bytes := by
  rcases htook with ⟨part, hbytes, hpart⟩
  refine ⟨x.hist.sent, part, hbytes, h.sent, ?_⟩
  intro hsome
  cases hclosed : x.hist.closedBy with
  | none =>
      rw [hclosed] at hpart
      exact absurd (List.prefix_nil.1 hpart) hsome
  | some reason =>
      rw [hclosed] at hpart
      have hnotice : Session.notice reason ≠ [] := by
        intro hnone
        have hpart : part <+: Session.notice reason := hpart
        rw [hnone] at hpart
        exact hsome (List.prefix_nil.1 hpart)
      exact ⟨h.noticed reason hclosed hnotice, reason, rfl, hpart⟩

/-- The request of a client is answered, and the response sent. -/
def exchangeText : List (Act Nat) := answerOne ++ deliverOne

/-- No step asks for a file. -/
def WithoutFiles : Act Nat → Prop
  | .client ans => ans.write.sendfile = [] ∧ ans.write.sslFile = []
  | .complete ans => ans.opened = none
  | .work _ env => ∀ path, env.stat path = none
  | _ => True

/-- A run that asks for no file is one over files that do not change. -/
theorem WithoutFiles.steady {a : Act Nat} (h : WithoutFiles a) (s : Server) :
    Steady (fun _ => none) s a := by
  cases a with
  | client ans =>
      intro fd rest o _ _ _ _ _
      rw [h.1, h.2]
      split
      · trivial
      · trivial
  | complete ans => exact fun c ready rest _ _ => h
  | work k env =>
      intro path
      rw [h path]
      rfl
  | _ => trivial

end Server

end Oreshnek
