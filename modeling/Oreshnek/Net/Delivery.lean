import Oreshnek.Net.Sending

/-!
# The bytes of a response

What the calls of `write_data` hand to the socket, byte by byte, with a file that does
not change. `remaining` is what is still to be sent. Each call takes a prefix of it,
however short the counts are and wherever it is interrupted (`writeData_remaining`). So
the calls have at any time sent a prefix of the header block and the selected bytes, by
`send` and `sendfile` as by `SSL_write` and `pread` (`delivered`).
-/

namespace Oreshnek

/-- The bytes of the body that a response selects, out of `file` if it is one of a file. -/
def HttpResponse.selectedBody (res : HttpResponse) (file : Bytes) : Bytes :=
  if res.headOnly then []
  else if res.isFile then
    if res.fileLength < 0 then file.drop res.fileOffset.toNat
    else (file.drop res.fileOffset.toNat).take res.fileLength.toNat
  else
    match res.bodyContent with
    | .text content => content
    | .filePath _ => []

/-- The range of the response lies in the file. -/
structure HttpResponse.InFile (res : HttpResponse) (file : Bytes) : Prop where
  start : 0 ≤ res.fileOffset
  stop : res.fileOffset + max res.fileLength 0 ≤ file.length

namespace Connection

/-- The bytes of the body that are still to be sent. -/
def remainingBody (c : Connection) (file : Bytes) : Bytes :=
  if c.headOnly then []
  else
    (if c.fileOpen then (file.drop c.fileOffset.toNat).take c.fileRemaining.toNat else []) ++
      c.writeBody.drop c.writeBodyOffset

/-- All that is still to be sent. -/
def remaining (c : Connection) (file : Bytes) : Bytes := c.rawHeadersToSend ++ c.remainingBody file

/-- What calls of `write_data` hand to the socket, in order. -/
def emitted (c : Connection) : List (Nat × WriteAnswers) → Bytes
  | [] => []
  | (now, answers) :: calls =>
      let w := c.writeData now answers
      w.head ++ w.body ++ w.conn.emitted calls

/-! ## Answers about a file that does not change -/

/-- `sendfile` sends what stands in the file from the offset. -/
def sendfileFrom (file : Bytes) : List SendfileResult → Int → Int → Prop
  | .sent first rest :: answers, offset, left =>
      0 < left →
        let count := ((first :: rest).take (min left.toNat fileSendChunk)).length
        first :: rest <+: file.drop offset.toNat ∧
          sendfileFrom file answers (offset + count) (left - count)
  | _, _, _ => True

/-- `pread` reads what stands in the file from the offset. -/
def preadFrom (file : Bytes) : List (Option (UInt8 × Bytes) × SslWrite) → Int → Int → Prop
  | (some (first, rest), .sent more) :: answers, offset, left =>
      0 < left →
        let count := (((first :: rest).take (min left.toNat 16384)).take (more + 1)).length
        first :: rest <+: file.drop offset.toNat ∧
          preadFrom file answers (offset + count) (left - count)
  | _, _, _ => True

/-- The answers about the file are those of its bytes. -/
def FileAnswers (file : Bytes) (c : Connection) (answers : WriteAnswers) : Prop :=
  c.headOnly = false → c.fileOpen = true →
    if c.usesTls then preadFrom file answers.sslFile c.fileOffset c.fileRemaining
    else sendfileFrom file answers.sendfile c.fileOffset c.fileRemaining

/-- A call that comes to the file finds it as it is. -/
def Faithful (file : Bytes) (c : Connection) (answers : WriteAnswers) : Prop :=
  (∃ w, c.headerStage answers = .goOn w) → c.FileAnswers file answers

/-- So do all calls. -/
def FaithfulAll (file : Bytes) (c : Connection) : List (Nat × WriteAnswers) → Prop
  | [] => True
  | (now, answers) :: calls =>
      c.Faithful file answers ∧ (c.writeData now answers).conn.FaithfulAll file calls

/-- The progress of a response as calls leave it for the next one. -/
structure Resumable (file : Bytes) (c : Connection) : Prop where
  headers : c.headersSent = true → c.rawHeadersToSend = []
  offset : c.headOnly = false → c.fileOpen = true → 0 ≤ c.fileOffset
  range : c.headOnly = false → c.fileOpen = true → c.fileOffset + c.fileRemaining ≤ file.length

/-! ## The headers -/

/-- A connection without what sending the headers changes. -/
def outsideHead (c : Connection) : Connection :=
  { c with rawHeadersToSend := [], headersSent := false, tlsWant := .read }

/-- The stage of the headers leaves the body as it is. -/
theorem sendHeaders_outsideHead (c : Connection) (answer : SendResult) :
    (c.sendHeaders answer).written.conn.outsideHead = c.outsideHead := by
  unfold sendHeaders
  split
  · rfl
  split
  · rfl
  cases answer with
  | sent more =>
      dsimp only
      split
      · rfl
      · rfl
  | wouldBlock => rfl
  | failed => rfl

theorem sslHeaders_outsideHead (answers : List SslWrite) (c : Connection) (head : Bytes) :
    (sslHeaders answers c head).written.conn.outsideHead = c.outsideHead := by
  fun_induction sslHeaders answers c head with
  | case3 c head hsent hraw more answers ih => exact ih
  | _ => rfl

theorem headerStage_outsideHead (c : Connection) (answers : WriteAnswers) :
    (c.headerStage answers).written.conn.outsideHead = c.outsideHead := by
  unfold headerStage
  split
  · exact sslHeaders_outsideHead _ _ _
  · exact sendHeaders_outsideHead _ _

/-- The stage goes on when no header byte is left, and marks them sent only then. -/
def HeadersDone (stage : Stage) : Prop :=
  (stage.written.conn.headersSent = true → stage.written.conn.rawHeadersToSend = []) ∧
    ∀ w, stage = .goOn w → w.conn.rawHeadersToSend = []

theorem headersDone_goOn {w : Written} (h : w.conn.rawHeadersToSend = []) :
    HeadersDone (.goOn w) := by
  refine ⟨fun _ => h, ?_⟩
  rintro w' hw'
  cases hw'
  exact h

theorem headersDone_return {w : Written} (h : w.conn.headersSent = false) :
    HeadersDone (.return_ w) := by
  constructor
  · intro hsent
    exact absurd (h.symm.trans hsent) Bool.false_ne_true
  · intro w' hw'
    cases hw'

/-- Headers are marked as sent only when none are left. -/
theorem sendHeaders_done {c : Connection} (h : c.headersSent = true → c.rawHeadersToSend = [])
    (answer : SendResult) : HeadersDone (c.sendHeaders answer) := by
  unfold sendHeaders
  split
  case isTrue hsent => exact headersDone_goOn (h hsent)
  case isFalse hsent =>
    have hsent := eq_false_of_ne_true hsent
    split
    case isTrue hraw => exact headersDone_goOn hraw
    case isFalse hraw =>
      cases answer with
      | sent more =>
          dsimp only
          split
          · -- some are left
            exact headersDone_return hsent
          case isFalse hleft => exact headersDone_goOn (not_not.1 hleft)
      | wouldBlock => exact headersDone_return hsent
      | failed => exact headersDone_return hsent

/-- Over TLS too `headers_sent_` is set only when the header block is out. -/
theorem sslHeaders_done (answers : List SslWrite) (c : Connection) (head : Bytes)
    (h : c.headersSent = true → c.rawHeadersToSend = []) :
    HeadersDone (sslHeaders answers c head) := by
  fun_induction sslHeaders answers c head with
  | case1 answers c head hsent => exact headersDone_goOn (h hsent)
  | case2 answers c head hsent hraw => exact headersDone_goOn hraw
  | case3 c head hsent hraw more answers ih =>
      exact ih fun hsent' => absurd hsent' hsent
  | case4 c head hsent hraw => exact headersDone_return (eq_false_of_ne_true hsent)
  | case5 c head hsent hraw => exact headersDone_return (eq_false_of_ne_true hsent)
  | case6 c head hsent hraw => exact headersDone_return (eq_false_of_ne_true hsent)
  | case7 c head hsent hraw => exact headersDone_return (eq_false_of_ne_true hsent)

/-- `headers_sent_` is set only when the header block is out. -/
theorem headerStage_headersDone {c : Connection}
    (h : c.headersSent = true → c.rawHeadersToSend = []) (answers : WriteAnswers) :
    HeadersDone (c.headerStage answers) := by
  unfold headerStage
  split
  · exact sslHeaders_done _ c [] h
  · exact sendHeaders_done h _

/-! ## The body -/

/-- Bytes of the file that are taken at the offset are the first of what remains. -/
theorem advanceFile_remaining {file bytes : Bytes} {c : Connection} (hhead : c.headOnly = false)
    (hopen : c.fileOpen = true) (hoffset : 0 ≤ c.fileOffset)
    (hbytes : bytes <+: file.drop c.fileOffset.toNat)
    (hcount : bytes.length ≤ c.fileRemaining.toNat) :
    bytes ++ (c.advanceFile bytes.length).remainingBody file = c.remainingBody file := by
  have hnext : (c.fileOffset + bytes.length).toNat = c.fileOffset.toNat + bytes.length := by omega
  have hleft : (c.fileRemaining - bytes.length).toNat = c.fileRemaining.toNat - bytes.length := by
    omega
  have hall : c.fileRemaining.toNat = bytes.length + (c.fileRemaining.toNat - bytes.length) := by
    omega
  unfold remainingBody advanceFile
  dsimp only
  rw [hhead, hopen, if_neg Bool.false_ne_true, if_neg Bool.false_ne_true, if_pos rfl, if_pos rfl,
    hnext, hleft, ← List.append_assoc]
  congr 1
  calc bytes ++ (file.drop (c.fileOffset.toNat + bytes.length)).take
          (c.fileRemaining.toNat - bytes.length)
      = (file.drop c.fileOffset.toNat).take bytes.length ++
          ((file.drop c.fileOffset.toNat).drop bytes.length).take
            (c.fileRemaining.toNat - bytes.length) := by
        rw [← List.prefix_iff_eq_take.1 hbytes, List.drop_drop]
    _ = (file.drop c.fileOffset.toNat).take c.fileRemaining.toNat := by
        rw [← List.take_add, ← hall]

/-- Progress in the file can be resumed. -/
theorem Resumable.advance {file : Bytes} {c : Connection} (h : c.Resumable file) (count : Nat) :
    (c.advanceFile count).Resumable file where
  headers := h.headers
  offset := fun hhead hopen => Int.add_nonneg (h.offset hhead hopen) (Int.natCast_nonneg count)
  range := by
    intro hhead hopen
    have := h.range hhead hopen
    change c.fileOffset + count + (c.fileRemaining - count) ≤ file.length
    omega

/-- What a stage of the body sends and what it leaves are `before`, and the connection
can go on from there. -/
structure Delivers (file before : Bytes) (w : Written) : Prop where
  bytes : w.body ++ w.conn.remainingBody file = before
  resumable : w.conn.Resumable file

/-- The calls of `sendfile` hand over the rest of the file in order. -/
theorem sendfileLoop_delivers {file : Bytes} (answers : List SendfileResult) (c : Connection)
    (body : Bytes) (hhead : c.headOnly = false) (hopen : c.fileOpen = true)
    (hresumable : c.Resumable file)
    (hfrom : sendfileFrom file answers c.fileOffset c.fileRemaining) :
    Delivers file (body ++ c.remainingBody file) (sendfileLoop answers c body).written := by
  fun_induction sendfileLoop answers c body with
  | case2 c body hmore count first rest answers bytes ih =>
      rcases hfrom (Int.not_le.1 hmore) with ⟨hleads, hnext⟩
      have hbytes : bytes <+: file.drop c.fileOffset.toNat :=
        (List.take_prefix _ _).trans hleads
      have hcount : bytes.length ≤ c.fileRemaining.toNat :=
        (List.length_take_le _ _).trans (Nat.min_le_left _ _)
      have hrest := ih hhead hopen (hresumable.advance bytes.length) hnext
      rwa [List.append_assoc,
        advanceFile_remaining hhead hopen (hresumable.offset hhead hopen) hbytes hcount] at hrest
  | _ => exact ⟨rfl, hresumable⟩

/-- The loop over a file hands over what it reads, block by block, and stops in front of what
the socket does not take. -/
theorem sslFileLoop_delivers {file : Bytes} (answers : List (Option (UInt8 × Bytes) × SslWrite))
    (c : Connection) (body : Bytes) (hhead : c.headOnly = false) (hopen : c.fileOpen = true)
    (hresumable : c.Resumable file)
    (hfrom : preadFrom file answers c.fileOffset c.fileRemaining) :
    Delivers file (body ++ c.remainingBody file) (sslFileLoop answers c body).written := by
  fun_induction sslFileLoop answers c body with
  | case2 c body hmore want first rest more answers bytes ih =>
      rcases hfrom (Int.not_le.1 hmore) with ⟨hleads, hnext⟩
      have hbytes : bytes <+: file.drop c.fileOffset.toNat :=
        (List.take_prefix _ _).trans ((List.take_prefix _ _).trans hleads)
      have hread : ((first :: rest).take want).length ≤ c.fileRemaining.toNat :=
        (List.length_take_le _ _).trans (Nat.min_le_left _ _)
      have hcount : bytes.length ≤ c.fileRemaining.toNat := (List.length_take_le' _ _).trans hread
      have hrest := ih hhead hopen (hresumable.advance bytes.length) hnext
      rwa [List.append_assoc,
        advanceFile_remaining hhead hopen (hresumable.offset hhead hopen) hbytes hcount] at hrest
  | case3 | case4 => exact ⟨rfl, hresumable.headers, hresumable.offset, hresumable.range⟩
  | _ => exact ⟨rfl, hresumable⟩

/-- The file stage hands over the rest of the file in order, plain or over TLS. -/
theorem fileStage_delivers {file : Bytes} {c : Connection} (hhead : c.headOnly = false)
    (hopen : c.fileOpen = true) (hresumable : c.Resumable file) {answers : WriteAnswers}
    (hfaithful : if c.usesTls then preadFrom file answers.sslFile c.fileOffset c.fileRemaining
      else sendfileFrom file answers.sendfile c.fileOffset c.fileRemaining) :
    Delivers file (c.remainingBody file) (c.fileStage answers).written := by
  unfold fileStage
  split at hfaithful
  case isTrue htls =>
    rw [if_pos htls]
    exact sslFileLoop_delivers _ c [] hhead hopen hresumable hfaithful
  case isFalse htls =>
    rw [if_neg htls]
    exact sendfileLoop_delivers _ c [] hhead hopen hresumable hfaithful

/-- More of the text is taken. -/
theorem text_remaining {file : Bytes} {c : Connection} (hhead : c.headOnly = false)
    (hclosed : c.fileOpen = false) (more : Nat) :
    (c.writeBody.drop c.writeBodyOffset).take (more + 1) ++
      remainingBody { c with writeBodyOffset := c.writeBodyOffset +
        ((c.writeBody.drop c.writeBodyOffset).take (more + 1)).length } file =
      c.remainingBody file := by
  unfold remainingBody
  dsimp only
  rw [hhead, hclosed, if_neg Bool.false_ne_true, if_neg Bool.false_ne_true,
    if_neg Bool.false_ne_true, List.nil_append, List.nil_append, ← List.drop_drop]
  exact (List.prefix_append_drop (List.take_prefix _ _)).symm

/-- The text of a response is handed over from the offset on. -/
theorem textStage_delivers {file : Bytes} {c : Connection} (hhead : c.headOnly = false)
    (hclosed : c.fileOpen = false) (hresumable : c.Resumable file) (answers : WriteAnswers) :
    Delivers file (c.remainingBody file) (c.textStage answers).written := by
  have hsame : ∀ c' : Connection, c'.headersSent = c.headersSent →
      c'.rawHeadersToSend = c.rawHeadersToSend → c'.fileOpen = c.fileOpen → c'.Resumable file := by
    intro c' hsent hraw hopen
    have hopen' : c'.fileOpen ≠ true := by
      rw [hopen, hclosed]
      exact Bool.false_ne_true
    refine ⟨?_, fun _ h => absurd h hopen', fun _ h => absurd h hopen'⟩
    rw [hsent, hraw]
    exact hresumable.headers
  unfold textStage
  split
  · unfold sslBody
    split
    · cases answers.sslBody with
      | sent more => exact ⟨text_remaining hhead hclosed more, hsame _ rfl rfl rfl⟩
      | wantRead => exact ⟨rfl, hsame _ rfl rfl rfl⟩
      | wantWrite => exact ⟨rfl, hsame _ rfl rfl rfl⟩
      | failed => exact ⟨rfl, hresumable⟩
    · exact ⟨rfl, hresumable⟩
  · unfold sendBody
    split
    · cases answers.sendBody with
      | sent more => exact ⟨text_remaining hhead hclosed more, hsame _ rfl rfl rfl⟩
      | wouldBlock => exact ⟨rfl, hresumable⟩
      | failed => exact ⟨rfl, hresumable⟩
    · exact ⟨rfl, hresumable⟩

/-- What is done behind a stage sends nothing. -/
theorem andThen_delivers {file before : Bytes} {stage : Stage} {behind : Connection → Connection}
    (hbytes : ∀ c, (behind c).remainingBody file = c.remainingBody file)
    (hresumable : ∀ c, c.Resumable file → (behind c).Resumable file)
    (h : Delivers file before stage.written) : Delivers file before (stage.andThen behind) := by
  cases stage with
  | goOn w =>
      refine ⟨?_, hresumable _ h.resumable⟩
      change w.body ++ (behind w.conn).remainingBody file = before
      rw [hbytes]
      exact h.bytes
  | return_ w => exact h

/-- A file that is closed has nothing left to be sent. -/
theorem finishFile_remaining (file : Bytes) (c : Connection) (now : Nat) :
    (c.finishFile now).remainingBody file = c.remainingBody file := by
  unfold remainingBody finishFile updateActivity
  dsimp only
  by_cases hmore : 0 < c.fileRemaining
  · rw [decide_eq_true hmore, Bool.and_true]
  · have hnone : c.fileRemaining.toNat = 0 := Int.toNat_eq_zero.2 (Int.not_lt.1 hmore)
    rw [decide_eq_false hmore, Bool.and_false, hnone, List.take_zero, ite_self, ite_self]

theorem Resumable.finish {file : Bytes} {c : Connection} (h : c.Resumable file) (now : Nat) :
    (c.finishFile now).Resumable file where
  headers := h.headers
  offset := fun hhead hopen => h.offset hhead (Bool.and_eq_true_iff.1 hopen).1
  range := fun hhead hopen => h.range hhead (Bool.and_eq_true_iff.1 hopen).1

/-- The stage of the body hands over the next bytes of what remains. -/
theorem bodyStage_delivers {file : Bytes} {c : Connection} (hresumable : c.Resumable file)
    (now : Nat) {answers : WriteAnswers} (hfaithful : c.FileAnswers file answers) :
    Delivers file (c.remainingBody file) (bodyStage c now answers) := by
  unfold bodyStage
  split
  case isTrue => exact ⟨rfl, hresumable.headers, hresumable.offset, hresumable.range⟩
  case isFalse hhead =>
    have hhead := eq_false_of_ne_true hhead
    split
    case isTrue hopen =>
      have hstage := fileStage_delivers hhead hopen hresumable (hfaithful hhead hopen)
      exact andThen_delivers (fun c => finishFile_remaining file c now)
        (fun _ h => h.finish now) hstage
    case isFalse hclosed =>
      have hstage := textStage_delivers hhead (eq_false_of_ne_true hclosed) hresumable answers
      exact andThen_delivers (fun _ => rfl) (fun _ h => ⟨h.headers, h.offset, h.range⟩) hstage

/-! ## One call -/

/-- **One call.** What it hands to the socket is the first of what remained, and the
next call can go on from there. -/
theorem writeData_remaining {file : Bytes} {c : Connection} (hresumable : c.Resumable file)
    (now : Nat) {answers : WriteAnswers} (hfaithful : c.Faithful file answers) :
    (c.writeData now answers).head ++ (c.writeData now answers).body ++
        (c.writeData now answers).conn.remaining file = c.remaining file ∧
      (c.writeData now answers).conn.Resumable file := by
  unfold writeData
  split
  · exact ⟨rfl, hresumable⟩
  have haccounts := (headerStage_accounts c answers).head
  have htaken := headerStage_body c answers
  have hout := headerStage_outsideHead c answers
  have hdone := headerStage_headersDone hresumable.headers answers
  unfold Faithful at hfaithful
  generalize hstage : c.headerStage answers = stage at *
  -- the headers leave the body as it was
  have hbody : stage.written.conn.remainingBody file = c.remainingBody file :=
    congrArg (fun c => c.remainingBody file) hout
  have hmid : stage.written.conn.Resumable file := by
    have hsame := congrArg (fun c : Connection =>
      (c.headOnly = false → c.fileOpen = true → 0 ≤ c.fileOffset) ∧
        (c.headOnly = false → c.fileOpen = true →
          c.fileOffset + c.fileRemaining ≤ file.length)) hout
    rcases hsame.mpr ⟨hresumable.offset, hresumable.range⟩ with ⟨hoffset, hrange⟩
    exact ⟨hdone.1, hoffset, hrange⟩
  cases stage with
  | return_ w =>
      refine ⟨?_, hmid⟩
      change w.head ++ w.conn.rawHeadersToSend = c.rawHeadersToSend at haccounts
      change w.body = [] at htaken
      change w.conn.remainingBody file = c.remainingBody file at hbody
      change w.head ++ w.body ++ (w.conn.rawHeadersToSend ++ w.conn.remainingBody file) =
        c.rawHeadersToSend ++ c.remainingBody file
      rw [htaken, hbody, List.append_nil, ← List.append_assoc, haccounts]
  | goOn w =>
      have hraw : w.conn.rawHeadersToSend = [] := hdone.2 w rfl
      change w.head ++ w.conn.rawHeadersToSend = c.rawHeadersToSend at haccounts
      change w.conn.remainingBody file = c.remainingBody file at hbody
      have hsame := congrArg (fun c : Connection => c.FileAnswers file answers) hout
      have hfile : w.conn.FileAnswers file answers := hsame.mpr (hfaithful ⟨w, rfl⟩)
      rcases bodyStage_delivers hmid now hfile with ⟨hbytes, hend⟩
      have hrest := bodyStage_raw w.conn now answers
      refine ⟨?_, hend⟩
      change w.head ++ (bodyStage w.conn now answers).body ++
        ((bodyStage w.conn now answers).conn.rawHeadersToSend ++
          (bodyStage w.conn now answers).conn.remainingBody file) =
        c.rawHeadersToSend ++ c.remainingBody file
      change (bodyStage w.conn now answers).body ++
        (bodyStage w.conn now answers).conn.remainingBody file = w.conn.remainingBody file at hbytes
      rw [hrest, hraw, List.nil_append, List.append_assoc, hbytes, hbody, ← haccounts, hraw,
        List.append_nil]

/-! ## Any number of calls -/

/-- What the calls have handed over and what is left is what was left before. -/
theorem emitted_remaining {file : Bytes} {c : Connection} (hresumable : c.Resumable file)
    {calls : List (Nat × WriteAnswers)} (hfaithful : c.FaithfulAll file calls) :
    c.emitted calls ++ (c.writeAll calls).conn.remaining file = c.remaining file ∧
      (c.writeAll calls).conn.Resumable file := by
  induction calls generalizing c with
  | nil => exact ⟨rfl, hresumable⟩
  | cons call calls ih =>
      rcases writeData_remaining hresumable call.1 hfaithful.1 with ⟨hcall, hnext⟩
      rcases ih hnext hfaithful.2 with ⟨hrest, hend⟩
      refine ⟨?_, hend⟩
      change (c.writeData call.1 call.2).head ++ (c.writeData call.1 call.2).body ++
        (c.writeData call.1 call.2).conn.emitted calls ++
          ((c.writeData call.1 call.2).conn.writeAll calls).conn.remaining file = c.remaining file
      rw [List.append_assoc, hrest, hcall]

/-- Nothing remains exactly when there is no data to write. -/
theorem remaining_nil_iff {file : Bytes} {c : Connection} (h : c.Resumable file) :
    c.remaining file = [] ↔ c.hasDataToWrite = false := by
  rw [hasDataToWrite_false]
  unfold remaining remainingBody
  rw [List.append_eq_nil_iff]
  refine and_congr_right fun _ => ?_
  by_cases hhead : c.headOnly = true
  · rw [if_pos hhead]
    exact iff_of_true rfl (Or.inl hhead)
  rw [if_neg hhead, or_iff_right hhead, List.append_eq_nil_iff, List.drop_eq_nil_iff]
  refine and_congr_left fun _ => ?_
  by_cases hopen : c.fileOpen = true
  · -- a range inside the file is empty only if its length is
    have hhead := eq_false_of_ne_true hhead
    have hoffset := h.offset hhead hopen
    have hrange := h.range hhead hopen
    rw [if_pos hopen, ← List.length_eq_zero_iff, List.length_take, List.length_drop]
    constructor
    · intro hnone _
      omega
    · intro hnone
      have := hnone hopen
      omega
  · rw [if_neg hopen]
    exact iff_of_true rfl fun hopened => absurd hopened hopen

/-! ## An installed response -/

/-- The file of a response with a file body is opened, with the range inside it. -/
def HasFile (res : HttpResponse) (file : Bytes) (opened : Option (Option Int)) : Prop :=
  res.headOnly = false → res.isFile = true →
    opened = some (some (file.length : Int)) ∧ res.InFile file

/-- There is a file when the response has one and it could be opened. -/
theorem setResponseContent_fileOpen (c : Connection) (res : HttpResponse) (date : Bytes)
    (opened : Option (Option Int)) :
    (c.setResponseContent res date opened).fileOpen = (res.isFile && opened.isSome) := by
  unfold setResponseContent
  dsimp only
  by_cases hfile : res.isFile = true
  · rw [if_pos hfile, hfile]
    cases opened <;> rfl
  · rw [if_neg hfile, eq_false_of_ne_true hfile]
    cases res.bodyContent <;> rfl

/-- A response just installed can be sent in parts. -/
theorem setResponseContent_resumable (c : Connection) {res : HttpResponse} (date : Bytes)
    {file : Bytes} {opened : Option (Option Int)} (hfile : HasFile res file opened) :
    (c.setResponseContent res date opened).Resumable file := by
  have hsent := (setResponseContent_start c res date opened).1
  have hinside : (c.setResponseContent res date opened).headOnly = false →
      (c.setResponseContent res date opened).fileOpen = true →
      0 ≤ (c.setResponseContent res date opened).fileOffset ∧
        (c.setResponseContent res date opened).fileOffset +
          (c.setResponseContent res date opened).fileRemaining ≤ file.length := by
    rw [setResponseContent_headOnly, setResponseContent_fileOpen]
    intro hhead hopen
    have hisFile := (Bool.and_eq_true_iff.1 hopen).1
    rcases hfile hhead hisFile with ⟨hopened, hstart, hstop⟩
    unfold setResponseContent
    dsimp only
    rw [if_pos hisFile, hopened]
    refine ⟨hstart, ?_⟩
    show res.fileOffset + (if res.fileLength < 0 then _ else res.fileLength) ≤ file.length
    split
    · omega
    · omega
  exact ⟨fun h => absurd (hsent.symm.trans h) Bool.false_ne_true,
    fun hhead hopen => (hinside hhead hopen).1, fun hhead hopen => (hinside hhead hopen).2⟩

/-- Of a response just installed everything remains to be sent. -/
theorem setResponseContent_remaining (c : Connection) {res : HttpResponse} (date : Bytes)
    {file : Bytes} {opened : Option (Option Int)} (hfile : HasFile res file opened) :
    (c.setResponseContent res date opened).remaining file =
      res.buildHeadersString date ++ res.selectedBody file := by
  have hraw : (c.setResponseContent res date opened).rawHeadersToSend =
      res.buildHeadersString date := by
    unfold setResponseContent
    dsimp only
    split
    · cases opened <;> rfl
    · cases res.bodyContent <;> rfl
  unfold remaining remainingBody HttpResponse.selectedBody
  rw [hraw, setResponseContent_headOnly]
  congr 1
  by_cases hhead : res.headOnly = true
  · rw [if_pos hhead, if_pos hhead]
  rw [if_neg hhead, if_neg hhead]
  by_cases hisFile : res.isFile = true
  · -- a file, from the offset
    rcases hfile (eq_false_of_ne_true hhead) hisFile with ⟨hopened, hstart, hstop⟩
    -- a negative length means to the end of the file
    have hwhole : (file.drop res.fileOffset.toNat).take
        (max ((file.length : Int) - res.fileOffset) 0).toNat = file.drop res.fileOffset.toNat := by
      apply List.take_of_length_le
      rw [List.length_drop]
      omega
    unfold setResponseContent clearResponseState
    dsimp only
    rw [if_pos hisFile, if_pos hisFile, hopened]
    dsimp only
    rw [if_pos rfl, List.drop_nil, List.append_nil]
    by_cases hall : res.fileLength < 0
    · rw [if_pos hall, if_pos hall, hwhole]
    · rw [if_neg hall, if_neg hall]
  · -- a text
    unfold setResponseContent
    dsimp only
    rw [if_neg hisFile, if_neg hisFile]
    cases res.bodyContent <;> rfl

/-- What is sent of a response, at any time. -/
theorem emitted_response {res : HttpResponse} {file : Bytes} (date : Bytes)
    {opened : Option (Option Int)} (hfile : HasFile res file opened) (c : Connection)
    {calls : List (Nat × WriteAnswers)}
    (hfaithful : (c.setResponseContent res date opened).FaithfulAll file calls) :
    (c.setResponseContent res date opened).emitted calls <+:
        res.buildHeadersString date ++ res.selectedBody file ∧
      (((c.setResponseContent res date opened).writeAll calls).conn.hasDataToWrite = false ↔
        (c.setResponseContent res date opened).emitted calls =
          res.buildHeadersString date ++ res.selectedBody file) := by
  have hresumable := setResponseContent_resumable c date hfile
  rcases emitted_remaining hresumable hfaithful with ⟨hsplit, hend⟩
  rw [setResponseContent_remaining c date hfile] at hsplit
  refine ⟨⟨_, hsplit⟩, ?_⟩
  rw [← remaining_nil_iff hend, ← hsplit]
  exact List.self_eq_append_right.symm

/-- **The bytes of a response.** Whatever the system answers, the calls have sent a prefix
of the header block and the selected bytes, and all of it exactly when there is no data to
write. In the clear and over TLS the same is sent. -/
theorem delivered {res : HttpResponse} {file : Bytes} (date : Bytes)
    {opened : Option (Option Int)} (hfile : HasFile res file opened) :
    (∀ (c : Connection) (calls : List (Nat × WriteAnswers)),
      (c.setResponseContent res date opened).FaithfulAll file calls →
      (c.setResponseContent res date opened).emitted calls <+:
          res.buildHeadersString date ++ res.selectedBody file ∧
        (((c.setResponseContent res date opened).writeAll calls).conn.hasDataToWrite = false ↔
          (c.setResponseContent res date opened).emitted calls =
            res.buildHeadersString date ++ res.selectedBody file)) ∧
      ∀ (plain tls : Connection) (calls calls' : List (Nat × WriteAnswers)),
        plain.usesTls = false → tls.usesTls = true →
        (plain.setResponseContent res date opened).FaithfulAll file calls →
        (tls.setResponseContent res date opened).FaithfulAll file calls' →
        ((plain.setResponseContent res date opened).writeAll calls).conn.hasDataToWrite = false →
        ((tls.setResponseContent res date opened).writeAll calls').conn.hasDataToWrite = false →
        (plain.setResponseContent res date opened).emitted calls =
          (tls.setResponseContent res date opened).emitted calls' := by
  refine ⟨fun c _ hfaithful => emitted_response date hfile c hfaithful, ?_⟩
  intro plain tls calls calls' _ _ hplain htls hsent hsent'
  have hall := (emitted_response date hfile plain hplain).2.1 hsent
  have hall' := (emitted_response date hfile tls htls).2.1 hsent'
  exact hall.trans hall'.symm

/-- Three bytes of a file of five. -/
def partOfFile : HttpResponse where
  bodyContent := .filePath (lit "a")
  isFile := true
  fileOffset := 1
  fileLength := 3

/-- The file is read twice, with an interruption between. -/
def partCalls : List (Nat × WriteAnswers) :=
  [(0, { sendHead := .sent 999, sendfile := [.sent 98 [99], .wouldBlock] }),
    (1, { sendfile := [.sent 100 []] })]

/-- A range of a file, in three calls. -/
theorem delivered_partOfFile :
    ((new 5 0).setResponseContent partOfFile [] (some (some 5))).emitted partCalls =
      partOfFile.buildHeadersString [] ++ lit "bcd" := by
  have hinside : partOfFile.InFile (lit "abcde") := ⟨by decide, by decide⟩
  rcases delivered [] (fun _ _ => ⟨rfl, hinside⟩) with ⟨hsent, -⟩
  apply (hsent (new 5 0) _ ?_).2.1
  · decide +kernel
  · refine ⟨fun _ _ _ => ?_, fun _ _ _ => ?_, trivial⟩
    · show sendfileFrom (lit "abcde") [.sent 98 [99], .wouldBlock] 1 3
      exact fun _ => ⟨by decide, trivial⟩
    · -- the second call goes on behind the two bytes
      have hthere : ∀ c : Connection,
          (c.usesTls, c.fileOffset, c.fileRemaining) = (false, (3 : Int), (1 : Int)) →
          if c.usesTls then preadFrom (lit "abcde") [] c.fileOffset c.fileRemaining
          else sendfileFrom (lit "abcde") [.sent 100 []] c.fileOffset c.fileRemaining := by
        intro c hc
        simp only [Prod.mk.injEq] at hc
        rcases hc with ⟨htls, hoffset, hleft⟩
        rw [htls, hoffset, hleft]
        exact fun _ => ⟨by decide, trivial⟩
      exact hthere _ (by decide +kernel)

end Connection

end Oreshnek
