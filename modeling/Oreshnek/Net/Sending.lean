import Oreshnek.Net.Connection

/-!
# How much of a response is sent

`writeAll` is any number of calls of `write_data`, each with the answers of the system
that it meets. Between them the calls hand out each byte of the header block and each
byte of the body once: what has been taken and what is pending add up
(`writeAll_head`, `writeAll_body`). So a response that has been sent in full, to where
`has_data_to_write` is false, has as many body bytes as were pending at its start; and an
open connection that meets a willing system gets there (`exists_finished`).
-/

namespace Oreshnek

namespace Connection

/-- The body bytes that are still to be sent. -/
def bodyPending (c : Connection) : Nat :=
  if c.headOnly then 0
  else (if c.fileOpen then c.fileRemaining.toNat else 0) + (c.writeBody.length - c.writeBodyOffset)

/-- What calls of `write_data` come to. -/
structure Sent where
  conn : Connection
  head : Bytes
  body : Bytes

/-- Calls of `write_data`, each at its time. -/
def writeAll (c : Connection) : List (Nat × WriteAnswers) → Sent
  | [] => ⟨c, [], []⟩
  | (now, answers) :: calls =>
      let w := c.writeData now answers
      let s := w.conn.writeAll calls
      ⟨s.conn, w.head ++ s.head, w.body ++ s.body⟩

/-! ## One call -/

/-- A result accounts for all that was to be sent. -/
structure Accounts (c : Connection) (w : Written) : Prop where
  head : w.head ++ w.conn.rawHeadersToSend = c.rawHeadersToSend
  body : w.body.length + w.conn.bodyPending = c.bodyPending

theorem accounts_self (c : Connection) (ret : Int) : c.Accounts ⟨ret, c, [], []⟩ where
  head := rfl
  body := Nat.zero_add _

/-- Each byte of the headers is sent or stays. -/
theorem sendHeaders_accounts (c : Connection) (answer : SendResult) :
    c.Accounts (c.sendHeaders answer).written := by
  unfold sendHeaders
  split
  · exact accounts_self c 0
  split
  · exact ⟨rfl, Nat.zero_add _⟩
  cases answer with
  | sent more =>
      have htake : c.rawHeadersToSend.take (more + 1) ++ c.rawHeadersToSend.drop (more + 1) =
          c.rawHeadersToSend := List.take_append_drop _ _
      dsimp only
      split
      · exact ⟨htake, Nat.zero_add _⟩
      · exact ⟨htake, Nat.zero_add _⟩
  | wouldBlock => exact accounts_self c 0
  | failed => exact accounts_self c (-1)

/-- Over TLS the header loop loses no byte of the header block. -/
theorem sslHeaders_accounts (answers : List SslWrite) (c : Connection) (head : Bytes) :
    (sslHeaders answers c head).written.head ++
        (sslHeaders answers c head).written.conn.rawHeadersToSend = head ++ c.rawHeadersToSend ∧
      (sslHeaders answers c head).written.conn.bodyPending = c.bodyPending := by
  fun_induction sslHeaders answers c head with
  | case3 c head hsent hraw more answers ih =>
      obtain ⟨hhead, hbody⟩ := ih
      refine ⟨hhead.trans ?_, hbody⟩
      rw [List.append_assoc, List.take_append_drop]
  | _ => exact ⟨rfl, rfl⟩

/-- The header stage loses no byte of the header block. -/
theorem headerStage_accounts (c : Connection) (answers : WriteAnswers) :
    c.Accounts (c.headerStage answers).written := by
  have hbody := headerStage_body c answers
  unfold headerStage at hbody ⊢
  split
  case isTrue htls =>
    rw [if_pos htls] at hbody
    obtain ⟨hhead, hpending⟩ := sslHeaders_accounts answers.sslHead c []
    refine ⟨hhead, ?_⟩
    rw [hbody]
    exact (Nat.zero_add _).trans hpending
  case isFalse => exact sendHeaders_accounts c answers.sendHead

/-- Bytes of the file that are sent are no longer pending. -/
theorem advanceFile_pending {c : Connection} (hhead : c.headOnly = false)
    (hopen : c.fileOpen = true) {count : Nat} (hcount : count ≤ c.fileRemaining.toNat) :
    count + (c.advanceFile count).bodyPending = c.bodyPending := by
  unfold bodyPending advanceFile
  dsimp only
  rw [hhead, hopen, if_neg Bool.false_ne_true, if_neg Bool.false_ne_true, if_pos rfl, if_pos rfl]
  omega

/-- The bytes that a loop has taken, `body` before it. -/
theorem sendfileLoop_pending (answers : List SendfileResult) (c : Connection) (body : Bytes)
    (hhead : c.headOnly = false) (hopen : c.fileOpen = true) :
    (sendfileLoop answers c body).written.body.length +
        (sendfileLoop answers c body).written.conn.bodyPending = body.length + c.bodyPending := by
  fun_induction sendfileLoop answers c body with
  | case2 c body hmore count first rest answers bytes ih =>
      have hcount : bytes.length ≤ c.fileRemaining.toNat :=
        (List.length_take_le _ _).trans (Nat.min_le_left _ _)
      rw [ih hhead hopen, List.length_append, Nat.add_assoc, advanceFile_pending hhead hopen hcount]
  | _ => rfl

/-- What the file loop has sent over TLS is no longer pending. -/
theorem sslFileLoop_pending (answers : List (Option (UInt8 × Bytes) × SslWrite))
    (c : Connection) (body : Bytes) (hhead : c.headOnly = false) (hopen : c.fileOpen = true) :
    (sslFileLoop answers c body).written.body.length +
        (sslFileLoop answers c body).written.conn.bodyPending = body.length + c.bodyPending := by
  fun_induction sslFileLoop answers c body with
  | case2 c body hmore want first rest more answers bytes ih =>
      have hread : ((first :: rest).take want).length ≤ c.fileRemaining.toNat :=
        (List.length_take_le _ _).trans (Nat.min_le_left _ _)
      have hcount : bytes.length ≤ c.fileRemaining.toNat := (List.length_take_le' _ _).trans hread
      rw [ih hhead hopen, List.length_append, Nat.add_assoc, advanceFile_pending hhead hopen hcount]
  | _ => rfl

/-- What the file stage has sent is no longer pending. -/
theorem fileStage_pending {c : Connection} (hhead : c.headOnly = false) (hopen : c.fileOpen = true)
    (answers : WriteAnswers) :
    (c.fileStage answers).written.body.length + (c.fileStage answers).written.conn.bodyPending =
      c.bodyPending := by
  unfold fileStage
  split
  · exact (sslFileLoop_pending _ c [] hhead hopen).trans (Nat.zero_add _)
  · exact (sendfileLoop_pending _ c [] hhead hopen).trans (Nat.zero_add _)

/-- More of the string body is taken. -/
theorem text_pending {c : Connection} (hhead : c.headOnly = false)
    (hmore : c.writeBodyOffset < c.writeBody.length) (more : Nat) :
    ((c.writeBody.drop c.writeBodyOffset).take (more + 1)).length +
      bodyPending { c with writeBodyOffset := c.writeBodyOffset +
        ((c.writeBody.drop c.writeBodyOffset).take (more + 1)).length } = c.bodyPending := by
  unfold bodyPending
  dsimp only
  rw [hhead, if_neg Bool.false_ne_true, if_neg Bool.false_ne_true, List.length_take,
    List.length_drop]
  omega

/-- Each byte of the text is sent or stays pending. -/
theorem textStage_pending {c : Connection} (hhead : c.headOnly = false) (answers : WriteAnswers) :
    (c.textStage answers).written.body.length + (c.textStage answers).written.conn.bodyPending =
      c.bodyPending := by
  unfold textStage
  split
  · unfold sslBody
    split
    case isTrue hmore =>
      cases answers.sslBody with
      | sent more => exact text_pending hhead hmore more
      | wantRead => exact Nat.zero_add _
      | wantWrite => exact Nat.zero_add _
      | failed => exact Nat.zero_add _
    case isFalse => exact Nat.zero_add _
  · unfold sendBody
    split
    case isTrue hmore =>
      cases answers.sendBody with
      | sent more => exact text_pending hhead hmore more
      | wouldBlock => exact Nat.zero_add _
      | failed => exact Nat.zero_add _
    case isFalse => exact Nat.zero_add _

/-- A file is closed when all of it has been taken. -/
theorem finishFile_pending (c : Connection) (now : Nat) :
    (c.finishFile now).bodyPending = c.bodyPending := by
  unfold bodyPending finishFile updateActivity
  dsimp only
  by_cases hhead : c.headOnly = true
  · rw [if_pos hhead, if_pos hhead]
  rw [if_neg hhead, if_neg hhead]
  by_cases hopen : c.fileOpen = true
  · by_cases hmore : 0 < c.fileRemaining
    · rw [hopen, decide_eq_true hmore]
      rfl
    · have hnone : c.fileRemaining.toNat = 0 := Int.toNat_eq_zero.2 (Int.not_lt.1 hmore)
      rw [hopen, decide_eq_false hmore, hnone]
      rfl
  · rw [eq_false_of_ne_true hopen]
    rfl

/-- What is done behind a stage takes nothing. -/
theorem andThen_pending {stage : Stage} {behind : Connection → Connection} {pending : Nat}
    (hbehind : ∀ c, (behind c).bodyPending = c.bodyPending)
    (hstage : stage.written.body.length + stage.written.conn.bodyPending = pending) :
    (stage.andThen behind).body.length + (stage.andThen behind).conn.bodyPending = pending := by
  cases stage with
  | goOn w =>
      change w.body.length + (behind w.conn).bodyPending = pending
      rw [hbehind]
      exact hstage
  | return_ w => exact hstage

/-- What the body stage has sent is no longer pending. -/
theorem bodyStage_pending (c : Connection) (now : Nat) (answers : WriteAnswers) :
    (bodyStage c now answers).body.length + (bodyStage c now answers).conn.bodyPending =
      c.bodyPending := by
  unfold bodyStage
  split
  case isTrue => exact Nat.zero_add _
  case isFalse hhead =>
    have hhead := eq_false_of_ne_true hhead
    split
    case isTrue hopen =>
      have hstage := fileStage_pending hhead hopen answers
      exact andThen_pending (fun c => finishFile_pending c now) hstage
    case isFalse => exact andThen_pending (fun _ => rfl) (textStage_pending hhead answers)

/-- A connection without what sending a file changes. -/
def outsideFile (c : Connection) : Connection :=
  { c with fileOffset := 0, fileRemaining := 0, tlsWant := .read }

theorem sendfileLoop_outsideFile (answers : List SendfileResult) (c : Connection) (body : Bytes) :
    (sendfileLoop answers c body).written.conn.outsideFile = c.outsideFile := by
  fun_induction sendfileLoop answers c body with
  | case2 c body hmore count first rest answers bytes ih => exact ih
  | _ => rfl

theorem sslFileLoop_outsideFile (answers : List (Option (UInt8 × Bytes) × SslWrite))
    (c : Connection) (body : Bytes) :
    (sslFileLoop answers c body).written.conn.outsideFile = c.outsideFile := by
  fun_induction sslFileLoop answers c body with
  | case2 c body hmore want first rest more answers bytes ih => exact ih
  | _ => rfl

theorem fileStage_outsideFile (c : Connection) (answers : WriteAnswers) :
    (c.fileStage answers).written.conn.outsideFile = c.outsideFile := by
  unfold fileStage
  split
  · exact sslFileLoop_outsideFile _ _ _
  · exact sendfileLoop_outsideFile _ _ _

/-- The text stage leaves the header block as it is. -/
theorem textStage_raw (c : Connection) (answers : WriteAnswers) :
    (c.textStage answers).written.conn.rawHeadersToSend = c.rawHeadersToSend := by
  unfold textStage
  split
  · unfold sslBody
    split
    · cases answers.sslBody <;> rfl
    · rfl
  · unfold sendBody
    split
    · cases answers.sendBody <;> rfl
    · rfl

theorem finishFile_raw (c : Connection) (now : Nat) :
    (c.finishFile now).rawHeadersToSend = c.rawHeadersToSend := rfl

/-- What follows a stage leaves the header block, and so do both. -/
theorem andThen_raw {stage : Stage} {behind : Connection → Connection} {raw : Bytes}
    (hbehind : ∀ c, (behind c).rawHeadersToSend = c.rawHeadersToSend)
    (hstage : stage.written.conn.rawHeadersToSend = raw) :
    (stage.andThen behind).conn.rawHeadersToSend = raw := by
  cases stage with
  | goOn w => exact (hbehind w.conn).trans hstage
  | return_ w => exact hstage

/-- The body stage leaves the header block as it is. -/
theorem bodyStage_raw (c : Connection) (now : Nat) (answers : WriteAnswers) :
    (bodyStage c now answers).conn.rawHeadersToSend = c.rawHeadersToSend := by
  unfold bodyStage
  split
  · rfl
  split
  · have hstage := congrArg rawHeadersToSend (fileStage_outsideFile c answers)
    exact andThen_raw (fun c' => finishFile_raw c' now) hstage
  · exact andThen_raw (fun _ => rfl) (textStage_raw c answers)

/-- **One call.** What it takes and what is left are what was to be sent. -/
theorem writeData_accounts (c : Connection) (now : Nat) (answers : WriteAnswers) :
    c.Accounts (c.writeData now answers) := by
  unfold writeData
  split
  · exact accounts_self c 0
  have hheaders := headerStage_accounts c answers
  have htaken := headerStage_body c answers
  cases hstage : c.headerStage answers with
  | return_ w =>
      rw [hstage] at hheaders
      exact hheaders
  | goOn w =>
      rw [hstage] at hheaders htaken
      have hnone : w.body = [] := htaken
      have hpending : w.conn.bodyPending = c.bodyPending := by
        have := hheaders.body
        change w.body.length + w.conn.bodyPending = c.bodyPending at this
        rw [hnone] at this
        exact (Nat.zero_add _).symm.trans this
      constructor
      · change w.head ++ (bodyStage w.conn now answers).conn.rawHeadersToSend = _
        rw [bodyStage_raw]
        exact hheaders.head
      · exact (bodyStage_pending w.conn now answers).trans hpending

/-! ## Any number of calls -/

/-- The header bytes sent by the calls and those left are those there were. -/
theorem writeAll_head (c : Connection) (calls : List (Nat × WriteAnswers)) :
    (c.writeAll calls).head ++ (c.writeAll calls).conn.rawHeadersToSend = c.rawHeadersToSend := by
  induction calls generalizing c with
  | nil => rfl
  | cons call calls ih =>
      have hcall := (writeData_accounts c call.1 call.2).head
      have hrest := ih (c.writeData call.1 call.2).conn
      calc (c.writeAll (call :: calls)).head ++ (c.writeAll (call :: calls)).conn.rawHeadersToSend
          = (c.writeData call.1 call.2).head ++
              (((c.writeData call.1 call.2).conn.writeAll calls).head ++
                ((c.writeData call.1 call.2).conn.writeAll calls).conn.rawHeadersToSend) :=
            List.append_assoc _ _ _
        _ = c.rawHeadersToSend := by rw [hrest, hcall]

/-- Over all calls each byte of the body is sent or stays pending. -/
theorem writeAll_body (c : Connection) (calls : List (Nat × WriteAnswers)) :
    (c.writeAll calls).body.length + (c.writeAll calls).conn.bodyPending = c.bodyPending := by
  induction calls generalizing c with
  | nil => exact Nat.zero_add _
  | cons call calls ih =>
      have hcall := (writeData_accounts c call.1 call.2).body
      have hrest := ih (c.writeData call.1 call.2).conn
      have hsplit : (c.writeAll (call :: calls)).body.length =
          (c.writeData call.1 call.2).body.length +
            ((c.writeData call.1 call.2).conn.writeAll calls).body.length := List.length_append
      have hconn : (c.writeAll (call :: calls)).conn =
          ((c.writeData call.1 call.2).conn.writeAll calls).conn := rfl
      rw [hsplit, hconn]
      omega

/-- With nothing to write no byte of the body is pending. -/
theorem bodyPending_sent {c : Connection} (h : c.hasDataToWrite = false) : c.bodyPending = 0 := by
  obtain ⟨-, hbody⟩ := hasDataToWrite_false.1 h
  unfold bodyPending
  by_cases hhead : c.headOnly = true
  · rw [if_pos hhead]
  · obtain ⟨hfile, htext⟩ := hbody.resolve_left hhead
    rw [if_neg hhead]
    by_cases hopen : c.fileOpen = true
    · have := hfile hopen
      rw [if_pos hopen]
      omega
    · rw [if_neg hopen]
      omega

/-- **A response sent in full.** Its header block has been taken, and as many body bytes as
were to be sent. -/
theorem writeAll_sent {c : Connection} {calls : List (Nat × WriteAnswers)}
    (h : (c.writeAll calls).conn.hasDataToWrite = false) :
    (c.writeAll calls).head = c.rawHeadersToSend ∧
      (c.writeAll calls).body.length = c.bodyPending := by
  have hhead := writeAll_head c calls
  have hbody := writeAll_body c calls
  rw [(hasDataToWrite_false.1 h).1, List.append_nil] at hhead
  rw [bodyPending_sent h] at hbody
  exact ⟨hhead, hbody⟩

/-! ## A willing system -/

/-- The answers of a socket that takes all it is offered and of a file that can be read,
byte by byte. -/
def willing (c : Connection) : WriteAnswers where
  sendHead := .sent c.rawHeadersToSend.length
  sslHead := [.sent c.rawHeadersToSend.length]
  sendBody := .sent c.writeBody.length
  sslBody := .sent c.writeBody.length
  sendfile := List.replicate c.fileRemaining.toNat (.sent 0 [])
  sslFile := List.replicate c.fileRemaining.toNat (some (0, []), .sent 0)

/-- A willing socket takes all the headers. -/
theorem headerStage_willing {c : Connection} (hsent : c.headersSent = false) :
    ∃ w, c.headerStage c.willing = .goOn w ∧
      w.conn = { c with rawHeadersToSend := [], headersSent := true } := by
  have hdrop : c.rawHeadersToSend.drop (c.rawHeadersToSend.length + 1) = [] :=
    List.drop_eq_nil_of_le (Nat.le_succ _)
  unfold headerStage
  split
  · unfold sslHeaders
    rw [hsent, if_neg Bool.false_ne_true]
    split
    case isTrue hraw =>
      refine ⟨_, rfl, ?_⟩
      rw [← hraw]
    case isFalse hraw =>
      dsimp only [willing]
      rw [hdrop]
      unfold sslHeaders
      rw [if_neg Bool.false_ne_true, if_pos rfl]
      exact ⟨_, rfl, rfl⟩
  · unfold sendHeaders
    rw [hsent, if_neg Bool.false_ne_true]
    split
    case isTrue hraw =>
      refine ⟨_, rfl, ?_⟩
      rw [← hraw]
    case isFalse hraw =>
      have hall : ¬ c.rawHeadersToSend.drop (c.rawHeadersToSend.length + 1) ≠ [] := not_not.2 hdrop
      dsimp only [willing]
      rw [if_neg hall, hdrop]
      exact ⟨_, rfl, rfl⟩

/-- A willing socket takes the rest of the file. -/
theorem sendfileLoop_willing (n : Nat) (c : Connection) (body : Bytes)
    (hn : c.fileRemaining.toNat ≤ n) :
    ∃ w, sendfileLoop (List.replicate n (.sent 0 [])) c body = .goOn w ∧
      w.conn.fileRemaining ≤ 0 := by
  induction n generalizing c body with
  | zero =>
      have hnone : c.fileRemaining ≤ 0 := Int.toNat_eq_zero.1 (Nat.le_zero.1 hn)
      unfold sendfileLoop
      rw [if_pos hnone]
      exact ⟨_, rfl, hnone⟩
  | succ n ih =>
      rw [List.replicate_succ]
      unfold sendfileLoop
      split
      case isTrue hnone => exact ⟨_, rfl, hnone⟩
      case isFalse hmore =>
        dsimp only
        apply ih
        have hone : 0 < min c.fileRemaining.toNat fileSendChunk := by
          unfold fileSendChunk
          omega
        have htaken :
            (List.take (min c.fileRemaining.toNat fileSendChunk) [(0 : UInt8)]).length = 1 := by
          rw [List.length_take]
          exact Nat.min_eq_right hone
        rw [htaken]
        change (c.fileRemaining - 1).toNat ≤ n
        omega

/-- Over TLS a willing socket takes the rest of the file as well. -/
theorem sslFileLoop_willing (n : Nat) (c : Connection) (body : Bytes)
    (hn : c.fileRemaining.toNat ≤ n) :
    ∃ w, sslFileLoop (List.replicate n (some (0, []), .sent 0)) c body = .goOn w ∧
      w.conn.fileRemaining ≤ 0 := by
  induction n generalizing c body with
  | zero =>
      have hnone : c.fileRemaining ≤ 0 := Int.toNat_eq_zero.1 (Nat.le_zero.1 hn)
      unfold sslFileLoop
      rw [if_pos hnone]
      exact ⟨_, rfl, hnone⟩
  | succ n ih =>
      rw [List.replicate_succ]
      unfold sslFileLoop
      split
      case isTrue hnone => exact ⟨_, rfl, hnone⟩
      case isFalse hmore =>
        dsimp only
        apply ih
        have hone : 0 < min c.fileRemaining.toNat 16384 := by omega
        have htaken : ((List.take (min c.fileRemaining.toNat 16384) [(0 : UInt8)]).take
            (0 + 1)).length = 1 := by
          rw [List.length_take, List.length_take]
          exact Nat.min_eq_left (Nat.le_min.2 ⟨hone, Nat.le_refl 1⟩)
        rw [htaken]
        change (c.fileRemaining - 1).toNat ≤ n
        omega

/-- With answers that take all, the file stage goes on to the end of the file. -/
theorem fileStage_willing (c : Connection) (answers : WriteAnswers)
    (hfile : answers.sendfile = c.willing.sendfile) (hssl : answers.sslFile = c.willing.sslFile) :
    ∃ w, c.fileStage answers = .goOn w ∧ w.conn.fileRemaining ≤ 0 ∧
      w.conn.outsideFile = c.outsideFile := by
  have hout := fileStage_outsideFile c answers
  have hgo : ∃ w, c.fileStage answers = .goOn w ∧ w.conn.fileRemaining ≤ 0 := by
    unfold fileStage
    split
    · rw [hssl]
      exact sslFileLoop_willing _ c [] (Nat.le_refl _)
    · rw [hfile]
      exact sendfileLoop_willing _ c [] (Nat.le_refl _)
  obtain ⟨w, hw, hnone⟩ := hgo
  rw [hw] at hout
  exact ⟨w, hw, hnone, hout⟩

/-- A willing socket takes the whole text. -/
theorem textStage_willing {c : Connection} (hstart : c.writeBodyOffset = 0) (answers : WriteAnswers)
    (hsend : answers.sendBody = .sent c.writeBody.length)
    (hssl : answers.sslBody = .sent c.writeBody.length) :
    ∃ w, c.textStage answers = .goOn w ∧
      w.conn = { c with writeBodyOffset := c.writeBody.length } := by
  have hbody : ∃ w, c.sendBody (.sent c.writeBody.length) = .goOn w ∧
      w.conn = { c with writeBodyOffset := c.writeBody.length } := by
    have htaken :
        ((c.writeBody.drop 0).take (c.writeBody.length + 1)).length = c.writeBody.length := by
      rw [List.length_take, List.drop_zero]
      omega
    unfold sendBody
    rw [hstart]
    split
    · dsimp only
      rw [htaken]
      exact ⟨_, rfl, by rw [Nat.zero_add]⟩
    case isFalse hnone =>
      refine ⟨_, rfl, ?_⟩
      have hlen : c.writeBody.length = 0 := by omega
      rw [hlen, ← hstart]
  -- what was taken is counted the same way
  have hsame : c.sslBody (.sent c.writeBody.length) = c.sendBody (.sent c.writeBody.length) := rfl
  unfold textStage
  split
  · rw [hssl, hsame]
    exact hbody
  · rw [hsend]
    exact hbody

/-- An open connection sends what it has been given, when the system is willing. -/
theorem exists_finished {c : Connection} (hopen : c.isOpen = true) (hsent : c.headersSent = false)
    (hstart : c.writeBodyOffset = 0) (hfile : c.fileOpen = true → c.writeBody = []) (now : Nat) :
    (c.writeAll [(now, c.willing)]).conn.hasDataToWrite = false := by
  change (c.writeData now c.willing).conn.hasDataToWrite = false
  obtain ⟨w, hw, hconn⟩ := headerStage_willing hsent
  unfold writeData
  rw [if_neg (not_not.2 hopen), hw]
  change (bodyStage w.conn now c.willing).conn.hasDataToWrite = false
  rw [hconn]
  unfold bodyStage
  split
  case isTrue hhead => exact hasDataToWrite_false.2 ⟨rfl, Or.inl hhead⟩
  case isFalse hhead =>
    split
    case isTrue hopened =>
      obtain ⟨v, hv, hnone, hout⟩ := fileStage_willing
        { c with rawHeadersToSend := [], headersSent := true } c.willing rfl rfl
      rw [hv]
      have hraw : v.conn.rawHeadersToSend = [] := congrArg rawHeadersToSend hout
      have htext : v.conn.writeBody = [] := (congrArg writeBody hout).trans (hfile hopened)
      apply hasDataToWrite_false.2
      refine ⟨hraw, Or.inr ⟨fun _ => hnone, ?_⟩⟩
      change v.conn.writeBody.length ≤ v.conn.writeBodyOffset
      rw [htext]
      exact Nat.zero_le _
    case isFalse hclosed =>
      obtain ⟨v, hv, htext⟩ := textStage_willing
        (c := { c with rawHeadersToSend := [], headersSent := true }) hstart c.willing rfl rfl
      rw [hv]
      apply hasDataToWrite_false.2
      change v.conn.rawHeadersToSend = [] ∧ (v.conn.headOnly = true ∨
        (v.conn.fileOpen = true → v.conn.fileRemaining ≤ 0) ∧
          v.conn.writeBody.length ≤ v.conn.writeBodyOffset)
      rw [htext]
      exact ⟨rfl, Or.inr ⟨fun h => absurd h hclosed, Nat.le_refl _⟩⟩

/-! ## An installed response -/

/-- The bytes of a file that `open` and `fstat` answer for so, when `length` bytes from
`offset` are asked for, or all of them when that is negative. -/
def fileBytes (opened : Option (Option Int)) (offset length : Int) : Nat :=
  match opened with
  | none => 0
  | some size =>
      if length < 0 then
        match size with
        | some size => (size - offset).toNat
        | none => 0
      else length.toNat

theorem setResponseContent_head (c : Connection) {res : HttpResponse} (date : Bytes)
    (opened : Option (Option Int)) (hhead : res.headOnly = true) :
    (c.setResponseContent res date opened).bodyPending = 0 := by
  unfold bodyPending
  rw [setResponseContent_headOnly, if_pos hhead]

/-- Of a text all bytes are pending. -/
theorem setResponseContent_text (c : Connection) {res : HttpResponse} (date : Bytes)
    (opened : Option (Option Int)) {content : Bytes} (hhead : res.headOnly = false)
    (hfile : res.isFile = false) (hbody : res.bodyContent = .text content) :
    (c.setResponseContent res date opened).bodyPending = content.length := by
  unfold bodyPending
  rw [setResponseContent_headOnly, hhead, if_neg Bool.false_ne_true]
  unfold setResponseContent
  dsimp only
  rw [hfile, if_neg Bool.false_ne_true, hbody]
  exact Nat.zero_add _

/-- Of a file as many bytes are pending as its range has. -/
theorem setResponseContent_file (c : Connection) {res : HttpResponse} (date : Bytes)
    (opened : Option (Option Int)) (hhead : res.headOnly = false) (hfile : res.isFile = true) :
    (c.setResponseContent res date opened).bodyPending =
      fileBytes opened res.fileOffset res.fileLength := by
  unfold bodyPending
  rw [setResponseContent_headOnly, hhead, if_neg Bool.false_ne_true]
  unfold setResponseContent fileBytes
  dsimp only
  rw [if_pos hfile]
  cases opened with
  | none => rfl
  | some size =>
      change (if res.fileLength < 0 then _ else res.fileLength).toNat + 0 = _
      by_cases hwhole : res.fileLength < 0
      · cases size with
        | none => simp only [if_pos hwhole]; rfl
        | some size => simp only [if_pos hwhole]; omega
      · rw [if_neg hwhole]
        simp only [if_neg hwhole]
        rfl

/-- A response is installed at its start, with a file or a text. -/
theorem setResponseContent_start (c : Connection) (res : HttpResponse) (date : Bytes)
    (opened : Option (Option Int)) :
    (c.setResponseContent res date opened).headersSent = false ∧
      (c.setResponseContent res date opened).writeBodyOffset = 0 ∧
      ((c.setResponseContent res date opened).fileOpen = true →
        (c.setResponseContent res date opened).writeBody = []) := by
  unfold setResponseContent
  dsimp only
  split
  · cases opened with
    | none => exact ⟨rfl, rfl, nofun⟩
    | some size => exact ⟨rfl, rfl, fun _ => rfl⟩
  · cases res.bodyContent with
    | text content => exact ⟨rfl, rfl, nofun⟩
    | filePath path => exact ⟨rfl, rfl, nofun⟩

/-- An installed response can be sent in full. -/
theorem setResponseContent_finishes {c : Connection} (hopen : c.isOpen = true)
    (res : HttpResponse) (date : Bytes) (opened : Option (Option Int)) :
    ∃ calls, ((c.setResponseContent res date opened).writeAll calls).conn.hasDataToWrite =
      false := by
  have hout := setResponseContent_outside c res date opened
  have hopen' : (c.setResponseContent res date opened).isOpen = true :=
    (congrArg isOpen hout).trans hopen
  obtain ⟨hsent, hstart, hfile⟩ := setResponseContent_start c res date opened
  exact ⟨[(0, willing _)], exists_finished hopen' hsent hstart hfile 0⟩

end Connection

end Oreshnek
