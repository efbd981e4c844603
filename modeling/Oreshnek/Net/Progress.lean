import Oreshnek.Net.Delivery

/-!
# Calls that refresh the clock

`write_data` refreshes `last_activity_` wherever it comes to its end. With a response to
be written it has then handed over a byte, but for one way: the file is found to end
before its range does, and nothing was sent before it in the same call
(`writeData_progress_iff`).
-/

namespace Oreshnek

namespace Connection

/-- What `set_response_content` sets up and `write_data` keeps: the headers are marked
sent behind the last of them, and there is a file or a text. -/
structure Sendable (c : Connection) : Prop where
  headers : c.headersSent = true → c.rawHeadersToSend = []
  text : c.fileOpen = true → c.writeBody = []

/-- A connection stays sendable while its headers are the same and no file is opened. -/
theorem Sendable.keep {c c' : Connection} (h : c.Sendable) (hsent : c'.headersSent = c.headersSent)
    (hraw : c'.rawHeadersToSend = c.rawHeadersToSend)
    (hopen : c'.fileOpen = true → c.fileOpen = true) (hbody : c'.writeBody = c.writeBody) :
    c'.Sendable := by
  constructor
  · rw [hsent, hraw]
    exact h.headers
  · intro hopened
    rw [hbody]
    exact h.text (hopen hopened)

/-- Nothing is set up. -/
theorem clearResponseState_sendable (c : Connection) : c.clearResponseState.Sendable where
  headers := fun _ => rfl
  text := fun _ => rfl

theorem setResponseContent_sendable (c : Connection) (res : HttpResponse) (date : Bytes)
    (opened : Option (Option Int)) : (c.setResponseContent res date opened).Sendable := by
  rcases setResponseContent_start c res date opened with ⟨hsent, -, hfile⟩
  refine ⟨fun h => ?_, hfile⟩
  rw [hsent] at h
  cases h

/-! ## What a call keeps -/

/-- The text stage leaves the file as it is. -/
theorem textStage_fileOpen (c : Connection) (answers : WriteAnswers) :
    (c.textStage answers).written.conn.fileOpen = c.fileOpen := by
  unfold textStage
  split
  · unfold sslBody
    split
    · cases answers.sslBody <;> rfl
    · rfl
  · unfold sendBody
    split
    · cases answers.sendBody <;> rfl
    · rfl

/-- No stage of the body opens a file or puts a text in its place. -/
theorem bodyStage_text (c : Connection) (now : Nat) (answers : WriteAnswers) :
    ((bodyStage c now answers).conn.fileOpen = true → c.fileOpen = true) ∧
      (bodyStage c now answers).conn.writeBody = c.writeBody := by
  constructor
  · unfold bodyStage
    split
    · exact id
    split
    case isTrue hopen => exact fun _ => hopen
    case isFalse hclosed =>
      have hstage := textStage_fileOpen c answers
      cases htext : c.textStage answers with
      | goOn w =>
          rw [htext] at hstage
          exact fun h => hstage.symm.trans h
      | return_ w =>
          rw [htext] at hstage
          exact fun h => hstage.symm.trans h
  · rcases bodyStage_clock c now answers with h | h
    · have hbody := congrArg writeBody h
      exact hbody
    · have hbody := congrArg writeBody h
      exact hbody

/-- A write leaves a response that can be sent on. -/
theorem writeData_sendable {c : Connection} (h : c.Sendable) (now : Nat) (answers : WriteAnswers) :
    (c.writeData now answers).conn.Sendable := by
  have hout := headerStage_outsideHead c answers
  have hdone := headerStage_headersDone h.headers answers
  unfold writeData
  split
  · exact h
  generalize c.headerStage answers = stage at hout hdone ⊢
  have hopen : stage.written.conn.fileOpen = c.fileOpen := by
    have hsame := congrArg fileOpen hout
    exact hsame
  have hbody : stage.written.conn.writeBody = c.writeBody := by
    have hsame := congrArg writeBody hout
    exact hsame
  cases stage with
  | return_ w =>
      refine ⟨hdone.1, fun hopened => ?_⟩
      exact hbody.trans (h.text (hopen.symm.trans hopened))
  | goOn w =>
      rcases bodyStage_text w.conn now answers with ⟨hfile, htext⟩
      constructor
      · intro _
        exact (bodyStage_raw w.conn now answers).trans (hdone.2 w rfl)
      · intro hopened
        have hbefore := h.text (hopen.symm.trans (hfile hopened))
        exact htext.trans (hbody.trans hbefore)

/-! ## The end of a file -/

/-- The first thing that is heard of the file is its end. -/
def fileEnds (c : Connection) (answers : WriteAnswers) : Bool :=
  if c.usesTls then answers.sslFile.head?.any fun answer => answer.1.isNone
  else decide (answers.sendfile.head? = some .eof)

/-- The file ends before its range does, and before a byte of the call is sent. -/
def endsEarly (c : Connection) (answers : WriteAnswers) : Bool :=
  c.isOpen && decide (c.rawHeadersToSend = []) && !c.headOnly && c.fileOpen &&
    decide (0 < c.fileRemaining) && c.fileEnds answers

theorem sendfileLoop_body (answers : List SendfileResult) (c : Connection) (body : Bytes) :
    body <+: (sendfileLoop answers c body).written.body := by
  fun_induction sendfileLoop answers c body with
  | case2 c body hmore count first rest answers bytes ih => exact (List.prefix_append _ _).trans ih
  | _ => exact List.prefix_refl _

theorem sslFileLoop_body (answers : List (Option (UInt8 × Bytes) × SslWrite)) (c : Connection)
    (body : Bytes) : body <+: (sslFileLoop answers c body).written.body := by
  fun_induction sslFileLoop answers c body with
  | case2 c body hmore want first rest more answers bytes ih =>
      exact (List.prefix_append _ _).trans ih
  | _ => exact List.prefix_refl _

/-- A loop that started behind some bytes has sent them when it goes on. -/
theorem goOn_sends {stage : Stage} {sent : Bytes} (hsent : sent ≠ [])
    (hbody : sent <+: stage.written.body) {w : Written} (hw : stage = .goOn w) : w.body ≠ [] := by
  intro hnone
  have hnone : (Stage.goOn w).written.body = [] := hnone
  rw [hw, hnone, List.prefix_nil] at hbody
  exact hsent hbody

/-- A file that ends early sends nothing, and the stages go on. -/
theorem fileStage_ends {c : Connection} (hleft : 0 < c.fileRemaining) {answers : WriteAnswers}
    (hends : c.fileEnds answers = true) : c.fileStage answers = .goOn ⟨0, c, [], []⟩ := by
  unfold fileEnds at hends
  unfold fileStage
  split at hends
  case isTrue htls =>
    rw [if_pos htls]
    cases hanswers : answers.sslFile with
    | nil =>
        rw [hanswers] at hends
        cases hends
    | cons answer rest =>
        rw [hanswers] at hends
        obtain ⟨read, sent⟩ := answer
        obtain rfl : read = none := Option.isNone_iff_eq_none.1 hends
        unfold sslFileLoop
        rw [if_neg (Int.not_le.2 hleft)]
  case isFalse htls =>
    rw [if_neg htls]
    cases hanswers : answers.sendfile with
    | nil =>
        rw [hanswers] at hends
        cases of_decide_eq_true hends
    | cons answer rest =>
        rw [hanswers] at hends
        obtain rfl := Option.some.inj (of_decide_eq_true hends)
        unfold sendfileLoop
        rw [if_neg (Int.not_le.2 hleft)]

/-- Unless the file ends early, the stage goes on only when it has sent something. -/
theorem sendfileLoop_sends {c : Connection} (hleft : 0 < c.fileRemaining)
    {answers : List SendfileResult} (hends : answers.head? ≠ some .eof) {w : Written}
    (hw : sendfileLoop answers c [] = .goOn w) : w.body ≠ [] := by
  have hmore : ¬ c.fileRemaining ≤ 0 := Int.not_le.2 hleft
  unfold sendfileLoop at hw
  rw [if_neg hmore] at hw
  split at hw
  next first rest answers =>
    -- one byte at least
    have hsome : (first :: rest).take (min c.fileRemaining.toNat fileSendChunk) ≠ [] := by
      rw [ne_eq, List.take_eq_nil_iff, not_or]
      refine ⟨?_, List.cons_ne_nil _ _⟩
      unfold fileSendChunk
      omega
    exact goOn_sends hsome (sendfileLoop_body answers _ _) hw
  · cases hw
  next => exact absurd rfl hends
  · cases hw
  · cases hw

/-- The loop over a file goes on only after it has sent some of it. -/
theorem sslFileLoop_sends {c : Connection} (hleft : 0 < c.fileRemaining)
    {answers : List (Option (UInt8 × Bytes) × SslWrite)}
    (hends : (answers.head?.any fun answer => answer.1.isNone) = false) {w : Written}
    (hw : sslFileLoop answers c [] = .goOn w) : w.body ≠ [] := by
  have hmore : ¬ c.fileRemaining ≤ 0 := Int.not_le.2 hleft
  unfold sslFileLoop at hw
  rw [if_neg hmore] at hw
  split at hw
  next first rest more answers =>
    have hsome : ((first :: rest).take (min c.fileRemaining.toNat 16384)).take (more + 1) ≠ [] := by
      rw [ne_eq, List.take_eq_nil_iff, List.take_eq_nil_iff, not_or, not_or]
      refine ⟨Nat.succ_ne_zero _, ?_, List.cons_ne_nil _ _⟩
      omega
    exact goOn_sends hsome (sslFileLoop_body answers _ _) hw
  · cases hw
  · cases hw
  · cases hw
  next => cases hends
  · cases hw

/-- A file stage that goes on has sent something. -/
theorem fileStage_sends {c : Connection} (hleft : 0 < c.fileRemaining) {answers : WriteAnswers}
    (hends : c.fileEnds answers = false) {w : Written} (hw : c.fileStage answers = .goOn w) :
    w.body ≠ [] := by
  unfold fileEnds at hends
  unfold fileStage at hw
  split at hends
  case isTrue htls =>
    rw [if_pos htls] at hw
    exact sslFileLoop_sends hleft hends hw
  case isFalse htls =>
    rw [if_neg htls] at hw
    exact sendfileLoop_sends hleft (of_decide_eq_false hends) hw

/-- The stage of the text goes on only after it has sent some of it. -/
theorem textStage_sends {c : Connection} (hmore : c.writeBodyOffset < c.writeBody.length)
    {answers : WriteAnswers} {w : Written} (hw : c.textStage answers = .goOn w) : w.body ≠ [] := by
  -- at least one byte is taken, and there is one
  have hsome : ∀ more, (c.writeBody.drop c.writeBodyOffset).take (more + 1) ≠ [] := by
    intro more
    rw [ne_eq, List.take_eq_nil_iff, not_or, List.drop_eq_nil_iff, Nat.not_le]
    exact ⟨Nat.succ_ne_zero _, hmore⟩
  unfold textStage at hw
  split at hw
  · unfold sslBody at hw
    rw [if_pos hmore] at hw
    cases hanswer : answers.sslBody with
    | sent more =>
        rw [hanswer] at hw
        cases hw
        exact hsome more
    | wantRead =>
        rw [hanswer] at hw
        cases hw
    | wantWrite =>
        rw [hanswer] at hw
        cases hw
    | failed =>
        rw [hanswer] at hw
        cases hw
  · unfold sendBody at hw
    rw [if_pos hmore] at hw
    cases hanswer : answers.sendBody with
    | sent more =>
        rw [hanswer] at hw
        cases hw
        exact hsome more
    | wouldBlock =>
        rw [hanswer] at hw
        cases hw
    | failed =>
        rw [hanswer] at hw
        cases hw

/-! ## One call -/

/-- A stage that has sent something when it goes on, and leaves the clock alone: the
clock is refreshed only behind bytes. -/
theorem andThen_stirs {stage : Stage} {behind : Connection → Connection} {c : Connection}
    (hsends : ∀ w, stage = .goOn w → w.body ≠ [])
    (hclock : stage.written.conn.lastActivity = c.lastActivity) :
    (stage.andThen behind).body ≠ [] ∨
      (stage.andThen behind).conn.lastActivity = c.lastActivity := by
  cases stage with
  | goOn w => exact Or.inl (hsends w rfl)
  | return_ w => exact Or.inr hclock

/-- With bytes left to send, the stage of the body sends some or leaves the time of the last
activity alone. -/
theorem bodyStage_stirs {c : Connection} (h : c.Sendable) (hraw : c.rawHeadersToSend = [])
    (hdata : c.hasDataToWrite = true) (now : Nat) {answers : WriteAnswers}
    (hends : c.fileOpen = true → 0 < c.fileRemaining → c.fileEnds answers = false) :
    (bodyStage c now answers).body ≠ [] ∨
      (bodyStage c now answers).conn.lastActivity = c.lastActivity := by
  -- a HEAD response has no body, so there is one to send
  have hpending : ¬ (c.headOnly = true ∨ (c.fileOpen = true → c.fileRemaining ≤ 0) ∧
      c.writeBody.length ≤ c.writeBodyOffset) := by
    intro hnone
    rw [hasDataToWrite_false.2 ⟨hraw, hnone⟩] at hdata
    cases hdata
  rw [not_or] at hpending
  rcases hpending with ⟨hhead, hpending⟩
  unfold bodyStage
  rw [if_neg hhead]
  split
  case isTrue hopen =>
    -- there is no text beside the file
    have htext : c.writeBody.length ≤ c.writeBodyOffset := by
      rw [h.text hopen]
      exact Nat.zero_le _
    have hleft : 0 < c.fileRemaining := by
      by_contra hnone
      exact hpending ⟨fun _ => Int.not_lt.1 hnone, htext⟩
    have hclock := congrArg lastActivity (fileStage_outside c answers)
    exact andThen_stirs (fun w hw => fileStage_sends hleft (hends hopen hleft) hw) hclock
  case isFalse hclosed =>
    have hmore : c.writeBodyOffset < c.writeBody.length := by
      by_contra hnone
      exact hpending ⟨fun hopen => absurd hopen hclosed, Nat.not_lt.1 hnone⟩
    have hclock := congrArg lastActivity (textStage_outside c answers)
    exact andThen_stirs (fun w hw => textStage_sends hmore hw) hclock

/-- A call that does not meet the end of the file first sends a byte or leaves the clock
alone. -/
theorem writeData_stirs {c : Connection} (h : c.Sendable) (hdata : c.hasDataToWrite = true)
    (now : Nat) {answers : WriteAnswers} (hearly : c.endsEarly answers = false) :
    (c.writeData now answers).head ++ (c.writeData now answers).body ≠ [] ∨
      (c.writeData now answers).conn.lastActivity = c.lastActivity := by
  by_cases hopen : c.isOpen = true
  swap
  · -- a closed connection is left as it is
    right
    unfold writeData
    rw [if_pos hopen]
  by_cases hraw : c.rawHeadersToSend = []
  · -- the headers are gone: what counts is the body
    have hstage := headerStage_done hraw answers
    have hsendable : Sendable { c with headersSent := true } := ⟨fun _ => hraw, h.text⟩
    have hends : c.fileOpen = true → 0 < c.fileRemaining → c.fileEnds answers = false := by
      intro hopened hleft
      by_contra hends
      have hends : c.fileEnds answers = true := eq_true_of_ne_false hends
      have hhead : c.headOnly = false := by
        by_contra hhead
        have hnone := hasDataToWrite_false.2 ⟨hraw, Or.inl (eq_true_of_ne_false hhead)⟩
        rw [hnone] at hdata
        cases hdata
      unfold endsEarly at hearly
      rw [hopen, decide_eq_true hraw, hhead, hopened, decide_eq_true hleft, hends] at hearly
      cases hearly
    have hbody := bodyStage_stirs hsendable hraw hdata now hends
    unfold writeData
    rw [if_neg (not_not.2 hopen), hstage]
    exact hbody
  · -- a header byte is sent, or the call returns
    have haccounts := (headerStage_accounts c answers).head
    have hclock := congrArg lastActivity (headerStage_outside c answers)
    have hdone := headerStage_headersDone h.headers answers
    unfold writeData
    rw [if_neg (not_not.2 hopen)]
    generalize c.headerStage answers = stage at haccounts hclock hdone ⊢
    cases stage with
    | return_ w => exact Or.inr hclock
    | goOn w =>
        left
        have hall : w.head = c.rawHeadersToSend := by
          have hsplit : w.head ++ w.conn.rawHeadersToSend = c.rawHeadersToSend := haccounts
          rwa [hdone.2 w rfl, List.append_nil] at hsplit
        intro hnone
        have hnone : w.head ++ (bodyStage w.conn now answers).body = [] := hnone
        rw [List.append_eq_nil_iff, hall] at hnone
        exact hraw hnone.1

/-- One that does sends nothing, does not fail, and refreshes the clock. -/
theorem writeData_ends {c : Connection} (now : Nat) {answers : WriteAnswers}
    (hearly : c.endsEarly answers = true) :
    (c.writeData now answers).head = [] ∧ (c.writeData now answers).body = [] ∧
      (c.writeData now answers).ret = 0 ∧ (c.writeData now answers).conn.lastActivity = now := by
  unfold endsEarly at hearly
  simp only [Bool.and_eq_true, decide_eq_true_eq, Bool.not_eq_true'] at hearly
  rcases hearly with ⟨⟨⟨⟨⟨hopen, hraw⟩, hhead⟩, hfile⟩, hleft⟩, hends⟩
  have hstage : fileStage { c with headersSent := true } answers =
      .goOn ⟨0, { c with headersSent := true }, [], []⟩ :=
    fileStage_ends (c := { c with headersSent := true }) hleft hends
  unfold writeData
  rw [if_neg (not_not.2 hopen), headerStage_done hraw]
  dsimp only
  unfold bodyStage
  rw [if_neg (by simp [hhead]), if_pos hfile, hstage]
  exact ⟨rfl, rfl, rfl, rfl⟩

/-- **One call.** With a response to be written it sends a byte, fails, or leaves the
clock alone, unless it meets the end of the file first, on a clock that is not of now. -/
theorem writeData_progress_iff {c : Connection} (h : c.Sendable) (hdata : c.hasDataToWrite = true)
    (now : Nat) (answers : WriteAnswers) :
    ((c.writeData now answers).head ++ (c.writeData now answers).body ≠ [] ∨
        (c.writeData now answers).ret = -1 ∨
        (c.writeData now answers).conn.lastActivity = c.lastActivity) ↔
      ¬ (c.endsEarly answers = true ∧ c.lastActivity ≠ now) := by
  constructor
  · rintro hprogress ⟨hearly, hclock⟩
    rcases writeData_ends now hearly with ⟨hhead, hbody, hret, hlast⟩
    rw [hhead, hbody, hret, hlast] at hprogress
    rcases hprogress with hbytes | hfailed | hsame
    · exact hbytes rfl
    · cases hfailed
    · exact hclock hsame.symm
  · intro hnot
    by_cases hearly : c.endsEarly answers = true
    · -- the clock is of now
      have hclock : c.lastActivity = now := by
        by_contra hne
        exact hnot ⟨hearly, hne⟩
      right
      right
      rcases writeData_lastActivity c now answers with hlast | hlast
      · exact hlast
      · rw [hlast, hclock]
    · rcases writeData_stirs h hdata now (eq_false_of_ne_true hearly) with hbytes | hlast
      · exact Or.inl hbytes
      · exact Or.inr (Or.inr hlast)

end Connection

end Oreshnek
