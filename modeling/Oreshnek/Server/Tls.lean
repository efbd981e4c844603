import Oreshnek.Server.Arming
import Oreshnek.Server.Persistence
import Oreshnek.Net.Segmentation

/-!
# TLS and the arming of sockets

While a TLS connection waits for its next request, its socket is armed by
`tls_want_`, and what OpenSSL holds of it decrypted raises no event. `tls_want_` is
written by the handshake, the reads and the writes, and the loop over `SSL_read` can
end without a word about it, at a full buffer. `armed_for_last_read` says that the
socket is armed for writing only for an `SSL_read` that asked for it in those runs in
which no connection goes back to waiting with a `tls_want_` from earlier on;
`nothing_unread` says that nothing is left unread behind a socket armed for reading
in those in which none does with bytes left.
-/

namespace Oreshnek

namespace Connection

/-! ## `tls_want_` behind a read -/

/-- How the loop over `SSL_read` leaves the connection, with the answer of the last
call. -/
inductive SslEnds (c c' : Connection) : Option SslRead → Prop where
  /-- The buffer is full. -/
  | full (first : UInt8) (rest : Bytes) (hwant : c'.tlsWant = c.tlsWant)
      (hfull : readBufferSize ≤ c'.readBuffer.length) : SslEnds c c' (some (.data first rest))
  | wantRead (hwant : c'.tlsWant = .read) (hspace : c'.readBuffer.length < readBufferSize) :
      SslEnds c c' (some .wantRead)
  | wantWrite (hwant : c'.tlsWant = .write) (hspace : c'.readBuffer.length < readBufferSize) :
      SslEnds c c' (some .wantWrite)
  | closeNotify (hwant : c'.tlsWant = c.tlsWant)
      (hspace : c'.readBuffer.length < readBufferSize) : SslEnds c c' (some .closeNotify)
  | failed (hwant : c'.tlsWant = c.tlsWant)
      (hspace : c'.readBuffer.length < readBufferSize) : SslEnds c c' (some .failed)

/-- The loop over `SSL_read` ends with a full buffer or with an answer other than data. -/
theorem sslReadLoop_ends (answers : List SslRead) (c : Connection) (total : Nat)
    (last : Option SslRead)
    (h : c.readBuffer.length < readBufferSize ∨ ∃ first rest, last = some (.data first rest)) :
    SslEnds c (sslReadLoop answers c total last).1 (sslReadLoop answers c total last).2.2.2 := by
  fun_induction sslReadLoop answers c total last with
  | case1 answers c total last space hspace =>
      obtain ⟨first, rest, rfl⟩ := h.resolve_left (by omega)
      exact .full first rest rfl (Nat.le_of_sub_eq_zero hspace)
  | case2 c total last space hspace first rest answers bytes ih =>
      -- the loop goes on, with a last answer that has moved bytes
      have hends := ih (.inr ⟨first, rest, rfl⟩)
      generalize sslReadLoop answers { c with readBuffer := c.readBuffer ++ bytes }
        (total + bytes.length) (some (.data first rest)) = r at hends ⊢
      obtain ⟨c', total', ending, last'⟩ := r
      cases hends with
      | full first rest hwant hfull => exact .full first rest hwant hfull
      | wantRead hwant hspace => exact .wantRead hwant hspace
      | wantWrite hwant hspace => exact .wantWrite hwant hspace
      | closeNotify hwant hspace => exact .closeNotify hwant hspace
      | failed hwant hspace => exact .failed hwant hspace
  | case3 c total last space hspace tail => exact .wantRead rfl (by simp only; omega)
  | case4 c total last space hspace tail => exact .wantWrite rfl (by simp only; omega)
  | case5 c total last space hspace tail => exact .closeNotify rfl (by simp only; omega)
  | case6 c total last space hspace tail => exact .failed rfl (by simp only; omega)
  | case7 c total last space hspace => exact .failed rfl (by simp only; omega)

/-- A read over TLS with space in the buffer ends so. -/
theorem readData_ends {c : Connection} (htls : c.usesTls = true) (hopen : c.isOpen = true)
    (hspace : c.readBuffer.length < readBufferSize) (now : Nat) (recv : RecvResult)
    (ssl : List SslRead) :
    SslEnds c (c.readData now recv ssl).2.1 (c.readData now recv ssl).2.2 := by
  have hloop := sslReadLoop_ends ssl c 0 none (.inl hspace)
  unfold readData
  rw [if_neg (not_not_intro hopen), if_neg (by omega), if_pos htls]
  generalize sslReadLoop ssl c 0 none = r at hloop ⊢
  obtain ⟨c', total, ending, last⟩ := r
  dsimp only at hloop ⊢
  cases ending with
  | left =>
      dsimp only
      split
      · cases hloop with
        | full first rest hwant hfull => exact .full first rest hwant hfull
        | wantRead hwant hspace => exact .wantRead hwant hspace
        | wantWrite hwant hspace => exact .wantWrite hwant hspace
        | closeNotify hwant hspace => exact .closeNotify hwant hspace
        | failed hwant hspace => exact .failed hwant hspace
      · exact hloop
  | closeNotify => exact hloop
  | failed => exact hloop

theorem readBufferSize_pos : 0 < readBufferSize := by decide

/-- What `SSL_read` answers for a record. -/
def recordRead (r : UInt8 × Bytes) : SslRead := .data r.1 r.2

def recordBytes (records : List (UInt8 × Bytes)) : Bytes := records.flatMap fun r => r.1 :: r.2

/-- Records that fill the buffer are read one by one, and nothing behind them. -/
theorem sslReadLoop_fills (records : List (UInt8 × Bytes)) (c : Connection) (total : Nat)
    (last : Option SslRead)
    (hfills : c.readBuffer.length + (recordBytes records).length = readBufferSize) :
    sslReadLoop (records.map recordRead) c total last =
      ({ c with readBuffer := c.readBuffer ++ recordBytes records },
        total + (recordBytes records).length, .left,
        (records.getLast?.map recordRead).or last) := by
  induction records generalizing c total last with
  | nil =>
      have hfull : readBufferSize - c.readBuffer.length = 0 := by
        rw [← hfills]
        exact Nat.add_sub_cancel_left _ 0
      show sslReadLoop [] c total last =
        ({ c with readBuffer := c.readBuffer ++ [] }, total, .left, last)
      rw [List.append_nil]
      unfold sslReadLoop
      dsimp only
      rw [if_pos hfull]
  | cons r records ih =>
      have hbytes : recordBytes (r :: records) = (r.1 :: r.2) ++ recordBytes records :=
        List.flatMap_cons
      rw [hbytes, List.length_append] at hfills
      have hpos : 0 < (r.1 :: r.2).length := Nat.succ_pos _
      have hspace : ¬ readBufferSize - c.readBuffer.length = 0 := by omega
      have htake : (r.1 :: r.2).take (readBufferSize - c.readBuffer.length) = r.1 :: r.2 :=
        List.take_of_length_le (by omega)
      rw [List.map_cons, recordRead, sslReadLoop]
      dsimp only
      rw [if_neg hspace, htake, ih]
      · rw [hbytes, List.append_assoc, List.length_append, Nat.add_assoc]
        cases records with
        | nil => rfl
        | cons r' records => rw [List.getLast?_cons_cons, List.getLast?_cons]; rfl
      · rw [List.length_append]
        omega

/-- Some records fill the empty buffer. -/
theorem readData_fills {c : Connection} (htls : c.usesTls = true) (hopen : c.isOpen = true)
    (hempty : c.readBuffer = []) {records : List (UInt8 × Bytes)}
    (hlength : (recordBytes records).length = readBufferSize) (now : Nat) (recv : RecvResult) :
    c.readData now recv (records.map recordRead) = ((readBufferSize : Int),
      { c with readBuffer := recordBytes records }.updateActivity now,
      records.getLast?.map recordRead) := by
  have hspace : ¬ readBufferSize - c.readBuffer.length = 0 := by
    rw [hempty, List.length_nil, Nat.sub_zero]
    exact Nat.ne_of_gt readBufferSize_pos
  have hloop := sslReadLoop_fills records c 0 none (by rw [hempty, hlength]; rfl)
  rw [hempty, List.nil_append, hlength, Nat.zero_add, Option.or_none] at hloop
  unfold readData
  rw [if_neg (not_not_intro hopen)]
  dsimp only
  rw [if_neg hspace, if_pos htls, hloop]
  rfl

/-! ## `tls_want_` behind a write -/

/-- A stage that goes on has left `tls_want_` alone; one that returns has failed, or
left something to write. -/
def Stage.Steady (c : Connection) : Stage → Prop
  | .goOn w => w.conn.tlsWant = c.tlsWant ∧ w.conn.usesTls = c.usesTls
  | .return_ w => w.ret < 0 ∨ w.conn.hasDataToWrite = true

/-- A header loop that goes on leaves what the reader has asked for. -/
theorem sslHeaders_steady (answers : List SslWrite) (c : Connection) (head : Bytes) :
    (sslHeaders answers c head).Steady c := by
  fun_induction sslHeaders answers c head with
  | case1 answers c head hsent => exact ⟨rfl, rfl⟩
  | case2 answers c head hsent hraw => exact ⟨rfl, rfl⟩
  | case3 c head hsent hraw more answers ih => exact ih
  | case4 c head hsent hraw tail => exact .inr (if_pos hraw)
  | case5 c head hsent hraw tail => exact .inr (if_pos hraw)
  | case6 c head hsent hraw tail => exact .inl (show (-1 : Int) < 0 by decide)
  | case7 c head hsent hraw => exact .inl (show (-1 : Int) < 0 by decide)

/-- An open file with bytes left is something to write. -/
theorem hasDataToWrite_file {c : Connection} (hhead : c.headOnly = false)
    (hfile : c.fileOpen = true) (hmore : 0 < c.fileRemaining) : c.hasDataToWrite = true := by
  rw [← Bool.not_eq_false, hasDataToWrite_false, hhead]
  rintro ⟨-, h | h⟩
  · cases h
  · have := h.1 hfile
    omega

/-- So does a file loop. -/
theorem sslFileLoop_steady (answers : List (Option (UInt8 × Bytes) × SslWrite)) (c : Connection)
    (body : Bytes) (hhead : c.headOnly = false) (hfile : c.fileOpen = true) :
    (sslFileLoop answers c body).Steady c := by
  fun_induction sslFileLoop answers c body with
  | case1 answers c body hdone => exact ⟨rfl, rfl⟩
  | case2 c body hmore want first rest more answers bytes ih => exact ih hhead hfile
  | case3 c body hmore => exact .inr (hasDataToWrite_file hhead hfile (Int.not_le.1 hmore))
  | case4 c body hmore => exact .inr (hasDataToWrite_file hhead hfile (Int.not_le.1 hmore))
  | case5 c body hmore => exact .inl (show (-1 : Int) < 0 by decide)
  | case6 c body hmore => exact ⟨rfl, rfl⟩
  | case7 c body hmore => exact .inl (show (-1 : Int) < 0 by decide)

/-- So does one `SSL_write` of the body. -/
theorem sslBody_steady {c : Connection} (hhead : c.headOnly = false) (answer : SslWrite) :
    (c.sslBody answer).Steady c := by
  unfold sslBody
  split
  case isTrue hmore =>
    have hdata : ∀ want, ({ c with tlsWant := want } : Connection).hasDataToWrite = true := by
      intro want
      rw [← Bool.not_eq_false, hasDataToWrite_false]
      dsimp only
      rw [hhead]
      rintro ⟨-, h | h⟩
      · cases h
      · omega
    cases answer with
    | sent more => exact ⟨rfl, rfl⟩
    | wantRead => exact .inr (hdata _)
    | wantWrite => exact .inr (hdata _)
    | failed => exact .inl (show (-1 : Int) < 0 by decide)
  case isFalse => exact ⟨rfl, rfl⟩

/-- A write that has failed, or left something to write, or has left `tls_want_` alone. -/
def Written.Settled (c : Connection) (w : Written) : Prop :=
  w.ret < 0 ∨ w.conn.hasDataToWrite = true ∨ w.conn.tlsWant = c.tlsWant

/-- The last stage of a write. -/
theorem Stage.Steady.andThen {c : Connection} {stage : Stage} (h : stage.Steady c)
    {finish : Connection → Connection} (hfinish : ∀ c, (finish c).tlsWant = c.tlsWant) :
    (stage.andThen finish).Settled c := by
  cases stage with
  | goOn w => exact .inr (.inr ((hfinish w.conn).trans h.1))
  | return_ w =>
      rcases h with hfailed | hmore
      · exact .inl hfailed
      · exact .inr (.inl hmore)

/-- The stage of the body leaves `tls_want_` alone, unless it fails or leaves something to
write. -/
theorem bodyStage_settled {c : Connection} (htls : c.usesTls = true) (now : Nat)
    (answers : WriteAnswers) : (c.bodyStage now answers).Settled c := by
  unfold bodyStage
  split
  case isTrue => exact .inr (.inr rfl)
  case isFalse hbody =>
    have hbody := Bool.eq_false_iff.2 hbody
    split
    case isTrue hfile =>
      have hstage : c.fileStage answers = sslFileLoop answers.sslFile c [] := if_pos htls
      rw [hstage]
      exact (sslFileLoop_steady answers.sslFile c [] hbody hfile).andThen fun _ => rfl
    case isFalse =>
      have hstage : c.textStage answers = c.sslBody answers.sslBody := if_pos htls
      rw [hstage]
      exact (sslBody_steady hbody answers.sslBody).andThen fun _ => rfl

/-- A write behind which nothing is left to write has left `tls_want_` alone. -/
theorem writeData_want {c : Connection} (htls : c.usesTls = true) {now : Nat}
    {answers : WriteAnswers} (hret : 0 ≤ (c.writeData now answers).ret)
    (hdata : (c.writeData now answers).conn.hasDataToWrite = false) :
    (c.writeData now answers).conn.tlsWant = c.tlsWant := by
  unfold writeData at hret hdata ⊢
  split
  case isTrue => rfl
  case isFalse hopen =>
    rw [if_neg hopen] at hret hdata
    have hsteady := sslHeaders_steady answers.sslHead c []
    have hstage : c.headerStage answers = sslHeaders answers.sslHead c [] := if_pos htls
    rw [hstage] at hret hdata ⊢
    cases hhead : sslHeaders answers.sslHead c [] with
    | return_ w =>
        -- a stage that returns is against one of the two
        rw [hhead] at hsteady hret hdata
        rcases hsteady with hfailed | hmore
        · exact absurd hret (Int.not_le.2 hfailed)
        · cases hdata.symm.trans hmore
    | goOn w =>
        rw [hhead] at hsteady hret hdata
        obtain ⟨hwant, hsecure⟩ := hsteady
        dsimp only [Written.after] at hret hdata ⊢
        have hret : 0 ≤ (bodyStage w.conn now answers).ret := by
          split at hret
          · exact hret
          · omega
        rcases bodyStage_settled (hsecure.trans htls) now answers with hfailed | hmore | hsame
        · omega
        · cases hdata.symm.trans hmore
        · exact hsame.trans hwant

end Connection

/-! ## Callbacks of a TLS connection -/

namespace Session

/-- What the handshake leaves alone. -/
theorem entered_conn {x z : Session} {now : Nat} {ans : Answers} (h : Entered x now ans z) :
    z.conn.tlsWant = x.conn.tlsWant ∧ z.conn.usesTls = x.conn.usesTls ∧
      z.conn.isOpen = x.conn.isOpen := by
  cases h with
  | plain => exact ⟨rfl, rfl, rfl⟩
  | shaken htls hdone hr =>
      -- a handshake that is done asks for nothing
      unfold shake
      dsimp only
      unfold Connection.continueTlsHandshake at hr ⊢
      rw [if_neg (not_not_intro htls)] at hr ⊢
      cases haccept : ans.accept with
      | done => exact ⟨rfl, rfl, rfl⟩
      | wantRead =>
          rw [haccept] at hr
          cases hr
      | wantWrite =>
          rw [haccept] at hr
          cases hr
      | failed =>
          rw [haccept] at hr
          cases hr

/-- A read that does not end the connection has found space in the buffer. -/
theorem readAndDispatch_space {x z : Session} {now : Nat} {ans : Answers}
    (h : x.readAndDispatch now ans = .dispatch z) :
    z = x.afterRead now ans ∧ x.conn.readBuffer.length < Connection.readBufferSize := by
  unfold readAndDispatch at h
  dsimp only at h
  split at h
  · cases h
  next hsome =>
    split at h
    · cases h
    · cases h
      refine ⟨rfl, Nat.lt_of_not_le fun hfull => hsome ?_⟩
      unfold Connection.readData
      split
      · rfl
      · dsimp only
        rw [if_pos (Nat.sub_eq_zero_of_le hfull)]

/-- A read callback that goes on in `dispatch_next`. -/
theorem handle_read {x z : Session} (hopen : x.conn.isOpen = true) {draining : Bool} {now : Nat}
    {ans : Answers} (h : x.handle draining now ans .read = .dispatch z) :
    ∃ y, Entered x now ans y ∧ z = y.afterRead now ans ∧
      y.conn.readBuffer.length < Connection.readBufferSize := by
  change x.handleClientData now ans = .dispatch z at h
  unfold handleClientData at h
  rw [if_neg (not_not_intro hopen)] at h
  split at h
  next htls =>
    dsimp only at h
    split at h
    next hr =>
      exact ⟨_, .shaken htls.1 (Bool.eq_false_iff.2 htls.2) hr, readAndDispatch_space h⟩
    · split at h
      · cases h
      · cases h
  next htls => exact ⟨x, .plain (secured_of_not htls), readAndDispatch_space h⟩

/-- What the last `SSL_read` of a read callback has to do with `tls_want_`. -/
theorem read_ends {x z : Session} (htls : x.conn.usesTls = true) (hopen : x.conn.isOpen = true)
    {draining : Bool} {now : Nat} {ans : Answers}
    (h : x.handle draining now ans .read = .dispatch z) :
    Connection.SslEnds x.conn z.conn z.hist.lastSslRead := by
  obtain ⟨y, hentered, rfl, hspace⟩ := handle_read hopen h
  obtain ⟨hwant, hsame, hsocket⟩ := entered_conn hentered
  have hends := Connection.readData_ends (hsame.trans htls) (hsocket.trans hopen) hspace now
    ans.recv ans.sslRead
  unfold afterRead
  generalize y.conn.readData now ans.recv ans.sslRead = r at hends ⊢
  obtain ⟨ret, c, last⟩ := r
  dsimp only at hends ⊢
  cases hends with
  | full first rest hkept hfull => exact .full first rest (hkept.trans hwant) hfull
  | wantRead hread hspace => exact .wantRead hread hspace
  | wantWrite hwrite hspace => exact .wantWrite hwrite hspace
  | closeNotify hkept hspace => exact .closeNotify (hkept.trans hwant) hspace
  | failed hkept hspace => exact .failed (hkept.trans hwant) hspace

/-- A write callback that goes on in `dispatch_next` has left `tls_want_` alone. -/
theorem write_ends {x z : Session} (htls : x.conn.usesTls = true) (hopen : x.conn.isOpen = true)
    {draining : Bool} {now : Nat} {ans : Answers}
    (h : x.handle draining now ans .write = .dispatch z) :
    z.conn.tlsWant = x.conn.tlsWant ∧ z.hist.lastSslRead = x.hist.lastSslRead := by
  have hhandle := handle_cases hopen draining now ans .write
  rw [h] at hhandle
  cases hhandle with
  | reused hsecured hret hdata =>
      exact ⟨Connection.writeData_want htls hret hdata, rfl⟩

/-- The connection that waits for its next request, and the direction it is armed for. -/
theorem dispatches_waits {y z : Session} {limited overloaded : Bool} {now o : Nat} {ans : Answers}
    {dir : Direction} (h : Dispatches z limited overloaded now ans o y (.rearm dir)) :
    y.conn.tlsWant = z.conn.tlsWant ∧ y.hist.lastSslRead = z.hist.lastSslRead ∧
      (dir = .write ↔ z.conn.usesTls = true ∧ z.conn.tlsWant = .write) ∧
      ∃ n inb, z.conn.toInbound.parseNext = some (false, n, inb) ∧ inb.parserFailed = false := by
  generalize houtcome : Outcome.rearm dir = outcome at h
  cases h with
  | limited => cases houtcome
  | shed => cases houtcome
  | handedOver => cases houtcome
  | bad => cases houtcome
  | waits n inb hparse hgood =>
      obtain ⟨b, hconn⟩ := await_conn (z.parsed inb) ans
      have hwant := congrArg Connection.tlsWant hconn
      have hsecure := congrArg Connection.usesTls hconn
      refine ⟨hwant, rfl, ?_, n, inb, hparse, hgood⟩
      have hdir := Outcome.rearm.inj houtcome
      unfold awaitDirection at hdir
      have hwant : ((z.parsed inb).await ans).conn.tlsWant = z.conn.tlsWant := hwant
      have hsecure : ((z.parsed inb).await ans).conn.usesTls = z.conn.usesTls := hsecure
      rw [hwant, hsecure] at hdir
      rw [hdir]
      split
      next hwrite => exact ⟨fun _ => hwrite, fun _ => rfl⟩
      next hread => exact ⟨fun h => (nomatch h), fun h => absurd h hread⟩

/-- OpenSSL may hold decrypted bytes of the connection: its last `SSL_read` moved
bytes, so that it has not said that there are no more. -/
def unread (x : Session) : Bool :=
  match x.hist.lastSslRead with
  | some (.data _ _) => true
  | _ => false

end Session

namespace Server

variable {H : Type} {cfg : Config H}

/-! ## Going back to waiting -/

/-- The direction of the event that is looked at. -/
def eventDirection : Phase → Option Direction
  | .batch (.client _ dir false :: _) => some dir
  | _ => none

/-- The connection that waits for its next request behind this step: the direction of
its event, and the connection before the step and where it goes into
`dispatch_next`. -/
def waiting (s : Server) (a : Act H) : Option (Direction × Session × Session) :=
  match s.dispatching a with
  | none => none
  | some (o, ans, z) =>
      match z.conn.toInbound.parseNext with
      | some (false, _, inb) =>
          if inb.parserFailed ∨ ¬ ans.rearmed then none
          else (eventDirection s.phase).map fun dir => (dir, s.objects o, z)
      | _ => none

/-- What arms a TLS connection that has nothing to write: it is new, in its handshake
or just behind it, or waits for its next request. -/
inductive Rests (s : Server) (a : Act H) : Direction → Session → Prop where
  | fresh (x : Session) (hlast : x.hist.lastSslRead = none) : Rests s a .read x
  | shaken (dir back : Direction) (fd o : Nat) (x : Session)
      (hlookup : s.connections.lookup fd = some o) (harmed : s.armedFor fd = some dir)
      (htls : (s.objects o).conn.usesTls = true)
      (hdata : (s.objects o).conn.hasDataToWrite = false)
      (hbefore : (s.objects o).conn.tlsHandshakeDone = false)
      (hlast : x.hist.lastSslRead = (s.objects o).hist.lastSslRead)
      (hback : back = .read ∨ x.conn.tlsHandshakeDone = false) : Rests s a back x
  | waits (dir back : Direction) (before z x : Session)
      (hwaiting : s.waiting a = some (dir, before, z)) (htls : before.conn.usesTls = true)
      (hends : match dir with
        | .read => Connection.SslEnds before.conn z.conn z.hist.lastSslRead
        | .write => z.conn.tlsWant = before.conn.tlsWant ∧
            z.hist.lastSslRead = before.hist.lastSslRead)
      (hdone : x.conn.tlsHandshakeDone = true) (hlast : x.hist.lastSslRead = z.hist.lastSslRead)
      (hback : back = .write ↔ z.conn.tlsWant = .write) : Rests s a back x

/-- A callback that finds no whole request waits for more. -/
theorem waiting_eq {s : Server} {ans : Answers} {fd o n : Nat} {dir : Direction}
    {rest : List Event} {z : Session} {inb : Inbound}
    (hphase : s.phase = .batch (.client fd dir false :: rest))
    (hlookup : s.connections.lookup fd = some o)
    (hhandle : (s.objects o).handle s.draining s.now ans dir = .dispatch z)
    (hparse : z.conn.toInbound.parseNext = some (false, n, inb))
    (hgood : inb.parserFailed = false) (hrearmed : ans.rearmed = true) :
    s.waiting (.client ans : Act H) = some (dir, s.objects o, z) := by
  unfold waiting
  rw [dispatching_eq hphase hlookup hhandle]
  dsimp only
  rw [hparse]
  dsimp only
  rw [if_neg (by simp [hgood, hrearmed]), hphase]
  rfl

/-- A TLS connection that is armed with nothing to write is new, shaking hands or waiting. -/
theorem arms_rests {s : Server} (hinv : s.Inv) {a : Act H} {fd o : Nat} {dir : Direction}
    {x : Session} (h : Arms cfg s a fd o dir x) (htls : x.conn.usesTls = true)
    (hdata : x.conn.hasDataToWrite = false) : Rests s a dir x := by
  cases h with
  | created clientIp ha => exact .fresh _ rfl
  | reacted ans dir' rest x back ha hphase hlookup hleft hopen hreact hrearmed =>
      subst ha
      have hsocket := (Session.react_left hleft hopen hreact).2
      have hbefore : (s.objects o).conn.usesTls = true := hsocket.2.symm.trans htls
      have harmed := hinv.reported hphase
      rcases Session.react_cases hleft hopen hreact with
        hhandle | ⟨z, hz, hhandle, hready, hdispatch⟩
      · cases hhandle with
        | shaken dir outcome htls' hdone houtcome =>
            -- the handshake has only just ended or goes on: nothing has been read
            have hnone := (Session.shake_hasData _ s.now ans).symm.trans hdata
            refine .shaken dir' _ fd o _ hlookup harmed htls' hnone hdone rfl ?_
            rcases houtcome with h | h | ⟨hwaits, -⟩
            · cases h
            · cases h
              exact .inl rfl
            · exact .inr hwaits
        | wrote outcome houtcome =>
            rcases houtcome with h | ⟨-, hmore⟩
            · cases h
            · rw [hdata] at hmore
              cases hmore
      · obtain ⟨hwant, hlast, hdir, n, inb, hparse, hgood⟩ := Session.dispatches_waits hdispatch
        -- an incomplete request: the callback has read until something stopped it
        have hflow := Session.handle_sound hleft hopen s.draining s.now ans
        rw [hz] at hflow
        obtain ⟨-, hsecured, hsame⟩ := hflow
        have hsecure : z.conn.usesTls = true := hsame.2.trans hbefore
        refine .waits dir' _ (s.objects o) z x
          (waiting_eq hphase hlookup hz hparse hgood hrearmed) hbefore ?_ ?_ hlast ?_
        · cases dir' with
          | read => exact Session.read_ends hbefore hopen hz
          | write => exact Session.write_ends hbefore hopen hz
        · cases hdispatch with
          | waits n inb =>
              obtain ⟨b, hconn⟩ := Session.await_conn (z.parsed inb) ans
              have hdone := congrArg Connection.tlsHandshakeDone hconn
              exact hdone.trans (hsecured hsecure)
        · rw [hdir, hsecure]
          exact ⟨fun h => h.2, fun h => ⟨rfl, h⟩⟩
  | answered x hwriting =>
      rw [hwriting.data] at hdata
      cases hdata

/-! ## Armed for the last read -/

/-- A connection that goes back to waiting with `tls_want_` at Write has it from the
last `SSL_read`: one of this callback, or that before a write callback. -/
def wantCurrent (s : Server) (a : Act H) : Bool :=
  match s.waiting a with
  | none => true
  | some (dir, before, z) =>
      decide (before.conn.tlsWant = .read) ||
        match dir with
        | .read => decide (z.hist.lastSslRead = some .wantRead ∨
            z.hist.lastSslRead = some .wantWrite)
        | .write => decide (before.hist.lastSslRead = some .wantWrite)

/-- Armed for writing, its last `SSL_read` has asked for it. -/
theorem rests_wants {s : Server} {a : Act H} {x : Session} (hok : wantCurrent s a = true)
    (h : Rests s a .write x) (hdone : x.conn.tlsHandshakeDone = true) :
    x.hist.lastSslRead = some .wantWrite := by
  cases h with
  | shaken dir back fd o x hlookup harmed htls hnone hbefore hlast hback =>
      rcases hback with hback | hwaits
      · cases hback
      · rw [hdone] at hwaits
        cases hwaits
  | waits dir back before z x hwaiting htls hends hdone' hlast hback =>
      have hwrite := hback.1 rfl
      unfold wantCurrent at hok
      rw [hwaiting] at hok
      dsimp only at hok
      rw [Bool.or_eq_true, decide_eq_true_eq] at hok
      rw [hlast]
      cases dir with
      | read =>
          dsimp only at hends hok
          generalize z.hist.lastSslRead = last at hends hok ⊢
          -- an end of the loop that leaves `tls_want_` alone is against the condition
          have hkept : z.conn.tlsWant = before.conn.tlsWant →
              last = some .wantRead ∨ last = some .wantWrite := by
            intro hkept
            rcases hok with hread | hlast
            · rw [hkept, hread] at hwrite
              cases hwrite
            · exact of_decide_eq_true hlast
          cases hends with
          | full first rest hwant => rcases hkept hwant with h | h <;> cases h
          | wantRead hwant =>
              rw [hwant] at hwrite
              cases hwrite
          | wantWrite => rfl
          | closeNotify hwant => rcases hkept hwant with h | h <;> cases h
          | failed hwant => rcases hkept hwant with h | h <;> cases h
      | write =>
          dsimp only at hends hok
          obtain ⟨hwant, hsame⟩ := hends
          rw [hsame]
          rcases hok with hread | hlast
          · rw [hwant, hread] at hwrite
            cases hwrite
          · exact of_decide_eq_true hlast

/-- **Armed for the last read.** In a run in which no connection goes back to waiting
with a `tls_want_` from earlier on, the socket of a TLS connection that has no request
in flight and nothing to write is armed for writing only when the last `SSL_read` asked
for it, and for reading otherwise. -/
theorem armed_for_last_read {s : Server}
    (h : Runs.Reached (serverSystem cfg) (fun s a => wantCurrent s a = true) s) {fd o : Nat}
    (hlookup : s.connections.lookup fd = some o) (htls : (s.objects o).conn.usesTls = true)
    (hdone : (s.objects o).conn.tlsHandshakeDone = true)
    (hprocessing : (s.objects o).conn.processing = false)
    (hdata : (s.objects o).conn.hasDataToWrite = false) :
    (s.armedFor fd = some .write ∧ (s.objects o).hist.lastSslRead = some .wantWrite) ∨
      s.armedFor fd = some .read := by
  have hinv := reachable_inv h.reachable
  have hwants : ∀ fd o dir, s.connections.lookup fd = some o → s.armedFor fd = some dir →
      (s.objects o).conn.usesTls = true → (s.objects o).conn.tlsHandshakeDone = true →
      (s.objects o).conn.hasDataToWrite = false → dir = .write →
      (s.objects o).hist.lastSslRead = some .wantWrite := by
    apply reached_armed (P := fun x dir => x.conn.usesTls = true →
      x.conn.tlsHandshakeDone = true → x.conn.hasDataToWrite = false → dir = .write →
      x.hist.lastSslRead = some .wantWrite) ?_ h
    rintro s a fd o dir x hs hok - harms htls hdone hdata rfl
    exact rests_wants hok (arms_rests (reachable_inv hs.reachable) harms htls hdata) hdone
  cases harmed : s.armedFor fd with
  | some dir =>
      cases dir with
      | read => exact .inr rfl
      | write => exact .inl ⟨rfl, hwants fd o .write hlookup harmed htls hdone hdata rfl⟩
  | none =>
      -- only a connection with a request in flight has a socket that is not armed
      obtain ⟨-, -, hmode⟩ := hinv.serves fd o hlookup
      rw [harmed] at hmode
      have hbusy := hmode.1.processing
      rw [hprocessing] at hbusy
      cases hbusy

/-- The server of `smallConfig` over TLS. -/
def tlsConfig : Config Nat := { smallConfig with tls := true }

/-- The handshake is done, and these bytes arrive; the `SSL_read` behind them ends with
`last`. -/
def secureOne (bytes : Bytes) (last : SslRead) : List (Act Nat) :=
  [.poll [.client 7 .read false], .client
    { accept := .done
      sslRead := match bytes with
        | [] => [last]
        | first :: rest => [.data first rest, last] }]

/-- The first byte of a request arrives, and `SSL_read` asks for a writable socket. -/
def wantsToWrite : List (Act Nat) := acceptOne ++ secureOne (lit "G") .wantWrite

/-- The last `SSL_read` asks for a writable socket. -/
theorem armed_for_last_read_write :
    ∃ s, (serverSystem tlsConfig).runIf wantCurrent (Server.start 0) wantsToWrite = some s ∧
      s.armedFor 7 ≠ some .read ∧
      ((s.armedFor 7 = some .write ∧ (s.objects 0).hist.lastSslRead = some .wantWrite) ∨
        s.armedFor 7 = some .read) := by
  have hrun : ((serverSystem tlsConfig).runIf wantCurrent (Server.start 0) wantsToWrite).map
      (fun s => decide (s.connections.lookup 7 = some 0 ∧ (s.objects 0).conn.usesTls = true ∧
        (s.objects 0).conn.tlsHandshakeDone = true ∧ (s.objects 0).conn.processing = false ∧
        (s.objects 0).conn.hasDataToWrite = false ∧ s.armedFor 7 ≠ some .read)) = some true := by
    decide +kernel
  obtain ⟨s, hs, hvalue⟩ := Option.map_eq_some_iff.1 hrun
  obtain ⟨hlookup, htls, hdone, hprocessing, hdata, harmed⟩ := of_decide_eq_true hvalue
  exact ⟨s, hs, harmed, armed_for_last_read (Runs.reached_of_runIf (.start ⟨0, rfl⟩) hs)
    hlookup htls hdone hprocessing hdata⟩

/-- A response is sent in two calls, of which the first would block. -/
def blockedOnce : List (Act Nat) :=
  acceptOne ++ secureOne getRequest .wantRead ++ [.afterBatch, .take, .work 0 smallEnv] ++
    installOne ++ [.afterBatch, .poll [.client 7 .write false],
      .client { write := { sslHead := [.wantWrite] } }, .afterBatch,
      .poll [.client 7 .write false],
      .client { write := { sslHead := [.sent 1000], sslBody := .sent 1000 } }]

/-- The connection waits for its next request, armed for writing for good, though its
last `SSL_read` asked for a readable socket. -/
theorem stale_want :
    ¬ ∀ s, Runs.Reachable (serverSystem tlsConfig) s → ∀ fd o,
      s.connections.lookup fd = some o → (s.objects o).conn.usesTls = true →
      (s.objects o).conn.tlsHandshakeDone = true → (s.objects o).conn.processing = false →
      (s.objects o).conn.hasDataToWrite = false →
      (s.armedFor fd = some .write ∧ (s.objects o).hist.lastSslRead = some .wantWrite) ∨
        s.armedFor fd = some .read := by
  intro h
  have hrun : ((serverSystem tlsConfig).run (Server.start 0) blockedOnce).map
      (fun s => decide (s.connections.lookup 7 = some 0 ∧ (s.objects 0).conn.usesTls = true ∧
        (s.objects 0).conn.tlsHandshakeDone = true ∧ (s.objects 0).conn.processing = false ∧
        (s.objects 0).conn.hasDataToWrite = false ∧ s.armedFor 7 = some .write ∧
        (s.objects 0).hist.lastSslRead = some .wantRead)) = some true := by
    decide +kernel
  obtain ⟨s, hs, hvalue⟩ := Option.map_eq_some_iff.1 hrun
  obtain ⟨hlookup, htls, hdone, hprocessing, hdata, harmed, hlast⟩ := of_decide_eq_true hvalue
  rcases h s (reachable_of_start hs) 7 0 hlookup htls hdone hprocessing hdata with
    ⟨-, hwrite⟩ | hread
  · rw [hlast] at hwrite
    cases hwrite
  · rw [harmed] at hread
    cases hread

/-! ## Nothing left unread -/

/-- No connection goes back to waiting, armed for reading, with bytes left in the SSL
object: its read has not filled the buffer, or the last one before a write callback
had left none. -/
def leavesNone (s : Server) (a : Act H) : Bool :=
  match s.waiting a with
  | none => true
  | some (dir, before, z) =>
      decide (before.conn.usesTls = false) || decide (before.conn.tlsWant = .write) ||
        match dir with
        | .read => decide (z.conn.readBuffer.length < Connection.readBufferSize)
        | .write => !before.unread

/-- Armed for reading, a connection has read all that there was. -/
theorem rests_unread {s : Server} {a : Act H} {x : Session} (hok : leavesNone s a = true)
    (hnew : ∀ fd o dir, s.connections.lookup fd = some o → s.armedFor fd = some dir →
      (s.objects o).conn.usesTls = true → (s.objects o).conn.hasDataToWrite = false →
      (s.objects o).conn.tlsHandshakeDone = false → (s.objects o).hist.lastSslRead = none)
    (h : Rests s a .read x) : x.unread = false := by
  cases h with
  | fresh x hlast =>
      unfold Session.unread
      rw [hlast]
  | shaken dir back fd o x hlookup harmed htls hnone hbefore hlast hback =>
      unfold Session.unread
      rw [hlast, hnew fd o dir hlookup harmed htls hnone hbefore]
  | waits dir back before z x hwaiting htls hends hdone' hlast hback =>
      -- it waits to read, so OpenSSL does not want to write
      have hread : z.conn.tlsWant ≠ .write := fun h => nomatch hback.2 h
      unfold leavesNone at hok
      rw [hwaiting] at hok
      dsimp only at hok
      rw [htls, Bool.or_eq_true, Bool.or_eq_true] at hok
      have hunread : x.unread = z.unread := by
        unfold Session.unread
        rw [hlast]
      rw [hunread]
      cases dir with
      | read =>
          dsimp only at hends hok
          unfold Session.unread
          generalize z.hist.lastSslRead = last at hends ⊢
          cases hends with
          | full first rest hwant hfull =>
              -- the buffer was full: excluded, since there is space left
              rcases hok with (h | hwrite) | hspace
              · cases h
              · exact absurd (hwant.trans (of_decide_eq_true hwrite)) hread
              · have := of_decide_eq_true hspace
                omega
          | wantRead => rfl
          | wantWrite => rfl
          | closeNotify => rfl
          | failed => rfl
      | write =>
          dsimp only at hends hok
          obtain ⟨hwant, hsame⟩ := hends
          rcases hok with (h | hwrite) | hnone
          · cases h
          · exact absurd (hwant.trans (of_decide_eq_true hwrite)) hread
          · unfold Session.unread at hnone ⊢
            rw [hsame]
            rw [Bool.not_eq_true'] at hnone
            exact hnone

/-- **Nothing left unread.** In a run in which no connection goes back to waiting, armed
for reading, with bytes left in the SSL object, none does: the last `SSL_read` on a TLS
connection whose socket is armed for reading has moved no bytes. -/
theorem nothing_unread {s : Server}
    (h : Runs.Reached (serverSystem cfg) (fun s a => leavesNone s a = true) s) {fd o : Nat}
    (hlookup : s.connections.lookup fd = some o) (htls : (s.objects o).conn.usesTls = true)
    (harmed : s.armedFor fd = some .read) : (s.objects o).unread = false := by
  have hall : ∀ fd o dir, s.connections.lookup fd = some o → s.armedFor fd = some dir →
      (s.objects o).conn.usesTls = true → (s.objects o).conn.hasDataToWrite = false →
      ((s.objects o).conn.tlsHandshakeDone = false → (s.objects o).hist.lastSslRead = none) ∧
      (dir = .read → (s.objects o).unread = false) := by
    apply reached_armed (P := fun x dir => x.conn.usesTls = true → x.conn.hasDataToWrite = false →
      (x.conn.tlsHandshakeDone = false → x.hist.lastSslRead = none) ∧
      (dir = .read → x.unread = false)) ?_ h
    intro s a fd o dir x hs hok hP harms htls hdata
    have hrests := arms_rests (reachable_inv hs.reachable) harms htls hdata
    -- nothing is read before the handshake is done
    have hnew : ∀ fd o dir, s.connections.lookup fd = some o → s.armedFor fd = some dir →
        (s.objects o).conn.usesTls = true → (s.objects o).conn.hasDataToWrite = false →
        (s.objects o).conn.tlsHandshakeDone = false → (s.objects o).hist.lastSslRead = none :=
      fun fd o dir hlookup harmed htls hdata => (hP fd o dir hlookup harmed htls hdata).1
    constructor
    · intro hwaits
      cases hrests with
      | fresh x hlast => exact hlast
      | shaken dir back fd o x hlookup harmed htls hnone hbefore hlast hback =>
          exact hlast.trans (hnew fd o dir hlookup harmed htls hnone hbefore)
      | waits dir back before z x hwaiting htls hends hdone hlast hback =>
          rw [hdone] at hwaits
          cases hwaits
    · rintro rfl
      exact rests_unread hok hnew hrests
  have hidle := ((reachable_inv h.reachable).serves fd o hlookup).2.2
  rw [harmed] at hidle
  exact (hall fd o .read hlookup harmed htls hidle.1.noData).2 rfl

/-- The first byte of a request arrives, and `SSL_read` finds no more. -/
def wantsToRead : List (Act Nat) := acceptOne ++ secureOne (lit "G") .wantRead

/-- The last `SSL_read` finds no more. -/
theorem nothing_unread_read :
    ∃ s, (serverSystem tlsConfig).runIf leavesNone (Server.start 0) wantsToRead = some s ∧
      (s.objects 0).conn.readBuffer = lit "G" ∧
      (s.objects 0).hist.lastSslRead = some .wantRead ∧ (s.objects 0).unread = false := by
  have hrun : ((serverSystem tlsConfig).runIf leavesNone (Server.start 0) wantsToRead).map
      (fun s => decide (s.connections.lookup 7 = some 0 ∧ (s.objects 0).conn.usesTls = true ∧
        s.armedFor 7 = some .read ∧ (s.objects 0).conn.readBuffer = lit "G" ∧
        (s.objects 0).hist.lastSslRead = some .wantRead)) = some true := by
    decide +kernel
  obtain ⟨s, hs, hvalue⟩ := Option.map_eq_some_iff.1 hrun
  obtain ⟨hlookup, htls, harmed, hbuffer, hlast⟩ := of_decide_eq_true hvalue
  exact ⟨s, hs, hbuffer, hlast,
    nothing_unread (Runs.reached_of_runIf (.start ⟨0, rfl⟩) hs) hlookup htls harmed⟩

/-- The head of a request whose body does not fit into the buffer. -/
def uploadHead : Bytes := lit "POST / HTTP/1.1\r\nContent-Length: 2000000\r\n\r\n"

/-- As much of it as the buffer holds, behind its first byte. -/
def uploadRest : Bytes :=
  uploadHead.tail ++ List.replicate (Connection.readBufferSize - uploadHead.length) 0

theorem uploadRest_eq : 80 :: uploadRest =
    uploadHead ++ List.replicate (Connection.readBufferSize - uploadHead.length) 0 := rfl

/-- A record holds 16 KiB at most. -/
def recordSize : Nat := 16 * 1024

/-- The records that it comes in. -/
def uploadRecords : List (UInt8 × Bytes) :=
  (80, uploadHead.tail ++ List.replicate (recordSize - uploadHead.length) 0) ::
    List.replicate 63 (0, List.replicate (recordSize - 1) 0)

theorem zeroRecords_bytes (n : Nat) :
    Connection.recordBytes (List.replicate n (0, List.replicate (recordSize - 1) 0)) =
      List.replicate (n * recordSize) 0 := by
  induction n with
  | zero => rw [Nat.zero_mul]; rfl
  | succ n ih =>
      have hone : (0 : UInt8) :: List.replicate (recordSize - 1) 0 =
          List.replicate recordSize 0 := (List.replicate_succ).symm
      rw [List.replicate_succ, Connection.recordBytes, List.flatMap_cons]
      rw [Connection.recordBytes] at ih
      rw [ih, hone, List.replicate_append_replicate, Nat.succ_mul, Nat.add_comm]

theorem uploadRecords_bytes : Connection.recordBytes uploadRecords = 80 :: uploadRest := by
  have hlength : uploadHead.length = 44 := by decide +kernel
  have hzeros := zeroRecords_bytes 63
  rw [Connection.recordBytes] at hzeros
  rw [Connection.recordBytes, uploadRecords, List.flatMap_cons, hzeros, uploadRest,
    List.cons_append, List.append_assoc, List.replicate_append_replicate]
  rw [hlength, recordSize, Connection.readBufferSize]

theorem uploadRest_length : (80 :: uploadRest).length = Connection.readBufferSize := by
  rw [uploadRest_eq, List.length_append, List.length_replicate]
  have hle : uploadHead.length ≤ Connection.readBufferSize := by decide +kernel
  omega

/-- The parser waits for more of it. -/
theorem upload_waits {c : Inbound} (h : c.readBuffer = 80 :: uploadRest) :
    ∃ n inb, c.parseNext = some (false, n, inb) ∧ inb.parserFailed = false := by
  have hhead : crlf ++ crlf <:+: uploadHead := by decide +kernel
  have hspan : headerSpan uploadHead ≤ maxHeaderBytes := by decide +kernel
  have hline : (Cursor.start uploadHead).data.find crlf = some 15 := by decide +kernel
  have hstate : (parseRequestLine (Cursor.start uploadHead)).2.parser.state = .headers := by
    decide +kernel
  have hparser : (parseHeaders (parseRequestLine (Cursor.start uploadHead)).2).2.parser =
      ⟨.body, 2000000, false, []⟩ := by decide +kernel
  have hdata : (parseHeaders (parseRequestLine (Cursor.start uploadHead)).2).2.data.length = 0 := by
    decide +kernel
  have hshort : Connection.readBufferSize - uploadHead.length < 2000000 := by decide +kernel
  obtain ⟨q, hq, hbody⟩ := parseRequest_waits
    (r := List.replicate (Connection.readBufferSize - uploadHead.length) 0) hhead hspan hline hstate
    rfl (by rw [hparser]) (by rw [hparser])
    (by rw [hdata, hparser, List.length_replicate, Nat.zero_add]; exact hshort)
  rw [← uploadRest_eq] at hq
  have hparse : c.parseNext = some (q.isComplete, q.bytesProcessed, Inbound.ofResult q) := by
    unfold Inbound.parseNext
    rw [h, if_neg (List.cons_ne_nil _ _)]
    have hreset : c.httpParser.reset = {} := rfl
    rw [hreset, hq]
    dsimp only
    rw [if_neg (by rw [hbody]; exact ParsingState.noConfusion)]
  have hcomplete : q.isComplete = false := by
    unfold ParseResult.isComplete
    rw [hbody]
    rfl
  refine ⟨_, _, hcomplete ▸ hparse, ?_⟩
  unfold Inbound.parserFailed Inbound.ofResult
  rw [hbody]
  rfl

/-- A new TLS connection whose handshake is done and whose first read fills the buffer,
with a request that is not complete, goes back to waiting, armed for reading. -/
theorem filling_read {records : List (UInt8 × Bytes)} {limited overloaded : Bool} {ans : Answers}
    (hlength : (Connection.recordBytes records).length = Connection.readBufferSize)
    (hwaits : ∀ c : Inbound, c.readBuffer = Connection.recordBytes records →
      ∃ n inb, c.parseNext = some (false, n, inb) ∧ inb.parserFailed = false)
    (haccept : ans.accept = .done) (hread : ans.sslRead = records.map Connection.recordRead) :
    ∃ y, (Session.new 7 0 [] true).react false limited overloaded 0 ans 0 .read =
      some (y, .rearm .read) ∧ y.conn.usesTls = true ∧ y.unread = true := by
  have hleft : (Session.new 7 0 [] true).Left (.rearm .read) := new_idle 7 0 [] true
  obtain ⟨final, hfinal⟩ : ∃ r, records.getLast? = some r := by
    cases records with
    | nil => cases hlength
    | cons r records => exact ⟨_, List.getLast?_cons⟩
  -- the handshake is done
  have hshake : (Session.new 7 0 [] true).conn.continueTlsHandshake 0 ans.accept =
      (1, ((Session.new 7 0 [] true).shake 0 ans).conn) := by
    unfold Session.shake
    rw [haccept]
    rfl
  have hshaken : ((Session.new 7 0 [] true).shake 0 ans).conn =
      { (Session.new 7 0 [] true).conn with tlsHandshakeDone := true, lastActivity := 0 } := by
    unfold Session.shake
    rw [haccept]
    rfl
  -- the read fills the buffer
  have hfills := Connection.readData_fills (c := ((Session.new 7 0 [] true).shake 0 ans).conn)
    (by rw [hshaken]; rfl) (by rw [hshaken]; rfl) (by rw [hshaken]; rfl) hlength 0 ans.recv
  rw [← hread, hfinal, Option.map_some] at hfills
  have hz : (Session.new 7 0 [] true).handle false 0 ans .read =
      .dispatch (((Session.new 7 0 [] true).shake 0 ans).afterRead 0 ans) := by
    change (Session.new 7 0 [] true).handleClientData 0 ans = _
    unfold Session.handleClientData
    have hopen : (Session.new 7 0 [] true).conn.isOpen = true := rfl
    rw [if_neg (not_not_intro hopen), if_pos ⟨rfl, Bool.false_ne_true⟩, hshake]
    dsimp only
    rw [if_pos rfl]
    change ((Session.new 7 0 [] true).shake 0 ans).readAndDispatch 0 ans = _
    unfold Session.readAndDispatch
    dsimp only
    rw [hfills]
    rfl
  have hconn : (((Session.new 7 0 [] true).shake 0 ans).afterRead 0 ans).conn =
      { (Session.new 7 0 [] true).conn with
        readBuffer := Connection.recordBytes records
        tlsHandshakeDone := true
        lastActivity := 0 } := by
    unfold Session.afterRead
    rw [hfills, hshaken]
    rfl
  have hlast : (((Session.new 7 0 [] true).shake 0 ans).afterRead 0 ans).hist.lastSslRead =
      some (Connection.recordRead final) := by
    unfold Session.afterRead
    rw [hfills]
    rfl
  obtain ⟨n, inb, hparse, hgood⟩ := hwaits
    (((Session.new 7 0 [] true).shake 0 ans).afterRead 0 ans).conn.toInbound (by rw [hconn])
  generalize ((Session.new 7 0 [] true).shake 0 ans).afterRead 0 ans = z at hz hconn hlast hparse
  have hprocessing : z.conn.processing = false := by
    rw [hconn]
    rfl
  have hdispatch : z.dispatchNext limited overloaded 0 ans 0 = some ((z.parsed inb).await ans,
      .rearm (Session.awaitDirection ((z.parsed inb).await ans).conn)) := by
    unfold Session.dispatchNext
    rw [if_neg (by rw [hprocessing]; exact Bool.false_ne_true), hparse]
    dsimp only
    have hgood : (z.parsed inb).conn.toInbound.parserFailed = false := hgood
    rw [if_neg (by rw [hgood]; exact Bool.false_ne_true)]
  have hreact : (Session.new 7 0 [] true).react false limited overloaded 0 ans 0 .read =
      some ((z.parsed inb).await ans, .rearm (Session.awaitDirection ((z.parsed inb).await ans).conn)) := by
    unfold Session.react
    rw [hz]
    exact hdispatch
  obtain ⟨-, hsame, hdir, -⟩ :=
    Session.dispatches_waits (Session.dispatch_cases hprocessing hdispatch)
  refine ⟨(z.parsed inb).await ans, ?_, ?_, ?_⟩
  · rw [hreact]
    cases hback : Session.awaitDirection ((z.parsed inb).await ans).conn with
    | read => rfl
    | write =>
        have hwrite := (hdir.1 hback).2
        rw [hconn] at hwrite
        cases hwrite
  · exact (Session.react_left hleft rfl hreact).2.2
  · unfold Session.unread
    rw [hsame, hlast]
    rfl

/-- The read that ends at the full buffer leaves OpenSSL with the rest of its record,
and the connection waits for an event of the socket. -/
theorem full_buffer_unread :
    ¬ ∀ s, Runs.Reachable (serverSystem tlsConfig) s → ∀ fd o,
      s.connections.lookup fd = some o → (s.objects o).conn.usesTls = true →
      s.armedFor fd = some .read → (s.objects o).unread = false := by
  intro h
  have hrun : ((serverSystem tlsConfig).run (Server.start 0)
      (acceptOne ++ [.poll [.client 7 .read false]])).map
      (fun s => (s.phase, s.connections.lookup 7, s.objects 0, s.draining, s.now)) =
      some (.batch [.client 7 .read false], some 0, .new 7 0 [] true, false, 0) := rfl
  obtain ⟨s, hs, hvalue⟩ := Option.map_eq_some_iff.1 hrun
  have hphase := congrArg Prod.fst hvalue
  have hlookup := congrArg (·.2.1) hvalue
  have hobject := congrArg (·.2.2.1) hvalue
  have hdraining := congrArg (·.2.2.2.1) hvalue
  have hnow := congrArg (·.2.2.2.2) hvalue
  dsimp only at hphase hlookup hobject hdraining hnow
  generalize hans : ({ accept := .done, sslRead := uploadRecords.map Connection.recordRead } :
    Answers) = ans
  have hrearmed : ans.rearmed = true := by rw [← hans]
  -- the read fills the buffer and leaves a part of the record behind
  obtain ⟨y, hreact, htls, hunread⟩ : ∃ y, (s.objects 0).react s.draining tlsConfig.rateLimited
      (s.overloaded tlsConfig.settings) s.now ans 0 .read = some (y, .rearm .read) ∧
      y.conn.usesTls = true ∧ y.unread = true := by
    rw [hobject, hdraining, hnow]
    have hlength : (Connection.recordBytes uploadRecords).length = Connection.readBufferSize := by
      rw [uploadRecords_bytes]
      exact uploadRest_length
    refine filling_read hlength (fun c hc => ?_) (by rw [← hans]) (by rw [← hans])
    rw [uploadRecords_bytes] at hc
    exact upload_waits hc
  clear hans
  -- the socket is armed again all the same
  obtain ⟨t, hstep, hconnections, hself, harmed⟩ : ∃ t,
      step tlsConfig s (.client ans) = some t ∧ t.connections = s.connections ∧
        t.objects 0 = y ∧ t.armedFor 7 = some .read := by
    refine ⟨(({ s with phase := .batch [] } : Server).setSession 0 y).arm 7 (some .read), ?_, rfl,
      ?_, ?_⟩
    · unfold step
      dsimp only
      rw [hphase]
      dsimp only
      rw [if_neg Bool.false_ne_true, hlookup]
      dsimp only
      have hoverloaded : ({ s with phase := .batch [] } : Server).overloaded tlsConfig.settings =
          s.overloaded tlsConfig.settings := rfl
      rw [hoverloaded, hreact, Option.map_some]
      unfold conclude rearm
      dsimp only
      rw [if_pos hrearmed]
    · unfold arm setSession
      dsimp only
      rw [Function.update_self]
    · unfold armedFor arm
      dsimp only
      rw [Function.update_self]
      rfl
  have hstep : (serverSystem tlsConfig).step s (.client ans) = some t := hstep
  have hreachable := Runs.Reachable.step (reachable_of_start hs) hstep
  have hnone := h t hreachable 7 0 (hconnections ▸ hlookup) (hself ▸ htls) harmed
  rw [hself, hunread] at hnone
  cases hnone

end Server

end Oreshnek
