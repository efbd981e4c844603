import Oreshnek.Utils.Rotation

/-!
# Switching the sink

`set_file` opens the stream of the logger without closing it, and asks `is_open` whether that went
well. On a stream that is open it fails, sets the error bit and leaves the old file attached, while
the fields of the logger go over to the new path: `set_file` returns true, and what is written is
lost until a rotation closes the stream. So every line reaches its file exactly when the files are
set on a closed stream, or the first line that follows is one for which the files are rotated
(`linesReachSinks_iff`).
-/

namespace Oreshnek.Logger

/-! ## What is said of the lines -/

/-- A line has been added to a file: behind what the file held, or to a new file for which the
others have moved up. -/
structure AppendedTo (path text : Bytes) (l l' : Logger) : Prop where
  file : l'.file = ⟨some path, false⟩
  content : l'.disk.content path =
    some ((if l.overflows text.length then [] else (l.disk.content path).getD []) ++ text)
  rotated : l.overflows text.length = true → ∀ i < l.maxFiles.toNat,
    chain l'.disk path (i + 1) = chain l.disk path i

/-- Every line that is written until the sink is set again is added to this file. -/
def AllAppended (path : Bytes) : Logger → List Call → Prop
  | _, [] => True
  | l, .setLevel level :: calls => AllAppended path (l.setLevel level) calls
  | _, .setFile .. :: _ => True
  | l, .write m :: calls =>
      (l.enabled m.level = true → AppendedTo path m.text l (l.write m)) ∧
        AllAppended path (l.write m) calls

/-- Whenever a file has been set, the lines go to it until the sink is set again. -/
def LinesReachSinks (l : Logger) (calls : List Call) : Prop :=
  ∀ before path maxBytes maxFiles after,
    calls = before ++ .setFile path maxBytes maxFiles :: after → path ≠ [] →
    ((l.run before).setFile path maxBytes maxFiles).1 = true →
    AllAppended path ((l.run before).setFile path maxBytes maxFiles).2 after

/-- The first line that is written before the sink is set again. -/
def nextLine : LogLevel → List Call → Option LogEntry
  | _, [] => none
  | _, .setLevel level :: calls => nextLine level calls
  | _, .setFile .. :: _ => none
  | level, .write m :: calls =>
      if level.toNat ≤ m.level.toNat then some m else nextLine level calls

/-- Where `set_file` takes effect: the stream is closed, or the first line that follows does not
fit into the new file and so has the files rotated. -/
def TakesEffect (l : Logger) (path : Bytes) (maxBytes : Nat) (after : List Call) : Prop :=
  l.file.isOpen = false ∨
    ∀ m, nextLine l.level after = some m → l.disk.writable path = true ∧ maxBytes ≠ 0 ∧
      maxBytes < sizeT (sizeT ((l.disk.fileSize path).getD 0) + m.text.length)

/-! ## A stream that is attached to its file -/

/-- The stream and the fields of the logger agree. -/
structure Writing (path : Bytes) (l : Logger) : Prop where
  file : l.file = ⟨some path, false⟩
  filePath : l.filePath = path
  writable : l.disk.writable path = true
  exists_ : ∃ content, l.disk.content path = some content

section

variable {path : Bytes} {l : Logger} {m : LogEntry}

theorem overflows_iff {incoming : Nat} (hopen : l.file.isOpen = true) :
    l.overflows incoming = true ↔
      l.maxBytes ≠ 0 ∧ l.maxBytes < sizeT (l.currentBytes + incoming) := by
  simp [overflows, hopen]

/-- What is appended to a file that has just been written. -/
theorem append_put (d : Disk) (name content text : Bytes) :
    (d.put name (some content)).append name text = d.put name (some (content ++ text)) := by
  simp [Disk.append, Disk.put]

theorem Writing.isOpen (h : Writing path l) : l.file.isOpen = true := by
  rw [h.file]
  rfl

/-- A rotation closes the stream and opens the path anew, whatever the stream was attached to. -/
theorem write_rotated_eq (hopen : l.file.isOpen = true) (hpath : l.filePath = path)
    (hwritable : l.disk.writable path = true) (hon : l.enabled m.level = true)
    (hover : l.overflows m.text.length = true) :
    l.write m =
      { l with
        file := ⟨some path, false⟩
        disk := (shifted l.disk path l.maxFiles).put path (some m.text)
        currentBytes := sizeT (0 + m.text.length) } := by
  have hrotate : l.rotateIfNeeded m.text.length =
      { l with
        file := ⟨some path, false⟩
        disk := (shifted l.disk path l.maxFiles).put path (some [])
        currentBytes := 0 } := by
    unfold rotateIfNeeded
    rw [if_pos hover, hpath, openFile_shifted l.file l.maxFiles hwritable]
  have happend := append_put (shifted l.disk path l.maxFiles) path [] m.text
  rw [write_file hopen hon, hrotate, ← List.nil_append m.text, ← happend]
  rfl

/-- A line that does not is appended to a new one. -/
theorem write_rotated (hopen : l.file.isOpen = true) (hpath : l.filePath = path)
    (hwritable : l.disk.writable path = true) (hon : l.enabled m.level = true)
    (hover : l.overflows m.text.length = true) :
    AppendedTo path m.text l (l.write m) ∧ Writing path (l.write m) := by
  rw [write_rotated_eq hopen hpath hwritable hon hover]
  have hcontent : ((shifted l.disk path l.maxFiles).put path (some m.text)).content path =
      some m.text := Function.update_self ..
  constructor
  · constructor
    · rfl
    · rw [hcontent, if_pos hover, List.nil_append]
    · intro _ i hi
      have hput := chain_put (shifted l.disk path l.maxFiles) path 0 (some m.text)
      have happ := congrFun hput (i + 1)
      rw [Function.update_of_ne (Nat.succ_ne_zero i), chain_shifted_succ l.disk path hi] at happ
      exact happ
  · constructor
    · rfl
    · exact hpath
    · show (shifted l.disk path l.maxFiles).writable path = true
      rw [writable_shifted]
      exact hwritable
    · exact ⟨_, hcontent⟩

/-- A line that fits goes to the file that is open. -/
theorem Writing.write_fits_eq (h : Writing path l) (hon : l.enabled m.level = true)
    (hover : l.overflows m.text.length = false) :
    l.write m =
      { l with
        disk := l.disk.append path m.text
        currentBytes := sizeT (l.currentBytes + m.text.length) } := by
  have hstream : l.file.write l.disk m.text = (l.file, l.disk.append path m.text) := by
    rw [h.file]
    rfl
  rw [write_file h.isOpen hon, rotateIfNeeded_stay hover]
  dsimp only
  rw [hstream]

/-- A line that fits is appended to the file. -/
theorem Writing.write_fits (h : Writing path l) (hon : l.enabled m.level = true)
    (hover : l.overflows m.text.length = false) :
    AppendedTo path m.text l (l.write m) ∧ Writing path (l.write m) := by
  obtain ⟨content, hcontent⟩ := h.exists_
  rw [h.write_fits_eq hon hover]
  have happended : (l.disk.append path m.text).content path = some (content ++ m.text) := by
    unfold Disk.append Disk.put
    rw [hcontent]
    exact Function.update_self ..
  constructor
  · constructor
    · exact h.file
    · rw [happended, hover, hcontent]
      rfl
    · intro hrotated
      rw [hover] at hrotated
      cases hrotated
  · constructor
    · exact h.file
    · exact h.filePath
    · exact h.writable
    · exact ⟨_, happended⟩

theorem Writing.write (h : Writing path l) (hon : l.enabled m.level = true) :
    AppendedTo path m.text l (l.write m) ∧ Writing path (l.write m) := by
  cases hover : l.overflows m.text.length with
  | false => exact h.write_fits hon hover
  | true => exact write_rotated h.isOpen h.filePath h.writable hon hover

/-- Once the stream is attached, every line goes to the file. -/
theorem Writing.allAppended (h : Writing path l) (calls : List Call) : AllAppended path l calls := by
  induction calls generalizing l with
  | nil => trivial
  | cons c calls ih =>
      cases c with
      | setLevel level => exact ih ⟨h.file, h.filePath, h.writable, h.exists_⟩
      | setFile path maxBytes maxFiles => trivial
      | write m =>
          constructor
          · intro hon
            exact (h.write hon).1
          · cases hon : l.enabled m.level with
            | false =>
                rw [write_disabled hon]
                exact ih h
            | true => exact ih (h.write hon).2

/-! ## A stream that is attached to another file -/

/-- The stream is still on the file that was set before, with its error bit set. -/
structure Stale (path : Bytes) (l : Logger) : Prop where
  isOpen : l.file.isOpen = true
  fail : l.file.fail = true
  filePath : l.filePath = path

/-- A line that fits is lost. -/
theorem Stale.not_appended_fits (h : Stale path l) (hon : l.enabled m.level = true)
    (hover : l.overflows m.text.length = false) : ¬ AppendedTo path m.text l (l.write m) := by
  intro happended
  have hstream : (l.write m).file.fail = true := by
    rw [write_file h.isOpen hon, rotateIfNeeded_stay hover]
    show (l.file.write l.disk m.text).1.fail = true
    unfold Ofstream.write
    split
    · rfl
    · rw [h.fail, if_pos rfl]
      exact h.fail
  rw [happended.file] at hstream
  cases hstream

/-- So is one whose rotation cannot open the new path. -/
theorem Stale.not_appended_unwritable (h : Stale path l) (hon : l.enabled m.level = true)
    (hwritable : l.disk.writable path = false) : ¬ AppendedTo path m.text l (l.write m) := by
  cases hover : l.overflows m.text.length with
  | false => exact h.not_appended_fits hon hover
  | true =>
      intro happended
      have hstill : (shifted l.disk path l.maxFiles).writable path = false := by
        rw [writable_shifted]
        exact hwritable
      have hstream : (l.write m).file.fail = true := by
        rw [write_file h.isOpen hon]
        unfold rotateIfNeeded
        rw [if_pos hover, h.filePath, openFile_fails .trunc (.inr hstill)]
        rfl
      rw [happended.file] at hstream
      cases hstream

/-- Everything depends on the first line. -/
theorem Stale.allAppended_iff (h : Stale path l) (calls : List Call) :
    AllAppended path l calls ↔
      ∀ m, nextLine l.level calls = some m →
        l.disk.writable path = true ∧ l.overflows m.text.length = true := by
  induction calls generalizing l with
  | nil =>
      refine iff_of_true trivial ?_
      intro m hm
      cases hm
  | cons c calls ih =>
      cases c with
      | setLevel level => exact ih ⟨h.isOpen, h.fail, h.filePath⟩
      | setFile path maxBytes maxFiles =>
          refine iff_of_true trivial ?_
          intro m hm
          cases hm
      | write m =>
          cases hon : l.enabled m.level with
          | false =>
              -- nothing happens, and the first line is still to come
              have hnext : nextLine l.level (.write m :: calls) = nextLine l.level calls :=
                if_neg (of_decide_eq_false hon)
              have hall : AllAppended path l (.write m :: calls) ↔
                  (l.enabled m.level = true → AppendedTo path m.text l (l.write m)) ∧
                    AllAppended path (l.write m) calls := Iff.rfl
              rw [hnext, ← ih h, hall, hon, write_disabled hon]
              exact and_iff_right nofun
          | true =>
              have hnext : nextLine l.level (.write m :: calls) = some m :=
                if_pos (of_decide_eq_true hon)
              rw [hnext]
              constructor
              · rintro ⟨hfirst, -⟩ m' hm'
                cases hm'
                constructor
                · by_contra hno
                  exact h.not_appended_unwritable hon (Bool.eq_false_iff.2 hno) (hfirst hon)
                · by_contra hno
                  exact h.not_appended_fits hon (Bool.eq_false_iff.2 hno) (hfirst hon)
              · -- the rotation has put the stream right for all that follows
                intro hfirst
                obtain ⟨hwritable, hover⟩ := hfirst m rfl
                obtain ⟨happended, hwriting⟩ :=
                  write_rotated h.isOpen h.filePath hwritable hon hover
                exact ⟨fun _ => happended, hwriting.allAppended calls⟩

end

/-! ## Setting a file -/

/-- After `set_file`, the lines go to the file exactly where it takes effect. -/
theorem setFile_iff (l : Logger) {path : Bytes} (hpath : path ≠ []) (maxBytes : Nat)
    (maxFiles : Int) (after : List Call) :
    ((l.setFile path maxBytes maxFiles).1 = true →
        AllAppended path (l.setFile path maxBytes maxFiles).2 after) ↔
      TakesEffect l path maxBytes after := by
  have hname : path.isEmpty = false := List.isEmpty_eq_false_iff.2 hpath
  cases hopen : l.file.isOpen with
  | false =>
      refine iff_of_true ?_ (.inl hopen)
      intro hset
      have hwritable := writable_of_setFile hopen hpath hset
      refine Writing.allAppended ?_ after
      unfold setFile
      rw [hname, openFile_app hopen hwritable]
      exact ⟨rfl, rfl, hwritable, _, Function.update_self ..⟩
  | true =>
      -- the stream stays where it is
      have hset : l.setFile path maxBytes maxFiles =
          (true, { l with
            file := { l.file with fail := true }
            filePath := path
            maxBytes := maxBytes
            maxFiles := maxFiles
            currentBytes := sizeT ((l.disk.fileSize path).getD 0) }) := by
        have hstill : Ofstream.isOpen { l.file with fail := true } = true := hopen
        unfold setFile
        rw [hname, openFile_fails .app (.inl hopen)]
        simp [hstill]
      have hstale : Stale path (l.setFile path maxBytes maxFiles).2 := by
        rw [hset]
        exact ⟨hopen, rfl, rfl⟩
      rw [hstale.allAppended_iff]
      unfold TakesEffect
      rw [or_iff_right (by rw [hopen]; nofun)]
      have hfits : ∀ incoming, (l.setFile path maxBytes maxFiles).2.overflows incoming = true ↔
          maxBytes ≠ 0 ∧ maxBytes < sizeT (sizeT ((l.disk.fileSize path).getD 0) + incoming) := by
        intro incoming
        rw [overflows_iff hstale.isOpen, hset]
      simp only [hfits]
      rw [hset]
      exact forall_prop_of_true rfl

/-- **Every line reaches its file** exactly where every `set_file` takes effect. -/
theorem linesReachSinks_iff (l : Logger) (calls : List Call) :
    LinesReachSinks l calls ↔
      ∀ before path maxBytes maxFiles after,
        calls = before ++ .setFile path maxBytes maxFiles :: after → path ≠ [] →
        TakesEffect (l.run before) path maxBytes after := by
  constructor
  · intro h before path maxBytes maxFiles after hcalls hpath
    exact (setFile_iff _ hpath maxBytes maxFiles after).1
      (h before path maxBytes maxFiles after hcalls hpath)
  · intro h before path maxBytes maxFiles after hcalls hpath
    exact (setFile_iff _ hpath maxBytes maxFiles after).2
      (h before path maxBytes maxFiles after hcalls hpath)

/-- A file is set while another one is open, with the default limits. -/
def switch : List Call :=
  [.setFile (lit "a") (10 * 1024 * 1024) 5, .setFile (lit "b") (10 * 1024 * 1024) 5]

/-- Both calls return true, and the line that follows is in neither of the files. -/
theorem switched_sink_loses_line :
    let line : LogEntry := ⟨.info, [], lit "1", lit "lost"⟩
    let stop := (initial emptyDisk).run (switch ++ [.write line])
    (((initial emptyDisk).run (switch.take 1)).setFile (lit "b") (10 * 1024 * 1024) 5).1 = true ∧
      stop.disk.content (lit "a") = some [] ∧ stop.disk.content (lit "b") = none ∧
      stop.clog = [] ∧ ¬ LinesReachSinks (initial emptyDisk) (switch ++ [.write line]) := by
  intro line stop
  refine ⟨by decide +kernel, by decide +kernel, by decide +kernel, by decide +kernel, ?_⟩
  intro h
  obtain ⟨happended, -⟩ :=
    h (switch.take 1) (lit "b") _ _ [.write line] rfl (by decide) (by decide +kernel)
  exact absurd (happended (by decide +kernel)).file (by decide +kernel)

end Oreshnek.Logger
