import Oreshnek.Lib.Rotation
import Oreshnek.Utils.Logger

/-!
# Log rotation

The files `path`, `path.1`, ..., `path.N` are the slots of a rotation: what `rotate_if_needed`
does to the disk is a rotation of the slots (`chain_shifted`). So the files hold the last lines of
the log, in order, and the others were in the files that were removed (`rotation_keeps_lines`).
-/

namespace Oreshnek

/-! ## The files as slots -/

/-- The names of a chain: the active file, then the rotated ones. -/
def chainName (path : Bytes) : Nat → Bytes
  | 0 => path
  | i + 1 => rotatedName path (i + 1)

/-- The files of a chain. -/
def chain (d : Disk) (path : Bytes) : Nat → Option Bytes := d.content ∘ chainName path

/-- The files of the chain have names of their own. -/
theorem chainName_injective (path : Bytes) : Function.Injective (chainName path) := by
  have hactive : ∀ i, rotatedName path i ≠ path := by
    intro i h
    have hlen := congrArg List.length h
    simp [rotatedName, lit] at hlen
  intro i j h
  match i, j with
  | 0, 0 => rfl
  | 0, j + 1 => exact absurd h.symm (hactive (j + 1))
  | i + 1, 0 => exact absurd h (hactive (i + 1))
  | i + 1, j + 1 => exact toString_injective (List.append_cancel_left h)

theorem chain_put (d : Disk) (path : Bytes) (i : Nat) (content : Option Bytes) :
    chain (d.put (chainName path i) content) path = Function.update (chain d path) i content :=
  Function.update_comp_eq_of_injective d.content (chainName_injective path) i content

/-- A rename in the chain moves a file. -/
theorem chain_rename (d : Disk) (path : Bytes) (i j : Nat) :
    chain (d.rename (chainName path i) (chainName path j)) path =
      Rotation.move (chain d path) i j := by
  have hsource : d.content (chainName path i) = chain d path i := rfl
  unfold Disk.rename Rotation.move
  rw [hsource]
  split
  · rw [chain_put, chain_put]
  · rfl

/-- Shifting the files is the cascade of the chain. -/
theorem chain_shiftFiles (d : Disk) (path : Bytes) (n : Nat) :
    chain (shiftFiles d path n) path = Rotation.cascade (chain d path) n := by
  induction n generalizing d with
  | zero => rfl
  | succ n ih =>
      have hmove := chain_rename d path (n + 1) (n + 2)
      unfold shiftFiles Rotation.cascade
      rw [ih, ← hmove]
      rfl

/-- On the files of its chain, the shift is a rotation. -/
theorem chain_shifted (d : Disk) (path : Bytes) {n : Nat} (hn : 1 ≤ n) :
    chain (Logger.shifted d path n) path = Rotation.rotate (chain d path) n := by
  obtain ⟨m, rfl⟩ : ∃ m, n = m + 1 := ⟨n - 1, by omega⟩
  have hremove := chain_put d path (m + 1) none
  have hmove := chain_rename
    (shiftFiles (d.remove (rotatedName path (m + 1))) path m) path 0 1
  unfold Logger.shifted Rotation.rotate
  rw [if_pos (by omega), ← hremove, Int.toNat_natCast, Nat.add_sub_cancel, ← chain_shiftFiles]
  exact hmove

/-- It moves every file of the chain up by one. -/
theorem chain_shifted_succ (d : Disk) (path : Bytes) {maxFiles : Int} {i : Nat}
    (hi : i < maxFiles.toNat) :
    chain (Logger.shifted d path maxFiles) path (i + 1) = chain d path i := by
  have hfiles : maxFiles = (maxFiles.toNat : Int) := by omega
  have hshifted := chain_shifted d path (n := maxFiles.toNat) (by omega)
  rw [← hfiles] at hshifted
  rw [hshifted, Rotation.rotate_eq (by omega) _ hi, if_neg (Nat.succ_ne_zero i)]
  rfl

theorem writable_rename (d : Disk) (source target : Bytes) :
    (d.rename source target).writable = d.writable := by
  unfold Disk.rename
  split <;> rfl

theorem writable_shiftFiles (d : Disk) (path : Bytes) (n : Nat) :
    (shiftFiles d path n).writable = d.writable := by
  induction n generalizing d with
  | zero => rfl
  | succ n ih =>
      unfold shiftFiles
      rw [ih, writable_rename]

theorem writable_shifted (d : Disk) (path : Bytes) (maxFiles : Int) :
    (Logger.shifted d path maxFiles).writable = d.writable := by
  unfold Logger.shifted
  split
  · exact (writable_rename _ _ _).trans (writable_shiftFiles _ _ _)
  · rfl

/-- `open` fails on a stream that is open, and for a name that cannot be opened. -/
theorem openFile_fails {f : Ofstream} {d : Disk} {path : Bytes} (mode : OpenMode)
    (h : f.isOpen = true ∨ d.writable path = false) :
    f.openFile d path mode = ({ f with fail := true }, d) := by
  unfold Ofstream.openFile
  rw [if_pos]
  rcases h with hopen | hwritable
  · rw [hopen, Bool.true_or]
  · rw [hwritable, Bool.not_false, Bool.or_true]

/-- Otherwise the file is there, with what it held. -/
theorem openFile_app {f : Ofstream} {d : Disk} {path : Bytes} (hclosed : f.isOpen = false)
    (hwritable : d.writable path = true) :
    f.openFile d path .app =
      (⟨some path, false⟩, d.put path (some ((d.content path).getD []))) := by
  unfold Ofstream.openFile
  rw [hclosed, hwritable]
  rfl

/-- A stream that was closed opens the file of a rotation anew. -/
theorem openFile_shifted (f : Ofstream) {d : Disk} {path : Bytes} (maxFiles : Int)
    (hwritable : d.writable path = true) :
    f.close.openFile (Logger.shifted d path maxFiles) path .trunc =
      (⟨some path, false⟩, (Logger.shifted d path maxFiles).put path (some [])) := by
  unfold Ofstream.openFile
  rw [writable_shifted, hwritable]
  rfl

namespace Logger

/-- `write` for a line that is enabled, into a file. -/
theorem write_file {l : Logger} {m : LogEntry} (hopen : l.file.isOpen = true)
    (hon : l.enabled m.level = true) :
    l.write m =
      let l := l.rotateIfNeeded m.text.length
      { l with
        file := (l.file.write l.disk m.text).1
        disk := (l.file.write l.disk m.text).2
        currentBytes := sizeT (l.currentBytes + m.text.length) } := by
  unfold write
  rw [if_pos hon, if_pos hopen]

theorem write_disabled {l : Logger} {m : LogEntry} (hoff : l.enabled m.level = false) :
    l.write m = l := by
  unfold write
  rw [hoff]
  rfl

/-- A closed stream gets the file, or `set_file` returns false. -/
theorem writable_of_setFile {l : Logger} {path : Bytes} {maxBytes : Nat} {maxFiles : Int}
    (hclosed : l.file.isOpen = false) (hpath : path ≠ [])
    (hset : (l.setFile path maxBytes maxFiles).1 = true) : l.disk.writable path = true := by
  have hname : path.isEmpty = false := List.isEmpty_eq_false_iff.2 hpath
  by_contra hno
  rw [Bool.not_eq_true] at hno
  have hstill : Ofstream.isOpen { l.file with fail := true } = false := hclosed
  unfold setFile at hset
  rw [hname, openFile_fails .app (.inr hno)] at hset
  simp [hstill] at hset

theorem rotateIfNeeded_stay {l : Logger} {incoming : Nat} (h : l.overflows incoming = false) :
    l.rotateIfNeeded incoming = l := by
  unfold rotateIfNeeded
  rw [h]
  rfl

end Logger

/-! ## The lines of the log -/

/-- A whole line. -/
structure Line where
  text : Bytes
  ends : text.getLast? = some 10

theorem LogEntry.text_ends (m : LogEntry) : m.text.getLast? = some 10 := by
  unfold LogEntry.text
  exact List.getLast?_concat

def LogEntry.line (m : LogEntry) : Line := ⟨m.text, m.text_ends⟩

/-- A line of the log, and whether the logger has written it since the file was set. -/
structure LogLine extends Line where
  fresh : Bool

def Line.old (line : Line) : LogLine := ⟨line, false⟩

def Line.new (line : Line) : LogLine := ⟨line, true⟩

def linesText (lines : List LogLine) : Bytes := lines.flatMap fun line => line.text

/-- How many lines the logger has written. -/
def freshLines (lines : List LogLine) : Nat := lines.countP LogLine.fresh

@[simp] theorem linesText_append (lines lines' : List LogLine) :
    linesText (lines ++ lines') = linesText lines ++ linesText lines' := List.flatMap_append

@[simp] theorem linesText_singleton (line : LogLine) : linesText [line] = line.text :=
  List.flatMap_singleton ..

theorem linesText_flatMap {ι : Type*} (is : List ι) (lines : ι → List LogLine) :
    linesText (is.flatMap lines) = is.flatMap fun i => linesText (lines i) := List.flatMap_assoc

theorem linesText_flatten (segments : List (List LogLine)) :
    linesText segments.flatten = (segments.map linesText).flatten := by
  induction segments with
  | nil => rfl
  | cons s segments ih =>
      rw [List.flatten_cons, linesText_append, ih, List.map_cons, List.flatten_cons]

namespace Logger

/-- The lines a call writes. -/
def lines (l : Logger) : Call → List Line
  | .write m => if l.enabled m.level then [m.line] else []
  | _ => []

/-- What a call removes from the disk for good: the oldest file, when it is rotated. -/
def discards (l : Logger) : Call → List Bytes
  | .write m =>
      if l.enabled m.level && l.overflows m.text.length && 0 < l.maxFiles then
        (l.disk.content (rotatedName l.filePath l.maxFiles.toNat)).toList
      else []
  | _ => []

/-- The lines the calls write. -/
def written (l : Logger) : List Call → List Line
  | [] => []
  | c :: calls => l.lines c ++ written (l.step c) calls

/-- The files the calls remove. -/
def discarded (l : Logger) : List Call → List Bytes
  | [] => []
  | c :: calls => l.discards c ++ discarded (l.step c) calls

end Logger

/-- `path.n`, ..., `path.1`, `path` put together. -/
def chainText (d : Disk) (path : Bytes) (n : Nat) : Bytes :=
  (List.range (n + 1)).reverse.flatMap fun i => (chain d path i).getD []

namespace Logger

/-! ## The invariant -/

/-- The logger writes to the chain of a path, whose files hold the newest of the segments. -/
structure Rotating (path : Bytes) (maxBytes n : Nat) (segments : List (List LogLine)) (l : Logger) :
    Prop where
  file : l.file = ⟨some path, false⟩
  filePath : l.filePath = path
  maxBytes : l.maxBytes = maxBytes
  maxFiles : l.maxFiles = n
  writable : l.disk.writable path = true
  holds : Rotation.Newest n (segments.map linesText) (chain l.disk path)
  counted : ∃ active rotated, segments = active :: rotated ∧
    l.currentBytes = sizeT (linesText active).length

/-- A segment with two lines of the logger is within the limit, if its size is a `size_t`: the
sums that are compared with the limit are. -/
def Within (maxBytes : Nat) (segments : List (List LogLine)) : Prop :=
  ∀ s ∈ segments, (linesText s).length < 2 ^ 64 → 1 < freshLines s →
    (linesText s).length ≤ maxBytes

section

variable {path : Bytes} {maxBytes n : Nat} {active : List LogLine} {segments : List (List LogLine)}
variable {l : Logger}

/-- What the active file holds. -/
theorem Rotating.content (h : Rotating path maxBytes n (active :: segments) l) :
    l.disk.content path = some (linesText active) := h.holds 0 (Nat.zero_le n)

theorem Rotating.currentBytes (h : Rotating path maxBytes n (active :: segments) l) :
    l.currentBytes = sizeT (linesText active).length := by
  obtain ⟨active', rotated, heq, hcurrent⟩ := h.counted
  cases heq
  exact hcurrent

/-- The bytes of a line go to the active file. -/
theorem Rotating.append (h : Rotating path maxBytes n (active :: segments) l) (line : LogLine) :
    Rotating path maxBytes n ((active ++ [line]) :: segments)
      { l with
        file := (l.file.write l.disk line.text).1
        disk := (l.file.write l.disk line.text).2
        currentBytes := sizeT (l.currentBytes + line.text.length) } := by
  have hwrite : l.file.write l.disk line.text = (l.file, l.disk.append path line.text) := by
    rw [h.file]
    rfl
  have htext : linesText (active ++ [line]) = linesText active ++ line.text := by simp
  rw [hwrite]
  refine ⟨h.file, h.filePath, h.maxBytes, h.maxFiles, h.writable, ?_, ?_⟩
  · have hput := chain_put l.disk path 0 (some (linesText active ++ line.text))
    show Rotation.Newest n (linesText (active ++ [line]) :: _) (chain (l.disk.append path _) path)
    unfold Disk.append
    rw [h.content, htext]
    exact hput ▸ h.holds.replace _
  · refine ⟨_, _, rfl, ?_⟩
    show sizeT (l.currentBytes + line.text.length) = _
    rw [h.currentBytes, htext, List.length_append]
    unfold sizeT
    omega

/-- A rotation leaves an empty file to write to. -/
theorem Rotating.rotated (hn : 1 ≤ n) (h : Rotating path maxBytes n (active :: segments) l)
    {incoming : Nat} (hover : l.overflows incoming = true) :
    Rotating path maxBytes n ([] :: active :: segments) (l.rotateIfNeeded incoming) := by
  unfold rotateIfNeeded
  rw [if_pos hover, h.filePath, h.maxFiles, openFile_shifted l.file n h.writable]
  refine ⟨rfl, rfl, h.maxBytes, rfl, ?_, ?_, _, _, rfl, rfl⟩
  · show (shifted l.disk path n).writable path = true
    rw [writable_shifted]
    exact h.writable
  · have hput := chain_put (shifted l.disk path n) path 0 (some [])
    have hrotated := h.holds.rotate hn (linesText [])
    rw [← chain_shifted l.disk path hn] at hrotated
    exact hput ▸ hrotated

theorem Rotating.isOpen (h : Rotating path maxBytes n segments l) : l.file.isOpen = true := by
  rw [h.file]
  rfl

/-- What a call has done: the line it writes ends the newest segment, which is a new one if the
files were rotated, and the segments that no file holds any more are joined by the files it
removes. -/
structure StepTo (maxBytes n : Nat) (segments segments' : List (List LogLine)) (l : Logger)
    (c : Call) : Prop where
  within : Within maxBytes segments → Within maxBytes segments'
  appended : segments'.reverse.flatten = segments.reverse.flatten ++ (l.lines c).map Line.new
  dropped : (segments'.drop (n + 1)).reverse.map linesText =
    (segments.drop (n + 1)).reverse.map linesText ++ l.discards c

/-- A call that writes nothing. -/
theorem StepTo.refl {c : Call} (hlines : l.lines c = []) (hdiscards : l.discards c = []) :
    StepTo maxBytes n segments segments l c where
  within := id
  appended := by rw [hlines, List.map_nil, List.append_nil]
  dropped := by rw [hdiscards, List.append_nil]

/-- A line within the limit is added to the active file. -/
theorem stepTo_append {m : LogEntry} (h : Rotating path maxBytes n (active :: segments) l)
    (hmax : 0 < maxBytes) (hon : l.enabled m.level = true)
    (hover : l.overflows m.text.length = false) :
    StepTo maxBytes n (active :: segments) ((active ++ [m.line.new]) :: segments) l (.write m) := by
  have htext : linesText (active ++ [m.line.new]) = linesText active ++ m.text := by
    rw [linesText_append, linesText_singleton]
    rfl
  constructor
  · intro hwithin s hs hfit hfresh
    rcases List.mem_cons.1 hs with rfl | hs
    · -- the counter is the size of the file, so the test was on the size it now has
      have hle : sizeT (l.currentBytes + m.text.length) ≤ maxBytes := by
        simp only [overflows, h.file, Ofstream.isOpen, h.maxBytes, Option.isSome_some,
          Bool.true_and, Bool.and_eq_false_iff, bne_eq_false_iff_eq, Bool.not_eq_false',
          decide_eq_true_eq] at hover
        rcases hover with hzero | hle
        · omega
        · exact hle
      rw [h.currentBytes] at hle
      unfold sizeT at hle
      rw [htext, List.length_append] at hfit ⊢
      omega
    · exact hwithin s (List.mem_cons_of_mem _ hs) hfit hfresh
  · simp [lines, hon]
  · simp [discards, hover]

/-- A line over the limit starts a new file. -/
theorem stepTo_rotate {m : LogEntry} (h : Rotating path maxBytes n (active :: segments) l)
    (hn : 1 ≤ n) (hon : l.enabled m.level = true) (hover : l.overflows m.text.length = true) :
    StepTo maxBytes n (active :: segments) ([m.line.new] :: active :: segments) l (.write m) := by
  constructor
  · intro hwithin s hs hfit hfresh
    rcases List.mem_cons.1 hs with rfl | hs
    · exact absurd hfresh (by simp [freshLines, Line.new])
    · exact hwithin s hs hfit hfresh
  · simp [lines, hon]
  · -- what is removed is what the last of the files holds
    have hpos : (0 : Int) < n := by omega
    have hlast : l.disk.content (rotatedName path n) =
        ((active :: segments).map linesText)[n]? := by
      obtain ⟨k, rfl⟩ : ∃ k, n = k + 1 := ⟨n - 1, by omega⟩
      exact h.holds (k + 1) (Nat.le_refl _)
    have hdiscards : l.discards (.write m) = (((active :: segments)[n]?).map linesText).toList := by
      simp only [discards]
      rw [hon, hover, h.maxFiles, h.filePath, if_pos (by simpa using hpos), Int.toNat_natCast,
        hlast, List.getElem?_map]
    rw [Rotation.reverse_drop_cons, List.map_append, hdiscards]
    cases (active :: segments)[n]? <;> rfl

/-- One call. -/
theorem Rotating.step (h : Rotating path maxBytes n segments l) (hmax : 0 < maxBytes) (hn : 1 ≤ n)
    {c : Call} (hkeeps : c.keepsSink = true) :
    ∃ segments', Rotating path maxBytes n segments' (l.step c) ∧
      StepTo maxBytes n segments segments' l c := by
  obtain ⟨active, rotated, rfl, -⟩ := h.counted
  -- nothing but a line that is enabled touches the files
  cases c with
  | setLevel level =>
      exact ⟨_, ⟨h.file, h.filePath, h.maxBytes, h.maxFiles, h.writable, h.holds, h.counted⟩,
        StepTo.refl rfl rfl⟩
  | setFile path maxBytes maxFiles => cases hkeeps
  | write m =>
      show ∃ segments', Rotating path maxBytes n segments' (l.write m) ∧ _
      cases hon : l.enabled m.level with
      | false =>
          rw [write_disabled hon]
          exact ⟨_, h, StepTo.refl (by simp [lines, hon]) (by simp [discards, hon])⟩
      | true =>
          rw [write_file h.isOpen hon]
          cases hover : l.overflows m.text.length with
          | false =>
              rw [rotateIfNeeded_stay hover]
              exact ⟨_, h.append m.line.new, stepTo_append h hmax hon hover⟩
          | true =>
              exact ⟨_, (h.rotated hn hover).append m.line.new, stepTo_rotate h hn hon hover⟩

/-- A sequence of calls. -/
theorem Rotating.run (h : Rotating path maxBytes n segments l) (hmax : 0 < maxBytes) (hn : 1 ≤ n)
    {calls : List Call} (hkeeps : ∀ c ∈ calls, c.keepsSink = true)
    (hwithin : Within maxBytes segments) :
    ∃ segments', Rotating path maxBytes n segments' (l.run calls) ∧ Within maxBytes segments' ∧
      segments'.reverse.flatten = segments.reverse.flatten ++ (l.written calls).map Line.new ∧
      (segments'.drop (n + 1)).reverse.map linesText =
        (segments.drop (n + 1)).reverse.map linesText ++ l.discarded calls := by
  induction calls generalizing l segments with
  | nil =>
      refine ⟨segments, h, hwithin, ?_, ?_⟩
      · rw [written, List.map_nil, List.append_nil]
      · rw [discarded, List.append_nil]
  | cons c calls ih =>
      obtain ⟨next, hnext, hstep⟩ := h.step hmax hn (hkeeps c List.mem_cons_self)
      obtain ⟨last, hlast, hin, happended, hdropped⟩ := ih hnext
        (fun c' hc' => hkeeps c' (List.mem_cons_of_mem _ hc')) (hstep.within hwithin)
      refine ⟨last, hlast, hin, ?_, ?_⟩
      · rw [happended, hstep.appended, written, List.map_append, List.append_assoc]
      · rw [hdropped, hstep.dropped, discarded, List.append_assoc]

end

/-- `set_file` starts with one segment, the lines that are in the file. -/
theorem rotating_setFile {l : Logger} {path : Bytes} {maxBytes n : Nat} {old : List Line}
    (hclosed : l.file.isOpen = false) (hpath : path ≠ [])
    (hset : (l.setFile path maxBytes n).1 = true)
    (hnone : ∀ i, 1 ≤ i → l.disk.content (rotatedName path i) = none)
    (hold : (l.disk.content path).getD [] = linesText (old.map Line.old)) :
    Rotating path maxBytes n [old.map Line.old] (l.setFile path maxBytes n).2 := by
  have hname : path.isEmpty = false := List.isEmpty_eq_false_iff.2 hpath
  have hwritable := writable_of_setFile hclosed hpath hset
  unfold setFile
  rw [hname, openFile_app hclosed hwritable, hold]
  refine ⟨rfl, rfl, rfl, rfl, hwritable, ?_, _, _, rfl, ?_⟩
  · -- no rotated files yet
    intro k hk
    have hput := congrFun (chain_put l.disk path 0 (some (linesText (old.map Line.old)))) k
    refine hput.trans ?_
    cases k with
    | zero => rw [Function.update_self]; rfl
    | succ k =>
        rw [Function.update_of_ne (Nat.succ_ne_zero k)]
        exact hnone (k + 1) (by omega)
  · show sizeT (((l.disk.put path _).fileSize path).getD 0) = _
    simp [Disk.fileSize, Disk.put]

/-- **A rotation loses nothing but the oldest file.** The log is what was in the files that were
removed, then what is in `path.n`, ..., `path.1`, `path`. No line is divided between two files, and
one with two lines of the logger is within the limit (a file of `2 ^ 64` bytes or more, whose size
no `size_t` holds, apart). -/
theorem rotation_keeps_lines (l : Logger) (path : Bytes) (maxBytes : Nat) (maxFiles : Int)
    (old : List Line) (calls : List Call) (hclosed : l.file.isOpen = false) (hpath : path ≠ [])
    (hset : (l.setFile path maxBytes maxFiles).1 = true) (hmax : 0 < maxBytes)
    (hfiles : 1 ≤ maxFiles)
    (hnone : ∀ i, 1 ≤ i → l.disk.content (rotatedName path i) = none)
    (hold : (l.disk.content path).getD [] = linesText (old.map Line.old))
    (hkeeps : ∀ c ∈ calls, c.keepsSink = true) :
    let start := (l.setFile path maxBytes maxFiles).2
    let disk := (start.run calls).disk
    let n := maxFiles.toNat
    ∃ (dropped : List (List LogLine)) (held : Nat → List LogLine),
      let kept := (List.range (n + 1)).reverse.flatMap held
      old.map Line.old ++ (start.written calls).map Line.new = dropped.flatten ++ kept ∧
      chainText disk path n = linesText kept ∧
      dropped.map linesText = start.discarded calls ∧
      ∀ i ≤ n, (chain disk path i).getD [] = linesText (held i) ∧
        (((chain disk path i).getD []).length < 2 ^ 64 → 1 < freshLines (held i) →
          ((chain disk path i).getD []).length ≤ maxBytes) := by
  obtain ⟨n, rfl⟩ := Int.eq_ofNat_of_zero_le (by omega : 0 ≤ maxFiles)
  have hstart := rotating_setFile hclosed hpath hset hnone hold
  have hwithin : Within maxBytes [old.map Line.old] := by
    intro s hs _ hfresh
    rw [List.mem_singleton.1 hs] at hfresh
    have hzero : freshLines (old.map Line.old) = 0 := by
      simp [freshLines, Line.old]
    omega
  obtain ⟨segments, hrotating, hin, happended, hdropped⟩ :=
    hstart.run hmax (by omega) hkeeps hwithin
  intro start disk n'
  have hn' : n' = n := Int.toNat_natCast n
  rw [hn']
  have hheld : ∀ i ≤ n, (chain disk path i).getD [] = linesText ((segments[i]?).getD []) := by
    intro i hi
    rw [hrotating.holds i hi, List.getElem?_map]
    cases segments[i]? <;> rfl
  -- the segments that no file holds any more, and the ones that are in the files
  refine ⟨(segments.drop (n + 1)).reverse, fun i => (segments[i]?).getD [], ?_, ?_, ?_, ?_⟩
  · rw [Rotation.flatMap_range, ← Rotation.flatten_reverse_split, happended]
    simp [start]
  · rw [linesText_flatMap, chainText]
    refine List.flatMap_congr ?_
    intro i hi
    exact hheld i (by simpa [Nat.lt_succ_iff] using hi)
  · rw [hdropped]
    simp [start]
  · intro i hi
    refine ⟨hheld i hi, ?_⟩
    show _ → 1 < freshLines ((segments[i]?).getD []) → _
    rw [hheld i hi]
    cases hsegment : segments[i]? with
    | none =>
        intro _ hfresh
        exact absurd hfresh (Nat.not_lt_zero 1)
    | some s => exact hin s (List.mem_of_getElem? hsegment)

/-- An empty disk on which every name can be opened. -/
def emptyDisk : Disk := ⟨fun _ => none, fun _ => true⟩

def threeMessages : List LogEntry :=
  [⟨.info, [], lit "1", lit "one"⟩, ⟨.error, [], lit "1", lit "two"⟩,
    ⟨.warn, [], lit "2", lit "three"⟩]

/-- With room for a line in each of two files, the first of three lines is dropped. -/
theorem rotation_keeps_lines_two :
    let start := ((initial emptyDisk).setFile (lit "log") 40 1).2
    let calls := threeMessages.map Call.write
    ∃ dropped kept : List LogLine,
      (start.written calls).map Line.new = dropped ++ kept ∧
      linesText dropped = lit "[] [INFO] [tid 1] one\n" ∧
      chainText (start.run calls).disk (lit "log") 1 = linesText kept := by
  obtain ⟨dropped, held, hlog, htext, hdropped, -⟩ :=
    rotation_keeps_lines (initial emptyDisk) (lit "log") 40 1 [] (threeMessages.map Call.write)
      rfl (by decide) rfl (by decide) (by decide) (fun _ _ => rfl) rfl (by decide)
  refine ⟨_, _, hlog, ?_, htext⟩
  rw [linesText_flatten, hdropped]
  decide +kernel

end Logger

end Oreshnek
