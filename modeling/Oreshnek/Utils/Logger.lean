import Oreshnek.Base

/-!
# The logger

`Logger` with the parts of `std::ofstream` and of the file system it uses. Files are known by
their names, which hold no NUL byte, and a stream writes to the file of the name it was opened
with: the logger has no file open when it renames. Removing, renaming and appending work where
there is a file, and whether a name can be opened for writing stays as it is.
-/

namespace Oreshnek

/-! ## Files and streams -/

structure Disk where
  content : Bytes → Option Bytes
  /-- The name can be opened for writing. -/
  writable : Bytes → Bool

namespace Disk

def put (d : Disk) (name : Bytes) (content : Option Bytes) : Disk :=
  { d with content := Function.update d.content name content }

/-- `std::filesystem::remove`. -/
def remove (d : Disk) (name : Bytes) : Disk := d.put name none

/-- `std::filesystem::rename`. -/
def rename (d : Disk) (source target : Bytes) : Disk :=
  if (d.content source).isSome then (d.put source none).put target (d.content source) else d

/-- `std::filesystem::file_size`, `none` where it reports an error. -/
def fileSize (d : Disk) (name : Bytes) : Option Nat := (d.content name).map List.length

def append (d : Disk) (name text : Bytes) : Disk :=
  d.put name ((d.content name).map (· ++ text))

end Disk

/-- How a file is opened for output. -/
inductive OpenMode where
  | app
  | trunc
deriving DecidableEq

/-- `std::ofstream`. -/
structure Ofstream where
  /-- The name of the file that is open. -/
  file : Option Bytes
  /-- An error bit is set. -/
  fail : Bool
deriving DecidableEq

namespace Ofstream

def isOpen (f : Ofstream) : Bool := f.file.isSome

/-- `open`. On a stream that is open it fails and leaves the file as it is. -/
def openFile (f : Ofstream) (d : Disk) (name : Bytes) (mode : OpenMode) : Ofstream × Disk :=
  if f.isOpen || !d.writable name then ({ f with fail := true }, d)
  else
    ({ file := some name, fail := false },
      match mode with
      | .app => d.put name (some ((d.content name).getD []))
      | .trunc => d.put name (some []))

/-- `close`, which fails on a stream that is not open. -/
def close (f : Ofstream) : Ofstream := { file := none, fail := f.fail || !f.isOpen }

/-- `<<` with a string, and `flush`. Once an error bit is set nothing is written. -/
def write (f : Ofstream) (d : Disk) (text : Bytes) : Ofstream × Disk :=
  match f.file with
  | none => ({ f with fail := true }, d)
  | some name => if f.fail then (f, d) else (f, d.append name text)

end Ofstream

/-! ## The code -/

inductive LogLevel where
  | trace
  | debug
  | info
  | warn
  | error
  | off
deriving DecidableEq

namespace LogLevel

def toNat : LogLevel → Nat
  | trace => 0
  | debug => 1
  | info => 2
  | warn => 3
  | error => 4
  | off => 5

/-- `level_name`. -/
def name : LogLevel → Bytes
  | trace => lit "TRACE"
  | debug => lit "DEBUG"
  | info => lit "INFO"
  | warn => lit "WARN"
  | error => lit "ERROR"
  | off => lit "OFF"

end LogLevel

/-- The logger with the disk and what has been written to `std::clog`. -/
structure Logger where
  level : LogLevel
  file : Ofstream
  filePath : Bytes
  maxBytes : Nat
  maxFiles : Int
  currentBytes : Nat
  disk : Disk
  clog : Bytes

/-- A message with what `write` puts before it: the time as `strftime` writes it, and the thread. -/
structure LogEntry where
  level : LogLevel
  time : Bytes
  tid : Bytes
  message : Bytes
deriving DecidableEq

/-- The line that is written for a message. -/
def LogEntry.text (m : LogEntry) : Bytes :=
  lit "[" ++ m.time ++ lit "] [" ++ m.level.name ++ lit "] [tid " ++ m.tid ++ lit "] " ++ m.message
    ++ [10]

/-- `path + "." + std::to_string(i)`. -/
def rotatedName (path : Bytes) (i : Nat) : Bytes := path ++ lit "." ++ toString_ i

/-- The loop of `rotate_if_needed`, from `i` down to 1. -/
def shiftFiles (d : Disk) (path : Bytes) : Nat → Disk
  | 0 => d
  | i + 1 => shiftFiles (d.rename (rotatedName path (i + 1)) (rotatedName path (i + 2))) path i

namespace Logger

/-- A logger before any call. -/
def initial (disk : Disk) : Logger where
  level := .info
  file := ⟨none, false⟩
  filePath := []
  maxBytes := 0
  maxFiles := 0
  currentBytes := 0
  disk := disk
  clog := []

def enabled (l : Logger) (level : LogLevel) : Bool := l.level.toNat ≤ level.toNat

/-- `set_level`. -/
def setLevel (l : Logger) (level : LogLevel) : Logger := { l with level := level }

/-- `set_file`. -/
def setFile (l : Logger) (path : Bytes) (maxBytes : Nat) (maxFiles : Int) : Bool × Logger :=
  if path.isEmpty then
    (true, { l with file := if l.file.isOpen then l.file.close else l.file, filePath := [] })
  else
    let (file, disk) := l.file.openFile l.disk path .app
    if !file.isOpen then (false, { l with file := file, disk := disk })
    else
      (true,
        { l with
          file := file
          disk := disk
          filePath := path
          maxBytes := maxBytes
          maxFiles := maxFiles
          currentBytes := sizeT ((disk.fileSize path).getD 0) })

/-- The next line needs a rotation. -/
def overflows (l : Logger) (incoming : Nat) : Bool :=
  l.file.isOpen && l.maxBytes != 0 && !decide (sizeT (l.currentBytes + incoming) ≤ l.maxBytes)

/-- The files are shifted, the oldest is discarded. -/
def shifted (d : Disk) (path : Bytes) (maxFiles : Int) : Disk :=
  if 0 < maxFiles then
    let n := maxFiles.toNat
    (shiftFiles (d.remove (rotatedName path n)) path (n - 1)).rename path (rotatedName path 1)
  else d

/-- `rotate_if_needed`. -/
def rotateIfNeeded (l : Logger) (incoming : Nat) : Logger :=
  if l.overflows incoming then
    let (file, disk) :=
      l.file.close.openFile (shifted l.disk l.filePath l.maxFiles) l.filePath .trunc
    { l with file := file, disk := disk, currentBytes := 0 }
  else l

/-- `write`. -/
def write (l : Logger) (m : LogEntry) : Logger :=
  if l.enabled m.level then
    if l.file.isOpen then
      let l := l.rotateIfNeeded m.text.length
      let (file, disk) := l.file.write l.disk m.text
      { l with
        file := file
        disk := disk
        currentBytes := sizeT (l.currentBytes + m.text.length) }
    else { l with clog := l.clog ++ m.text }
  else l

/-! ## Sequences of calls -/

inductive Call where
  | setLevel (level : LogLevel)
  | setFile (path : Bytes) (maxBytes : Nat) (maxFiles : Int)
  | write (m : LogEntry)
deriving DecidableEq

def step (l : Logger) : Call → Logger
  | .setLevel level => l.setLevel level
  | .setFile path maxBytes maxFiles => (l.setFile path maxBytes maxFiles).2
  | .write m => l.write m

def run (l : Logger) (calls : List Call) : Logger := calls.foldl step l

/-- The call leaves the sink as it is set. -/
def Call.keepsSink : Call → Bool
  | .setFile .. => false
  | _ => true

end Logger

end Oreshnek
