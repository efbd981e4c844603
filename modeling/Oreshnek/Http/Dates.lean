import Oreshnek.Base

/-!
# Dates and numbers of the C library

`http_date` and `parse_http_date` with the parts of `gmtime_r`, `timegm`,
`strptime` and `snprintf` they use, `std::stoll`, and the test `atof(s) == 0.0`.
A time is a number of seconds since 1970.
-/

namespace Oreshnek

/-! ## Numbers -/

/-- `%0{width}d` of a non-negative number. -/
def padded (width n : Nat) : Bytes :=
  List.replicate (width - (toString_ n).length) 48 ++ toString_ n

/-- `std::to_string` on a signed value. -/
def toStringInt (n : Int) : Bytes :=
  if n < 0 then 45 :: toString_ n.natAbs else toString_ n.natAbs

/-- `%llx`. -/
def toHex (n : Nat) : Bytes :=
  let digit : Nat → UInt8 := fun d => UInt8.ofNat (if d < 10 then 48 + d else 87 + d)
  if n < 16 then [digit n] else toHex (n / 16) ++ [digit (n % 16)]
termination_by n
decreasing_by omega

/-- `std::stoll` in base 10, `none` where it throws. -/
def stoll (s : Bytes) : Option Int :=
  let t := s.dropWhile isspace
  let (negative, u) := match t with
    | 43 :: r => (false, r)
    | 45 :: r => (true, r)
    | r => (false, r)
  let ds := u.takeWhile isdigit
  if ds.isEmpty then none
  else
    let n : Int := if negative then -(decValue ds : Int) else decValue ds
    if -2 ^ 63 ≤ n ∧ n < 2 ^ 63 then some n else none

/-- What `strtod` reads of a number without its sign: the digits in front of the first point,
those behind it, and the exponent behind `mark`. -/
def floatParts (digit : UInt8 → Bool) (mark : UInt8) (s : Bytes) : Bytes × Bytes × Int :=
  let whole := s.takeWhile digit
  let rest := s.drop whole.length
  let fraction := match rest with
    | 46 :: r => r.takeWhile digit
    | _ => []
  let rest := match rest with
    | 46 :: r => r.drop fraction.length
    | r => r
  let exponent : Int := match rest with
    | c :: r =>
        if tolower c = mark then
          let (negative, ds) := match r with
            | 43 :: r => (false, r.takeWhile isdigit)
            | 45 :: r => (true, r.takeWhile isdigit)
            | r => (false, r.takeWhile isdigit)
          if negative then -(decValue ds : Int) else decValue ds
        else 0
    | [] => 0
  (whole, fraction, exponent)

/-- `mantissa * base ^ scale` is rounded to the `double` zero: it is at most half the least
positive one. -/
def roundsToZero (mantissa base : Nat) (scale : Int) : Bool :=
  mantissa = 0 || (scale < 0 && decide (mantissa * 2 ^ 1075 ≤ base ^ scale.natAbs))

/-- Whether `std::atof(s)` is zero: no number at the front, only zero digits, or a value that
is rounded down to zero. An infinity or a NaN is not zero. -/
def atofIsZero (s : Bytes) : Bool :=
  let t := s.dropWhile isspace
  let u := match t with
    | 43 :: r => r
    | 45 :: r => r
    | r => r
  let low := u.map tolower
  if lit "inf" <+: low ∨ lit "nan" <+: low then false
  else if lit "0x" <+: low then
    -- the exponent counts bits, of which a digit has four
    let (whole, fraction, exponent) := floatParts (fun c => (hexDigit c).isSome) 112 (u.drop 2)
    roundsToZero (hexValue 0 (whole ++ fraction)) 2 (exponent - 4 * fraction.length)
  else
    let (whole, fraction, exponent) := floatParts isdigit 101 u
    roundsToZero (decValue (whole ++ fraction)) 10 (exponent - fraction.length)

/-! ## The calendar -/

/-- `struct tm`, with the year written out. -/
structure Tm where
  sec : Nat
  min : Nat
  hour : Nat
  mday : Nat
  /-- From 0. -/
  mon : Nat
  year : Int
  /-- From Sunday. -/
  wday : Nat
deriving DecidableEq

/-- Days from 1970-01-01 to a day of the month, months counted from 0. -/
def daysFromCivil (year : Int) (mon mday : Nat) : Int :=
  -- years that begin in March, so that the leap day is their last
  let y := if mon < 2 then year - 1 else year
  let m := if mon < 2 then mon + 10 else mon - 2
  let era := y / 400
  let yoe := y % 400
  let doy : Int := (153 * (m : Int) + 2) / 5 + mday - 1
  era * 146097 + (yoe * 365 + yoe / 4 - yoe / 100 + doy) - 719468

/-- `gmtime_r`. -/
def gmtime (t : Int) : Tm :=
  let days := t / 86400
  let secs := (t % 86400).toNat
  let z := days + 719468
  let era := z / 146097
  let doe := (z % 146097).toNat
  let yoe := (doe - doe / 1460 + doe / 36524 - doe / 146096) / 365
  let doy := doe - (365 * yoe + yoe / 4 - yoe / 100)
  let m := (5 * doy + 2) / 153
  let mon := if m < 10 then m + 2 else m - 10
  { sec := secs % 60
    min := secs / 60 % 60
    hour := secs / 3600
    mday := doy - (153 * m + 2) / 5 + 1
    mon := mon
    year := era * 400 + yoe + (if mon < 2 then 1 else 0)
    wday := ((4 + days) % 7).toNat }

/-- `timegm`, for fields as `strptime` leaves them. -/
def timegm (tm : Tm) : Int :=
  daysFromCivil tm.year tm.mon tm.mday * 86400 + tm.hour * 3600 + tm.min * 60 + tm.sec

def dayNames : List Bytes :=
  [lit "Sunday", lit "Monday", lit "Tuesday", lit "Wednesday", lit "Thursday", lit "Friday",
    lit "Saturday"]

def monthNames : List Bytes :=
  [lit "January", lit "February", lit "March", lit "April", lit "May", lit "June", lit "July",
    lit "August", lit "September", lit "October", lit "November", lit "December"]

/-- `http_date`: the names are cut to three letters. -/
def httpDate (t : Int) : Bytes :=
  let tm := gmtime t
  let year := if tm.year < 0 then 45 :: padded 3 tm.year.natAbs else padded 4 tm.year.natAbs
  (dayNames.getD tm.wday []).take 3 ++ lit ", " ++ padded 2 tm.mday ++ lit " " ++
    (monthNames.getD tm.mon []).take 3 ++ lit " " ++ year ++ lit " " ++ padded 2 tm.hour ++
    lit ":" ++ padded 2 tm.min ++ lit ":" ++ padded 2 tm.sec ++ lit " GMT"

/-! ## Reading a date -/

/-- A number of `strptime`: white space, then at least one and at most `width` digits
with a value from `lo` to `hi`. No digit is read once the value could only
exceed `hi`. -/
def strptimeNumber (lo hi width : Nat) (s : Bytes) : Option (Nat × Bytes) :=
  let rec digits : Nat → Nat → Bytes → Nat × Bytes
    | 0, val, s => (val, s)
    | _ + 1, val, [] => (val, [])
    | n + 1, val, c :: s =>
        if isdigit c ∧ val * 10 ≤ hi then digits n (val * 10 + (c.toNat - 48)) s
        else (val, c :: s)
  match s.dropWhile isspace with
  | c :: rest =>
      if isdigit c then
        let r := digits (width - 1) (c.toNat - 48) rest
        if lo ≤ r.1 ∧ r.1 ≤ hi then some r else none
      else none
  | [] => none

/-- A day or month name of `strptime`, in full or cut to three letters, in any
letter case. -/
def strptimeName (names : List Bytes) (s : Bytes) : Option (Nat × Bytes) :=
  let matches_ : Bytes → Bool := fun name => decide (name.map tolower <+: s.map tolower)
  (names.zipIdx.findSome? fun e =>
    if matches_ e.1 then some (e.2, s.drop e.1.length)
    else if matches_ (e.1.take 3) then some (e.2, s.drop 3)
    else none)

/-- Literal characters of the format. -/
def strptimeLit (text : Bytes) (s : Bytes) : Option Bytes :=
  if text <+: s then some (s.drop text.length) else none

/-- `parse_http_date`: `strptime` with "%a, %d %b %Y %H:%M:%S GMT", where a blank
of the format stands for any white space, then `timegm`. The failure value is
the time -1. -/
def parseHttpDate (s : Bytes) : Int :=
  -- c_str() ends at the first NUL
  let s := s.takeWhile (· ≠ 0)
  let tm : Option Tm := do
    let (wday, s) ← strptimeName dayNames s
    let s ← strptimeLit (lit ",") s
    let (mday, s) ← strptimeNumber 1 31 2 (s.dropWhile isspace)
    let (mon, s) ← strptimeName monthNames (s.dropWhile isspace)
    let (year, s) ← strptimeNumber 0 9999 4 (s.dropWhile isspace)
    let (hour, s) ← strptimeNumber 0 23 2 (s.dropWhile isspace)
    let s ← strptimeLit (lit ":") s
    let (min, s) ← strptimeNumber 0 59 2 s
    let s ← strptimeLit (lit ":") s
    let (sec, s) ← strptimeNumber 0 61 2 s
    let _ ← strptimeLit (lit "GMT") (s.dropWhile isspace)
    return { sec, min, hour, mday, mon, year := year, wday }
  match tm with
  | some tm => timegm tm
  | none => -1

/-- A date that is written is read back. -/
example : parseHttpDate (httpDate 784111777) = 784111777 := by decide +kernel

end Oreshnek
