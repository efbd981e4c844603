import Oreshnek.Lib.Search

/-!
# Bytes, views and the parts of the C++ library the server uses

Strings are lists of bytes. A `std::string_view` is modelled by its position
in the buffer it points into together with the bytes it showed when it was
taken, so that both what a view says and where it points can be stated.
`size_t` values are natural numbers; where the source's arithmetic can wrap it
is written with `sizeT`.
-/

namespace Oreshnek

abbrev Bytes := List UInt8

/-- The bytes of a string literal of the source. -/
def lit (s : String) : Bytes := s.toList.map fun c => UInt8.ofNat c.toNat

def crlf : Bytes := [13, 10]

theorem crlf_unbordered : Search.Unbordered crlf := by
  intro k hpos hlt
  obtain rfl : k = 1 := by simp [crlf] at hlt; omega
  decide

theorem crlf_ne_nil : crlf ≠ [] := by decide

/-- Induction over the CRLF-terminated lines at the front of a buffer. -/
theorem line_induction {P : Bytes → Prop} (stop : ∀ b, ¬ crlf <:+: b → P b)
    (line : ∀ l rest, ¬ crlf <:+: l → P rest → P (l ++ crlf ++ rest)) (b : Bytes) : P b :=
  Search.delim_induction crlf_ne_nil stop line b

/-- Induction over the lines of a buffer, behind each of which some bytes are skipped. -/
theorem skip_induction {P : Bytes → Prop} (stop : ∀ b, ¬ crlf <:+: b → P b)
    (line : ∀ l rest, ¬ crlf <:+: l → (∀ n, P (rest.drop n)) → P (l ++ crlf ++ rest))
    (b : Bytes) : P b :=
  Search.delim_drop_induction crlf_ne_nil stop line b

/-- A buffer that holds a CRLF starts with a line. -/
theorem exists_line {b : Bytes} (h : crlf <:+: b) :
    ∃ l rest, ¬ crlf <:+: l ∧ b = l ++ crlf ++ rest := by
  obtain ⟨i, hi⟩ := Search.exists_find h
  exact ⟨_, _, Search.not_infix_of_find_take hi crlf_ne_nil, Search.find_split hi⟩

theorem find_crlf {l : Bytes} (h : ¬ crlf <:+: l) (rest : Bytes) :
    Search.find crlf (l ++ crlf ++ rest) = some l.length :=
  Search.find_delim crlf_unbordered h rest

/-- A loop that looks for the next line: without one it takes its first branch. -/
theorem match_find_more {α : Type} {b : Bytes} (h : ¬ crlf <:+: b) (stop : α) (line : Nat → α) :
    (match _h : Search.find crlf b with
      | none => stop
      | some eol => line eol) = stop := by
  split
  · rfl
  next eol heol =>
    rw [Search.find_eq_none_iff.2 h] at heol
    cases heol

/-- With one it takes its second, at the end of that line. -/
theorem match_find_line {α : Type} {b l rest : Bytes} (h : ¬ crlf <:+: l)
    (hb : b = l ++ crlf ++ rest) (stop : α) (line : Nat → α) :
    (match _h : Search.find crlf b with
      | none => stop
      | some eol => line eol) = line l.length := by
  have hfound : Search.find crlf b = some l.length := hb ▸ find_crlf h rest
  split
  next hnone => cases hnone.symm.trans hfound
  next eol heol => exact congrArg line (Option.some.inj (heol.symm.trans hfound))

@[simp] theorem drop_line (l rest : Bytes) :
    (l ++ crlf ++ rest).drop (l.length + 2) = rest := by
  have : (l ++ crlf).length = l.length + 2 := by simp [crlf]
  rw [← this, List.drop_left]

@[simp] theorem take_line (l rest : Bytes) : (l ++ crlf ++ rest).take l.length = l := by
  rw [List.append_assoc, List.take_left]

/-- Reduction of a result to `size_t`. -/
def sizeT (n : Nat) : Nat := n % 2 ^ 64

/-! ## Characters and numbers -/

/-- `std::isspace` in the "C" locale. -/
def isspace (c : UInt8) : Bool := c == 32 || (9 ≤ c && c ≤ 13)

def isdigit (c : UInt8) : Bool := 48 ≤ c && c ≤ 57

/-- `std::tolower` in the "C" locale. -/
def tolower (c : UInt8) : UInt8 := if 65 ≤ c && c ≤ 90 then c + 32 else c

/-- Value of a string of decimal digits. -/
def decValue (ds : Bytes) : Nat := ds.foldl (fun acc c => acc * 10 + (c.toNat - 48)) 0

/-- The value of a hex digit, of either case. -/
def hexDigit (c : UInt8) : Option Nat :=
  if 48 ≤ c && c ≤ 57 then some (c.toNat - 48)
  else if 97 ≤ c && c ≤ 102 then some (c.toNat - 97 + 10)
  else if 65 ≤ c && c ≤ 70 then some (c.toNat - 65 + 10)
  else none

/-- The number a text of hex digits stands for, behind digits worth `acc`. -/
def hexValue (acc : Nat) (ds : Bytes) : Nat :=
  ds.foldl (fun acc c => acc * 16 + (hexDigit c).getD 0) acc

/-- `std::to_string` on an unsigned value. -/
def toString_ (n : Nat) : Bytes :=
  if n < 10 then [UInt8.ofNat (48 + n)] else toString_ (n / 10) ++ [UInt8.ofNat (48 + n % 10)]
termination_by n
decreasing_by omega

/-- `std::stoul` in base 10 (`none` where it throws): leading white space, an
optional sign, then the longest run of digits. A minus sign negates modulo
`2 ^ 64`, as `strtoul` does; what follows the digits is ignored. -/
def stoul (s : Bytes) : Option Nat :=
  let t := s.dropWhile isspace
  let (negative, u) := match t with
    | 43 :: r => (false, r)
    | 45 :: r => (true, r)
    | r => (false, r)
  let ds := u.takeWhile isdigit
  if ds.isEmpty then none
  else
    let n := decValue ds
    if n < 2 ^ 64 then some (if negative then sizeT (2 ^ 64 - n) else n) else none

/-! ## Decimal numbers read back -/

theorem decValue_append (ds : Bytes) (d : UInt8) :
    decValue (ds ++ [d]) = decValue ds * 10 + (d.toNat - 48) := by
  unfold decValue
  rw [List.foldl_append]
  rfl

theorem toString_small {n : Nat} (h : n < 10) : toString_ n = [UInt8.ofNat (48 + n)] := by
  rw [toString_, if_pos h]

theorem toString_large {n : Nat} (h : ¬ n < 10) :
    toString_ n = toString_ (n / 10) ++ [UInt8.ofNat (48 + n % 10)] := by
  rw [toString_, if_neg h]

theorem digit_toNat {d : Nat} (h : d < 10) : (UInt8.ofNat (48 + d)).toNat = 48 + d := by
  rw [UInt8.toNat_ofNat']
  exact Nat.mod_eq_of_lt (by omega)

theorem isdigit_ofNat {d : Nat} (h : d < 10) : isdigit (UInt8.ofNat (48 + d)) = true := by
  have hd := digit_toNat h
  have h48 : (48 : UInt8).toNat = 48 := rfl
  have h57 : (57 : UInt8).toNat = 57 := rfl
  simp only [isdigit, Bool.and_eq_true, decide_eq_true_eq, UInt8.le_iff_toNat_le, hd, h48, h57]
  omega

/-- `std::to_string` gives digits, at least one, with the number as their value. -/
theorem toString_spec (n : Nat) :
    toString_ n ≠ [] ∧ (∀ c ∈ toString_ n, isdigit c) ∧ decValue (toString_ n) = n := by
  induction n using Nat.strong_induction_on with
  | _ n ih =>
  by_cases hsmall : n < 10
  · rw [toString_small hsmall]
    refine ⟨List.cons_ne_nil _ _, ?_, ?_⟩
    · intro c hc
      rw [List.mem_singleton.1 hc]
      exact isdigit_ofNat hsmall
    · have := decValue_append [] (UInt8.ofNat (48 + n))
      rw [List.nil_append, digit_toNat hsmall] at this
      rw [this]
      show 0 * 10 + (48 + n - 48) = n
      omega
  · obtain ⟨-, hdigits, hvalue⟩ := ih (n / 10) (by omega)
    have hlast : n % 10 < 10 := Nat.mod_lt _ (by decide)
    rw [toString_large hsmall]
    refine ⟨by simp, ?_, ?_⟩
    · intro c hc
      rcases List.mem_append.1 hc with hc | hc
      · exact hdigits c hc
      · rw [List.mem_singleton.1 hc]
        exact isdigit_ofNat hlast
    · rw [decValue_append, hvalue, digit_toNat hlast]
      omega

theorem toString_injective {m n : Nat} (h : toString_ m = toString_ n) : m = n := by
  have hm := (toString_spec m).2.2
  have hn := (toString_spec n).2.2
  rw [h] at hm
  exact hm.symm.trans hn

/-- A digit is neither a blank nor a sign. -/
theorem not_isspace_of_isdigit {c : UInt8} (h : isdigit c = true) :
    isspace c = false ∧ c ≠ 43 ∧ c ≠ 45 := by
  have h48 : (48 : UInt8).toNat = 48 := rfl
  have h57 : (57 : UInt8).toNat = 57 := rfl
  simp only [isdigit, Bool.and_eq_true, decide_eq_true_eq, UInt8.le_iff_toNat_le, h48, h57] at h
  have hne : ∀ d : UInt8, d.toNat < 48 → c ≠ d := by
    rintro d hd rfl
    omega
  refine ⟨?_, hne 43 (by decide), hne 45 (by decide)⟩
  have h13 : ¬ c ≤ 13 := by
    rw [UInt8.le_iff_toNat_le]
    have : (13 : UInt8).toNat = 13 := rfl
    omega
  simp [isspace, hne 32 (by decide), h13]

/-- A run of digits is read as its value. -/
theorem stoul_digits {ds : Bytes} (hne : ds ≠ []) (h : ∀ c ∈ ds, isdigit c)
    (hlt : decValue ds < 2 ^ 64) : stoul ds = some (decValue ds) := by
  cases ds with
  | nil => exact absurd rfl hne
  | cons d ds =>
      obtain ⟨hspace, hplus, hminus⟩ := not_isspace_of_isdigit (h d List.mem_cons_self)
      have hdrop : (d :: ds).dropWhile isspace = d :: ds := by
        rw [List.dropWhile_cons, hspace]
        rfl
      have htake : (d :: ds).takeWhile isdigit = d :: ds := List.takeWhile_eq_self_iff.2 h
      unfold stoul
      simp only [hdrop]
      split
      case h_1 hcons => exact absurd (List.cons.inj hcons).1 hplus
      case h_2 hcons => exact absurd (List.cons.inj hcons).1 hminus
      case h_3 => simpa [htake] using hlt

/-- `std::stoul` reads back what `std::to_string` wrote. -/
theorem stoul_toString {n : Nat} (h : n < 2 ^ 64) : stoul (toString_ n) = some n := by
  obtain ⟨hne, hdigits, hvalue⟩ := toString_spec n
  rw [stoul_digits hne hdigits (by rwa [hvalue]), hvalue]

/-- What is left behind the longest run at the front. -/
theorem drop_takeWhile_length (p : UInt8 → Bool) (b : Bytes) :
    b.drop (b.takeWhile p).length = b.dropWhile p := by
  have hsplit : b.takeWhile p ++ b.dropWhile p = b := List.takeWhile_append_dropWhile
  calc b.drop (b.takeWhile p).length
      = (b.takeWhile p ++ b.dropWhile p).drop (b.takeWhile p).length := by rw [hsplit]
    _ = b.dropWhile p := List.drop_left

/-! ## Views -/

/-- A `std::string_view`: where it points and the bytes it shows. -/
structure StringView where
  pos : Nat
  bytes : Bytes
deriving DecidableEq, Repr

namespace StringView

/-- The default view, and the view of the literal `""`. -/
def empty : StringView := ⟨0, []⟩

def length (v : StringView) : Nat := v.bytes.length

/-- `substr(p, n)`. -/
def substr (v : StringView) (p n : Nat) : StringView := ⟨v.pos + p, (v.bytes.drop p).take n⟩

/-- `substr(p)`. -/
def substrFrom (v : StringView) (p : Nat) : StringView := ⟨v.pos + p, v.bytes.drop p⟩

/-- `remove_prefix(n)`. -/
def removePrefix (v : StringView) (n : Nat) : StringView := ⟨v.pos + n, v.bytes.drop n⟩

/-- `find(pat)`, `none` for `npos`. -/
def find (v : StringView) (pat : Bytes) : Option Nat := Search.find pat v.bytes

/-- `find(pat, p)`. -/
def findFrom (v : StringView) (pat : Bytes) (p : Nat) : Option Nat :=
  (Search.find pat (v.bytes.drop p)).map (· + p)

/-- The same view when `r` has arrived behind its last byte. -/
def extend (v : StringView) (r : Bytes) : StringView := ⟨v.pos, v.bytes ++ r⟩

@[simp] theorem substr_bytes (v : StringView) (p n : Nat) :
    (v.substr p n).bytes = (v.bytes.drop p).take n := rfl

@[simp] theorem substrFrom_bytes (v : StringView) (p : Nat) :
    (v.substrFrom p).bytes = v.bytes.drop p := rfl

@[simp] theorem removePrefix_bytes (v : StringView) (n : Nat) :
    (v.removePrefix n).bytes = v.bytes.drop n := rfl

@[simp] theorem extend_bytes (v : StringView) (r : Bytes) :
    (v.extend r).bytes = v.bytes ++ r := rfl

/-- A piece that lies inside the view does not see what arrives later. -/
theorem extend_substr (v : StringView) (r : Bytes) {n : Nat} (h : n ≤ v.length) :
    (v.extend r).substr 0 n = v.substr 0 n := by
  simp [extend, substr, List.take_append_of_le_length (show n ≤ v.bytes.length from h)]

theorem extend_removePrefix (v : StringView) (r : Bytes) {n : Nat} (h : n ≤ v.length) :
    (v.extend r).removePrefix n = (v.removePrefix n).extend r := by
  simp [extend, removePrefix, List.drop_append_of_le_length (show n ≤ v.bytes.length from h)]

theorem extend_find (v : StringView) (r : Bytes) {pat : Bytes} {i : Nat}
    (h : v.find pat = some i) : (v.extend r).find pat = some i :=
  Search.find_append h r

theorem find_add_le (v : StringView) {pat : Bytes} {i : Nat} (h : v.find pat = some i) :
    i + pat.length ≤ v.length :=
  Search.find_add_length_le h

/-- The line at the front of a view. -/
theorem find_line {v : StringView} {l rest : Bytes} (hl : ¬ crlf <:+: l)
    (hv : v.bytes = l ++ crlf ++ rest) :
    v.find crlf = some l.length ∧ v.substr 0 l.length = ⟨v.pos, l⟩ := by
  constructor
  · unfold find
    rw [hv, find_crlf hl]
  · unfold substr
    rw [hv, List.drop_zero, take_line]
    rfl

theorem le_of_findFrom {v : StringView} {pat : Bytes} {p i : Nat}
    (h : v.findFrom pat p = some i) : p ≤ i := by
  simp only [findFrom, Option.map_eq_some_iff] at h
  obtain ⟨a, _, rfl⟩ := h
  omega

/-- What is found lies in the view. -/
theorem findFrom_add_le {v : StringView} {pat : Bytes} {p i : Nat} (hne : 0 < pat.length)
    (h : v.findFrom pat p = some i) : i + pat.length ≤ v.length := by
  simp only [findFrom, Option.map_eq_some_iff] at h
  rcases h with ⟨a, ha, rfl⟩
  have hle := Search.find_add_length_le ha
  rw [List.length_drop] at hle
  unfold length
  omega

end StringView

/-- `std::unordered_map<std::string_view, std::string_view>`: keyed by the
bytes of the key view, holding the key view and the value view. -/
abbrev ViewMap := AList fun _ : Bytes => StringView × StringView

namespace ViewMap

/-- `m[k] = v`: a key already there keeps its own key view. -/
def assign (m : ViewMap) (k v : StringView) : ViewMap :=
  m.insert k.bytes (((m.lookup k.bytes).map Prod.fst).getD k, v)

/-- The value stored under `name`, as `find` returns it. -/
def get (m : ViewMap) (name : Bytes) : Option StringView := (m.lookup name).map Prod.snd

@[simp] theorem get_empty (name : Bytes) : get ∅ name = none := by
  simp [get]

/-- Assigning sets one name and leaves the others. -/
theorem get_assign (m : ViewMap) (k v : StringView) (name : Bytes) :
    (m.assign k v).get name = if name = k.bytes then some v else m.get name := by
  unfold get assign
  by_cases h : name = k.bytes
  · rw [if_pos h, h, AList.lookup_insert]
    rfl
  · rw [if_neg h, AList.lookup_insert_ne h]

end ViewMap

end Oreshnek
