import Oreshnek.Http.Dates

/-!
# Dates read back

`parse_http_date` reads what `http_date` writes: a date of a year with four digits is read
as the time it stands for, and any other one is not read at all (`parseHttpDate_httpDate`).
The calendar of `gmtime_r` finds the year of a day by a division; that it is the year in
which the day lies follows from its values on the first and on the last day of each year
(`year_of_day`).
-/

namespace Oreshnek

/-! ## The year of a day -/

/-- A monotone function that has the value `y` on the first and on the last day of each year
`y` finds the year of every day. -/
theorem year_of_day {f start : Nat → Nat} {n d : Nat} (hmono : Monotone f)
    (hfirst : ∀ y < n, f (start y) = y) (hlast : ∀ y < n, f (start (y + 1) - 1) = y)
    (hle : start 0 ≤ d) (hlt : d < start n) :
    f d < n ∧ start (f d) ≤ d ∧ d < start (f d + 1) := by
  have hpos : n ≠ 0 := by
    rintro rfl
    omega
  have hyear : f d < n := by
    have hend := hlast (n - 1) (by omega)
    rw [Nat.sub_add_cancel (Nat.pos_of_ne_zero hpos)] at hend
    have hbefore : f d ≤ f (start n - 1) := hmono (by omega)
    omega
  refine ⟨hyear, ?_, ?_⟩
  · -- a day before the year is in an earlier one
    by_contra hearly
    rw [Nat.not_le] at hearly
    cases hy : f d with
    | zero =>
        rw [hy] at hearly
        omega
    | succ y =>
        rw [hy] at hearly hyear
        have hend := hlast y (by omega)
        have hbefore : f d ≤ f (start (y + 1) - 1) := hmono (by omega)
        omega
  · by_contra hlate
    rw [Nat.not_lt] at hlate
    by_cases hnext : f d + 1 < n
    · have hbegin := hfirst (f d + 1) hnext
      have hafter : f (start (f d + 1)) ≤ f d := hmono hlate
      omega
    · have hn : f d + 1 = n := by omega
      rw [hn] at hlate
      omega

/-- The days before the year `y` of an era, whose years begin in March. -/
def yearStart (y : Nat) : Nat := 365 * y + y / 4 - y / 100 + y / 400

/-- The year of an era that `gmtime_r` finds for a day of it. -/
def yearOfEra (doe : Nat) : Nat := (doe - doe / 1460 + doe / 36524 - doe / 146096) / 365

theorem yearOfEra_mono : Monotone yearOfEra := by
  apply monotone_nat_of_le_succ
  intro d
  unfold yearOfEra
  apply Nat.div_le_div_right
  omega

theorem yearOfEra_ends : ∀ y < 400, yearOfEra (yearStart y) = y ∧
    yearOfEra (yearStart (y + 1) - 1) = y := by
  decide +kernel

theorem yearOfEra_spec {doe : Nat} (h : doe < 146097) :
    yearOfEra doe < 400 ∧ yearStart (yearOfEra doe) ≤ doe ∧ doe < yearStart (yearOfEra doe + 1) :=
  year_of_day yearOfEra_mono (fun y hy => (yearOfEra_ends y hy).1)
    (fun y hy => (yearOfEra_ends y hy).2) (Nat.zero_le _) h

/-- The day of the year. -/
theorem dayOfYear_spec {doe yoe : Nat} (h : doe < 146097) (hyoe : yoe = yearOfEra doe) :
    yoe < 400 ∧ 365 * yoe + yoe / 4 - yoe / 100 ≤ doe ∧
      doe - (365 * yoe + yoe / 4 - yoe / 100) < 366 := by
  rcases yearOfEra_spec h with ⟨hyear, hfirst, hlast⟩
  rw [← hyoe] at hyear hfirst hlast
  unfold yearStart at hfirst hlast
  -- the last year of an era is a leap year
  rcases Nat.lt_or_ge yoe 399 with hbefore | hlastYear
  · have hera : (yoe + 1) / 400 = 0 := by omega
    have hleap : (yoe + 1) / 4 ≤ yoe / 4 + 1 := by omega
    have hcentury : yoe / 100 ≤ (yoe + 1) / 100 := by omega
    omega
  · have hlastYear : yoe = 399 := by omega
    rw [hlastYear] at hfirst hlast ⊢
    omega

/-! ## `timegm` and `gmtime_r` -/

/-- A day is counted back from its year, month and day of the month. -/
theorem daysFromCivil_parts (era : Int) {yoe doy m mon : Nat} (hyear : yoe < 400)
    (hday : doy < 366) (hm : m = (5 * doy + 2) / 153)
    (hmon : mon = if m < 10 then m + 2 else m - 10) :
    daysFromCivil (era * 400 + yoe + (if mon < 2 then 1 else 0)) mon
        (doy - (153 * m + 2) / 5 + 1) =
      era * 146097 + (365 * yoe + yoe / 4 - yoe / 100 : Nat) + doy - 719468 := by
  have hmonth : m < 12 := by omega
  -- the years of the calculation begin in March
  have hmarch : (if mon < 2 then mon + 10 else mon - 2) = m := by
    split at hmon
    · rw [if_neg (by omega)]
      omega
    · rw [if_pos (by omega)]
      omega
  have hyears : (if mon < 2 then era * 400 + (yoe : Int) + (if mon < 2 then 1 else 0) - 1
      else era * 400 + yoe + (if mon < 2 then 1 else 0)) = era * 400 + yoe := by
    split
    · omega
    · omega
  unfold daysFromCivil
  dsimp only
  rw [hmarch, hyears]
  omega

theorem daysFromCivil_gmtime (t : Int) :
    daysFromCivil (gmtime t).year (gmtime t).mon (gmtime t).mday = t / 86400 := by
  have hdoe : ((t / 86400 + 719468) % 146097).toNat < 146097 := by omega
  rcases dayOfYear_spec hdoe rfl with ⟨hyear, hfirst, hday⟩
  refine (daysFromCivil_parts ((t / 86400 + 719468) / 146097) hyear hday rfl rfl).trans ?_
  omega

/-- The fields of a time are in their ranges. -/
theorem gmtime_fields (t : Int) :
    (gmtime t).sec < 60 ∧ (gmtime t).min < 60 ∧ (gmtime t).hour < 24 ∧
      1 ≤ (gmtime t).mday ∧ (gmtime t).mday ≤ 31 ∧ (gmtime t).mon < 12 ∧ (gmtime t).wday < 7 := by
  have hdoe : ((t / 86400 + 719468) % 146097).toNat < 146097 := by omega
  rcases dayOfYear_spec hdoe rfl with ⟨-, -, hday⟩
  unfold yearOfEra at hday
  unfold gmtime
  dsimp only
  generalize ((t / 86400 + 719468) % 146097).toNat - _ = doy at hday ⊢
  refine ⟨by omega, by omega, by omega, by omega, by omega, ?_, by omega⟩
  split
  · omega
  · omega

/-- **`timegm` is the inverse of `gmtime_r`.** -/
theorem timegm_gmtime (t : Int) : timegm (gmtime t) = t := by
  unfold timegm
  rw [daysFromCivil_gmtime]
  unfold gmtime
  dsimp only
  omega

/-! ## Numbers of a fixed width -/

theorem decValue_le_foldl (ds : Bytes) (val : Nat) :
    val ≤ ds.foldl (fun acc c => acc * 10 + (c.toNat - 48)) val := by
  induction ds generalizing val with
  | nil => exact le_rfl
  | cons c ds ih => exact le_trans (by omega) (ih (val * 10 + (c.toNat - 48)))

/-- Digits stand for less than their power of ten. -/
theorem decValue_lt {ds : Bytes} (h : ∀ c ∈ ds, isdigit c) : decValue ds < 10 ^ ds.length := by
  induction ds using List.reverseRecOn with
  | nil => decide
  | append_singleton ds c ih =>
      have hdigit : c.toNat ≤ 57 := by
        have hc := h c (List.mem_append_right _ List.mem_cons_self)
        unfold isdigit at hc
        rw [Bool.and_eq_true, decide_eq_true_eq, decide_eq_true_eq] at hc
        exact UInt8.le_iff_toNat_le.1 hc.2
      have hfront := ih fun c hc => h c (List.mem_append_left _ hc)
      rw [decValue_append, List.length_append, List.length_singleton, pow_succ]
      omega

/-- A number below `10 ^ k` has at most `k` digits. -/
theorem toString_length_le {n k : Nat} (hk : 0 < k) (h : n < 10 ^ k) :
    (toString_ n).length ≤ k := by
  induction k generalizing n with
  | zero => omega
  | succ k ih =>
      by_cases hsmall : n < 10
      · rw [toString_small hsmall]
        exact Nat.le_add_left _ _
      · rw [toString_large hsmall, List.length_append, List.length_singleton]
        have hmore : 0 < k := by
          by_contra hzero
          have hk0 : k = 0 := by omega
          rw [hk0] at h
          omega
        rw [pow_succ] at h
        exact Nat.add_le_add_right (ih hmore (by omega)) 1

/-- `%0{width}d` of a number that fits. -/
theorem padded_spec {width n : Nat} (hwidth : 0 < width) (h : n < 10 ^ width) :
    (padded width n).length = width ∧ (∀ c ∈ padded width n, isdigit c) ∧
      decValue (padded width n) = n := by
  rcases toString_spec n with ⟨-, hdigits, hvalue⟩
  have hlength := toString_length_le hwidth h
  unfold padded
  refine ⟨?_, ?_, ?_⟩
  · rw [List.length_append, List.length_replicate]
    omega
  · intro c hc
    rcases List.mem_append.1 hc with hzero | hdigit
    · rw [List.eq_of_mem_replicate hzero]
      decide
    · exact hdigits c hdigit
  · have hzeros : ∀ k, (List.replicate k (48 : UInt8)).foldl
        (fun acc c => acc * 10 + (c.toNat - 48)) 0 = 0 := by
      intro k
      induction k with
      | zero => rfl
      | succ k ih => exact ih
    unfold decValue at hvalue ⊢
    rw [List.foldl_append, hzeros]
    exact hvalue

/-- As many digits as may be read. -/
theorem digits_read {hi : Nat} {ds : Bytes} (hds : ∀ c ∈ ds, isdigit c) (val : Nat)
    (hle : ds.foldl (fun acc c => acc * 10 + (c.toNat - 48)) val ≤ hi) (rest : Bytes) :
    strptimeNumber.digits hi ds.length val (ds ++ rest) =
      (ds.foldl (fun acc c => acc * 10 + (c.toNat - 48)) val, rest) := by
  induction ds generalizing val with
  | nil => rfl
  | cons c ds ih =>
      have hstep := decValue_le_foldl ds (val * 10 + (c.toNat - 48))
      have hmore : val * 10 ≤ hi := le_trans (by omega) (hstep.trans hle)
      show strptimeNumber.digits hi (ds.length + 1) val (c :: (ds ++ rest)) = _
      unfold strptimeNumber.digits
      rw [if_pos ⟨hds c List.mem_cons_self, hmore⟩]
      exact ih (fun c hc => hds c (List.mem_cons_of_mem _ hc)) _ hle

/-- What is not read begins with a digit or the byte behind the digits. -/
theorem digits_rest (hi n val : Nat) (ds : Bytes) {x : UInt8} (hx : isdigit x = false)
    (rest : Bytes) :
    ∃ k, (strptimeNumber.digits hi n val (ds ++ x :: rest)).2 = ds.drop k ++ x :: rest := by
  induction n generalizing val ds with
  | zero => exact ⟨0, rfl⟩
  | succ n ih =>
      cases ds with
      | nil =>
          refine ⟨0, ?_⟩
          show (strptimeNumber.digits hi (n + 1) val (x :: rest)).2 = x :: rest
          unfold strptimeNumber.digits
          rw [if_neg (by rw [hx]; exact fun h => Bool.false_ne_true h.1)]
      | cons c ds =>
          show ∃ k, (strptimeNumber.digits hi (n + 1) val (c :: (ds ++ x :: rest))).2 = _
          unfold strptimeNumber.digits
          split
          · rcases ih (val * 10 + (c.toNat - 48)) ds with ⟨k, hk⟩
            exact ⟨k + 1, hk⟩
          · exact ⟨0, rfl⟩

/-- A number is not skipped by what skips no digit. -/
theorem dropWhile_digit {p : UInt8 → Bool} (hp : ∀ c, isdigit c = true → p c = false)
    {ds : Bytes} (hne : ds ≠ []) (hds : ∀ c ∈ ds, isdigit c) (rest : Bytes) :
    (ds ++ rest).dropWhile p = ds ++ rest := by
  cases ds with
  | nil => exact absurd rfl hne
  | cons c ds =>
      show (c :: (ds ++ rest)).dropWhile p = _
      rw [List.dropWhile_cons_of_neg]
      · rfl
      · rw [hp c (hds c List.mem_cons_self)]
        exact Bool.false_ne_true

/-- A number that is written with all its digits is read as its value. -/
theorem strptimeNumber_digits {lo hi : Nat} {ds : Bytes} (hne : ds ≠ [])
    (hds : ∀ c ∈ ds, isdigit c) (hlo : lo ≤ decValue ds) (hhi : decValue ds ≤ hi) (rest : Bytes) :
    strptimeNumber lo hi ds.length (ds ++ rest) = some (decValue ds, rest) := by
  unfold strptimeNumber
  rw [dropWhile_digit (fun _ hc => (not_isspace_of_isdigit hc).1) hne hds]
  cases ds with
  | nil => exact absurd rfl hne
  | cons c ds =>
      have hvalue : decValue (c :: ds) = ds.foldl (fun acc c => acc * 10 + (c.toNat - 48))
          (c.toNat - 48) := by
        unfold decValue
        rw [List.foldl_cons, Nat.zero_mul, Nat.zero_add]
      rw [hvalue] at hlo hhi ⊢
      rw [List.cons_append]
      dsimp only
      rw [if_pos (hds c List.mem_cons_self)]
      have hread := digits_read (fun c hc => hds c (List.mem_cons_of_mem _ hc)) (c.toNat - 48) hhi
        rest
      rw [List.length_cons, Nat.add_sub_cancel, hread]
      exact if_pos ⟨hlo, hhi⟩

/-- A padded number in bounds reads back. -/
theorem strptimeNumber_padded {lo hi width n : Nat} (hwidth : 0 < width) (h : n < 10 ^ width)
    (hlo : lo ≤ n) (hhi : n ≤ hi) (rest : Bytes) :
    strptimeNumber lo hi width (padded width n ++ rest) = some (n, rest) := by
  rcases padded_spec hwidth h with ⟨hlength, hdigits, hvalue⟩
  have hne : padded width n ≠ [] := by
    intro hnil
    rw [hnil] at hlength
    exact absurd hlength.symm hwidth.ne'
  have hread := strptimeNumber_digits hne hdigits (hvalue.symm ▸ hlo) (hvalue.symm ▸ hhi) rest
  rw [hlength, hvalue] at hread
  exact hread

/-! ## Names -/

theorem findSome?_map {α β γ : Type} {f : α → Option β} {g : α → Option γ} {k : β → γ}
    {l : List α} (h : ∀ e ∈ l, g e = (f e).map k) : l.findSome? g = (l.findSome? f).map k := by
  induction l with
  | nil => rfl
  | cons e l ih =>
      have hrest := ih fun e' he' => h e' (List.mem_cons_of_mem _ he')
      rw [List.findSome?_cons, List.findSome?_cons, h e List.mem_cons_self]
      cases f e with
      | none => exact hrest
      | some b => rfl

/-- Whether a text is a prefix is seen in front of a byte that is not in it. -/
theorem prefix_append_cons {p a rest : Bytes} {x : UInt8} (hx : x ∉ p) :
    p <+: a ++ x :: rest ↔ p <+: a := by
  constructor
  · intro h
    rcases List.prefix_or_prefix_of_prefix h (List.prefix_append a (x :: rest)) with hin | ⟨more, hp⟩
    · exact hin
    · rw [← hp] at h hx
      have hbehind := (List.prefix_append_right_inj a).1 h
      cases more with
      | nil => rw [← hp, List.append_nil]
      | cons y more =>
          have hy : y = x := (List.cons_prefix_cons.1 hbehind).1
          exact absurd (by rw [hy]; simp) hx
  · exact fun h => h.trans (List.prefix_append _ _)

/-- A name cut to three letters is read up to a byte that is in none of the names. -/
theorem strptimeName_end {names : List Bytes} {abbr : Bytes} {i : Nat} {x : UInt8}
    (hx : ∀ name ∈ names, tolower x ∉ name.map tolower) (hlength : 3 ≤ abbr.length)
    (h : strptimeName names abbr = some (i, [])) (rest : Bytes) :
    strptimeName names (abbr ++ x :: rest) = some (i, x :: rest) := by
  unfold strptimeName at h ⊢
  rw [findSome?_map (k := fun r : Nat × Bytes => (r.1, r.2 ++ x :: rest)) ?_, h]
  · rfl
  · rintro ⟨name, j⟩ he
    have hname : name ∈ names := List.fst_mem_of_mem_zipIdx he
    have hfull := hx name hname
    have hcut : tolower x ∉ (name.take 3).map tolower := by
      intro hin
      rw [List.map_take] at hin
      exact hfull (List.mem_of_mem_take hin)
    have hin : ∀ n : Bytes, n.map tolower <+: abbr.map tolower → n.length ≤ abbr.length := by
      intro n hn
      have hle := hn.length_le
      rwa [List.length_map, List.length_map] at hle
    dsimp only
    rw [List.map_append, List.map_cons]
    simp only [prefix_append_cons hfull, prefix_append_cons hcut, decide_eq_true_eq]
    split
    next hstart =>
      rw [List.drop_append_of_le_length (hin name hstart)]
      rfl
    · split
      · rw [List.drop_append_of_le_length hlength]
        rfl
      · rfl

/-- The short name of a day reads back. -/
theorem strptimeName_day {i : Nat} (hi : i < 7) (rest : Bytes) :
    strptimeName dayNames ((dayNames.getD i []).take 3 ++ 44 :: rest) = some (i, 44 :: rest) := by
  have hcomma : ∀ name ∈ dayNames, tolower 44 ∉ name.map tolower := by decide
  have hread : ∀ i < 7, 3 ≤ ((dayNames.getD i []).take 3).length ∧
      strptimeName dayNames ((dayNames.getD i []).take 3) = some (i, []) := by
    decide +kernel
  exact strptimeName_end hcomma (hread i hi).1 (hread i hi).2 rest

/-- The short name of a month reads back. -/
theorem strptimeName_month {i : Nat} (hi : i < 12) (rest : Bytes) :
    strptimeName monthNames ((monthNames.getD i []).take 3 ++ 32 :: rest) =
      some (i, 32 :: rest) := by
  have hblank : ∀ name ∈ monthNames, tolower 32 ∉ name.map tolower := by decide
  have hread : ∀ i < 12, 3 ≤ ((monthNames.getD i []).take 3).length ∧
      strptimeName monthNames ((monthNames.getD i []).take 3) = some (i, []) := by
    decide +kernel
  exact strptimeName_end hblank (hread i hi).1 (hread i hi).2 rest

/-! ## The round trip -/

/-- The year as it is written. -/
def yearText (year : Int) : Bytes :=
  if year < 0 then 45 :: padded 3 year.natAbs else padded 4 year.natAbs

/-- What follows the year. -/
def clockText (tm : Tm) : Bytes :=
  32 :: (padded 2 tm.hour ++ 58 :: (padded 2 tm.min ++ 58 :: (padded 2 tm.sec ++ 32 :: lit "GMT")))

/-- The text of `http_date`, field by field. -/
theorem httpDate_text (t : Int) :
    httpDate t = (dayNames.getD (gmtime t).wday []).take 3 ++ 44 :: 32 :: (padded 2 (gmtime t).mday ++
      32 :: ((monthNames.getD (gmtime t).mon []).take 3 ++ 32 :: (yearText (gmtime t).year ++
        clockText (gmtime t)))) := by
  have hcomma : lit ", " = [44, 32] := rfl
  have hblank : lit " " = [32] := rfl
  have hcolon : lit ":" = [58] := rfl
  have hzone : lit " GMT" = 32 :: lit "GMT" := rfl
  unfold httpDate clockText yearText
  rw [hcomma, hblank, hcolon, hzone]
  simp only [List.append_assoc, List.cons_append, List.nil_append]

theorem padded_ne_zero {width n : Nat} {c : UInt8} (h : c ∈ padded width n) : c ≠ 0 := by
  have hzero : isdigit 0 = false := by decide
  rintro rfl
  rcases List.mem_append.1 h with hin | hin
  · exact absurd (List.eq_of_mem_replicate hin) (by decide)
  · have hdigit := (toString_spec n).2.1 0 hin
    rw [hzero] at hdigit
    exact Bool.false_ne_true hdigit

/-- No byte of a date is a NUL, so that `c_str()` shows it in full. -/
theorem httpDate_whole (t : Int) : (httpDate t).takeWhile (· ≠ 0) = httpDate t := by
  have hdays : ∀ i < 7, ∀ c ∈ (dayNames.getD i []).take 3, c ≠ 0 := by decide +kernel
  have hmonths : ∀ i < 12, ∀ c ∈ (monthNames.getD i []).take 3, c ≠ 0 := by decide +kernel
  have hzone : ∀ c ∈ lit "GMT", c ≠ 0 := by decide +kernel
  rcases gmtime_fields t with ⟨-, -, -, -, -, hmon, hwday⟩
  have hyear : ∀ c ∈ yearText (gmtime t).year, c ≠ 0 := by
    intro c hc
    unfold yearText at hc
    split at hc
    · rcases List.mem_cons.1 hc with rfl | hc
      · decide
      · exact padded_ne_zero hc
    · exact padded_ne_zero hc
  rw [List.takeWhile_eq_self_iff, httpDate_text]
  intro c hc
  rw [decide_eq_true_eq]
  unfold clockText at hc
  simp only [List.mem_append, List.mem_cons] at hc
  rcases hc with hc | rfl | rfl | hc | rfl | hc | rfl | hc | rfl | hc | rfl | hc | rfl | hc | rfl |
    hc
  · exact hdays _ hwday c hc
  · decide
  · decide
  · exact padded_ne_zero hc
  · decide
  · exact hmonths _ hmon c hc
  · decide
  · exact hyear c hc
  · decide
  · exact padded_ne_zero hc
  · decide
  · exact padded_ne_zero hc
  · decide
  · exact padded_ne_zero hc
  · decide
  · exact hzone c hc

theorem dropWhile_blank {ds : Bytes} (hne : ds ≠ []) (hds : ∀ c ∈ ds, isdigit c) (rest : Bytes) :
    (32 :: (ds ++ rest)).dropWhile isspace = ds ++ rest := by
  rw [List.dropWhile_cons_of_pos (by decide)]
  exact dropWhile_digit (fun c hc => (not_isspace_of_isdigit hc).1) hne hds rest

/-- The blank in front of a month is skipped, and nothing of its name. -/
theorem dropWhile_month {i : Nat} (hi : i < 12) (rest : Bytes) :
    (32 :: ((monthNames.getD i []).take 3 ++ rest)).dropWhile isspace =
      (monthNames.getD i []).take 3 ++ rest := by
  have hletter : ∀ i < 12, ∃ c cs, (monthNames.getD i []).take 3 = c :: cs ∧ isspace c = false := by
    intro i hi
    have hall : ∀ i < 12, (monthNames.getD i []).take 3 ≠ [] ∧
        isspace (((monthNames.getD i []).take 3).headD 0) = false := by
      decide +kernel
    rcases hall i hi with ⟨hne, hhead⟩
    cases hname : (monthNames.getD i []).take 3 with
    | nil => exact absurd hname hne
    | cons c cs =>
        rw [hname] at hhead
        exact ⟨c, cs, rfl, hhead⟩
  rcases hletter i hi with ⟨c, cs, hname, hc⟩
  rw [List.dropWhile_cons_of_pos (by decide), hname, List.cons_append,
    List.dropWhile_cons_of_neg (by rw [hc]; exact Bool.false_ne_true)]

/-- The part of `parse_http_date` behind the year. -/
def readTime (wday mday mon year : Nat) (s : Bytes) : Option Tm := do
  let (hour, s) ← strptimeNumber 0 23 2 (s.dropWhile isspace)
  let s ← strptimeLit (lit ":") s
  let (min, s) ← strptimeNumber 0 59 2 s
  let s ← strptimeLit (lit ":") s
  let (sec, s) ← strptimeNumber 0 61 2 s
  let _ ← strptimeLit (lit "GMT") (s.dropWhile isspace)
  return { sec, min, hour, mday, mon, year := year, wday }

theorem strptimeLit_cons (c : UInt8) (rest : Bytes) : strptimeLit [c] (c :: rest) = some rest := by
  have hstart : [c] <+: c :: rest := List.prefix_append [c] rest
  unfold strptimeLit
  rw [if_pos hstart]
  rfl

/-- A padded number is made of digits, and not empty. -/
theorem padded_digits (width n : Nat) :
    padded width n ≠ [] ∧ ∀ c ∈ padded width n, isdigit c := by
  constructor
  · unfold padded
    exact List.append_ne_nil_of_right_ne_nil _ (toString_spec n).1
  · intro c hc
    rcases List.mem_append.1 hc with hzero | hdigit
    · rw [List.eq_of_mem_replicate hzero]
      decide
    · exact (toString_spec n).2.1 c hdigit

/-- A date is read down to the year. -/
theorem parseHttpDate_front (t : Int) :
    parseHttpDate (httpDate t) =
      match (strptimeNumber 0 9999 4 ((32 :: (yearText (gmtime t).year ++
          clockText (gmtime t))).dropWhile isspace)).bind fun r =>
        readTime (gmtime t).wday (gmtime t).mday (gmtime t).mon r.1 r.2 with
      | some tm => timegm tm
      | none => -1 := by
  rcases gmtime_fields t with ⟨-, -, -, hlow, hhigh, hmon, hwday⟩
  have hcomma : lit "," = [44] := rfl
  unfold parseHttpDate
  rw [httpDate_whole, httpDate_text]
  dsimp only [bind, pure]
  rw [strptimeName_day hwday]
  dsimp only [Option.bind_some]
  rw [hcomma, strptimeLit_cons]
  dsimp only [Option.bind_some]
  rw [dropWhile_blank (padded_digits 2 _).1 (padded_digits 2 _).2,
    strptimeNumber_padded (by decide) (by omega) hlow hhigh]
  dsimp only [Option.bind_some]
  rw [dropWhile_month hmon, strptimeName_month hmon]
  rfl

/-- The time of day is read behind a year of four digits. -/
theorem readTime_clock (wday mday mon year : Nat) {tm : Tm} (hhour : tm.hour < 24)
    (hmin : tm.min < 60) (hsec : tm.sec < 60) :
    readTime wday mday mon year (clockText tm) =
      some { sec := tm.sec, min := tm.min, hour := tm.hour, mday := mday, mon := mon,
             year := year, wday := wday } := by
  have hcolon : lit ":" = [58] := rfl
  have hend : (32 :: lit "GMT").dropWhile isspace = lit "GMT" := rfl
  have hzone : strptimeLit (lit "GMT") (lit "GMT") = some [] := rfl
  unfold readTime clockText
  dsimp only [bind, pure]
  rw [dropWhile_blank (padded_digits 2 _).1 (padded_digits 2 _).2,
    strptimeNumber_padded (by decide) (by omega) (Nat.zero_le _) (by omega), hcolon]
  dsimp only [Option.bind_some]
  rw [strptimeLit_cons]
  dsimp only [Option.bind_some]
  rw [strptimeNumber_padded (by decide) (by omega) (Nat.zero_le _) (by omega)]
  dsimp only [Option.bind_some]
  rw [strptimeLit_cons]
  dsimp only [Option.bind_some]
  rw [strptimeNumber_padded (by decide) (by omega) (Nat.zero_le _) (by omega)]
  dsimp only [Option.bind_some]
  rw [hend, hzone]
  rfl

/-- Behind the first digits of a longer year no time of day is read. -/
theorem readTime_digits (wday mday mon year : Nat) {ds rest : Bytes} (hne : ds ≠ [])
    (hds : ∀ c ∈ ds, isdigit c) : readTime wday mday mon year (ds ++ 32 :: rest) = none := by
  have hcolon : lit ":" = [58] := rfl
  unfold readTime
  dsimp only [bind, pure]
  rw [dropWhile_digit (fun c hc => (not_isspace_of_isdigit hc).1) hne hds, hcolon]
  cases hread : strptimeNumber 0 23 2 (ds ++ 32 :: rest) with
  | none => rfl
  | some r =>
      -- what is left begins with a digit or a blank, not with a colon
      have hleft : ∃ k, r.2 = ds.drop k ++ 32 :: rest := by
        unfold strptimeNumber at hread
        rw [dropWhile_digit (fun _ hc => (not_isspace_of_isdigit hc).1) hne hds] at hread
        cases ds with
        | nil => exact absurd rfl hne
        | cons c ds =>
            rw [List.cons_append] at hread
            dsimp only at hread
            rw [if_pos (hds c List.mem_cons_self)] at hread
            rcases digits_rest 23 1 (c.toNat - 48) ds (by decide : isdigit 32 = false) rest with
              ⟨k, hk⟩
            split at hread
            · cases hread
              exact ⟨k + 1, hk⟩
            · cases hread
      rcases hleft with ⟨k, hk⟩
      have hnone : strptimeLit [58] r.2 = none := by
        unfold strptimeLit
        rw [if_neg]
        intro hstart
        rw [hk] at hstart
        cases hdrop : ds.drop k with
        | nil =>
            rw [hdrop] at hstart
            exact absurd (List.cons_prefix_cons.1 hstart).1 (by decide)
        | cons d more =>
            rw [hdrop] at hstart
            have hd : (58 : UInt8) = d := (List.cons_prefix_cons.1 hstart).1
            have hdigit := hds d (List.mem_of_mem_drop (by rw [hdrop]; exact List.mem_cons_self))
            rw [← hd] at hdigit
            exact absurd hdigit (by decide)
      dsimp only [Option.bind_some]
      rw [hnone]
      rfl

/-- Of a longer year the first four digits are read, and then no time of day. -/
theorem longYear_fails (wday mday mon : Nat) {y : Nat} (h : 9999 < y) (rest : Bytes) :
    ((strptimeNumber 0 9999 4 (padded 4 y ++ 32 :: rest)).bind fun r =>
      readTime wday mday mon r.1 r.2) = none := by
  have hlength : 5 ≤ (padded 4 y).length := by
    have hlt := decValue_lt (toString_spec y).2.1
    rw [(toString_spec y).2.2] at hlt
    unfold padded
    rw [List.length_append]
    by_contra hshort
    have hle : 10 ^ (toString_ y).length ≤ 10 ^ 4 := Nat.pow_le_pow_right (by decide) (by omega)
    omega
  have hdigits := (padded_digits 4 y).2
  generalize padded 4 y = ds at hlength hdigits
  have hfront : ∀ c ∈ ds.take 4, isdigit c := fun c hc => hdigits c (List.mem_of_mem_take hc)
  have hback : ∀ c ∈ ds.drop 4, isdigit c := fun c hc => hdigits c (List.mem_of_mem_drop hc)
  have hfour : (ds.take 4).length = 4 := by
    rw [List.length_take]
    omega
  have hvalue : decValue (ds.take 4) ≤ 9999 := by
    have hlt := decValue_lt hfront
    rw [hfour] at hlt
    omega
  have hread := strptimeNumber_digits (List.ne_nil_of_length_pos (by omega)) hfront
    (Nat.zero_le _) hvalue (ds.drop 4 ++ 32 :: rest)
  rw [hfour, ← List.append_assoc, List.take_append_drop] at hread
  have hmore : ds.drop 4 ≠ [] := by
    apply List.ne_nil_of_length_pos
    rw [List.length_drop]
    omega
  rw [hread]
  exact readTime_digits wday mday mon _ hmore hback

/-- **Dates read back.** A date that is written for a year of four digits is read as the time
it stands for; any other one is not read. -/
theorem parseHttpDate_written (t : Int) :
    parseHttpDate (httpDate t) =
      if 0 ≤ (gmtime t).year ∧ (gmtime t).year ≤ 9999 then t else -1 := by
  rw [parseHttpDate_front]
  rcases Int.lt_or_le (gmtime t).year 0 with hneg | hpos
  · -- the sign is no digit
    have hnone : strptimeNumber 0 9999 4 ((32 :: (yearText (gmtime t).year ++
        clockText (gmtime t))).dropWhile isspace) = none := by
      unfold yearText
      rw [if_pos hneg]
      rfl
    rw [if_neg (by omega), hnone]
    rfl
  · have hyear : yearText (gmtime t).year = padded 4 (gmtime t).year.natAbs := by
      unfold yearText
      rw [if_neg (by omega)]
    rcases padded_digits 4 (gmtime t).year.natAbs with ⟨hne, hdigits⟩
    rw [hyear, dropWhile_blank hne hdigits]
    rcases Int.lt_or_le 9999 (gmtime t).year with hlong | hfour
    · have hlong : 9999 < (gmtime t).year.natAbs := by omega
      have hclock : clockText (gmtime t) = 32 :: (clockText (gmtime t)).tail := rfl
      rw [if_neg (by omega), hclock, longYear_fails _ _ _ hlong]
    · rcases gmtime_fields t with ⟨hsec, hmin, hhour, -⟩
      rw [if_pos ⟨hpos, hfour⟩, strptimeNumber_padded (by decide) (by omega) (Nat.zero_le _)
        (by omega)]
      dsimp only [Option.bind_some]
      rw [readTime_clock _ _ _ _ hhour hmin hsec]
      dsimp only
      rw [Int.natAbs_of_nonneg hpos]
      exact timegm_gmtime t

end Oreshnek
