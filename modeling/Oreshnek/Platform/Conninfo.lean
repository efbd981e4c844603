import Oreshnek.Http.Dates
import Oreshnek.Lib.Escape
import Oreshnek.Platform.Placeholders

/-!
# Connection strings

`quote` and `build_conninfo` of `PgBackend`, and the grammar by which libpq reads such a string:
`keyword=value` pairs with blanks between them, a value in single quotes or up to the next blank,
and in both a backslash that makes the next character part of the value. The reader is back
between two pairs after each value (`conninfoParse_setting`), and so reads the settings that were
written (`conninfoParse_buildConninfo`).
-/

namespace Oreshnek

/-! ## The code -/

/-- What `build_conninfo` reads of a `DatabaseConfig`. -/
structure DatabaseConfig where
  pgHost : Bytes := lit "127.0.0.1"
  pgPort : Int := 5432
  pgDbname : Bytes := lit "oreshnek"
  pgUser : Bytes := lit "oreshnek"
  pgPassword : Bytes := []
  pgSslmode : Bytes := lit "prefer"
  pgConnectTimeoutSec : Int := 5
  pgUrl : Bytes := []

/-- The characters that `quote` escapes. -/
def quoted (c : UInt8) : Bool := c == 92 || c == 39

/-- `quote`. -/
def quote (v : Bytes) : Bytes := [39] ++ Escape.escape quoted 92 v ++ [39]

/-- `build_conninfo`. -/
def buildConninfo (db : DatabaseConfig) : Bytes :=
  if db.pgUrl ≠ [] then db.pgUrl
  else
    lit "host=" ++ quote db.pgHost ++ lit " port=" ++ toStringInt db.pgPort ++
      lit " dbname=" ++ quote db.pgDbname ++ lit " user=" ++ quote db.pgUser ++
      lit " password=" ++ quote db.pgPassword ++ lit " sslmode=" ++ quote db.pgSslmode ++
      lit " connect_timeout=" ++ toStringInt db.pgConnectTimeoutSec

/-! ## The grammar of libpq -/

/-- A value without quotes, down to the next blank. -/
def unquoted : Bytes → Bytes × Bytes
  | [] => ([], [])
  | c :: cp =>
      if isspace c then ([], cp)
      else if c = 92 then
        match cp with
        | [] => ([], [])
        | d :: cp =>
            let (value, rest) := unquoted cp
            (d :: value, rest)
      else
        let (value, rest) := unquoted cp
        (c :: value, rest)

/-- A character of a keyword. -/
def keywordByte (c : UInt8) : Bool := c != 61 && !isspace c

/-- A value, and what follows it; nothing where a quote is not closed. -/
def readValue : Bytes → Option (Bytes × Bytes)
  | 39 :: cp => Escape.unescape 92 39 cp
  | cp => some (unquoted cp)

/-- A keyword, `=` with blanks around it, and a value. -/
def readPair (cp : Bytes) : Option ((Bytes × Bytes) × Bytes) :=
  let keyword := cp.takeWhile keywordByte
  match (cp.dropWhile keywordByte).dropWhile isspace with
  | 61 :: cp =>
      (readValue (cp.dropWhile isspace)).map fun (value, rest) => ((keyword, value), rest)
  | _ => none

theorem unquoted_blank {c : UInt8} (h : isspace c = true) (cp : Bytes) :
    unquoted (c :: cp) = ([], cp) := by
  unfold unquoted
  rw [if_pos h]

theorem unquoted_escaped (d : UInt8) (cp : Bytes) :
    unquoted (92 :: d :: cp) = (d :: (unquoted cp).1, (unquoted cp).2) := by
  conv_lhs => unfold unquoted
  rw [if_neg (by decide), if_pos rfl]

theorem unquoted_plain {c : UInt8} (hspace : isspace c = false) (hc : c ≠ 92) (cp : Bytes) :
    unquoted (c :: cp) = (c :: (unquoted cp).1, (unquoted cp).2) := by
  conv_lhs => unfold unquoted
  rw [if_neg (Bool.eq_false_iff.1 hspace), if_neg hc]

/-- A value read does not lengthen what is left. -/
theorem unquoted_length (cp : Bytes) : (unquoted cp).2.length ≤ cp.length := by
  induction hn : cp.length using Nat.strong_induction_on generalizing cp with
  | _ n ih =>
  subst hn
  cases cp with
  | nil => exact Nat.le_refl _
  | cons c cp =>
      by_cases hspace : isspace c = true
      · rw [unquoted_blank hspace]
        exact Nat.le_succ _
      have hspace : isspace c = false := Bool.eq_false_iff.2 hspace
      by_cases hc : c = 92
      · subst hc
        cases cp with
        | nil => exact Nat.zero_le _
        | cons d cp =>
            rw [unquoted_escaped]
            have := ih cp.length (by simp only [List.length_cons]; omega) cp rfl
            simp only [List.length_cons]
            omega
      · rw [unquoted_plain hspace hc]
        have := ih cp.length (Nat.lt_succ_self _) cp rfl
        exact Nat.le_succ_of_le this

/-- Reading a value does not lengthen what is left. -/
theorem readValue_length {cp rest value : Bytes} (h : readValue cp = some (value, rest)) :
    rest.length ≤ cp.length := by
  unfold readValue at h
  split at h
  next cp =>
    have := Escape.length_lt_of_unescape h
    simp only [List.length_cons]
    omega
  next =>
    have hle := unquoted_length cp
    rw [Option.some.inj h] at hle
    exact hle

/-- A pair takes at least its `=`. -/
theorem readPair_length {cp rest : Bytes} {pair : Bytes × Bytes}
    (h : readPair cp = some (pair, rest)) : rest.length < cp.length := by
  unfold readPair at h
  dsimp only at h
  have hskip : ((cp.dropWhile keywordByte).dropWhile isspace).length ≤ cp.length :=
    ((List.dropWhile_suffix _).trans (List.dropWhile_suffix _)).length_le
  split at h
  next cp' hequal =>
    obtain ⟨⟨value, rest'⟩, hvalue, heq⟩ := Option.map_eq_some_iff.1 h
    have hrest : rest' = rest := (Prod.mk.inj heq).2
    have hle := readValue_length hvalue
    have hblanks : (cp'.dropWhile isspace).length ≤ cp'.length :=
      (List.dropWhile_suffix _).length_le
    rw [hequal, List.length_cons] at hskip
    rw [← hrest]
    omega
  next => cases h

/-- `conninfo_parse`: the pairs, in order; nothing where it reports an error. -/
def conninfoParse (cp : Bytes) : Option (List (Bytes × Bytes)) :=
  match hcp : cp.dropWhile isspace with
  | [] => some []
  | c :: cp' =>
      match hpair : readPair (c :: cp') with
      | none => none
      | some (pair, rest) => (conninfoParse rest).map fun pairs => pair :: pairs
termination_by cp.length
decreasing_by
  have hlength := readPair_length hpair
  have hskip : (cp.dropWhile isspace).length ≤ cp.length := (List.dropWhile_suffix _).length_le
  rw [hcp] at hskip
  omega

/-- What `PQconnectdb` takes from a connection string. -/
def readConninfo (conninfo : Bytes) : Option (List (Bytes × Bytes)) :=
  conninfoParse (Placeholders.cString conninfo)

/-! ## One setting -/

/-- A keyword and the value that is written for it. -/
inductive Setting where
  | text (keyword value : Bytes)
  | number (keyword : Bytes) (n : Int)

namespace Setting

def keyword : Setting → Bytes
  | .text keyword _ => keyword
  | .number keyword _ => keyword

def value : Setting → Bytes
  | .text _ value => value
  | .number _ n => toStringInt n

/-- How it is written. -/
def encode : Setting → Bytes
  | .text keyword value => keyword ++ [61] ++ quote value
  | .number keyword n => keyword ++ [61] ++ toStringInt n

/-- What it says. -/
def pair (s : Setting) : Bytes × Bytes := (s.keyword, s.value)

/-- A keyword that can be written. -/
def Written (s : Setting) : Prop := s.keyword ≠ [] ∧ s.keyword.all keywordByte = true

end Setting

/-- A keyword is read up to its equals sign. -/
theorem readPair_keyword {keyword : Bytes} (hall : keyword.all keywordByte = true) (cp : Bytes) :
    readPair (keyword ++ 61 :: cp) =
      (readValue (cp.dropWhile isspace)).map fun (value, rest) => ((keyword, value), rest) := by
  have hbytes : ∀ c ∈ keyword, keywordByte c = true := List.all_eq_true.1 hall
  have htake : (keyword ++ 61 :: cp).takeWhile keywordByte = keyword := by
    rw [List.takeWhile_append_of_pos hbytes, List.takeWhile_cons_of_neg (by decide), List.append_nil]
  have hdrop : ((keyword ++ 61 :: cp).dropWhile keywordByte).dropWhile isspace = 61 :: cp := by
    rw [List.dropWhile_append_of_pos hbytes, List.dropWhile_cons_of_neg (by decide),
      List.dropWhile_cons_of_neg (by decide)]
  unfold readPair
  rw [htake, hdrop]
  rfl

/-- A value without blanks and backslashes is read up to the next blank. -/
theorem unquoted_append {v : Bytes} (hspace : ∀ c ∈ v, isspace c = false) (hesc : 92 ∉ v)
    {tail : Bytes} (htail : tail = [] ∨ ∃ rest, tail = 32 :: rest) :
    unquoted (v ++ tail) = (v, tail.drop 1) := by
  induction v with
  | nil =>
      rcases htail with rfl | ⟨rest, rfl⟩
      · rfl
      · exact unquoted_blank (by decide) rest
  | cons c v ih =>
      have hc : c ≠ 92 := fun h => hesc (h ▸ List.mem_cons_self)
      rw [List.cons_append, unquoted_plain (hspace c List.mem_cons_self) hc,
        ih (fun d hd => hspace d (List.mem_cons_of_mem _ hd)) fun h => hesc (List.mem_cons_of_mem _ h)]

/-- A number has neither, and begins with no quote. -/
theorem toStringInt_bytes (n : Int) :
    toStringInt n ≠ [] ∧ ∀ c ∈ toStringInt n, isspace c = false ∧ c ≠ 92 ∧ c ≠ 39 ∧ c ≠ 0 := by
  obtain ⟨hne, hdigits, -⟩ := toString_spec n.natAbs
  have hdigit : ∀ c ∈ toString_ n.natAbs, isspace c = false ∧ c ≠ 92 ∧ c ≠ 39 ∧ c ≠ 0 := by
    intro c hc
    have hdec := hdigits c hc
    refine ⟨(not_isspace_of_isdigit hdec).1, ?_, ?_, ?_⟩
    · rintro rfl
      cases hdec
    · rintro rfl
      cases hdec
    · rintro rfl
      cases hdec
  unfold toStringInt
  split
  · refine ⟨List.cons_ne_nil _ _, fun c hc => ?_⟩
    rcases List.mem_cons.1 hc with rfl | hc
    · decide
    · exact hdigit c hc
  · exact ⟨hne, hdigit⟩

/-- **A setting** is read as it was written, up to the blank behind it. -/
theorem readPair_setting {s : Setting} (hall : s.keyword.all keywordByte = true) {tail : Bytes}
    (htail : tail = [] ∨ ∃ rest, tail = 32 :: rest) :
    ∃ rest, readPair (s.encode ++ tail) = some (s.pair, rest) ∧ (rest = tail ∨ rest = tail.drop 1) := by
  cases s with
  | text keyword value =>
      -- the escaped value ends at its closing quote
      have hread : Escape.unescape 92 39 (Escape.escape quoted 92 value ++ 39 :: tail) =
          some (value, tail) := Escape.unescape_escape rfl rfl (by decide) value tail
      have hshape : (Setting.text keyword value).encode ++ tail =
          keyword ++ 61 :: (39 :: (Escape.escape quoted 92 value ++ 39 :: tail)) := by
        simp [Setting.encode, quote]
      have hstop : (39 :: (Escape.escape quoted 92 value ++ 39 :: tail)).dropWhile isspace =
          39 :: (Escape.escape quoted 92 value ++ 39 :: tail) :=
        List.dropWhile_cons_of_neg (by decide)
      have hall : keyword.all keywordByte = true := hall
      refine ⟨tail, ?_, .inl rfl⟩
      rw [hshape, readPair_keyword hall, hstop, readValue, hread]
      rfl
  | number keyword n =>
      obtain ⟨hne, hbytes⟩ := toStringInt_bytes n
      obtain ⟨d, ds, hds⟩ := List.exists_cons_of_ne_nil hne
      have hd := hbytes d (hds ▸ List.mem_cons_self)
      have hshape : (Setting.number keyword n).encode ++ tail =
          keyword ++ 61 :: (toStringInt n ++ tail) := by
        simp [Setting.encode]
      have hstop : (toStringInt n ++ tail).dropWhile isspace = toStringInt n ++ tail := by
        rw [hds]
        exact List.dropWhile_cons_of_neg (Bool.eq_false_iff.1 hd.1)
      have hread : unquoted (toStringInt n ++ tail) = (toStringInt n, tail.drop 1) :=
        unquoted_append (fun c hc => (hbytes c hc).1) (fun h => (hbytes 92 h).2.1 rfl) htail
      have hvalue : readValue (toStringInt n ++ tail) = some (toStringInt n, tail.drop 1) := by
        unfold readValue
        split
        next cp hquote =>
          -- a number begins with no quote
          rw [hds] at hquote
          exact absurd (List.cons.inj hquote).1 hd.2.2.1
        next => rw [hread]
      have hall : keyword.all keywordByte = true := hall
      refine ⟨tail.drop 1, ?_, .inr rfl⟩
      rw [hshape, readPair_keyword hall, hstop, hvalue]
      rfl

/-! ## All settings -/

theorem conninfoParse_blank (cp : Bytes) : conninfoParse (32 :: cp) = conninfoParse cp := by
  have hskip : (32 :: cp).dropWhile isspace = cp.dropWhile isspace :=
    List.dropWhile_cons_of_pos (by decide)
  rw [conninfoParse, conninfoParse, hskip]

theorem conninfoParse_nil : conninfoParse [] = some [] := by
  rw [conninfoParse]
  rfl

/-- **Behind a value** the reader is back between two pairs. -/
theorem conninfoParse_setting {s : Setting} (h : s.Written) {tail : Bytes}
    (htail : tail = [] ∨ ∃ rest, tail = 32 :: rest) :
    conninfoParse (s.encode ++ tail) =
      (conninfoParse tail).map fun pairs => s.pair :: pairs := by
  obtain ⟨hne, hall⟩ := h
  obtain ⟨rest, hread, hrest⟩ := readPair_setting hall htail
  -- the first character of the keyword is no blank
  have hskip : (s.encode ++ tail).dropWhile isspace = s.encode ++ tail ∧ s.encode ++ tail ≠ [] := by
    obtain ⟨c, cs, hcs⟩ := List.exists_cons_of_ne_nil hne
    have hc : isspace c = false := by
      have := List.all_eq_true.1 hall c (hcs ▸ List.mem_cons_self)
      simpa using (Bool.and_eq_true_iff.1 this).2
    have hshape : ∃ more, s.encode ++ tail = c :: more := by
      cases s with
      | text keyword value =>
          have hcs : keyword = c :: cs := hcs
          refine ⟨cs ++ [61] ++ quote value ++ tail, ?_⟩
          rw [Setting.encode, hcs]
          rfl
      | number keyword n =>
          have hcs : keyword = c :: cs := hcs
          refine ⟨cs ++ [61] ++ toStringInt n ++ tail, ?_⟩
          rw [Setting.encode, hcs]
          rfl
    obtain ⟨more, hmore⟩ := hshape
    rw [hmore]
    exact ⟨List.dropWhile_cons_of_neg (Bool.eq_false_iff.1 hc), List.cons_ne_nil _ _⟩
  have hthen : conninfoParse rest = conninfoParse tail := by
    rcases hrest with rfl | rfl
    · rfl
    · rcases htail with rfl | ⟨tail, rfl⟩
      · rfl
      · exact (conninfoParse_blank tail).symm
  rw [conninfoParse]
  split
  next hnil => exact absurd (hskip.1.symm.trans hnil) hskip.2
  next c cp hcons =>
    rw [hskip.1] at hcons
    split
    next hnone =>
      rw [← hcons, hread] at hnone
      cases hnone
    next pair rest' hsome =>
      rw [← hcons, hread] at hsome
      cases hsome
      rw [hthen]

/-- Settings with a blank between any two of them, by induction on what is left. -/
theorem conninfoParse_intercalate (ss : List Setting) (h : ∀ s ∈ ss, s.Written) :
    conninfoParse ([(32 : UInt8)].intercalate (ss.map Setting.encode)) =
      some (ss.map Setting.pair) := by
  induction ss with
  | nil => exact conninfoParse_nil
  | cons s ss ih =>
      have hs := h s List.mem_cons_self
      have hss := ih fun s' hs' => h s' (List.mem_cons_of_mem _ hs')
      cases ss with
      | nil =>
          have hlast := conninfoParse_setting hs (.inl rfl)
          rw [List.append_nil, conninfoParse_nil] at hlast
          rw [List.map_singleton, List.map_singleton, List.intercalate_singleton]
          exact hlast
      | cons s' ss =>
          rw [List.map_cons, List.map_cons, List.intercalate_cons_cons, ← List.map_cons,
            List.append_assoc, List.singleton_append, conninfoParse_setting hs (.inr ⟨_, rfl⟩),
            conninfoParse_blank, hss]
          rfl

/-! ## What is configured -/

/-- The settings of a configuration. -/
def DatabaseConfig.settings (db : DatabaseConfig) : List Setting :=
  [.text (lit "host") db.pgHost, .number (lit "port") db.pgPort, .text (lit "dbname") db.pgDbname,
    .text (lit "user") db.pgUser, .text (lit "password") db.pgPassword,
    .text (lit "sslmode") db.pgSslmode,
    .number (lit "connect_timeout") db.pgConnectTimeoutSec]

theorem keywords_written :
    ∀ k ∈ [lit "host", lit "port", lit "dbname", lit "user", lit "password", lit "sslmode",
      lit "connect_timeout"], k ≠ [] ∧ k.all keywordByte = true := by
  decide

theorem DatabaseConfig.settings_written (db : DatabaseConfig) : ∀ s ∈ db.settings, s.Written := by
  intro s hs
  have hkeyword : s.keyword ∈ db.settings.map Setting.keyword := List.mem_map_of_mem hs
  exact keywords_written s.keyword hkeyword

/-- The settings are written one behind the other. -/
theorem buildConninfo_eq {db : DatabaseConfig} (h : db.pgUrl = []) :
    buildConninfo db = [(32 : UInt8)].intercalate (db.settings.map Setting.encode) := by
  have hkeys : lit "host=" = lit "host" ++ [61] ∧ lit " port=" = 32 :: (lit "port" ++ [61]) ∧
      lit " dbname=" = 32 :: (lit "dbname" ++ [61]) ∧ lit " user=" = 32 :: (lit "user" ++ [61]) ∧
      lit " password=" = 32 :: (lit "password" ++ [61]) ∧
      lit " sslmode=" = 32 :: (lit "sslmode" ++ [61]) ∧
      lit " connect_timeout=" = 32 :: (lit "connect_timeout" ++ [61]) := by decide
  obtain ⟨hhost, hport, hdbname, huser, hpassword, hsslmode, htimeout⟩ := hkeys
  unfold buildConninfo
  rw [if_neg (not_not.2 h), hhost, hport, hdbname, huser, hpassword, hsslmode, htimeout]
  simp [DatabaseConfig.settings, Setting.encode, List.intercalate_cons_cons]

/-- No NUL, so that the C string is the whole text. -/
theorem cString_eq {b : Bytes} (h : 0 ∉ b) : Placeholders.cString b = b := by
  refine List.takeWhile_eq_self_iff.2 fun c hc => ?_
  rw [bne_iff_ne]
  rintro rfl
  exact h hc

/-- Quoting brings in no NUL. -/
theorem zero_notMem_quote {v : Bytes} (h : 0 ∉ v) : 0 ∉ quote v := by
  intro hin
  unfold quote Escape.escape at hin
  simp only [List.mem_append, List.mem_flatMap, List.mem_singleton] at hin
  rcases hin with (hin | ⟨c, hc, hin⟩) | hin
  · cases hin
  · split at hin
    · rcases List.mem_cons.1 hin with hin | hin
      · cases hin
      · exact h (List.mem_singleton.1 hin ▸ hc)
    · exact h (List.mem_singleton.1 hin ▸ hc)
  · cases hin

theorem zero_notMem_toStringInt (n : Int) : 0 ∉ toStringInt n := fun h =>
  ((toStringInt_bytes n).2 0 h).2.2.2 rfl

/-- **The round trip**: libpq reads the seven pairs that were configured, and no others, whatever
the values are. -/
theorem conninfoParse_buildConninfo (db : DatabaseConfig) (hurl : db.pgUrl = [])
    (hhost : 0 ∉ db.pgHost) (hdbname : 0 ∉ db.pgDbname) (huser : 0 ∉ db.pgUser)
    (hpassword : 0 ∉ db.pgPassword) (hsslmode : 0 ∉ db.pgSslmode) :
    readConninfo (buildConninfo db) =
      some [(lit "host", db.pgHost), (lit "port", toStringInt db.pgPort),
        (lit "dbname", db.pgDbname), (lit "user", db.pgUser), (lit "password", db.pgPassword),
        (lit "sslmode", db.pgSslmode),
        (lit "connect_timeout", toStringInt db.pgConnectTimeoutSec)] := by
  have hzero : 0 ∉ buildConninfo db := by
    unfold buildConninfo
    rw [if_neg (not_not.2 hurl)]
    simp only [List.mem_append, not_or]
    have hkeys : 0 ∉ lit "host=" ∧ 0 ∉ lit " port=" ∧ 0 ∉ lit " dbname=" ∧ 0 ∉ lit " user=" ∧
        0 ∉ lit " password=" ∧ 0 ∉ lit " sslmode=" ∧ 0 ∉ lit " connect_timeout=" := by decide
    obtain ⟨h₁, h₂, h₃, h₄, h₅, h₆, h₇⟩ := hkeys
    exact ⟨⟨⟨⟨⟨⟨⟨⟨⟨⟨⟨⟨⟨h₁, zero_notMem_quote hhost⟩, h₂⟩, zero_notMem_toStringInt _⟩, h₃⟩,
      zero_notMem_quote hdbname⟩, h₄⟩, zero_notMem_quote huser⟩, h₅⟩, zero_notMem_quote hpassword⟩,
      h₆⟩, zero_notMem_quote hsslmode⟩, h₇⟩, zero_notMem_toStringInt _⟩
  unfold readConninfo
  rw [cString_eq hzero, buildConninfo_eq hurl, conninfoParse_intercalate _ db.settings_written]
  rfl

/-- A password that would close its value and set the host. -/
def injecting : DatabaseConfig where
  pgPassword := lit "\\' host='evil"

/-- A password that looks like further keywords reads back as a password. -/
theorem conninfoParse_injecting :
    readConninfo (buildConninfo injecting) =
      some [(lit "host", lit "127.0.0.1"), (lit "port", toStringInt 5432),
        (lit "dbname", lit "oreshnek"), (lit "user", lit "oreshnek"),
        (lit "password", lit "\\' host='evil"), (lit "sslmode", lit "prefer"),
        (lit "connect_timeout", toStringInt 5)] :=
  conninfoParse_buildConninfo injecting rfl (by decide) (by decide) (by decide) (by decide)
    (by decide)

end Oreshnek
