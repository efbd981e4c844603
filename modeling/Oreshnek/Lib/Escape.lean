import Mathlib

/-!
# Escaped texts

A text is written with an escape symbol before every symbol that needs one, and read up to the
first closing symbol that has none. When the escape symbol and the closing one are among those
that are escaped, what is read is what was written, and the reader stops right behind it
(`unescape_escape`).
-/

namespace Escape

variable {α : Type*} [DecidableEq α]

/-- The symbols that need it get an escape symbol. -/
def escape (special : α → Bool) (esc : α) (text : List α) : List α :=
  text.flatMap fun c => if special c then [esc, c] else [c]

/-- The text before the closing symbol, and what follows that. An escape symbol makes the next
symbol part of the text. -/
def unescape (esc close : α) : List α → Option (List α × List α)
  | [] => none
  | c :: rest =>
      if c = esc then
        match rest with
        | [] => none
        | d :: rest => (unescape esc close rest).map fun (text, rest) => (d :: text, rest)
      else if c = close then some ([], rest)
      else (unescape esc close rest).map fun (text, rest) => (c :: text, rest)

variable {special : α → Bool} {esc close : α}

omit [DecidableEq α] in
@[simp] theorem escape_nil : escape special esc [] = [] := rfl

omit [DecidableEq α] in
theorem escape_cons (c : α) (text : List α) :
    escape special esc (c :: text) =
      (if special c then [esc, c] else [c]) ++ escape special esc text := List.flatMap_cons

theorem unescape_escaped (d : α) (rest : List α) :
    unescape esc close (esc :: d :: rest) =
      (unescape esc close rest).map fun (text, rest) => (d :: text, rest) := by
  rw [unescape, if_pos rfl]

theorem unescape_close (h : close ≠ esc) (rest : List α) :
    unescape esc close (close :: rest) = some ([], rest) := by
  unfold unescape
  rw [if_neg h, if_pos rfl]

theorem unescape_plain {c : α} (hesc : c ≠ esc) (hclose : c ≠ close) (rest : List α) :
    unescape esc close (c :: rest) =
      (unescape esc close rest).map fun (text, rest) => (c :: text, rest) := by
  conv_lhs => unfold unescape
  rw [if_neg hesc, if_neg hclose]

/-- **The round trip**, whatever follows the closing symbol. -/
theorem unescape_escape (hesc : special esc = true) (hclose : special close = true)
    (hne : close ≠ esc) (text rest : List α) :
    unescape esc close (escape special esc text ++ close :: rest) = some (text, rest) := by
  induction text with
  | nil => exact unescape_close hne rest
  | cons c text ih =>
      rw [escape_cons]
      by_cases hc : special c = true
      · rw [if_pos hc]
        show unescape esc close (esc :: c :: (escape special esc text ++ close :: rest)) = _
        rw [unescape_escaped, ih]
        rfl
      · -- a symbol without an escape is neither of the two
        have hplain : ∀ d, special d = true → c ≠ d := by
          rintro d hd rfl
          exact hc hd
        rw [if_neg hc]
        show unescape esc close (c :: (escape special esc text ++ close :: rest)) = _
        rw [unescape_plain (hplain esc hesc) (hplain close hclose), ih]
        rfl

/-- The reader takes at least the closing symbol. -/
theorem length_lt_of_unescape {input text rest : List α}
    (h : unescape esc close input = some (text, rest)) : rest.length < input.length := by
  induction hn : input.length using Nat.strong_induction_on generalizing input text rest with
  | _ n ih =>
  subst hn
  -- what is read behind a symbol of the text is shorter
  have hthen : ∀ {c : α} {tail : List α}, tail.length < input.length →
      (unescape esc close tail).map (fun (text, rest) => (c :: text, rest)) = some (text, rest) →
      rest.length < input.length := by
    intro c tail hlt hmap
    obtain ⟨⟨text', rest'⟩, htail, heq⟩ := Option.map_eq_some_iff.1 hmap
    cases heq
    exact (ih _ hlt htail rfl).trans hlt
  cases input with
  | nil => cases h
  | cons c input =>
      by_cases hc : c = esc
      · subst hc
        cases input with
        | nil =>
            rw [unescape, if_pos rfl] at h
            cases h
        | cons d input =>
            rw [unescape_escaped] at h
            exact hthen (by simp) h
      · by_cases hclose : c = close
        · subst hclose
          rw [unescape_close hc] at h
          cases h
          exact Nat.lt_succ_self _
        · rw [unescape_plain hc hclose] at h
          exact hthen (by simp) h

end Escape
