import Mathlib.Logic.Function.Basic
import Mathlib.Tactic.Common

/-!
# Resources that are to be released once

A ledger numbers resources in the order in which they are obtained, and counts how
often each has been released and whether it was used behind that. `Balanced owners`
is the conservation law: each resource obtained has been released once or has one
owner, and none has been used behind its release. The operations keep it when they
are done by an owner; a resource without owners has been released exactly once
(`Balanced.settled`).
-/

structure Ledger where
  /-- The resources below this number have been obtained. -/
  obtained : Nat := 0
  released : Nat → Nat := fun _ => 0
  /-- Used while not obtained, or behind a release. -/
  misused : Nat → Bool := fun _ => false

namespace Ledger

/-- The next resource is obtained; its number is `obtained`. -/
def acquire (l : Ledger) : Ledger := { l with obtained := l.obtained + 1 }

/-- A resource is not yet obtained, or has been released. -/
def isGone (l : Ledger) (d : Nat) : Bool := decide (l.obtained ≤ d ∨ l.released d ≠ 0)

def use (l : Ledger) (d : Nat) : Ledger :=
  { l with misused := Function.update l.misused d (l.misused d || l.isGone d) }

/-- The resources that `p` names are released. -/
def releaseAll (l : Ledger) (p : Nat → Bool) : Ledger :=
  { l with released := fun d => l.released d + if p d then 1 else 0 }

def release (l : Ledger) (d : Nat) : Ledger := l.releaseAll fun e => decide (e = d)

/-- Each resource has one owner or has been released once. -/
structure Balanced (l : Ledger) (owners : Nat → Nat) : Prop where
  once : ∀ d < l.obtained, l.released d + owners d = 1
  fresh : ∀ d, l.obtained ≤ d → l.released d = 0 ∧ owners d = 0
  sound : ∀ d, l.misused d = false

variable {l : Ledger} {owners owners' : Nat → Nat}

theorem balanced_empty : ({} : Ledger).Balanced fun _ => 0 where
  once d hd := absurd hd (Nat.not_lt_zero d)
  fresh _ _ := ⟨rfl, rfl⟩
  sound _ := rfl

theorem Balanced.congr (h : l.Balanced owners) (hsame : ∀ d, owners' d = owners d) :
    l.Balanced owners' := by
  have heq : owners' = owners := funext hsame
  rw [heq]
  exact h

/-- What has an owner was obtained and is not released. -/
theorem Balanced.owned (h : l.Balanced owners) {d : Nat} (howned : 0 < owners d) :
    d < l.obtained ∧ l.released d = 0 := by
  have hd : d < l.obtained := by
    by_contra hfresh
    have := (h.fresh d (Nat.not_lt.1 hfresh)).2
    omega
  have := h.once d hd
  exact ⟨hd, by omega⟩

theorem Balanced.owners_le (h : l.Balanced owners) (d : Nat) : owners d ≤ 1 := by
  rcases Nat.lt_or_ge d l.obtained with hd | hd
  · have := h.once d hd
    omega
  · have := (h.fresh d hd).2
    omega

/-- What is obtained gets its owner. -/
theorem Balanced.acquire (h : l.Balanced owners)
    (howners : ∀ d, owners' d = if d = l.obtained then 1 else owners d) :
    l.acquire.Balanced owners' := by
  constructor
  · intro d hd
    have hd : d < l.obtained + 1 := hd
    rw [howners]
    by_cases hnew : d = l.obtained
    · rw [if_pos hnew]
      have := (h.fresh d (Nat.le_of_eq hnew.symm)).1
      exact congrArg (· + 1) this
    · rw [if_neg hnew]
      exact h.once d (by omega)
  · intro d hd
    have hd : l.obtained + 1 ≤ d := hd
    rw [howners, if_neg (by omega)]
    exact h.fresh d (by omega)
  · exact h.sound

/-- An owner may use its resource. -/
theorem Balanced.use (h : l.Balanced owners) {d : Nat} (howned : 0 < owners d) :
    (l.use d).Balanced owners := by
  obtain ⟨hd, hopen⟩ := h.owned howned
  refine ⟨h.once, h.fresh, fun e => ?_⟩
  have hgone : l.isGone d = false := by
    unfold isGone
    rw [decide_eq_false_iff_not]
    omega
  unfold Ledger.use
  dsimp only
  by_cases he : e = d
  · subst he
    rw [Function.update_self, h.sound, hgone]
    rfl
  · rw [Function.update_of_ne he]
    exact h.sound e

/-- Owners may release their resources, which have no owners then. -/
theorem Balanced.releaseAll (h : l.Balanced owners) {p : Nat → Bool}
    (howned : ∀ d, p d = true → 0 < owners d)
    (howners : ∀ d, owners' d = if p d then 0 else owners d) :
    (l.releaseAll p).Balanced owners' := by
  constructor
  · intro d hd
    have honce := h.once d hd
    unfold Ledger.releaseAll
    dsimp only
    rw [howners]
    by_cases hp : p d = true
    · rw [if_pos hp, if_pos hp]
      have := (h.owned (howned d hp)).2
      omega
    · rw [if_neg hp, if_neg hp]
      exact honce
  · intro d hd
    obtain ⟨hreleased, hnone⟩ := h.fresh d hd
    have hp : ¬ p d = true := by
      intro hp
      have := howned d hp
      omega
    unfold Ledger.releaseAll
    dsimp only
    rw [howners, if_neg hp, if_neg hp]
    exact ⟨hreleased, hnone⟩
  · exact h.sound

/-- The last owner lets go, and the entry is released. -/
theorem Balanced.release (h : l.Balanced owners) {d : Nat} (howned : 0 < owners d)
    (howners : ∀ e, owners' e = if e = d then 0 else owners e) :
    (l.release d).Balanced owners' := by
  apply h.releaseAll
  · intro e he
    rw [of_decide_eq_true he]
    exact howned
  · intro e
    rw [howners]
    by_cases he : e = d
    · rw [if_pos he, if_pos (decide_eq_true he)]
    · rw [if_neg he, if_neg (by rw [decide_eq_false he]; exact Bool.false_ne_true)]

/-- Nothing is released twice. -/
theorem Balanced.released_le (h : l.Balanced owners) (d : Nat) : l.released d ≤ 1 := by
  rcases Nat.lt_or_ge d l.obtained with hd | hd
  · have := h.once d hd
    omega
  · have := (h.fresh d hd).1
    omega

/-- What has been obtained and has no owner has been released exactly once. -/
theorem Balanced.settled (h : l.Balanced owners) {d : Nat} (hd : d < l.obtained)
    (hnone : owners d = 0) : l.released d = 1 := by
  have := h.once d hd
  omega

end Ledger
