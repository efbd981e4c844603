import Mathlib

/-!
# Resources in custody

Resources are kept in a store, from which holders take them. `Custody` says that a
function `owner` tells where each resource is: in the store when it has no owner,
and with its owner otherwise. So no resource is in two places, and none is lost.
Taking, giving back and passing on change the owners and nothing else.
-/

variable {R H : Type*} [DecidableEq R]

/-- `owner` tells of every resource of `all` where it is. -/
structure Custody (all : Set R) [DecidablePred (· ∈ all)] (store : List R) (held : H → Option R)
    (owner : R → Option H) : Prop where
  stored : ∀ r, store.count r = if r ∈ all ∧ owner r = none then 1 else 0
  held : ∀ h r, held h = some r ↔ r ∈ all ∧ owner r = some h

namespace Custody

variable {all : Set R} [DecidablePred (· ∈ all)] {store : List R} {held : H → Option R}
  {owner : R → Option H}

theorem mem_store (hs : Custody all store held owner) {r : R} :
    r ∈ store ↔ r ∈ all ∧ owner r = none := by
  rw [← List.count_pos_iff, hs.stored]
  split
  case isTrue h => exact ⟨fun _ => h, fun _ => Nat.one_pos⟩
  case isFalse h => exact ⟨fun hpos => absurd hpos (Nat.lt_irrefl 0), fun h' => absurd h' h⟩

/-- Every resource is either once in the store or with one holder. -/
theorem exclusive (hs : Custody all store held owner) {r : R} (hr : r ∈ all) :
    (store.count r = 1 ∧ ∀ h, held h ≠ some r) ∨ (store.count r = 0 ∧ ∃! h, held h = some r) := by
  cases howner : owner r with
  | none =>
      refine Or.inl ⟨?_, fun h hheld => ?_⟩
      · rw [hs.stored, if_pos ⟨hr, howner⟩]
      · have := ((hs.held h r).1 hheld).2
        rw [howner] at this
        cases this
  | some h =>
      refine Or.inr ⟨?_, h, (hs.held h r).2 ⟨hr, howner⟩, fun h' hheld => ?_⟩
      · rw [hs.stored, if_neg]
        rintro ⟨-, hnone⟩
        rw [howner] at hnone
        cases hnone
      · have := ((hs.held h' r).1 hheld).2
        rw [howner] at this
        exact (Option.some.inj this).symm

/-- Two holders do not hold one resource. -/
theorem held_unique (hs : Custody all store held owner) {r : R} {h h' : H}
    (hh : held h = some r) (hh' : held h' = some r) : h = h' :=
  Option.some.inj (((hs.held h r).1 hh).2.symm.trans ((hs.held h' r).1 hh').2)

/-- At the start everything is in the store. -/
theorem start (hcount : ∀ r, store.count r = if r ∈ all then 1 else 0)
    (hheld : ∀ h, held h = none) : Custody all store held fun _ => none := by
  constructor
  · intro r
    rw [hcount]
    simp only [and_true]
  · intro h r
    rw [hheld]
    exact ⟨fun h => (nomatch h), fun h => nomatch h.2⟩

/-- A holder with nothing takes the resource at the front. -/
theorem take [DecidableEq H] {h : H} {r : R} (hs : Custody all (r :: store) held owner)
    (hnone : held h = none) :
    Custody all store (Function.update held h (some r)) (Function.update owner r (some h)) := by
  have hr : r ∈ all ∧ owner r = none := hs.mem_store.1 List.mem_cons_self
  constructor
  · intro x
    have hcount := hs.stored x
    rw [List.count_cons] at hcount
    rcases eq_or_ne x r with rfl | hne
    · rw [if_pos hr, if_pos (beq_self_eq_true x)] at hcount
      rw [Function.update_self, if_neg fun h => nomatch h.2]
      omega
    · have hother : ¬(r == x) = true := by simpa using hne.symm
      rw [if_neg hother] at hcount
      rw [Function.update_of_ne hne]
      exact hcount
  · intro g x
    rcases eq_or_ne g h with rfl | hg
    · rw [Function.update_self]
      rcases eq_or_ne x r with rfl | hne
      · rw [Function.update_self]
        exact ⟨fun _ => ⟨hr.1, rfl⟩, fun _ => rfl⟩
      · rw [Function.update_of_ne hne, ← hs.held, hnone]
        exact ⟨fun hx => absurd (Option.some.inj hx).symm hne, fun hx => nomatch hx⟩
    · rw [Function.update_of_ne hg, hs.held]
      rcases eq_or_ne x r with rfl | hne
      · rw [Function.update_self, hr.2]
        exact ⟨fun hx => (nomatch hx.2), fun hx => absurd (Option.some.inj hx.2).symm hg⟩
      · rw [Function.update_of_ne hne]

/-- A holder gives its resource back. -/
theorem giveBack [DecidableEq H] {h : H} {r : R} (hs : Custody all store held owner)
    (hheld : held h = some r) :
    Custody all (store ++ [r]) (Function.update held h none) (Function.update owner r none) := by
  -- `r` is one of the resources, and `h` its owner
  have hr : r ∈ all ∧ owner r = some h := (hs.held h r).1 hheld
  constructor
  · intro x
    have hcount := hs.stored x
    rw [List.count_append, hcount, List.count_singleton]
    rcases eq_or_ne x r with rfl | hne
    · rw [Function.update_self, if_neg, if_pos (beq_self_eq_true x), if_pos ⟨hr.1, rfl⟩]
      rintro ⟨-, hnone⟩
      rw [hr.2] at hnone
      cases hnone
    · have hother : ¬(r == x) = true := by simpa using hne.symm
      rw [Function.update_of_ne hne, if_neg hother, Nat.add_zero]
  · intro g x
    rcases eq_or_ne g h with rfl | hg
    · rw [Function.update_self]
      refine ⟨fun hx => (nomatch hx), ?_⟩
      rintro ⟨hx, howner⟩
      rcases eq_or_ne x r with rfl | hne
      · rw [Function.update_self] at howner
        cases howner
      · -- `g` would hold two resources
        rw [Function.update_of_ne hne] at howner
        have := (hs.held g x).2 ⟨hx, howner⟩
        rw [hheld] at this
        exact absurd (Option.some.inj this).symm hne
    · rw [Function.update_of_ne hg, hs.held]
      rcases eq_or_ne x r with rfl | hne
      · rw [Function.update_self, hr.2]
        exact ⟨fun hx => absurd (Option.some.inj hx.2).symm hg, fun hx => nomatch hx.2⟩
      · rw [Function.update_of_ne hne]

/-- A holder passes on what it holds to one that holds nothing. -/
theorem passOn [DecidableEq H] {src dst : H} (hs : Custody all store held owner)
    (hne : dst ≠ src) (hnone : held dst = none) :
    Custody all store (Function.update (Function.update held dst (held src)) src none)
      fun r => if owner r = some src then some dst else owner r := by
  constructor
  · intro x
    rw [hs.stored]
    split
    case isTrue hx => rw [if_pos ⟨hx.1, by rw [hx.2]; rfl⟩]
    case isFalse hx =>
      rw [if_neg]
      rintro ⟨hall, howner⟩
      split at howner
      · cases howner
      · exact hx ⟨hall, howner⟩
  · intro g x
    -- the source holds nothing any more, the destination what the source held
    rcases eq_or_ne g src with rfl | hg
    · rw [Function.update_self]
      refine ⟨fun hx => (nomatch hx), ?_⟩
      rintro ⟨-, howner⟩
      split at howner
      · exact absurd (Option.some.inj howner) hne
      case isFalse hx => exact absurd howner hx
    · rw [Function.update_of_ne hg]
      rcases eq_or_ne g dst with rfl | hg'
      · rw [Function.update_self, hs.held]
        refine and_congr_right fun hx => ?_
        constructor
        · intro howner
          rw [if_pos howner]
        · intro howner
          split at howner
          case isTrue h => exact h
          case isFalse =>
            have := (hs.held g x).2 ⟨hx, howner⟩
            rw [hnone] at this
            cases this
      · rw [Function.update_of_ne hg', hs.held]
        refine and_congr_right fun hx => ?_
        constructor
        · intro howner
          rw [if_neg, howner]
          rw [howner]
          exact fun h => hg (Option.some.inj h)
        · intro howner
          split at howner
          · exact absurd (Option.some.inj howner).symm hg'
          · exact howner

end Custody
