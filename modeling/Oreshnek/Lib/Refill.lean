import Mathlib

/-!
# Budgets that refill with time

A machine takes steps at points in time, and each of them may spend something. A `Budget` gives
the machine a level at every time: a step lowers it by what it spends, with time it grows no
faster than the rate, and it stays between zero and the cap. Steps between two points in time
then spend no more than the cap and what is refilled from the one to the other (`spent_le`).
-/

namespace Refill

variable {σ ι K : Type*} [Field K] [LinearOrder K] [IsStrictOrderedRing K]

structure Machine (σ ι K : Type*) where
  step : σ → K → ι → σ
  cost : σ → K → ι → K

/-- Steps at times that do not go back. -/
def Ordered (steps : List (K × ι)) : Prop := steps.Pairwise fun a b => a.1 ≤ b.1

/-- What the steps at the times from `start` to `stop` spend. -/
def Machine.spent (m : Machine σ ι K) (start stop : K) : σ → List (K × ι) → K
  | _, [] => 0
  | s, (t, i) :: steps =>
      (if start ≤ t ∧ t ≤ stop then m.cost s t i else 0) + m.spent start stop (m.step s t i) steps

/-- A level that bounds what can be spent. -/
structure Budget (m : Machine σ ι K) (rate cap : K) where
  inv : σ → K → Prop
  level : σ → K → K
  rate_nonneg : 0 ≤ rate
  inv_later : ∀ {s t t'}, inv s t → t ≤ t' → inv s t'
  inv_step : ∀ {s t i}, inv s t → inv (m.step s t i) t
  nonneg : ∀ {s t}, inv s t → 0 ≤ level s t
  le_cap : ∀ {s t}, inv s t → level s t ≤ cap
  refills : ∀ {s t t'}, inv s t → t ≤ t' → level s t' ≤ level s t + rate * (t' - t)
  spends : ∀ {s t i}, inv s t → level (m.step s t i) t + m.cost s t i ≤ level s t

section

variable {m : Machine σ ι K} {rate cap start stop : K}

omit [Field K] [IsStrictOrderedRing K] in
theorem Ordered.cons {t : K} {i : ι} {steps : List (K × ι)} (h : Ordered ((t, i) :: steps)) :
    (∀ e ∈ steps, t ≤ e.1) ∧ Ordered steps := List.pairwise_cons.1 h

omit [IsStrictOrderedRing K] in
/-- Behind the end nothing counts. -/
theorem spent_after {s : σ} {steps : List (K × ι)} (h : ∀ e ∈ steps, stop < e.1) :
    m.spent start stop s steps = 0 := by
  induction steps generalizing s with
  | nil => rfl
  | cons e steps ih =>
      obtain ⟨t, i⟩ := e
      have hlate : ¬ (start ≤ t ∧ t ≤ stop) := fun hin =>
        absurd hin.2 (not_le.2 (h _ List.mem_cons_self))
      unfold Machine.spent
      rw [if_neg hlate, zero_add]
      exact ih fun e he => h e (List.mem_cons_of_mem _ he)

/-- From a time in the window on, the steps spend what there is and what is refilled. -/
theorem Budget.spent_le_level (b : Budget m rate cap) {s : σ} {t : K} {steps : List (K × ι)}
    (hordered : Ordered steps) (hfrom : ∀ e ∈ steps, t ≤ e.1) (hinv : b.inv s t)
    (hstart : start ≤ t) (hstop : t ≤ stop) :
    m.spent start stop s steps ≤ b.level s t + rate * (stop - t) := by
  have hrefill := mul_nonneg b.rate_nonneg (sub_nonneg.2 hstop)
  induction steps generalizing s t with
  | nil => exact add_nonneg (b.nonneg hinv) hrefill
  | cons e steps ih =>
      obtain ⟨t', i⟩ := e
      obtain ⟨hlater, hrest⟩ := hordered.cons
      have hle : t ≤ t' := hfrom _ List.mem_cons_self
      by_cases hin : t' ≤ stop
      · have hinv' := b.inv_later hinv hle
        have hgrown := b.refills hinv hle
        have hspent := b.spends (i := i) hinv'
        have htail := ih hrest hlater (b.inv_step (i := i) hinv') (hstart.trans hle) hin
          (mul_nonneg b.rate_nonneg (sub_nonneg.2 hin))
        unfold Machine.spent
        rw [if_pos ⟨hstart.trans hle, hin⟩]
        calc m.cost s t' i + m.spent start stop (m.step s t' i) steps
            ≤ m.cost s t' i + (b.level (m.step s t' i) t' + rate * (stop - t')) := by gcongr
          _ ≤ b.level s t' + rate * (stop - t') := by linarith
          _ ≤ b.level s t + rate * (t' - t) + rate * (stop - t') := by gcongr
          _ = b.level s t + rate * (stop - t) := by ring
      · -- the step comes after the end, and so do all that follow
        have hafter : ∀ e ∈ (t', i) :: steps, stop < e.1 := by
          intro e he
          rcases List.mem_cons.1 he with rfl | he
          · exact not_le.1 hin
          · exact lt_of_lt_of_le (not_le.1 hin) (hlater e he)
        rw [spent_after hafter]
        exact add_nonneg (b.nonneg hinv) hrefill

/-- **In every window** the steps spend at most the cap and what the window refills. -/
theorem Budget.spent_le (b : Budget m rate cap) {s : σ} {t : K} {steps : List (K × ι)}
    (hordered : Ordered steps) (hfrom : ∀ e ∈ steps, t ≤ e.1) (hinv : b.inv s t)
    (hwindow : start ≤ stop) : m.spent start stop s steps ≤ cap + rate * (stop - start) := by
  have hcap : 0 ≤ cap := (b.nonneg hinv).trans (b.le_cap hinv)
  have hrefill := mul_nonneg b.rate_nonneg (sub_nonneg.2 hwindow)
  induction steps generalizing s t with
  | nil => exact add_nonneg hcap hrefill
  | cons e steps ih =>
      obtain ⟨t', i⟩ := e
      obtain ⟨hlater, hrest⟩ := hordered.cons
      have hinv' := b.inv_later hinv (hfrom _ List.mem_cons_self)
      by_cases hbefore : t' < start
      · unfold Machine.spent
        rw [if_neg fun hin => absurd hin.1 (not_le.2 hbefore), zero_add]
        exact ih hrest hlater (b.inv_step (i := i) hinv')
      have hstart : start ≤ t' := not_lt.1 hbefore
      by_cases hin : t' ≤ stop
      · -- the first step in the window finds no more than the cap
        have hfirst := b.spent_le_level hordered
          (by
            intro e he
            rcases List.mem_cons.1 he with rfl | he
            · exact le_refl _
            · exact hlater e he) hinv' hstart hin
        have hless : rate * (stop - t') ≤ rate * (stop - start) :=
          mul_le_mul_of_nonneg_left (by linarith) b.rate_nonneg
        exact hfirst.trans (add_le_add (b.le_cap hinv') hless)
      · have hafter : ∀ e ∈ (t', i) :: steps, stop < e.1 := by
          intro e he
          rcases List.mem_cons.1 he with rfl | he
          · exact not_le.1 hin
          · exact lt_of_lt_of_le (not_le.1 hin) (hlater e he)
        rw [spent_after hafter]
        exact add_nonneg hcap hrefill

/-! ## Exact levels -/

/-- The state behind the steps. -/
def Machine.run (m : Machine σ ι K) : σ → List (K × ι) → σ
  | s, [] => s
  | s, (t, i) :: steps => m.run (m.step s t i) steps

/-- A budget whose level is lost in no other way: it grows at the rate up to the cap, and a
step takes just what it costs. -/
structure TightBudget (m : Machine σ ι K) (rate cap : K) extends Budget m rate cap where
  grows : ∀ {s t t'}, inv s t → t ≤ t' → level s t' = min cap (level s t + rate * (t' - t))
  takes : ∀ {s t i}, inv s t → level (m.step s t i) t + m.cost s t i = level s t

omit [IsStrictOrderedRing K] in
/-- In a window that holds all the steps, what is spent does not depend on its start. -/
theorem spent_start {start' : K} {s : σ} {steps : List (K × ι)} (h : ∀ e ∈ steps, start ≤ e.1)
    (h' : ∀ e ∈ steps, start' ≤ e.1) :
    m.spent start stop s steps = m.spent start' stop s steps := by
  induction steps generalizing s with
  | nil => rfl
  | cons e steps ih =>
      rcases e with ⟨t, i⟩
      have hstart : start ≤ t := h _ List.mem_cons_self
      have hstart' : start' ≤ t := h' _ List.mem_cons_self
      have hrest := ih (s := m.step s t i) (fun e he => h e (List.mem_cons_of_mem _ he))
        (fun e he => h' e (List.mem_cons_of_mem _ he))
      unfold Machine.spent
      rw [hrest]
      simp only [hstart, hstart', true_and]

/-- What is left, from some level on: what there was and has been refilled, as far as no later
window leaves less. -/
theorem TightBudget.le_level_from (b : TightBudget m rate cap) {s : σ} {t now c : K}
    {steps : List (K × ι)} (hordered : Ordered steps) (hfrom : ∀ e ∈ steps, t ≤ e.1)
    (hto : ∀ e ∈ steps, e.1 ≤ now) (hnow : t ≤ now) (hinv : b.inv s t) :
    c ≤ b.level (m.run s steps) now ↔
      m.spent t now s steps + c ≤ b.level s t + rate * (now - t) ∧
        ∀ start, t < start → start ≤ now →
          m.spent start now s steps + c ≤ cap + rate * (now - start) := by
  have hcap := b.le_cap hinv
  induction steps generalizing s t with
  | nil =>
      have hrefill := mul_nonneg b.rate_nonneg (sub_nonneg.2 hnow)
      show c ≤ b.level s now ↔ _
      rw [b.grows hinv hnow, le_min_iff]
      show _ ↔ 0 + c ≤ _ ∧ ∀ start, t < start → start ≤ now → 0 + c ≤ _
      simp only [zero_add]
      constructor
      · rintro ⟨hfull, hleft⟩
        refine ⟨hleft, fun start _ hstart => ?_⟩
        exact hfull.trans (le_add_of_nonneg_right (mul_nonneg b.rate_nonneg (sub_nonneg.2 hstart)))
      · rintro ⟨hleft, hall⟩
        refine ⟨?_, hleft⟩
        rcases eq_or_lt_of_le hnow with rfl | hlt
        · rw [sub_self, mul_zero, add_zero] at hleft
          exact hleft.trans hcap
        · have hend := hall now hlt le_rfl
          rwa [sub_self, mul_zero, add_zero] at hend
  | cons e steps ih =>
      rcases e with ⟨t', i⟩
      rcases hordered.cons with ⟨hlater, hrest⟩
      have hle : t ≤ t' := hfrom _ List.mem_cons_self
      have hin : t' ≤ now := hto _ List.mem_cons_self
      have hinv' := b.inv_later hinv hle
      have hto' : ∀ e ∈ steps, e.1 ≤ now := fun e he => hto e (List.mem_cons_of_mem _ he)
      have hnext := b.inv_step (i := i) hinv'
      have htail := ih hrest hlater hto' hin hnext (b.le_cap hnext)
      have htaken := b.takes (i := i) hinv'
      have hgrown := b.grows hinv hle
      -- a window that begins before the step holds all of them
      have hall : ∀ start, start ≤ t' → m.spent start now s ((t', i) :: steps) =
          m.cost s t' i + m.spent t' now (m.step s t' i) steps := by
        intro start hstart
        have hsame : m.spent start now (m.step s t' i) steps =
            m.spent t' now (m.step s t' i) steps :=
          spent_start (fun e he => hstart.trans (hlater e he)) hlater
        show (if start ≤ t' ∧ t' ≤ now then m.cost s t' i else 0) + _ = _
        rw [if_pos ⟨hstart, hin⟩, hsame]
      have hskip : ∀ start, t' < start → m.spent start now s ((t', i) :: steps) =
          m.spent start now (m.step s t' i) steps := by
        intro start hstart
        show (if start ≤ t' ∧ t' ≤ now then m.cost s t' i else 0) + _ = _
        rw [if_neg fun h => absurd h.1 (not_le.2 hstart), zero_add]
      refine htail.trans ?_
      rw [hall t hle]
      have hlevel : m.spent t' now (m.step s t' i) steps + c ≤
            b.level (m.step s t' i) t' + rate * (now - t') ↔
          m.cost s t' i + m.spent t' now (m.step s t' i) steps + c ≤ cap + rate * (now - t') ∧
            m.cost s t' i + m.spent t' now (m.step s t' i) steps + c ≤
              b.level s t + rate * (now - t) := by
        have hmin : m.spent t' now (m.step s t' i) steps + c ≤
              b.level (m.step s t' i) t' + rate * (now - t') ↔
            m.cost s t' i + m.spent t' now (m.step s t' i) steps + c - rate * (now - t') ≤
              min cap (b.level s t + rate * (t' - t)) := by
          rw [← hgrown, ← htaken]
          constructor <;> intro h <;> linarith
        rw [hmin, le_min_iff]
        constructor
        · rintro ⟨hone, htwo⟩
          constructor <;> linarith
        · rintro ⟨hone, htwo⟩
          constructor <;> linarith
      rw [hlevel]
      constructor
      · rintro ⟨⟨hfirst, hstart⟩, hwindows⟩
        refine ⟨hstart, fun start hafter hend => ?_⟩
        rcases le_or_gt start t' with hbefore | hbehind
        · have hmore : rate * (now - t') ≤ rate * (now - start) :=
            mul_le_mul_of_nonneg_left (by linarith) b.rate_nonneg
          rw [hall start hbefore]
          linarith
        · rw [hskip start hbehind]
          exact hwindows start hbehind hend
      · rintro ⟨hstart, hwindows⟩
        refine ⟨⟨?_, hstart⟩, fun start hafter hend => ?_⟩
        · rcases eq_or_lt_of_le hle with rfl | hlt
          · linarith
          · rw [← hall t' le_rfl]
            exact hwindows t' hlt hin
        · rw [← hskip start hafter]
          exact hwindows start (hle.trans_lt hafter) hend

/-- **The level is the least that a window leaves.** From a full level on, `c` is left at a time
just when no window up to then has spent more than the cap less `c` and what it refills. -/
theorem TightBudget.le_level_iff (b : TightBudget m rate cap) {s : σ} {t now c : K}
    {steps : List (K × ι)} (hordered : Ordered steps) (hfrom : ∀ e ∈ steps, t ≤ e.1)
    (hto : ∀ e ∈ steps, e.1 ≤ now) (hnow : t ≤ now) (hinv : b.inv s t) (hfull : b.level s t = cap) :
    c ≤ b.level (m.run s steps) now ↔
      ∀ start ≤ now, m.spent start now s steps + c ≤ cap + rate * (now - start) := by
  rw [b.le_level_from hordered hfrom hto hnow hinv, hfull]
  constructor
  · rintro ⟨hall, hwindows⟩ start hstart
    rcases le_or_gt start t with hbefore | hbehind
    · have hmore : rate * (now - t) ≤ rate * (now - start) :=
        mul_le_mul_of_nonneg_left (by linarith) b.rate_nonneg
      rw [spent_start (fun e he => hbefore.trans (hfrom e he)) hfrom]
      linarith
    · exact hwindows start hbehind hstart
  · intro hwindows
    exact ⟨hwindows t hnow, fun start _ hstart => hwindows start hstart⟩

end

end Refill
