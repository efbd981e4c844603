import Mathlib

/-!
# Runs of a labelled transition system

A system has start states and a partial step function on labelled states.
`Reached ok` are the states at the end of runs whose steps all meet the condition
`ok`; without a condition these are the `Reachable` states. The rules say how an
invariant is carried along a run, and how a run is given by the list of its
labels.
-/

namespace Runs

variable {S A : Type*}

structure System (S A : Type*) where
  Start : S → Prop
  step : S → A → Option S

/-- The end states of runs whose steps meet `ok`. -/
inductive Reached (Y : System S A) (ok : S → A → Prop) : S → Prop where
  | start {s : S} (h : Y.Start s) : Reached Y ok s
  | step {s s' : S} {a : A} (h : Reached Y ok s) (hok : ok s a) (hstep : Y.step s a = some s') :
      Reached Y ok s'

/-- The end states of all runs. -/
def Reachable (Y : System S A) : S → Prop := Reached Y fun _ _ => True

variable {Y : System S A} {ok ok' : S → A → Prop}

theorem Reached.mono (himp : ∀ s a, ok s a → ok' s a) {s : S} (h : Reached Y ok s) :
    Reached Y ok' s := by
  induction h with
  | start h => exact Reached.start h
  | step _ hok hstep ih => exact Reached.step ih (himp _ _ hok) hstep

theorem Reached.reachable {s : S} (h : Reached Y ok s) : Reachable Y s :=
  h.mono fun _ _ _ => trivial

theorem Reachable.step {s s' : S} {a : A} (h : Reachable Y s) (hstep : Y.step s a = some s') :
    Reachable Y s' :=
  Reached.step h trivial hstep

/-- An invariant holds at the start and is kept by every step that meets the
condition; the step may use that its source is reached. -/
theorem Reached.invariant {P : S → Prop} (hstart : ∀ s, Y.Start s → P s)
    (hstep : ∀ s a s', Reached Y ok s → P s → ok s a → Y.step s a = some s' → P s') {s : S}
    (h : Reached Y ok s) : P s := by
  induction h with
  | start h => exact hstart _ h
  | step h hok hs ih => exact hstep _ _ _ h ih hok hs

theorem Reachable.invariant {P : S → Prop} (hstart : ∀ s, Y.Start s → P s)
    (hstep : ∀ s a s', Reachable Y s → P s → Y.step s a = some s' → P s') {s : S}
    (h : Reachable Y s) : P s :=
  Reached.invariant hstart (fun s a s' hs hP _ hstep' => hstep s a s' hs hP hstep') h

/-- The state after a list of labels. -/
def System.run (Y : System S A) : S → List A → Option S
  | s, [] => some s
  | s, a :: as => (Y.step s a).bind fun s' => Y.run s' as

/-- A run leads from a reachable state to a reachable state. -/
theorem reachable_of_run {s s' : S} {as : List A} (h : Reachable Y s)
    (hrun : Y.run s as = some s') : Reachable Y s' := by
  induction as generalizing s with
  | nil =>
      cases hrun
      exact h
  | cons a as ih =>
      rcases Option.bind_eq_some_iff.1 hrun with ⟨t, hstep, hrest⟩
      exact ih (h.step hstep) hrest

/-- Labels that meet the condition in any state. -/
theorem reached_of_run {s s' : S} {as : List A} (h : Reached Y ok s)
    (hok : ∀ a ∈ as, ∀ s, ok s a) (hrun : Y.run s as = some s') : Reached Y ok s' := by
  induction as generalizing s with
  | nil =>
      cases hrun
      exact h
  | cons a as ih =>
      rcases Option.bind_eq_some_iff.1 hrun with ⟨t, hstep, hrest⟩
      have hnext := h.step (hok a List.mem_cons_self s) hstep
      exact ih hnext (fun b hb => hok b (List.mem_cons_of_mem a hb)) hrest

/-- The state after a list of labels, when all the steps meet a condition. -/
def System.runIf (Y : System S A) (cond : S → A → Bool) : S → List A → Option S
  | s, [] => some s
  | s, a :: as =>
      if cond s a then (Y.step s a).bind fun s' => Y.runIf cond s' as else none

/-- A conditional run leads from a reached state to a reached state. -/
theorem reached_of_runIf {cond : S → A → Bool} {s s' : S} {as : List A}
    (h : Reached Y (fun s a => cond s a = true) s) (hrun : Y.runIf cond s as = some s') :
    Reached Y (fun s a => cond s a = true) s' := by
  induction as generalizing s with
  | nil =>
      cases hrun
      exact h
  | cons a as ih =>
      unfold System.runIf at hrun
      split at hrun
      next hcond =>
        rcases Option.bind_eq_some_iff.1 hrun with ⟨t, hstep, hrest⟩
        exact ih (h.step hcond hstep) hrest
      · cases hrun

/-- The same, for labels that meet another condition in any state. -/
theorem reached_of_runIf_and {cond : S → A → Bool} {s s' : S} {as : List A}
    (h : Reached Y (fun s a => ok s a ∧ cond s a = true) s) (hok : ∀ a ∈ as, ∀ s, ok s a)
    (hrun : Y.runIf cond s as = some s') :
    Reached Y (fun s a => ok s a ∧ cond s a = true) s' := by
  induction as generalizing s with
  | nil =>
      cases hrun
      exact h
  | cons a as ih =>
      unfold System.runIf at hrun
      split at hrun
      next hcond =>
        rcases Option.bind_eq_some_iff.1 hrun with ⟨t, hstep, hrest⟩
        have hnext := h.step ⟨hok a List.mem_cons_self s, hcond⟩ hstep
        exact ih hnext (fun b hb => hok b (List.mem_cons_of_mem a hb)) hrest
      · cases hrun

end Runs
