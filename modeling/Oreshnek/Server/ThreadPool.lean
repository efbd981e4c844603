import Oreshnek.Lib.Runs

/-!
# The thread pool

`ThreadPool` as a transition system: calls of `enqueue`, the loop of each worker
and calls of `shutdown`, one after the other. A section under the mutex is one
step, and so is a notification. A worker that finds nothing to do sleeps until it
is notified or wakes up by itself. Tasks are named by the numbers of the `enqueue`
calls that bring them; what they throw stays in their `packaged_task`.

`pool_orderly` says that no task is lost, duplicated or overtaken, and that a
`shutdown` comes to its end with every task finished.
-/

namespace Oreshnek.ThreadPool

/-! ## State -/

/-- Where a worker is in its loop. -/
inductive WorkerState where
  /-- Before it locks the mutex and looks at the queue. -/
  | checking
  /-- In `condition_.wait`. -/
  | sleeping
  /-- It has taken a task from the queue. -/
  | holding (task : Nat)
  /-- It runs the task. -/
  | running (task : Nat)
  | exited
deriving DecidableEq

/-- Where a call of `shutdown` is. -/
inductive ShutdownPhase where
  /-- `stop_` is set. -/
  | notifying
  /-- In the loop over the workers, before this one. -/
  | joining (k : Nat)
deriving DecidableEq

structure Pool (n : Nat) where
  stop : Bool
  tasks : List Nat
  workers : Fin n → WorkerState
  /-- `joinable()` is false. -/
  joined : Fin n → Bool
  phase : Option ShutdownPhase
  /-- `enqueue` calls that have put their task and not notified yet. -/
  notifies : Nat
  /-- The number of the next `enqueue` call. -/
  calls : Nat
  /-- What has happened: calls that have put a task, calls that have thrown, and
  the tasks taken, begun and finished, each in this order. -/
  accepted : List Nat
  threw : List Nat
  dequeued : List Nat
  started : List Nat
  finished : List Nat
  /-- A call of `shutdown` has returned. -/
  returned : Bool

/-- `ThreadPool(threads)`: at least one thread. -/
def threadCount (threads : Nat) : Nat := if threads = 0 then 1 else threads

theorem threadCount_pos (threads : Nat) : 0 < threadCount threads := by
  unfold threadCount
  split
  · decide
  · omega

variable {n : Nat}

/-- The pool just made. -/
def start (n : Nat) : Pool n where
  stop := false
  tasks := []
  workers := fun _ => .checking
  joined := fun _ => false
  phase := none
  notifies := 0
  calls := 0
  accepted := []
  threw := []
  dequeued := []
  started := []
  finished := []
  returned := false

/-! ## Steps -/

inductive Act (n : Nat) where
  /-- The locked section of `enqueue`. -/
  | enqueue
  /-- Its `notify_one`, which wakes this worker. -/
  | notifyOne (woken : Option (Fin n))
  /-- A spurious wake-up. -/
  | wake (w : Fin n)
  /-- The locked section of a worker. -/
  | check (w : Fin n)
  | begin (w : Fin n)
  | finish (w : Fin n)
  /-- The locked section of `shutdown`. -/
  | shutdown
  | notifyAll
  /-- The next worker is joined, or `shutdown` returns. -/
  | join
deriving DecidableEq

namespace Pool

def setWorker (s : Pool n) (w : Fin n) (state : WorkerState) : Pool n :=
  { s with workers := Function.update s.workers w state }

/-- The locked section of `enqueue`. -/
def enqueue (s : Pool n) : Pool n :=
  if s.stop then { s with calls := s.calls + 1, threw := s.threw ++ [s.calls] }
  else
    { s with
      calls := s.calls + 1
      tasks := s.tasks ++ [s.calls]
      accepted := s.accepted ++ [s.calls]
      notifies := s.notifies + 1 }

/-- The locked section of a worker. -/
def check (s : Pool n) (w : Fin n) : Pool n :=
  if s.stop ∧ s.tasks = [] then s.setWorker w .exited
  else
    match s.tasks with
    | [] => s.setWorker w .sleeping
    | task :: rest =>
        { s.setWorker w (.holding task) with
          tasks := rest
          dequeued := s.dequeued ++ [task] }

/-- A sleeping worker looks at the queue again. -/
def awaken : WorkerState → WorkerState
  | .sleeping => .checking
  | state => state

/-- One round of the loop over the workers; `none` while the worker has not
exited. -/
def join (s : Pool n) (k : Nat) : Option (Pool n) :=
  if h : k < n then
    if s.joined ⟨k, h⟩ then some { s with phase := some (.joining (k + 1)) }
    else if s.workers ⟨k, h⟩ = .exited then
      some { s with
        joined := Function.update s.joined ⟨k, h⟩ true
        phase := some (.joining (k + 1)) }
    else none
  else some { s with phase := none, returned := true }

end Pool

/-- A step that is not possible is not defined. -/
def step (s : Pool n) : Act n → Option (Pool n)
  | .enqueue => some s.enqueue
  | .notifyOne woken =>
      if s.notifies = 0 then none
      else
        match woken with
        | some w =>
            if s.workers w = .sleeping then
              some { s.setWorker w .checking with notifies := s.notifies - 1 }
            else none
        | none =>
            if ∃ w, s.workers w = .sleeping then none
            else some { s with notifies := s.notifies - 1 }
  | .wake w => if s.workers w = .sleeping then some (s.setWorker w .checking) else none
  | .check w => if s.workers w = .checking then some (s.check w) else none
  | .begin w =>
      match s.workers w with
      | .holding task =>
          some { s.setWorker w (.running task) with started := s.started ++ [task] }
      | _ => none
  | .finish w =>
      match s.workers w with
      | .running task =>
          some { s.setWorker w .checking with finished := s.finished ++ [task] }
      | _ => none
  | .shutdown =>
      if s.phase = none then some { s with stop := true, phase := some .notifying } else none
  | .notifyAll =>
      if s.phase = some .notifying then
        some { s with
          workers := fun w => Pool.awaken (s.workers w)
          phase := some (.joining 0) }
      else none
  | .join =>
      match s.phase with
      | some (.joining k) => s.join k
      | _ => none

/-- A pool of this many threads. -/
def system (n : Nat) : Runs.System (Pool n) (Act n) where
  Start s := s = start n
  step := step

/-! ## What a step can do -/

inductive Moves (s : Pool n) : Act n → Pool n → Prop where
  | refused (hstop : s.stop = true) :
      Moves s .enqueue { s with calls := s.calls + 1, threw := s.threw ++ [s.calls] }
  | accepted (hstop : s.stop = false) :
      Moves s .enqueue
        { s with
          calls := s.calls + 1
          tasks := s.tasks ++ [s.calls]
          accepted := s.accepted ++ [s.calls]
          notifies := s.notifies + 1 }
  | notified (w : Fin n) (hnotifies : 0 < s.notifies) (hw : s.workers w = .sleeping) :
      Moves s (.notifyOne (some w)) { s.setWorker w .checking with notifies := s.notifies - 1 }
  | unheard (hnotifies : 0 < s.notifies) :
      Moves s (.notifyOne none) { s with notifies := s.notifies - 1 }
  | woken (w : Fin n) (hw : s.workers w = .sleeping) : Moves s (.wake w) (s.setWorker w .checking)
  | retires (w : Fin n) (hw : s.workers w = .checking) (hstop : s.stop = true)
      (htasks : s.tasks = []) : Moves s (.check w) (s.setWorker w .exited)
  | sleeps (w : Fin n) (hw : s.workers w = .checking) (hstop : s.stop = false)
      (htasks : s.tasks = []) : Moves s (.check w) (s.setWorker w .sleeping)
  | takes (w : Fin n) (task : Nat) (rest : List Nat) (hw : s.workers w = .checking)
      (htasks : s.tasks = task :: rest) :
      Moves s (.check w)
        { s.setWorker w (.holding task) with tasks := rest, dequeued := s.dequeued ++ [task] }
  | begins (w : Fin n) (task : Nat) (hw : s.workers w = .holding task) :
      Moves s (.begin w) { s.setWorker w (.running task) with started := s.started ++ [task] }
  | finishes (w : Fin n) (task : Nat) (hw : s.workers w = .running task) :
      Moves s (.finish w) { s.setWorker w .checking with finished := s.finished ++ [task] }
  | shuts (hphase : s.phase = none) :
      Moves s .shutdown { s with stop := true, phase := some .notifying }
  | notifiesAll (hphase : s.phase = some .notifying) :
      Moves s .notifyAll
        { s with workers := fun w => Pool.awaken (s.workers w), phase := some (.joining 0) }
  | skips (k : Nat) (h : k < n) (hphase : s.phase = some (.joining k))
      (hjoined : s.joined ⟨k, h⟩ = true) :
      Moves s .join { s with phase := some (.joining (k + 1)) }
  | joins (k : Nat) (h : k < n) (hphase : s.phase = some (.joining k))
      (hexited : s.workers ⟨k, h⟩ = .exited) :
      Moves s .join
        { s with
          joined := Function.update s.joined ⟨k, h⟩ true
          phase := some (.joining (k + 1)) }
  | returns (k : Nat) (hk : n ≤ k) (hphase : s.phase = some (.joining k)) :
      Moves s .join { s with phase := none, returned := true }

/-- A worker looks at the queue and changes nothing. -/
theorem moves_check {s : Pool n} {w : Fin n} (hw : s.workers w = .checking) :
    Moves s (.check w) (s.check w) := by
  unfold Pool.check
  split
  case isTrue h => exact Moves.retires w hw h.1 h.2
  case isFalse h =>
    cases htasks : s.tasks with
    | nil =>
        refine Moves.sleeps w hw ?_ htasks
        rw [← Bool.not_eq_true]
        exact fun hstop => h ⟨hstop, htasks⟩
    | cons task rest => exact Moves.takes w task rest hw htasks

/-- What a join does. -/
theorem moves_join {s s' : Pool n} {k : Nat} (hphase : s.phase = some (.joining k))
    (hjoin : s.join k = some s') : Moves s .join s' := by
  unfold Pool.join at hjoin
  split at hjoin
  case isTrue h =>
    split at hjoin
    case isTrue hjoined =>
      cases hjoin
      exact Moves.skips k h hphase hjoined
    case isFalse =>
      split at hjoin
      case isTrue hexited =>
        cases hjoin
        exact Moves.joins k h hphase hexited
      case isFalse => cases hjoin
  case isFalse h =>
    cases hjoin
    exact Moves.returns k (Nat.not_lt.1 h) hphase

/-- What a step of the pool can do, guards included. -/
theorem moves_of_step {s s' : Pool n} {a : Act n} (h : step s a = some s') : Moves s a s' := by
  cases a with
  | enqueue =>
      cases h
      unfold Pool.enqueue
      split
      case isTrue hstop => exact Moves.refused hstop
      case isFalse hstop => exact Moves.accepted (by simpa using hstop)
  | notifyOne woken =>
      simp only [step] at h
      split at h
      · cases h
      case isFalse hnotifies =>
        split at h
        · -- a worker is woken, or there is none to wake
          split at h
          case isTrue hw =>
            cases h
            exact Moves.notified _ (Nat.pos_of_ne_zero hnotifies) hw
          case isFalse => cases h
        · split at h
          · cases h
          · cases h
            exact Moves.unheard (Nat.pos_of_ne_zero hnotifies)
  | wake w =>
      simp only [step] at h
      split at h
      case isTrue hw =>
        cases h
        exact Moves.woken w hw
      case isFalse => cases h
  | check w =>
      simp only [step] at h
      split at h
      case isTrue hw =>
        cases h
        exact moves_check hw
      case isFalse => cases h
  | begin w =>
      simp only [step] at h
      split at h
      case h_1 task hw =>
        cases h
        exact Moves.begins w task hw
      case h_2 => cases h
  | finish w =>
      simp only [step] at h
      split at h
      case h_1 task hw =>
        cases h
        exact Moves.finishes w task hw
      case h_2 => cases h
  | shutdown =>
      simp only [step] at h
      split at h
      case isTrue hphase =>
        cases h
        exact Moves.shuts hphase
      case isFalse => cases h
  | notifyAll =>
      simp only [step] at h
      split at h
      case isTrue hphase =>
        cases h
        exact Moves.notifiesAll hphase
      case isFalse => cases h
  | join =>
      simp only [step] at h
      split at h
      case h_1 k hphase => exact moves_join hphase h
      case h_2 => cases h

/-! ## Tasks in the hands of the workers -/

/-- The task a worker has in hand. -/
def inHand : WorkerState → Multiset Nat
  | .holding task => {task}
  | .running task => {task}
  | _ => 0

/-- The task it is running. -/
def underWay : WorkerState → Multiset Nat
  | .running task => {task}
  | _ => 0

@[simp] theorem inHand_awaken (state : WorkerState) :
    inHand (Pool.awaken state) = inHand state := by
  cases state with
  | checking => rfl
  | sleeping => rfl
  | holding task => rfl
  | running task => rfl
  | exited => rfl

@[simp] theorem underWay_awaken (state : WorkerState) :
    underWay (Pool.awaken state) = underWay state := by
  cases state with
  | checking => rfl
  | sleeping => rfl
  | holding task => rfl
  | running task => rfl
  | exited => rfl

/-- A sum over the workers, when one of them changes. -/
theorem sum_update {M : Type*} [AddCommMonoid M] (f : WorkerState → M)
    (workers : Fin n → WorkerState) (w : Fin n) (state : WorkerState) :
    ∃ rest, ∑ x, f (workers x) = f (workers w) + rest ∧
      ∑ x, f (Function.update workers w state x) = f state + rest := by
  refine ⟨∑ x ∈ Finset.univ.erase w, f (workers x), ?_, ?_⟩
  · exact (Finset.add_sum_erase Finset.univ (fun x => f (workers x)) (Finset.mem_univ w)).symm
  · rw [← Finset.add_sum_erase Finset.univ _ (Finset.mem_univ w), Function.update_self]
    congr 1
    refine Finset.sum_congr rfl ?_
    intro x hx
    rw [Function.update_of_ne (Finset.ne_of_mem_erase hx)]

/-! ## The invariant -/

structure Inv (s : Pool n) : Prop where
  /-- The queue is what has been accepted and not taken. -/
  fifo : s.accepted = s.dequeued ++ s.tasks
  /-- Every call is recorded once. -/
  numbered : (s.accepted ++ s.threw).Nodup ∧ ∀ i ∈ s.accepted ++ s.threw, i < s.calls
  taken : (s.dequeued : Multiset Nat) = s.finished + ∑ w, inHand (s.workers w)
  begun : (s.started : Multiset Nat) = s.finished + ∑ w, underWay (s.workers w)
  stopping : s.phase ≠ none → s.stop = true
  exited : ∀ w, s.workers w = .exited → s.stop = true ∧ s.tasks = []
  joined : ∀ w, s.joined w = true → s.workers w = .exited
  joining : ∀ k, s.phase = some (.joining k) → k ≤ n ∧
    ∀ w : Fin n, (w < k → s.joined w = true) ∧ s.workers w ≠ .sleeping
  returned : s.returned = true → s.stop = true ∧ ∀ w, s.joined w = true

/-- The invariant holds at the start. -/
theorem inv_start : Inv (start n) := by
  constructor
  · rfl
  · exact ⟨List.nodup_nil, fun _ hi => absurd hi List.not_mem_nil⟩
  · simp [start, inHand]
  · simp [start, underWay]
  · exact fun h => absurd rfl h
  · exact fun w h => nomatch h
  · exact fun w h => nomatch h
  · exact fun k h => nomatch h
  · exact fun h => nomatch h

variable {s s' : Pool n} {a : Act n}

/-- A step keeps the order of the queue. -/
theorem Moves.fifo (h : Moves s a s') (hs : s.accepted = s.dequeued ++ s.tasks) :
    s'.accepted = s'.dequeued ++ s'.tasks := by
  cases h with
  | accepted hstop =>
      show s.accepted ++ [s.calls] = s.dequeued ++ (s.tasks ++ [s.calls])
      rw [hs, List.append_assoc]
  | takes w task rest hw htasks =>
      show s.accepted = s.dequeued ++ [task] ++ rest
      rw [hs, htasks, List.append_assoc]
      rfl
  | _ => exact hs

/-- Each call has a number of its own. -/
theorem Moves.numbered (h : Moves s a s')
    (hs : (s.accepted ++ s.threw).Nodup ∧ ∀ i ∈ s.accepted ++ s.threw, i < s.calls) :
    (s'.accepted ++ s'.threw).Nodup ∧ ∀ i ∈ s'.accepted ++ s'.threw, i < s'.calls := by
  -- the number of a new call is a new one
  have hnew : s.calls ∉ s.accepted ++ s.threw := fun hmem => Nat.lt_irrefl _ (hs.2 _ hmem)
  have hone : ∀ record : List Nat, record.Perm (s.calls :: (s.accepted ++ s.threw)) →
      record.Nodup ∧ ∀ i ∈ record, i < s.calls + 1 := by
    intro record hperm
    refine ⟨hperm.nodup_iff.2 (List.nodup_cons.2 ⟨hnew, hs.1⟩), ?_⟩
    intro i hi
    rcases List.mem_cons.1 (hperm.mem_iff.1 hi) with rfl | hi
    · exact Nat.lt_succ_self _
    · exact Nat.lt_succ_of_lt (hs.2 i hi)
  cases h with
  | refused hstop =>
      apply hone
      rw [← List.append_assoc]
      exact List.perm_append_singleton _ _
  | accepted hstop =>
      apply hone
      rw [List.append_assoc]
      exact List.perm_middle
  | _ => exact hs

/-- A step that changes one worker, and nothing of what `f` sees in it. -/
theorem sum_unchanged {M : Type*} [AddCommMonoid M] (f : WorkerState → M)
    {workers : Fin n → WorkerState} {w : Fin n} {state old : WorkerState}
    (hw : workers w = old) (hf : f state = f old) :
    ∑ x, f (Function.update workers w state x) = ∑ x, f (workers x) := by
  rcases sum_update f workers w state with ⟨rest, hold, hnew⟩
  rw [hold, hw, ← hf]
  exact hnew

/-- A log whose tasks are finished or seen by `f` at a worker. A worker gets one task more,
and the log with it. -/
theorem tally_gets {f : WorkerState → Multiset Nat} {log finished : List Nat}
    {workers : Fin n → WorkerState} (hs : (log : Multiset Nat) = finished + ∑ x, f (workers x))
    {w : Fin n} {state old : WorkerState} {task : Nat} (hw : workers w = old) (hold : f old = 0)
    (hnew : f state = {task}) :
    ((log ++ [task] : List Nat) : Multiset Nat) =
      finished + ∑ x, f (Function.update workers w state x) := by
  rcases sum_update f workers w state with ⟨others, hbefore, hafter⟩
  rw [hafter, ← Multiset.coe_add, hs, hbefore, hw, hold, hnew, Multiset.coe_singleton, zero_add,
    add_assoc, add_comm others]

/-- A worker has finished one. -/
theorem tally_gives {f : WorkerState → Multiset Nat} {log finished : List Nat}
    {workers : Fin n → WorkerState} (hs : (log : Multiset Nat) = finished + ∑ x, f (workers x))
    {w : Fin n} {state old : WorkerState} {task : Nat} (hw : workers w = old)
    (hold : f old = {task}) (hnew : f state = 0) :
    (log : Multiset Nat) =
      (finished ++ [task] : List Nat) + ∑ x, f (Function.update workers w state x) := by
  rcases sum_update f workers w state with ⟨others, hbefore, hafter⟩
  rw [hafter, ← Multiset.coe_add, hs, hbefore, hw, hold, hnew, Multiset.coe_singleton, zero_add,
    add_assoc]

/-- Each task that has been taken is finished or in the hands of one worker. -/
theorem Moves.taken (h : Moves s a s')
    (hs : (s.dequeued : Multiset Nat) = s.finished + ∑ w, inHand (s.workers w)) :
    (s'.dequeued : Multiset Nat) = s'.finished + ∑ w, inHand (s'.workers w) := by
  have hkeep : ∀ workers : Fin n → WorkerState,
      ∑ x, inHand (workers x) = ∑ x, inHand (s.workers x) →
      (s.dequeued : Multiset Nat) = s.finished + ∑ x, inHand (workers x) := by
    intro workers hsame
    rw [hsame]
    exact hs
  cases h with
  | notified w hnotifies hw => exact hkeep _ (sum_unchanged inHand hw rfl)
  | woken w hw => exact hkeep _ (sum_unchanged inHand hw rfl)
  | retires w hw hstop htasks => exact hkeep _ (sum_unchanged inHand hw rfl)
  | sleeps w hw hstop htasks => exact hkeep _ (sum_unchanged inHand hw rfl)
  | begins w task hw => exact hkeep _ (sum_unchanged inHand hw rfl)
  | takes w task rest hw htasks => exact tally_gets hs hw rfl rfl
  | finishes w task hw => exact tally_gives hs hw rfl rfl
  | notifiesAll hphase =>
      show (s.dequeued : Multiset Nat) = s.finished + ∑ x, inHand (Pool.awaken (s.workers x))
      simpa using hs
  | _ => exact hs

/-- Each task that has been started is finished or under way. -/
theorem Moves.begun (h : Moves s a s')
    (hs : (s.started : Multiset Nat) = s.finished + ∑ w, underWay (s.workers w)) :
    (s'.started : Multiset Nat) = s'.finished + ∑ w, underWay (s'.workers w) := by
  have hkeep : ∀ workers : Fin n → WorkerState,
      ∑ x, underWay (workers x) = ∑ x, underWay (s.workers x) →
      (s.started : Multiset Nat) = s.finished + ∑ x, underWay (workers x) := by
    intro workers hsame
    rw [hsame]
    exact hs
  cases h with
  | notified w hnotifies hw => exact hkeep _ (sum_unchanged underWay hw rfl)
  | woken w hw => exact hkeep _ (sum_unchanged underWay hw rfl)
  | retires w hw hstop htasks => exact hkeep _ (sum_unchanged underWay hw rfl)
  | sleeps w hw hstop htasks => exact hkeep _ (sum_unchanged underWay hw rfl)
  -- taken from the queue, a task is not under way yet
  | takes w task rest hw htasks => exact hkeep _ (sum_unchanged underWay hw rfl)
  | begins w task hw => exact tally_gets hs hw rfl rfl
  | finishes w task hw => exact tally_gives hs hw rfl rfl
  | notifiesAll hphase =>
      show (s.started : Multiset Nat) = s.finished + ∑ x, underWay (Pool.awaken (s.workers x))
      simpa using hs
  | _ => exact hs

/-! ### The parts about stopping -/

/-- A worker in a state that has not just been written was in it before. -/
theorem update_inv {workers : Fin n → WorkerState} {w x : Fin n} {state seen : WorkerState}
    (hx : Function.update workers w state x = seen) (hne : state ≠ seen) :
    workers x = seen := by
  rcases eq_or_ne x w with rfl | hxw
  · rw [Function.update_self] at hx
    exact absurd hx hne
  · rwa [Function.update_of_ne hxw] at hx

theorem awaken_exited {state : WorkerState} (h : Pool.awaken state = .exited) :
    state = .exited := by
  cases state with
  | exited => rfl
  | checking => cases h
  | sleeping => cases h
  | holding task => cases h
  | running task => cases h

theorem awaken_ne_sleeping (state : WorkerState) : Pool.awaken state ≠ .sleeping := by
  cases state with
  | checking => exact fun h => nomatch h
  | sleeping => exact fun h => nomatch h
  | holding task => exact fun h => nomatch h
  | running task => exact fun h => nomatch h
  | exited => exact fun h => nomatch h

/-- A step keeps `stop_` set while `shutdown` is under way. -/
theorem Moves.stopping (h : Moves s a s') (hs : s.phase ≠ none → s.stop = true) :
    s'.phase ≠ none → s'.stop = true := by
  cases h with
  | shuts hphase => exact fun _ => rfl
  | notifiesAll hphase => exact fun _ => hs (by rw [hphase]; exact Option.some_ne_none _)
  | skips k hk hphase hjoined => exact fun _ => hs (by rw [hphase]; exact Option.some_ne_none _)
  | joins k hk hphase hexited => exact fun _ => hs (by rw [hphase]; exact Option.some_ne_none _)
  | returns k hk hphase => exact fun h => absurd rfl h
  | _ => exact hs

/-- A worker has left only when the pool stops with an empty queue. -/
theorem Moves.exited (h : Moves s a s')
    (hs : ∀ w, s.workers w = .exited → s.stop = true ∧ s.tasks = []) :
    ∀ w, s'.workers w = .exited → s'.stop = true ∧ s'.tasks = [] := by
  intro x hx
  cases h with
  | accepted hstop =>
      -- nobody has exited yet, so the queue may grow
      have := (hs x hx).1
      rw [hstop] at this
      cases this
  | notified w hnotifies hw => exact hs x (update_inv hx fun h => nomatch h)
  | woken w hw => exact hs x (update_inv hx fun h => nomatch h)
  | retires w hw hstop htasks => exact ⟨hstop, htasks⟩
  | sleeps w hw hstop htasks => exact hs x (update_inv hx fun h => nomatch h)
  | takes w task rest hw htasks =>
      have hnil := (hs x (update_inv hx fun h => nomatch h)).2
      rw [htasks] at hnil
      cases hnil
  | begins w task hw => exact hs x (update_inv hx fun h => nomatch h)
  | finishes w task hw => exact hs x (update_inv hx fun h => nomatch h)
  | shuts hphase => exact ⟨rfl, (hs x hx).2⟩
  | notifiesAll hphase => exact hs x (awaken_exited hx)
  | _ => exact hs x hx

/-- A worker that has exited is not the one that changes. -/
theorem update_exited {workers : Fin n → WorkerState} {w x : Fin n} {state old : WorkerState}
    (hx : workers x = .exited) (hw : workers w = old) (hne : old ≠ .exited) :
    Function.update workers w state x = .exited := by
  have hxw : x ≠ w := by
    rintro rfl
    exact hne (hw.symm.trans hx)
  rwa [Function.update_of_ne hxw]

/-- A worker is joined only when it has left. -/
theorem Moves.joined (h : Moves s a s') (hs : ∀ w, s.joined w = true → s.workers w = .exited) :
    ∀ w, s'.joined w = true → s'.workers w = .exited := by
  intro x hx
  cases h with
  | notified w hnotifies hw => exact update_exited (hs x hx) hw fun h => nomatch h
  | woken w hw => exact update_exited (hs x hx) hw fun h => nomatch h
  | retires w hw hstop htasks => exact update_exited (hs x hx) hw fun h => nomatch h
  | sleeps w hw hstop htasks => exact update_exited (hs x hx) hw fun h => nomatch h
  | takes w task rest hw htasks => exact update_exited (hs x hx) hw fun h => nomatch h
  | begins w task hw => exact update_exited (hs x hx) hw fun h => nomatch h
  | finishes w task hw => exact update_exited (hs x hx) hw fun h => nomatch h
  | notifiesAll hphase =>
      show Pool.awaken (s.workers x) = .exited
      rw [hs x hx]
      rfl
  | joins k hk hphase hexited =>
      rcases eq_or_ne x ⟨k, hk⟩ with rfl | hne
      · exact hexited
      · have hx' : Function.update s.joined ⟨k, hk⟩ true x = true := hx
        rw [Function.update_of_ne hne] at hx'
        exact hs x hx'
  | _ => exact hs x hx

/-- The workers before the one `shutdown` comes to are joined, and no worker sleeps
on. -/
theorem Moves.joining (h : Moves s a s') (hstopping : s.phase ≠ none → s.stop = true)
    (hs : ∀ k, s.phase = some (.joining k) → k ≤ n ∧
      ∀ w : Fin n, (w < k → s.joined w = true) ∧ s.workers w ≠ .sleeping) :
    ∀ k, s'.phase = some (.joining k) → k ≤ n ∧
      ∀ w : Fin n, (w < k → s'.joined w = true) ∧ s'.workers w ≠ .sleeping := by
  intro j hj
  -- a worker that does not fall asleep keeps the invariant
  have hwrites : ∀ (w : Fin n) (state : WorkerState), state ≠ .sleeping →
      s.phase = some (.joining j) → j ≤ n ∧ ∀ x : Fin n, (x < j → s.joined x = true) ∧
        Function.update s.workers w state x ≠ .sleeping := by
    intro w state hne hphase
    rcases hs j hphase with ⟨hle, hall⟩
    exact ⟨hle, fun x => ⟨(hall x).1, fun hx => (hall x).2 (update_inv hx hne)⟩⟩
  cases h with
  | notified w hnotifies hw => exact hwrites w .checking (fun h => nomatch h) hj
  | woken w hw => exact hwrites w .checking (fun h => nomatch h) hj
  | retires w hw hstop htasks => exact hwrites w .exited (fun h => nomatch h) hj
  | sleeps w hw hstop htasks =>
      -- no worker falls asleep when `stop_` is set
      have hset : s.stop = true := hstopping fun h => by
        rw [show s.phase = some (.joining j) from hj] at h
        cases h
      rw [hstop] at hset
      cases hset
  | takes w task rest hw htasks => exact hwrites w (.holding task) (fun h => nomatch h) hj
  | begins w task hw => exact hwrites w (.running task) (fun h => nomatch h) hj
  | finishes w task hw => exact hwrites w .checking (fun h => nomatch h) hj
  | shuts hphase => cases hj
  | notifiesAll hphase =>
      cases hj
      exact ⟨Nat.zero_le _, fun x =>
        ⟨fun hx => absurd hx (Nat.not_lt_zero _), awaken_ne_sleeping _⟩⟩
  | skips k hk hphase hjoined =>
      cases hj
      refine ⟨hk, fun x => ⟨fun hx => ?_, ((hs k hphase).2 x).2⟩⟩
      rcases Nat.lt_succ_iff_lt_or_eq.1 hx with hlt | heq
      · exact ((hs k hphase).2 x).1 hlt
      · rw [show x = ⟨k, hk⟩ from Fin.ext heq]
        exact hjoined
  | joins k hk hphase hexited =>
      cases hj
      refine ⟨hk, fun x => ⟨fun hx => ?_, ((hs k hphase).2 x).2⟩⟩
      show Function.update s.joined ⟨k, hk⟩ true x = true
      rcases eq_or_ne x ⟨k, hk⟩ with rfl | hne
      · exact Function.update_self _ _ _
      · rw [Function.update_of_ne hne]
        have hxk : x.val ≠ k := fun h => hne (Fin.ext h)
        exact ((hs k hphase).2 x).1 (by omega)
  | returns k hk hphase => cases hj
  | _ => exact hs j hj

/-- `shutdown` returns only with all workers joined. -/
theorem Moves.returned (h : Moves s a s')
    (hstopping : s.phase ≠ none → s.stop = true)
    (hjoining : ∀ k, s.phase = some (.joining k) → k ≤ n ∧
      ∀ w : Fin n, (w < k → s.joined w = true) ∧ s.workers w ≠ .sleeping)
    (hs : s.returned = true → s.stop = true ∧ ∀ w, s.joined w = true) :
    s'.returned = true → s'.stop = true ∧ ∀ w, s'.joined w = true := by
  intro hreturned
  cases h with
  | shuts hphase => exact ⟨rfl, (hs hreturned).2⟩
  | joins k hk hphase hexited =>
      refine ⟨(hs hreturned).1, fun x => ?_⟩
      show Function.update s.joined ⟨k, hk⟩ true x = true
      rcases eq_or_ne x ⟨k, hk⟩ with rfl | hne
      · exact Function.update_self _ _ _
      · rw [Function.update_of_ne hne]
        exact (hs hreturned).2 x
  | returns k hk hphase =>
      refine ⟨hstopping (by rw [hphase]; exact Option.some_ne_none _), fun x => ?_⟩
      exact ((hjoining k hphase).2 x).1 (Nat.lt_of_lt_of_le x.isLt hk)
  | _ => exact hs hreturned

/-- Each step keeps the invariant. -/
theorem Moves.inv (h : Moves s a s') (hs : Inv s) : Inv s' where
  fifo := h.fifo hs.fifo
  numbered := h.numbered hs.numbered
  taken := h.taken hs.taken
  begun := h.begun hs.begun
  stopping := h.stopping hs.stopping
  exited := h.exited hs.exited
  joined := h.joined hs.joined
  joining := h.joining hs.stopping hs.joining
  returned := h.returned hs.stopping hs.joining hs.returned

/-- The invariant holds in every reachable state. -/
theorem reachable_inv (h : Runs.Reachable (system n) s) : Inv s := by
  refine h.invariant ?_ ?_
  · intro s hs
    rw [show s = start n from hs]
    exact inv_start
  · intro s a s' _ hs hstep
    exact (moves_of_step hstep).inv hs

/-! ## What is left to do -/

/-- The sections a worker still goes through before it can look at the queue in vain. -/
def weight : WorkerState → Nat
  | .exited => 0
  | .checking => 1
  | .sleeping => 2
  | .running _ => 2
  | .holding _ => 3

def ShutdownPhase.weight (n : Nat) : ShutdownPhase → Nat
  | .notifying => n + 2
  | .joining k => n + 1 - k

/-- A bound on the sections that are left once `shutdown` has set `stop_`. -/
def work (s : Pool n) : Nat :=
  3 * s.tasks.length + s.notifies + ∑ w, weight (s.workers w) +
    (s.phase.elim 0 (ShutdownPhase.weight n))

theorem weight_awaken (state : WorkerState) : weight (Pool.awaken state) ≤ weight state := by
  cases state with
  | sleeping => decide
  | checking => exact Nat.le_refl _
  | holding task => exact Nat.le_refl _
  | running task => exact Nat.le_refl _
  | exited => exact Nat.le_refl _

/-- While `shutdown` goes on, every step but a refused `enqueue` brings it nearer to
its end. -/
theorem Moves.work (h : Moves s a s') (hs : Inv s) (hphase : s.phase ≠ none) :
    (a = .enqueue → work s' = work s) ∧ (a ≠ .enqueue → work s' < work s) := by
  have hstop := hs.stopping hphase
  -- a worker that changes its state for a lighter one
  have hwrites : ∀ (w : Fin n) (state old : WorkerState) (tasks notifies : Nat),
      s.workers w = old → 3 * tasks + notifies + weight state <
        3 * s.tasks.length + s.notifies + weight old →
      3 * tasks + notifies + ∑ x, weight (Function.update s.workers w state x) +
        s.phase.elim 0 (ShutdownPhase.weight n) < ThreadPool.work s := by
    intro w state old tasks notifies hw hlt
    rcases sum_update weight s.workers w state with ⟨others, hold, hnew⟩
    unfold ThreadPool.work
    rw [hold, hnew, hw]
    omega
  -- `shutdown` goes on
  have hadvances : ∀ phase next : Option ShutdownPhase, s.phase = phase →
      next.elim 0 (ShutdownPhase.weight n) < phase.elim 0 (ShutdownPhase.weight n) →
      3 * s.tasks.length + s.notifies + ∑ x, weight (s.workers x) +
        next.elim 0 (ShutdownPhase.weight n) < ThreadPool.work s := by
    intro phase next heq hlt
    unfold ThreadPool.work
    rw [heq]
    exact Nat.add_lt_add_left hlt _
  cases h with
  | refused hset => exact ⟨fun _ => rfl, fun h => absurd rfl h⟩
  | accepted hset =>
      rw [hstop] at hset
      cases hset
  | notified w hnotifies hw =>
      refine ⟨fun h => (nomatch h), fun _ =>
        hwrites w .checking _ s.tasks.length (s.notifies - 1) hw ?_⟩
      show _ + 1 < _ + 2
      omega
  | unheard hnotifies =>
      refine ⟨fun h => (nomatch h), fun _ => ?_⟩
      show 3 * s.tasks.length + (s.notifies - 1) + ∑ x, weight (s.workers x) +
        s.phase.elim 0 (ShutdownPhase.weight n) < ThreadPool.work s
      unfold ThreadPool.work
      omega
  | woken w hw =>
      refine ⟨fun h => (nomatch h), fun _ => hwrites w .checking _ s.tasks.length s.notifies hw ?_⟩
      show _ + 1 < _ + 2
      omega
  | retires w hw hset htasks =>
      refine ⟨fun h => (nomatch h), fun _ => hwrites w .exited _ s.tasks.length s.notifies hw ?_⟩
      show _ + 0 < _ + 1
      omega
  | sleeps w hw hset htasks =>
      rw [hstop] at hset
      cases hset
  | takes w task rest hw htasks =>
      refine ⟨fun h => (nomatch h), fun _ =>
        hwrites w (.holding task) _ rest.length s.notifies hw ?_⟩
      rw [htasks, List.length_cons]
      show _ + 3 < _ + 1
      omega
  | begins w task hw =>
      refine ⟨fun h => (nomatch h), fun _ =>
        hwrites w (.running task) _ s.tasks.length s.notifies hw ?_⟩
      show _ + 2 < _ + 3
      omega
  | finishes w task hw =>
      refine ⟨fun h => (nomatch h), fun _ => hwrites w .checking _ s.tasks.length s.notifies hw ?_⟩
      show _ + 1 < _ + 2
      omega
  | shuts hnone => exact absurd hnone hphase
  | notifiesAll hnotifying =>
      refine ⟨fun h => (nomatch h), fun _ => ?_⟩
      -- waking makes no worker heavier
      have hsum : ∑ x, weight (Pool.awaken (s.workers x)) ≤ ∑ x, weight (s.workers x) :=
        Finset.sum_le_sum fun x _ => weight_awaken _
      have hlt := hadvances _ (some (.joining 0)) hnotifying (Nat.lt_succ_self _)
      show 3 * s.tasks.length + s.notifies + ∑ x, weight (Pool.awaken (s.workers x)) +
        (some (.joining 0)).elim 0 (ShutdownPhase.weight n) < ThreadPool.work s
      omega
  | skips k hk hjoining hjoined =>
      refine ⟨fun h => (nomatch h), fun _ => hadvances _ (some (.joining (k + 1))) hjoining ?_⟩
      show n + 1 - (k + 1) < n + 1 - k
      omega
  | joins k hk hjoining hexited =>
      refine ⟨fun h => (nomatch h), fun _ => hadvances _ (some (.joining (k + 1))) hjoining ?_⟩
      show n + 1 - (k + 1) < n + 1 - k
      omega
  | returns k hk hjoining =>
      refine ⟨fun h => (nomatch h), fun _ => hadvances _ none hjoining ?_⟩
      have hle := (hs.joining k hjoining).1
      show 0 < n + 1 - k
      omega

/-- A step of the workers or of `shutdown` itself. -/
def Own : Act n → Prop
  | .enqueue => False
  | .notifyOne _ => False
  | .wake _ => False
  | .shutdown => False
  | _ => True

/-- While `shutdown` goes on, it or the worker it waits for can take a step. -/
theorem Inv.progress (hs : Inv s) (hphase : s.phase ≠ none) :
    ∃ a s', Own a ∧ step s a = some s' := by
  cases h : s.phase with
  | none => exact absurd h hphase
  | some phase =>
      cases phase with
      | notifying => exact ⟨.notifyAll, _, trivial, if_pos h⟩
      | joining k =>
          have hjoin : step s .join = s.join k := by simp only [step, h]
          by_cases hk : k < n
          · by_cases hjoined : s.joined ⟨k, hk⟩ = true
            · exact ⟨.join, _, trivial, by rw [hjoin, Pool.join, dif_pos hk, if_pos hjoined]⟩
            · cases hw : s.workers ⟨k, hk⟩ with
              | checking => exact ⟨.check ⟨k, hk⟩, _, trivial, if_pos hw⟩
              | sleeping => exact absurd hw ((hs.joining k h).2 ⟨k, hk⟩).2
              | holding task => exact ⟨.begin ⟨k, hk⟩, _, trivial, by simp only [step, hw]; rfl⟩
              | running task => exact ⟨.finish ⟨k, hk⟩, _, trivial, by simp only [step, hw]; rfl⟩
              | exited =>
                  exact ⟨.join, _, trivial, by
                    rw [hjoin, Pool.join, dif_pos hk, if_neg hjoined, if_pos hw]⟩
          · exact ⟨.join, _, trivial, by rw [hjoin, Pool.join, dif_neg hk]⟩

/-! ## The pool keeps order -/

structure Orderly (s : Pool n) : Prop where
  /-- Tasks leave the queue in the order in which they were accepted. -/
  fifo : s.accepted = s.dequeued ++ s.tasks
  /-- No task is accepted twice, so none is taken twice. -/
  once : s.accepted.Nodup
  /-- What has been begun and finished are tasks taken, each once. -/
  begun : (s.started : Multiset Nat) ≤ s.dequeued
  finished : (s.finished : Multiset Nat) ≤ s.started
  /-- A call that throws adds no task. -/
  refused : ∀ i ∈ s.threw, i ∉ s.accepted
  /-- When a `shutdown` has returned, all the tasks accepted are finished. -/
  complete : s.returned = true → s.tasks = [] ∧ s.finished.Perm s.accepted
  /-- From then on none is accepted or begun. -/
  quiet : s.returned = true →
    ∀ a s', step s a = some s' → s'.accepted = s.accepted ∧ s'.started = s.started
  /-- A `shutdown` that goes on can go on, and every step but an `enqueue`, which
  throws, brings it nearer to its end. -/
  ends : s.phase ≠ none → (∃ a s', Own a ∧ step s a = some s') ∧
    ∀ a s', step s a = some s' →
      (a = .enqueue → s'.threw = s.threw ++ [s.calls] ∧ work s' = work s) ∧
      (a ≠ .enqueue → work s' < work s)

theorem underWay_le (state : WorkerState) : underWay state ≤ inHand state := by
  cases state with
  | running task => exact le_refl _
  | holding task => exact Multiset.zero_le _
  | checking => exact le_refl _
  | sleeping => exact le_refl _
  | exited => exact le_refl _

/-- After a `shutdown` every worker has exited, and nothing is in hand or in the
queue. -/
theorem Inv.complete (hs : Inv s) (hn : 0 < n) (hreturned : s.returned = true) :
    s.tasks = [] ∧ s.finished.Perm s.accepted := by
  have hexited : ∀ w, s.workers w = .exited :=
    fun w => hs.joined w ((hs.returned hreturned).2 w)
  have htasks : s.tasks = [] := (hs.exited ⟨0, hn⟩ (hexited _)).2
  have hnone : ∑ w, inHand (s.workers w) = 0 := by
    refine Finset.sum_eq_zero fun w _ => ?_
    rw [hexited w]
    rfl
  have hfifo := hs.fifo
  rw [htasks, List.append_nil] at hfifo
  have htaken := hs.taken
  rw [hnone, add_zero] at htaken
  rw [hfifo]
  exact ⟨htasks, (Multiset.coe_eq_coe.1 htaken).symm⟩

/-- Behind `shutdown` nothing is accepted and nothing is started. -/
theorem Inv.quiet (hs : Inv s) (hreturned : s.returned = true) (h : Moves s a s') :
    s'.accepted = s.accepted ∧ s'.started = s.started := by
  have hset := (hs.returned hreturned).1
  cases h with
  | accepted hstop =>
      rw [hset] at hstop
      cases hstop
  | begins w task hw =>
      rw [hs.joined w ((hs.returned hreturned).2 w)] at hw
      cases hw
  | _ => exact ⟨rfl, rfl⟩

/-- Tasks are taken once each and in order, and are finished when a `shutdown`
returns. -/
theorem pool_orderly (threads : Nat) {s : Pool (threadCount threads)}
    (h : Runs.Reachable (system (threadCount threads)) s) : Orderly s := by
  have hs := reachable_inv h
  constructor
  · exact hs.fifo
  · exact (List.nodup_append.1 hs.numbered.1).1
  · rw [hs.begun, hs.taken]
    exact add_le_add_right (Finset.sum_le_sum fun w _ => underWay_le _) _
  · rw [hs.begun]
    exact Multiset.le_add_right _ _
  · intro i hthrew haccepted
    exact (List.nodup_append.1 hs.numbered.1).2.2 i haccepted i hthrew rfl
  · exact hs.complete (threadCount_pos threads)
  · exact fun hreturned a s' hstep => hs.quiet hreturned (moves_of_step hstep)
  · intro hphase
    refine ⟨hs.progress hphase, fun a s' hstep => ?_⟩
    have hwork := (moves_of_step hstep).work hs hphase
    refine ⟨?_, hwork.2⟩
    rintro rfl
    refine ⟨?_, hwork.1 rfl⟩
    cases moves_of_step hstep with
    | refused hset => rfl
    | accepted hset =>
        rw [hs.stopping hphase] at hset
        cases hset

/-- Two workers, a task taken before and one after `shutdown` sets `stop_`. -/
def twoTasks : List (Act 2) :=
  [.check 0, .enqueue, .enqueue, .check 1, .begin 1, .shutdown, .notifyOne (some 0), .enqueue,
    .check 0, .notifyAll, .notifyOne none, .begin 0, .finish 0, .finish 1, .check 1, .check 0,
    .join, .join, .join]

theorem pool_orderly_twoTasks : ∃ s : Pool (threadCount 2),
    (system 2).run (start 2) twoTasks = some s ∧ s.accepted = [0, 1] ∧ s.threw = [2] ∧
      s.finished = [1, 0] ∧ s.returned = true ∧ Orderly s :=
  ⟨_, rfl, rfl, rfl, rfl, rfl, pool_orderly 2 (Runs.reachable_of_run (Runs.Reached.start rfl)
    (show (system 2).run (start 2) twoTasks = some _ from rfl))⟩

end Oreshnek.ThreadPool
