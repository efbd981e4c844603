import Oreshnek.Base
import Oreshnek.Platform.Pool

/-!
# Statements over the SQLite pool

`SqliteBackend::run_impl` in any number of threads, over the connections of one
`SqlitePool`. A call acquires a connection, runs its statement there, reads the two
counters of the connection and gives it back. What SQLite does with a statement is
an `Execution`. As SQLite documents, a statement that is no INSERT, UPDATE or DELETE
leaves the count of changed rows as it was, and one that inserts nothing the last
rowid.

So a result may carry the counts of an earlier statement. `results_own` says when it
does not.
-/

namespace Oreshnek.SqliteBackend

open ConnectionPool (Pools Holds)

/-! ## Statements and results -/

/-- What a connection does with a statement. -/
structure Execution where
  /-- The message, when `sqlite3_prepare_v2` fails. -/
  prepareError : Option Bytes
  columnNames : List (Option Bytes)
  rows : List (List (Option Bytes))
  /-- The message, when the last `sqlite3_step` does not answer `SQLITE_DONE`. -/
  stepError : Option Bytes
  /-- How many rows it has changed, when it is an INSERT, UPDATE or DELETE. -/
  changes : Option Int
  /-- The rowid of the last row it has inserted. -/
  rowid : Option Int

/-- `SqlResult`. -/
structure SqlResult where
  ok : Bool
  error : Bytes
  affected : Int
  lastInsertId : Int
  columns : List Bytes
  rows : List (List (Option Bytes))
deriving DecidableEq

/-- A `SqlResult` as constructed. -/
def SqlResult.empty : SqlResult := ⟨false, [], 0, 0, [], []⟩

/-- `sqlite3_changes` and `sqlite3_last_insert_rowid` of a connection. -/
structure Counters where
  changes : Int
  rowid : Int

/-- The counters after a statement. -/
def Counters.after (c : Counters) (e : Execution) : Counters where
  changes := e.changes.getD c.changes
  rowid := e.rowid.getD c.rowid

namespace Execution

/-- The statement runs to its end. -/
def completes (e : Execution) : Bool := e.prepareError.isNone && e.stepError.isNone

/-- The rows that it has affected. -/
def affected (e : Execution) : Int := if e.completes then e.changes.getD 0 else 0

/-- The row that it has inserted. -/
def lastInsertId (e : Execution) : Int := if e.completes then e.rowid.getD 0 else 0

/-- It sets the counters that are not 0. -/
def covers (e : Execution) (c : Counters) : Bool :=
  (e.changes.isSome || c.changes == 0) && (e.rowid.isSome || c.rowid == 0)

end Execution

/-! ## Calls of `run_impl` -/

inductive Call where
  | acquired (e : Execution)
  /-- The loop of `sqlite3_step` is over. -/
  | stepped (e : Execution) (result : SqlResult)
  /-- Before the destructor of `conn`. -/
  | leaving (e : Execution) (result : SqlResult)

structure Backend where
  pools : Pools Unit
  counters : Nat → Counters
  /-- The calls that go on, by their `conn`. -/
  calls : Nat → Option Call
  /-- The statements run so far, with their results. -/
  results : List (Execution × SqlResult)

/-- `sqlite3_prepare_v2`, the bindings and the loop of `sqlite3_step`. -/
def execute (e : Execution) (c : Counters) : Counters × Call :=
  match e.prepareError with
  | some error => (c, .leaving e { SqlResult.empty with error := error })
  | none =>
      let result :=
        { SqlResult.empty with columns := e.columnNames.map (·.getD []), rows := e.rows }
      match e.stepError with
      | some error => (c.after e, .leaving e { result with error := error })
      | none => (c.after e, .stepped e result)

/-- The last lines of `run_impl`. -/
def readCounters (result : SqlResult) (c : Counters) : SqlResult :=
  { result with ok := true, affected := c.changes, lastInsertId := c.rowid }

inductive Act where
  /-- A call of `run_impl` acquires its connection. -/
  | acquire (h : Nat) (e : Execution)
  | execute (h : Nat)
  | readCounters (h : Nat)
  | leave (h : Nat)

/-- The connection a handle holds. -/
def connOf (s : Backend) (h : Nat) : Option Nat := (s.pools.handles h).bind (·.conn)

def step (s : Backend) : Act → Option Backend
  | .acquire h e =>
      (ConnectionPool.step .sqlite s.pools (.acquire () h)).map fun pools =>
        { s with pools := pools, calls := Function.update s.calls h (some (.acquired e)) }
  | .execute h =>
      match s.calls h, connOf s h with
      | some (.acquired e), some conn =>
          let (c, call) := execute e (s.counters conn)
          some { s with
            counters := Function.update s.counters conn c
            calls := Function.update s.calls h (some call) }
      | _, _ => none
  | .readCounters h =>
      match s.calls h, connOf s h with
      | some (.stepped e result), some conn =>
          some { s with
            calls := Function.update s.calls h
              (some (.leaving e (readCounters result (s.counters conn)))) }
      | _, _ => none
  | .leave h =>
      match s.calls h with
      | some (.leaving e result) =>
          (ConnectionPool.step .sqlite s.pools (.destroy h false)).map fun pools =>
            { s with
              pools := pools
              calls := Function.update s.calls h none
              results := s.results ++ [(e, result)] }
      | _ => none

/-- The backend just constructed. -/
def start (poolSize : Int) : Backend where
  pools := ConnectionPool.start fun _ => poolSize
  counters _ := ⟨0, 0⟩
  calls _ := none
  results := []

/-- `SqliteBackend` with a pool of this size. -/
def system (poolSize : Int) : Runs.System Backend Act where
  Start s := s = start poolSize
  step := step

/-- A statement that will run to its end sets the counters of its connection that
are not 0. -/
def covered (s : Backend) : Act → Bool
  | .execute h =>
      match s.calls h, connOf s h with
      | some (.acquired e), some conn => !e.completes || e.covers (s.counters conn)
      | _, _ => true
  | _ => true

/-! ## The counters after one statement -/

/-- The counters tell of the statement when it sets those that are not 0, and only
then. -/
theorem after_own_iff {e : Execution} (he : e.completes = true) (c : Counters) :
    ((c.after e).changes = e.affected ∧ (c.after e).rowid = e.lastInsertId) ↔
      e.covers c = true := by
  have hone : ∀ (set : Option Int) (old : Int),
      set.getD old = set.getD 0 ↔ (set.isSome || old == 0) = true := by
    intro set old
    cases set with
    | none => simp
    | some value => simp
  unfold Execution.affected Execution.lastInsertId Execution.covers Counters.after
  rw [if_pos he, if_pos he, Bool.and_eq_true, ← hone, ← hone]

/-- What a call says about its statement, while the counters of its connection are
these. -/
def Call.Own (c : Counters) : Call → Prop
  | .acquired _ => True
  | .stepped e _ => c.changes = e.affected ∧ c.rowid = e.lastInsertId
  | .leaving e result => result.affected = e.affected ∧ result.lastInsertId = e.lastInsertId

/-- A statement leaves its own counters if it fails, or sets every one that is not 0. -/
theorem execute_own {e : Execution} {c : Counters} (h : (!e.completes || e.covers c) = true) :
    (execute e c).2.Own (execute e c).1 := by
  unfold execute
  cases hprepare : e.prepareError with
  | some error =>
      have hfails : e.completes = false := by rw [Execution.completes, hprepare]; rfl
      show (0 : Int) = e.affected ∧ (0 : Int) = e.lastInsertId
      rw [Execution.affected, Execution.lastInsertId, hfails]
      exact ⟨rfl, rfl⟩
  | none =>
      cases hstep : e.stepError with
      | some error =>
          have hfails : e.completes = false := by
            rw [Execution.completes, hstep, Option.isNone_some, Bool.and_false]
          show (0 : Int) = e.affected ∧ (0 : Int) = e.lastInsertId
          rw [Execution.affected, Execution.lastInsertId, hfails]
          exact ⟨rfl, rfl⟩
      | none =>
          have hcompletes : e.completes = true := by
            rw [Execution.completes, hprepare, hstep]
            rfl
          rw [hcompletes, Bool.not_true, Bool.false_or] at h
          exact (after_own_iff hcompletes c).2 h

/-! ## The invariant -/

structure Inv (poolSize : Int) (s : Backend) : Prop where
  pools : ConnectionPool.Inv (fun _ => poolSize) s.pools
  /-- A call holds its connection, and its statement is the last one there. -/
  calls : ∀ h call, s.calls h = some call →
    ∃ conn, Holds s.pools h () conn ∧ call.Own (s.counters conn)
  results : ∀ e result, (e, result) ∈ s.results →
    result.affected = e.affected ∧ result.lastInsertId = e.lastInsertId

theorem inv_start (poolSize : Int) : Inv poolSize (start poolSize) where
  pools := ConnectionPool.inv_start
  calls := fun _ _ hcall => nomatch hcall
  results := fun _ _ hmem => absurd hmem List.not_mem_nil

variable {poolSize : Int} {s s' : Backend}

theorem connOf_of_holds {h conn : Nat} (hh : Holds s.pools h () conn) :
    connOf s h = some conn := by
  unfold connOf
  rw [show s.pools.handles h = _ from hh]
  rfl

/-- The calls when only the one of `h` changes, and only the counters of its
connection. -/
theorem Inv.calls_update {h conn : Nat} {c : Counters} {call : Call} (hs : Inv poolSize s)
    (hh : Holds s.pools h () conn) (hown : call.Own c) :
    ∀ g call', Function.update s.calls h (some call) g = some call' →
      ∃ conn', Holds s.pools g () conn' ∧
        call'.Own (Function.update s.counters conn c conn') := by
  intro g call' hcall
  rcases eq_or_ne g h with rfl | hne
  · rw [Function.update_self] at hcall
    cases hcall
    refine ⟨conn, hh, ?_⟩
    rw [Function.update_self]
    exact hown
  · rw [Function.update_of_ne hne] at hcall
    rcases hs.calls g call' hcall with ⟨conn', hg, hown'⟩
    refine ⟨conn', hg, ?_⟩
    -- another handle holds another connection
    have hconn : conn' ≠ conn := by
      rintro rfl
      exact hne (hs.pools.holds_unique hg hh)
    rw [Function.update_of_ne hconn]
    exact hown'

/-- A statement gets a connection that no other one has. -/
theorem inv_acquire {h : Nat} {e : Execution} (hs : Inv poolSize s)
    (hstep : step s (.acquire h e) = some s') : Inv poolSize s' := by
  rcases Option.map_eq_some_iff.1 hstep with ⟨pools, hpools, rfl⟩
  rcases ConnectionPool.step_acquire hpools with ⟨hfresh, conn, hhandles⟩
  refine ⟨ConnectionPool.inv_step hs.pools hpools, ?_, hs.results⟩
  intro g call hcall
  have hcall' : Function.update s.calls h (some (.acquired e)) g = some call := hcall
  rcases eq_or_ne g h with rfl | hne
  · rw [Function.update_self] at hcall'
    cases hcall'
    refine ⟨conn, ?_, trivial⟩
    show pools.handles g = _
    rw [hhandles, Function.update_self]
  · rw [Function.update_of_ne hne] at hcall'
    rcases hs.calls g call hcall' with ⟨conn', hg, hown⟩
    refine ⟨conn', ?_, hown⟩
    show pools.handles g = _
    rw [hhandles, Function.update_of_ne hne]
    exact hg

/-- Running a statement keeps the invariant. -/
theorem inv_execute {h : Nat} (hs : Inv poolSize s) (hcovered : covered s (.execute h) = true)
    (hstep : step s (.execute h) = some s') : Inv poolSize s' := by
  simp only [step] at hstep
  split at hstep
  case h_1 e conn hcall hconn =>
    cases hstep
    rcases hs.calls h _ hcall with ⟨held, hh, -⟩
    obtain rfl : held = conn := Option.some.inj ((connOf_of_holds hh).symm.trans hconn)
    simp only [covered, hcall, hconn] at hcovered
    exact ⟨hs.pools, hs.calls_update hh (execute_own hcovered), hs.results⟩
  case h_2 => cases hstep

/-- It reads the counters of its own connection. -/
theorem inv_readCounters {h : Nat} (hs : Inv poolSize s)
    (hstep : step s (.readCounters h) = some s') : Inv poolSize s' := by
  simp only [step] at hstep
  split at hstep
  case h_1 e result conn hcall hconn =>
    cases hstep
    rcases hs.calls h _ hcall with ⟨held, hh, hown⟩
    obtain rfl : held = conn := Option.some.inj ((connOf_of_holds hh).symm.trans hconn)
    have hread : Call.Own (s.counters held)
        (.leaving e (readCounters result (s.counters held))) := hown
    have hcalls := hs.calls_update hh hread
    rw [Function.update_eq_self] at hcalls
    exact ⟨hs.pools, hcalls, hs.results⟩
  case h_2 => cases hstep

/-- It gives the connection back. -/
theorem inv_leave {h : Nat} (hs : Inv poolSize s) (hstep : step s (.leave h) = some s') :
    Inv poolSize s' := by
  simp only [step] at hstep
  split at hstep
  case h_1 e result hcall =>
    rcases Option.map_eq_some_iff.1 hstep with ⟨pools, hpools, rfl⟩
    have hhandles := ConnectionPool.step_destroy hpools
    rcases hs.calls h _ hcall with ⟨conn, -, hown⟩
    refine ⟨ConnectionPool.inv_step hs.pools hpools, ?_, ?_⟩
    · intro g call hg
      have hg' : Function.update s.calls h none g = some call := hg
      have hne : g ≠ h := by
        rintro rfl
        rw [Function.update_self] at hg'
        cases hg'
      rw [Function.update_of_ne hne] at hg'
      rcases hs.calls g call hg' with ⟨conn', hholds, hown'⟩
      refine ⟨conn', ?_, hown'⟩
      show pools.handles g = _
      rw [hhandles, Function.update_of_ne hne]
      exact hholds
    · intro e' result' hmem
      rcases List.mem_append.1 hmem with hold | hnew
      · exact hs.results e' result' hold
      · cases List.mem_singleton.1 hnew
        exact hown
  case h_2 => cases hstep

/-- Each step under the condition keeps the invariant. -/
theorem inv_step {a : Act} (hs : Inv poolSize s) (hcovered : covered s a = true)
    (hstep : step s a = some s') : Inv poolSize s' := by
  cases a with
  | acquire h e => exact inv_acquire hs hstep
  | execute h => exact inv_execute hs hcovered hstep
  | readCounters h => exact inv_readCounters hs hstep
  | leave h => exact inv_leave hs hstep

/-! ## Results of their own statements -/

/-- When every statement sets the counters of its connection that are not 0, every
result tells of its own statement. -/
theorem results_own (poolSize : Int) {s : Backend}
    (h : Runs.Reached (system poolSize) (fun s a => covered s a = true) s) :
    ∀ e result, (e, result) ∈ s.results →
      result.affected = e.affected ∧ result.lastInsertId = e.lastInsertId := by
  have hs : Inv poolSize s := by
    refine h.invariant ?_ ?_
    · intro s hs
      rw [show s = start poolSize from hs]
      exact inv_start poolSize
    · intro s a s' _ hs hcovered hstep
      exact inv_step hs hcovered hstep
  exact hs.results

/-- An INSERT of one row. -/
def insertOne : Execution := ⟨none, [], [], none, some 1, some 7⟩

/-- An INSERT of two rows. -/
def insertTwo : Execution := ⟨none, [], [], none, some 2, some 9⟩

/-- A SELECT. -/
def select : Execution := ⟨none, [some (lit "n")], [[some (lit "3")]], none, none, none⟩

/-- A SELECT on one connection, and two INSERTs one after the other on another. -/
def apart : List Act :=
  [.acquire 0 insertOne, .acquire 1 select, .execute 0, .execute 1, .readCounters 1,
    .readCounters 0, .leave 0, .acquire 2 insertTwo, .execute 2, .readCounters 2, .leave 2, .leave 1]

theorem results_own_apart : ∃ s, (system 2).runIf covered (start 2) apart = some s ∧
    s.results.map (fun p => (p.2.affected, p.2.lastInsertId)) = [(1, 7), (2, 9), (0, 0)] ∧
    ∀ e result, (e, result) ∈ s.results →
      result.affected = e.affected ∧ result.lastInsertId = e.lastInsertId :=
  ⟨_, rfl, rfl, results_own 2 (Runs.reached_of_runIf (Runs.Reached.start rfl)
    (show (system 2).runIf covered (start 2) apart = some _ from rfl))⟩

/-- One after the other on one connection: the SELECT is said to have inserted a row. -/
def inTurn : List Act :=
  [.acquire 0 insertOne, .execute 0, .readCounters 0, .leave 0, .acquire 0 select, .execute 0,
    .readCounters 0, .leave 0]

/-- A SELECT tells the counters of an INSERT before it. -/
theorem select_tells_of_insert : ¬∀ s, Runs.Reachable (system 1) s → ∀ e result,
    (e, result) ∈ s.results →
      result.affected = e.affected ∧ result.lastInsertId = e.lastInsertId := by
  intro h
  have hlast : ∃ s, (system 1).run (start 1) inTurn = some s ∧ ∃ result, result.affected = 1 ∧
      (select, result) ∈ s.results :=
    ⟨_, rfl, _, rfl, List.mem_cons_of_mem _ List.mem_cons_self⟩
  rcases hlast with ⟨s, hrun, result, hone, hmem⟩
  have hown := h s (Runs.reachable_of_run (Runs.Reached.start rfl) hrun) select result hmem
  rw [hone] at hown
  exact absurd hown.1 (by decide)

end Oreshnek.SqliteBackend
