import Oreshnek.Base
import Oreshnek.Lib.Ledger
import Oreshnek.Platform.Pool

/-!
# Opening the connection pools

The constructors of `SqlitePool` and `PgPool`, which open their connections one after the other.
The handles are the resources of a ledger; a constructor that throws leaves no pool behind whose
destructor could close them. Both close what they have opened when an opening fails. A PRAGMA that
fails throws past the roll-back of `SqlitePool` (`rolledBack_iff`).
-/

namespace Oreshnek.ConnectionPool

/-! ## The constructors -/

/-- What comes of opening a connection: it is open, there is a handle that tells of an error, or
there is none. -/
inductive Opening where
  | ok
  | failed
  | null
deriving DecidableEq

/-- What the drivers answer: to the opening of the `i`-th connection, and to a statement on it. -/
structure Environment where
  opening : Nat → Opening
  exec : Nat → Bytes → Bool

/-- What a constructor leaves behind. -/
structure Construction where
  thrown : Bool
  /-- `connections_`. -/
  connections : List Nat
  handles : Ledger

/-- The statements that configure a connection of SQLite. -/
def pragmas : List Bytes :=
  [lit "PRAGMA journal_mode=WAL;", lit "PRAGMA synchronous=NORMAL;", lit "PRAGMA foreign_keys=ON;"]

/-- The roll-back. -/
def closeAll (l : Ledger) (connections : List Nat) : Ledger := connections.foldl Ledger.release l

/-- The loop of `SqlitePool::SqlitePool`, with `n` connections left to open from the `i`-th on. -/
def openSqlite (env : Environment) : Nat → Nat → List Nat → Ledger → Construction
  | 0, _, connections, l => ⟨false, connections, l⟩
  | n + 1, i, connections, l =>
      match env.opening i with
      | .null => ⟨true, connections, closeAll l connections⟩
      | .failed =>
          let db := l.obtained
          ⟨true, connections, closeAll (l.acquire.release db) connections⟩
      | .ok =>
          let db := l.obtained
          -- `exec_or_throw`, three times
          if pragmas.all (env.exec i) then
            openSqlite env n (i + 1) (connections ++ [db]) l.acquire
          else ⟨true, connections, l.acquire⟩

/-- The loop of `PgPool::PgPool`, in its `try`. -/
def openPg (env : Environment) : Nat → Nat → List Nat → Ledger → Construction
  | 0, _, connections, l => ⟨false, connections, l⟩
  | n + 1, i, connections, l =>
      match env.opening i with
      | .null => ⟨true, connections, closeAll l connections⟩
      | .failed =>
          let conn := l.obtained
          ⟨true, connections, closeAll (l.acquire.release conn) connections⟩
      | .ok =>
          let conn := l.obtained
          openPg env n (i + 1) (connections ++ [conn]) l.acquire

/-- The constructors. -/
def construct (driver : Driver) (env : Environment) (size : Int) : Construction :=
  match driver with
  | .sqlite => openSqlite env (poolSize size) 0 [] {}
  | .pg => openPg env (poolSize size) 0 [] {}

/-- A constructor that has thrown has closed every handle exactly once. -/
def Construction.RolledBack (c : Construction) : Prop :=
  c.thrown = true → ∀ d < c.handles.obtained, c.handles.released d = 1

/-- Each connection that is opened, with all before it open as well, takes its PRAGMAs. -/
def Configured (env : Environment) (i n : Nat) : Prop :=
  ∀ k < n, (∀ j ≤ k, env.opening (i + j) = .ok) → pragmas.all (env.exec (i + k)) = true

/-! ## Roll-backs -/

/-- The pool owns its connections. -/
abbrev Owned (l : Ledger) (connections : List Nat) : Prop :=
  l.Balanced fun d => connections.count d

section

variable {env : Environment} {n i : Nat} {connections : List Nat} {l : Ledger}

/-- Closing all that are owned leaves none open. -/
theorem Owned.closeAll (h : Owned l connections) : (closeAll l connections).Balanced fun _ => 0 := by
  induction connections generalizing l with
  | nil => exact h
  | cons d connections ih =>
      have honce := h.owners_le d
      have howned : 0 < (d :: connections).count d := by
        rw [List.count_cons_self]
        exact Nat.succ_pos _
      refine ih (h.release howned fun e => ?_)
      by_cases he : e = d
      · -- it does not occur a second time
        rw [if_pos he, he]
        rw [List.count_cons_self] at honce
        omega
      · rw [if_neg he, List.count_cons_of_ne fun heq => he heq.symm]

/-- A descriptor obtained belongs to the list. -/
theorem Owned.acquire (h : Owned l connections) :
    Owned l.acquire (connections ++ [l.obtained]) := by
  refine Ledger.Balanced.acquire h fun d => ?_
  rw [List.count_append, List.count_singleton]
  by_cases hd : d = l.obtained
  · have hfresh : connections.count l.obtained = 0 := (h.fresh l.obtained (Nat.le_refl _)).2
    rw [if_pos hd, hd, hfresh, beq_self_eq_true, if_pos rfl]
  · rw [if_neg hd, beq_eq_false_iff_ne.2 fun heq => hd heq.symm, if_neg Bool.false_ne_true,
      Nat.add_zero]

/-- A handle that tells of an error is closed, and owned by nobody. -/
theorem Owned.discard (h : Owned l connections) :
    Owned (l.acquire.release l.obtained) connections := by
  have hnew := h.acquire
  have hfresh : connections.count l.obtained = 0 := (h.fresh l.obtained (Nat.le_refl _)).2
  have howned : 0 < (connections ++ [l.obtained]).count l.obtained := by
    rw [List.count_append, List.count_singleton_self]
    exact Nat.succ_pos _
  refine hnew.release howned fun e => ?_
  by_cases he : e = l.obtained
  · rw [if_pos he, he, hfresh]
  · rw [if_neg he, List.count_append, List.count_singleton,
      beq_eq_false_iff_ne.2 fun heq => he heq.symm, if_neg Bool.false_ne_true, Nat.add_zero]

/-- Where an opening fails, everything is closed. -/
theorem rolledBack_of_closeAll (h : Owned l connections) (thrown : Bool) (left : List Nat) :
    (Construction.mk thrown left (closeAll l connections)).RolledBack := by
  intro _ d hd
  exact h.closeAll.settled hd rfl

/-- The first connection is configured, and so are the others. -/
theorem configured_succ (hok : env.opening i = .ok) :
    Configured env i (n + 1) ↔ pragmas.all (env.exec i) = true ∧ Configured env (i + 1) n := by
  have hshift : ∀ j, i + 1 + j = i + (j + 1) := by
    intro j
    omega
  unfold Configured
  constructor
  · intro h
    refine ⟨?_, fun k hk hopen => ?_⟩
    · refine h 0 (Nat.succ_pos n) fun j hj => ?_
      rw [Nat.le_zero.1 hj]
      exact hok
    · rw [hshift]
      refine h (k + 1) (by omega) fun j hj => ?_
      cases j with
      | zero => exact hok
      | succ j => exact hshift j ▸ hopen j (by omega)
  · rintro ⟨hfirst, hrest⟩ k hk hopen
    cases k with
    | zero => exact hfirst
    | succ k =>
        rw [← hshift]
        refine hrest k (by omega) fun j hj => ?_
        rw [hshift]
        exact hopen (j + 1) (by omega)

theorem configured_of_not_ok (h : env.opening i ≠ .ok) : Configured env i n := fun _ _ hopen =>
  absurd (hopen 0 (Nat.zero_le _)) h

/-- **SQLite**, from any number of open connections on. -/
theorem openSqlite_rolledBack_iff (h : Owned l connections) :
    (openSqlite env n i connections l).RolledBack ↔ Configured env i n := by
  induction n generalizing i connections l with
  | zero =>
      refine iff_of_true ?_ fun k hk => absurd hk (Nat.not_lt_zero k)
      intro hthrown
      cases hthrown
  | succ n ih =>
      unfold openSqlite
      cases hopen : env.opening i with
      | null =>
          refine iff_of_true (rolledBack_of_closeAll h true connections) (configured_of_not_ok ?_)
          rw [hopen]
          decide
      | failed =>
          refine iff_of_true (rolledBack_of_closeAll h.discard true connections)
            (configured_of_not_ok ?_)
          rw [hopen]
          decide
      | ok =>
          dsimp only
          rw [configured_succ hopen]
          by_cases hpragmas : pragmas.all (env.exec i) = true
          · rw [if_pos hpragmas, ih h.acquire]
            exact (and_iff_right hpragmas).symm
          · -- the handle just opened stays open
            rw [if_neg hpragmas]
            refine iff_of_false (fun hrolled => ?_) fun hand => hpragmas hand.1
            have hreleased : l.released l.obtained = 1 := hrolled rfl l.obtained (Nat.lt_succ_self _)
            have hfresh := (h.fresh l.obtained (Nat.le_refl _)).1
            omega

/-- **PostgreSQL.** -/
theorem openPg_rolledBack (h : Owned l connections) :
    (openPg env n i connections l).RolledBack := by
  induction n generalizing i connections l with
  | zero =>
      intro hthrown
      cases hthrown
  | succ n ih =>
      unfold openPg
      cases hopen : env.opening i with
      | null => exact rolledBack_of_closeAll h true connections
      | failed => exact rolledBack_of_closeAll h.discard true connections
      | ok => exact ih h.acquire

end

/-- **Roll-back**: a constructor that throws has closed every handle exactly once, except that of
`SqlitePool` where a PRAGMA is the first thing to fail. -/
theorem rolledBack_iff (driver : Driver) (env : Environment) (size : Int) :
    (construct driver env size).RolledBack ↔ driver = .pg ∨ Configured env 0 (poolSize size) := by
  have hstart : Owned {} [] := Ledger.balanced_empty
  cases driver with
  | sqlite =>
      refine (openSqlite_rolledBack_iff hstart).trans (or_iff_right ?_).symm
      intro heq
      cases heq
  | pg => exact iff_of_true (openPg_rolledBack hstart) (.inl rfl)

/-- A database in which WAL cannot be set on the second connection. -/
def lockedSecond : Environment where
  opening _ := .ok
  exec i sql := !(i == 1 && sql == lit "PRAGMA journal_mode=WAL;")

/-- Both handles stay open. -/
theorem pragma_failure_leaks :
    (construct .sqlite lockedSecond 4).thrown = true ∧
      (construct .sqlite lockedSecond 4).handles.obtained = 2 ∧
      (construct .sqlite lockedSecond 4).handles.released 0 = 0 ∧
      (construct .sqlite lockedSecond 4).handles.released 1 = 0 := by
  decide

end Oreshnek.ConnectionPool
