import Oreshnek.Lib.Runs
import Oreshnek.Lib.Custody

/-!
# The connection pools

`SqlitePool` and `PgPool` with the RAII `Handle` of their connections. The two
classes are the same but for `release`, which resets a PostgreSQL connection that
has dropped. There may be several pools of one class, whose handles can be moved
into each other; every operation is one step. A handle is an object with a name,
and a connection is named by its place in `connections_`.

`checked_out_once` says that each connection is available once or held by one
handle.
-/

namespace Oreshnek.ConnectionPool

/-! ## Pools and handles -/

inductive Driver where
  | sqlite
  | pg
deriving DecidableEq

/-- How many connections the constructor opens. -/
def poolSize (size : Int) : Nat := if size < 1 then 1 else size.toNat

/-- `Handle`, with `none` for null pointers. -/
structure Handle (P : Type*) where
  pool : Option P
  conn : Option Nat
deriving DecidableEq

variable {P : Type*} [DecidableEq P]

namespace Handle

/-- A handle that has been moved from. -/
def null : Handle P := ⟨none, none⟩

/-- What it holds of this pool. -/
def inPool (p : P) (handle : Handle P) : Option Nat :=
  if handle.pool = some p then handle.conn else none

end Handle

structure Pools (P : Type*) where
  available : P → List Nat
  /-- The handles that are alive. -/
  handles : Nat → Option (Handle P)
  /-- `PQstatus` is `CONNECTION_BAD`. -/
  bad : P → Nat → Bool

namespace Pools

def setHandle (s : Pools P) (h : Nat) (handle : Option (Handle P)) : Pools P :=
  { s with handles := Function.update s.handles h handle }

/-- `acquire`; `none` while it waits. -/
def acquire (s : Pools P) (p : P) : Option (Pools P × Handle P) :=
  match s.available p with
  | [] => none
  | conn :: rest =>
      some ({ s with available := Function.update s.available p rest }, ⟨some p, some conn⟩)

/-- `PQreset` of a bad connection, which may be good afterwards. -/
def recover (s : Pools P) (p : P) (conn : Nat) (recovered : Bool) : Pools P :=
  if s.bad p conn then
    { s with bad := Function.update s.bad p (Function.update (s.bad p) conn (!recovered)) }
  else s

/-- `release`. -/
def release (driver : Driver) (s : Pools P) (p : P) (conn : Nat) (recovered : Bool) : Pools P :=
  let s :=
    match driver with
    | .sqlite => s
    | .pg => s.recover p conn recovered
  { s with available := Function.update s.available p (s.available p ++ [conn]) }

/-- What the destructor of a handle does, and an assignment first. -/
def discard (driver : Driver) (s : Pools P) (handle : Handle P) (recovered : Bool) : Pools P :=
  match handle.pool, handle.conn with
  | some p, some conn => s.release driver p conn recovered
  | _, _ => s

/-- The move assignment of `other` to `h`, which are alive. -/
def moveAssign (driver : Driver) (s : Pools P) (h other : Nat) (handle moved : Handle P)
    (recovered : Bool) : Pools P :=
  if h = other then s
  else ((s.discard driver handle recovered).setHandle h (some moved)).setHandle other
    (some Handle.null)

end Pools

/-! ## Steps -/

inductive Act (P : Type*) where
  /-- A call of `acquire`, whose result is the object `h`. -/
  | acquire (p : P) (h : Nat)
  | moveConstruct (h other : Nat)
  | moveAssign (h other : Nat) (recovered : Bool)
  | destroy (h : Nat) (recovered : Bool)
  /-- A connection drops. -/
  | breaks (p : P) (conn : Nat)

def step (driver : Driver) (s : Pools P) : Act P → Option (Pools P)
  | .acquire p h =>
      match s.handles h, s.acquire p with
      | none, some (s', handle) => some (s'.setHandle h (some handle))
      | _, _ => none
  | .moveConstruct h other =>
      match s.handles h, s.handles other with
      | none, some moved => some ((s.setHandle h (some moved)).setHandle other (some Handle.null))
      | _, _ => none
  | .moveAssign h other recovered =>
      match s.handles h, s.handles other with
      | some handle, some moved => some (s.moveAssign driver h other handle moved recovered)
      | _, _ => none
  | .destroy h recovered =>
      match s.handles h with
      | some handle => some ((s.discard driver handle recovered).setHandle h none)
      | none => none
  | .breaks p conn =>
      some { s with bad := Function.update s.bad p (Function.update (s.bad p) conn true) }

/-- The pools just constructed. -/
def start (sizes : P → Int) : Pools P where
  available p := List.range (poolSize (sizes p))
  handles _ := none
  bad _ _ := false

/-- Pools of these sizes. -/
def system (driver : Driver) (sizes : P → Int) : Runs.System (Pools P) (Act P) where
  Start s := s = start sizes
  step := step driver

/-! ## Who holds what -/

/-- This handle is alive and holds this connection. -/
def Holds (s : Pools P) (h : Nat) (p : P) (conn : Nat) : Prop :=
  s.handles h = some ⟨some p, some conn⟩

/-- What the handles hold of one pool. -/
def heldIn (s : Pools P) (p : P) (h : Nat) : Option Nat :=
  (s.handles h).bind (Handle.inPool p)

/-- A handle holds a connection of a pool only if it is of that pool. -/
theorem Handle.inPool_eq_some {p : P} {handle : Handle P} {conn : Nat} :
    handle.inPool p = some conn ↔ handle = ⟨some p, some conn⟩ := by
  obtain ⟨pool, held⟩ := handle
  unfold Handle.inPool
  constructor
  · intro h
    split at h
    case isTrue hpool =>
      cases hpool
      cases h
      rfl
    case isFalse => cases h
  · intro h
    cases h
    exact if_pos rfl

@[simp] theorem Handle.inPool_null (p : P) : (Handle.null : Handle P).inPool p = none := by
  unfold Handle.inPool
  split
  · rfl
  · rfl

/-- A handle holds a connection of its own pool. -/
theorem heldIn_eq_some {s : Pools P} {p : P} {h conn : Nat} :
    heldIn s p h = some conn ↔ Holds s h p conn := by
  unfold heldIn Holds
  rw [Option.bind_eq_some_iff]
  constructor
  · rintro ⟨handle, hhandle, hconn⟩
    rw [hhandle, Handle.inPool_eq_some.1 hconn]
  · intro hhandle
    exact ⟨_, hhandle, Handle.inPool_eq_some.2 rfl⟩

@[simp] theorem heldIn_setHandle (s : Pools P) (h : Nat) (handle : Option (Handle P)) (p : P) :
    heldIn (s.setHandle h handle) p =
      Function.update (heldIn s p) h (handle.bind (Handle.inPool p)) := by
  funext g
  unfold heldIn
  show (Function.update s.handles h handle g).bind _ = _
  rcases eq_or_ne g h with rfl | hne
  · rw [Function.update_self, Function.update_self]
  · rw [Function.update_of_ne hne, Function.update_of_ne hne]

@[simp] theorem recover_available (s : Pools P) (p : P) (conn : Nat) (recovered : Bool) :
    (s.recover p conn recovered).available = s.available := by
  unfold Pools.recover
  split
  · rfl
  · rfl

@[simp] theorem recover_handles (s : Pools P) (p : P) (conn : Nat) (recovered : Bool) :
    (s.recover p conn recovered).handles = s.handles := by
  unfold Pools.recover
  split
  · rfl
  · rfl

@[simp] theorem release_available (driver : Driver) (s : Pools P) (p : P) (conn : Nat)
    (recovered : Bool) : (s.release driver p conn recovered).available =
      Function.update s.available p (s.available p ++ [conn]) := by
  cases driver with
  | sqlite => rfl
  | pg => simp only [Pools.release, recover_available]

@[simp] theorem release_handles (driver : Driver) (s : Pools P) (p : P) (conn : Nat)
    (recovered : Bool) : (s.release driver p conn recovered).handles = s.handles := by
  cases driver with
  | sqlite => rfl
  | pg => simp only [Pools.release, recover_handles]

@[simp] theorem discard_handles (driver : Driver) (s : Pools P) (handle : Handle P)
    (recovered : Bool) : (s.discard driver handle recovered).handles = s.handles := by
  unfold Pools.discard
  split
  · exact release_handles _ _ _ _ _
  · rfl

@[simp] theorem heldIn_discard (driver : Driver) (s : Pools P) (handle : Handle P)
    (recovered : Bool) (p : P) :
    heldIn (s.discard driver handle recovered) p = heldIn s p := by
  unfold heldIn
  rw [discard_handles]

/-- A discarded handle gives back what it holds of the pool. -/
theorem discard_available (driver : Driver) (s : Pools P) (handle : Handle P) (recovered : Bool)
    (p : P) : (s.discard driver handle recovered).available p =
      s.available p ++ (handle.inPool p).toList := by
  obtain ⟨pool, held⟩ := handle
  unfold Pools.discard Handle.inPool
  cases pool with
  | none => simp
  | some q =>
      cases held with
      | none => simp
      | some conn =>
          rw [release_available]
          rcases eq_or_ne q p with rfl | hne
          · simp
          · rw [Function.update_of_ne hne.symm, if_neg fun h => hne (Option.some.inj h)]
            simp

/-! ## The invariant -/

/-- In each pool every connection is in one place. -/
def Inv (sizes : P → Int) (s : Pools P) : Prop :=
  ∀ p, ∃ owner, Custody (Set.Iio (poolSize (sizes p))) (s.available p) (heldIn s p) owner

variable {sizes : P → Int} {s s' : Pools P}

/-- The invariant holds at the start. -/
theorem inv_start : Inv sizes (start sizes) := by
  intro p
  refine ⟨_, Custody.start ?_ fun _ => rfl⟩
  intro conn
  show (List.range _).count conn = _
  rw [List.count_range]
  rfl

/-- A connection leaves the idle ones as it gets into a handle. -/
theorem inv_acquire {p : P} {h : Nat} {handle : Handle P} (hs : Inv sizes s)
    (hfresh : s.handles h = none) (hacquire : s.acquire p = some (s', handle)) :
    Inv sizes (s'.setHandle h (some handle)) := by
  intro q
  rcases hs q with ⟨owner, hq⟩
  have hnone : heldIn s q h = none := by
    unfold heldIn
    rw [hfresh]
    rfl
  unfold Pools.acquire at hacquire
  split at hacquire
  · cases hacquire
  case h_2 conn rest havailable =>
    cases hacquire
    rw [heldIn_setHandle]
    show ∃ owner, Custody _ (Function.update s.available p rest q)
      (Function.update (heldIn s q) h _) owner
    rcases eq_or_ne q p with rfl | hne
    · rw [havailable] at hq
      rw [Function.update_self]
      have hheld : (⟨some q, some conn⟩ : Handle P).inPool q = some conn := if_pos rfl
      have htaken := hq.take hnone
      rw [← hheld] at htaken
      exact ⟨_, htaken⟩
    · rw [Function.update_of_ne hne]
      have hother : (⟨some p, some conn⟩ : Handle P).inPool q = none :=
        if_neg fun h => hne (Option.some.inj h).symm
      refine ⟨owner, ?_⟩
      rwa [Option.bind_some, hother, ← hnone, Function.update_eq_self]

/-- A handle that gives back what it holds, and is left with nothing. -/
theorem custody_discard {driver : Driver} {recovered : Bool} {h : Nat} {handle : Handle P}
    (hhandle : s.handles h = some handle) {p : P} {all : Set Nat} [DecidablePred (· ∈ all)]
    {owner : Nat → Option Nat} (hs : Custody all (s.available p) (heldIn s p) owner) :
    ∃ owner', Custody all ((s.discard driver handle recovered).available p)
      (Function.update (heldIn s p) h none) owner' := by
  have hheld : heldIn s p h = handle.inPool p := by
    unfold heldIn
    rw [hhandle]
    rfl
  rw [discard_available, ← hheld]
  cases hconn : heldIn s p h with
  | none =>
      refine ⟨owner, ?_⟩
      rwa [Option.toList_none, List.append_nil, ← hconn, Function.update_eq_self]
  | some conn => exact ⟨_, hs.giveBack hconn⟩

/-- A handle is destroyed, and its connection goes back. -/
theorem inv_destroy {driver : Driver} {recovered : Bool} {h : Nat} {handle : Handle P}
    (hs : Inv sizes s) (hhandle : s.handles h = some handle) :
    Inv sizes ((s.discard driver handle recovered).setHandle h none) := by
  intro p
  rcases hs p with ⟨owner, hp⟩
  rw [heldIn_setHandle, heldIn_discard]
  exact custody_discard hhandle hp

/-- A move leaves a null handle behind. -/
theorem inv_moveConstruct {h other : Nat} {moved : Handle P} (hs : Inv sizes s)
    (hfresh : s.handles h = none) (hmoved : s.handles other = some moved) :
    Inv sizes ((s.setHandle h (some moved)).setHandle other (some Handle.null)) := by
  intro p
  rcases hs p with ⟨owner, hp⟩
  have hne : h ≠ other := by
    rintro rfl
    rw [hfresh] at hmoved
    cases hmoved
  have hnone : heldIn s p h = none := by
    unfold heldIn
    rw [hfresh]
    rfl
  have hheld : heldIn s p other = moved.inPool p := by
    unfold heldIn
    rw [hmoved]
    rfl
  rw [heldIn_setHandle, heldIn_setHandle, Option.bind_some, Option.bind_some, Handle.inPool_null,
    ← hheld]
  exact ⟨_, hp.passOn hne hnone⟩

/-- Assignment gives back what the target held, and nothing when the source is the target. -/
theorem inv_moveAssign {driver : Driver} {recovered : Bool} {h other : Nat}
    {handle moved : Handle P} (hs : Inv sizes s) (hhandle : s.handles h = some handle)
    (hmoved : s.handles other = some moved) :
    Inv sizes (s.moveAssign driver h other handle moved recovered) := by
  unfold Pools.moveAssign
  split
  case isTrue => exact hs
  case isFalse hne =>
    intro p
    rcases hs p with ⟨owner, hp⟩
    have hheld : heldIn s p other = moved.inPool p := by
      unfold heldIn
      rw [hmoved]
      rfl
    rcases custody_discard hhandle hp with ⟨owner', hdiscarded⟩
    have hmove := hdiscarded.passOn hne (Function.update_self _ _ _)
    rw [Function.update_of_ne (Ne.symm hne), Function.update_idem, hheld] at hmove
    rw [heldIn_setHandle, heldIn_setHandle, heldIn_discard, Option.bind_some, Option.bind_some,
      Handle.inPool_null]
    exact ⟨_, hmove⟩

/-- **Step lemma.** Each connection is idle or in one handle. -/
theorem inv_step {driver : Driver} {a : Act P} (hs : Inv sizes s)
    (hstep : step driver s a = some s') : Inv sizes s' := by
  cases a with
  | acquire p h =>
      simp only [step] at hstep
      split at hstep
      case h_1 s₁ handle hfresh hacquire =>
        cases hstep
        exact inv_acquire hs hfresh hacquire
      case h_2 => cases hstep
  | moveConstruct h other =>
      simp only [step] at hstep
      split at hstep
      case h_1 moved hfresh hmoved =>
        cases hstep
        exact inv_moveConstruct hs hfresh hmoved
      case h_2 => cases hstep
  | moveAssign h other recovered =>
      simp only [step] at hstep
      split at hstep
      case h_1 handle moved hhandle hmoved =>
        cases hstep
        exact inv_moveAssign hs hhandle hmoved
      case h_2 => cases hstep
  | destroy h recovered =>
      simp only [step] at hstep
      split at hstep
      case h_1 handle hhandle =>
        cases hstep
        exact inv_destroy hs hhandle
      case h_2 => cases hstep
  | breaks p conn =>
      cases hstep
      exact hs

/-- The invariant holds in every reachable state. -/
theorem reachable_inv {driver : Driver} (h : Runs.Reachable (system driver sizes) s) :
    Inv sizes s := by
  refine h.invariant ?_ ?_
  · intro s hs
    rw [show s = start sizes from hs]
    exact inv_start
  · intro s a s' _ hs hstep
    exact inv_step hs hstep

/-- No two handles hold one connection. -/
theorem Inv.holds_unique (hs : Inv sizes s) {p : P} {conn g g' : Nat} (hg : Holds s g p conn)
    (hg' : Holds s g' p conn) : g = g' := by
  rcases hs p with ⟨owner, hp⟩
  exact hp.held_unique (heldIn_eq_some.2 hg) (heldIn_eq_some.2 hg')

/-! ## What the steps do to the handles -/

/-- `acquire` makes a handle that holds a connection. -/
theorem step_acquire {driver : Driver} {p : P} {h : Nat}
    (hstep : step driver s (.acquire p h) = some s') :
    s.handles h = none ∧
      ∃ conn, s'.handles = Function.update s.handles h (some ⟨some p, some conn⟩) := by
  simp only [step] at hstep
  split at hstep
  case h_1 s₁ handle hfresh hacquire =>
    cases hstep
    refine ⟨hfresh, ?_⟩
    unfold Pools.acquire at hacquire
    split at hacquire
    · cases hacquire
    case h_2 conn rest havailable =>
      cases hacquire
      exact ⟨conn, rfl⟩
  case h_2 => cases hstep

theorem step_destroy {driver : Driver} {h : Nat} {recovered : Bool}
    (hstep : step driver s (.destroy h recovered) = some s') :
    s'.handles = Function.update s.handles h none := by
  simp only [step] at hstep
  split at hstep
  case h_1 handle hhandle =>
    cases hstep
    show Function.update (s.discard driver handle recovered).handles h none = _
    rw [discard_handles]
  case h_2 => cases hstep

/-! ## Exclusive checkout -/

/-- Each connection of a pool is available, once, or held by one handle. -/
theorem checked_out_once (driver : Driver) (sizes : P → Int) {s : Pools P}
    (h : Runs.Reachable (system driver sizes) s) (p : P) (conn : Nat) :
    (conn < poolSize (sizes p) →
      ((s.available p).count conn = 1 ∧ ∀ g, ¬Holds s g p conn) ∨
      ((s.available p).count conn = 0 ∧ ∃! g, Holds s g p conn)) ∧
    ((conn ∈ s.available p ∨ ∃ g, Holds s g p conn) → conn < poolSize (sizes p)) := by
  rcases reachable_inv h p with ⟨owner, hs⟩
  have hholds : ∀ g, heldIn s p g = some conn ↔ Holds s g p conn := fun g => heldIn_eq_some
  constructor
  · intro hconn
    have hexclusive := hs.exclusive (r := conn) hconn
    simp only [hholds, ne_eq] at hexclusive
    exact hexclusive
  · rintro (havailable | ⟨g, hg⟩)
    · exact (hs.mem_store.1 havailable).1
    · exact ((hs.held g conn).1 ((hholds g).2 hg)).1

/-- A pool of two, both taken: one is moved over the other, which gives its own
back, and then onto itself. -/
def moves : List (Act Unit) :=
  [.acquire () 0, .acquire () 1, .moveAssign 0 1 true, .moveAssign 0 0 true]

/-- A connection moved from handle to handle. -/
theorem checked_out_once_moved : ∃ s : Pools Unit,
    (system .pg fun _ => 2).run (start fun _ => 2) moves = some s ∧
      s.available () = [0] ∧ ∃! g, Holds s g () 1 := by
  refine ⟨_, rfl, rfl, ?_⟩
  have h := Runs.reachable_of_run (Runs.Reached.start rfl)
    (show (system .pg fun _ : Unit => 2).run (start fun _ => 2) moves = some _ from rfl)
  exact (((checked_out_once .pg _ h () 1).1 (by decide)).resolve_left
    fun hleft => absurd hleft.1 (by decide)).2

end Oreshnek.ConnectionPool
