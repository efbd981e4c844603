import Oreshnek.Http.Storage
import Oreshnek.Lib.Runs

/-!
# Copies of a request

Request objects that are copied, moved, assigned, destroyed and made anew, in any
order, with the string each of them owns in a block of its own. Where a string
ends up is the choice of the library: a copy is given the block the string had or
another one, a move takes the block over or, for a short string, copies.

`rebase_views` does not touch `path_params_`, on the ground that its names belong
to the router. Its values do not: they point into the path, so into the string of
the request they were set on. So the objects that hold the original's value go on
to say it in every run in which no request with path parameters is copied, or
moved to another block (`holders_read`).
-/

namespace Oreshnek

open Blocks

namespace StoredRequest

/-- `copy_from(other)`: `content` are the bytes `other` owns, `place` is the block
they have been assigned to. -/
def copyFrom (m : Memory Block UInt8) (other : StoredRequest) (content : Bytes) (place : Block) :
    StoredRequest :=
  let r := { other with storage := place }
  if content = [] then r else r.rebaseViews m other.storage place

/-- `move_from(other)`. -/
def moveFrom (m : Memory Block UInt8) (other : StoredRequest) (content : Bytes) (place : Block) :
    StoredRequest :=
  let r := { other with storage := place }
  -- an empty string has no base to move from
  if content = [] then r else r.rebaseViews m other.storage place

/-- What is left of a request that has been moved from: empty maps, and a string
in the block `left`. -/
def movedOut (r : StoredRequest) (left : Block) : StoredRequest :=
  { r with headers := [], queryParams := [], pathParams := [], storage := left }

end StoredRequest

namespace Copies

/-- The memory, the objects that live, and which of them hold the original's
value by way of copies and moves. -/
structure World where
  memory : Memory Block UInt8
  objects : AList fun _ : Nat => StoredRequest
  holders : List Nat

/-- Blocks the string of `object` may use. -/
def allowed (object : Nat) : Block → Bool
  | .buffer => false
  | .inline o => o = object
  | .heap _ => true

namespace World

/-- No object but those in `except_` uses the block. -/
def Unused (w : World) (except_ : List Nat) (b : Block) : Prop :=
  ∀ e ∈ w.objects.entries, e.1 ∉ except_ → e.2.storage ≠ b

instance (w : World) (except_ : List Nat) (b : Block) : Decidable (w.Unused except_ b) :=
  inferInstanceAs (Decidable (∀ e ∈ w.objects.entries, e.1 ∉ except_ → e.2.storage ≠ b))

/-- The memory when the string of `object`, if there is one, has left its block
for `place`. -/
def vacate (w : World) (object : Nat) (place : Block) : Memory Block UInt8 :=
  (w.objects.lookup object).elim w.memory fun r =>
    if r.storage = place then w.memory else Function.update w.memory r.storage none

/-- The bytes a request owns. -/
def content (w : World) (r : StoredRequest) : Bytes := (w.memory r.storage).getD []

/-- The holders after `dst` has taken the value of `src`. -/
def passOn (w : World) (dst src : Nat) : List Nat :=
  (if src ∈ w.holders then [dst] else []) ++ w.holders.filter (· ≠ dst)

end World

inductive Act where
  /-- Copy construction or copy assignment. -/
  | copy (dst src : Nat) (place : Block)
  /-- Move construction or move assignment; `left` is the block of the string
  that `src` then has. -/
  | move (dst src : Nat) (place left : Block)
  | destroy (object : Nat)
  /-- Another request comes into being. -/
  | create (object : Nat) (r : StoredRequest) (content : Bytes)
  /-- Anything happens to a block that no request owns: the read buffer is
  written, freed memory is used again. -/
  | write (b : Block) (content : Option Bytes)

/-- One act; an assignment to oneself does nothing. -/
def step (w : World) : Act → Option World
  | .copy dst src place =>
      (w.objects.lookup src).bind fun other =>
        if dst = src then some w
        else if allowed dst place ∧ w.Unused [dst] place then
          let m := Function.update (w.vacate dst place) place (some (w.content other))
          some ⟨m, w.objects.insert dst (other.copyFrom m (w.content other) place),
            w.passOn dst src⟩
        else none
  | .move dst src place left =>
      (w.objects.lookup src).bind fun other =>
        if dst = src then some w
        else if (place = other.storage ∨ w.Unused [dst] place) ∧ allowed dst place ∧
            left ≠ place ∧ allowed src left ∧ w.Unused [dst, src] left then
          let m := Function.update
            (Function.update (w.vacate dst place) place (some (w.content other))) left (some [])
          some ⟨m, (w.objects.insert src (other.movedOut left)).insert dst
            (other.moveFrom m (w.content other) place), (w.passOn dst src).filter (· ≠ src)⟩
        else none
  | .destroy object =>
      (w.objects.lookup object).map fun r =>
        ⟨Function.update w.memory r.storage none, w.objects.erase object,
          w.holders.filter (· ≠ object)⟩
  | .create object r content =>
      if w.objects.lookup object = none ∧ allowed object r.storage ∧ w.Unused [] r.storage then
        some ⟨Function.update w.memory r.storage (some content), w.objects.insert object r,
          w.holders.filter (· ≠ object)⟩
      else none
  | .write b content =>
      if w.Unused [] b then some { w with memory := Function.update w.memory b content } else none

/-! ## The invariant -/

/-- Every string is in a block of its own. -/
def Placed (objects : Nat → Option StoredRequest) : Prop :=
  ∀ o r, objects o = some r → allowed o r.storage ∧
    ∀ o' r', objects o' = some r' → o' ≠ o → r'.storage ≠ r.storage

/-- The object owns the original's bytes, and its views show in them what the
original says. -/
def Holds (v : RequestValue) (memory : Memory Block UInt8) (objects : Nat → Option StoredRequest)
    (o : Nat) : Prop :=
  ∃ r, objects o = some r ∧ memory r.storage = some v.storage ∧ Represents r.storage r v

/-- What every step keeps. -/
structure Inv (v : RequestValue) (w : World) : Prop where
  placed : Placed w.objects.lookup
  holds : ∀ o ∈ w.holders, Holds v w.memory w.objects.lookup o

section Placed

variable {objects : Nat → Option StoredRequest}

/-- One object gets a storage that no other object has. -/
theorem Placed.update (h : Placed objects) {o : Nat} {r : StoredRequest}
    (hallowed : allowed o r.storage)
    (hunused : ∀ o' r', objects o' = some r' → o' ≠ o → r'.storage ≠ r.storage) :
    Placed (Function.update objects o (some r)) := by
  intro p q hq
  by_cases hp : p = o
  · -- the new object
    subst hp
    rw [Function.update_self] at hq
    obtain rfl := Option.some.inj hq
    refine ⟨hallowed, ?_⟩
    intro o' r' hr' hne
    rw [Function.update_of_ne hne] at hr'
    exact hunused o' r' hr' hne
  · -- the others
    rw [Function.update_of_ne hp] at hq
    rcases h p q hq with ⟨hq', hothers⟩
    refine ⟨hq', ?_⟩
    intro o' r' hr' hne
    by_cases ho' : o' = o
    · subst ho'
      rw [Function.update_self] at hr'
      obtain rfl := Option.some.inj hr'
      exact (hunused p q hq hp).symm
    · rw [Function.update_of_ne ho'] at hr'
      exact hothers o' r' hr' hne

/-- An object less keeps the others placed. -/
theorem Placed.erase (h : Placed objects) (o : Nat) : Placed (Function.update objects o none) := by
  have hkept : ∀ {p r}, Function.update objects o none p = some r → objects p = some r := by
    intro p r hr
    by_cases hp : p = o
    · rw [hp, Function.update_self] at hr
      cases hr
    · rwa [Function.update_of_ne hp] at hr
  intro p q hq
  rcases h p q (hkept hq) with ⟨hq', hothers⟩
  exact ⟨hq', fun o' r' hr' hne => hothers o' r' (hkept hr') hne⟩

end Placed

/-- An object that is left alone, with its block, still holds the value. -/
theorem Holds.frame {v : RequestValue} {memory memory' : Memory Block UInt8}
    {objects objects' : Nat → Option StoredRequest} {o : Nat} (h : Holds v memory objects o)
    (hobject : objects' o = objects o)
    (hmemory : ∀ r, objects o = some r → memory' r.storage = memory r.storage) :
    Holds v memory' objects' o := by
  rcases h with ⟨r, hr, hbytes, hrep⟩
  exact ⟨r, hobject.trans hr, (hmemory r hr).trans hbytes, hrep⟩

theorem lookup_insert (objects : AList fun _ : Nat => StoredRequest) (o : Nat)
    (r : StoredRequest) :
    (objects.insert o r).lookup = Function.update objects.lookup o (some r) := by
  funext p
  by_cases hp : p = o
  · rw [hp, AList.lookup_insert, Function.update_self]
  · rw [AList.lookup_insert_ne hp, Function.update_of_ne hp]

theorem lookup_erase (objects : AList fun _ : Nat => StoredRequest) (o : Nat) :
    (objects.erase o).lookup = Function.update objects.lookup o none := by
  funext p
  by_cases hp : p = o
  · rw [hp, AList.lookup_erase, Function.update_self]
  · rw [AList.lookup_erase_ne hp, Function.update_of_ne hp]

theorem World.Unused.ne {w : World} {except_ : List Nat} {b : Block} (h : w.Unused except_ b)
    {o : Nat} {r : StoredRequest} (hr : w.objects.lookup o = some r) (ho : o ∉ except_) :
    r.storage ≠ b :=
  h ⟨o, r⟩ (AList.mem_lookup_iff.1 hr) ho

/-- Leaving a block changes no other. -/
theorem World.vacate_other {w : World} (hplaced : Placed w.objects.lookup) {object o : Nat}
    {place : Block} {r : StoredRequest} (hr : w.objects.lookup o = some r) (hne : o ≠ object) :
    w.vacate object place r.storage = w.memory r.storage := by
  unfold World.vacate
  cases hold : w.objects.lookup object with
  | none => rfl
  | some old =>
      rw [Option.elim_some]
      split
      · rfl
      · have hdiffer := (hplaced object old hold).2 o r hr hne
        rw [Function.update_of_ne hdiffer]

/-! ## The value goes along -/

end Copies

namespace StoredRequest

theorem rebaseViews_storage (m : Memory Block UInt8) (oldBase newBase : Block)
    (r : StoredRequest) : (r.rebaseViews m oldBase newBase).storage = r.storage := by
  unfold rebaseViews
  split <;> rfl

theorem copyFrom_storage (m : Memory Block UInt8) (other : StoredRequest) (content : Bytes)
    (place : Block) : (other.copyFrom m content place).storage = place := by
  unfold copyFrom
  split
  · rfl
  · exact rebaseViews_storage m _ _ _

/-- For views, to move is to copy. -/
theorem moveFrom_eq (m : Memory Block UInt8) (other : StoredRequest) (content : Bytes)
    (place : Block) : other.moveFrom m content place = other.copyFrom m content place := rfl

/-- A copy says the same out of its own block, but for path parameters that point
into another one. -/
theorem copyFrom_represents {m : Memory Block UInt8} {other : StoredRequest} {v : RequestValue}
    (h : Represents other.storage other v) {place : Block} (hm : m place = some v.storage)
    (hparams : other.storage = place ∨ ∀ e ∈ other.pathParams, e.2.length = 0) :
    Represents place (other.copyFrom m v.storage place) v := by
  have hmoved : Represents other.storage { other with storage := place } v :=
    ⟨h.method, h.path, h.version, h.body, h.headers, h.queryParams, h.pathParams⟩
  unfold copyFrom
  split
  next hnil =>
    -- nothing is owned, so every view is empty
    exact hmoved.of_nil hnil place
  · exact hmoved.rebaseViews hm hparams

end StoredRequest

namespace Copies

/-- The act copies no request with path parameters, and moves none to another
block. -/
def detached (w : World) : Act → Bool
  | .copy dst src _ =>
      (w.objects.lookup src).all fun other =>
        dst = src || other.pathParams.all fun e => e.2.length = 0
  | .move dst src place _ =>
      (w.objects.lookup src).all fun other =>
        dst = src || other.storage = place || other.pathParams.all fun e => e.2.length = 0
  | _ => true

section Steps

variable {v : RequestValue} {w w' : World}

/-- A holder reads its content from its own storage. -/
theorem World.content_eq {o : Nat} {r : StoredRequest} (h : Holds v w.memory w.objects.lookup o)
    (hr : w.objects.lookup o = some r) :
    w.content r = v.storage ∧ Represents r.storage r v := by
  rcases h with ⟨r', hr', hbytes, hrep⟩
  obtain rfl := Option.some.inj (hr.symm.trans hr')
  refine ⟨?_, hrep⟩
  unfold World.content
  rw [hbytes]
  rfl

/-- The holders after an assignment: the destination, if the source was one, and
the others as before. -/
theorem World.mem_passOn {dst src o : Nat} (h : o ∈ w.passOn dst src) :
    (o = dst ∧ src ∈ w.holders) ∨ (o ≠ dst ∧ o ∈ w.holders) := by
  unfold World.passOn at h
  rcases List.mem_append.1 h with hnew | hold
  · left
    split at hnew
    next hsrc => exact ⟨List.mem_singleton.1 hnew, hsrc⟩
    · cases hnew
  · right
    rcases List.mem_filter.1 hold with ⟨hmem, hne⟩
    exact ⟨of_decide_eq_true hne, hmem⟩

/-- A copy shows what its source shows: its views go with the storage, but those of the path
parameters, which are empty or in the same storage. -/
theorem Inv.copy (h : Inv v w) {dst src : Nat} {place : Block} {other : StoredRequest}
    (hother : w.objects.lookup src = some other) (hallowed : allowed dst place)
    (hunused : w.Unused [dst] place)
    (hdetached : other.storage = place ∨ ∀ e ∈ other.pathParams, e.2.length = 0)
    {m : Memory Block UInt8}
    (hm : m = Function.update (w.vacate dst place) place (some (w.content other))) :
    Inv v ⟨m, w.objects.insert dst (other.copyFrom m (w.content other) place),
      w.passOn dst src⟩ := by
  -- the block of the copy has what the source shows
  have hplace : m place = some (w.content other) := by
    rw [hm, Function.update_self]
  constructor
  · -- the destination has the block for itself
    rw [lookup_insert]
    apply h.placed.update
    · rw [StoredRequest.copyFrom_storage]
      exact hallowed
    · intro o r hr hne
      rw [StoredRequest.copyFrom_storage]
      exact hunused.ne hr (by simpa using hne)
  intro o ho
  rw [lookup_insert]
  rcases World.mem_passOn ho with ⟨rfl, hsrc⟩ | ⟨hne, hmem⟩
  · -- the destination
    rcases World.content_eq (h.holds src hsrc) hother with ⟨hcontent, hrep⟩
    rw [hcontent] at hplace ⊢
    refine ⟨_, Function.update_self _ _ _, ?_, ?_⟩
    · rw [StoredRequest.copyFrom_storage]
      exact hplace
    · rw [StoredRequest.copyFrom_storage]
      exact StoredRequest.copyFrom_represents hrep hplace hdetached
  · -- another holder: neither its object nor its block is touched
    apply (h.holds o hmem).frame (Function.update_of_ne hne _ _)
    intro r hr
    show m r.storage = w.memory r.storage
    rw [hm, Function.update_of_ne (hunused.ne hr (by simpa using hne)),
      World.vacate_other h.placed hr hne]

/-- A move takes the views along, whether the storage moves or its text is copied. -/
theorem Inv.move (h : Inv v w) {dst src : Nat} {place left : Block} {other : StoredRequest}
    (hother : w.objects.lookup src = some other) (hdiffer : dst ≠ src)
    (hplace : place = other.storage ∨ w.Unused [dst] place) (hallowed : allowed dst place)
    (hleft : left ≠ place) (hallowedLeft : allowed src left)
    (hunusedLeft : w.Unused [dst, src] left)
    (hdetached : other.storage = place ∨ ∀ e ∈ other.pathParams, e.2.length = 0)
    {m : Memory Block UInt8}
    (hm : m = Function.update
      (Function.update (w.vacate dst place) place (some (w.content other))) left (some [])) :
    Inv v ⟨m, (w.objects.insert src (other.movedOut left)).insert dst
      (other.moveFrom m (w.content other) place),
      (w.passOn dst src).filter (· ≠ src)⟩ := by
  -- what is neither source nor destination uses neither block
  have hothers : ∀ {o r}, w.objects.lookup o = some r → o ≠ dst → o ≠ src →
      r.storage ≠ place ∧ r.storage ≠ left := by
    intro o r hr hdst hsrc
    refine ⟨?_, hunusedLeft.ne hr (by simp [hdst, hsrc])⟩
    rcases hplace with hsame | hunused
    · rw [hsame]
      exact (h.placed src other hother).2 o r hr hsrc
    · exact hunused.ne hr (by simpa using hdst)
  have hcontent : m place = some (w.content other) := by
    rw [hm, Function.update_of_ne (Ne.symm hleft), Function.update_self]
  rw [StoredRequest.moveFrom_eq]
  constructor
  · -- seen as: the destination goes, the source gets its new block, the
    -- destination comes back
    rw [lookup_insert, lookup_insert]
    have horder : Function.update
        (Function.update w.objects.lookup src (some (other.movedOut left))) dst
        (some (other.copyFrom m (w.content other) place)) =
      Function.update (Function.update (Function.update w.objects.lookup dst none) src
        (some (other.movedOut left))) dst
        (some (other.copyFrom m (w.content other) place)) := by
      rw [Function.update_comm hdiffer, Function.update_idem]
    have hgone : ∀ {o r}, Function.update w.objects.lookup dst none o = some r →
        o ≠ dst ∧ w.objects.lookup o = some r := by
      intro o r hr
      by_cases hdst : o = dst
      · rw [hdst, Function.update_self] at hr
        cases hr
      · exact ⟨hdst, by rwa [Function.update_of_ne hdst] at hr⟩
    rw [horder]
    apply Placed.update
    · apply (h.placed.erase dst).update hallowedLeft
      intro o r hr hsrc
      rcases hgone hr with ⟨hdst, hr'⟩
      exact (hothers hr' hdst hsrc).2
    · rw [StoredRequest.copyFrom_storage]
      exact hallowed
    · intro o r hr hdst
      rw [StoredRequest.copyFrom_storage]
      by_cases hsrc : o = src
      · -- the source
        rw [hsrc, Function.update_self] at hr
        obtain rfl := Option.some.inj hr
        exact hleft
      · rw [Function.update_of_ne hsrc] at hr
        exact (hothers (hgone hr).2 hdst hsrc).1
  intro o ho
  rcases List.mem_filter.1 ho with ⟨hpassed, hsrc⟩
  have hsrc := of_decide_eq_true hsrc
  rw [lookup_insert, lookup_insert]
  rcases World.mem_passOn hpassed with ⟨rfl, hholder⟩ | ⟨hne, hmem⟩
  · -- the destination
    rcases World.content_eq (h.holds src hholder) hother with ⟨hbytes, hrep⟩
    rw [hbytes] at hcontent ⊢
    refine ⟨_, Function.update_self _ _ _, ?_, ?_⟩
    · rw [StoredRequest.copyFrom_storage]
      exact hcontent
    · rw [StoredRequest.copyFrom_storage]
      exact StoredRequest.copyFrom_represents hrep hcontent hdetached
  · -- another holder
    apply (h.holds o hmem).frame
    · rw [Function.update_of_ne hne, Function.update_of_ne hsrc]
    · intro r hr
      rcases hothers hr hne hsrc with ⟨hp, hl⟩
      show m r.storage = w.memory r.storage
      rw [hm, Function.update_of_ne hl, Function.update_of_ne hp,
        World.vacate_other h.placed hr hne]

/-- A request is destroyed, and its storage with it. -/
theorem Inv.destroy (h : Inv v w) {object : Nat} {r : StoredRequest}
    (hr : w.objects.lookup object = some r) :
    Inv v ⟨Function.update w.memory r.storage none, w.objects.erase object,
      w.holders.filter (· ≠ object)⟩ := by
  constructor
  · rw [lookup_erase]
    exact h.placed.erase object
  intro o ho
  rcases List.mem_filter.1 ho with ⟨hmem, hne⟩
  have hne := of_decide_eq_true hne
  rw [lookup_erase]
  apply (h.holds o hmem).frame (Function.update_of_ne hne _ _)
  intro r' hr'
  exact Function.update_of_ne ((h.placed object r hr).2 o r' hr' hne) _ _

/-- A request is made in storage that nothing points into. -/
theorem Inv.create (h : Inv v w) {object : Nat} {r : StoredRequest} {content : Bytes}
    (hallowed : allowed object r.storage) (hunused : w.Unused [] r.storage) :
    Inv v ⟨Function.update w.memory r.storage (some content), w.objects.insert object r,
      w.holders.filter (· ≠ object)⟩ := by
  have hothers : ∀ {o r'}, w.objects.lookup o = some r' → r'.storage ≠ r.storage :=
    fun hr' => hunused.ne hr' List.not_mem_nil
  constructor
  · rw [lookup_insert]
    exact h.placed.update hallowed fun _ _ hr' _ => hothers hr'
  intro o ho
  rcases List.mem_filter.1 ho with ⟨hmem, hne⟩
  rw [lookup_insert]
  apply (h.holds o hmem).frame (Function.update_of_ne (of_decide_eq_true hne) _ _)
  intro r' hr'
  exact Function.update_of_ne (hothers hr') _ _

/-- Writing to a block that nothing points into keeps the invariant. -/
theorem Inv.write (h : Inv v w) {b : Block} (content : Option Bytes) (hunused : w.Unused [] b) :
    Inv v { w with memory := Function.update w.memory b content } := by
  refine ⟨h.placed, ?_⟩
  intro o ho
  apply (h.holds o ho).frame rfl
  intro r hr
  exact Function.update_of_ne (hunused.ne hr List.not_mem_nil) _ _

/-- The condition on the path parameters, as the steps use it. -/
theorem empty_params {other : StoredRequest}
    (h : (other.pathParams.all fun e => e.2.length = 0) = true) :
    ∀ e ∈ other.pathParams, e.2.length = 0 :=
  fun e he => of_decide_eq_true (List.all_eq_true.1 h e he)

/-- **Step lemma.** Every copy, move, destruction and write keeps what each holder reads. -/
theorem step_inv {a : Act} (h : Inv v w) (hok : detached w a = true)
    (hstep : step w a = some w') : Inv v w' := by
  cases a with
  | copy dst src place =>
      rcases Option.bind_eq_some_iff.1 hstep with ⟨other, hother, hrest⟩
      dsimp only [detached] at hok
      rw [hother, Option.all_some] at hok
      by_cases hsame : dst = src
      · -- an assignment to oneself
        rw [if_pos hsame] at hrest
        exact Option.some.inj hrest ▸ h
      rw [if_neg hsame] at hrest
      split at hrest
      next hguard =>
        obtain rfl := Option.some.inj hrest
        -- path parameters that show something would keep pointing into the source
        have hempty : (other.pathParams.all fun e => e.2.length = 0) = true := by
          simpa [hsame] using hok
        exact h.copy hother hguard.1 hguard.2 (Or.inr (empty_params hempty)) rfl
      · cases hrest
  | move dst src place left =>
      rcases Option.bind_eq_some_iff.1 hstep with ⟨other, hother, hrest⟩
      dsimp only [detached] at hok
      rw [hother, Option.all_some] at hok
      by_cases hsame : dst = src
      · rw [if_pos hsame] at hrest
        exact Option.some.inj hrest ▸ h
      rw [if_neg hsame] at hrest
      split at hrest
      next hguard =>
        rcases hguard with ⟨hplace, hallowed, hleft, hallowedLeft, hunusedLeft⟩
        obtain rfl := Option.some.inj hrest
        -- the block may be stolen, and then every view stays good
        have hdetached : other.storage = place ∨ ∀ e ∈ other.pathParams, e.2.length = 0 := by
          rw [decide_eq_false hsame, Bool.false_or, Bool.or_eq_true] at hok
          exact hok.imp of_decide_eq_true empty_params
        exact h.move hother hsame hplace hallowed hleft hallowedLeft hunusedLeft hdetached rfl
      · cases hrest
  | destroy object =>
      rcases Option.map_eq_some_iff.1 hstep with ⟨r, hr, rfl⟩
      exact h.destroy hr
  | create object r content =>
      dsimp only [step] at hstep
      split at hstep
      next hguard =>
        obtain rfl := Option.some.inj hstep
        exact h.create hguard.2.1 hguard.2.2
      · cases hstep
  | write b content =>
      dsimp only [step] at hstep
      split at hstep
      next hguard =>
        obtain rfl := Option.some.inj hstep
        exact h.write content hguard
      · cases hstep

end Steps

/-! ## Runs -/

/-- At the start one object is the original, among any others. -/
def Original (v : RequestValue) (w : World) : Prop :=
  Placed w.objects.lookup ∧ ∃ o, w.holders = [o] ∧ Holds v w.memory w.objects.lookup o

/-- Objects with an original that says `v`. -/
def copies (v : RequestValue) : Runs.System World Act where
  Start := Original v
  step := step

/-- The invariant holds at the start. -/
theorem Original.inv {v : RequestValue} {w : World} (h : Original v w) : Inv v w := by
  rcases h with ⟨hplaced, o, hholders, hholds⟩
  refine ⟨hplaced, ?_⟩
  intro p hp
  rw [hholders] at hp
  rw [List.mem_singleton.1 hp]
  exact hholds

/-- An owned request with parts of its own path for path parameters is such an
original. -/
theorem owned_original {mem : Bytes} {limit : Nat} {r : HttpRequest}
    (h : RequestShown mem limit r) {len : Nat} (hle : limit ≤ len) {m : Memory Block UInt8}
    (hm : m .buffer = some mem) {object : Nat} {place : Block} {params : List (Bytes × Nat × Nat)}
    (hparams : ∀ p ∈ params, p.2.1 + p.2.2 ≤ r.path.length) {w : World}
    (hplaced : Placed w.objects.lookup) (hholders : w.holders = [object])
    (hobject : w.objects.lookup object =
      some (((r.stored object).makeOwned m .buffer len place).2.withParams params))
    (hmemory : w.memory place = ((r.stored object).makeOwned m .buffer len place).1 place) :
    Original ((h.value len).withParams params) w := by
  rcases h.makeOwned hle hm object place with ⟨hrep, hbytes⟩
  have hstorage : (((r.stored object).makeOwned m .buffer len place).2.withParams params).storage =
      place := StoredRequest.rebaseViews_storage _ _ _ _
  refine ⟨hplaced, object, hholders, _, hobject, ?_, ?_⟩
  · rw [hstorage, hmemory]
    exact hbytes
  · rw [hstorage]
    apply hrep.withParams
    intro p hp
    exact hparams p hp

/-- **What has been copied says what the original said**, after any run in which no
request with path parameters has been copied or moved to another block. -/
theorem holders_read {v : RequestValue} {w : World}
    (h : Runs.Reached (copies v) (fun w a => detached w a = true) w) {o : Nat}
    (ho : o ∈ w.holders) :
    ∃ r, w.objects.lookup o = some r ∧ Reads w.memory r v := by
  have hinv : Inv v w := by
    apply h.invariant
    · exact fun _ hstart => Original.inv hstart
    · intro s a s' _ hP hok hstep
      exact step_inv hP hok hstep
  rcases hinv.holds o ho with ⟨r, hr, hbytes, hrep⟩
  exact ⟨r, hr, hrep.reads hbytes⟩

/-- `/u/7`, with the parameter `id` set from the path. -/
def userRequest : StoredRequest where
  method := .get
  path := ⟨some (.heap 0), 4, 4⟩
  version := ⟨some (.heap 0), 9, 8⟩
  headers := []
  queryParams := []
  pathParams := [(lit "id", ⟨some (.heap 0), 7, 1⟩)]
  body := ⟨none, 0, 0⟩
  storage := .heap 0

def userValue : RequestValue where
  storage := lit "GET /u/7 HTTP/1.1\r\n\r\n"
  method := .get
  path := lit "/u/7"
  version := lit "HTTP/1.1"
  headers := []
  queryParams := []
  pathParams := [(lit "id", lit "7")]
  body := []
  headers_distinct := List.nodup_nil
  queryParams_distinct := List.nodup_nil

def userWorld : World where
  memory := Function.update (fun _ => none) (.heap 0) (some userValue.storage)
  objects := AList.insert 0 userRequest ∅
  holders := [0]

/-- The one holder of this world says the value. -/
theorem userWorld_original : Original userValue userWorld := by
  have hstands : ∀ {offset : Nat} {x : Bytes}, x <+: userValue.storage.drop offset →
      Stands (Block.heap 0) userValue.storage ⟨some (Block.heap 0), offset, x.length⟩ x :=
    fun hleads => ⟨rfl, fun _ => ⟨rfl, hleads⟩⟩
  refine ⟨?_, 0, rfl, userRequest, AList.lookup_insert _, rfl, ?_⟩
  · have hnone : Placed (∅ : AList fun _ : Nat => StoredRequest).lookup := fun _ _ h => nomatch h
    unfold userWorld
    rw [lookup_insert]
    exact hnone.update rfl fun _ _ h _ => nomatch h
  · refine ⟨rfl, hstands (x := userValue.path) (by decide), hstands (x := userValue.version)
      (by decide), Stands.empty _ _ rfl, List.Forall₂.nil, List.Forall₂.nil, ?_⟩
    exact List.Forall₂.cons ⟨rfl, hstands (x := lit "7") (by decide)⟩ List.Forall₂.nil

/-- Moved on with its block, the request keeps its parameter. -/
theorem holders_read_moved :
    ∃ w, (copies userValue).runIf detached userWorld
        [.move 1 0 (.heap 0) (.inline 0), .destroy 0, .write .buffer none] = some w ∧
      ∃ r, w.objects.lookup 1 = some r ∧ r.param w.memory (lit "id") = some (some (lit "7")) := by
  have hrun : ((copies userValue).runIf detached userWorld
      [.move 1 0 (.heap 0) (.inline 0), .destroy 0, .write .buffer none]).map (·.holders) =
        some [1] := by
    decide +kernel
  rcases Option.map_eq_some_iff.1 hrun with ⟨w, hw, hholders⟩
  have hreached := Runs.reached_of_runIf (Runs.Reached.start userWorld_original) hw
  rcases holders_read hreached (o := 1) (by rw [hholders]; exact List.mem_singleton_self 1) with
    ⟨r, hr, hreads⟩
  refine ⟨w, hw, r, hr, ?_⟩
  rw [hreads.param]
  rfl

/-- The parameter of a copy is lost with the request it was copied from. -/
theorem copied_param_dangles :
    ¬ ∀ (v : RequestValue) (w : World), Runs.Reachable (copies v) w → ∀ o ∈ w.holders,
      ∃ r, w.objects.lookup o = some r ∧ Reads w.memory r v := by
  intro hclaim
  have hrun : ((copies userValue).run userWorld [.copy 1 0 (.heap 1), .destroy 0]).map
      (fun w => (w.holders, (w.objects.lookup 1).map fun r => r.param w.memory (lit "id"))) =
        some ([1], some (some none)) := by
    decide +kernel
  rcases Option.map_eq_some_iff.1 hrun with ⟨w, hw, hend⟩
  rcases Prod.mk.inj hend with ⟨hholders, hparam⟩
  have hreached := Runs.reachable_of_run (Runs.Reached.start userWorld_original) hw
  rcases hclaim userValue w hreached 1 (by rw [hholders]; exact List.mem_singleton_self 1) with
    ⟨r, hr, hreads⟩
  rw [hr, Option.map_some, hreads.param] at hparam
  revert hparam
  decide

end Copies

end Oreshnek
