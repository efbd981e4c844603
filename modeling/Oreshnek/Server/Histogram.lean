import Oreshnek.Lib.Runs

/-!
# The duration histogram

Calls of `observe_duration` from any number of threads. Each access to one of the shared
counters is a step of its own, and the steps of the calls come in any order. The sum is
updated by a loop around `compare_exchange_weak`, which fails when another call has been
faster, and may fail for no reason. When no call is under way the counters are exact
(`histogram_exact`); the sum is that of the durations in some order, since the addition of
`double` is not associative. While calls are under way, a bucket is ahead of a later one by
no more than their number (`buckets_cumulative`).
-/

namespace Oreshnek

namespace Histogram

/-- Where a call is. -/
inductive Stage (α : Type) where
  /-- Before the turn of the loop for this bucket. -/
  | bucket (i : Fin 9)
  | count
  | load
  /-- Before `compare_exchange_weak`, with this value in `cur`. -/
  | exchange (cur : α)
  | done
deriving DecidableEq

structure Call (α : Type) where
  seconds : α
  stage : Stage α
deriving DecidableEq

/-- The shared counters, and the calls so far. -/
structure State (α : Type) where
  buckets : Fin 9 → Nat
  count : Nat
  sum : α
  calls : List (Call α)
  /-- The durations in the order in which they went into the sum. The code does not keep it. -/
  added : List α

/-- `fetch_add(1)` on a `uint64_t`. -/
def fetchAdd (n : Nat) : Nat := (n + 1) % 2 ^ 64

section Steps

variable {α : Type} [Add α] [Zero α] [LE α] [DecidableLE α] [DecidableEq α] [OfScientific α]

/-- `kBuckets`. -/
def kBuckets : Fin 9 → α := ![0.0005, 0.001, 0.005, 0.01, 0.05, 0.1, 0.5, 1.0, 5.0]

/-- The counters of a new `Metrics`. -/
def start : State α where
  buckets := fun _ => 0
  count := 0
  sum := 0
  calls := []
  added := []

/-- Behind the turn for this bucket. -/
def Stage.afterBucket (i : Fin 9) : Stage α :=
  if h : i.val + 1 < 9 then .bucket ⟨i.val + 1, h⟩ else .count

inductive Act (α : Type) where
  /-- A call of `observe_duration`. -/
  | observe (seconds : α)
  /-- The next access of this call; `spurious` makes `compare_exchange_weak` fail. -/
  | advance (k : Nat) (spurious : Bool)

/-- What the call `c`, the `k`-th, does next. -/
def State.advance (s : State α) (k : Nat) (c : Call α) (spurious : Bool) : Option (State α) :=
  let move (stage : Stage α) : List (Call α) := s.calls.set k { c with stage := stage }
  match c.stage with
  | .bucket i =>
      let buckets := if c.seconds ≤ kBuckets i then
          Function.update s.buckets i (fetchAdd (s.buckets i)) else s.buckets
      some { s with buckets := buckets, calls := move (Stage.afterBucket i) }
  | .count => some { s with count := fetchAdd s.count, calls := move .load }
  | .load => some { s with calls := move (.exchange s.sum) }
  | .exchange cur =>
      if spurious = false ∧ s.sum = cur then
        some { s with
          sum := cur + c.seconds
          calls := move .done
          added := s.added ++ [c.seconds] }
      else some { s with calls := move (.exchange s.sum) }
  | .done => none

def step (s : State α) : Act α → Option (State α)
  | .observe seconds => some { s with calls := s.calls ++ [⟨seconds, .bucket 0⟩] }
  | .advance k spurious => (s.calls[k]?).bind fun c => s.advance k c spurious

/-- Calls from any number of threads. -/
def system (α : Type) [Add α] [Zero α] [LE α] [DecidableLE α] [DecidableEq α] [OfScientific α] :
    Runs.System (State α) (Act α) where
  Start := fun s => s = start
  step := step

/-! ## What has been counted -/

/-- How many accesses lie behind a call. -/
def Stage.position : Stage α → Nat
  | .bucket i => i
  | .count => 9
  | .load => 10
  | .exchange _ => 11
  | .done => 12

/-- The call has passed the bucket, and belongs to it. -/
def Call.counted (i : Fin 9) (c : Call α) : Bool :=
  i.val < c.stage.position && c.seconds ≤ kBuckets i

/-- The counters tell how many calls have passed them. -/
structure Tallied (s : State α) : Prop where
  buckets : ∀ i, s.buckets i = s.calls.countP (Call.counted i) % 2 ^ 64
  count : s.count = s.calls.countP (fun c => 9 < c.stage.position) % 2 ^ 64
  sum : s.sum = s.added.foldl (· + ·) 0
  added : s.added.Perm ((s.calls.filter fun c => c.stage.position = 12).map Call.seconds)

end Steps

/-- The stage behind a bucket is the next one. -/
theorem afterBucket_position {α : Type} (i : Fin 9) :
    (Stage.afterBucket i : Stage α).position = i.val + 1 := by
  unfold Stage.afterBucket
  split
  · rfl
  · show 9 = i.val + 1
    omega

/-- Behind the counters, and not through. -/
def Stage.Adding {α : Type} (stage : Stage α) : Prop :=
  9 < stage.position ∧ stage.position ≠ 12

theorem load_adding {α : Type} : (Stage.load : Stage α).Adding :=
  ⟨Nat.lt_succ_self 9, by show 10 ≠ 12; decide⟩

theorem exchange_adding {α : Type} (cur : α) : (Stage.exchange cur).Adding :=
  ⟨by show 9 < 11; decide, by show 11 ≠ 12; decide⟩

/-! ## One call is moved on -/

/-- The list around one of its elements. -/
theorem set_split {β : Type} {l : List β} {k : Nat} {c : β} (h : l[k]? = some c) :
    ∃ front back, l = front ++ c :: back ∧ ∀ c', l.set k c' = front ++ c' :: back := by
  rcases List.getElem?_eq_some_iff.1 h with ⟨hk, hget⟩
  refine ⟨l.take k, l.drop (k + 1), ?_, ?_⟩
  · rw [← hget, ← List.drop_eq_getElem_cons hk, List.take_append_drop]
  · intro c'
    rw [List.set_eq_take_append_cons_drop, if_pos hk]

theorem countP_set {β : Type} (p : β → Bool) {l : List β} {k : Nat} {c : β} (h : l[k]? = some c)
    (c' : β) : (l.set k c').countP p + (if p c then 1 else 0) =
      l.countP p + (if p c' then 1 else 0) := by
  rcases set_split h with ⟨front, back, hl, hset⟩
  rw [hset c', hl, List.countP_append, List.countP_append, List.countP_cons, List.countP_cons]
  omega

/-- Nothing changes for a count to which the call belongs before and afterwards, or neither. -/
theorem countP_set_same {β : Type} {p : β → Bool} {l : List β} {k : Nat} {c c' : β}
    (h : l[k]? = some c) (hp : p c' = p c) : (l.set k c').countP p = l.countP p := by
  have hcount := countP_set p h c'
  rw [hp] at hcount
  exact Nat.add_right_cancel hcount

theorem countP_set_new {β : Type} {p : β → Bool} {l : List β} {k : Nat} {c c' : β}
    (h : l[k]? = some c) (hp : p c = false) (hp' : p c' = true) :
    (l.set k c').countP p = l.countP p + 1 := by
  have hcount := countP_set p h c'
  rw [hp, hp'] at hcount
  exact hcount

/-- The calls that are through, when one that is not is moved on. -/
theorem done_set {α : Type} {l : List (Call α)} {k : Nat} {c : Call α} (h : l[k]? = some c)
    {stage : Stage α} (hc : c.stage.position ≠ 12) (hstage : stage.position ≠ 12) :
    (l.set k { c with stage := stage }).filter (fun c => c.stage.position = 12) =
      l.filter fun c => c.stage.position = 12 := by
  rcases set_split h with ⟨front, back, hl, hset⟩
  rw [hset, hl, List.filter_append, List.filter_append,
    List.filter_cons_of_neg (by simpa using hstage), List.filter_cons_of_neg (by simpa using hc)]

theorem fetchAdd_mod (n : Nat) : fetchAdd (n % 2 ^ 64) = (n + 1) % 2 ^ 64 := by
  unfold fetchAdd
  exact Nat.mod_add_mod _ _ _

section Runs

variable {α : Type} [Add α] [Zero α] [LE α] [DecidableLE α] [DecidableEq α] [OfScientific α]

omit [Add α] [Zero α] [DecidableEq α] in
/-- Behind the buckets no access changes to which of them a call belongs. -/
theorem counted_behind (i : Fin 9) {c : Call α} {stage : Stage α} (hc : 9 ≤ c.stage.position)
    (hstage : 9 ≤ stage.position) :
    Call.counted i { c with stage := stage } = Call.counted i c := by
  unfold Call.counted
  dsimp only
  rw [decide_eq_true (i.isLt.trans_le hstage), decide_eq_true (i.isLt.trans_le hc)]

omit [Add α] [Zero α] [DecidableEq α] in
/-- At a bucket a call does not belong to it yet. -/
theorem counted_at {i : Fin 9} {c : Call α} (hc : c.stage.position = i.val) :
    Call.counted i c = false := by
  unfold Call.counted
  rw [hc, decide_eq_false (Nat.lt_irrefl _), Bool.false_and]

omit [Add α] [Zero α] [DecidableEq α] in
/-- Behind it the call does, when it was short enough. -/
theorem counted_after (i : Fin 9) (c : Call α) :
    Call.counted i { c with stage := Stage.afterBucket i } = decide (c.seconds ≤ kBuckets i) := by
  unfold Call.counted
  dsimp only
  rw [afterBucket_position, decide_eq_true (Nat.lt_succ_self _), Bool.true_and]

omit [Add α] [Zero α] [DecidableEq α] in
/-- The other buckets do not see it. -/
theorem counted_other {i j : Fin 9} (hij : j ≠ i) {c : Call α} (hc : c.stage.position = i.val) :
    Call.counted j { c with stage := Stage.afterBucket i } = Call.counted j c := by
  have hval : j.val ≠ i.val := fun heq => hij (Fin.ext heq)
  unfold Call.counted
  dsimp only
  rw [afterBucket_position, hc]
  congr 1
  exact decide_eq_decide.2 (by omega)

omit [DecidableEq α] in
/-- A new call has counted nothing yet. -/
theorem Tallied.observe {s : State α} (h : Tallied s) (seconds : α) :
    Tallied { s with calls := s.calls ++ [⟨seconds, .bucket 0⟩] } := by
  constructor
  · intro i
    have hnew : Call.counted i (⟨seconds, .bucket 0⟩ : Call α) = false := rfl
    rw [List.countP_append, List.countP_singleton, hnew]
    exact h.buckets i
  · rw [List.countP_append]
    exact h.count
  · exact h.sum
  · rw [List.filter_append]
    have hnone : [(⟨seconds, .bucket 0⟩ : Call α)].filter (fun c => c.stage.position = 12) =
        [] := rfl
    rw [hnone, List.append_nil]
    exact h.added

omit [DecidableEq α] in
/-- The turn of the loop for a bucket. -/
theorem Tallied.turn {s : State α} (h : Tallied s) {k : Nat} {c : Call α} {i : Fin 9}
    (hk : s.calls[k]? = some c) (hc : c.stage.position = i.val) :
    Tallied { s with
      buckets := if c.seconds ≤ kBuckets i then
        Function.update s.buckets i (fetchAdd (s.buckets i)) else s.buckets
      calls := s.calls.set k { c with stage := Stage.afterBucket i } } := by
  have hposition := afterBucket_position (α := α) i
  constructor
  · intro j
    dsimp only
    by_cases hij : j = i
    · -- the bucket of this turn
      subst hij
      have hout := counted_at hc
      have hin := counted_after j c
      split
      next hle =>
        rw [Function.update_self, h.buckets j, fetchAdd_mod,
          countP_set_new hk hout (hin.trans (decide_eq_true hle))]
      next hle =>
        rw [countP_set_same hk (by rw [hin, hout]; exact decide_eq_false hle)]
        exact h.buckets j
    · -- another bucket
      have hother : (if c.seconds ≤ kBuckets i then
          Function.update s.buckets i (fetchAdd (s.buckets i)) else s.buckets) j =
          s.buckets j := by
        split
        · exact Function.update_of_ne hij _ _
        · rfl
      rw [hother, countP_set_same hk (counted_other hij hc)]
      exact h.buckets j
  · -- the count is moved in a later stage
    have hsame : decide (9 < (Stage.afterBucket i : Stage α).position) =
        decide (9 < c.stage.position) := by
      rw [hposition, hc]
      exact decide_eq_decide.2 (by omega)
    rw [countP_set_same hk hsame]
    exact h.count
  · exact h.sum
  · rw [done_set hk (by rw [hc]; omega) (by rw [hposition]; omega)]
    exact h.added

omit [DecidableEq α] in
/-- The access to the count. -/
theorem Tallied.counts {s : State α} (h : Tallied s) {k : Nat} {c : Call α}
    (hk : s.calls[k]? = some c) (hc : c.stage.position = 9) :
    Tallied { s with
      count := fetchAdd s.count
      calls := s.calls.set k { c with stage := .load } } := by
  constructor
  · intro i
    rw [countP_set_same hk (counted_behind i hc.ge load_adding.1.le)]
    exact h.buckets i
  · have hout : decide (9 < c.stage.position) = false := by
      rw [hc]
      rfl
    rw [countP_set_new hk hout rfl, h.count, fetchAdd_mod]
  · exact h.sum
  · rw [done_set hk (by rw [hc]; decide) load_adding.2]
    exact h.added

omit [DecidableEq α] in
/-- An access that touches no counter. -/
theorem Tallied.pass {s : State α} (h : Tallied s) {k : Nat} {c : Call α}
    (hk : s.calls[k]? = some c) {stage : Stage α} (hc : c.stage.Adding) (hstage : stage.Adding) :
    Tallied { s with calls := s.calls.set k { c with stage := stage } } := by
  constructor
  · intro i
    rw [countP_set_same hk (counted_behind i hc.1.le hstage.1.le)]
    exact h.buckets i
  · rw [countP_set_same hk (by rw [decide_eq_true hc.1]; exact decide_eq_true hstage.1)]
    exact h.count
  · exact h.sum
  · rw [done_set hk hc.2 hstage.2]
    exact h.added

omit [DecidableEq α] in
/-- The exchange that succeeds: the duration comes last in the sum. -/
theorem Tallied.adds {s : State α} (h : Tallied s) {k : Nat} {c : Call α}
    (hk : s.calls[k]? = some c) (hc : c.stage.Adding) :
    Tallied { s with
      sum := s.sum + c.seconds
      calls := s.calls.set k { c with stage := .done }
      added := s.added ++ [c.seconds] } := by
  have hdone : 9 < (Stage.done : Stage α).position := by
    show 9 < 12
    decide
  constructor
  · intro i
    rw [countP_set_same hk (counted_behind i hc.1.le hdone.le)]
    exact h.buckets i
  · rw [countP_set_same hk (by rw [decide_eq_true hc.1]; exact decide_eq_true hdone)]
    exact h.count
  · rw [List.foldl_append, ← h.sum]
    rfl
  · rcases set_split hk with ⟨front, back, hl, hset⟩
    have hadded := h.added
    rw [hl, List.filter_append, List.filter_cons_of_neg (by simpa using hc.2),
      List.map_append] at hadded
    dsimp only
    rw [hset, List.filter_append, List.filter_cons_of_pos rfl, List.map_append, List.map_cons]
    exact (List.perm_append_singleton _ _).trans ((hadded.cons _).trans List.perm_middle.symm)

/-- **Step lemma.** -/
theorem step_tallied {s s' : State α} {a : Act α} (h : Tallied s) (hstep : step s a = some s') :
    Tallied s' := by
  cases a with
  | observe seconds =>
      cases hstep
      exact h.observe seconds
  | advance k spurious =>
      rcases Option.bind_eq_some_iff.1 hstep with ⟨c, hk, hmove⟩
      unfold State.advance at hmove
      cases hstage : c.stage with
      | bucket i =>
          rw [hstage] at hmove
          cases hmove
          exact h.turn hk (congrArg Stage.position hstage)
      | count =>
          rw [hstage] at hmove
          cases hmove
          exact h.counts hk (congrArg Stage.position hstage)
      | load =>
          rw [hstage] at hmove
          cases hmove
          exact h.pass hk (hstage ▸ load_adding) (exchange_adding s.sum)
      | exchange cur =>
          have hadding : c.stage.Adding := hstage ▸ exchange_adding cur
          rw [hstage] at hmove
          dsimp only at hmove
          split at hmove
          next hwon =>
            cases hmove
            rw [← hwon.2]
            exact h.adds hk hadding
          next =>
            cases hmove
            exact h.pass hk hadding (exchange_adding s.sum)
      | done =>
          rw [hstage] at hmove
          cases hmove

theorem reachable_tallied {s : State α} (h : Runs.Reachable (system α) s) : Tallied s := by
  apply Runs.Reachable.invariant (P := Tallied) ?_ ?_ h
  · rintro s rfl
    exact ⟨fun _ => rfl, rfl, rfl, List.Perm.refl _⟩
  · intro s a s' _ htallied hstep
    exact step_tallied htallied hstep

/-! ## What is read -/

/-- The calls that are not through. -/
def State.underWay (s : State α) : Nat := s.calls.countP fun c => c.stage ≠ .done

/-- What is counted by one of two tests is counted by them together. -/
theorem countP_le_add {β : Type} {p q r : β → Bool} {l : List β}
    (h : ∀ x ∈ l, p x = true → q x = true ∨ r x = true) :
    l.countP p ≤ l.countP q + l.countP r := by
  induction l with
  | nil => exact le_rfl
  | cons x l ih =>
      have hrest := ih fun y hy => h y (List.mem_cons_of_mem x hy)
      have hx := h x List.mem_cons_self
      rw [List.countP_cons, List.countP_cons, List.countP_cons]
      by_cases hp : p x = true
      · rcases hx hp with hq | hr
        · rw [if_pos hp, if_pos hq]
          omega
        · rw [if_pos hp, if_pos hr]
          omega
      · rw [if_neg hp]
        omega

/-! ### When all calls are through -/

omit [DecidableEq α] in
/-- With no call under way a bucket is exact. -/
theorem Tallied.quiet_bucket {s : State α} (h : Tallied s)
    (hquiet : ∀ c ∈ s.calls, c.stage = .done) (i : Fin 9) :
    s.buckets i = s.calls.countP (fun c => c.seconds ≤ kBuckets i) % 2 ^ 64 := by
  rw [h.buckets i]
  congr 1
  apply List.countP_congr
  intro c hc
  unfold Call.counted
  rw [hquiet c hc]
  show (decide (i.val < 12) && _) = true ↔ _
  rw [decide_eq_true (i.isLt.trans (by decide)), Bool.true_and]

omit [DecidableEq α] in
theorem Tallied.quiet_count {s : State α} (h : Tallied s)
    (hquiet : ∀ c ∈ s.calls, c.stage = .done) : s.count = s.calls.length % 2 ^ 64 := by
  rw [h.count, List.countP_eq_length.2]
  intro c hc
  rw [hquiet c hc]
  rfl

omit [DecidableEq α] in
/-- With no call under way the sum has all durations. -/
theorem Tallied.quiet_added {s : State α} (h : Tallied s)
    (hquiet : ∀ c ∈ s.calls, c.stage = .done) : s.added.Perm (s.calls.map Call.seconds) := by
  have hall : s.calls.filter (fun c => c.stage.position = 12) = s.calls := by
    rw [List.filter_eq_self]
    intro c hc
    rw [hquiet c hc]
    rfl
  have hadded := h.added
  rw [hall] at hadded
  exact hadded

/-! ### While calls are under way -/

omit [Add α] [Zero α] [LE α] [DecidableLE α] [OfScientific α] in
/-- A call that has not passed a counter is not through. -/
theorem Call.not_done {c : Call α} {n : Nat} (hn : n < 12)
    (hnot : decide (n < c.stage.position) = false) : decide (c.stage ≠ .done) = true := by
  apply decide_eq_true
  intro hdone
  rw [hdone] at hnot
  exact absurd hn (of_decide_eq_false hnot)

omit [Add α] [Zero α] [LE α] [DecidableLE α] [DecidableEq α] [OfScientific α] in
/-- Counts that have not wrapped. -/
theorem countP_exact {s : State α} (hsmall : s.calls.length < 2 ^ 64) (p : Call α → Bool) :
    s.calls.countP p % 2 ^ 64 = s.calls.countP p :=
  Nat.mod_eq_of_lt (List.countP_le_length.trans_lt hsmall)

/-- A call that is in one bucket and not in a later one is not through. -/
theorem Tallied.bucket_le {s : State α} (h : Tallied s) (hsmall : s.calls.length < 2 ^ 64)
    {i j : Fin 9} (hle : ∀ c : α, c ≤ kBuckets i → c ≤ kBuckets j) :
    s.buckets i ≤ s.buckets j + s.underWay := by
  rw [h.buckets i, h.buckets j, countP_exact hsmall, countP_exact hsmall]
  apply countP_le_add
  intro c _ hc
  unfold Call.counted at hc ⊢
  rw [Bool.and_eq_true] at hc
  rw [decide_eq_true (hle _ (of_decide_eq_true hc.2)), Bool.and_true]
  cases hj : decide (j.val < c.stage.position) with
  | true => exact Or.inl rfl
  | false => exact Or.inr (Call.not_done (j.isLt.trans (by decide)) hj)

/-- Nor is one that is in a bucket and not in `count`. -/
theorem Tallied.bucket_le_count {s : State α} (h : Tallied s) (hsmall : s.calls.length < 2 ^ 64)
    (i : Fin 9) : s.buckets i ≤ s.count + s.underWay := by
  rw [h.buckets i, h.count, countP_exact hsmall, countP_exact hsmall]
  apply countP_le_add
  intro c _ _
  cases h9 : decide (9 < c.stage.position) with
  | true => exact Or.inl rfl
  | false => exact Or.inr (Call.not_done (by decide) h9)

/-- **The histogram.** Calls of `observe_duration` take their steps in any order. When all
are through, a bucket holds the number of durations up to its bound, `count` the number of
all, and the sum is the one that adding them in some order gives. At any time, as long as no
counter has wrapped, a bucket is ahead of the later ones and of `count` by no more than the
number of calls that are not through. -/
theorem histogram_exact (htrans : ∀ a b c : α, a ≤ b → b ≤ c → a ≤ c)
    (hbounds : ∀ i j : Fin 9, i ≤ j → (kBuckets i : α) ≤ kBuckets j) {s : State α}
    (h : Runs.Reachable (system α) s) :
    ((∀ c ∈ s.calls, c.stage = .done) →
      (∀ i, s.buckets i = s.calls.countP (fun c => c.seconds ≤ kBuckets i) % 2 ^ 64) ∧
      s.count = s.calls.length % 2 ^ 64 ∧
      ∃ order : List α, order.Perm (s.calls.map Call.seconds) ∧
        s.sum = order.foldl (· + ·) 0) ∧
    (s.calls.length < 2 ^ 64 →
      (∀ i j, i ≤ j → s.buckets i ≤ s.buckets j + s.underWay) ∧
      ∀ i, s.buckets i ≤ s.count + s.underWay) := by
  have htallied := reachable_tallied h
  constructor
  · intro hquiet
    exact ⟨htallied.quiet_bucket hquiet, htallied.quiet_count hquiet, s.added,
      htallied.quiet_added hquiet, htallied.sum⟩
  · intro hsmall
    constructor
    · intro i j hij
      exact htallied.bucket_le hsmall fun c hc => htrans _ _ _ hc (hbounds i j hij)
    · exact htallied.bucket_le_count hsmall

end Runs

/-- Two durations, the second of which is added while the first call is in its loop. -/
def racingTwo : List (Act ℚ) :=
  [.observe 0.002, .observe 0.7] ++ List.replicate 11 (.advance 0 false) ++
    List.replicate 12 (.advance 1 false) ++ [.advance 0 false, .advance 0 true, .advance 0 false]

/-- Two calls that race for the sum. -/
theorem histogram_exact_racing : ∃ s : State ℚ, (system ℚ).run start racingTwo = some s ∧
    s.sum = 0.702 ∧
    ((∀ c ∈ s.calls, c.stage = .done) →
      (∀ i, s.buckets i = s.calls.countP (fun c => c.seconds ≤ kBuckets i) % 2 ^ 64) ∧
      s.count = s.calls.length % 2 ^ 64 ∧
      ∃ order : List ℚ, order.Perm (s.calls.map Call.seconds) ∧
        s.sum = order.foldl (· + ·) 0) ∧
    (s.calls.length < 2 ^ 64 →
      (∀ i j, i ≤ j → s.buckets i ≤ s.buckets j + s.underWay) ∧
      ∀ i, s.buckets i ≤ s.count + s.underWay) := by
  have hrun : ((system ℚ).run start racingTwo).map (fun s => decide (s.sum = 0.702)) =
      some true := by
    decide +kernel
  rcases Option.map_eq_some_iff.1 hrun with ⟨s, hs, hvalue⟩
  have hbounds : ∀ i j : Fin 9, i ≤ j → (kBuckets i : ℚ) ≤ kBuckets j := by decide +kernel
  exact ⟨s, hs, of_decide_eq_true hvalue, histogram_exact (fun _ _ _ => le_trans) hbounds
    (Runs.reachable_of_run (.start rfl) hs)⟩

end Histogram

end Oreshnek
