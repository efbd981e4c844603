import Oreshnek.Base
import Oreshnek.Lib.Refill

/-!
# The token bucket limiter

`TokenBucketLimiter`, with its tokens and its times read as exact rationals (times in seconds).
`clock` readings are arguments.

What a key can still spend is the level of its bucket, or a full one where it has none
(`bucketBudget`), and so no window allows more calls than a bucket and its refill
(`allowed_in_window_le`). `evict_idle` drops the buckets that are full, which nobody notices as
long as a full bucket holds a token (`evictions_unobservable_iff`).
-/

namespace Oreshnek

/-! ## The code -/

structure Bucket where
  tokens : ℚ
  lastRefill : ℚ
deriving DecidableEq

structure TokenBucketLimiter where
  rate : ℚ
  burst : ℚ
  buckets : Bytes → Option Bucket

namespace TokenBucketLimiter

/-- The constructor. -/
def new (ratePerSec burst : ℚ) : TokenBucketLimiter where
  rate := if 0 < ratePerSec then ratePerSec else 1
  burst := if 0 < burst then burst else 1
  buckets := fun _ => none

/-- A bucket is stored under a key. -/
def put (l : TokenBucketLimiter) (key : Bytes) (b : Bucket) : TokenBucketLimiter :=
  { l with buckets := Function.update l.buckets key (some b) }

/-- What a bucket has refilled to. -/
def refilled (l : TokenBucketLimiter) (b : Bucket) (now : ℚ) : ℚ :=
  b.tokens + (now - b.lastRefill) * l.rate

/-- `allow`. -/
def allow (l : TokenBucketLimiter) (key : Bytes) (now : ℚ) : Bool × TokenBucketLimiter :=
  match l.buckets key with
  | none => (true, l.put key ⟨l.burst - 1, now⟩)
  | some b =>
      let tokens := min l.burst (l.refilled b now)
      if 1 ≤ tokens then (true, l.put key ⟨tokens - 1, now⟩)
      else (false, l.put key ⟨tokens, now⟩)

/-- `evict_idle`. -/
def evictIdle (l : TokenBucketLimiter) (now : ℚ) : TokenBucketLimiter :=
  { l with
    buckets := fun key =>
      match l.buckets key with
      | none => none
      | some b => if l.burst ≤ l.refilled b now then none else some b }

/-! ## Sequences of calls -/

inductive Call where
  | allow (key : Bytes)
  | evictIdle
deriving DecidableEq

def step (l : TokenBucketLimiter) (now : ℚ) : Call → TokenBucketLimiter
  | .allow key => (l.allow key now).2
  | .evictIdle => l.evictIdle now

theorem step_allow (l : TokenBucketLimiter) (now : ℚ) (key : Bytes) :
    l.step now (.allow key) = (l.allow key now).2 := rfl

theorem step_evictIdle (l : TokenBucketLimiter) (now : ℚ) :
    l.step now .evictIdle = l.evictIdle now := rfl

/-- The calls of `allow`, with their time and key and what they return. -/
def answers : TokenBucketLimiter → List (ℚ × Call) → List (ℚ × Bytes × Bool)
  | _, [] => []
  | l, (now, .allow key) :: calls =>
      (now, key, (l.allow key now).1) :: answers (l.step now (.allow key)) calls
  | l, (now, .evictIdle) :: calls => answers (l.step now .evictIdle) calls

/-- The calls of `allow` for a key between two times that return true. -/
def allowedBetween (l : TokenBucketLimiter) (key : Bytes) (start stop : ℚ)
    (calls : List (ℚ × Call)) : Nat :=
  (l.answers calls).countP fun a => a.2.1 = key ∧ a.2.2 = true ∧ start ≤ a.1 ∧ a.1 ≤ stop

/-! ## One call -/

section

variable {l : TokenBucketLimiter} {key key' : Bytes} {b : Bucket} {now : ℚ}

@[simp] theorem put_self : (l.put key b).buckets key = some b := Function.update_self ..

theorem put_other (h : key' ≠ key) : (l.put key b).buckets key' = l.buckets key' :=
  Function.update_of_ne h _ _

theorem allow_none (h : l.buckets key = none) :
    l.allow key now = (true, l.put key ⟨l.burst - 1, now⟩) := by
  unfold allow
  rw [h]

/-- What a bucket that is there says: the call is allowed if it has refilled to a token. -/
theorem allow_some (h : l.buckets key = some b) :
    l.allow key now =
      if 1 ≤ min l.burst (l.refilled b now) then
        (true, l.put key ⟨min l.burst (l.refilled b now) - 1, now⟩)
      else (false, l.put key ⟨min l.burst (l.refilled b now), now⟩) := by
  unfold allow
  rw [h]

/-- A call changes nothing but the buckets. -/
theorem step_buckets (l : TokenBucketLimiter) (now : ℚ) (c : Call) :
    ∃ buckets, l.step now c = { l with buckets := buckets } := by
  cases c with
  | evictIdle => exact ⟨_, rfl⟩
  | allow key =>
      cases h : l.buckets key with
      | none =>
          rw [step_allow, allow_none h]
          exact ⟨_, rfl⟩
      | some b =>
          rw [step_allow, allow_some h]
          split
          · exact ⟨_, rfl⟩
          · exact ⟨_, rfl⟩

@[simp] theorem step_rate (l : TokenBucketLimiter) (now : ℚ) (c : Call) :
    (l.step now c).rate = l.rate := by
  obtain ⟨buckets, h⟩ := step_buckets l now c
  rw [h]

@[simp] theorem step_burst (l : TokenBucketLimiter) (now : ℚ) (c : Call) :
    (l.step now c).burst = l.burst := by
  obtain ⟨buckets, h⟩ := step_buckets l now c
  rw [h]

/-- A call for one key leaves the bucket of another alone. -/
theorem step_allow_other (h : key' ≠ key) :
    (l.step now (.allow key)).buckets key' = l.buckets key' := by
  cases hb : l.buckets key with
  | none => rw [step_allow, allow_none hb]; exact put_other h
  | some b =>
      rw [step_allow, allow_some hb]
      split
      · exact put_other h
      · exact put_other h

theorem evictIdle_none (h : l.buckets key = none) : (l.evictIdle now).buckets key = none := by
  unfold evictIdle
  dsimp only
  rw [h]

theorem evictIdle_some (h : l.buckets key = some b) :
    (l.evictIdle now).buckets key = if l.burst ≤ l.refilled b now then none else some b := by
  unfold evictIdle
  dsimp only
  rw [h]

end

/-! ## What a key can spend -/

/-- The most that a key can spend at once: a call for a key without a bucket is allowed, even
if a bucket holds less than a token. -/
def cap (burst : ℚ) : ℚ := max 1 burst

/-- What a key can still spend at a time. -/
def level (burst : ℚ) (l : TokenBucketLimiter) (key : Bytes) (now : ℚ) : ℚ :=
  match l.buckets key with
  | none => cap burst
  | some b => min burst (l.refilled b now) + (cap burst - burst)

/-- The parameters, and the bucket of the key between its bounds, refilled no later than now. -/
structure Filled (rate burst : ℚ) (key : Bytes) (l : TokenBucketLimiter) (now : ℚ) : Prop where
  rate_eq : l.rate = rate
  burst_eq : l.burst = burst
  bucket : ∀ b, l.buckets key = some b → b.lastRefill ≤ now ∧ burst - cap burst ≤ b.tokens

/-- A call of `allow` for the key costs one token if it is allowed. -/
def price (key : Bytes) (l : TokenBucketLimiter) (now : ℚ) : Call → ℚ
  | .allow key' => if key' = key ∧ (l.allow key now).1 = true then 1 else 0
  | .evictIdle => 0

def spending (key : Bytes) : Refill.Machine TokenBucketLimiter Call ℚ where
  step := step
  cost := price key

section

variable {rate burst : ℚ} {key : Bytes} {l : TokenBucketLimiter} {now : ℚ} {b : Bucket}

theorem level_none (h : l.buckets key = none) : level burst l key now = cap burst := by
  unfold level
  rw [h]

theorem level_some (h : l.buckets key = some b) :
    level burst l key now = min burst (l.refilled b now) + (cap burst - burst) := by
  unfold level
  rw [h]

theorem one_le_cap (burst : ℚ) : 1 ≤ cap burst := le_max_left _ _

/-- A bucket that holds a token now is a full one at most, so that a token less is not below the
least filling. -/
theorem cap_le_of_token {tokens : ℚ} (h : 1 ≤ min burst tokens) :
    burst - cap burst ≤ min burst tokens - 1 := by
  have hburst : cap burst = burst := max_eq_right (h.trans (min_le_left _ _))
  rw [hburst, sub_self]
  exact sub_nonneg.2 h

theorem refilled_now (l : TokenBucketLimiter) (tokens now : ℚ) :
    l.refilled ⟨tokens, now⟩ now = tokens := by
  unfold refilled
  rw [sub_self, zero_mul, add_zero]

/-- With time a bucket refills at the rate. -/
theorem refilled_later (l : TokenBucketLimiter) (b : Bucket) (now later : ℚ) :
    l.refilled b later = l.refilled b now + l.rate * (later - now) := by
  unfold refilled
  ring

/-- A bucket is not below its bound. -/
theorem Filled.refilled_ge (h : Filled rate burst key l now) (hrate : 0 ≤ rate)
    (hb : l.buckets key = some b) : burst - cap burst ≤ l.refilled b now := by
  obtain ⟨hlast, htokens⟩ := h.bucket b hb
  have hgain : 0 ≤ (now - b.lastRefill) * l.rate := by
    rw [h.rate_eq]
    exact mul_nonneg (sub_nonneg.2 hlast) hrate
  unfold refilled
  linarith

theorem Filled.later (h : Filled rate burst key l now) {later : ℚ} (hle : now ≤ later) :
    Filled rate burst key l later :=
  ⟨h.rate_eq, h.burst_eq, fun b hb => ⟨(h.bucket b hb).1.trans hle, (h.bucket b hb).2⟩⟩

/-- Every call keeps the bucket of the key between its bounds. -/
theorem Filled.step (h : Filled rate burst key l now) (hrate : 0 ≤ rate) (c : Call) :
    Filled rate burst key (l.step now c) now := by
  refine ⟨by rw [step_rate, h.rate_eq], by rw [step_burst, h.burst_eq], ?_⟩
  intro b' hb'
  cases c with
  | evictIdle =>
      -- what is not dropped stays as it is
      have hb' : (l.evictIdle now).buckets key = some b' := hb'
      cases hb : l.buckets key with
      | none =>
          rw [evictIdle_none hb] at hb'
          cases hb'
      | some b =>
          rw [evictIdle_some hb] at hb'
          split at hb'
          · cases hb'
          · cases hb'
            exact h.bucket _ hb
  | allow key' =>
      by_cases hkey : key = key'
      · subst hkey
        have hlow : burst - cap burst ≤ burst - 1 := sub_le_sub_left (one_le_cap burst) burst
        cases hb : l.buckets key with
        | none =>
            rw [step_allow, allow_none hb, put_self] at hb'
            cases hb'
            exact ⟨le_refl now, by rw [h.burst_eq]; exact hlow⟩
        | some b =>
            rw [step_allow, allow_some hb, h.burst_eq] at hb'
            split at hb'
            next htoken =>
              rw [put_self] at hb'
              cases hb'
              exact ⟨le_refl now, cap_le_of_token htoken⟩
            next =>
              rw [put_self] at hb'
              cases hb'
              refine ⟨le_refl now, le_min ?_ (h.refilled_ge hrate hb)⟩
              exact sub_le_self _ (zero_le_one.trans (one_le_cap burst))
      · rw [step_allow_other hkey] at hb'
        exact h.bucket b' hb'

/-- What a call costs is taken from the level. -/
theorem Filled.spends (h : Filled rate burst key l now) (c : Call) :
    level burst (l.step now c) key now + price key l now c ≤ level burst l key now := by
  cases c with
  | evictIdle =>
      have hcost : price key l now .evictIdle = 0 := rfl
      rw [hcost, add_zero]
      cases hb : l.buckets key with
      | none =>
          have hafter : (l.step now .evictIdle).buckets key = none := evictIdle_none hb
          rw [level_none hb, level_none hafter]
      | some b =>
          have hafter : (l.step now .evictIdle).buckets key = _ := evictIdle_some hb
          rw [h.burst_eq] at hafter
          split at hafter
          next hfull =>
            -- a full bucket is worth as much as none
            rw [level_none hafter, level_some hb, min_eq_left hfull, add_sub_cancel]
          next => rw [level_some hafter, level_some hb]; exact le_refl _
  | allow key' =>
      by_cases hkey : key = key'
      · subst hkey
        have hcost : price key l now (.allow key) =
            if (l.allow key now).1 = true then 1 else 0 := by
          unfold price
          simp only [true_and]
        rw [hcost]
        cases hb : l.buckets key with
        | none =>
            have hafter : (l.step now (.allow key)).buckets key = some ⟨burst - 1, now⟩ := by
              rw [step_allow, allow_none hb, put_self, h.burst_eq]
            have hless : min burst (burst - 1) = burst - 1 := min_eq_right (by linarith)
            rw [level_none hb, level_some hafter, refilled_now, allow_none hb, if_pos rfl, hless]
            linarith
        | some b =>
            by_cases htoken : 1 ≤ min burst (l.refilled b now)
            · have hallow : l.allow key now =
                  (true, l.put key ⟨min burst (l.refilled b now) - 1, now⟩) := by
                rw [allow_some hb, h.burst_eq, if_pos htoken]
              have hafter : (l.step now (.allow key)).buckets key =
                  some ⟨min burst (l.refilled b now) - 1, now⟩ := by
                rw [step_allow, hallow, put_self]
              rw [level_some hafter, level_some hb, refilled_now, hallow, if_pos rfl]
              have hmin := min_le_right burst (min burst (l.refilled b now) - 1)
              linarith
            · have hallow : l.allow key now =
                  (false, l.put key ⟨min burst (l.refilled b now), now⟩) := by
                rw [allow_some hb, h.burst_eq, if_neg htoken]
              have hafter : (l.step now (.allow key)).buckets key =
                  some ⟨min burst (l.refilled b now), now⟩ := by
                rw [step_allow, hallow, put_self]
              rw [level_some hafter, level_some hb, refilled_now, hallow,
                if_neg Bool.false_ne_true, add_zero]
              exact add_le_add_left (min_le_right _ _) _
      · -- the bucket of another key
        have hcost : price key l now (.allow key') = 0 := if_neg fun hin => hkey hin.1.symm
        have hafter : (l.step now (.allow key')).buckets key = l.buckets key :=
          step_allow_other hkey
        rw [hcost, add_zero]
        cases hb : l.buckets key with
        | none => rw [level_none hb, level_none (hafter.trans hb)]
        | some b =>
            have hsame : (l.step now (.allow key')).refilled b now = l.refilled b now := by
              unfold refilled
              rw [step_rate]
            rw [level_some hb, level_some (hafter.trans hb), hsame]

/-- A level is not above the cap. -/
theorem level_le_cap (burst : ℚ) (l : TokenBucketLimiter) (key : Bytes) (now : ℚ) :
    level burst l key now ≤ cap burst := by
  cases hb : l.buckets key with
  | none => exact le_of_eq (level_none hb)
  | some b =>
      rw [level_some hb]
      have := min_le_left burst (l.refilled b now)
      linarith

/-- The level of a key is a budget. -/
def bucketBudget (burst : ℚ) (key : Bytes) (hrate : 0 ≤ rate) :
    Refill.Budget (spending key) rate (cap burst) where
  inv := Filled rate burst key
  level l now := level burst l key now
  rate_nonneg := hrate
  inv_later h hle := h.later hle
  inv_step h := h.step hrate _
  nonneg := by
    intro l now h
    have hcap := zero_le_one.trans (one_le_cap burst)
    cases hb : l.buckets key with
    | none =>
        rw [level_none hb]
        exact hcap
    | some b =>
        have hlow : burst - cap burst ≤ min burst (l.refilled b now) :=
          le_min (sub_le_self _ hcap) (h.refilled_ge hrate hb)
        rw [level_some hb]
        linarith
  le_cap _ := level_le_cap burst _ key _
  refills := by
    intro l now later h hle
    have hgain : 0 ≤ rate * (later - now) := mul_nonneg hrate (sub_nonneg.2 hle)
    cases hb : l.buckets key with
    | none =>
        rw [level_none hb, level_none hb]
        linarith
    | some b =>
        have hmin : min burst (l.refilled b later) ≤
            min burst (l.refilled b now) + rate * (later - now) := by
          rw [refilled_later l b now later, h.rate_eq, ← min_add_add_right]
          exact min_le_min_right _ (le_add_of_nonneg_right hgain)
        rw [level_some hb, level_some hb]
        linarith
  spends h := h.spends _

/-- What is spent is the number of calls that are allowed. -/
theorem spent_eq (key : Bytes) (start stop : ℚ) (l : TokenBucketLimiter) (calls : List (ℚ × Call)) :
    (spending key).spent start stop l calls = l.allowedBetween key start stop calls := by
  unfold allowedBetween
  induction calls generalizing l with
  | nil => simp [Refill.Machine.spent, answers]
  | cons e calls ih =>
      obtain ⟨now, c⟩ := e
      unfold Refill.Machine.spent
      rw [show (spending key).step l now c = l.step now c from rfl, ih]
      cases c with
      | evictIdle =>
          show (if start ≤ now ∧ now ≤ stop then (0 : ℚ) else 0) + _ = _
          rw [ite_self, zero_add]
          rfl
      | allow key' =>
          rw [answers, List.countP_cons, Nat.cast_add, add_comm]
          congr 1
          show (if start ≤ now ∧ now ≤ stop then
            (if key' = key ∧ (l.allow key now).1 = true then (1 : ℚ) else 0) else 0) = _
          by_cases hwindow : start ≤ now ∧ now ≤ stop
          · by_cases hkey : key' = key
            · subst hkey
              simp [hwindow]
            · simp [hkey]
          · rw [if_neg hwindow, if_neg]
            · simp
            · simp only [decide_eq_true_eq, not_and]
              intro _ _ hstart hstop
              exact hwindow ⟨hstart, hstop⟩

end

/-- There is a time before all calls. -/
theorem exists_first {calls : List (ℚ × Call)} (hordered : calls.Pairwise fun a b => a.1 ≤ b.1) :
    ∃ first : ℚ, ∀ e ∈ calls, first ≤ e.1 := by
  cases calls with
  | nil => exact ⟨0, fun e he => absurd he List.not_mem_nil⟩
  | cons e calls =>
      refine ⟨e.1, fun e' he' => ?_⟩
      rcases List.mem_cons.1 he' with rfl | he'
      · exact le_refl _
      · exact (List.pairwise_cons.1 hordered).1 e' he'

/-- **The bound**: in a window of length `T` a key is allowed no more calls than a bucket holds,
or one, and what is refilled in that time. -/
theorem allowed_in_window_le {rate burst : ℚ} (hrate : 0 < rate) (hburst : 0 < burst) (key : Bytes)
    {calls : List (ℚ × Call)} (hordered : calls.Pairwise fun a b => a.1 ≤ b.1) (start : ℚ) {T : ℚ}
    (hT : 0 ≤ T) :
    ((new rate burst).allowedBetween key start (start + T) calls : ℚ) ≤ max 1 burst + rate * T := by
  have hwindow : start ≤ start + T := le_add_of_nonneg_right hT
  obtain ⟨first, hfirst⟩ := exists_first hordered
  have hinv : Filled rate burst key (new rate burst) first := by
    refine ⟨if_pos hrate, if_pos hburst, ?_⟩
    intro b hb
    cases hb
  have hspent := (bucketBudget burst key hrate.le).spent_le hordered hfirst hinv hwindow
  rw [spent_eq, add_sub_cancel_left] at hspent
  exact hspent

/-- A second with a bucket of half a token that is dropped in between. -/
theorem allowed_in_second :
    ((new 2 (1 / 2)).allowedBetween (lit "a") 0 (0 + 1)
      [(0, .allow (lit "a")), (1 / 2, .evictIdle), (1, .allow (lit "a"))] : ℚ) ≤
      max 1 (1 / 2) + 2 * 1 :=
  allowed_in_window_le (by norm_num) (by norm_num) (lit "a") (by norm_num) 0 (by norm_num)

/-! ## Evictions -/

/-- The same calls with the evictions left out. -/
def withoutEvictions (calls : List (ℚ × Call)) : List (ℚ × Call) :=
  calls.filter fun e => e.2 ≠ .evictIdle

@[simp] theorem withoutEvictions_evictIdle (now : ℚ) (calls : List (ℚ × Call)) :
    withoutEvictions ((now, .evictIdle) :: calls) = withoutEvictions calls := rfl

@[simp] theorem withoutEvictions_allow (now : ℚ) (key : Bytes) (calls : List (ℚ × Call)) :
    withoutEvictions ((now, .allow key) :: calls) = (now, .allow key) :: withoutEvictions calls :=
  rfl

/-- The limiter that evicts, and the one that does not. -/
structure SameParameters (rate burst : ℚ) (l l' : TokenBucketLimiter) : Prop where
  rate_left : l.rate = rate
  rate_right : l'.rate = rate
  burst_left : l.burst = burst
  burst_right : l'.burst = burst

section

variable {rate burst : ℚ} {key : Bytes} {l l' : TokenBucketLimiter} {now : ℚ} {b : Bucket}

theorem SameParameters.step_left (h : SameParameters rate burst l l') (now : ℚ) (c : Call) :
    SameParameters rate burst (l.step now c) l' :=
  ⟨by rw [step_rate, h.rate_left], h.rate_right, by rw [step_burst, h.burst_left], h.burst_right⟩

theorem SameParameters.step (h : SameParameters rate burst l l') (now : ℚ) (c : Call) :
    SameParameters rate burst (l.step now c) (l'.step now c) :=
  ⟨by rw [step_rate, h.rate_left], by rw [step_rate, h.rate_right],
    by rw [step_burst, h.burst_left], by rw [step_burst, h.burst_right]⟩

theorem SameParameters.refilled_eq (h : SameParameters rate burst l l') (b : Bucket) (now : ℚ) :
    l.refilled b now = l'.refilled b now := by
  unfold refilled
  rw [h.rate_left, h.rate_right]

/-- The same bucket gives the same answer, and stays the same. -/
theorem SameParameters.allow_eq (h : SameParameters rate burst l l')
    (hbucket : l.buckets key = l'.buckets key) (now : ℚ) :
    (l.allow key now).1 = (l'.allow key now).1 ∧
      (l.step now (.allow key)).buckets key = (l'.step now (.allow key)).buckets key := by
  have hburst := h.burst_left.trans h.burst_right.symm
  rw [step_allow, step_allow]
  cases hb : l'.buckets key with
  | none =>
      rw [allow_none (hbucket.trans hb), allow_none hb, hburst, put_self, put_self]
      exact ⟨rfl, rfl⟩
  | some b =>
      rw [allow_some (hbucket.trans hb), allow_some hb, hburst, h.refilled_eq]
      split
      · rw [put_self, put_self]
        exact ⟨rfl, rfl⟩
      · rw [put_self, put_self]
        exact ⟨rfl, rfl⟩

/-! ### Buckets of a token and more -/

/-- A key has the same bucket with both limiters, or a full one where evictions dropped it. -/
def Interchangeable (burst : ℚ) (l l' : TokenBucketLimiter) (now : ℚ) : Prop :=
  ∀ key, l.buckets key = l'.buckets key ∨
    l.buckets key = none ∧ ∃ b, l'.buckets key = some b ∧ burst ≤ l'.refilled b now

/-- Limiters stay interchangeable as time goes on. -/
theorem Interchangeable.later (h : Interchangeable burst l l' now) (hrate : 0 ≤ l'.rate) {later : ℚ}
    (hle : now ≤ later) : Interchangeable burst l l' later := by
  intro key
  rcases h key with hsame | ⟨hnone, b, hb, hfull⟩
  · exact .inl hsame
  · refine .inr ⟨hnone, b, hb, hfull.trans ?_⟩
    rw [refilled_later l' b now later]
    exact le_add_of_nonneg_right (mul_nonneg hrate (sub_nonneg.2 hle))

/-- An eviction on one side keeps two limiters interchangeable. -/
theorem Interchangeable.evictIdle (h : Interchangeable burst l l' now)
    (hparams : SameParameters rate burst l l') :
    Interchangeable burst (l.step now .evictIdle) l' now := by
  intro key
  have hevict : (l.step now .evictIdle).buckets key = (l.evictIdle now).buckets key := rfl
  rcases h key with hsame | ⟨hnone, hfull⟩
  · cases hb : l'.buckets key with
    | none => exact .inl (hevict.trans (evictIdle_none (hsame.trans hb)))
    | some b =>
        rw [evictIdle_some (hsame.trans hb), hparams.burst_left, hparams.refilled_eq] at hevict
        split at hevict
        next hfull => exact .inr ⟨hevict, b, rfl, hfull⟩
        next => exact .inl hevict
  · exact .inr ⟨hevict.trans (evictIdle_none hnone), hfull⟩

/-- A full bucket and none give the same answer and leave the same behind. -/
theorem Interchangeable.allow (h : Interchangeable burst l l' now)
    (hparams : SameParameters rate burst l l') (hburst : 1 ≤ burst) (key : Bytes) :
    (l.allow key now).1 = (l'.allow key now).1 ∧
      Interchangeable burst (l.step now (.allow key)) (l'.step now (.allow key)) now := by
  have hkey : (l.allow key now).1 = (l'.allow key now).1 ∧
      (l.step now (.allow key)).buckets key = (l'.step now (.allow key)).buckets key := by
    rcases h key with hsame | ⟨hnone, b, hb, hfull⟩
    · exact hparams.allow_eq hsame now
    · have hmin : min l'.burst (l'.refilled b now) = burst := by
        rw [hparams.burst_right]
        exact min_eq_left hfull
      rw [step_allow, step_allow, allow_none hnone, allow_some hb, hmin, if_pos hburst, put_self, put_self,
        hparams.burst_left]
      exact ⟨rfl, rfl⟩
  refine ⟨hkey.1, fun key' => ?_⟩
  by_cases hother : key' = key
  · exact .inl (hother ▸ hkey.2)
  · rw [step_allow_other hother, step_allow_other hother]
    rcases h key' with hsame | ⟨hnone, b, hb, hfull⟩
    · exact .inl hsame
    · refine .inr ⟨hnone, b, hb, ?_⟩
      have hrefilled : (l'.step now (.allow key)).refilled b now = l'.refilled b now := by
        unfold refilled
        rw [step_rate]
      rw [hrefilled]
      exact hfull

/-- With a burst of one or more, evictions change no answer. -/
theorem answers_eq_of_one_le (hrate : 0 ≤ rate) (hburst : 1 ≤ burst) {calls : List (ℚ × Call)}
    (hordered : calls.Pairwise fun a b => a.1 ≤ b.1) (hfrom : ∀ e ∈ calls, now ≤ e.1)
    (hparams : SameParameters rate burst l l') (h : Interchangeable burst l l' now) :
    l.answers calls = l'.answers (withoutEvictions calls) := by
  induction calls generalizing l l' now with
  | nil => rfl
  | cons e calls ih =>
      obtain ⟨later, c⟩ := e
      obtain ⟨hafter, hrest⟩ := List.pairwise_cons.1 hordered
      have h' := h.later (hparams.rate_right ▸ hrate) (hfrom _ List.mem_cons_self)
      cases c with
      | evictIdle =>
          exact ih hrest hafter (hparams.step_left later .evictIdle) (h'.evictIdle hparams)
      | allow key =>
          obtain ⟨hsame, hnext⟩ := h'.allow hparams hburst key
          rw [withoutEvictions_allow, answers, answers, hsame,
            ih hrest hafter (hparams.step later (.allow key)) hnext]

/-! ### Buckets that hold less than a token -/

/-- The pattern that brings the difference out: a key is used, its bucket refills and is dropped,
and the key is used again. -/
def ReusedAfter (rate : ℚ) (key : Bytes) (calls : List (ℚ × Call)) : Prop :=
  ∃ used dropped again, [(used, .allow key), (dropped, .evictIdle), (again, .allow key)].Sublist
    calls ∧ 1 ≤ rate * (dropped - used)

/-- A bucket of less than a token never allows a call. -/
theorem allow_small (hsmall : l.burst < 1) (h : l.buckets key = some b) :
    l.allow key now = (false, l.put key ⟨min l.burst (l.refilled b now), now⟩) := by
  have hno : ¬ 1 ≤ min l.burst (l.refilled b now) := fun hle =>
    absurd (hle.trans (min_le_left _ _)) (not_le.2 hsmall)
  rw [allow_some h, if_neg hno]

/-- Both limiters have the same buckets, none of them refilled before its time, except where the
calls so far used a key and dropped its bucket. -/
def UpToDrops (rate burst : ℚ) (past : List (ℚ × Call)) (l l' : TokenBucketLimiter) (now : ℚ) :
    Prop :=
  ∀ key, (l.buckets key = l'.buckets key ∧ ∀ b, l'.buckets key = some b →
      ∃ used, (used, Call.allow key) ∈ past ∧
        l'.refilled b now ≤ burst - 1 + rate * (now - used)) ∨
    l.buckets key = none ∧ ∃ used dropped, [(used, .allow key), (dropped, .evictIdle)].Sublist past ∧
      1 ≤ rate * (dropped - used)

/-- The relation holds at any time. -/
theorem UpToDrops.later {past : List (ℚ × Call)} (h : UpToDrops rate burst past l l' now)
    (hparams : SameParameters rate burst l l') (later : ℚ) :
    UpToDrops rate burst past l l' later := by
  intro key
  rcases h key with ⟨hsame, hbound⟩ | hdropped
  · refine .inl ⟨hsame, fun b hb => ?_⟩
    obtain ⟨used, hused, hle⟩ := hbound b hb
    refine ⟨used, hused, ?_⟩
    rw [refilled_later l' b now later, hparams.rate_right]
    linarith
  · exact .inr hdropped

/-- An eviction drops buckets, and nothing else. -/
theorem UpToDrops.evictIdle {past : List (ℚ × Call)} (h : UpToDrops rate burst past l l' now)
    (hparams : SameParameters rate burst l l') :
    UpToDrops rate burst (past ++ [(now, .evictIdle)]) (l.step now .evictIdle) l' now := by
  intro key
  have hevict : (l.step now .evictIdle).buckets key = (l.evictIdle now).buckets key := rfl
  rcases h key with ⟨hsame, hbound⟩ | ⟨hnone, used, dropped, hsub, hlong⟩
  · cases hb : l'.buckets key with
    | none =>
        refine .inl ⟨hevict.trans (evictIdle_none (hsame.trans hb)), ?_⟩
        intro b hb'
        cases hb'
    | some b =>
        obtain ⟨used, hused, hle⟩ := hbound b hb
        rw [evictIdle_some (hsame.trans hb), hparams.burst_left, hparams.refilled_eq] at hevict
        split at hevict
        next hfull =>
          -- a bucket that was used is dropped
          refine .inr ⟨hevict, used, now, ?_, by linarith⟩
          exact (List.singleton_sublist.2 hused).append (List.Sublist.refl _)
        next =>
          refine .inl ⟨hevict, fun b' hb' => ?_⟩
          cases hb'
          exact ⟨used, List.mem_append_left _ hused, hle⟩
  · exact .inr ⟨hevict.trans (evictIdle_none hnone), used, dropped,
      hsub.trans (List.sublist_append_left _ _), hlong⟩

/-- A call of a key whose bucket was not dropped. -/
theorem UpToDrops.allow {past : List (ℚ × Call)} (h : UpToDrops rate burst past l l' now)
    (hparams : SameParameters rate burst l l') (hsmall : burst < 1)
    (hno : ¬ ReusedAfter rate key (past ++ [(now, .allow key)])) :
    (l.allow key now).1 = (l'.allow key now).1 ∧
      UpToDrops rate burst (past ++ [(now, .allow key)]) (l.step now (.allow key))
        (l'.step now (.allow key)) now := by
  rcases h key with ⟨hsame, hbound⟩ | ⟨-, used, dropped, hsub, hlong⟩
  · obtain ⟨hanswer, hnext⟩ := hparams.allow_eq hsame now
    refine ⟨hanswer, fun key' => ?_⟩
    by_cases hother : key' = key
    · subst hother
      refine .inl ⟨hnext, fun b' hb' => ?_⟩
      cases hb : l'.buckets key' with
      | none =>
          -- the first use
          rw [step_allow, allow_none hb, put_self] at hb'
          cases hb'
          refine ⟨now, List.mem_append_right _ (List.mem_singleton_self _), ?_⟩
          rw [refilled_now, hparams.burst_right, sub_self, mul_zero, add_zero]
      | some b =>
          obtain ⟨used, hused, hle⟩ := hbound b hb
          rw [step_allow, allow_small (hparams.burst_right ▸ hsmall) hb, put_self] at hb'
          cases hb'
          refine ⟨used, List.mem_append_left _ hused, ?_⟩
          rw [refilled_now]
          exact (min_le_right _ _).trans hle
    · rw [step_allow_other hother, step_allow_other hother]
      rcases h key' with ⟨hsame', hbound'⟩ | ⟨hnone, used, dropped, hsub, hlong⟩
      · refine .inl ⟨hsame', fun b hb => ?_⟩
        obtain ⟨used, hused, hle⟩ := hbound' b hb
        refine ⟨used, List.mem_append_left _ hused, ?_⟩
        have hrefilled : (l'.step now (.allow key)).refilled b now = l'.refilled b now := by
          unfold refilled
          rw [step_rate]
        rw [hrefilled]
        exact hle
      · exact .inr ⟨hnone, used, dropped, hsub.trans (List.sublist_append_left _ _), hlong⟩
  · refine absurd ⟨used, dropped, now, ?_, hlong⟩ hno
    exact hsub.append (List.Sublist.refl [(now, Call.allow key)])

/-- Without the pattern nothing is noticed. -/
theorem answers_eq_of_not_reused (hsmall : burst < 1) {past calls : List (ℚ × Call)}
    (hno : ∀ key, ¬ ReusedAfter rate key (past ++ calls)) (hparams : SameParameters rate burst l l')
    (h : UpToDrops rate burst past l l' now) :
    l.answers calls = l'.answers (withoutEvictions calls) := by
  induction calls generalizing l l' now past with
  | nil => rfl
  | cons e calls ih =>
      obtain ⟨later, c⟩ := e
      have h' := h.later hparams later
      have hassoc : past ++ (later, c) :: calls = past ++ [(later, c)] ++ calls := by simp
      cases c with
      | evictIdle =>
          rw [hassoc] at hno
          exact ih hno (hparams.step_left later .evictIdle) (h'.evictIdle hparams)
      | allow key =>
          have hnow : ¬ ReusedAfter rate key (past ++ [(later, .allow key)]) := by
            rintro ⟨used, dropped, again, hsub, hlong⟩
            refine hno key ⟨used, dropped, again, hsub.trans ?_, hlong⟩
            rw [hassoc]
            exact List.sublist_append_left _ _
          obtain ⟨hsame, hnext⟩ := h'.allow hparams hsmall hnow
          rw [hassoc] at hno
          rw [withoutEvictions_allow, answers, answers, hsame,
            ih hno (hparams.step later (.allow key)) hnext]

/-- A dropped bucket shows when the key is used again. -/
theorem not_used_of_dropped (hsmall : burst < 1) {calls : List (ℚ × Call)}
    (hparams : SameParameters rate burst l l') (hnone : l.buckets key = none)
    (hb : l'.buckets key = some b) (heq : l.answers calls = l'.answers (withoutEvictions calls))
    (again : ℚ) : (again, Call.allow key) ∉ calls := by
  induction calls generalizing l l' b with
  | nil => exact List.not_mem_nil
  | cons e calls ih =>
      obtain ⟨now, c⟩ := e
      cases c with
      | evictIdle =>
          have htail := ih (hparams.step_left now .evictIdle) (evictIdle_none hnone) hb heq
          rintro (_ | ⟨_, hin⟩)
          exact htail hin
      | allow key' =>
          rw [withoutEvictions_allow, answers, answers] at heq
          obtain ⟨hhead, htails⟩ := List.cons.inj heq
          by_cases hkey : key = key'
          · -- the one limiter allows the call, the other does not
            subst hkey
            rw [allow_none hnone, allow_small (hparams.burst_right ▸ hsmall) hb] at hhead
            exact Bool.noConfusion (congrArg (fun a => a.2.2) hhead)
          · have htail := ih (hparams.step now (.allow key'))
              ((step_allow_other hkey).trans hnone) ((step_allow_other hkey).trans hb) htails
            intro hin
            rcases List.mem_cons.1 hin with hhere | hin
            · cases hhere
              exact hkey rfl
            · exact htail hin

/-- A bucket that was used and has refilled is dropped at the next eviction. -/
theorem not_reused_of_used (hrate : 0 ≤ rate) (hsmall : burst < 1) {calls : List (ℚ × Call)}
    (hordered : calls.Pairwise fun a b => a.1 ≤ b.1) (hfrom : ∀ e ∈ calls, now ≤ e.1)
    (hparams : SameParameters rate burst l l') {b' : Bucket} (hb : l.buckets key = some b)
    (hb' : l'.buckets key = some b') {used : ℚ}
    (hlow : min burst (burst - 1 + rate * (now - used)) ≤ l.refilled b now)
    (heq : l.answers calls = l'.answers (withoutEvictions calls)) {dropped again : ℚ}
    (hsub : [(dropped, .evictIdle), (again, .allow key)].Sublist calls) :
    ¬ 1 ≤ rate * (dropped - used) := by
  induction calls generalizing l l' now b b' with
  | nil => cases hsub
  | cons e calls ih =>
      obtain ⟨later, c⟩ := e
      obtain ⟨hafter, hrest⟩ := List.pairwise_cons.1 hordered
      have hle : now ≤ later := hfrom _ List.mem_cons_self
      have hlow' : min burst (burst - 1 + rate * (later - used)) ≤ l.refilled b later := by
        have hgain : 0 ≤ rate * (later - now) := mul_nonneg hrate (sub_nonneg.2 hle)
        rw [refilled_later l b now later, hparams.rate_left]
        calc min burst (burst - 1 + rate * (later - used))
            = min burst (burst - 1 + rate * (now - used) + rate * (later - now)) := by
              congr 1
              ring
          _ ≤ min (burst + rate * (later - now))
                (burst - 1 + rate * (now - used) + rate * (later - now)) :=
              min_le_min_right _ (le_add_of_nonneg_right hgain)
          _ = min burst (burst - 1 + rate * (now - used)) + rate * (later - now) :=
              min_add_add_right _ _ _
          _ ≤ l.refilled b now + rate * (later - now) := by gcongr
      cases c with
      | evictIdle =>
          have hevict : (l.step later .evictIdle).buckets key =
              if burst ≤ l.refilled b later then none else some b := by
            rw [step_evictIdle, evictIdle_some hb, hparams.burst_left]
          have hparams' := hparams.step_left later .evictIdle
          by_cases hfull : burst ≤ l.refilled b later
          · -- it is dropped here, and not used any more
            rw [if_pos hfull] at hevict
            have hnot := not_used_of_dropped hsmall hparams' hevict hb' heq again
            have hin : (again, Call.allow key) ∈ calls := by
              have hin := hsub.subset (List.mem_cons_of_mem _ List.mem_cons_self)
              rcases List.mem_cons.1 hin with hhere | hin
              · cases hhere
              · exact hin
            exact absurd hin hnot
          · rw [if_neg hfull] at hevict
            cases hsub with
            | cons _ hsub =>
                have hkept : (l.step later .evictIdle).refilled b later = l.refilled b later := rfl
                exact ih hrest hafter hparams' hevict hb' (hkept ▸ hlow') heq hsub
            | cons_cons _ hsub =>
                -- refilled, it would have been dropped
                intro hlong
                refine hfull (le_trans (le_of_eq (min_eq_left ?_).symm) hlow')
                linarith
      | allow key' =>
          rw [withoutEvictions_allow, answers, answers] at heq
          obtain ⟨-, htails⟩ := List.cons.inj heq
          have hparams' := hparams.step later (.allow key')
          have hsub' : [(dropped, Call.evictIdle), (again, .allow key)].Sublist calls := by
            cases hsub with
            | cons _ hsub => exact hsub
          by_cases hkey : key = key'
          · subst hkey
            have hnext : (l.step later (.allow key)).buckets key =
                some ⟨min burst (l.refilled b later), later⟩ := by
              rw [step_allow, allow_small (hparams.burst_left ▸ hsmall) hb, put_self,
                hparams.burst_left]
            have hnext' : (l'.step later (.allow key)).buckets key =
                some ⟨min l'.burst (l'.refilled b' later), later⟩ := by
              rw [step_allow, allow_small (hparams.burst_right ▸ hsmall) hb', put_self]
            refine ih hrest hafter hparams' hnext hnext' ?_ htails hsub'
            rw [refilled_now]
            exact le_min (min_le_left _ _) hlow'
          · have hkept : (l.step later (.allow key')).refilled b later = l.refilled b later := by
              unfold refilled
              rw [step_rate]
            exact ih hrest hafter hparams' ((step_allow_other hkey).trans hb)
              ((step_allow_other hkey).trans hb') (hkept ▸ hlow') htails hsub'

/-- Behind a call the key has a bucket, of that time. -/
theorem exists_bucket_of_allow (l : TokenBucketLimiter) (key : Bytes) (now : ℚ) :
    ∃ tokens, (l.step now (.allow key)).buckets key = some ⟨tokens, now⟩ := by
  cases hb : l.buckets key with
  | none =>
      rw [step_allow, allow_none hb, put_self]
      exact ⟨_, rfl⟩
  | some b =>
      rw [step_allow, allow_some hb]
      split
      · rw [put_self]
        exact ⟨_, rfl⟩
      · rw [put_self]
        exact ⟨_, rfl⟩

/-- Where nothing is noticed, the pattern does not occur. -/
theorem not_reused_of_answers_eq (hrate : 0 ≤ rate) (hsmall : burst < 1)
    {calls : List (ℚ × Call)} (hordered : calls.Pairwise fun a b => a.1 ≤ b.1)
    (hfrom : ∀ e ∈ calls, now ≤ e.1) (hparams : SameParameters rate burst l l')
    (hfilled : Filled rate burst key l now)
    (heq : l.answers calls = l'.answers (withoutEvictions calls)) :
    ¬ ReusedAfter rate key calls := by
  induction calls generalizing l l' now with
  | nil =>
      rintro ⟨used, dropped, again, hsub, -⟩
      cases hsub
  | cons e calls ih =>
      obtain ⟨later, c⟩ := e
      obtain ⟨hafter, hrest⟩ := List.pairwise_cons.1 hordered
      have hfilled' := (hfilled.later (hfrom _ List.mem_cons_self)).step hrate c
      rintro ⟨used, dropped, again, hsub, hlong⟩
      cases c with
      | evictIdle =>
          cases hsub with
          | cons _ hsub =>
              exact ih hrest hafter (hparams.step_left later .evictIdle) hfilled' heq
                ⟨used, dropped, again, hsub, hlong⟩
      | allow key' =>
          rw [withoutEvictions_allow, answers, answers] at heq
          obtain ⟨-, htails⟩ := List.cons.inj heq
          have hparams' := hparams.step later (.allow key')
          cases hsub with
          | cons _ hsub =>
              exact ih hrest hafter hparams' hfilled' htails ⟨used, dropped, again, hsub, hlong⟩
          | cons_cons _ hsub =>
              -- this is the use: the bucket lacks at most a token
              obtain ⟨tokens, hb⟩ := exists_bucket_of_allow l key later
              obtain ⟨tokens', hb'⟩ := exists_bucket_of_allow l' key later
              refine not_reused_of_used hrate hsmall hrest hafter hparams' hb hb' ?_ htails hsub hlong
              have hcap : cap burst = 1 := max_eq_left hsmall.le
              have hleast : burst - cap burst ≤ tokens := (hfilled'.bucket _ hb).2
              rw [hcap] at hleast
              rw [refilled_now, sub_self, mul_zero, add_zero]
              exact (min_le_right _ _).trans hleast

end

/-- **Evictions go unnoticed** when a full bucket holds a token, and otherwise exactly when no key
is used, refilled and dropped, and used again. -/
theorem evictions_unobservable_iff {rate burst : ℚ} (hrate : 0 < rate) (hburst : 0 < burst)
    {calls : List (ℚ × Call)} (hordered : calls.Pairwise fun a b => a.1 ≤ b.1) :
    (new rate burst).answers calls = (new rate burst).answers (withoutEvictions calls) ↔
      1 ≤ burst ∨ ∀ key, ¬ ReusedAfter rate key calls := by
  have hrate' : (new rate burst).rate = rate := if_pos hrate
  have hburst' : (new rate burst).burst = burst := if_pos hburst
  have hparams : SameParameters rate burst (new rate burst) (new rate burst) :=
    ⟨hrate', hrate', hburst', hburst'⟩
  obtain ⟨first, hfirst⟩ : ∃ first : ℚ, ∀ e ∈ calls, first ≤ e.1 := exists_first hordered
  constructor
  · intro heq
    by_cases hlarge : 1 ≤ burst
    · exact .inl hlarge
    · refine .inr fun key => ?_
      have hfilled : Filled rate burst key (new rate burst) first :=
        ⟨hrate', hburst', fun b hb => nomatch hb⟩
      exact not_reused_of_answers_eq hrate.le (not_le.1 hlarge) hordered hfirst hparams hfilled heq
  · intro hcond
    by_cases hlarge : 1 ≤ burst
    · exact answers_eq_of_one_le hrate.le hlarge hordered hfirst hparams fun key => .inl rfl
    · have hstart : UpToDrops rate burst [] (new rate burst) (new rate burst) first :=
        fun key => .inl ⟨rfl, fun b hb => nomatch hb⟩
      exact answers_eq_of_not_reused (not_le.1 hlarge) (hcond.resolve_left hlarge) hparams hstart

/-- A bucket of a token and more, evictions and all. -/
theorem evictions_unobservable_two :
    (new 1 2).answers [(0, .allow (lit "a")), (1, .evictIdle), (1, .allow (lit "a"))] =
      (new 1 2).answers
        (withoutEvictions [(0, .allow (lit "a")), (1, .evictIdle), (1, .allow (lit "a"))]) :=
  (evictions_unobservable_iff (by norm_num) (by norm_num) (by norm_num)).2 (.inl (by norm_num))

/-- Half a token: the second call of a key is allowed only if its bucket was dropped. -/
theorem eviction_noticed :
    ((new 1 (1 / 2)).answers [(0, .allow (lit "a")), (1, .evictIdle), (1, .allow (lit "a"))] =
      [(0, lit "a", true), (1, lit "a", true)]) ∧
    ((new 1 (1 / 2)).answers [(0, .allow (lit "a")), (1, .allow (lit "a"))] =
      [(0, lit "a", true), (1, lit "a", false)]) := by
  decide +kernel

end TokenBucketLimiter

end Oreshnek
