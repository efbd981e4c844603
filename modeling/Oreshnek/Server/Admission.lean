import Oreshnek.Server.RateLimiter

/-!
# Who is let in

With a bucket of a token or more, the limiter refuses a call only when it has to: a call is
allowed just when it breaks the bound in no window that ends with it, whatever buckets have
been dropped and whatever other keys do. `evict_idle` keeps just the keys that have had more
calls in some window up to now than the window refills (`admission_exact`).
-/

namespace Oreshnek

namespace TokenBucketLimiter

/-- The limiter behind some calls. -/
def after : TokenBucketLimiter → List (ℚ × Call) → TokenBucketLimiter
  | l, [] => l
  | l, (now, c) :: calls => (l.step now c).after calls

section

variable {rate burst : ℚ} {key : Bytes} {l : TokenBucketLimiter} {now : ℚ}

theorem run_eq (key : Bytes) (l : TokenBucketLimiter) (calls : List (ℚ × Call)) :
    (spending key).run l calls = l.after calls := by
  induction calls generalizing l with
  | nil => rfl
  | cons e calls ih => exact ih (l.step e.1 e.2)

/-- What a bucket of a token or more is worth. -/
theorem cap_eq (hburst : 1 ≤ burst) : cap burst = burst := max_eq_right hburst

theorem level_bucket (hburst : 1 ≤ burst) {b : Bucket} (hb : l.buckets key = some b) :
    level burst l key now = min burst (l.refilled b now) := by
  rw [level_some hb, cap_eq hburst, sub_self, add_zero]

theorem level_fresh (hburst : 1 ≤ burst) (hb : l.buckets key = none) :
    level burst l key now = burst := by
  rw [level_none hb, cap_eq hburst]

/-- A call is allowed when there is a token. -/
theorem allow_iff_level (h : Filled rate burst key l now) (hburst : 1 ≤ burst) :
    (l.allow key now).1 = true ↔ 1 ≤ level burst l key now := by
  cases hb : l.buckets key with
  | none =>
      rw [allow_none hb, level_fresh hburst hb]
      exact iff_of_true rfl hburst
  | some b =>
      rw [allow_some hb, level_bucket hburst hb, h.burst_eq]
      split
      next htoken => exact iff_of_true rfl htoken
      next hnone => exact iff_of_false Bool.false_ne_true hnone

/-- A key keeps its bucket when that is not full. -/
theorem kept_iff_level (h : Filled rate burst key l now) (hburst : 1 ≤ burst) :
    (l.evictIdle now).buckets key ≠ none ↔ ¬ burst ≤ level burst l key now := by
  cases hb : l.buckets key with
  | none =>
      rw [evictIdle_none hb, level_fresh hburst hb]
      exact iff_of_false (fun h => h rfl) (not_not_intro le_rfl)
  | some b =>
      rw [evictIdle_some hb, level_bucket hburst hb, h.burst_eq, le_min_iff]
      split
      next hfull => exact iff_of_false (fun h => h rfl) (not_not_intro ⟨le_rfl, hfull⟩)
      next hpart => exact iff_of_true (Option.some_ne_none b) fun hfull => hpart hfull.2

/-- A call that is let in takes a token, and nothing else takes one. -/
theorem level_takes (h : Filled rate burst key l now) (hburst : 1 ≤ burst) (c : Call) :
    level burst (l.step now c) key now + price key l now c = level burst l key now := by
  cases c with
  | evictIdle =>
      -- an eviction costs nothing: what it drops was full
      have hcost : price key l now .evictIdle = 0 := rfl
      rw [hcost, add_zero]
      cases hb : l.buckets key with
      | none =>
          have hafter : (l.step now .evictIdle).buckets key = none := evictIdle_none hb
          rw [level_fresh hburst hb, level_fresh hburst hafter]
      | some b =>
          have hafter : (l.step now .evictIdle).buckets key = _ := evictIdle_some hb
          rw [h.burst_eq] at hafter
          split at hafter
          next hfull => rw [level_fresh hburst hafter, level_bucket hburst hb, min_eq_left hfull]
          next =>
            rw [level_bucket hburst hafter, level_bucket hburst hb]
            rfl
  | allow key' =>
      by_cases hkey : key = key'
      · subst hkey
        have hcost : price key l now (.allow key) =
            if (l.allow key now).1 = true then 1 else 0 := by
          unfold price
          simp only [true_and]
        rw [hcost]
        cases hb : l.buckets key with
        | none =>
            -- the first call of a key pays from the burst
            have hafter : (l.step now (.allow key)).buckets key = some ⟨burst - 1, now⟩ := by
              rw [step_allow, allow_none hb, put_self, h.burst_eq]
            have hless : min burst (burst - 1) = burst - 1 := min_eq_right (by linarith)
            rw [level_fresh hburst hb, level_bucket hburst hafter, refilled_now, allow_none hb,
              if_pos rfl, hless, sub_add_cancel]
        | some b =>
            rw [level_bucket hburst hb]
            have hallow : l.allow key now =
                if 1 ≤ min burst (l.refilled b now) then
                  (true, l.put key ⟨min burst (l.refilled b now) - 1, now⟩)
                else (false, l.put key ⟨min burst (l.refilled b now), now⟩) := by
              rw [allow_some hb, h.burst_eq]
            split at hallow
            next htoken =>
              have hafter : (l.step now (.allow key)).buckets key =
                  some ⟨min burst (l.refilled b now) - 1, now⟩ := by
                rw [step_allow, hallow, put_self]
              have hless : min burst (min burst (l.refilled b now) - 1) =
                  min burst (l.refilled b now) - 1 := by
                apply min_eq_right
                have hmin := min_le_left burst (l.refilled b now)
                linarith
              rw [level_bucket hburst hafter, refilled_now, hallow, if_pos rfl, hless,
                sub_add_cancel]
            next hnone =>
              -- refused: the bucket is refilled, and nothing is paid
              have hafter : (l.step now (.allow key)).buckets key =
                  some ⟨min burst (l.refilled b now), now⟩ := by
                rw [step_allow, hallow, put_self]
              rw [level_bucket hburst hafter, refilled_now, hallow, if_neg Bool.false_ne_true,
                add_zero, ← min_assoc, min_self]
      · -- the bucket of another key
        have hcost : price key l now (.allow key') = 0 := if_neg fun hin => hkey hin.1.symm
        have hafter : (l.step now (.allow key')).buckets key = l.buckets key :=
          step_allow_other hkey
        rw [hcost, add_zero]
        cases hb : l.buckets key with
        | none => rw [level_fresh hburst hb, level_fresh hburst (hafter.trans hb)]
        | some b =>
            have hsame : (l.step now (.allow key')).refilled b now = l.refilled b now := by
              unfold refilled
              rw [step_rate]
            rw [level_bucket hburst hb, level_bucket hburst (hafter.trans hb), hsame]

/-- With time a level grows at the rate, up to a full bucket. -/
theorem level_grows (h : Filled rate burst key l now) (hrate : 0 ≤ rate) (hburst : 1 ≤ burst)
    {later : ℚ} (hle : now ≤ later) :
    level burst l key later = min (cap burst) (level burst l key now + rate * (later - now)) := by
  have hgain : 0 ≤ rate * (later - now) := mul_nonneg hrate (sub_nonneg.2 hle)
  rw [cap_eq hburst]
  cases hb : l.buckets key with
  | none =>
      rw [level_fresh hburst hb, level_fresh hburst hb]
      exact (min_eq_left (le_add_of_nonneg_right hgain)).symm
  | some b =>
      rw [level_bucket hburst hb, level_bucket hburst hb, refilled_later l b now later, h.rate_eq,
        ← min_add_add_right, ← min_assoc, min_eq_left (le_add_of_nonneg_right hgain)]

/-- The level of a key, as a budget that loses nothing. -/
def tightBudget (burst : ℚ) (key : Bytes) (hrate : 0 ≤ rate) (hburst : 1 ≤ burst) :
    Refill.TightBudget (spending key) rate (cap burst) where
  toBudget := bucketBudget burst key hrate
  grows h hle := level_grows h hrate hburst hle
  takes h := level_takes h hburst _

/-- A bucket stays within its bounds over calls in order of time. -/
theorem filled_after (h : Filled rate burst key l now) (hrate : 0 ≤ rate)
    {calls : List (ℚ × Call)} (hordered : calls.Pairwise fun a b => a.1 ≤ b.1)
    (hfrom : ∀ e ∈ calls, now ≤ e.1) {later : ℚ} (hnow : now ≤ later)
    (hto : ∀ e ∈ calls, e.1 ≤ later) : Filled rate burst key (l.after calls) later := by
  induction calls generalizing l now with
  | nil => exact h.later hnow
  | cons e calls ih =>
      rcases List.pairwise_cons.1 hordered with ⟨hafter, hrest⟩
      have hstep := (h.later (hfrom e List.mem_cons_self)).step hrate e.2
      exact ih hstep hrest hafter (hto e List.mem_cons_self)
        fun e' he' => hto e' (List.mem_cons_of_mem _ he')

/-- What is left to a key: what a bucket and the refill of each window leave behind its calls. -/
theorem le_level_after_iff (hrate : 0 < rate) (hburst : 1 ≤ burst) (key : Bytes)
    {past : List (ℚ × Call)} (hordered : past.Pairwise fun a b => a.1 ≤ b.1)
    (hpast : ∀ e ∈ past, e.1 ≤ now) (c : ℚ) :
    Filled rate burst key ((new rate burst).after past) now ∧
      (c ≤ level burst ((new rate burst).after past) key now ↔ ∀ start ≤ now,
        ((new rate burst).allowedBetween key start now past : ℚ) + c ≤
          burst + rate * (now - start)) := by
  rcases exists_first hordered with ⟨first, hfirst⟩
  have hbegin : ∀ e ∈ past, min first now ≤ e.1 := fun e he => (min_le_left _ _).trans (hfirst e he)
  have hnone : (new rate burst).buckets key = none := rfl
  have hstart : Filled rate burst key (new rate burst) (min first now) := by
    refine ⟨if_pos hrate, if_pos (zero_lt_one.trans_le hburst), fun b hb => ?_⟩
    rw [hnone] at hb
    cases hb
  have hfull : level burst (new rate burst) key (min first now) = cap burst := level_none hnone
  have hleft := (tightBudget burst key hrate.le hburst).le_level_iff (c := c) hordered hbegin hpast
    (min_le_right _ _) hstart hfull
  simp only [run_eq, spent_eq] at hleft
  have hlevel : c ≤ level burst ((new rate burst).after past) key now ↔ _ := hleft
  rw [cap_eq hburst] at hlevel
  exact ⟨filled_after hstart hrate.le hordered hbegin (min_le_right _ _) hpast, hlevel⟩

/-- No key is let in more often than the bound says. -/
theorem allowedBetween_le (hrate : 0 < rate) (hburst : 1 ≤ burst) (key : Bytes)
    {past : List (ℚ × Call)} (hordered : past.Pairwise fun a b => a.1 ≤ b.1) {start stop : ℚ}
    (hwindow : start ≤ stop) :
    ((new rate burst).allowedBetween key start stop past : ℚ) ≤ burst + rate * (stop - start) := by
  rcases exists_first hordered with ⟨first, hfirst⟩
  have hinv : Filled rate burst key (new rate burst) first :=
    ⟨if_pos hrate, if_pos (zero_lt_one.trans_le hburst), fun b hb => nomatch hb⟩
  have hspent := (bucketBudget burst key hrate.le).spent_le hordered hfirst hinv hwindow
  rwa [spent_eq, cap_eq hburst] at hspent

/-- The calls of a window are those of its two parts. -/
theorem allowedBetween_split (l : TokenBucketLimiter) (key : Bytes) (start middle stop : ℚ)
    (calls : List (ℚ × Call)) :
    l.allowedBetween key start stop calls ≤
      l.allowedBetween key start middle calls + l.allowedBetween key middle stop calls := by
  unfold allowedBetween
  induction l.answers calls with
  | nil => exact le_rfl
  | cons a as ih =>
      simp only [List.countP_cons]
      have hone : (if decide (a.2.1 = key ∧ a.2.2 = true ∧ start ≤ a.1 ∧ a.1 ≤ stop) = true then 1
            else 0) ≤
          (if decide (a.2.1 = key ∧ a.2.2 = true ∧ start ≤ a.1 ∧ a.1 ≤ middle) = true then 1
            else 0) +
          if decide (a.2.1 = key ∧ a.2.2 = true ∧ middle ≤ a.1 ∧ a.1 ≤ stop) = true then 1
            else 0 := by
        by_cases hin : a.2.1 = key ∧ a.2.2 = true ∧ start ≤ a.1 ∧ a.1 ≤ stop
        · rcases le_total a.1 middle with hfirst | hsecond
          · rw [if_pos (decide_eq_true hin),
              if_pos (decide_eq_true ⟨hin.1, hin.2.1, hin.2.2.1, hfirst⟩)]
            exact Nat.le_add_right _ _
          · rw [if_pos (decide_eq_true hin), Nat.add_comm,
              if_pos (decide_eq_true ⟨hin.1, hin.2.1, hsecond, hin.2.2.2⟩)]
            exact Nat.le_add_right _ _
        · rw [decide_eq_false hin, if_neg Bool.false_ne_true]
          exact Nat.zero_le _
      omega

end

/-- **Admission is exact.** A call is allowed just when it breaks the bound in no window that
ends with it, in exact rationals where the source has a double. `evict_idle` keeps the bucket of
a key just when it has had more calls in some window up to now than the window refills; then it
has had one since a bucket takes to fill. -/
theorem admission_exact {rate burst : ℚ} (hrate : 0 < rate) (hburst : 1 ≤ burst) (key : Bytes)
    {past : List (ℚ × Call)} (hordered : past.Pairwise fun a b => a.1 ≤ b.1) {now : ℚ}
    (hpast : ∀ e ∈ past, e.1 ≤ now) :
    ((((new rate burst).after past).allow key now).1 = true ↔ ∀ start ≤ now,
        ((new rate burst).allowedBetween key start now past : ℚ) + 1 ≤
          burst + rate * (now - start)) ∧
      ((((new rate burst).after past).evictIdle now).buckets key ≠ none ↔ ∃ start ≤ now,
        rate * (now - start) < (new rate burst).allowedBetween key start now past) ∧
      ((((new rate burst).after past).evictIdle now).buckets key ≠ none →
        0 < (new rate burst).allowedBetween key (now - burst / rate) now past) := by
  have hkept : (((new rate burst).after past).evictIdle now).buckets key ≠ none ↔ ∃ start ≤ now,
      rate * (now - start) < (new rate burst).allowedBetween key start now past := by
    rcases le_level_after_iff hrate hburst key hordered hpast burst with ⟨hfilled, hlevel⟩
    rw [kept_iff_level hfilled hburst, hlevel]
    push Not
    constructor
    · rintro ⟨start, hstart, hmore⟩
      exact ⟨start, hstart, by linarith⟩
    · rintro ⟨start, hstart, hmore⟩
      exact ⟨start, hstart, by linarith⟩
  refine ⟨?_, hkept, fun hbucket => ?_⟩
  · rcases le_level_after_iff hrate hburst key hordered hpast 1 with ⟨hfilled, hlevel⟩
    rw [allow_iff_level hfilled hburst, hlevel]
  · rcases hkept.1 hbucket with ⟨start, hstart, hmore⟩
    have hsplit := (new rate burst).allowedBetween_split key start (now - burst / rate) now past
    by_contra hnone
    rw [not_lt, Nat.le_zero] at hnone
    rw [hnone, Nat.add_zero] at hsplit
    have hsplit' : ((new rate burst).allowedBetween key start now past : ℚ) ≤
        (new rate burst).allowedBetween key start (now - burst / rate) past := by
      exact_mod_cast hsplit
    rcases le_or_gt start (now - burst / rate) with hlong | hshort
    · -- all its calls in the window were over when the bucket could still fill
      have hbound := allowedBetween_le hrate hburst key hordered hlong
      have hsame : burst + rate * (now - burst / rate - start) = rate * (now - start) := by
        field_simp
        ring
      linarith
    · have hzero : (new rate burst).allowedBetween key start (now - burst / rate) past = 0 := by
        unfold allowedBetween
        rw [List.countP_eq_zero]
        intro a _ hin
        have hin := of_decide_eq_true hin
        exact absurd (hin.2.2.1.trans hin.2.2.2) (not_le.2 hshort)
      have hgain : 0 ≤ rate * (now - start) := mul_nonneg hrate.le (sub_nonneg.2 hstart)
      rw [hzero, Nat.cast_zero] at hsplit'
      linarith

/-- Two calls empty the bucket; behind an eviction there is a token again. -/
theorem admission_exact_three :
    ((((new 1 2).after [(0, .allow (lit "a")), (0, .allow (lit "a")), (1, .evictIdle)]).allow
        (lit "a") 1).1 = true ↔ ∀ start ≤ 1,
        ((new 1 2).allowedBetween (lit "a") start 1
          [(0, .allow (lit "a")), (0, .allow (lit "a")), (1, .evictIdle)] : ℚ) + 1 ≤
          2 + 1 * (1 - start)) ∧
      ((((new 1 2).after [(0, .allow (lit "a")), (0, .allow (lit "a")), (1, .evictIdle)]).evictIdle
        1).buckets (lit "a") ≠ none ↔ ∃ start ≤ 1,
        1 * (1 - start) < ((new 1 2).allowedBetween (lit "a") start 1
          [(0, .allow (lit "a")), (0, .allow (lit "a")), (1, .evictIdle)] : ℚ)) ∧
      ((((new 1 2).after [(0, .allow (lit "a")), (0, .allow (lit "a")), (1, .evictIdle)]).evictIdle
        1).buckets (lit "a") ≠ none →
        0 < (new 1 2).allowedBetween (lit "a") (1 - 2 / 1) 1
          [(0, .allow (lit "a")), (0, .allow (lit "a")), (1, .evictIdle)]) :=
  admission_exact (by norm_num) (by norm_num) (lit "a") (by norm_num) (by norm_num)

end TokenBucketLimiter

end Oreshnek
