import Mathlib

/-!
# Regrouping digits

A stream of digits of one width rewritten as digits of another: what has been
read is kept as a number of which the whole digits are written and the rest is
pending. `Held` says how what has been read, written and kept go together, and
what a push and an emission do to it. Two facts follow that do not mention the
loop: regrouping back gives the digits one began with, and two streams that
regroup to the same digits differ only in what was pending.
-/

namespace Regroup

/-! ## The number that digits spell -/

/-- Digits of `w` bits, the most significant first. -/
def value (w : Nat) (ds : List Nat) : Nat := ds.foldl (fun v d => v * 2 ^ w + d) 0

/-- Digits that fit into `w` bits. -/
def Fits (w : Nat) (ds : List Nat) : Prop := ∀ d ∈ ds, d < 2 ^ w

@[simp] theorem value_nil (w : Nat) : value w [] = 0 := rfl

theorem value_snoc (w : Nat) (ds : List Nat) (d : Nat) :
    value w (ds ++ [d]) = value w ds * 2 ^ w + d := by
  simp [value]

/-- A digit that fits may be added. -/
theorem Fits.snoc {w : Nat} {ds : List Nat} (h : Fits w ds) {d : Nat} (hd : d < 2 ^ w) :
    Fits w (ds ++ [d]) := by
  intro e he
  rcases List.mem_append.1 he with he | he
  · exact h e he
  · rw [List.mem_singleton.1 he]
    exact hd

theorem Fits.of_snoc {w : Nat} {ds : List Nat} {d : Nat} (h : Fits w (ds ++ [d])) :
    Fits w ds ∧ d < 2 ^ w :=
  ⟨fun e he => h e (List.mem_append_left _ he),
    h d (List.mem_append_right _ (List.mem_singleton_self d))⟩

/-- As many digits and the same number: the same digits. -/
theorem value_injective {w : Nat} {ds es : List Nat} (hds : Fits w ds) (hes : Fits w es)
    (hlength : ds.length = es.length) (hvalue : value w ds = value w es) : ds = es := by
  induction ds using List.reverseRecOn generalizing es with
  | nil =>
      rw [List.length_nil] at hlength
      exact (List.length_eq_zero_iff.1 hlength.symm).symm
  | append_singleton ds d ih =>
      rcases List.eq_nil_or_concat' es with rfl | ⟨es, e, rfl⟩
      · simp at hlength
      · rcases hds.of_snoc with ⟨hds, hd⟩
        rcases hes.of_snoc with ⟨hes, he⟩
        rw [value_snoc, value_snoc] at hvalue
        simp only [List.length_append, List.length_singleton, Nat.add_right_cancel_iff] at hlength
        have hpos : 0 < 2 ^ w := Nat.two_pow_pos w
        have hlast : d = e := by
          have hmod := congrArg (· % 2 ^ w) hvalue
          simpa [Nat.mul_add_mod', Nat.mod_eq_of_lt hd, Nat.mod_eq_of_lt he] using hmod
        have hinit : value w ds = value w es := by
          rw [hlast] at hvalue
          exact Nat.eq_of_mul_eq_mul_right hpos (Nat.add_right_cancel hvalue)
        rw [hlast, ih hds hes hlength hinit]

/-! ## Reading digits of `a` bits and writing digits of `b` bits -/

/-- `ds` has been read, `es` has been written, and `k` bits with the value `v`
are pending. -/
structure Held (a b : Nat) (ds es : List Nat) (k v : Nat) : Prop where
  spelled : value a ds = value b es * 2 ^ k + v
  pending : v < 2 ^ k
  count : a * ds.length = b * es.length + k
  fits : Fits b es

theorem Held.start (a b : Nat) : Held a b [] [] 0 0 := by
  refine ⟨rfl, by decide, rfl, ?_⟩
  intro e he
  cases he

/-- A digit is read. -/
theorem Held.push {a b : Nat} {ds es : List Nat} {k v d : Nat} (h : Held a b ds es k v)
    (hd : d < 2 ^ a) : Held a b (ds ++ [d]) es (k + a) (v * 2 ^ a + d) := by
  constructor
  · rw [value_snoc, h.spelled, pow_add]
    ring
  · rw [pow_add]
    have hv := h.pending
    calc v * 2 ^ a + d < v * 2 ^ a + 2 ^ a := Nat.add_lt_add_left hd _
      _ = (v + 1) * 2 ^ a := by ring
      _ ≤ 2 ^ k * 2 ^ a := Nat.mul_le_mul_right _ hv
  · have := h.count
    rw [List.length_append, List.length_singleton, Nat.mul_add]
    omega
  · exact h.fits

/-- A digit is written. -/
theorem Held.emit {a b : Nat} {ds es : List Nat} {k v : Nat} (h : Held a b ds es k v)
    (hk : b ≤ k) :
    Held a b ds (es ++ [v / 2 ^ (k - b)]) (k - b) (v % 2 ^ (k - b)) := by
  have hpow : 2 ^ k = 2 ^ b * 2 ^ (k - b) := by
    rw [← pow_add]
    congr 1
    omega
  constructor
  · rw [value_snoc, h.spelled, hpow, Nat.add_mul, Nat.mul_assoc, Nat.add_assoc]
    congr 1
    exact (Nat.div_add_mod' v _).symm
  · exact Nat.mod_lt _ (Nat.two_pow_pos _)
  · have := h.count
    rw [List.length_append, List.length_singleton, Nat.mul_add]
    omega
  · apply h.fits.snoc
    have hv := h.pending
    rw [hpow] at hv
    exact Nat.div_lt_of_lt_mul (by rwa [Nat.mul_comm] at hv)

/-- What is pending at the end is written out with zeros behind it. -/
theorem Held.flush {a b : Nat} {ds es : List Nat} {k v : Nat} (h : Held a b ds es k v)
    (hk : k ≤ b) :
    value b (es ++ [v * 2 ^ (b - k)]) = value a ds * 2 ^ (b - k) ∧
      b * (es ++ [v * 2 ^ (b - k)]).length = a * ds.length + (b - k) ∧
      Fits b (es ++ [v * 2 ^ (b - k)]) := by
  have hpow : 2 ^ b = 2 ^ k * 2 ^ (b - k) := by
    rw [← pow_add]
    congr 1
    omega
  refine ⟨?_, ?_, ?_⟩
  · rw [value_snoc, h.spelled, hpow]
    ring
  · have := h.count
    rw [List.length_append, List.length_singleton, Nat.mul_add]
    omega
  · apply h.fits.snoc
    rw [hpow]
    exact Nat.mul_lt_mul_of_pos_right h.pending (Nat.two_pow_pos _)

/-! ## Regrouping back -/

/-- **There and back.** When `es` spells `ds` with less than a digit of zeros
behind it, regrouping `es` gives `ds`. -/
theorem Held.inverse {a b : Nat} {ds es back : List Nat} {k v p : Nat}
    (h : Held b a es back k v) (hk : k < a) (hfits : Fits a ds) (hp : p < a)
    (hvalue : value b es = value a ds * 2 ^ p) (hcount : b * es.length = a * ds.length + p) :
    back = ds := by
  have hcounts : a * ds.length + p = a * back.length + k := by
    rw [← hcount]
    exact h.count
  have ha : 0 < a := by omega
  have hlength : back.length = ds.length := by
    have hdiv := congrArg (· / a) hcounts
    simpa [Nat.mul_add_div ha, Nat.div_eq_of_lt hp, Nat.div_eq_of_lt hk] using hdiv.symm
  have hsame : p = k := by
    rw [hlength] at hcounts
    omega
  subst hsame
  refine value_injective h.fits hfits hlength ?_
  have hspelled := h.spelled
  rw [hvalue] at hspelled
  have hpos : 0 < 2 ^ p := Nat.two_pow_pos p
  have hdiv := congrArg (· / 2 ^ p) hspelled
  simpa [Nat.mul_div_cancel _ hpos, Nat.mul_comm _ (2 ^ p), Nat.mul_add_div hpos,
    Nat.div_eq_of_lt h.pending] using hdiv.symm

/-- What is read determines what is written, while less than a digit is pending. -/
theorem Held.unique {a b : Nat} {ds es es' : List Nat} {k v k' v' : Nat} (h : Held a b ds es k v)
    (h' : Held a b ds es' k' v') (hk : k < b) (hk' : k' < b) : es = es' := by
  have hcounts : b * es.length + k = b * es'.length + k' := h.count.symm.trans h'.count
  have hb : 0 < b := by omega
  have hlength : es.length = es'.length := by
    have hdiv := congrArg (· / b) hcounts
    simpa [Nat.mul_add_div hb, Nat.div_eq_of_lt hk, Nat.div_eq_of_lt hk'] using hdiv
  obtain rfl : k = k' := by
    rw [hlength] at hcounts
    exact Nat.add_left_cancel hcounts
  refine value_injective h.fits h'.fits hlength ?_
  have hpos : 0 < 2 ^ k := Nat.two_pow_pos k
  have hdiv := congrArg (· / 2 ^ k) (h.spelled.symm.trans h'.spelled)
  simpa [Nat.mul_comm _ (2 ^ k), Nat.mul_add_div hpos, Nat.div_eq_of_lt h.pending,
    Nat.div_eq_of_lt h'.pending] using hdiv

/-- **What the result determines.** Streams with the same result and fewer than
`a` bits pending have all digits but the last in common, and of that all but the
pending bits. -/
theorem Held.determined {a b : Nat} {ds ds' es : List Nat} {d d' k v v' : Nat}
    (h : Held a b (ds ++ [d]) es k v) (h' : Held a b (ds' ++ [d']) es k v')
    (hfits : Fits a (ds ++ [d])) (hfits' : Fits a (ds' ++ [d'])) (hk : k ≤ a) (ha : 0 < a) :
    ds = ds' ∧ d / 2 ^ k = d' / 2 ^ k := by
  rcases hfits.of_snoc with ⟨hds, hd⟩
  rcases hfits'.of_snoc with ⟨hds', hd'⟩
  have hpow : 2 ^ a = 2 ^ (a - k) * 2 ^ k := by
    rw [← pow_add]
    congr 1
    omega
  have hpos : 0 < 2 ^ k := Nat.two_pow_pos k
  -- without the pending bits, both spell the result
  have hshort : ∀ {ds : List Nat} {d v : Nat}, Held a b (ds ++ [d]) es k v →
      value b es = value a ds * 2 ^ (a - k) + d / 2 ^ k := by
    intro ds d v h
    have hspelled := h.spelled
    rw [value_snoc, hpow, ← Nat.mul_assoc] at hspelled
    have hdiv := congrArg (· / 2 ^ k) hspelled
    simpa [Nat.mul_comm _ (2 ^ k), Nat.mul_add_div hpos, Nat.div_eq_of_lt h.pending] using
      hdiv.symm
  have hvalues := (hshort h).symm.trans (hshort h')
  have hlength : ds.length = ds'.length := by
    have hcount := h.count.trans h'.count.symm
    have := Nat.eq_of_mul_eq_mul_left ha hcount
    simpa using this
  have hlt : d / 2 ^ k < 2 ^ (a - k) := by
    rw [hpow] at hd
    exact Nat.div_lt_of_lt_mul (by rwa [Nat.mul_comm] at hd)
  have hlt' : d' / 2 ^ k < 2 ^ (a - k) := by
    rw [hpow] at hd'
    exact Nat.div_lt_of_lt_mul (by rwa [Nat.mul_comm] at hd')
  have hpos' : 0 < 2 ^ (a - k) := Nat.two_pow_pos _
  have htop : value a ds = value a ds' := by
    have hdiv := congrArg (· / 2 ^ (a - k)) hvalues
    simpa [Nat.mul_comm _ (2 ^ (a - k)), Nat.mul_add_div hpos', Nat.div_eq_of_lt hlt,
      Nat.div_eq_of_lt hlt'] using hdiv
  refine ⟨value_injective hds hds' hlength htop, ?_⟩
  rw [htop] at hvalues
  exact Nat.add_left_cancel hvalues

end Regroup
