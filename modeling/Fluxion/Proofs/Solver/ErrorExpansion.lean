import Fluxion.Proofs.Solver.NevilleTable

/-!
# Which error terms an extrapolation removes

The values of a base that divides the step into `c` parts have an expansion in powers of `c⁻¹`: the
limit, and error terms whose exponents begin with the order `p` and grow by the gain `g`
(`errorExpansion`).  The order that the extrapolation of `k` runs declares, `p + (k - 1) * g`, is
reached if the table removes the first `k - 1` of these terms.

The table weighs every column with the exponent `p`, so it removes the powers `p`, `2 * p`, and so
on up to `(k - 1) * p`, and no other power.  The reason for the latter is a rule of signs: a sum of
`k` powers has fewer than `k` positive zeros (`card_lt_card_support`).  Hence the declared order is
reached with more than two runs only if the gain is the order of the base
(`neville_errorExpansion_iff`), as it is for Euler's method and for the leapfrog and the
semi-implicit rule, but not for the methods with stages.
-/

set_option autoImplicit false

namespace Fluxion

open Polynomial

section Signs

variable {K : Type} [Field K] [LinearOrder K] [IsStrictOrderedRing K]

omit [IsStrictOrderedRing K] in
/-- The signs of the coefficients vary less often than there are coefficients. -/
theorem signVariations_lt_card_support {P : K[X]} (hP : P ≠ 0) :
    P.signVariations < P.support.card := by
  induction hn : P.support.card generalizing P with
  | zero => exact absurd (card_support_eq_zero.mp hn) hP
  | succ n ih =>
    have herase : P.eraseLead.support.card = n := card_support_eraseLead' hn
    have hstep := signVariations_le_eraseLead_succ P
    by_cases hzero : P.eraseLead = 0
    · have hmonomial : P.signVariations = 0 := by
        rw [← eraseLead_add_C_mul_X_pow P, hzero, zero_add, C_mul_X_pow_eq_monomial]
        exact signVariations_monomial _ _
      omega
    · have hrest := ih hzero herase
      omega

/-- A polynomial has fewer positive zeros than coefficients. -/
theorem card_lt_card_support {P : K[X]} (hP : P ≠ 0) {s : Finset K}
    (hpos : ∀ x ∈ s, 0 < x) (hzero : ∀ x ∈ s, P.eval x = 0) : s.card < P.support.card := by
  have hroots : s.val ≤ P.roots := by
    refine (Multiset.le_iff_subset s.nodup).mpr fun x hx => ?_
    exact (mem_roots hP).mpr (hzero x hx)
  calc s.card = s.val.countP (0 < ·) :=
        (Multiset.countP_eq_card.mpr fun x hx => hpos x hx).symm
    _ ≤ P.roots.countP (0 < ·) := Multiset.countP_le_of_le _ hroots
    _ ≤ P.signVariations := roots_countP_pos_le_signVariations P
    _ < P.support.card := signVariations_lt_card_support hP

end Signs

section Removal

variable {K : Type} [Field K] [CharZero K] {p g k : ℕ}

/-- The values of a base that divides the step into `c` parts, as far as the first `n` terms of
its error say. -/
def errorExpansion (limit : K) (a : ℕ → K) (exponent : ℕ → ℕ) (n c : ℕ) : K :=
  limit + ∑ m ∈ Finset.range n, a m * ((c : K)⁻¹) ^ exponent m

omit [CharZero K] in
/-- The powers of a node are the terms of the error expansion. -/
theorem runNode_pow (p c m : ℕ) : (runNode p c : K) ^ m = ((c : K)⁻¹) ^ (p * m) := by
  rw [runNode, ← inv_pow, pow_mul]

/-- The table removes the first multiples of its exponent. -/
theorem neville_multiples (hp : 0 < p) (hg : 0 < g) (hk : 0 < k) (limit : K) (a : ℕ → K)
    {exponent : ℕ → ℕ} (hexponent : ∀ m < k - 1, exponent m = p * (m + 1)) :
    neville (runCounts g k) p ((runCounts g k).map (errorExpansion limit a exponent (k - 1))) =
      limit := by
  set q : K[X] := C limit + ∑ m ∈ Finset.range (k - 1), C (a m) * X ^ (m + 1) with hq
  have hdegree : q.degree < k := by
    rw [← mem_degreeLT]
    refine Submodule.add_mem _ ?_ (Submodule.sum_mem _ fun m hm => ?_)
    · exact mem_degreeLT.mpr (degree_C_le.trans_lt (Nat.cast_pos.mpr hk))
    · have hlt : m + 1 < k := by
        rw [Finset.mem_range] at hm
        omega
      exact mem_degreeLT.mpr ((degree_C_mul_X_pow_le _ _).trans_lt (Nat.cast_lt.mpr hlt))
  have hvalues : ∀ i < k, errorExpansion limit a exponent (k - 1) (g * (i + 1)) =
      q.eval (runNode p (g * (i + 1))) := by
    intro i _
    rw [hq, eval_add, eval_C, eval_finsetSum, errorExpansion]
    congr 1
    refine Finset.sum_congr rfl fun m hm => ?_
    rw [eval_mul, eval_C, eval_pow, eval_X, runNode_pow, hexponent m (Finset.mem_range.mp hm)]
  have hlimit : q.eval 0 = limit := by
    rw [hq, eval_add, eval_C, eval_finsetSum]
    simp
  rw [neville_runCounts_eq hp hg hk hdegree hvalues, hlimit]

end Removal

section Survival

variable {K : Type} [Field K] [LinearOrder K] [IsStrictOrderedRing K] {p g k : ℕ}

omit [LinearOrder K] [IsStrictOrderedRing K] in
/-- The coefficients of a polynomial in `X ^ p` that has no constant term and a degree below `k`
stand at `p`, `2 * p`, and so on up to `(k - 1) * p`. -/
theorem mem_support_expand {q : K[X]} (hdegree : q.degree < k) (hzero : q.eval 0 = 0) {n : ℕ}
    (hp : 0 < p) (hn : n ∈ (expand K p q).support) : ∃ l, 0 < l ∧ l < k ∧ n = p * l := by
  rw [mem_support_iff, coeff_expand hp] at hn
  split at hn
  · rename_i hdvd
    obtain ⟨l, rfl⟩ := hdvd
    rw [Nat.mul_div_cancel_left l hp] at hn
    refine ⟨l, ?_, ?_, rfl⟩
    · rw [Nat.pos_iff_ne_zero]
      rintro rfl
      exact hn ((coeff_zero_eq_eval_zero q).trans hzero)
    · have hl := (le_degree_of_ne_zero hn).trans_lt hdegree
      exact WithBot.coe_lt_coe.mp hl
  · exact absurd rfl hn

/-- The table does not remove a power that is not one of the first multiples of its exponent. -/
theorem neville_power_ne_zero (hp : 0 < p) (hg : 0 < g) (hk : 0 < k) {e : ℕ}
    (he : ∀ l, 0 < l → l < k → e ≠ p * l) :
    neville (runCounts g k) p ((runCounts g k).map fun c : ℕ => ((c : K)⁻¹) ^ e) ≠ 0 := by
  intro hremoved
  set step : ℕ → K := fun i => ((g * (i + 1) : ℕ) : K)⁻¹ with hstep
  set node : ℕ → K := fun i => runNode p (g * (i + 1)) with hnode
  have hnodes : Set.InjOn node (Finset.range k) := (runNode_injective hp hg).injOn
  have hnode_eq (i : ℕ) : node i = step i ^ p := by
    show (((g * (i + 1) : ℕ) : K) ^ p)⁻¹ = (((g * (i + 1) : ℕ) : K)⁻¹) ^ p
    rw [inv_pow]
  -- the table is the value at zero of the polynomial `q` through the powers
  set q : K[X] := Lagrange.interpolate (Finset.range k) node fun i => step i ^ e with hq
  have hdegree : q.degree < k := by
    have hcard := Lagrange.degree_interpolate_lt (fun i => step i ^ e) hnodes
    rwa [Finset.card_range] at hcard
  have hvalues : ∀ i < k, step i ^ e = q.eval (node i) := fun i hi =>
    (Lagrange.eval_interpolate_at_node (fun i => step i ^ e) hnodes (Finset.mem_range.mpr hi)).symm
  have hzero : q.eval 0 = 0 := by
    rw [← neville_runCounts_eq hp hg hk (f := fun c => ((c : K)⁻¹) ^ e) hdegree hvalues, hremoved]
  -- so `X ^ e` and `q` in `X ^ p` agree at `k` positive numbers, and together have `k` terms
  set r : K[X] := X ^ e - expand K p q with hr
  have hother : (expand K p q).coeff e = 0 := by
    by_contra hcoeff
    obtain ⟨l, hl, hlk, rfl⟩ := mem_support_expand hdegree hzero hp (mem_support_iff.mpr hcoeff)
    exact he l hl hlk rfl
  have hr_ne : r ≠ 0 := by
    intro h
    have hcoeff : r.coeff e = 1 := by rw [hr, coeff_sub, coeff_X_pow_self, hother, sub_zero]
    rw [h, coeff_zero] at hcoeff
    exact zero_ne_one hcoeff
  have hsupport : r.support ⊆ insert e ((Finset.Ioo 0 k).image (p * ·)) := by
    intro n hn
    rw [Finset.mem_insert]
    by_cases hne : n = e
    · exact .inl hne
    · have hexpand : n ∈ (expand K p q).support := by
        rw [mem_support_iff] at hn ⊢
        rwa [hr, coeff_sub, coeff_X_pow, if_neg hne, zero_sub, neg_ne_zero] at hn
      obtain ⟨l, hl, hlk, rfl⟩ := mem_support_expand hdegree hzero hp hexpand
      exact .inr (Finset.mem_image_of_mem _ (Finset.mem_Ioo.mpr ⟨hl, hlk⟩))
  have hterms : r.support.card ≤ k := by
    calc r.support.card ≤ (insert e ((Finset.Ioo 0 k).image (p * ·))).card :=
          Finset.card_le_card hsupport
      _ ≤ ((Finset.Ioo 0 k).image (p * ·)).card + 1 := Finset.card_insert_le _ _
      _ ≤ (Finset.Ioo 0 k).card + 1 := Nat.add_le_add_right Finset.card_image_le 1
      _ = k := by
        rw [Nat.card_Ioo]
        omega
  have hstep_injective : Function.Injective step := by
    intro i j hij
    have hcount : g * (i + 1) = g * (j + 1) := Nat.cast_injective (inv_injective hij)
    have hindex := Nat.eq_of_mul_eq_mul_left hg hcount
    omega
  have hpositive : ∀ x ∈ (Finset.range k).image step, 0 < x := by
    intro x hx
    obtain ⟨i, -, rfl⟩ := Finset.mem_image.mp hx
    exact inv_pos.mpr (Nat.cast_pos.mpr (Nat.mul_pos hg (Nat.succ_pos i)))
  have hzeros : ∀ x ∈ (Finset.range k).image step, r.eval x = 0 := by
    intro x hx
    obtain ⟨i, hi, rfl⟩ := Finset.mem_image.mp hx
    rw [hr, eval_sub, eval_pow, eval_X, expand_eval, ← hnode_eq, sub_eq_zero]
    exact hvalues i (Finset.mem_range.mp hi)
  have hcount := card_lt_card_support hr_ne hpositive hzeros
  rw [Finset.card_image_of_injective _ hstep_injective, Finset.card_range] at hcount
  omega

/-- With more than two runs, and a gain that is not the order, one of the error terms that have to
be removed is no multiple of the order, or too large a one. -/
theorem exists_surviving_term (hg : 0 < g) (hk : 2 < k) (hne : p ≠ g) :
    ∃ m < k - 1, ∀ l, 0 < l → l < k → p + g * m ≠ p * l := by
  obtain hlt | hlt := Nat.lt_or_gt_of_ne hne
  · -- the last term grows beyond the last multiple
    refine ⟨k - 2, by omega, fun l _ hlk heq => ?_⟩
    have hlast : p * (k - 2) < g * (k - 2) := Nat.mul_lt_mul_of_pos_right hlt (by omega)
    have hmultiple : p * l ≤ p * (k - 2 + 1) := Nat.mul_le_mul_left p (by omega)
    rw [Nat.mul_add] at hmultiple
    omega
  · -- the second term lies between the first two multiples
    refine ⟨1, by omega, fun l hl _ heq => ?_⟩
    have hbelow : p * l < p * 2 := by omega
    have habove : p * 1 < p * l := by omega
    have hl_lt : l < 2 := Nat.lt_of_mul_lt_mul_left hbelow
    have hl_gt : 1 < l := Nat.lt_of_mul_lt_mul_left habove
    omega

/-- The table returns the limit of every expansion in the powers `p`, `p + g`, and so on exactly if
there are at most two runs or the gain is the order.  Only then the extrapolation of `k` runs has
the order `p + (k - 1) * g`. -/
theorem neville_errorExpansion_iff (hp : 0 < p) (hg : 0 < g) (hk : 0 < k) :
    (∀ (limit : K) (a : ℕ → K), neville (runCounts g k) p
      ((runCounts g k).map (errorExpansion limit a (fun m => p + g * m) (k - 1))) = limit) ↔
      k ≤ 2 ∨ p = g := by
  constructor
  · intro hremoved
    by_contra hcases
    rw [not_or, Nat.not_le] at hcases
    obtain ⟨m, hm, hterm⟩ := exists_surviving_term hg hcases.1 hcases.2
    refine neville_power_ne_zero (K := K) hp hg hk hterm ?_
    have hsingle := hremoved 0 (Pi.single m 1)
    have hvalues : errorExpansion 0 (Pi.single m (1 : K)) (fun m => p + g * m) (k - 1) =
        fun c : ℕ => ((c : K)⁻¹) ^ (p + g * m) := by
      funext c
      rw [errorExpansion, zero_add, Finset.sum_eq_single m]
      · rw [Pi.single_eq_same, one_mul]
      · intro n _ hn
        rw [Pi.single_eq_of_ne hn, zero_mul]
      · intro hnot
        exact absurd (Finset.mem_range.mpr hm) hnot
    rwa [hvalues] at hsingle
  · intro hcases limit a
    refine neville_multiples hp hg hk limit a fun m hm => ?_
    obtain hfew | rfl := hcases
    · have hfirst : m = 0 := by omega
      rw [hfirst, Nat.mul_zero, Nat.add_zero, Nat.zero_add, Nat.mul_one]
    · rw [Nat.mul_add, Nat.mul_one, Nat.add_comm]

/-- Eight runs of a symmetric method of order two remove the seven terms, and three runs of a method
of order two with steps that are not doubled do not remove the two. -/
theorem neville_errorExpansion_orderTwo :
    (∀ (limit : ℚ) (a : ℕ → ℚ), neville (runCounts 2 8) (2 : ℕ)
      ((runCounts 2 8).map (errorExpansion limit a (fun m => 2 + 2 * m) 7)) = limit) ∧
    ¬ ∀ (limit : ℚ) (a : ℕ → ℚ), neville (runCounts 1 3) (2 : ℕ)
      ((runCounts 1 3).map (errorExpansion limit a (fun m => 2 + 1 * m) 2)) = limit := by
  constructor
  · exact (neville_errorExpansion_iff (by decide) (by decide) (by decide)).mpr (.inr rfl)
  · intro hremoved
    have hcases := (neville_errorExpansion_iff (p := 2) (g := 1) (k := 3)
      (by decide) (by decide) (by decide)).mp hremoved
    omega

end Survival

/-- Values of Heun's method with the limit 54 and the error `-216 * c⁻² + 162 * c⁻³`, which are 0,
81/4 and 36, do not give the limit, although three runs of the method declare the order four. -/
theorem neville_heun_ne_limit :
    (Solver.extrapolation (Solver.heun : Solver ℚ) 3 (by decide)).description.order = 4 ∧
    neville ((Solver.heun : Solver ℚ).coefficients 3) (Solver.heun : Solver ℚ).description.exponent
      (((Solver.heun : Solver ℚ).coefficients 3).map
        (errorExpansion (54 : ℚ) (fun m => if m = 0 then -216 else 162) (fun m => 2 + 1 * m) 2)) ≠
      54 := by
  have hcoefficients : (Solver.heun : Solver ℚ).coefficients 3 = [1, 2, 3] := rfl
  have hexponent : (Solver.heun : Solver ℚ).description.exponent = (2 : ℕ) := by decide
  refine ⟨rfl, ?_⟩
  rw [hcoefficients, hexponent]
  have hvalues : ([1, 2, 3] : List ℕ).map (errorExpansion (54 : ℚ)
      (fun m => if m = 0 then -216 else 162) (fun m => 2 + 1 * m) 2) = [0, 81 / 4, 36] := by
    norm_num [errorExpansion, Finset.sum_range_succ]
  have hentry (low high : ℕ) (coarse fine : ℚ) : nevilleEntry (2 : ℕ) low high coarse fine =
      fine + (fine - coarse) / (((low : ℚ) ^ 2)⁻¹ / ((high : ℚ) ^ 2)⁻¹ - 1) :=
    nevilleEntry_eq 2 low high coarse fine
  have hsecond : nevilleColumn (2 : ℕ) [1, 2, 3] [2, 3] [(0 : ℚ), 81 / 4, 36] = [27, 243 / 5] := by
    show [nevilleEntry (2 : ℕ) 1 2 (0 : ℚ) (81 / 4), nevilleEntry (2 : ℕ) 2 3 (81 / 4 : ℚ) 36] = _
    rw [hentry, hentry]
    norm_num
  have hthird : nevilleColumn (2 : ℕ) [1, 2, 3] [3] [(27 : ℚ), 243 / 5] = [513 / 10] := by
    show [nevilleEntry (2 : ℕ) 1 3 (27 : ℚ) (243 / 5)] = _
    rw [hentry]
    norm_num
  have htable : neville [1, 2, 3] (2 : ℕ) [(0 : ℚ), 81 / 4, 36] = 513 / 10 := by
    show ((nevilleColumn (2 : ℕ) [1, 2, 3] [3]
      (nevilleColumn (2 : ℕ) [1, 2, 3] [2, 3] [(0 : ℚ), 81 / 4, 36])).getLast?.getD zero) = _
    rw [hsecond, hthird]
    rfl
  rw [hvalues, htable]
  norm_num

end Fluxion
