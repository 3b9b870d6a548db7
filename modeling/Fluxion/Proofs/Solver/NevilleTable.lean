import Fluxion.Proofs.Scalar.Exact
import Fluxion.Solver.Basic
import Fluxion.Solver.Run

/-!
# The table of an extrapolation interpolates

The table is read in a field.  A run that divides the step into `c` parts has the node `c⁻ᵖ`, where
`p` is the exponent of the table.  The entry of a column that combines the runs from `i` to `i + j`
is the value at zero of the polynomial that interpolates these runs at their nodes
(`interpolant_succ`), so the whole table gives the value at zero of the polynomial that interpolates
all runs (`neville_eq_eval`).
-/

set_option autoImplicit false

namespace Fluxion

open Polynomial

variable {K : Type} [Field K]

/-- Where a run that divides the step into `c` parts stands in a table with the exponent `p`. -/
def runNode (p c : ℕ) : K := ((c : K) ^ p)⁻¹

/-- The value at zero of the polynomial through the runs from `i` to `i + j`. -/
noncomputable def interpolant (x v : ℕ → K) (j i : ℕ) : K :=
  (Lagrange.interpolate (Finset.Icc i (i + j)) x v).eval 0

section Interpolants

variable {x v : ℕ → K}

/-- The first column of the table holds the values. -/
theorem interpolant_zero (i : ℕ) : interpolant x v 0 i = v i := by
  rw [interpolant, add_zero, Finset.Icc_self, Lagrange.interpolate_singleton, eval_C]

/-- Neighbours in a column combine to the entry of the next column behind them. -/
theorem interpolant_succ {i j : ℕ} (hx : Set.InjOn x (Finset.Icc i (i + j + 1)))
    (hhigh : x (i + j + 1) ≠ 0) :
    interpolant x v (j + 1) i = interpolant x v j (i + 1) +
      (interpolant x v j (i + 1) - interpolant x v j i) / (x i / x (i + j + 1) - 1) := by
  have hlow_mem : i ∈ Finset.Icc i (i + j + 1) := Finset.mem_Icc.mpr ⟨le_rfl, by omega⟩
  have hhigh_mem : i + j + 1 ∈ Finset.Icc i (i + j + 1) := Finset.mem_Icc.mpr ⟨by omega, le_rfl⟩
  have hne : i ≠ i + j + 1 := by omega
  have hnodes : x i ≠ x (i + j + 1) := fun h => hne (hx hlow_mem hhigh_mem h)
  have hcoarse : (Finset.Icc i (i + j + 1)).erase (i + j + 1) = Finset.Icc i (i + j) := by
    ext m
    simp only [Finset.mem_erase, Finset.mem_Icc]
    omega
  have hfine : (Finset.Icc i (i + j + 1)).erase i = Finset.Icc (i + 1) (i + 1 + j) := by
    ext m
    simp only [Finset.mem_erase, Finset.mem_Icc]
    omega
  have hsplit := congrArg (eval 0)
    (Lagrange.interpolate_eq_add_interpolate_erase (r := v) hx hlow_mem hhigh_mem hne)
  rw [hcoarse, hfine] at hsplit
  simp only [eval_add, eval_mul, Lagrange.basisDivisor, eval_C, eval_sub, eval_X] at hsplit
  have hentry : interpolant x v (j + 1) i =
      interpolant x v j i * ((x i - x (i + j + 1))⁻¹ * (0 - x (i + j + 1))) +
        interpolant x v j (i + 1) * ((x (i + j + 1) - x i)⁻¹ * (0 - x i)) := hsplit
  have hgap : x i - x (i + j + 1) ≠ 0 := sub_ne_zero.mpr hnodes
  have hgap' : x (i + j + 1) - x i ≠ 0 := sub_ne_zero.mpr hnodes.symm
  rw [hentry, div_sub_one hhigh]
  field_simp
  ring

end Interpolants

section Table

variable {p k : ℕ} {c : ℕ → ℕ} {v : ℕ → K}

/-- An entry is weighted with the ratio of the nodes behind it. -/
theorem nevilleEntry_eq (p low high : ℕ) (coarse fine : K) :
    nevilleEntry p low high coarse fine =
      fine + (fine - coarse) / (runNode p low / runNode p high - 1) := by
  rw [nevilleEntry, signedPower_eq, one_eq, zpow_natCast, div_pow, runNode, runNode,
    inv_div_inv]

/-- The column behind a column, entry by entry. -/
theorem nevilleColumn_eq (p : ℕ) (c : ℕ → ℕ) (column : ℕ → K) {j k : ℕ} (hj : j < k) :
    nevilleColumn p ((List.range k).map c) (((List.range k).map c).drop (j + 1))
        ((List.range (k - j)).map column) =
      (List.range (k - (j + 1))).map fun i =>
        nevilleEntry p (c i) (c (i + j + 1)) (column i) (column (i + 1)) := by
  refine List.ext_getElem ?_ fun i hi hi' => ?_
  · simp only [nevilleColumn, List.length_map, List.length_zip, List.length_drop,
      List.length_tail, List.length_range]
    omega
  · simp only [nevilleColumn, List.getElem_map, List.getElem_zip, List.getElem_drop,
      List.getElem_tail, List.getElem_range]
    rw [show j + 1 + i = i + j + 1 by omega]

/-- The columns of the table hold the values at zero of the interpolating polynomials. -/
theorem columns_eq (hc : ∀ i < k, (c i : K) ≠ 0)
    (hnodes : Set.InjOn (fun i => runNode p (c i) : ℕ → K) (Finset.range k)) {n : ℕ} (hn : n < k) :
    (List.range n).foldl (fun column j =>
        nevilleColumn p ((List.range k).map c) (((List.range k).map c).drop (j + 1)) column)
        ((List.range k).map v) =
      (List.range (k - n)).map (interpolant (fun i => runNode p (c i)) v n) := by
  -- one column more is one run more under each polynomial
  induction n with
  | zero =>
    rw [List.range_zero, List.foldl_nil, Nat.sub_zero]
    exact List.map_congr_left fun i _ => (interpolant_zero i).symm
  | succ n ih =>
    rw [List.range_succ, List.foldl_append, ih (by omega), List.foldl_cons, List.foldl_nil,
      nevilleColumn_eq p c _ (by omega)]
    refine List.map_congr_left fun i hi => ?_
    have hlt : i + n + 1 < k := by
      rw [List.mem_range] at hi
      omega
    have hsubset : Set.InjOn (fun i => runNode p (c i) : ℕ → K) (Finset.Icc i (i + n + 1)) := by
      refine hnodes.mono fun m hm => ?_
      simp only [Finset.coe_Icc, Set.mem_Icc] at hm
      simp only [Finset.coe_range, Set.mem_Iio]
      omega
    rw [nevilleEntry_eq, interpolant_succ hsubset (inv_ne_zero (pow_ne_zero p (hc _ hlt)))]

/-- The table gives the value at zero of every polynomial that passes through the runs and whose
degree is below their number. -/
theorem neville_eq_eval (hk : 0 < k) (hc : ∀ i < k, (c i : K) ≠ 0)
    (hnodes : Set.InjOn (fun i => runNode p (c i) : ℕ → K) (Finset.range k)) {q : K[X]}
    (hdegree : q.degree < k) (hq : ∀ i < k, v i = q.eval (runNode p (c i))) :
    neville ((List.range k).map c) p ((List.range k).map v) = q.eval 0 := by
  have hlast : (k - 1) < k := by omega
  have hcolumn := columns_eq (v := v) hc hnodes hlast
  have hone : k - (k - 1) = 1 := by omega
  have hall : Finset.Icc 0 (0 + (k - 1)) = Finset.range k := by
    ext m
    simp only [Finset.mem_Icc, Finset.mem_range]
    omega
  have hq' : q = Lagrange.interpolate (Finset.range k) (fun i => runNode p (c i)) v :=
    Lagrange.eq_interpolate_of_eval_eq v hnodes (by rwa [Finset.card_range])
      fun i hi => (hq i (Finset.mem_range.mp hi)).symm
  unfold neville
  dsimp only
  rw [List.length_map, List.length_range, hcolumn, hone, List.range_one, List.map_singleton,
    List.getLast?_singleton, Option.getD_some, interpolant, hall, ← hq']

end Table

/-- The numbers of steps of the runs of an extrapolation: the multiples of the gain. -/
def runCounts (gain runs : ℕ) : List ℕ := (List.range runs).map fun i => gain * (i + 1)

/-- The runs of an extrapolation have the multiples of the gain as their numbers of steps. -/
theorem Solver.coefficients_eq {α : Type} (base : Solver α) (runs : ℕ) :
    base.coefficients runs = runCounts base.description.gain runs := rfl

section Counts

variable [CharZero K] {p g k : ℕ}

/-- No run has the number of steps zero. -/
theorem runCount_ne_zero (hg : 0 < g) (i : ℕ) : ((g * (i + 1) : ℕ) : K) ≠ 0 :=
  Nat.cast_ne_zero.mpr (Nat.mul_ne_zero hg.ne' (Nat.succ_ne_zero i))

/-- Different runs have different nodes. -/
theorem runNode_injective (hp : 0 < p) (hg : 0 < g) :
    Function.Injective fun i : ℕ => (runNode p (g * (i + 1)) : K) := by
  intro i j hij
  have hpow : (g * (i + 1)) ^ p = (g * (j + 1)) ^ p := by
    have hcast := inv_injective hij
    exact_mod_cast hcast
  have hcount : g * (i + 1) = g * (j + 1) := Nat.pow_left_injective hp.ne' hpow
  have hindex := Nat.eq_of_mul_eq_mul_left hg hcount
  omega

/-- The runs of an extrapolation have nodes that differ, so the table evaluates a polynomial that
passes through them at zero. -/
theorem neville_runCounts_eq (hp : 0 < p) (hg : 0 < g) (hk : 0 < k) {f : ℕ → K} {q : K[X]}
    (hdegree : q.degree < k)
    (hvalues : ∀ i < k, f (g * (i + 1)) = q.eval (runNode p (g * (i + 1)))) :
    neville (runCounts g k) p ((runCounts g k).map f) = q.eval 0 := by
  rw [runCounts, List.map_map]
  exact neville_eq_eval hk (fun i _ => runCount_ne_zero hg i) (runNode_injective hp hg).injOn
    hdegree hvalues

end Counts

end Fluxion
