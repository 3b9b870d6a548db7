import Fluxion.Proofs.Solver.Runs
import Fluxion.Proofs.Solver.NevilleTable

/-!
# The table in place

The table of an extrapolation can be kept in the list of the values alone: each round overwrites the
cells from the last one down, so that the cell before a cell still has its entry of the column
before when it is needed (`coordinate_overwriteColumn`).  Behind the cells that a round leaves alone
stands a whole column (`drop_overwriteColumn`), and the last cell in the end has the last entry of
the table (`nevilleInPlace_eq`).

Read in a field, either form is exact on values that are given by a polynomial in the nodes of the
runs, whose degree is below their number: no entry divides by zero, and the table gives the value of
the polynomial at zero (`neville_exact`).
-/

set_option autoImplicit false

namespace Fluxion

open Polynomial

section Overwriting

variable {α : Type} [Arithmetic α]

/-- Combines a cell with the one before it, in the round that makes the `j`-th column. -/
def overwriteCell (coefficients : List ℕ) (exponent : ℤ) (j : ℕ) (cells : List α) (i : ℕ) :
    List α :=
  cells.set i (nevilleEntry exponent (coefficients.getD (i - j) 0) (coefficients.getD i 0)
    (coordinate cells (i - 1)) (coordinate cells i))

/-- Makes the `j`-th column, from the last cell down to the `j`-th. -/
def overwriteColumn (coefficients : List ℕ) (exponent : ℤ) (cells : List α) (j : ℕ) : List α :=
  (List.range' j (cells.length - j)).reverse.foldl (overwriteCell coefficients exponent j) cells

/-- The last cell, once all columns have been made one over the other. -/
def nevilleInPlace (coefficients : List ℕ) (exponent : ℤ) (values : List α) : α :=
  coordinate ((List.range' 1 (values.length - 1)).foldl (overwriteColumn coefficients exponent)
    values) (values.length - 1)

variable {coefficients : List ℕ} {exponent : ℤ} {cells values : List α} {j : ℕ}

/-- A round, read from its last cell on. -/
theorem overwriteColumn_eq_foldr :
    overwriteColumn coefficients exponent cells j =
      (List.range' j (cells.length - j)).foldr
        (fun i cells => overwriteCell coefficients exponent j cells i) cells :=
  List.foldl_reverse

/-- Overwriting cells leaves their number. -/
theorem length_foldr_overwriteCell (order : List ℕ) :
    (order.foldr (fun i cells => overwriteCell coefficients exponent j cells i) cells).length =
      cells.length := by
  induction order with
  | nil => rfl
  | cons i order ih => rw [List.foldr_cons, overwriteCell, List.length_set, ih]

/-- Overwriting a column leaves the number of its cells. -/
theorem length_overwriteColumn :
    (overwriteColumn coefficients exponent cells j).length = cells.length := by
  rw [overwriteColumn_eq_foldr, length_foldr_overwriteCell]

/-- Once a round has come down to the cell `m`, the cells from there on are combined, each with what
the cell before it had, and the others are as they were. -/
theorem coordinate_foldr_overwriteCell {m n : ℕ} (hm : m + n = cells.length) (i : ℕ) :
    coordinate ((List.range' m n).foldr
        (fun i cells => overwriteCell coefficients exponent j cells i) cells) i =
      if m ≤ i ∧ i < cells.length then
        nevilleEntry exponent (coefficients.getD (i - j) 0) (coefficients.getD i 0)
          (coordinate cells (i - 1)) (coordinate cells i)
      else coordinate cells i := by
  induction n generalizing m i with
  | zero =>
    rw [List.range'_zero, List.foldr_nil, if_neg (by omega)]
  | succ n ih =>
    have hbehind := @ih (m + 1) (by omega)
    rw [List.range'_succ, List.foldr_cons, overwriteCell,
      coordinate_set (by rw [length_foldr_overwriteCell]; omega)]
    by_cases hi : m = i
    · -- neither the cell nor the one before it has been overwritten yet
      subst hi
      rw [if_pos rfl, if_pos (by omega), hbehind m, hbehind (m - 1), if_neg (by omega),
        if_neg (by omega)]
    · rw [if_neg hi, hbehind i]
      exact if_congr (by omega) rfl rfl

/-- A cell from the `j`-th on is combined with the old content of the one before it, because the
cells are overwritten from the last one down. -/
theorem coordinate_overwriteColumn (hj : j ≤ cells.length) (i : ℕ) :
    coordinate (overwriteColumn coefficients exponent cells j) i =
      if j ≤ i ∧ i < cells.length then
        nevilleEntry exponent (coefficients.getD (i - j) 0) (coefficients.getD i 0)
          (coordinate cells (i - 1)) (coordinate cells i)
      else coordinate cells i := by
  rw [overwriteColumn_eq_foldr]
  exact coordinate_foldr_overwriteCell (by omega) i

/-- The cells from the `j`-th on are the column behind the one that stood there. -/
theorem drop_overwriteColumn (hlength : coefficients.length = cells.length) (hpos : 0 < j)
    (hj : j ≤ cells.length) :
    (overwriteColumn coefficients exponent cells j).drop j =
      nevilleColumn exponent coefficients (coefficients.drop j) (cells.drop (j - 1)) := by
  refine List.ext_getElem ?_ fun i hi hi' => ?_
  · simp only [nevilleColumn, List.length_drop, length_overwriteColumn, List.length_map,
      List.length_zip, List.length_tail]
    omega
  · have hcell : j + i < cells.length := by
      rw [List.length_drop, length_overwriteColumn] at hi
      omega
    have hoverwritten : j + i < (overwriteColumn coefficients exponent cells j).length := by
      rwa [length_overwriteColumn]
    rw [List.getElem_drop, ← coordinate_eq_getElem hoverwritten, coordinate_overwriteColumn hj,
      if_pos ⟨Nat.le_add_right j i, hcell⟩, coordinate_eq_getElem hcell,
      coordinate_eq_getElem (show j + i - 1 < cells.length by omega),
      List.getD_eq_getElem _ _ (show j + i - j < coefficients.length by omega),
      List.getD_eq_getElem _ _ (show j + i < coefficients.length by omega)]
    simp only [nevilleColumn, List.getElem_map, List.getElem_zip, List.getElem_drop,
      List.getElem_tail]
    congr 2 <;> omega

/-- After `n` rounds the cells from the `n`-th on are the column `n` of the table. -/
theorem drop_columns (exponent : ℤ) (hlength : coefficients.length = values.length) {n : ℕ}
    (hn : n ≤ values.length) :
    ((List.range' 1 n).foldl (overwriteColumn coefficients exponent) values).length =
        values.length ∧
      ((List.range' 1 n).foldl (overwriteColumn coefficients exponent) values).drop n =
        (List.range n).foldl (fun column j =>
          nevilleColumn exponent coefficients (coefficients.drop (j + 1)) column) values := by
  induction n with
  | zero => exact ⟨rfl, rfl⟩
  | succ n ih =>
    obtain ⟨hcells, hcolumn⟩ := ih (by omega)
    rw [List.range'_concat, List.range_succ, List.foldl_append, List.foldl_append, List.foldl_cons,
      List.foldl_cons, List.foldl_nil, List.foldl_nil, Nat.one_mul, Nat.add_comm 1 n]
    refine ⟨length_overwriteColumn.trans hcells, ?_⟩
    rw [drop_overwriteColumn (hlength.trans hcells.symm) n.succ_pos (hn.trans hcells.symm.le),
      Nat.succ_sub_one, hcolumn]

/-- Keeping the table in the list of the values does not change its last entry. -/
theorem nevilleInPlace_eq (hlength : coefficients.length = values.length) :
    nevilleInPlace coefficients exponent values = neville coefficients exponent values := by
  obtain hnone | hsome := Nat.eq_zero_or_pos values.length
  · rw [List.length_eq_zero_iff.mp hnone]
    rfl
  · obtain ⟨hcells, hcolumn⟩ := drop_columns exponent hlength (Nat.sub_le values.length 1)
    unfold nevilleInPlace neville coordinate
    dsimp only
    rw [← hcolumn, List.getLast?_drop, hcells, if_neg (by omega), List.getLast?_eq_getElem?, hcells,
      List.getD_eq_getElem?_getD]

end Overwriting

section Exactness

variable {K : Type} [Field K] [CharZero K] {p g k : ℕ}

/-- The i-th run has `i + 1` times as many steps as the first. -/
theorem getD_runCounts {i : ℕ} (hi : i < k) : (runCounts g k).getD i 0 = g * (i + 1) := by
  rw [List.getD_eq_getElem _ _ (by simpa [runCounts] using hi)]
  simp [runCounts]

/-- Two runs whose numbers of steps differ weigh differently. -/
theorem weight_sub_one_ne_zero (hp : 0 < p) (hg : 0 < g) {low high : ℕ} (hne : low ≠ high) :
    signedPower (((g * (high + 1) : ℕ) : K) / ((g * (low + 1) : ℕ) : K)) p - one ≠ 0 := by
  have hlow : (((g * (low + 1) : ℕ) : K) ^ p) ≠ 0 := pow_ne_zero p (runCount_ne_zero hg low)
  rw [signedPower_eq, one_eq, zpow_natCast, div_pow, sub_ne_zero, Ne, div_eq_one_iff_eq hlow]
  intro hequal
  exact hne (runNode_injective (K := K) hp hg (congrArg Inv.inv hequal.symm))

/-- The table of an extrapolation never divides by zero, and from values that a polynomial of a
degree below the number of runs takes at the nodes `c⁻ᵖ` it gives the value of the polynomial at
zero, whether it is made column by column or in place. -/
theorem neville_exact (base : Solver K) (hp : 0 < p) (hk : 0 < k) {q : K[X]}
    (hdegree : q.degree < k) :
    (∀ i j, 0 < j → j ≤ i → i < k →
      (((base.coefficients k).getD (i - j) 0 : ℕ) : K) ≠ 0 ∧
        signedPower ((((base.coefficients k).getD i 0 : ℕ) : K) /
          (((base.coefficients k).getD (i - j) 0 : ℕ) : K)) p - one ≠ 0) ∧
      neville (base.coefficients k) p
        ((base.coefficients k).map fun c : ℕ => q.eval (((c : K) ^ p)⁻¹)) = q.eval 0 ∧
      nevilleInPlace (base.coefficients k) p
        ((base.coefficients k).map fun c : ℕ => q.eval (((c : K) ^ p)⁻¹)) = q.eval 0 := by
  have hg : 0 < base.description.gain := base.description.gain_pos
  rw [Solver.coefficients_eq]
  have hexact := neville_runCounts_eq (f := fun c : ℕ => q.eval (((c : K) ^ p)⁻¹)) hp hg hk hdegree
    fun _ _ => rfl
  refine ⟨fun i j hj hij hi => ?_, hexact, ?_⟩
  · rw [getD_runCounts hi, getD_runCounts (show i - j < k by omega)]
    exact ⟨runCount_ne_zero hg _, weight_sub_one_ne_zero hp hg (by omega)⟩
  · rw [nevilleInPlace_eq (List.length_map _).symm, hexact]

end Exactness

/-- Three runs of the leapfrog method, which divide the step into two, four and six parts, with the
values of `144 X ^ 2 + 36 X + 1` at `1/4`, `1/16` and `1/36`. -/
theorem neville_exact_leapfrog :
    (Solver.midpoint : Solver ℚ).coefficients 3 = [2, 4, 6] ∧
      neville [2, 4, 6] (2 : ℕ) [19, 61 / 16, (19 / 9 : ℚ)] = 1 ∧
      nevilleInPlace [2, 4, 6] (2 : ℕ) [19, 61 / 16, (19 / 9 : ℚ)] = 1 := by
  have hcoefficients : (Solver.midpoint : Solver ℚ).coefficients 3 = [2, 4, 6] := rfl
  set q : ℚ[X] := C 144 * X ^ 2 + C 36 * X + C 1 with hq
  have hdegree : q.degree < (3 : ℕ) := degree_quadratic_lt
  have hvalues : ([2, 4, 6] : List ℕ).map (fun c : ℕ => q.eval (((c : ℚ) ^ 2)⁻¹)) =
      [19, 61 / 16, 19 / 9] := by
    norm_num [hq]
  have hlimit : q.eval 0 = 1 := by simp [hq]
  obtain ⟨-, hexact⟩ := neville_exact (Solver.midpoint : Solver ℚ) (by decide : 0 < 2)
    (by decide : 0 < 3) hdegree
  rw [hcoefficients, hvalues, hlimit] at hexact
  exact ⟨hcoefficients, hexact⟩

end Fluxion
