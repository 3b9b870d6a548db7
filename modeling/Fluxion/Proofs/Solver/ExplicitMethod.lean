import Fluxion.Proofs.Solver.Runs
import Fluxion.Proofs.Solver.Launch

/-!
# The explicit method of a table of coefficients

A table is accepted if and only if its matrix is square and not empty, there is a weight for each
row, and all entries on and above the diagonal are zero (`Tableau.create_eq_ok_iff`).  What a solver
does with an accepted table is the explicit method of the textbooks: stage `i` of a step of length
`h` from `x` at the time `t` is the right-hand side at the time `t + c_i h` and the point `x + h
(a_i0 k_0 + ... + a_i(i-1) k_(i-1))`, and the step leads to `x + h (b_0 k_0 + b_1 k_1 + ...)`
(`Tableau.IsExplicitStep`).  The sums are those of the program, with its order of the terms and its
first summand, so the equations hold for rounded scalars as they stand.

The equations determine the stages, because a stage refers to earlier ones only
(`Tableau.SolvesStages.unique`).  A solver with a table is launched whenever the step is a positive
number and the initial state fits, and its states are those of the steps of the table
(`Trajectory.item_stages`).
-/

set_option autoImplicit false

namespace Fluxion

variable {α : Type}

namespace Tableau

/-! ## Tables -/

/-- The matrix is square and not empty, with a weight for each row. -/
structure IsSquare (rows : List (List α)) (weights : List α) : Prop where
  ne_nil : rows ≠ []
  length_row : ∀ row ∈ rows, row.length = rows.length
  length_weights : weights.length = rows.length

/-- A square matrix with its weights that has nothing but zeros on and above the diagonal. -/
structure IsStrictlyLower [NatCast α] [BEq α] (rows : List (List α)) (weights : List α) : Prop
    extends IsSquare rows weights where
  isZero : ∀ (i j : ℕ) (row : List α) (entry : α), rows[i]? = some row → row[j]? = some entry →
    i ≤ j → (entry == zero) = true

section Creating

variable [NatCast α] [BEq α] {rows : List (List α)} {weights : List α} {tab : Tableau α}

omit [NatCast α] [BEq α] in
/-- No row is odd if all are as long as there are rows. -/
theorem oddRow_eq_none_iff : oddRow? rows = none ↔ ∀ row ∈ rows, row.length = rows.length := by
  simp [oddRow?, List.find?_eq_none]

/-- No entry is implicit if those on and above the diagonal are zero. -/
theorem implicitEntry_eq_none_iff :
    implicitEntry? rows = none ↔ ∀ (i j : ℕ) (row : List α) (entry : α), rows[i]? = some row →
      row[j]? = some entry → i ≤ j → (entry == zero) = true := by
  simp only [List.findSome?_eq_none_iff, implicitEntry?, Prod.forall,
    List.mk_mem_zipIdx_iff_getElem?]
  constructor
  · intro h i j row entry hrow hentry hij
    by_contra hne
    have hnone := h row i hrow entry j hentry
    simp [hij, hne] at hnone
  · intro h row i hrow entry j hentry
    by_cases hij : i ≤ j
    · simp [h i j row entry hrow hentry hij]
    · simp [hij]

/-- A table is accepted if it is strictly lower triangular, and is then taken as it was given. -/
theorem create_eq_ok_iff :
    create rows weights = .ok tab ↔ IsStrictlyLower rows weights ∧ tab = ⟨rows, weights⟩ := by
  constructor
  · intro h
    unfold create at h
    split at h
    · cases h
    rename_i hne
    split at h
    · cases h
    rename_i hodd
    split at h
    · cases h
    rename_i hweights
    split at h
    · cases h
    rename_i himplicit
    cases h
    exact ⟨⟨⟨hne, oddRow_eq_none_iff.mp hodd, not_not.mp hweights⟩,
      implicitEntry_eq_none_iff.mp himplicit⟩, rfl⟩
  · rintro ⟨⟨⟨hne, hrows, hweights⟩, hzero⟩, rfl⟩
    unfold create
    rw [if_neg hne, oddRow_eq_none_iff.mpr hrows]
    dsimp only
    rw [if_neg (not_not.mpr hweights), implicitEntry_eq_none_iff.mpr hzero]

end Creating

/-! ## Steps -/

section Stages

variable [Arithmetic α]

/-- The row of a stage. -/
def row (tab : Tableau α) (i : ℕ) : List α := tab.rows.getD i []

/-- The sum of `a_ij * k_j` over the stages before `i`, from the left, starting from the negative
zero. -/
def earlierTotal (tab : Tableau α) (i : ℕ) (k : ℕ → α) : α :=
  (List.range i).foldl (fun sum j => sum + coordinate (tab.row i) j * k j) (-zero)

/-- The sum of `b_i * k_i` over all stages.  The first term starts the sum and each later one is put
in front of it. -/
def weightedTotal (tab : Tableau α) (k : ℕ → α) : α :=
  (List.range' 1 (tab.stages - 1)).foldl (fun sum i => k i * coordinate tab.weights i + sum)
    (k 0 * coordinate tab.weights 0)

/-- The first `m` stages of a step of length `h` from `x` at the time `t`: stage `i` has the rate
`k i v` for the variable `v`. -/
def SolvesStages (tab : Tableau α) (field : VectorField α) (t h : α) (x : List α) (m : ℕ)
    (k : ℕ → ℕ → α) : Prop :=
  ∀ i < m, ∀ v < field.dimension, k i v = field.component v (t + node (tab.row i) * h)
    ((List.range field.dimension).map fun w =>
      coordinate x w + h * tab.earlierTotal i fun j => k j w)

/-- A step of length `h` of the explicit method, from `x` at the time `t` to `y`, with the stages
`k`. -/
structure IsExplicitStep (tab : Tableau α) (field : VectorField α) (t h : α) (x y : List α)
    (k : ℕ → ℕ → α) : Prop where
  stages_eq : tab.SolvesStages field t h x tab.stages k
  length_eq : y.length = field.dimension
  update_eq : ∀ v < field.dimension,
    coordinate y v = coordinate x v + h * tab.weightedTotal fun i => k i v

variable {tab : Tableau α} {field : VectorField α} {t h : α} {x y y' : List α} {m i : ℕ}
  {k k' : ℕ → ℕ → α}

/-- A stage depends on the earlier stages only. -/
theorem earlierTotal_congr {k k' : ℕ → α} (hk : ∀ j < i, k j = k' j) :
    tab.earlierTotal i k = tab.earlierTotal i k' := by
  apply List.foldl_ext
  intro sum j hj
  rw [hk j (List.mem_range.mp hj)]

/-- A step depends on the stages of the table only. -/
theorem weightedTotal_congr {k k' : ℕ → α} (hstages : 0 < tab.stages)
    (hk : ∀ i < tab.stages, k i = k' i) : tab.weightedTotal k = tab.weightedTotal k' := by
  unfold weightedTotal
  rw [hk 0 hstages]
  apply List.foldl_ext
  intro sum i hi
  rw [hk i (by simp [List.mem_range'_1] at hi; omega)]

/-- The equations of the stages have one solution. -/
theorem SolvesStages.unique (hk : tab.SolvesStages field t h x m k)
    (hk' : tab.SolvesStages field t h x m k') :
    ∀ i < m, ∀ v < field.dimension, k i v = k' i v := by
  intro i
  induction i using Nat.strongRecOn with
  | ind i ih =>
    intro hi v hv
    have hpoint : ((List.range field.dimension).map fun w =>
          coordinate x w + h * tab.earlierTotal i fun j => k j w) =
        (List.range field.dimension).map fun w =>
          coordinate x w + h * tab.earlierTotal i fun j => k' j w := by
      apply List.map_congr_left
      intro w hw
      rw [earlierTotal_congr fun j hj => ih j hj (hj.trans hi) w (List.mem_range.mp hw)]
    rw [hk i hi v hv, hk' i hi v hv, hpoint]

/-- A step leads from where it starts to one place. -/
theorem IsExplicitStep.unique (hstages : 0 < tab.stages)
    (hy : tab.IsExplicitStep field t h x y k) (hy' : tab.IsExplicitStep field t h x y' k') :
    y = y' := by
  apply List.ext_getElem
  · rw [hy.length_eq, hy'.length_eq]
  · intro v hv hv'
    have hlt : v < field.dimension := hy.length_eq ▸ hv
    have hrates : tab.weightedTotal (fun i => k i v) = tab.weightedTotal fun i => k' i v :=
      weightedTotal_congr hstages fun i hi => hy.stages_eq.unique hy'.stages_eq i hi v hlt
    rw [← coordinate_eq_getElem hv, ← coordinate_eq_getElem hv', hy.update_eq v hlt,
      hy'.update_eq v hlt, hrates]

/-! ## Stages that are put behind each other -/

/-- The rates of the first stages. -/
def firstStages (tab : Tableau α) (field : VectorField α) (t h : α) (x : List α) (m : ℕ) :
    List (List α) :=
  (tab.rows.take m).foldl (nextStage field t h x) []

/-- Each further stage is evaluated at the point that the ones before it determine. -/
theorem firstStages_succ (hm : m < tab.rows.length) :
    tab.firstStages field t h x (m + 1) = tab.firstStages field t h x m ++
      [field.rates (t + node (tab.row m) * h)
        (stagePoint h x (tab.row m) (tab.firstStages field t h x m))] := by
  have hrow : tab.rows.getD m [] = tab.rows[m] := List.getD_eq_getElem _ _ hm
  rw [firstStages, List.take_succ_eq_append_getElem hm, List.foldl_append, row, hrow]
  rfl

/-- There are as many stages as rows have been gone through. -/
theorem length_firstStages (hm : m ≤ tab.rows.length) :
    (tab.firstStages field t h x m).length = m := by
  induction m with
  | zero => rfl
  | succ m ih => rw [firstStages_succ hm, List.length_append, ih (by omega), List.length_singleton]

/-- Stages that have been put behind others do not change these. -/
theorem getD_firstStages (hm : m ≤ tab.rows.length) {j : ℕ} (hj : j < m) :
    (tab.firstStages field t h x m).getD j [] =
      field.rates (t + node (tab.row j) * h)
        (stagePoint h x (tab.row j) (tab.firstStages field t h x j)) := by
  induction m with
  | zero => omega
  | succ m ih =>
    have hlength : (tab.firstStages field t h x m).length = m := length_firstStages (by omega)
    rw [firstStages_succ hm]
    obtain hlast | hbefore := Nat.eq_or_lt_of_le (Nat.le_of_lt_succ hj)
    · subst hlast
      rw [List.getD_append_right _ _ _ _ (by omega), hlength]
      simp
    · rw [List.getD_append _ _ _ _ (by omega), ih (by omega) hbefore]

/-- The sum over the earlier stages, as it is computed, is that of the method. -/
theorem earlierSum_eq_earlierTotal {earlier : List (List α)} (hi : i ≤ (tab.row i).length)
    (hearlier : earlier.length = i) (v : ℕ) :
    earlierSum (tab.row i) earlier v =
      tab.earlierTotal i fun j => coordinate (earlier.getD j []) v := by
  rw [earlierSum, zip_eq_map_range _ _ zero [] hi hearlier, List.foldl_map]
  rfl

/-- The weighted sum of the stages, as it is computed, is that of the method. -/
theorem weightedSum_eq_weightedTotal {rates : List (List α)} (hstages : 0 < tab.stages)
    (hrates : rates.length = tab.stages) (v : ℕ) :
    weightedSum tab.weights rates v =
      tab.weightedTotal fun i => coordinate (rates.getD i []) v := by
  obtain ⟨m, hm⟩ := Nat.exists_eq_succ_of_ne_zero hstages.ne'
  have hweights : tab.weights.length = tab.stages := rfl
  rw [weightedSum, zip_eq_map_range _ _ [] zero hrates.ge hweights, hm, List.range_succ_eq_map,
    List.map_cons]
  dsimp only
  rw [List.map_map, List.foldl_map, weightedTotal, hm, List.range'_eq_map_range, Nat.succ_sub_one,
    List.foldl_map]
  simp only [Nat.add_comm 1]
  rfl

/-- The stages of a step solve the equations of the method. -/
theorem advance_isExplicitStep (hsquare : IsSquare tab.rows tab.weights)
    (hx : x.length = field.dimension) :
    tab.IsExplicitStep field t h x (tab.advance field t h x) fun i v =>
      coordinate ((tab.stageRates field t h x).getD i []) v := by
  have hstages : tab.stages = tab.rows.length := hsquare.length_weights
  have hpos : 0 < tab.stages := hstages ▸ List.length_pos_of_ne_nil hsquare.ne_nil
  have hall : tab.stageRates field t h x = tab.firstStages field t h x tab.rows.length := by
    rw [firstStages, List.take_length, stageRates]
  have hcolumn : ∀ i ≤ tab.rows.length, ∀ j < i,
      (tab.firstStages field t h x i).getD j [] = (tab.stageRates field t h x).getD j [] := by
    intro i hi j hj
    rw [hall, getD_firstStages hi hj, getD_firstStages le_rfl (hj.trans_le hi)]
  refine ⟨fun i hi v hv => ?_, ?_, fun v hv => ?_⟩
  · rw [hstages] at hi
    have hrow : (tab.row i).length = tab.rows.length := by
      rw [row, List.getD_eq_getElem _ _ hi]
      exact hsquare.length_row _ (List.getElem_mem hi)
    have hpoint : stagePoint h x (tab.row i) (tab.firstStages field t h x i) =
        (List.range field.dimension).map fun w => coordinate x w + h * tab.earlierTotal i fun j =>
          coordinate ((tab.stageRates field t h x).getD j []) w := by
      rw [stagePoint, hx]
      apply List.map_congr_left
      intro w _
      rw [earlierSum_eq_earlierTotal (by omega) (length_firstStages hi.le),
        earlierTotal_congr fun j hj => by rw [hcolumn i hi.le j hj]]
    rw [← hcolumn (i + 1) hi i (Nat.lt_succ_self i), getD_firstStages hi (Nat.lt_succ_self i),
      hpoint, VectorField.rates, coordinate_map_range _ hv]
  · rw [advance, List.length_map, List.length_range, hx]
  · have hlength : (tab.stageRates field t h x).length = tab.stages := by
      rw [hall, length_firstStages le_rfl, hstages]
    rw [advance, coordinate_map_range _ (hx ▸ hv), weightedSum_eq_weightedTotal hpos hlength]

end Stages

end Tableau

/-! ## Runs -/

/-- The time at which the step `n` of a run starts, which is a multiple of the step away from the
start, and the start itself for the first step. -/
def timeAt [Arithmetic α] (start step : α) : ℕ → α
  | 0 => start
  | n + 1 => start + ((n + 1 : ℕ) : α) * step

/-- The clock shows the time of the method. -/
theorem Clock.target_after_eq_timeAt [Arithmetic α] (step start : α) (n : ℕ) :
    (Clock.after step start n).current.target = timeAt start step n := by
  cases n with
  | zero => rfl
  | succ n =>
    show valueAt _ ((after step start n).count + 1) = _
    rw [valueAt, count_after, start_after, increment_after]
    rfl

namespace Tableau

variable [Arithmetic α]

/-- The values after `n` steps. -/
def valuesAfter (tab : Tableau α) (field : VectorField α) (start step : α) (x : List α) :
    ℕ → List α
  | 0 => x
  | n + 1 => tab.advance field (timeAt start step n) step (tab.valuesAfter field start step x n)

variable {tab : Tableau α} {field : VectorField α} {start step : α} {x : List α}

/-- The values of the method have the dimension of the field throughout. -/
theorem length_valuesAfter (hx : x.length = field.dimension) (n : ℕ) :
    (tab.valuesAfter field start step x n).length = field.dimension := by
  induction n with
  | zero => exact hx
  | succ n ih => rw [valuesAfter, advance, List.length_map, List.length_range, ih]

end Tableau

namespace Trajectory

variable [Arithmetic α] [LT α] [DecidableLT α] [Finiteness α] {field : VectorField α}
  {initial : State α} {step : α}

/-- A method with stages is launched whenever the step is a positive number and the state fits, and
never fails.  Its states have the values of the steps of its table. -/
theorem item_stages (name : String) (order : UInt32) (tab : Tableau α) (hstep : IsPositive step)
    {x : List α} (hx : initial.orderedValues field.names = .ok x) :
    ∃ t, (launch (.stages name order tab) field initial step).result = .ok t ∧
      ∀ n, t.item n = some (.ok ⟨timeAt initial.time step (n + 1), field.names,
        tab.valuesAfter field initial.time step x (n + 1)⟩) := by
  have hlaunch : ((Solver.stages name order tab).launch field initial step).result =
      .ok (Run.after step initial.time 0 x none) := by
    rw [Solver.launch, Attempt.result_announcing]
    exact Run.result_start hstep hx
  have hadvance : ∀ n, ((Solver.stages name order tab).advance field (Run.after step initial.time n
      (tab.valuesAfter field initial.time step x n) none)).result =
      .ok (Run.after step initial.time (n + 1)
        (tab.valuesAfter field initial.time step x (n + 1)) none) := by
    intro n
    rw [Solver.advance, Run.increment_after, Run.values_after]
    show (Run.reach _ (tab.advance field (Clock.after step initial.time n).current.target _ _)
      _).result = _
    rw [Clock.target_after_eq_timeAt]
    exact Run.result_reach _ _
  obtain ⟨t, ht, hitems⟩ := exists_launch_of_stages hlaunch hadvance
  refine ⟨t, ht, fun n => ?_⟩
  rw [hitems, Run.state, Run.time]
  show some (Except.ok (State.mk (Clock.after step initial.time (n + 1)).current.target _ _)) = _
  rw [Clock.target_after_eq_timeAt]
  rfl

end Trajectory

end Fluxion
