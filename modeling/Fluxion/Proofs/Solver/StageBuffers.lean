import Fluxion.Proofs.Solver.ExplicitMethod

/-!
# Stages that are kept in one place

The stages of a step can be kept in one matrix, the point of a stage in one row and its rates in
another.  Every stage overwrites the point and the rates and then its own column of the matrix, and
every step finds all three as the last one has left them.  A stage reads the columns before its own,
and these have been overwritten in the same step (`Tableau.solvesStages_overwriteStage`).  So what
the buffers held before does not matter: the stages solve the equations of the method, which have
one solution, and the values are those of stages that are made anew (`Tableau.advanceInPlace_eq`).

The main statement says all that a solver does with an accepted table
(`Tableau.explicitMethod_of_create`).
-/

set_option autoImplicit false

namespace Fluxion

variable {α : Type}

namespace Tableau

/-- Where the stages of a step are kept: a column of rates for each stage, the point at which a
stage evaluates the right-hand side, and the rates that it finds there. -/
structure StageBuffers (α : Type) where
  columns : List (List α)
  point : List α
  rates : List α

namespace StageBuffers

/-- There is a column for each stage, and a cell for each variable. -/
structure Fits (b : StageBuffers α) (stages dimension : ℕ) : Prop where
  length_columns : b.columns.length = stages
  length_point : b.point.length = dimension
  length_rates : b.rates.length = dimension

/-- The cell of a stage and a variable. -/
def cell [NatCast α] (b : StageBuffers α) (i v : ℕ) : α := coordinate (b.columns.getD i []) v

end StageBuffers

section InPlace

variable [Arithmetic α]

/-- Makes one stage: overwrites the point and the rates cell by cell and copies the rates to the
column of the stage. -/
def overwriteStage (tab : Tableau α) (field : VectorField α) (t h : α) (x : List α)
    (b : StageBuffers α) (i : ℕ) : StageBuffers α :=
  let point := (List.range b.point.length).foldl (fun point w =>
    point.set w (coordinate x w + h * tab.earlierTotal i fun j => b.cell j w)) b.point
  let rates := (List.range b.rates.length).foldl (fun rates v =>
    rates.set v (field.component v (t + node (tab.row i) * h) point)) b.rates
  ⟨b.columns.set i rates, point, rates⟩

/-- Makes all stages, and then overwrites the values cell by cell. -/
def advanceInPlace (tab : Tableau α) (field : VectorField α) (t h : α) (x : List α)
    (b : StageBuffers α) : List α × StageBuffers α :=
  let b := (List.range tab.stages).foldl (tab.overwriteStage field t h x) b
  ((List.range x.length).foldl (fun y v =>
    y.set v (coordinate y v + h * tab.weightedTotal fun i => b.cell i v)) x, b)

variable {tab : Tableau α} {field : VectorField α} {t h : α} {x : List α} {b : StageBuffers α}
  {stages i : ℕ}

/-- What the buffers hold once a stage has been made. -/
theorem overwriteStage_eq :
    tab.overwriteStage field t h x b i =
      let point := (List.range b.point.length).map fun w =>
        coordinate x w + h * tab.earlierTotal i fun j => b.cell j w
      let rates := (List.range b.rates.length).map fun v =>
        field.component v (t + node (tab.row i) * h) point
      ⟨b.columns.set i rates, point, rates⟩ := by
  have hpoint := foldl_set_range b.point fun w _ =>
    coordinate x w + h * tab.earlierTotal i fun j => b.cell j w
  have hrates := fun point => foldl_set_range b.rates fun v _ =>
    field.component v (t + node (tab.row i) * h) point
  unfold overwriteStage
  dsimp only at hpoint hrates ⊢
  rw [hpoint, hrates]

/-- Overwriting a stage leaves the shape of the buffers. -/
theorem fits_overwriteStage (hb : b.Fits stages field.dimension) (i : ℕ) :
    (tab.overwriteStage field t h x b i).Fits stages field.dimension := by
  rw [overwriteStage_eq]
  exact ⟨by simp [hb.length_columns], by simp [hb.length_point], by simp [hb.length_rates]⟩

/-- A stage leaves the columns of the other stages alone. -/
theorem cell_overwriteStage_of_ne {j : ℕ} (hj : i ≠ j) (v : ℕ) :
    (tab.overwriteStage field t h x b i).cell j v = b.cell j v := by
  rw [overwriteStage_eq, StageBuffers.cell, StageBuffers.cell, List.getD_eq_getElem?_getD,
    List.getElem?_set_ne hj, List.getD_eq_getElem?_getD]

/-- The stage that is overwritten holds the rates at its point, which reads the earlier stages of
the buffers only. -/
theorem cell_overwriteStage_self (hb : b.Fits stages field.dimension) (hi : i < stages) {v : ℕ}
    (hv : v < field.dimension) :
    (tab.overwriteStage field t h x b i).cell i v =
      field.component v (t + node (tab.row i) * h) ((List.range field.dimension).map fun w =>
        coordinate x w + h * tab.earlierTotal i fun j => b.cell j w) := by
  rw [overwriteStage_eq, StageBuffers.cell, List.getD_eq_getElem?_getD,
    List.getElem?_set_self (hb.length_columns ▸ hi), Option.getD_some, hb.length_point,
    hb.length_rates, coordinate_map_range _ hv]

/-- One more stage in place, behind stages that solve the equations. -/
theorem solvesStages_overwriteStage (hb : b.Fits stages field.dimension) (hi : i < stages)
    (hk : tab.SolvesStages field t h x i b.cell) :
    tab.SolvesStages field t h x (i + 1) (tab.overwriteStage field t h x b i).cell := by
  intro i' hi' v hv
  -- a stage refers to columns before its own, and these are not overwritten any more
  have hpoint : ((List.range field.dimension).map fun w => coordinate x w + h *
        tab.earlierTotal i' fun j => (tab.overwriteStage field t h x b i).cell j w) =
      (List.range field.dimension).map fun w =>
        coordinate x w + h * tab.earlierTotal i' fun j => b.cell j w := by
    apply List.map_congr_left
    intro w _
    rw [earlierTotal_congr fun j hj => cell_overwriteStage_of_ne (by omega) w]
  rw [hpoint]
  obtain hlast | hbefore := Nat.eq_or_lt_of_le (Nat.le_of_lt_succ hi')
  · subst hlast
    exact cell_overwriteStage_self hb hi hv
  · rw [cell_overwriteStage_of_ne (by omega), hk i' hbefore v hv]

/-- After `m` rounds the first `m` columns hold stages of this step, whatever they held before. -/
theorem solvesStages_foldl (hb : b.Fits stages field.dimension) {m : ℕ} (hm : m ≤ stages) :
    ((List.range m).foldl (tab.overwriteStage field t h x) b).Fits stages field.dimension ∧
      tab.SolvesStages field t h x m
        ((List.range m).foldl (tab.overwriteStage field t h x) b).cell := by
  induction m with
  | zero =>
    refine ⟨hb, fun i hi => ?_⟩
    omega
  | succ m ih =>
    obtain ⟨hfits, hk⟩ := ih (by omega)
    simp only [List.range_succ, List.foldl_append, List.foldl_cons, List.foldl_nil]
    exact ⟨fits_overwriteStage hfits m, solvesStages_overwriteStage hfits (by omega) hk⟩

/-- A step in place is a step of the method with the stages that it leaves in the buffers, whatever
they held before. -/
theorem advanceInPlace_isExplicitStep (hb : b.Fits tab.stages field.dimension)
    (hx : x.length = field.dimension) :
    (tab.advanceInPlace field t h x b).2.Fits tab.stages field.dimension ∧
      tab.IsExplicitStep field t h x (tab.advanceInPlace field t h x b).1
        (tab.advanceInPlace field t h x b).2.cell := by
  obtain ⟨hfits, hk⟩ : (tab.advanceInPlace field t h x b).2.Fits tab.stages field.dimension ∧
      tab.SolvesStages field t h x tab.stages (tab.advanceInPlace field t h x b).2.cell :=
    solvesStages_foldl hb le_rfl
  have hvalues : (tab.advanceInPlace field t h x b).1 = (List.range x.length).map fun v =>
      coordinate x v + h * tab.weightedTotal fun i =>
        (tab.advanceInPlace field t h x b).2.cell i v :=
    foldl_set_range x fun v cell => cell + h * tab.weightedTotal fun i =>
      (tab.advanceInPlace field t h x b).2.cell i v
  refine ⟨hfits, hk, ?_, fun v hv => ?_⟩
  · rw [hvalues, List.length_map, List.length_range, hx]
  · rw [hvalues, coordinate_map_range _ (hx ▸ hv)]

/-- Keeping the stages in one place does not change the values that a step leads to. -/
theorem advanceInPlace_eq (hsquare : IsSquare tab.rows tab.weights)
    (hb : b.Fits tab.stages field.dimension) (hx : x.length = field.dimension) :
    (tab.advanceInPlace field t h x b).1 = tab.advance field t h x := by
  have hpos : 0 < tab.stages :=
    (List.length_pos_of_ne_nil hsquare.ne_nil).trans_eq hsquare.length_weights.symm
  exact (advanceInPlace_isExplicitStep hb hx).2.unique hpos (advance_isExplicitStep hsquare hx)

end InPlace

/-! ## Runs -/

section Running

variable [Arithmetic α]

/-- The values and the buffers after `n` steps that keep their stages in one place. -/
def runInPlace (tab : Tableau α) (field : VectorField α) (start step : α) (x : List α)
    (b : StageBuffers α) : ℕ → List α × StageBuffers α
  | 0 => (x, b)
  | n + 1 =>
    let (y, b) := tab.runInPlace field start step x b n
    tab.advanceInPlace field (timeAt start step n) step y b

variable {tab : Tableau α} {field : VectorField α} {start step : α} {x : List α}
  {b : StageBuffers α}

/-- Nothing that the buffers hold from one step to the next matters. -/
theorem runInPlace_eq (hsquare : IsSquare tab.rows tab.weights)
    (hb : b.Fits tab.stages field.dimension) (hx : x.length = field.dimension) (n : ℕ) :
    (tab.runInPlace field start step x b n).1 = tab.valuesAfter field start step x n ∧
      (tab.runInPlace field start step x b n).2.Fits tab.stages field.dimension := by
  induction n with
  | zero => exact ⟨rfl, hb⟩
  | succ n ih =>
    obtain ⟨hvalues, hfits⟩ := ih
    have hlength : (tab.runInPlace field start step x b n).1.length = field.dimension :=
      hvalues ▸ length_valuesAfter hx n
    constructor
    · show (tab.advanceInPlace _ _ _ _ _).1 = tab.advance _ _ _ _
      rw [advanceInPlace_eq hsquare hfits hlength, hvalues]
    · exact (advanceInPlace_isExplicitStep hfits hlength).1

end Running

/-- A table is accepted if and only if it is a square, not empty matrix with a weight for each row
and zeros on and above the diagonal.  A solver with an accepted table is launched if and only if the
step is a positive number and the initial state fits, and then gives states without end.  Each of
them comes from the one before it by a step of the explicit method of the table, whose stages are
those of this step alone; and each is what comes of keeping the stages of all steps in the same
buffers, whatever the buffers held at first. -/
theorem explicitMethod_of_create [Arithmetic α] [BEq α] [LT α] [DecidableLT α] [Finiteness α]
    (rows : List (List α)) (weights : List α) :
    ((∃ tab, create rows weights = .ok tab) ↔ IsStrictlyLower rows weights) ∧
    ∀ tab, create rows weights = .ok tab → tab.rows = rows ∧ tab.weights = weights ∧
      ∀ (name : String) (order : UInt32) (field : VectorField α) (initial : State α) (step : α),
        ((∃ t, (Trajectory.launch (.stages name order tab) field initial step).result = .ok t) ↔
          IsPositive step ∧ ∃ x₀, initial.orderedValues field.names = .ok x₀) ∧
        ∀ t x₀, (Trajectory.launch (.stages name order tab) field initial step).result = .ok t →
          initial.orderedValues field.names = .ok x₀ →
          ∃ x : ℕ → List α, x 0 = x₀ ∧
            (∀ n, t.item n =
              some (.ok ⟨timeAt initial.time step (n + 1), field.names, x (n + 1)⟩)) ∧
            (∀ n, ∃ k, tab.IsExplicitStep field (timeAt initial.time step n) step (x n)
              (x (n + 1)) k) ∧
            ∀ b : StageBuffers α, b.Fits tab.stages field.dimension →
              ∀ n, (tab.runInPlace field initial.time step x₀ b n).1 = x n := by
  constructor
  · constructor
    · rintro ⟨tab, htab⟩
      exact (create_eq_ok_iff.mp htab).1
    · intro h
      exact ⟨_, create_eq_ok_iff.mpr ⟨h, rfl⟩⟩
  · intro tab htab
    obtain ⟨hlower, rfl⟩ := create_eq_ok_iff.mp htab
    refine ⟨rfl, rfl, fun name order field initial step => ⟨⟨?_, ?_⟩, ?_⟩⟩
    · rintro ⟨t, ht⟩
      obtain ⟨r, hlaunch, -⟩ := Trajectory.launch_eq_ok_iff.mp ht
      rw [Solver.launch, Attempt.result_announcing] at hlaunch
      obtain ⟨hstep, x₀, hx₀, -⟩ := Run.start_eq_ok_iff.mp hlaunch
      exact ⟨hstep, x₀, hx₀⟩
    · rintro ⟨hstep, x₀, hx₀⟩
      obtain ⟨t, ht, -⟩ := Trajectory.item_stages name order ⟨rows, weights⟩ hstep hx₀
      exact ⟨t, ht⟩
    · intro t x₀ ht hx₀
      obtain ⟨r, hlaunch, -⟩ := Trajectory.launch_eq_ok_iff.mp ht
      rw [Solver.launch, Attempt.result_announcing] at hlaunch
      obtain ⟨hstep, -⟩ := Run.start_eq_ok_iff.mp hlaunch
      obtain ⟨t', ht', hitems⟩ := Trajectory.item_stages name order ⟨rows, weights⟩ hstep hx₀
      have hsame : t' = t := Except.ok.inj (ht'.symm.trans ht)
      subst hsame
      have hlength : x₀.length = field.dimension := State.length_of_orderedValues hx₀
      refine ⟨_, rfl, hitems, fun n => ?_, fun b hb n => ?_⟩
      · exact ⟨_, advance_isExplicitStep hlower.toIsSquare (length_valuesAfter hlength n)⟩
      · exact (runInPlace_eq hlower.toIsSquare hb hlength n).1

/-- The explicit midpoint rule on `x' = t x` from `1` at the time `1` with the step `1/2`, on
binary64 numbers, and with buffers that held something else before. -/
theorem explicitMethod_of_create_midpoint :
    let field : VectorField Float :=
      { names := ["x"], component := fun _ t x => t * coordinate x 0 }
    let used : StageBuffers Float := ⟨[[7], [8]], [9], [10]⟩
    ∃ tab t, create [[0, 0], [0.5, 0]] [0, 1] = .ok tab ∧
      (Trajectory.launch (.stages "Midpoint" 2 tab) field ⟨1, ["x"], [1]⟩ 0.5).result = .ok t ∧
      t.item 0 = some (.ok ⟨1.5, ["x"], [1.78125]⟩) ∧
      (tab.runInPlace field 1 0.5 [1] used 1).1 = [1.78125] := by
  intro field used
  have hcreate : create [[0, 0], [0.5, 0]] [0, 1] =
      .ok (⟨[[0, 0], [0.5, 0]], [0, 1]⟩ : Tableau Float) := rfl
  obtain ⟨-, hmethod⟩ := explicitMethod_of_create [[0, 0], [0.5, 0]] [0, (1 : Float)]
  obtain ⟨-, -, hstream⟩ := hmethod _ hcreate
  obtain ⟨hlaunch, hitems⟩ := hstream "Midpoint" 2 field ⟨1, ["x"], [1]⟩ 0.5
  obtain ⟨t, ht⟩ := hlaunch.mpr ⟨by decide +kernel, [1], rfl⟩
  obtain ⟨x, -, hitem, -, hbuffers⟩ := hitems t [1] ht rfl
  have hused : used.Fits 2 1 := ⟨rfl, rfl, rfl⟩
  have hvalues := hbuffers used hused 1
  have hrun : (runInPlace ⟨[[0, 0], [0.5, 0]], [0, 1]⟩ field 1 0.5 [1] used 1).1 = [1.78125] := by
    decide +kernel
  refine ⟨_, t, hcreate, ht, ?_, hrun⟩
  rw [hitem 0, ← hvalues, hrun]
  have htime : timeAt (1 : Float) 0.5 1 = 1.5 := by decide +kernel
  exact congrArg (fun time => some (Except.ok (State.mk time _ _))) htime

end Tableau

end Fluxion
