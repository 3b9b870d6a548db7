import Fluxion.Proofs.Equations.Binding
import Fluxion.Proofs.Scalar.Exact
import Fluxion.Solver.Run
import Fluxion.System
import Mathlib.Data.List.GetD

/-!
# Runs as sequences

Rows of values are read by their coordinates, and a run is described by the sequence of the stages
that it goes through.
-/

set_option autoImplicit false

namespace Fluxion

/-! ## Rows of cells

A row of values is read by its coordinates, and loops over the coordinates overwrite the row cell by
cell.  A loop that gives every cell a value that depends only on what the cell held before leaves
the row of these values (`foldl_set_range`).
-/

section

variable {α : Type} [NatCast α] {cells : List α}

/-- A coordinate is the entry at its place. -/
theorem coordinate_eq_getElem {i : ℕ} (hi : i < cells.length) : coordinate cells i = cells[i] :=
  List.getD_eq_getElem _ _ hi

/-- Overwriting a cell changes the coordinate of this cell only. -/
theorem coordinate_set {i m : ℕ} {x : α} (hm : m < cells.length) :
    coordinate (cells.set m x) i = if m = i then x else coordinate cells i := by
  unfold coordinate
  rw [List.getD_eq_getElem?_getD, List.getElem?_set, List.getD_eq_getElem?_getD]
  split
  · rw [Option.getD_some]
  · rfl

/-- Overwriting a cell with what it holds changes nothing. -/
theorem set_coordinate {i : ℕ} (hi : i < cells.length) :
    cells.set i (coordinate cells i) = cells := by
  rw [coordinate_eq_getElem hi, List.set_getElem_self]

/-- A row that is computed coordinate by coordinate has these coordinates. -/
theorem coordinate_map_range {n i : ℕ} (f : ℕ → α) (hi : i < n) :
    coordinate ((List.range n).map f) i = f i := by
  rw [coordinate_eq_getElem (by simpa using hi), List.getElem_map, List.getElem_range]

/-- A row that is computed index by index, as one over the numbers of variables. -/
theorem map_range_eq_ofFn {β : Type} {m n : ℕ} {f : ℕ → β} {g : Fin n → β} (hm : m = n)
    (h : ∀ v : Fin n, f v = g v) : (List.range m).map f = List.ofFn g := by
  subst hm
  apply List.ext_getElem
  · simp
  · intro v hv hv'
    rw [List.length_ofFn] at hv'
    simpa using h ⟨v, hv'⟩

/-- Two rows read side by side. -/
theorem zip_eq_map_range {β γ : Type} {m : ℕ} (l : List β) (l' : List γ) (b : β) (c : γ)
    (hm : m ≤ l.length) (hl' : l'.length = m) :
    l.zip l' = (List.range m).map fun j => (l.getD j b, l'.getD j c) := by
  apply List.ext_getElem
  · simp [hm, hl']
  · intro j hj hj'
    have hlt : j < m := by simpa using hj'
    rw [List.getElem_zip, List.getElem_map, List.getElem_range,
      List.getD_eq_getElem _ _ (by omega), List.getD_eq_getElem _ _ (by omega)]

/-- A loop that overwrites the cells one after the other, each from what it held. -/
theorem foldl_set_range (cells : List α) (g : ℕ → α → α) :
    (List.range cells.length).foldl (fun cells i => cells.set i (g i (coordinate cells i))) cells =
      (List.range cells.length).map fun i => g i (coordinate cells i) := by
  generalize hn : cells.length = n
  -- the first `m` cells have been overwritten
  have hloop : ∀ m ≤ n, ((List.range m).foldl
      (fun cells i => cells.set i (g i (coordinate cells i))) cells).length = n ∧
      ∀ i, coordinate ((List.range m).foldl
        (fun cells i => cells.set i (g i (coordinate cells i))) cells) i =
          if i < m then g i (coordinate cells i) else coordinate cells i := by
    intro m hm
    induction m with
    | zero => simp [hn]
    | succ m ih =>
      obtain ⟨hlength, hcells⟩ := ih (by omega)
      simp only [List.range_succ, List.foldl_append, List.foldl_cons, List.foldl_nil]
      refine ⟨by rw [List.length_set, hlength], fun i => ?_⟩
      rw [coordinate_set (by omega), hcells, hcells, if_neg (Nat.lt_irrefl m)]
      by_cases hi : m = i
      · subst hi
        simp
      · rw [if_neg hi]
        exact if_congr (by omega) rfl rfl
  obtain ⟨hlength, hcells⟩ := hloop n n.le_refl
  apply List.ext_getElem
  · simp [hlength]
  · intro i hi hi'
    rw [hlength] at hi
    rw [← coordinate_eq_getElem, hcells, if_pos hi, List.getElem_map, List.getElem_range]

end

/-! ## What a run does step after step

A run is described by the sequence of the stages that it goes through.  If every step leads from
one member of the sequence to the next, then a number of steps leads to the member of that number
(`Solver.result_advanceBy`), and the states that are pulled from a trajectory are the states of the
members (`Trajectory.item_eq`).  The clock of the n-th member shows the n-th multiple of the
increment (`Clock.target_after`).

What an attempt announces on its way is left out here: all statements are about results.
-/

namespace Attempt

variable {α ε β γ : Type}

/-- The result of two successive attempts is that of the sequence of their results. -/
theorem result_bind (a : Attempt α ε β) (f : β → Attempt α ε γ) :
    (a >>= f).result = a.result >>= fun b => (f b).result := by
  show (a.andThen f).result = _
  unfold andThen
  cases a.result <;> rfl

/-- Behind an attempt that succeeds stands what follows its result. -/
theorem result_bind_of_ok {a : Attempt α ε β} {f : β → Attempt α ε γ} {b : β}
    (h : a.result = .ok b) : (a >>= f).result = (f b).result := by
  rw [result_bind, h]
  rfl

/-- Two successive attempts succeed through the result of the first. -/
theorem result_bind_eq_ok_iff {a : Attempt α ε β} {f : β → Attempt α ε γ} {c : γ} :
    (a >>= f).result = .ok c ↔ ∃ b, a.result = .ok b ∧ (f b).result = .ok c := by
  rw [result_bind, bind_eq_ok_iff]

/-- Announcing what an attempt gave does not change it. -/
theorem result_announcing (a : Attempt α ε β) (e : β → Event α) :
    (do let b ← a; announce (e b); return b : Attempt α ε β).result = a.result := by
  rw [result_bind]
  cases a.result <;> rfl

/-- Attempts in sequence satisfy the laws, because journals are joined. -/
instance : LawfulMonad (Attempt α ε) := by
  refine LawfulMonad.mk' _ ?_ ?_ ?_
  · intro β a
    obtain ⟨result, events⟩ := a
    cases result with
    | error e => rfl
    | ok b => exact congrArg (Attempt.mk _) (List.append_nil events)
  · intro β γ b f
    rfl
  · intro β γ δ a f g
    obtain ⟨result, events⟩ := a
    cases result with
    | error e => rfl
    | ok b =>
      show (andThen ⟨_, _⟩ g) = (andThen _ _ : Attempt α ε δ)
      cases h : (f b).result with
      | error e => simp [andThen, bind, h]
      | ok c => simp [andThen, bind, h, List.append_assoc]

/-- A row of attempts that all succeed gives the row of their results. -/
theorem result_mapM {f : β → Attempt α ε γ} {g : β → γ} {l : List β}
    (h : ∀ b ∈ l, (f b).result = .ok (g b)) : (l.mapM f).result = .ok (l.map g) := by
  induction l with
  | nil => rfl
  | cons b l ih =>
    have hrest := ih fun c hc => h c (List.mem_cons_of_mem b hc)
    rw [List.mapM_cons, result_bind_of_ok (h b List.mem_cons_self), result_bind_of_ok hrest]
    rfl

end Attempt

namespace Clock

/-- A clock that has been created and then has made a number of steps. -/
def after {α : Type} [Arithmetic α] (increment start : α) : ℕ → Clock α
  | 0 => ⟨start, increment, 0, ⟨start, start, zero⟩⟩
  | n + 1 => (after increment start n).advance

section

variable {α : Type} [Arithmetic α] {increment start : α}

/-- The clock keeps its increment. -/
@[simp] theorem increment_after (n : ℕ) : (after increment start n).increment = increment := by
  induction n with
  | zero => rfl
  | succ n ih => exact ih

/-- The clock keeps its start. -/
@[simp] theorem start_after (n : ℕ) : (after increment start n).start = start := by
  induction n with
  | zero => rfl
  | succ n ih => exact ih

/-- The clock counts its steps. -/
@[simp] theorem count_after (n : ℕ) : (after increment start n).count = n := by
  induction n with
  | zero => rfl
  | succ n ih => exact congrArg (· + 1) ih

/-- With a positive increment there is a clock. -/
theorem create_eq_ok [LT α] [DecidableLT α] [Finiteness α] (h : IsPositive increment) :
    create increment start = .ok (after increment start 0) :=
  if_pos h

end

/-- In a field the clock shows the n-th multiple of the increment. -/
theorem target_after {K : Type} [Field K] (increment start : K) (n : ℕ) :
    (after increment start n).current.target = start + n * increment := by
  cases n with
  | zero => simp [after]
  | succ n =>
    show valueAt _ ((after increment start n).count + 1) = _
    rw [valueAt, count_after, start_after, increment_after]

end Clock

/-- A state that has the names of a system, each once, fits it with its own values. -/
theorem State.orderedValues_self {α : Type} {time : α} {names : List String} {values : List α}
    (hnodup : names.Nodup) (hlength : names.length = values.length) :
    (State.mk time names values).orderedValues names = .ok values := by
  unfold orderedValues
  rw [if_neg fun hne => hne rfl, mapM_eq_ok_iff, List.forall₂_iff_get]
  refine ⟨hlength, fun i hi hi' => ?_⟩
  simp only [require, get?, List.get_eq_getElem, idxOf?_getElem hnodup hi, Option.bind_some,
    List.getElem?_eq_getElem hi']

namespace Run

variable {α : Type} [Arithmetic α]

/-- A run that has been started and then has made a number of steps. -/
def after (increment start : α) (n : ℕ) (values : List α) (previous : Option (List α)) : Run α :=
  ⟨Clock.after increment start n, values, previous⟩

variable {increment start : α} {n : ℕ} {values : List α} {previous : Option (List α)}

/-- A run starts with a positive step and the values of the state. -/
theorem result_start [LT α] [DecidableLT α] [Finiteness α] {field : VectorField α}
    {initial : State α} (hpositive : IsPositive increment)
    (hvalues : initial.orderedValues field.names = .ok values) :
    Run.start field initial increment = .ok (after increment initial.time 0 values none) := by
  unfold Run.start
  rw [Clock.create_eq_ok hpositive, hvalues]
  rfl

/-- A stage of a run has its values. -/
@[simp] theorem values_after : (after increment start n values previous).values = values := rfl

/-- A stage of a run has the increment. -/
@[simp] theorem increment_after :
    (after increment start n values previous).clock.increment = increment :=
  Clock.increment_after n

/-- In a field the state of a stage stands at the n-th multiple of the increment. -/
theorem state_after {K : Type} [Field K] (field : VectorField K) (increment start : K) (n : ℕ)
    (values : List K) (previous : Option (List K)) :
    (after increment start n values previous).state field =
      ⟨start + n * increment, field.names, values⟩ :=
  congrArg (State.mk · field.names values) (Clock.target_after increment start n)

/-- A step leads to the next of the stages. -/
theorem result_reach (values' : List α) (previous' : Option (List α)) :
    ((after increment start n values previous).reach values' previous').result =
      .ok (after increment start (n + 1) values' previous') := rfl

end Run

namespace Solver

variable {α : Type} {next : Run α → SolverAttempt α (Run α)} {runs : ℕ → Run α}

/-- Steps that lead from one member of a sequence to the next lead to the member of their number. -/
theorem result_advanceBy (hnext : ∀ j, (next (runs j)).result = .ok (runs (j + 1))) (count : ℕ) :
    (advanceBy next count (runs 0)).result = .ok (runs count) := by
  induction count generalizing runs with
  | zero => rfl
  | succ count ih =>
    -- the steps that remain are those of the sequence without its first member
    show (next (runs 0) >>= fun r => advanceBy next count r).result = _
    rw [Attempt.result_bind_of_ok (hnext 0)]
    exact @ih (fun j => runs (j + 1)) fun j => hnext (j + 1)

/-- An inner run that begins and goes through its steps gives its last values. -/
theorem result_refine [Arithmetic α] {begin : State α → α → SolverAttempt α (Run α)}
    {origin : State α} {delta : α} {count : ℕ} {r r' : Run α} (hcount : 0 < count)
    (hbegin : (begin origin (delta / (count : α))).result = .ok r)
    (hrun : (advanceBy next count r).result = .ok r') :
    (refine begin next origin delta count).result = .ok r'.values := by
  unfold Solver.refine
  rw [Attempt.result_bind_of_ok hbegin, if_neg hcount.ne', Attempt.result_bind_of_ok hrun]
  rfl

end Solver

namespace Trajectory

variable {α : Type} [Arithmetic α] [LT α] [DecidableLT α] [Finiteness α]

/-- A trajectory once some states have been pulled from it. -/
def drop : ℕ → Trajectory α → Trajectory α
  | 0, t => t
  | n + 1, t => drop n t.pull.rest

/-- What the n-th pull from a trajectory gives. -/
def item (t : Trajectory α) (n : ℕ) : Option (Except (SolverError α) (State α)) :=
  (t.drop n).pull.item

/-- A step that succeeds gives its state and goes on behind it. -/
theorem pull_of_ok {t : Trajectory α} {r : Run α} (hended : t.ended = false)
    (h : (t.solver.advance t.field t.run).result = .ok r) :
    t.pull.item = some (.ok (r.state t.field)) ∧ t.pull.rest = { t with run := r } := by
  unfold pull
  rw [hended]
  simp only [Bool.false_eq_true, if_false, h, and_self]

/-- If every step leads to the next member of a sequence, then the items are the states of the
members. -/
theorem item_eq {solver : Solver α} {field : VectorField α} {runs : ℕ → Run α}
    (hadvance : ∀ j, (solver.advance field (runs j)).result = .ok (runs (j + 1))) (n : ℕ) :
    (Trajectory.mk solver field (runs 0) false).item n =
      some (.ok ((runs (n + 1)).state field)) := by
  induction n generalizing runs with
  | zero => exact (pull_of_ok rfl (hadvance 0)).1
  | succ n ih =>
    have hrest := (pull_of_ok (t := ⟨solver, field, runs 0, false⟩) rfl (hadvance 0)).2
    rw [item, drop, hrest]
    exact @ih (fun j => runs (j + 1)) fun j => hadvance (j + 1)

/-- A solver that is launched gives a trajectory at its run. -/
theorem result_launch {solver : Solver α} {field : VectorField α} {initial : State α} {step : α}
    {r : Run α} (h : (solver.launch field initial step).result = .ok r) :
    (launch solver field initial step).result = .ok ⟨solver, field, r, false⟩ := by
  rw [launch, Attempt.result_bind_of_ok h]
  rfl

/-- A trajectory starts at the run at which its solver is launched. -/
theorem launch_eq_ok_iff {solver : Solver α} {field : VectorField α} {initial : State α} {step : α}
    {t : Trajectory α} :
    (launch solver field initial step).result = .ok t ↔
      ∃ r, (solver.launch field initial step).result = .ok r ∧ t = ⟨solver, field, r, false⟩ := by
  constructor
  · intro h
    unfold launch at h
    obtain ⟨r, hr, h⟩ := Attempt.result_bind_eq_ok_iff.mp h
    cases h
    exact ⟨r, hr, rfl⟩
  · rintro ⟨r, hr, rfl⟩
    exact result_launch hr

/-- A solver gives the states of the stages behind the one that it is launched at. -/
theorem exists_launch_of_stages {solver : Solver α} {field : VectorField α} {initial : State α}
    {step : α} {runs : ℕ → Run α}
    (hlaunch : (solver.launch field initial step).result = .ok (runs 0))
    (hadvance : ∀ j, (solver.advance field (runs j)).result = .ok (runs (j + 1))) :
    ∃ t, (launch solver field initial step).result = .ok t ∧
      ∀ n, t.item n = some (.ok ((runs (n + 1)).state field)) :=
  ⟨_, result_launch hlaunch, item_eq hadvance⟩

end Trajectory

end Fluxion
