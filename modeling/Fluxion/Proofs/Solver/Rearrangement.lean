import Fluxion.Proofs.Solver.Coupling

/-!
# Values in another order

Explicit methods do not depend on the order of the variables.  On two fields that are the same up to
the order of their variables (`VectorField.SameUpToOrder`) an explicit solver gives the same states
by name, the same errors, and ends at the same pull (`Trajectory.exists_launch_of_sameUpToOrder`,
`Trajectory.SameUpToOrder.sameItem`).

Both runs are followed at once.  Rows of values that belong together have the same value at the
places of the same name (`Aligned`).  All that explicit methods do is to compute a row coordinate by
coordinate from other rows at the same coordinate, and from right-hand sides, which keep rows
aligned by assumption; so every stage and every step keeps them aligned (`Solver.advance_aligned`).
Extrapolation passes its state on to its base by name, and the induction is on the solver.

The semi-implicit rule is left out: it corrects the variables one after the other, each with the
values of those before it.
-/

set_option autoImplicit false

namespace Fluxion

variable {α : Type} {names names' : List String}

/-! ## Rows of values -/

/-- A place of one row of names and a place of another with the same name. -/
def SamePlace (names names' : List String) (i j : ℕ) : Prop :=
  ∃ name, names[i]? = some name ∧ names'[j]? = some name

/-- Places with the same name may be exchanged. -/
theorem SamePlace.symm {i j : ℕ} (h : SamePlace names names' i j) : SamePlace names' names j i := by
  obtain ⟨name, hi, hj⟩ := h
  exact ⟨name, hj, hi⟩

/-- Places with the same name are places. -/
theorem SamePlace.lt {i j : ℕ} (h : SamePlace names names' i j) :
    i < names.length ∧ j < names'.length := by
  obtain ⟨name, hi, hj⟩ := h
  exact ⟨(List.getElem?_eq_some_iff.mp hi).1, (List.getElem?_eq_some_iff.mp hj).1⟩

/-- Two rows of values, each in the order of its own names, with the same value for every name. -/
structure Aligned (names names' : List String) (x x' : List α) : Prop where
  length_left : x.length = names.length
  length_right : x'.length = names'.length
  getElem?_eq : ∀ i j, SamePlace names names' i j → x[i]? = x'[j]?

namespace Aligned

variable {x x' y y' : List α}

/-- Aligned rows may be exchanged. -/
theorem symm (h : Aligned names names' x x') : Aligned names' names x' x := by
  refine ⟨h.length_right, h.length_left, fun j i hplace => ?_⟩
  exact (h.getElem?_eq i j hplace.symm).symm

/-- Aligned rows have the same coordinates at places of the same name. -/
theorem coordinate_eq [NatCast α] (h : Aligned names names' x x') {i j : ℕ}
    (hplace : SamePlace names names' i j) : coordinate x i = coordinate x' j := by
  unfold coordinate
  rw [List.getD_eq_getElem?_getD, List.getD_eq_getElem?_getD, h.getElem?_eq i j hplace]

/-- Rows that are computed coordinate by coordinate are aligned if their coordinates are equal. -/
theorem map_range {m n : ℕ} {g g' : ℕ → α} (hm : m = names.length) (hn : n = names'.length)
    (h : ∀ i j, SamePlace names names' i j → g i = g' j) :
    Aligned names names' ((List.range m).map g) ((List.range n).map g') := by
  refine ⟨by simp [hm], by simp [hn], fun i j hplace => ?_⟩
  obtain ⟨hi, hj⟩ := hplace.lt
  simp [hm, hn, hi, hj, h i j hplace]

/-- Moving aligned rows along aligned rates keeps them aligned. -/
theorem along [Arithmetic α] (h : Aligned names names' x x') (hrates : Aligned names names' y y')
    (d : α) : Aligned names names' (Solver.along x d y) (Solver.along x' d y') := by
  unfold Solver.along
  refine ⟨?_, ?_, fun i j hplace => ?_⟩
  · rw [List.length_zipWith, h.length_left, hrates.length_left, Nat.min_self]
  · rw [List.length_zipWith, h.length_right, hrates.length_right, Nat.min_self]
  · rw [List.getElem?_zipWith, List.getElem?_zipWith, h.getElem?_eq i j hplace,
      hrates.getElem?_eq i j hplace]

/-- In a row of aligned rows a coordinate has the same values. -/
theorem map_coordinate [NatCast α] {rows rows' : List (List α)}
    (h : List.Forall₂ (Aligned names names') rows rows') {i j : ℕ}
    (hplace : SamePlace names names' i j) :
    rows.map (coordinate · i) = rows'.map (coordinate · j) := by
  induction h with
  | nil => rfl
  | cons hfirst hrest ih => rw [List.map_cons, List.map_cons, hfirst.coordinate_eq hplace, ih]

end Aligned

/-! ## States -/

/-- Two states at the same time with the same values by name. -/
structure State.SameByName (s s' : State α) : Prop where
  time_eq : s'.time = s.time
  length_eq : s'.names.length = s.names.length
  get_eq : ∀ name, s'.get? name = s.get? name

/-- A state is the same by name as itself. -/
theorem State.SameByName.refl (s : State α) : s.SameByName s := ⟨rfl, rfl, fun _ => rfl⟩

/-- Among distinct names a name finds the value at its place. -/
theorem State.get?_getElem (time : α) (x : List α) (hnodup : names.Nodup) {i : ℕ}
    (hi : i < names.length) : (State.mk time names x).get? names[i] = x[i]? := by
  simp only [get?, idxOf?_getElem hnodup hi, Option.bind_some]

/-- A name that a state does not have finds nothing. -/
theorem State.get?_of_not_mem {time : α} {x : List α} {name : String} (h : name ∉ names) :
    (State.mk time names x).get? name = none := by
  simp only [get?, List.idxOf?_eq_none_iff.mpr h, Option.bind_none]

/-- Aligned rows are the values of states that are the same by name. -/
theorem Aligned.sameByName {x x' : List α} (h : Aligned names names' x x') (hnodup : names.Nodup)
    (hperm : names'.Perm names) (time : α) :
    (State.mk time names x).SameByName ⟨time, names', x'⟩ := by
  refine ⟨rfl, hperm.length_eq, fun name => ?_⟩
  by_cases hname : name ∈ names
  · obtain ⟨i, hi, rfl⟩ := List.getElem_of_mem hname
    obtain ⟨j, hj, hij⟩ := List.getElem_of_mem (hperm.mem_iff.mpr hname)
    have hplace : SamePlace names names' i j := by
      refine ⟨names[i], List.getElem?_eq_getElem hi, ?_⟩
      rw [List.getElem?_eq_getElem hj, hij]
    have hget := State.get?_getElem time x' (hperm.nodup_iff.mpr hnodup) hj
    rw [hij] at hget
    rw [State.get?_getElem time x hnodup hi, hget, h.getElem?_eq i j hplace]
  · rw [State.get?_of_not_mem hname, State.get?_of_not_mem (hperm.mem_iff.not.mpr hname)]

/-- States that are the same by name give aligned values to rows of the same names. -/
theorem State.SameByName.exists_orderedValues {s s' : State α} (h : s.SameByName s')
    (hperm : names'.Perm names) {x : List α} (hx : s.orderedValues names = .ok x) :
    ∃ x', s'.orderedValues names' = .ok x' ∧ Aligned names names' x x' := by
  have hrequire : ∀ name, s'.require name = s.require name := by
    intro name
    unfold State.require
    rw [h.get_eq]
  unfold orderedValues at hx ⊢
  rw [h.length_eq, hperm.length_eq]
  split at hx
  · cases hx
  · rename_i hlength
    rw [if_neg hlength]
    have hall : ∀ name ∈ names', ∃ v, s'.require name = .ok v := by
      intro name hname
      obtain ⟨v, -, hv⟩ := exists_mem_of_mapM hx (hperm.mem_iff.mp hname)
      exact ⟨v, (hrequire name).trans hv⟩
    obtain ⟨x', hx'⟩ := exists_mapM_eq_ok_iff.mpr hall
    refine ⟨x', hx', length_of_mapM hx, length_of_mapM hx', ?_⟩
    rintro i j ⟨name, hi, hj⟩
    obtain ⟨v, hvi, hv⟩ := exists_getElem?_of_mapM hx hi
    obtain ⟨v', hvj, hv'⟩ := exists_getElem?_of_mapM hx' hj
    rw [hrequire, hv] at hv'
    cases hv'
    rw [hvi, hvj]

/-! ## Fields -/

/-- Two fields with the same variables in possibly different orders, and with the same right-hand
side for each of them. -/
structure VectorField.SameUpToOrder (field field' : VectorField α) : Prop where
  nodup : field.names.Nodup
  perm : field'.names.Perm field.names
  component_eq : ∀ i j, SamePlace field.names field'.names i j → ∀ t x x',
    Aligned field.names field'.names x x' → field.component i t x = field'.component j t x'

/-- Fields that are the same up to order may be exchanged. -/
theorem VectorField.SameUpToOrder.symm {field field' : VectorField α}
    (h : field.SameUpToOrder field') : field'.SameUpToOrder field := by
  refine ⟨h.perm.nodup_iff.mpr h.nodup, h.perm.symm, fun j i hplace t x' x haligned => ?_⟩
  exact (h.component_eq i j hplace.symm t x x' haligned.symm).symm

section Stepping

variable [Arithmetic α] {field field' : VectorField α} {x x' : List α}

omit [Arithmetic α] in
/-- Aligned points have aligned rates. -/
theorem VectorField.SameUpToOrder.rates (h : field.SameUpToOrder field') (t : α)
    (hx : Aligned field.names field'.names x x') :
    Aligned field.names field'.names (field.rates t x) (field'.rates t x') :=
  Aligned.map_range rfl rfl fun i j hplace => h.component_eq i j hplace t x x' hx

namespace Tableau

/-- The sum over the earlier stages reads one coordinate of each of them. -/
theorem earlierSum_eq (row : List α) (earlier : List (List α)) (v : ℕ) :
    earlierSum row earlier v = (row.zip (earlier.map (coordinate · v))).foldl
      (fun sum p => sum + p.1 * p.2) (-zero) := by
  rw [List.zip_map_right, List.foldl_map]
  rfl

/-- The weighted sum reads one coordinate of each stage. -/
theorem weightedSum_eq (weights : List α) (rates : List (List α)) (v : ℕ) :
    weightedSum weights rates v = match (rates.map (coordinate · v)).zip weights with
      | [] => zero
      | p :: rest => rest.foldl (fun sum p => p.1 * p.2 + sum) (p.1 * p.2) := by
  rw [List.zip_map_left]
  unfold weightedSum
  cases rates.zip weights with
  | nil => rfl
  | cons p rest =>
    rw [List.map_cons]
    dsimp only
    rw [List.foldl_map]
    rfl

variable (h : field.SameUpToOrder field') (t d : α) (hx : Aligned field.names field'.names x x')
include h hx

/-- A further stage keeps the stages aligned. -/
theorem aligned_nextStage {earlier earlier' : List (List α)}
    (hearlier : List.Forall₂ (Aligned field.names field'.names) earlier earlier') (row : List α) :
    List.Forall₂ (Aligned field.names field'.names) (nextStage field t d x earlier row)
      (nextStage field' t d x' earlier' row) := by
  have hpoint : Aligned field.names field'.names (stagePoint d x row earlier)
      (stagePoint d x' row earlier') := by
    refine Aligned.map_range hx.length_left hx.length_right fun i j hplace => ?_
    rw [hx.coordinate_eq hplace, earlierSum_eq, earlierSum_eq,
      Aligned.map_coordinate hearlier hplace]
  exact List.rel_append hearlier (.cons (h.rates _ hpoint) .nil)

/-- All stages are aligned. -/
theorem aligned_stageRates (tab : Tableau α) :
    List.Forall₂ (Aligned field.names field'.names) (tab.stageRates field t d x)
      (tab.stageRates field' t d x') := by
  have hfold : ∀ (rows earlier earlier' : List (List α)),
      List.Forall₂ (Aligned field.names field'.names) earlier earlier' →
      List.Forall₂ (Aligned field.names field'.names)
        (rows.foldl (nextStage field t d x) earlier)
        (rows.foldl (nextStage field' t d x') earlier') := by
    intro rows
    induction rows with
    | nil => exact fun _ _ hearlier => hearlier
    | cons row rows ih =>
      intro earlier earlier' hearlier
      exact ih _ _ (aligned_nextStage h t d hx hearlier row)
  exact hfold tab.rows [] [] .nil

/-- A step of a method with stages keeps points aligned. -/
theorem aligned_advance (tab : Tableau α) :
    Aligned field.names field'.names (tab.advance field t d x) (tab.advance field' t d x') := by
  refine Aligned.map_range hx.length_left hx.length_right fun i j hplace => ?_
  rw [hx.coordinate_eq hplace, weightedSum_eq, weightedSum_eq,
    Aligned.map_coordinate (aligned_stageRates h t d hx tab) hplace]

end Tableau

/-- Extrapolation combines aligned rows to aligned rows. -/
theorem Aligned.combine {table table' : List (List α)}
    (h : List.Forall₂ (Aligned names names') table table') (coefficients : List ℕ) (exponent : ℤ)
    {m n : ℕ} (hm : m = names.length) (hn : n = names'.length) :
    Aligned names names' (Solver.combine coefficients exponent m table)
      (Solver.combine coefficients exponent n table') := by
  refine Aligned.map_range hm hn fun i j hplace => ?_
  exact congrArg (neville coefficients exponent) (Aligned.map_coordinate h hplace)

end Stepping

/-! ## Runs -/

/-- Two runs that stand at the same time with aligned values. -/
structure Run.Aligned (names names' : List String) (r r' : Run α) : Prop where
  clock_eq : r'.clock = r.clock
  values : Fluxion.Aligned names names' r.values r'.values
  previous : Option.Rel (Fluxion.Aligned names names') r.previous r'.previous

/-- Aligned runs stand at the same time. -/
theorem Run.Aligned.time_eq {r r' : Run α} (h : Run.Aligned names names' r r') :
    r'.time = r.time := by
  unfold Run.time
  rw [h.clock_eq]

/-- The states of aligned runs are the same by name. -/
theorem Run.Aligned.sameByName {field field' : VectorField α} {r r' : Run α}
    (h : Run.Aligned field.names field'.names r r') (hfield : field.SameUpToOrder field') :
    (r.state field).SameByName (r'.state field') := by
  have hsame := h.values.sameByName hfield.nodup hfield.perm r.time
  unfold Run.state
  rw [h.time_eq]
  exact hsame

/-- No Newton iteration lies at the bottom of the extrapolations: the solver is Euler's method, the
midpoint rule, a method with stages, or extrapolates an explicit solver. -/
def Solver.IsExplicit (s : Solver α) : Prop := s.newton? = none

/-- An explicit solver suits every field, since it asks for no derivatives. -/
theorem Solver.IsExplicit.suits {s : Solver α} (h : s.IsExplicit) (field : VectorField α) :
    s.Suits field := by
  intro hneeds
  rw [show s.newton? = none from h] at hneeds
  cases hneeds

section Running

variable [Arithmetic α] {field field' : VectorField α}

/-- Runs that reach aligned values at the next time are aligned. -/
theorem Run.Aligned.reach {r r' : Run α} (h : Run.Aligned names names' r r') {x x' : List α}
    (hx : Fluxion.Aligned names names' x x') {back back' : Option (List α)}
    (hback : Option.Rel (Fluxion.Aligned names names') back back') :
    ExceptRel (Eq (α := SolverError α)) (Run.Aligned names names') (r.reach x back).result
      (r'.reach x' back').result :=
  .ok ⟨congrArg Clock.advance h.clock_eq, hx, hback⟩

variable [LT α] [DecidableLT α] [Finiteness α] {origin origin' : State α} {step : α} {s : Solver α}

/-- Runs that are started from the same state by name are aligned. -/
theorem Run.exists_start_of_sameByName (hfield : field.SameUpToOrder field')
    (horigin : origin.SameByName origin') {r : Run α} (h : Run.start field origin step = .ok r) :
    ∃ r', Run.start field' origin' step = .ok r' ∧
      Run.Aligned field.names field'.names r r' := by
  obtain ⟨hpositive, x, hx, rfl⟩ := Run.start_eq_ok_iff.mp h
  obtain ⟨x', hx', haligned⟩ := horigin.exists_orderedValues hfield.perm hx
  refine ⟨_, Run.start_eq_ok_iff.mpr ⟨hpositive, x', hx', rfl⟩, ?_, haligned, .none⟩
  rw [horigin.time_eq]
  rfl

/-- Runs inside a step are started from the same state by name, and fail alike. -/
theorem Solver.IsExplicit.launch_aligned (hs : s.IsExplicit) (hfield : field.SameUpToOrder field')
    (horigin : origin.SameByName origin') {x : List α}
    (hfits : origin.orderedValues field.names = .ok x) (step : α) :
    ExceptRel Eq (Run.Aligned field.names field'.names) (s.launch field origin step).result
      (s.launch field' origin' step).result := by
  rw [Solver.result_launch_of_suits (hs.suits field),
    Solver.result_launch_of_suits (hs.suits field')]
  by_cases hstep : IsPositive step
  · have hstart := Run.result_start hstep hfits
    obtain ⟨r', hstart', haligned⟩ := Run.exists_start_of_sameByName hfield horigin hstart
    rw [hstart, hstart']
    exact .ok haligned
  · rw [Run.start_of_not_isPositive hstep, Run.start_of_not_isPositive hstep]
    exact .error rfl

/-- The runs of an extrapolation end with aligned values, or fail alike, if the steps of its base
keep runs aligned. -/
theorem Solver.refine_aligned (s : Solver α) (hs : s.IsExplicit)
    (hfield : field.SameUpToOrder field') (horigin : origin.SameByName origin') {x : List α}
    (hfits : origin.orderedValues field.names = .ok x) (delta : α) {count : ℕ} (hcount : 0 < count)
    (hadvance : AdvanceCoupled Eq (Run.Aligned field.names field'.names) s s field field') :
    ExceptRel Eq (Aligned field.names field'.names)
      (refine (fun origin step => s.launch field origin step) (fun r => s.advance field r) origin
        delta count).result
      (refine (fun origin step => s.launch field' origin step) (fun r => s.advance field' r) origin'
        delta count).result := by
  unfold Solver.refine
  rw [Attempt.result_bind, Attempt.result_bind]
  refine (hs.launch_aligned hfield horigin hfits _).bind fun r r' h => ?_
  rw [if_neg hcount.ne', if_neg hcount.ne', Attempt.result_bind, Attempt.result_bind]
  refine (advanceBy_coupled hadvance count h).bind fun last last' hlast => ?_
  exact .ok hlast.values

/-- A step of an explicit solver keeps runs aligned, or fails in both. -/
theorem Solver.advance_aligned (hs : s.IsExplicit) (hfield : field.SameUpToOrder field') :
    s.AdvanceCoupled Eq (Run.Aligned field.names field'.names) s field field' := by
  intro r r' h
  induction s generalizing r r' with
  | euler =>
    unfold advance
    rw [h.time_eq, h.clock_eq]
    exact h.reach (h.values.along (hfield.rates _ h.values) _) .none
  | midpoint =>
    have hrates := hfield.rates r.time h.values
    unfold advance
    dsimp only
    rw [h.time_eq, h.clock_eq]
    have hprevious := h.previous
    generalize r.previous = back, r'.previous = back' at hprevious ⊢
    cases hprevious with
    | none => exact h.reach (h.values.along hrates _) (.some h.values)
    | some hback => exact h.reach (hback.along hrates _) (.some h.values)
  | stages name order tableau =>
    unfold advance
    rw [h.time_eq, h.clock_eq]
    exact h.reach (Tableau.aligned_advance hfield _ _ h.values tableau) .none
  | semiImplicit newton => cases hs
  | extrapolation base runs hruns ih =>
    have hfits : (r.state field).orderedValues field.names = .ok r.values :=
      State.orderedValues_self hfield.nodup h.values.length_left.symm
    unfold advance
    dsimp only
    rw [h.clock_eq]
    rw [Attempt.result_bind, Attempt.result_bind, Attempt.result_mapM_eq, Attempt.result_mapM_eq]
    have hrows := ExceptRel.mapM_same (l := base.coefficients runs) fun count hcount =>
      Solver.refine_aligned base hs hfield (h.sameByName hfield) hfits r.clock.increment
        (pos_of_mem_coefficients hcount) (ih hs)
    refine hrows.bind fun table table' htable => ?_
    exact h.reach (Aligned.combine htable _ _ h.values.length_left h.values.length_right) .none

end Running

/-! ## Streams -/

/-- What two pulls give when they give the same by name. -/
inductive SameItem :
    Option (Except (SolverError α) (State α)) → Option (Except (SolverError α) (State α)) → Prop
  | ended : SameItem none none
  | error (e : SolverError α) : SameItem (some (.error e)) (some (.error e))
  | state {s s' : State α} (h : s.SameByName s') : SameItem (some (.ok s)) (some (.ok s'))

namespace Trajectory

/-- Two trajectories of an explicit solver that are the same up to the order of the variables. -/
structure SameUpToOrder (t t' : Trajectory α) : Prop where
  solver_eq : t'.solver = t.solver
  explicit : t.solver.IsExplicit
  field : t.field.SameUpToOrder t'.field
  run : Run.Aligned t.field.names t'.field.names t.run t'.run
  ended_eq : t'.ended = t.ended

variable [Arithmetic α] [LT α] [DecidableLT α] [Finiteness α] {t t' : Trajectory α}

omit [Arithmetic α] [LT α] [DecidableLT α] [Finiteness α] in
/-- Trajectories that are the same up to order are coupled by the alignment of their runs. -/
theorem SameUpToOrder.coupled (h : t.SameUpToOrder t') :
    Coupled (Run.Aligned t.field.names t'.field.names) t.solver t.solver t.field t'.field t t' := by
  obtain ⟨solver, field, r, ended⟩ := t
  obtain ⟨solver', field', r', ended'⟩ := t'
  obtain ⟨hsolver, hexplicit, hfield, hrun, hended⟩ := h
  dsimp only at hsolver hended hrun ⊢
  subst hsolver hended
  cases ended' with
  | true => exact .ended rfl rfl
  | false => exact .running hrun

/-- Trajectories that are the same up to order give the same at every pull. -/
theorem SameUpToOrder.sameItem (h : t.SameUpToOrder t') (n : ℕ) :
    SameItem (t.item n) (t'.item n) := by
  have hadvance := Solver.advance_aligned h.explicit h.field
  have hitem := h.coupled.item hadvance (fun r r' hR => hR.sameByName h.field) n
  generalize t.item n = item, t'.item n = item' at hitem ⊢
  cases hitem with
  | none => exact .ended
  | some hresult =>
    cases hresult with
    | ok hsame => exact .state hsame
    | error he =>
      subst he
      exact .error _

/-- An explicit solver that can be launched on a field can be launched on the field in another order
of its variables. -/
theorem exists_launch_of_sameUpToOrder {s : Solver α} {field field' : VectorField α}
    {initial : State α} {step : α} (hs : s.IsExplicit) (hfield : field.SameUpToOrder field')
    (h : (launch s field initial step).result = .ok t) :
    ∃ t', (launch s field' initial step).result = .ok t' ∧ t.SameUpToOrder t' := by
  obtain ⟨r, hstart, rfl⟩ := launch_eq_ok_iff.mp h
  rw [Solver.result_launch_of_suits (hs.suits field)] at hstart
  obtain ⟨r', hstart', haligned⟩ := Run.exists_start_of_sameByName hfield (.refl initial) hstart
  rw [← Solver.result_launch_of_suits (hs.suits field')] at hstart'
  exact ⟨_, result_launch hstart', rfl, hs, hfield, haligned, rfl⟩

end Trajectory

end Fluxion
