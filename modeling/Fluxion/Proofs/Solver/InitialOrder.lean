import Fluxion.Proofs.Solver.Coupling
import Fluxion.Proofs.Equations.WellFormed
import Fluxion.Proofs.Formula.Environments
import Fluxion.Proofs.Solver.Launch

/-!
# The order of the initial state

An initial state gives values to names, in any order.  It fits a list of distinct variables exactly
if its names are a permutation of them (`State.exists_orderedValues_iff`).  Only the number of names
is compared with that of the variables, and then each variable is looked up; but as many distinct
variables as there are names leave no room for a name that is given twice or is no variable.

What a state fits with does not depend on its order either, and neither does the reason why it does
not fit (`State.orderedValues_perm`).  A solver sees nothing else of its initial state than the time
and these values (`Solver.launch_congr`), so it is launched alike from every order of one state.
-/

set_option autoImplicit false

namespace Fluxion

variable {α : Type}

/-! ## States -/

namespace State

variable {time : α} {entries entries' : List (String × α)} {order : List String}

/-- Looking up a name in a state finds its first entry. -/
theorem get?_ofEntries (name : String) :
    (ofEntries time entries).get? name = entries.lookup name := by
  unfold get? ofEntries
  dsimp only
  induction entries with
  | nil => rfl
  | cons entry entries ih =>
    rw [List.map_cons, List.map_cons, List.idxOf?_cons, List.lookup_cons]
    by_cases hname : entry.1 = name
    · subst hname
      simp
    · rw [beq_false_of_ne hname, beq_false_of_ne (Ne.symm hname), ← ih]
      cases (entries.map (·.1)).idxOf? name <;> simp

/-- A name without an entry is missed. -/
theorem require_ofEntries (name : String) : (ofEntries time entries).require name =
    (entries.lookup name).elim (.error (.stateMismatch (.missing name))) .ok := by
  unfold require
  rw [get?_ofEntries]
  cases entries.lookup name <;> rfl

/-- A state has a value for the names of its entries. -/
theorem exists_require_iff {name : String} :
    (∃ value, (ofEntries time entries).require name = .ok value) ↔
      name ∈ entries.map (·.1) := by
  rw [require_ofEntries, ← not_iff_not, ← lookup_eq_none_iff_not_mem]
  cases entries.lookup name <;> simp

/-- A state fits distinct variables exactly if its names are a permutation of them. -/
theorem exists_orderedValues_iff (hnodup : order.Nodup) :
    (∃ values, (ofEntries time entries).orderedValues order = .ok values) ↔
      (entries.map (·.1)).Perm order := by
  have hnames : (ofEntries time entries).names = entries.map (·.1) := rfl
  unfold orderedValues
  rw [hnames]
  constructor
  · rintro ⟨values, hvalues⟩
    split at hvalues
    · cases hvalues
    · rename_i hlength
      have hsubset : order ⊆ entries.map (·.1) := by
        intro name hname
        exact exists_require_iff.mp (exists_mapM_eq_ok_iff.mp ⟨values, hvalues⟩ name hname)
      -- distinct variables among as many names use all of them up
      refine (List.Subperm.perm_of_length_le (List.subperm_of_subset hnodup hsubset) ?_).symm
      exact Nat.le_of_eq (not_not.mp hlength)
  · intro hperm
    rw [if_neg (not_not.mpr hperm.length_eq)]
    exact exists_mapM_eq_ok_iff.mpr fun name hname =>
      exists_require_iff.mpr (hperm.mem_iff.mpr hname)

/-- A required value is the one that is looked up. -/
theorem get?_of_require {s : State α} {name : String} {value : α}
    (h : s.require name = .ok value) : s.get? name = some value := by
  unfold require at h
  split at h
  · rename_i found hfound
    cases h
    exact hfound
  · cases h

/-- Each variable has at its place the value that the state gives it. -/
theorem exists_entry_of_orderedValues (hnodup : order.Nodup) {values : List α}
    (h : (ofEntries time entries).orderedValues order = .ok values) {i : ℕ} {name : String}
    (hi : order[i]? = some name) :
    ∃ value, values[i]? = some value ∧ (ofEntries time entries).get? name = some value ∧
      (name, value) ∈ entries := by
  have hperm := (exists_orderedValues_iff hnodup).mp ⟨values, h⟩
  unfold orderedValues at h
  split at h
  · cases h
  · obtain ⟨value, hvalue, hrequire⟩ := exists_getElem?_of_mapM h hi
    have hget := get?_of_require hrequire
    refine ⟨value, hvalue, hget, ?_⟩
    rw [get?_ofEntries] at hget
    exact (lookup_eq_some_iff_mem (hperm.nodup_iff.mpr hnodup)).mp hget

/-- A name that is missing in one order of the entries is missing in every order. -/
theorem require_coupled (hperm : entries'.Perm entries) (name : String) :
    ExceptRel Eq (fun _ _ => True) ((ofEntries time entries').require name)
      ((ofEntries time entries).require name) := by
  have hnone : entries'.lookup name = none ↔ entries.lookup name = none := by
    rw [lookup_eq_none_iff_not_mem, lookup_eq_none_iff_not_mem, (hperm.map _).mem_iff]
  rw [require_ofEntries, require_ofEntries]
  cases hlookup : entries.lookup name with
  | none =>
    rw [hnone.mpr hlookup]
    exact .error rfl
  | some value =>
    have hsome : entries'.lookup name ≠ none := by
      intro h
      rw [hnone.mp h] at hlookup
      cases hlookup
    obtain ⟨value', hlookup'⟩ := Option.ne_none_iff_exists'.mp hsome
    rw [hlookup']
    exact .ok trivial

/-- A state that does not fit in one order of its entries fits in none, for the same reason. -/
theorem orderedValues_coupled (time : α) (order : List String) (hperm : entries'.Perm entries) :
    ExceptRel Eq (fun _ _ => True) ((ofEntries time entries').orderedValues order)
      ((ofEntries time entries).orderedValues order) := by
  have hlength : (ofEntries time entries').names.length = (ofEntries time entries).names.length :=
    (hperm.map _).length_eq
  unfold orderedValues
  rw [hlength]
  split
  · exact .error rfl
  · exact (ExceptRel.mapM_same fun name _ => require_coupled hperm name).imp (fun _ _ h => h)
      fun _ _ _ => trivial

/-- What a state gives to distinct variables, or the reason why it does not fit them, does not
depend on the order of its entries. -/
theorem orderedValues_perm (hnodup : order.Nodup) (hperm : entries'.Perm entries) :
    (ofEntries time entries').orderedValues order =
      (ofEntries time entries).orderedValues order := by
  have hcoupled := orderedValues_coupled time order hperm
  cases hvalues : (ofEntries time entries).orderedValues order with
  | error fault =>
    rw [hvalues] at hcoupled
    generalize (ofEntries time entries').orderedValues order = outcome at hcoupled
    cases hcoupled with
    | error h => rw [h]
  | ok values =>
    -- the names are distinct, so each has the same value in both orders
    have hnames := (exists_orderedValues_iff hnodup).mp ⟨values, hvalues⟩
    have hrequire : (ofEntries time entries').require = (ofEntries time entries).require := by
      funext name
      rw [require_ofEntries, require_ofEntries,
        lookup_eq_of_perm (hnames.nodup_iff.mpr hnodup) hperm]
    have hlength : (ofEntries time entries').names.length = (ofEntries time entries).names.length :=
      (hperm.map _).length_eq
    rw [← hvalues]
    unfold orderedValues
    rw [hrequire, hlength]

end State

/-! ## Solvers -/

section

variable [Arithmetic α] [LT α] [DecidableLT α] [Finiteness α] {field : VectorField α}
  {origin origin' : State α}

/-- Where a run starts depends on the time and on the values of the variables only. -/
theorem Run.start_congr (htime : origin'.time = origin.time)
    (hvalues : origin'.orderedValues field.names = origin.orderedValues field.names) (step : α) :
    start field origin' step = start field origin step := by
  unfold start
  rw [htime, hvalues]

/-- A solver sees of its initial state the time and the values of the variables only. -/
theorem Solver.launch_congr (htime : origin'.time = origin.time)
    (hvalues : origin'.orderedValues field.names = origin.orderedValues field.names) (step : α)
    (s : Solver α) : s.launch field origin' step = s.launch field origin step := by
  have hstart := Run.start_congr htime hvalues step
  induction s with
  | euler | midpoint | stages name order tableau =>
    unfold launch
    rw [hstart]
  | semiImplicit newton =>
    unfold launch
    rw [hstart, htime]
  | extrapolation base runs hruns ih =>
    unfold launch
    rw [hstart, ih, htime]

namespace Trajectory

variable [Elementary α]

/-- The order of the initial state is irrelevant, and nothing but a permutation of the variables is
accepted.  A state, in which a name may be repeated, fits distinct variables exactly if its names
are a permutation of them, and then has a value for each variable at the place of the variable.  So
a solver is launched on a system from two orders of one state with the same outcome: it announces
the same, it is refused for the same reason, and it goes on with the same stream. -/
theorem initial_order_irrelevant :
    (∀ (order : List String) (time : α) (entries : List (String × α)), order.Nodup →
      ((∃ values, (State.ofEntries time entries).orderedValues order = .ok values) ↔
        (entries.map (·.1)).Perm order) ∧
      ∀ values, (State.ofEntries time entries).orderedValues order = .ok values →
        values.length = order.length ∧ ∀ (i : ℕ) (name : String), order[i]? = some name →
          ∃ value, values[i]? = some value ∧
            (State.ofEntries time entries).get? name = some value ∧ (name, value) ∈ entries) ∧
    ∀ (equations : Equations α), equations.IsAssembled →
      ∀ (solver : Solver α) (time step : α) (entries entries' : List (String × α)),
        entries'.Perm entries →
          launch solver equations.toField (State.ofEntries time entries') step =
            launch solver equations.toField (State.ofEntries time entries) step := by
  constructor
  · intro order time entries hnodup
    refine ⟨State.exists_orderedValues_iff hnodup, fun values hvalues => ?_⟩
    exact ⟨State.length_of_orderedValues hvalues, fun i name hi =>
      State.exists_entry_of_orderedValues hnodup hvalues hi⟩
  · intro equations hequations solver time step entries entries' hperm
    have htime : (State.ofEntries time entries').time = (State.ofEntries time entries).time := rfl
    have hvalues : (State.ofEntries time entries').orderedValues equations.toField.names =
        (State.ofEntries time entries).orderedValues equations.toField.names :=
      State.orderedValues_perm hequations.nodup hperm
    unfold launch
    rw [Solver.launch_congr htime hvalues step solver]

/-- The pendulum, from a state that names its variables in the other order; a state that names one
of them twice does not fit. -/
theorem initial_order_irrelevant_pendulum :
    (∃ values, (State.ofEntries 0 [("v", (2 : Float)), ("x", 1)]).orderedValues ["x", "v"] =
      .ok values) ∧
    (¬ ∃ values, (State.ofEntries 0 [("x", (2 : Float)), ("x", 1)]).orderedValues ["x", "v"] =
      .ok values) ∧
    ∃ s, Equations.ofSources Equations.pendulum {} = .ok s ∧
      launch (.semiImplicit .standard) s.toField (.ofEntries 0 [("v", 2), ("x", 1)]) 0.125 =
        launch (.semiImplicit .standard) s.toField (.ofEntries 0 [("x", 1), ("v", 2)]) 0.125 := by
  obtain ⟨hfits, hlaunch⟩ := @initial_order_irrelevant Float _ _ _ _ _
  refine ⟨(hfits _ _ _ (by decide)).1.mpr (by decide), ?_, ?_⟩
  · rw [(hfits _ _ _ (by decide)).1]
    decide
  · have hwellFormed : Equations.IsWellFormed Equations.pendulum {} :=
      ⟨⟨Equations.pendulumEquations, Equations.isSystem_pendulum⟩, fun h => by cases h⟩
    obtain ⟨s, hs⟩ := Equations.exists_ofSources_iff.mpr hwellFormed
    exact ⟨s, hs, hlaunch s (Equations.isAssembled_of_ofSources hs) _ _ _ _ _ (.swap _ _ _)⟩

end Trajectory

end

end Fluxion
