import Fluxion.Proofs.Equations.Evaluators

/-!
# Names at a time and a point

A time and a point of a system give a value to each of its names (`environment`).  To bind a
formula is to evaluate it at the values of its arguments there (`BoundFormula.evaluate_of_bind`),
and to move one coordinate of the point is to move one variable (`environment_set`).
-/

set_option autoImplicit false

namespace Fluxion

open Function (update)

variable {α : Type} [Elementary α] {names : List String} {independent : String}

/-- The values of names at a time and a point. -/
def environment (names : List String) (independent : String) (t : α) (x : List α) (name : String) :
    α :=
  ((Slot.find? names independent name).map (Slot.value t x)).getD Elementary.undefined

/-- The name of a variable stands for its coordinate. -/
theorem environment_getElem (hnodup : names.Nodup) {column : ℕ} (hcolumn : column < names.length)
    (t : α) (x : List α) :
    environment names independent t x names[column] = x.getD column Elementary.undefined := by
  unfold environment Slot.find?
  rw [idxOf?_getElem hnodup hcolumn]
  rfl

/-- To move a coordinate of the point is to move a variable. -/
theorem environment_set (hnodup : names.Nodup) {column : ℕ} (hcolumn : column < names.length)
    {x : List α} (hx : column < x.length) (t v : α) :
    environment names independent t (x.set column v) =
      update (environment names independent t x) names[column] v := by
  funext name
  by_cases hname : name = names[column]
  · rw [hname, Function.update_self, environment_getElem hnodup hcolumn,
      List.getD_eq_getElem?_getD, List.getElem?_set_self hx, Option.getD_some]
  · rw [Function.update_of_ne hname]
    unfold environment Slot.find?
    cases hindex : names.idxOf? name with
    | none =>
      dsimp only
      split <;> rfl
    | some index =>
      obtain ⟨hindexlt, hown, -⟩ := List.idxOf?_eq_some_iff.mp hindex
      have hne : column ≠ index := by
        intro heq
        subst heq
        exact hname hown.symm
      simp only [Option.map_some, Option.getD_some, Slot.value, List.getD_eq_getElem?_getD,
        List.getElem?_set_ne hne]

namespace BoundFormula

variable {label : String} {f : Formula α} {b : BoundFormula α}

/-- An argument of a bound formula is the value of its name. -/
theorem argument_of_bind (h : bind label names independent f = .ok b) (t : α) (x : List α)
    (k : Nat) :
    b.argument t x k =
      (f.parameters[k]?.map (environment names independent t x)).getD Elementary.undefined := by
  rw [argument_eq_slot]
  cases hname : f.parameters[k]? with
  | none =>
    have hslot : b.slots[k]? = none := by
      rw [List.getElem?_eq_none_iff, length_slots_of_bind h]
      exact List.getElem?_eq_none_iff.mp hname
    rw [hslot]
    rfl
  | some name =>
    obtain ⟨slot, hslot, hfind⟩ := exists_slot_of_bind h hname
    rw [hslot, Option.map_some, Option.map_some, environment, hfind]
    rfl

variable [Arithmetic α]

/-- The value of a bound formula is the value of the formula at the values of its arguments. -/
theorem evaluate_of_bind (h : bind label names independent f = .ok b) (t : α) (x : List α) :
    f.evaluate (f.parameters.map (environment names independent t x)) = .ok (b.value t x) := by
  unfold Formula.evaluate value
  rw [if_neg (by simp), formula_of_bind h]
  congr 2
  funext k
  rw [argument_of_bind h, List.getD_eq_getElem?_getD, List.getElem?_map]

/-- The value of a bound formula is the value of its expression. -/
theorem value_of_bind {evaluator : Evaluator} {e : Expr α}
    (hf : Formula.build evaluator e = .ok f) (h : bind label names independent f = .ok b) (t : α)
    (x : List α) : b.value t x = e.value (environment names independent t x) := by
  unfold value
  rw [formula_of_bind h]
  refine Formula.valueAt_eq_value hf fun k name hparameter => ?_
  rw [argument_of_bind h, hparameter]
  rfl

end BoundFormula

namespace Equations

variable {equations : List (String × Formula α)} {s : Equations α} {row : ℕ} {rowName : String}
  {f : Formula α}

/-- The component of a system that was created is the value of its expression under the names of the
system. -/
theorem component_of_create [Arithmetic α] (h : create independent equations = .ok s)
    (hrow : equations[row]? = some (rowName, f)) (hf : IsBuilt f) (t : α) (x : List α) :
    s.component row t x = f.expression.value (environment s.names s.independent t x) := by
  obtain ⟨b, hb, hbind⟩ := exists_bind_of_create h hrow
  obtain ⟨evaluator, e, he⟩ := hf
  unfold component
  rw [hb, Formula.expression_of_build he]
  exact BoundFormula.value_of_bind he hbind t x

end Equations

end Fluxion
