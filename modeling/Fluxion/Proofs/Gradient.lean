import Fluxion.Proofs.Equations.EstimatePaths

/-!
# The gradient and its components

A partial derivative is refused for the increment or for the dimension of the point, whichever
variable it is taken along (`Difference.partialDerivative_of_refusal`); what is not refused has a
value (`Difference.exists_partialDerivative`).  The gradient checks nothing itself.  It is refused
as its components are, because the first of them is computed (`Difference.gradient_of_refusal`); a
formula without variables has no first component, and its gradient is empty whatever the increment
and the point are.
-/

set_option autoImplicit false

namespace Fluxion

namespace Difference

variable {α : Type} [Arithmetic α] [LT α] [DecidableLT α] [Finiteness α]

/-- Why a derivative of a formula at a point is refused, along any of its variables. -/
def refusal? (d : Difference α) (f : Formula α) (point : List α) : Option (DifferenceError α) :=
  if ¬ IsPositive d.increment then some (.invalidIncrement d.increment)
  else if point.length ≠ f.parameters.length then
    some (.wrongDimension f.parameters.length point.length)
  else none

variable {d : Difference α} {f : Formula α} {point : List α} {fault : DifferenceError α}

/-- Nothing is refused if the increment is positive and the point has a value for each parameter. -/
theorem refusal?_eq_none_iff :
    d.refusal? f point = none ↔ IsPositive d.increment ∧ point.length = f.parameters.length := by
  unfold refusal?
  split
  · rename_i hincrement
    simp [hincrement]
  · rename_i hincrement
    simp [not_not.mp hincrement]

/-- With a positive increment a point of another length is refused for its length. -/
theorem refusal?_of_length_ne (hincrement : IsPositive d.increment)
    (hlength : point.length ≠ f.parameters.length) :
    d.refusal? f point = some (.wrongDimension f.parameters.length point.length) := by
  unfold refusal?
  rw [if_neg (not_not.mpr hincrement), if_pos hlength]

variable [Elementary α]

/-- The reasons to refuse a partial derivative are the same for all variables. -/
theorem partialDerivative_of_refusal (h : d.refusal? f point = some fault) (index : ℕ) :
    d.partialDerivative f point index = .error fault := by
  unfold refusal? at h
  unfold partialDerivative check
  split at h
  · rename_i hincrement
    cases h
    rw [if_neg hincrement]
    rfl
  · rename_i hincrement
    rw [if_pos (not_not.mp hincrement)]
    split at h
    · rename_i hlength
      cases h
      simp only [hlength, ne_eq, not_false_eq_true, if_true]
      rfl
    · cases h

/-- What is not refused has a value: moving a coordinate keeps the dimension of the point. -/
theorem exists_partialDerivative (h : d.refusal? f point = none) {index : ℕ}
    (hindex : index < f.parameters.length) : ∃ v, d.partialDerivative f point index = .ok v := by
  obtain ⟨hincrement, hlength⟩ := refusal?_eq_none_iff.mp h
  have hvalue (v : α) : f.evaluate (point.set index v) =
      .ok (f.valueAt fun k => (point.set index v).getD k Elementary.undefined) := by
    unfold Formula.evaluate
    rw [if_neg (by simp [hlength])]
  exact ⟨_, partialDerivative_eq (if_pos hincrement) hlength hvalue
    (List.getElem?_eq_getElem (hlength ▸ hindex))⟩

/-- What one component refuses, the gradient refuses, provided that it has a component. -/
theorem gradient_of_refusal (h : d.refusal? f point = some fault)
    (hparameters : f.parameters ≠ []) : d.gradient f point = .error fault := by
  refine mapM_eq_error ?_ fun index _ => partialDerivative_of_refusal h index
  rw [ne_eq, List.range_eq_nil, List.length_eq_zero_iff]
  exact hparameters

/-- Without components, or without a refusal, there is a gradient. -/
theorem exists_gradient (h : f.parameters = [] ∨ d.refusal? f point = none) :
    ∃ slopes, d.gradient f point = .ok slopes := by
  refine exists_mapM_eq_ok_iff.mpr fun index hindex => ?_
  rw [List.mem_range] at hindex
  obtain hparameters | hrefusal := h
  · rw [hparameters] at hindex
    exact absurd hindex (Nat.not_lt_zero index)
  · exact exists_partialDerivative hrefusal hindex

/-- The entries of a gradient are the partial derivatives, in the order of the variables. -/
theorem components_of_gradient {slopes : List α} (h : d.gradient f point = .ok slopes) :
    slopes.length = f.parameters.length ∧
      ∀ index (hindex : index < slopes.length),
        d.partialDerivative f point index = .ok slopes[index] := by
  have hlength : slopes.length = f.parameters.length := by
    rw [length_of_mapM h, List.length_range]
  refine ⟨hlength, fun index hindex => ?_⟩
  have hrange : (List.range f.parameters.length)[index]? = some index :=
    List.getElem?_range (hlength ▸ hindex)
  obtain ⟨slope, hslope, hcomponent⟩ := exists_getElem?_of_mapM h hrange
  rw [List.getElem?_eq_getElem hindex] at hslope
  cases hslope
  exact hcomponent

/-- The gradient fails exactly if it has components and they refuse, and with their error. -/
theorem gradient_eq_error_iff :
    d.gradient f point = .error fault ↔ f.parameters ≠ [] ∧ d.refusal? f point = some fault := by
  constructor
  · intro h
    have hnone : ¬ (f.parameters = [] ∨ d.refusal? f point = none) := by
      intro hadmitted
      obtain ⟨slopes, hslopes⟩ := exists_gradient hadmitted
      rw [h] at hslopes
      cases hslopes
    obtain ⟨hparameters, hrefusal⟩ := not_or.mp hnone
    obtain ⟨own, hown⟩ := Option.ne_none_iff_exists'.mp hrefusal
    rw [gradient_of_refusal hown hparameters] at h
    cases h
    exact ⟨hparameters, hown⟩
  · rintro ⟨hparameters, hrefusal⟩
    exact gradient_of_refusal hrefusal hparameters

/-- The gradient of a formula that has variables is validated like its components.  It exists
exactly if there are no variables, or the increment is positive and the point has the dimension of
the formula; then its entries are the partial derivatives.  It fails exactly if there are variables
and the derivatives along all of them fail, for the same reason. -/
theorem gradient_exists_iff (d : Difference α) (f : Formula α) (point : List α) :
    ((∃ slopes, d.gradient f point = .ok slopes) ↔
      f.parameters = [] ∨ IsPositive d.increment ∧ point.length = f.parameters.length) ∧
    (∀ slopes, d.gradient f point = .ok slopes →
      slopes.length = f.parameters.length ∧
        ∀ index (hindex : index < slopes.length),
          d.partialDerivative f point index = .ok slopes[index]) ∧
    ∀ fault, d.gradient f point = .error fault ↔
      f.parameters ≠ [] ∧
        ∀ index < f.parameters.length, d.partialDerivative f point index = .error fault := by
  rw [← refusal?_eq_none_iff]
  refine ⟨⟨?_, exists_gradient⟩, fun slopes => components_of_gradient, fun fault => ?_⟩
  · rintro ⟨slopes, hslopes⟩
    by_contra hnone
    obtain ⟨hparameters, hrefusal⟩ := not_or.mp hnone
    obtain ⟨fault, hfault⟩ := Option.ne_none_iff_exists'.mp hrefusal
    rw [gradient_of_refusal hfault hparameters] at hslopes
    cases hslopes
  · rw [gradient_eq_error_iff, and_congr_right_iff]
    intro hparameters
    constructor
    · intro hrefusal index _
      exact partialDerivative_of_refusal hrefusal index
    · intro hcomponents
      -- the component along the first variable tells why all of them are refused
      have hfirst := hcomponents 0 (List.length_pos_iff.mpr hparameters)
      cases hrefusal : d.refusal? f point with
      | none =>
        obtain ⟨v, hv⟩ := exists_partialDerivative hrefusal (List.length_pos_iff.mpr hparameters)
        rw [hfirst] at hv
        cases hv
      | some own =>
        rw [partialDerivative_of_refusal hrefusal] at hfirst
        cases hfirst
        rfl

/-- The gradient of `x * y`, and its refusal at a point of one coordinate. -/
theorem gradient_exists_product :
    let d : Difference Float := ⟨.left, 0.5⟩
    let f : Formula Float := .interpreted (.binary .mul (.symbol "x") (.symbol "y"))
    (∃ slopes, d.gradient f [2, 3] = .ok slopes ∧ slopes.length = 2 ∧
        ∀ index (hindex : index < slopes.length),
          d.partialDerivative f [2, 3] index = .ok slopes[index]) ∧
      d.gradient f [2] = .error (.wrongDimension 2 1) := by
  intro d f
  have hincrement : IsPositive d.increment := by decide
  obtain ⟨hexists, hcomponents, -⟩ := gradient_exists_iff d f [2, 3]
  obtain ⟨slopes, hslopes⟩ := hexists.mpr (.inr ⟨hincrement, rfl⟩)
  have hrefusal (index : ℕ) : d.partialDerivative f [2] index = .error (.wrongDimension 2 1) :=
    partialDerivative_of_refusal (refusal?_of_length_ne hincrement (by decide)) index
  exact ⟨⟨slopes, hslopes, hcomponents slopes hslopes⟩,
    ((gradient_exists_iff d f [2]).2.2 _).mpr ⟨List.cons_ne_nil _ _, fun index _ => hrefusal index⟩⟩

/-- The gradient of a constant is there for an increment below zero and for a point of another
dimension, for which its derivatives are refused. -/
theorem gradient_of_constant :
    let f : Formula Float := .interpreted (.number 1)
    let backward : Difference Float := ⟨.central, -1⟩
    (¬ IsPositive backward.increment ∧ backward.gradient f [] = .ok [] ∧
      backward.partialDerivative f [] 0 = .error (.invalidIncrement (-1))) ∧
    ([1] : List Float).length ≠ f.parameters.length ∧ standard.gradient f [1] = .ok [] ∧
      standard.partialDerivative f [1] 0 = .error (.wrongDimension 0 1) := by
  intro f backward
  have hbackward : ¬ IsPositive backward.increment := by decide
  have hstandard : IsPositive standard.increment := by decide
  exact ⟨⟨hbackward, rfl, partialDerivative_of_refusal (if_pos hbackward) 0⟩, by decide, rfl,
    partialDerivative_of_refusal (refusal?_of_length_ne hstandard (by decide)) 0⟩

end Difference

end Fluxion
