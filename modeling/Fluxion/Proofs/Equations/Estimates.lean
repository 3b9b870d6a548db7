import Fluxion.Proofs.Equations.Environment
import Fluxion.Proofs.Expr.PolynomialValue
import Fluxion.Proofs.Expr.RealValue
import Mathlib

/-!
# Exact estimates

In exact arithmetic a difference quotient of a polynomial of small degree is its derivative, and so
the estimated partial derivatives of a polynomial system are the symbolic ones.
-/

set_option autoImplicit false

namespace Fluxion

/-! ## Difference quotients of polynomials

In exact arithmetic a difference quotient of a polynomial is its derivative if the degree is small
enough for the scheme (`Difference.derivative_eval`).  The values on one side of a point determine a
line.  Those on both sides determine a parabola up to a constant, since a square takes the two
values `(x + h) ^ 2` and `(x - h) ^ 2`, whose difference is `2 * h` times `2 * x`.
-/

section

open Polynomial

/-- The degree up to which a difference quotient of a polynomial is its derivative. -/
def Scheme.exactDegree : Scheme → ℕ
  | .central => 2
  | .left | .right => 1

namespace Difference

/-- The difference quotient of each scheme, written out. -/
theorem derivative_eq {α : Type} [Arithmetic α] (d : Difference α) (f : α → α) (x : α) :
    d.derivative f x =
      match d.scheme with
      | .central => (f (x + d.increment) - f (x - d.increment)) / (two * d.increment)
      | .left => (f x - f (x - d.increment)) / d.increment
      | .right => (f (x + d.increment) - f x) / d.increment := by
  rfl

variable {K : Type} [Field K] [CharZero K]

/-- The difference quotient of a polynomial is its derivative, up to the degree of the scheme. -/
theorem derivative_eval (d : Difference K) (hd : d.increment ≠ 0) {p : K[X]}
    (hp : p.natDegree ≤ d.scheme.exactDegree) (x : K) :
    d.derivative (fun v => p.eval v) x = p.derivative.eval x := by
  have hdegree : p.natDegree ≤ 2 := hp.trans (by cases d.scheme <;> decide)
  have hparabola := eq_quadratic_of_degree_le_two (natDegree_le_iff_degree_le.mp hdegree)
  have heval : ∀ v, p.eval v = p.coeff 2 * v ^ 2 + p.coeff 1 * v + p.coeff 0 := by
    intro v
    nth_rewrite 1 [hparabola]
    simp
  have hslope : p.derivative.eval x = p.coeff 2 * (2 * x) + p.coeff 1 := by
    nth_rewrite 1 [hparabola]
    simp [one_add_one_eq_two]
  have hline : p.natDegree ≤ 1 → p.coeff 2 = 0 := by
    intro hone
    exact coeff_eq_zero_of_natDegree_lt (by omega)
  rw [derivative_eq, hslope]
  simp only [heval]
  cases hscheme : d.scheme with
  | central =>
    rw [two_eq]
    field_simp
    ring
  | left =>
    rw [hscheme] at hp
    rw [hline hp]
    field_simp
    ring
  | right =>
    rw [hscheme] at hp
    rw [hline hp]
    field_simp
    ring

end Difference

end

/-! ## Where estimates are exact

In exact arithmetic the estimated partial derivatives of a system are the symbolic ones, if the
right-hand side is polynomial and its degree in the variable is small enough for the scheme
(`Equations.estimate_eq_symbolic`).

Both are values of expressions at one assignment of values to the names, the one that a time and a
point stand for (`environment`): to bind a formula is to evaluate its expression there
(`BoundFormula.value_of_bind`), and to move one coordinate of the point is to move one variable
(`environment_set`).  Along that variable the right-hand side is a polynomial, and both partial
derivatives are the value of its derivative.
-/

section

open Polynomial

namespace Equations

section

variable {K : Type} [Field K] [Elementary K] {independent : String}
  {equations : List (String × Formula K)} {s s' : Equations K} {row column : ℕ}
  {rowName name : String} {f g : Formula K}

/-- The symbolic partial derivative is the derivative of the right-hand side along the variable. -/
theorem slope_of_attachSymbolic (h : create independent equations = .ok s)
    {evaluator : Evaluator} (hattach : s.attachSymbolic evaluator = .ok s')
    (hrow : equations[row]? = some (rowName, f)) (hcolumn : equations[column]? = some (name, g))
    (hf : f.expression.IsPolynomial) (t : K) (x : List K) :
    s'.slope? row column t x =
      some (((f.expression.along (environment s.names s.independent t x) name).derivative).eval
        (environment s.names s.independent t x name)) := by
  obtain ⟨rightHandSide, hrightHandSide, hbind⟩ := exists_bind_of_create h hrow
  have hname := getElem?_names_of_create h hcolumn
  have hlength := length_rightHandSides_of_create h
  obtain ⟨hrowlt, -⟩ := List.getElem?_eq_some_iff.mp hrightHandSide
  obtain ⟨hcolumnlt, -⟩ := List.getElem?_eq_some_iff.mp hname
  obtain ⟨b, hb, own, name', slope, built, label, hown, hname', hslope, hbuilt, hbind'⟩ :=
    exists_entryAt_of_attachSymbolic (nodup_of_create h) hlength (entries_of_create h) hattach
      (hlength ▸ hrowlt) hcolumnlt
  obtain rfl : rightHandSide = own := Option.some.inj (hrightHandSide.symm.trans hown)
  obtain rfl : name = name' := Option.some.inj (hname.symm.trans hname')
  rw [BoundFormula.formula_of_bind hbind] at hslope
  unfold slope?
  rw [hb]
  dsimp only
  rw [BoundFormula.value_of_bind hbuilt hbind' t x]
  exact congrArg some (hf.value_derivative (Expr.differentiatesTo_of_derivative hslope) _)

/-- An estimated partial derivative is the difference quotient of the right-hand side along the
variable. -/
theorem slope_of_attachEstimate [LT K] [DecidableLT K] [Finiteness K]
    (h : create independent equations = .ok s) {d : Difference K}
    (hattach : s.attachEstimate d = .ok s') (hrow : equations[row]? = some (rowName, f))
    (hbuilt : IsBuilt f) (hcolumn : equations[column]? = some (name, g))
    (hf : f.expression.IsPolynomial) (t : K) {x : List K} (hx : x.length = equations.length) :
    s'.slope? row column t x =
      some (d.derivative
        (fun v => (f.expression.along (environment s.names s.independent t x) name).eval v)
        (environment s.names s.independent t x name)) := by
  have hnames := names_of_create h
  obtain ⟨hcolumnlt, hname⟩ := List.getElem?_eq_some_iff.mp (getElem?_names_of_create h hcolumn)
  have hx' : column < x.length := by
    rw [hx, ← List.length_map, ← hnames]
    exact hcolumnlt
  have hnodup := nodup_of_create h
  subst hname
  obtain ⟨-, rfl⟩ := attachEstimate_eq_ok_iff.mp hattach
  have hcomponent : ∀ v, s.component row t (x.set column v) =
      (f.expression.along (environment s.names s.independent t x) s.names[column]).eval v := by
    intro v
    rw [component_of_create h hrow hbuilt, environment_set hnodup hcolumnlt hx', hf.eval_along]
  unfold slope? entryAt?
  rw [entries_of_create h]
  show some (d.derivative (fun v => s.component row t (x.set column v)) _) = _
  simp only [hcomponent, environment_getElem hnodup hcolumnlt]

end

/-- Estimated partial derivatives are the symbolic ones where the quotient is exact.  Of a system of
formulas both can be attached, in exact arithmetic and for every positive increment.  If a
right-hand side is polynomial, and its degree in a variable is at most two under the central scheme
or at most one under the others, then both partial derivatives have the same value at every time and
point. -/
theorem estimate_eq_symbolic {K : Type} [Field K] [LinearOrder K] [IsStrictOrderedRing K]
    [Elementary K] [Finiteness K] (independent : String) (equations : List (String × Formula K))
    (hbuilt : ∀ equation ∈ equations, IsBuilt equation.2) (s : Equations K)
    (h : create independent equations = .ok s) (evaluator : Evaluator) (d : Difference K)
    (hd : IsPositive d.increment) :
    ∃ symbolic estimated, s.attachSymbolic evaluator = .ok symbolic ∧
      s.attachEstimate d = .ok estimated ∧
      ∀ (row column : ℕ) (rowName name : String) (f g : Formula K),
        equations[row]? = some (rowName, f) → equations[column]? = some (name, g) →
        f.expression.IsPolynomial → f.expression.degreeIn name ≤ d.scheme.exactDegree →
        ∀ (t : K) (x : List K), x.length = equations.length →
          ∃ v, symbolic.slope? row column t x = some v ∧
            estimated.slope? row column t x = some v := by
  obtain ⟨symbolic, hsymbolic⟩ :=
    exists_attachSymbolic (isSelfContained_of_create hbuilt h) evaluator
  have hestimated := (attachEstimate_eq_ok_iff (s := s)).mpr ⟨hd, rfl⟩
  refine ⟨symbolic, _, hsymbolic, hestimated, ?_⟩
  intro row column rowName name f g hrow hcolumn hf hdegree t x hx
  have hincrement : d.increment ≠ 0 := by
    have hpositive := hd.1
    rw [zero_eq] at hpositive
    exact hpositive.ne'
  have hfbuilt : IsBuilt f := hbuilt (rowName, f) (List.mem_of_getElem? hrow)
  refine ⟨_, slope_of_attachSymbolic h hsymbolic hrow hcolumn hf t x, ?_⟩
  rw [slope_of_attachEstimate h hestimated hrow hfbuilt hcolumn hf t hx]
  exact congrArg some (d.derivative_eval hincrement
    ((hf.natDegree_along_le _ name).trans hdegree) _)

/-- Logistic growth to a capacity that is used up: `x' = x * y - x * x` and `y' = -x * t`. -/
noncomputable def logistic : List (String × Formula ℝ) :=
  [("x", .interpreted (.binary .sub (.binary .mul (.symbol "x") (.symbol "y"))
      (.binary .mul (.symbol "x") (.symbol "x")))),
    ("y", .interpreted (.binary .mul (.neg (.symbol "x")) (.symbol "t")))]

/-- The first right-hand side of the logistic equations is of degree two in the first variable, so
the central quotient over any points gives its derivative. -/
theorem estimate_eq_symbolic_logistic :
    ∃ s symbolic estimated, create "t" logistic = .ok s ∧
      s.attachSymbolic .compiled = .ok symbolic ∧
      s.attachEstimate ⟨.central, 1⟩ = .ok estimated ∧
      ∀ t x y : ℝ, ∃ v, symbolic.slope? 0 0 t [x, y] = some v ∧
        estimated.slope? 0 0 t [x, y] = some v := by
  have hbuilt : ∀ equation ∈ logistic, IsBuilt equation.2 := by
    intro equation hequation
    refine ⟨.interpreted, equation.2.expression, ?_⟩
    obtain rfl | hequation := List.mem_cons.mp hequation
    · rfl
    · obtain rfl := List.mem_singleton.mp hequation
      rfl
  have hcreate : ∃ s, create "t" logistic = .ok s := ⟨_, rfl⟩
  obtain ⟨s, hs⟩ := hcreate
  have hincrement : IsPositive (1 : ℝ) := by
    refine ⟨?_, rfl⟩
    rw [zero_eq]
    exact one_pos
  obtain ⟨symbolic, estimated, hsymbolic, hestimated, hsame⟩ :=
    estimate_eq_symbolic "t" logistic hbuilt s hs .compiled ⟨.central, 1⟩ hincrement
  refine ⟨s, symbolic, estimated, hs, hsymbolic, hestimated, fun t x y => ?_⟩
  refine hsame 0 0 "x" "x" _ _ rfl rfl ?_ ?_ t [x, y] rfl
  · exact .sub (.mul (.symbol "x") (.symbol "y")) (.mul (.symbol "x") (.symbol "x"))
  · show max (1 + 0) (1 + 1) ≤ 2
    decide

end Equations

end

end Fluxion
