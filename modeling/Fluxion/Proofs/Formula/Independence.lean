import Fluxion.Proofs.Expr.Differentiation
import Fluxion.Proofs.Expr.RealValue
import Fluxion.Proofs.Formula.Environments
import Fluxion.Proofs.Scalar.Exact

/-!
# Independence of a variable

Three walks over an expression are about one of its variables: the search for an occurrence, the
collection of the variables and the evaluation.  They agree: an expression in which a variable does
not occur does not have it among its parameters (`Expr.isIndependentOf_iff`) and has the same value
whatever the variable is (`Expr.value_eq_of_isIndependentOf`), and its derivative with respect to
the variable is zero in every field (`Expr.DifferentiatesTo.value_eq_zero`).

The rules of differentiation do not simplify, so the zero is computed: in every product that a rule
writes there is the derivative of an operand, and the other factors may be anything, also the
undefined scalar or a quotient by zero.
-/

set_option autoImplicit false

namespace Fluxion

/-- Two environments that agree on all variables but one. -/
def SameBut {α : Type} (name : String) (env env' : String → α) : Prop :=
  ∀ other, other ≠ name → env other = env' other

/-- Named arguments that give the variables of a formula their values in an environment, and name
nothing else. -/
def Formula.IsGiven {α : Type} (f : Formula α) (b : Bindings α) (env : String → α) : Prop :=
  f.Fits b ∧ ∀ own ∈ f.parameters, b.get? own = some (env own)

namespace Expr

variable {ν : Type} {name : String}

/-- The test for occurrences is about the variables of the formula. -/
theorem isIndependentOf_iff {e : Expr ν} :
    e.isIndependentOf name = true ↔ name ∉ e.freeVariables := by
  rw [isIndependentOf_iff_not_mem, mem_freeVariables]

section

variable [NatCast ν] {K : Type} [Field K] [Elementary K] {read : ν → K} {e d : Expr ν}

/-- The zero that the rules write has the value zero under every reading of the numbers. -/
theorem value_map_ofNat_zero (hread : read zero = 0) (env : String → K) :
    ((ofNat 0 : Expr ν).map read).value env = 0 :=
  hread

/-- The derivative with respect to a variable that does not occur is zero. -/
theorem DifferentiatesTo.value_eq_zero (hread : read zero = 0) (h : DifferentiatesTo name e d)
    (hname : name ∉ e.occurrences) (env : String → K) : (d.map read).value env = 0 := by
  induction h with
  | number x => exact value_map_ofNat_zero hread env
  | constant c => exact value_map_ofNat_zero hread env
  | symbol own =>
    have hown : own ≠ name := by
      rintro rfl
      exact hname (List.mem_singleton_self own)
    rw [if_neg hown]
    exact value_map_ofNat_zero hread env
  | neg hf ih => simp only [Expr.map, value, ih hname, neg_zero]
  | add hf hg ihf ihg =>
    obtain ⟨hnamef, hnameg⟩ := not_or.mp (mt List.mem_append.mpr hname)
    simp only [Expr.map, value, Operator.apply, ihf hnamef, ihg hnameg, add_zero]
  | sub hf hg ihf ihg =>
    obtain ⟨hnamef, hnameg⟩ := not_or.mp (mt List.mem_append.mpr hname)
    simp only [Expr.map, value, Operator.apply, ihf hnamef, ihg hnameg, sub_zero]
  | mul hf hg ihf ihg =>
    obtain ⟨hnamef, hnameg⟩ := not_or.mp (mt List.mem_append.mpr hname)
    simp only [productRule, Expr.map, value, Operator.apply, ihf hnamef, ihg hnameg, zero_mul,
      mul_zero, add_zero]
  | div hf hg ihf ihg =>
    obtain ⟨hnamef, hnameg⟩ := not_or.mp (mt List.mem_append.mpr hname)
    simp only [quotientRule, Expr.map, value, Operator.apply, ihf hnamef, ihg hnameg, zero_mul,
      mul_zero, sub_zero, zero_div]
  | power hindependent hf ih =>
    obtain ⟨hnamef, -⟩ := not_or.mp (mt List.mem_append.mpr hname)
    simp only [powerRule, Expr.map, value, Operator.apply, ih hnamef, mul_zero]
  | exponential hdependent hindependent hg ih =>
    obtain ⟨-, hnameg⟩ := not_or.mp (mt List.mem_append.mpr hname)
    simp only [exponentialRule, Expr.map, value, Operator.apply, ih hnameg, mul_zero]
  | generalPower hdependent hdependent' hf hg ihf ihg =>
    obtain ⟨hnamef, hnameg⟩ := not_or.mp (mt List.mem_append.mpr hname)
    simp only [generalPowerRule, Expr.map, value, Operator.apply, ihf hnamef, ihg hnameg, zero_mul,
      add_zero, mul_zero]
  | call houter hf ih => simp only [Expr.map, value, Operator.apply, ih hname, mul_zero]

end

/-- The test for occurrences is sound.  It holds of a variable exactly if the variable is not among
those of the expression.  Where it holds, environments that agree on all other variables give one
value, whichever way the expression is evaluated and whether the arguments are given in a row or by
name; and the derivative with respect to the variable, if there is one, is zero everywhere, in every
field and for every meaning of the constants, the functions and the power. -/
theorem independence_is_sound {α : Type} [Elementary α] [Arithmetic α] (e : Expr α)
    (name : String) :
    (e.isIndependentOf name = true ↔ name ∉ e.freeVariables) ∧
    (e.isIndependentOf name = true →
      (∀ env env' : String → α, SameBut name env env' → ∃ x, ∀ evaluator f,
        Formula.build evaluator e = .ok f →
          f.evaluate (f.parameters.map env) = .ok x ∧
          f.evaluate (f.parameters.map env') = .ok x ∧
          ∀ b, f.IsGiven b env ∨ f.IsGiven b env' → f.evaluateNamed b = .ok x) ∧
      ∀ d, e.derivative name = .ok d →
        ∀ (K : Type) [Field K] [Elementary K] (read : α → K), read zero = 0 →
          ∀ env : String → K, (d.map read).value env = 0) := by
  refine ⟨isIndependentOf_iff, fun h =>
    ⟨fun env env' henv => ?_, fun d hd K _ _ read hread env => ?_⟩⟩
  · have hvalue := value_eq_of_isIndependentOf h henv
    refine ⟨e.value env, fun evaluator f hf => ?_⟩
    have hfunction := Formula.isFunctionOf_of_build hf
    refine ⟨hfunction.evaluate_map env, ?_, ?_⟩
    · rw [hvalue]
      exact hfunction.evaluate_map env'
    · rintro b (⟨hfits, hget⟩ | ⟨hfits, hget⟩)
      · exact hfunction.evaluateNamed_eq b env hfits hget
      · rw [hvalue]
        exact hfunction.evaluateNamed_eq b env' hfits hget
  · have hname := isIndependentOf_iff_not_mem.mp h
    exact (differentiatesTo_of_derivative hd).value_eq_zero hread hname env

/-- The quotient `y ^ 2 / y` and the variable `x`, with the derivative taken where the divisor is
zero. -/
theorem independence_is_sound_at_zero :
    let e : Expr Float := .binary .div (.binary .pow (.symbol "y") (.number 2)) (.symbol "y")
    e.isIndependentOf "x" = true ∧
      (∃ f g x, Formula.build .interpreted e = .ok f ∧ Formula.build .compiled e = .ok g ∧
        f.evaluate [3] = .ok x ∧ g.evaluate [3] = .ok x) ∧
      ∃ d, e.derivative "x" = .ok d ∧ (d.map exactValue).value (fun _ => 0) = 0 := by
  intro e
  have hindependent : e.isIndependentOf "x" = true := by decide
  obtain ⟨hvalue, hderivative⟩ := (independence_is_sound e "x").2 hindependent
  refine ⟨hindependent, ?_, _, rfl, hderivative _ rfl ℝ exactValue ?_ _⟩
  · obtain ⟨x, hx⟩ := hvalue (fun own => if own = "x" then 1 else 3) (fun _ => 3)
      fun other hother => if_neg hother
    exact ⟨_, _, x, rfl, rfl, (hx .interpreted _ rfl).1, (hx .compiled _ rfl).2.1⟩
  · rw [exactValue_zero, Nat.cast_zero]

end Expr

end Fluxion
