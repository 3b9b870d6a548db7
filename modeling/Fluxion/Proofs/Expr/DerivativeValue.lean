import Fluxion.Proofs.Expr.Differentiation
import Fluxion.Proofs.Expr.RealValue
import Mathlib

/-!
# Derivatives are derivatives

At every point at which an expression is regular, the exact value of its symbolic derivative is
the derivative of its exact value (`Expr.hasDerivAt_exact`).  The proof goes by induction on the
rules.  Which of the three rules for a power applies is decided by a test for occurrences, and
the test is sound because the value of an expression does not depend on a variable that does not
occur in it (`Expr.value_update`).
-/

set_option autoImplicit false

namespace Fluxion

open Function (update)

namespace Expr

variable {env : String → ℝ} {name : String}

/-- A literal that the rules write has its value. -/
theorem value_ofNat (n : ℕ) : (ofNat n : Expr ℝ).value env = n := rfl

/-- The value of a call of a function of the table is that of the function. -/
theorem value_apply (f : Builtin) (u : Expr ℝ) :
    (apply f u).value env = f.apply (u.value env) := by
  simp only [apply, value, callValue, Builtin.ofName?_name]

/-- A square is a power with the literal two. -/
theorem value_square (u : Expr ℝ) :
    (Expr.binary .pow u (ofNat 2)).value env = u.value env ^ 2 :=
  Real.rpow_natCast (u.value env) 2

/-- Moving a variable that does not occur in an expression leaves its value. -/
theorem value_update {e : Expr ℝ} (h : e.isIndependentOf name = true) (x : ℝ) :
    e.value (update env name x) = e.value env :=
  value_eq_of_isIndependentOf h fun _ hother => Function.update_of_ne hother x env

end Expr

/-- The table has the derivative of each function, taken inside the domain of the function. -/
theorem Builtin.hasDerivAt_apply (f : Builtin) {env : String → ℝ} {u : Expr ℝ}
    (h : f.Admits (u.value env)) :
    HasDerivAt f.apply ((Expr.outerDerivative f u).value env) (u.value env) := by
  cases f with
  | sin =>
    refine (Real.hasDerivAt_sin (u.value env)).congr_deriv ?_
    rw [Expr.outerDerivative, Expr.value_apply]
    rfl
  | cos =>
    refine (Real.hasDerivAt_cos (u.value env)).congr_deriv ?_
    rw [Expr.outerDerivative, Expr.value, Expr.value_apply]
    rfl
  | tan =>
    refine (Real.hasDerivAt_tan h).congr_deriv ?_
    rw [Expr.outerDerivative, Expr.value, Expr.value_square, Expr.value_apply]
    norm_num [Operator.apply, Builtin.apply, Elementary.cos, Expr.value_ofNat]
  | cot =>
    have hfun : (Builtin.cot.apply : ℝ → ℝ) = fun x => Real.cos x / Real.sin x := by
      funext x
      show ((1 : ℕ) : ℝ) / Real.tan x = _
      rw [Nat.cast_one, Real.tan_eq_sin_div_cos, one_div_div]
    have hquotient := (Real.hasDerivAt_cos (u.value env)).div (Real.hasDerivAt_sin (u.value env)) h
    have hpythagoras := Real.sin_sq_add_cos_sq (u.value env)
    rw [hfun]
    refine hquotient.congr_deriv ?_
    rw [Expr.outerDerivative, Expr.value, Expr.value, Expr.value_square, Expr.value_apply]
    show _ = -(((1 : ℕ) : ℝ) / Real.sin (u.value env) ^ 2)
    rw [Nat.cast_one, ← neg_div, ← hpythagoras]
    congr 1
    ring
  | exp =>
    refine (Real.hasDerivAt_exp (u.value env)).congr_deriv ?_
    rw [Expr.outerDerivative, Expr.value_apply]
    rfl
  | ln =>
    refine (Real.hasDerivAt_log h.ne').congr_deriv ?_
    show _ = ((1 : ℕ) : ℝ) / u.value env
    rw [Nat.cast_one, one_div]
  | log =>
    have hquotient := (Real.hasDerivAt_log h.ne').div_const (Real.log 10)
    refine hquotient.congr_deriv ?_
    rw [Expr.outerDerivative, Expr.value, Expr.value, Expr.value_apply]
    show _ = ((1 : ℕ) : ℝ) / (u.value env * Real.log ((10 : ℕ) : ℝ))
    rw [Nat.cast_one, Nat.cast_ofNat, inv_eq_one_div, div_div]

namespace Expr

variable {env : String → ℝ} {name : String}

/-- A variable has the derivative one with respect to itself and zero with respect to the others. -/
theorem hasDerivAt_symbol (own : String) :
    HasDerivAt (fun x => (Expr.symbol own).value (update env name x))
      ((if own = name then 1 else 0 : ℕ) : ℝ) (env name) := by
  by_cases h : own = name
  · subst h
    have hid : (fun x => (Expr.symbol own).value (update env own x)) = id := by
      funext x
      exact Function.update_self own x env
    rw [hid, if_pos rfl, Nat.cast_one]
    exact hasDerivAt_id (env own)
  · have hconst : (fun x => (Expr.symbol own).value (update env name x)) = fun _ => env own := by
      funext x
      exact Function.update_of_ne h x env
    rw [hconst, if_neg h, Nat.cast_zero]
    exact hasDerivAt_const (env name) (env own)

/-- At a point at which an expression is regular, the rules give its derivative. -/
theorem DifferentiatesTo.hasDerivAt {e d : Expr ℝ} (h : DifferentiatesTo name e d)
    (hregular : e.RegularAt env) :
    HasDerivAt (fun x => e.value (update env name x)) (d.value env) (env name) := by
  have hhere (f : Expr ℝ) : f.value (update env name (env name)) = f.value env := by
    rw [Function.update_eq_self]
  induction h with
  | number x => exact (hasDerivAt_const (env name) x).congr_deriv Nat.cast_zero.symm
  | constant c => exact (hasDerivAt_const (env name) c.value).congr_deriv Nat.cast_zero.symm
  | symbol own => exact hasDerivAt_symbol own
  | neg hf ih => exact (ih hregular).neg
  | add hf hg ihf ihg => exact (ihf hregular.1).add (ihg hregular.2.1)
  | sub hf hg ihf ihg => exact (ihf hregular.1).sub (ihg hregular.2.1)
  | @mul f f' g g' hf hg ihf ihg =>
    refine ((ihf hregular.1).mul (ihg hregular.2.1)).congr_deriv ?_
    rw [hhere f, hhere g]
    rfl
  | @div f f' g g' hf hg ihf ihg =>
    have hdivisor : g.value (update env name (env name)) ≠ 0 := by
      rw [hhere g]
      exact hregular.2.2
    refine ((ihf hregular.1).div (ihg hregular.2.1) hdivisor).congr_deriv ?_
    rw [hhere f, hhere g, quotientRule, value, value_square]
    rfl
  | @power f f' g hindependent hf ih =>
    -- the exponent stands still, so this is a power with a fixed exponent
    have hbase : 0 < f.value env := hregular.2.2
    have hfun : (fun x => (Expr.binary .pow f g).value (update env name x)) =
        fun x => f.value (update env name x) ^ g.value env := by
      funext x
      rw [value, value_update hindependent]
      rfl
    have hpower := (ih hregular.1).rpow_const (p := g.value env)
      (Or.inl (by rw [hhere f]; exact hbase.ne'))
    rw [hfun]
    refine hpower.congr_deriv ?_
    show _ = g.value env * f.value env ^ (g.value env - ((1 : ℕ) : ℝ)) * f'.value env
    rw [hhere f, Nat.cast_one]
    ring
  | @exponential f g g' hdependent hindependent hg ih =>
    -- the base stands still
    have hbase : 0 < f.value env := hregular.2.2
    have hfun : (fun x => (Expr.binary .pow f g).value (update env name x)) =
        fun x => f.value env ^ g.value (update env name x) := by
      funext x
      rw [value, value_update hindependent]
      rfl
    rw [hfun]
    refine ((ih hregular.2.1).const_rpow hbase).congr_deriv ?_
    show _ = f.value env ^ g.value env * Real.log (f.value env) * g'.value env
    rw [hhere g]
    ring
  | @generalPower f f' g g' hdependent hdependent' hf hg ihf ihg =>
    have hbase : 0 < f.value env := hregular.2.2
    have hpower := (ihf hregular.1).rpow (ihg hregular.2.1) (by rw [hhere f]; exact hbase)
    refine hpower.congr_deriv ?_
    show _ = f.value env ^ g.value env *
      (f'.value env * (g.value env / f.value env) + g'.value env * Real.log (f.value env))
    rw [hhere f, hhere g, Real.rpow_sub_one hbase.ne']
    field_simp
  | @call called outer f f' houter hf ih =>
    obtain ⟨hargument, other, hother, hadmits⟩ := hregular
    obtain rfl : outer = other := Option.some.inj (houter.symm.trans hother)
    have hfun : (fun x => (Expr.call called f).value (update env name x)) =
        outer.apply ∘ fun x => f.value (update env name x) := by
      funext x
      rw [value, callValue, houter]
      rfl
    have houterDeriv := outer.hasDerivAt_apply hadmits
    rw [← hhere f] at houterDeriv
    rw [hfun]
    exact HasDerivAt.comp (env name) houterDeriv (ih hargument)

/-- Reading binary64 literals exactly keeps the literals that the rules write. -/
theorem keepsRuleLiterals_exactValue : KeepsRuleLiterals exactValue := by
  intro n hn
  simp only [ruleLiterals, List.mem_cons, List.not_mem_nil, or_false] at hn
  obtain rfl | rfl | rfl | rfl := hn
  · exact exactValue_zero
  · exact exactValue_one
  · exact exactValue_two
  · exact exactValue_ten

/-- Symbolic differentiation computes the derivative.  At every point at which the exact reading
of an expression is regular, the derivative with respect to any variable exists as an expression,
and its exact value there is the derivative of the exact value. -/
theorem hasDerivAt_exact (e : Expr Float) (name : String) (env : String → ℝ)
    (h : e.exact.RegularAt env) :
    ∃ d, e.derivative name = .ok d ∧
      HasDerivAt (fun x => e.exact.value (update env name x)) (d.exact.value env) (env name) := by
  obtain ⟨d, hd⟩ := exists_differentiatesTo name (check_of_map h.check_eq)
  exact ⟨d, hd.derivative_eq, (hd.map keepsRuleLiterals_exactValue).hasDerivAt h⟩

/-- A quotient whose numerator needs the rule for both operands of a power. -/
def powerOverLogarithm : Expr Float :=
  .binary .div (.binary .pow (.symbol "x") (.symbol "x")) (.call "ln" (.symbol "x"))

/-- The quotient is regular at two, so its derivative there is what the rules give. -/
theorem hasDerivAt_powerOverLogarithm :
    ∃ d, powerOverLogarithm.derivative "x" = .ok d ∧
      HasDerivAt (fun x : ℝ => x ^ x / Real.log x) (d.exact.value fun _ => 2) 2 := by
  have hlog : Builtin.ofName? "ln" = some .ln := Builtin.ofName?_name .ln
  have hcall (env : String → ℝ) :
      (Expr.call "ln" (.symbol "x")).value env = Real.log (env "x") := by
    rw [value, callValue, hlog]
    rfl
  have hdomain : (Expr.call "ln" (.symbol "x")).RegularAt fun _ => 2 :=
    ⟨trivial, .ln, hlog, two_pos⟩
  have hdivisor : (Expr.call "ln" (.symbol "x")).value (fun _ => (2 : ℝ)) ≠ 0 := by
    rw [hcall]
    exact (Real.log_pos one_lt_two).ne'
  obtain ⟨d, hd, hderiv⟩ := hasDerivAt_exact powerOverLogarithm "x" (fun _ => 2)
    ⟨⟨trivial, trivial, two_pos⟩, hdomain, hdivisor⟩
  refine ⟨d, hd, ?_⟩
  have hfun : (fun x => powerOverLogarithm.exact.value (update (fun _ => 2) "x" x)) =
      fun x : ℝ => x ^ x / Real.log x := by
    funext x
    show Operator.div.apply _ ((Expr.call "ln" (.symbol "x")).value _) = _
    rw [hcall]
    rfl
  rwa [hfun] at hderiv

end Expr

end Fluxion
