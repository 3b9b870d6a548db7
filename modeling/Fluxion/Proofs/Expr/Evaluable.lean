import Fluxion.Proofs.Expr.Differentiation

/-!
# Evaluable and differentiable expressions

An expression that can be evaluated can be differentiated, and its derivative can be evaluated.
Not every expression that can be differentiated can be evaluated.
-/

set_option autoImplicit false

namespace Fluxion.Expr

/-! ## Evaluable expressions

An expression can be evaluated if it has no derivative marker, no assignment and no call of a
function outside the table (`Expr.IsEvaluable`).  These are the expressions that pass their check
(`Expr.check_eq_ok_iff`).

Differentiation does not lead out of them.  The rules build the derivative from the operands, the
operators and the functions of the table, and every property of trees that respects these ways of
putting trees together goes over to the derivative (`Expr.DifferentiatesTo.keeps`).  So the
derivative of an evaluable expression is evaluable (`Expr.DifferentiatesTo.check_eq`) and has no
variable that the expression does not have (`Expr.DifferentiatesTo.occurrences_subset`).
-/

section

variable {ν : Type}

/-- The functions that are called anywhere in an expression, by name. -/
def calls : Expr ν → List String
  | .number _ | .constant _ | .symbol _ => []
  | .call name argument => name :: argument.calls
  | .neg inner | .marker inner => inner.calls
  | .binary _ left right | .assign left right => left.calls ++ right.calls

/-- Whether there is an assignment anywhere in a tree. -/
def hasAssignment : Expr ν → Bool
  | .number _ | .constant _ | .symbol _ => false
  | .assign _ _ => true
  | .neg inner | .call _ inner | .marker inner => inner.hasAssignment
  | .binary _ left right => left.hasAssignment || right.hasAssignment

/-- Neither a marker nor an assignment occurs in the expression, and all of its functions are in
the table. -/
structure IsEvaluable (e : Expr ν) : Prop where
  no_marker : e.hasMarker = false
  no_assignment : e.hasAssignment = false
  known : ∀ name ∈ e.calls, ∃ f, Builtin.ofName? name = some f

/-- An operator can be evaluated if both of its operands can. -/
theorem isEvaluable_binary {op : Operator} {left right : Expr ν} :
    (Expr.binary op left right).IsEvaluable ↔ left.IsEvaluable ∧ right.IsEvaluable := by
  constructor
  · intro h
    obtain ⟨hmarker, hmarker'⟩ := Bool.or_eq_false_iff.mp h.no_marker
    obtain ⟨hassign, hassign'⟩ := Bool.or_eq_false_iff.mp h.no_assignment
    exact ⟨⟨hmarker, hassign, fun name hname => h.known name (List.mem_append_left _ hname)⟩,
      ⟨hmarker', hassign', fun name hname => h.known name (List.mem_append_right _ hname)⟩⟩
  · rintro ⟨hleft, hright⟩
    refine ⟨Bool.or_eq_false_iff.mpr ⟨hleft.no_marker, hright.no_marker⟩,
      Bool.or_eq_false_iff.mpr ⟨hleft.no_assignment, hright.no_assignment⟩, ?_⟩
    intro name hname
    obtain hname | hname := List.mem_append.mp hname
    · exact hleft.known name hname
    · exact hright.known name hname

/-- A call can be evaluated if its function is in the table and its argument can be evaluated. -/
theorem isEvaluable_call {name : String} {argument : Expr ν} :
    (Expr.call name argument).IsEvaluable ↔
      (∃ f, Builtin.ofName? name = some f) ∧ argument.IsEvaluable := by
  constructor
  · intro h
    exact ⟨h.known name List.mem_cons_self,
      h.no_marker, h.no_assignment,
      fun other hother => h.known other (List.mem_cons_of_mem _ hother)⟩
  · rintro ⟨hname, hargument⟩
    refine ⟨hargument.no_marker, hargument.no_assignment, ?_⟩
    intro other hother
    obtain rfl | hother := List.mem_cons.mp hother
    · exact hname
    · exact hargument.known other hother

/-- The check accepts the evaluable expressions and no others. -/
theorem check_eq_ok_iff {e : Expr ν} : e.check = .ok () ↔ e.IsEvaluable := by
  induction e with
  | number x => exact ⟨fun _ => ⟨rfl, rfl, by simp [calls]⟩, fun _ => rfl⟩
  | constant c => exact ⟨fun _ => ⟨rfl, rfl, by simp [calls]⟩, fun _ => rfl⟩
  | symbol name => exact ⟨fun _ => ⟨rfl, rfl, by simp [calls]⟩, fun _ => rfl⟩
  | neg inner ih =>
    constructor
    · intro h
      obtain ⟨hmarker, hassign, hknown⟩ := ih.mp h
      exact ⟨hmarker, hassign, hknown⟩
    · intro h
      exact ih.mpr ⟨h.no_marker, h.no_assignment, h.known⟩
  | binary op left right ihleft ihright => rw [check_binary, ihleft, ihright, isEvaluable_binary]
  | call name argument ih => rw [check_call, ih, isEvaluable_call]
  | marker inner ih =>
    constructor
    · intro h
      cases h
    · intro h
      cases h.no_marker
  | assign target value ihtarget ihvalue =>
    constructor
    · intro h
      cases h
    · intro h
      cases h.no_assignment

/-- A call of a function of the table passes its check if its argument does. -/
theorem check_apply {f : Builtin} {u : Expr ν} :
    (apply f u).check = .ok () ↔ u.check = .ok () := by
  rw [apply, check_call]
  exact and_iff_right ⟨f, f.ofName?_name⟩

section Literals

variable [NatCast ν]

variable {name : String} {e d : Expr ν}

/-- A property that a tree has if and only if its parts have it, as far as the rules of
differentiation put trees together. -/
structure IsCompositional (P : Expr ν → Prop) : Prop where
  ofNat : ∀ n ∈ ruleLiterals, P (ofNat n)
  neg_iff : ∀ u, P (.neg u) ↔ P u
  binary_iff : ∀ op u v, P (.binary op u v) ↔ P u ∧ P v
  apply_iff : ∀ f u, P (apply f u) ↔ P u
  argument : ∀ f u, P (.call f u) → P u

/-- The derivative of a function of the table is put together from the argument. -/
theorem IsCompositional.outerDerivative {P : Expr ν → Prop} (hP : IsCompositional P) (f : Builtin)
    {u : Expr ν} (hu : P u) : P (outerDerivative f u) := by
  have hone : P (Expr.ofNat 1) := hP.ofNat 1 (by decide)
  have htwo : P (Expr.ofNat 2) := hP.ofNat 2 (by decide)
  have hten : P (Expr.ofNat 10) := hP.ofNat 10 (by decide)
  cases f <;>
    simp [Expr.outerDerivative, hP.neg_iff, hP.binary_iff, hP.apply_iff, hu, hone, htwo, hten]

/-- A derivative has every compositional property that the expression has. -/
theorem DifferentiatesTo.keeps {P : Expr ν → Prop} (hP : IsCompositional P)
    (h : DifferentiatesTo name e d) (he : P e) : P d := by
  have hzero : P (ofNat 0) := hP.ofNat 0 (by decide)
  have hone : P (ofNat 1) := hP.ofNat 1 (by decide)
  have htwo : P (ofNat 2) := hP.ofNat 2 (by decide)
  induction h with
  | number x => exact hzero
  | constant c => exact hzero
  | symbol own =>
    split
    · exact hone
    · exact hzero
  | neg hf ih =>
    rw [hP.neg_iff] at he ⊢
    exact ih he
  | add hf hg ihf ihg =>
    rw [hP.binary_iff] at he ⊢
    exact ⟨ihf he.1, ihg he.2⟩
  | sub hf hg ihf ihg =>
    rw [hP.binary_iff] at he ⊢
    exact ⟨ihf he.1, ihg he.2⟩
  | mul hf hg ihf ihg =>
    rw [hP.binary_iff] at he
    simp [productRule, hP.binary_iff, he, ihf he.1, ihg he.2]
  | div hf hg ihf ihg =>
    rw [hP.binary_iff] at he
    simp [quotientRule, hP.binary_iff, he, ihf he.1, ihg he.2, htwo]
  | power hindependent hf ih =>
    rw [hP.binary_iff] at he
    simp [powerRule, hP.binary_iff, he, ih he.1, hone]
  | exponential hdependent hindependent hg ih =>
    rw [hP.binary_iff] at he
    simp [exponentialRule, hP.binary_iff, hP.apply_iff, he, ih he.2]
  | generalPower hdependent hdependent' hf hg ihf ihg =>
    rw [hP.binary_iff] at he
    simp [generalPowerRule, hP.binary_iff, hP.apply_iff, he, ihf he.1, ihg he.2]
  | call houter hf ih =>
    have hargument := hP.argument _ _ he
    rw [hP.binary_iff]
    exact ⟨hP.outerDerivative _ hargument, ih hargument⟩

/-- What is put together from expressions that pass their check passes it. -/
theorem isCompositional_check : IsCompositional fun e : Expr ν => e.check = .ok () where
  ofNat _ _ := rfl
  neg_iff _ := Iff.rfl
  binary_iff _ _ _ := check_binary
  apply_iff _ _ := check_apply
  argument _ _ h := (check_call.mp h).2

/-- The derivative of an evaluable expression is evaluable. -/
theorem DifferentiatesTo.check_eq (h : DifferentiatesTo name e d) (he : e.check = .ok ()) :
    d.check = .ok () :=
  h.keeps isCompositional_check he

/-- What is put together from expressions over some names is an expression over these names. -/
theorem isCompositional_occurrences (names : List String) :
    IsCompositional fun e : Expr ν => e.occurrences ⊆ names where
  ofNat _ _ := List.nil_subset _
  neg_iff _ := Iff.rfl
  binary_iff _ _ _ := List.append_subset
  apply_iff _ _ := Iff.rfl
  argument _ _ := id

/-- A derivative has no variable that the expression does not have. -/
theorem DifferentiatesTo.occurrences_subset (h : DifferentiatesTo name e d) :
    d.occurrences ⊆ e.occurrences :=
  h.keeps (isCompositional_occurrences e.occurrences) (List.Subset.refl _)

end Literals

end

/-! ## Which expressions have a derivative

A call of a function outside the table, a derivative marker and an assignment have no derivative,
and an expression that has none of them anywhere has one.  The converse is not true: the rule for a
power whose exponent does not depend on the variable copies the exponent as it stands, and the rule
for a power whose base does not depend on it copies the base, so what these operands consist of goes
unnoticed (`Expr.exists_derivative_unknownExponent`).

Nothing else goes unnoticed: an expression has a derivative exactly if the part of it that is
differentiated, without the operands that are copied, is evaluable (`Expr.derivative_succeeds_iff`).
-/

section

variable {ν : Type} [NatCast ν] {name : String} {e d : Expr ν}

/-- What is differentiated of an expression that has a derivative passes its check. -/
theorem DifferentiatesTo.check_part (h : DifferentiatesTo name e d) :
    (e.differentiatedPart name).check = .ok () := by
  induction h with
  | number x => rfl
  | constant c => rfl
  | symbol own => rfl
  | neg hf ih => exact ih
  | add hf hg ihf ihg => exact check_binary.mpr ⟨ihf, ihg⟩
  | sub hf hg ihf ihg => exact check_binary.mpr ⟨ihf, ihg⟩
  | mul hf hg ihf ihg => exact check_binary.mpr ⟨ihf, ihg⟩
  | div hf hg ihf ihg => exact check_binary.mpr ⟨ihf, ihg⟩
  | power hindependent hf ih =>
    rw [differentiatedPart, if_pos hindependent]
    exact check_binary.mpr ⟨ih, rfl⟩
  | exponential hdependent hindependent hg ih =>
    rw [differentiatedPart, if_neg (by simp [hdependent]), if_pos hindependent]
    exact check_binary.mpr ⟨rfl, ih⟩
  | generalPower hdependent hdependent' hf hg ihf ihg =>
    rw [differentiatedPart, if_neg (by simp [hdependent]), if_neg (by simp [hdependent'])]
    exact check_binary.mpr ⟨ihf, ihg⟩
  | call houter hf ih => exact check_call.mpr ⟨⟨_, houter⟩, ih⟩

/-- An expression has a derivative exactly if the part of it that is differentiated has no marker,
no assignment and no call of a function outside the table. -/
theorem derivative_succeeds_iff (name : String) (e : Expr ν) :
    (∃ d, e.derivative name = .ok d) ↔ (e.differentiatedPart name).IsEvaluable := by
  rw [← check_eq_ok_iff]
  constructor
  · rintro ⟨d, hd⟩
    exact (derivative_eq_ok_iff.mp hd).check_part
  · intro hcheck
    obtain ⟨d, hd⟩ := exists_differentiatesTo_of_part hcheck
    exact ⟨d, hd.derivative_eq⟩

/-- The power `x ^ foo(2)` has a derivative with respect to `x`, although there is no function
`foo`. -/
theorem exists_derivative_unknownExponent :
    let e : Expr Float := .binary .pow (.symbol "x") (.call "foo" (.number 2))
    (∃ d, e.derivative "x" = .ok d) ∧ ¬ e.IsEvaluable := by
  intro e
  refine ⟨⟨_, rfl⟩, fun h => ?_⟩
  obtain ⟨f, hf⟩ := h.known "foo" (by decide)
  have hnone : Builtin.ofName? "foo" = none := by decide
  rw [hnone] at hf
  cases hf

end

end Fluxion.Expr
