import Fluxion.Expr.Derivative
import Fluxion.Proofs.Expr.Variables

/-!
# The rules of differentiation

The derivative of an expression follows the rules that the expression's own shape selects, one
for each constructor and three for the power (`Expr.DifferentiatesTo`); whatever is proved about
derivatives is proved by induction on this relation.  Two of the rules for the power copy an operand
without differentiating it.  An expression has a derivative if the part of it that is differentiated
passes its check (`Expr.exists_differentiatesTo_of_part`), hence if it passes its check itself
(`Expr.exists_differentiatesTo`).

Reading the literals of an expression as other numbers is compatible with the rules, if the
literals that the rules themselves write are read as the same whole numbers
(`Expr.DifferentiatesTo.map`).
-/

set_option autoImplicit false

namespace Fluxion

/-- A function of the table is found under its name. -/
theorem Builtin.ofName?_name (f : Builtin) : Builtin.ofName? f.name = some f := by
  cases f <;> decide

namespace Expr

variable {ν μ : Type}

/-- Reading the numbers of a tree differently leaves its variables. -/
theorem occurrences_map (read : ν → μ) (e : Expr ν) :
    (e.map read).occurrences = e.occurrences := by
  induction e with
  | number x => rfl
  | constant c => rfl
  | symbol name => rfl
  | neg inner ih => exact ih
  | binary op left right ihleft ihright => rw [map, occurrences, occurrences, ihleft, ihright]
  | call f argument ih => exact ih
  | marker inner ih => exact ih
  | assign target value ihtarget ihvalue =>
    rw [map, occurrences, occurrences, ihtarget, ihvalue]

/-- Reading the numbers of a tree differently does not change whether a name occurs in it. -/
theorem mentions_map (read : ν → μ) (e : Expr ν) (name : String) :
    (e.map read).mentions name = e.mentions name := by
  rw [Bool.eq_iff_iff, mentions_eq_true_iff, mentions_eq_true_iff, occurrences_map]

/-- Reading the numbers of a tree differently leaves the dependence test. -/
theorem isIndependentOf_map (read : ν → μ) (e : Expr ν) (name : String) :
    (e.map read).isIndependentOf name = e.isIndependentOf name := by
  rw [isIndependentOf, mentions_map]
  rfl

/-- The test for independence is about the occurrences of the variable. -/
theorem isIndependentOf_iff_not_mem {e : Expr ν} {name : String} :
    e.isIndependentOf name = true ↔ name ∉ e.occurrences := by
  rw [isIndependentOf, Bool.not_eq_true', ← Bool.not_eq_true, mentions_eq_true_iff]

/-- The value of an expression does not depend on a variable that does not occur in it. -/
theorem value_eq_of_isIndependentOf [Elementary ν] [Arithmetic ν] {e : Expr ν} {name : String}
    {env env' : String → ν} (h : e.isIndependentOf name = true)
    (henv : ∀ other, other ≠ name → env other = env' other) : e.value env = e.value env' := by
  refine value_congr fun other hother => henv other ?_
  rintro rfl
  exact isIndependentOf_iff_not_mem.mp h (reads_subset_occurrences e hother)

/-- Whether an expression passes its check does not depend on its numbers. -/
theorem check_of_map {read : ν → μ} {e : Expr ν} (h : (e.map read).check = .ok ()) :
    e.check = .ok () := by
  induction e with
  | number x => rfl
  | constant c => rfl
  | symbol name => rfl
  | neg inner ih => exact ih h
  | binary op left right ihleft ihright =>
    obtain ⟨hleft, hright⟩ := check_binary.mp h
    exact check_binary.mpr ⟨ihleft hleft, ihright hright⟩
  | call f argument ih =>
    obtain ⟨hf, hargument⟩ := check_call.mp h
    exact check_call.mpr ⟨hf, ih hargument⟩
  | marker inner ih => cases h
  | assign target value ihtarget ihvalue => cases h

variable [NatCast ν] [NatCast μ]

/-- An expression and its derivative with respect to a variable. -/
inductive DifferentiatesTo (name : String) : Expr ν → Expr ν → Prop where
  | number (x : ν) : DifferentiatesTo name (.number x) (ofNat 0)
  | constant (c : Constant) : DifferentiatesTo name (.constant c) (ofNat 0)
  | symbol (own : String) :
    DifferentiatesTo name (.symbol own) (ofNat (if own = name then 1 else 0))
  | neg {f f' : Expr ν} (hf : DifferentiatesTo name f f') : DifferentiatesTo name (.neg f) (.neg f')
  | add {f f' g g' : Expr ν} (hf : DifferentiatesTo name f f') (hg : DifferentiatesTo name g g') :
    DifferentiatesTo name (.binary .add f g) (.binary .add f' g')
  | sub {f f' g g' : Expr ν} (hf : DifferentiatesTo name f f') (hg : DifferentiatesTo name g g') :
    DifferentiatesTo name (.binary .sub f g) (.binary .sub f' g')
  | mul {f f' g g' : Expr ν} (hf : DifferentiatesTo name f f') (hg : DifferentiatesTo name g g') :
    DifferentiatesTo name (.binary .mul f g) (productRule f f' g g')
  | div {f f' g g' : Expr ν} (hf : DifferentiatesTo name f f') (hg : DifferentiatesTo name g g') :
    DifferentiatesTo name (.binary .div f g) (quotientRule f f' g g')
  | power {f f' g : Expr ν} (hindependent : g.isIndependentOf name = true)
    (hf : DifferentiatesTo name f f') : DifferentiatesTo name (.binary .pow f g) (powerRule f f' g)
  | exponential {f g g' : Expr ν} (hdependent : g.isIndependentOf name = false)
    (hindependent : f.isIndependentOf name = true) (hg : DifferentiatesTo name g g') :
    DifferentiatesTo name (.binary .pow f g) (exponentialRule f g g')
  | generalPower {f f' g g' : Expr ν} (hdependent : g.isIndependentOf name = false)
    (hdependent' : f.isIndependentOf name = false) (hf : DifferentiatesTo name f f')
    (hg : DifferentiatesTo name g g') :
    DifferentiatesTo name (.binary .pow f g) (generalPowerRule f f' g g')
  | call {called : String} {outer : Builtin} {f f' : Expr ν}
    (houter : Builtin.ofName? called = some outer) (hf : DifferentiatesTo name f f') :
    DifferentiatesTo name (.call called f) (.binary .mul (outerDerivative outer f) f')

variable {name : String} {e d : Expr ν}

/-- What the recursion gives is derived by the rules. -/
theorem differentiatesTo_of_derivative (h : e.derivative name = .ok d) :
    DifferentiatesTo name e d := by
  induction e generalizing d with
  | number x =>
    cases h
    exact .number x
  | constant c =>
    cases h
    exact .constant c
  | symbol own =>
    cases h
    exact .symbol own
  | neg inner ih =>
    obtain ⟨f', hf, rfl⟩ := return_eq_ok_iff.mp h
    exact .neg (ih hf)
  | binary op f g ihf ihg =>
    cases op with
    | add =>
      obtain ⟨f', g', hf, hg, rfl⟩ := return₂_eq_ok_iff.mp h
      exact .add (ihf hf) (ihg hg)
    | sub =>
      obtain ⟨f', g', hf, hg, rfl⟩ := return₂_eq_ok_iff.mp h
      exact .sub (ihf hf) (ihg hg)
    | mul =>
      obtain ⟨f', g', hf, hg, rfl⟩ := return₂_eq_ok_iff.mp h
      exact .mul (ihf hf) (ihg hg)
    | div =>
      obtain ⟨f', g', hf, hg, rfl⟩ := return₂_eq_ok_iff.mp h
      exact .div (ihf hf) (ihg hg)
    | pow =>
      unfold derivative at h
      split at h
      · rename_i hindependent
        obtain ⟨f', hf, rfl⟩ := return_eq_ok_iff.mp h
        exact .power hindependent (ihf hf)
      · rename_i hdependent
        rw [Bool.not_eq_true] at hdependent
        split at h
        · rename_i hindependent
          obtain ⟨g', hg, rfl⟩ := return_eq_ok_iff.mp h
          exact .exponential hdependent hindependent (ihg hg)
        · rename_i hdependent'
          rw [Bool.not_eq_true] at hdependent'
          obtain ⟨f', g', hf, hg, rfl⟩ := return₂_eq_ok_iff.mp h
          exact .generalPower hdependent hdependent' (ihf hf) (ihg hg)
  | call called f ih =>
    unfold derivative at h
    split at h
    · cases h
    · rename_i outer houter
      obtain ⟨f', hf, rfl⟩ := return_eq_ok_iff.mp h
      exact .call houter (ih hf)
  | marker inner ih => cases h
  | assign target value ihtarget ihvalue => cases h

/-- What the rules derive is given by the recursion. -/
theorem DifferentiatesTo.derivative_eq (h : DifferentiatesTo name e d) :
    e.derivative name = .ok d := by
  induction h with
  | number x => rfl
  | constant c => rfl
  | symbol own => rfl
  | neg hf ih => exact return_eq_ok_iff.mpr ⟨_, ih, rfl⟩
  | add hf hg ihf ihg => exact return₂_eq_ok_iff.mpr ⟨_, _, ihf, ihg, rfl⟩
  | sub hf hg ihf ihg => exact return₂_eq_ok_iff.mpr ⟨_, _, ihf, ihg, rfl⟩
  | mul hf hg ihf ihg => exact return₂_eq_ok_iff.mpr ⟨_, _, ihf, ihg, rfl⟩
  | div hf hg ihf ihg => exact return₂_eq_ok_iff.mpr ⟨_, _, ihf, ihg, rfl⟩
  | power hindependent hf ih =>
    rw [derivative, if_pos hindependent]
    exact return_eq_ok_iff.mpr ⟨_, ih, rfl⟩
  | exponential hdependent hindependent hg ih =>
    rw [derivative, if_neg (by simp [hdependent]), if_pos hindependent]
    exact return_eq_ok_iff.mpr ⟨_, ih, rfl⟩
  | generalPower hdependent hdependent' hf hg ihf ihg =>
    rw [derivative, if_neg (by simp [hdependent]), if_neg (by simp [hdependent'])]
    exact return₂_eq_ok_iff.mpr ⟨_, _, ihf, ihg, rfl⟩
  | call houter hf ih =>
    simp only [derivative, houter]
    exact return_eq_ok_iff.mpr ⟨_, ih, rfl⟩

/-- The derivative is what the rules give. -/
theorem derivative_eq_ok_iff : e.derivative name = .ok d ↔ DifferentiatesTo name e d :=
  ⟨differentiatesTo_of_derivative, DifferentiatesTo.derivative_eq⟩

/-- The part of an expression that is differentiated.  Where the rule for a power copies an operand
without differentiating it, a zero stands for the operand. -/
def differentiatedPart (name : String) : Expr ν → Expr ν
  | .number x => .number x
  | .constant c => .constant c
  | .symbol own => .symbol own
  | .neg inner => .neg (inner.differentiatedPart name)
  | .binary .pow f g =>
    if g.isIndependentOf name then .binary .pow (f.differentiatedPart name) (ofNat 0)
    else if f.isIndependentOf name then .binary .pow (ofNat 0) (g.differentiatedPart name)
    else .binary .pow (f.differentiatedPart name) (g.differentiatedPart name)
  | .binary op f g => .binary op (f.differentiatedPart name) (g.differentiatedPart name)
  | .call f argument => .call f (argument.differentiatedPart name)
  | .marker inner => .marker inner
  | .assign target value => .assign target value

/-- An expression has a derivative if the part of it that is differentiated passes its check. -/
theorem exists_differentiatesTo_of_part (h : (e.differentiatedPart name).check = .ok ()) :
    ∃ d, DifferentiatesTo name e d := by
  induction e with
  | number x => exact ⟨_, .number x⟩
  | constant c => exact ⟨_, .constant c⟩
  | symbol own => exact ⟨_, .symbol own⟩
  | neg inner ih =>
    obtain ⟨f', hf⟩ := ih h
    exact ⟨_, .neg hf⟩
  | binary op f g ihf ihg =>
    cases op with
    | add =>
      obtain ⟨⟨f', hf⟩, g', hg⟩ := And.imp ihf ihg (check_binary.mp h)
      exact ⟨_, .add hf hg⟩
    | sub =>
      obtain ⟨⟨f', hf⟩, g', hg⟩ := And.imp ihf ihg (check_binary.mp h)
      exact ⟨_, .sub hf hg⟩
    | mul =>
      obtain ⟨⟨f', hf⟩, g', hg⟩ := And.imp ihf ihg (check_binary.mp h)
      exact ⟨_, .mul hf hg⟩
    | div =>
      obtain ⟨⟨f', hf⟩, g', hg⟩ := And.imp ihf ihg (check_binary.mp h)
      exact ⟨_, .div hf hg⟩
    | pow =>
      rw [differentiatedPart] at h
      cases hexponent : g.isIndependentOf name with
      | true =>
        rw [if_pos hexponent, check_binary] at h
        obtain ⟨f', hf⟩ := ihf h.1
        exact ⟨_, .power hexponent hf⟩
      | false =>
        rw [if_neg (by simp [hexponent])] at h
        cases hbase : f.isIndependentOf name with
        | true =>
          rw [if_pos hbase, check_binary] at h
          obtain ⟨g', hg⟩ := ihg h.2
          exact ⟨_, .exponential hexponent hbase hg⟩
        | false =>
          rw [if_neg (by simp [hbase]), check_binary] at h
          obtain ⟨f', hf⟩ := ihf h.1
          obtain ⟨g', hg⟩ := ihg h.2
          exact ⟨_, .generalPower hexponent hbase hf hg⟩
  | call called f ih =>
    obtain ⟨⟨outer, houter⟩, hargument⟩ := check_call.mp h
    obtain ⟨f', hf⟩ := ih hargument
    exact ⟨_, .call houter hf⟩
  | marker inner ih => cases h
  | assign target value ihtarget ihvalue => cases h

/-- What is differentiated of an expression that passes its check passes its own. -/
theorem check_differentiatedPart (name : String) (h : e.check = .ok ()) :
    (e.differentiatedPart name).check = .ok () := by
  induction e with
  | number x => rfl
  | constant c => rfl
  | symbol own => rfl
  | neg inner ih => exact ih h
  | binary op f g ihf ihg =>
    obtain ⟨hf, hg⟩ := check_binary.mp h
    cases op with
    | pow =>
      rw [differentiatedPart]
      split
      · exact check_binary.mpr ⟨ihf hf, rfl⟩
      · split
        · exact check_binary.mpr ⟨rfl, ihg hg⟩
        · exact check_binary.mpr ⟨ihf hf, ihg hg⟩
    | add | sub | mul | div => exact check_binary.mpr ⟨ihf hf, ihg hg⟩
  | call called f ih =>
    obtain ⟨hcalled, hf⟩ := check_call.mp h
    exact check_call.mpr ⟨hcalled, ih hf⟩
  | marker inner ih => cases h
  | assign target value ihtarget ihvalue => cases h

/-- An expression that passes its check has a derivative. -/
theorem exists_differentiatesTo (name : String) (h : e.check = .ok ()) :
    ∃ d, DifferentiatesTo name e d :=
  exists_differentiatesTo_of_part (check_differentiatedPart name h)

/-- The whole numbers that the rules write as literals. -/
def ruleLiterals : List Nat := [0, 1, 2, 10]

/-- A reading of literals that takes the literals of the rules for the same whole numbers. -/
def KeepsRuleLiterals (read : ν → μ) : Prop :=
  ∀ n ∈ ruleLiterals, read (n : ν) = (n : μ)

/-- A literal of the rules is read as the same literal. -/
theorem KeepsRuleLiterals.map_ofNat {read : ν → μ} (h : KeepsRuleLiterals read) {n : Nat}
    (hn : n ∈ ruleLiterals) : (ofNat n : Expr ν).map read = ofNat n :=
  congrArg Expr.number (h n hn)

/-- The derivative of a function of the table is read as the same expression in its argument. -/
theorem KeepsRuleLiterals.map_outerDerivative {read : ν → μ} (h : KeepsRuleLiterals read)
    (f : Builtin) (u : Expr ν) :
    (outerDerivative f u).map read = outerDerivative f (u.map read) := by
  have hone : (ofNat 1 : Expr ν).map read = ofNat 1 := h.map_ofNat (by decide)
  have htwo : (ofNat 2 : Expr ν).map read = ofNat 2 := h.map_ofNat (by decide)
  have hten : (ofNat 10 : Expr ν).map read = ofNat 10 := h.map_ofNat (by decide)
  cases f <;> simp [outerDerivative, Expr.map, apply, hone, htwo, hten]

/-- Reading the literals of an expression as other numbers, its derivative is the derivative of
the expression that was read. -/
theorem DifferentiatesTo.map {read : ν → μ} (hread : KeepsRuleLiterals read)
    (h : DifferentiatesTo name e d) : DifferentiatesTo name (e.map read) (d.map read) := by
  have hzero : (ofNat 0 : Expr ν).map read = ofNat 0 := hread.map_ofNat (by decide)
  have hone : (ofNat 1 : Expr ν).map read = ofNat 1 := hread.map_ofNat (by decide)
  have htwo : (ofNat 2 : Expr ν).map read = ofNat 2 := hread.map_ofNat (by decide)
  induction h with
  | number x =>
    rw [hzero]
    exact .number (read x)
  | constant c =>
    rw [hzero]
    exact .constant c
  | symbol own =>
    have hliteral : (ofNat (if own = name then 1 else 0) : Expr ν).map read =
        ofNat (if own = name then 1 else 0) := by
      split
      · exact hone
      · exact hzero
    rw [hliteral]
    exact .symbol own
  | neg hf ih => exact .neg ih
  | add hf hg ihf ihg => exact .add ihf ihg
  | sub hf hg ihf ihg => exact .sub ihf ihg
  | mul hf hg ihf ihg => exact .mul ihf ihg
  | div hf hg ihf ihg =>
    simp only [quotientRule, Expr.map, htwo]
    exact .div ihf ihg
  | @power f f' g hindependent hf ih =>
    simp only [powerRule, Expr.map, hone]
    exact .power ((isIndependentOf_map read g name).trans hindependent) ih
  | @exponential f g g' hdependent hindependent hg ih =>
    exact .exponential ((isIndependentOf_map read g name).trans hdependent)
      ((isIndependentOf_map read f name).trans hindependent) ih
  | @generalPower f f' g g' hdependent hdependent' hf hg ihf ihg =>
    exact .generalPower ((isIndependentOf_map read g name).trans hdependent)
      ((isIndependentOf_map read f name).trans hdependent') ihf ihg
  | @call called outer f f' houter hf ih =>
    rw [Expr.map, hread.map_outerDerivative]
    exact .call houter ih

end Expr

end Fluxion
