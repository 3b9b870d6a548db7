import Fluxion.Proofs.Formula.Backends

/-!
# Expansion of derivative markers

Expanding an expression keeps its shape and puts a derivative where a marker stands
(`Expr.ExpandsTo`).  What is put there is built from the expression below the marker, which has been
expanded itself, so the induction is on the expression and uses what is known of differentiation.

An expression without assignments whose functions are all in the table has an expansion, and the
expansion can be evaluated, so it can be differentiated again (`Expr.exists_expandsTo`).  Whatever
the functions are, no marker is left (`Expr.ExpandsTo.hasMarker_eq`), and no variable is new
(`Expr.ExpandsTo.occurrences_subset`).

Nothing but the markers changes.  A tree without markers is its own expansion
(`Expr.expandsTo_self`), so that a second expansion finds nothing to do.  Markers on a tree without
markers are taken one after the other, which makes them a repeated derivative
(`Expr.expandMarkers_underMarkers`), and a tree expands as if the expansions of its parts had stood
in it (`Expr.expandMarkers_substitute`).  `Expr.expandMarkers_removes_markers` is all of this
together.
-/

set_option autoImplicit false

namespace Fluxion.Expr

variable {ν : Type} [NatCast ν] {name : String} {e d : Expr ν}

/-- What is put together from expressions without markers has none. -/
theorem isCompositional_hasMarker : IsCompositional fun e : Expr ν => e.hasMarker = false where
  ofNat _ _ := rfl
  neg_iff _ := Iff.rfl
  binary_iff _ _ _ := Bool.or_eq_false_iff
  apply_iff _ _ := Iff.rfl
  argument _ _ := id

/-- An expression and what is left of it when all its markers have been expanded. -/
inductive ExpandsTo (name : String) : Expr ν → Expr ν → Prop where
  | number (x : ν) : ExpandsTo name (.number x) (.number x)
  | constant (c : Constant) : ExpandsTo name (.constant c) (.constant c)
  | symbol (own : String) : ExpandsTo name (.symbol own) (.symbol own)
  | neg {f f' : Expr ν} (hf : ExpandsTo name f f') : ExpandsTo name (.neg f) (.neg f')
  | binary (op : Operator) {f f' g g' : Expr ν} (hf : ExpandsTo name f f')
    (hg : ExpandsTo name g g') : ExpandsTo name (.binary op f g) (.binary op f' g')
  | call (called : String) {f f' : Expr ν} (hf : ExpandsTo name f f') :
    ExpandsTo name (.call called f) (.call called f')
  | marker {f f' d : Expr ν} (hf : ExpandsTo name f f') (hd : DifferentiatesTo name f' d) :
    ExpandsTo name (.marker f) d
  | assign (target : Expr ν) {f f' : Expr ν} (hf : ExpandsTo name f f') :
    ExpandsTo name (.assign target f) (.assign target f')

/-- What the recursion gives is an expansion by the rules. -/
theorem expandsTo_of_expandMarkers (h : e.expandMarkers name = .ok d) : ExpandsTo name e d := by
  induction e generalizing d with
  | number x =>
    cases h
    exact .number x
  | constant c =>
    cases h
    exact .constant c
  | symbol own =>
    cases h
    exact .symbol own
  | neg f ih =>
    obtain ⟨f', hf, rfl⟩ := return_eq_ok_iff.mp h
    exact .neg (ih hf)
  | binary op f g ihf ihg =>
    obtain ⟨f', g', hf, hg, rfl⟩ := return₂_eq_ok_iff.mp h
    exact .binary op (ihf hf) (ihg hg)
  | call called f ih =>
    obtain ⟨f', hf, rfl⟩ := return_eq_ok_iff.mp h
    exact .call called (ih hf)
  | marker f ih =>
    obtain ⟨f', hf, hd⟩ := bind_eq_ok_iff.mp h
    exact .marker (ih hf) (derivative_eq_ok_iff.mp hd)
  | assign target f _ ih =>
    obtain ⟨f', hf, rfl⟩ := return_eq_ok_iff.mp h
    exact .assign target (ih hf)

/-- An expansion by the rules is given by the recursion. -/
theorem ExpandsTo.expandMarkers_eq (h : ExpandsTo name e d) : e.expandMarkers name = .ok d := by
  induction h with
  | number x => rfl
  | constant c => rfl
  | symbol own => rfl
  | neg hf ih => exact return_eq_ok_iff.mpr ⟨_, ih, rfl⟩
  | binary op hf hg ihf ihg => exact return₂_eq_ok_iff.mpr ⟨_, _, ihf, ihg, rfl⟩
  | call called hf ih => exact return_eq_ok_iff.mpr ⟨_, ih, rfl⟩
  | marker hf hd ih => exact bind_eq_ok_iff.mpr ⟨_, ih, hd.derivative_eq⟩
  | assign target hf ih => exact return_eq_ok_iff.mpr ⟨_, ih, rfl⟩

/-- The recursion and the rules describe the same expansions. -/
theorem expandMarkers_eq_ok_iff : e.expandMarkers name = .ok d ↔ ExpandsTo name e d :=
  ⟨expandsTo_of_expandMarkers, ExpandsTo.expandMarkers_eq⟩

/-- An expression without assignments whose functions are in the table has an expansion, which can
be evaluated. -/
theorem exists_expandsTo (name : String) (hassign : e.hasAssignment = false)
    (hknown : ∀ called ∈ e.calls, ∃ f, Builtin.ofName? called = some f) :
    ∃ d, ExpandsTo name e d ∧ d.check = .ok () := by
  induction e with
  | number x => exact ⟨_, .number x, rfl⟩
  | constant c => exact ⟨_, .constant c, rfl⟩
  | symbol own => exact ⟨_, .symbol own, rfl⟩
  | neg f ih =>
    obtain ⟨f', hf, hcheck⟩ := ih hassign hknown
    exact ⟨_, .neg hf, hcheck⟩
  | binary op f g ihf ihg =>
    obtain ⟨hassignf, hassigng⟩ := Bool.or_eq_false_iff.mp hassign
    obtain ⟨f', hf, hcheckf⟩ := ihf hassignf fun called hcalled =>
      hknown called (List.mem_append_left _ hcalled)
    obtain ⟨g', hg, hcheckg⟩ := ihg hassigng fun called hcalled =>
      hknown called (List.mem_append_right _ hcalled)
    exact ⟨_, .binary op hf hg, check_binary.mpr ⟨hcheckf, hcheckg⟩⟩
  | call called f ih =>
    obtain ⟨f', hf, hcheck⟩ := ih hassign fun other hother =>
      hknown other (List.mem_cons_of_mem _ hother)
    exact ⟨_, .call called hf, check_call.mpr ⟨hknown called List.mem_cons_self, hcheck⟩⟩
  | marker f ih =>
    obtain ⟨f', hf, hcheck⟩ := ih hassign hknown
    obtain ⟨d, hd⟩ := exists_differentiatesTo name hcheck
    exact ⟨d, .marker hf hd, hd.check_eq hcheck⟩
  | assign target f _ _ => cases hassign

/-- No marker is left, unless in the target of an assignment. -/
theorem ExpandsTo.hasMarker_eq (h : ExpandsTo name e d) (hassign : e.hasAssignment = false) :
    d.hasMarker = false := by
  induction h with
  | number x => rfl
  | constant c => rfl
  | symbol own => rfl
  | neg hf ih => exact ih hassign
  | binary op hf hg ihf ihg =>
    obtain ⟨hassignf, hassigng⟩ := Bool.or_eq_false_iff.mp hassign
    exact Bool.or_eq_false_iff.mpr ⟨ihf hassignf, ihg hassigng⟩
  | call called hf ih => exact ih hassign
  | marker hf hd ih => exact hd.keeps isCompositional_hasMarker (ih hassign)
  | assign target hf ih => cases hassign

/-- Expansion brings in no names. -/
theorem ExpandsTo.occurrences_subset (h : ExpandsTo name e d) : d.occurrences ⊆ e.occurrences := by
  induction h with
  | number x => exact List.Subset.refl _
  | constant c => exact List.Subset.refl _
  | symbol own => exact List.Subset.refl _
  | neg hf ih => exact ih
  | binary op hf hg ihf ihg => simp only [occurrences]; grind
  | call called hf ih => exact ih
  | marker hf hd ih => exact List.Subset.trans hd.occurrences_subset ih
  | assign target hf ih => simp only [occurrences]; grind

/-- Expansion brings in no variables. -/
theorem ExpandsTo.freeVariables_subset (h : ExpandsTo name e d) :
    d.freeVariables ⊆ e.freeVariables := fun _ hname =>
  mem_freeVariables.mpr (h.occurrences_subset (mem_freeVariables.mp hname))

/-- A tree without markers is its own expansion. -/
theorem expandsTo_self (name : String) (h : e.hasMarker = false) : ExpandsTo name e e := by
  induction e with
  | number x => exact .number x
  | constant c => exact .constant c
  | symbol own => exact .symbol own
  | neg f ih => exact .neg (ih h)
  | binary op f g ihf ihg =>
    obtain ⟨hf, hg⟩ := Bool.or_eq_false_iff.mp h
    exact .binary op (ihf hf) (ihg hg)
  | call called f ih => exact .call called (ih h)
  | marker f _ => cases h
  | assign target f _ ih =>
    obtain ⟨-, hf⟩ := Bool.or_eq_false_iff.mp h
    exact .assign target (ih hf)

/-- The tree with other trees in the places of its variables.  The target of an assignment is left
as it is. -/
def substitute (part : String → Expr ν) : Expr ν → Expr ν
  | .number x => .number x
  | .constant c => .constant c
  | .symbol own => part own
  | .neg f => .neg (f.substitute part)
  | .binary op f g => .binary op (f.substitute part) (g.substitute part)
  | .call called f => .call called (f.substitute part)
  | .marker f => .marker (f.substitute part)
  | .assign target f => .assign target (f.substitute part)

/-- The expansion of a tree depends only on the expansions of the parts that stand in it. -/
theorem expandMarkers_substitute {part part' : String → Expr ν}
    (h : ∀ own ∈ e.occurrences, (part own).expandMarkers name = (part' own).expandMarkers name) :
    (e.substitute part).expandMarkers name = (e.substitute part').expandMarkers name := by
  induction e with
  | number x => rfl
  | constant c => rfl
  | symbol own => exact h own List.mem_cons_self
  | neg f ih => simp only [substitute, expandMarkers, ih h]
  | binary op f g ihf ihg =>
    have hf := ihf fun own hown => h own (List.mem_append_left _ hown)
    have hg := ihg fun own hown => h own (List.mem_append_right _ hown)
    simp only [substitute, expandMarkers, hf, hg]
  | call called f ih => simp only [substitute, expandMarkers, ih h]
  | marker f ih => simp only [substitute, expandMarkers, ih h]
  | assign target f _ ih =>
    have hf := ih fun own hown => h own (List.mem_append_right _ hown)
    simp only [substitute, expandMarkers, hf]

/-- An expression under a number of markers. -/
def underMarkers : Nat → Expr ν → Expr ν
  | 0, e => e
  | n + 1, e => .marker (underMarkers n e)

/-- The derivative of the derivative, and so on, with respect to one variable. -/
def iteratedDerivative (name : String) : Nat → Expr ν → Except (DerivationError ν) (Expr ν)
  | 0, e => .ok e
  | n + 1, e => do (← iteratedDerivative name n e).derivative name

/-- Markers on a tree without markers make a repeated derivative, also where there is none. -/
theorem expandMarkers_underMarkers (h : e.hasMarker = false) (n : Nat) :
    (e.underMarkers n).expandMarkers name = e.iteratedDerivative name n := by
  induction n with
  | zero => exact (expandsTo_self name h).expandMarkers_eq
  | succ n ih => simp only [underMarkers, expandMarkers, iteratedDerivative, ih]

/-- The derivatives of an expression without markers have none. -/
theorem hasMarker_of_iteratedDerivative (h : e.hasMarker = false) {n : Nat}
    (hd : e.iteratedDerivative name n = .ok d) : d.hasMarker = false := by
  induction n generalizing d with
  | zero =>
    cases hd
    exact h
  | succ n ih =>
    obtain ⟨d', hd', hd⟩ := bind_eq_ok_iff.mp hd
    exact (derivative_eq_ok_iff.mp hd).keeps isCompositional_hasMarker (ih hd')

/-- A tree without markers that stands under some expands like its repeated derivative. -/
theorem expandMarkers_underMarkers_eq (h : e.hasMarker = false) {n : Nat}
    (hd : e.iteratedDerivative name n = .ok d) :
    (e.underMarkers n).expandMarkers name = d.expandMarkers name := by
  rw [expandMarkers_underMarkers h, hd,
    (expandsTo_self name (hasMarker_of_iteratedDerivative h hd)).expandMarkers_eq]

/-- Expansion removes the markers of a tree without assignments and nothing else.  It succeeds if
all functions are in the table.  What it leaves has no marker and no new variable, is not changed
by another expansion, and is a formula for either evaluator if all functions are in the table.  A
tree without markers is not changed, and under some number of markers it becomes its repeated
derivative.  The same holds inside any other tree, which expands as if the repeated derivatives
had stood in it. -/
theorem expandMarkers_removes_markers {α : Type} [Elementary α] [NatCast α] (name : String)
    {e : Expr α} (hassign : e.hasAssignment = false) :
    ((∀ called ∈ e.calls, ∃ f, Builtin.ofName? called = some f) →
        ∃ d, e.expandMarkers name = .ok d) ∧
      (∀ d, e.expandMarkers name = .ok d →
        d.hasMarker = false ∧ d.freeVariables ⊆ e.freeVariables ∧
          (∀ other, d.expandMarkers other = .ok d) ∧
          ((∀ called ∈ e.calls, ∃ f, Builtin.ofName? called = some f) →
            ∀ evaluator, ∃ f, Formula.build evaluator d = .ok f)) ∧
      (e.hasMarker = false →
        e.expandMarkers name = .ok e ∧
          ∀ n, (e.underMarkers n).expandMarkers name = e.iteratedDerivative name n) ∧
      ∀ (part derived : String → Expr α) (count : String → Nat),
        (∀ own ∈ e.occurrences, (part own).hasMarker = false ∧
          (part own).iteratedDerivative name (count own) = .ok (derived own)) →
        (e.substitute fun own => (part own).underMarkers (count own)).expandMarkers name =
          (e.substitute derived).expandMarkers name := by
  refine ⟨fun hknown => ?_, fun d hd => ?_, fun hmarker => ⟨?_, ?_⟩, ?_⟩
  · obtain ⟨d, hd, -⟩ := exists_expandsTo name hassign hknown
    exact ⟨d, hd.expandMarkers_eq⟩
  · have hexpands := expandMarkers_eq_ok_iff.mp hd
    have hmarker := hexpands.hasMarker_eq hassign
    refine ⟨hmarker, hexpands.freeVariables_subset,
      fun other => (expandsTo_self other hmarker).expandMarkers_eq, fun hknown evaluator => ?_⟩
    obtain ⟨d', hd', hcheck⟩ := exists_expandsTo name hassign hknown
    have hsame : d' = d := Except.ok.inj (hd'.expandMarkers_eq.symm.trans hd)
    exact Formula.exists_build_iff.mpr (check_eq_ok_iff.mp (hsame ▸ hcheck))
  · exact (expandsTo_self name hmarker).expandMarkers_eq
  · exact expandMarkers_underMarkers hmarker
  · intro part derived count hparts
    refine expandMarkers_substitute fun own hown => ?_
    obtain ⟨hpart, hderived⟩ := hparts own hown
    exact expandMarkers_underMarkers_eq hpart hderived

/-- The tree of `(sin(x))'' + y`, expanded with respect to `x`. -/
theorem expandMarkers_removes_markers_sin :
    let u : Expr Float := .call "sin" (.symbol "x")
    let e : Expr Float := .binary .add (.marker (.marker u)) (.symbol "y")
    (∃ d, e.expandMarkers "x" = .ok d ∧ d.hasMarker = false ∧
        d.freeVariables ⊆ e.freeVariables ∧ ∀ evaluator, ∃ f, Formula.build evaluator d = .ok f) ∧
      (u.underMarkers 2).expandMarkers "x" = u.iteratedDerivative "x" 2 := by
  intro u e
  have hknown : ∀ called ∈ e.calls, ∃ f, Builtin.ofName? called = some f := by
    intro called hcalled
    exact ⟨.sin, List.mem_singleton.mp hcalled ▸ rfl⟩
  have hassign : e.hasAssignment = false := rfl
  obtain ⟨hexists, hresult, -, -⟩ := expandMarkers_removes_markers "x" hassign
  obtain ⟨d, hd⟩ := hexists hknown
  obtain ⟨hmarker, hvariables, -, hformula⟩ := hresult d hd
  have hassign' : u.hasAssignment = false := rfl
  obtain ⟨-, -, hself, -⟩ := expandMarkers_removes_markers "x" hassign'
  exact ⟨⟨d, hd, hmarker, hvariables, hformula hknown⟩, (hself rfl).2 2⟩

end Fluxion.Expr
