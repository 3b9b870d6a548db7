import Fluxion.Equations
import Fluxion.Proofs.Equations.SymbolicJacobian
import Fluxion.Proofs.Statement.RoundTrip

/-!
# Which texts form a system

A list of texts forms a system exactly if it is well-formed (`Equations.IsWellFormed`): there is a
text; each is an equation `x' = value` with an evaluable value; the variables are distinct and
differ from the independent variable; the values use nothing else; and if derivatives are to be
estimated, the distance of the points is a positive number.

A system can also be built from formulas, and have partial derivatives attached in any way
(`Equations.IsAssembled`); its variables are distinct all the same.

What can fail behind the texts cannot fail behind the building of the system: the partial
derivatives of a system can always be attached, and then every partial derivative has a value
(`Equations.ofSources_succeeds_iff`).
-/

set_option autoImplicit false

namespace Fluxion.Equations

/-- A text is the equation `name' = value`, and the value is evaluable. -/
structure IsEquation (source name : String) (value : Expr Float) : Prop where
  parses : Statement.parse source = .ok (.assignment (.marker (.symbol name)) value)
  evaluable : value.IsEvaluable

/-- The equations that a list of texts stands for, as one system in an independent variable. -/
structure IsSystem (independent : String) (sources : List String)
    (equations : List (String × Expr Float)) : Prop where
  nonempty : sources ≠ []
  read : List.Forall₂ (fun source equation => IsEquation source equation.1 equation.2)
    sources equations
  nodup : (equations.map (·.1)).Nodup
  independent_not_mem : independent ∉ equations.map (·.1)
  closed : ∀ equation ∈ equations, ∀ name ∈ equation.2.freeVariables,
    name ∈ equations.map (·.1) ∨ name = independent

/-- A text is an equation for one variable and one right-hand side only. -/
theorem IsEquation.unique {source : String} {equation equation' : String × Expr Float}
    (h : IsEquation source equation.1 equation.2)
    (h' : IsEquation source equation'.1 equation'.2) : equation = equation' := by
  have hparses := h.parses.symm.trans h'.parses
  injection hparses with hstatement
  injection hstatement with htarget hvalue
  injection htarget with hsymbol
  injection hsymbol with hname
  exact Prod.ext hname hvalue

/-- The texts determine their equations. -/
theorem IsSystem.unique {independent independent' : String} {sources : List String}
    {equations equations' : List (String × Expr Float)}
    (h : IsSystem independent sources equations)
    (h' : IsSystem independent' sources equations') : equations = equations' := by
  have hread := h.read
  have hread' := h'.read
  -- only the reading goes through the list text by text
  clear h h'
  induction hread generalizing equations' with
  | nil =>
    cases hread'
    rfl
  | cons hequation hrest ih =>
    cases hread' with
    | cons hequation' hrest' => rw [hequation.unique hequation', ih hrest']

/-- The texts stand for a system, and the settings allow to find its partial derivatives. -/
structure IsWellFormed (sources : List String) (settings : Settings) : Prop where
  system : ∃ equations, IsSystem settings.independent sources equations
  increment : settings.jacobian = .finiteDifference → IsPositive settings.difference.increment

section Reading

variable {evaluator : Evaluator} {source : String}

/-- A statement is split into a name and a value if it assigns a value without markers to the first
derivative of a name. -/
theorem split_eq_ok_iff {statement : Statement Float} {name : String} {value : Expr Float} :
    split statement = .ok (name, value) ↔
      statement = .assignment (.marker (.symbol name)) value ∧ value.hasMarker = false := by
  constructor
  · intro h
    unfold split at h
    split at h
    · cases h
    · rename_i own inner
      split at h
      · cases h
      · rename_i hmarker
        cases h
        exact ⟨rfl, Bool.not_eq_true _ ▸ hmarker⟩
    · cases h
    · cases h
  · rintro ⟨rfl, hmarker⟩
    simp [split, hmarker]

/-- A text is read as an equation if it is one and its right-hand side can be built. -/
theorem readEquation_eq_ok_iff {name : String} {f : Formula Float} :
    readEquation evaluator source = .ok (name, f) ↔
      ∃ value, IsEquation source name value ∧ Formula.build evaluator value = .ok f := by
  constructor
  · intro h
    obtain ⟨statement, hparse, h⟩ := bind_eq_ok_iff.mp h
    obtain ⟨⟨own, value⟩, hsplit, h⟩ := bind_eq_ok_iff.mp h
    obtain ⟨built, hbuild, h⟩ := bind_eq_ok_iff.mp h
    cases h
    have hbuild := mapError_eq_ok_iff.mp hbuild
    obtain ⟨rfl, -⟩ := split_eq_ok_iff.mp (mapError_eq_ok_iff.mp hsplit)
    exact ⟨value, ⟨mapError_eq_ok_iff.mp hparse, Formula.exists_build_iff.mp ⟨f, hbuild⟩⟩, hbuild⟩
  · rintro ⟨value, ⟨hparse, hvalue⟩, hbuild⟩
    have hsplit : split (.assignment (.marker (.symbol name)) value) = .ok (name, value) :=
      split_eq_ok_iff.mpr ⟨rfl, hvalue.no_marker⟩
    refine bind_eq_ok_iff.mpr ⟨_, mapError_eq_ok_iff.mpr hparse, ?_⟩
    refine bind_eq_ok_iff.mpr ⟨_, mapError_eq_ok_iff.mpr hsplit, ?_⟩
    exact bind_eq_ok_iff.mpr ⟨f, mapError_eq_ok_iff.mpr hbuild, rfl⟩

/-- The name of an equation that has been read, and the expression that its formula came of. -/
def outline (equation : String × Formula Float) : String × Expr Float :=
  (equation.1, equation.2.expression)

/-- The outlines of formulas have the names of the formulas. -/
theorem names_outline (formulas : List (String × Formula Float)) :
    (formulas.map outline).map (·.1) = formulas.map (·.1) := by
  rw [List.map_map]
  rfl

/-- What has been read from a text is the equation that the text states. -/
theorem isEquation_of_read {equation : String × Formula Float}
    (h : readEquation evaluator source = .ok equation) :
    IsEquation source (outline equation).1 (outline equation).2 := by
  obtain ⟨value, hvalue, hbuild⟩ := readEquation_eq_ok_iff.mp h
  rw [outline, Formula.expression_of_build hbuild]
  exact hvalue

/-- The right-hand side that has been read from a text was built. -/
theorem isBuilt_of_read {equation : String × Formula Float}
    (h : readEquation evaluator source = .ok equation) :
    Formula.build evaluator equation.2.expression = .ok equation.2 := by
  obtain ⟨value, -, hbuild⟩ := readEquation_eq_ok_iff.mp h
  rw [Formula.expression_of_build hbuild]
  exact hbuild

variable {sources : List String} {formulas : List (String × Formula Float)}

/-- Reading succeeds on texts that are equations, and gives their names and values. -/
theorem exists_mapM_readEquation (evaluator : Evaluator) {equations : List (String × Expr Float)}
    (h : List.Forall₂ (fun source equation => IsEquation source equation.1 equation.2)
      sources equations) :
    ∃ formulas, sources.mapM (readEquation evaluator) = .ok formulas ∧
      formulas.map outline = equations := by
  induction h with
  | nil => exact ⟨[], rfl, rfl⟩
  | @cons source equation sources equations hequation hrest ih =>
    obtain ⟨formulas, hformulas, rfl⟩ := ih
    have hbuild : ∃ f, Formula.build evaluator equation.2 = .ok f :=
      Formula.exists_build_iff.mpr hequation.evaluable
    obtain ⟨f, hf⟩ := hbuild
    have hread : readEquation evaluator source = .ok (equation.1, f) :=
      readEquation_eq_ok_iff.mpr ⟨equation.2, hequation, hf⟩
    refine ⟨(equation.1, f) :: formulas, ?_, ?_⟩
    · exact mapM_eq_ok_iff.mpr (.cons hread (mapM_eq_ok_iff.mp hformulas))
    · rw [List.map_cons, outline, Formula.expression_of_build hf]

/-- The formulas that were read form a system exactly if their expressions do. -/
theorem isClosed_iff {independent : String}
    (h : sources.mapM (readEquation evaluator) = .ok formulas) :
    IsClosed independent formulas ↔ IsSystem independent sources (formulas.map outline) := by
  have hnames := names_outline formulas
  have hread := mapM_eq_ok_iff.mp h
  have hnonempty : formulas ≠ [] ↔ sources ≠ [] := by
    rw [← List.length_pos_iff, ← List.length_pos_iff, length_of_mapM h]
  -- the parameters of a formula are the free variables of the expression that it came of
  have hclosed (equation : String × Formula Float) (hequation : equation ∈ formulas) :
      equation.2.IsClosed (formulas.map (·.1)) independent ↔
        ∀ name ∈ (outline equation).2.freeVariables,
          name ∈ (formulas.map outline).map (·.1) ∨ name = independent := by
    obtain ⟨source, -, hone⟩ := exists_of_mem_mapM h hequation
    rw [Formula.IsClosed, Formula.parameters_of_build (isBuilt_of_read hone), hnames]
    rfl
  constructor
  · intro hformulas
    refine ⟨hnonempty.mp hformulas.nonempty, ?_, ?_, ?_, ?_⟩
    · exact List.forall₂_map_right_iff.mpr (hread.imp fun _ _ => isEquation_of_read)
    · rw [hnames]
      exact hformulas.nodup
    · rw [hnames]
      exact hformulas.independent_not_mem
    · intro equation hequation
      obtain ⟨formula, hformula, rfl⟩ := List.mem_map.mp hequation
      exact (hclosed formula hformula).mp (hformulas.closed formula hformula)
  · intro hsystem
    refine ⟨hnonempty.mpr hsystem.nonempty, ?_, ?_, ?_⟩
    · rw [← hnames]
      exact hsystem.nodup
    · rw [← hnames]
      exact hsystem.independent_not_mem
    · intro formula hformula
      exact (hclosed formula hformula).mpr
        (hsystem.closed (outline formula) (List.mem_map_of_mem hformula))

end Reading

section Attaching

variable {s s' : Equations Float} {settings : Settings}

/-- The settings allow to find the partial derivatives of a self-contained system, unless they
are to be estimated from points whose distance is not a positive number. -/
theorem exists_attachJacobian_iff (hs : s.IsSelfContained) :
    (∃ s', s.attachJacobian settings = .ok s') ↔
      (settings.jacobian = .finiteDifference → IsPositive settings.difference.increment) := by
  unfold attachJacobian
  cases settings.jacobian with
  | symbolic => simp [exists_attachSymbolic hs]
  | finiteDifference => simp [attachEstimate_eq_ok_iff]

/-- Attaching the partial derivatives keeps the names and the right-hand sides. -/
theorem kept_of_attachJacobian (h : s.attachJacobian settings = .ok s') :
    s'.names = s.names ∧ s'.rightHandSides = s.rightHandSides := by
  unfold attachJacobian at h
  split at h
  · obtain ⟨added, rfl⟩ := exists_added_of_attachSymbolic h
    exact ⟨rfl, rfl⟩
  · obtain ⟨-, rfl⟩ := attachEstimate_eq_ok_iff.mp h
    exact ⟨rfl, rfl⟩

/-- Attaching an estimate sets it and leaves the entries. -/
theorem estimate_of_attachEstimate {d : Difference Float} (h : s.attachEstimate d = .ok s') :
    s'.estimate = some d ∧ s'.entries = s.entries := by
  obtain ⟨-, rfl⟩ := attachEstimate_eq_ok_iff.mp h
  exact ⟨rfl, rfl⟩

/-- A partial derivative with an entry is known. -/
theorem exists_slope_of_entry {row column : Nat} {f : Formula Float} (hnodup : s.names.Nodup)
    (hrow : row < s.names.length) (hcolumn : column < s.names.length)
    (h : entry? s s.names[row] s.names[column] = some f) (t : Float) (x : List Float) :
    ∃ v, s.slope? row column t x = some v := by
  obtain ⟨b, hb⟩ := exists_entryAt_of_entry hnodup hrow hcolumn h
  exact ⟨b.value t x, by simp only [slope?, hb]⟩

/-- With an estimate attached every partial derivative is known. -/
theorem exists_slope_of_estimate {d : Difference Float} (h : s.estimate = some d)
    (row column : Nat) (t : Float) (x : List Float) : ∃ v, s.slope? row column t x = some v := by
  unfold slope?
  cases s.entryAt? row column with
  | some b => exact ⟨_, rfl⟩
  | none => exact ⟨_, by rw [h, Option.map_some]⟩

end Attaching

section Assembling

variable {α : Type} [Elementary α] [NatCast α] [LT α] [DecidableLT α] [Finiteness α]

/-- The systems that can be built: from formulas, and then with partial derivatives attached in any
way. -/
inductive IsAssembled : Equations α → Prop where
  | create {independent : String} {equations : List (String × Formula α)} {s : Equations α}
    (h : create independent equations = .ok s) : IsAssembled s
  | attach {s s' : Equations α} {entries : List ((String × String) × Formula α)}
    (hs : IsAssembled s) (h : s.attach entries = .ok s') : IsAssembled s'
  | attachSymbolic {s s' : Equations α} {evaluator : Evaluator}
    (hs : IsAssembled s) (h : s.attachSymbolic evaluator = .ok s') : IsAssembled s'
  | attachEstimate {s s' : Equations α} {d : Difference α}
    (hs : IsAssembled s) (h : s.attachEstimate d = .ok s') : IsAssembled s'

/-- The variables of an assembled system are distinct. -/
theorem IsAssembled.nodup {s : Equations α} (hs : s.IsAssembled) : s.names.Nodup := by
  induction hs with
  | create h => exact nodup_of_create h
  | attach _ h ih =>
    obtain ⟨added, rfl⟩ := exists_added_of_attach h
    exact ih
  | attachSymbolic _ h ih =>
    obtain ⟨added, rfl⟩ := exists_added_of_attachSymbolic h
    exact ih
  | attachEstimate _ h ih =>
    obtain ⟨-, rfl⟩ := attachEstimate_eq_ok_iff.mp h
    exact ih

/-- A system from text is one of them. -/
theorem isAssembled_of_ofSources {sources : List String} {settings : Settings}
    {s : Equations Float} (h : ofSources sources settings = .ok s) : s.IsAssembled := by
  obtain ⟨equations, -, h⟩ := bind_eq_ok_iff.mp h
  obtain ⟨bare, hbare, h⟩ := bind_eq_ok_iff.mp h
  unfold attachJacobian at h
  split at h
  · exact .attachSymbolic (.create hbare) h
  · exact .attachEstimate (.create hbare) h

end Assembling

section Main

variable {sources : List String} {settings : Settings} {s : Equations Float}

/-- A system comes from texts in three steps: the equations are read, the system is created, the
partial derivatives are attached. -/
theorem ofSources_eq_ok_iff :
    ofSources sources settings = .ok s ↔
      ∃ formulas s₀, sources.mapM (readEquation settings.evaluator) = .ok formulas ∧
        create settings.independent formulas = .ok s₀ ∧ s₀.attachJacobian settings = .ok s := by
  unfold ofSources
  simp only [bind_eq_ok_iff, exists_and_left]

/-- A system that was built from texts is self-contained. -/
theorem isSelfContained_of_read {formulas : List (String × Formula Float)} {s₀ : Equations Float}
    (hread : sources.mapM (readEquation settings.evaluator) = .ok formulas)
    (hcreate : create settings.independent formulas = .ok s₀) : s₀.IsSelfContained := by
  refine isSelfContained_of_create (fun equation hequation => ?_) hcreate
  obtain ⟨source, -, hone⟩ := exists_of_mem_mapM hread hequation
  exact ⟨settings.evaluator, equation.2.expression, isBuilt_of_read hone⟩

/-- Texts and settings give a system exactly if they are well formed. -/
theorem exists_ofSources_iff :
    (∃ s, ofSources sources settings = .ok s) ↔ IsWellFormed sources settings := by
  simp only [ofSources_eq_ok_iff]
  constructor
  · rintro ⟨s, formulas, s₀, hread, hcreate, hattach⟩
    have hs₀ := isSelfContained_of_read hread hcreate
    exact ⟨⟨formulas.map outline, (isClosed_iff hread).mp (exists_create_iff.mp ⟨s₀, hcreate⟩)⟩,
      (exists_attachJacobian_iff hs₀).mp ⟨s, hattach⟩⟩
  · rintro ⟨⟨equations, hequations⟩, hincrement⟩
    obtain ⟨formulas, hread, rfl⟩ :=
      exists_mapM_readEquation settings.evaluator hequations.read
    obtain ⟨s₀, hcreate⟩ := exists_create_iff.mpr ((isClosed_iff hread).mpr hequations)
    have hs₀ := isSelfContained_of_read hread hcreate
    obtain ⟨s, hattach⟩ := (exists_attachJacobian_iff hs₀).mpr hincrement
    exact ⟨s, formulas, s₀, hread, hcreate, hattach⟩

/-- The partial derivatives of a system that was built from texts: all of them have an entry, or
none has and they are estimated. -/
theorem entries_of_ofSources (h : ofSources sources settings = .ok s) :
    (settings.jacobian = .symbolic → ∀ row ∈ s.names, ∀ column ∈ s.names,
      ∃ f, entry? s row column = some f) ∧
    (settings.jacobian = .finiteDifference → s.estimate = some settings.difference ∧
      ∀ row column, s.entryAt? row column = none) := by
  obtain ⟨formulas, s₀, -, hcreate, hattach⟩ := ofSources_eq_ok_iff.mp h
  obtain ⟨hnames, -⟩ := kept_of_attachJacobian hattach
  unfold attachJacobian at hattach
  constructor
  · intro hjacobian row hrow column hcolumn
    rw [hjacobian] at hattach
    rw [hnames] at hrow hcolumn
    exact exists_entry_of_attachSymbolic (length_rightHandSides_of_create hcreate) hattach hrow
      hcolumn
  · intro hjacobian
    rw [hjacobian] at hattach
    obtain ⟨hestimate, hentries⟩ := estimate_of_attachEstimate hattach
    refine ⟨hestimate, fun row column => ?_⟩
    rw [entryAt?, hentries, entries_of_create hcreate]
    rfl

/-- The variables of a system from texts are distinct. -/
theorem nodup_of_ofSources (h : ofSources sources settings = .ok s) : s.names.Nodup :=
  (isAssembled_of_ofSources h).nodup

/-- The variables and the right-hand sides of a system are those that its texts stand for. -/
theorem equations_of_ofSources (h : ofSources sources settings = .ok s) :
    ∃ equations, IsSystem settings.independent sources equations ∧
      s.names = equations.map (·.1) ∧
      s.rightHandSides.map (·.formula.expression) = equations.map (·.2) := by
  obtain ⟨formulas, s₀, hread, hcreate, hattach⟩ := ofSources_eq_ok_iff.mp h
  obtain ⟨hnames, hrightHandSides⟩ := kept_of_attachJacobian hattach
  have hsystem := (isClosed_iff hread).mp (exists_create_iff.mp ⟨s₀, hcreate⟩)
  refine ⟨formulas.map outline, hsystem, ?_, ?_⟩
  · rw [hnames, names_of_create hcreate, names_outline]
  · have hformulas := congrArg (List.map (·.expression)) (formulas_of_create hcreate)
    rw [List.map_map, List.map_map] at hformulas
    rw [hrightHandSides, List.map_map]
    exact hformulas

/-- A system from texts knows all of its partial derivatives. -/
theorem exists_slope_of_ofSources (h : ofSources sources settings = .ok s) {row column : Nat}
    (hrow : row < s.names.length) (hcolumn : column < s.names.length) (t : Float)
    (x : List Float) : ∃ v, s.slope? row column t x = some v := by
  obtain ⟨hsymbolic, hestimated⟩ := entries_of_ofSources h
  cases hjacobian : settings.jacobian with
  | symbolic =>
    obtain ⟨f, hf⟩ := hsymbolic hjacobian _ (List.getElem_mem hrow) _ (List.getElem_mem hcolumn)
    exact exists_slope_of_entry (nodup_of_ofSources h) hrow hcolumn hf t x
  | finiteDifference => exact exists_slope_of_estimate (hestimated hjacobian).1 row column t x

/-- Texts form a system exactly if they are well-formed.  A system that was built has the variables
and the right-hand sides of its texts, in order; symbolic partial derivatives have an entry for
each pair of variables and estimated ones have none, and every partial derivative has a value.
Attaching all symbolic partial derivatives to a system of formulas never fails. -/
theorem ofSources_succeeds_iff :
    (∀ (sources : List String) (settings : Settings),
      (∃ s, ofSources sources settings = .ok s) ↔ IsWellFormed sources settings) ∧
    (∀ (sources : List String) (settings : Settings) (s : Equations Float),
      ofSources sources settings = .ok s →
        (∃ equations, IsSystem settings.independent sources equations ∧
          s.names = equations.map (·.1) ∧
          s.rightHandSides.map (·.formula.expression) = equations.map (·.2)) ∧
        (settings.jacobian = .symbolic → ∀ row ∈ s.names, ∀ column ∈ s.names,
          ∃ f, entry? s row column = some f) ∧
        (settings.jacobian = .finiteDifference → ∀ row column, entry? s row column = none) ∧
        ∀ row column, row < s.names.length → column < s.names.length →
          ∀ t x, ∃ v, s.slope? row column t x = some v) ∧
    ∀ (independent : String) (equations : List (String × Formula Float)) (s : Equations Float),
      (∀ equation ∈ equations, IsBuilt equation.2) → create independent equations = .ok s →
        ∀ evaluator, ∃ s', s.attachSymbolic evaluator = .ok s' := by
  refine ⟨fun sources settings => exists_ofSources_iff, ?_, ?_⟩
  · intro sources settings s h
    obtain ⟨hsymbolic, hestimated⟩ := entries_of_ofSources h
    refine ⟨equations_of_ofSources h, hsymbolic, ?_, ?_⟩
    · intro hjacobian row column
      have hnone := (hestimated hjacobian).2
      simp [hnone, entry?]
    · intro row column hrow hcolumn t x
      exact exists_slope_of_ofSources h hrow hcolumn t x
  · intro independent equations s hbuilt hcreate evaluator
    exact exists_attachSymbolic (isSelfContained_of_create hbuilt hcreate) evaluator

/-- A pendulum without friction. -/
def pendulum : List String := ["x' = v", "v' = -sin(x)"]

/-- The equations of the pendulum. -/
def pendulumEquations : List (String × Expr Float) :=
  [("x", .symbol "v"), ("v", .neg (.call "sin" (.symbol "x")))]

/-- The two equations of the pendulum form a system. -/
theorem isSystem_pendulum : IsSystem "t" pendulum pendulumEquations where
  nonempty := by decide
  read := by
    refine .cons ⟨by cbv, ?_⟩ (.cons ⟨by cbv, ?_⟩ .nil)
    · exact Expr.check_eq_ok_iff.mp rfl
    · exact Expr.check_eq_ok_iff.mp rfl
  nodup := by decide
  independent_not_mem := by decide
  closed := by decide

/-- The pendulum is a system; the derivative of its second equation with respect to its first
variable has an entry and a value; and so it is when the partial derivatives are attached to the
bare system once more. -/
theorem ofSources_pendulum :
    IsWellFormed pendulum {} ∧
      ∃ s, ofSources pendulum {} = .ok s ∧ (∃ f, entry? s "v" "x" = some f) ∧
        (∀ (t : Float) (x : List Float), ∃ v, s.slope? 1 0 t x = some v) ∧
        ∃ (formulas : List (String × Formula Float)) (s₀ s' : Equations Float),
          create "t" formulas = .ok s₀ ∧ s₀.names = ["x", "v"] ∧
          s₀.attachSymbolic .compiled = .ok s' := by
  have hwellFormed : IsWellFormed pendulum {} :=
    ⟨⟨pendulumEquations, isSystem_pendulum⟩, fun h => by cases h⟩
  obtain ⟨hsucceeds, hsystem, hattach⟩ := ofSources_succeeds_iff
  obtain ⟨s, hs⟩ := (hsucceeds pendulum {}).mpr hwellFormed
  obtain ⟨⟨equations, hequations, hnames, -⟩, hentries, -, hslopes⟩ := hsystem pendulum {} s hs
  rw [hequations.unique isSystem_pendulum] at hnames
  have hlength : s.names.length = 2 := congrArg List.length hnames
  obtain ⟨formulas, s₀, hread, hcreate, hattached⟩ := ofSources_eq_ok_iff.mp hs
  obtain ⟨s', hs'⟩ := hattach "t" formulas s₀ (fun equation hequation => by
    obtain ⟨source, -, hone⟩ := exists_of_mem_mapM hread hequation
    exact ⟨_, _, isBuilt_of_read hone⟩) hcreate .compiled
  refine ⟨hwellFormed, s, hs, ?_, ?_, formulas, s₀, s', hcreate, ?_, hs'⟩
  · exact hentries rfl "v" (hnames ▸ by decide) "x" (hnames ▸ by decide)
  · exact hslopes 1 0 (by omega) (by omega)
  · rw [← (kept_of_attachJacobian hattached).1, hnames]
    rfl

end Main

end Fluxion.Equations
