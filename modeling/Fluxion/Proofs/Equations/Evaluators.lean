import Fluxion.Proofs.Equations.WellFormed
import Fluxion.Proofs.Solver.Coupling

/-!
# How formulas are evaluated cannot be seen

Texts form a system whatever evaluator the settings name, or fail with the same error, and then a
solver gives the same stream on the systems, errors included (`Equations.evaluator_unobservable`).

That the evaluators agree on one formula is carried through everything that a system is built by.
The formulas of two systems that were built from the same texts are the same but for their backends
(`Formula.SameButBackend`), at every place: the right-hand sides, and the partial derivatives, which
are formulas of the same derived expressions.  So the fields of the systems are the same functions
(`Equations.SameButBackends.toField_eq`), down to the last bit, and no step can tell them apart.
-/

set_option autoImplicit false

namespace Fluxion

variable {α : Type} [Elementary α] [Arithmetic α]

/-! ## Formulas -/

/-- Two formulas of one expression, with the same arguments and the same values. -/
structure Formula.SameButBackend (f f' : Formula α) : Prop where
  expression_eq : f'.expression = f.expression
  parameters_eq : f'.parameters = f.parameters
  valueAt_eq : ∀ args, f'.valueAt args = f.valueAt args

namespace Formula

/-- A formula that is built in any way is the interpreted one but for its backend. -/
theorem sameButBackend_of_build {evaluator : Evaluator} {e : Expr α} {f : Formula α}
    (h : build evaluator e = .ok f) : (interpreted e).SameButBackend f := by
  refine ⟨expression_of_build h, parameters_of_build h, fun args => ?_⟩
  obtain ⟨fault, hfault, hfault'⟩ | ⟨code, hcode, htree, hprogram⟩ := build_cases e
  · cases evaluator with
    | interpreted =>
      rw [hfault] at h
      cases h
    | compiled =>
      rw [hfault'] at h
      cases h
  · cases evaluator with
    | interpreted =>
      rw [htree] at h
      cases h
      rfl
    | compiled =>
      rw [hprogram] at h
      cases h
      exact valueAt_compiled hcode args

/-- The value of a formula is the value of its expression under every environment that gives the
variables the values of their places. -/
theorem valueAt_eq_value {evaluator : Evaluator} {e : Expr α} {f : Formula α}
    (h : build evaluator e = .ok f) {args : Nat → α} {env : String → α}
    (hargs : ∀ i name, f.parameters[i]? = some name → args i = env name) :
    f.valueAt args = e.value env := by
  rw [(sameButBackend_of_build h).valueAt_eq, valueAt_interpreted]
  refine Expr.value_congr fun name hname => ?_
  obtain ⟨i, hi⟩ := exists_slot (Expr.reads_subset_occurrences e hname)
  obtain ⟨hlt, hown, -⟩ := List.idxOf?_eq_some_iff.mp hi
  have hparameter : f.parameters[i]? = some name := by
    rw [parameters_of_build h, List.getElem?_eq_getElem hlt, hown]
  unfold slotValue
  dsimp only
  rw [hi]
  exact hargs i name hparameter

/-- Whichever evaluator a formula is built for, the same expressions are refused for the same
reason. -/
theorem build_coupled (evaluator evaluator' : Evaluator) (e : Expr α) :
    ExceptRel Eq SameButBackend (build evaluator e) (build evaluator' e) := by
  have hcheck : ∀ kind fault, build kind e = .error fault →
      ∀ kind', build kind' e = .error fault := by
    intro kind fault hfault kind'
    obtain ⟨fault', hfirst, hsecond⟩ | ⟨code, -, hfirst, hsecond⟩ := build_cases e
    · cases kind <;> cases kind' <;> simp_all
    · cases kind <;> simp_all
  cases hf : build evaluator e with
  | error fault =>
    rw [hcheck _ _ hf evaluator']
    exact .error rfl
  | ok f =>
    cases hf' : build evaluator' e with
    | error fault =>
      rw [hcheck _ _ hf' evaluator] at hf
      cases hf
    | ok f' =>
      have h := sameButBackend_of_build hf
      have h' := sameButBackend_of_build hf'
      refine .ok ⟨?_, ?_, fun args => ?_⟩
      · rw [h.expression_eq, h'.expression_eq]
      · rw [h.parameters_eq, h'.parameters_eq]
      · rw [h.valueAt_eq, h'.valueAt_eq]

omit [Arithmetic α] in
/-- A formula is evaluated as it was asked for. -/
theorem evaluator_of_build {evaluator : Evaluator} {e : Expr α} {f : Formula α}
    (h : build evaluator e = .ok f) : f.evaluator = evaluator := by
  obtain ⟨⟨⟩, -, h⟩ := bind_eq_ok_iff.mp h
  cases evaluator with
  | interpreted =>
    cases h
    rfl
  | compiled =>
    obtain ⟨p, -, rfl⟩ := return_eq_ok_iff.mp h
    rfl

end Formula

namespace BoundFormula

/-- Two bound formulas that are the same but for their backends. -/
structure SameButBackend (b b' : BoundFormula α) : Prop where
  formula : b.formula.SameButBackend b'.formula
  slots_eq : b'.slots = b.slots

/-- Right-hand sides that differ in their evaluator only have the same values. -/
theorem SameButBackend.value_eq {b b' : BoundFormula α} (h : b.SameButBackend b') (t : α)
    (x : List α) : b'.value t x = b.value t x := by
  have hargument : b'.argument t x = b.argument t x := by
    funext k
    unfold argument
    rw [h.slots_eq]
  unfold value
  rw [hargument, h.formula.valueAt_eq]

/-- Formulas that differ in their evaluator only are bound alike, or refused alike. -/
theorem bind_coupled {f f' : Formula α} (h : f.SameButBackend f') (label : String)
    (names : List String) (independent : String) :
    ExceptRel Eq SameButBackend (bind label names independent f)
      (bind label names independent f') := by
  unfold bind
  rw [h.parameters_eq]
  refine ExceptRel.bind (R := Eq) (ExceptRel.refl _) fun slots slots' hslots => ?_
  exact .ok ⟨h, hslots.symm⟩

end BoundFormula

/-! ## Systems -/

/-- Two entries of one key whose values are related. -/
inductive OfSameKey {κ β γ : Type} (R : β → γ → Prop) : κ × β → κ × γ → Prop where
  | mk (key : κ) {b : β} {c : γ} (h : R b c) : OfSameKey R (key, b) (key, c)

section Lists

variable {κ β γ : Type} {R : β → γ → Prop}

/-- Related rows have related entries at every place. -/
theorem getElem?_rel {l : List β} {l' : List γ} (h : List.Forall₂ R l l') (i : ℕ) :
    Option.Rel R l[i]? l'[i]? := by
  induction h generalizing i with
  | nil => exact .none
  | cons hfirst hrest ih =>
    cases i with
    | zero => exact .some hfirst
    | succ i => exact ih i

/-- What is found under two keys is related if the keys are found at the same entries. -/
theorem lookup_rel_of_keys {κ' : Type} [BEq κ] [BEq κ'] {key : κ} {key' : κ'} {l : List (κ × β)}
    {l' : List (κ' × γ)}
    (h : List.Forall₂ (fun entry entry' =>
      (key == entry.1) = (key' == entry'.1) ∧ R entry.2 entry'.2) l l') :
    Option.Rel R (l.lookup key) (l'.lookup key') := by
  induction h with
  | nil => exact .none
  | cons hfirst hrest ih =>
    obtain ⟨hkey, hR⟩ := hfirst
    rw [List.lookup_cons, List.lookup_cons, hkey]
    split
    · exact .some hR
    · exact ih

/-- Related associations give related values for every key. -/
theorem lookup_rel [BEq κ] {l : List (κ × β)} {l' : List (κ × γ)}
    (h : List.Forall₂ (OfSameKey R) l l') (key : κ) :
    Option.Rel R (l.lookup key) (l'.lookup key) :=
  lookup_rel_of_keys (h.imp fun _ _ hentry => hentry.casesOn fun _ _ _ hR => ⟨rfl, hR⟩)

/-- Attaching the same keys to related rows gives related associations. -/
theorem zip_rel (keys : List κ) {l : List β} {l' : List γ} (h : List.Forall₂ R l l') :
    List.Forall₂ (OfSameKey R) (keys.zip l) (keys.zip l') := by
  induction h generalizing keys with
  | nil =>
    rw [List.zip_nil_right, List.zip_nil_right]
    exact .nil
  | cons hfirst hrest ih =>
    cases keys with
    | nil => exact .nil
    | cons key keys => exact .cons (.mk key hfirst) (ih keys)

/-- Related associations have the same keys. -/
theorem map_fst_eq {l : List (κ × β)} {l' : List (κ × γ)} (h : List.Forall₂ (OfSameKey R) l l') :
    l'.map (·.1) = l.map (·.1) := by
  induction h with
  | nil => rfl
  | cons hfirst hrest ih =>
    obtain ⟨key, -⟩ := hfirst
    rw [List.map_cons, List.map_cons, ih]

end Lists

namespace Equations

/-- Two systems that are the same but for the backends of their formulas. -/
structure SameButBackends (s s' : Equations α) : Prop where
  independent_eq : s'.independent = s.independent
  names_eq : s'.names = s.names
  rightHandSides : List.Forall₂ BoundFormula.SameButBackend s.rightHandSides s'.rightHandSides
  entries : List.Forall₂ (OfSameKey BoundFormula.SameButBackend) s.entries s'.entries
  estimate_eq : s'.estimate = s.estimate

/-- Systems that are the same but for the backends of their formulas are the same field. -/
theorem SameButBackends.toField_eq {s s' : Equations α} (h : s.SameButBackends s') :
    s'.toField = s.toField := by
  have hcomponent : s'.component = s.component := by
    funext i t x
    have hrow := getElem?_rel h.rightHandSides i
    unfold component
    generalize s.rightHandSides[i]? = b, s'.rightHandSides[i]? = b' at hrow
    cases hrow with
    | none => rfl
    | some hb => exact hb.value_eq t x
  have hslope : s'.slope? = s.slope? := by
    funext row column t x
    have hentry := lookup_rel h.entries (row, column)
    unfold slope? entryAt?
    rw [hcomponent, h.estimate_eq]
    generalize s.entries.lookup (row, column) = b, s'.entries.lookup (row, column) = b' at hentry
    cases hentry with
    | none => rfl
    | some hb => exact congrArg some (hb.value_eq t x)
  unfold toField
  rw [h.names_eq, hcomponent, hslope]

/-- A formula that is built under a key. -/
theorem buildAt_coupled {κ : Type} (evaluator evaluator' : Evaluator) (key : κ) (e : Expr α) :
    ExceptRel Eq (OfSameKey Formula.SameButBackend)
      (do return (key, ← (Formula.build evaluator e).mapError EquationsError.formula))
      (do return (key, ← (Formula.build evaluator' e).mapError EquationsError.formula)) := by
  have hbuild := (Formula.build_coupled evaluator evaluator' e).mapError
    (g := EquationsError.formula) (F := Eq) fun _ _ => congrArg _
  exact hbuild.bind fun f f' hf => .ok (.mk key hf)

/-- Systems of equations that differ in the evaluators only are created alike. -/
theorem create_coupled (independent : String) {equations equations' : List (String × Formula α)}
    (h : List.Forall₂ (OfSameKey Formula.SameButBackend) equations equations') :
    ExceptRel Eq SameButBackends (create independent equations)
      (create independent equations') := by
  have hempty : equations'.isEmpty = equations.isEmpty := by
    cases h <;> rfl
  unfold create
  rw [map_fst_eq h, hempty]
  split
  · exact .error rfl
  · refine (ExceptRel.refl _).bind fun _ _ _ => ?_
    refine ExceptRel.bind (R := List.Forall₂ BoundFormula.SameButBackend) ?_ ?_
    · refine ExceptRel.mapM h fun equation equation' hequation => ?_
      obtain ⟨name, hf⟩ := hequation
      exact BoundFormula.bind_coupled hf name _ _
    · intro rows rows' hrows
      exact .ok ⟨rfl, rfl, hrows, .nil, rfl⟩

section Attaching

variable {s s' : Equations α}

/-- An entry of the Jacobian is bound alike under both evaluators. -/
theorem bindEntry_coupled (hs : s.SameButBackends s')
    {entry entry' : (String × String) × Formula α}
    (h : OfSameKey Formula.SameButBackend entry entry') :
    ExceptRel Eq (OfSameKey BoundFormula.SameButBackend) (s.bindEntry entry)
      (s'.bindEntry entry') := by
  obtain ⟨⟨row, column⟩, hf⟩ := h
  simp only [bindEntry, index?, hs.names_eq, hs.independent_eq]
  cases s.names.idxOf? row with
  | none => exact .error rfl
  | some r =>
    cases s.names.idxOf? column with
    | none => exact .error rfl
    | some c => exact (BoundFormula.bind_coupled hf _ _ _).bind fun _ _ hb => .ok (.mk (r, c) hb)

/-- Rows of entries that differ in the evaluators only are attached alike. -/
theorem attach_coupled (hs : s.SameButBackends s')
    {entries entries' : List ((String × String) × Formula α)}
    (h : List.Forall₂ (OfSameKey Formula.SameButBackend) entries entries') :
    ExceptRel Eq SameButBackends (s.attach entries) (s'.attach entries') := by
  refine (ExceptRel.mapM h fun _ _ => bindEntry_coupled hs).bind fun bound bound' hbound => ?_
  have hentries := List.rel_append (List.forall₂_reverse_iff.mpr hbound) hs.entries
  exact .ok ⟨hs.independent_eq, hs.names_eq, hs.rightHandSides, hentries, hs.estimate_eq⟩

/-- The partial derivatives are formulas of one expression, since a derivative is taken of the
expression and not of what evaluates it. -/
theorem symbolicEntry_coupled (evaluator evaluator' : Evaluator) {b b' : BoundFormula α}
    (h : b.SameButBackend b') (row column : String) :
    ExceptRel Eq (OfSameKey Formula.SameButBackend) (symbolicEntry evaluator row b column)
      (symbolicEntry evaluator' row b' column) := by
  unfold symbolicEntry
  rw [h.formula.expression_eq]
  refine (ExceptRel.refl _).bind fun slope slope' hslope => ?_
  subst hslope
  exact buildAt_coupled evaluator evaluator' (row, column) slope

/-- The symbolic Jacobian is attached alike, whichever evaluator its entries get. -/
theorem attachSymbolic_coupled (evaluator evaluator' : Evaluator) (hs : s.SameButBackends s') :
    ExceptRel Eq SameButBackends (s.attachSymbolic evaluator) (s'.attachSymbolic evaluator') := by
  unfold attachSymbolic
  rw [hs.names_eq]
  refine (ExceptRel.mapM (zip_rel s.names hs.rightHandSides) fun pair pair' hpair => ?_).bind
    fun rows rows' hrows => attach_coupled hs (List.rel_flatten hrows)
  obtain ⟨row, hb⟩ := hpair
  exact ExceptRel.mapM_same fun column _ =>
    symbolicEntry_coupled evaluator evaluator' hb row column

/-- An estimate is attached alike, since it is checked without evaluating anything. -/
theorem attachEstimate_coupled [LT α] [DecidableLT α] [Finiteness α] (d : Difference α)
    (hs : s.SameButBackends s') :
    ExceptRel Eq SameButBackends (s.attachEstimate d) (s'.attachEstimate d) := by
  refine (ExceptRel.refl _).bind fun _ _ _ => ?_
  exact .ok ⟨hs.independent_eq, hs.names_eq, hs.rightHandSides, hs.entries, rfl⟩

end Attaching

section Evaluated

variable {evaluator : Evaluator}

/-- All formulas of a system, those of its right-hand sides and those of its entries, are evaluated
in one way. -/
structure IsEvaluatedBy (s : Equations α) (evaluator : Evaluator) : Prop where
  rightHandSides : ∀ b ∈ s.rightHandSides, b.formula.evaluator = evaluator
  entries : ∀ entry ∈ s.entries, entry.2.formula.evaluator = evaluator

omit [Elementary α] [Arithmetic α] in
/-- A system evaluates its right-hand sides as its equations do. -/
theorem isEvaluatedBy_of_create {independent : String} {equations : List (String × Formula α)}
    {s : Equations α} (hequations : ∀ equation ∈ equations, equation.2.evaluator = evaluator)
    (h : create independent equations = .ok s) : s.IsEvaluatedBy evaluator := by
  refine ⟨fun b hb => ?_, fun entry hentry => ?_⟩
  · obtain ⟨equation, hequation, hformula, -⟩ := exists_equation_of_create h hb
    rw [hformula]
    exact hequations equation hequation
  · rw [entries_of_create h] at hentry
    cases hentry

/-- The entries of the symbolic Jacobian are evaluated by the evaluator that was asked for. -/
theorem IsEvaluatedBy.of_attachSymbolic {s s' : Equations α} (hs : s.IsEvaluatedBy evaluator)
    (hnodup : s.names.Nodup) (h : s.attachSymbolic evaluator = .ok s') :
    s'.IsEvaluatedBy evaluator := by
  refine ⟨?_, fun entry hentry => ?_⟩
  · obtain ⟨added, rfl⟩ := exists_added_of_attachSymbolic h
    exact hs.rightHandSides
  · obtain hold | hnew := isSymbolicEntry_of_mem hnodup h hentry
    · exact hs.entries entry hold
    · obtain ⟨rightHandSide, column, slope, f, label, -, -, -, hf, hbind⟩ := hnew
      rw [BoundFormula.formula_of_bind hbind]
      exact Formula.evaluator_of_build hf

end Evaluated

end Equations

/-! ## Texts -/

namespace Equations

variable {sources : List String} {settings : Settings} {s : Equations Float}

/-- An equation is read alike under both evaluators. -/
theorem readEquation_coupled (evaluator evaluator' : Evaluator) (source : String) :
    ExceptRel Eq (OfSameKey Formula.SameButBackend) (readEquation evaluator source)
      (readEquation evaluator' source) := by
  unfold readEquation
  refine (ExceptRel.refl _).bind fun statement statement' hstatement => ?_
  subst hstatement
  refine (ExceptRel.refl _).bind fun equation equation' hequation => ?_
  subst hequation
  exact buildAt_coupled evaluator evaluator' equation.1 equation.2

/-- Two choices of the evaluator lead to systems that differ in nothing else, or to the same
error. -/
theorem ofSources_coupled (sources : List String) (settings : Settings) (evaluator : Evaluator) :
    ExceptRel Eq SameButBackends (ofSources sources settings)
      (ofSources sources { settings with evaluator }) := by
  have hread : ExceptRel Eq (List.Forall₂ (OfSameKey Formula.SameButBackend))
      (sources.mapM (readEquation settings.evaluator)) (sources.mapM (readEquation evaluator)) :=
    ExceptRel.mapM_same fun source _ => readEquation_coupled settings.evaluator evaluator source
  refine hread.bind fun equations equations' hequations => ?_
  refine (create_coupled settings.independent hequations).bind fun s s' hs => ?_
  unfold attachJacobian
  cases settings.jacobian with
  | symbolic => exact attachSymbolic_coupled settings.evaluator evaluator hs
  | finiteDifference => exact attachEstimate_coupled settings.difference hs

/-- The formulas of a system that was built from texts are evaluated as the settings say. -/
theorem isEvaluatedBy_of_ofSources (h : ofSources sources settings = .ok s) :
    s.IsEvaluatedBy settings.evaluator := by
  obtain ⟨formulas, s₀, hread, hcreate, hattach⟩ := ofSources_eq_ok_iff.mp h
  have hs₀ : s₀.IsEvaluatedBy settings.evaluator := by
    refine isEvaluatedBy_of_create (fun equation hequation => ?_) hcreate
    obtain ⟨source, -, hone⟩ := exists_of_mem_mapM hread hequation
    exact Formula.evaluator_of_build (isBuilt_of_read hone)
  unfold attachJacobian at hattach
  split at hattach
  · exact hs₀.of_attachSymbolic (nodup_of_create hcreate) hattach
  · obtain ⟨-, rfl⟩ := attachEstimate_eq_ok_iff.mp hattach
    exact ⟨hs₀.rightHandSides, hs₀.entries⟩

/-- The evaluator cannot be seen in a run.  Whichever of them the settings name, texts are refused
with the same error or form systems, whose formulas are evaluated as the settings say; and then
every solver refuses both systems with the same error or gives streams that are the same at every
pull, the states to the last bit and the errors with them. -/
theorem evaluator_unobservable (sources : List String) (settings : Settings)
    (evaluator : Evaluator) :
    ExceptRel Eq (fun s s' => s.IsEvaluatedBy settings.evaluator ∧ s'.IsEvaluatedBy evaluator ∧
        ∀ (solver : Solver Float) (initial : State Float) (step : Float),
          ExceptRel Eq (fun t t' => ∀ n, t.item n = t'.item n)
            (Trajectory.launch solver s.toField initial step).result
            (Trajectory.launch solver s'.toField initial step).result)
      (ofSources sources settings) (ofSources sources { settings with evaluator }) := by
  have hcoupled := ofSources_coupled sources settings evaluator
  generalize hs : ofSources sources settings = result,
    hs' : ofSources sources { settings with evaluator } = result' at hcoupled
  cases hcoupled with
  | error h => exact .error h
  | ok hsame =>
    refine .ok ⟨isEvaluatedBy_of_ofSources hs, isEvaluatedBy_of_ofSources hs', ?_⟩
    intro solver initial step
    rw [hsame.toField_eq]
    cases (Trajectory.launch solver _ initial step).result with
    | error e => exact .error rfl
    | ok t => exact .ok fun n => rfl

end Equations

end Fluxion
