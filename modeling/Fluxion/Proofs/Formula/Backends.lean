import Fluxion.Proofs.Expr.Evaluable
import Fluxion.Proofs.Formula.Compilation

/-!
# The two evaluators are interchangeable

A formula can be built for one evaluator exactly if it can be built for the other, because the
compiler accepts whatever passes the check: each variable of an expression has a place among its
own variables.  So either can be built for the evaluable expressions and for no others
(`Formula.exists_build_iff`).  Both formulas then have the same arguments, ask for the same places
in the same order, all of them places of arguments, and give the same value at all arguments.
-/

set_option autoImplicit false

namespace Fluxion

variable {α : Type}

namespace Formula

/-- The places of the arguments that the evaluation of a formula asks for, in the order in which
it asks for them. -/
def requests (f : Formula α) : List Nat :=
  match f.backend with
  | .tree => f.expression.reads.filterMap f.slot?
  | .program p => p.code.filterMap Instruction.request?

/-- The formula of an expression that is evaluated by walking over the tree. -/
def interpreted (e : Expr α) : Formula α := ⟨e, e.freeVariables, .tree⟩

/-- The formula of an expression that is evaluated by running its code. -/
def compiled (e : Expr α) (code : List (Instruction α)) : Formula α :=
  ⟨e, e.freeVariables, .program (.ofCode code)⟩

/-- A variable that occurs has a slot. -/
theorem exists_slot {e : Expr α} {name : String} (h : name ∈ e.occurrences) :
    ∃ index, e.freeVariables.idxOf? name = some index := by
  refine Option.isSome_iff_exists.mp ?_
  rw [List.isSome_idxOf?]
  exact Expr.mem_freeVariables.mpr h

/-- Slots are places in the list of variables. -/
theorem slot_lt {e : Expr α} {name : String} {index : Nat}
    (h : e.freeVariables.idxOf? name = some index) : index < e.freeVariables.length := by
  obtain ⟨hlt, -⟩ := List.idxOf?_eq_some_iff.mp h
  exact hlt

/-- Every place that a formula asks for is the place of one of its arguments. -/
theorem requests_lt (e : Expr α) :
    ∀ index ∈ (interpreted e).requests, index < (interpreted e).parameters.length := by
  intro index hindex
  obtain ⟨name, -, hname⟩ := List.mem_filterMap.mp hindex
  exact slot_lt hname

variable [Elementary α]

/-- Both evaluators are refused for the same reason, or both are built. -/
theorem build_cases (e : Expr α) :
    (∃ fault, build .interpreted e = .error fault ∧ build .compiled e = .error fault) ∨
      ∃ code, Expr.CompilesTo e.freeVariables.idxOf? e code ∧
        build .interpreted e = .ok (interpreted e) ∧
        build .compiled e = .ok (compiled e code) := by
  unfold build
  cases hcheck : e.check with
  | error fault => exact .inl ⟨fault, rfl, rfl⟩
  | ok _ =>
    obtain ⟨code, hcode⟩ := Expr.exists_compilesTo hcheck fun name hname => exists_slot hname
    refine .inr ⟨code, hcode, rfl, ?_⟩
    simp only [Expr.compile, Expr.instructions_eq_ok_iff.mpr hcode]
    rfl

/-- A formula can be built from exactly the expressions that can be evaluated. -/
theorem exists_build_iff {evaluator : Evaluator} {e : Expr α} :
    (∃ f, build evaluator e = .ok f) ↔ e.IsEvaluable := by
  rw [← Expr.check_eq_ok_iff]
  constructor
  · rintro ⟨f, hf⟩
    obtain ⟨⟨⟩, hcheck, -⟩ := bind_eq_ok_iff.mp hf
    exact hcheck
  · intro hcheck
    obtain ⟨fault, hfault, -⟩ | ⟨code, -, htree, hprogram⟩ := build_cases e
    · rw [build, hcheck] at hfault
      cases hfault
    · cases evaluator with
      | interpreted => exact ⟨_, htree⟩
      | compiled => exact ⟨_, hprogram⟩

/-- A formula keeps the expression that it was built from. -/
theorem expression_of_build {evaluator : Evaluator} {e : Expr α} {f : Formula α}
    (h : build evaluator e = .ok f) : f.expression = e := by
  obtain ⟨⟨⟩, -, h⟩ := bind_eq_ok_iff.mp h
  cases evaluator with
  | interpreted =>
    cases h
    rfl
  | compiled =>
    obtain ⟨p, -, rfl⟩ := return_eq_ok_iff.mp h
    rfl

/-- The parameters of a formula are the variables of its expression. -/
theorem parameters_of_build {evaluator : Evaluator} {e : Expr α} {f : Formula α}
    (h : build evaluator e = .ok f) : f.parameters = e.freeVariables := by
  obtain ⟨⟨⟩, -, h⟩ := bind_eq_ok_iff.mp h
  cases evaluator with
  | interpreted =>
    cases h
    rfl
  | compiled =>
    obtain ⟨p, -, rfl⟩ := return_eq_ok_iff.mp h
    rfl

/-- A program asks for the arguments that the walk over the tree asks for, in the same order. -/
theorem requests_compiled {e : Expr α} {code : List (Instruction α)}
    (h : Expr.CompilesTo e.freeVariables.idxOf? e code) :
    (compiled e code).requests = (interpreted e).requests :=
  h.requests_eq

variable [Arithmetic α]

/-- Walking over the tree gives the value of the expression. -/
theorem valueAt_interpreted (e : Expr α) (args : Nat → α) :
    (interpreted e).valueAt args = e.value (slotValue e.freeVariables.idxOf? args) := rfl

/-- The program gives the value that the walk over the tree gives. -/
theorem valueAt_compiled {e : Expr α} {code : List (Instruction α)}
    (h : Expr.CompilesTo e.freeVariables.idxOf? e code) (args : Nat → α) :
    (compiled e code).valueAt args = (interpreted e).valueAt args := by
  rw [valueAt_interpreted]
  show (Instruction.execute args code []).head?.getD Elementary.undefined = _
  rw [h.execute_eq]
  rfl

/-- The value of a formula depends only on the arguments that it asks for. -/
theorem valueAt_congr {f : Formula α} {args args' : Nat → α}
    (h : ∀ index ∈ f.requests, args index = args' index) : f.valueAt args = f.valueAt args' := by
  obtain ⟨e, parameters, backend⟩ := f
  cases backend with
  | tree =>
    refine Expr.value_congr fun name hname => ?_
    show slotValue parameters.idxOf? args name = slotValue parameters.idxOf? args' name
    unfold slotValue
    split
    · rename_i index hindex
      exact h index (List.mem_filterMap.mpr ⟨name, hname, hindex⟩)
    · rfl
  | program p =>
    have hrun := Instruction.execute_congr h []
    show (Instruction.execute args p.code []).head?.getD Elementary.undefined =
      (Instruction.execute args' p.code []).head?.getD Elementary.undefined
    rw [hrun]

/-- Formulas with the same arguments and the same values give the same results, and the same
errors, for every row of arguments and all named arguments. -/
theorem evaluate_eq {f g : Formula α} (hparameters : f.parameters = g.parameters)
    (hvalue : ∀ args, f.valueAt args = g.valueAt args) :
    (∀ values, f.evaluate values = g.evaluate values) ∧
      ∀ b, f.evaluateNamed b = g.evaluateNamed b := by
  constructor
  · intro values
    unfold evaluate
    rw [hparameters, hvalue]
  · intro b
    unfold evaluateNamed missing unexpected
    rw [hparameters]
    simp only [hvalue]

/-- The evaluators are interchangeable.  For every expression, either both builds fail with one
error, or both give a formula with the same arguments; and then the formulas give the same
result for every row of arguments and for all named arguments, ask for the same places, all of
them places of arguments, and depend on what they ask for and on nothing else. -/
theorem build_interchangeable (e : Expr α) :
    (∃ fault, build .interpreted e = .error fault ∧ build .compiled e = .error fault) ∨
      ∃ f g, build .interpreted e = .ok f ∧ build .compiled e = .ok g ∧
        f.evaluator = .interpreted ∧ g.evaluator = .compiled ∧
        f.parameters = g.parameters ∧
        (∀ values, f.evaluate values = g.evaluate values) ∧
        (∀ b, f.evaluateNamed b = g.evaluateNamed b) ∧
        f.requests = g.requests ∧
        (∀ index ∈ f.requests, index < f.parameters.length) ∧
        ∀ args args', (∀ index ∈ f.requests, args index = args' index) →
          f.valueAt args = f.valueAt args' ∧ g.valueAt args = g.valueAt args' := by
  obtain hfault | ⟨code, hcode, hf, hg⟩ := build_cases e
  · exact .inl hfault
  · have hvalue (args : Nat → α) := (valueAt_compiled hcode args).symm
    obtain ⟨hrow, hnamed⟩ := evaluate_eq (f := interpreted e) (g := compiled e code) rfl hvalue
    refine .inr ⟨interpreted e, compiled e code, hf, hg, rfl, rfl, rfl, hrow, hnamed,
      (requests_compiled hcode).symm, requests_lt e, fun args args' hargs => ?_⟩
    have hread := valueAt_congr hargs
    exact ⟨hread, (hvalue args).symm.trans (hread.trans (hvalue args'))⟩

end Formula

end Fluxion
