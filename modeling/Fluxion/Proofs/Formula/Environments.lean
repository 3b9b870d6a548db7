import Fluxion.Proofs.Equations.Evaluators
import Fluxion.Services
import Mathlib.Data.String.Basic

/-!
# A formula is a function of an environment

The arguments of a formula can be given in a row or by name.  Either way they make an environment
of the variables, and the result is the value of the expression in it (`Formula.IsFunctionOf`).  A
row is refused for its length only, and names are refused only if they are not those of the
variables.

Names come with their values in some order, which cannot be seen: a value is looked up by its name,
the missing names are reported in the order of the variables and the unexpected ones are sorted
(`Formula.evaluateNamed_congr`).
-/

set_option autoImplicit false

namespace Fluxion

/-! ## Values by key -/

section

variable {κ β : Type} [DecidableEq κ] {entries entries' : List (κ × β)}

/-- A key has no value if no entry has it. -/
theorem lookup_eq_none_iff_not_mem {key : κ} :
    entries.lookup key = none ↔ key ∉ entries.map (·.1) := by
  rw [List.lookup_eq_none_iff, List.mem_map]
  constructor
  · rintro h ⟨entry, hentry, rfl⟩
    simpa using h entry hentry
  · intro h entry hentry
    rw [bne_iff_ne]
    rintro rfl
    exact h ⟨entry, hentry, rfl⟩

/-- If no key is given twice, looking up a key finds what was given for it. -/
theorem lookup_eq_some_iff_mem (hnodup : (entries.map (·.1)).Nodup) {key : κ} {value : β} :
    entries.lookup key = some value ↔ (key, value) ∈ entries := by
  induction entries with
  | nil => simp
  | cons entry entries ih =>
    obtain ⟨own, first⟩ := entry
    rw [List.map_cons, List.nodup_cons] at hnodup
    obtain ⟨hown, hrest⟩ := hnodup
    rw [List.lookup_cons, List.mem_cons, ← ih hrest]
    by_cases hkey : key = own
    · subst hkey
      have hnone : entries.lookup key = none := lookup_eq_none_iff_not_mem.mpr hown
      simp [hnone, eq_comm]
    · simp [hkey, beq_false_of_ne hkey]

/-- If no key is given twice, it does not matter in which order the entries come. -/
theorem lookup_eq_of_perm (hnodup : (entries.map (·.1)).Nodup) (hperm : entries'.Perm entries)
    (key : κ) : entries'.lookup key = entries.lookup key := by
  have hnodup' : (entries'.map (·.1)).Nodup := (hperm.map _).nodup_iff.mpr hnodup
  refine Option.ext fun value => ?_
  rw [lookup_eq_some_iff_mem hnodup, lookup_eq_some_iff_mem hnodup', hperm.mem_iff]

end

namespace Bindings

variable {α : Type}

/-- The environment that named values make. -/
def environment [Elementary α] (b : Bindings α) (name : String) : α :=
  (b.get? name).getD Elementary.undefined

/-- Distinct names are bound in the order in which they are given. -/
theorem foldl_put {entries pairs : List (String × α)}
    (hnodup : ((entries ++ pairs).map (·.1)).Nodup) :
    pairs.foldl put ⟨entries⟩ = ⟨entries ++ pairs⟩ := by
  induction pairs generalizing entries with
  | nil => simp
  | cons pair pairs ih =>
    have hnew : pair.1 ∉ (Bindings.mk entries).names := by
      rw [List.map_append, List.map_cons] at hnodup
      intro h
      exact (List.disjoint_of_nodup_append hnodup) h List.mem_cons_self
    rw [List.foldl_cons, put, if_neg hnew, ih (by simpa using hnodup)]
    simp

/-- Bindings of distinct names are what was given. -/
theorem ofList_of_nodup {pairs : List (String × α)} (hnodup : (pairs.map (·.1)).Nodup) :
    ofList pairs = ⟨pairs⟩ :=
  foldl_put hnodup

end Bindings

/-! ## Formulas -/

namespace Formula

variable {α : Type}

/-- The names of the bindings are the variables. -/
def Fits (f : Formula α) (b : Bindings α) : Prop :=
  ∀ name, name ∈ b.names ↔ name ∈ f.parameters

/-- A formula is a function of the environments of an expression.  Its parameters are the variables
of the expression, in the order of their first occurrences.  A row of arguments is refused for its
length and named arguments for their names, with the names that are missing, in the order of the
variables, and those that are unexpected, sorted; and what is not refused has the value of the
expression in the environment that the arguments make. -/
structure IsFunctionOf [Elementary α] [Arithmetic α] (f : Formula α) (e : Expr α) : Prop where
  mem_parameters_iff : ∀ name, name ∈ f.parameters ↔ name ∈ e.occurrences
  nodup : f.parameters.Nodup
  pairwise : f.parameters.Pairwise fun a b => e.occurrences.idxOf a < e.occurrences.idxOf b
  evaluate_error_iff : ∀ (values : List α) (fault : EvaluationError),
    f.evaluate values = .error fault ↔
      values.length ≠ f.parameters.length ∧ fault = .arity f.parameters.length values.length
  evaluateNamed_error_iff : ∀ (b : Bindings α) (fault : EvaluationError),
    f.evaluateNamed b = .error fault ↔
      ¬ f.Fits b ∧ ∃ unexpected,
        fault = .bindings (f.parameters.filter fun name => name ∉ b.names) unexpected ∧
          unexpected.Perm (b.names.filter fun name => name ∉ f.parameters) ∧
          unexpected.Pairwise (· ≤ ·)
  evaluate_map : ∀ env : String → α, f.evaluate (f.parameters.map env) = .ok (e.value env)
  evaluateNamed_eq : ∀ (b : Bindings α) (env : String → α), f.Fits b →
    (∀ name ∈ f.parameters, b.get? name = some (env name)) → f.evaluateNamed b = .ok (e.value env)
  agree : ∀ (values : List α) (b : Bindings α) (x y : α),
    f.evaluate values = .ok x → f.evaluateNamed b = .ok y →
      (∀ (i : ℕ) (name : String), f.parameters[i]? = some name → b.get? name = values[i]?) →
        x = y ∧ y = e.value b.environment

section

variable (f : Formula α) (b b' : Bindings α)

/-- The names that a formula reports as unexpected are those that are no parameters. -/
theorem unexpected_perm :
    (f.unexpected b).Perm (b.names.filter fun name => name ∉ f.parameters) := by
  unfold unexpected
  refine (List.mergeSort_perm _ _).trans ?_
  simp

/-- The unexpected names are reported in alphabetical order. -/
theorem pairwise_unexpected : (f.unexpected b).Pairwise (· ≤ ·) := by
  unfold unexpected
  have htrans : ∀ x y z : String, decide (x ≤ y) → decide (y ≤ z) → decide (x ≤ z) := by
    intro x y z hxy hyz
    exact decide_eq_true (le_trans (of_decide_eq_true hxy) (of_decide_eq_true hyz))
  have htotal : ∀ x y : String, (decide (x ≤ y) || decide (y ≤ x)) = true := by
    intro x y
    rw [Bool.or_eq_true, decide_eq_true_eq, decide_eq_true_eq]
    exact le_total x y
  exact (List.pairwise_mergeSort htrans htotal _).imp fun h => of_decide_eq_true h

/-- The unexpected names are sorted, so they are reported in one order only. -/
theorem eq_unexpected {names : List String} (hsorted : names.Pairwise (· ≤ ·))
    (hperm : names.Perm (b.names.filter fun name => name ∉ f.parameters)) :
    names = f.unexpected b := by
  refine (hperm.trans (unexpected_perm f b).symm).eq_of_pairwise ?_ hsorted
    (pairwise_unexpected f b)
  intro x y _ _ hxy hyx
  exact le_antisymm hxy hyx

/-- The missing names are the parameters without a value, in the order of the parameters. -/
theorem missing_eq : f.missing b = f.parameters.filter fun name => name ∉ b.names := by
  unfold missing
  simp

/-- Bindings fit a formula if nothing is missing and nothing unexpected. -/
theorem fits_iff : f.Fits b ↔ f.missing b = [] ∧ f.unexpected b = [] := by
  have hunexpected : f.unexpected b = [] ↔ ∀ name ∈ b.names, name ∈ f.parameters := by
    have hlength := (unexpected_perm f b).length_eq
    rw [← List.length_eq_zero_iff, hlength, List.length_eq_zero_iff, List.filter_eq_nil_iff]
    simp
  have hmissing : f.missing b = [] ↔ ∀ name ∈ f.parameters, name ∈ b.names := by
    rw [missing_eq, List.filter_eq_nil_iff]
    simp
  rw [hmissing, hunexpected]
  constructor
  · intro h
    exact ⟨fun name => (h name).mpr, fun name => (h name).mp⟩
  · rintro ⟨hforth, hback⟩ name
    exact ⟨hback name, hforth name⟩

end

variable [Elementary α] [Arithmetic α] {f : Formula α} {b b' : Bindings α}

/-- Bindings that fit give the value at the arguments that they bind. -/
theorem evaluateNamed_of_fits (h : f.Fits b) :
    f.evaluateNamed b = .ok (f.valueAt fun index =>
      (f.parameters[index]?.bind b.get?).getD Elementary.undefined) := by
  obtain ⟨hmissing, hunexpected⟩ := (fits_iff f b).mp h
  unfold evaluateNamed
  rw [if_neg (by simp [hmissing, hunexpected])]

/-- Bindings that do not fit are refused with both lists of names. -/
theorem evaluateNamed_of_not_fits (h : ¬ f.Fits b) :
    f.evaluateNamed b = .error (.bindings (f.missing b) (f.unexpected b)) := by
  rw [fits_iff, not_and_or] at h
  unfold evaluateNamed
  rw [if_pos h]

/-- A value at named arguments shows that they fit. -/
theorem fits_of_evaluateNamed {x : α} (h : f.evaluateNamed b = .ok x) : f.Fits b := by
  by_contra hfits
  rw [evaluateNamed_of_not_fits hfits] at h
  cases h

/-- Evaluation by name fails with the missing and the unexpected names, and only if the bindings do
not fit. -/
theorem evaluateNamed_error_iff {fault : EvaluationError} :
    f.evaluateNamed b = .error fault ↔
      ¬ f.Fits b ∧ ∃ unexpected,
        fault = .bindings (f.parameters.filter fun name => name ∉ b.names) unexpected ∧
          unexpected.Perm (b.names.filter fun name => name ∉ f.parameters) ∧
          unexpected.Pairwise (· ≤ ·) := by
  constructor
  · intro h
    have hfits : ¬ f.Fits b := by
      intro hfits
      rw [evaluateNamed_of_fits hfits] at h
      cases h
    rw [evaluateNamed_of_not_fits hfits] at h
    cases h
    exact ⟨hfits, f.unexpected b, by rw [missing_eq], unexpected_perm f b, pairwise_unexpected f b⟩
  · rintro ⟨hfits, unexpected, rfl, hperm, hsorted⟩
    rw [evaluateNamed_of_not_fits hfits, missing_eq, eq_unexpected f b hsorted hperm]

/-- Evaluation by position fails with both numbers, and only if they differ. -/
theorem evaluate_error_iff {values : List α} {fault : EvaluationError} :
    f.evaluate values = .error fault ↔
      values.length ≠ f.parameters.length ∧ fault = .arity f.parameters.length values.length := by
  unfold evaluate
  split
  · rename_i hlength
    simp [hlength, eq_comm]
  · rename_i hlength
    simp [hlength]

/-- A value at positional arguments shows that their number is right. -/
theorem length_of_evaluate {values : List α} {x : α} (h : f.evaluate values = .ok x) :
    values.length = f.parameters.length := by
  by_contra hlength
  rw [evaluate_error_iff.mpr ⟨hlength, rfl⟩] at h
  cases h

/-- Bindings of the same values to the same names give the same result, in whatever order they
are. -/
theorem evaluateNamed_congr (hnames : b'.names.Perm b.names)
    (hget : ∀ name, b'.get? name = b.get? name) : f.evaluateNamed b' = f.evaluateNamed b := by
  have hmissing : f.missing b' = f.missing b := by
    rw [missing_eq, missing_eq]
    simp only [hnames.mem_iff]
  have hunexpected : f.unexpected b' = f.unexpected b := by
    refine eq_unexpected f b (pairwise_unexpected f b') ?_
    exact (unexpected_perm f b').trans (hnames.filter _)
  have hlookup : b'.get? = b.get? := funext hget
  unfold evaluateNamed
  rw [hmissing, hunexpected, hlookup]

section

variable {evaluator : Evaluator} {e : Expr α} (h : build evaluator e = .ok f)
include h

/-- Evaluated at the values of its parameters, a formula has the value of its expression. -/
theorem evaluate_map (env : String → α) :
    f.evaluate (f.parameters.map env) = .ok (e.value env) := by
  unfold evaluate
  rw [if_neg (by simp)]
  refine congrArg Except.ok (valueAt_eq_value h fun i name hname => ?_)
  rw [List.getD_eq_getElem?_getD, List.getElem?_map, hname]
  rfl

/-- Evaluated at bindings of its parameters, a formula has the value of its expression. -/
theorem evaluateNamed_eq {env : String → α} (hfits : f.Fits b)
    (henv : ∀ name ∈ f.parameters, b.get? name = some (env name)) :
    f.evaluateNamed b = .ok (e.value env) := by
  rw [evaluateNamed_of_fits hfits]
  refine congrArg Except.ok (valueAt_eq_value h fun i name hname => ?_)
  rw [hname, Option.bind_some, henv name (List.mem_of_getElem? hname)]
  rfl

/-- A row of arguments and the same arguments by name make one environment. -/
theorem evaluate_agree {values : List α} {x y : α} (hrow : f.evaluate values = .ok x)
    (hnamed : f.evaluateNamed b = .ok y)
    (hsame : ∀ (i : ℕ) (name : String), f.parameters[i]? = some name → b.get? name = values[i]?) :
    x = y ∧ y = e.value b.environment := by
  have hlength := length_of_evaluate hrow
  have hget : ∀ name ∈ f.parameters, b.get? name = some (b.environment name) := by
    intro name hname
    obtain ⟨i, hi, rfl⟩ := List.getElem_of_mem hname
    have hvalue := hsame i _ (List.getElem?_eq_getElem hi)
    rw [List.getElem?_eq_getElem (hlength ▸ hi)] at hvalue
    rw [Bindings.environment, hvalue]
    rfl
  have hvalues : values = f.parameters.map b.environment := by
    refine List.ext_getElem? fun i => ?_
    rw [List.getElem?_map]
    cases hname : f.parameters[i]? with
    | none =>
      rw [List.getElem?_eq_none_iff] at hname
      exact List.getElem?_eq_none (hlength ▸ hname)
    | some name =>
      rw [← hsame i name hname, hget name (List.mem_of_getElem? hname)]
      rfl
  rw [hvalues, evaluate_map h] at hrow
  rw [evaluateNamed_eq h (fits_of_evaluateNamed hnamed) hget] at hnamed
  cases hrow
  cases hnamed
  exact ⟨rfl, rfl⟩

/-- Whichever way an expression is evaluated, it is a function of its environments. -/
theorem isFunctionOf_of_build : f.IsFunctionOf e where
  mem_parameters_iff name := by
    rw [parameters_of_build h]
    exact Expr.mem_freeVariables
  nodup := by
    rw [parameters_of_build h]
    exact Expr.nodup_freeVariables e
  pairwise := by
    rw [parameters_of_build h]
    exact Expr.pairwise_freeVariables e
  evaluate_error_iff _ _ := evaluate_error_iff
  evaluateNamed_error_iff _ _ := evaluateNamed_error_iff
  evaluate_map := evaluate_map h
  evaluateNamed_eq _ _ := evaluateNamed_eq h
  agree _ _ _ _ := evaluate_agree h

end

end Formula

/-! ## Source texts -/

namespace Source

/-- Arguments that are given by distinct names can be given in any order. -/
theorem evaluate_perm (source : String) {entries entries' : List (String × Float)}
    (hnodup : (entries.map (·.1)).Nodup) (hperm : entries'.Perm entries) :
    evaluate source (entries'.map (·.1)) (entries'.map (·.2)) =
      evaluate source (entries.map (·.1)) (entries.map (·.2)) := by
  have hnodup' : (entries'.map (·.1)).Nodup := (hperm.map _).nodup_iff.mpr hnodup
  have hresult (f : Formula Float) :
      f.evaluateNamed (.ofList entries') = f.evaluateNamed (.ofList entries) := by
    rw [Bindings.ofList_of_nodup hnodup, Bindings.ofList_of_nodup hnodup']
    exact Formula.evaluateNamed_congr (hperm.map _) (lookup_eq_of_perm hnodup hperm)
  unfold evaluate
  rw [← List.zip_of_prod rfl rfl, ← List.zip_of_prod rfl rfl]
  simp only [List.length_map, ne_eq, not_true_eq_false, if_false, hresult]

/-- Evaluation by place and by name are one function of an environment: every formula, built for
either evaluator, is a function of the environments of its expression.  So the value of a text does
not depend on the order in which its arguments are named. -/
theorem evaluation_by_environment :
    (∀ (evaluator : Evaluator) (e : Expr Float) (f : Formula Float),
      Formula.build evaluator e = .ok f → f.IsFunctionOf e) ∧
    ∀ (source : String) (entries entries' : List (String × Float)),
      (entries.map (·.1)).Nodup → entries'.Perm entries →
        evaluate source (entries'.map (·.1)) (entries'.map (·.2)) =
          evaluate source (entries.map (·.1)) (entries.map (·.2)) :=
  ⟨fun _ _ _ h => Formula.isFunctionOf_of_build h, fun source _ _ => evaluate_perm source⟩

/-- A program for `y * x + y`, and the text evaluated at both orders of its arguments. -/
theorem evaluation_by_environment_interleaved :
    (∃ f : Formula Float,
      Formula.build .compiled (.binary .add (.binary .mul (.symbol "y") (.symbol "x"))
        (.symbol "y")) = .ok f ∧
      f.parameters = ["y", "x"] ∧
      f.IsFunctionOf (.binary .add (.binary .mul (.symbol "y") (.symbol "x")) (.symbol "y"))) ∧
    evaluate "y * x + y" ["x", "y"] [3, 2] = evaluate "y * x + y" ["y", "x"] [2, 3] := by
  constructor
  · exact ⟨_, rfl, rfl, evaluation_by_environment.1 .compiled _ _ rfl⟩
  · exact evaluation_by_environment.2 "y * x + y" [("y", 2), ("x", 3)] [("x", 3), ("y", 2)]
      (by decide) (.swap _ _ _)

end Source

end Fluxion
