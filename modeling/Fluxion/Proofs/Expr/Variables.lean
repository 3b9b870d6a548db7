import Fluxion.Formula
import Mathlib.Data.List.Induction
import Mathlib.Data.List.Nodup

/-!
# Variables of an expression

The variables of an expression are the names that occur in it, each once and in the order of their
first occurrences (`Expr.mem_freeVariables`, `Expr.nodup_freeVariables`,
`Expr.pairwise_freeVariables`).  The walk that computes a value reads them from left to right and
stays out of markers and assignments, so the value depends on the variables that are read and on
nothing else (`Expr.value_congr`); each of them occurs in the expression.
-/

set_option autoImplicit false

namespace Fluxion

section

variable {ε α β γ : Type} {x : Except ε α} {y : Except ε β}

/-- A computation that may fail gives a result through a step that gives one. -/
theorem bind_eq_ok_iff {f : α → Except ε β} {b : β} :
    (x >>= f) = .ok b ↔ ∃ a, x = .ok a ∧ f a = .ok b := by
  cases x with
  | error e => simp [bind, Except.bind]
  | ok a => simp [bind, Except.bind]

/-- A computation followed by a function gives a result through its own. -/
theorem return_eq_ok_iff {f : α → γ} {c : γ} :
    (do return f (← x)) = Except.ok c ↔ ∃ a, x = .ok a ∧ c = f a := by
  cases x with
  | error e => simp [bind, Except.bind]
  | ok a => simp [bind, Except.bind, pure, Except.pure, eq_comm]

/-- Two computations followed by a function give a result through both of theirs. -/
theorem return₂_eq_ok_iff {f : α → β → γ} {c : γ} :
    (do return f (← x) (← y)) = Except.ok c ↔ ∃ a b, x = .ok a ∧ y = .ok b ∧ c = f a b := by
  rw [bind_eq_ok_iff]
  constructor
  · rintro ⟨a, ha, h⟩
    obtain ⟨b, hb, hc⟩ := return_eq_ok_iff.mp h
    exact ⟨a, b, ha, hb, hc⟩
  · rintro ⟨a, b, ha, hb, hc⟩
    exact ⟨a, ha, return_eq_ok_iff.mpr ⟨b, hb, hc⟩⟩

/-- Renaming the errors of a computation leaves its results. -/
theorem mapError_eq_ok_iff {ε' : Type} {g : ε → ε'} {a : α} : x.mapError g = .ok a ↔ x = .ok a := by
  cases x <;> simp [Except.mapError]

end

namespace Expr

variable {ν : Type}

/-- An operator passes its check if both of its operands do. -/
theorem check_binary {op : Operator} {left right : Expr ν} :
    (Expr.binary op left right).check = .ok () ↔ left.check = .ok () ∧ right.check = .ok () := by
  constructor
  · intro h
    obtain ⟨⟨⟩, hleft, hright⟩ := bind_eq_ok_iff.mp h
    exact ⟨hleft, hright⟩
  · rintro ⟨hleft, hright⟩
    exact bind_eq_ok_iff.mpr ⟨(), hleft, hright⟩

/-- A call passes its check if its function is in the table and its argument passes. -/
theorem check_call {name : String} {argument : Expr ν} :
    (Expr.call name argument).check = .ok () ↔
      (∃ f, Builtin.ofName? name = some f) ∧ argument.check = .ok () := by
  rw [check]
  cases Builtin.ofName? name with
  | some f => simp
  | none => simp

/-- Adding a name to a row adds nothing else. -/
theorem mem_addName {names : List String} {name other : String} :
    other ∈ addName names name ↔ other ∈ names ∨ other = name := by
  unfold addName
  split
  · rename_i h
    constructor
    · exact Or.inl
    · rintro (hother | rfl)
      · exact hother
      · exact h
  · simp

/-- A name is added to a row once only. -/
theorem nodup_addName {names : List String} {name : String} (h : names.Nodup) :
    (addName names name).Nodup := by
  unfold addName
  split
  · exact h
  · rename_i hname
    rw [List.nodup_append]
    refine ⟨h, List.nodup_singleton name, ?_⟩
    rintro a ha b hb rfl
    obtain rfl := List.mem_singleton.mp hb
    exact hname ha

/-- Adding a row of names adds these names. -/
theorem mem_foldl_addName {row names : List String} {name : String} :
    name ∈ row.foldl addName names ↔ name ∈ names ∨ name ∈ row := by
  induction row generalizing names with
  | nil => simp
  | cons first row ih => rw [List.foldl_cons, ih, mem_addName, List.mem_cons, or_assoc]

/-- However many names are added, each stands in the row once. -/
theorem nodup_foldl_addName {row names : List String} (h : names.Nodup) :
    (row.foldl addName names).Nodup := by
  induction row generalizing names with
  | nil => exact h
  | cons first row ih => exact ih (nodup_addName h)

/-- The variables are the names that occur. -/
theorem mem_freeVariables {e : Expr ν} {name : String} :
    name ∈ e.freeVariables ↔ name ∈ e.occurrences := by
  rw [freeVariables, mem_foldl_addName]
  simp

/-- Each variable of an expression is listed once. -/
theorem nodup_freeVariables (e : Expr ν) : e.freeVariables.Nodup :=
  nodup_foldl_addName List.nodup_nil

/-- A row of names without its repetitions keeps the order in which the names occur first. -/
theorem pairwise_foldl_addName (row : List String) :
    (row.foldl addName []).Pairwise fun a b => row.idxOf a < row.idxOf b := by
  -- the induction takes the names off at the end, where they were collected last
  induction row using List.reverseRecOn with
  | nil => exact .nil
  | append_singleton row last ih =>
    have hrow : ∀ {a}, a ∈ row.foldl addName [] → a ∈ row := by
      intro a ha
      simpa using mem_foldl_addName.mp ha
    have hkept : (row.foldl addName []).Pairwise
        fun a b => (row ++ [last]).idxOf a < (row ++ [last]).idxOf b := by
      refine ih.imp_of_mem fun ha hb hlt => ?_
      rw [List.idxOf_append_of_mem (hrow ha), List.idxOf_append_of_mem (hrow hb)]
      exact hlt
    rw [List.foldl_append, List.foldl_cons, List.foldl_nil, addName]
    split
    · exact hkept
    · rename_i hlast
      have hnew : last ∉ row := by
        intro h
        exact hlast (mem_foldl_addName.mpr (.inr h))
      refine List.pairwise_append.mpr ⟨hkept, List.pairwise_singleton _ last, ?_⟩
      intro a ha b hb
      obtain rfl := List.mem_singleton.mp hb
      rw [List.idxOf_append_of_mem (hrow ha), List.idxOf_append_of_notMem hnew]
      exact Nat.lt_add_right _ (List.idxOf_lt_length_of_mem (hrow ha))

/-- The variables stand in the order of their first occurrences. -/
theorem pairwise_freeVariables (e : Expr ν) :
    e.freeVariables.Pairwise fun a b => e.occurrences.idxOf a < e.occurrences.idxOf b :=
  pairwise_foldl_addName e.occurrences

/-- The search for a name finds it exactly if the name occurs. -/
theorem mentions_eq_true_iff {e : Expr ν} {name : String} :
    e.mentions name = true ↔ name ∈ e.occurrences := by
  induction e with
  | number x => simp [mentions, occurrences]
  | constant c => simp [mentions, occurrences]
  | symbol own => rw [mentions, occurrences, beq_iff_eq, List.mem_singleton, eq_comm]
  | neg inner ih => exact ih
  | binary op left right ihleft ihright =>
    rw [mentions, occurrences, Bool.or_eq_true, ihleft, ihright, List.mem_append]
  | call f argument ih => exact ih
  | marker inner ih => exact ih
  | assign target value ihtarget ihvalue =>
    rw [mentions, occurrences, Bool.or_eq_true, ihtarget, ihvalue, List.mem_append]

/-- The variables that the walk over a tree reads, in the order in which it reads them.  It does
not enter markers and assignments, which have no value. -/
def reads : Expr ν → List String
  | .number _ | .constant _ => []
  | .symbol name => [name]
  | .neg inner | .call _ inner => inner.reads
  | .binary _ left right => left.reads ++ right.reads
  | .marker _ | .assign _ _ => []

/-- The walk reads only variables that occur. -/
theorem reads_subset_occurrences (e : Expr ν) : e.reads ⊆ e.occurrences := by
  induction e with
  | number x => exact List.Subset.refl _
  | constant c => exact List.Subset.refl _
  | symbol name => exact List.Subset.refl _
  | neg inner ih => exact ih
  | binary op left right ihleft ihright =>
    exact List.append_subset.mpr ⟨List.subset_append_of_subset_left _ ihleft,
      List.subset_append_of_subset_right _ ihright⟩
  | call f argument ih => exact ih
  | marker inner ih => exact List.nil_subset _
  | assign target value ihtarget ihvalue => exact List.nil_subset _

variable {α : Type} [Elementary α] [Arithmetic α]

/-- The value depends only on the variables that are read. -/
theorem value_congr {e : Expr α} {env env' : String → α}
    (h : ∀ name ∈ e.reads, env name = env' name) : e.value env = e.value env' := by
  induction e with
  | number x => rfl
  | constant c => rfl
  | symbol name => exact h name (List.mem_singleton_self name)
  | neg inner ih => rw [value, value, ih h]
  | binary op left right ihleft ihright =>
    rw [value, value, ihleft fun name hname => h name (List.mem_append_left _ hname),
      ihright fun name hname => h name (List.mem_append_right _ hname)]
  | call f argument ih => rw [value, value, ih h]
  | marker inner ih => rfl
  | assign target value ihtarget ihvalue => rfl

end Expr

end Fluxion
