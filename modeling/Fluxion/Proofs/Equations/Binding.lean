import Fluxion.Equations
import Fluxion.Proofs.Formula.Backends
import Mathlib.Data.List.Forall2

/-!
# When a system can be built

A formula can be bound exactly if each of its arguments is a variable or the independent variable
(`BoundFormula.exists_bind_iff`).  Right-hand sides form a system exactly if there is one, their
names are distinct and differ from the independent variable, and all of them can be bound
(`Equations.create_eq_ok_iff`).
-/

set_option autoImplicit false

namespace Fluxion

/-- In a list without repetitions each member has its own index. -/
theorem idxOf?_getElem {names : List String} (hnodup : names.Nodup) {i : Nat}
    (hi : i < names.length) : names.idxOf? names[i] = some i := by
  refine List.idxOf?_eq_some_iff.mpr ⟨hi, rfl, fun j hj heq => ?_⟩
  exact Nat.ne_of_lt hj (hnodup.getElem_inj_iff.mp heq)

section

variable {ε α β : Type} {f : α → Except ε β}

/-- A row of computations that may fail gives a row of results. -/
theorem mapM_eq_ok_iff {xs : List α} {ys : List β} :
    xs.mapM f = .ok ys ↔ List.Forall₂ (fun x y => f x = .ok y) xs ys := by
  induction xs generalizing ys with
  | nil => cases ys <;> simp [pure, Except.pure]
  | cons x xs ih =>
    rw [List.mapM_cons, bind_eq_ok_iff]
    constructor
    · rintro ⟨y, hy, h⟩
      obtain ⟨rest, hrest, h⟩ := bind_eq_ok_iff.mp h
      cases h
      exact .cons hy (ih.mp hrest)
    · intro h
      cases h with
      | cons hy hrest => exact ⟨_, hy, bind_eq_ok_iff.mpr ⟨_, ih.mpr hrest, rfl⟩⟩

/-- A row of computations gives one result for each of them. -/
theorem length_of_mapM {xs : List α} {ys : List β} (h : xs.mapM f = .ok ys) :
    ys.length = xs.length :=
  (mapM_eq_ok_iff.mp h).length_eq.symm

/-- What can be said of each result by its own computation can be said of the row of results. -/
theorem map_of_mapM {γ : Type} {g : β → γ} {k : α → γ} {xs : List α} {ys : List β}
    (h : xs.mapM f = .ok ys) (hg : ∀ x y, f x = .ok y → g y = k x) : ys.map g = xs.map k := by
  have hrow := mapM_eq_ok_iff.mp h
  clear h
  induction hrow with
  | nil => rfl
  | cons hy hrest ih => rw [List.map_cons, List.map_cons, hg _ _ hy, ih]

/-- If a row of computations succeeds, then so does each of them, with a result in the row. -/
theorem exists_mem_of_mapM {xs : List α} {ys : List β} (h : xs.mapM f = .ok ys) {x : α}
    (hx : x ∈ xs) : ∃ y ∈ ys, f x = .ok y := by
  have hrow := mapM_eq_ok_iff.mp h
  clear h
  induction hrow with
  | nil => cases hx
  | cons hy hrest ih =>
    obtain rfl | hx := List.mem_cons.mp hx
    · exact ⟨_, List.mem_cons_self, hy⟩
    · obtain ⟨y, hmem, hxy⟩ := ih hx
      exact ⟨y, List.mem_cons_of_mem _ hmem, hxy⟩

/-- Every result of a row of computations is that of one of them. -/
theorem exists_of_mem_mapM {xs : List α} {ys : List β} (h : xs.mapM f = .ok ys) {y : β}
    (hy : y ∈ ys) : ∃ x ∈ xs, f x = .ok y := by
  have hrow := mapM_eq_ok_iff.mp h
  clear h
  induction hrow with
  | nil => cases hy
  | cons hx hrest ih =>
    obtain rfl | hy := List.mem_cons.mp hy
    · exact ⟨_, List.mem_cons_self, hx⟩
    · obtain ⟨x, hmem, hxy⟩ := ih hy
      exact ⟨x, List.mem_cons_of_mem _ hmem, hxy⟩

/-- The result of a computation stands at the place of the computation. -/
theorem exists_getElem?_of_mapM {xs : List α} {ys : List β} (h : xs.mapM f = .ok ys) {i : Nat}
    {x : α} (hx : xs[i]? = some x) : ∃ y, ys[i]? = some y ∧ f x = .ok y := by
  obtain ⟨hi, rfl⟩ := List.getElem?_eq_some_iff.mp hx
  have hi' : i < ys.length := (length_of_mapM h).symm ▸ hi
  exact ⟨ys[i], List.getElem?_eq_getElem hi',
    (List.forall₂_iff_get.mp (mapM_eq_ok_iff.mp h)).2 i hi hi'⟩

/-- Computations each of which would fail with one error fail with it, if there are any. -/
theorem mapM_eq_error {xs : List α} {fault : ε} (hxs : xs ≠ [])
    (h : ∀ x ∈ xs, f x = .error fault) : xs.mapM f = .error fault := by
  cases xs with
  | nil => exact absurd rfl hxs
  | cons x xs =>
    rw [List.mapM_cons, h x List.mem_cons_self]
    rfl

/-- A row of computations succeeds exactly if each of them does. -/
theorem exists_mapM_eq_ok_iff {xs : List α} :
    (∃ ys, xs.mapM f = .ok ys) ↔ ∀ x ∈ xs, ∃ y, f x = .ok y := by
  constructor
  · rintro ⟨ys, h⟩ x hx
    obtain ⟨y, -, hy⟩ := exists_mem_of_mapM h hx
    exact ⟨y, hy⟩
  · intro h
    induction xs with
    | nil => exact ⟨[], rfl⟩
    | cons x xs ih =>
      obtain ⟨hx, hxs⟩ := List.forall_mem_cons.mp h
      obtain ⟨y, hy⟩ := hx
      obtain ⟨ys, hys⟩ := ih hxs
      exact ⟨y :: ys, mapM_eq_ok_iff.mpr (.cons hy (mapM_eq_ok_iff.mp hys))⟩

end

/-- A name has a slot if it is that of a variable or of the independent variable. -/
theorem Slot.exists_find_iff {names : List String} {independent name : String} :
    (∃ slot, Slot.find? names independent name = some slot) ↔
      name ∈ names ∨ name = independent := by
  unfold Slot.find?
  cases hindex : names.idxOf? name with
  | some index =>
    have hname : name ∈ names := by
      rw [← List.isSome_idxOf?, hindex]
      rfl
    exact iff_of_true ⟨_, rfl⟩ (.inl hname)
  | none =>
    have hname : name ∉ names := List.idxOf?_eq_none_iff.mp hindex
    by_cases hindependent : name = independent <;> simp [hname, hindependent]

section

variable {α : Type}

/-- All arguments of a formula are variables or the independent variable. -/
def Formula.IsClosed (names : List String) (independent : String) (f : Formula α) : Prop :=
  ∀ name ∈ f.parameters, name ∈ names ∨ name = independent

namespace BoundFormula

variable {label independent : String} {names : List String} {f : Formula α}

/-- A formula can be bound if all of its parameters have slots. -/
theorem exists_bind_iff :
    (∃ b, bind label names independent f = .ok b) ↔ f.IsClosed names independent := by
  constructor
  · rintro ⟨b, hb⟩ name hname
    obtain ⟨slots, hslots, -⟩ := bind_eq_ok_iff.mp hb
    obtain ⟨slot, hslot⟩ := exists_mapM_eq_ok_iff.mp ⟨slots, hslots⟩ name hname
    refine Slot.exists_find_iff.mp ⟨slot, ?_⟩
    split at hslot
    · rename_i found hfound
      cases hslot
      exact hfound
    · cases hslot
  · intro h
    refine (exists_mapM_eq_ok_iff.mpr ?_).elim fun slots hslots =>
      ⟨_, bind_eq_ok_iff.mpr ⟨slots, hslots, rfl⟩⟩
    intro name hname
    obtain ⟨slot, hslot⟩ := Slot.exists_find_iff.mpr (h name hname)
    refine ⟨slot, ?_⟩
    rw [hslot]

/-- Binding keeps the formula. -/
theorem formula_of_bind {b : BoundFormula α} (h : bind label names independent f = .ok b) :
    b.formula = f := by
  obtain ⟨slots, -, h⟩ := bind_eq_ok_iff.mp h
  cases h
  rfl

/-- A bound formula has one slot for each parameter. -/
theorem length_slots_of_bind {b : BoundFormula α} (h : bind label names independent f = .ok b) :
    b.slots.length = f.parameters.length := by
  obtain ⟨slots, hslots, h⟩ := bind_eq_ok_iff.mp h
  cases h
  exact length_of_mapM hslots

/-- The slot of a parameter is the one that its name finds. -/
theorem exists_slot_of_bind {b : BoundFormula α} (h : bind label names independent f = .ok b)
    {k : Nat} {name : String} (hname : f.parameters[k]? = some name) :
    ∃ slot, b.slots[k]? = some slot ∧ Slot.find? names independent name = some slot := by
  obtain ⟨slots, hslots, h⟩ := bind_eq_ok_iff.mp h
  cases h
  obtain ⟨slot, hslot, hfind⟩ := exists_getElem?_of_mapM hslots hname
  refine ⟨slot, hslot, ?_⟩
  split at hfind
  · rename_i found hfound
    cases hfind
    exact hfound
  · cases hfind

end BoundFormula

section Slots

variable [Elementary α]

/-- The value that a slot stands for at a time and a point. -/
def Slot.value (t : α) (x : List α) : Slot → α
  | .independent => t
  | .state index => x.getD index Elementary.undefined

/-- The argument that a bound formula gets for a parameter is the value of its slot. -/
theorem BoundFormula.argument_eq_slot (b : BoundFormula α) (t : α) (x : List α) (k : Nat) :
    b.argument t x k = (b.slots[k]?.map (Slot.value t x)).getD Elementary.undefined := by
  unfold argument
  rcases b.slots[k]? with - | (- | index) <;> rfl

end Slots

namespace Equations

variable {independent : String} {names seen : List String}

/-- The names of a system pass their check if they are distinct, differ from that of the independent
variable and have not been seen before. -/
theorem checkNames_eq_ok_iff :
    (checkNames independent seen names : Except (EquationsError α) Unit) = .ok () ↔
      names.Nodup ∧ independent ∉ names ∧ ∀ name ∈ names, name ∉ seen := by
  -- the names before the ones that remain are those seen
  induction names generalizing seen with
  | nil => simp [checkNames]
  | cons name rest ih =>
    unfold checkNames
    split
    · rename_i hindependent
      simp [hindependent]
    · rename_i hindependent
      split
      · rename_i hseen
        simp [hseen]
      · rename_i hseen
        rw [ih, List.nodup_cons, List.mem_cons, List.forall_mem_cons]
        simp only [List.mem_cons, not_or]
        grind

/-- Right-hand sides whose names are distinct and differ from the independent variable, and whose
arguments are all among them. -/
structure IsClosed (independent : String) (equations : List (String × Formula α)) : Prop where
  nonempty : equations ≠ []
  nodup : (equations.map (·.1)).Nodup
  independent_not_mem : independent ∉ equations.map (·.1)
  closed : ∀ equation ∈ equations, equation.2.IsClosed (equations.map (·.1)) independent

variable {equations : List (String × Formula α)} {s : Equations α}

/-- What a system is made of: the names and the right-hand sides that were given. -/
theorem create_eq_ok_iff :
    create independent equations = .ok s ↔
      equations ≠ [] ∧ (equations.map (·.1)).Nodup ∧ independent ∉ equations.map (·.1) ∧
        ∃ rightHandSides,
          equations.mapM (fun equation => BoundFormula.bind equation.1
            (equations.map (·.1)) independent equation.2) = .ok rightHandSides ∧
          s = { independent, names := equations.map (·.1), rightHandSides } := by
  unfold create
  cases equations with
  | nil => simp [throw, throwThe, MonadExceptOf.throw, bind, Except.bind]
  | cons first rest =>
    have hnonempty : ¬ (first :: rest).isEmpty = true := by simp
    rw [if_neg hnonempty]
    constructor
    · intro h
      obtain ⟨⟨⟩, hnames, h⟩ := bind_eq_ok_iff.mp h
      obtain ⟨rightHandSides, hbound, h⟩ := bind_eq_ok_iff.mp h
      obtain ⟨hnodup, hindependent, -⟩ := checkNames_eq_ok_iff.mp hnames
      cases h
      exact ⟨by simp, hnodup, hindependent, rightHandSides, hbound, rfl⟩
    · rintro ⟨-, hnodup, hindependent, rightHandSides, hbound, rfl⟩
      have hnames : (checkNames independent [] ((first :: rest).map (·.1)) :
          Except (EquationsError α) Unit) = .ok () :=
        checkNames_eq_ok_iff.mpr ⟨hnodup, hindependent, by simp⟩
      exact bind_eq_ok_iff.mpr ⟨(), hnames, bind_eq_ok_iff.mpr ⟨rightHandSides, hbound, rfl⟩⟩

/-- Right-hand sides form a system exactly if they are closed. -/
theorem exists_create_iff :
    (∃ s, create independent equations = .ok s) ↔ IsClosed independent equations := by
  simp only [create_eq_ok_iff]
  constructor
  · rintro ⟨s, hnonempty, hnodup, hindependent, rightHandSides, hbound, -⟩
    refine ⟨hnonempty, hnodup, hindependent, fun equation hequation => ?_⟩
    obtain ⟨b, -, hb⟩ := exists_mem_of_mapM hbound hequation
    exact BoundFormula.exists_bind_iff.mp ⟨b, hb⟩
  · rintro ⟨hnonempty, hnodup, hindependent, hclosed⟩
    have hbind : ∀ equation ∈ equations, ∃ b, BoundFormula.bind equation.1
        (equations.map (·.1)) independent equation.2 = .ok b :=
      fun equation hequation => BoundFormula.exists_bind_iff.mpr (hclosed equation hequation)
    obtain ⟨rightHandSides, hbound⟩ := exists_mapM_eq_ok_iff.mpr hbind
    exact ⟨_, hnonempty, hnodup, hindependent, rightHandSides, hbound, rfl⟩

end Equations

end

end Fluxion
