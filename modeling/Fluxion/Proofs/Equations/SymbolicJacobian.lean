import Fluxion.Proofs.Equations.Binding

/-!
# Attaching all partial derivatives

A system is self-contained if its right-hand sides are evaluable and have no variables other than
those of the system (`Equations.IsSelfContained`).  Every system that was built from formulas is.
Since a derivative is again evaluable and brings no new variables, all partial derivatives of a
self-contained system can be attached (`Equations.exists_attachSymbolic`), and then there is an
entry for each pair of variables (`Equations.exists_entry_of_attachSymbolic`).
-/

set_option autoImplicit false

namespace Fluxion.Equations

variable {α : Type}

/-- The right-hand sides are evaluable, and their variables are those of the system. -/
structure IsSelfContained (s : Equations α) : Prop where
  evaluable : ∀ b ∈ s.rightHandSides, b.formula.expression.IsEvaluable
  closed : ∀ b ∈ s.rightHandSides, ∀ name ∈ b.formula.expression.freeVariables,
    name ∈ s.names ∨ name = s.independent

section Building

variable {independent : String} {equations : List (String × Formula α)} {s : Equations α}

/-- A system has one right-hand side for each of its variables. -/
theorem length_rightHandSides_of_create (h : create independent equations = .ok s) :
    s.rightHandSides.length = s.names.length := by
  obtain ⟨-, -, -, rightHandSides, hbound, rfl⟩ := create_eq_ok_iff.mp h
  rw [length_of_mapM hbound, List.length_map]

/-- The variables of a system are distinct. -/
theorem nodup_of_create (h : create independent equations = .ok s) : s.names.Nodup := by
  obtain ⟨-, hnodup, -, rightHandSides, -, rfl⟩ := create_eq_ok_iff.mp h
  exact hnodup

/-- A system starts without attached partial derivatives. -/
theorem entries_of_create (h : create independent equations = .ok s) : s.entries = [] := by
  obtain ⟨-, -, -, rightHandSides, -, rfl⟩ := create_eq_ok_iff.mp h
  rfl

/-- A system starts without a way to estimate partial derivatives. -/
theorem estimate_of_create (h : create independent equations = .ok s) : s.estimate = none := by
  obtain ⟨-, -, -, rightHandSides, -, rfl⟩ := create_eq_ok_iff.mp h
  rfl

/-- The variables of a system are those of its equations, in their order. -/
theorem names_of_create (h : create independent equations = .ok s) :
    s.names = equations.map (·.1) := by
  obtain ⟨-, -, -, rightHandSides, -, rfl⟩ := create_eq_ok_iff.mp h
  rfl

/-- The right-hand sides of a system are the formulas that it was built from, in order. -/
theorem formulas_of_create (h : create independent equations = .ok s) :
    s.rightHandSides.map (·.formula) = equations.map (·.2) := by
  obtain ⟨-, -, -, rightHandSides, hbound, rfl⟩ := create_eq_ok_iff.mp h
  exact map_of_mapM hbound fun equation b hb => BoundFormula.formula_of_bind hb

/-- The variable of a column is the name that was given there. -/
theorem getElem?_names_of_create (h : create independent equations = .ok s) {column : Nat}
    {name : String} {g : Formula α} (hcolumn : equations[column]? = some (name, g)) :
    s.names[column]? = some name := by
  rw [names_of_create h, List.getElem?_map, hcolumn]
  rfl

/-- The right-hand side of a row is the formula of the row, bound. -/
theorem exists_bind_of_create (h : create independent equations = .ok s) {row : Nat}
    {rowName : String} {f : Formula α} (hrow : equations[row]? = some (rowName, f)) :
    ∃ b, s.rightHandSides[row]? = some b ∧
      BoundFormula.bind rowName s.names s.independent f = .ok b := by
  obtain ⟨-, -, -, rightHandSides, hbound, rfl⟩ := create_eq_ok_iff.mp h
  exact exists_getElem?_of_mapM hbound hrow

/-- The right-hand sides of a system are formulas that it was built from, with arguments that are
variables of the system. -/
theorem exists_equation_of_create (h : create independent equations = .ok s) {b : BoundFormula α}
    (hb : b ∈ s.rightHandSides) :
    ∃ equation ∈ equations, b.formula = equation.2 ∧ b.formula.IsClosed s.names s.independent := by
  obtain ⟨-, -, -, rightHandSides, hbound, rfl⟩ := create_eq_ok_iff.mp h
  obtain ⟨equation, hequation, hbind⟩ := exists_of_mem_mapM hbound hb
  have hformula := BoundFormula.formula_of_bind hbind
  refine ⟨equation, hequation, hformula, ?_⟩
  rw [hformula]
  exact BoundFormula.exists_bind_iff.mp ⟨b, hbind⟩

variable [Elementary α]

/-- A formula that came of an expression. -/
def IsBuilt (f : Formula α) : Prop :=
  ∃ evaluator e, Formula.build evaluator e = .ok f

/-- The right-hand sides of a system use its own names only. -/
theorem isSelfContained_of_create (hbuilt : ∀ equation ∈ equations, IsBuilt equation.2)
    (h : create independent equations = .ok s) : s.IsSelfContained := by
  constructor
  · intro b hb
    obtain ⟨equation, hequation, hformula, -⟩ := exists_equation_of_create h hb
    obtain ⟨evaluator, e, he⟩ := hbuilt equation hequation
    rw [hformula, Formula.expression_of_build he]
    exact Formula.exists_build_iff.mp ⟨_, he⟩
  · intro b hb
    obtain ⟨equation, hequation, hformula, hclosed⟩ := exists_equation_of_create h hb
    obtain ⟨evaluator, e, he⟩ := hbuilt equation hequation
    rw [hformula] at hclosed ⊢
    rw [Formula.expression_of_build he, ← Formula.parameters_of_build he]
    exact hclosed

end Building

section Attaching

variable {s s' : Equations α} {entries : List ((String × String) × Formula α)}

/-- A name has an index if it is that of a variable. -/
theorem exists_index_iff {name : String} : (∃ i, s.index? name = some i) ↔ name ∈ s.names := by
  rw [← List.isSome_idxOf?, Option.isSome_iff_exists]
  rfl

/-- Each variable of a system without repetitions has its own index. -/
theorem index_getElem (hnodup : s.names.Nodup) {i : Nat} (hi : i < s.names.length) :
    s.index? s.names[i] = some i :=
  idxOf?_getElem hnodup hi

/-- The entry that counts for a pair of indices is one of those attached. -/
theorem mem_entries_of_entryAt {row column : Nat} {b : BoundFormula α}
    (h : s.entryAt? row column = some b) : ((row, column), b) ∈ s.entries := by
  obtain ⟨before, behind, hentries, -⟩ := List.lookup_eq_some_iff.mp h
  rw [hentries]
  exact List.mem_append_right _ List.mem_cons_self

/-- The entry that counts for two variables is the one at their indices. -/
theorem exists_entryAt_of_entry (hnodup : s.names.Nodup) {row column : Nat}
    (hrow : row < s.names.length) (hcolumn : column < s.names.length) {f : Formula α}
    (h : entry? s s.names[row] s.names[column] = some f) :
    ∃ b, s.entryAt? row column = some b := by
  simp only [index_getElem hnodup hrow, index_getElem hnodup hcolumn, entry?,
    Option.bind_eq_bind, Option.bind_some] at h
  obtain ⟨b, hb, -⟩ := Option.bind_eq_some_iff.mp h
  exact ⟨b, hb⟩

/-- An entry is bound at the indices of its two names, and its formula under the names of the
system. -/
theorem bindEntry_eq_ok_iff {row column : String} {f : Formula α}
    {bound : (Nat × Nat) × BoundFormula α} :
    s.bindEntry ((row, column), f) = .ok bound ↔
      s.index? row = some bound.1.1 ∧ s.index? column = some bound.1.2 ∧
        BoundFormula.bind ("d" ++ row ++ "/d" ++ column) s.names s.independent f = .ok bound.2 := by
  cases hrow : s.index? row with
  | none => simp [bindEntry, hrow, throw, throwThe, MonadExceptOf.throw]
  | some r =>
    cases hcolumn : s.index? column with
    | none => simp [bindEntry, hrow, hcolumn, throw, throwThe, MonadExceptOf.throw]
    | some c =>
      simp only [bindEntry, hrow, hcolumn]
      rw [bind_eq_ok_iff]
      constructor
      · rintro ⟨b, hb, h⟩
        cases h
        exact ⟨rfl, rfl, hb⟩
      · rintro ⟨hr, hc, hb⟩
        cases hr
        cases hc
        exact ⟨bound.2, hb, rfl⟩

/-- A closed formula can be bound as the entry of any two variables. -/
theorem exists_bindEntry {row column : String} {f : Formula α} (hrow : row ∈ s.names)
    (hcolumn : column ∈ s.names) (hf : f.IsClosed s.names s.independent) :
    ∃ bound, s.bindEntry ((row, column), f) = .ok bound := by
  obtain ⟨r, hr⟩ := exists_index_iff.mpr hrow
  obtain ⟨c, hc⟩ := exists_index_iff.mpr hcolumn
  have hbind : ∃ b,
      BoundFormula.bind ("d" ++ row ++ "/d" ++ column) s.names s.independent f = .ok b :=
    BoundFormula.exists_bind_iff.mpr hf
  obtain ⟨b, hb⟩ := hbind
  exact ⟨((r, c), b), bindEntry_eq_ok_iff.mpr ⟨hr, hc, hb⟩⟩

/-- Entries can be attached if their rows and columns are variables and their arguments are
variables or the independent variable. -/
theorem exists_attach (h : ∀ entry ∈ entries, entry.1.1 ∈ s.names ∧ entry.1.2 ∈ s.names ∧
    entry.2.IsClosed s.names s.independent) : ∃ s', s.attach entries = .ok s' := by
  have hbind : ∀ entry ∈ entries, ∃ bound, s.bindEntry entry = .ok bound := by
    intro entry hentry
    obtain ⟨hrow, hcolumn, hf⟩ := h entry hentry
    exact exists_bindEntry hrow hcolumn hf
  obtain ⟨bound, hbound⟩ := exists_mapM_eq_ok_iff.mpr hbind
  exact ⟨_, bind_eq_ok_iff.mpr ⟨bound, hbound, rfl⟩⟩

/-- Attaching adds entries and changes nothing else. -/
theorem exists_added_of_attach (h : s.attach entries = .ok s') :
    ∃ added, s' = { s with entries := added ++ s.entries } := by
  obtain ⟨bound, -, h⟩ := bind_eq_ok_iff.mp h
  cases h
  exact ⟨bound.reverse, rfl⟩

/-- A way to estimate derivatives can be attached if the distance of its points is a positive
number. -/
theorem attachEstimate_eq_ok_iff [NatCast α] [LT α] [DecidableLT α] [Finiteness α]
    {d : Difference α} :
    s.attachEstimate d = .ok s' ↔
      IsPositive d.increment ∧ s' = { s with estimate := some d } := by
  unfold attachEstimate Difference.check
  by_cases hpositive : IsPositive d.increment
  · simp [hpositive, Except.mapError, bind, Except.bind, pure, Except.pure, eq_comm]
  · simp [hpositive, Except.mapError, bind, Except.bind]

/-- An entry that was attached for a pair of variables is there, or one that was attached for the
same pair later. -/
theorem exists_entry_of_attach (h : s.attach entries = .ok s') {row column : String}
    {f : Formula α} (hentry : ((row, column), f) ∈ entries) (hrow : row ∈ s.names)
    (hcolumn : column ∈ s.names) : ∃ f', entry? s' row column = some f' := by
  have hnames : s'.names = s.names := by
    obtain ⟨added, rfl⟩ := exists_added_of_attach h
    rfl
  obtain ⟨bound, hbound, h⟩ := bind_eq_ok_iff.mp h
  obtain ⟨r, hr⟩ := exists_index_iff.mpr hrow
  obtain ⟨c, hc⟩ := exists_index_iff.mpr hcolumn
  obtain ⟨one, hone, hbind⟩ := exists_mem_of_mapM hbound hentry
  have hkey : (s'.entryAt? r c).isSome = true := by
    cases h
    refine List.lookup_isSome_iff.mpr ⟨one, ?_, ?_⟩
    · exact List.mem_append_left _ (List.mem_reverse.mpr hone)
    · obtain ⟨hone₁, hone₂, -⟩ := bindEntry_eq_ok_iff.mp hbind
      rw [hr] at hone₁
      rw [hc] at hone₂
      cases hone₁
      cases hone₂
      exact beq_self_eq_true _
  obtain ⟨b, hb⟩ := Option.isSome_iff_exists.mp hkey
  have hr' : s'.index? row = some r := by rw [index?, hnames]; exact hr
  have hc' : s'.index? column = some c := by rw [index?, hnames]; exact hc
  refine ⟨b.formula, ?_⟩
  simp [hr', hc', hb, entry?]

end Attaching

section Symbolic

variable [Elementary α] [NatCast α] {s s' : Equations α} {evaluator : Evaluator}

/-- The partial derivative of an evaluable right-hand side is a formula that has no arguments but
the variables of the right-hand side. -/
theorem exists_symbolicEntry {b : BoundFormula α} (h : b.formula.expression.IsEvaluable)
    (evaluator : Evaluator) (row column : String) :
    ∃ f, symbolicEntry evaluator row b column = .ok ((row, column), f) ∧
      f.parameters ⊆ b.formula.expression.freeVariables := by
  have hcheck := Expr.check_eq_ok_iff.mpr h
  obtain ⟨d, hd⟩ := Expr.exists_differentiatesTo column hcheck
  have hbuild : ∃ f, Formula.build evaluator d = .ok f :=
    Formula.exists_build_iff.mpr (Expr.check_eq_ok_iff.mp (hd.check_eq hcheck))
  obtain ⟨f, hf⟩ := hbuild
  refine ⟨f, ?_, ?_⟩
  · refine bind_eq_ok_iff.mpr ⟨d, mapError_eq_ok_iff.mpr hd.derivative_eq, ?_⟩
    exact bind_eq_ok_iff.mpr ⟨f, mapError_eq_ok_iff.mpr hf, rfl⟩
  · rw [Formula.parameters_of_build hf]
    intro name hname
    exact Expr.mem_freeVariables.mpr (hd.occurrences_subset (Expr.mem_freeVariables.mp hname))

/-- The row of the partial derivatives of one right-hand side. -/
theorem exists_symbolicRow (hs : s.IsSelfContained) (evaluator : Evaluator)
    (entry : String × BoundFormula α) (hentry : entry ∈ s.names.zip s.rightHandSides) :
    ∃ row, s.names.mapM (symbolicEntry evaluator entry.1 entry.2) = .ok row := by
  obtain ⟨-, hb⟩ := List.of_mem_zip hentry
  refine exists_mapM_eq_ok_iff.mpr fun column _ => ?_
  obtain ⟨f, hf, -⟩ := exists_symbolicEntry (hs.evaluable entry.2 hb) evaluator entry.1 column
  exact ⟨_, hf⟩

/-- What the entries of a row are. -/
theorem mem_symbolicRow (hs : s.IsSelfContained) {entry : String × BoundFormula α}
    (hentry : entry ∈ s.names.zip s.rightHandSides)
    {row : List ((String × String) × Formula α)}
    (hrow : s.names.mapM (symbolicEntry evaluator entry.1 entry.2) = .ok row)
    {partialEntry : (String × String) × Formula α} (hpartial : partialEntry ∈ row) :
    partialEntry.1.1 ∈ s.names ∧ partialEntry.1.2 ∈ s.names ∧
      partialEntry.2.IsClosed s.names s.independent := by
  obtain ⟨hname, hb⟩ := List.of_mem_zip hentry
  obtain ⟨column, hcolumn, hone⟩ := exists_of_mem_mapM hrow hpartial
  obtain ⟨f, hf, hparameters⟩ :=
    exists_symbolicEntry (hs.evaluable entry.2 hb) evaluator entry.1 column
  rw [hf] at hone
  cases hone
  exact ⟨hname, hcolumn, fun name hmem => hs.closed entry.2 hb name (hparameters hmem)⟩

/-- All partial derivatives of a self-contained system can be attached. -/
theorem exists_attachSymbolic (hs : s.IsSelfContained) (evaluator : Evaluator) :
    ∃ s', s.attachSymbolic evaluator = .ok s' := by
  obtain ⟨rows, hrows⟩ := exists_mapM_eq_ok_iff.mpr (exists_symbolicRow hs evaluator)
  have hentries : ∀ entry ∈ rows.flatten, entry.1.1 ∈ s.names ∧ entry.1.2 ∈ s.names ∧
      entry.2.IsClosed s.names s.independent := by
    intro entry hentry
    obtain ⟨row, hrow, hmem⟩ := List.mem_flatten.mp hentry
    obtain ⟨pair, hpair, hpartials⟩ := exists_of_mem_mapM hrows hrow
    exact mem_symbolicRow hs hpair hpartials hmem
  obtain ⟨s', hs'⟩ := exists_attach hentries
  exact ⟨s', bind_eq_ok_iff.mpr ⟨rows, hrows, hs'⟩⟩

/-- Attaching the symbolic Jacobian puts entries before those already there and changes nothing
else. -/
theorem exists_added_of_attachSymbolic (h : s.attachSymbolic evaluator = .ok s') :
    ∃ added, s' = { s with entries := added ++ s.entries } := by
  obtain ⟨rows, -, h⟩ := bind_eq_ok_iff.mp h
  exact exists_added_of_attach h

/-- Once all partial derivatives are attached, there is an entry for each pair of variables. -/
theorem exists_entry_of_attachSymbolic (hlength : s.rightHandSides.length = s.names.length)
    (h : s.attachSymbolic evaluator = .ok s') {row column : String} (hrow : row ∈ s.names)
    (hcolumn : column ∈ s.names) : ∃ f, entry? s' row column = some f := by
  obtain ⟨rows, hrows, hattach⟩ := bind_eq_ok_iff.mp h
  -- a variable has a right-hand side because there are as many of them as variables
  have hpair : ∃ b, (row, b) ∈ s.names.zip s.rightHandSides := by
    have hnames : (s.names.zip s.rightHandSides).map Prod.fst = s.names :=
      List.map_fst_zip (Nat.le_of_eq hlength.symm)
    rw [← hnames] at hrow
    obtain ⟨⟨name, b⟩, hmem, rfl⟩ := List.mem_map.mp hrow
    exact ⟨b, hmem⟩
  obtain ⟨b, hb⟩ := hpair
  obtain ⟨entries, hentries, hrowEntries⟩ := exists_mem_of_mapM hrows hb
  obtain ⟨entry, hentry, hone⟩ := exists_mem_of_mapM hrowEntries hcolumn
  obtain ⟨d, -, hd⟩ := bind_eq_ok_iff.mp hone
  obtain ⟨f, -, hf⟩ := bind_eq_ok_iff.mp hd
  cases hf
  exact exists_entry_of_attach hattach (List.mem_flatten.mpr ⟨entries, hentries, hentry⟩) hrow
    hcolumn

/-- An entry for the indices of a row and of a column is the bound derivative of the right-hand side
of the row with respect to the variable of the column. -/
def IsSymbolicEntry (s : Equations α) (evaluator : Evaluator)
    (entry : (Nat × Nat) × BoundFormula α) : Prop :=
  ∃ rightHandSide column slope f label,
    s.rightHandSides[entry.1.1]? = some rightHandSide ∧ s.names[entry.1.2]? = some column ∧
      rightHandSide.formula.expression.derivative column = .ok slope ∧
      Formula.build evaluator slope = .ok f ∧
      BoundFormula.bind label s.names s.independent f = .ok entry.2

/-- Attaching all partial derivatives adds derivatives of right-hand sides and no other entries. -/
theorem isSymbolicEntry_of_mem (hnodup : s.names.Nodup) (h : s.attachSymbolic evaluator = .ok s')
    {entry : (Nat × Nat) × BoundFormula α} (hentry : entry ∈ s'.entries) :
    entry ∈ s.entries ∨ s.IsSymbolicEntry evaluator entry := by
  obtain ⟨rows, hrows, hattach⟩ := bind_eq_ok_iff.mp h
  obtain ⟨bound, hbound, hs'⟩ := bind_eq_ok_iff.mp hattach
  cases hs'
  obtain hentry | hentry := List.mem_append.mp hentry
  · right
    obtain ⟨attached, hattached, hbind⟩ := exists_of_mem_mapM hbound (List.mem_reverse.mp hentry)
    obtain ⟨row, hrow, hmem⟩ := List.mem_flatten.mp hattached
    obtain ⟨⟨name, rightHandSide⟩, hpair, hpartials⟩ := exists_of_mem_mapM hrows hrow
    obtain ⟨column, -, hone⟩ := exists_of_mem_mapM hpartials hmem
    obtain ⟨slope, hslope, hone⟩ := bind_eq_ok_iff.mp hone
    obtain ⟨f, hf, hone⟩ := bind_eq_ok_iff.mp hone
    cases hone
    obtain ⟨hr, hc, hb⟩ := bindEntry_eq_ok_iff.mp hbind
    -- the row that the entry is found at is the row that it was made for
    obtain ⟨i, hi⟩ := List.mem_iff_getElem?.mp hpair
    obtain ⟨hname, hrightHandSide⟩ := List.getElem?_zip_eq_some.mp hi
    obtain ⟨hilt, rfl⟩ := List.getElem?_eq_some_iff.mp hname
    have hrow : entry.1.1 = i := Option.some.inj (hr.symm.trans (index_getElem hnodup hilt))
    refine ⟨rightHandSide, column, slope, f, _, ?_, ?_, mapError_eq_ok_iff.mp hslope,
      mapError_eq_ok_iff.mp hf, hb⟩
    · rw [hrow, hrightHandSide]
    · obtain ⟨hclt, hcolumn, -⟩ := List.idxOf?_eq_some_iff.mp hc
      rw [List.getElem?_eq_getElem hclt, hcolumn]
  · exact .inl hentry

/-- Once all partial derivatives are attached to a system that has no entries, the entry that counts
for a row and a column is the derivative. -/
theorem exists_entryAt_of_attachSymbolic (hnodup : s.names.Nodup)
    (hlength : s.rightHandSides.length = s.names.length) (hentries : s.entries = [])
    (h : s.attachSymbolic evaluator = .ok s') {row column : Nat} (hrow : row < s.names.length)
    (hcolumn : column < s.names.length) :
    ∃ b, s'.entryAt? row column = some b ∧ s.IsSymbolicEntry evaluator ((row, column), b) := by
  obtain ⟨f, hf⟩ := exists_entry_of_attachSymbolic hlength h (List.getElem_mem hrow)
    (List.getElem_mem hcolumn)
  obtain ⟨added, hs'⟩ := exists_added_of_attachSymbolic h
  have hentry : ∃ b, s'.entryAt? row column = some b := by
    subst hs'
    exact exists_entryAt_of_entry (s := { s with entries := added ++ s.entries }) hnodup hrow
      hcolumn
      hf
  obtain ⟨b, hb⟩ := hentry
  obtain hold | hnew := isSymbolicEntry_of_mem hnodup h (mem_entries_of_entryAt hb)
  · rw [hentries] at hold
    cases hold
  · exact ⟨b, hb, hnew⟩

end Symbolic

end Fluxion.Equations
