import Fluxion.Proofs.Equations.Environment

/-!
# What a history of attachments leaves

Partial derivatives are attached in three ways: as a list of entries, all at once by symbolic
differentiation, and as a way to estimate them (`Attachment`).  After any sequence of these a system
still has its names and right-hand sides, and what it says of a partial derivative can be told from
the sequence alone (`Equations.attachAll_slope`): the last entry for the pair counts, wherever it
stands among the estimates, and without one the last estimate.

One attachment puts its entries in front of those that are there, and its estimate in the place of
the one that is there (`Equations.exists_added_of_attachOne`).  A sequence is looked through from
its end, so the induction takes the last attachment of it apart (`Equations.AttachesTo`), and what
it carries is the entry for one pair that was made last and the estimate that was brought last
(`Equations.AttachesTo.exists_entries`).
-/

set_option autoImplicit false

namespace Fluxion

/-- A way to attach partial derivatives. -/
inductive Attachment (α : Type) where
  | entries (attached : List ((String × String) × Formula α))
  | symbolic (evaluator : Evaluator)
  | estimate (d : Difference α)

variable {α : Type} [Elementary α] [Arithmetic α]

namespace Attachment

/-- The formula that an attachment holds for a row, whose right-hand side is `f`, and a column.  Of
several entries for one pair in one list the last counts. -/
def formula? (f : Formula α) (row column : String) : Attachment α → Option (Formula α)
  | .entries attached => attached.reverse.lookup (row, column)
  | .symbolic evaluator =>
    match f.expression.derivative column with
    | .ok slope => (Formula.build evaluator slope).toOption
    | .error _ => none
  | .estimate _ => none

/-- The way to estimate partial derivatives that an attachment brings. -/
def difference? : Attachment α → Option (Difference α)
  | .entries _ | .symbolic _ => none
  | .estimate d => some d

end Attachment

namespace Equations

section

variable [LT α] [DecidableLT α] [Finiteness α]

/-- The system after one attachment. -/
def attachOne (s : Equations α) : Attachment α → Except (EquationsError α) (Equations α)
  | .entries attached => s.attach attached
  | .symbolic evaluator => s.attachSymbolic evaluator
  | .estimate d => s.attachEstimate d

/-- The system after a sequence of attachments. -/
def attachAll (s : Equations α) (history : List (Attachment α)) :
    Except (EquationsError α) (Equations α) :=
  history.foldlM attachOne s

end

/-- A formula that has been bound in a system. -/
def Binds (s : Equations α) (g : Formula α) (b : BoundFormula α) : Prop :=
  ∃ label, BoundFormula.bind label s.names s.independent g = .ok b

variable {s s' : Equations α} {row column : ℕ} {rowName columnName : String} {f : Formula α}

omit [Elementary α] [Arithmetic α] in
/-- Variables of a system without repetitions have the same name exactly if they have the same
index. -/
theorem eq_iff_of_index (hnodup : s.names.Nodup) {i : ℕ} {name : String}
    (hname : s.names[i]? = some name) {own : String} {j : ℕ} (hown : s.index? own = some j) :
    name = own ↔ i = j := by
  obtain ⟨hi, rfl⟩ := List.getElem?_eq_some_iff.mp hname
  obtain ⟨hj, rfl, -⟩ := List.idxOf?_eq_some_iff.mp hown
  exact hnodup.getElem_inj_iff

/-! ## One attachment -/

section

variable (hnodup : s.names.Nodup) (hrow : s.names[row]? = some rowName)
  (hcolumn : s.names[column]? = some columnName)
include hnodup hrow hcolumn

omit [Elementary α] [Arithmetic α] in
/-- A list of entries puts the entries that it makes, the last first, before the others. -/
theorem exists_added_of_attach_rel {attached : List ((String × String) × Formula α)}
    (h : s.attach attached = .ok s') :
    ∃ added, s' = { s with entries := added ++ s.entries } ∧
      Option.Rel s.Binds (attached.reverse.lookup (rowName, columnName))
        (added.lookup (row, column)) := by
  obtain ⟨bound, hbound, h⟩ := bind_eq_ok_iff.mp h
  cases h
  refine ⟨bound.reverse, rfl, lookup_rel_of_keys (List.forall₂_reverse_iff.mpr ?_)⟩
  refine (mapM_eq_ok_iff.mp hbound).imp fun ⟨⟨own, own'⟩, g⟩ one hone => ?_
  obtain ⟨hown, hown', hbind⟩ := bindEntry_eq_ok_iff.mp hone
  refine ⟨?_, _, hbind⟩
  rw [Bool.eq_iff_iff, beq_iff_eq, beq_iff_eq, Prod.mk.injEq, Prod.ext_iff,
    eq_iff_of_index hnodup hrow hown, eq_iff_of_index hnodup hcolumn hown']

/-- Symbolic differentiation puts one entry for each pair before the others. -/
theorem exists_added_of_attachSymbolic_rel {rightHandSide : BoundFormula α}
    (hlength : s.rightHandSides.length = s.names.length)
    (hf : s.rightHandSides[row]? = some rightHandSide) {evaluator : Evaluator}
    (h : s.attachSymbolic evaluator = .ok s') :
    ∃ added, s' = { s with entries := added ++ s.entries } ∧
      ∃ g b,
        (Attachment.symbolic evaluator).formula? rightHandSide.formula rowName columnName = some g ∧
          added.lookup (row, column) = some b ∧ s.Binds g b := by
  obtain ⟨rows, hrows, hattach⟩ := bind_eq_ok_iff.mp h
  obtain ⟨bound, hbound, h⟩ := bind_eq_ok_iff.mp hattach
  cases h
  obtain ⟨hrowlt, rfl⟩ := List.getElem?_eq_some_iff.mp hrow
  obtain ⟨hcolumnlt, rfl⟩ := List.getElem?_eq_some_iff.mp hcolumn
  -- the new entries do not depend on those that are there
  have hnew : ({ s with entries := [] } : Equations α).attachSymbolic evaluator =
      .ok { s with entries := bound.reverse ++ [] } :=
    bind_eq_ok_iff.mpr ⟨rows, hrows, bind_eq_ok_iff.mpr ⟨bound, hbound, rfl⟩⟩
  obtain ⟨b, hb, own, column', slope, g, label, hown, hcolumn', hslope, hg, hbind⟩ :=
    exists_entryAt_of_attachSymbolic (s := { s with entries := [] }) hnodup hlength rfl hnew hrowlt
      hcolumnlt
  obtain rfl : rightHandSide = own := Option.some.inj (hf.symm.trans hown)
  obtain rfl : s.names[column] = column' := Option.some.inj (hcolumn.symm.trans hcolumn')
  rw [entryAt?, List.append_nil] at hb
  refine ⟨bound.reverse, rfl, g, b, ?_, hb, label, hbind⟩
  simp only [Attachment.formula?, hslope, hg, Except.toOption]

variable [LT α] [DecidableLT α] [Finiteness α]

/-- One attachment puts its entries before those that are there, and its estimate in the place of
the one that is there. -/
theorem exists_added_of_attachOne {rightHandSide : BoundFormula α}
    (hlength : s.rightHandSides.length = s.names.length)
    (hf : s.rightHandSides[row]? = some rightHandSide) {a : Attachment α}
    (h : s.attachOne a = .ok s') :
    ∃ added,
      s' = { s with
        entries := added ++ s.entries
        estimate := a.difference?.or s.estimate } ∧
      Option.Rel s.Binds (a.formula? rightHandSide.formula rowName columnName)
        (added.lookup (row, column)) := by
  cases a with
  | entries attached => exact exists_added_of_attach_rel hnodup hrow hcolumn h
  | symbolic evaluator =>
    obtain ⟨added, hs', g, b, hg, hb, hbind⟩ :=
      exists_added_of_attachSymbolic_rel hnodup hrow hcolumn hlength hf h
    refine ⟨added, hs', ?_⟩
    rw [hg, hb]
    exact .some hbind
  | estimate d =>
    obtain ⟨-, rfl⟩ := attachEstimate_eq_ok_iff.mp h
    exact ⟨[], rfl, .none⟩

end

/-! ## A sequence of attachments -/

/-- Taking the first of two choices keeps related choices related. -/
theorem or_rel {β γ : Type} {R : β → γ → Prop} {o p : Option β} {o' p' : Option γ}
    (h : Option.Rel R o o') (h' : Option.Rel R p p') : Option.Rel R (o.or p) (o'.or p') := by
  cases h with
  | none => exact h'
  | some hR => exact .some hR

/-- Searching from the back tries the appended item first. -/
theorem findSome?_reverse_append {β γ : Type} (f : β → Option γ) (l : List β) (a : β) :
    (l ++ [a]).reverse.findSome? f = (f a).or (l.reverse.findSome? f) := by
  rw [List.reverse_append, List.reverse_singleton, List.singleton_append, List.findSome?_cons]
  cases f a <;> rfl

variable [LT α] [DecidableLT α] [Finiteness α] {history : List (Attachment α)}

/-- A history is attached by attaching all but its last step, and then that one. -/
theorem attachAll_append {a : Attachment α} :
    s.attachAll (history ++ [a]) = .ok s' ↔
      ∃ s₁, s.attachAll history = .ok s₁ ∧ s₁.attachOne a = .ok s' := by
  unfold attachAll
  rw [List.foldlM_append, bind_eq_ok_iff]
  simp only [List.foldlM_cons, List.foldlM_nil, bind_pure]

/-- The systems that a sequence of attachments leads to, with the last attachment apart. -/
inductive AttachesTo (s : Equations α) : List (Attachment α) → Equations α → Prop where
  | nil : AttachesTo s [] s
  | snoc {history : List (Attachment α)} {a : Attachment α} {s₁ s₂ : Equations α}
    (h : AttachesTo s history s₁) (ha : s₁.attachOne a = .ok s₂) :
    AttachesTo s (history ++ [a]) s₂

/-- What a history that can be attached leads to is what its steps say. -/
theorem attachesTo_of_attachAll (h : s.attachAll history = .ok s') :
    s.AttachesTo history s' := by
  induction history using List.reverseRecOn generalizing s' with
  | nil =>
    cases h
    exact .nil
  | append_singleton history a ih =>
    obtain ⟨s₁, h₁, ha⟩ := attachAll_append.mp h
    exact .snoc (ih h₁) ha

/-- Attachments change nothing but the entries and the estimate. -/
theorem AttachesTo.exists_eq (h : s.AttachesTo history s') :
    ∃ entries estimate, s' = { s with entries := entries, estimate := estimate } := by
  induction h with
  | nil => exact ⟨_, _, rfl⟩
  | @snoc history a s₁ s₂ h ha ih =>
    obtain ⟨entries, estimate, rfl⟩ := ih
    cases a with
    | entries attached =>
      obtain ⟨added, rfl⟩ := exists_added_of_attach ha
      exact ⟨_, _, rfl⟩
    | symbolic evaluator =>
      obtain ⟨added, rfl⟩ := exists_added_of_attachSymbolic ha
      exact ⟨_, _, rfl⟩
    | estimate d =>
      obtain ⟨-, rfl⟩ := attachEstimate_eq_ok_iff.mp ha
      exact ⟨_, _, rfl⟩

section

variable {rightHandSide : BoundFormula α} (hnodup : s.names.Nodup)
  (hlength : s.rightHandSides.length = s.names.length) (hrow : s.names[row]? = some rowName)
  (hcolumn : s.names[column]? = some columnName)
  (hf : s.rightHandSides[row]? = some rightHandSide)
include hnodup hlength hrow hcolumn hf

/-- A sequence of attachments leaves, before the entries that were there, one for the pair that was
made last, and the estimate that was brought last. -/
theorem AttachesTo.exists_entries (h : s.AttachesTo history s') :
    ∃ added,
      s' = { s with
        entries := added ++ s.entries
        estimate := (history.reverse.findSome? Attachment.difference?).or s.estimate } ∧
      Option.Rel s.Binds
        (history.reverse.findSome? (Attachment.formula? rightHandSide.formula rowName columnName))
        (added.lookup (row, column)) := by
  induction h with
  | nil => exact ⟨[], rfl, .none⟩
  | snoc h ha ih =>
    obtain ⟨before, rfl, hbefore⟩ := ih
    obtain ⟨added, rfl, hadded⟩ :=
      exists_added_of_attachOne (s := { s with entries := before ++ s.entries, estimate := _ })
        hnodup hrow hcolumn hlength hf ha
    refine ⟨added ++ before, ?_, ?_⟩
    · rw [findSome?_reverse_append, List.append_assoc, Option.or_assoc]
    · rw [findSome?_reverse_append, List.lookup_append]
      exact or_rel hadded hbefore

/-- A symbolic attachment of a sequence makes an entry for each pair. -/
theorem AttachesTo.exists_formula (h : s.AttachesTo history s') {evaluator : Evaluator}
    (hmem : .symbolic evaluator ∈ history) :
    ∃ g, (Attachment.symbolic evaluator).formula? rightHandSide.formula rowName columnName =
      some g := by
  induction h with
  | nil => cases hmem
  | snoc h ha ih =>
    obtain hmem | hmem := List.mem_append.mp hmem
    · exact ih hmem
    · obtain rfl := List.mem_singleton.mp hmem
      obtain ⟨entries, estimate, rfl⟩ := h.exists_eq
      obtain ⟨added, -, g, b, hg, -⟩ :=
        exists_added_of_attachSymbolic_rel (s := { s with entries, estimate }) hnodup hrow hcolumn
          hlength hf ha
      exact ⟨g, hg⟩

end

/-- Partial derivatives follow the attachments.  After any sequence of them on a new system, the
names, the components and the rates are what they were.  The partial derivative of a right-hand
side is the value of the entry that was made last for the pair, in whichever of the two ways; if
there is none, it is the difference quotient of the right-hand side along the variable under the
last estimate; and if there is none of these either, it is not known. -/
theorem attachAll_slope {independent : String} {equations : List (String × Formula α)}
    (h : create independent equations = .ok s) (hhistory : s.attachAll history = .ok s') :
    s'.names = s.names ∧ s'.component = s.component ∧ s'.toField.rates = s.toField.rates ∧
      ∀ (row column : ℕ) (rowName columnName : String) (f own : Formula α),
        equations[row]? = some (rowName, f) → equations[column]? = some (columnName, own) →
        (∀ evaluator, .symbolic evaluator ∈ history →
          ∃ g, (Attachment.symbolic evaluator).formula? f rowName columnName = some g) ∧
        ∀ (t : α) (x : List α),
          match history.reverse.findSome? (Attachment.formula? f rowName columnName) with
          | some g =>
            ∃ v, g.evaluate (g.parameters.map (environment s.names s.independent t x)) = .ok v ∧
              s'.slope? row column t x = some v
          | none =>
            s'.slope? row column t x =
              (history.reverse.findSome? Attachment.difference?).map fun d =>
                d.derivative (fun v => s.component row t (x.set column v))
                  (x.getD column Elementary.undefined) := by
  have hreached := attachesTo_of_attachAll hhistory
  have hkept : s'.names = s.names ∧ s'.component = s.component ∧
      s'.toField.rates = s.toField.rates := by
    obtain ⟨entries, estimate, rfl⟩ := hreached.exists_eq
    exact ⟨rfl, rfl, rfl⟩
  refine ⟨hkept.1, hkept.2.1, hkept.2.2,
    fun row column rowName columnName f own hrow hcolumn => ?_⟩
  have hnodup := nodup_of_create h
  have hlength := length_rightHandSides_of_create h
  obtain ⟨rightHandSide, hf, hbind⟩ := exists_bind_of_create h hrow
  have hrowName := getElem?_names_of_create h hrow
  have hcolumnName := getElem?_names_of_create h hcolumn
  obtain rfl : rightHandSide.formula = f := BoundFormula.formula_of_bind hbind
  refine ⟨fun evaluator hmem =>
    hreached.exists_formula hnodup hlength hrowName hcolumnName hf hmem, fun t x => ?_⟩
  obtain ⟨added, rfl, hadded⟩ :=
    hreached.exists_entries hnodup hlength hrowName hcolumnName hf
  unfold slope? entryAt?
  rw [entries_of_create h, List.append_nil]
  generalize history.reverse.findSome?
      (Attachment.formula? rightHandSide.formula rowName columnName) = last,
    added.lookup (row, column) = b at hadded
  cases hadded with
  | none =>
    rw [estimate_of_create h, Option.or_none]
    rfl
  | some hbinds =>
    obtain ⟨label, hbound⟩ := hbinds
    exact ⟨_, BoundFormula.evaluate_of_bind hbound t x, rfl⟩

/-- Growth with a supply: `x' = x * y` and `y' = t`. -/
def supplied : List (String × Formula Float) :=
  [("x", .interpreted (.binary .mul (.symbol "x") (.symbol "y"))),
    ("y", .interpreted (.symbol "t"))]

/-- Two entries for the derivative of `x'` along `x`, then a way to estimate the others. -/
def suppliedHistory : List (Attachment Float) :=
  [.entries [(("x", "x"), .interpreted (.symbol "x")), (("x", "x"), .interpreted (.symbol "y"))],
    .estimate ⟨.central, 0.5⟩]

/-- Of the two entries the second counts, also after the estimate was attached; the derivative of
`x'` along `y` is estimated. -/
theorem attachAll_slope_supplied :
    ∃ s s', create "t" supplied = .ok s ∧ s.attachAll suppliedHistory = .ok s' ∧
      ∀ t x y : Float,
        (∃ v, (Formula.interpreted (.symbol "y") : Formula Float).evaluate
            (["y"].map (environment s.names s.independent t [x, y])) = .ok v ∧
          s'.slope? 0 0 t [x, y] = some v) ∧
        s'.slope? 0 1 t [x, y] =
          some ((⟨.central, 0.5⟩ : Difference Float).derivative
            (fun v => s.component 0 t ([x, y].set 1 v)) y) := by
  have hcreate : ∃ s, create "t" supplied = .ok s := ⟨_, rfl⟩
  obtain ⟨s, hs⟩ := hcreate
  have hattach : ∃ s', s.attachAll suppliedHistory = .ok s' := by
    cases hs
    exact ⟨_, rfl⟩
  obtain ⟨s', hs'⟩ := hattach
  obtain ⟨-, -, -, hslope⟩ := attachAll_slope hs hs'
  refine ⟨s, s', hs, hs', fun t x y => ⟨?_, ?_⟩⟩
  · exact (hslope 0 0 "x" "x" _ _ rfl rfl).2 t [x, y]
  · exact (hslope 0 1 "x" "y" _ _ rfl rfl).2 t [x, y]

end Equations

end Fluxion
