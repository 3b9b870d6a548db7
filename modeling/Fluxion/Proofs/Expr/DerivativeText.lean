import Fluxion.Services
import Fluxion.Proofs.Expr.MarkerExpansion
import Fluxion.Proofs.Statement.RoundTrip

/-!
# The text of a derivative

The derivative that is given for a source text is itself a source text, and it is read as the
derivative of the expression that was read (`Source.differentiate_reads_back`).

The rules of differentiation build trees that no text had been read as: signs before literals,
powers of powers, quotients inside products.  Printability is a compositional property
(`Expr.isCompositional_printable`), so all of them have a text that reads back; what the rules add,
the literals 0, 1, 2 and 10 and the names of functions, is printable as well.
-/

set_option autoImplicit false

namespace Fluxion

/-- The name of a function of the table is that of no constant. -/
theorem Builtin.isFree_name (f : Builtin) : IsFree f.name := by
  have hfree : ∀ (name : String) (c : Char) (rest : List Char), name.toList = c :: rest →
      isIdentifierStart c = true → rest.all isIdentifierPart = true →
      Constant.ofName? name = none → IsFree name := by
    intro name c rest hname hstart hrest hconstant
    exact .of_ofName? ⟨c, rest, hname, hstart, List.all_eq_true.mp hrest⟩ hconstant
  cases f <;> exact hfree _ _ _ rfl rfl rfl rfl

namespace Expr

/-- The literals that the rules write can be printed and read back. -/
theorem printable_ofNat : ∀ n ∈ ruleLiterals, (ofNat n : Expr Float).Printable := by
  have hliteral : ∀ n ∈ ruleLiterals, (n : Float).isFinite = true ∧ (n : Float) ≠ -0.0 := by
    decide
  exact hliteral

/-- What is put together from printable trees is printable. -/
theorem isCompositional_printable : IsCompositional Printable where
  ofNat := printable_ofNat
  neg_iff _ := Iff.rfl
  binary_iff _ _ _ := Iff.rfl
  apply_iff f _ := and_iff_right f.isFree_name
  argument _ _ h := h.2

/-- Expanding the markers of a printable tree gives a printable tree. -/
theorem ExpandsTo.printable {name : String} {e d : Expr Float} (h : ExpandsTo name e d)
    (he : e.Printable) : d.Printable := by
  induction h with
  | number x => exact he
  | constant c => exact he
  | symbol own => exact he
  | neg hf ih => exact ih he
  | binary op hf hg ihf ihg => exact ⟨ihf he.1, ihg he.2⟩
  | call called hf ih => exact ⟨he.1, ih he.2⟩
  | marker hf hd ih => exact hd.keeps isCompositional_printable (ih he.2)
  | assign target hf ih => exact he.elim

/-- A printable tree has no assignment. -/
theorem Printable.hasAssignment_eq {e : Expr Float} (h : e.Printable) :
    e.hasAssignment = false := by
  induction e with
  | number x => rfl
  | constant c => rfl
  | symbol name => rfl
  | neg inner ih => exact ih h
  | binary op left right ihleft ihright =>
    exact Bool.or_eq_false_iff.mpr ⟨ihleft h.1, ihright h.2⟩
  | call f argument ih => exact ih h.2
  | marker inner ih => exact ih h.2
  | assign target value => exact h.elim

/-- An expression is read from a text if the text is read as a statement that is an expression. -/
theorem parse_eq_ok_iff {source : String} {e : Expr Float} :
    Expr.parse source = .ok e ↔ Statement.parse source = .ok (.expression e) := by
  unfold Expr.parse
  rw [bind_eq_ok_iff]
  constructor
  · rintro ⟨s, hs, he⟩
    cases s with
    | expression e' =>
      cases he
      exact hs
    | assignment target value => cases he
  · intro h
    exact ⟨_, h, rfl⟩

/-- What has been read from a text can be printed. -/
theorem printable_of_parse {source : String} {e : Expr Float} (h : Expr.parse source = .ok e) :
    e.Printable :=
  Statement.printable_of_parse (parse_eq_ok_iff.mp h)

/-- The text of a printable tree is read as the tree. -/
theorem Printable.parse_text {e : Expr Float} (h : e.Printable) : Expr.parse e.text = .ok e :=
  parse_eq_ok_iff.mpr (Statement.parse_text (s := .expression e) h)

end Expr

namespace Source

/-- The service reads the text, expands its markers, differentiates, and writes the result. -/
theorem differentiate_eq_ok_iff {source name text : String} :
    differentiate source name = .ok text ↔
      ∃ e expanded slope, Expr.parse source = .ok e ∧ Expr.ExpandsTo name e expanded ∧
        Expr.DifferentiatesTo name expanded slope ∧ text = slope.text := by
  unfold differentiate
  rw [bind_eq_ok_iff]
  constructor
  · rintro ⟨e, he, h⟩
    obtain ⟨expanded, hexpanded, h⟩ := bind_eq_ok_iff.mp h
    obtain ⟨slope, hslope, htext⟩ := return_eq_ok_iff.mp h
    exact ⟨e, expanded, slope, mapError_eq_ok_iff.mp he,
      Expr.expandMarkers_eq_ok_iff.mp (mapError_eq_ok_iff.mp hexpanded),
      Expr.derivative_eq_ok_iff.mp (mapError_eq_ok_iff.mp hslope), htext⟩
  · rintro ⟨e, expanded, slope, he, hexpanded, hslope, htext⟩
    refine ⟨e, mapError_eq_ok_iff.mpr he, bind_eq_ok_iff.mpr ⟨expanded, ?_, ?_⟩⟩
    · exact mapError_eq_ok_iff.mpr (Expr.expandMarkers_eq_ok_iff.mpr hexpanded)
    · exact return_eq_ok_iff.mpr
        ⟨slope, mapError_eq_ok_iff.mpr (Expr.derivative_eq_ok_iff.mpr hslope), htext⟩

/-- A text that is read as an expression of functions of the table has a derivative.  Whenever a
derivative is given for a text, it is read as the derivative of the expanded expression; no marker
is left in it, and no variable is new. -/
theorem differentiate_reads_back :
    (∀ source name e, Expr.parse source = .ok e →
      (∀ called ∈ e.calls, ∃ f, Builtin.ofName? called = some f) →
      ∃ text, differentiate source name = .ok text) ∧
    ∀ source name text, differentiate source name = .ok text →
      ∃ e expanded slope, Expr.parse source = .ok e ∧ e.expandMarkers name = .ok expanded ∧
        expanded.derivative name = .ok slope ∧ Expr.parse text = .ok slope ∧
        slope.hasMarker = false ∧ ∀ v ∈ slope.freeVariables, v ∈ e.freeVariables := by
  constructor
  · intro source name e he hknown
    have hassign := (Expr.printable_of_parse he).hasAssignment_eq
    obtain ⟨expanded, hexpanded, hcheck⟩ := Expr.exists_expandsTo name hassign hknown
    obtain ⟨slope, hslope⟩ := Expr.exists_differentiatesTo name hcheck
    exact ⟨slope.text, differentiate_eq_ok_iff.mpr ⟨e, expanded, slope, he, hexpanded, hslope, rfl⟩⟩
  · intro source name text h
    obtain ⟨e, expanded, slope, he, hexpanded, hslope, rfl⟩ := differentiate_eq_ok_iff.mp h
    have hprintable := Expr.printable_of_parse he
    refine ⟨e, expanded, slope, he, hexpanded.expandMarkers_eq, hslope.derivative_eq, ?_, ?_, ?_⟩
    · have hslope' := hslope.keeps Expr.isCompositional_printable (hexpanded.printable hprintable)
      exact hslope'.parse_text
    · exact hslope.keeps Expr.isCompositional_hasMarker
        (hexpanded.hasMarker_eq hprintable.hasAssignment_eq)
    · intro v hv
      rw [Expr.mem_freeVariables] at hv ⊢
      exact hexpanded.occurrences_subset (hslope.occurrences_subset hv)

/-- The expression `log(x) / x' - cos(-x)`. -/
def logarithmQuotient : Expr Float :=
  .binary .sub (.binary .div (.call "log" (.symbol "x")) (.marker (.symbol "x")))
    (.call "cos" (.neg (.symbol "x")))

/-- The derivative of the expression has a literal behind a sign, and a sign behind a subtraction.
It is given, and its text is read back. -/
theorem differentiate_reads_back_logarithm :
    Expr.parse "log(x) / x' - cos(-x)" = .ok logarithmQuotient ∧
      (∃ text, differentiate "log(x) / x' - cos(-x)" "x" = .ok text) ∧
      differentiate "log(x) / x' - cos(-x)" "x" =
        .ok "(1 / (x * ln(10)) * 1 * 1 - log(x) * 0) / 1 ^ 2 - -sin(-x) * -(1)" ∧
      ∃ e expanded slope, Expr.parse "log(x) / x' - cos(-x)" = .ok e ∧
        e.expandMarkers "x" = .ok expanded ∧ expanded.derivative "x" = .ok slope ∧
        Expr.parse "(1 / (x * ln(10)) * 1 * 1 - log(x) * 0) / 1 ^ 2 - -sin(-x) * -(1)" = .ok slope ∧
        slope.hasMarker = false ∧ ∀ v ∈ slope.freeVariables, v ∈ e.freeVariables := by
  have hparse : Expr.parse "log(x) / x' - cos(-x)" = .ok logarithmQuotient :=
    Expr.parse_eq_ok_iff.mpr (by cbv)
  have hknown : ∀ called ∈ logarithmQuotient.calls, ∃ f, Builtin.ofName? called = some f := by
    simp only [logarithmQuotient, Expr.calls, List.append_nil, List.cons_append, List.nil_append,
      List.forall_mem_cons]
    exact ⟨⟨.log, rfl⟩, ⟨.cos, rfl⟩, List.forall_mem_nil _⟩
  have htext : differentiate "log(x) / x' - cos(-x)" "x" =
      .ok "(1 / (x * ln(10)) * 1 * 1 - log(x) * 0) / 1 ^ 2 - -sin(-x) * -(1)" := by
    rw [differentiate, hparse]
    refine congrArg Except.ok ?_
    decide +kernel
  exact ⟨hparse, differentiate_reads_back.1 _ "x" _ hparse hknown, htext,
    differentiate_reads_back.2 _ _ _ htext⟩

end Source

end Fluxion
