import Fluxion.Expr.Basic
import Fluxion.Proofs.Statement.Recognition
import Fluxion.Proofs.Token.Spelling

/-!
# Printed statements read back

A tree is printable if its numbers are finite and none of them is the negative zero, its names
are names of variables and functions, its markers stand behind variables, and it has no
assignment; a statement may assign such a tree through a chain of targets.  These are the
statements that the parser returns and the statements that it returns for their own text
(`Statement.printable_parse_text`).

The text of a tree renders the lexemes of a phrase of the tree's own level (`Expr.level`).  A
child is enclosed if it binds less tightly than its place demands, and a phrase of a tight level
is a phrase of every looser one, so with or without the parentheses the child fits
(`PrintsAs.enclose`).
-/

set_option autoImplicit false

namespace Fluxion

/-- A name that a variable or a function can have. -/
structure IsFree (name : String) : Prop where
  identifier : IsIdentifier name
  ne_pi : name ≠ "pi"
  ne_euler : name ≠ "e"

/-- A free name is that of no constant. -/
theorem IsFree.ofName?_eq_none {name : String} (h : IsFree name) :
    Constant.ofName? name = none := by
  unfold Constant.ofName?
  rw [if_neg h.ne_pi, if_neg h.ne_euler]

/-- An identifier that is the name of no constant is free. -/
theorem IsFree.of_ofName? {name : String} (h : IsIdentifier name)
    (hname : Constant.ofName? name = none) : IsFree name := by
  refine ⟨h, ?_, ?_⟩
  · rintro rfl
    cases hname
  · rintro rfl
    cases hname

namespace Expr

/-- Trees that have a text which reads back. -/
def Printable : Expr Float → Prop
  | .number x => x.isFinite = true ∧ x ≠ -0.0
  | .constant _ => True
  | .symbol name => IsFree name
  | .neg inner => inner.Printable
  | .binary _ left right => left.Printable ∧ right.Printable
  | .call f argument => IsFree f ∧ argument.Printable
  | .marker inner => inner.isTarget = true ∧ inner.Printable
  | .assign _ _ => False

/-- What may stand to the right of a sign of assignment: a printable tree, behind any number of
further targets. -/
def PrintableChain : Expr Float → Prop
  | .assign target value =>
    target.isTarget = true ∧ target.Printable ∧ value.PrintableChain
  | e => e.Printable

end Expr

/-- Statements that have a text which reads back. -/
def Statement.Printable : Statement Float → Prop
  | .expression e => e.Printable
  | .assignment target value =>
    target.isTarget = true ∧ target.Printable ∧ value.PrintableChain

/-! ## What is read is printable -/

/-- A variable with its marks is a target and can be printed. -/
theorem Expr.printable_marked {name : String} (h : IsFree name) (marks : Nat) :
    (Expr.marked name marks).isTarget = true ∧ (Expr.marked name marks).Printable := by
  induction marks with
  | zero => exact ⟨rfl, h⟩
  | succ marks ih => exact ⟨ih.1, ih⟩

/-- The tree of a phrase is printable if its lexemes can be read from a text. -/
theorem Phrase.printable {l : Level} (p : Phrase l) (h : ∀ x ∈ p.lexemes, x.IsRead) :
    p.tree.Printable := by
  induction p with
  | group inner ih => exact ih fun x hx => h x (by simp [Phrase.lexemes, hx])
  | constant c => trivial
  | symbol name hname marks =>
    have hread : IsIdentifier name := h (.identifier name) (by simp [Phrase.lexemes])
    exact (Expr.printable_marked (.of_ofName? hread hname) marks).2
  | call name hname argument ih =>
    have hread : IsIdentifier name := h (.identifier name) (by simp [Phrase.lexemes])
    exact ⟨.of_ofName? hread hname, ih fun x hx => h x (by simp [Phrase.lexemes, hx])⟩
  | literal value =>
    obtain ⟨hfinite, hsign⟩ := h (.number value) (by simp [Phrase.lexemes])
    refine ⟨hfinite, fun hzero => ?_⟩
    rw [((Decimal.eq_negZero_iff value).mp hzero).1] at hsign
    cases hsign
  | negativeLiteral value hvalue =>
    obtain ⟨hfinite, hsign⟩ := h (.number value) (by simp [Phrase.lexemes])
    rw [Decimal.isFinite_eq, decide_eq_true_eq] at hfinite
    rw [Decimal.beq_zero_eq hfinite.le, decide_eq_false_iff_not] at hvalue
    have hneg := (Decimal.pattern_neg hfinite.le).2
    refine ⟨?_, fun hzero => ?_⟩
    · rw [Decimal.isFinite_eq, hneg, decide_eq_true hfinite]
    · exact hvalue (hneg.symm.trans ((Decimal.eq_negZero_iff _).mp hzero).2)
  | plain inner ih => exact ih h
  | negative inner ih => exact ih fun x hx => h x (by simp [Phrase.lexemes, hx])
  | single operand ih => exact ih h
  | binary left op hop right ihleft ihright =>
    exact ⟨ihleft fun x hx => h x (by simp [Phrase.lexemes, hx]),
      ihright fun x hx => h x (by simp [Phrase.lexemes, hx])⟩

/-- A printable expression is a chain without assignments. -/
theorem Expr.Printable.chain {e : Expr Float} (h : e.Printable) : e.PrintableChain := by
  cases e with
  | assign target value => exact h.elim
  | _ => exact h

/-- The tree of a sentence can be printed. -/
theorem Sentence.printableChain (d : Sentence) (h : ∀ x ∈ d.lexemes, x.IsRead) :
    d.tree.PrintableChain := by
  induction d with
  | value sum => exact (sum.printable h).chain
  | assign target htarget rest ih =>
    exact ⟨htarget, target.printable fun x hx => h x (by simp [Sentence.lexemes, hx]),
      ih fun x hx => h x (by simp [Sentence.lexemes, hx])⟩

/-- The statement of a sentence can be printed. -/
theorem Sentence.printable (d : Sentence) (h : ∀ x ∈ d.lexemes, x.IsRead) :
    d.statement.Printable := by
  cases d with
  | value sum => exact sum.printable h
  | assign target htarget rest => exact Sentence.printableChain (.assign target htarget rest) h

/-- What the parser returns is printable. -/
theorem Statement.printable_of_parse {source : String} {s : Statement Float}
    (h : Statement.parse source = .ok s) : s.Printable := by
  obtain ⟨tokens, htokens, hs⟩ := (Statement.parse_eq_ok_iff source s).mp h
  obtain ⟨d, hd, rfl⟩ := Statement.exists_sentence_of_ofTokens hs
  have hread := Token.isRead_of_readFrom htokens
  refine d.printable fun x hx => ?_
  rw [hd] at hx
  obtain ⟨t, ht, rfl⟩ := List.mem_map.mp hx
  exact hread t ht

/-! ## What is printed is read -/

/-- How tightly a phrase of a level binds at least. -/
def Level.precedence : Level → Nat
  | .chain .sum => 1
  | .chain .product => 2
  | .chain .power => 3
  | .factor => factorPrecedence
  | .atom => atomPrecedence

/-- The precedence of an operator is that of the chains of its rank. -/
theorem Operator.precedence_rank (op : Operator) :
    (Level.chain op.rank).precedence = op.precedence := by
  cases op <;> rfl

/-- The operands of an operator stand one level tighter. -/
theorem Operator.precedence_operand (op : Operator) :
    op.rank.operand.precedence = op.precedence + 1 := by
  cases op <;> rfl

/-- Sums are the loosest level. -/
theorem Level.sum_precedence_le (l : Level) :
    (Level.chain .sum).precedence ≤ l.precedence := by
  cases l with
  | chain k => cases k <;> decide
  | factor | atom => decide

/-- The level of the phrases that a tree is printed as. -/
def Expr.level : Expr Float → Level
  | .number _ | .neg _ => .factor
  | .binary op _ _ => .chain op.rank
  | .constant _ | .symbol _ | .call _ _ | .marker _ | .assign _ _ => .atom

/-- A text renders the lexemes of a phrase that stands for a tree. -/
def PrintsAs (l : Level) (text : List Char) (e : Expr Float) : Prop :=
  ∃ p : Phrase l, p.tree = e ∧ Renders text p.lexemes

namespace PrintsAs

variable {text : List Char} {e : Expr Float}

/-- What is printed for an operand is printed for a chain. -/
theorem single {k : Rank} (h : PrintsAs k.operand text e) : PrintsAs (.chain k) text e := by
  obtain ⟨p, hp, htext⟩ := h
  exact ⟨.single p, hp, htext⟩

/-- What is printed for an atom is printed for a factor. -/
theorem plain (h : PrintsAs .atom text e) : PrintsAs .factor text e := by
  obtain ⟨p, hp, htext⟩ := h
  exact ⟨.plain p, hp, htext⟩

/-- What is printed for a factor is printed for a chain of any rank. -/
theorem chain (k : Rank) (h : PrintsAs .factor text e) : PrintsAs (.chain k) text e := by
  have hpower : PrintsAs (.chain .power) text e := single h
  have hproduct : PrintsAs (.chain .product) text e := single hpower
  cases k with
  | sum => exact single hproduct
  | product => exact hproduct
  | power => exact hpower

/-- What is printed for a chain is printed for looser chains. -/
theorem loosen_chain {k k' : Rank} (h : PrintsAs (.chain k) text e)
    (hk : (Level.chain k').precedence ≤ (Level.chain k).precedence) :
    PrintsAs (.chain k') text e := by
  cases k with
  | sum =>
    cases k' with
    | sum => exact h
    | product | power => exact absurd hk (by decide)
  | product =>
    cases k' with
    | sum => exact single h
    | product => exact h
    | power => exact absurd hk (by decide)
  | power =>
    have hproduct : PrintsAs (.chain .product) text e := single h
    cases k' with
    | sum => exact single hproduct
    | product => exact hproduct
    | power => exact h

/-- A phrase of a level is a phrase of every looser level. -/
theorem loosen {l m : Level} (hlm : l.precedence ≤ m.precedence) (h : PrintsAs m text e) :
    PrintsAs l text e := by
  cases m with
  | atom =>
    cases l with
    | atom => exact h
    | factor => exact h.plain
    | chain k => exact h.plain.chain k
  | factor =>
    cases l with
    | atom => exact absurd hlm (by decide)
    | factor => exact h
    | chain k => exact h.chain k
  | chain k =>
    cases l with
    | atom => exact absurd hlm (by cases k <;> decide)
    | factor => exact absurd hlm (by cases k <;> decide)
    | chain k' => exact h.loosen_chain hlm

/-- In parentheses a sum is an atom. -/
theorem group (h : PrintsAs (.chain .sum) text e) : PrintsAs .atom ('(' :: text ++ [')']) e := by
  obtain ⟨p, hp, htext⟩ := h
  refine ⟨.group p, hp, ?_⟩
  have hclose : Renders [')'] [.closeParen] := .char rfl .nil
  exact .char rfl (htext.append hclose (.cons [] rfl rfl))

/-- A child of a tree is printed in a way that fits a place for phrases of a level. -/
theorem enclose (h : PrintsAs e.level e.render e) {l : Level}
    (hl : l.precedence ≤ factorPrecedence) :
    PrintsAs l (Expr.enclose (e.precedence < l.precedence) e.render) e := by
  by_cases hneeded : e.precedence < l.precedence
  -- in parentheses it is an atom, and without them its own level is tight enough
  · have hsum : PrintsAs (.chain .sum) e.render e := h.loosen e.level.sum_precedence_le
    rw [Expr.enclose, decide_eq_true hneeded, if_pos rfl]
    exact hsum.group.loosen (hl.trans (by decide))
  · have hfits : l.precedence ≤ e.level.precedence := by
      have hle : l.precedence ≤ e.precedence := Nat.not_lt.mp hneeded
      cases e with
      | number x => exact hl
      | neg inner => exact hle
      | binary op left right => exact hle.trans op.precedence_rank.ge
      | constant _ | symbol _ | call _ _ | marker _ => exact hle
      | assign target value => exact hle.trans (Nat.zero_le _)
    rw [Expr.enclose, decide_eq_false hneeded, if_neg (by decide)]
    exact h.loosen hfits

end PrintsAs

/-! ## The text of each tree -/

/-- The symbol of an operator is read as its lexeme. -/
theorem Operator.ofChar?_symbol (op : Operator) : Lexeme.ofChar? op.symbol = some op.lexeme := by
  cases op <;> rfl

/-- A blank ends every word. -/
theorem ends_blank (text : List Char) : Ends (' ' :: text) := .cons text rfl rfl

/-- The names of the constants are identifiers. -/
theorem Constant.isIdentifier_name (c : Constant) : IsIdentifier c.name := by
  cases c with
  | pi =>
    refine ⟨'p', ['i'], rfl, by decide, fun d hd => ?_⟩
    rw [List.mem_singleton.mp hd]
    decide
  | euler => exact ⟨'e', [], rfl, by decide, by simp⟩

/-- A constant is printed as an atom. -/
theorem printsAs_constant (c : Constant) : PrintsAs .atom c.name.toList (.constant c) :=
  ⟨.constant c, rfl, .name c.isIdentifier_name⟩

/-- A finite number is printed as a literal, behind a sign if it is negative; the digits are
those of its absolute value. -/
theorem printsAs_number {x : Float} (hfinite : x.isFinite = true) (hzero : x ≠ -0.0) :
    PrintsAs .factor (Decimal.plain x).toList (.number x) := by
  rw [Decimal.isFinite_eq, decide_eq_true_eq] at hfinite
  have hdigits : Renders (Decimal.plainDigits (Decimal.magnitudePattern x)) _ := .number hfinite
  obtain ⟨hsign, hpattern⟩ := Decimal.pattern_ofPattern hfinite.le
  have hnan : x.isNaN = false := by
    rw [Decimal.isNaN_eq, decide_eq_false (Nat.lt_asymm hfinite)]
  unfold Decimal.plain Decimal.signed
  rw [hnan, if_neg (by decide)]
  dsimp only
  rw [if_neg hfinite.ne, String.toList_ofList]
  cases hx : Decimal.isNegative x with
  -- the digits are read as the absolute value, and the sign is read into the literal
  | false =>
    have hread : Decimal.ofPattern (Decimal.magnitudePattern x) = x :=
      Decimal.eq_of_pattern (hsign.trans hx.symm) hpattern
    rw [hread] at hdigits
    exact ⟨.literal x, rfl, hdigits⟩
  | true =>
    obtain ⟨hsign', hpattern'⟩ := Decimal.pattern_neg hfinite.le
    have hread : Decimal.ofPattern (Decimal.magnitudePattern x) = -x := by
      refine Decimal.eq_of_pattern ?_ (hpattern.trans hpattern'.symm)
      rw [hsign, hsign', hx]
      rfl
    have hneg : -(-x) = x := by
      obtain ⟨hsign'', hpattern''⟩ := Decimal.pattern_neg (hpattern'.le.trans hfinite.le)
      refine Decimal.eq_of_pattern ?_ (hpattern''.trans hpattern')
      rw [hsign'', hsign', Bool.not_not]
    have hvalue : (-x == 0.0) = false := by
      rw [Decimal.beq_zero_eq (hpattern'.le.trans hfinite.le), hpattern',
        decide_eq_false_iff_not]
      exact fun h => hzero ((Decimal.eq_negZero_iff x).mpr ⟨hx, h⟩)
    rw [hread] at hdigits
    exact ⟨.negativeLiteral (-x) hvalue, congrArg Expr.number hneg, .char rfl hdigits⟩

/-- A target is a variable, printed with its markers behind it. -/
theorem exists_renders_target {e : Expr Float} (htarget : e.isTarget = true) (h : e.Printable) :
    ∃ name marks, Constant.ofName? name = none ∧ Expr.marked name marks = e ∧
      Renders e.render (.identifier name :: List.replicate marks .apostrophe) := by
  induction e with
  | symbol name => exact ⟨name, 0, h.ofName?_eq_none, rfl, .name h.identifier⟩
  | marker inner ih =>
    obtain ⟨name, marks, hname, rfl, htext⟩ := ih htarget h.2
    have hmark : Renders [apostrophe] [.apostrophe] := .char rfl .nil
    have hrow := htext.append hmark (.cons [] rfl rfl)
    rw [List.cons_append, ← List.replicate_succ'] at hrow
    exact ⟨name, marks + 1, hname, rfl, hrow⟩
  | _ => cases htarget

/-- A target is printed as an atom. -/
theorem printsAs_target {e : Expr Float} (htarget : e.isTarget = true) (h : e.Printable) :
    PrintsAs .atom e.render e := by
  obtain ⟨name, marks, hname, he, htext⟩ := exists_renders_target htarget h
  exact ⟨.symbol name hname marks, he, htext⟩

/-- A call is printed as an atom. -/
theorem printsAs_call {f : String} (hf : IsFree f) {e : Expr Float}
    (h : PrintsAs (.chain .sum) e.render e) :
    PrintsAs .atom (Expr.call f e).render (.call f e) := by
  obtain ⟨p, hp, htext⟩ := h
  refine ⟨.call f hf.ofName?_eq_none p, congrArg (Expr.call f) hp, ?_⟩
  have hclose : Renders [')'] [.closeParen] := .char rfl .nil
  have hargument := Renders.char (c := '(') rfl (htext.append hclose (.cons [] rfl rfl))
  have hrender : (Expr.call f e).render = f.toList ++ '(' :: (e.render ++ [')']) := by
    rw [Expr.render, List.append_assoc, List.cons_append]
  rw [hrender]
  exact (Renders.name hf.identifier).append hargument (.cons _ rfl rfl)

/-- An operator joins a chain of its own rank with an operand of that rank. -/
theorem printsAs_binary (op : Operator) {left right : Expr Float} {text text' : List Char}
    (hleft : PrintsAs (.chain op.rank) text left) (hright : PrintsAs op.rank.operand text' right) :
    PrintsAs (.chain op.rank) (text ++ [' ', op.symbol, ' '] ++ text')
      (.binary op left right) := by
  obtain ⟨p, rfl, htext⟩ := hleft
  obtain ⟨q, rfl, htext'⟩ := hright
  refine ⟨.binary p op rfl q, rfl, ?_⟩
  have hoperator := (Renders.char op.ofChar?_symbol htext'.blank).blank
  rw [List.append_assoc]
  exact htext.append hoperator (ends_blank _)

/-- The sign takes an atom, and whatever is not one is enclosed. -/
theorem printsAs_neg {e : Expr Float} (h : PrintsAs e.level e.render e) :
    PrintsAs .factor (Expr.neg e).render (.neg e) := by
  suffices hatom : PrintsAs .atom (Expr.enclose e.needsParensUnderSign e.render) e by
    obtain ⟨p, rfl, htext⟩ := hatom
    exact ⟨.negative p, rfl, .char rfl htext⟩
  by_cases hneeded : e.needsParensUnderSign = true
  · have hsum : PrintsAs (.chain .sum) e.render e := h.loosen e.level.sum_precedence_le
    rw [hneeded, Expr.enclose, if_pos rfl]
    exact hsum.group
  · rw [Bool.not_eq_true] at hneeded
    rw [hneeded, Expr.enclose, if_neg (by decide)]
    cases e with
    | number x => simp [Expr.needsParensUnderSign, Expr.isNumber] at hneeded
    | neg inner => cases hneeded
    | binary op left right => cases op <;> cases hneeded
    | constant _ | symbol _ | call _ _ | marker _ => exact h
    | assign target value => cases hneeded

/-- The text of a printable tree renders a phrase of the level of the tree. -/
theorem Expr.Printable.printsAs {e : Expr Float} (h : e.Printable) :
    PrintsAs e.level e.render e := by
  induction e with
  | number x => exact printsAs_number h.1 h.2
  | constant c => exact printsAs_constant c
  | symbol name => exact printsAs_target rfl h
  | neg inner ih => exact printsAs_neg (ih h)
  | binary op left right ihleft ihright =>
    have hleft := (ihleft h.1).enclose (l := .chain op.rank) (by cases op <;> decide)
    have hright := (ihright h.2).enclose (l := op.rank.operand) (by cases op <;> decide)
    rw [op.precedence_rank] at hleft
    rw [op.precedence_operand] at hright
    exact printsAs_binary op hleft hright
  | call f argument ih => exact printsAs_call h.1 ((ih h.2).loosen argument.level.sum_precedence_le)
  | marker inner ih => exact printsAs_target h.1 h
  | assign target value => exact h.elim

/-- A printable expression is printed as a sum. -/
theorem Expr.Printable.printsAs_sum {e : Expr Float} (h : e.Printable) :
    PrintsAs (.chain .sum) e.render e :=
  h.printsAs.loosen e.level.sum_precedence_le

/-- The text of an assignment spells its target, the equals sign and its value. -/
theorem renders_assign {target value : Expr Float} {row row' : List Lexeme}
    (h : Renders target.render row) (h' : Renders value.render row') :
    Renders (target.render ++ [' ', '=', ' '] ++ value.render) (row ++ .equals :: row') := by
  have hsign := (Renders.char (c := '=') rfl h'.blank).blank
  rw [List.append_assoc]
  exact h.append hsign (ends_blank _)

/-- A printable expression is printed as a sentence that stands for it. -/
theorem exists_sentence_of_printable {e : Expr Float} (h : e.Printable) :
    ∃ d : Sentence, d.tree = e ∧ d.statement = .expression e ∧ Renders e.render d.lexemes := by
  obtain ⟨p, hp, htext⟩ := h.printsAs_sum
  exact ⟨.value p, hp, congrArg Statement.expression hp, htext⟩

/-- A printable chain of assignments is printed as a sentence that stands for it. -/
theorem exists_sentence_of_chain {e : Expr Float} (h : e.PrintableChain) :
    ∃ d : Sentence, d.tree = e ∧ Renders e.render d.lexemes := by
  induction e with
  | assign target value _ ih =>
    obtain ⟨htarget, hprintable, hvalue⟩ := h
    obtain ⟨p, rfl, htext⟩ := hprintable.printsAs_sum
    obtain ⟨d, rfl, hrest⟩ := ih hvalue
    exact ⟨.assign p htarget d, rfl, renders_assign htext hrest⟩
  | _ =>
    obtain ⟨d, hd, -, htext⟩ := exists_sentence_of_printable h
    exact ⟨d, hd, htext⟩

/-- The text of a printable statement renders a sentence that stands for it. -/
theorem Statement.Printable.exists_sentence {s : Statement Float} (h : s.Printable) :
    ∃ d : Sentence, d.statement = s ∧ Renders s.render d.lexemes := by
  cases s with
  | expression e =>
    obtain ⟨d, -, hd, htext⟩ := exists_sentence_of_printable h
    exact ⟨d, hd, htext⟩
  | assignment target value =>
    obtain ⟨htarget, hprintable, hvalue⟩ := h
    obtain ⟨p, rfl, htext⟩ := hprintable.printsAs_sum
    obtain ⟨d, rfl, hrest⟩ := exists_sentence_of_chain hvalue
    exact ⟨.assign p htarget d, rfl, renders_assign htext hrest⟩

/-- The text of a printable statement is read as the statement. -/
theorem Statement.parse_text {s : Statement Float} (h : s.Printable) :
    Statement.parse s.text = .ok s := by
  obtain ⟨d, rfl, htext⟩ := h.exists_sentence
  obtain ⟨tokens, htokens, hrow⟩ := htext.spells.exists_tokens 0
  refine (Statement.parse_eq_ok_iff _ _).mpr ⟨tokens, ?_, ?_⟩
  · rw [Token.read, Statement.text, String.toList_ofList, htokens]
  · exact Statement.ofTokens_of_sentence d hrow.symm

/-- Printing and parsing are inverse: whatever the parser returns is printable, and the text of
a printable statement is parsed to this statement. -/
theorem Statement.printable_parse_text :
    (∀ (source : String) (s : Statement Float), Statement.parse source = .ok s → s.Printable) ∧
    ∀ s : Statement Float, s.Printable → Statement.parse s.text = .ok s :=
  ⟨fun _ _ => Statement.printable_of_parse, fun _ => Statement.parse_text⟩

/-- A chain of assignments whose value needs parentheses, a folded sign and a call. -/
def chainedStatement : Statement Float :=
  .assignment (.marker (.symbol "x"))
    (.assign (.symbol "y")
      (.binary .pow (.binary .sub (.neg (.number 2.0)) (.number (-3.0))) (.call "f" (.symbol "x"))))

/-- The chain is printable, so it is read back from its text. -/
theorem Statement.parse_text_chainedStatement :
    chainedStatement.Printable ∧ chainedStatement.text = "x' = y = (-(2) - -3) ^ f(x)" ∧
      Statement.parse chainedStatement.text = .ok chainedStatement := by
  have hname (c : Char) (hstart : isIdentifierStart c = true)
      (hname : Constant.ofName? (String.ofList [c]) = none) : IsFree (String.ofList [c]) :=
    .of_ofName? ⟨c, [], by simp, hstart, by simp⟩ hname
  have hx : IsFree "x" := hname 'x' (by decide) (by decide)
  have hy : IsFree "y" := hname 'y' (by decide) (by decide)
  have hf : IsFree "f" := hname 'f' (by decide) (by decide)
  have htwo : (2.0 : Float).isFinite = true ∧ (2.0 : Float) ≠ -0.0 := ⟨by decide, by decide⟩
  have hthree : (-3.0 : Float).isFinite = true ∧ (-3.0 : Float) ≠ -0.0 :=
    ⟨by decide, by decide⟩
  have hprintable : chainedStatement.Printable :=
    ⟨rfl, ⟨rfl, hx⟩, rfl, hy, ⟨htwo, hthree⟩, hf, hx⟩
  exact ⟨hprintable, by decide +kernel,
    Statement.printable_parse_text.2 chainedStatement hprintable⟩

end Fluxion
