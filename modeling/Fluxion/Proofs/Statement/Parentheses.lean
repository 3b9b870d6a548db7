import Fluxion.Proofs.Statement.RoundTrip

/-!
# Parentheses of a printed statement

A statement is printed with as few parentheses as the grammar allows: no text that is read as the
statement has fewer than the text that is printed for it (`Statement.text_fewest_openings`).

Parentheses are counted in the lexemes of a text, by the opening ones.  Nothing but a parenthesis is
read as one, so their number can be counted in the characters as well (`Spells.openings_eq`), and in
what is printed for a tree it can be computed along the tree (`Expr.openings`).

The lower bound is an induction over all derivations (`Phrase.openings_le`).  It has to say more
than the result does: a phrase of a level has parentheses for the tree it stands for, and one more
pair if a tree of this shape is printed in parentheses where a phrase of this level is expected
(`Level.encloses`).  A tree that is enclosed does not bind tightly enough for the level, so no
phrase of the level stands for it but one in parentheses.
-/

set_option autoImplicit false

namespace Fluxion

/-! ## Counting in lexemes and in characters -/

/-- Whether a lexeme is an opening parenthesis. -/
def Lexeme.isOpening : Lexeme → Bool
  | .openParen => true
  | _ => false

/-- The number of opening parentheses in a row of lexemes. -/
def openings (row : List Lexeme) : ℕ := row.countP Lexeme.isOpening

/-- An empty row has no parentheses. -/
@[simp] theorem openings_nil : openings [] = 0 := rfl

/-- A row has the parentheses of its first lexeme and of the others. -/
@[simp] theorem openings_cons (x : Lexeme) (row : List Lexeme) :
    openings (x :: row) = openings row + x.isOpening.toNat := by
  unfold openings
  rw [List.countP_cons]
  cases x.isOpening <;> rfl

/-- Two rows have their parentheses together. -/
@[simp] theorem openings_append (row row' : List Lexeme) :
    openings (row ++ row') = openings row + openings row' :=
  List.countP_append

/-- Operators are no parentheses. -/
@[simp] theorem isOpening_lexeme (op : Operator) : op.lexeme.isOpening = false := by
  cases op <;> rfl

/-- A number is written without parentheses. -/
theorem Literal.not_mem_text_of_isWritten {l : Literal} (h : l.IsWritten) : '(' ∉ l.text := by
  intro hmem
  have hdigits : ∀ row : List Char, (∀ c ∈ row, c.isDigit = true) → '(' ∉ row := by
    intro row hrow hopen
    exact absurd (hrow _ hopen) (by decide)
  obtain hmem | hmem := List.mem_append.mp hmem
  · exact hdigits _ h.whole hmem
  · obtain htail | ⟨separator, fraction, htail, hseparator, hfraction⟩ := h.tail
    · simp [htail] at hmem
    · rw [htail] at hmem
      obtain rfl | hmem := List.mem_cons.mp hmem
      · exact absurd hseparator (by decide)
      · exact hdigits _ hfraction hmem

/-- A word is read as a parenthesis exactly if it is one. -/
theorem Lexeme.count_of_scan {c : Char} {rest word : List Char} {x : Lexeme}
    (h : Lexeme.scan c rest = .ok (x, word)) : word.count '(' = x.isOpening.toNat := by
  obtain ⟨hdigit, -, rfl, rfl⟩ | ⟨hstart, rfl, rfl⟩ | ⟨hchar, rfl⟩ := scan_cases h
  · have hwritten := Literal.isWritten_scan hdigit rest
    exact List.count_eq_zero.mpr (Literal.not_mem_text_of_isWritten hwritten)
  · refine List.count_eq_zero.mpr fun hmem => ?_
    obtain rfl | hmem := List.mem_cons.mp hmem
    · exact absurd hstart (by decide)
    · exact absurd (List.mem_takeWhile_imp hmem) (by decide)
  · unfold Lexeme.ofChar? at hchar
    split at hchar
    all_goals cases hchar
    all_goals rfl

/-- A text has as many parentheses as the row that it spells. -/
theorem Spells.openings_eq {text : List Char} {row : List Lexeme} (h : Spells text row) :
    openings row = text.count '(' := by
  induction h with
  | nil => rfl
  | @blank c rest row hblank hrest ih =>
    have hc : c ≠ '(' := by
      rintro rfl
      exact absurd hblank (by decide)
    rw [ih, List.count_cons_of_ne hc]
  | @lexeme c word rest x row hblank hscan hrest ih =>
    rw [openings_cons, ih, ← Lexeme.count_of_scan hscan, ← List.cons_append, List.count_append,
      Nat.add_comm]

/-! ## What is printed -/

/-- The number of opening parentheses that are printed for a tree. -/
def Expr.openings : Expr Float → ℕ
  | .number _ | .constant _ | .symbol _ => 0
  | .neg inner => inner.openings + inner.needsParensUnderSign.toNat
  | .binary op left right =>
    left.openings + (decide (left.precedence < op.precedence)).toNat
      + (right.openings + (decide (right.precedence < op.precedence + 1)).toNat)
  | .call _ argument => argument.openings + 1
  | .marker inner => inner.openings
  | .assign target value => target.openings + value.openings

/-- The number of opening parentheses that are printed for a statement. -/
def Statement.openings : Statement Float → ℕ
  | .expression e => e.openings
  | .assignment target value => target.openings + value.openings

/-- Enclosing a text adds one pair, if it is needed. -/
theorem count_enclose (needed : Bool) (text : List Char) :
    (Expr.enclose needed text).count '(' = text.count '(' + needed.toNat := by
  cases needed <;> simp [Expr.enclose]

/-- A number is printed without parentheses. -/
theorem count_plain (x : Float) : (Decimal.plain x).toList.count '(' = 0 := by
  have hdigits : '(' ∉ Decimal.plainDigits (Decimal.magnitudePattern x) := by
    rw [Decimal.plainDigits, ← Decimal.Numeral.text_literal]
    exact Literal.not_mem_text_of_isWritten (Decimal.Numeral.isWritten_literal _)
  rw [List.count_eq_zero]
  unfold Decimal.plain Decimal.signed
  split
  · decide
  · dsimp only
    split <;> split <;> simp [hdigits]

/-- Names have no parentheses. -/
theorem IsFree.count_name {name : String} (h : IsFree name) : name.toList.count '(' = 0 := by
  obtain ⟨c, rest, htext, hstart, hrest⟩ := h.identifier
  rw [htext, List.count_eq_zero]
  intro hmem
  obtain rfl | hmem := List.mem_cons.mp hmem
  · exact absurd hstart (by decide)
  · exact absurd (hrest _ hmem) (by decide)

/-- The names of the constants have no parentheses. -/
theorem Constant.count_name (c : Constant) : c.name.toList.count '(' = 0 := by
  cases c <;> decide

/-- Operators are printed without parentheses. -/
theorem Operator.symbol_ne (op : Operator) : op.symbol ≠ '(' := by
  cases op <;> decide

/-- The text of an expression has the parentheses that are counted in its tree. -/
theorem Expr.Printable.count_render {e : Expr Float} (h : e.Printable) :
    e.render.count '(' = e.openings := by
  induction e with
  | number x => exact count_plain x
  | constant c => exact c.count_name
  | symbol name => exact IsFree.count_name h
  | neg inner ih =>
    have hinner := ih h
    simp [render, openings, count_enclose, hinner]
  | binary op left right ihleft ihright =>
    have hleft := ihleft h.1
    have hright := ihright h.2
    simp [render, openings, count_enclose, hleft, hright, op.symbol_ne]
  | call f argument ih =>
    have hargument := ih h.2
    simp [render, openings, h.1.count_name, hargument]
  | marker inner ih =>
    have hinner := ih h.2
    simp [render, openings, apostrophe, hinner]
  | assign target value => exact h.elim

/-- The text of a chain of assignments has the parentheses that are counted in its tree. -/
theorem Expr.PrintableChain.count_render {e : Expr Float} (h : e.PrintableChain) :
    e.render.count '(' = e.openings := by
  induction e with
  | assign target value _ ih =>
    have htarget := h.2.1.count_render
    have hvalue := ih h.2.2
    simp [render, openings, htarget, hvalue]
  | _ => exact Printable.count_render h

/-- The text of a statement has the parentheses that are counted in its trees. -/
theorem Statement.Printable.count_render {s : Statement Float} (h : s.Printable) :
    s.render.count '(' = s.openings := by
  cases s with
  | expression e => exact Expr.Printable.count_render h
  | assignment target value =>
    have htarget := h.2.1.count_render
    have hvalue := h.2.2.count_render
    simp [render, openings, htarget, hvalue]

/-! ## What every spelling needs -/

/-- Whether a tree is printed in parentheses where a phrase of a level is expected. -/
def Level.encloses : Level → Expr Float → Bool
  | .atom, e => e.needsParensUnderSign
  | .factor, e => e.precedence < factorPrecedence
  | .chain k, e => e.precedence < (Level.chain k).precedence

/-- A tree that binds less tightly than a level is enclosed there. -/
theorem Level.encloses_of_lt {l : Level} {e : Expr Float} (h : e.precedence < l.precedence) :
    l.encloses e = true := by
  cases l with
  | chain k => exact decide_eq_true h
  | factor => exact decide_eq_true h
  | atom =>
    have hlt : e.precedence < atomPrecedence := h
    simp [encloses, Expr.needsParensUnderSign, hlt]

/-- A tree that is enclosed where a loose phrase is expected is so where a tight one is. -/
theorem Level.encloses_le {l m : Level} (hl : l.precedence ≤ factorPrecedence)
    (hlm : l.precedence ≤ m.precedence) (e : Expr Float) :
    (l.encloses e).toNat ≤ (m.encloses e).toNat := by
  cases hencloses : l.encloses e with
  | false => exact Nat.zero_le _
  | true =>
    have hlt : e.precedence < l.precedence := by
      cases l with
      | chain k => exact of_decide_eq_true hencloses
      | factor => exact of_decide_eq_true hencloses
      | atom => exact absurd hl (by decide)
    rw [encloses_of_lt (hlt.trans_le hlm)]

/-- A variable with its marks is printed without parentheses, under a sign too. -/
theorem Expr.openings_marked (name : String) (marks : ℕ) :
    (Expr.marked name marks).openings = 0 ∧
      (Expr.marked name marks).needsParensUnderSign = false := by
  induction marks with
  | zero => exact ⟨rfl, rfl⟩
  | succ marks ih => exact ⟨ih.1, rfl⟩

/-- A literal needs no parentheses as a factor, whether it is negative or not. -/
theorem Level.encloses_number (x : Float) : Level.factor.encloses (.number x) = false := by
  apply decide_eq_false
  change ¬ (if x < 0.0 then factorPrecedence else atomPrecedence) < factorPrecedence
  split <;> decide

/-- A phrase has the parentheses that are printed for its tree where a phrase of its level is
expected. -/
theorem Phrase.openings_le {l : Level} (p : Phrase l) :
    p.tree.openings + (l.encloses p.tree).toNat ≤ Fluxion.openings p.lexemes := by
  induction p with
  | group inner ih =>
    have hone : (Level.atom.encloses inner.tree).toNat ≤ 1 := Bool.toNat_le _
    simp only [tree, lexemes, openings_cons, openings_append, openings_nil, Lexeme.isOpening,
      Bool.toNat_true, Bool.toNat_false]
    omega
  | constant c => exact Nat.zero_le _
  | symbol name hname marks =>
    obtain ⟨hopenings, hencloses⟩ := Expr.openings_marked name marks
    simp [tree, Level.encloses, hopenings, hencloses]
  | call name hname argument ih =>
    simp only [tree, lexemes, Expr.openings, Level.encloses, openings_cons, openings_append,
      openings_nil, Lexeme.isOpening, Bool.toNat_true, Bool.toNat_false]
    have hatom : (Expr.call name argument.tree).needsParensUnderSign = false := rfl
    rw [hatom, Bool.toNat_false]
    omega
  | literal value => simp [tree, Expr.openings, Level.encloses_number]
  | negativeLiteral value hvalue => simp [tree, Expr.openings, Level.encloses_number]
  | plain inner ih =>
    have hle := Level.encloses_le (l := .factor) (m := .atom) le_rfl (by decide) inner.tree
    exact (Nat.add_le_add_left hle _).trans ih
  | negative inner ih =>
    have hfactor : Level.factor.encloses (.neg inner.tree) = false := rfl
    simp only [tree, lexemes, Expr.openings, openings_cons, Lexeme.isOpening, hfactor,
      Bool.toNat_false]
    exact ih
  | @single k operand ih =>
    have hle := Level.encloses_le (l := .chain k) (m := k.operand) (by cases k <;> decide)
      (by cases k <;> decide) operand.tree
    exact (Nat.add_le_add_left hle _).trans ih
  | @binary k left op hop right ihleft ihright =>
    subst hop
    -- the operands stand where the grammar has a chain of the same rank and an operand of it
    have hleft : (Level.chain op.rank).encloses left.tree =
        decide (left.tree.precedence < op.precedence) := by
      rw [← op.precedence_rank]
      rfl
    have hright : op.rank.operand.encloses right.tree =
        decide (right.tree.precedence < op.precedence + 1) := by
      rw [← op.precedence_operand]
      cases op <;> rfl
    have hown : (Level.chain op.rank).encloses (.binary op left.tree right.tree) = false := by
      cases op <;> rfl
    rw [hleft] at ihleft
    rw [hright] at ihright
    simp only [tree, lexemes, Expr.openings, openings_append, openings_cons, isOpening_lexeme, hown,
      Bool.toNat_false]
    omega

/-- A sentence has the parentheses that are printed for its tree. -/
theorem Sentence.openings_tree_le (d : Sentence) : d.tree.openings ≤ openings d.lexemes := by
  induction d with
  | value sum => exact (Nat.le_add_right _ _).trans sum.openings_le
  | assign target htarget rest ih =>
    have htree := (Nat.le_add_right _ _).trans target.openings_le
    simp only [tree, lexemes, Expr.openings, openings_append, openings_cons, Lexeme.isOpening]
    exact Nat.add_le_add htree ih

/-- A sentence has the parentheses that are printed for its statement. -/
theorem Sentence.openings_statement_le (d : Sentence) :
    d.statement.openings ≤ openings d.lexemes := by
  cases d with
  | value sum => exact Sentence.openings_tree_le (.value sum)
  | assign target htarget rest => exact Sentence.openings_tree_le (.assign target htarget rest)

/-- Every text that is read as a statement has the parentheses that are printed for it. -/
theorem Statement.openings_le_of_parse {text : String} {tokens : List Token}
    {s : Statement Float} (hparse : Statement.parse text = .ok s)
    (htokens : Token.read text = .ok tokens) :
    s.openings ≤ Fluxion.openings (tokens.map (·.lexeme)) := by
  obtain ⟨tokens', htokens', hs⟩ := (Statement.parse_eq_ok_iff text s).mp hparse
  obtain rfl : tokens' = tokens := Except.ok.inj (htokens'.symm.trans htokens)
  obtain ⟨d, hd, rfl⟩ := Statement.exists_sentence_of_ofTokens hs
  rw [← hd]
  exact d.openings_statement_le

/-- A statement that is read from a text is printed as a text which is read as the same statement
and has no more parentheses than any text that is. -/
theorem Statement.text_fewest_openings (source : String) (s : Statement Float)
    (h : Statement.parse source = .ok s) :
    ∃ printed, Token.read s.text = .ok printed ∧ Statement.parse s.text = .ok s ∧
      ∀ text tokens, Statement.parse text = .ok s → Token.read text = .ok tokens →
        Fluxion.openings (printed.map (·.lexeme)) ≤ Fluxion.openings (tokens.map (·.lexeme)) := by
  have hprintable := Statement.printable_of_parse h
  have hback := Statement.parse_text hprintable
  obtain ⟨printed, hprinted, -⟩ := (Statement.parse_eq_ok_iff _ _).mp hback
  refine ⟨printed, hprinted, hback, fun text tokens hparse htokens => ?_⟩
  have hspells := Token.spells_of_readFrom hprinted
  rw [hspells.openings_eq, Statement.text, String.toList_ofList, hprintable.count_render]
  exact openings_le_of_parse hparse htokens

/-- A quotient that needs one pair around its left operand and two on the right: a sign takes no
sign after it, and a chain of quotients groups to the left. -/
def quotientStatement : Statement Float :=
  .assignment (.marker (.symbol "x"))
    (.binary .div (.binary .add (.symbol "x") (.symbol "y"))
      (.binary .div (.neg (.neg (.symbol "y"))) (.symbol "x")))

/-- Three pairs are printed where the source has seven, and no text with two is read as this
statement. -/
theorem Statement.text_fewest_openings_quotient :
    Statement.parse "x' = (((x + y)) / ((-(-y)) / (x)))" = .ok quotientStatement ∧
      quotientStatement.text = "x' = (x + y) / (-(-y) / x)" ∧
      ∃ printed, Token.read quotientStatement.text = .ok printed ∧
        Statement.parse quotientStatement.text = .ok quotientStatement ∧
        ∀ text tokens, Statement.parse text = .ok quotientStatement →
          Token.read text = .ok tokens →
          Fluxion.openings (printed.map (·.lexeme)) ≤
            Fluxion.openings (tokens.map (·.lexeme)) := by
  have hparse : Statement.parse "x' = (((x + y)) / ((-(-y)) / (x)))" = .ok quotientStatement := by
    cbv
  exact ⟨hparse, by decide +kernel, Statement.text_fewest_openings _ _ hparse⟩

end Fluxion
