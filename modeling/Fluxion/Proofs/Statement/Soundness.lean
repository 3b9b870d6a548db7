import Fluxion.Proofs.Statement.Grammar

/-!
# What the reader has read is derived by the grammar

After every lexeme the state of the reader stands for the lexemes it has read: each target, each
operand that waits and the atom that was read last carry a tree, and each of these trees is
derived from its part of the row (`Reader.Reads`).  One lexeme keeps this relation
(`Reader.Reads.step`), and so does a run.  When the input ends the parts join to a
sentence (`Reader.Reads.finish`).
-/

set_option autoImplicit false

namespace Fluxion

/-- A row of lexemes has a derivation of a level that stands for a tree. -/
def Derives (l : Level) (row : List Lexeme) (tree : Expr Float) : Prop :=
  ∃ p : Phrase l, p.lexemes = row ∧ p.tree = tree

/-- The lexeme of a sign, if there is one. -/
def signLexemes (negated : Bool) : List Lexeme := if negated then [.minus] else []

/-- The lexemes that open a parenthesis, with the name of a call. -/
def openingLexemes : Option String → List Lexeme
  | none => [.openParen]
  | some name => [.identifier name, .openParen]

namespace Derives

/-- What derives an operand derives a chain. -/
theorem single {k : Rank} {row : List Lexeme} {e : Expr Float} (h : Derives k.operand row e) :
    Derives (.chain k) row e := by
  obtain ⟨p, hp, ht⟩ := h
  exact ⟨.single p, hp, ht⟩

/-- A chain, an operator and an operand derive a longer chain. -/
theorem binary {k : Rank} {op : Operator} (hop : op.rank = k) {row row' : List Lexeme}
    {left right : Expr Float} (hl : Derives (.chain k) row left)
    (hr : Derives k.operand row' right) :
    Derives (.chain k) (row ++ op.lexeme :: row') (.binary op left right) := by
  obtain ⟨p, rfl, rfl⟩ := hl
  obtain ⟨q, rfl, rfl⟩ := hr
  exact ⟨.binary p op hop q, rfl, rfl⟩

/-- An atom, with a sign or without, derives a factor. -/
theorem signed {row : List Lexeme} {e : Expr Float} (negated : Bool) (h : Derives .atom row e) :
    Derives .factor (signLexemes negated ++ row) (signedFactor negated e) := by
  obtain ⟨p, rfl, rfl⟩ := h
  cases negated with
  | false => exact ⟨.plain p, rfl, rfl⟩
  | true => exact ⟨.negative p, rfl, rfl⟩

/-- A name with marks derives an atom. -/
theorem marked {name : String} (h : Constant.ofName? name = none) (marks : Nat) :
    Derives .atom (.identifier name :: List.replicate marks .apostrophe)
      (Expr.marked name marks) :=
  ⟨.symbol name h marks, rfl, rfl⟩

end Derives

/-! ## The operands that wait -/

/-- An operand of a rank waits, or none does, and a row of lexemes derives what waits. -/
inductive Waits (k : Rank) : Option (Operator × Expr Float) → List Lexeme → Prop where
  | nothing : Waits k none []
  | operand {op : Operator} {left : Expr Float} {row : List Lexeme} (hop : op.rank = k)
    (h : Derives (.chain k) row left) : Waits k (some (op, left)) (row ++ [op.lexeme])

/-- What waits, joined with its right operand. -/
def joinWaiting (waiting : Option (Operator × Expr Float)) (e : Expr Float) : Expr Float :=
  match waiting with
  | none => e
  | some (op, left) => .binary op left e

/-- An operand and what waits for it derive a chain. -/
theorem Waits.join {k : Rank} {waiting : Option (Operator × Expr Float)} {row row' : List Lexeme}
    {e : Expr Float} (hw : Waits k waiting row) (he : Derives k.operand row' e) :
    Derives (.chain k) (row ++ row') (joinWaiting waiting e) := by
  cases hw with
  | nothing => exact he.single
  | operand hop h =>
    rw [List.append_assoc]
    exact Derives.binary hop h he

namespace Pending

/-- The base that waits, with its operator. -/
def powerWaiting (p : Pending) : Option (Operator × Expr Float) :=
  p.power.map fun base => (.pow, base)

/-- The operands that wait are derived from a row of lexemes. -/
def Reads (p : Pending) (row : List Lexeme) : Prop :=
  ∃ sums products powers, Waits .sum p.sum sums ∧ Waits .product p.product products ∧
    Waits .power p.powerWaiting powers ∧ row = sums ++ (products ++ powers)

/-- At the beginning nothing waits. -/
theorem reads_empty : Reads {} [] := ⟨[], [], [], .nothing, .nothing, .nothing, rfl⟩

/-- Closing a power joins the base that waits. -/
theorem closePower_eq (p : Pending) (e : Expr Float) :
    p.closePower e = joinWaiting p.powerWaiting e := by
  unfold closePower powerWaiting
  cases p.power <;> rfl

/-- Closing a product joins the left operand that waits, and closes the power first. -/
theorem closeProduct_eq (p : Pending) (e : Expr Float) :
    p.closeProduct e = joinWaiting p.product (p.closePower e) := by
  unfold closeProduct
  cases p.product <;> rfl

/-- Closing a sum joins the left operand that waits, and closes the product first. -/
theorem closeSum_eq (p : Pending) (e : Expr Float) :
    p.closeSum e = joinWaiting p.sum (p.closeProduct e) := by
  unfold closeSum
  cases p.sum <;> rfl

/-- What waits and a factor form a sum. -/
theorem Reads.closeSum {p : Pending} {row row' : List Lexeme} {e : Expr Float}
    (hp : p.Reads row) (he : Derives .factor row' e) :
    Derives (.chain .sum) (row ++ row') (p.closeSum e) := by
  obtain ⟨sums, products, powers, hs, hm, hw, rfl⟩ := hp
  rw [closeSum_eq, closeProduct_eq, closePower_eq, List.append_assoc, List.append_assoc]
  exact hs.join (hm.join (hw.join he))

/-- A factor and an operator behind what waits are derived from what now waits. -/
theorem Reads.extend {p : Pending} {row row' : List Lexeme} {e : Expr Float} (op : Operator)
    (hp : p.Reads row) (he : Derives .factor row' e) :
    (p.extend e op).Reads (row ++ (row' ++ [op.lexeme])) := by
  -- the operator closes the levels that bind at least as tightly as its own
  have hsum := hp.closeSum he
  obtain ⟨sums, products, powers, hs, hm, hw, rfl⟩ := hp
  have hpower := hw.join he
  have hproduct := hm.join hpower
  rw [← closePower_eq] at hpower
  rw [← closePower_eq, ← closeProduct_eq] at hproduct
  have hadditive (h : op.rank = .sum) : Reads { sum := some (op, p.closeSum e) }
      (sums ++ (products ++ powers) ++ (row' ++ [op.lexeme])) :=
    ⟨_, [], [], .operand h hsum, .nothing, .nothing, by simp⟩
  have hmultiplicative (h : op.rank = .product) :
      Reads { sum := p.sum, product := some (op, p.closeProduct e) }
        (sums ++ (products ++ powers) ++ (row' ++ [op.lexeme])) :=
    ⟨sums, _, [], hs, .operand h hproduct, .nothing, by simp⟩
  cases op with
  | add => exact hadditive rfl
  | sub => exact hadditive rfl
  | mul => exact hmultiplicative rfl
  | div => exact hmultiplicative rfl
  | pow =>
    have hwaits : Waits .power (some (.pow, p.closePower e)) (powers ++ row' ++ [.caret]) :=
      .operand rfl hpower
    exact ⟨sums, products, _, hs, hm, hwaits, by simp [Operator.lexeme]⟩

end Pending

/-! ## The open parentheses, the targets and the atom read last -/

/-- An open parenthesis and what it interrupted are derived from a row of lexemes. -/
def Enclosure.Reads (e : Enclosure) (row : List Lexeme) : Prop :=
  ∃ waiting, e.pending.Reads waiting ∧ (∀ name ∈ e.call, Constant.ofName? name = none) ∧
    row = waiting ++ (signLexemes e.negated ++ openingLexemes e.call)

/-- A sum behind an opened parenthesis and the closing one derive a factor. -/
theorem Enclosure.derives_close {e : Enclosure}
    (hcall : ∀ name ∈ e.call, Constant.ofName? name = none)
    {row : List Lexeme} {inner : Expr Float} (h : Derives (.chain .sum) row inner) :
    Derives .factor (signLexemes e.negated ++ (openingLexemes e.call ++ (row ++ [.closeParen])))
      (signedFactor e.negated (e.close inner)) := by
  obtain ⟨p, rfl, rfl⟩ := h
  refine Derives.signed e.negated ?_
  unfold Enclosure.close
  cases hc : e.call with
  | none => exact ⟨.group p, rfl, rfl⟩
  | some name => exact ⟨.call name (hcall name (by simp [hc])) p, rfl, rfl⟩

/-- The open parentheses, the innermost first, are derived from a row of lexemes. -/
inductive EnclosuresRead : List Enclosure → List Lexeme → Prop where
  | nil : EnclosuresRead [] []
  | cons {e : Enclosure} {outer : List Enclosure} {before row : List Lexeme}
    (hbefore : EnclosuresRead outer before) (h : e.Reads row) :
    EnclosuresRead (e :: outer) (before ++ row)

/-- The targets, the last first, are derived from a row of lexemes. -/
inductive TargetsRead : List (Expr Float) → List Lexeme → Prop where
  | nil : TargetsRead [] []
  | cons {target : Expr Float} {outer : List (Expr Float)} {before row : List Lexeme}
    (hbefore : TargetsRead outer before) (ht : target.isTarget = true)
    (h : Derives (.chain .sum) row target) :
    TargetsRead (target :: outer) (before ++ (row ++ [.equals]))

/-- What was read last is derived from a row of lexemes, and the row allows what may still be
added to the atom. -/
inductive Phase.Reads : Phase → List Lexeme → Prop where
  | start : Reads (.operand false) []
  | sign : Reads (.operand true) [.minus]
  | name {negated : Bool} {name : String} (h : Constant.ofName? name = none) :
    Reads (.atom negated (.symbol name) (.name name)) (signLexemes negated ++ [.identifier name])
  | marks {negated : Bool} {name : String} (h : Constant.ofName? name = none) (marks : Nat) :
    Reads (.atom negated (Expr.marked name (marks + 1)) .marks)
      (signLexemes negated ++ .identifier name :: List.replicate (marks + 1) .apostrophe)
  | nothing {negated : Bool} {tree : Expr Float} {row : List Lexeme}
    (h : Derives .factor row (signedFactor negated tree)) :
    Reads (.atom negated tree .nothing) row

/-- The atom that was read last derives a factor with its sign. -/
theorem Phase.Reads.derives {negated : Bool} {tree : Expr Float} {tail : AtomTail}
    {row : List Lexeme} (h : Phase.Reads (.atom negated tree tail) row) :
    Derives .factor row (signedFactor negated tree) := by
  cases h with
  | name h => exact (Derives.marked h 0).signed negated
  | marks h marks => exact (Derives.marked h (marks + 1)).signed negated
  | nothing h => exact h

/-- The row of lexemes that a state of the reader stands for. -/
def Reader.Reads (r : Reader) (row : List Lexeme) : Prop :=
  ∃ before around waiting last, TargetsRead r.targets before ∧
    EnclosuresRead r.enclosures around ∧ r.pending.Reads waiting ∧ r.phase.Reads last ∧
    row = before ++ (around ++ (waiting ++ last))

namespace Reader

/-- At the beginning nothing has been read. -/
theorem reads_empty : Reads {} [] :=
  ⟨[], [], [], [], .nil, .nil, Pending.reads_empty, .start, rfl⟩

/-- A lexeme is that of the operator as which it is read. -/
theorem lexeme_of_operator? {x : Lexeme} {op : Operator} (h : operator? x = some op) :
    x = op.lexeme := by
  unfold operator? at h
  split at h <;> first | (cases h; rfl) | cases h

/-- Behind an opening parenthesis the lexemes so far are those of the state. -/
theorem Reads.enter {r : Reader} (negated : Bool) (call : Option String)
    {before around waiting : List Lexeme}
    (ht : TargetsRead r.targets before) (he : EnclosuresRead r.enclosures around)
    (hp : r.pending.Reads waiting) (hcall : ∀ name ∈ call, Constant.ofName? name = none) :
    (r.enter negated call).Reads
      (before ++ (around ++ (waiting ++ (signLexemes negated ++ openingLexemes call)))) :=
  ⟨before, _, [], [], ht, .cons he ⟨waiting, hp, hcall, rfl⟩, Pending.reads_empty, .start, by simp⟩

/-- Where an operand has to follow, reading a lexeme keeps the lexemes so far those of the state. -/
theorem Reads.readOperand {r r' : Reader} {negated : Bool} {x : Lexeme} {row : List Lexeme}
    (h : r.Reads row) (hphase : r.phase = .operand negated)
    (hr : r.readOperand negated x = .ok r') : r'.Reads (row ++ [x]) := by
  obtain ⟨before, around, waiting, last, ht, he, hp, hl, rfl⟩ := h
  -- where an operand has to follow, nothing was read of it but the sign
  have hlast : last = signLexemes negated := by
    rw [hphase] at hl
    cases hl <;> rfl
  subst hlast
  simp only [List.append_assoc]
  cases x with
  | number value =>
    cases negated with
    | false =>
      obtain rfl := Except.ok.inj hr
      exact ⟨before, around, waiting, _, ht, he, hp, .nothing ⟨.literal value, rfl, rfl⟩, rfl⟩
    | true =>
      simp only [Reader.readOperand, Bool.not_true, Bool.false_eq_true, if_false] at hr
      split at hr
      · cases hr
      · rename_i hzero
        obtain rfl := Except.ok.inj hr
        refine ⟨before, around, waiting, _, ht, he, hp, .nothing ?_, rfl⟩
        exact ⟨.negativeLiteral value (by simpa using hzero), rfl, rfl⟩
  | identifier name =>
    simp only [Reader.readOperand] at hr
    split at hr
    · rename_i c hc
      obtain rfl := Except.ok.inj hr
      obtain rfl := (Constant.ofName?_eq_some_iff name c).mp hc
      refine ⟨before, around, waiting, _, ht, he, hp, .nothing ?_, rfl⟩
      exact Derives.signed negated ⟨.constant c, rfl, rfl⟩
    · rename_i hc
      obtain rfl := Except.ok.inj hr
      exact ⟨before, around, waiting, _, ht, he, hp, .name hc, rfl⟩
  | openParen =>
    obtain rfl := Except.ok.inj hr
    exact Reads.enter negated none ht he hp (by simp)
  | minus =>
    cases negated with
    | false =>
      obtain rfl := Except.ok.inj hr
      exact ⟨before, around, waiting, _, ht, he, hp, .sign, rfl⟩
    | true => cases hr
  | _ => cases hr

/-- Reading a boundary keeps the lexemes so far those of the state. -/
theorem Reads.readBoundary {r r' : Reader} {sum : Expr Float} {x : Lexeme}
    {before around row : List Lexeme} (ht : TargetsRead r.targets before)
    (he : EnclosuresRead r.enclosures around) (hsum : Derives (.chain .sum) row sum)
    (hr : r.readBoundary sum x = .ok r') : r'.Reads (before ++ (around ++ (row ++ [x]))) := by
  unfold Reader.readBoundary at hr
  split at hr
  · rename_i e outer henclosures
    obtain rfl := Except.ok.inj hr
    rw [henclosures] at he
    cases he with
    | cons houter hread =>
      obtain ⟨waiting, hp, hcall, rfl⟩ := hread
      refine ⟨before, _, waiting, _, ht, houter, hp, .nothing (e.derives_close hcall hsum), ?_⟩
      simp
  · rename_i henclosures
    rw [henclosures] at he
    cases he
    split at hr
    · rename_i htarget
      obtain rfl := Except.ok.inj hr
      exact ⟨_, [], [], [], .cons ht htarget hsum, .nil, Pending.reads_empty, .start, by simp⟩
    · cases hr
  · cases hr
  · cases hr

/-- Behind an atom, reading a lexeme keeps the lexemes so far those of the state. -/
theorem Reads.readAfterAtom {r r' : Reader} {negated : Bool} {tree : Expr Float} {tail : AtomTail}
    {x : Lexeme} {row : List Lexeme} (h : r.Reads row) (hphase : r.phase = .atom negated tree tail)
    (hr : r.readAfterAtom negated tree tail x = .ok r') : r'.Reads (row ++ [x]) := by
  obtain ⟨before, around, waiting, last, ht, he, hp, hl, rfl⟩ := h
  rw [hphase] at hl
  have hfactor := hl.derives
  simp only [List.append_assoc]
  unfold Reader.readAfterAtom at hr
  -- a first marker, another marker, the parenthesis of a call, and what ends the atom
  split at hr
  · obtain rfl := Except.ok.inj hr
    cases hl with
    | name hname =>
      exact ⟨before, around, waiting, _, ht, he, hp, .marks hname 0, by simp⟩
  · obtain rfl := Except.ok.inj hr
    cases hl with
    | marks hname marks =>
      refine ⟨before, around, waiting, _, ht, he, hp, .marks hname (marks + 1), ?_⟩
      rw [List.replicate_succ' (n := marks + 1)]
      simp
  · obtain rfl := Except.ok.inj hr
    cases hl with
    | name hname =>
      have henter := Reads.enter negated (some _) ht he hp (by simpa using hname)
      simpa [openingLexemes] using henter
  · split at hr
    · rename_i op hop
      obtain rfl := Except.ok.inj hr
      rw [lexeme_of_operator? hop]
      exact ⟨before, around, _, [], ht, he, hp.extend op hfactor, .start, by simp⟩
    · have hboundary := Reads.readBoundary ht he (hp.closeSum hfactor) hr
      simpa using hboundary

/-- One lexeme keeps the relation between the state and the lexemes read. -/
theorem Reads.step {r r' : Reader} {x : Lexeme} {row : List Lexeme} (h : r.Reads row)
    (hr : r.readLexeme x = .ok r') : r'.Reads (row ++ [x]) := by
  unfold readLexeme at hr
  split at hr
  · rename_i negated hphase
    exact h.readOperand hphase hr
  · rename_i negated tree tail hphase
    exact h.readAfterAtom hphase hr

/-- Noting where a clause starts changes nothing in the lexemes so far. -/
theorem Reads.begin {r : Reader} {row : List Lexeme} (h : r.Reads row) (t : Token) :
    (r.begin t).Reads row := h

/-- The targets before a sentence make a longer sentence. -/
theorem exists_sentence {targets : List (Expr Float)} {before : List Lexeme}
    (h : TargetsRead targets before) (d : Sentence) :
    ∃ d' : Sentence, d'.lexemes = before ++ d.lexemes ∧
      d'.statement = if targets = [] then d.statement else assemble targets d.tree := by
  induction h generalizing d with
  | nil => exact ⟨d, rfl, rfl⟩
  | @cons target outer before row hbefore ht hderives ih =>
    obtain ⟨p, rfl, rfl⟩ := hderives
    obtain ⟨d', hlexemes, hstatement⟩ := ih (.assign p ht d)
    refine ⟨d', ?_, ?_⟩
    · simpa [Sentence.lexemes] using hlexemes
    · rw [hstatement]
      cases outer with
      | nil => rfl
      | cons next others => rfl

/-- When the input ends, the lexemes read form a sentence. -/
theorem Reads.finish {r : Reader} {row : List Lexeme} {s : Statement Float} (h : r.Reads row)
    (hr : r.finish = .ok s) : ∃ d : Sentence, d.lexemes = row ∧ d.statement = s := by
  obtain ⟨before, around, waiting, last, ht, he, hp, hl, rfl⟩ := h
  unfold Reader.finish at hr
  split at hr
  · cases hr
  · cases hr
  · rename_i negated tree tail hphase henclosures
    obtain rfl := Except.ok.inj hr
    rw [hphase] at hl
    rw [henclosures] at he
    cases he
    obtain ⟨p, hrow, htree⟩ := hp.closeSum hl.derives
    obtain ⟨d, hlexemes, hstatement⟩ := exists_sentence ht (.value p)
    refine ⟨d, ?_, ?_⟩
    · rw [hlexemes, Sentence.lexemes, hrow, List.nil_append]
    · rw [hstatement, Sentence.statement, Sentence.tree, htree]
      cases htargets : r.targets with
      | nil => rfl
      | cons target outer => rfl

/-- A run from a state that stands for a row reads a sentence that begins with the row. -/
theorem Reads.run {r : Reader} {row : List Lexeme} {tokens : List Token} {s : Statement Float}
    (h : r.Reads row) (hr : r.run tokens = .ok s) :
    ∃ d : Sentence, d.lexemes = row ++ tokens.map (·.lexeme) ∧ d.statement = s := by
  induction tokens generalizing r row with
  | nil => simpa using h.finish hr
  | cons t rest ih =>
    unfold Reader.run at hr
    split at hr
    · rename_i next hread
      unfold Reader.read at hread
      split at hread
      · rename_i after hlexeme
        obtain rfl := Except.ok.inj hread
        have hnext := ih ((h.begin t).step hlexeme) hr
        simpa using hnext
      · cases hread
    · cases hr

end Reader

/-- A row of tokens that is read as a statement is derived by the grammar, and the statement is
the one that the derivation stands for. -/
theorem Statement.exists_sentence_of_ofTokens {tokens : List Token} {s : Statement Float}
    (h : Statement.ofTokens tokens = .ok s) :
    ∃ d : Sentence, d.lexemes = tokens.map (·.lexeme) ∧ d.statement = s := by
  simpa using Reader.reads_empty.run h

end Fluxion
