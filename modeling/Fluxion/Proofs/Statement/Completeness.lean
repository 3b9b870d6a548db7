import Fluxion.Proofs.Statement.Grammar

/-!
# The reader follows every derivation

Started where an operand has to follow, the reader goes through the lexemes of a phrase and stops
behind an atom that, closed with the operands that wait on the levels of the phrase, gives the
tree of the phrase; the operands that wait on looser levels are untouched
(`Phrase.follows`).  The closing itself is left to the lexeme that comes next, which the
reader has not seen, so it is part of the statement and not of the run.

The place where a clause starts is kept for reports only.  A path of the reader leaves it out of
account (`Reader.run_of_path`).
-/

set_option autoImplicit false

namespace Fluxion

namespace Reader

/-- The same state without the place where the clause starts. -/
def forget (r : Reader) : Reader := { r with start := none }

/-- The reader goes from one state to another over a row of lexemes. -/
inductive Path : Reader → List Lexeme → Reader → Prop where
  | nil (r : Reader) : Path r [] r
  | cons {r next last : Reader} {x : Lexeme} {row : List Lexeme}
    (h : r.readLexeme x = .ok next) (hrest : Path next row last) : Path r (x :: row) last

/-- One lexeme that is read is a path. -/
theorem Path.single {r next : Reader} {x : Lexeme} (h : r.readLexeme x = .ok next) :
    Path r [x] next := .cons h (.nil next)

/-- Paths are joined. -/
theorem Path.append {r next last : Reader} {row row' : List Lexeme} (h : Path r row next)
    (h' : Path next row' last) : Path r (row ++ row') last := by
  induction h with
  | nil r => exact h'
  | cons hstep hrest ih => exact .cons hstep (ih h')

/-- Where the clause starts plays no part in reading a boundary. -/
theorem readBoundary_forget (r : Reader) (start : Option Nat) (sum : Expr Float) (x : Lexeme) :
    ({ r with start := start }.readBoundary sum x).map forget =
      (r.readBoundary sum x).map forget := by
  unfold readBoundary
  dsimp only
  split
  · rfl
  · split <;> rfl
  · rfl
  · rfl

/-- Where the clause starts plays no part in reading a lexeme. -/
theorem readLexeme_forget (r : Reader) (start : Option Nat) (x : Lexeme) :
    ({ r with start := start }.readLexeme x).map forget = (r.readLexeme x).map forget := by
  unfold readLexeme
  dsimp only
  split
  · unfold readOperand
    split
    · split
      · rfl
      · split <;> rfl
    · split <;> rfl
    · rfl
    · split <;> rfl
    · rfl
  · unfold readAfterAtom
    split
    · rfl
    · rfl
    · rfl
    · dsimp only
      split
      · rfl
      · exact readBoundary_forget r start _ x

/-- States that agree up to the place where the clause starts read a lexeme alike. -/
theorem exists_readLexeme {r q next : Reader} {x : Lexeme} (hq : q.forget = r.forget)
    (h : r.readLexeme x = .ok next) :
    ∃ q', q.readLexeme x = .ok q' ∧ q'.forget = next.forget := by
  have hr : ({ q with start := r.start } : Reader) = r := congrArg (fun s : Reader =>
    { s with start := r.start }) hq
  have hmap := readLexeme_forget q r.start x
  rw [hr, h] at hmap
  cases hread : q.readLexeme x with
  | error fault =>
    rw [hread] at hmap
    cases hmap
  | ok q' =>
    rw [hread] at hmap
    exact ⟨q', rfl, (Except.ok.inj hmap).symm⟩

/-- A run over tokens follows the path over their lexemes. -/
theorem run_of_path {r last : Reader} {row : List Lexeme} (h : Path r row last)
    {q : Reader} (hq : q.forget = r.forget) {tokens : List Token}
    (htokens : tokens.map (·.lexeme) = row) :
    ∃ q' : Reader, q'.forget = last.forget ∧ q.run tokens = q'.run [] := by
  induction h generalizing q tokens with
  | nil r =>
    obtain rfl := List.map_eq_nil_iff.mp htokens
    exact ⟨q, hq, rfl⟩
  | @cons r next last x row hstep hrest ih =>
    cases tokens with
    | nil => cases htokens
    | cons t rest =>
      obtain ⟨rfl, hrow⟩ := List.cons.inj htokens
      obtain ⟨q', hread, hq'⟩ := exists_readLexeme (q := q.begin t) hq hstep
      obtain ⟨q'', hq'', hrun⟩ := ih hq' hrow
      refine ⟨q'', hq'', ?_⟩
      rw [← hrun]
      simp only [Reader.run, Reader.read, hread]

/-- Where the clause starts plays no part at the end. -/
theorem finish_forget (r : Reader) : r.forget.finish = r.finish := rfl

end Reader

/-! ## Closing and extending what waits -/

namespace Pending

/-- What waits on the levels looser than a level. -/
def outside : Level → Pending → Pending
  | .chain .sum, _ => {}
  | .chain .product, p => { sum := p.sum }
  | .chain .power, p => { p with power := none }
  | .factor, p | .atom, p => p

/-- A factor, closed with what waits on a level and the tighter ones. -/
def close : Level → Pending → Expr Float → Expr Float
  | .chain .sum, p, e => p.closeSum e
  | .chain .product, p, e => p.closeProduct e
  | .chain .power, p, e => p.closePower e
  | .factor, _, e | .atom, _, e => e

/-- If nothing waits inside a level, then nothing waits inside its operands. -/
theorem outside_operand {k : Rank} {p : Pending} (h : p.outside (.chain k) = p) :
    p.outside k.operand = p := by
  rw [← h]
  cases k <;> rfl

/-- A chain of one operand leaves waiting what its operand leaves. -/
theorem outside_single {k : Rank} {p q : Pending} (hp : p.outside (.chain k) = p)
    (hq : q.outside k.operand = p) : q.outside (.chain k) = p := by
  rw [← hp, ← hq]
  cases k <;> rfl

/-- A chain of one operand is closed as its operand. -/
theorem close_single {k : Rank} {p q : Pending} (hp : p.outside (.chain k) = p)
    (hq : q.outside k.operand = p) (e : Expr Float) :
    q.close (.chain k) e = q.close k.operand e := by
  rw [← hp] at hq
  cases k with
  | sum =>
    have hsum : q.sum = none := congrArg Pending.sum hq
    simp [close, Rank.operand, closeSum, hsum]
  | product =>
    have hproduct : q.product = none := congrArg Pending.product hq
    simp [close, Rank.operand, closeProduct, hproduct]
  | power =>
    have hpower : q.power = none := congrArg Pending.power hq
    simp [close, Rank.operand, closePower, hpower]

/-- Behind an operator nothing waits inside the next operand. -/
theorem outside_extend {k : Rank} {op : Operator} (h : op.rank = k) (q : Pending)
    (e : Expr Float) : (q.extend e op).outside k.operand = q.extend e op := by
  subst h
  cases op <;> rfl

/-- What waits outside a chain is not touched by its operators. -/
theorem outside_binary {k : Rank} {op : Operator} (h : op.rank = k) {q q' : Pending}
    {e : Expr Float} (hq : q'.outside k.operand = q.extend e op) :
    q'.outside (.chain k) = q.outside (.chain k) := by
  subst h
  have hq' := congrArg (Pending.outside (.chain op.rank)) hq
  cases op <;> exact hq'

/-- The operand behind an operator is closed with the chain before it. -/
theorem close_binary {k : Rank} {op : Operator} (h : op.rank = k) {q q' : Pending}
    {e : Expr Float} (hq : q'.outside k.operand = q.extend e op) (e' : Expr Float) :
    q'.close (.chain k) e' =
      .binary op (q.close (.chain k) e) (q'.close k.operand e') := by
  subst h
  -- on the level of `op` its left operand waits, and the looser levels are not touched
  have hadditive (left : Expr Float) (hsum : q'.sum = some (op, left)) :
      q'.closeSum e' = .binary op left (q'.closeProduct e') := by
    simp [closeSum, hsum]
  have hmultiplicative (left : Expr Float) (hproduct : q'.product = some (op, left)) :
      q'.closeProduct e' = .binary op left (q'.closePower e') := by
    simp [closeProduct, hproduct]
  cases op with
  | add => exact hadditive _ (congrArg Pending.sum hq)
  | sub => exact hadditive _ (congrArg Pending.sum hq)
  | mul => exact hmultiplicative _ (congrArg Pending.product hq)
  | div => exact hmultiplicative _ (congrArg Pending.product hq)
  | pow =>
    have hpower : q'.power = some (q.closePower e) := congrArg Pending.power hq
    simp [close, Operator.rank, Rank.operand, closePower, hpower]

end Pending

/-! ## Single lexemes behind an atom -/

namespace Reader

/-- Behind an atom an operator closes what binds at least as tightly, and waits for its right
operand. -/
theorem readLexeme_operator {r : Reader} {negated : Bool} {tree : Expr Float} {tail : AtomTail}
    (hphase : r.phase = .atom negated tree tail) (op : Operator) :
    r.readLexeme op.lexeme = .ok
      { r with
        pending := r.pending.extend (signedFactor negated tree) op
        phase := .operand false } := by
  unfold readLexeme
  rw [hphase]
  cases op <;> cases tail <;> rfl

/-- Behind an atom a closing parenthesis ends the sum inside, and its tree becomes an atom
outside. -/
theorem readLexeme_closeParen {r : Reader} {negated : Bool} {tree : Expr Float}
    {tail : AtomTail} {e : Enclosure} {outer : List Enclosure}
    (hphase : r.phase = .atom negated tree tail) (henclosures : r.enclosures = e :: outer) :
    r.readLexeme .closeParen = .ok
      { r with
        enclosures := outer
        pending := e.pending
        phase := .atom e.negated (e.close (r.pending.closeSum (signedFactor negated tree)))
          .nothing } := by
  have hboundary (sum : Expr Float) : r.readBoundary sum .closeParen = .ok
      { r with
        enclosures := outer
        pending := e.pending
        phase := .atom e.negated (e.close sum) .nothing } := by
    unfold readBoundary
    rw [henclosures]
  unfold readLexeme
  rw [hphase]
  cases tail <;> exact hboundary _

/-- Behind an atom outside all parentheses an equals sign makes the sum a target, if it can be
one. -/
theorem readLexeme_equals {r : Reader} {negated : Bool} {tree : Expr Float}
    {tail : AtomTail} (hphase : r.phase = .atom negated tree tail)
    (henclosures : r.enclosures = [])
    (htarget : (r.pending.closeSum (signedFactor negated tree)).isTarget = true) :
    r.readLexeme .equals = .ok
      { targets := r.pending.closeSum (signedFactor negated tree) :: r.targets } := by
  have hboundary : r.readBoundary (r.pending.closeSum (signedFactor negated tree)) .equals = .ok
      { targets := r.pending.closeSum (signedFactor negated tree) :: r.targets } := by
    unfold readBoundary
    rw [henclosures]
    exact if_pos htarget
  unfold readLexeme
  rw [hphase]
  cases tail <;> exact hboundary

/-- Behind a marked name further marks are read one by one. -/
theorem path_marks {r : Reader} {negated : Bool} {name : String} (seen more : Nat)
    (hphase : r.phase = .atom negated (Expr.marked name (seen + 1)) .marks) :
    Path r (List.replicate more .apostrophe)
      { r with phase := .atom negated (Expr.marked name (seen + 1 + more)) .marks } := by
  induction more generalizing r seen with
  | zero =>
    have hr : { r with phase := .atom negated (Expr.marked name (seen + 1)) .marks } = r := by
      rw [← hphase]
    rw [List.replicate_zero, Nat.add_zero, hr]
    exact .nil r
  | succ more ih =>
    have hmark : r.readLexeme .apostrophe = .ok
        { r with phase := .atom negated (Expr.marked name (seen + 1 + 1)) .marks } := by
      unfold readLexeme
      rw [hphase]
      rfl
    have hrest := ih (r :=
      { r with phase := .atom negated (Expr.marked name (seen + 1 + 1)) .marks }) (seen + 1) rfl
    rw [show seen + 1 + 1 + more = seen + 1 + (more + 1) by omega] at hrest
    rw [List.replicate_succ]
    exact .cons hmark hrest

end Reader

/-! ## Whole phrases and sentences -/

namespace Phrase

/-- From a state where an atom has to follow, the reader goes through the lexemes of the atom and
holds its tree. -/
def AtomFollows (p : Phrase .atom) : Prop :=
  ∀ (r : Reader) (negated : Bool), r.phase = .operand negated →
    ∃ tail, Reader.Path r p.lexemes { r with phase := .atom negated p.tree tail }

/-- From a state where an operand has to follow and nothing waits inside the level, the reader
goes through the lexemes of the phrase and holds a factor that closes to its tree. -/
def LevelFollows {l : Level} (p : Phrase l) : Prop :=
  ∀ r : Reader, r.phase = .operand false → r.pending.outside l = r.pending →
    ∃ pending negated tree tail, pending.outside l = r.pending ∧
      pending.close l (signedFactor negated tree) = p.tree ∧
      Reader.Path r p.lexemes { r with pending := pending, phase := .atom negated tree tail }

/-- What the induction over phrases carries. -/
def Follows : {l : Level} → Phrase l → Prop
  | .atom, p => p.AtomFollows
  | .factor, p => p.LevelFollows
  | .chain _, p => p.LevelFollows

/-- Phrases of the levels of operands are carried through the induction as operands. -/
theorem Follows.levelFollows {k : Rank} {p : Phrase k.operand} (h : p.Follows) :
    p.LevelFollows := by
  cases k <;> exact h

/-- A sum behind an opened parenthesis is read up to the closing one. -/
theorem LevelFollows.enclosed {inner : Phrase (.chain .sum)} (h : inner.LevelFollows)
    (r : Reader) (negated : Bool) (call : Option String) :
    Reader.Path (r.enter negated call) (inner.lexemes ++ [.closeParen])
      { r with
        phase := .atom negated (Enclosure.close ⟨r.pending, negated, call⟩ inner.tree)
          .nothing } := by
  -- behind the opening parenthesis nothing waits, so the inner sum starts a level of its own
  obtain ⟨pending, signed, tree, tail, -, hclose, hpath⟩ := h (r.enter negated call) rfl rfl
  have hstep := Reader.readLexeme_closeParen (r :=
    { r.enter negated call with pending := pending, phase := .atom signed tree tail }) rfl rfl
  rw [← hclose]
  exact hpath.append (.single hstep)

/-- A sum in parentheses is read as an atom. -/
theorem follows_group {inner : Phrase (.chain .sum)} (h : inner.LevelFollows) :
    (group inner).AtomFollows := by
  intro r negated hphase
  have hopen : r.readLexeme .openParen = .ok (r.enter negated none) := by
    unfold Reader.readLexeme
    rw [hphase]
    rfl
  exact ⟨.nothing, .cons hopen (h.enclosed r negated none)⟩

/-- A name that is no constant is read as a variable for the time being. -/
theorem readLexeme_name {r : Reader} {negated : Bool} (hphase : r.phase = .operand negated)
    {name : String} (h : Constant.ofName? name = none) :
    r.readLexeme (.identifier name) =
      .ok { r with phase := .atom negated (.symbol name) (.name name) } := by
  unfold Reader.readLexeme
  rw [hphase]
  simp only [Reader.readOperand, h]

/-- A call is read as an atom: its name turns from a variable into a function at the parenthesis. -/
theorem follows_call (name : String) (h : Constant.ofName? name = none)
    {argument : Phrase (.chain .sum)} (ha : argument.LevelFollows) :
    (call name h argument).AtomFollows := by
  intro r negated hphase
  refine ⟨.nothing, .cons (readLexeme_name hphase h) (.cons ?_
    (ha.enclosed r negated (some name)))⟩
  rfl

/-- A constant is read as an atom. -/
theorem follows_constant (c : Constant) : (constant c).AtomFollows := by
  intro r negated hphase
  refine ⟨.nothing, .single ?_⟩
  unfold Reader.readLexeme
  rw [hphase]
  simp only [Reader.readOperand, Constant.ofName?_name, tree]

/-- A variable with its marks is read as an atom. -/
theorem follows_symbol (name : String) (h : Constant.ofName? name = none) (marks : Nat) :
    (symbol name h marks).AtomFollows := by
  intro r negated hphase
  cases marks with
  | zero => exact ⟨.name name, .single (readLexeme_name hphase h)⟩
  | succ marks =>
    have hmarks := Reader.path_marks (r :=
      { r with phase := .atom negated (Expr.marked name (0 + 1)) .marks }) 0 marks rfl
    rw [show 0 + 1 + marks = marks + 1 by omega] at hmarks
    refine ⟨.marks, .cons (readLexeme_name hphase h) ?_⟩
    rw [List.replicate_succ]
    exact .cons rfl hmarks

/-- A literal is read as a factor. -/
theorem follows_literal (value : Float) : (literal value).LevelFollows := by
  intro r hphase hpending
  refine ⟨r.pending, false, .number value, .nothing, rfl, rfl, .single ?_⟩
  unfold Reader.readLexeme
  rw [hphase]
  rfl

/-- A literal behind a sign is read as the negative number. -/
theorem follows_negativeLiteral (value : Float) (h : (value == 0.0) = false) :
    (negativeLiteral value h).LevelFollows := by
  intro r hphase hpending
  have hsign : r.readLexeme .minus = .ok { r with phase := .operand true } := by
    unfold Reader.readLexeme
    rw [hphase]
    rfl
  refine ⟨r.pending, false, .number (-value), .nothing, rfl, rfl, .cons hsign (.single ?_)⟩
  simp [Reader.readLexeme, Reader.readOperand, h]

/-- An atom without a sign is read as a factor. -/
theorem follows_plain {inner : Phrase .atom} (h : inner.AtomFollows) :
    (plain inner).LevelFollows := by
  intro r hphase hpending
  obtain ⟨tail, hpath⟩ := h r false hphase
  exact ⟨r.pending, false, inner.tree, tail, rfl, rfl, hpath⟩

/-- An atom behind a sign is read as a factor. -/
theorem follows_negative {inner : Phrase .atom} (h : inner.AtomFollows) :
    (negative inner).LevelFollows := by
  intro r hphase hpending
  obtain ⟨tail, hpath⟩ := h { r with phase := .operand true } true rfl
  refine ⟨r.pending, true, inner.tree, tail, rfl, rfl, .cons ?_ hpath⟩
  unfold Reader.readLexeme
  rw [hphase]
  rfl

/-- An operand alone is read as a chain. -/
theorem follows_single {k : Rank} {operand : Phrase k.operand} (h : operand.LevelFollows) :
    (single operand).LevelFollows := by
  intro r hphase hpending
  obtain ⟨pending, negated, e, tail, houtside, hclose, hpath⟩ :=
    h r hphase (Pending.outside_operand hpending)
  refine ⟨pending, negated, e, tail, Pending.outside_single hpending houtside, ?_, hpath⟩
  rw [Pending.close_single hpending houtside, hclose, tree]

/-- A chain that goes on is read as a chain. -/
theorem follows_binary {k : Rank} {left : Phrase (.chain k)} {op : Operator} (hop : op.rank = k)
    {right : Phrase k.operand} (hleft : left.LevelFollows) (hright : right.LevelFollows) :
    (binary left op hop right).LevelFollows := by
  intro r hphase hpending
  obtain ⟨pending, negated, e, tail, houtside, hclose, hpath⟩ := hleft r hphase hpending
  have hstep := Reader.readLexeme_operator
    (r := { r with pending := pending, phase := .atom negated e tail }) rfl op
  obtain ⟨pending', negated', e', tail', houtside', hclose', hpath'⟩ :=
    hright { r with
      pending := pending.extend (signedFactor negated e) op
      phase := .operand false } rfl (Pending.outside_extend hop _ _)
  refine ⟨pending', negated', e', tail', ?_, ?_, hpath.append (.cons hstep hpath')⟩
  · rw [Pending.outside_binary hop houtside', houtside]
  · rw [Pending.close_binary hop houtside', hclose, hclose', tree]

/-- The reader follows every phrase. -/
theorem follows {l : Level} (p : Phrase l) : p.Follows := by
  induction p with
  | group inner ih => exact follows_group ih
  | constant c => exact follows_constant c
  | symbol name h marks => exact follows_symbol name h marks
  | call name h argument ih => exact follows_call name h ih
  | literal value => exact follows_literal value
  | negativeLiteral value h => exact follows_negativeLiteral value h
  | plain inner ih => exact follows_plain ih
  | negative inner ih => exact follows_negative ih
  | single operand ih => exact follows_single ih.levelFollows
  | binary left op h right ihl ihr => exact follows_binary h ihl ihr.levelFollows

end Phrase

/-- The reader goes through the lexemes of a sentence and ends with its statement. -/
theorem Sentence.exists_path (d : Sentence) (r : Reader) (hphase : r.phase = .operand false)
    (hpending : r.pending = {}) (henclosures : r.enclosures = []) :
    ∃ last, Reader.Path r d.lexemes last ∧ last.finish =
      .ok (if r.targets = [] then d.statement else Reader.assemble r.targets d.tree) := by
  have hsum (sum : Phrase (.chain .sum)) : sum.LevelFollows := sum.follows
  have hnothing : r.pending.outside (.chain .sum) = r.pending := by rw [hpending]; rfl
  -- the targets that were read stay in the state, so the state is not fixed
  induction d generalizing r with
  | value sum =>
    obtain ⟨pending, negated, e, tail, -, hclose, hpath⟩ := hsum sum r hphase hnothing
    refine ⟨_, hpath, ?_⟩
    unfold Reader.finish
    rw [henclosures]
    simp only [Pending.close] at hclose
    simp only [hclose, Sentence.statement, Sentence.tree]
    cases r.targets <;> rfl
  | assign target ht rest ih =>
    obtain ⟨pending, negated, e, tail, -, hclose, hpath⟩ := hsum target r hphase hnothing
    simp only [Pending.close] at hclose
    have hstep := Reader.readLexeme_equals
      (r := { r with pending := pending, phase := .atom negated e tail }) rfl henclosures
      (by rw [hclose]; exact ht)
    obtain ⟨last, hrest, hfinish⟩ := ih
      { targets := pending.closeSum (signedFactor negated e) :: r.targets } rfl rfl rfl rfl
    refine ⟨last, hpath.append (.cons hstep hrest), ?_⟩
    rw [hfinish]
    simp only [hclose, reduceCtorEq, if_false]
    cases r.targets <;> rfl

/-- A row of tokens that the grammar derives is read as the statement of the derivation. -/
theorem Statement.ofTokens_of_sentence {tokens : List Token} (d : Sentence)
    (h : d.lexemes = tokens.map (·.lexeme)) : Statement.ofTokens tokens = .ok d.statement := by
  obtain ⟨last, hpath, hfinish⟩ := d.exists_path {} rfl rfl rfl
  obtain ⟨q, hq, hrun⟩ := Reader.run_of_path hpath (q := {}) rfl h.symm
  have hlast : q.finish = last.finish := by
    rw [← q.finish_forget, hq, last.finish_forget]
  unfold Statement.ofTokens
  rw [hrun, Reader.run, hlast, hfinish]
  rfl

end Fluxion
