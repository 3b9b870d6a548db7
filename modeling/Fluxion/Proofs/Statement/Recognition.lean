import Fluxion.Proofs.Statement.Completeness
import Fluxion.Proofs.Statement.Soundness
import Fluxion.Statement
import Mathlib

/-!
# The grammar and its reader

A row of tokens is read as a statement exactly if the whole row has a derivation that stands for
this statement, and then it has only one derivation (`Statement.parse_recognizes_sentences`).
-/

set_option autoImplicit false

namespace Fluxion

/-! ## The grammar is unambiguous

Two phrases of one level that begin the same row of lexemes, each followed by something that
cannot continue a phrase of that level, are the same phrase.  It follows that a row of lexemes has
at most one derivation as a statement (`Sentence.lexemes_injective`).

A chain groups to the left, so its first operand lies deepest, and two chains over one row are
compared along their links: either they end together or one of them goes on where the other ends
(`Phrase.Comparable`).
-/

/-- Whether an operator stands inside the phrases of a level, outside all parentheses. -/
def Level.Joins : Level → Operator → Prop
  | .chain .sum, _ => True
  | .chain .product, op => op.rank ≠ .sum
  | .chain .power, op => op.rank = .power
  | .factor, _ | .atom, _ => False

/-- Whether a lexeme behind a phrase of a level may belong to a longer phrase of that level. -/
def Level.Continues (l : Level) (x : Lexeme) : Prop :=
  x = .apostrophe ∨ x = .openParen ∨ ∃ op : Operator, l.Joins op ∧ x = op.lexeme

/-- What follows a phrase of a level does not continue it. -/
def Level.Stops (l : Level) (rest : List Lexeme) : Prop :=
  ∀ x ∈ rest.head?, ¬ l.Continues x

/-- A chain is continued by the operators of its own rank. -/
theorem Level.joins_of_rank {k : Rank} {op : Operator} (h : op.rank = k) :
    (Level.chain k).Joins op := by
  cases k <;> cases op <;> simp_all [Level.Joins, Operator.rank]

/-- The operands of a chain are not continued by the operators of its rank. -/
theorem Level.not_joins_operand {k : Rank} {op : Operator} (h : op.rank = k) :
    ¬ k.operand.Joins op := by
  cases k <;> cases op <;> simp_all [Level.Joins, Operator.rank, Rank.operand]

/-- What continues an operand continues the chain. -/
theorem Level.joins_of_operand {k : Rank} {op : Operator} (h : k.operand.Joins op) :
    (Level.chain k).Joins op := by
  cases k <;> cases op <;> simp_all [Level.Joins, Operator.rank, Rank.operand]

namespace Level.Stops

/-- At the end every phrase stops. -/
theorem nil (l : Level) : l.Stops [] := by simp [Level.Stops]

/-- A phrase stops before a lexeme that does not continue it. -/
theorem of_not_continues {l : Level} {x : Lexeme} (h : ¬ l.Continues x) (rest : List Lexeme) :
    l.Stops (x :: rest) := by
  intro y hy
  obtain rfl : x = y := by simpa using hy
  exact h

/-- Before a closing parenthesis every phrase stops. -/
theorem closeParen (l : Level) (rest : List Lexeme) : l.Stops (.closeParen :: rest) := by
  apply of_not_continues
  rintro (h | h | ⟨op, -, h⟩)
  · cases h
  · cases h
  · cases op <;> cases h

/-- Before an equals sign every phrase stops. -/
theorem equals (l : Level) (rest : List Lexeme) : l.Stops (.equals :: rest) := by
  apply of_not_continues
  rintro (h | h | ⟨op, -, h⟩)
  · cases h
  · cases h
  · cases op <;> cases h

/-- Where a chain stops, its last operand stops. -/
theorem operand {k : Rank} {rest : List Lexeme} (h : (Level.chain k).Stops rest) :
    k.operand.Stops rest := by
  intro x hx hc
  refine h x hx ?_
  obtain hc | hc | ⟨op, hop, hc⟩ := hc
  · exact Or.inl hc
  · exact Or.inr (Or.inl hc)
  · exact Or.inr (Or.inr ⟨op, Level.joins_of_operand hop, hc⟩)

/-- Before an operator of the rank of a chain its operand stops. -/
theorem operator {k : Rank} {op : Operator} (h : op.rank = k) (rest : List Lexeme) :
    k.operand.Stops (op.lexeme :: rest) := by
  apply of_not_continues
  rintro (hc | hc | ⟨other, hother, hc⟩)
  · cases op <;> cases hc
  · cases op <;> cases hc
  · rw [← Operator.lexeme_injective op other hc] at hother
    exact Level.not_joins_operand h hother

/-- Before an operator of its rank a chain does not stop. -/
theorem not_operator {k : Rank} {op : Operator} (h : op.rank = k) (rest : List Lexeme) :
    ¬ (Level.chain k).Stops (op.lexeme :: rest) := by
  intro hs
  exact hs op.lexeme rfl (Or.inr (Or.inr ⟨op, Level.joins_of_rank h, rfl⟩))

/-- Before a derivative mark no phrase stops. -/
theorem not_apostrophe (l : Level) (rest : List Lexeme) : ¬ l.Stops (.apostrophe :: rest) :=
  fun hs => hs .apostrophe rfl (Or.inl rfl)

/-- Before an opening parenthesis no phrase stops. -/
theorem not_openParen (l : Level) (rest : List Lexeme) : ¬ l.Stops (.openParen :: rest) :=
  fun hs => hs .openParen rfl (Or.inr (Or.inl rfl))

end Level.Stops

/-- An operator of a rank and the operand behind it. -/
structure Link (k : Rank) where
  op : Operator
  rank_eq : op.rank = k
  operand : Phrase k.operand

/-- The lexemes of a link. -/
def Link.lexemes {k : Rank} (link : Link k) : List Lexeme := link.op.lexeme :: link.operand.lexemes

namespace Phrase

/-- A chain that goes on with some links. -/
def append {k : Rank} (t : Phrase (.chain k)) : List (Link k) → Phrase (.chain k)
  | [] => t
  | link :: rest => (binary t link.op link.rank_eq link.operand).append rest

/-- A chain that goes on with some links has their lexemes behind its own. -/
theorem lexemes_append {k : Rank} (t : Phrase (.chain k)) (links : List (Link k)) :
    (t.append links).lexemes = t.lexemes ++ links.flatMap Link.lexemes := by
  induction links generalizing t with
  | nil => simp [append]
  | cons link rest ih => simp [append, ih, lexemes, Link.lexemes]

/-- The last of some links is the outermost. -/
theorem append_concat {k : Rank} (t : Phrase (.chain k)) (links : List (Link k)) (link : Link k) :
    t.append (links ++ [link]) = binary (t.append links) link.op link.rank_eq link.operand := by
  induction links generalizing t with
  | nil => rfl
  | cons first rest ih => exact ih _

/-- Every chain is its first operand, followed by links. -/
theorem exists_single_append {k : Rank} (t : Phrase (.chain k)) :
    ∃ (p : Phrase k.operand) (links : List (Link k)), t = (single p).append links := by
  match t with
  | .single p => exact ⟨p, [], rfl⟩
  | .binary left op h right =>
    obtain ⟨p, links, hleft⟩ := exists_single_append left
    exact ⟨p, links ++ [⟨op, h, right⟩], by rw [append_concat, ← hleft]⟩

/-- An atom begins with a parenthesis or with a name. -/
theorem lexemes_atom_head (p : Phrase .atom) :
    ∃ rest, p.lexemes = .openParen :: rest ∨ ∃ name, p.lexemes = .identifier name :: rest := by
  cases p with
  | group inner => exact ⟨_, Or.inl rfl⟩
  | constant c => exact ⟨_, Or.inr ⟨_, rfl⟩⟩
  | symbol name h marks => exact ⟨_, Or.inr ⟨_, rfl⟩⟩
  | call name h argument => exact ⟨_, Or.inr ⟨_, rfl⟩⟩

/-- The phrase is the only one of its level that begins the rows that it begins. -/
def Determined {l : Level} (t : Phrase l) : Prop :=
  ∀ (t' : Phrase l) (rest rest' : List Lexeme), l.Stops rest → l.Stops rest' →
    t.lexemes ++ rest = t'.lexemes ++ rest' → t = t' ∧ rest = rest'

/-- Of two chains that begin one row, one is the other or the beginning of the other. -/
def Comparable {k : Rank} (t : Phrase (.chain k)) : Prop :=
  ∀ (t' : Phrase (.chain k)) (rest rest' : List Lexeme),
    k.operand.Stops rest → k.operand.Stops rest' →
    t.lexemes ++ rest = t'.lexemes ++ rest' →
    (∃ links, t' = t.append links ∧ rest = links.flatMap Link.lexemes ++ rest') ∨
      ∃ links, t = t'.append links ∧ rest' = links.flatMap Link.lexemes ++ rest

/-- A chain that has to stop goes on with no links. -/
theorem links_eq_nil {k : Rank} {links : List (Link k)} {rest : List Lexeme}
    (h : (Level.chain k).Stops (links.flatMap Link.lexemes ++ rest)) : links = [] := by
  cases links with
  | nil => rfl
  | cons link more => exact absurd h (Level.Stops.not_operator link.rank_eq _)

/-- Chains that can be compared along their links are determined by their lexemes. -/
theorem Comparable.determined {k : Rank} {t : Phrase (.chain k)} (h : t.Comparable) :
    t.Determined := by
  intro t' rest rest' hs hs' heq
  obtain ⟨links, ht, hrest⟩ | ⟨links, ht, hrest⟩ :=
    h t' rest rest' hs.operand hs'.operand heq
  · obtain rfl := links_eq_nil (hrest ▸ hs)
    exact ⟨ht.symm, by simpa using hrest⟩
  · obtain rfl := links_eq_nil (hrest ▸ hs')
    exact ⟨ht, by simpa using hrest.symm⟩

/-- An operand that is determined can be compared as a chain. -/
theorem comparable_single {k : Rank} {p : Phrase k.operand} (hp : p.Determined) :
    (single p).Comparable := by
  intro t' rest rest' hs hs' heq
  obtain ⟨p', links, rfl⟩ := exists_single_append t'
  have hstop : k.operand.Stops (links.flatMap Link.lexemes ++ rest') := by
    cases links with
    | nil => simpa using hs'
    | cons link more => exact Level.Stops.operator link.rank_eq _
  rw [lexemes_append, List.append_assoc] at heq
  obtain ⟨rfl, hrest⟩ := hp p' _ _ hs hstop heq
  exact Or.inl ⟨links, rfl, hrest⟩

/-- A chain with one more operand can be compared if the chain before it can. -/
theorem comparable_binary {k : Rank} {left : Phrase (.chain k)} {op : Operator} (h : op.rank = k)
    {right : Phrase k.operand} (hleft : left.Comparable) (hright : right.Determined) :
    (binary left op h right).Comparable := by
  intro t' rest rest' hs hs' heq
  rw [lexemes, List.append_assoc] at heq
  obtain ⟨links, ht, hrow⟩ | ⟨links, ht, hrow⟩ :=
    hleft t' _ rest' (Level.Stops.operator h _) hs' heq
  · cases links with
    -- the other chain ends where `left` ends, or goes on there with its next link
    | nil =>
      refine Or.inr ⟨[⟨op, h, right⟩], ?_, ?_⟩
      · rw [ht]
        rfl
      · simpa [Link.lexemes] using hrow.symm
    | cons link more =>
      simp only [List.flatMap_cons, Link.lexemes, List.cons_append, List.append_assoc,
        List.cons.injEq] at hrow
      obtain ⟨hop, hrow⟩ := hrow
      -- both operands behind the operator are whole: an operator of the rank or the end follows
      have hstop : k.operand.Stops (more.flatMap Link.lexemes ++ rest') := by
        cases more with
        | nil => simpa using hs'
        | cons next others => exact Level.Stops.operator next.rank_eq _
      obtain ⟨hoperand, hrest⟩ := hright link.operand _ _ hs hstop hrow
      obtain ⟨op', hrank, operand⟩ := link
      obtain rfl := Operator.lexeme_injective op op' hop
      subst hoperand
      exact Or.inl ⟨more, ht, hrest⟩
  · refine Or.inr ⟨links ++ [⟨op, h, right⟩], ?_, ?_⟩
    · rw [append_concat, ← ht]
    · simpa [Link.lexemes] using hrow

/-- The marks behind a name are all that follow it. -/
theorem marks_inj {marks marks' : Nat} {rest rest' : List Lexeme}
    (hs : Level.atom.Stops rest) (hs' : Level.atom.Stops rest')
    (heq : List.replicate marks Lexeme.apostrophe ++ rest =
      List.replicate marks' Lexeme.apostrophe ++ rest') : marks = marks' ∧ rest = rest' := by
  induction marks generalizing marks' with
  | zero =>
    cases marks' with
    | zero => exact ⟨rfl, by simpa using heq⟩
    | succ n =>
      rw [List.replicate_zero, List.nil_append, List.replicate_succ, List.cons_append] at heq
      exact absurd (heq ▸ hs) (Level.Stops.not_apostrophe _ _)
  | succ n ih =>
    cases marks' with
    | zero =>
      rw [List.replicate_zero, List.nil_append, List.replicate_succ, List.cons_append] at heq
      exact absurd (heq ▸ hs') (Level.Stops.not_apostrophe _ _)
    | succ n' =>
      simp only [List.replicate_succ, List.cons_append, List.cons.injEq, true_and] at heq
      obtain ⟨rfl, hrest⟩ := ih heq
      exact ⟨rfl, hrest⟩

/-- The name of a variable or a function is that of no constant. -/
theorem name_ne {c : Constant} {name : String} (h : Constant.ofName? name = none) :
    c.name ≠ name := by
  intro hname
  rw [← hname, Constant.ofName?_name] at h
  cases h

/-- A sum in parentheses is determined if the sum is: the parenthesis behind it stops it. -/
theorem determined_group {inner : Phrase (.chain .sum)} (h : inner.Determined) :
    (group inner).Determined := by
  intro t' rest rest' hs hs' heq
  cases t' with
  | group inner' =>
    simp only [lexemes, List.cons_append, List.append_assoc, List.cons.injEq, true_and] at heq
    obtain ⟨rfl, hrest⟩ :=
      h inner' _ _ (Level.Stops.closeParen _ _) (Level.Stops.closeParen _ _) heq
    exact ⟨rfl, by simpa using hrest⟩
  | constant c => simp [lexemes] at heq
  | symbol name h marks => simp [lexemes] at heq
  | call name h argument => simp [lexemes] at heq

/-- A constant is determined by its name. -/
theorem determined_constant (c : Constant) : (constant c).Determined := by
  intro t' rest rest' hs hs' heq
  cases t' with
  | group inner' => simp [lexemes] at heq
  | constant c' =>
    simp only [lexemes, List.cons_append, List.nil_append, List.cons.injEq,
      Lexeme.identifier.injEq] at heq
    obtain ⟨hname, hrest⟩ := heq
    obtain rfl := Constant.name_injective c c' hname
    exact ⟨rfl, hrest⟩
  | symbol name h marks => simp [lexemes, name_ne h] at heq
  | call name h argument => simp [lexemes, name_ne h] at heq

/-- A variable is determined: its markers are all that follow it. -/
theorem determined_symbol (name : String) (h : Constant.ofName? name = none) (marks : Nat) :
    (symbol name h marks).Determined := by
  intro t' rest rest' hs hs' heq
  cases t' with
  | group inner' => simp [lexemes] at heq
  | constant c => simp [lexemes, (name_ne h).symm] at heq
  | symbol name' h' marks' =>
    simp only [lexemes, List.cons_append, List.cons.injEq, Lexeme.identifier.injEq] at heq
    obtain ⟨rfl, heq⟩ := heq
    obtain ⟨rfl, hrest⟩ := marks_inj hs hs' heq
    exact ⟨rfl, hrest⟩
  | call name' h' argument =>
    cases marks with
    | zero =>
      simp only [lexemes, List.replicate_zero, List.cons_append, List.nil_append,
        List.cons.injEq] at heq
      exact absurd (heq.2 ▸ hs) (Level.Stops.not_openParen _ _)
    | succ n => simp [lexemes, List.replicate_succ] at heq

/-- A call is determined if its argument is. -/
theorem determined_call (name : String) (h : Constant.ofName? name = none)
    {argument : Phrase (.chain .sum)} (ha : argument.Determined) :
    (call name h argument).Determined := by
  intro t' rest rest' hs hs' heq
  cases t' with
  | group inner' => simp [lexemes] at heq
  | constant c => simp [lexemes, (name_ne h).symm] at heq
  | symbol name' h' marks =>
    cases marks with
    | zero =>
      simp only [lexemes, List.replicate_zero, List.cons_append, List.nil_append,
        List.cons.injEq] at heq
      exact absurd (heq.2 ▸ hs') (Level.Stops.not_openParen _ _)
    | succ n => simp [lexemes, List.replicate_succ] at heq
  | call name' h' argument' =>
    simp only [lexemes, List.cons_append, List.append_assoc, List.cons.injEq,
      Lexeme.identifier.injEq, true_and] at heq
    obtain ⟨rfl, heq⟩ := heq
    obtain ⟨rfl, hrest⟩ :=
      ha argument' _ _ (Level.Stops.closeParen _ _) (Level.Stops.closeParen _ _) heq
    exact ⟨rfl, by simpa using hrest⟩

/-- A literal is determined by its value. -/
theorem determined_literal (value : Float) : (literal value).Determined := by
  intro t' rest rest' hs hs' heq
  cases t' with
  | literal value' =>
    simp only [lexemes, List.cons_append, List.nil_append, List.cons.injEq,
      Lexeme.number.injEq] at heq
    exact ⟨by rw [heq.1], heq.2⟩
  | negativeLiteral value' h => simp [lexemes] at heq
  | plain inner =>
    obtain ⟨more, hhead | ⟨name, hhead⟩⟩ := lexemes_atom_head inner <;>
      simp [lexemes, hhead] at heq
  | negative inner => simp [lexemes] at heq

/-- A literal behind a sign is determined by its value. -/
theorem determined_negativeLiteral (value : Float) (h : (value == 0.0) = false) :
    (negativeLiteral value h).Determined := by
  intro t' rest rest' hs hs' heq
  cases t' with
  | literal value' => simp [lexemes] at heq
  | negativeLiteral value' h' =>
    simp only [lexemes, List.cons_append, List.nil_append, List.cons.injEq,
      Lexeme.number.injEq, true_and] at heq
    obtain ⟨rfl, hrest⟩ := heq
    exact ⟨rfl, hrest⟩
  | plain inner =>
    obtain ⟨more, hhead | ⟨name, hhead⟩⟩ := lexemes_atom_head inner <;>
      simp [lexemes, hhead] at heq
  | negative inner =>
    obtain ⟨more, hhead | ⟨name, hhead⟩⟩ := lexemes_atom_head inner <;>
      simp [lexemes, hhead] at heq

/-- An atom without a sign is determined if the atom is. -/
theorem determined_plain {inner : Phrase .atom} (h : inner.Determined) :
    (plain inner).Determined := by
  intro t' rest rest' hs hs' heq
  obtain ⟨more, hhead⟩ := lexemes_atom_head inner
  cases t' with
  | literal value => obtain hhead | ⟨name, hhead⟩ := hhead <;> simp [lexemes, hhead] at heq
  | negativeLiteral value h =>
    obtain hhead | ⟨name, hhead⟩ := hhead <;> simp [lexemes, hhead] at heq
  | plain inner' =>
    obtain ⟨rfl, hrest⟩ := h inner' rest rest' hs hs' heq
    exact ⟨rfl, hrest⟩
  | negative inner' => obtain hhead | ⟨name, hhead⟩ := hhead <;> simp [lexemes, hhead] at heq

/-- An atom behind a sign is determined if the atom is. -/
theorem determined_negative {inner : Phrase .atom} (h : inner.Determined) :
    (negative inner).Determined := by
  intro t' rest rest' hs hs' heq
  cases t' with
  | literal value => simp [lexemes] at heq
  | negativeLiteral value h =>
    obtain ⟨more, hhead | ⟨name, hhead⟩⟩ := lexemes_atom_head inner <;>
      simp [lexemes, hhead] at heq
  | plain inner' =>
    obtain ⟨more, hhead | ⟨name, hhead⟩⟩ := lexemes_atom_head inner' <;>
      simp [lexemes, hhead] at heq
  | negative inner' =>
    simp only [lexemes, List.cons_append, List.cons.injEq, true_and] at heq
    obtain ⟨rfl, hrest⟩ := h inner' rest rest' hs hs' heq
    exact ⟨rfl, hrest⟩

/-- What the induction over phrases carries: chains are compared, the others are determined. -/
def Settled : {l : Level} → Phrase l → Prop
  | .chain _, t => t.Comparable
  | .factor, t => t.Determined
  | .atom, t => t.Determined

/-- What the induction carries says of every level that its phrases are determined. -/
theorem Settled.determined {l : Level} {t : Phrase l} (h : t.Settled) : t.Determined := by
  cases l with
  | chain k => exact Comparable.determined h
  | factor => exact h
  | atom => exact h

/-- Every phrase is determined, and every chain can be compared with every other. -/
theorem settled {l : Level} (t : Phrase l) : t.Settled := by
  induction t with
  | group inner ih => exact determined_group ih.determined
  | constant c => exact determined_constant c
  | symbol name h marks => exact determined_symbol name h marks
  | call name h argument ih => exact determined_call name h ih.determined
  | literal value => exact determined_literal value
  | negativeLiteral value h => exact determined_negativeLiteral value h
  | plain inner ih => exact determined_plain ih.determined
  | negative inner ih => exact determined_negative ih.determined
  | single operand ih => exact comparable_single ih.determined
  | binary left op h right ihl ihr => exact comparable_binary h ihl ihr.determined

/-- A phrase is the only one of its level that derives a beginning of a row, where what follows
continues no phrase of that level. -/
theorem determined {l : Level} (t : Phrase l) : t.Determined := t.settled.determined

end Phrase

/-- A row of lexemes has at most one derivation as a statement. -/
theorem Sentence.lexemes_injective (d d' : Sentence) (h : d.lexemes = d'.lexemes) : d = d' := by
  induction d generalizing d' with
  | value sum =>
    cases d' with
    | value sum' =>
      obtain ⟨rfl, -⟩ := sum.determined sum' [] [] (Level.Stops.nil _) (Level.Stops.nil _)
        (by simpa [lexemes] using h)
      rfl
    | assign target' ht' rest' =>
      obtain ⟨-, hrest⟩ := sum.determined target' [] _ (Level.Stops.nil _)
        (Level.Stops.equals _ _) (by simpa [lexemes] using h)
      cases hrest
  | assign target ht rest ih =>
    cases d' with
    | value sum' =>
      obtain ⟨-, hrest⟩ := target.determined sum' _ [] (Level.Stops.equals _ _)
        (Level.Stops.nil _) (by simpa [lexemes] using h)
      cases hrest
    | assign target' ht' rest' =>
      obtain ⟨rfl, hrest⟩ := target.determined target' _ _ (Level.Stops.equals _ _)
        (Level.Stops.equals _ _) h
      obtain rfl := ih rest' (List.cons.inj hrest).2
      rfl

/-! ## The reader recognizes the grammar

A row of tokens is read as a statement exactly if the whole row has a derivation that stands for
this statement, and then it has only one derivation
(`Statement.parse_recognizes_sentences`).  Soundness and completeness of the reader give the two
directions for tokens; a source text adds the cutting into tokens and the refusal of an empty
row, which has no derivation.
-/

/-- Reading tokens succeeds exactly on the rows that the grammar derives. -/
theorem Statement.ofTokens_eq_ok_iff (tokens : List Token) (s : Statement Float) :
    Statement.ofTokens tokens = .ok s ↔
      ∃ d : Sentence, d.lexemes = tokens.map (·.lexeme) ∧ d.statement = s := by
  constructor
  · exact Statement.exists_sentence_of_ofTokens
  · rintro ⟨d, hd, rfl⟩
    exact Statement.ofTokens_of_sentence d hd

/-- Parsing a text is cutting it into tokens and reading these. -/
theorem Statement.parse_eq_ok_iff (source : String) (s : Statement Float) :
    Statement.parse source = .ok s ↔
      ∃ tokens, Token.read source = .ok tokens ∧ Statement.ofTokens tokens = .ok s := by
  unfold Statement.parse
  cases Token.read source with
  | error e => simp [bind, Except.bind]
  | ok tokens =>
    cases tokens with
    | nil => simp [bind, Except.bind, throw, throwThe, MonadExceptOf.throw, Statement.ofTokens,
        Reader.run, Reader.finish]
    | cons t rest =>
      cases h : Statement.ofTokens (t :: rest) <;>
        simp [bind, Except.bind, Except.mapError, h]

/-- The parser accepts exactly the sentences of the grammar.  A row of tokens, and a text that
is cut into a row of tokens, gives a statement if and only if the whole row has a derivation that
stands for the statement; and no row of lexemes has two derivations. -/
theorem Statement.parse_recognizes_sentences :
    (∀ (tokens : List Token) (s : Statement Float), Statement.ofTokens tokens = .ok s ↔
      ∃ d : Sentence, d.lexemes = tokens.map (·.lexeme) ∧ d.statement = s) ∧
    (∀ (source : String) (s : Statement Float), Statement.parse source = .ok s ↔
      ∃ tokens, Token.read source = .ok tokens ∧
        ∃ d : Sentence, d.lexemes = tokens.map (·.lexeme) ∧ d.statement = s) ∧
    Function.Injective Sentence.lexemes := by
  refine ⟨Statement.ofTokens_eq_ok_iff, fun source s => ?_, Sentence.lexemes_injective⟩
  rw [Statement.parse_eq_ok_iff]
  simp only [Statement.ofTokens_eq_ok_iff]

end Fluxion
