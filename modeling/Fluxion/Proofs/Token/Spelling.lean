import Fluxion.Proofs.Expr.Variables
import Fluxion.Proofs.Token.Literal
import Mathlib

/-!
# Texts that spell a row of lexemes

A text spells a row of lexemes if it is cut into this row, with blanks anywhere between two
lexemes (`Spells`).  The reader of tokens finds the row (`Spells.exists_tokens`).

A lexeme is as long as it can be, so whether a word is a lexeme depends on the character behind
it.  A text that only needs some character behind it which continues neither a name nor a number
renders its row in every such place (`Renders`), and texts that render their rows can be put
together with operators, marks and parentheses between them.
-/

set_option autoImplicit false

namespace Fluxion

/-- A letter or an underscore, and then letters, digits and underscores. -/
def IsIdentifier (name : String) : Prop :=
  ∃ c rest, name.toList = c :: rest ∧ isIdentifierStart c = true ∧
    ∀ d ∈ rest, isIdentifierPart d = true

/-- A text that is cut into a row of lexemes. -/
inductive Spells : List Char → List Lexeme → Prop where
  | nil : Spells [] []
  | blank {c : Char} {rest : List Char} {row : List Lexeme} (h : Text.isBlank c = true)
    (hrest : Spells rest row) : Spells (c :: rest) row
  | lexeme {c : Char} {word rest : List Char} {x : Lexeme} {row : List Lexeme}
    (hblank : Text.isBlank c = false)
    (h : Lexeme.scan c (word ++ rest) = .ok (x, c :: word))
    (hrest : Spells rest row) : Spells (c :: (word ++ rest)) (x :: row)

/-! ## Characters -/

/-- Between the space and the control characters above ASCII nothing is blank. -/
theorem isBlank_eq_false {c : Char} (hlow : 0x20 < c.toNat) (hhigh : c.toNat < 0x85) :
    Text.isBlank c = false := by
  unfold Text.isBlank Text.Ranges.contains Text.blankRanges
  simp only [List.any_cons, List.any_nil, Bool.or_eq_false_iff, Bool.and_eq_false_iff,
    decide_eq_false_iff_not, Nat.not_le, and_true]
  omega

/-- The characters of identifiers are ASCII letters, digits and underscores. -/
theorem isIdentifierPart_toNat {c : Char} (h : isIdentifierPart c = true) :
    0x2F < c.toNat ∧ c.toNat < 0x7B := by
  simp only [isIdentifierPart, Char.isAlphanum, Char.isAlpha, Char.isUpper, Char.isLower,
    Char.isDigit, Bool.or_eq_true, Bool.and_eq_true, decide_eq_true_eq, UInt32.le_iff_toNat_le,
    ge_iff_le] at h
  obtain ((⟨h, h'⟩ | ⟨h, h'⟩) | ⟨h, h'⟩) | rfl := h
  all_goals first
    | decide
    | exact ⟨Nat.lt_of_lt_of_le (by decide) h, Nat.lt_of_le_of_lt h' (by decide)⟩

/-- Digits may stand in identifiers. -/
theorem isIdentifierPart_of_isDigit {c : Char} (h : c.isDigit = true) :
    isIdentifierPart c = true := by
  simp [isIdentifierPart, Char.isAlphanum, h]

/-- What may begin an identifier may stand in one. -/
theorem isIdentifierPart_of_isIdentifierStart {c : Char} (h : isIdentifierStart c = true) :
    isIdentifierPart c = true := by
  unfold isIdentifierStart at h
  unfold isIdentifierPart Char.isAlphanum
  rw [Bool.or_eq_true] at h
  obtain h | h := h <;> simp [h]

/-- The characters of identifiers are not blank. -/
theorem isBlank_of_isIdentifierPart {c : Char} (h : isIdentifierPart c = true) :
    Text.isBlank c = false := by
  have hc := isIdentifierPart_toNat h
  exact isBlank_eq_false (by omega) (by omega)

/-- What may begin an identifier is no digit. -/
theorem isDigit_of_isIdentifierStart {c : Char} (h : isIdentifierStart c = true) :
    c.isDigit = false := by
  simp only [isIdentifierStart, Char.isAlpha, Char.isUpper, Char.isLower, Bool.or_eq_true,
    Bool.and_eq_true, decide_eq_true_eq, UInt32.le_iff_toNat_le, ge_iff_le] at h
  rw [Bool.eq_false_iff]
  intro hdigit
  simp only [Char.isDigit, Bool.and_eq_true, decide_eq_true_eq, UInt32.le_iff_toNat_le,
    ge_iff_le] at hdigit
  obtain (⟨h, -⟩ | ⟨h, -⟩) | rfl := h
  · exact absurd (Nat.le_trans h hdigit.2) (by decide)
  · exact absurd (Nat.le_trans h hdigit.2) (by decide)
  · exact absurd hdigit.2 (by decide)

/-! ## Lexemes at the front of a text -/

/-- Neither a character of a name nor a separator comes first. -/
def Ends (rest : List Char) : Prop :=
  ∀ c ∈ rest.head?, isIdentifierPart c = false ∧ isSeparator c = false

/-- The end of a text ends every word. -/
theorem Ends.nil : Ends [] := by
  intro c hc
  cases hc

/-- A character that belongs to no word ends every word. -/
theorem Ends.cons {c : Char} (rest : List Char) (hpart : isIdentifierPart c = false)
    (hseparator : isSeparator c = false) : Ends (c :: rest) := by
  intro d hd
  obtain rfl : c = d := Option.some.inj hd
  exact ⟨hpart, hseparator⟩

/-- A text that ends words does so before others that do. -/
theorem Ends.append {text rest : List Char} (h : Ends text) (hrest : Ends rest) :
    Ends (text ++ rest) := by
  cases text with
  | nil => exact hrest
  | cons c text => exact h

/-- What ends every word ends a number. -/
theorem Ends.literal {rest : List Char} (h : Ends rest) : Literal.Ends rest := by
  intro c hc
  refine ⟨?_, (h c hc).2⟩
  rw [Bool.eq_false_iff]
  intro hdigit
  have hpart := (h c hc).1
  rw [isIdentifierPart_of_isDigit hdigit] at hpart
  cases hpart

/-- What the scanner does where a number begins. -/
theorem Lexeme.scan_digit {c : Char} (h : c.isDigit = true) (rest : List Char) :
    Lexeme.scan c rest =
      let literal := Literal.scan (c :: rest)
      if literal.value.isFinite = true then .ok (.number literal.value, literal.text)
      else .error ⟨.numberOutOfRange, false, literal.text⟩ := by
  unfold Lexeme.scan
  rw [if_pos h]
  dsimp only
  rw [(Literal.isWritten_scan h rest).value?_eq]
  rfl

/-- A lexeme that is found is a number, a name or a single character. -/
theorem Lexeme.scan_cases {c : Char} {rest word : List Char} {x : Lexeme}
    (h : Lexeme.scan c rest = .ok (x, word)) :
    (c.isDigit = true ∧ (Literal.scan (c :: rest)).value.isFinite = true ∧
      x = .number (Literal.scan (c :: rest)).value ∧ word = (Literal.scan (c :: rest)).text) ∨
    (isIdentifierStart c = true ∧ x = .identifier (String.ofList word) ∧
      word = c :: rest.takeWhile isIdentifierPart) ∨
    (Lexeme.ofChar? c = some x ∧ word = [c]) := by
  by_cases hdigit : c.isDigit = true
  · rw [scan_digit hdigit] at h
    dsimp only at h
    split at h
    · rename_i hfinite
      cases h
      exact .inl ⟨hdigit, hfinite, rfl, rfl⟩
    · cases h
  · unfold Lexeme.scan at h
    rw [if_neg hdigit] at h
    split at h
    · rename_i hstart
      cases h
      exact .inr (.inl ⟨hstart, rfl, rfl⟩)
    · split at h
      · rename_i hchar
        cases h
        exact .inr (.inr ⟨hchar, rfl⟩)
      · cases h

/-- A character that is a lexeme is no digit, begins no name and is not blank. -/
theorem Lexeme.ofChar?_cases {c : Char} {x : Lexeme} (h : Lexeme.ofChar? c = some x) :
    c.isDigit = false ∧ isIdentifierStart c = false ∧ Text.isBlank c = false := by
  unfold Lexeme.ofChar? at h
  split at h
  all_goals cases h
  all_goals exact ⟨by decide, by decide, by decide⟩

/-- A mark is scanned as its lexeme. -/
theorem Lexeme.scan_ofChar {c : Char} {x : Lexeme} (h : Lexeme.ofChar? c = some x)
    (rest : List Char) : Lexeme.scan c rest = .ok (x, [c]) := by
  obtain ⟨hdigit, hstart, -⟩ := Lexeme.ofChar?_cases h
  unfold Lexeme.scan
  rw [if_neg (by simp [hdigit]), if_neg (by simp [hstart]), h]

/-- A name before something that ends it is scanned as its identifier. -/
theorem Lexeme.scan_name {c : Char} {word rest : List Char} (hc : isIdentifierStart c = true)
    (hword : ∀ d ∈ word, isIdentifierPart d = true) (hrest : Ends rest) :
    Lexeme.scan c (word ++ rest) =
      .ok (.identifier (String.ofList (c :: word)), c :: word) := by
  have hhead : ∀ d ∈ rest.head?, isIdentifierPart d = false := fun d hd => (hrest d hd).1
  unfold Lexeme.scan
  rw [if_neg (by simp [isDigit_of_isIdentifierStart hc]), if_pos hc,
    takeWhile_append_eq hword hhead]

/-- The text of a finite number, before something that ends it, is scanned as the number. -/
theorem Lexeme.scan_number {c : Char} {word rest : List Char} {pattern : Nat}
    (hpattern : pattern < Decimal.infinityPattern) (hc : c.isDigit = true)
    (htext : Decimal.plainDigits pattern = c :: word) (hrest : Ends rest) :
    Lexeme.scan c (word ++ rest) = .ok (.number (Decimal.ofPattern pattern), c :: word) := by
  obtain ⟨hvalue, hliteral⟩ := Literal.scan_plainDigits hpattern.le hrest.literal
  rw [htext] at hvalue hliteral
  have hfinite : (Decimal.ofPattern pattern).isFinite = true := by
    rw [Decimal.isFinite_eq, (Decimal.pattern_ofPattern hpattern.le).2, decide_eq_true hpattern]
  rw [scan_digit hc]
  dsimp only
  rw [← List.cons_append, hvalue, hliteral, if_pos hfinite]

/-! ## Texts with their rows -/

/-- A text that is cut into a row wherever what follows continues neither a name nor a
number. -/
def Renders (text : List Char) (row : List Lexeme) : Prop :=
  ∀ rest more, Ends rest → Spells rest more → Spells (text ++ rest) (row ++ more)

namespace Renders

variable {text text' : List Char} {row row' : List Lexeme}

/-- What a text renders in every context it spells alone. -/
theorem spells (h : Renders text row) : Spells text row := by
  have hspells := h [] [] Ends.nil .nil
  rwa [List.append_nil, List.append_nil] at hspells

/-- Texts are put together where the second one does not continue the first. -/
theorem append (h : Renders text row) (h' : Renders text' row') (hends : Ends text') :
    Renders (text ++ text') (row ++ row') := by
  intro rest more hrest hmore
  rw [List.append_assoc, List.append_assoc]
  exact h _ _ (hends.append hrest) (h' rest more hrest hmore)

/-- The empty text renders the empty row. -/
theorem nil : Renders [] [] := fun _ _ _ hmore => hmore

/-- A blank before a text changes nothing. -/
theorem blank (h : Renders text row) : Renders (' ' :: text) row :=
  fun rest more hrest hmore => .blank (by decide) (h rest more hrest hmore)

/-- A lexeme of one character ends there whatever follows. -/
theorem char {c : Char} {x : Lexeme} (hc : Lexeme.ofChar? c = some x) (h : Renders text row) :
    Renders (c :: text) (x :: row) := by
  intro rest more hrest hmore
  have hblank := (Lexeme.ofChar?_cases hc).2.2
  have hscan : Lexeme.scan c ([] ++ (text ++ rest)) = .ok (x, [c]) := Lexeme.scan_ofChar hc _
  exact @Spells.lexeme c [] (text ++ rest) x _ hblank hscan (h rest more hrest hmore)

/-- An identifier renders its lexeme. -/
theorem name {name : String} (h : IsIdentifier name) : Renders name.toList [.identifier name] := by
  obtain ⟨c, word, htext, hc, hword⟩ := h
  intro rest more hrest hmore
  have hblank := isBlank_of_isIdentifierPart (isIdentifierPart_of_isIdentifierStart hc)
  have hscan := Lexeme.scan_name hc hword hrest
  rw [← htext, String.ofList_toList, htext] at hscan
  rw [htext]
  exact .lexeme hblank hscan hmore

/-- The text of a finite number renders its lexeme. -/
theorem number {pattern : Nat} (h : pattern < Decimal.infinityPattern) :
    Renders (Decimal.plainDigits pattern) [.number (Decimal.ofPattern pattern)] := by
  intro rest more hrest hmore
  have hwritten := Decimal.Numeral.isWritten_literal (Decimal.shortest pattern)
  obtain ⟨c, digits, hwhole⟩ := List.exists_cons_of_ne_nil hwritten.whole_ne_nil
  have hc : c.isDigit = true := hwritten.whole c (by simp [hwhole])
  have htext : Decimal.plainDigits pattern =
      c :: (digits ++ (Decimal.shortest pattern).literal.tail) := by
    rw [Decimal.plainDigits, ← Decimal.Numeral.text_literal, Literal.text, hwhole,
      List.cons_append]
  have hblank := isBlank_of_isIdentifierPart (isIdentifierPart_of_isDigit hc)
  rw [htext]
  exact .lexeme hblank (Lexeme.scan_number h hc htext hrest) hmore

end Renders

/-! ## What the reader of tokens finds -/

/-- What a lexeme that was read from a text can be: numbers are finite and have no sign. -/
def Lexeme.IsRead : Lexeme → Prop
  | .number x => x.isFinite = true ∧ Decimal.isNegative x = false
  | .identifier name => IsIdentifier name
  | _ => True

/-- What has been scanned is a lexeme that can be read. -/
theorem Lexeme.isRead_of_scan {c : Char} {rest word : List Char} {x : Lexeme}
    (h : Lexeme.scan c rest = .ok (x, word)) : x.IsRead := by
  obtain ⟨-, hfinite, rfl, -⟩ | ⟨hstart, rfl, rfl⟩ | ⟨hchar, -⟩ := scan_cases h
  · exact ⟨hfinite, (Literal.pattern_value _).1⟩
  · refine ⟨c, rest.takeWhile isIdentifierPart, by simp, hstart, ?_⟩
    intro d hd
    exact List.mem_takeWhile_imp hd
  · unfold Lexeme.ofChar? at hchar
    split at hchar <;> cases hchar <;> trivial

/-- The characters of a lexeme are the first of the text. -/
theorem Lexeme.exists_rest_of_scan {c : Char} {rest written : List Char} {x : Lexeme}
    (h : Lexeme.scan c rest = .ok (x, written)) :
    ∃ word remaining, written = c :: word ∧ rest = word ++ remaining := by
  obtain ⟨hdigit, -, -, rfl⟩ | ⟨-, -, rfl⟩ | ⟨-, rfl⟩ := scan_cases h
  · have hne : (Literal.scan (c :: rest)).text ≠ [] := by
      rw [Literal.text, Literal.whole_scan, List.takeWhile_cons_of_pos hdigit]
      exact List.cons_ne_nil _ _
    obtain ⟨first, word, hword⟩ := List.exists_cons_of_ne_nil hne
    obtain ⟨remaining, hremaining⟩ := Literal.exists_append_of_scan (c :: rest)
    rw [hword, List.cons_append, List.cons.injEq] at hremaining
    obtain ⟨rfl, rfl⟩ := hremaining
    exact ⟨word, remaining, hword, rfl⟩
  · exact ⟨_, _, rfl, (List.takeWhile_append_dropWhile ..).symm⟩
  · exact ⟨[], rest, rfl, rfl⟩

/-- A text, the offset of its first byte, and the tokens that it is cut into. -/
inductive Token.IsCut : Nat → List Char → List Token → Prop where
  | nil (offset : Nat) : IsCut offset [] []
  | blank {offset : Nat} {c : Char} {rest : List Char} {tokens : List Token}
    (h : Text.isBlank c = true) (hrest : IsCut (offset + c.utf8Size) rest tokens) :
    IsCut offset (c :: rest) tokens
  | lexeme {offset : Nat} {c : Char} {word rest : List Char} {x : Lexeme} {tokens : List Token}
    (hblank : Text.isBlank c = false) (h : Lexeme.scan c (word ++ rest) = .ok (x, c :: word))
    (hrest : IsCut (offset + byteLength (c :: word)) rest tokens) :
    IsCut offset (c :: (word ++ rest)) (⟨x, offset⟩ :: tokens)

/-- The reader of tokens cuts its text. -/
theorem Token.isCut_of_readFrom {offset : Nat} {text : List Char} {tokens : List Token}
    (h : Token.readFrom offset text = .ok tokens) : IsCut offset text tokens := by
  induction offset, text using Token.readFrom.induct generalizing tokens with
  | case1 offset =>
    rw [Token.readFrom] at h
    cases h
    exact .nil offset
  | case2 offset c rest hblank ih =>
    rw [Token.readFrom, if_pos hblank] at h
    exact .blank hblank (ih h)
  | case3 offset c rest hblank ih =>
    rw [Token.readFrom, if_neg hblank] at h
    obtain ⟨⟨x, written⟩, hscan, h⟩ := bind_eq_ok_iff.mp h
    obtain ⟨tail, htail, h⟩ := bind_eq_ok_iff.mp h
    cases h
    obtain ⟨word, remaining, rfl, rfl⟩ := Lexeme.exists_rest_of_scan hscan
    have hcut := ih (c :: word) htail
    rw [List.length_cons, Nat.add_sub_cancel, List.drop_left] at hcut
    exact .lexeme (Bool.not_eq_true _ ▸ hblank) hscan hcut

/-- A text that is cut into tokens is read as these tokens. -/
theorem Token.IsCut.readFrom_eq {offset : Nat} {text : List Char} {tokens : List Token}
    (h : IsCut offset text tokens) : readFrom offset text = .ok tokens := by
  induction h with
  | nil offset => rw [readFrom]
  | blank hblank hrest ih => rw [readFrom, if_pos hblank, ih]
  | @lexeme offset c word rest x tokens hblank hscan hrest ih =>
    -- the reader drops the characters of the lexeme, whose first one it has taken already
    have hdrop : (word ++ rest).drop ((c :: word).length - 1) = rest := by simp
    rw [readFrom, if_neg (by simp [hblank]), hscan]
    simp only [bind, Except.bind, hdrop, ih]
    rfl

/-- The tokens that are read are those that the text is cut into. -/
theorem Token.readFrom_eq_ok_iff {offset : Nat} {text : List Char} {tokens : List Token} :
    readFrom offset text = .ok tokens ↔ IsCut offset text tokens :=
  ⟨isCut_of_readFrom, IsCut.readFrom_eq⟩

/-- The reader of tokens finds the row that a text spells. -/
theorem Spells.exists_tokens {text : List Char} {row : List Lexeme} (h : Spells text row)
    (offset : Nat) :
    ∃ tokens, Token.readFrom offset text = .ok tokens ∧ tokens.map (·.lexeme) = row := by
  suffices hcut : ∃ tokens, Token.IsCut offset text tokens ∧ tokens.map (·.lexeme) = row by
    obtain ⟨tokens, htokens, hrow⟩ := hcut
    exact ⟨tokens, htokens.readFrom_eq, hrow⟩
  induction h generalizing offset with
  | nil => exact ⟨[], .nil offset, rfl⟩
  | @blank c rest row hblank hrest ih =>
    obtain ⟨tokens, htokens, hrow⟩ := ih (offset + c.utf8Size)
    exact ⟨tokens, .blank hblank htokens, hrow⟩
  | @lexeme c word rest x row hblank hscan hrest ih =>
    obtain ⟨tokens, htokens, hrow⟩ := ih (offset + byteLength (c :: word))
    exact ⟨_, .lexeme hblank hscan htokens, by rw [List.map_cons, hrow]⟩

/-- A text spells the row that the reader of tokens finds. -/
theorem Token.spells_of_readFrom {offset : Nat} {text : List Char} {tokens : List Token}
    (h : Token.readFrom offset text = .ok tokens) : Spells text (tokens.map (·.lexeme)) := by
  have hcut := isCut_of_readFrom h
  clear h
  induction hcut with
  | nil offset => exact .nil
  | blank hblank hrest ih => exact .blank hblank ih
  | lexeme hblank hscan hrest ih => exact .lexeme hblank hscan ih

/-- Every token of a text has a lexeme that can be read. -/
theorem Token.isRead_of_readFrom {offset : Nat} {text : List Char} {tokens : List Token}
    (h : Token.readFrom offset text = .ok tokens) : ∀ t ∈ tokens, t.lexeme.IsRead := by
  have hcut := isCut_of_readFrom h
  clear h
  induction hcut with
  | nil offset => simp
  | blank hblank hrest ih => exact ih
  | lexeme hblank hscan hrest ih =>
    exact List.forall_mem_cons.mpr ⟨Lexeme.isRead_of_scan hscan, ih⟩

end Fluxion
