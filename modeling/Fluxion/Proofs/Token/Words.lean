import Fluxion.Proofs.Token.Spelling

/-!
# The words of lexemes

A word that is written like a lexeme is one of a single lexeme (`Lexeme.IsWrittenAs.unique`), and
the scanner finds the longest such word at the front of a text (`Lexeme.scan_eq_ok_iff`).

What a word means has no part in how long it is.  A number with too many digits is one word whose
value is infinite, and it is refused, not cut into numbers that are finite.  Nor does it matter
which separator is in a word, since both are read as a point (`Lexeme.IsLongest.of_map_eq`).
-/

set_option autoImplicit false

namespace Fluxion

/-- A lexeme and the characters that it is written with. -/
inductive Lexeme.IsWrittenAs : Lexeme → List Char → Prop where
  | number {l : Literal} (h : l.IsWritten) : IsWrittenAs (.number l.value) l.text
  | identifier {name : String} (h : IsIdentifier name) :
    IsWrittenAs (.identifier name) name.toList
  | mark {c : Char} {x : Lexeme} (h : Lexeme.ofChar? c = some x) : IsWrittenAs x [c]

/-- The value of a number is finite. -/
def Lexeme.IsFinite : Lexeme → Prop
  | .number value => value.isFinite = true
  | _ => True

/-- The longest word at the front of a text that is written like a lexeme. -/
structure Lexeme.IsLongest (x : Lexeme) (word text : List Char) : Prop where
  written : x.IsWrittenAs word
  isPrefix : word <+: text
  longest : ∀ (y : Lexeme) (longer : List Char), y.IsWrittenAs longer → longer <+: text →
    longer.length ≤ word.length

/-- A word at the front of a text is taken whole. -/
theorem length_le_takeWhile {p : Char → Bool} {word : List Char} (h : ∀ c ∈ word, p c = true)
    (rest : List Char) : word.length ≤ ((word ++ rest).takeWhile p).length := by
  rw [List.takeWhile_append_of_pos h, List.length_append]
  exact Nat.le_add_right _ _

/-- No number at the front of a text is longer than the one that is scanned. -/
theorem Literal.IsWritten.length_text_le {l : Literal} (h : l.IsWritten) {text : List Char}
    (hbegins : l.text <+: text) : l.text.length ≤ (Literal.scan text).text.length := by
  obtain ⟨whole, tail⟩ := l
  have hwhole : ∀ c ∈ whole, c.isDigit = true := h.whole
  obtain ⟨remaining, rfl⟩ := hbegins
  obtain htail | ⟨separator, fraction, htail, hseparator, hfraction⟩ := h.tail
  · obtain rfl : tail = [] := htail
    have hscanned := length_le_takeWhile hwhole remaining
    simp only [Literal.text, List.append_nil, List.length_append, Literal.whole_scan]
    exact hscanned.trans (Nat.le_add_right _ _)
  · obtain rfl : tail = separator :: fraction := htail
    have hhead : ∀ c ∈ (separator :: (fraction ++ remaining)).head?, c.isDigit = false := by
      intro c hc
      obtain rfl : separator = c := Option.some.inj hc
      exact isDigit_of_isSeparator hseparator
    have hscanned := length_le_takeWhile hfraction remaining
    simp only [Literal.text, Literal.scan, List.append_assoc, List.cons_append,
      takeWhile_append_eq hwhole hhead, dropWhile_append_eq hwhole hhead, hseparator, if_true,
      List.length_append, List.length_cons]
    omega

/-- Decimal separators are not blank. -/
theorem isBlank_of_isSeparator {c : Char} (h : isSeparator c = true) : Text.isBlank c = false := by
  unfold isSeparator at h
  rw [Bool.or_eq_true, decide_eq_true_eq, decide_eq_true_eq] at h
  obtain rfl | rfl := h <;> decide

namespace Lexeme

variable {x y : Lexeme} {c : Char} {word rest text : List Char}

/-- Every lexeme is written with a character at least. -/
theorem IsWrittenAs.ne_nil (h : x.IsWrittenAs word) : word ≠ [] := by
  cases h with
  | number h => exact List.append_ne_nil_of_left_ne_nil h.whole_ne_nil _
  | identifier h =>
    obtain ⟨c, rest, hname, -⟩ := h
    rw [hname]
    exact List.cons_ne_nil c rest
  | mark h => exact List.cons_ne_nil _ _

/-- No character of a word is blank. -/
theorem IsWrittenAs.isBlank_eq (h : x.IsWrittenAs word) : ∀ c ∈ word, Text.isBlank c = false := by
  have hdigit : ∀ c : Char, c.isDigit = true → Text.isBlank c = false := fun c hc =>
    isBlank_of_isIdentifierPart (isIdentifierPart_of_isDigit hc)
  intro c hc
  cases h with
  | @number l h =>
    obtain hc | hc := List.mem_append.mp hc
    · exact hdigit c (h.whole c hc)
    · obtain htail | ⟨separator, fraction, htail, hseparator, hfraction⟩ := h.tail
      · simp [htail] at hc
      · rw [htail] at hc
        obtain rfl | hc := List.mem_cons.mp hc
        · exact isBlank_of_isSeparator hseparator
        · exact hdigit c (hfraction c hc)
  | identifier h =>
    obtain ⟨first, rest, hname, hstart, hpart⟩ := h
    rw [hname] at hc
    obtain rfl | hc := List.mem_cons.mp hc
    · exact isBlank_of_isIdentifierPart (isIdentifierPart_of_isIdentifierStart hstart)
    · exact isBlank_of_isIdentifierPart (hpart c hc)
  | mark h =>
    obtain rfl := List.mem_singleton.mp hc
    exact (ofChar?_cases h).2.2

/-- The first character of a word tells what kind of lexeme it is. -/
theorem IsWrittenAs.head_cases (h : x.IsWrittenAs (c :: rest)) :
    (c.isDigit = true ∧ ∃ l : Literal, l.IsWritten ∧ l.text = c :: rest ∧ x = .number l.value) ∨
    (isIdentifierStart c = true ∧ (∀ d ∈ rest, isIdentifierPart d = true) ∧
      x = .identifier (String.ofList (c :: rest))) ∨
    (Lexeme.ofChar? c = some x ∧ rest = []) := by
  generalize hword : c :: rest = word at h
  cases h with
  | @number l h =>
    obtain ⟨first, digits, hwhole⟩ := List.exists_cons_of_ne_nil h.whole_ne_nil
    have htext : l.text = first :: (digits ++ l.tail) := by
      rw [Literal.text, hwhole, List.cons_append]
    obtain ⟨rfl, -⟩ := List.cons.inj (hword.trans htext)
    exact .inl ⟨h.whole c (by simp [hwhole]), l, h, rfl, rfl⟩
  | @identifier name h =>
    obtain ⟨first, part, hname, hstart, hpart⟩ := h
    obtain ⟨rfl, rfl⟩ := List.cons.inj (hword.trans hname)
    exact .inr (.inl ⟨hstart, hpart, by rw [String.ofList_toList]⟩)
  | mark h =>
    cases hword
    exact .inr (.inr ⟨h, rfl⟩)

/-- What is written from a digit on is a number. -/
theorem IsWrittenAs.of_digit (h : x.IsWrittenAs (c :: rest)) (hc : c.isDigit = true) :
    ∃ l : Literal, l.IsWritten ∧ l.text = c :: rest ∧ x = .number l.value := by
  obtain ⟨-, hnumber⟩ | ⟨hstart, -⟩ | ⟨hchar, -⟩ := h.head_cases
  · exact hnumber
  · rw [isDigit_of_isIdentifierStart hstart] at hc
    cases hc
  · rw [(ofChar?_cases hchar).1] at hc
    cases hc

/-- What is written from the start of an identifier on is this identifier. -/
theorem IsWrittenAs.of_start (h : x.IsWrittenAs (c :: rest)) (hc : isIdentifierStart c = true) :
    (∀ d ∈ rest, isIdentifierPart d = true) ∧ x = .identifier (String.ofList (c :: rest)) := by
  obtain ⟨hdigit, -⟩ | ⟨-, hname⟩ | ⟨hchar, -⟩ := h.head_cases
  · rw [isDigit_of_isIdentifierStart hc] at hdigit
    cases hdigit
  · exact hname
  · rw [(ofChar?_cases hchar).2.1] at hc
    cases hc

/-- What is written from a mark on is this mark alone. -/
theorem IsWrittenAs.of_mark (h : x.IsWrittenAs (c :: rest)) (hc : ofChar? c = some y) :
    x = y ∧ rest = [] := by
  obtain ⟨hdigit, hstart, -⟩ := ofChar?_cases hc
  obtain ⟨hdigit', -⟩ | ⟨hstart', -⟩ | ⟨hchar, hrest⟩ := h.head_cases
  · rw [hdigit] at hdigit'
    cases hdigit'
  · rw [hstart] at hstart'
    cases hstart'
  · exact ⟨Option.some.inj (hchar.symm.trans hc), hrest⟩

/-- A word has the characters of one lexeme only. -/
theorem IsWrittenAs.unique (h : x.IsWrittenAs word) (h' : y.IsWrittenAs word) : x = y := by
  obtain ⟨c, rest, rfl⟩ := List.exists_cons_of_ne_nil h.ne_nil
  obtain ⟨hdigit, l, hl, htext, rfl⟩ | ⟨hstart, -, rfl⟩ | ⟨hchar, -⟩ := h.head_cases
  · obtain ⟨l', hl', htext', rfl⟩ := h'.of_digit hdigit
    -- the value of a literal is read from its characters
    have hvalue : some l.value = some l'.value := by
      rw [← hl.value?_eq, ← hl'.value?_eq, Literal.value?, Literal.value?, htext, htext']
    rw [Option.some.inj hvalue]
  · exact (h'.of_start hstart).2.symm
  · exact (h'.of_mark hchar).1.symm

/-- There is one longest lexeme at the front of a text. -/
theorem IsLongest.unique (h : x.IsLongest word text) {word' : List Char}
    (h' : y.IsLongest word' text) : x = y ∧ word = word' := by
  have hlength : word.length = word'.length :=
    Nat.le_antisymm (h'.longest x word h.written h.isPrefix)
      (h.longest y word' h'.written h'.isPrefix)
  obtain rfl : word = word' := List.IsPrefix.eq_of_length
    (List.prefix_of_prefix_length_le h.isPrefix h'.isPrefix hlength.le) hlength
  exact ⟨h.written.unique h'.written, rfl⟩

/-! ## What the scanner finds -/

/-- Where a number begins the longest word is the one that is scanned. -/
theorem isLongest_number (hc : c.isDigit = true) (rest : List Char) :
    (Lexeme.number (Literal.scan (c :: rest)).value).IsLongest (Literal.scan (c :: rest)).text
      (c :: rest) where
  written := .number (Literal.isWritten_scan hc rest)
  isPrefix := by
    obtain ⟨remaining, htext⟩ := Literal.exists_append_of_scan (c :: rest)
    exact ⟨remaining, htext.symm⟩
  longest := by
    intro y longer hy hlonger
    obtain ⟨d, word, rfl⟩ := List.exists_cons_of_ne_nil hy.ne_nil
    obtain ⟨rfl, -⟩ := List.cons_prefix_cons.mp hlonger
    obtain ⟨l, hl, htext, rfl⟩ := hy.of_digit hc
    rw [← htext] at hlonger ⊢
    exact hl.length_text_le hlonger

/-- Where a name begins the longest word goes on as long as it is one. -/
theorem isLongest_name (hc : isIdentifierStart c = true) (rest : List Char) :
    (Lexeme.identifier (String.ofList (c :: rest.takeWhile isIdentifierPart))).IsLongest
      (c :: rest.takeWhile isIdentifierPart) (c :: rest) where
  written := by
    have hname : IsIdentifier (String.ofList (c :: rest.takeWhile isIdentifierPart)) :=
      ⟨c, _, String.toList_ofList, hc, fun d hd => List.mem_takeWhile_imp hd⟩
    simpa using IsWrittenAs.identifier hname
  isPrefix := List.cons_prefix_cons.mpr ⟨rfl, List.takeWhile_prefix _⟩
  longest := by
    intro y longer hy hlonger
    obtain ⟨d, word, rfl⟩ := List.exists_cons_of_ne_nil hy.ne_nil
    obtain ⟨rfl, remaining, rfl⟩ := List.cons_prefix_cons.mp hlonger
    obtain ⟨hpart, -⟩ := hy.of_start hc
    exact Nat.succ_le_succ (length_le_takeWhile hpart remaining)

/-- A mark is the longest lexeme where it stands. -/
theorem isLongest_mark (hc : Lexeme.ofChar? c = some x) (rest : List Char) :
    x.IsLongest [c] (c :: rest) where
  written := .mark hc
  isPrefix := ⟨rest, rfl⟩
  longest := by
    intro y longer hy hlonger
    obtain ⟨d, word, rfl⟩ := List.exists_cons_of_ne_nil hy.ne_nil
    obtain ⟨rfl, -⟩ := List.cons_prefix_cons.mp hlonger
    obtain ⟨-, rfl⟩ := hy.of_mark hc
    exact Nat.le_refl _

/-- The scanner finds the longest word, and refuses it only if it is a number that is not finite. -/
theorem scan_eq_ok_iff :
    Lexeme.scan c rest = .ok (x, word) ↔ x.IsLongest word (c :: rest) ∧ x.IsFinite := by
  constructor
  · intro h
    obtain ⟨hdigit, hfinite, rfl, rfl⟩ | ⟨hstart, rfl, rfl⟩ | ⟨hchar, rfl⟩ := scan_cases h
    · exact ⟨isLongest_number hdigit rest, hfinite⟩
    · exact ⟨isLongest_name hstart rest, trivial⟩
    · refine ⟨isLongest_mark hchar rest, ?_⟩
      unfold Lexeme.ofChar? at hchar
      split at hchar <;> cases hchar <;> trivial
  · rintro ⟨hlongest, hfinite⟩
    obtain ⟨d, tail, rfl⟩ := List.exists_cons_of_ne_nil hlongest.written.ne_nil
    obtain ⟨rfl, -⟩ := List.cons_prefix_cons.mp hlongest.isPrefix
    obtain ⟨hdigit, -⟩ | ⟨hstart, -⟩ | ⟨hchar, rfl⟩ := hlongest.written.head_cases
    · obtain ⟨rfl, hword⟩ := hlongest.unique (isLongest_number hdigit rest)
      rw [scan_digit hdigit, hword]
      exact if_pos hfinite
    · obtain ⟨rfl, hword⟩ := hlongest.unique (isLongest_name hstart rest)
      unfold Lexeme.scan
      rw [if_neg (by simp [isDigit_of_isIdentifierStart hstart]), if_pos hstart, hword]
    · exact scan_ofChar hchar rest

end Lexeme

/-! ## The two separators -/

section

variable {x : Lexeme} {word word' rest rest' : List Char}

/-- What is exchanged for a separator is a separator, and nothing else is. -/
theorem isSeparator_numeralChar (c : Char) : isSeparator (numeralChar c) = isSeparator c := by
  unfold numeralChar
  split
  · rename_i h
    rw [h]
    rfl
  · rfl

/-- Exchanging the separators leaves the size of a character. -/
theorem utf8Size_numeralChar (c : Char) : (numeralChar c).utf8Size = c.utf8Size := by
  unfold numeralChar isSeparator
  split
  · rename_i h
    rw [Bool.or_eq_true, decide_eq_true_eq, decide_eq_true_eq] at h
    obtain rfl | rfl := h <;> rfl
  · rfl

/-- Exchanging the separators leaves the blanks. -/
theorem isBlank_numeralChar (c : Char) : Text.isBlank (numeralChar c) = Text.isBlank c := by
  unfold numeralChar
  split
  · rename_i h
    rw [isBlank_of_isSeparator h]
    rfl
  · rfl

/-- Exchanging the separators leaves the length of a text. -/
theorem byteLength_map_numeralChar (text : List Char) :
    byteLength (text.map numeralChar) = byteLength text := by
  induction text with
  | nil => rfl
  | cons c text ih => rw [List.map_cons, byteLength_cons, byteLength_cons, ih, utf8Size_numeralChar]

/-- A row without separators is the only one with its points. -/
theorem eq_of_map_numeralChar (hword : ∀ c ∈ word, isSeparator c = false)
    (h : word'.map numeralChar = word.map numeralChar) : word' = word := by
  rw [map_numeralChar hword] at h
  have hword' : ∀ c ∈ word', isSeparator c = false := by
    intro c hc
    rw [← isSeparator_numeralChar]
    exact hword _ (h ▸ List.mem_map_of_mem hc)
  rw [← h, map_numeralChar hword']

/-- The characters of identifiers are no separators. -/
theorem isSeparator_of_isIdentifierPart {c : Char} (h : isIdentifierPart c = true) :
    isSeparator c = false := by
  rw [Bool.eq_false_iff]
  intro hseparator
  unfold isSeparator at hseparator
  rw [Bool.or_eq_true, decide_eq_true_eq, decide_eq_true_eq] at hseparator
  obtain rfl | rfl := hseparator <;> exact absurd h (by decide)

/-- An identifier has no separators. -/
theorem IsIdentifier.isSeparator_eq {name : String} (h : IsIdentifier name) :
    ∀ c ∈ name.toList, isSeparator c = false := by
  obtain ⟨c, rest, hname, hstart, hpart⟩ := h
  rw [hname, List.forall_mem_cons]
  exact ⟨isSeparator_of_isIdentifierPart (isIdentifierPart_of_isIdentifierStart hstart),
    fun d hd => isSeparator_of_isIdentifierPart (hpart d hd)⟩

/-- Marks are no separators. -/
theorem Lexeme.isSeparator_of_ofChar? {c : Char} (h : Lexeme.ofChar? c = some x) :
    isSeparator c = false := by
  unfold Lexeme.ofChar? at h
  split at h
  all_goals cases h
  all_goals rfl

/-- A number with another separator is written as a number. -/
theorem Literal.IsWritten.of_map_eq {l : Literal} (h : l.IsWritten)
    (hword : word.map numeralChar = l.text.map numeralChar) :
    ∃ l' : Literal, l'.IsWritten ∧ l'.text = word := by
  obtain ⟨whole, tail⟩ := l
  have hdigits : ∀ row : List Char, (∀ c ∈ row, c.isDigit = true) →
      ∀ c ∈ row, isSeparator c = false :=
    fun row hrow c hc => isSeparator_of_isDigit (hrow c hc)
  rw [Literal.text, List.map_append, List.map_eq_append_iff] at hword
  obtain ⟨whole', tail', rfl, hwhole, htail⟩ := hword
  obtain rfl : whole' = whole := eq_of_map_numeralChar (hdigits whole h.whole) hwhole
  refine ⟨⟨whole', tail'⟩, ⟨h.whole_ne_nil, h.whole, ?_⟩, rfl⟩
  obtain hnone | ⟨separator, fraction, hfraction, hseparator, hdigit⟩ := h.tail
  · obtain rfl : tail = [] := hnone
    exact .inl (List.map_eq_nil_iff.mp htail)
  · obtain rfl : tail = separator :: fraction := hfraction
    obtain ⟨separator', fraction', rfl, hsame, hrest⟩ := List.map_eq_cons_iff.mp htail
    obtain rfl : fraction' = fraction := eq_of_map_numeralChar (hdigits fraction hdigit) hrest
    refine .inr ⟨separator', fraction', rfl, ?_, hdigit⟩
    rw [← isSeparator_numeralChar, hsame, isSeparator_numeralChar, hseparator]

/-- The lexeme of a word does not depend on which separator is in it. -/
theorem Lexeme.IsWrittenAs.of_map_eq (h : x.IsWrittenAs word)
    (hword : word'.map numeralChar = word.map numeralChar) : x.IsWrittenAs word' := by
  cases h with
  | @number l h =>
    obtain ⟨l', h', rfl⟩ := h.of_map_eq hword
    have hvalue : some l'.value = some l.value := by
      rw [← h'.value?_eq, ← h.value?_eq, Literal.value?, Literal.value?, hword]
    rw [← Option.some.inj hvalue]
    exact .number h'
  | @identifier name h =>
    rw [eq_of_map_numeralChar h.isSeparator_eq hword]
    exact .identifier h
  | @mark c _ h =>
    rw [eq_of_map_numeralChar (by simpa using Lexeme.isSeparator_of_ofChar? h) hword]
    exact .mark h

/-- Exchanging the separators leaves the longest lexeme the longest. -/
theorem Lexeme.IsLongest.of_map_eq (h : x.IsLongest word (word ++ rest))
    (hword : word'.map numeralChar = word.map numeralChar)
    (hrest : rest'.map numeralChar = rest.map numeralChar) :
    x.IsLongest word' (word' ++ rest') where
  written := h.written.of_map_eq hword
  isPrefix := ⟨rest', rfl⟩
  longest := by
    rintro y longer' hy ⟨behind, htext⟩
    -- the word at the same place of the other text
    have hsame : (word ++ rest).map numeralChar =
        longer'.map numeralChar ++ behind.map numeralChar := by
      rw [List.map_append, ← hword, ← hrest, ← List.map_append, ← htext, List.map_append]
    obtain ⟨longer, behind', hsplit, hlonger, -⟩ := List.map_eq_append_iff.mp hsame
    have hle := h.longest y longer (hy.of_map_eq hlonger) ⟨behind', hsplit.symm⟩
    have hlength := congrArg List.length hlonger
    have hlength' := congrArg List.length hword
    simp only [List.length_map] at hlength hlength'
    omega

end

end Fluxion
