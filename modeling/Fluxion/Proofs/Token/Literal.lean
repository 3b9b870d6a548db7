import Fluxion.Decimal
import Fluxion.Token
import Fluxion.Proofs.Decimal.ReadBack

/-!
# Numbers in a source text

What the positional notation writes is a literal, digits that a separator and more digits may
follow, and the scanner takes exactly this literal off the front of a text
(`Literal.scan_text_append`).  With a point for its separator a literal is a numeral, so no literal
is malformed (`Literal.IsWritten.value?_eq`).  The value of the literal is the number that its
numeral names (`Decimal.Numeral.value_literal`), so a finite number without a sign is read back from
its own digits (`Literal.scan_plainDigits`).
-/

set_option autoImplicit false

namespace Fluxion

/-- The digits behind the separator. -/
def Literal.fraction (l : Literal) : List Char := l.tail.drop 1

/-- The number that is written: the binary64 number nearest to all the digits, read as one whole
number, over a power of ten. -/
def Literal.value (l : Literal) : Float :=
  Decimal.nearest (Nat.ofDigitChars 10 (l.whole ++ l.fraction) 0) (Nat.pow 10 l.fraction.length)

/-- Digits, and then nothing or a separator and digits. -/
structure Literal.IsWritten (l : Literal) : Prop where
  whole_ne_nil : l.whole ≠ []
  whole : ∀ c ∈ l.whole, c.isDigit = true
  tail : l.tail = [] ∨ ∃ separator fraction, l.tail = separator :: fraction ∧
    isSeparator separator = true ∧ ∀ c ∈ fraction, c.isDigit = true

/-- Neither a digit nor a separator comes first, so a literal cannot go on here. -/
def Literal.Ends (rest : List Char) : Prop :=
  ∀ c ∈ rest.head?, c.isDigit = false ∧ isSeparator c = false

section

variable {p : Char → Bool} {word rest : List Char}

/-- A word before something else is all that is taken. -/
theorem takeWhile_append_eq (hword : ∀ c ∈ word, p c = true)
    (hrest : ∀ c ∈ rest.head?, p c = false) : (word ++ rest).takeWhile p = word := by
  rw [List.takeWhile_append_of_pos hword]
  cases rest with
  | nil => simp
  | cons c rest =>
    have hc := hrest c rfl
    simp [hc]

/-- A word before something else is all that is dropped. -/
theorem dropWhile_append_eq (hword : ∀ c ∈ word, p c = true)
    (hrest : ∀ c ∈ rest.head?, p c = false) : (word ++ rest).dropWhile p = rest := by
  rw [List.dropWhile_append_of_pos hword]
  cases rest with
  | nil => rfl
  | cons c rest =>
    have hc := hrest c rfl
    simp [hc]

end

/-- A decimal separator is no digit. -/
theorem isDigit_of_isSeparator {c : Char} (h : isSeparator c = true) : c.isDigit = false := by
  unfold isSeparator at h
  rw [Bool.or_eq_true, decide_eq_true_eq, decide_eq_true_eq] at h
  obtain rfl | rfl := h <;> rfl

/-- A row that begins with digits is a numeral if nothing but a point and digits comes behind. -/
theorem Decimal.Numeral.ofText?_append {whole tail : List Char} (hne : whole ≠ [])
    (hwhole : ∀ c ∈ whole, c.isDigit = true) (htail : tail = [] ∨ tail.head? = some '.')
    (hfraction : ∀ c ∈ tail.drop 1, c.isDigit = true) :
    Numeral.ofText? (whole ++ tail) =
      some ⟨Nat.ofDigitChars 10 (whole ++ tail.drop 1) 0, -((tail.drop 1).length : Int)⟩ := by
  have hhead : ∀ c ∈ tail.head?, c.isDigit = false := by
    intro c hc
    obtain rfl | hpoint := htail
    · cases hc
    · rw [hpoint] at hc
      obtain rfl := Option.some.inj hc
      rfl
  have hdigits : (whole ++ tail.drop 1).all Char.isDigit = true := by
    rw [List.all_append, List.all_eq_true.mpr hwhole, List.all_eq_true.mpr hfraction]
    rfl
  unfold Numeral.ofText?
  rw [takeWhile_append_eq hwhole hhead, dropWhile_append_eq hwhole hhead]
  exact if_pos ⟨List.append_ne_nil_of_left_ne_nil hne _, hdigits, htail⟩

/-- A digit is no decimal separator. -/
theorem isSeparator_of_isDigit {c : Char} (h : c.isDigit = true) : isSeparator c = false := by
  rw [Bool.eq_false_iff]
  intro hseparator
  rw [isDigit_of_isSeparator hseparator] at h
  cases h

/-- Without separators nothing is exchanged. -/
theorem map_numeralChar {row : List Char} (h : ∀ c ∈ row, isSeparator c = false) :
    row.map numeralChar = row := by
  have hkept : ∀ c ∈ row, numeralChar c = id c := fun c hc => if_neg (by simp [h c hc])
  rw [List.map_congr_left hkept, List.map_id]

/-- The characters of a written literal are a numeral, whose number is the value of the literal. -/
theorem Literal.IsWritten.value?_eq {l : Literal} (h : l.IsWritten) : l.value? = some l.value := by
  obtain ⟨whole, tail⟩ := l
  have hwhole : ∀ c ∈ whole, c.isDigit = true := h.whole
  have hkept : ∀ row : List Char, (∀ c ∈ row, c.isDigit = true) → row.map numeralChar = row :=
    fun row hrow => map_numeralChar fun c hc => isSeparator_of_isDigit (hrow c hc)
  -- behind the point stand the digits that stood behind the separator
  have htail : (tail.map numeralChar = [] ∨ (tail.map numeralChar).head? = some '.') ∧
      (tail.map numeralChar).drop 1 = tail.drop 1 ∧ ∀ c ∈ tail.drop 1, c.isDigit = true := by
    obtain htail | ⟨separator, fraction, htail, hseparator, hfraction⟩ := h.tail
    · obtain rfl : tail = [] := htail
      exact ⟨.inl rfl, rfl, by simp⟩
    · obtain rfl : tail = separator :: fraction := htail
      refine ⟨.inr ?_, hkept fraction hfraction, hfraction⟩
      rw [List.map_cons, List.head?_cons, numeralChar, if_pos hseparator]
  obtain ⟨hpoint, hdrop, hfraction⟩ := htail
  unfold value? text
  dsimp only
  rw [List.map_append, hkept whole hwhole,
    Decimal.Numeral.ofText?_append h.whole_ne_nil hwhole hpoint (hdrop ▸ hfraction), hdrop]
  unfold Decimal.Numeral.toFloat Decimal.Numeral.pattern Decimal.Numeral.numerator
    Decimal.Numeral.denominator
  simp [value, fraction, Decimal.nearest]

/-- The scanner takes a literal off the front of a text. -/
theorem Literal.scan_text_append {l : Literal} (h : l.IsWritten) {rest : List Char}
    (hrest : Literal.Ends rest) : Literal.scan (l.text ++ rest) = l := by
  obtain ⟨whole, tail⟩ := l
  have hdigit : ∀ c ∈ rest.head?, c.isDigit = false := fun c hc => (hrest c hc).1
  have hwhole : ∀ c ∈ whole, c.isDigit = true := h.whole
  unfold Literal.text Literal.scan
  dsimp only
  obtain htail | ⟨separator, fraction, htail, hseparator, hfraction⟩ := h.tail
  · obtain rfl : tail = [] := htail
    rw [List.append_nil, takeWhile_append_eq hwhole hdigit,
      dropWhile_append_eq hwhole hdigit]
    cases rest with
    | nil => rfl
    | cons c rest =>
      have hc := (hrest c rfl).2
      simp [hc]
  · obtain rfl : tail = separator :: fraction := htail
    have hhead : ∀ c ∈ (separator :: fraction ++ rest).head?, c.isDigit = false := by
      intro c hc
      obtain rfl : separator = c := Option.some.inj hc
      exact isDigit_of_isSeparator hseparator
    rw [List.append_assoc, takeWhile_append_eq hwhole hhead,
      dropWhile_append_eq hwhole hhead]
    simp only [List.cons_append, hseparator, if_true]
    rw [takeWhile_append_eq hfraction hdigit]

/-- The whole part of a number is the row of digits at the front. -/
theorem Literal.whole_scan (text : List Char) :
    (Literal.scan text).whole = text.takeWhile Char.isDigit := by
  unfold Literal.scan
  cases text.dropWhile Char.isDigit <;> rfl

/-- The scanner takes the literal off the front of the text. -/
theorem Literal.exists_append_of_scan (text : List Char) :
    ∃ rest, text = (Literal.scan text).text ++ rest := by
  have hwhole : text.takeWhile Char.isDigit ++ text.dropWhile Char.isDigit = text :=
    List.takeWhile_append_dropWhile
  unfold Literal.scan Literal.text
  cases hrest : text.dropWhile Char.isDigit with
  | nil =>
    rw [hrest] at hwhole
    exact ⟨[], by rw [List.append_nil, hwhole]⟩
  | cons c rest =>
    rw [hrest] at hwhole
    dsimp only
    split
    · refine ⟨rest.dropWhile Char.isDigit, ?_⟩
      rw [List.append_assoc, List.cons_append, List.takeWhile_append_dropWhile, hwhole]
    · exact ⟨c :: rest, by rw [List.append_nil, hwhole]⟩

/-- What is scanned at a digit is a number as it is written. -/
theorem Literal.isWritten_scan {c : Char} (hc : c.isDigit = true) (rest : List Char) :
    (Literal.scan (c :: rest)).IsWritten := by
  have htake : ∀ row : List Char, ∀ d ∈ row.takeWhile Char.isDigit, d.isDigit = true := by
    intro row d hd
    exact List.mem_takeWhile_imp hd
  constructor
  · simp [Literal.whole_scan, hc]
  · rw [Literal.whole_scan]
    exact htake _
  · unfold Literal.scan
    split
    · exact .inl rfl
    · rename_i separator rest' _
      dsimp only
      split
      · rename_i hseparator
        exact .inr ⟨separator, _, rfl, hseparator, htake _⟩
      · exact .inl rfl

namespace Decimal

/-- The digits of a number behind as many zeros as it takes to put one before the point. -/
def Numeral.padded (d : Numeral) : List Char :=
  List.replicate ((-d.exponent).toNat + 1 - (digitsOf d.digits).length) '0' ++ digitsOf d.digits

/-- The literal that the positional notation writes. -/
def Numeral.literal (d : Numeral) : Literal :=
  if 0 ≤ d.exponent then
    ⟨digitsOf d.digits ++ List.replicate d.exponent.toNat '0', []⟩
  else
    ⟨d.padded.take (d.padded.length - (-d.exponent).toNat),
      '.' :: d.padded.drop (d.padded.length - (-d.exponent).toNat)⟩

/-- The text of a numeral is its positional notation. -/
theorem Numeral.text_literal (d : Numeral) : d.literal.text = d.positional := by
  unfold Numeral.literal Numeral.positional Literal.text
  dsimp only
  split
  · rw [List.append_nil]
  · rfl

/-- The digits of a whole number are digits. -/
theorem isDigit_of_mem_digitsOf {n : Nat} {c : Char} (h : c ∈ digitsOf n) : c.isDigit = true :=
  Nat.isDigit_of_mem_toDigits (by decide) (by decide) h

/-- Zeros are digits. -/
theorem isDigit_of_mem_zeros {n : Nat} {c : Char} (h : c ∈ List.replicate n '0') :
    c.isDigit = true := by
  rw [List.eq_of_mem_replicate h]
  rfl

/-- The padded digits of a numeral are digits. -/
theorem Numeral.isDigit_of_mem_padded {d : Numeral} {c : Char} (h : c ∈ d.padded) :
    c.isDigit = true := by
  obtain h | h := List.mem_append.mp h
  · exact isDigit_of_mem_zeros h
  · exact isDigit_of_mem_digitsOf h

/-- The padded digits reach from the places behind the point to at least one before it. -/
theorem Numeral.length_padded (d : Numeral) : (-d.exponent).toNat + 1 ≤ d.padded.length := by
  unfold Numeral.padded
  rw [List.length_append, List.length_replicate]
  omega

/-- A numeral is written as a number. -/
theorem Numeral.isWritten_literal (d : Numeral) : d.literal.IsWritten := by
  have hlength := d.length_padded
  unfold Numeral.literal
  split
  · refine ⟨?_, ?_, .inl rfl⟩
    · exact List.append_ne_nil_of_left_ne_nil Nat.toDigits_ne_nil _
    · intro c hc
      obtain hc | hc := List.mem_append.mp hc
      · exact isDigit_of_mem_digitsOf hc
      · exact isDigit_of_mem_zeros hc
  · refine ⟨?_, ?_, .inr ⟨'.', _, rfl, rfl, ?_⟩⟩
    · refine List.ne_nil_of_length_pos ?_
      rw [List.length_take]
      omega
    · intro c hc
      exact isDigit_of_mem_padded (List.mem_of_mem_take hc)
    · intro c hc
      exact isDigit_of_mem_padded (List.mem_of_mem_drop hc)

/-- Padding with zeros leaves the value of the digits. -/
theorem Numeral.ofDigitChars_padded (d : Numeral) :
    Nat.ofDigitChars 10 d.padded 0 = d.digits := by
  unfold Numeral.padded digitsOf
  rw [Nat.ofDigitChars_append, Nat.ofDigitChars_replicate_zero, Nat.mul_zero,
    Nat.ofDigitChars_ten_toDigits]

/-- The literal that is written for a numeral has the value of the numeral. -/
theorem Numeral.value_literal (d : Numeral) : d.literal.value = d.toFloat := by
  have hlength := d.length_padded
  unfold Literal.value Numeral.toFloat Numeral.pattern nearest
  suffices h : Nat.ofDigitChars 10 (d.literal.whole ++ d.literal.fraction) 0 = d.numerator ∧
      Nat.pow 10 d.literal.fraction.length = d.denominator by
    rw [h.1, h.2]
  unfold Numeral.numerator Numeral.denominator Numeral.literal Literal.fraction
  split
  · rename_i hexponent
    have hnone : (-d.exponent).toNat = 0 := by omega
    rw [hnone, List.drop_nil, List.append_nil, Nat.ofDigitChars_append,
      Nat.ofDigitChars_replicate_zero, digitsOf, Nat.ofDigitChars_ten_toDigits]
    exact ⟨Nat.mul_comm _ _, rfl⟩
  · rename_i hexponent
    have hnone : d.exponent.toNat = 0 := by omega
    -- the fraction is what is left of the padded digits behind the point
    have hfraction : (d.padded.drop (d.padded.length - (-d.exponent).toNat)).length =
        (-d.exponent).toNat := by
      rw [List.length_drop]
      omega
    rw [hnone, List.drop_one, List.tail_cons, List.take_append_drop, hfraction,
      Numeral.ofDigitChars_padded]
    exact ⟨(Nat.mul_one _).symm, rfl⟩

end Decimal

/-- The digits of a number are read back as the number. -/
theorem Literal.scan_plainDigits {pattern : Nat} (h : pattern ≤ Decimal.infinityPattern)
    {rest : List Char} (hrest : Literal.Ends rest) :
    (Literal.scan (Decimal.plainDigits pattern ++ rest)).value = Decimal.ofPattern pattern ∧
      (Literal.scan (Decimal.plainDigits pattern ++ rest)).text = Decimal.plainDigits pattern := by
  unfold Decimal.plainDigits
  rw [← Decimal.Numeral.text_literal,
    Literal.scan_text_append (Decimal.Numeral.isWritten_literal _) hrest,
    Decimal.Numeral.value_literal, Decimal.Numeral.toFloat, Decimal.shortest_pattern h]
  exact ⟨rfl, rfl⟩

/-- A number that a text holds is finite or infinite, and never negative. -/
theorem Literal.pattern_value (l : Literal) :
    Decimal.isNegative l.value = false ∧
      Decimal.magnitudePattern l.value ≤ Decimal.infinityPattern := by
  unfold Literal.value Decimal.nearest
  have hbound : ∀ num den, Decimal.nearestPattern num den ≤ Decimal.infinityPattern :=
    fun num den => Nat.min_le_right _ _
  obtain ⟨hsign, hpattern⟩ := Decimal.pattern_ofPattern
    (hbound (Nat.ofDigitChars 10 (l.whole ++ l.fraction) 0) (Nat.pow 10 l.fraction.length))
  exact ⟨hsign, hpattern.trans_le (hbound _ _)⟩

end Fluxion
