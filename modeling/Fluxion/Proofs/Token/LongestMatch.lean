import Fluxion.Proofs.Token.Words

/-!
# The longest match

The reader of tokens finds the leftmost-longest decomposition of its text
(`Token.readFrom_iff_isDecomposed`): what stands at a point is a blank, or the longest word at this
point that is written like a lexeme, and the reading goes on behind it.  A text that has no such
decomposition is refused, where the reading has arrived at a character that begins no lexeme or at a
number that is not finite (`Token.readFrom_eq_error_iff`).

The tokens of a decomposition do not overlap, and all characters but the blanks belong to them
(`Token.IsDecomposed.existsUnique_covers_iff`).  Texts that differ in their separators only are read
as the same tokens.
-/

set_option autoImplicit false

namespace Fluxion

/-- A token and the characters that it stands for. -/
structure Occurrence where
  token : Token
  word : List Char

/-- The offset behind the last byte of a token. -/
def Occurrence.stop (o : Occurrence) : Nat := o.token.offset + byteLength o.word

/-- The byte at a place belongs to the token. -/
def Occurrence.Covers (o : Occurrence) (place : Nat) : Prop :=
  o.token.offset ≤ place ∧ place < o.stop

/-- The leftmost-longest decomposition of a text whose first byte has a given offset: at each point
a blank, or the longest word there, which has to stand for a finite lexeme. -/
inductive Token.IsDecomposed : Nat → List Char → List Occurrence → Prop where
  | nil (offset : Nat) : IsDecomposed offset [] []
  | blank {offset : Nat} {c : Char} {rest : List Char} {occurrences : List Occurrence}
    (h : Text.isBlank c = true) (hrest : IsDecomposed (offset + c.utf8Size) rest occurrences) :
    IsDecomposed offset (c :: rest) occurrences
  | lexeme {offset : Nat} {x : Lexeme} {word rest : List Char} {occurrences : List Occurrence}
    (h : x.IsLongest word (word ++ rest)) (hfinite : x.IsFinite)
    (hrest : IsDecomposed (offset + byteLength word) rest occurrences) :
    IsDecomposed offset (word ++ rest) (⟨⟨x, offset⟩, word⟩ :: occurrences)

namespace Token

variable {offset : Nat} {text text' : List Char} {tokens : List Token}
  {occurrences : List Occurrence}

/-- A text that is cut into tokens is decomposed into their occurrences. -/
theorem IsCut.exists_isDecomposed (h : IsCut offset text tokens) :
    ∃ occurrences, IsDecomposed offset text occurrences ∧ occurrences.map (·.token) = tokens := by
  induction h with
  | nil offset => exact ⟨[], .nil offset, rfl⟩
  | blank hblank hrest ih =>
    obtain ⟨occurrences, hoccurrences, htokens⟩ := ih
    exact ⟨occurrences, .blank hblank hoccurrences, htokens⟩
  | @lexeme offset c word rest x tokens hblank hscan hrest ih =>
    obtain ⟨occurrences, hoccurrences, htokens⟩ := ih
    obtain ⟨hlongest, hfinite⟩ := Lexeme.scan_eq_ok_iff.mp hscan
    exact ⟨_,
      @IsDecomposed.lexeme offset x (c :: word) rest occurrences hlongest hfinite hoccurrences,
      by rw [List.map_cons, htokens]⟩

/-- A text that is decomposed into occurrences is cut into their tokens. -/
theorem IsDecomposed.isCut (h : IsDecomposed offset text occurrences) :
    IsCut offset text (occurrences.map (·.token)) := by
  induction h with
  | nil offset => exact .nil offset
  | blank hblank hrest ih => exact .blank hblank ih
  | @lexeme offset x word rest occurrences hlongest hfinite hrest ih =>
    obtain ⟨c, tail, rfl⟩ := List.exists_cons_of_ne_nil hlongest.written.ne_nil
    have hblank := hlongest.written.isBlank_eq c List.mem_cons_self
    exact .lexeme hblank (Lexeme.scan_eq_ok_iff.mpr ⟨hlongest, hfinite⟩) ih

/-- The tokens that are read are those of the leftmost-longest decomposition. -/
theorem readFrom_iff_isDecomposed :
    readFrom offset text = .ok tokens ↔
      ∃ occurrences, IsDecomposed offset text occurrences ∧ occurrences.map (·.token) = tokens := by
  rw [readFrom_eq_ok_iff]
  constructor
  · exact IsCut.exists_isDecomposed
  · rintro ⟨occurrences, hoccurrences, rfl⟩
    exact hoccurrences.isCut

/-- An empty text has no occurrences. -/
theorem IsDecomposed.eq_nil (h : IsDecomposed offset [] occurrences) : occurrences = [] := by
  generalize htext : [] = text at h
  cases h with
  | nil offset => rfl
  | blank hblank hrest => cases htext
  | lexeme hlongest hfinite hrest =>
    exact absurd (List.append_eq_nil_iff.mp htext.symm).1 hlongest.written.ne_nil

/-- What a decomposition begins with: a blank, or the longest word. -/
theorem IsDecomposed.cons_cases {c : Char} {rest : List Char}
    (h : IsDecomposed offset (c :: rest) occurrences) :
    (Text.isBlank c = true ∧ IsDecomposed (offset + c.utf8Size) rest occurrences) ∨
    (Text.isBlank c = false ∧ ∃ (x : Lexeme) (word behind : List Char) (others : List Occurrence),
      c :: rest = word ++ behind ∧ x.IsLongest word (c :: rest) ∧
        occurrences = ⟨⟨x, offset⟩, word⟩ :: others ∧
        IsDecomposed (offset + byteLength word) behind others) := by
  generalize htext : c :: rest = text at h
  cases h with
  | nil offset => cases htext
  | blank hblank hrest =>
    cases htext
    exact .inl ⟨hblank, hrest⟩
  | @lexeme _ x word behind others hlongest hfinite hrest =>
    obtain ⟨first, tail, rfl⟩ := List.exists_cons_of_ne_nil hlongest.written.ne_nil
    obtain ⟨rfl, rfl⟩ := List.cons.inj htext
    have hblank := hlongest.written.isBlank_eq c List.mem_cons_self
    exact .inr ⟨hblank, x, c :: tail, behind, others, rfl, hlongest, rfl, hrest⟩

/-- A text has only one leftmost-longest decomposition. -/
theorem IsDecomposed.unique (h : IsDecomposed offset text occurrences)
    {occurrences' : List Occurrence} (h' : IsDecomposed offset text occurrences') :
    occurrences = occurrences' := by
  induction h generalizing occurrences' with
  | nil offset => exact h'.eq_nil.symm
  | blank hblank hrest ih =>
    obtain ⟨-, hrest'⟩ | ⟨hblank', -⟩ := h'.cons_cases
    · exact ih hrest'
    · rw [hblank] at hblank'
      cases hblank'
  | @lexeme offset x word rest others hlongest hfinite hrest ih =>
    obtain ⟨c, tail, rfl⟩ := List.exists_cons_of_ne_nil hlongest.written.ne_nil
    have hblank := hlongest.written.isBlank_eq c List.mem_cons_self
    obtain ⟨hblank', -⟩ | ⟨-, x', word', behind, others', htext, hlongest', rfl, hrest'⟩ :=
      h'.cons_cases
    · rw [hblank] at hblank'
      cases hblank'
    · obtain ⟨rfl, rfl⟩ := hlongest.unique hlongest'
      obtain rfl : rest = behind := by simpa using htext
      rw [ih hrest']

/-! ## Where the tokens are -/

/-- The tokens follow one another, none before the first byte. -/
theorem IsDecomposed.pairwise (h : IsDecomposed offset text occurrences) :
    (∀ o ∈ occurrences, offset ≤ o.token.offset) ∧
      occurrences.Pairwise fun o o' => o.stop ≤ o'.token.offset := by
  induction h with
  | nil offset => exact ⟨by simp, .nil⟩
  | blank hblank hrest ih =>
    exact ⟨fun o ho => (Nat.le_add_right _ _).trans (ih.1 o ho), ih.2⟩
  | lexeme hlongest hfinite hrest ih =>
    refine ⟨?_, List.pairwise_cons.mpr ⟨ih.1, ih.2⟩⟩
    rw [List.forall_mem_cons]
    exact ⟨Nat.le_refl _, fun o ho => (Nat.le_add_right _ _).trans (ih.1 o ho)⟩

/-- Each token stands for its characters, which begin at its offset. -/
theorem IsDecomposed.exists_split (h : IsDecomposed offset text occurrences) {o : Occurrence}
    (ho : o ∈ occurrences) :
    o.token.lexeme.IsWrittenAs o.word ∧ ∃ before after, text = before ++ (o.word ++ after) ∧
      o.token.offset = offset + byteLength before := by
  induction h with
  | nil offset => cases ho
  | @blank offset c rest occurrences hblank hrest ih =>
    obtain ⟨hwritten, before, after, rfl, hoffset⟩ := ih ho
    exact ⟨hwritten, c :: before, after, rfl, by rw [hoffset, byteLength_cons]; omega⟩
  | @lexeme offset x word rest occurrences hlongest hfinite hrest ih =>
    obtain rfl | ho := List.mem_cons.mp ho
    · exact ⟨hlongest.written, [], rest, rfl, rfl⟩
    · obtain ⟨hwritten, before, after, rfl, hoffset⟩ := ih ho
      refine ⟨hwritten, word ++ before, after, by rw [List.append_assoc], ?_⟩
      rw [hoffset, byteLength_append, Nat.add_assoc]

/-- An occurrence ends behind its start. -/
theorem IsDecomposed.lt_stop (h : IsDecomposed offset text occurrences) {o : Occurrence}
    (ho : o ∈ occurrences) : o.token.offset < o.stop := by
  obtain ⟨hwritten, -⟩ := h.exists_split ho
  obtain ⟨c, rest, hword⟩ := List.exists_cons_of_ne_nil hwritten.ne_nil
  have hsize := Char.utf8Size_pos c
  rw [Occurrence.stop, hword, byteLength_cons]
  omega

/-- A character belongs to a token unless it is blank. -/
theorem IsDecomposed.exists_covers_iff (h : IsDecomposed offset text occurrences)
    {before after : List Char} {c : Char} (htext : text = before ++ c :: after) :
    (∃ o ∈ occurrences, o.Covers (offset + byteLength before)) ↔ Text.isBlank c = false := by
  induction h generalizing before with
  | nil offset => simp at htext
  | @blank offset first rest occurrences hblank hrest ih =>
    cases before with
    | nil =>
      obtain ⟨rfl, rfl⟩ := List.cons.inj htext
      -- all tokens are behind the blank
      refine iff_of_false ?_ (by simp [hblank])
      rintro ⟨o, ho, hle, -⟩
      have hbehind := hrest.pairwise.1 o ho
      have hsize := Char.utf8Size_pos first
      rw [byteLength_nil] at hle
      omega
    | cons d before =>
      obtain ⟨rfl, hrest'⟩ := List.cons.inj htext
      rw [byteLength_cons, ← Nat.add_assoc]
      exact ih hrest'
  | @lexeme offset x word rest occurrences hlongest hfinite hrest ih =>
    have hbehind : ∀ between, before = word ++ between → rest = between ++ c :: after →
        ((∃ o ∈ (⟨⟨x, offset⟩, word⟩ : Occurrence) :: occurrences,
          o.Covers (offset + byteLength before)) ↔ Text.isBlank c = false) := by
      rintro between rfl hrest'
      rw [← ih hrest', byteLength_append, ← Nat.add_assoc, List.exists_mem_cons_iff]
      refine or_iff_right ?_
      rintro ⟨-, hlt⟩
      unfold Occurrence.stop at hlt
      dsimp only at hlt
      omega
    obtain ⟨between, hbefore, hrest'⟩ | ⟨between, hword, hafter⟩ :=
      List.append_eq_append_iff.mp htext
    · exact hbehind between hbefore hrest'
    · cases between with
      | nil => exact hbehind [] (by simpa using hword.symm) (by simpa using hafter.symm)
      | cons d between =>
        obtain ⟨rfl, -⟩ := List.cons.inj hafter
        have hsize := Char.utf8Size_pos c
        refine iff_of_true ⟨_, List.mem_cons_self, Nat.le_add_right _ _, ?_⟩
          (hlongest.written.isBlank_eq c (by simp [hword]))
        unfold Occurrence.stop
        rw [hword, byteLength_append, byteLength_cons]
        dsimp only
        omega

/-- A character that is not blank belongs to just one token. -/
theorem IsDecomposed.existsUnique_covers_iff (h : IsDecomposed offset text occurrences)
    {before after : List Char} {c : Char} (htext : text = before ++ c :: after) :
    (∃! o, o ∈ occurrences ∧ o.Covers (offset + byteLength before)) ↔ Text.isBlank c = false := by
  rw [← h.exists_covers_iff htext]
  constructor
  · rintro ⟨o, ⟨ho, hcovers⟩, -⟩
    exact ⟨o, ho, hcovers⟩
  · rintro ⟨o, ho, hcovers⟩
    refine ⟨o, ⟨ho, hcovers⟩, ?_⟩
    rintro o' ⟨ho', hcovers'⟩
    by_contra hne
    have hsymm : Std.Symm fun o₁ o₂ : Occurrence =>
        o₁.stop ≤ o₂.token.offset ∨ o₂.stop ≤ o₁.token.offset := ⟨fun _ _ => Or.symm⟩
    have happart : occurrences.Pairwise fun o₁ o₂ =>
        o₁.stop ≤ o₂.token.offset ∨ o₂.stop ≤ o₁.token.offset := h.pairwise.2.imp Or.inl
    obtain hle | hle := happart.forall ho' ho hne
    · exact absurd (hcovers'.2.trans_le hle) (Nat.not_lt.mpr hcovers.1)
    · exact absurd (hcovers.2.trans_le hle) (Nat.not_lt.mpr hcovers'.1)

/-! ## The two separators -/

/-- Texts that differ in their separators only are decomposed into the same tokens. -/
theorem IsDecomposed.exists_of_map_eq {offset : Nat} {text text' : List Char}
    {occurrences : List Occurrence} (h : IsDecomposed offset text occurrences)
    (htext : text'.map numeralChar = text.map numeralChar) :
    ∃ occurrences', IsDecomposed offset text' occurrences' ∧
      occurrences'.map (·.token) = occurrences.map (·.token) := by
  induction h generalizing text' with
  | nil offset =>
    obtain rfl := List.map_eq_nil_iff.mp htext
    exact ⟨[], .nil offset, rfl⟩
  | @blank offset c rest occurrences hblank hrest ih =>
    obtain ⟨c', rest', rfl, hsame, hrest'⟩ := List.map_eq_cons_iff.mp htext
    obtain ⟨occurrences', hoccurrences', htokens⟩ := ih hrest'
    refine ⟨occurrences', .blank ?_ ?_, htokens⟩
    · rw [← isBlank_numeralChar, hsame, isBlank_numeralChar, hblank]
    · rw [← utf8Size_numeralChar c', hsame, utf8Size_numeralChar]
      exact hoccurrences'
  | @lexeme offset x word rest occurrences hlongest hfinite hrest ih =>
    rw [List.map_append, List.map_eq_append_iff] at htext
    obtain ⟨word', rest', rfl, hword, hrest'⟩ := htext
    obtain ⟨occurrences', hoccurrences', htokens⟩ := ih hrest'
    have hlength : byteLength word' = byteLength word := by
      rw [← byteLength_map_numeralChar, hword, byteLength_map_numeralChar]
    refine ⟨_, .lexeme (hlongest.of_map_eq hword hrest') hfinite (hlength ▸ hoccurrences'), ?_⟩
    rw [List.map_cons, List.map_cons, htokens]

/-- Exchanging the separators of numbers does not change how a text is read. -/
theorem readFrom_of_map_eq {offset : Nat} {text text' : List Char} {tokens : List Token}
    (htext : text'.map numeralChar = text.map numeralChar)
    (h : readFrom offset text = .ok tokens) : readFrom offset text' = .ok tokens := by
  obtain ⟨occurrences, hoccurrences, rfl⟩ := readFrom_iff_isDecomposed.mp h
  exact readFrom_iff_isDecomposed.mpr (hoccurrences.exists_of_map_eq htext)

end Token

/-! ## What can be wrong -/

namespace Token

/-- What is left of a text at some point of its reading: it goes on behind a blank, and behind the
longest word if it stands for a finite lexeme. -/
inductive Reaches : List Char → List Char → Prop where
  | refl (text : List Char) : Reaches text text
  | blank {c : Char} {rest left : List Char} (h : Text.isBlank c = true)
    (hrest : Reaches rest left) : Reaches (c :: rest) left
  | lexeme {x : Lexeme} {word rest left : List Char} (h : x.IsLongest word (word ++ rest))
    (hfinite : x.IsFinite) (hrest : Reaches rest left) : Reaches (word ++ rest) left

/-- The reading does not go on where a text begins with a character that is neither a blank nor the
first of a lexeme, or with a number that is not finite. -/
inductive Refuses : List Char → ParseError → Prop where
  | character {c : Char} {rest : List Char} (hblank : Text.isBlank c = false)
    (h : ∀ (x : Lexeme) (word : List Char), x.IsWrittenAs word → ¬ word <+: c :: rest) :
    Refuses (c :: rest) ⟨.unrecognizedCharacter, false, c :: rest⟩
  | number {l : Literal} {left : List Char} (h : (Lexeme.number l.value).IsLongest l.text left)
    (hinfinite : l.value.isFinite = false) : Refuses left ⟨.numberOutOfRange, false, l.text⟩

variable {c : Char} {left : List Char} {e : ParseError}

/-- A text is refused where no lexeme can be scanned. -/
theorem refuses_of_scan {rest : List Char} (hblank : Text.isBlank c = false)
    (h : Lexeme.scan c rest = .error e) : Refuses (c :: rest) e := by
  by_cases hdigit : c.isDigit = true
  · rw [Lexeme.scan_digit hdigit] at h
    dsimp only at h
    split at h
    · cases h
    · rename_i hinfinite
      cases h
      exact .number (Lexeme.isLongest_number hdigit rest) (Bool.not_eq_true _ ▸ hinfinite)
  · unfold Lexeme.scan at h
    rw [if_neg hdigit] at h
    split at h
    · cases h
    · rename_i hstart
      split at h
      · cases h
      · rename_i hchar
        cases h
        refine .character hblank fun x word hword hbegins => ?_
        obtain ⟨d, tail, rfl⟩ := List.exists_cons_of_ne_nil hword.ne_nil
        obtain ⟨rfl, -⟩ := List.cons_prefix_cons.mp hbegins
        obtain ⟨hc, -⟩ | ⟨hc, -⟩ | ⟨hc, -⟩ := hword.head_cases
        · exact hdigit hc
        · exact hstart hc
        · rw [hchar] at hc
          cases hc

/-- A refused text begins with a character that is not blank. -/
theorem Refuses.exists_cons (h : Refuses left e) :
    ∃ c rest, left = c :: rest ∧ Text.isBlank c = false := by
  cases h with
  | @character c rest hblank h => exact ⟨c, rest, rfl, hblank⟩
  | number hlongest hinfinite =>
    obtain ⟨c, word, htext⟩ := List.exists_cons_of_ne_nil hlongest.written.ne_nil
    obtain ⟨rest, rfl⟩ := hlongest.isPrefix
    exact ⟨c, word ++ rest, by rw [htext, List.cons_append],
      hlongest.written.isBlank_eq c (by simp [htext])⟩

/-- The longest lexeme at the front of a refused text is no finite number. -/
theorem Refuses.not_isFinite (h : Refuses left e) {x : Lexeme} {word : List Char}
    (hlongest : x.IsLongest word left) : ¬ x.IsFinite := by
  cases h with
  | character hblank h => exact absurd hlongest.isPrefix (h x word hlongest.written)
  | number hlongest' hinfinite =>
    obtain ⟨rfl, -⟩ := hlongest.unique hlongest'
    exact Bool.eq_false_iff.mp hinfinite

/-- A text is refused for one reason. -/
theorem Refuses.unique (h : Refuses left e) {e' : ParseError} (h' : Refuses left e') : e = e' := by
  cases h with
  | character hblank h =>
    cases h' with
    | character => rfl
    | number hlongest => exact absurd hlongest.isPrefix (h _ _ hlongest.written)
  | number hlongest =>
    cases h' with
    | character hblank h => exact absurd hlongest.isPrefix (h _ _ hlongest.written)
    | number hlongest' =>
      obtain ⟨-, htext⟩ := hlongest.unique hlongest'
      rw [htext]

/-- A refused text is not read, for the same reason. -/
theorem Refuses.readFrom_eq (h : Refuses left e) (offset : Nat) :
    readFrom offset left = .error e := by
  obtain ⟨c, rest, rfl, hblank⟩ := h.exists_cons
  have hscan : Lexeme.scan c rest = .error e := by
    cases hscan : Lexeme.scan c rest with
    | error f => rw [(refuses_of_scan hblank hscan).unique h]
    | ok found =>
      obtain ⟨hlongest, hfinite⟩ := Lexeme.scan_eq_ok_iff.mp hscan
      exact absurd hfinite (h.not_isFinite hlongest)
  rw [readFrom, if_neg (by simp [hblank]), hscan]
  rfl

/-- The reading of a text stops where it is refused. -/
theorem readFrom_eq_error_iff {offset : Nat} {text : List Char} {e : ParseError} :
    readFrom offset text = .error e ↔ ∃ left, Reaches text left ∧ Refuses left e := by
  constructor
  · intro h
    induction offset, text using readFrom.induct with
    | case1 offset =>
      rw [readFrom] at h
      cases h
    | case2 offset c rest hblank ih =>
      rw [readFrom, if_pos hblank] at h
      obtain ⟨left, hleft, hrefuses⟩ := ih h
      exact ⟨left, .blank hblank hleft, hrefuses⟩
    | case3 offset c rest hblank ih =>
      rw [readFrom, if_neg hblank] at h
      cases hscan : Lexeme.scan c rest with
      | error f =>
        rw [hscan] at h
        cases h
        exact ⟨c :: rest, .refl _, refuses_of_scan (Bool.not_eq_true _ ▸ hblank) hscan⟩
      | ok found =>
        obtain ⟨x, written⟩ := found
        rw [hscan] at h
        obtain ⟨hlongest, hfinite⟩ := Lexeme.scan_eq_ok_iff.mp hscan
        obtain ⟨word, remaining, rfl, rfl⟩ := Lexeme.exists_rest_of_scan hscan
        cases htail : readFrom (offset + byteLength (c :: word))
            ((word ++ remaining).drop ((c :: word).length - 1)) with
        | error f =>
          simp only [bind, Except.bind, htail] at h
          cases h
          obtain ⟨left, hleft, hrefuses⟩ := ih _ htail
          rw [List.length_cons, Nat.add_sub_cancel, List.drop_left] at hleft
          exact ⟨left, @Reaches.lexeme x (c :: word) remaining left hlongest hfinite hleft,
            hrefuses⟩
        | ok tokens =>
          simp only [bind, Except.bind, htail] at h
          cases h
  · rintro ⟨left, hleft, hrefuses⟩
    induction hleft generalizing offset with
    | refl text => exact hrefuses.readFrom_eq offset
    | blank hblank hrest ih => rw [readFrom, if_pos hblank, ih hrefuses]
    | @lexeme x word rest left hlongest hfinite hrest ih =>
      obtain ⟨c, tail, rfl⟩ := List.exists_cons_of_ne_nil hlongest.written.ne_nil
      have hblank := hlongest.written.isBlank_eq c List.mem_cons_self
      have hscan : Lexeme.scan c (tail ++ rest) = .ok (x, c :: tail) :=
        Lexeme.scan_eq_ok_iff.mpr ⟨hlongest, hfinite⟩
      have hdrop : (tail ++ rest).drop ((c :: tail).length - 1) = rest := by simp
      rw [List.cons_append, readFrom, if_neg (by simp [hblank]), hscan]
      simp only [bind, Except.bind, hdrop, ih hrefuses]

/-- A text is refused for a character that begins no lexeme or for a number that is not finite. -/
theorem fault_of_readFrom {offset : Nat} {text : List Char} {e : ParseError}
    (h : readFrom offset text = .error e) :
    e.fault = .unrecognizedCharacter ∨ e.fault = .numberOutOfRange := by
  obtain ⟨left, -, hrefuses⟩ := readFrom_eq_error_iff.mp h
  cases hrefuses with
  | character => exact .inl rfl
  | number => exact .inr rfl

/-- The tokens of a text are those of its leftmost-longest decomposition, and a text that has none
is refused.  There is only one decomposition.  Its tokens begin at offsets that grow, each between
two characters with the characters of its lexeme behind it, and a character belongs to just one of
them unless it is blank.  A point and a comma are interchangeable, and no number is malformed. -/
theorem read_leftmost_longest :
    (∀ (source : String) (tokens : List Token), read source = .ok tokens ↔
      ∃ occurrences, IsDecomposed 0 source.toList occurrences ∧
        occurrences.map (·.token) = tokens) ∧
    (∀ (source : String) (occurrences : List Occurrence),
      IsDecomposed 0 source.toList occurrences →
        (∀ others, IsDecomposed 0 source.toList others → others = occurrences) ∧
        (occurrences.Pairwise fun o o' => o.token.offset < o'.token.offset) ∧
        (∀ o ∈ occurrences, o.token.lexeme.IsWrittenAs o.word ∧
          ∃ before after, source.toList = before ++ (o.word ++ after) ∧
            o.token.offset = byteLength before) ∧
        ∀ (before : List Char) (c : Char) (after : List Char),
          source.toList = before ++ c :: after →
            ((∃! o, o ∈ occurrences ∧ o.Covers (byteLength before)) ↔ Text.isBlank c = false)) ∧
    (∀ source source' : String,
      source'.toList.map numeralChar = source.toList.map numeralChar →
        ∀ tokens, read source' = .ok tokens ↔ read source = .ok tokens) ∧
    ∀ (source : String) (e : ParseError), read source = .error e → e.fault ≠ .malformedNumber := by
  refine ⟨fun source tokens => readFrom_iff_isDecomposed, ?_, ?_, ?_⟩
  · intro source occurrences h
    refine ⟨fun others hothers => hothers.unique h, ?_, ?_, ?_⟩
    · refine h.pairwise.2.imp_of_mem fun ho _ hle => ?_
      exact (h.lt_stop ho).trans_le hle
    · intro o ho
      simpa using h.exists_split ho
    · intro before c after htext
      simpa using h.existsUnique_covers_iff htext
  · intro source source' htext tokens
    exact ⟨readFrom_of_map_eq htext.symm, readFrom_of_map_eq htext⟩
  · intro source e h heq
    obtain hfault | hfault := fault_of_readFrom h <;> rw [heq] at hfault <;> cases hfault

/-- A decimal comma behind a blank of two bytes, with a name right behind the number. -/
theorem read_leftmost_longest_comma :
    let source := "\u00a02,5x_1'"
    let tokens : List Token := [⟨.number 2.5, 2⟩, ⟨.identifier "x_1", 5⟩, ⟨.apostrophe, 8⟩]
    (∃ occurrences, IsDecomposed 0 source.toList occurrences ∧
      occurrences.map (·.token) = tokens ∧ ∃! o, o ∈ occurrences ∧ o.Covers 4) ∧
    read "\u00a02.5x_1'" = .ok tokens ∧
    ∃ e, read "x , y" = .error e ∧ e.fault ≠ .malformedNumber := by
  intro source tokens
  obtain ⟨hread, hplaces, hseparators, hfaults⟩ := read_leftmost_longest
  have htext : source.toList = ['\u00a0', '2', ',', '5', 'x', '_', '1', '\x27'] := by cbv
  have htokens : read source = .ok tokens := by
    have hvalue : (Literal.scan ['2', ',', '5', 'x', '_', '1', '\x27']).value = 2.5 := by
      decide +kernel
    have hnumber : Lexeme.scan '2' [',', '5', 'x', '_', '1', '\x27'] =
        .ok (.number 2.5, ['2', ',', '5']) := by
      rw [Lexeme.scan_digit (by decide)]
      dsimp only
      rw [hvalue]
      rfl
    have hrest : readFrom 5 ['x', '_', '1', '\x27'] =
        .ok [⟨.identifier "x_1", 5⟩, ⟨.apostrophe, 8⟩] := by cbv
    rw [read, htext]
    refine readFrom_eq_ok_iff.mpr (.blank (by decide) ?_)
    exact @IsCut.lexeme 2 '2' [',', '5'] ['x', '_', '1', '\x27'] _ _ (by decide) hnumber
      (readFrom_eq_ok_iff.mp hrest)
  obtain ⟨occurrences, hoccurrences, hmap⟩ := (hread source tokens).mp htokens
  obtain ⟨-, -, -, hcovers⟩ := hplaces source occurrences hoccurrences
  refine ⟨⟨occurrences, hoccurrences, hmap, ?_⟩, ?_, ?_⟩
  · exact (hcovers ['\u00a0', '2', ','] '5' ['x', '_', '1', '\x27'] htext).mpr (by decide)
  · exact (hseparators source "\u00a02.5x_1'" (by decide) tokens).mpr htokens
  · have herror : read "x , y" = .error ⟨.unrecognizedCharacter, false, [',', ' ', 'y']⟩ := by cbv
    exact ⟨_, herror, hfaults _ _ herror⟩

end Token

end Fluxion
