import Fluxion.Proofs.Statement.ViablePrefix
import Fluxion.Proofs.Token.LongestMatch

/-!
# What an error shows of the text

The error for a text shows what is left of it where it was not understood.  A fault that the
reader of statements finds has the offset of one of its tokens, that of the token it refuses or of
the first token of a clause, and behind the refused token no continuation succeeds; without an
offset the tokens have all been read, and a continuation would succeed (`Reader.outcome_of_run`).
The offset of a token is the length of the text before it, so what is left there is a suffix of the
text at which the reading of tokens has arrived (`Token.IsDecomposed.exists_reaches`).

The reader of tokens shows what is left as well, but for a number that is not finite, of which it
shows the characters and not what follows them.
-/

set_option autoImplicit false

namespace Fluxion

/-- A token begins here: the longest word is that of a finite lexeme. -/
def Token.Starts (left : List Char) : Prop :=
  ∃ (x : Lexeme) (word : List Char), x.IsLongest word left ∧ x.IsFinite

/-! ## Tokens and what is left at them -/

namespace Token

variable {offset : Nat} {text left : List Char} {occurrences : List Occurrence}

/-- At the end of a text nothing starts. -/
theorem Starts.ne_nil (h : Starts left) : left ≠ [] := by
  obtain ⟨x, word, hlongest, -⟩ := h
  rintro rfl
  exact hlongest.written.ne_nil (List.prefix_nil.mp hlongest.isPrefix)

/-- What the cutting reaches is a suffix of the text. -/
theorem Reaches.isSuffix (h : Reaches text left) : left <:+ text := by
  induction h with
  | refl text => exact List.suffix_rfl
  | blank hblank hrest ih => exact ih.trans (List.suffix_cons _ _)
  | lexeme hlongest hfinite hrest ih => exact ih.trans (List.suffix_append _ _)

/-- The reading arrives at each token, and the offset counts what it has left behind. -/
theorem IsDecomposed.exists_reaches (h : IsDecomposed offset text occurrences) {o : Occurrence}
    (ho : o ∈ occurrences) :
    ∃ before left, text = before ++ left ∧ Reaches text left ∧ Starts left ∧
      o.token.offset = offset + byteLength before := by
  induction h with
  | nil offset => cases ho
  | @blank offset c rest occurrences hblank hrest ih =>
    obtain ⟨before, left, rfl, hreaches, hstarts, hoffset⟩ := ih ho
    exact ⟨c :: before, left, rfl, .blank hblank hreaches, hstarts,
      by rw [hoffset, byteLength_cons]; omega⟩
  | @lexeme offset x word rest occurrences hlongest hfinite hrest ih =>
    obtain rfl | ho := List.mem_cons.mp ho
    · exact ⟨[], word ++ rest, rfl, .refl _, ⟨x, word, hlongest, hfinite⟩, rfl⟩
    · obtain ⟨before, left, rfl, hreaches, hstarts, hoffset⟩ := ih ho
      refine ⟨word ++ before, left, by rw [List.append_assoc], .lexeme hlongest hfinite hreaches,
        hstarts, ?_⟩
      rw [hoffset, byteLength_append, Nat.add_assoc]

/-- The place of every token is reached, and something starts there. -/
theorem reaches_of_read {source : String} {tokens : List Token} (h : read source = .ok tokens)
    {t : Token} (ht : t ∈ tokens) :
    Reaches source.toList (dropBytes t.offset source.toList) ∧
      Starts (dropBytes t.offset source.toList) := by
  obtain ⟨occurrences, hoccurrences, rfl⟩ := readFrom_iff_isDecomposed.mp h
  obtain ⟨o, ho, rfl⟩ := List.mem_map.mp ht
  obtain ⟨before, left, htext, hreaches, hstarts, hoffset⟩ := hoccurrences.exists_reaches ho
  have hleft : dropBytes o.token.offset source.toList = left := by
    rw [hoffset, Nat.zero_add, htext, dropBytes_append]
  rw [hleft]
  exact ⟨hreaches, hstarts⟩

/-- A text without tokens is blank. -/
theorem trimmed_of_read {source : String} (h : read source = .ok []) :
    Text.trimmed source.toList = [] := by
  have hblank : ∀ c ∈ source.toList, Text.isBlank c = true := by
    obtain ⟨occurrences, hoccurrences, htokens⟩ := readFrom_iff_isDecomposed.mp h
    obtain rfl := List.map_eq_nil_iff.mp htokens
    intro c hc
    obtain ⟨before, after, htext⟩ := List.append_of_mem hc
    by_contra hcovered
    obtain ⟨o, ho, -⟩ := (hoccurrences.exists_covers_iff htext).mpr (Bool.not_eq_true _ ▸ hcovered)
    cases ho
  unfold Text.trimmed
  rw [List.dropWhile_eq_nil_iff.mpr hblank]
  rfl

end Token

/-! ## Where the reader of statements stops -/

/-- The faults of the reader of statements. -/
def readerFaults : List ParseFault :=
  [.unexpectedToken, .repeatedSign, .negatedZero, .missingParenthesis, .invalidTarget]

namespace Reader

/-- What reading a lexeme comes to: the clause goes on or another clause begins, or there is a fault
of the reader. -/
def Proceeds (r : Reader) : Except ParseFault Reader → Prop
  | .ok r' => r'.start = r.start ∨ r'.start = none
  | .error fault => fault ∈ readerFaults

variable (r : Reader) (negated : Bool) (tree sum : Expr Float) (tail : AtomTail) (lexeme : Lexeme)

/-- Reading an operand goes on with the clause, or finds a fault of the reader. -/
theorem proceeds_readOperand : r.Proceeds (r.readOperand negated lexeme) := by
  have hzero : ParseFault.negatedZero ∈ readerFaults := by decide
  have hsign : ParseFault.repeatedSign ∈ readerFaults := by decide
  have htoken : ParseFault.unexpectedToken ∈ readerFaults := by decide
  unfold readOperand
  split
  · split
    · exact .inl rfl
    · split
      · exact hzero
      · exact .inl rfl
  · split <;> exact .inl rfl
  · exact .inl rfl
  · split
    · exact hsign
    · exact .inl rfl
  · exact htoken

/-- Reading a boundary goes on with the clause or begins the other one, or finds a fault of the
reader. -/
theorem proceeds_readBoundary : r.Proceeds (r.readBoundary sum lexeme) := by
  have htarget : ParseFault.invalidTarget ∈ readerFaults := by decide
  have hparenthesis : ParseFault.missingParenthesis ∈ readerFaults := by decide
  have htoken : ParseFault.unexpectedToken ∈ readerFaults := by decide
  unfold readBoundary
  split
  · exact .inl rfl
  · split
    · exact .inr rfl
    · exact htarget
  · exact hparenthesis
  · exact htoken

/-- Reading what follows an atom goes on with the clause or ends it, or finds a fault of the
reader. -/
theorem proceeds_readAfterAtom : r.Proceeds (r.readAfterAtom negated tree tail lexeme) := by
  unfold readAfterAtom
  split
  · exact .inl rfl
  · exact .inl rfl
  · exact .inl rfl
  · dsimp only
    split
    · exact .inl rfl
    · exact proceeds_readBoundary r _ lexeme

/-- Whatever is expected, the faults of reading a lexeme are those of the reader. -/
theorem proceeds_readLexeme : r.Proceeds (r.readLexeme lexeme) := by
  unfold readLexeme
  split
  · exact proceeds_readOperand r _ lexeme
  · exact proceeds_readAfterAtom r _ _ _ lexeme

variable {r} {r' : Reader} {t : Token} {f : ReadFault} {tokens : List Token} {place : Nat}

/-- The place where a clause starts is that of its first token. -/
theorem start_cases (h : r.start.getD t.offset = place) :
    r.start = some place ∨ t.offset = place := by
  cases hstart : r.start with
  | none =>
    rw [hstart] at h
    exact .inr h
  | some start =>
    rw [hstart] at h
    exact .inl (congrArg some h)

/-- A clause starts where it did before, or at the token that has been read. -/
theorem start_of_read (h : r.read t = .ok r') (hstart : r'.start = some place) :
    r.start = some place ∨ t.offset = place := by
  have hproceeds := proceeds_readLexeme (r.begin t) t.lexeme
  unfold read at h
  split at h
  · rename_i hread
    cases h
    rw [hread] at hproceeds
    obtain hkept | hnone := hproceeds
    · exact start_cases (Option.some.inj (hkept.symm.trans hstart))
    · rw [hnone] at hstart
      cases hstart
  · cases h

/-- A fault in reading a token stands at the token or at the start of its clause. -/
theorem fault_of_read (h : r.read t = .error f) :
    f.fault ∈ readerFaults ∧
      ∃ place, f.offset = some place ∧ (r.start = some place ∨ t.offset = place) := by
  have hproceeds := proceeds_readLexeme (r.begin t) t.lexeme
  unfold read at h
  split at h
  · cases h
  · rename_i hread
    cases h
    rw [hread] at hproceeds
    refine ⟨hproceeds, _, rfl, ?_⟩
    unfold faultOffset
    split
    · exact start_cases rfl
    · exact .inr rfl

/-- At the end the reader finds its own faults only. -/
theorem fault_of_finish (h : r.finish = .error f) : f.fault ∈ readerFaults := by
  unfold finish at h
  split at h <;> cases h <;> decide

/-- How a run fails.  Either it has read all tokens, and would succeed with some more; or a token is
refused, whatever follows, and the fault is reported there or at the start of a clause. -/
theorem outcome_of_run (h : r.run tokens = .error f) :
    f.fault ∈ readerFaults ∧
      ((f.offset = none ∧ ∃ more s, r.run (tokens ++ more) = .ok s) ∨
        ∃ place, f.offset = some place ∧ (r.start = some place ∨ ∃ t ∈ tokens, t.offset = place) ∧
          ∀ more, r.run (tokens ++ more) = .error f) := by
  induction tokens generalizing r with
  | nil => exact ⟨fault_of_finish h, .inl ⟨offset_of_finish h, exists_run r⟩⟩
  | cons t rest ih =>
    cases hread : r.read t with
    | error own =>
      have hrun : ∀ more, r.run (t :: more) = .error own := fun more => by rw [run, hread]
      rw [hrun] at h
      cases h
      obtain ⟨hfault, place, hoffset, hplace⟩ := fault_of_read hread
      exact ⟨hfault, .inr ⟨place, hoffset, hplace.imp_right fun ht => ⟨t, List.mem_cons_self, ht⟩,
        fun more => hrun (rest ++ more)⟩⟩
    | ok r' =>
      rw [run_cons hread] at h
      simp only [List.cons_append, run_cons hread]
      obtain ⟨hfault, hend | ⟨place, hoffset, hplace, hrefused⟩⟩ := ih h
      · exact ⟨hfault, .inl hend⟩
      · refine ⟨hfault, .inr ⟨place, hoffset, ?_, hrefused⟩⟩
        -- the clause may have started with the token that was read first
        obtain hstart | ⟨u, hu, huplace⟩ := hplace
        · exact (start_of_read hread hstart).imp_right fun ht => ⟨t, List.mem_cons_self, ht⟩
        · exact .inr ⟨u, List.mem_cons_of_mem _ hu, huplace⟩

end Reader

/-! ## Texts -/

namespace Statement

variable {source : String} {e : ParseError}

/-- What refuses a text: the reader of tokens, the lack of tokens, or the reader of statements. -/
theorem parse_error_cases (h : parse source = .error e) :
    Token.read source = .error e ∨
      (Token.read source = .ok [] ∧ e = ⟨.emptyExpression, false, Text.trimmed source.toList⟩) ∨
      ∃ tokens f, Token.read source = .ok tokens ∧ ofTokens tokens = .error f ∧
        e = f.toError source := by
  unfold parse at h
  cases hread : Token.read source with
  | error own =>
    rw [hread] at h
    cases h
    exact .inl rfl
  | ok tokens =>
    rw [hread] at h
    cases tokens with
    | nil =>
      cases h
      exact .inr (.inl ⟨rfl, rfl⟩)
    | cons t rest =>
      cases hrun : ofTokens (t :: rest) with
      | ok s => simp [bind, Except.bind, hrun, Except.mapError] at h
      | error f =>
        refine .inr (.inr ⟨t :: rest, f, rfl, hrun, ?_⟩)
        simpa [bind, Except.bind, hrun, Except.mapError, eq_comm] using h

/-- What the error for a text shows of it: what the reader of tokens refuses; nothing, if a longer
text could be a statement; or what is left at a token. -/
inductive Shows (source : String) (e : ParseError) : Prop where
  | unread {left : List Char} (hreaches : Token.Reaches source.toList left)
    (hrefuses : Token.Refuses left e)
  | ended {tokens : List Token} (hread : Token.read source = .ok tokens) (hbegins : Begins tokens)
    (hfault : e.fault ∈ .emptyExpression :: readerFaults) (hremaining : e.remaining = [])
    (hend : e.atEnd = true ∨ e.fault = .emptyExpression)
  | refused {tokens : List Token} (hread : Token.read source = .ok tokens)
    (hbegins : ¬ Begins tokens) (hfault : e.fault ∈ readerFaults)
    (hreaches : Token.Reaches source.toList e.remaining) (hstarts : Token.Starts e.remaining)
    (hend : e.atEnd = false)

/-- A fault of the reader shows the rest of the text from a token on, or nothing. -/
theorem shows_of_toError {tokens : List Token} {f : ReadFault}
    (hread : Token.read source = .ok tokens) (hrun : ofTokens tokens = .error f) :
    Shows source (f.toError source) := by
  obtain ⟨hfault, ⟨hoffset, hbegins⟩ | ⟨place, hoffset, hplace, hrefused⟩⟩ :=
    Reader.outcome_of_run hrun
  · have herror : f.toError source = ⟨f.fault, true, []⟩ := by rw [ReadFault.toError, hoffset]
    rw [herror]
    exact .ended hread hbegins (List.mem_cons_of_mem _ hfault) rfl (.inl rfl)
  · have herror : f.toError source = ⟨f.fault, false, dropBytes place source.toList⟩ := by
      rw [ReadFault.toError, hoffset]
    obtain hstart | ⟨t, ht, rfl⟩ := hplace
    · cases hstart
    · obtain ⟨hreaches, hstarts⟩ := Token.reaches_of_read hread ht
      rw [herror]
      refine .refused hread ?_ hfault hreaches hstarts rfl
      rintro ⟨more, s, hbegins⟩
      cases (hrefused more).symm.trans hbegins

/-- Every error of a text shows a part of it as described. -/
theorem shows_of_parse (h : parse source = .error e) : Shows source e := by
  obtain hread | ⟨hread, rfl⟩ | ⟨tokens, f, hread, hrun, rfl⟩ := parse_error_cases h
  · obtain ⟨left, hreaches, hrefuses⟩ := Token.readFrom_eq_error_iff.mp hread
    exact .unread hreaches hrefuses
  · exact .ended hread (Reader.exists_run {}) List.mem_cons_self (Token.trimmed_of_read hread)
      (.inr rfl)
  · exact shows_of_toError hread hrun

/-- What is left of a text, in its error.  Unless a number is not finite, the error shows a suffix
of the text: nothing, or what is left where the reading of tokens has arrived at a token or at a
character that begins none.  For a number that is not finite it shows the characters of the number,
without what follows them.  It shows nothing exactly if the fault is at the end of the text: the
tokens of the text begin some statement. -/
theorem remaining_of_parse (source : String) (e : ParseError) (h : parse source = .error e) :
    (e.fault ≠ .numberOutOfRange →
      e.remaining <:+ source.toList ∧
        (e.remaining = [] ∨ Token.Reaches source.toList e.remaining ∧
          (Token.Starts e.remaining ∨
            e.fault = .unrecognizedCharacter ∧ Token.Refuses e.remaining e))) ∧
    (e.fault = .numberOutOfRange → ∃ (l : Literal) (rest : List Char),
      Token.Reaches source.toList (l.text ++ rest) ∧
        (Lexeme.number l.value).IsLongest l.text (l.text ++ rest) ∧ l.value.isFinite = false ∧
        e.remaining = l.text) ∧
    (e.remaining = [] ↔ ∃ tokens, Token.read source = .ok tokens ∧ Begins tokens) ∧
    (e.remaining = [] ↔ e.atEnd = true ∨ e.fault = .emptyExpression) := by
  cases shows_of_parse h with
  | unread hreaches hrefuses =>
    have hread : Token.read source = .error e :=
      Token.readFrom_eq_error_iff.mpr ⟨_, hreaches, hrefuses⟩
    have hnone : ¬ ∃ tokens, Token.read source = .ok tokens ∧ Begins tokens := by
      rintro ⟨tokens, htokens, -⟩
      cases hread.symm.trans htokens
    cases hrefuses with
    | character hblank hnoword =>
      refine ⟨fun _ => ⟨hreaches.isSuffix, .inr ⟨hreaches, .inr ⟨rfl, .character hblank hnoword⟩⟩⟩,
        ?_, iff_of_false (List.cons_ne_nil _ _) hnone, iff_of_false (List.cons_ne_nil _ _) ?_⟩
      · simp
      · simp
    | @number l left hlongest hinfinite =>
      obtain ⟨rest, rfl⟩ := hlongest.isPrefix
      have hne : l.text ≠ [] := hlongest.written.ne_nil
      refine ⟨fun hfault => absurd rfl hfault,
        fun _ => ⟨l, rest, hreaches, hlongest, hinfinite, rfl⟩, iff_of_false hne hnone,
        iff_of_false hne ?_⟩
      simp
  | ended hread hbegins hfault hremaining hend =>
    refine ⟨fun _ => ⟨?_, .inl hremaining⟩, ?_, iff_of_true hremaining ⟨_, hread, hbegins⟩,
      iff_of_true hremaining hend⟩
    · rw [hremaining]
      exact List.nil_suffix
    · intro hinfinite
      rw [hinfinite] at hfault
      exact absurd hfault (by decide)
  | refused hread hbegins hfault hreaches hstarts hend =>
    have hne := hstarts.ne_nil
    refine ⟨fun _ => ⟨hreaches.isSuffix, .inr ⟨hreaches, .inl hstarts⟩⟩, ?_, iff_of_false hne ?_,
      iff_of_false hne ?_⟩
    · intro hinfinite
      rw [hinfinite] at hfault
      exact absurd hfault (by decide)
    · rintro ⟨tokens, htokens, hbegins'⟩
      cases hread.symm.trans htokens
      exact hbegins hbegins'
    · rintro (htrue | hempty)
      · rw [hend] at htrue
        cases htrue
      · rw [hempty] at hfault
        exact absurd hfault (by decide)

/-- A sum that is assigned to: what is left at the start of its clause is shown. -/
theorem remaining_of_parse_sum :
    let left := "a + b = c".toList
    parse "z = a + b = c" = .error ⟨.invalidTarget, false, left⟩ ∧
      left <:+ "z = a + b = c".toList ∧ Token.Reaches "z = a + b = c".toList left ∧
        Token.Starts left := by
  intro left
  have hparse : parse "z = a + b = c" = .error ⟨.invalidTarget, false, left⟩ := by cbv
  obtain ⟨hsuffix, hnil | ⟨hreaches, hstarts | ⟨hfault, -⟩⟩⟩ :=
    (remaining_of_parse _ _ hparse).1 (by decide)
  · exact absurd hnil (by decide)
  · exact ⟨hparse, hsuffix, hreaches, hstarts⟩
  · cases hfault

/-- A number that is not finite is shown alone, whatever follows it. -/
theorem parse_infinite {l : Literal} (h : l.IsWritten) {rest : List Char}
    (hrest : Literal.Ends rest) (hinfinite : l.value.isFinite = false) :
    parse (String.ofList (l.text ++ rest)) = .error ⟨.numberOutOfRange, false, l.text⟩ := by
  obtain ⟨c, digits, hwhole⟩ := List.exists_cons_of_ne_nil h.whole_ne_nil
  have htext : l.text ++ rest = c :: (digits ++ l.tail ++ rest) := by
    rw [Literal.text, hwhole, List.cons_append, List.cons_append]
  have hlongest : (Lexeme.number l.value).IsLongest l.text (l.text ++ rest) := by
    have hdigit : c.isDigit = true := h.whole c (by simp [hwhole])
    have hscanned := Lexeme.isLongest_number hdigit (digits ++ l.tail ++ rest)
    rwa [← htext, Literal.scan_text_append h hrest] at hscanned
  have hread : Token.read (String.ofList (l.text ++ rest)) =
      .error ⟨.numberOutOfRange, false, l.text⟩ := by
    refine Token.readFrom_eq_error_iff.mpr ⟨l.text ++ rest, ?_, .number hlongest hinfinite⟩
    rw [String.toList_ofList]
    exact .refl _
  rw [parse, hread]
  rfl

/-- A number that is not finite is shown without the sum that it begins, and is no suffix of it. -/
theorem remaining_of_parse_infinite :
    let l : Literal := ⟨'1' :: List.replicate 309 '0', []⟩
    let text := l.text ++ [' ', '+', ' ', 'x']
    parse (String.ofList text) = .error ⟨.numberOutOfRange, false, l.text⟩ ∧ ¬ l.text <:+ text := by
  intro l text
  have hdigits : ∀ c ∈ l.whole, c.isDigit = true := by
    intro c hc
    obtain rfl | hc := List.mem_cons.mp hc
    · rfl
    · obtain rfl := List.eq_of_mem_replicate hc
      rfl
  have hwritten : l.IsWritten := ⟨List.cons_ne_nil _ _, hdigits, .inl rfl⟩
  have hends : Literal.Ends [' ', '+', ' ', 'x'] := by
    rintro c ⟨⟩
    decide
  refine ⟨parse_infinite hwritten hends (by decide +kernel), fun hsuffix => ?_⟩
  have htext : text = l.text ++ [' ', '+', ' '] ++ ['x'] :=
    (List.append_assoc l.text [' ', '+', ' '] ['x']).symm
  rw [htext, List.suffix_concat_iff] at hsuffix
  obtain hnil | ⟨front, hlast, -⟩ := hsuffix
  · exact absurd hnil (List.cons_ne_nil _ _)
  · have hx : 'x' ∈ l.text := by
      rw [hlast]
      exact List.mem_append_right _ List.mem_cons_self
    obtain hx | hx := List.mem_append.mp hx
    · exact absurd (hdigits 'x' hx) (by decide)
    · cases hx

end Statement

end Fluxion
