import Fluxion.Proofs.Statement.Completeness
import Fluxion.Proofs.Token.Spelling
import Fluxion.Statement

/-!
# Faults are reported at the first hopeless token

A row of tokens is hopeful if some statement begins with it (`Statement.Begins`).  Whatever the
reader has read can be completed: an operand, where one has to follow, and then a closing
parenthesis for each that is open (`Reader.exists_run`).  So a token that the reader accepts leaves
the row hopeful, and since the reader goes through the tokens once, no row goes on behind a token
that it refuses.  By induction on the tokens, a fault is found at the first token behind which there
is no hope, or at the end of the input (`Reader.exists_split_of_run`).

A wrong target of an assignment is reported at the start of its clause, and is left out.

A text reports a fault by what is left of it from the token on.  The texts that are left at its
tokens are all different, so the report names one place (`Token.nodup_of_read`).
-/

set_option autoImplicit false

namespace Fluxion

/-- Some statement begins with these tokens. -/
def Statement.Begins (tokens : List Token) : Prop :=
  ∃ more s, Statement.ofTokens (tokens ++ more) = .ok s

/-- The tokens before a place begin a statement, and with the token at the place, if it is not the
end of the input, they do not. -/
def Statement.StopsAt (before after : List Token) : Prop :=
  Statement.Begins before ∧ ∀ t rest, after = t :: rest → ¬ Statement.Begins (before ++ [t])

/-- A fault is reported at the first of these tokens, or at the end of the input if there are
none. -/
def ReadFault.PointsAt (f : ReadFault) (after : List Token) : Prop :=
  f.offset = after.head?.map (·.offset)

/-- An error shows the text from the first of these tokens on, or that the text ended if there are
none. -/
def ParseError.PointsAt (e : ParseError) (source : String) : List Token → Prop
  | [] => e.atEnd = true ∧ e.remaining = []
  | t :: _ => e.atEnd = false ∧ e.remaining = dropBytes t.offset source.toList

/-! ## Completing what has been read -/

namespace Reader

variable {r r' : Reader} {t : Token}

/-- A run reads its first token and goes on. -/
theorem run_cons (h : r.read t = .ok r') (rest : List Token) : r.run (t :: rest) = r'.run rest := by
  rw [run, h]

/-- A token is read if its lexeme is. -/
theorem read_eq_ok (h : (r.begin t).readLexeme t.lexeme = .ok r') : r.read t = .ok r' := by
  rw [read, h]

/-- Where an operand has to follow, a variable can be read. -/
theorem exists_read_name {negated : Bool} (hphase : r.phase = .operand negated) :
    ∃ t r', r.read t = .ok r' ∧ ∃ negated tree tail, r'.phase = .atom negated tree tail := by
  have hname : Constant.ofName? "x" = none := rfl
  let t : Token := ⟨.identifier "x", 0⟩
  have hphase' : (r.begin t).phase = .operand negated := hphase
  exact ⟨t, _, read_eq_ok (Phrase.readLexeme_name hphase' hname), _, _, _, rfl⟩

/-- Behind an atom, the innermost parenthesis can be closed. -/
theorem exists_read_closeParen {negated : Bool} {tree : Expr Float} {tail : AtomTail}
    (hphase : r.phase = .atom negated tree tail) {e : Enclosure} {outer : List Enclosure}
    (henclosures : r.enclosures = e :: outer) :
    ∃ t r', r.read t = .ok r' ∧ r'.enclosures = outer ∧
      ∃ negated tree tail, r'.phase = .atom negated tree tail := by
  let t : Token := ⟨.closeParen, 0⟩
  have hphase' : (r.begin t).phase = .atom negated tree tail := hphase
  exact ⟨t, _, read_eq_ok (readLexeme_closeParen hphase' henclosures), rfl, _, _, _, rfl⟩

/-- Behind an atom a statement can be completed by closing what is open. -/
theorem exists_run_of_atom {negated : Bool} {tree : Expr Float} {tail : AtomTail}
    (hphase : r.phase = .atom negated tree tail) : ∃ more s, r.run more = .ok s := by
  generalize henclosures : r.enclosures = enclosures
  induction enclosures generalizing r negated tree tail with
  | nil =>
    refine ⟨[], assemble r.targets (r.pending.closeSum (signedFactor negated tree)), ?_⟩
    rw [run, finish, hphase, henclosures]
  | cons e outer ih =>
    obtain ⟨t, r', hread, houter, _, _, _, hphase'⟩ := exists_read_closeParen hphase henclosures
    obtain ⟨more, s, hrun⟩ := ih hphase' houter
    exact ⟨t :: more, s, (run_cons hread more).trans hrun⟩

/-- Whatever has been read can be completed to a statement. -/
theorem exists_run (r : Reader) : ∃ more s, r.run more = .ok s := by
  cases hphase : r.phase with
  | operand negated =>
    obtain ⟨t, r', hread, _, _, _, hphase'⟩ := exists_read_name hphase
    obtain ⟨more, s, hrun⟩ := exists_run_of_atom hphase'
    exact ⟨t :: more, s, (run_cons hread more).trans hrun⟩
  | atom negated tree tail => exact exists_run_of_atom hphase

/-! ## Where a run stops -/

/-- A fault at the end has no place. -/
theorem offset_of_finish {f : ReadFault} (h : r.finish = .error f) : f.offset = none := by
  unfold finish at h
  split at h <;> cases h <;> rfl

/-- A fault other than that of a target stands at the token. -/
theorem offset_of_read {f : ReadFault} (h : r.read t = .error f)
    (hfault : f.fault ≠ .invalidTarget) : f.offset = some t.offset := by
  unfold read at h
  split at h
  · cases h
  · cases h
    exact congrArg some (if_neg hfault)

/-- A run that fails reports a token behind which no run succeeds, or the end of the input; and what
it has read before can be completed. -/
theorem exists_split_of_run {tokens : List Token} {f : ReadFault} (h : r.run tokens = .error f)
    (hfault : f.fault ≠ .invalidTarget) :
    ∃ before after, tokens = before ++ after ∧ f.PointsAt after ∧
      (∃ more s, r.run (before ++ more) = .ok s) ∧
      ∀ t rest, after = t :: rest → ∀ more s, r.run (before ++ t :: more) ≠ .ok s := by
  induction tokens generalizing r with
  | nil =>
    refine ⟨[], [], rfl, offset_of_finish h, exists_run r, ?_⟩
    intro t rest hafter
    cases hafter
  | cons t rest ih =>
    cases hread : r.read t with
    | error fault =>
      rw [run, hread] at h
      cases h
      refine ⟨[], t :: rest, rfl, offset_of_read hread hfault, exists_run r, ?_⟩
      rintro t rest ⟨⟩ more s hrun
      rw [List.nil_append, run, hread] at hrun
      cases hrun
    | ok r' =>
      rw [run_cons hread] at h
      obtain ⟨before, after, rfl, hpoints, ⟨more, s, hrun⟩, hhopeless⟩ := ih h
      refine ⟨t :: before, after, rfl, hpoints, ⟨more, s, ?_⟩, ?_⟩
      · rw [List.cons_append, run_cons hread, hrun]
      · intro u others hafter more s
        rw [List.cons_append, run_cons hread]
        exact hhopeless u others hafter more s

end Reader

/-- A fault is reported at the first hopeless token, or at the end of the input. -/
theorem Statement.exists_stopsAt_of_ofTokens {tokens : List Token} {f : ReadFault}
    (h : ofTokens tokens = .error f) (hfault : f.fault ≠ .invalidTarget) :
    ∃ before after, tokens = before ++ after ∧ f.PointsAt after ∧ StopsAt before after := by
  obtain ⟨before, after, htokens, hpoints, hbegins, hhopeless⟩ :=
    Reader.exists_split_of_run h hfault
  refine ⟨before, after, htokens, hpoints, hbegins, ?_⟩
  rintro t rest hafter ⟨more, s, hrun⟩
  rw [List.append_assoc] at hrun
  exact hhopeless t rest hafter more s hrun

/-! ## Places in a text -/

namespace Token

/-- Each token leaves less of the text than the one before it. -/
theorem IsCut.pairwise {offset : ℕ} {text : List Char} {tokens : List Token}
    (h : IsCut offset text tokens) (front : List Char) (hfront : byteLength front = offset) :
    tokens.Pairwise (fun t u => (dropBytes u.offset (front ++ text)).length <
        (dropBytes t.offset (front ++ text)).length) ∧
      ∀ t ∈ tokens, (dropBytes t.offset (front ++ text)).length ≤ text.length := by
  induction h generalizing front with
  | nil offset => simp
  | @blank offset c rest tokens hblank hrest ih =>
    have hfront' : byteLength (front ++ [c]) = offset + c.utf8Size := by
      rw [byteLength_append, byteLength_cons, hfront]
      rfl
    obtain ⟨hpairwise, hle⟩ := ih (front ++ [c]) hfront'
    rw [List.append_assoc, List.singleton_append] at hpairwise hle
    exact ⟨hpairwise, fun t ht => (hle t ht).trans (Nat.le_succ _)⟩
  | @lexeme offset c word rest x tokens hblank hscan hrest ih =>
    have hfront' : byteLength (front ++ c :: word) = offset + byteLength (c :: word) := by
      rw [byteLength_append, hfront]
    obtain ⟨hpairwise, hle⟩ := ih (front ++ c :: word) hfront'
    rw [List.append_assoc, List.cons_append] at hpairwise hle
    have hfirst : dropBytes offset (front ++ c :: (word ++ rest)) = c :: (word ++ rest) := by
      rw [← hfront, dropBytes_append]
    have hshorter : rest.length < (c :: (word ++ rest)).length := by
      rw [List.length_cons, List.length_append]
      omega
    constructor
    · refine List.pairwise_cons.mpr ⟨fun u hu => ?_, hpairwise⟩
      rw [hfirst]
      exact (hle u hu).trans_lt hshorter
    · intro t ht
      obtain rfl | ht := List.mem_cons.mp ht
      · rw [hfirst]
      · exact (hle t ht).trans hshorter.le

/-- The texts that are left at the tokens of a text are all different. -/
theorem nodup_of_read {source : String} {tokens : List Token} (h : read source = .ok tokens) :
    (tokens.map fun t => dropBytes t.offset source.toList).Nodup := by
  have hpairwise := ((isCut_of_readFrom h).pairwise [] rfl).1
  refine List.pairwise_map.mpr (hpairwise.imp fun hlt heq => ?_)
  rw [List.nil_append, heq] at hlt
  exact Nat.lt_irrefl _ hlt

end Token

/-- An error points at one place of the tokens of a text only. -/
theorem ParseError.PointsAt.unique {e : ParseError} {source : String}
    {before after before' after' : List Token} (hread : Token.read source = .ok (before ++ after))
    (h : e.PointsAt source after) (h' : e.PointsAt source after')
    (hsplit : before ++ after = before' ++ after') : before = before' ∧ after = after' := by
  have hnodup := Token.nodup_of_read hread
  cases after with
  | nil =>
    cases after' with
    | nil => exact ⟨by simpa using hsplit, rfl⟩
    | cons t' rest' => cases h.1.symm.trans h'.1
  | cons t rest =>
    cases after' with
    | nil => cases h.1.symm.trans h'.1
    | cons t' rest' =>
      -- what is left at a token determines how many tokens are before it
      have hleft : dropBytes t.offset source.toList = dropBytes t'.offset source.toList :=
        h.2.symm.trans h'.2
      have hlength : before.length = before'.length := by
        refine (List.getElem?_inj (by simp) hnodup).mp ?_
        rw [List.getElem?_map, List.getElem?_map]
        nth_rewrite 2 [hsplit]
        simp [hleft]
      exact List.append_inj hsplit hlength

/-! ## Texts -/

/-- What a fault says does not depend on the text. -/
theorem ReadFault.fault_toError (f : ReadFault) (source : String) :
    (f.toError source).fault = f.fault := by
  unfold toError
  split <;> rfl

/-- A text reports a fault where the reader of its tokens does. -/
theorem ReadFault.PointsAt.toError {f : ReadFault} {after : List Token} (h : f.PointsAt after)
    (source : String) : (f.toError source).PointsAt source after := by
  unfold ReadFault.toError
  cases after with
  | nil =>
    have hoffset : f.offset = none := h
    rw [hoffset]
    exact ⟨rfl, rfl⟩
  | cons t rest =>
    have hoffset : f.offset = some t.offset := h
    rw [hoffset]
    exact ⟨rfl, rfl⟩

namespace Statement

/-- An error of a text that has tokens points where their reader stops. -/
theorem exists_stopsAt_of_parse {source : String} {tokens : List Token} {e : ParseError}
    (hread : Token.read source = .ok tokens) (htokens : tokens ≠ [])
    (h : parse source = .error e) (hfault : e.fault ≠ .invalidTarget) :
    ∃ before after, tokens = before ++ after ∧ e.PointsAt source after ∧ StopsAt before after := by
  have hempty : tokens.isEmpty = false := List.isEmpty_eq_false_iff.mpr htokens
  have herror : (ofTokens tokens).mapError (fun f => f.toError source) = .error e := by
    simpa [parse, hread, hempty, bind, Except.bind] using h
  cases hrun : ofTokens tokens with
  | ok s =>
    rw [hrun] at herror
    cases herror
  | error f =>
    rw [hrun] at herror
    cases herror
    rw [ReadFault.fault_toError] at hfault
    obtain ⟨before, after, hsplit, hpoints, hstops⟩ := exists_stopsAt_of_ofTokens hrun hfault
    exact ⟨before, after, hsplit, hpoints.toError source, hstops⟩

/-- Faults are reported at the first hopeless token.  Whatever row of tokens the reader rejects, but
for a wrong target of an assignment, the tokens before the reported place begin some statement, and
with the token at that place, unless it is the end of the input, they begin none.  And what a text
reports, the rest of the text or its end, is the report of just one place of its tokens, which is
such a place. -/
theorem error_at_first_hopeless_token :
    (∀ (tokens : List Token) (f : ReadFault), ofTokens tokens = .error f →
      f.fault ≠ .invalidTarget →
        ∃ before after, tokens = before ++ after ∧ f.PointsAt after ∧ StopsAt before after) ∧
    ∀ (source : String) (tokens : List Token) (e : ParseError), Token.read source = .ok tokens →
      tokens ≠ [] → parse source = .error e → e.fault ≠ .invalidTarget →
        (∃ before after, tokens = before ++ after ∧ e.PointsAt source after) ∧
        ∀ before after, tokens = before ++ after → e.PointsAt source after →
          StopsAt before after := by
  refine ⟨fun tokens f => exists_stopsAt_of_ofTokens, ?_⟩
  intro source tokens e hread htokens h hfault
  obtain ⟨before, after, rfl, hpoints, hstops⟩ := exists_stopsAt_of_parse hread htokens h hfault
  refine ⟨⟨before, after, rfl, hpoints⟩, fun before' after' hsplit hpoints' => ?_⟩
  obtain ⟨rfl, rfl⟩ := hpoints.unique hread hpoints' hsplit
  exact hstops

/-- A parenthesis that closes nothing: the tokens before it begin a statement, and with it they do
not. -/
theorem error_at_first_hopeless_token_parenthesis :
    let source := "a * (x + b))  + y"
    let before : List Token := [⟨.identifier "a", 0⟩, ⟨.star, 2⟩, ⟨.openParen, 4⟩,
      ⟨.identifier "x", 5⟩, ⟨.plus, 7⟩, ⟨.identifier "b", 9⟩, ⟨.closeParen, 10⟩]
    let after : List Token := [⟨.closeParen, 11⟩, ⟨.plus, 14⟩, ⟨.identifier "y", 16⟩]
    Token.read source = .ok (before ++ after) ∧
      parse source = .error ⟨.unexpectedToken, false, ")  + y".toList⟩ ∧ StopsAt before after := by
  intro source before after
  have hread : Token.read source = .ok (before ++ after) := by cbv
  have hparse : parse source = .error ⟨.unexpectedToken, false, ")  + y".toList⟩ := by cbv
  obtain ⟨-, hstops⟩ := error_at_first_hopeless_token.2 source (before ++ after) _ hread (by simp)
    hparse (by decide)
  exact ⟨hread, hparse, hstops before after rfl ⟨rfl, by cbv⟩⟩

end Statement

end Fluxion
