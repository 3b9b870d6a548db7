import Fluxion.Services
import Fluxion.Proofs.Token.Literal

/-!
# What a simulation reports

A simulation reports three things once it runs: the error of its solver, that it has stopped, or
that the solver has no more states.  The third cannot be mistaken for the others
(`SimulationError.step_message_ne`, `SimulationError.stopped_message_ne`).  It ends with a full
stop, and what a solver reports does not: each of its errors ends with a number, with a closing
quote or bracket, or with a word (`SolverError.endsOpen_message`).
-/

set_option autoImplicit false

namespace Fluxion

/-- A text with a last character, which is no full stop. -/
def EndsOpen (text : String) : Prop := ∃ c, text.toList.getLast? = some c ∧ c ≠ '.'

/-- How a text ends depends on its last part. -/
theorem EndsOpen.append (text : String) {text' : String} (h : EndsOpen text') :
    EndsOpen (text ++ text') := by
  obtain ⟨c, hlast, hc⟩ := h
  refine ⟨c, ?_, hc⟩
  rw [String.toList_append, List.getLast?_append, hlast, Option.some_or]

/-- Nothing that ends with a full stop is such a text. -/
theorem EndsOpen.ne {text text' : String} (h : EndsOpen text)
    (h' : text'.toList.getLast? = some '.') : text ≠ text' := by
  rintro rfl
  obtain ⟨c, hlast, hc⟩ := h
  rw [h'] at hlast
  cases hlast
  exact hc rfl

/-- A whole number ends with a digit. -/
theorem endsOpen_toString (n : ℕ) : EndsOpen (toString n) := by
  refine ⟨(Nat.toDigits 10 n).getLast Nat.toDigits_ne_nil, ?_, ?_⟩
  · rw [Nat.toString_eq_ofList_toDigits, String.toList_ofList, List.getLast?_eq_some_getLast]
  · have hdigit := Nat.isDigit_of_mem_toDigits (by decide) (by decide)
      (List.getLast_mem (l := Nat.toDigits 10 n) Nat.toDigits_ne_nil)
    intro hstop
    rw [hstop] at hdigit
    cases hdigit

/-- A number in positional notation does not end with its point. -/
theorem Decimal.Numeral.exists_getLast?_positional (d : Decimal.Numeral) :
    ∃ c, d.positional.getLast? = some c ∧ c ≠ '.' := by
  have hdigit : ∀ c : Char, c.isDigit = true → c ≠ '.' := by
    rintro c hc rfl
    exact absurd hc (by decide)
  have hlength := d.length_padded
  rw [← d.text_literal]
  unfold literal Literal.text
  split
  · dsimp only
    rw [List.append_nil]
    have hne : Decimal.digitsOf d.digits ++ List.replicate d.exponent.toNat '0' ≠ [] :=
      List.append_ne_nil_of_left_ne_nil Nat.toDigits_ne_nil _
    refine ⟨_, List.getLast?_eq_some_getLast hne, hdigit _ ?_⟩
    obtain hc | hc := List.mem_append.mp (List.getLast_mem hne)
    · exact Decimal.isDigit_of_mem_digitsOf hc
    · exact Decimal.isDigit_of_mem_zeros hc
  · rename_i hexponent
    dsimp only
    have hne : d.padded.drop (d.padded.length - (-d.exponent).toNat) ≠ [] := by
      apply List.ne_nil_of_length_pos
      rw [List.length_drop]
      omega
    refine ⟨_, ?_, hdigit _ (isDigit_of_mem_padded (List.mem_of_mem_drop (List.getLast_mem hne)))⟩
    rw [List.getLast?_append, List.getLast?_cons, List.getLast?_eq_some_getLast hne]
    rfl

/-- No number that is written ends with a point. -/
theorem endsOpen_plain (x : Float) : EndsOpen (Decimal.plain x) := by
  have hdigits : ∃ c, (if Decimal.magnitudePattern x = Decimal.infinityPattern then ['i', 'n', 'f']
      else Decimal.plainDigits (Decimal.magnitudePattern x)).getLast? = some c ∧ c ≠ '.' := by
    split
    · exact ⟨'f', rfl, by decide⟩
    · exact Decimal.Numeral.exists_getLast?_positional _
  obtain ⟨c, hlast, hc⟩ := hdigits
  unfold Decimal.plain Decimal.signed
  split
  · exact ⟨'N', rfl, by decide⟩
  · refine ⟨c, ?_, hc⟩
    dsimp only
    rw [String.toList_ofList]
    split
    · rw [List.getLast?_cons, hlast]
      rfl
    · exact hlast

/-- No sentence about a method ends with a point. -/
theorem SolverError.endsOpen_message (e : SolverError Float) : EndsOpen e.message := by
  cases e with
  | invalidStep step => exact .append _ (endsOpen_plain step)
  | stateMismatch cause =>
    cases cause with
    | count expected actual => exact .append _ (.append _ (endsOpen_toString actual))
    | missing name => exact .append _ (.append _ ⟨'\'', rfl, by decide⟩)
  | missingDerivative name => exact .append _ ⟨'\'', rfl, by decide⟩
  | invalidStages stages => exact .append _ (endsOpen_toString stages)
  | invalidTableau fault =>
    cases fault with
    | shape rows columns => exact .append _ (.append _ (endsOpen_toString columns))
    | weights given stages => exact .append _ (.append _ ⟨')', rfl, by decide⟩)
    | implicitEntry entry row column => exact .append _ (.append _ ⟨')', rfl, by decide⟩)
  | invalidNewton fault =>
    cases fault with
    | noIterations => exact ⟨'o', rfl, by decide⟩
    | tolerance => exact ⟨'e', rfl, by decide⟩
  | notConverged name iterations time => exact .append _ (endsOpen_plain time)
  | exhausted => exact ⟨'p', rfl, by decide⟩

/-- The report of a failed step is not that of an exhausted stream, because the latter ends with a
point. -/
theorem SimulationError.step_message_ne (name solver : String) (cause : SolverError Float) :
    (SimulationError.step name cause).message ≠ solver ++ " stopped producing states." := by
  have hopen : EndsOpen (SimulationError.step name cause).message :=
    .append _ cause.endsOpen_message
  apply hopen.ne
  rw [String.toList_append, List.getLast?_append]
  rfl

/-- The report of a stopped simulation is not that of an exhausted stream. -/
theorem SimulationError.stopped_message_ne (solver : String) :
    SimulationError.stopped.message ≠ solver ++ " stopped producing states." := by
  intro h
  have hlength := congrArg String.length h
  rw [String.length_append] at hlength
  have hleft : SimulationError.stopped.message.length = 23 := by decide
  have hright : " stopped producing states.".length = 26 := by decide
  omega

end Fluxion
