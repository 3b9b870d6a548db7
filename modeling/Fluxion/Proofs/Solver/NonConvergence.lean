import Fluxion.Proofs.Solver.Streams

/-!
# What the policy for a correction that did not come to rest decides

A correction that exhausts its cap is an `Exhaustion`: which variable, after how many iterations, at
which time.  `Solver.exhaustions` lists those of one step in the order in which they are met,
following the run that keeps every last value.  Under the three policies a step differs only in what
becomes of them (`AgreeUpTo`): one policy drops them, one announces each of them, and one fails at
the first.

So the streams of the first two policies are the same, and the stream of the third is the same up to
the first step that meets an exhaustion, where it ends (`Trajectory.policy_decides_end`).

The relation is kept by sequencing (`AgreeUpTo.bind`); from there on it follows the loops: the
variables of a half-step, the steps of a run, the runs of an extrapolation, and the solver itself.
-/

set_option autoImplicit false

namespace Fluxion

/-- A correction that has exhausted its cap. -/
structure Exhaustion (α : Type) where
  name : String
  iterations : ℕ
  time : α

section Logs

variable {α β γ ε : Type}

/-- The error that ends a stream at an exhaustion. -/
def Exhaustion.error (x : Exhaustion α) : SolverError α := .notConverged x.name x.iterations x.time

/-- The exhaustion that an event warns of. -/
def Event.exhaustion? : Event α → Option (Exhaustion α)
  | .notConverged name iterations time => some ⟨name, iterations, time⟩
  | .wrapping _ _ | .started _ _ _ | .startedStages _ _ _ _ | .startedNewton _ _ _ _
  | .extrapolating _ _ _ | .reached _ _ | .simulationStarted _ _ => none

/-- The exhaustions that events warn of, in order. -/
def warnings (events : List (Event α)) : List (Exhaustion α) := events.filterMap Event.exhaustion?

/-- The warnings of two successive journals are joined. -/
theorem warnings_append (events events' : List (Event α)) :
    warnings (events ++ events') = warnings events ++ warnings events' :=
  List.filterMap_append

namespace Attempt

/-- What is met behind an attempt, which is nothing if the attempt failed. -/
def onward (a : Attempt α ε β) (met : β → List γ) : List γ :=
  match a.result with
  | .ok b => met b
  | .error _ => []

/-- Behind an attempt that succeeds its result is met. -/
theorem onward_of_ok {a : Attempt α ε β} {met : β → List γ} {b : β} (h : a.result = .ok b) :
    a.onward met = met b := by
  rw [onward, h]

/-- Where nothing is met, nothing is met behind an attempt either. -/
theorem onward_nil (a : Attempt α ε β) : (a.onward fun _ => ([] : List γ)) = [] := by
  unfold onward
  cases a.result <;> rfl

/-- The journal of two successive attempts is that of the first, and of the second if the first
succeeds. -/
theorem events_bind (a : Attempt α ε β) (f : β → Attempt α ε γ) :
    (a >>= f).events = a.events ++ a.onward fun b => (f b).events := by
  show (a.andThen f).events = _
  unfold andThen onward
  cases a.result with
  | ok b => rfl
  | error e => exact (List.append_nil _).symm

end Attempt

/-- A result, unless an exhaustion was met: then the error of the first. -/
def failAtFirst (met : List (Exhaustion α)) (result : Except (SolverError α) β) :
    Except (SolverError α) β :=
  match met with
  | [] => result
  | first :: _ => .error first.error

/-- Attempts under the three policies that do the same but for the exhaustions that they meet. -/
structure AgreeUpTo (met : List (Exhaustion α)) (a : NonConvergence → SolverAttempt α β) :
    Prop where
  result_warn : (a .warn).result = (a .accept).result
  result_fail : (a .fail).result = failAtFirst met (a .accept).result
  warnings_accept : warnings (a .accept).events = []
  warnings_warn : warnings (a .warn).events = met

namespace AgreeUpTo

variable {met : List (Exhaustion α)} {a : NonConvergence → SolverAttempt α β}

/-- Attempts that have the same result under all policies and warn of nothing agree. -/
theorem of_quiet (hresult : ∀ policy, (a policy).result = (a .accept).result)
    (hquiet : ∀ policy, warnings (a policy).events = []) : AgreeUpTo [] a :=
  ⟨hresult .warn, hresult .fail, hquiet .accept, hquiet .warn⟩

/-- One attempt for all policies agrees with itself if it warns of nothing. -/
theorem of_eq {b : SolverAttempt α β} (heq : ∀ policy, a policy = b)
    (hquiet : warnings b.events = []) : AgreeUpTo [] a :=
  of_quiet (fun policy => by rw [heq, heq]) fun policy => by rw [heq, hquiet]

/-- What one attempt after another meets is what the first meets, and behind it what the second
meets. -/
theorem bind {f : NonConvergence → β → SolverAttempt α γ} {more : β → List (Exhaustion α)}
    (h : AgreeUpTo met a)
    (hf : ∀ b, (a .accept).result = .ok b → AgreeUpTo (more b) fun policy => f policy b) :
    AgreeUpTo (met ++ (a .accept).onward more) fun policy => a policy >>= f policy := by
  cases hresult : (a .accept).result with
  | error e =>
    -- an attempt can fail under every policy, and nothing is met behind it then
    have hwarn := h.result_warn.trans hresult
    have hnone : (a .accept).onward more = [] := by rw [Attempt.onward, hresult]
    rw [hnone, List.append_nil]
    constructor
    · rw [Attempt.result_bind, Attempt.result_bind, hresult, hwarn]
      rfl
    · rw [Attempt.result_bind, Attempt.result_bind, h.result_fail, hresult]
      cases met <;> rfl
    · rw [Attempt.events_bind, Attempt.onward, hresult, List.append_nil, h.warnings_accept]
    · rw [Attempt.events_bind, Attempt.onward, hwarn, List.append_nil, h.warnings_warn]
  | ok b =>
    have hwarn := h.result_warn.trans hresult
    have hnext := hf b hresult
    rw [Attempt.onward_of_ok hresult]
    constructor
    · rw [Attempt.result_bind_of_ok hresult, Attempt.result_bind_of_ok hwarn, hnext.result_warn]
    · rw [Attempt.result_bind_of_ok hresult, Attempt.result_bind, h.result_fail, hresult]
      cases met with
      | nil => exact hnext.result_fail
      | cons first rest => rfl
    · rw [Attempt.events_bind, Attempt.onward_of_ok hresult, warnings_append, h.warnings_accept,
        hnext.warnings_accept, List.append_nil]
    · rw [Attempt.events_bind, Attempt.onward_of_ok hwarn, warnings_append, h.warnings_warn,
        hnext.warnings_warn]

/-- Nothing is met behind an attempt by what is the same under all policies. -/
theorem bind_eq {f : NonConvergence → β → SolverAttempt α γ} {next : β → SolverAttempt α γ}
    (h : AgreeUpTo met a) (heq : ∀ policy b, f policy b = next b)
    (hquiet : ∀ b, warnings (next b).events = []) :
    AgreeUpTo met fun policy => a policy >>= f policy := by
  have hbind := h.bind (f := f) fun b _ => of_eq (fun policy => heq policy b) (hquiet b)
  rwa [Attempt.onward_nil, List.append_nil] at hbind

end AgreeUpTo

end Logs

section Corrections

variable {α : Type}

/-- The same settings but for the policy. -/
def NewtonSettings.withPolicy (newton : NewtonSettings α) (policy : NonConvergence) :
    NewtonSettings α :=
  { newton with onNonConvergence := policy }

variable [Arithmetic α] [LT α] [DecidableLT α] {newton : NewtonSettings α}
  {field : VectorField α} {t h delta : α}

namespace NewtonSettings

/-- The iteration for the i-th variable over a half-step `h` of a step `delta`, whatever the policy:
the last value, and whether it came to rest. -/
def iterate (newton : NewtonSettings α) (field : VectorField α) (i : ℕ) (t h delta : α)
    (x : List α) : List α × Bool :=
  newtonIterate field i t h (coordinate x i) (delta * newton.toleranceFactor)
    newton.maxIterations x

/-- The exhaustion that the correction of the i-th variable meets, if it exhausts the cap. -/
def exhaustion (newton : NewtonSettings α) (field : VectorField α) (i : ℕ) (t h delta : α)
    (x : List α) : List (Exhaustion α) :=
  if (newton.iterate field i t h delta x).2 then []
  else [⟨field.variableName i, newton.maxIterations, t⟩]

/-- The values once the variables before the i-th have been corrected. -/
def correctedBefore (newton : NewtonSettings α) (field : VectorField α) (t h delta : α)
    (x : List α) (i : ℕ) : List α :=
  (List.range i).foldl (fun y j => (newton.iterate field j t h delta y).1) x

/-- The exhaustions that the corrections of all variables meet, in the order of the variables. -/
def exhaustions (newton : NewtonSettings α) (field : VectorField α) (t h delta : α)
    (x : List α) : List (Exhaustion α) :=
  (List.range x.length).flatMap fun i =>
    newton.exhaustion field i t h delta (newton.correctedBefore field t h delta x i)

/-- Under the accepting policy a correction gives what the iteration has reached. -/
theorem result_correct_accept (i : ℕ) (x : List α) :
    ((newton.withPolicy .accept).correct field i t h delta x).result =
      .ok (newton.iterate field i t h delta x).1 := by
  show (if (newton.iterate field i t h delta x).2 = true then _ else _ :
    SolverAttempt α (List α)).result = _
  split <;> rfl

/-- A correction meets one exhaustion at most, and the policies answer to this one only. -/
theorem agreeUpTo_correct (i : ℕ) (x : List α) :
    AgreeUpTo (newton.exhaustion field i t h delta x) fun policy =>
      (newton.withPolicy policy).correct field i t h delta x := by
  have hcorrect : ∀ policy, (newton.withPolicy policy).correct field i t h delta x =
      if (newton.iterate field i t h delta x).2 = true then
        Attempt.succeed (newton.iterate field i t h delta x).1
      else do
        (newton.withPolicy policy).giveUp (field.variableName i) t
        return (newton.iterate field i t h delta x).1 := fun policy => rfl
  simp only [hcorrect, exhaustion]
  split
  · exact .of_eq (fun _ => rfl) rfl
  · exact ⟨rfl, rfl, rfl, rfl⟩

/-- The corrections of the first `m` variables meet the exhaustions in the order of the variables,
and the accepting policy goes through all of them. -/
theorem agreeUpTo_corrections (x : List α) (m : ℕ) :
    AgreeUpTo ((List.range m).flatMap fun i =>
        newton.exhaustion field i t h delta (newton.correctedBefore field t h delta x i))
      (fun policy => (List.range m).foldlM
        (fun y i => (newton.withPolicy policy).correct field i t h delta y) x) ∧
    ((List.range m).foldlM
        (fun y i => (newton.withPolicy .accept).correct field i t h delta y) x).result =
      .ok (newton.correctedBefore field t h delta x m) := by
  induction m with
  | zero => exact ⟨.of_eq (fun _ => rfl) rfl, rfl⟩
  | succ m ih =>
    obtain ⟨hagree, hresult⟩ := ih
    simp only [List.range_succ, List.foldlM_append, List.foldlM_cons, List.foldlM_nil, bind_pure,
      List.flatMap_append, List.flatMap_cons, List.flatMap_nil, List.append_nil]
    constructor
    · have hlast : ∀ y, AgreeUpTo (newton.exhaustion field m t h delta y) fun policy =>
          (newton.withPolicy policy).correct field m t h delta y := fun y => agreeUpTo_correct m y
      have hbind := hagree.bind fun y _ => hlast y
      rwa [Attempt.onward_of_ok hresult] at hbind
    · rw [Attempt.result_bind_of_ok hresult, result_correct_accept, correctedBefore,
        correctedBefore, List.range_succ, List.foldl_append]
      rfl

end NewtonSettings

/-- The implicit half of a step meets the exhaustions of all variables. -/
theorem agreeUpTo_implicitHalf (x : List α) :
    AgreeUpTo (newton.exhaustions field t h delta x) fun policy =>
      Solver.implicitHalf (newton.withPolicy policy) field t h delta x :=
  (NewtonSettings.agreeUpTo_corrections x x.length).1

end Corrections

namespace Solver

variable {α : Type}

/-- The same solver but for the policy of the semi-implicit rule, if it lies at the bottom. -/
def withPolicy (policy : NonConvergence) : Solver α → Solver α
  | .euler => .euler
  | .midpoint => .midpoint
  | .stages name order tableau => .stages name order tableau
  | .semiImplicit newton => .semiImplicit (newton.withPolicy policy)
  | .extrapolation base runs hruns => .extrapolation (base.withPolicy policy) runs hruns

/-- Of two policies the one chosen last counts. -/
@[simp] theorem withPolicy_withPolicy (s : Solver α) (policy policy' : NonConvergence) :
    (s.withPolicy policy).withPolicy policy' = s.withPolicy policy' := by
  induction s with
  | euler | midpoint | stages name order tableau | semiImplicit newton => rfl
  | extrapolation base runs hruns ih => rw [withPolicy, withPolicy, withPolicy, ih]

/-- The policy does not show in the description. -/
@[simp] theorem description_withPolicy (s : Solver α) (policy : NonConvergence) :
    (s.withPolicy policy).description = s.description := by
  induction s with
  | euler | midpoint | stages name order tableau | semiImplicit newton => rfl
  | extrapolation base runs hruns ih => rw [withPolicy, description, description, ih]

/-- The policy does not change the runs of an extrapolation. -/
@[simp] theorem coefficients_withPolicy (s : Solver α) (policy : NonConvergence) :
    (s.withPolicy policy).coefficients = s.coefficients := by
  funext runs
  rw [coefficients, coefficients, description_withPolicy]

/-- The policy does not change whether a solver uses Newton's iteration. -/
theorem isSome_newton_withPolicy (s : Solver α) (policy : NonConvergence) :
    (s.withPolicy policy).newton?.isSome = s.newton?.isSome := by
  induction s with
  | euler | midpoint | stages name order tableau | semiImplicit newton => rfl
  | extrapolation base runs hruns ih => exact ih

section Loops

variable {next : NonConvergence → Run α → SolverAttempt α (Run α)}
  {met : Run α → List (Exhaustion α)}

/-- The exhaustions that a number of steps meet, given those that a step meets. -/
def exhaustionsBy (next : Run α → SolverAttempt α (Run α)) (met : Run α → List (Exhaustion α)) :
    ℕ → Run α → List (Exhaustion α)
  | 0, _ => []
  | count + 1, r => met r ++ (next r).onward (exhaustionsBy next met count)

/-- A number of steps meets the exhaustions of its steps, one after the other. -/
theorem agreeUpTo_advanceBy (h : ∀ r, AgreeUpTo (met r) fun policy => next policy r) (count : ℕ)
    (r : Run α) :
    AgreeUpTo (exhaustionsBy (next .accept) met count r) fun policy =>
      advanceBy (next policy) count r := by
  induction count generalizing r with
  | zero => exact .of_eq (fun _ => rfl) rfl
  | succ count ih => exact (h r).bind fun r' _ => ih r'

/-- The exhaustions that a row of attempts meets, given those that each of them meets. -/
def exhaustionsOfRow {β : Type} (f : ℕ → SolverAttempt α β) (met : ℕ → List (Exhaustion α)) :
    List ℕ → List (Exhaustion α)
  | [] => []
  | count :: counts => met count ++ (f count).onward fun _ => exhaustionsOfRow f met counts

/-- A row of runs meets the exhaustions of its runs, one after the other. -/
theorem agreeUpTo_mapM {β : Type} {f : NonConvergence → ℕ → SolverAttempt α β}
    {met : ℕ → List (Exhaustion α)}
    (h : ∀ count, AgreeUpTo (met count) fun policy => f policy count) (counts : List ℕ) :
    AgreeUpTo (exhaustionsOfRow (f .accept) met counts) fun policy =>
      counts.mapM (f policy) := by
  induction counts with
  | nil => exact .of_eq (fun _ => rfl) rfl
  | cons count counts ih =>
    simp only [List.mapM_cons]
    exact (h count).bind fun b _ => ih.bind_eq (fun _ _ => rfl) fun _ => rfl

end Loops

variable [Arithmetic α]

/-- The inner run of an extrapolation meets the exhaustions of its steps, once it has begun. -/
theorem agreeUpTo_refine {begin : NonConvergence → State α → α → SolverAttempt α (Run α)}
    {next : NonConvergence → Run α → SolverAttempt α (Run α)}
    {met : Run α → List (Exhaustion α)} {origin : State α} {delta : α} {count : ℕ}
    (hbegin : AgreeUpTo [] fun policy => begin policy origin (delta / (count : α)))
    (hnext : ∀ r, AgreeUpTo (met r) fun policy => next policy r) :
    AgreeUpTo ((begin .accept origin (delta / (count : α))).onward
        (exhaustionsBy (next .accept) met count))
      fun policy => refine (begin policy) (next policy) origin delta count := by
  unfold Solver.refine
  refine hbegin.bind fun r _ => ?_
  cases count with
  | zero => exact .of_eq (fun _ => rfl) rfl
  | succ count =>
    simp only [if_neg (Nat.succ_ne_zero count)]
    exact (agreeUpTo_advanceBy hnext _ r).bind_eq (fun _ _ => rfl) fun _ => rfl

variable [LT α] [DecidableLT α] [Finiteness α]

/-- The exhaustions that a step of a run meets, in the order in which they are met: those of the
corrections at the middle of a step of the semi-implicit rule, variable by variable, and those of
the runs inside a step of an extrapolation, run by run and step by step. -/
def exhaustions (field : VectorField α) : Solver α → Run α → List (Exhaustion α)
  | .euler, _ | .midpoint, _ | .stages _ _ _, _ => []
  | .semiImplicit newton, r =>
    let h := r.clock.increment / two
    newton.exhaustions field (r.time + h) h r.clock.increment r.values
  | .extrapolation base runs _, r =>
    exhaustionsOfRow
      (refine (fun origin step => base.launch field origin step) (fun r => base.advance field r)
        (r.state field) r.clock.increment)
      (fun count => (base.launch field (r.state field) (r.clock.increment / (count : α))).onward
        (exhaustionsBy (fun r => base.advance field r) (fun r => base.exhaustions field r) count))
      (base.coefficients runs)

variable {field : VectorField α}

/-- The policy does not change whether and where a solver is launched. -/
theorem result_launch_withPolicy (s : Solver α) (policy : NonConvergence) (field : VectorField α)
    (initial : State α) (step : α) :
    ((s.withPolicy policy).launch field initial step).result =
      (s.launch field initial step).result := by
  rw [result_launch, result_launch]
  unfold checkSlopes
  rw [isSome_newton_withPolicy]

/-- Launching makes no corrections. -/
theorem warnings_launch (s : Solver α) (field : VectorField α) (initial : State α) (step : α) :
    warnings (s.launch field initial step).events = [] := by
  induction s with
  | euler | midpoint | stages name order tableau =>
    rw [launch]
    cases Run.start field initial step <;> rfl
  | semiImplicit newton =>
    rw [launch]
    cases Run.start field initial step with
    | error e => rfl
    | ok r =>
      rw [Attempt.events_bind, Attempt.onward_of_ok rfl]
      cases missingDerivative? field initial.time r.values <;> rfl
  | extrapolation base runs hruns ih =>
    rw [launch]
    cases Run.start field initial step with
    | error e => rfl
    | ok r =>
      rw [Attempt.events_bind, Attempt.onward_of_ok rfl, Attempt.events_bind, warnings_append,
        warnings_append, ih, Attempt.onward]
      cases (base.launch field initial step).result <;> rfl

/-- Launching meets no exhaustion. -/
theorem agreeUpTo_launch (s : Solver α) (initial : State α) (step : α) :
    AgreeUpTo [] fun policy => (s.withPolicy policy).launch field initial step :=
  .of_quiet
    (fun policy => by rw [result_launch_withPolicy, result_launch_withPolicy])
    fun _ => warnings_launch _ _ _ _

/-- A step under the three policies. -/
theorem agreeUpTo_advance (s : Solver α) (r : Run α) :
    AgreeUpTo ((s.withPolicy .accept).exhaustions field r) fun policy =>
      (s.withPolicy policy).advance field r := by
  induction s generalizing r with
  | euler | stages name order tableau => exact .of_eq (fun _ => rfl) rfl
  | midpoint =>
    refine .of_eq (fun _ => rfl) ?_
    cases r.previous <;> rfl
  | semiImplicit newton =>
    exact (agreeUpTo_implicitHalf r.values).bind_eq (fun _ _ => rfl) fun _ => rfl
  | extrapolation base runs hruns ih =>
    -- the induction hypothesis speaks of every run, and so of those inside this step
    have hrows : ∀ count, AgreeUpTo _ fun policy => refine
        (fun origin step => (base.withPolicy policy).launch field origin step)
        (fun r => (base.withPolicy policy).advance field r) (r.state field) r.clock.increment
        count :=
      fun count => agreeUpTo_refine (agreeUpTo_launch base _ _) ih
    have htable := agreeUpTo_mapM hrows (base.coefficients runs)
    simp only [withPolicy, advance, exhaustions, coefficients_withPolicy, description_withPolicy]
    exact htable.bind_eq (fun _ _ => rfl) fun _ => rfl

end Solver

namespace Trajectory

variable {α : Type}

/-- The same trajectory but for the policy of its solver. -/
def withPolicy (policy : NonConvergence) (t : Trajectory α) : Trajectory α :=
  { t with solver := t.solver.withPolicy policy }

/-- Of two policies of a trajectory the one chosen last counts. -/
@[simp] theorem withPolicy_withPolicy (t : Trajectory α) (policy policy' : NonConvergence) :
    (t.withPolicy policy).withPolicy policy' = t.withPolicy policy' := by
  simp only [withPolicy, Solver.withPolicy_withPolicy]

variable [Arithmetic α] [LT α] [DecidableLT α] [Finiteness α]

/-- The exhaustions that the next pull meets. -/
def exhaustions (t : Trajectory α) : List (Exhaustion α) :=
  if t.ended then [] else t.solver.exhaustions t.field t.run

/-- The exhaustions that the n-th pull meets. -/
def exhaustionsAt (t : Trajectory α) (n : ℕ) : List (Exhaustion α) := (t.drop n).exhaustions

/-- The events of the n-th pull. -/
def eventsAt (t : Trajectory α) (n : ℕ) : List (Event α) := (t.drop n).pull.events

section Pulls

variable (t : Trajectory α)

/-- A pull leaves the solver of a trajectory. -/
theorem solver_rest : t.pull.rest.solver = t.solver := by
  cases hended : t.ended with
  | true => rw [(pull_of_ended hended).2]
  | false =>
    cases hresult : (t.solver.advance t.field t.run).result with
    | ok r => rw [(pull_of_ok hended hresult).2]
    | error e => rw [(pull_of_error hended hresult).2]

/-- A pull leaves the policy of a trajectory. -/
theorem pull_rest_withPolicy (policy : NonConvergence) :
    (t.withPolicy policy).pull.rest.withPolicy policy = (t.withPolicy policy).pull.rest := by
  have hsolver : (t.withPolicy policy).pull.rest.solver.withPolicy policy =
      (t.withPolicy policy).pull.rest.solver := by
    rw [solver_rest, withPolicy, Solver.withPolicy_withPolicy]
  rw [withPolicy, hsolver]

/-- A pull announces what the step announces. -/
theorem events_pull (h : t.ended = false) :
    t.pull.events = (t.solver.advance t.field t.run).events := by
  unfold pull
  rw [h]
  simp only [Bool.false_eq_true, if_false]
  cases (t.solver.advance t.field t.run).result <;> rfl

/-- The exhaustions of a pull are those of its step. -/
theorem exhaustions_of_running (h : t.ended = false) :
    t.exhaustions = t.solver.exhaustions t.field t.run := by
  rw [exhaustions, h]
  rfl

/-- Pulls under policies with which the step has the same result give the same and go on the
same. -/
theorem pull_congr {policy policy' : NonConvergence}
    (h : t.ended = false → ((t.solver.withPolicy policy).advance t.field t.run).result =
      ((t.solver.withPolicy policy').advance t.field t.run).result) :
    (t.withPolicy policy).pull.item = (t.withPolicy policy').pull.item ∧
      (t.withPolicy policy).pull.rest = (t.withPolicy policy').pull.rest.withPolicy policy := by
  cases hended : t.ended with
  | true =>
    obtain ⟨hitem, hrest⟩ := pull_of_ended (t := t.withPolicy policy) hended
    obtain ⟨hitem', hrest'⟩ := pull_of_ended (t := t.withPolicy policy') hended
    rw [hitem, hitem', hrest, hrest', withPolicy_withPolicy]
    exact ⟨rfl, rfl⟩
  | false =>
    cases hresult : ((t.solver.withPolicy policy').advance t.field t.run).result with
    | ok r =>
      obtain ⟨hitem, hrest⟩ :=
        pull_of_ok (t := t.withPolicy policy) hended ((h hended).trans hresult)
      obtain ⟨hitem', hrest'⟩ := pull_of_ok (t := t.withPolicy policy') hended hresult
      rw [hitem, hitem', hrest, hrest']
      simp only [withPolicy, Solver.withPolicy_withPolicy, and_self]
    | error e =>
      obtain ⟨hitem, hrest⟩ :=
        pull_of_error (t := t.withPolicy policy) hended ((h hended).trans hresult)
      obtain ⟨hitem', hrest'⟩ := pull_of_error (t := t.withPolicy policy') hended hresult
      rw [hitem, hitem', hrest, hrest']
      simp only [withPolicy, Solver.withPolicy_withPolicy, and_self]

/-- Under the warning policy a pull gives what it gives under the accepting one. -/
theorem pull_warn : (t.withPolicy .warn).pull.item = (t.withPolicy .accept).pull.item ∧
    (t.withPolicy .warn).pull.rest = (t.withPolicy .accept).pull.rest.withPolicy .warn :=
  pull_congr t fun _ => (t.solver.agreeUpTo_advance t.run).result_warn

/-- Under the accepting policy a pull warns of nothing, under the warning one of every
exhaustion. -/
theorem warnings_pull : warnings (t.withPolicy .accept).pull.events = [] ∧
    warnings (t.withPolicy .warn).pull.events = (t.withPolicy .accept).exhaustions := by
  cases hended : t.ended with
  | true =>
    unfold pull exhaustions withPolicy
    rw [hended]
    exact ⟨rfl, rfl⟩
  | false =>
    have hagree : AgreeUpTo ((t.solver.withPolicy .accept).exhaustions t.field t.run)
        fun policy => (t.solver.withPolicy policy).advance t.field t.run :=
      t.solver.agreeUpTo_advance t.run
    rw [events_pull (t.withPolicy .accept) hended, events_pull (t.withPolicy .warn) hended,
      exhaustions_of_running (t.withPolicy .accept) hended]
    exact ⟨hagree.warnings_accept, hagree.warnings_warn⟩

/-- A pull that meets no exhaustion is the same when it would fail at one. -/
theorem pull_fail_of_nil (h : (t.withPolicy .accept).exhaustions = []) :
    (t.withPolicy .fail).pull.item = (t.withPolicy .accept).pull.item ∧
      (t.withPolicy .fail).pull.rest = (t.withPolicy .accept).pull.rest.withPolicy .fail := by
  refine pull_congr t fun hended => ?_
  have hmet : (t.solver.withPolicy .accept).exhaustions t.field t.run = [] :=
    (exhaustions_of_running (t.withPolicy .accept) hended).symm.trans h
  rw [(t.solver.agreeUpTo_advance t.run).result_fail, hmet]
  rfl

/-- A pull that fails at the first exhaustion that it meets ends the trajectory. -/
theorem pull_fail_of_cons {first : Exhaustion α} {rest : List (Exhaustion α)}
    (h : (t.withPolicy .accept).exhaustions = first :: rest) :
    (t.withPolicy .fail).pull.item = some (.error first.error) ∧
      (t.withPolicy .fail).pull.rest.ended = true := by
  cases hended : t.ended with
  | true =>
    have hnil : (t.withPolicy .accept).exhaustions = [] := if_pos hended
    exact nomatch hnil.symm.trans h
  | false =>
    have hmet : (t.solver.withPolicy .accept).exhaustions t.field t.run = first :: rest :=
      (exhaustions_of_running (t.withPolicy .accept) hended).symm.trans h
    have hresult : ((t.solver.withPolicy .fail).advance t.field t.run).result =
        .error first.error := by
      rw [(t.solver.agreeUpTo_advance t.run).result_fail, hmet]
      rfl
    obtain ⟨hitem, hrest⟩ := pull_of_error (t := t.withPolicy .fail) hended hresult
    exact ⟨hitem, hrest ▸ rfl⟩

end Pulls

/-- Any number of pulls leaves the policy of a trajectory. -/
theorem drop_withPolicy (t : Trajectory α) (policy : NonConvergence) (n : ℕ) :
    ((t.withPolicy policy).drop n).withPolicy policy = (t.withPolicy policy).drop n := by
  induction n generalizing t with
  | zero => exact withPolicy_withPolicy t policy policy
  | succ n ih =>
    rw [drop, ← pull_rest_withPolicy]
    exact ih _

/-- Behind any number of pulls the warning and the accepting trajectory differ in the policy
only. -/
theorem drop_warn (t : Trajectory α) (n : ℕ) :
    (t.withPolicy .warn).drop n = ((t.withPolicy .accept).drop n).withPolicy .warn := by
  induction n generalizing t with
  | zero => exact (withPolicy_withPolicy t .accept .warn).symm
  | succ n ih => rw [drop, drop, (pull_warn t).2, ih, pull_rest_withPolicy]

/-- As long as no exhaustion is met, failing at one changes nothing. -/
theorem drop_fail (t : Trajectory α) (n : ℕ)
    (h : ∀ m < n, (t.withPolicy .accept).exhaustionsAt m = []) :
    (t.withPolicy .fail).drop n = ((t.withPolicy .accept).drop n).withPolicy .fail := by
  induction n generalizing t with
  | zero => exact (withPolicy_withPolicy t .accept .fail).symm
  | succ n ih =>
    have hrest : ∀ m < n,
        ((t.withPolicy .accept).pull.rest.withPolicy .accept).exhaustionsAt m = [] := by
      intro m hm
      rw [pull_rest_withPolicy]
      exact h (m + 1) (Nat.succ_lt_succ hm)
    rw [drop, drop, (pull_fail_of_nil t (h 0 n.succ_pos)).2, ih _ hrest, pull_rest_withPolicy]

/-- The streams under the three policies, which are the same but for the warnings of one and the
end of another. -/
structure DifferInEnd (stream : NonConvergence → Trajectory α) : Prop where
  item_warn : ∀ n, (stream .warn).item n = (stream .accept).item n
  warnings_accept : ∀ n, warnings ((stream .accept).eventsAt n) = []
  /-- There is one warning of each exhaustion. -/
  warnings_warn : ∀ n, warnings ((stream .warn).eventsAt n) = (stream .accept).exhaustionsAt n
  item_fail : ∀ n, (∀ m ≤ n, (stream .accept).exhaustionsAt m = []) →
    (stream .fail).item n = (stream .accept).item n
  /-- The first exhaustion of the first step that meets any is the last item. -/
  end_fail : ∀ n first rest, (∀ m < n, (stream .accept).exhaustionsAt m = []) →
    (stream .accept).exhaustionsAt n = first :: rest →
      (stream .fail).item n = some (.error first.error) ∧ ∀ m, n < m → (stream .fail).item m = none

/-- The three policies give the same stream up to the first exhaustion, at which the failing one
ends. -/
theorem differInEnd_withPolicy (t : Trajectory α) :
    DifferInEnd fun policy => t.withPolicy policy := by
  have haccept : ∀ n, ((t.withPolicy .accept).drop n).withPolicy .accept =
      (t.withPolicy .accept).drop n := drop_withPolicy t .accept
  constructor
  · intro n
    rw [item, drop_warn, (pull_warn _).1, haccept, item]
  · intro n
    rw [eventsAt, ← haccept]
    exact (warnings_pull _).1
  · intro n
    rw [eventsAt, drop_warn, (warnings_pull _).2, haccept, exhaustionsAt]
  · intro n h
    have hnil : (((t.withPolicy .accept).drop n).withPolicy .accept).exhaustions = [] :=
      (haccept n).symm ▸ h n le_rfl
    rw [item, drop_fail t n fun m hm => h m hm.le, (pull_fail_of_nil _ hnil).1, haccept, item]
  · intro n first rest hbefore hmet
    have hcons : (((t.withPolicy .accept).drop n).withPolicy .accept).exhaustions = first :: rest :=
      (haccept n).symm ▸ hmet
    obtain ⟨hitem, hended⟩ := pull_fail_of_cons _ hcons
    rw [← drop_fail t n hbefore] at hitem hended
    refine ⟨hitem, fun m hm => ?_⟩
    rw [← drop_succ] at hended
    exact (pull_of_ended (ended_drop_of_le hm hended)).1

/-- The policy decides where the stream of a solver ends, and nothing else: a solver cannot be
launched under any policy, or else it is launched without a warning under each of them and its
streams differ in their ends. -/
theorem policy_decides_end (s : Solver α) (field : VectorField α) (initial : State α) (step : α) :
    (∃ e, ∀ policy, (launch (s.withPolicy policy) field initial step).result = .error e) ∨
      ∃ stream, DifferInEnd stream ∧ ∀ policy,
        (launch (s.withPolicy policy) field initial step).result = .ok (stream policy) ∧
          warnings (launch (s.withPolicy policy) field initial step).events = [] := by
  have hresult : ∀ policy, ((s.withPolicy policy).launch field initial step).result =
      (s.launch field initial step).result := fun policy => s.result_launch_withPolicy policy _ _ _
  cases hlaunch : (s.launch field initial step).result with
  | error e =>
    refine .inl ⟨e, fun policy => ?_⟩
    rw [launch, Attempt.result_bind, hresult, hlaunch]
    rfl
  | ok r =>
    refine .inr ⟨_, differInEnd_withPolicy ⟨s, field, r, false⟩, fun policy => ⟨?_, ?_⟩⟩
    · rw [launch, Attempt.result_bind, hresult, hlaunch]
      rfl
    · rw [launch, Attempt.events_bind, Attempt.onward_of_ok ((hresult policy).trans hlaunch),
        warnings_append, Solver.warnings_launch]
      rfl

set_option maxRecDepth 1024 in
/-- With a single correction, which does not come to rest, the extrapolation from two runs fails on
the decay in the middle of the first part that its first run divides the step into. -/
example :
    let s : Solver Float :=
      .extrapolation (.semiImplicit ⟨1, 0.0009765625, .fail⟩) 2 (by decide)
    ∃ t, (launch s Equations.decay.toField ⟨0, ["x"], [1]⟩ 0.125).result = .ok t ∧
      t.item 0 = some (.error (.notConverged "x" 1 0.03125)) :=
  ⟨_, rfl, rfl⟩

end Trajectory

end Fluxion
