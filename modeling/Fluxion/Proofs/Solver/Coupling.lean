import Fluxion.Proofs.Solver.Streams
import Mathlib.Data.List.Forall2

/-!
# Computations followed at once

Two computations that may fail are compared step by step, and two streams of states pull by pull.
-/

set_option autoImplicit false

namespace Fluxion

/-! ## Two computations that may fail

Two runs are compared by following them at once.  Their outcomes are coupled if both are results,
in one relation, or both are errors, in another (`ExceptRel`).  Sequencing keeps outcomes coupled
(`ExceptRel.bind`), and so do loops whose rounds are coupled one by one (`ExceptRel.mapM`,
`ExceptRel.foldlM`).
-/

/-- Two outcomes that are both results, in the relation `R`, or both errors, in the relation `E`. -/
inductive ExceptRel {ε ε' β β' : Type} (E : ε → ε' → Prop) (R : β → β' → Prop) :
    Except ε β → Except ε' β' → Prop where
  | ok {b : β} {b' : β'} (h : R b b') : ExceptRel E R (.ok b) (.ok b')
  | error {e : ε} {e' : ε'} (h : E e e') : ExceptRel E R (.error e) (.error e')

namespace ExceptRel

variable {ε ε' β β' γ γ' δ δ' : Type} {E : ε → ε' → Prop} {R : β → β' → Prop}
  {S : γ → γ' → Prop} {P : δ → δ' → Prop} {x : Except ε β} {x' : Except ε' β'}

/-- An outcome is coupled with itself. -/
theorem refl (x : Except ε β) : ExceptRel Eq Eq x x := by
  cases x with
  | ok b => exact .ok rfl
  | error e => exact .error rfl

/-- Outcomes that differ in nothing are the same. -/
theorem eq {x x' : Except ε β} (h : ExceptRel Eq Eq x x') : x = x' := by
  cases h with
  | ok h => rw [h]
  | error h => rw [h]

/-- Coupled outcomes followed by coupled computations are coupled. -/
theorem bind {f : β → Except ε γ} {f' : β' → Except ε' γ'} (h : ExceptRel E R x x')
    (hf : ∀ b b', R b b' → ExceptRel E S (f b) (f' b')) :
    ExceptRel E S (x >>= f) (x' >>= f') := by
  cases h with
  | ok hR => exact hf _ _ hR
  | error hE => exact .error hE

/-- Outcomes coupled in some relations are coupled in weaker ones. -/
theorem imp {E' : ε → ε' → Prop} {R' : β → β' → Prop} (h : ExceptRel E R x x')
    (hE : ∀ e e', E e e' → E' e e') (hR : ∀ b b', R b b' → R' b b') : ExceptRel E' R' x x' := by
  cases h with
  | ok h => exact .ok (hR _ _ h)
  | error h => exact .error (hE _ _ h)

/-- Renaming the errors on both sides renames the relation between them. -/
theorem mapError {ζ ζ' : Type} {F : ζ → ζ' → Prop} {g : ε → ζ} {g' : ε' → ζ'}
    (h : ExceptRel E R x x') (hg : ∀ e e', E e e' → F (g e) (g' e')) :
    ExceptRel F R (x.mapError g) (x'.mapError g') := by
  cases h with
  | ok hR => exact .ok hR
  | error hE => exact .error (hg _ _ hE)

/-- Related rows under computations that couple related items give coupled outcomes. -/
theorem mapM {f : δ → Except ε β} {f' : δ' → Except ε' β'} {l : List δ} {l' : List δ'}
    (h : List.Forall₂ P l l') (hf : ∀ d d', P d d' → ExceptRel E R (f d) (f' d')) :
    ExceptRel E (List.Forall₂ R) (l.mapM f) (l'.mapM f') := by
  induction h with
  | nil => exact .ok .nil
  | cons hfirst hrest ih =>
    rw [List.mapM_cons, List.mapM_cons]
    refine (hf _ _ hfirst).bind fun b b' hR => ih.bind fun bs bs' hRs => ?_
    exact .ok (.cons hR hRs)

/-- One row under two computations. -/
theorem mapM_same {f : δ → Except ε β} {f' : δ → Except ε' β'} {l : List δ}
    (h : ∀ d ∈ l, ExceptRel E R (f d) (f' d)) :
    ExceptRel E (List.Forall₂ R) (l.mapM f) (l.mapM f') := by
  have hsame : List.Forall₂ (fun d d' => d' = d ∧ d ∈ l) l l :=
    List.forall₂_same.mpr fun d hd => ⟨rfl, hd⟩
  refine mapM hsame fun d d' hd => ?_
  rw [hd.1]
  exact h d hd.2

/-- Loops whose rounds keep a relation keep it throughout. -/
theorem foldlM {f : β → δ → Except ε β} {f' : β' → δ → Except ε' β'} {l : List δ}
    (h : ∀ d ∈ l, ∀ b b', R b b' → ExceptRel E R (f b d) (f' b' d)) {b : β} {b' : β'}
    (hb : R b b') : ExceptRel E R (l.foldlM f b) (l.foldlM f' b') := by
  induction l generalizing b b' with
  | nil => exact .ok hb
  | cons d l ih =>
    obtain ⟨hd, hl⟩ := List.forall_mem_cons.mp h
    rw [List.foldlM_cons, List.foldlM_cons]
    exact (hd b b' hb).bind fun c c' hc => ih hl hc

end ExceptRel

/-! ## Two runs at once

Two solvers, possibly on two fields, are followed through a relation between their runs.  If a step
keeps the relation or fails in both (`Solver.AdvanceCoupled`), then so does any number of steps
(`Solver.advanceBy_coupled`), and the two streams go on for the same number of pulls, giving states
of related runs, and end with related errors (`Trajectory.Coupled.item`).

The loops inside a step are those over the variables and over the runs of an extrapolation.  What an
attempt announces plays no part, so its result is that of the same loop over results
(`Attempt.result_mapM_eq`, `Attempt.result_foldlM_eq`).
-/

namespace Attempt

variable {α ε β γ : Type}

/-- The result of a row of attempts is that of the row of their results. -/
theorem result_mapM_eq (f : β → Attempt α ε γ) (l : List β) :
    (l.mapM f).result = l.mapM fun b => (f b).result := by
  induction l with
  | nil => rfl
  | cons b l ih =>
    rw [List.mapM_cons, List.mapM_cons, result_bind]
    congr 1
    funext c
    rw [result_bind, ih]
    rfl

/-- The result of a loop of attempts is that of the loop of their results. -/
theorem result_foldlM_eq (f : γ → β → Attempt α ε γ) (l : List β) (c : γ) :
    (l.foldlM f c).result = l.foldlM (fun c b => (f c b).result) c := by
  induction l generalizing c with
  | nil => rfl
  | cons b l ih =>
    rw [List.foldlM_cons, List.foldlM_cons, result_bind]
    congr 1
    funext c'
    exact ih c'

end Attempt

section

variable {α : Type} {E : SolverError α → SolverError α → Prop} {R : Run α → Run α → Prop}

/-- Any number of steps keeps a relation that one step keeps. -/
theorem Solver.advanceBy_coupled {next next' : Run α → SolverAttempt α (Run α)}
    (hnext : ∀ r r', R r r' → ExceptRel E R (next r).result (next' r').result) (count : ℕ)
    {r r' : Run α} (h : R r r') :
    ExceptRel E R (advanceBy next count r).result (advanceBy next' count r').result := by
  induction count generalizing r r' with
  | zero => exact .ok h
  | succ count ih =>
    unfold advanceBy
    rw [Attempt.result_bind, Attempt.result_bind]
    exact (hnext r r' h).bind fun _ _ hR => ih hR

variable [Arithmetic α] [LT α] [DecidableLT α] [Finiteness α]

/-- A step of one solver and a step of another keep a relation between their runs, or both fail. -/
def Solver.AdvanceCoupled (E : SolverError α → SolverError α → Prop) (R : Run α → Run α → Prop)
    (s s' : Solver α) (field field' : VectorField α) : Prop :=
  ∀ r r', R r r' → ExceptRel E R (s.advance field r).result (s'.advance field' r').result

namespace Trajectory

/-- Two trajectories whose runs are related, or which have both ended. -/
inductive Coupled (R : Run α → Run α → Prop) (s s' : Solver α) (field field' : VectorField α) :
    Trajectory α → Trajectory α → Prop where
  | running {r r' : Run α} (h : R r r') :
    Coupled R s s' field field' ⟨s, field, r, false⟩ ⟨s', field', r', false⟩
  | ended {t t' : Trajectory α} (h : t.ended = true) (h' : t'.ended = true) :
    Coupled R s s' field field' t t'

variable {S : State α → State α → Prop} {s s' : Solver α} {field field' : VectorField α}
  {t t' : Trajectory α}

/-- Coupled trajectories give states of related runs and stay coupled, or give related errors and
end, or give nothing. -/
theorem Coupled.pull (hadvance : Solver.AdvanceCoupled E R s s' field field')
    (hstate : ∀ r r', R r r' → S (r.state field) (r'.state field'))
    (h : Coupled R s s' field field' t t') :
    Option.Rel (ExceptRel E S) t.pull.item t'.pull.item ∧
      Coupled R s s' field field' t.pull.rest t'.pull.rest := by
  cases h with
  | @running r r' hR =>
    have hstep := hadvance r r' hR
    generalize hresult : (s.advance field r).result = result,
      hresult' : (s'.advance field' r').result = result' at hstep
    cases hstep with
    | ok hnext =>
      obtain ⟨hitem, hrest⟩ := pull_of_ok (t := ⟨s, field, r, false⟩) rfl hresult
      obtain ⟨hitem', hrest'⟩ := pull_of_ok (t := ⟨s', field', r', false⟩) rfl hresult'
      rw [hitem, hitem', hrest, hrest']
      exact ⟨.some (.ok (hstate _ _ hnext)), .running hnext⟩
    | error hE =>
      obtain ⟨hitem, hrest⟩ := pull_of_error (t := ⟨s, field, r, false⟩) rfl hresult
      obtain ⟨hitem', hrest'⟩ := pull_of_error (t := ⟨s', field', r', false⟩) rfl hresult'
      rw [hitem, hitem', hrest, hrest']
      exact ⟨.some (.error hE), .ended rfl rfl⟩
  | ended hended hended' =>
    obtain ⟨hitem, hrest⟩ := pull_of_ended hended
    obtain ⟨hitem', hrest'⟩ := pull_of_ended hended'
    rw [hitem, hitem', hrest, hrest']
    exact ⟨.none, .ended hended hended'⟩

/-- Coupled trajectories end at the same pull, with related errors, and give states of related runs
until then. -/
theorem Coupled.item (hadvance : Solver.AdvanceCoupled E R s s' field field')
    (hstate : ∀ r r', R r r' → S (r.state field) (r'.state field'))
    (h : Coupled R s s' field field' t t') (n : ℕ) :
    Option.Rel (ExceptRel E S) (t.item n) (t'.item n) := by
  induction n generalizing t t' with
  | zero => exact (h.pull hadvance hstate).1
  | succ n ih => exact ih (h.pull hadvance hstate).2

/-- Coupled trajectories whose runs have the same states, and which fail with the same errors, give
the same. -/
theorem Coupled.item_eq (hadvance : Solver.AdvanceCoupled Eq R s s' field field')
    (hstate : ∀ r r', R r r' → r.state field = r'.state field')
    (h : Coupled R s s' field field' t t') (n : ℕ) : t.item n = t'.item n := by
  have hitem := h.item hadvance hstate n
  generalize t.item n = item, t'.item n = item' at hitem
  cases hitem with
  | none => rfl
  | some h => rw [h.eq]

end Trajectory

end

end Fluxion
