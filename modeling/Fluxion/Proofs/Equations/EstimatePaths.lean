import Fluxion.Proofs.Equations.Attachments
import Mathlib.Data.List.Nodup

/-!
# Two ways to a difference quotient

The difference quotient of a formula at a point and that of a right-hand side of a system along a
variable are the same number (`Equations.estimate_eq_partialDerivative`).  Yet the first computes
its values at one copy of the point that keeps the coordinate written last, and the second at a new
copy for each value; the first counts the variables of the formula, and the second those of the
system.

The copy of the first differs from the point in one coordinate only, and that coordinate is written
before each value, so each value is the one at the point itself (`Difference.run_evaluateAt`).  The
point of the formula is read from the names of its variables, and to write one of its coordinates is
to move the variable (`set_map_parameters`).
-/

set_option autoImplicit false

namespace Fluxion

open Function (update)

variable {α : Type} [Elementary α] [Arithmetic α]

namespace Difference

section

variable {σ ε : Type} {I : σ → Prop} {c : α → StateT σ (Except ε) α} {g : α → α}

omit [Elementary α] in
/-- If what is kept between the computations of values does not change them, the quotient is that
of a function. -/
theorem run_slope (hc : ∀ v b, I b → ∃ b', (c v).run b = .ok (g v, b') ∧ I b') (d : Difference α)
    (x : α) {b : σ} (hb : I b) : ∃ b', (d.slope c x).run b = .ok (d.derivative g x, b') := by
  have hpair : ∀ u v (k : α → α → α), ∃ b', (do
      let first ← c u
      let second ← c v
      return k first second : StateT σ (Except ε) α).run b = .ok (k (g u) (g v), b') := by
    -- what the first value leaves behind is as good to the second as what it found
    intro u v k
    obtain ⟨b₁, hu, hb₁⟩ := hc u b hb
    obtain ⟨b₂, hv, -⟩ := hc v b₁ hb₁
    exact ⟨b₂, bind_eq_ok_iff.mpr ⟨_, hu, bind_eq_ok_iff.mpr ⟨_, hv, rfl⟩⟩⟩
  unfold slope derivative
  cases d.scheme with
  | central => exact hpair _ _ fun above below => (above - below) / (two * d.increment)
  | left => exact hpair _ _ fun here below => (here - below) / d.increment
  | right => exact hpair _ _ fun above here => (above - here) / d.increment

end

variable {f : Formula α} {point : List α} {index : ℕ} {g : α → α}

/-- A value that is computed at the copy is the value at the point with the coordinate moved,
whatever was written there before. -/
theorem run_evaluateAt (hf : ∀ v, f.evaluate (point.set index v) = .ok (g v)) (v : α)
    (b : List α) (hb : ∀ w, b.set index w = point.set index w) :
    ∃ b', (evaluateAt f index v).run b = .ok (g v, b') ∧
      ∀ w, b'.set index w = point.set index w := by
  have hvalue : (f.evaluate (b.set index v)).mapError .evaluation =
      (.ok (g v) : Except (DifferenceError α) α) := by
    rw [hb, hf]
    rfl
  refine ⟨b.set index v, bind_eq_ok_iff.mpr ⟨_, hvalue, rfl⟩, fun w => ?_⟩
  rw [List.set_set, hb]

variable [LT α] [DecidableLT α] [Finiteness α]

/-- The difference quotient of a formula at a point is that of the function that its values with
the coordinate moved are. -/
theorem partialDerivative_eq {d : Difference α} (hd : d.check = .ok ())
    (hpoint : point.length = f.parameters.length)
    (hf : ∀ v, f.evaluate (point.set index v) = .ok (g v)) {x : α} (hx : point[index]? = some x) :
    d.partialDerivative f point index = .ok (d.derivative g x) := by
  obtain ⟨b, hb⟩ := run_slope (run_evaluateAt hf) d x (b := point) fun _ => rfl
  refine bind_eq_ok_iff.mpr ⟨(), hd, ?_⟩
  simp only [hpoint, hx, ne_eq, not_true_eq_false, if_false]
  exact congrArg (Except.map Prod.fst) hb

end Difference

omit [Elementary α] [Arithmetic α] in
/-- To move a coordinate of the point of a formula is to move the variable. -/
theorem set_map_parameters {parameters : List String} (hnodup : parameters.Nodup) {k : ℕ}
    {name : String} (hname : parameters[k]? = some name) (env : String → α) (v : α) :
    (parameters.map env).set k v = parameters.map (update env name v) := by
  obtain ⟨hk, rfl⟩ := List.getElem?_eq_some_iff.mp hname
  rw [hnodup.map_update, if_pos (List.getElem_mem hk), hnodup.idxOf_getElem]

namespace Equations

variable {s s' : Equations α}

/-- The values of a right-hand side along a variable are the values of the formula at the point of
its own variables. -/
theorem evaluate_set {independent : String} {equations : List (String × Formula α)}
    (h : create independent equations = .ok s) {row column : ℕ} {rowName columnName : String}
    {f own : Formula α} (hrow : equations[row]? = some (rowName, f))
    (hcolumn : equations[column]? = some (columnName, own)) (hnodup : f.parameters.Nodup) {k : ℕ}
    (hk : f.parameters[k]? = some columnName) (t : α) {x : List α} (hx : column < x.length)
    (v : α) :
    f.evaluate ((f.parameters.map (environment s.names s.independent t x)).set k v) =
      .ok (s.component row t (x.set column v)) := by
  obtain ⟨b, hb, hbind⟩ := exists_bind_of_create h hrow
  obtain ⟨hlt, hname⟩ := List.getElem?_eq_some_iff.mp (getElem?_names_of_create h hcolumn)
  subst hname
  rw [set_map_parameters hnodup hk, ← environment_set (nodup_of_create h) hlt hx, component, hb]
  exact BoundFormula.evaluate_of_bind hbind t (x.set column v)

variable [LT α] [DecidableLT α] [Finiteness α] {history : List (Attachment α)} {d : Difference α}

/-- Only estimates that can be computed are attached. -/
theorem AttachesTo.check_eq (h : s.AttachesTo history s') (hs : s.estimate = none)
    (hd : s'.estimate = some d) : d.check = .ok () := by
  induction h with
  | nil =>
    rw [hs] at hd
    cases hd
  | @snoc history a s₁ s₂ h ha ih =>
    cases a with
    | entries attached =>
      obtain ⟨added, rfl⟩ := exists_added_of_attach ha
      exact ih hd
    | symbolic evaluator =>
      obtain ⟨added, rfl⟩ := exists_added_of_attachSymbolic ha
      exact ih hd
    | estimate own =>
      obtain ⟨hpositive, rfl⟩ := attachEstimate_eq_ok_iff.mp ha
      cases hd
      exact if_pos hpositive

/-- A system that has estimates and no entries gives the difference quotients of its formulas. -/
theorem slope_eq_partialDerivative {independent : String} {equations : List (String × Formula α)}
    (h : create independent equations = .ok s) (hhistory : s.attachAll history = .ok s')
    (hentries : s'.entries = []) (hd : s'.estimate = some d) {row column : ℕ}
    {rowName columnName : String} {f own : Formula α} (hrow : equations[row]? = some (rowName, f))
    (hcolumn : equations[column]? = some (columnName, own)) (hnodup : f.parameters.Nodup) {k : ℕ}
    (hk : f.parameters[k]? = some columnName) (t : α) {x : List α} (hx : column < x.length) :
    ∃ v, s'.slope? row column t x = some v ∧
      d.partialDerivative f (f.parameters.map (environment s.names s.independent t x)) k =
        .ok v := by
  have hreached := attachesTo_of_attachAll hhistory
  have hcheck := hreached.check_eq (estimate_of_create h) hd
  obtain ⟨hlt, hname⟩ := List.getElem?_eq_some_iff.mp (getElem?_names_of_create h hcolumn)
  have hcoordinate : (f.parameters.map (environment s.names s.independent t x))[k]? =
      some (x.getD column Elementary.undefined) := by
    rw [List.getElem?_map, hk, ← hname, Option.map_some,
      environment_getElem (nodup_of_create h) hlt]
  refine ⟨_, ?_, Difference.partialDerivative_eq hcheck (List.length_map _)
    (evaluate_set h hrow hcolumn hnodup hk t hx) hcoordinate⟩
  obtain ⟨entries, estimate, rfl⟩ := hreached.exists_eq
  cases hentries
  cases hd
  rfl

/-- The two ways to a difference quotient agree.  For every estimate that can be computed, every
formula and every point of as many coordinates as it has variables, the quotient along one of them
is there, and it is the quotient of the function that the values of the formula are when this
coordinate moves.  In a system of formulas that has estimates and no entries, the partial derivative
of a right-hand side along a variable that occurs in it is the quotient of its formula, at the
values of its own variables and along the one with that name. -/
theorem estimate_eq_partialDerivative :
    (∀ (d : Difference α) (f : Formula α) (point : List α) (index : ℕ), d.check = .ok () →
      point.length = f.parameters.length → ∀ hindex : index < point.length,
        ∃ g : α → α, (∀ v, f.evaluate (point.set index v) = .ok (g v)) ∧
          d.partialDerivative f point index = .ok (d.derivative g point[index])) ∧
      ∀ (independent : String) (equations : List (String × Formula α)) (s s' : Equations α)
        (history : List (Attachment α)) (d : Difference α),
        (∀ equation ∈ equations, IsBuilt equation.2) → create independent equations = .ok s →
        s.attachAll history = .ok s' → s'.entries = [] → s'.estimate = some d →
        ∀ (row column : ℕ) (rowName columnName : String) (f own : Formula α),
          equations[row]? = some (rowName, f) → equations[column]? = some (columnName, own) →
          f.expression.mentions columnName = true →
          ∀ (t : α) (x : List α), equations.length ≤ x.length →
            ∃ k v, f.slot? columnName = some k ∧ s'.slope? row column t x = some v ∧
              d.partialDerivative f (f.parameters.map (environment s.names s.independent t x)) k =
                .ok v := by
  constructor
  · intro d f point index hd hpoint hindex
    have hvalue (v : α) : f.evaluate (point.set index v) =
        .ok (f.valueAt fun k => (point.set index v).getD k Elementary.undefined) := by
      unfold Formula.evaluate
      rw [if_neg (by simp [hpoint])]
    exact ⟨_, hvalue, Difference.partialDerivative_eq hd hpoint hvalue
      (List.getElem?_eq_getElem hindex)⟩
  · intro independent equations s s' history d hbuilt h hhistory hentries hd row column rowName
      columnName f own hrow hcolumn hmentions t x hx
    obtain ⟨evaluator, e, he⟩ := hbuilt (rowName, f) (List.mem_of_getElem? hrow)
    have hparameters := Formula.parameters_of_build he
    have hnodup : f.parameters.Nodup := hparameters ▸ Expr.nodup_freeVariables e
    have hmem : columnName ∈ e.occurrences := by
      rw [← Expr.mentions_eq_true_iff, ← Formula.expression_of_build he]
      exact hmentions
    obtain ⟨k, hk⟩ := Formula.exists_slot hmem
    rw [← hparameters] at hk
    obtain ⟨hlt, hname, -⟩ := List.idxOf?_eq_some_iff.mp hk
    obtain ⟨hcolumnlt, -⟩ := List.getElem?_eq_some_iff.mp hcolumn
    obtain ⟨v, hslope, hpartial⟩ := slope_eq_partialDerivative h hhistory hentries hd hrow hcolumn
      hnodup (List.getElem?_eq_some_iff.mpr ⟨hlt, hname⟩) t (hcolumnlt.trans_le hx)
    exact ⟨k, v, hk, hslope, hpartial⟩

/-- Both ways for `x * y`, at a point and as a right-hand side. -/
theorem estimate_eq_partialDerivative_supplied :
    let d : Difference Float := ⟨.left, 0.5⟩
    let f : Formula Float := .interpreted (.binary .mul (.symbol "x") (.symbol "y"))
    (∃ g : Float → Float, (∀ v, f.evaluate ([2, 3].set 1 v) = .ok (g v)) ∧
        d.partialDerivative f [2, 3] 1 = .ok (d.derivative g 3)) ∧
      ∃ s s', create "t" supplied = .ok s ∧ s.attachAll [.estimate d] = .ok s' ∧
        ∀ t x y : Float, ∃ k v, f.slot? "y" = some k ∧ s'.slope? 0 1 t [x, y] = some v ∧
          d.partialDerivative f (f.parameters.map (environment s.names s.independent t [x, y])) k =
            .ok v := by
  intro d f
  have hd : d.check = .ok () := if_pos (by decide)
  have hbuilt : ∀ equation ∈ supplied, IsBuilt equation.2 := by
    intro equation hequation
    refine ⟨.interpreted, equation.2.expression, ?_⟩
    obtain rfl | hequation := List.mem_cons.mp hequation
    · rfl
    · obtain rfl := List.mem_singleton.mp hequation
      rfl
  have hcreate : ∃ s, create "t" supplied = .ok s := ⟨_, rfl⟩
  obtain ⟨s, hs⟩ := hcreate
  have hattach : s.attachAll ([] ++ [.estimate d]) = .ok { s with estimate := some d } :=
    attachAll_append.mpr ⟨s, rfl, attachEstimate_eq_ok_iff.mpr ⟨by decide, rfl⟩⟩
  obtain ⟨hformula, hsystem⟩ := estimate_eq_partialDerivative (α := Float)
  refine ⟨hformula d f [2, 3] 1 hd rfl (by decide), s, _, hs, hattach, fun t x y => ?_⟩
  have hentries : s.entries = [] := entries_of_create hs
  exact hsystem "t" supplied s _ _ d hbuilt hs hattach hentries rfl 0 1 "x" "y" f _ rfl rfl rfl t
    [x, y] (Nat.le_refl _)

end Equations

end Fluxion
