import Fluxion.Proofs.Equations.WellFormed
import Fluxion.Proofs.Solver.Rearrangement

/-!
# The order of the equations

Texts that form a system form one in every order, and explicit solvers give the same states by name
whatever the order is (`Equations.explicit_order_irrelevant`).

A formula finds its arguments by name when it is bound, so in another order its slots are other
places with the same names, and its value at aligned rows of values is the same
(`BoundFormula.value_eq`).  No name stands for two equations, so the right-hand sides at two places
of one name have come from one equation (`Equations.IsBoundTo.sameUpToOrder`).
-/

set_option autoImplicit false

namespace Fluxion

section

variable {α : Type} [Elementary α] [Arithmetic α] {names names' : List String}
  {independent : String}

/-! ## Slots -/

omit [Arithmetic α] in
/-- The places that a name is found at in two orders hold the same value. -/
theorem Slot.value_eq_of_find {name : String} {slot slot' : Slot} (hperm : names'.Perm names)
    (h : Slot.find? names independent name = some slot)
    (h' : Slot.find? names' independent name = some slot') {x x' : List α}
    (hx : Aligned names names' x x') (t : α) : slot.value t x = slot'.value t x' := by
  unfold Slot.find? at h h'
  cases hi : names.idxOf? name with
  | some i =>
    have hmem : name ∈ names' := by
      rw [hperm.mem_iff, ← List.isSome_idxOf?, hi]
      rfl
    rw [← List.isSome_idxOf?] at hmem
    obtain ⟨j, hj⟩ := Option.isSome_iff_exists.mp hmem
    rw [hi] at h
    rw [hj] at h'
    cases h
    cases h'
    obtain ⟨hilt, hin, -⟩ := List.idxOf?_eq_some_iff.mp hi
    obtain ⟨hjlt, hjn, -⟩ := List.idxOf?_eq_some_iff.mp hj
    have hplace : SamePlace names names' i j := by
      refine ⟨name, ?_, ?_⟩
      · rw [List.getElem?_eq_getElem hilt, hin]
      · rw [List.getElem?_eq_getElem hjlt, hjn]
    simp only [Slot.value, List.getD_eq_getElem?_getD, hx.getElem?_eq i j hplace]
  | none =>
    have hj : names'.idxOf? name = none := by
      rw [List.idxOf?_eq_none_iff, hperm.mem_iff]
      exact List.idxOf?_eq_none_iff.mp hi
    rw [hi] at h
    rw [hj] at h'
    dsimp only at h h'
    split at h
    · rename_i hindependent
      rw [if_pos hindependent] at h'
      cases h
      cases h'
      rfl
    · cases h

section

variable {label label' : String} {f : Formula α} {b b' : BoundFormula α}

/-- A formula that is bound in two orders has the same value at aligned rows. -/
theorem BoundFormula.value_eq (hperm : names'.Perm names)
    (h : bind label names independent f = .ok b) (h' : bind label' names' independent f = .ok b')
    {x x' : List α} (hx : Aligned names names' x x') (t : α) : b.value t x = b'.value t x' := by
  unfold value
  rw [formula_of_bind h, formula_of_bind h']
  refine congrArg f.valueAt (funext fun k => ?_)
  rw [argument_eq_slot, argument_eq_slot]
  cases hname : f.parameters[k]? with
  | some name =>
    obtain ⟨slot, hslot, hfind⟩ := exists_slot_of_bind h hname
    obtain ⟨slot', hslot', hfind'⟩ := exists_slot_of_bind h' hname
    rw [hslot, hslot', Option.map_some, Option.map_some,
      Slot.value_eq_of_find hperm hfind hfind' hx t]
  | none =>
    have hk : f.parameters.length ≤ k := List.getElem?_eq_none_iff.mp hname
    have hslots : b.slots[k]? = none :=
      List.getElem?_eq_none ((length_slots_of_bind h).trans_le hk)
    have hslots' : b'.slots[k]? = none :=
      List.getElem?_eq_none ((length_slots_of_bind h').trans_le hk)
    rw [hslots, hslots', Option.map_none, Option.map_none]

end

namespace Equations

variable {s s' : Equations α} {formulas formulas' : List (String × Formula α)}

/-- The variables and the right-hand sides of a system are these, bound in this order. -/
structure IsBoundTo (s : Equations α) (independent : String)
    (formulas : List (String × Formula α)) : Prop where
  names_eq : s.names = formulas.map (·.1)
  nodup : s.names.Nodup
  bound : formulas.mapM (fun equation =>
    BoundFormula.bind equation.1 s.names independent equation.2) = .ok s.rightHandSides

omit [Elementary α] [Arithmetic α] in
/-- A system that was created is bound to the formulas that it was created from. -/
theorem isBoundTo_of_create (h : create independent formulas = .ok s) :
    s.IsBoundTo independent formulas := by
  obtain ⟨-, hnodup, -, rightHandSides, hbound, rfl⟩ := create_eq_ok_iff.mp h
  exact ⟨rfl, hnodup, hbound⟩

omit [Elementary α] [Arithmetic α] in
/-- What is added to the partial derivatives leaves the right-hand sides bound. -/
theorem IsBoundTo.kept (h : s.IsBoundTo independent formulas) (hnames : s'.names = s.names)
    (hrightHandSides : s'.rightHandSides = s.rightHandSides) :
    s'.IsBoundTo independent formulas := by
  refine ⟨hnames.trans h.names_eq, hnames ▸ h.nodup, ?_⟩
  rw [hnames, hrightHandSides]
  exact h.bound

omit [Elementary α] [Arithmetic α] in
/-- The right-hand side at the place of a name. -/
theorem IsBoundTo.exists_bind (h : s.IsBoundTo independent formulas) {i : ℕ} {name : String}
    (hi : s.names[i]? = some name) :
    ∃ f b, (name, f) ∈ formulas ∧ s.rightHandSides[i]? = some b ∧
      BoundFormula.bind name s.names independent f = .ok b := by
  rw [h.names_eq, List.getElem?_map, Option.map_eq_some_iff] at hi
  obtain ⟨⟨own, f⟩, hi, rfl⟩ := hi
  obtain ⟨b, hb, hbind⟩ := exists_getElem?_of_mapM h.bound hi
  exact ⟨f, b, List.mem_of_getElem? hi, hb, hbind⟩

/-- The same formulas in two orders make the same system up to order. -/
theorem IsBoundTo.sameUpToOrder (h : s.IsBoundTo independent formulas)
    (h' : s'.IsBoundTo independent formulas') (hperm : formulas'.Perm formulas) :
    s.toField.SameUpToOrder s'.toField := by
  have hnames : s'.names.Perm s.names := by
    rw [h.names_eq, h'.names_eq]
    exact hperm.map _
  refine ⟨h.nodup, hnames, ?_⟩
  rintro i j ⟨name, hi, hj⟩ t x x' hx
  obtain ⟨f, b, hf, hb, hbind⟩ := h.exists_bind hi
  obtain ⟨f', b', hf', hb', hbind'⟩ := h'.exists_bind hj
  have hkeys : (formulas.map (·.1)).Nodup := h.names_eq ▸ h.nodup
  have hsame : (name, f') = (name, f) :=
    List.inj_on_of_nodup_map hkeys (hperm.mem_iff.mp hf') hf rfl
  obtain rfl : f' = f := (Prod.ext_iff.mp hsame).2
  have hleft : s.toField.component i t x = b.value t x := by
    show s.component i t x = _
    unfold component
    rw [hb]
  have hright : s'.toField.component j t x' = b'.value t x' := by
    show s'.component j t x' = _
    unfold component
    rw [hb']
  rw [hleft, hright]
  exact BoundFormula.value_eq hnames hbind hbind' hx t

omit [Elementary α] [Arithmetic α] in
/-- Whether a row of formulas is closed does not depend on their order. -/
theorem IsClosed.perm (h : IsClosed independent formulas) (hperm : formulas'.Perm formulas) :
    IsClosed independent formulas' := by
  have hnames : (formulas'.map (·.1)).Perm (formulas.map (·.1)) := hperm.map _
  refine ⟨?_, hnames.nodup_iff.mpr h.nodup, ?_, fun equation hequation => ?_⟩
  · rintro rfl
    exact h.nonempty hperm.nil_eq.symm
  · rw [hnames.mem_iff]
    exact h.independent_not_mem
  · intro name hname
    rw [hnames.mem_iff]
    exact h.closed equation (hperm.mem_iff.mp hequation) name hname

end Equations

end

namespace Equations

variable {sources sources' : List String} {settings : Settings} {s : Equations Float}

/-- Texts that form a system form the same system up to order in every order. -/
theorem exists_ofSources_of_perm (h : ofSources sources settings = .ok s)
    (hperm : sources'.Perm sources) :
    ∃ s', ofSources sources' settings = .ok s' ∧ s.toField.SameUpToOrder s'.toField := by
  obtain ⟨formulas, s₀, hread, hcreate, hattach⟩ := ofSources_eq_ok_iff.mp h
  obtain ⟨formulas', hread', hformulas⟩ := List.perm_comp_forall₂ hperm (mapM_eq_ok_iff.mp hread)
  rw [← mapM_eq_ok_iff] at hread'
  have hclosed : IsClosed settings.independent formulas' :=
    (exists_create_iff.mp ⟨s₀, hcreate⟩).perm hformulas
  obtain ⟨s₀', hcreate'⟩ := exists_create_iff.mpr hclosed
  have hself := isSelfContained_of_read hread hcreate
  have hself' := isSelfContained_of_read hread' hcreate'
  obtain ⟨s', hattach'⟩ := (exists_attachJacobian_iff hself').mpr
    ((exists_attachJacobian_iff hself).mp ⟨s, hattach⟩)
  obtain ⟨hnames, hrightHandSides⟩ := kept_of_attachJacobian hattach
  obtain ⟨hnames', hrightHandSides'⟩ := kept_of_attachJacobian hattach'
  refine ⟨s', ofSources_eq_ok_iff.mpr ⟨formulas', s₀', hread', hcreate', hattach'⟩, ?_⟩
  have hbound := (isBoundTo_of_create hcreate).kept hnames hrightHandSides
  have hbound' := (isBoundTo_of_create hcreate').kept hnames' hrightHandSides'
  exact hbound.sameUpToOrder hbound' hformulas

/-- The order of the equations does not matter to an explicit solver.  If texts form a system, they
form one in every order; a solver that can be launched on one of the systems can be launched on the
other; and at every pull both streams give the same error, or states at the same time with the same
value for every name, or nothing. -/
theorem explicit_order_irrelevant (sources sources' : List String) (settings : Settings)
    (s : Equations Float) (h : ofSources sources settings = .ok s)
    (hperm : sources'.Perm sources) :
    ∃ s', ofSources sources' settings = .ok s' ∧
      ∀ solver : Solver Float, solver.IsExplicit → ∀ initial step,
        ((∃ t, (Trajectory.launch solver s.toField initial step).result = .ok t) ↔
          ∃ t, (Trajectory.launch solver s'.toField initial step).result = .ok t) ∧
        ∀ t t', (Trajectory.launch solver s.toField initial step).result = .ok t →
          (Trajectory.launch solver s'.toField initial step).result = .ok t' →
          ∀ n, SameItem (t.item n) (t'.item n) := by
  obtain ⟨s', hs', hfield⟩ := exists_ofSources_of_perm h hperm
  refine ⟨s', hs', fun solver hsolver initial step => ⟨⟨?_, ?_⟩, ?_⟩⟩
  · rintro ⟨t, ht⟩
    obtain ⟨t', ht', -⟩ := Trajectory.exists_launch_of_sameUpToOrder hsolver hfield ht
    exact ⟨t', ht'⟩
  · rintro ⟨t', ht'⟩
    obtain ⟨t, ht, -⟩ := Trajectory.exists_launch_of_sameUpToOrder hsolver hfield.symm ht'
    exact ⟨t, ht⟩
  · intro t t' ht ht' n
    obtain ⟨t'', ht'', hsame⟩ := Trajectory.exists_launch_of_sameUpToOrder hsolver hfield ht
    cases ht'.symm.trans ht''
    exact hsame.sameItem n

/-- The equations of the pendulum in both orders, under the extrapolation of the classical method
from three runs: both streams start from an initial state that names the velocity first, and give
the same. -/
theorem explicit_order_irrelevant_pendulum :
    let solver : Solver Float := .extrapolation .classical 3 (by decide)
    let initial : State Float := ⟨0, ["v", "x"], [0.25, 0.5]⟩
    ∃ s s' t t', ofSources pendulum {} = .ok s ∧
      ofSources ["v' = -sin(x)", "x' = v"] {} = .ok s' ∧
      (Trajectory.launch solver s.toField initial 0.125).result = .ok t ∧
      (Trajectory.launch solver s'.toField initial 0.125).result = .ok t' ∧
      ∀ n, SameItem (t.item n) (t'.item n) := by
  intro solver initial
  obtain ⟨s, hs⟩ : ∃ s, ofSources pendulum {} = .ok s :=
    exists_ofSources_iff.mpr ⟨⟨pendulumEquations, isSystem_pendulum⟩, fun h => by cases h⟩
  have hexplicit : solver.IsExplicit := rfl
  have hperm : ["v' = -sin(x)", "x' = v"].Perm pendulum := .swap _ _ _
  obtain ⟨s', hs', hsolvers⟩ := explicit_order_irrelevant pendulum _ {} s hs hperm
  obtain ⟨hlaunch, hsame⟩ := hsolvers solver hexplicit initial 0.125
  obtain ⟨equations, hequations, hnames, -⟩ := equations_of_ofSources hs
  rw [hequations.unique isSystem_pendulum] at hnames
  have hfits : initial.orderedValues s.toField.names = .ok [0.5, 0.25] := by
    show initial.orderedValues s.names = _
    rw [hnames]
    rfl
  have hstart : Run.start s.toField initial 0.125 = .ok _ := Run.result_start (by decide) hfits
  rw [← Solver.result_launch_of_suits (hexplicit.suits _)] at hstart
  have ht := Trajectory.result_launch hstart
  obtain ⟨t', ht'⟩ := hlaunch.mp ⟨_, ht⟩
  exact ⟨s, s', _, t', hs, hs', ht, ht', hsame _ t' ht ht'⟩

end Equations

end Fluxion
