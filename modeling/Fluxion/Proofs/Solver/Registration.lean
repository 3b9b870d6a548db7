import Fluxion.Solver.Catalogue
import Mathlib.Data.List.Nodup

/-!
# What a catalogue remembers of its registrations

A catalogue is filled by registrations, one after the other.  It lists every key that was ever
registered once, in the order in which the keys came up first, and under each key it has the solver
that was registered last (`Catalogue.Records`); one registration keeps this
(`Catalogue.Records.register`), so every sequence of them does (`Catalogue.Records.registerAll`).

Solvers are asked for by key or by the name that they show, and the first entry that fits answers. 
A key therefore leads to its own solver unless an earlier entry shows the key as its name: that
entry stands before it and answers instead (`Catalogue.registerAll_answers`).
-/

set_option autoImplicit false

namespace Fluxion.Catalogue

variable {α : Type}

/-- Registers solvers under keys, one after the other. -/
def registerAll (c : Catalogue α) (calls : List (String × Solver α)) : Catalogue α :=
  calls.foldl (fun c call => c.register call.1 call.2) c

/-- The solver that was registered last under a key. -/
def latest? (history : List (String × Solver α)) (key : String) : Option (Solver α) :=
  history.reverse.lookup key

/-- The solver that was registered last under a key shows a name. -/
def Shows (history : List (String × Solver α)) (key name : String) : Prop :=
  (latest? history key).map (·.description.name) = some name

/-- Whether a key shows a name can be computed from the history. -/
instance (history : List (String × Solver α)) (key name : String) :
    Decidable (Shows history key name) :=
  inferInstanceAs (Decidable (_ = _))

section Latest

variable {history : List (String × Solver α)} {key other : String} {s : Solver α}

/-- The registration made last is the latest for its key. -/
theorem latest_append_self : latest? (history ++ [(key, s)]) key = some s := by
  rw [latest?, List.reverse_concat, List.lookup_cons_self]

/-- A registration under another key changes nothing for a key. -/
theorem latest_append_of_ne (h : other ≠ key) :
    latest? (history ++ [(key, s)]) other = latest? history other := by
  rw [latest?, List.reverse_concat, List.lookup_cons, beq_false_of_ne h, latest?]

end Latest

/-- A catalogue as a history of registrations leaves it. -/
structure Records (c : Catalogue α) (history : List (String × Solver α)) : Prop where
  /-- The keys stand in the order in which they came up first. -/
  keys_eq : c.keys = (history.map (·.1)).eraseDups
  nodup_keys : c.keys.Nodup
  /-- Under each key stands the solver that was registered last. -/
  latest_eq : ∀ entry ∈ c.entries, latest? history entry.1 = some entry.2

/-- The empty catalogue records the empty history. -/
theorem records_empty : ({} : Catalogue α).Records [] :=
  ⟨rfl, List.nodup_nil, fun _ h => absurd h List.not_mem_nil⟩

/-- The key of an entry is one of the keys. -/
theorem mem_keys_of_mem {c : Catalogue α} {entry : String × Solver α} (h : entry ∈ c.entries) :
    entry.1 ∈ c.keys :=
  List.mem_map_of_mem h

section Registering

variable {c : Catalogue α} {key : String} {s : Solver α}

/-- The entries after a registration: a key that was there keeps its place. -/
theorem keys_register :
    (c.register key s).keys = if key ∈ c.keys then c.keys else c.keys ++ [key] := by
  unfold register
  split
  · unfold keys
    rw [List.map_map]
    refine List.map_congr_left fun entry _ => ?_
    show (if entry.1 = key then (key, s) else entry).1 = entry.1
    split
    · rename_i heq
      exact heq.symm
    · rfl
  · exact List.map_append

/-- An entry after a registration is the new one, or one that was there under another key. -/
theorem mem_entries_register {entry : String × Solver α} (h : entry ∈ (c.register key s).entries) :
    entry = (key, s) ∨ entry ∈ c.entries ∧ entry.1 ≠ key := by
  unfold register at h
  split at h
  · obtain ⟨former, hformer, rfl⟩ := List.mem_map.mp h
    split
    · exact .inl rfl
    · rename_i hne
      exact .inr ⟨hformer, hne⟩
  · rename_i hnew
    obtain hformer | hadded := List.mem_append.mp h
    · exact .inr ⟨hformer, fun heq => hnew (heq ▸ mem_keys_of_mem hformer)⟩
    · exact .inl (List.mem_singleton.mp hadded)

end Registering

namespace Records

variable {c : Catalogue α} {history : List (String × Solver α)}

/-- The keys of a catalogue are those of its history. -/
theorem mem_keys_iff (h : c.Records history) {key : String} :
    key ∈ c.keys ↔ key ∈ history.map (·.1) := by
  rw [h.keys_eq, List.mem_eraseDups]

/-- One more registration. -/
theorem register (h : c.Records history) (key : String) (s : Solver α) :
    (c.register key s).Records (history ++ [(key, s)]) where
  keys_eq := by
    rw [keys_register, List.map_append, List.eraseDups_append, ← h.keys_eq]
    split
    · rename_i hknown
      have hrest : [key].removeAll (history.map (·.1)) = [] := by
        simpa [List.removeAll] using h.mem_keys_iff.mp hknown
      rw [List.map_singleton, hrest, List.eraseDups_nil, List.append_nil]
    · rename_i hnew
      have hrest : [key].removeAll (history.map (·.1)) = [key] := by
        simpa [List.removeAll] using fun hmem => hnew (h.mem_keys_iff.mpr hmem)
      rw [List.map_singleton, hrest, List.eraseDups_cons, List.filter_nil, List.eraseDups_nil]
  nodup_keys := by
    rw [keys_register]
    split
    · exact h.nodup_keys
    · rename_i hnew
      rw [← List.concat_eq_append]
      exact h.nodup_keys.concat hnew
  latest_eq := by
    intro entry hentry
    obtain rfl | ⟨hformer, hne⟩ := mem_entries_register hentry
    · exact latest_append_self
    · rw [latest_append_of_ne hne]
      exact h.latest_eq entry hformer

/-- Any number of registrations more. -/
theorem registerAll (h : c.Records history) (calls : List (String × Solver α)) :
    (c.registerAll calls).Records (history ++ calls) := by
  induction calls generalizing c history with
  | nil =>
    rw [List.append_nil]
    exact h
  | cons call calls ih =>
    have hnext := ih (h.register call.1 call.2)
    rwa [List.append_assoc, List.singleton_append] at hnext

/-- The first key that is the name, or whose solver shows the name, answers. -/
theorem get_of_split (h : c.Records history) {before after : List String} {key name : String}
    (hkeys : c.keys = before ++ key :: after) (hkey : key = name ∨ Shows history key name)
    (hbefore : ∀ other ∈ before, other ≠ name ∧ ¬ Shows history other name) :
    ∃ s, latest? history key = some s ∧ c.get? name = some s := by
  obtain ⟨front, rest, hentries, rfl, hrest⟩ := List.map_eq_append_iff.mp hkeys
  obtain ⟨⟨own, s⟩, back, rfl, rfl, -⟩ := List.map_eq_cons_iff.mp hrest
  have hlatest : latest? history own = some s := h.latest_eq (own, s) (by simp [hentries])
  have hfits : own = name ∨ s.description.name = name := by
    obtain hsame | hshown := hkey
    · exact .inl hsame
    · rw [Shows, hlatest] at hshown
      exact .inr (Option.some.inj hshown)
  have hfront : ∀ entry ∈ front, ¬ (entry.1 = name ∨ entry.2.description.name = name) := by
    rintro entry hentry (hsame | hshown)
    · exact (hbefore entry.1 (List.mem_map_of_mem hentry)).1 hsame
    · have hmem : entry ∈ c.entries := by simp [hentries, hentry]
      refine (hbefore entry.1 (List.mem_map_of_mem hentry)).2 ?_
      rw [Shows, h.latest_eq entry hmem, Option.map_some, hshown]
  refine ⟨s, hlatest, ?_⟩
  have hfound : c.entries.find? (fun entry =>
      decide (entry.1 = name) || decide (entry.2.description.name = name)) = some (own, s) := by
    refine List.find?_eq_some_iff_append.mpr ⟨by simpa using hfits, front, back, hentries, ?_⟩
    intro entry hentry
    simpa using hfront entry hentry
  show (c.entries.find? _).map (·.2) = _
  rw [hfound]
  rfl

end Records

/-- The catalogue of the built-in solvers is filled by registrations. -/
theorem registerAll_entries_of_standard [Arithmetic α] [LT α] [DecidableLT α] [Finiteness α]
    {newton : NewtonSettings α} {c : Catalogue α} (h : standard newton = .ok c) :
    ({} : Catalogue α).registerAll c.entries = c := by
  unfold standard Solver.withNewton at h
  cases hcheck : newton.check with
  | error e =>
    rw [hcheck] at h
    cases h
  | ok =>
    rw [hcheck] at h
    cases h
    simp [registerAll, register, keys]

/-- Asked for a key behind the keys `before`, a catalogue gives the solver that was registered last
under it, unless one of `before` shows the key as its name.  Then the first of these answers. -/
structure Answers (c : Catalogue α) (history : List (String × Solver α)) (before : List String)
    (key : String) : Prop where
  own : (∀ other ∈ before, ¬ Shows history other key) →
    ∃ s, latest? history key = some s ∧ c.get? key = some s
  earlier : ∀ front other back, before = front ++ other :: back → Shows history other key →
    (∀ first ∈ front, ¬ Shows history first key) →
    ∃ s, latest? history other = some s ∧ c.get? key = some s

/-- What a catalogue answers for a key is the latest solver of the history. -/
theorem Records.answers {c : Catalogue α} {history : List (String × Solver α)}
    (h : c.Records history) {before after : List String} {key : String}
    (hkeys : c.keys = before ++ key :: after) : c.Answers history before key := by
  have hother : ∀ other ∈ before, other ≠ key := by
    intro other hmem heq
    have hnodup := h.nodup_keys
    rw [hkeys, List.nodup_append] at hnodup
    exact hnodup.2.2 other hmem key List.mem_cons_self heq
  constructor
  · intro hbefore
    exact h.get_of_split hkeys (.inl rfl) fun other hmem => ⟨hother other hmem, hbefore other hmem⟩
  · rintro front other back rfl hshows hfront
    rw [List.append_assoc, List.cons_append] at hkeys
    exact h.get_of_split hkeys (.inr hshows) fun first hmem =>
      ⟨hother first (List.mem_append_left _ hmem), hfront first hmem⟩

/-- After any registrations on an empty catalogue or on that of the built-in solvers, the keys are
those that were ever registered, each once and in the order in which they came up first.  Each key
leads to the solver that was registered last under it, unless the solver of an earlier key shows the
key as its name. -/
theorem registerAll_answers [Arithmetic α] [LT α] [DecidableLT α] [Finiteness α]
    {origin : Catalogue α} (horigin : origin = {} ∨ ∃ newton, standard newton = .ok origin)
    (calls : List (String × Solver α)) :
    (origin.registerAll calls).Records (origin.entries ++ calls) ∧
      ∀ before key after, (origin.registerAll calls).keys = before ++ key :: after →
        (origin.registerAll calls).Answers (origin.entries ++ calls) before key := by
  have hrecords : origin.Records origin.entries := by
    obtain rfl | ⟨newton, hstandard⟩ := horigin
    · exact records_empty
    · have hfilled := records_empty.registerAll origin.entries
      rwa [registerAll_entries_of_standard hstandard] at hfilled
  have hafter := hrecords.registerAll calls
  exact ⟨hafter, fun before key after hkeys => hafter.answers hkeys⟩

/-- A key that was registered twice leads to its second solver, and a key that is the name of a
built-in solver leads to the latter. -/
theorem registerAll_answers_shownName :
    ∃ c : Catalogue Float, standard .standard = .ok c ∧
      (c.registerAll [("own", .midpoint), ("Heun", .euler), ("own", .euler)]).keys =
        ["euler", "midpoint", "heun", "kutta3", "rk4", "semi_implicit", "own", "Heun"] ∧
      (c.registerAll [("own", .midpoint), ("Heun", .euler), ("own", .euler)]).get? "own" =
        some .euler ∧
      (c.registerAll [("own", .midpoint), ("Heun", .euler), ("own", .euler)]).get? "Heun" =
        some .heun := by
  obtain ⟨c, hc⟩ : ∃ c : Catalogue Float, standard .standard = .ok c := ⟨_, rfl⟩
  obtain ⟨hrecords, hanswers⟩ := registerAll_answers (.inr ⟨_, hc⟩)
    [("own", .midpoint), ("Heun", .euler), ("own", .euler)]
  cases hc
  refine ⟨_, rfl, hrecords.keys_eq, ?_, ?_⟩
  · obtain ⟨s, hs, hget⟩ := (hanswers
      ["euler", "midpoint", "heun", "kutta3", "rk4", "semi_implicit"]
      "own" ["Heun"] rfl).own (by decide)
    cases hs
    exact hget
  · obtain ⟨s, hs, hget⟩ := (hanswers
      ["euler", "midpoint", "heun", "kutta3", "rk4", "semi_implicit", "own"]
      "Heun" [] rfl).earlier ["euler", "midpoint"] "heun"
      ["kutta3", "rk4", "semi_implicit", "own"] rfl (by decide) (by decide)
    cases hs
    exact hget

/-- Euler's method that is registered under the name of Heun's is not found there. -/
theorem get_ne_latest_shownName :
    ∃ c : Catalogue Float, standard .standard = .ok c ∧
      latest? (c.entries ++ [("Heun", .euler)]) "Heun" = some .euler ∧
      (c.registerAll [("Heun", .euler)]).get? "Heun" ≠ some .euler := by
  refine ⟨_, rfl, rfl, ?_⟩
  intro h
  cases h

end Fluxion.Catalogue
