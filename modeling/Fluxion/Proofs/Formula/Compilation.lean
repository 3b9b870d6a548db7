import Fluxion.Proofs.Expr.Variables

/-!
# Compiled programs compute the value

The relation between expressions and their instructions follows the shape of the expression
(`Expr.CompilesTo`).  By induction on it, the instructions of an expression, run on any stack, put
the value of the expression on top of that stack (`Expr.CompilesTo.execute_eq`).  The stack is
arbitrary because the instructions of a right operand run on top of the value of the left one.

What a program asks for is written in its instructions: they are the places of the variables, in
the order in which the variables occur (`Expr.CompilesTo.requests_eq`).
-/

set_option autoImplicit false

namespace Fluxion

variable {α : Type} [Elementary α]

/-- The value that a variable gets through its place among the arguments. -/
def slotValue (slot : String → Option Nat) (args : Nat → α) (name : String) : α :=
  match slot name with
  | some index => args index
  | none => Elementary.undefined

/-- An expression and the instructions that compute it. -/
inductive Expr.CompilesTo (slot : String → Option Nat) :
    Expr α → List (Instruction α) → Prop where
  | number (x : α) : CompilesTo slot (.number x) [.load x]
  | constant (c : Constant) : CompilesTo slot (.constant c) [.load c.value]
  | symbol {name : String} {index : Nat} (h : slot name = some index) :
    CompilesTo slot (.symbol name) [.argument index]
  | neg {inner : Expr α} {code : List (Instruction α)} (h : CompilesTo slot inner code) :
    CompilesTo slot (.neg inner) (code ++ [.neg])
  | binary (op : Operator) {left right : Expr α} {code code' : List (Instruction α)}
    (h : CompilesTo slot left code) (h' : CompilesTo slot right code') :
    CompilesTo slot (.binary op left right) (code ++ code' ++ [.binary op])
  | call {name : String} {f : Builtin} {argument : Expr α} {code : List (Instruction α)}
    (hf : Builtin.ofName? name = some f) (h : CompilesTo slot argument code) :
    CompilesTo slot (.call name argument) (code ++ [.apply f])

namespace Expr

variable {slot : String → Option Nat} {e : Expr α} {code : List (Instruction α)}

/-- The compiler gives the instructions of an expression and nothing else. -/
theorem instructions_eq_ok_iff : e.instructions slot = .ok code ↔ CompilesTo slot e code := by
  constructor
  · intro h
    induction e generalizing code with
    | number x =>
      cases h
      exact .number x
    | constant c =>
      cases h
      exact .constant c
    | symbol name =>
      unfold instructions at h
      split at h
      · rename_i index hindex
        cases h
        exact .symbol hindex
      · cases h
    | neg inner ih =>
      obtain ⟨inside, hinside, rfl⟩ := return_eq_ok_iff.mp h
      exact .neg (ih hinside)
    | binary op left right ihleft ihright =>
      obtain ⟨first, second, hfirst, hsecond, rfl⟩ := return₂_eq_ok_iff.mp h
      exact .binary op (ihleft hfirst) (ihright hsecond)
    | call name argument ih =>
      unfold instructions at h
      split at h
      · rename_i f hf
        obtain ⟨inside, hinside, rfl⟩ := return_eq_ok_iff.mp h
        exact .call hf (ih hinside)
      · cases h
    | marker inner ih => cases h
    | assign target value ihtarget ihvalue => cases h
  · intro h
    induction h with
    | number x => rfl
    | constant c => rfl
    | symbol hindex => rw [instructions, hindex]
    | neg h ih => exact return_eq_ok_iff.mpr ⟨_, ih, rfl⟩
    | binary op h h' ih ih' => exact return₂_eq_ok_iff.mpr ⟨_, _, ih, ih', rfl⟩
    | call hf h ih =>
      simp only [instructions, hf]
      exact return_eq_ok_iff.mpr ⟨_, ih, rfl⟩

/-- An expression that passes its check compiles if every variable has a place. -/
theorem exists_compilesTo (h : e.check = .ok ())
    (hslot : ∀ name ∈ e.occurrences, ∃ index, slot name = some index) :
    ∃ code, CompilesTo slot e code := by
  induction e with
  | number x => exact ⟨_, .number x⟩
  | constant c => exact ⟨_, .constant c⟩
  | symbol name =>
    obtain ⟨index, hindex⟩ := hslot name (List.mem_singleton_self name)
    exact ⟨_, .symbol hindex⟩
  | neg inner ih =>
    obtain ⟨code, hcode⟩ := ih h hslot
    exact ⟨_, .neg hcode⟩
  | binary op left right ihleft ihright =>
    obtain ⟨hleft, hright⟩ := check_binary.mp h
    obtain ⟨code, hcode⟩ := ihleft hleft fun name hname => hslot name (List.mem_append_left _ hname)
    obtain ⟨code', hcode'⟩ :=
      ihright hright fun name hname => hslot name (List.mem_append_right _ hname)
    exact ⟨_, .binary op hcode hcode'⟩
  | call f argument ih =>
    obtain ⟨⟨builtin, hbuiltin⟩, hargument⟩ := check_call.mp h
    obtain ⟨code, hcode⟩ := ih hargument hslot
    exact ⟨_, .call hbuiltin hcode⟩
  | marker inner ih => cases h
  | assign target value ihtarget ihvalue => cases h

end Expr

namespace Instruction

/-- The argument for which an instruction asks, if it asks for one. -/
def request? : Instruction α → Option Nat
  | .argument index => some index
  | .load _ | .binary _ | .neg | .apply _ => none

variable [Arithmetic α] {args args' : Nat → α}

/-- A program is executed piece by piece. -/
theorem execute_append (code code' : List (Instruction α)) (stack : List α) :
    execute args (code ++ code') stack = execute args code' (execute args code stack) :=
  List.foldl_append

/-- A program depends only on the arguments that it asks for. -/
theorem execute_congr {code : List (Instruction α)}
    (h : ∀ index ∈ code.filterMap request?, args index = args' index) (stack : List α) :
    execute args code stack = execute args' code stack := by
  induction code generalizing stack with
  | nil => rfl
  | cons i code ih =>
    have hstep : step args stack i = step args' stack i := by
      cases i with
      | argument index =>
        have hargs := h index (by simp [request?])
        simp only [step, hargs]
      | load _ | binary _ | neg | apply _ => rfl
    have hrest : ∀ index ∈ code.filterMap request?, args index = args' index := by
      intro index hindex
      refine h index ?_
      rw [List.filterMap_cons]
      split
      · exact hindex
      · exact List.mem_cons_of_mem _ hindex
    have hrun := ih hrest (step args' stack i)
    show execute args code (step args stack i) = execute args' code (step args' stack i)
    rw [hstep, hrun]

end Instruction

namespace Expr.CompilesTo

variable {slot : String → Option Nat} {e : Expr α} {code : List (Instruction α)}

/-- A program asks for the place of every variable where it occurs, and for nothing else. -/
theorem requests_eq (h : CompilesTo slot e code) :
    code.filterMap Instruction.request? = e.reads.filterMap slot := by
  induction h with
  | number x => rfl
  | constant c => rfl
  | symbol hindex => simp [Instruction.request?, reads, hindex]
  | neg h ih => simp [Instruction.request?, reads, ih]
  | binary op h h' ih ih' => simp [Instruction.request?, reads, ih, ih']
  | call hf h ih => simp [Instruction.request?, reads, ih]

/-- Run on any stack, the instructions of an expression leave the stack as it was with the value
of the expression on top. -/
theorem execute_eq [Arithmetic α] (h : CompilesTo slot e code) (args : Nat → α) (stack : List α) :
    Instruction.execute args code stack = e.value (slotValue slot args) :: stack := by
  induction h generalizing stack with
  | number x => rfl
  | constant c => rfl
  | symbol hindex =>
    rw [value, slotValue, hindex]
    rfl
  | neg h ih =>
    rw [Instruction.execute_append, ih, value]
    rfl
  | binary op h h' ih ih' =>
    -- the right operand is computed on top of the left one, so it is taken off first
    rw [Instruction.execute_append, Instruction.execute_append, ih, ih', value]
    rfl
  | call hf h ih =>
    rw [Instruction.execute_append, ih, value, callValue, hf]
    rfl

end Expr.CompilesTo

end Fluxion
