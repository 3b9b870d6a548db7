import Fluxion.Proofs.Formula.Compilation
import Mathlib.Order.Bounds.Basic

/-!
# The stack discipline of compiled programs

A machine that takes single values off its stack and puts single values on it can be asked more than
the total one: it has no result if it takes a value off an empty stack, and it notes how high the
stack is at every moment (`Machine`).  Where it has a result, it is the one of the total machine
(`Program.run_eq_of_perform`).

The height of the stack is counted without running a program, instruction by instruction
(`Instruction.heightOf`), and so is the greatest height (`Instruction.peak`).  An instruction that
finds its operands changes the stack as it changes the count (`Instruction.counts_perform`); by
induction on the instructions, the counts are those of a whole run
(`Instruction.counts_performAll`).
The instructions of an expression find all their operands, whatever is on the stack already
(`Expr.CompilesTo.exists_perform`).

The compiler refuses an expression for the first of its nodes that has no instruction, in the order
that has each node before its operands and the left operand before the right
(`Expr.findSome?_preorder`).
-/

set_option autoImplicit false

namespace Fluxion

variable {α : Type}

/-! ## A machine that notes the height of its stack -/

/-- A stack of values, with its heights at all moments so far. -/
structure Machine (α : Type) where
  /-- The values on the stack, the top first. -/
  stack : List α
  /-- The heights of the stack, the last moment first. -/
  heights : List Nat

namespace Machine

/-- The stack has this height, which has been noted, and has never been higher than the greatest of
the heights. -/
structure Counts (m : Machine α) (height highest : Nat) : Prop where
  length_eq : m.stack.length = height
  greatest : IsGreatest {n | n ∈ m.heights} highest
  noted : height ∈ m.heights

/-- The machine with an empty stack. -/
def cleared : Machine α := ⟨[], [0]⟩

/-- A cleared machine has counted nothing. -/
theorem counts_cleared : (cleared : Machine α).Counts 0 0 where
  length_eq := rfl
  greatest := by simp [cleared, IsGreatest]
  noted := List.mem_cons_self

/-- Empties the stack, and begins to note its heights. -/
def clear : StateT (Machine α) Option Unit := set (cleared : Machine α)

/-- Puts a value on the stack. -/
def push (x : α) : StateT (Machine α) Option Unit :=
  modify fun m => ⟨x :: m.stack, (m.stack.length + 1) :: m.heights⟩

/-- Takes the top value off the stack; there is no result if the stack is empty. -/
def pop : StateT (Machine α) Option α := fun m =>
  match m.stack with
  | [] => none
  | x :: rest => some (x, ⟨rest, rest.length :: m.heights⟩)

end Machine

namespace Instruction

/-- The number of values that an instruction takes off the stack. -/
def operands : Instruction α → Nat
  | .load _ | .argument _ => 0
  | .binary _ => 2
  | .neg | .apply _ => 1

/-- The height of the stack behind a row of instructions, counted from the height before it. -/
def heightOf (height : Nat) (code : List (Instruction α)) : Nat :=
  code.foldl (fun height i => i.heightAfter height) height

variable [Arithmetic α] [Elementary α]

/-- Takes the operands off the stack, the right one first, and puts the result on it. -/
def perform (args : Nat → α) : Instruction α → StateT (Machine α) Option Unit
  | .load x => Machine.push x
  | .argument index => Machine.push (args index)
  | .binary op => do
    let b ← Machine.pop
    let a ← Machine.pop
    Machine.push (op.apply a b)
  | .neg => do
    let a ← Machine.pop
    Machine.push (-a)
  | .apply f => do
    let a ← Machine.pop
    Machine.push (f.apply a)

/-- Performs a row of instructions. -/
def performAll (args : Nat → α) (code : List (Instruction α)) : StateT (Machine α) Option Unit :=
  forM code (perform args)

end Instruction

variable [Arithmetic α] [Elementary α]

/-- Performs a program on a stack that is emptied first, and takes the value on top off it. -/
def Program.perform (p : Program α) (args : Nat → α) : StateT (Machine α) Option α := do
  Machine.clear
  Instruction.performAll args p.code
  Machine.pop

namespace Instruction

variable {args : Nat → α} {i : Instruction α} {code code' : List (Instruction α)} {m m' : Machine α}

/-- What an instruction does if it finds its operands: it changes the stack as the total machine
does, and on the way the stack is not higher than before. -/
theorem perform_cases (h : (i.perform args).run m = some ((), m')) :
    i.operands ≤ m.stack.length ∧ m'.stack = step args m.stack i ∧
      ∃ lower, (∀ n ∈ lower, n ≤ m.stack.length) ∧
        m'.heights = m'.stack.length :: (lower ++ m.heights) := by
  obtain ⟨stack, heights⟩ := m
  cases i with
  | load x =>
    cases h
    exact ⟨Nat.zero_le _, rfl, [], by simp, rfl⟩
  | argument index =>
    cases h
    exact ⟨Nat.zero_le _, rfl, [], by simp, rfl⟩
  | binary op =>
    match stack with
    | [] => cases h
    | [b] => cases h
    | b :: a :: rest =>
      cases h
      exact ⟨by simp [operands], rfl, [rest.length, rest.length + 1], by simp; omega, rfl⟩
  | neg =>
    cases stack with
    | nil => cases h
    | cons a rest =>
      cases h
      exact ⟨by simp [operands], rfl, [rest.length], by simp, rfl⟩
  | apply f =>
    cases stack with
    | nil => cases h
    | cons a rest =>
      cases h
      exact ⟨by simp [operands], rfl, [rest.length], by simp, rfl⟩

/-- An instruction that finds its operands changes the height of the stack as announced. -/
theorem length_step {stack : List α} (h : i.operands ≤ stack.length) :
    (step args stack i).length = i.heightAfter stack.length := by
  cases i <;> simp only [operands, step, heightAfter, List.length_cons, List.length_tail] at * <;>
    omega

/-- The counts of the height and of the greatest height go on as the stack does. -/
theorem counts_perform {height highest : Nat} (hm : m.Counts height highest)
    (h : (i.perform args).run m = some ((), m')) :
    i.operands ≤ height ∧
      m'.Counts (i.heightAfter height) (max highest (i.heightAfter height)) := by
  obtain ⟨hlength, hgreatest, hnoted⟩ := hm
  subst hlength
  obtain ⟨hoperands, hstack, lower, hlower, hheights⟩ := perform_cases h
  have hlength : m'.stack.length = i.heightAfter m.stack.length := by
    rw [hstack, length_step hoperands]
  have hbefore : m.stack.length ≤ highest := hgreatest.2 hnoted
  rw [hlength] at hheights
  refine ⟨hoperands, hlength, ?_, by simp [hheights]⟩
  -- between the moments that the count looks at, the stack is lower than at one of them
  constructor
  · rw [hheights]
    obtain hle | hle := le_total (i.heightAfter m.stack.length) highest
    · rw [max_eq_left hle]
      exact List.mem_cons_of_mem _ (List.mem_append_right _ hgreatest.1)
    · rw [max_eq_right hle]
      exact List.mem_cons_self
  · intro n hn
    rw [Set.mem_ofPred_eq, hheights, List.mem_cons, List.mem_append] at hn
    obtain rfl | hn | hn := hn
    · exact le_max_right _ _
    · exact (hlower n hn).trans (hbefore.trans (le_max_left _ _))
    · exact (hgreatest.2 hn).trans (le_max_left _ _)

/-- A program runs by performing its first instruction and then the others. -/
theorem performAll_cons :
    (performAll args (i :: code)).run m = some ((), m') ↔
      ∃ between, (i.perform args).run m = some ((), between) ∧
        (performAll args code).run between = some ((), m') := by
  unfold performAll
  simp only [List.forM_cons, StateT.run_bind, Option.bind_eq_bind, Option.bind_eq_some_iff,
    Prod.exists]
  constructor
  · rintro ⟨⟨⟩, between, hi, hcode⟩
    exact ⟨between, hi, hcode⟩
  · rintro ⟨between, hi, hcode⟩
    exact ⟨(), between, hi, hcode⟩

/-- A program runs piece by piece, with the machine handed over in between. -/
theorem performAll_append :
    (performAll args (code ++ code')).run m = some ((), m') ↔
      ∃ between, (performAll args code).run m = some ((), between) ∧
        (performAll args code').run between = some ((), m') := by
  induction code generalizing m with
  | nil => simp [performAll]
  | cons i code ih =>
    rw [List.cons_append, performAll_cons]
    simp only [ih, performAll_cons]
    grind

/-- A run that goes through leaves the stack that the total machine leaves. -/
theorem stack_performAll (h : (performAll args code).run m = some ((), m')) :
    m'.stack = execute args code m.stack := by
  induction code generalizing m with
  | nil =>
    cases h
    rfl
  | cons i code ih =>
    obtain ⟨between, hi, hcode⟩ := performAll_cons.mp h
    obtain ⟨-, hstack, -⟩ := perform_cases hi
    rw [ih hcode, hstack]
    rfl

/-- What is counted of a row of instructions is what a run of them notes. -/
theorem counts_performAll {height highest : Nat} (hm : m.Counts height highest)
    (h : (performAll args code).run m = some ((), m')) :
    m'.Counts (heightOf height code) (peak height highest code) := by
  induction code generalizing m height highest with
  | nil =>
    cases h
    exact hm
  | cons i code ih =>
    obtain ⟨between, hi, hcode⟩ := performAll_cons.mp h
    exact ih (counts_perform hm hi).2 hcode

/-- Before each instruction the count of the height is at least the number of its operands. -/
theorem operands_le_of_performAll {height highest : Nat} (hm : m.Counts height highest)
    (h : (performAll args (code ++ i :: code')).run m = some ((), m')) :
    i.operands ≤ heightOf height code := by
  obtain ⟨between, hcode, hrest⟩ := performAll_append.mp h
  obtain ⟨_, hi, -⟩ := performAll_cons.mp hrest
  exact (counts_perform (counts_performAll hm hcode) hi).1

end Instruction

/-- Where the machine has a result, it is the one of the total machine. -/
theorem Program.run_eq_of_perform {p : Program α} {args : Nat → α} {m m' : Machine α} {value : α}
    (h : (p.perform args).run m = some (value, m')) : p.run args = (value, m'.stack) := by
  unfold perform at h
  simp only [StateT.run_bind, Option.bind_eq_bind, Option.bind_eq_some_iff] at h
  obtain ⟨⟨⟨⟩, emptied⟩, hclear, ⟨⟨⟩, last⟩, hcode, hpop⟩ := h
  cases hclear
  have hstack : last.stack = Instruction.execute args p.code [] :=
    Instruction.stack_performAll hcode
  obtain ⟨stack, heights⟩ := last
  subst hstack
  unfold Program.run
  cases hexecute : Instruction.execute args p.code [] with
  | nil => cases hexecute ▸ hpop
  | cons x rest =>
    cases hexecute ▸ hpop
    rfl

/-! ## The programs of expressions -/

namespace Expr

variable {slot : String → Option Nat} {e : Expr α} {code : List (Instruction α)}

/-- On any stack the instructions of an expression find their operands and leave its value. -/
theorem CompilesTo.exists_perform (h : CompilesTo slot e code) (args : Nat → α) (m : Machine α) :
    ∃ heights, (Instruction.performAll args code).run m =
      some ((), ⟨e.value (slotValue slot args) :: m.stack, heights⟩) := by
  induction h generalizing m with
  | number x => exact ⟨_, rfl⟩
  | constant c => exact ⟨_, rfl⟩
  | symbol hindex =>
    rw [value, slotValue, hindex]
    exact ⟨_, rfl⟩
  | neg h ih =>
    obtain ⟨heights, hcode⟩ := ih m
    exact ⟨_, Instruction.performAll_append.mpr ⟨_, hcode, rfl⟩⟩
  | binary op h h' ih ih' =>
    obtain ⟨heights, hcode⟩ := ih m
    -- the right operand is computed on top of the value of the left one
    obtain ⟨heights', hcode'⟩ := ih' _
    exact ⟨_, Instruction.performAll_append.mpr
      ⟨_, Instruction.performAll_append.mpr ⟨_, hcode, hcode'⟩, rfl⟩⟩
  | call hf h ih =>
    obtain ⟨heights, hcode⟩ := ih m
    rw [value, callValue, hf]
    exact ⟨_, Instruction.performAll_append.mpr ⟨_, hcode, rfl⟩⟩

/-- Whatever is on the stack before, the program of an expression leaves its value and an empty
stack, and its depth is the greatest height of the stack at any moment. -/
theorem CompilesTo.exists_perform_program (h : CompilesTo slot e code) (args : Nat → α)
    (before : Machine α) :
    ∃ heights, ((Program.ofCode code).perform args).run before =
        some (e.value (slotValue slot args), ⟨[], heights⟩) ∧
      IsGreatest {n | n ∈ heights} (Program.ofCode code).depth := by
  obtain ⟨heights, hcode⟩ := h.exists_perform args .cleared
  have hgreatest := (Instruction.counts_performAll Machine.counts_cleared hcode).greatest
  refine ⟨0 :: heights, ?_, ?_⟩
  · unfold Program.perform
    simp only [StateT.run_bind, Option.bind_eq_bind, Option.bind_eq_some_iff]
    exact ⟨_, rfl, _, hcode, rfl⟩
  · refine ⟨List.mem_cons_of_mem _ hgreatest.1, fun n hn => ?_⟩
    obtain rfl | hn := List.mem_cons.mp hn
    · exact Nat.zero_le _
    · exact hgreatest.2 hn

/-- Counted from an empty stack, the height before an instruction of the program of an expression is
at least the number of its operands. -/
theorem CompilesTo.operands_le (h : CompilesTo slot e code) {front rest : List (Instruction α)}
    {i : Instruction α} (hcode : code = front ++ i :: rest) :
    i.operands ≤ Instruction.heightOf 0 front := by
  subst hcode
  obtain ⟨heights, hrun⟩ := h.exists_perform (fun _ => Elementary.undefined) .cleared
  exact Instruction.operands_le_of_performAll Machine.counts_cleared hrun

/-! ## What the compiler refuses -/

omit [Arithmetic α]

/-- The nodes of an expression, each before its operands and the left operand before the right. -/
def preorder : Expr α → List (Expr α)
  | .number x => [.number x]
  | .constant c => [.constant c]
  | .symbol name => [.symbol name]
  | .neg inner => .neg inner :: inner.preorder
  | .binary op left right => .binary op left right :: (left.preorder ++ right.preorder)
  | .call name argument => .call name argument :: argument.preorder
  | .marker inner => .marker inner :: inner.preorder
  | .assign target value => .assign target value :: (target.preorder ++ value.preorder)

/-- Why a node has no instruction, whatever its operands are. -/
def nodeFault? (slot : String → Option Nat) : Expr α → Option (FormulaError α)
  | .number _ | .constant _ | .neg _ | .binary _ _ _ => none
  | .symbol name => if slot name = none then some (.unboundVariable name) else none
  | .call name _ =>
    if Builtin.ofName? name = none then some (.unsupportedFunction name) else none
  | .marker inner => some (.unexpandedMarker inner)
  | .assign _ _ => some .assignment

/-- The compiler stops at the first node that has no instruction. -/
theorem findSome?_preorder (slot : String → Option Nat) (e : Expr α) :
    e.preorder.findSome? (nodeFault? slot) =
      match e.instructions slot with
      | .ok _ => none
      | .error fault => some fault := by
  induction e with
  | number x => rfl
  | constant c => rfl
  | symbol name => cases hslot : slot name <;> simp [preorder, nodeFault?, instructions, hslot]
  | neg inner ih =>
    simp only [preorder, List.findSome?_cons, nodeFault?, ih, instructions]
    cases inner.instructions slot <;> rfl
  | binary op left right ihleft ihright =>
    simp only [preorder, List.findSome?_cons, nodeFault?, List.findSome?_append, ihleft, ihright,
      instructions]
    cases left.instructions slot with
    | error fault => rfl
    | ok code => cases right.instructions slot <;> rfl
  | call name argument ih =>
    simp only [preorder, List.findSome?_cons, nodeFault?, ih, instructions]
    cases Builtin.ofName? name with
    | none => rfl
    | some f => cases argument.instructions slot <;> rfl
  | marker inner ih => rfl
  | assign target value ihtarget ihvalue => rfl

/-- Compilation fails with the first fault in preorder. -/
theorem compile_eq_error_iff {fault : FormulaError α} :
    e.compile slot = .error fault ↔ e.preorder.findSome? (nodeFault? slot) = some fault := by
  rw [findSome?_preorder, compile]
  cases e.instructions slot <;> simp [bind, Except.bind, pure, Except.pure]

/-- Compilation succeeds with the code that the tree compiles to. -/
theorem compile_eq_ok_iff {p : Program α} :
    e.compile slot = .ok p ↔ ∃ code, CompilesTo slot e code ∧ p = .ofCode code := by
  rw [compile, return_eq_ok_iff]
  simp only [instructions_eq_ok_iff]

/-- Compiled programs keep the discipline of their stack.  Whatever is on the stack before, a
program takes no value off an empty stack, leaves the stack empty, and gives the value of the
expression with each variable read through its slot; the depth of the program is the greatest height
of the stack at any moment of the run; and the count of the height, from which the depth is
computed, is never below the number of operands that an instruction takes off.  The compiler refuses
an expression exactly if some node of it has no instruction, with the fault of the first such
node. -/
theorem compile_keeps_discipline [Arithmetic α] (slot : String → Option Nat) (e : Expr α) :
    (∀ p, e.compile slot = .ok p →
      (∀ (args : Nat → α) (before : Machine α), ∃ heights,
        (p.perform args).run before = some (e.value (slotValue slot args), ⟨[], heights⟩) ∧
        IsGreatest {n | n ∈ heights} p.depth ∧
        p.run args = (e.value (slotValue slot args), [])) ∧
      ∀ front i rest, p.code = front ++ i :: rest →
        i.operands ≤ Instruction.heightOf 0 front) ∧
    ∀ fault, e.compile slot = .error fault ↔
      ∃ front node rest, e.preorder = front ++ node :: rest ∧
        node.nodeFault? slot = some fault ∧ ∀ other ∈ front, other.nodeFault? slot = none := by
  refine ⟨fun p hp => ?_, fun fault => ?_⟩
  · obtain ⟨code, hcode, rfl⟩ := compile_eq_ok_iff.mp hp
    refine ⟨fun args before => ?_, fun front i rest => hcode.operands_le⟩
    obtain ⟨heights, hperform, hgreatest⟩ := hcode.exists_perform_program args before
    exact ⟨heights, hperform, hgreatest, Program.run_eq_of_perform hperform⟩
  · rw [compile_eq_error_iff, List.findSome?_eq_some_iff]

/-- A program for `x + y * (z - x)` whose variables share one argument; the left operands wait on
the stack. -/
theorem compile_keeps_discipline_nested :
    let e : Expr Float := .binary .add (.symbol "x") (.binary .mul (.symbol "y")
      (.binary .sub (.symbol "z") (.symbol "x")))
    ∃ p, e.compile (fun _ => some 0) = .ok p ∧ ∀ args before, ∃ heights,
      (p.perform args).run before = some (args 0 + args 0 * (args 0 - args 0), ⟨[], heights⟩) ∧
        IsGreatest {n | n ∈ heights} 4 := by
  intro e
  have hdiscipline := (compile_keeps_discipline (fun _ => some 0) e).1 _ rfl
  refine ⟨_, rfl, fun args before => ?_⟩
  obtain ⟨heights, hperform, hgreatest, -⟩ := hdiscipline.1 args before
  exact ⟨heights, hperform, hgreatest⟩

end Expr

end Fluxion
