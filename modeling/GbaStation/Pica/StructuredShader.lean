import GbaStation.Pica.Interpreter

/-!
# Structured shader programs

What a shader means: blocks of instructions, `IF`, `CALL`, `LOOP` with breaks, and `END`, with a
big-step semantics that knows no addresses.

- `Block.WellFormed` is what a program has to observe where its scopes end, and `Block.ifDepth`,
  `callDepth` and `loopDepth` are how deep its scopes nest.
-/

namespace GbaStation.Pica

variable {σ : Type*}

/-! ## Programs and their meaning -/

/-- What `IF`, `CALL` and `BREAK` instructions depend on. -/
inductive Guard
  | always
  | uniform (id : BitVec 4)
  | condition (flow : FlowControl)
  deriving DecidableEq

def Guard.holds (uniforms : Uniforms) (state : Registers σ) : Guard → Bool
  | .always => true
  | .uniform id => uniforms.b id
  | .condition flow => evaluateCondition state flow

/-- A sequence of statements. -/
inductive Block
  | done
  | op (instr : BitVec 32) (rest : Block)
  | ifElse (guard : Guard) (thenPart elsePart rest : Block)
  | call (guard : Guard) (body rest : Block)
  | loop (id : BitVec 2) (body rest : Block)
  | brk (guard : Guard) (rest : Block)
  | stop (rest : Block)
  deriving DecidableEq

/-- How a block ends: at its last statement, at a `BREAK`, or at an `END`. -/
inductive Outcome
  | completed | broken | ended
  deriving DecidableEq

/-- What a block that completed is followed by. -/
def andThen (r : Outcome × Registers σ) (next : Registers σ → Outcome × Registers σ) :
    Outcome × Registers σ :=
  match r with
  | (.completed, state) => next state
  | r => r

/-- The end of a round of a loop. -/
def Registers.advance (z : Nat) (state : Registers σ) : Registers σ :=
  { state with aL := state.aL + z }

/-- The rounds of a loop, `n + 1` of them when none breaks. -/
def rounds (body : Registers σ → Outcome × Registers σ) (z : Nat) :
    Nat → Registers σ → Outcome × Registers σ
  | n, state =>
    match body state with
    | (.ended, state) => (.ended, state)
    | (.broken, state) => (.completed, state.advance z)
    | (.completed, state) =>
      match n with
      | 0 => (.completed, state.advance z)
      | n + 1 => rounds body z n (state.advance z)

/-- The registers behind a loop: a nested loop restores the counter of the loop around it. -/
def Registers.leaveLoop (nested : Bool) (outer : Int) (state : Registers σ) : Registers σ :=
  if nested then { state with aL := outer } else state

/-- The meaning of a block, `nested` in a loop or not. -/
def Block.eval (uniforms : Uniforms) (operate : Operate σ) :
    Block → (nested : Bool) → Registers σ → Outcome × Registers σ
  | done, _, state => (.completed, state)
  | op instr rest, nested, state =>
    rest.eval uniforms operate nested (operate.apply instr state)
  | ifElse guard thenPart elsePart rest, nested, state =>
    andThen
      (if guard.holds uniforms state then thenPart.eval uniforms operate nested state
      else elsePart.eval uniforms operate nested state)
      (rest.eval uniforms operate nested)
  | call guard body rest, nested, state =>
    andThen
      (if guard.holds uniforms state then body.eval uniforms operate nested state
      else (.completed, state))
      (rest.eval uniforms operate nested)
  | loop id body rest, nested, state =>
    andThen
      (rounds (body.eval uniforms operate true) (uniforms.i id).z.toNat (uniforms.i id).x.toNat
        { state with aL := (uniforms.i id).y.toNat })
      fun state' => rest.eval uniforms operate nested (state'.leaveLoop nested state.aL)
  | brk guard rest, nested, state =>
    if guard.holds uniforms state then (.broken, state)
    else rest.eval uniforms operate nested state
  | stop _, _, state => (.ended, state)

/-! ## Programs in memory -/

section
open Instruction

def ifGuard (instr : BitVec 32) : Option Guard :=
  match opcode instr with
  | .IFU => some (.uniform (boolUniformId instr))
  | .IFC => some (.condition (flowControl instr))
  | _ => none

def callGuard (instr : BitVec 32) : Option Guard :=
  match opcode instr with
  | .CALL => some .always
  | .CALLU => some (.uniform (boolUniformId instr))
  | .CALLC => some (.condition (flowControl instr))
  | _ => none

def breakGuard (instr : BitVec 32) : Option Guard :=
  match opcode instr with
  | .BREAK => some .always
  | .BREAKC => some (.condition (flowControl instr))
  | _ => none

end

/-- No instruction in `[a, b)` is the last one of a scope that ends at `x`. -/
def Clear (a b x : Nat) : Prop := x ≤ a ∨ b < x

namespace Block

open Instruction Machine

/-- The program code holds the block at `[a, b)`, with the scopes around it ending at `ends`. The
body of a `CALL` stands elsewhere: it holds neither the `CALL` nor the last instruction of a scope
that is open there. -/
def Laid (setup : ShaderSetup) : Block → (ends : List Nat) → (a b : Nat) → Prop
  | done, _, a, b => a = b
  | op instr rest, ends, a, b =>
    a < maxProgramCodeLength - 1 ∧ fetch setup a = instr ∧ opcode instr = .other ∧
      rest.Laid setup ends (a + 1) b
  | ifElse guard thenPart elsePart rest, ends, a, b =>
    let instr := fetch setup a
    let elseAddress := destOffset instr
    let endAddress := elseAddress + numInstructions instr
    a < maxProgramCodeLength - 1 ∧ ifGuard instr = some guard ∧
      thenPart.Laid setup (elseAddress :: ends) (a + 1) elseAddress ∧
      elsePart.Laid setup ends elseAddress endAddress ∧ rest.Laid setup ends endAddress b
  | call guard body rest, ends, a, b =>
    let instr := fetch setup a
    let endAddress := destOffset instr + numInstructions instr
    a < maxProgramCodeLength - 1 ∧ callGuard instr = some guard ∧
      (∀ x ∈ (a + 1) :: ends, Clear (destOffset instr) endAddress x) ∧
      body.Laid setup (endAddress :: ends) (destOffset instr) endAddress ∧
      rest.Laid setup ends (a + 1) b
  | loop id body rest, ends, a, b =>
    let instr := fetch setup a
    let endAddress := destOffset instr + 1
    a < maxProgramCodeLength - 1 ∧ opcode instr = .LOOP ∧ intUniformId instr = id ∧
      body.Laid setup (endAddress :: ends) (a + 1) endAddress ∧ rest.Laid setup ends endAddress b
  | brk guard rest, ends, a, b =>
    a < maxProgramCodeLength - 1 ∧ breakGuard (fetch setup a) = some guard ∧
      rest.Laid setup ends (a + 1) b
  | stop rest, ends, a, b =>
    a < maxProgramCodeLength - 1 ∧ opcode (fetch setup a) = .END ∧ rest.Laid setup ends (a + 1) b

/-! ## Where scopes end -/

/-- What ends where a block ends: no scope, or the `IF`, the `LOOP` or the `CALL` whose body it
is. -/
inductive Place
  | plain
  | thenPart
  | loopBody
  | subroutine
  deriving DecidableEq

/-- No scope ends with a jump or with the end of an `IF` or a `LOOP` in it. A subroutine may end
with a `CALL`: then its scope ends together with the one of the `CALL`. `tail` counts the scopes
that end so where a subroutine ends, and no four scopes end at once. Breaks stand in loops. -/
def WellFormed : Block → Place → (tail : Nat) → (inLoop : Bool) → Prop
  | done, _, _, _ => True
  | op _ rest, place, tail, inLoop => rest.WellFormed place tail inLoop
  | ifElse _ thenPart elsePart rest, place, tail, inLoop =>
    (rest = done → place = .plain) ∧ thenPart.WellFormed .thenPart 0 inLoop ∧
      elsePart.WellFormed .plain 0 inLoop ∧ rest.WellFormed place tail inLoop
  | call _ body rest, place, tail, inLoop =>
    body ≠ done ∧ rest.WellFormed place tail inLoop ∧
      if rest = done ∧ place = .subroutine then
        tail < 2 ∧ body.WellFormed .subroutine (tail + 1) false
      else (rest = done → place = .plain) ∧ body.WellFormed .subroutine 0 false
  | loop _ body rest, place, tail, inLoop =>
    (rest = done → place = .plain) ∧ body ≠ done ∧ body.WellFormed .loopBody 0 true ∧
      rest.WellFormed place tail inLoop
  | brk _ rest, place, tail, inLoop => inLoop = true ∧ rest.WellFormed place tail inLoop
  | stop rest, place, tail, inLoop => rest.WellFormed place tail inLoop

/-! ## Nesting -/

def ifDepth : Block → Nat
  | done => 0
  | op _ rest | brk _ rest | stop rest => rest.ifDepth
  | ifElse _ thenPart elsePart rest =>
    max (max (thenPart.ifDepth + 1) elsePart.ifDepth) rest.ifDepth
  | call _ body rest | loop _ body rest => max body.ifDepth rest.ifDepth

def callDepth : Block → Nat
  | done => 0
  | op _ rest | brk _ rest | stop rest => rest.callDepth
  | ifElse _ thenPart elsePart rest =>
    max (max thenPart.callDepth elsePart.callDepth) rest.callDepth
  | call _ body rest => max (body.callDepth + 1) rest.callDepth
  | loop _ body rest => max body.callDepth rest.callDepth

def loopDepth : Block → Nat
  | done => 0
  | op _ rest | brk _ rest | stop rest => rest.loopDepth
  | ifElse _ thenPart elsePart rest =>
    max (max thenPart.loopDepth elsePart.loopDepth) rest.loopDepth
  | call _ body rest => max body.loopDepth rest.loopDepth
  | loop _ body rest => max (body.loopDepth + 1) rest.loopDepth

/-! ## Runs without the interpreter's slips -/

end Block

/-- A condition on the rest of a block, when it is reached. -/
def whenCompleted (r : Outcome × Registers σ) (p : Registers σ → Prop) : Prop :=
  match r with
  | (.completed, state) => p state
  | _ => True

/-- A condition on the registers at the start of each round. -/
def eachRound (body : Registers σ → Outcome × Registers σ) (z : Nat) (p : Registers σ → Prop) :
    Nat → Registers σ → Prop
  | n, state =>
    p state ∧ whenCompleted (body state) fun state =>
      match n with
      | 0 => True
      | n + 1 => eachRound body z p n (state.advance z)

namespace Block

/-- In the run of the block, `opened` then-parts deep in the innermost loop:
- a nested `LOOP` finds `aL` at the value that it sets itself,
- a `BREAK` leaves no `IF` scope open: it stands in none, or it ends the only one,
- an `END` is not the last instruction of a loop. -/
def Regular (uniforms : Uniforms) (operate : Operate σ) :
    Block → Place → (opened : Nat) → (nested : Bool) → Registers σ → Prop
  | done, _, _, _, _ => True
  | op instr rest, place, opened, nested, state =>
    rest.Regular uniforms operate place opened nested (operate.apply instr state)
  | ifElse guard thenPart elsePart rest, place, opened, nested, state =>
    if guard.holds uniforms state then
      thenPart.Regular uniforms operate .thenPart (opened + 1) nested state ∧
        whenCompleted (thenPart.eval uniforms operate nested state)
          (rest.Regular uniforms operate place opened nested)
    else
      elsePart.Regular uniforms operate .plain opened nested state ∧
        whenCompleted (elsePart.eval uniforms operate nested state)
          (rest.Regular uniforms operate place opened nested)
  | call guard body rest, place, opened, nested, state =>
    if guard.holds uniforms state then
      body.Regular uniforms operate .subroutine 0 nested state ∧
        whenCompleted (body.eval uniforms operate nested state)
          (rest.Regular uniforms operate place opened nested)
    else rest.Regular uniforms operate place opened nested state
  | loop id body rest, place, opened, nested, state =>
    let param := uniforms.i id
    let start := { state with aL := param.y.toNat }
    (nested = true → state.aL = param.y.toNat) ∧
      eachRound (body.eval uniforms operate true) param.z.toNat
        (body.Regular uniforms operate .loopBody 0 true) param.x.toNat start ∧
      whenCompleted
        (rounds (body.eval uniforms operate true) param.z.toNat param.x.toNat start)
        fun state' =>
          rest.Regular uniforms operate place opened nested (state'.leaveLoop nested state.aL)
  | brk guard rest, place, opened, nested, state =>
    if guard.holds uniforms state then
      opened = 0 ∨ (opened = 1 ∧ place = .thenPart ∧ rest = done)
    else rest.Regular uniforms operate place opened nested state
  | stop rest, place, _, _, _ => place = .loopBody → rest ≠ done

end Block

end GbaStation.Pica
