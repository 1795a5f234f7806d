import GbaStation.Common.Runs
import GbaStation.Common.Word
import GbaStation.Pica.ShaderSetup

/-!
# The shader interpreter (`video_core/shader/shader_interpreter.cpp`)

`RunInterpreter` runs one instruction after the other and closes scopes on three bounded stacks.

- `Registers σ` is a `ShaderUnit`: the two condition codes, the loop counter `aL`
  (`address_registers[2]`), and in `σ` everything else. What an instruction without control flow
  does is a parameter, `operate`: it reads `aL` and cannot write it.
- The fields of an instruction are those of `nihstro::Instruction`.
- The stacks are lists with the back of the `circular_buffer` first.
- `aL` is an integer: a `LOOP` sets it to a byte, and no `LOOP` adds more than 256 bytes to it, so
  the `s32` does not overflow.
- Not modelled: the records for the debugger.
-/

namespace GbaStation.Pica

/-! ## Instructions -/

/-- The opcodes that `RunInterpreter` handles on its own. `other` has no control flow. -/
inductive OpCode
  | BREAK | END | BREAKC | CALL | CALLC | CALLU | IFU | IFC | LOOP | JMPC | JMPU | other
  deriving DecidableEq

namespace Instruction

def opcode (instr : BitVec 32) : OpCode :=
  match (instr.extractLsb' 0x1a 6).toNat with
  | 0x20 => .BREAK
  | 0x22 => .END
  | 0x23 => .BREAKC
  | 0x24 => .CALL
  | 0x25 => .CALLC
  | 0x26 => .CALLU
  | 0x27 => .IFU
  | 0x28 => .IFC
  | 0x29 => .LOOP
  | 0x2c => .JMPC
  | 0x2d => .JMPU
  | _ => .other

def numInstructions (instr : BitVec 32) : Nat := (instr.extractLsb' 0 8).toNat

def destOffset (instr : BitVec 32) : Nat := (instr.extractLsb' 0x0a 12).toNat

def boolUniformId (instr : BitVec 32) : BitVec 4 := instr.extractLsb' 0x16 4

def intUniformId (instr : BitVec 32) : BitVec 2 := instr.extractLsb' 0x16 2

theorem destOffset_lt (instr : BitVec 32) : destOffset instr < 4096 :=
  (instr.extractLsb' 0x0a 12).isLt

end Instruction

/-- `FlowControlType::Op`. -/
inductive FlowOp
  | or | and | justX | justY
  deriving DecidableEq

/-- The fields that `evaluate_condition` reads. -/
structure FlowControl where
  op : FlowOp
  refx : Bool
  refy : Bool
  deriving DecidableEq

def Instruction.flowControl (instr : BitVec 32) : FlowControl where
  op :=
    match (instr.extractLsb' 0x16 2).toNat with
    | 0 => .or
    | 1 => .and
    | 2 => .justX
    | _ => .justY
  refx := instr.getLsbD 0x19
  refy := instr.getLsbD 0x18

/-- The parameters of a `LOOP`, one of the `Vec4<u8>` of the uniforms. -/
structure LoopParam where
  x : BitVec 8
  y : BitVec 8
  z : BitVec 8

/-- The uniforms that steer the control flow. -/
structure Uniforms where
  b : BitVec 4 → Bool
  i : BitVec 2 → LoopParam

/-- `ShaderUnit`, for what the control flow reads and writes. -/
structure Registers (σ : Type*) where
  conditionalCode : Bool × Bool
  aL : Int
  others : σ
  deriving DecidableEq

variable {σ : Type*}

/-- What an instruction without control flow does to the condition codes and to the registers other
than `aL`. -/
abbrev Operate (σ : Type*) := BitVec 32 → Int → (Bool × Bool) × σ → (Bool × Bool) × σ

def Operate.apply (operate : Operate σ) (instr : BitVec 32) (state : Registers σ) : Registers σ :=
  let (conditionalCode, others) := operate instr state.aL (state.conditionalCode, state.others)
  { state with conditionalCode, others }

/-- `evaluate_condition`. -/
def evaluateCondition (state : Registers σ) (flow : FlowControl) : Bool :=
  let resultX := flow.refx == state.conditionalCode.1
  let resultY := flow.refy == state.conditionalCode.2
  match flow.op with
  | .or => resultX || resultY
  | .and => resultX && resultY
  | .justX => resultX
  | .justY => resultY

/-! ## The stacks -/

structure IfStackElement where
  elseAddress : Nat
  endAddress : Nat

structure CallStackElement where
  endAddress : Nat
  returnAddress : Nat

structure LoopStackElement where
  entryAddress : Nat
  endAddress : Nat
  loopDowncounter : Nat
  addressIncrement : Nat
  previousAL : Nat

/-- The local variables of `RunInterpreter`, with the shader unit it works on. -/
structure Machine (σ : Type*) where
  programCounter : Nat
  state : Registers σ
  ifStack : List IfStackElement := []
  callStack : List CallStackElement := []
  loopStack : List LoopStackElement := []

/-- `circular_buffer::push_back`: a full buffer loses its front. -/
def pushBack {α : Type*} (capacity : Nat) (x : α) (stack : List α) : List α :=
  (x :: stack).take capacity

/-- How an iteration goes on after its instruction. -/
inductive Signal
  | proceed | isBreak | shouldStop
  deriving DecidableEq

namespace Machine

open Instruction

/-- `do_if`. -/
def doIf (m : Machine σ) (instr : BitVec 32) (condition : Bool) : Machine σ :=
  if condition then
    { m with
      ifStack :=
        pushBack 8 ⟨destOffset instr, destOffset instr + numInstructions instr⟩ m.ifStack }
  else { m with programCounter := sub32 (destOffset instr) 1 }

/-- `do_call`. -/
def doCall (m : Machine σ) (instr : BitVec 32) : Machine σ :=
  { m with
    callStack :=
      pushBack 4 ⟨destOffset instr + numInstructions instr, add32 m.programCounter 1⟩ m.callStack
    programCounter := sub32 (destOffset instr) 1 }

/-- `do_loop`. -/
def doLoop (m : Machine σ) (instr : BitVec 32) (loopParam : LoopParam) : Machine σ :=
  { m with
    loopStack :=
      pushBack 4
        { entryAddress := add32 m.programCounter 1
          endAddress := destOffset instr + 1
          loopDowncounter := loopParam.x.toNat
          addressIncrement := loopParam.z.toNat
          previousAL := (m.state.aL % 256).toNat }
        m.loopStack
    state := { m.state with aL := loopParam.y.toNat } }

/-- The `switch` over the opcode. -/
def execute (uniforms : Uniforms) (operate : Operate σ) (instr : BitVec 32) (m : Machine σ) :
    Machine σ × Signal :=
  match opcode instr with
  | .END => (m, .shouldStop)
  | .JMPC =>
    if evaluateCondition m.state (flowControl instr) then
      ({ m with programCounter := sub32 (destOffset instr) 1 }, .proceed)
    else (m, .proceed)
  | .JMPU =>
    if uniforms.b (boolUniformId instr) = !(numInstructions instr % 2 == 1) then
      ({ m with programCounter := sub32 (destOffset instr) 1 }, .proceed)
    else (m, .proceed)
  | .CALL => (m.doCall instr, .proceed)
  | .CALLU => (if uniforms.b (boolUniformId instr) then m.doCall instr else m, .proceed)
  | .CALLC =>
    (if evaluateCondition m.state (flowControl instr) then m.doCall instr else m, .proceed)
  | .IFU => (m.doIf instr (uniforms.b (boolUniformId instr)), .proceed)
  | .IFC => (m.doIf instr (evaluateCondition m.state (flowControl instr)), .proceed)
  | .LOOP =>
    let loopParam := uniforms.i (intUniformId instr)
    -- `aL` is set here already, so that `do_loop` does not find the outer value any more.
    let m := { m with state := { m.state with aL := loopParam.y.toNat } }
    (m.doLoop instr loopParam, .proceed)
  | .BREAK => (m, .isBreak)
  | .BREAKC =>
    (m, if evaluateCondition m.state (flowControl instr) then .isBreak else .proceed)
  | .other => ({ m with state := operate.apply instr m.state }, .proceed)

/-- The loop that closes `CALL` scopes, with the rounds that are left. The last round of the four
does not update the program counter. -/
def popCalls : Nat → Nat → Nat → List CallStackElement → Nat × List CallStackElement
  | round + 1, next, programCounter, top :: stack =>
    if top.endAddress ≠ next then (programCounter, top :: stack)
    else if round = 0 then popCalls round next programCounter stack
    else popCalls round top.returnAddress top.returnAddress stack
  | _, _, programCounter, stack => (programCounter, stack)

def closeCalls (next : Nat) (m : Machine σ) : Machine σ :=
  let (programCounter, callStack) := popCalls 4 next m.programCounter m.callStack
  { m with programCounter, callStack }

def closeIf (next : Nat) (m : Machine σ) : Machine σ :=
  match m.ifStack with
  | top :: stack =>
    if top.elseAddress = next then { m with programCounter := top.endAddress, ifStack := stack }
    else m
  | [] => m

def closeLoop (next : Nat) (isBreak : Bool) (m : Machine σ) : Machine σ :=
  match m.loopStack with
  | loop :: stack =>
    if loop.endAddress = next ∨ isBreak then
      let aL := m.state.aL + loop.addressIncrement
      if !isBreak ∧ loop.loopDowncounter ≠ 0 then
        { m with
          state := { m.state with aL }
          programCounter := loop.entryAddress
          loopStack := { loop with loopDowncounter := loop.loopDowncounter - 1 } :: stack }
      else
        { m with
          state := { m.state with aL := if stack.isEmpty then aL else loop.previousAL }
          programCounter := loop.endAddress
          loopStack := stack }
    else m
  | [] => m

/-- The scopes that end at `next`, the address behind the instruction. -/
def closeScopes (next : Nat) (isBreak : Bool) (m : Machine σ) : Machine σ :=
  closeLoop next isBreak (closeIf next (closeCalls next m))

/-- The instruction at an address. The last word of the program is taken for an `END`. -/
def fetch (setup : ShaderSetup) (programCounter : Nat) : BitVec 32 :=
  if h : programCounter < maxProgramCodeLength - 1 then
    setup.getProgramCode ⟨programCounter, Nat.lt_of_lt_of_le h (Nat.sub_le _ _)⟩
  else 0x88000000

/-- One iteration, with whether it is the last one. -/
def iteration (setup : ShaderSetup) (uniforms : Uniforms) (operate : Operate σ) (m : Machine σ) :
    Machine σ × Bool :=
  let next := add32 m.programCounter 1
  let (m', signal) := m.execute uniforms operate (fetch setup m.programCounter)
  (closeScopes next (signal = .isBreak)
    { m' with programCounter := add32 m'.programCounter 1 }, signal = .shouldStop)

end Machine

/-- `RunInterpreter`, for the shader unit it leaves. -/
def runInterpreter (setup : ShaderSetup) (uniforms : Uniforms) (operate : Operate σ) (fuel : Nat)
    (state : Registers σ) (entryPoint : Nat) : Option (Registers σ) :=
  (runMachine (Machine.iteration setup uniforms operate) fuel ⟨entryPoint, state, [], [], []⟩).map
    (·.state)

end GbaStation.Pica
