import GbaStation.Common.Checked
import GbaStation.Common.FlatMemory
import GbaStation.Common.StrideLoop
import Mathlib.Logic.Relation

/-!
# Gateway cheats (`core/cheats/gateway_cheat.cpp`)

A cheat is a list of lines, each an opcode with an address and a value. `GatewayCheat::Execute`
goes through them with a line number, which loops set back and patches move on, and counts the
conditions that do not hold in `if_flag`.

Line numbers are integers. They are `-1` between a jump to line 0 and the increment of the loop,
where `size_t` wraps around twice. Caches of instructions are not modelled.
-/

namespace GbaStation.Cheats

/-- `GatewayCheat::CheatType`. The first digits of a line may also be of no type that has a name. -/
inductive CheatType where
  | null | write32 | write16 | write8
  | greaterThan32 | lessThan32 | equalTo32 | notEqualTo32
  | greaterThan16WithMask | lessThan16WithMask | equalTo16WithMask | notEqualTo16WithMask
  | loadOffset | loop | terminator | loopExecuteVariant | fullTerminator
  | setOffset | addValue | setValue
  | incrementiveWrite32 | incrementiveWrite16 | incrementiveWrite8
  | load32 | load16 | load8 | addOffset | joker | patch | unnamed
  deriving DecidableEq

/-- `GatewayCheat::CheatLine`, without its text. -/
structure CheatLine where
  type : CheatType
  address : Word
  value : Word
  first : Word
  deriving DecidableEq

/-- What a cheat reads and writes. -/
structure CheatMemory (M : Type) where
  read8 : M → Word → BitVec 8
  read16 : M → Word → Halfword
  read32 : M → Word → Word
  write8 : M → Word → BitVec 8 → M
  write16 : M → Word → Halfword → M
  write32 : M → Word → Word → M

structure State where
  reg : Word := 0
  offset : Word := 0
  ifFlag : Word := 0
  loopCount : Word := 0
  loopBackLine : Int := 0
  currentLineNr : Int := 0
  loopFlag : Bool := false
  deriving DecidableEq

/-- The state of `Execute`, and the memory. -/
structure Machine (M : Type) where
  state : State
  memory : M

/-! ## Opcodes -/

section Opcodes

variable {M : Type} {n : Nat}

def writeOp (read : M → Word → BitVec n) (write : M → Word → BitVec n → M) (line : CheatLine)
    (s : State) (m : M) : M :=
  let addr := line.address + s.offset
  if read m addr ≠ line.value.setWidth n then write m addr (line.value.setWidth n) else m

def compOp (read : M → Word → BitVec n) (comp : BitVec n → Bool) (line : CheatLine) (s : State)
    (m : M) : State :=
  if comp (read m (line.address + s.offset)) then s else { s with ifFlag := s.ifFlag + 1 }

def loadOffsetOp (mem : CheatMemory M) (line : CheatLine) (s : State) (m : M) : State :=
  { s with offset := mem.read32 m (line.address + s.offset) }

def loopOp (line : CheatLine) (s : State) : State :=
  { s with
    loopFlag := decide (s.loopCount < line.value)
    loopCount := s.loopCount + 1
    loopBackLine := s.currentLineNr }

def terminateOp (s : State) : State :=
  if 0 < s.ifFlag then { s with ifFlag := s.ifFlag - 1 } else s

def loopExecuteVariantOp (s : State) : State :=
  if s.loopFlag then { s with currentLineNr := s.loopBackLine - 1 } else { s with loopCount := 0 }

def fullTerminateOp (s : State) : State :=
  if s.loopFlag then { s with currentLineNr := s.loopBackLine - 1 }
  else { s with offset := 0, reg := 0, loopCount := 0, ifFlag := 0, loopFlag := false }

def setOffsetOp (line : CheatLine) (s : State) : State := { s with offset := line.value }

def addValueOp (line : CheatLine) (s : State) : State := { s with reg := s.reg + line.value }

def setValueOp (line : CheatLine) (s : State) : State := { s with reg := line.value }

def incrementiveWriteOp (read : M → Word → BitVec n) (write : M → Word → BitVec n → M)
    (line : CheatLine) (r : Machine M) : Machine M :=
  let addr := line.value + r.state.offset
  { memory :=
      if read r.memory addr ≠ r.state.reg.setWidth n then
        write r.memory addr (r.state.reg.setWidth n)
      else r.memory
    state := { r.state with offset := r.state.offset + .ofNat 32 (n / 8) } }

def loadOp (read : M → Word → BitVec n) (line : CheatLine) (s : State) (m : M) : State :=
  { s with reg := (read m (line.value + s.offset)).setWidth 32 }

def addOffsetOp (line : CheatLine) (s : State) : State := { s with offset := s.offset + line.value }

/-- `JokerOp`, for the buttons that are held. -/
def jokerOp (padState : Word) (line : CheatLine) (s : State) : State :=
  if padState &&& line.value = line.value then s else { s with ifFlag := s.ifFlag + 1 }

/-- `cheat_lines[i]`. -/
def lineAt (lines : List CheatLine) (i : Int) : Except Fault CheatLine :=
  match i with
  | .ofNat i => (lines[i]?).elim (.error .read) .ok
  | .negSucc _ => .error .read

/-- `ceil(value / 8.0)`. -/
def patchLines (value : Nat) : Nat := (value + 7) / 8

/-- The first loop of `PatchOp`. What is left for the second one are `numBytes % 4` bytes. -/
def patchWords (mem : CheatMemory M) (lines : List CheatLine) (first : Bool) (lineNr : Int)
    (addr : Word) (numBytes : Nat) (m : M) : Except Fault (Bool × Int × Word × M) :=
  if 4 ≤ numBytes then do
    let line ← lineAt lines lineNr
    let tmp := if first then line.first else line.value
    let lineNr := if !first && decide (4 < numBytes) then lineNr + 1 else lineNr
    patchWords mem lines (!first) lineNr (addr + 4) (numBytes - 4) (mem.write32 m addr tmp)
  else return (first, lineNr, addr, m)
termination_by numBytes

/-- The second loop of `PatchOp`, for the bytes that are left. -/
def patchBytes (mem : CheatMemory M) (lines : List CheatLine) (first : Bool) (lineNr : Int) :
    Word → Nat → Nat → M → Except Fault M
  | _, _, 0, m => return m
  | addr, bitOffset, numBytes + 1, m => do
    let line ← lineAt lines lineNr
    let tmp := (if first then line.first else line.value) >>> bitOffset
    patchBytes mem lines first lineNr (addr + 1) (bitOffset + 8) numBytes
      (mem.write8 m addr (tmp.setWidth 8))

def patchOp (mem : CheatMemory M) (lines : List CheatLine) (line : CheatLine) (r : Machine M) :
    Except Fault (Machine M) :=
  if 0 < r.state.ifFlag then
    return { r with state := { r.state with
      currentLineNr := r.state.currentLineNr + patchLines line.value.toNat } }
  else do
    let numBytes := line.value.toNat
    let lineNr := if 0 < numBytes then r.state.currentLineNr + 1 else r.state.currentLineNr
    let (first, lineNr, addr, m) ←
      patchWords mem lines true lineNr (line.address + r.state.offset) numBytes r.memory
    let m ← patchBytes mem lines first lineNr addr 0 (numBytes % 4) m
    return { state := { r.state with currentLineNr := lineNr }, memory := m }

end Opcodes

/-! ## The loop of `Execute` -/

section Execute

variable {M : Type} (mem : CheatMemory M) (padState : Word) (lines : List CheatLine)

/-- The conditions, and what each compares. -/
def condition (line : CheatLine) (s : State) (m : M) : State :=
  let mask : Halfword := (~~~line.value >>> 16).setWidth 16
  let half : Halfword := line.value.setWidth 16
  match line.type with
  | .greaterThan32 => compOp mem.read32 (fun val => line.value > val) line s m
  | .lessThan32 => compOp mem.read32 (fun val => line.value < val) line s m
  | .equalTo32 => compOp mem.read32 (fun val => line.value = val) line s m
  | .notEqualTo32 => compOp mem.read32 (fun val => line.value ≠ val) line s m
  | .greaterThan16WithMask => compOp mem.read16 (fun val => half > mask &&& val) line s m
  | .lessThan16WithMask => compOp mem.read16 (fun val => half < mask &&& val) line s m
  | .equalTo16WithMask => compOp mem.read16 (fun val => half = mask &&& val) line s m
  | .notEqualTo16WithMask => compOp mem.read16 (fun val => half ≠ mask &&& val) line s m
  | .joker => jokerOp padState line s
  | _ => s

def CheatType.isCondition : CheatType → Bool
  | .greaterThan32 | .lessThan32 | .equalTo32 | .notEqualTo32 | .greaterThan16WithMask
  | .lessThan16WithMask | .equalTo16WithMask | .notEqualTo16WithMask | .joker => true
  | _ => false

/-- The switch for a line that is not to be executed. -/
def skipLine (line : CheatLine) (r : Machine M) : Except Fault (Machine M) :=
  if line.type.isCondition then
    return { r with state := { r.state with ifFlag := r.state.ifFlag + 1 } }
  else
    match line.type with
    | .patch => patchOp mem lines line r
    | .terminator => return { r with state := terminateOp r.state }
    | .fullTerminator => return { r with state := fullTerminateOp r.state }
    | _ => return r

/-- The switch for a line that is executed. -/
def executeLine (line : CheatLine) (r : Machine M) : Except Fault (Machine M) :=
  let s := r.state
  let m := r.memory
  match line.type with
  | .null | .unnamed => return r
  | .write32 => return { r with memory := writeOp mem.read32 mem.write32 line s m }
  | .write16 => return { r with memory := writeOp mem.read16 mem.write16 line s m }
  | .write8 => return { r with memory := writeOp mem.read8 mem.write8 line s m }
  | .greaterThan32 | .lessThan32 | .equalTo32 | .notEqualTo32 | .greaterThan16WithMask
  | .lessThan16WithMask | .equalTo16WithMask | .notEqualTo16WithMask | .joker =>
    return { r with state := condition mem padState line s m }
  | .loadOffset => return { r with state := loadOffsetOp mem line s m }
  | .loop => return { r with state := loopOp line s }
  | .terminator => return { r with state := terminateOp s }
  | .loopExecuteVariant => return { r with state := loopExecuteVariantOp s }
  | .fullTerminator => return { r with state := fullTerminateOp s }
  | .setOffset => return { r with state := setOffsetOp line s }
  | .addValue => return { r with state := addValueOp line s }
  | .setValue => return { r with state := setValueOp line s }
  | .incrementiveWrite32 => return incrementiveWriteOp mem.read32 mem.write32 line r
  | .incrementiveWrite16 => return incrementiveWriteOp mem.read16 mem.write16 line r
  | .incrementiveWrite8 => return incrementiveWriteOp mem.read8 mem.write8 line r
  | .load32 => return { r with state := loadOp mem.read32 line s m }
  | .load16 => return { r with state := loadOp mem.read16 line s m }
  | .load8 => return { r with state := loadOp mem.read8 line s m }
  | .addOffset => return { r with state := addOffsetOp line s }
  | .patch => patchOp mem lines line r

/-- The increment of the loop. -/
def Machine.next (r : Machine M) : Machine M :=
  { r with state := { r.state with currentLineNr := r.state.currentLineNr + 1 } }

/-- One turn of the loop of `GatewayCheat::Execute`. -/
def step (r : Machine M) : Except Fault (Machine M) := do
  let line ← lineAt lines r.state.currentLineNr
  let r ← if 0 < r.state.ifFlag then skipLine mem lines line r
    else executeLine mem padState lines line r
  return r.next

/-- The loop has ended. -/
def Finished (r : Machine M) : Prop := (lines.length : Int) ≤ r.state.currentLineNr

/-- The loop goes on, and makes a turn. -/
def Turn (r r' : Machine M) : Prop :=
  ¬ Finished lines r ∧ step mem padState lines r = .ok r'

/-- The loop makes turns. -/
abbrev Runs : Machine M → Machine M → Prop := Relation.ReflTransGen (Turn mem padState lines)

/-- `Execute` at the first line. -/
def start (m : M) : Machine M := { state := {}, memory := m }

end Execute

variable {M : Type} {mem : CheatMemory M} {padState : Word} {lines : List CheatLine}
  {line : CheatLine} {r : Machine M}

theorem word_pos {w : Word} : 0 < w ↔ w ≠ 0 := BitVec.pos_iff_ne_zero w

theorem step_executed (hline : lineAt lines r.state.currentLineNr = .ok line)
    (hflag : r.state.ifFlag = 0) :
    step mem padState lines r =
      (executeLine mem padState lines line r >>= fun r => .ok r.next) := by
  have hexecuted : ¬ 0 < r.state.ifFlag := fun hpos => word_pos.mp hpos hflag
  rw [step, hline]
  simp only [ok_bind, if_neg hexecuted]
  rfl

theorem step_skipped (hline : lineAt lines r.state.currentLineNr = .ok line)
    (hflag : r.state.ifFlag ≠ 0) :
    step mem padState lines r = (skipLine mem lines line r >>= fun r => .ok r.next) := by
  rw [step, hline]
  simp only [ok_bind, if_pos (word_pos.mpr hflag)]
  rfl

end GbaStation.Cheats
