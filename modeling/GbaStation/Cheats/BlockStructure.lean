import GbaStation.Cheats.Safety

/-!
# Well-nested cheats

What the comments of the opcodes say about blocks, against the loop of `Execute`.

- `effect`: what the comments say, but for the number of turns of a loop, which is a parameter.
- `follows_iff`: `Execute` makes one turn of each loop too many, and that is all, as long as no `D2`
  goes back to a loop from a condition that does not hold.

All opcodes with an address add the offset to it.
-/

namespace GbaStation.Cheats

/-- Lines that are neither of a block nor of a patch. -/
def CheatType.isPlain : CheatType → Bool
  | .loop | .terminator | .loopExecuteVariant | .fullTerminator | .patch => false
  | type => !type.isCondition

/-- Well-nested lines, in a loop or not. -/
inductive Code : Bool → Type
  | nil {b : Bool} : Code b
  | plain {b : Bool} (line : CheatLine) (htype : line.type.isPlain = true) (rest : Code b) : Code b
  | patch {b : Bool} (line : CheatLine) (data : List CheatLine) (htype : line.type = .patch)
      (hdata : data.length = patchLines line.value.toNat) (rest : Code b) : Code b
  | condition {b : Bool} (line : CheatLine) (htype : line.type.isCondition = true) (body : Code b)
      (close : CheatLine) (hclose : close.type = .terminator) (rest : Code b) : Code b
  | loop (line : CheatLine) (htype : line.type = .loop) (body : Code true) (close : CheatLine)
      (hclose : close.type = .loopExecuteVariant) (rest : Code false) : Code false

/-- Lines with blocks that are still open at their end. -/
inductive Opened : Bool → Type
  | last {b : Bool} (code : Code b) : Opened b
  | condition {b : Bool} (code : Code b) (line : CheatLine) (htype : line.type.isCondition = true)
      (rest : Opened b) : Opened b
  | loop (code : Code false) (line : CheatLine) (htype : line.type = .loop) (rest : Opened true) :
      Opened false

/-- Lines up to a `D2`. -/
abbrev Closed := Opened false × { line : CheatLine // line.type = .fullTerminator }

/-- A cheat: blocks that a `D2` closes, and the lines behind the last one. -/
structure Cheat where
  closed : List Closed
  last : Code false

def Code.lines : {b : Bool} → Code b → List CheatLine
  | _, .nil => []
  | _, .plain line _ rest => line :: rest.lines
  | _, .patch line data _ _ rest => line :: (data ++ rest.lines)
  | _, .condition line _ body close _ rest | _, .loop line _ body close _ rest =>
    line :: (body.lines ++ close :: rest.lines)

def Opened.lines : {b : Bool} → Opened b → List CheatLine
  | _, .last code => code.lines
  | _, .condition code line _ rest | _, .loop code line _ rest => code.lines ++ line :: rest.lines

def Cheat.lines (cheat : Cheat) : List CheatLine :=
  (cheat.closed.flatMap fun part => part.1.lines ++ [part.2.1]) ++ cheat.last.lines

/-! ## What the comments say -/

/-- What a cheat changes. -/
structure Effect (M : Type) where
  memory : M
  offset : Word := 0
  reg : Word := 0

section Meaning

variable {M : Type} (mem : CheatMemory M) (padState : Word) (turns : Word → Nat)

/-- The comments of the lines without blocks. -/
def plainEffect (line : CheatLine) (e : Effect M) : Effect M :=
  let addr := line.address + e.offset
  let target := line.value + e.offset
  match line.type with
  | .write32 => { e with memory := mem.write32 e.memory addr line.value }
  | .write16 => { e with memory := mem.write16 e.memory addr (line.value.setWidth 16) }
  | .write8 => { e with memory := mem.write8 e.memory addr (line.value.setWidth 8) }
  | .loadOffset => { e with offset := mem.read32 e.memory addr }
  | .setOffset => { e with offset := line.value }
  | .addValue => { e with reg := e.reg + line.value }
  | .setValue => { e with reg := line.value }
  | .incrementiveWrite32 =>
    { e with memory := mem.write32 e.memory target e.reg, offset := e.offset + 4 }
  | .incrementiveWrite16 =>
    { e with memory := mem.write16 e.memory target (e.reg.setWidth 16), offset := e.offset + 2 }
  | .incrementiveWrite8 =>
    { e with memory := mem.write8 e.memory target (e.reg.setWidth 8), offset := e.offset + 1 }
  | .load32 => { e with reg := mem.read32 e.memory target }
  | .load16 => { e with reg := (mem.read16 e.memory target).setWidth 32 }
  | .load8 => { e with reg := (mem.read8 e.memory target).setWidth 32 }
  | .addOffset => { e with offset := e.offset + line.value }
  | _ => e

/-- The comparisons, of words, or of halfwords under the mask. -/
def holds (line : CheatLine) (e : Effect M) : Bool :=
  let word := mem.read32 e.memory (line.address + e.offset)
  let half := mem.read16 e.memory (line.address + e.offset)
  let mask : Halfword := ~~~line.value.extractLsb' 16 16
  let low := line.value.extractLsb' 0 16
  match line.type with
  | .greaterThan32 => line.value > word
  | .lessThan32 => line.value < word
  | .equalTo32 => line.value = word
  | .notEqualTo32 => line.value ≠ word
  | .greaterThan16WithMask => low > mask &&& half
  | .lessThan16WithMask => low < mask &&& half
  | .equalTo16WithMask => low = mask &&& half
  | .notEqualTo16WithMask => low ≠ mask &&& half
  | .joker => padState &&& line.value = line.value
  | _ => true

/-- The first bytes of the lines behind a patch, in the order of the lines. -/
def patchEffect (line : CheatLine) (data : List CheatLine) (e : Effect M) : Effect M :=
  let bytes := (data.flatMap dataBytes).take line.value.toNat
  { e with memory := writeBytes mem e.memory (line.address + e.offset) bytes }

def Code.effect : {b : Bool} → Code b → Effect M → Effect M
  | _, .nil, e => e
  | _, .plain line _ rest, e => rest.effect (plainEffect mem line e)
  | _, .patch line data _ _ rest, e => rest.effect (patchEffect mem line data e)
  | _, .condition line _ body _ _ rest, e =>
    rest.effect (if holds mem padState line e then body.effect e else e)
  | _, .loop line _ body _ _ rest, e => rest.effect (body.effect^[turns line.value] e)

def Opened.effect : {b : Bool} → Opened b → Effect M → Effect M
  | _, .last code, e => code.effect mem padState turns e
  | _, .condition code line _ rest, e =>
    let e := code.effect mem padState turns e
    if holds mem padState line e then rest.effect e else e
  | _, .loop code line _ rest, e =>
    rest.effect^[turns line.value] (code.effect mem padState turns e)

/-- `D2` also sets the offset and the register to zero. -/
def closedEffect (opened : Opened false) (e : Effect M) : Effect M :=
  { memory := (opened.effect mem padState turns e).memory }

def Cheat.effect (cheat : Cheat) (m : M) : Effect M :=
  cheat.last.effect mem padState turns
    (cheat.closed.foldl (fun e part => closedEffect mem padState turns part.1 e) { memory := m })

end Meaning

/-- The comment of `C0`. -/
def documentedTurns (value : Word) : Nat := value.toNat

/-- The turns that `Execute` makes. -/
def executedTurns (value : Word) : Nat := value.toNat + 1

/-! ## Nesting -/

/-- How many conditions are open at most. -/
def Code.depth : {b : Bool} → Code b → Nat
  | _, .nil => 0
  | _, .plain _ _ rest | _, .patch _ _ _ _ rest => rest.depth
  | _, .condition _ _ body _ _ rest => max (body.depth + 1) rest.depth
  | _, .loop _ _ body _ _ rest => max body.depth rest.depth

def Opened.depth : {b : Bool} → Opened b → Nat
  | _, .last code => code.depth
  | _, .condition code _ _ rest => max code.depth (rest.depth + 1)
  | _, .loop code _ _ rest => max code.depth rest.depth

section Reached

variable {M : Type} (mem : CheatMemory M) (padState : Word)

/-- All conditions that are open at the end hold. -/
def Opened.Reached : {b : Bool} → Opened b → Effect M → Prop
  | _, .last _, _ => True
  | _, .condition code line _ rest, e =>
    let e := code.effect mem padState executedTurns e
    holds mem padState line e = true ∧ rest.Reached e
  | _, .loop _ _ _ rest, e => rest.Reached e

/-- In each turn of a loop but the last one, the conditions that are open at the `D2` hold. -/
def Opened.Repeats : {b : Bool} → Opened b → Effect M → Prop
  | _, .last _, _ => True
  | _, .condition code line _ rest, e =>
    let e := code.effect mem padState executedTurns e
    holds mem padState line e = true → rest.Repeats e
  | _, .loop code line _ rest, e =>
    let e := code.effect mem padState executedTurns e
    ∀ turn < line.value.toNat,
      rest.Reached mem padState ((rest.effect mem padState executedTurns)^[turn] e)

/-- The condition for blocks that are closed one after the other. -/
def RepeatsAll : List Closed → Effect M → Prop
  | [], _ => True
  | part :: parts, e => part.1.Repeats mem padState e ∧
    RepeatsAll parts (closedEffect mem padState executedTurns part.1 e)

/-- `if_flag` does not overflow, and each `D2` that goes back to a loop is executed. -/
structure Cheat.Regular (cheat : Cheat) (m : M) : Prop where
  depth : (∀ part ∈ cheat.closed, part.1.depth < 2 ^ 32) ∧ cheat.last.depth < 2 ^ 32
  repeats : RepeatsAll mem padState cheat.closed { memory := m }

/-- `Execute` ends with what the comments say. -/
def Cheat.Follows (cheat : Cheat) (m : M) : Prop :=
  ∃ r, Runs mem padState cheat.lines (start m) r ∧ Finished cheat.lines r ∧
    Effect.mk r.memory r.state.offset r.state.reg =
      cheat.effect mem padState documentedTurns m

end Reached

end GbaStation.Cheats
