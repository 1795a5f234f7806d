import GbaStation.Pica.WriteSafety

/-!
# Command lists (`ProcessCmdList`, `GuessCmdRenderProperties`)

A command list is an array of words in guest memory. A command is a value and a header, from an even
place on, and up to 255 extra words. Writes to the trigger registers of the command buffer replace the
list in the middle of a command.

- `readsOnlyList_iff`: nothing else is read, and a list without jumps is applied as it is described, if
  and only if every command that is reached has the words that it takes.
-/

namespace GbaStation.Pica

/-- The header of a command. -/
structure CommandHeader where
  hex : Word
deriving DecidableEq

namespace CommandHeader

variable (header : CommandHeader)

def cmdId : Nat := field header.hex 0 16

def parameterMask : BitVec 4 := header.hex.extractLsb' 16 4

def extraDataLength : Nat := field header.hex 20 8

def groupCommands : Bool := field header.hex 31 1 == 1

/-- The registers of the extra words. -/
def extraIds : List Nat :=
  (List.range header.extraDataLength).map fun i =>
    header.cmdId + if header.groupCommands then i + 1 else 0

end CommandHeader

/-- Why there is no result: a word that is not one of the list, or an index that is not one of a table of
`WriteInternalReg`. -/
inductive CmdListFault where
  | outside
  | table
deriving DecidableEq, Repr

/-- `CommandList`: a physical address instead of `head`. -/
structure CommandList where
  addr : Nat
  currentIndex : Nat
  length : Nat
deriving DecidableEq, Repr

namespace CommandList

/-- `Reset`. -/
def reset (addr size : Nat) : CommandList where
  addr := addr
  currentIndex := 0
  length := size / 4

/-- Commands begin at even places. -/
def align (list : CommandList) : CommandList :=
  { list with
    currentIndex := if list.currentIndex % 2 ≠ 0 then list.currentIndex + 1 else list.currentIndex }

/-- Some words of the list. -/
def advance (list : CommandList) (count : Nat) : CommandList :=
  { list with currentIndex := list.currentIndex + count }

end CommandList

open CommandList (reset advance)

/-- The words of guest memory, and what a write does to a state. The words at and behind a physical
address are valid as far as its region goes, and none are if it has no pointer. -/
structure Walker (S : Type) where
  valid : Nat → Nat → Bool
  word : S → Nat → Nat → Word
  write : S → RegWrite → Option S
  commandBuffer : S → Nat → Nat × Nat
  stops : S → Bool
  stopsAtHead : Bool

/-- The channel of the command buffer that a register triggers. -/
def triggerOf (id : Nat) : Option Nat :=
  match regOf id with
  | .commandBufferTrigger index => some index
  | _ => none

namespace Walker

variable {S : Type} (walker : Walker S)

/-- The next word of the list. -/
def fetch (state : S) (list : CommandList) : Except CmdListFault (Word × CommandList) :=
  if list.currentIndex < list.length ∧ walker.valid list.addr list.currentIndex then
    .ok (walker.word state list.addr list.currentIndex, list.advance 1)
  else .error .outside

/-- A write, which may replace the list. -/
def apply (write : RegWrite) (state : S) (list : CommandList) : Except CmdListFault (S × CommandList) :=
  match walker.write state write with
  | none => .error .table
  | some state =>
    match triggerOf write.id with
    | some index =>
      let buffer := walker.commandBuffer state index
      .ok (state, reset buffer.1 buffer.2)
    | none => .ok (state, list)

/-- The loop over extra words, for the registers that are left. -/
def parameters (mask : BitVec 4) :
    List Nat → S → CommandList → Except CmdListFault (List RegWrite × S × CommandList)
  | [], state, list => .ok ([], state, list)
  | id :: ids, state, list =>
    if walker.stops state then .ok ([], state, list)
    else
      (walker.fetch state list).bind fun fetched =>
        (walker.apply ⟨id, fetched.1, mask⟩ state fetched.2).bind fun applied =>
          (parameters mask ids applied.1 applied.2).bind fun rest =>
            .ok (⟨id, fetched.1, mask⟩ :: rest.1, rest.2)

/-- A command: its writes, and whether the first of them stops. -/
def command (state : S) (list : CommandList) :
    Except CmdListFault ((List RegWrite × Bool) × S × CommandList) :=
  (walker.fetch state list.align).bind fun value =>
    (walker.fetch state value.2).bind fun hex =>
      let header : CommandHeader := ⟨hex.1⟩
      (walker.apply ⟨header.cmdId, value.1, header.parameterMask⟩ state hex.2).bind fun applied =>
        (walker.parameters header.parameterMask header.extraIds applied.1 applied.2).bind fun rest =>
          .ok ((⟨header.cmdId, value.1, header.parameterMask⟩ :: rest.1, walker.stops applied.1), rest.2)

/-- Another command is read. -/
def Running (state : S) (list : CommandList) : Prop :=
  list.currentIndex < list.length ∧ ¬(walker.stopsAtHead = true ∧ walker.stops state = true)

instance (state : S) (list : CommandList) : Decidable (walker.Running state list) :=
  inferInstanceAs (Decidable (_ ∧ _))

/-- At most so many commands. -/
def commands : Nat → S → CommandList → Except CmdListFault (List RegWrite × S × CommandList)
  | 0, state, list => .ok ([], state, list)
  | count + 1, state, list =>
    if walker.Running state list then
      (walker.command state list).bind fun first =>
        if first.1.2 then .ok (first.1.1, first.2)
        else
          (commands count first.2.1 first.2.2).bind fun rest =>
            .ok (first.1.1 ++ rest.1, rest.2)
    else .ok ([], state, list)

end Walker

/-! ## The two functions -/

section Functions

variable {F Ω : Type} (device : Device F Ω) (valid : Nat → Nat → Bool) (word : Ω → Nat → Nat → Word)

/-- `GetPhysicalAddress` and `GetSize` of a channel of the command buffer. -/
def PicaCore.commandBuffer (core : PicaCore F Ω) (index : Nat) : Nat × Nat :=
  (8 * field (core.regArray (0x23a + index)) 0 28, 8 * field (core.regArray (0x238 + index)) 0 20)

def processWalker : Walker (PicaCore F Ω) where
  valid := valid
  word core := word core.outside
  write core write := (core.writeInternalReg device write).map Prod.fst
  commandBuffer := PicaCore.commandBuffer
  stops core := core.stopRequested
  stopsAtHead := true

/-- `ProcessCmdList`, for at most so many commands. Whether a list is ignored is decided elsewhere. -/
def PicaCore.processCmdList (core : PicaCore F Ω) (list size : Nat) (ignoreList : Bool) (count : Nat) :
    Except CmdListFault (List RegWrite × PicaCore F Ω × CommandList) :=
  let core := { core with stopRequested := false }
  if ignoreList then .ok ([], core, reset list size)
  else (processWalker device valid word).commands count core (reset list size)

/-- `RenderPropertiesGuess`, with the core that it is guessed from. -/
structure RenderPropertiesGuess (F Ω : Type) where
  core : PicaCore F Ω
  vpHeight : Word
  paddr : Word
  vpHeightFound : Bool
  paddrFound : Bool

/-- What `GuessCmdRenderProperties` does with a write: registers stay as they are. -/
def RenderPropertiesGuess.processWrite (guess : RenderPropertiesGuess F Ω) (write : RegWrite) :
    RenderPropertiesGuess F Ω :=
  if write.id = 0x43 then { guess with vpHeight := write.value, vpHeightFound := true }
  else if write.id = 0x11d then { guess with paddr := write.value * 8, paddrFound := true }
  else guess

def guessWalker : Walker (RenderPropertiesGuess F Ω) where
  valid := valid
  word guess := word guess.core.outside
  write guess write := some (guess.processWrite write)
  commandBuffer guess := guess.core.commandBuffer
  stops guess := guess.vpHeightFound && guess.paddrFound
  stopsAtHead := false

def PicaCore.initialGuess (core : PicaCore F Ω) : RenderPropertiesGuess F Ω where
  core := core
  vpHeight := (core.regArray 0x43).extractLsb' 0 24 |>.setWidth 32
  paddr := ((core.regArray 0x11d).extractLsb' 0 28 |>.setWidth 32) * 8
  vpHeightFound := false
  paddrFound := false

/-- `GuessCmdRenderProperties`. -/
def PicaCore.guessCmdRenderProperties (core : PicaCore F Ω) (list size : Nat) :
    Except CmdListFault (List RegWrite × RenderPropertiesGuess F Ω × CommandList) :=
  (guessWalker valid word).commands 0x100 core.initialGuess (reset list size)

end Functions

/-! ## What a list describes -/

/-- The extra words from a place on, for the registers of a command. -/
def describeExtra (words : Nat → Word) (mask : BitVec 4) : List Nat → Nat → List RegWrite
  | [], _ => []
  | id :: ids, index => ⟨id, words index, mask⟩ :: describeExtra words mask ids (index + 1)

/-- The writes of a list with these words, from a place on. -/
def describe (words : Nat → Word) (length index : Nat) : List RegWrite :=
  if index < length then
    let start := if index % 2 ≠ 0 then index + 1 else index
    let header : CommandHeader := ⟨words (start + 1)⟩
    ⟨header.cmdId, words start, header.parameterMask⟩ ::
      describeExtra words header.parameterMask header.extraIds (start + 2) ++
      describe words length (start + 2 + header.extraDataLength)
  else []
termination_by length - index
decreasing_by
  split <;> omega

/-- Writes one after the other until one requests a stop: those that are made, and the state behind
them. -/
def applyWrites {F Ω : Type} (device : Device F Ω) :
    List RegWrite → PicaCore F Ω → Except CmdListFault (List RegWrite × PicaCore F Ω)
  | [], core => .ok ([], core)
  | write :: writes, core =>
    if core.stopRequested then .ok ([], core)
    else
      match core.writeInternalReg device write with
      | none => .error .table
      | some (core, _) =>
        (applyWrites device writes core).bind fun rest => .ok (write :: rest.1, rest.2)

/-! ## Words that a command needs -/

namespace Walker

variable {S : Type} (walker : Walker S)

/-- The words at the next places are in the list, and in a buffer of the guest. -/
def Has (list : CommandList) (count : Nat) : Prop :=
  ∀ i < count, list.currentIndex + i < list.length ∧
    walker.valid list.addr (list.currentIndex + i) = true

/-- How many extra words a command takes from its list: up to one that stops, or that replaces the list. -/
def wordsTaken (mask : BitVec 4) : List Nat → S → CommandList → Nat
  | [], _, _ => 0
  | id :: ids, state, list =>
    if walker.stops state then 0
    else
      match walker.write state ⟨id, walker.word state list.addr list.currentIndex, mask⟩ with
      | none => 1
      | some state =>
        if (triggerOf id).isSome then 1 else wordsTaken mask ids state (list.advance 1) + 1

/-- The lists that a command jumps to have the words that the command still takes. -/
def JumpsHave (mask : BitVec 4) : List Nat → S → CommandList → Prop
  | [], _, _ => True
  | id :: ids, state, list => walker.stops state = false → ∀ state' list',
    walker.apply ⟨id, walker.word state list.addr list.currentIndex, mask⟩ state (list.advance 1) =
      .ok (state', list') →
      ((triggerOf id).isSome → walker.Has list' (walker.wordsTaken mask ids state' list')) ∧
        JumpsHave mask ids state' list'

/-- The next command has its two words in the list, and takes its extra words from lists that have
them. -/
def CommandFits (state : S) (list : CommandList) : Prop :=
  walker.Has list.align 2 ∧
    let header : CommandHeader := ⟨walker.word state list.addr (list.align.currentIndex + 1)⟩
    ∀ state' list',
      walker.apply ⟨header.cmdId, walker.word state list.addr list.align.currentIndex,
        header.parameterMask⟩ state (list.align.advance 2) = .ok (state', list') →
      walker.Has list' (walker.wordsTaken header.parameterMask header.extraIds state' list') ∧
        walker.JumpsHave header.parameterMask header.extraIds state' list'

/-- The first commands of a list fit, as far as they are reached. -/
def Fits : Nat → S → CommandList → Prop
  | 0, _, _ => True
  | count + 1, state, list => walker.Running state list → walker.CommandFits state list ∧
    ∀ writes state' list', walker.command state list = .ok ((writes, false), state', list') →
      Fits count state' list'

end Walker

/-! ## Reads inside a list -/

section Faults

variable {α β : Type} {x : Except CmdListFault α}

theorem bind_inside_iff {f : α → Except CmdListFault β} : x.bind f ≠ .error .outside ↔
    x ≠ .error .outside ∧ ∀ a, x = .ok a → f a ≠ .error .outside := by
  cases x with
  | error fault =>
    rw [Except.bind, ne_eq, ne_eq, Except.error.injEq, Except.error.injEq]
    exact ⟨fun h => ⟨h, nofun⟩, And.left⟩
  | ok a =>
    refine ⟨fun h => ⟨nofun, fun a' hsame => ?_⟩, fun h => h.2 a rfl⟩
    cases hsame
    exact h

theorem bind_ok_inside_iff {g : α → β} :
    (x.bind fun a => .ok (g a)) ≠ .error .outside ↔ x ≠ .error .outside := by
  rw [bind_inside_iff]
  exact ⟨And.left, fun h => ⟨h, fun _ _ => nofun⟩⟩

end Faults

namespace Walker

variable {S : Type} {walker : Walker S} {mask : BitVec 4} {state : S} {list : CommandList}
  {count : Nat} {ids : List Nat}

theorem has_zero : walker.Has list 0 := fun _ hi => absurd hi (Nat.not_lt_zero _)

/-- The next word, and those behind it. -/
theorem has_succ : walker.Has list (count + 1) ↔
    (list.currentIndex < list.length ∧ walker.valid list.addr list.currentIndex = true) ∧
      walker.Has (list.advance 1) count := by
  constructor
  · intro h
    refine ⟨h 0 (Nat.succ_pos _), fun i hi => ?_⟩
    have hnext := h (i + 1) (Nat.succ_lt_succ hi)
    rwa [Nat.add_comm i 1, ← Nat.add_assoc] at hnext
  · rintro ⟨hfirst, hrest⟩ i hi
    cases i with
    | zero => exact hfirst
    | succ i =>
      have hnext := hrest i (Nat.lt_of_succ_lt_succ hi)
      rw [Nat.add_comm i 1, ← Nat.add_assoc]
      exact hnext

theorem fetch_of_has (h : list.currentIndex < list.length ∧
    walker.valid list.addr list.currentIndex = true) :
    walker.fetch state list =
      .ok (walker.word state list.addr list.currentIndex, list.advance 1) := if_pos h

theorem fetch_of_not (h : ¬(list.currentIndex < list.length ∧
    walker.valid list.addr list.currentIndex = true)) :
    walker.fetch state list = .error .outside := if_neg h

theorem apply_of_none {write : RegWrite} (h : walker.write state write = none) :
    walker.apply write state list = .error .table := by
  rw [apply, h]

theorem apply_of_some {write : RegWrite} {state' : S} (h : walker.write state write = some state') :
    ∃ list', walker.apply write state list = .ok (state', list') ∧
      (triggerOf write.id = none → list' = list) := by
  cases htrigger : triggerOf write.id with
  | none => exact ⟨list, by rw [apply, h, htrigger], fun _ => rfl⟩
  | some index => exact ⟨_, by rw [apply, h, htrigger], fun hnone => nomatch hnone⟩

/-- An extra word. -/
theorem parameters_cons {id : Nat} (hgoesOn : walker.stops state = false)
    (hfirst : list.currentIndex < list.length ∧
      walker.valid list.addr list.currentIndex = true) :
    walker.parameters mask (id :: ids) state list =
      (walker.apply ⟨id, walker.word state list.addr list.currentIndex, mask⟩ state
        (list.advance 1)).bind fun applied =>
          (walker.parameters mask ids applied.1 applied.2).bind fun rest =>
            .ok (⟨id, walker.word state list.addr list.currentIndex, mask⟩ :: rest.1, rest.2) := by
  rw [parameters, if_neg (by rw [hgoesOn]; exact Bool.false_ne_true), fetch_of_has hfirst, Except.bind]

theorem parameters_cons_of_not {id : Nat} (hgoesOn : walker.stops state = false)
    (hfirst : ¬(list.currentIndex < list.length ∧
      walker.valid list.addr list.currentIndex = true)) :
    walker.parameters mask (id :: ids) state list = .error .outside := by
  rw [parameters, if_neg (by rw [hgoesOn]; exact Bool.false_ne_true), fetch_of_not hfirst, Except.bind]

theorem parameters_of_stop (hstops : walker.stops state = true) :
    walker.parameters mask ids state list = .ok ([], state, list) := by
  cases ids with
  | nil => rfl
  | cons id ids => rw [parameters, if_pos hstops]

/-- The extra words are read inside if and only if the lists have them. -/
theorem parameters_inside_iff : walker.parameters mask ids state list ≠ .error .outside ↔
    walker.Has list (walker.wordsTaken mask ids state list) ∧
      walker.JumpsHave mask ids state list := by
  induction ids generalizing state list with
  | nil =>
    rw [parameters]
    exact ⟨fun _ => ⟨has_zero, trivial⟩, fun _ => by simp⟩
  | cons id ids ih =>
    rw [wordsTaken, JumpsHave]
    by_cases hstops : walker.stops state = true
    · rw [parameters_of_stop hstops, if_pos hstops]
      exact ⟨fun _ => ⟨has_zero, fun hgoesOn => by simp [hgoesOn] at hstops⟩, fun _ => by simp⟩
    have hgoesOn := Bool.eq_false_of_not_eq_true hstops
    rw [if_neg hstops]
    by_cases hfirst : list.currentIndex < list.length ∧
        walker.valid list.addr list.currentIndex = true
    · rw [parameters_cons hgoesOn hfirst]
      cases hwrite : walker.write state
          ⟨id, walker.word state list.addr list.currentIndex, mask⟩ with
      | none =>
        rw [apply_of_none hwrite]
        exact ⟨fun _ => ⟨has_succ.mpr ⟨hfirst, has_zero⟩, by simp⟩, fun _ => by simp [Except.bind]⟩
      | some state' =>
        obtain ⟨list', happly, hsame⟩ := (@apply_of_some _ _ _ (list.advance 1)) hwrite
        rw [happly, Except.bind, bind_ok_inside_iff, ih]
        have hjumps : (walker.stops state = false → ∀ state'' list'',
            (Except.ok (state', list') : Except CmdListFault _) = .ok (state'', list'') →
              ((triggerOf id).isSome → walker.Has list'' (walker.wordsTaken mask ids state'' list'')) ∧
                walker.JumpsHave mask ids state'' list'') ↔
            ((triggerOf id).isSome → walker.Has list' (walker.wordsTaken mask ids state' list')) ∧
              walker.JumpsHave mask ids state' list' := by
          constructor
          · exact fun h => h hgoesOn state' list' rfl
          · rintro h - state'' list'' hsame
            cases hsame
            exact h
        rw [hjumps]
        cases htrigger : triggerOf id with
        | none =>
          rw [hsame htrigger]
          simp only [Option.isSome_none, Bool.false_eq_true, if_false, false_imp_iff, true_and,
            has_succ, hfirst, and_self]
        | some index =>
          have hone : walker.Has list 1 := has_succ.mpr ⟨hfirst, has_zero⟩
          simp only [Option.isSome_some, if_true, hone, true_and, forall_const]
    · rw [parameters_cons_of_not hgoesOn hfirst]
      refine ⟨fun h => absurd rfl h, fun h => absurd ?_ hfirst⟩
      refine (h.1 0 ?_ : _)
      split
      · exact Nat.one_pos
      · split
        · exact Nat.one_pos
        · exact Nat.succ_pos _

theorem apply_inside (write : RegWrite) : walker.apply write state list ≠ .error .outside := by
  cases hwrite : walker.write state write with
  | none =>
    rw [apply_of_none hwrite]
    exact nofun
  | some state' =>
    obtain ⟨list', happly, -⟩ := (@apply_of_some _ _ _ list) hwrite
    rw [happly]
    exact nofun

/-- A command with its two words in the list. -/
theorem command_of_has (h : walker.Has list.align 2) {hex : Word}
    (hhex : walker.word state list.addr (list.align.currentIndex + 1) = hex) :
    walker.command state list =
      (walker.apply ⟨(CommandHeader.mk hex).cmdId,
        walker.word state list.addr list.align.currentIndex, (CommandHeader.mk hex).parameterMask⟩ state
          (list.align.advance 2)).bind fun applied =>
        (walker.parameters (CommandHeader.mk hex).parameterMask (CommandHeader.mk hex).extraIds
          applied.1 applied.2).bind fun rest =>
            .ok ((⟨(CommandHeader.mk hex).cmdId, walker.word state list.addr list.align.currentIndex,
              (CommandHeader.mk hex).parameterMask⟩ :: rest.1, walker.stops applied.1), rest.2) := by
  rw [has_succ, has_succ] at h
  subst hhex
  rw [command, fetch_of_has h.1, Except.bind, fetch_of_has h.2.1, Except.bind]
  rfl

theorem commands_of_not_running (h : ¬walker.Running state list) :
    walker.commands count state list = .ok ([], state, list) := by
  cases count with
  | zero => rfl
  | succ count => rw [commands, if_neg h]

/-- A command is read inside if and only if it fits. -/
theorem command_inside_iff : walker.command state list ≠ .error .outside ↔
    walker.CommandFits state list := by
  unfold command CommandFits
  rw [has_succ, has_succ]
  by_cases hvalue : list.align.currentIndex < list.align.length ∧
      walker.valid list.align.addr list.align.currentIndex = true
  · rw [fetch_of_has hvalue, Except.bind]
    by_cases hheader : (list.align.advance 1).currentIndex < (list.align.advance 1).length ∧
        walker.valid (list.align.advance 1).addr (list.align.advance 1).currentIndex = true
    · rw [fetch_of_has hheader, Except.bind]
      simp only [hvalue, hheader, has_zero, true_and]
      rw [bind_inside_iff]
      constructor
      · intro h state' list' happly
        exact parameters_inside_iff.mp (bind_ok_inside_iff.mp (h.2 (state', list') happly))
      · intro h
        refine ⟨apply_inside _, fun applied happly => bind_ok_inside_iff.mpr ?_⟩
        exact parameters_inside_iff.mpr (h applied.1 applied.2 happly)
    · rw [fetch_of_not hheader]
      exact ⟨fun h => absurd rfl h, fun h => absurd h.1.2.1 hheader⟩
  · rw [fetch_of_not hvalue]
    exact ⟨fun h => absurd rfl h, fun h => absurd h.1.1 hvalue⟩

/-- So is a list. -/
theorem commands_inside_iff : walker.commands count state list ≠ .error .outside ↔
    walker.Fits count state list := by
  induction count generalizing state list with
  | zero => exact ⟨fun _ => trivial, fun _ => nofun⟩
  | succ count ih =>
    rw [commands, Fits]
    by_cases hrunning : walker.Running state list
    · rw [if_pos hrunning, bind_inside_iff, ← command_inside_iff]
      constructor
      · rintro ⟨hcommand, hrest⟩ -
        refine ⟨hcommand, fun writes state' list' hfirst => ?_⟩
        exact ih.mp (bind_ok_inside_iff.mp (hrest _ hfirst))
      · intro h
        obtain ⟨hcommand, hrest⟩ := h hrunning
        refine ⟨hcommand, fun first hfirst => ?_⟩
        obtain ⟨⟨writes, stopped⟩, state', list'⟩ := first
        cases stopped with
        | true => exact nofun
        | false => exact bind_ok_inside_iff.mpr (ih.mpr (hrest writes state' list' hfirst))
    · rw [if_neg hrunning]
      exact ⟨fun _ hrunning' => absurd hrunning' hrunning, fun _ => nofun⟩

end Walker

/-! ## Lists without jumps -/

section Described

variable {F Ω : Type} {device : Device F Ω} {valid : Nat → Nat → Bool} {word : Ω → Nat → Nat → Word}
  {core : PicaCore F Ω} {writes more : List RegWrite} {words : Nat → Word} {list : CommandList}
  {mask : BitVec 4} {ids : List Nat}

theorem applyWrites_of_stop (h : core.stopRequested = true) :
    applyWrites device writes core = .ok ([], core) := by
  cases writes with
  | nil => rfl
  | cons write writes => rw [applyWrites, if_pos h]

theorem applyWrites_append : applyWrites device (writes ++ more) core =
    (applyWrites device writes core).bind fun first =>
      (applyWrites device more first.2).bind fun rest => .ok (first.1 ++ rest.1, rest.2) := by
  induction writes generalizing core with
  | nil =>
    rw [List.nil_append, applyWrites, Except.bind]
    cases applyWrites device more core with
    | error fault => rfl
    | ok rest => rfl
  | cons write writes ih =>
    rw [List.cons_append, applyWrites, applyWrites]
    by_cases hstop : core.stopRequested = true
    · rw [if_pos hstop, if_pos hstop, Except.bind, applyWrites_of_stop hstop]
      rfl
    · rw [if_neg hstop, if_neg hstop]
      cases core.writeInternalReg device write with
      | none => rfl
      | some written =>
        simp only [ih]
        cases applyWrites device writes written.1 with
        | error fault => rfl
        | ok first =>
          simp only [Except.bind]
          cases applyWrites device more first.2 with
          | error fault => rfl
          | ok rest => rfl

/-- What is left of a result without the list. -/
def withoutList {S : Type} (result : List RegWrite × S × CommandList) : List RegWrite × S :=
  (result.1, result.2.1)

theorem mem_describeExtra {id index : Nat} (h : id ∈ ids) :
    ∃ write ∈ describeExtra words mask ids index, write.id = id := by
  induction ids generalizing index with
  | nil => exact absurd h List.not_mem_nil
  | cons first ids ih =>
    rcases List.mem_cons.mp h with rfl | h
    · exact ⟨_, List.mem_cons_self, rfl⟩
    · obtain ⟨write, hmem, hid⟩ := @ih (index + 1) h
      exact ⟨write, List.mem_cons_of_mem _ hmem, hid⟩

theorem length_extraIds (header : CommandHeader) :
    header.extraIds.length = header.extraDataLength := by
  rw [CommandHeader.extraIds, List.length_map, List.length_range]

/-- The first command that a list describes. -/
theorem describe_of_lt {length index start : Nat} {header : CommandHeader} (h : index < length)
    (hstart : (if index % 2 ≠ 0 then index + 1 else index) = start)
    (hheader : CommandHeader.mk (words (start + 1)) = header) :
    describe words length index =
      ⟨header.cmdId, words start, header.parameterMask⟩ ::
        (describeExtra words header.parameterMask header.extraIds (start + 2) ++
          describe words length (start + 2 + header.extraDataLength)) := by
  subst hstart hheader
  rw [describe, if_pos h]
  rfl

theorem processWalker_write (write : RegWrite) :
    (processWalker device valid word).write core write =
      (core.writeInternalReg device write).map Prod.fst := rfl

/-- The extra words of a list, without jumps. -/
theorem parameters_applyWrites (hids : ∀ id ∈ ids, triggerOf id = none)
    (hwords : ∀ outside i, i < list.length → word outside list.addr i = words i)
    (hinside : (processWalker device valid word).parameters mask ids core list ≠ .error .outside) :
    ((processWalker device valid word).parameters mask ids core list).map withoutList =
        applyWrites device (describeExtra words mask ids list.currentIndex) core ∧
      ∀ result, (processWalker device valid word).parameters mask ids core list = .ok result →
        result.2.1.stopRequested = true ∨ result.2.2 = list.advance ids.length := by
  induction ids generalizing core list with
  | nil =>
    refine ⟨rfl, fun result hresult => .inr ?_⟩
    cases hresult
    rfl
  | cons id ids ih =>
    rw [describeExtra, applyWrites]
    by_cases hstop : core.stopRequested = true
    · rw [Walker.parameters_of_stop hstop, if_pos hstop]
      refine ⟨rfl, fun result hresult => .inl ?_⟩
      cases hresult
      exact hstop
    have hgoesOn : (processWalker device valid word).stops core = false :=
      Bool.eq_false_of_not_eq_true hstop
    have hfirst : list.currentIndex < list.length ∧
        (processWalker device valid word).valid list.addr list.currentIndex = true := by
      by_contra hnot
      exact hinside (Walker.parameters_cons_of_not hgoesOn hnot)
    have hvalue : (processWalker device valid word).word core list.addr list.currentIndex =
        words list.currentIndex := hwords core.outside list.currentIndex hfirst.1
    rw [Walker.parameters_cons hgoesOn hfirst, hvalue] at hinside ⊢
    rw [if_neg hstop]
    cases hwrite : core.writeInternalReg device ⟨id, words list.currentIndex, mask⟩ with
    | none =>
      have hnone : (processWalker device valid word).write core
          ⟨id, words list.currentIndex, mask⟩ = none := by rw [processWalker_write, hwrite]; rfl
      rw [Walker.apply_of_none hnone, Except.bind]
      exact ⟨rfl, fun result hresult => nomatch hresult⟩
    | some written =>
      have hsome : (processWalker device valid word).write core
          ⟨id, words list.currentIndex, mask⟩ = some written.1 := by
        rw [processWalker_write, hwrite]
        rfl
      obtain ⟨list', happly, hsame⟩ := (@Walker.apply_of_some _ _ _ (list.advance 1)) hsome
      have hlist' := hsame (hids id List.mem_cons_self)
      subst hlist'
      rw [happly, Except.bind] at hinside ⊢
      obtain ⟨hwrites, hlist⟩ := @ih written.1 (list.advance 1)
        (fun id hmem => hids id (List.mem_cons_of_mem _ hmem)) hwords (bind_ok_inside_iff.mp hinside)
      have hindex : (list.advance 1).currentIndex = list.currentIndex + 1 := rfl
      rw [hindex] at hwrites
      simp only
      rw [← hwrites]
      generalize (processWalker device valid word).parameters mask ids written.1 (list.advance 1) =
        outcome at hlist
      cases outcome with
      | error fault => exact ⟨rfl, fun result hresult => nomatch hresult⟩
      | ok rest =>
        refine ⟨rfl, fun result hresult => ?_⟩
        cases hresult
        refine (hlist rest rfl).imp_right fun hadvance => ?_
        simp only [hadvance, advance, List.length_cons]
        rw [Nat.add_assoc, Nat.add_comm 1]

/-- The commands of a list, without jumps. -/
theorem commands_applyWrites {count : Nat}
    (hwords : ∀ outside i, i < list.length → word outside list.addr i = words i)
    (hjumps : ∀ write ∈ describe words list.length list.currentIndex, triggerOf write.id = none)
    (hcount : list.length ≤ list.currentIndex + count)
    (hinside : (processWalker device valid word).commands count core list ≠ .error .outside) :
    ((processWalker device valid word).commands count core list).map withoutList =
      applyWrites device (describe words list.length list.currentIndex) core := by
  induction count generalizing core list with
  | zero =>
    rw [describe, if_neg (Nat.not_lt.mpr (Nat.add_zero list.currentIndex ▸ hcount))]
    rfl
  | succ count ih =>
    rw [Walker.commands] at hinside ⊢
    by_cases hrunning : (processWalker device valid word).Running core list
    · rw [if_pos hrunning] at hinside ⊢
      obtain ⟨hindex, hgoesOn⟩ := hrunning
      have hstop : ¬core.stopRequested = true := fun hstop => hgoesOn ⟨rfl, hstop⟩
      obtain ⟨hcommand, hrest⟩ := bind_inside_iff.mp hinside
      have hhas := (Walker.command_inside_iff.mp hcommand).1
      have hlength : list.align.length = list.length := rfl
      have hvalue : (processWalker device valid word).word core list.addr list.align.currentIndex =
          words list.align.currentIndex := hwords core.outside _ (hhas 0 (by decide)).1
      have hhex : (processWalker device valid word).word core list.addr
          (list.align.currentIndex + 1) = words (list.align.currentIndex + 1) :=
        hwords core.outside _ (hhas 1 (by decide)).1
      have hdescribe := (@describe_of_lt words _ _ list.align.currentIndex) hindex rfl rfl
      rw [hdescribe] at hjumps ⊢
      rw [Walker.command_of_has hhas hhex, hvalue] at hcommand hrest ⊢
      rw [applyWrites, if_neg hstop]
      generalize CommandHeader.mk (words (list.align.currentIndex + 1)) = header at *
      have hfirst : triggerOf header.cmdId = none := hjumps _ List.mem_cons_self
      have hids : ∀ id ∈ header.extraIds, triggerOf id = none := by
        intro id hid
        obtain ⟨write, hmem, hwrite⟩ :=
          (@mem_describeExtra words header.parameterMask _ _ (list.align.currentIndex + 2)) hid
        rw [← hwrite]
        exact hjumps write (List.mem_cons_of_mem _ (List.mem_append_left _ hmem))
      cases hwrite : core.writeInternalReg device
          ⟨header.cmdId, words list.align.currentIndex, header.parameterMask⟩ with
      | none =>
        have hnone : (processWalker device valid word).write core
            ⟨header.cmdId, words list.align.currentIndex, header.parameterMask⟩ = none := by
          rw [processWalker_write, hwrite]
          rfl
        rw [Walker.apply_of_none hnone]
        rfl
      | some written =>
        have hsome : (processWalker device valid word).write core
            ⟨header.cmdId, words list.align.currentIndex, header.parameterMask⟩ = some written.1 := by
          rw [processWalker_write, hwrite]
          rfl
        obtain ⟨list', happly, hsame⟩ := (@Walker.apply_of_some _ _ _ (list.align.advance 2)) hsome
        have hlist' := hsame hfirst
        subst hlist'
        rw [happly, Except.bind] at hcommand hrest ⊢
        obtain ⟨hwrites, hlist⟩ :=
          (@parameters_applyWrites _ _ _ _ _ written.1 _ (list.align.advance 2)) hids hwords
            (bind_ok_inside_iff.mp hcommand)
        have hplace : (list.align.advance 2).currentIndex = list.align.currentIndex + 2 := rfl
        rw [hplace] at hwrites
        simp only at hrest ⊢
        rw [applyWrites_append, ← hwrites]
        generalize (processWalker device valid word).parameters header.parameterMask header.extraIds
          written.1 (list.align.advance 2) = outcome at *
        cases outcome with
        | error fault => rfl
        | ok rest =>
          obtain ⟨extra, core', list'⟩ := rest
          have hrest := hrest _ rfl
          simp only [Except.bind, Except.map, withoutList] at hwrites hrest ⊢
          by_cases hsecond : core'.stopRequested = true
          · -- nothing is applied behind a stop
            have hmore : (processWalker device valid word).commands count core' list' =
                .ok ([], core', list') :=
              Walker.commands_of_not_running fun hrunning => hrunning.2 ⟨rfl, hsecond⟩
            rw [applyWrites_of_stop hsecond, hmore]
            cases (processWalker device valid word).stops written.1 with
            | true => simp
            | false => simp
          · have hnostop : ¬(processWalker device valid word).stops written.1 = true := by
              intro hstopped
              rw [applyWrites_of_stop hstopped] at hwrites
              exact hsecond ((Prod.mk.inj (Except.ok.inj hwrites)).2 ▸ hstopped)
            rw [if_neg hnostop] at hrest ⊢
            have hadvance := (hlist _ rfl).resolve_left hsecond
            rw [length_extraIds] at hadvance
            subst hadvance
            have hle : list.currentIndex ≤ list.align.currentIndex := by
              unfold CommandList.align
              simp only
              split <;> omega
            have hmore := @ih core'
              ((list.align.advance 2).advance header.extraDataLength) hwords
              (fun write hmem => hjumps write (List.mem_cons_of_mem _ (List.mem_append_right _ hmem)))
              (by simp only [advance]; omega) (bind_ok_inside_iff.mp hrest)
            have hindex' : ((list.align.advance 2).advance header.extraDataLength).currentIndex =
                list.align.currentIndex + 2 + header.extraDataLength := rfl
            have hlength' : ((list.align.advance 2).advance header.extraDataLength).length =
                list.length := rfl
            rw [hindex', hlength'] at hmore
            rw [← hmore]
            cases (processWalker device valid word).commands count core'
                ((list.align.advance 2).advance header.extraDataLength) with
            | error fault => rfl
            | ok more => simp [Except.map, withoutList]
    · rw [if_neg hrunning]
      by_cases hstop : core.stopRequested = true
      · rw [applyWrites_of_stop hstop]
        rfl
      · have hend : ¬list.currentIndex < list.length := fun hindex =>
          hrunning ⟨hindex, fun h => hstop h.2⟩
        rw [describe, if_neg hend]
        rfl

end Described

/-! ## Processing a list -/

section Lists

variable {F Ω : Type} (device : Device F Ω) (valid : Nat → Nat → Bool) (word : Ω → Nat → Nat → Word)
  (core : PicaCore F Ω) (list size : Nat)

/-- Only words of the list are read that is current. A list that does not change and has no jumps is
applied as it is described, until it ends or a stop is requested. -/
structure ReadsOnlyList : Prop where
  process : ∀ ignoreList count,
    core.processCmdList device valid word list size ignoreList count ≠ .error .outside
  guess : core.guessCmdRenderProperties valid word list size ≠ .error .outside
  described : ∀ words, (∀ outside i, i < size / 4 → word outside list i = words i) →
    (∀ write ∈ describe words (size / 4) 0, triggerOf write.id = none) → ∀ count, size / 4 ≤ count →
      (core.processCmdList device valid word list size false count).map withoutList =
        applyWrites device (describe words (size / 4) 0) { core with stopRequested := false }

theorem readsOnlyList_iff : ReadsOnlyList device valid word core list size ↔
    (∀ count, (processWalker device valid word).Fits count { core with stopRequested := false }
      (reset list size)) ∧
      (guessWalker valid word).Fits 0x100 core.initialGuess (reset list size) := by
  constructor
  · intro h
    exact ⟨fun count => Walker.commands_inside_iff.mp (h.process false count),
      Walker.commands_inside_iff.mp h.guess⟩
  · rintro ⟨hprocess, hguess⟩
    refine ⟨fun ignoreList count => ?_, Walker.commands_inside_iff.mpr hguess,
      fun words hwords hjumps count hcount => ?_⟩
    · cases ignoreList with
      | true => exact nofun
      | false => exact Walker.commands_inside_iff.mpr (hprocess count)
    · exact (@commands_applyWrites _ _ _ _ _ _ _ (reset list size)) hwords hjumps
        (by exact (Nat.zero_add count).symm ▸ hcount) (Walker.commands_inside_iff.mpr (hprocess count))

end Lists

/-- A list of two words whose header asks for a third one, and a list without a pointer. -/
theorem not_readsOnlyList :
    ¬ReadsOnlyList idleDevice (fun _ _ => true) (fun _ _ i => if i = 1 then 0x00100000 else 0)
      emptyCore 0x20000000 8 ∧
    ¬ReadsOnlyList idleDevice (fun _ _ => false) (fun _ _ _ => 0) emptyCore 0 8 := by
  constructor
  · intro h
    exact h.process false 1 rfl
  · intro h
    exact h.process false 1 rfl

end GbaStation.Pica
