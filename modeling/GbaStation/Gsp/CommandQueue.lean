import Mathlib.Data.List.Nodup
import Mathlib.Data.List.Perm.Subperm
import Mathlib.Logic.Function.Iterate
import Mathlib.Tactic.IntervalCases

/-!
# The command queue of the GSP service (`TriggerCmdReqQueue`)

A thread leaves GX commands in a ring of fifteen places in shared memory, behind a header with the index
of the first one, their number and two flags that stop the queue. The service executes them one after
the other, and keeps index and number in the header, where the guest, and the commands themselves, can
write as well.

- `processes_iff`: the request is processed if and only if a thread has the right, and up to where the
  queue stops, the index is one of the ring and the commands leave index and number as they are.
-/

namespace GbaStation.Gsp

/-- A GX command, as the bytes in shared memory. -/
abbrev Command := List UInt8

def Command.id (command : Command) : UInt8 := command.getD 0 0

def Command.stop (command : Command) : UInt8 := command.getD 2 0

/-- `CommandId::SubmitCmdList`. -/
def submitCmdList : UInt8 := 0x01

/-- The first word of a `CommandBuffer`. -/
structure CommandHeader where
  index : Nat
  numberCommands : Nat
  status : Nat
  shouldStop : Nat
deriving DecidableEq, Repr

/-- `STATUS_STOPPED`. -/
def statusStopped : Nat := 0x1

/-- Why there is no result: a read outside of the shared memory, or a loop that goes on. -/
inductive QueueFault where
  | outside
  | running
deriving DecidableEq, Repr

/-- The shared memory, and all that commands see and change besides. -/
structure GspWorld (R : Type) where
  sharedMemory : Nat → UInt8
  rest : R

variable {R : Type}

namespace GspWorld

def write (world : GspWorld R) (offset : Nat) (value : UInt8) : GspWorld R :=
  { world with sharedMemory := Function.update world.sharedMemory offset value }

/-- Bytes of the shared memory, which is one page. -/
def read (world : GspWorld R) (offset size : Nat) : Except QueueFault (List UInt8) :=
  if offset + size ≤ 0x1000 then .ok ((List.range size).map fun i => world.sharedMemory (offset + i))
  else .error .outside

/-- The header of a command buffer. -/
def header (world : GspWorld R) (buffer : Nat) : CommandHeader where
  index := (world.sharedMemory buffer).toNat
  numberCommands := (world.sharedMemory (buffer + 1)).toNat
  status := (world.sharedMemory (buffer + 2)).toNat
  shouldStop := (world.sharedMemory (buffer + 3)).toNat

end GspWorld

/-- Where `GetCommandBuffer` points to. The offset is a value of `u32`. -/
def getCommandBuffer (threadIdWithRights : Option (Fin 4)) : Nat :=
  (0x800 + (threadIdWithRights.elim (2 ^ 32 - 1) Fin.val) * 0x200) % 2 ^ 32

/-- The place behind another one in the ring. -/
def nextCommand (index : Nat) : Nat := (index + 1) % 15

/-- A command is taken from the queue, and executed. -/
def executeNext (execute : Command → GspWorld R → GspWorld R) (buffer : Nat) (command : Command)
    (world : GspWorld R) : GspWorld R :=
  let world := execute command ((world.write (buffer + 1)
    (UInt8.ofNat ((world.header buffer).numberCommands - 1))).write buffer
      (UInt8.ofNat (nextCommand (world.header buffer).index)))
  if command.stop ≠ 0 then world.write (buffer + 2) (UInt8.ofNat statusStopped) else world

/-- The loop, with the commands that are executed, and the header before each of them. -/
def processQueue (execute : Command → GspWorld R → GspWorld R) (buffer : Nat) :
    Nat → GspWorld R → Except QueueFault (List (CommandHeader × Command) × GspWorld R)
  | 0, _ => .error .running
  | fuel + 1, world => do
    let _ ← world.read buffer 4
    let header := world.header buffer
    if header.numberCommands = 0 then return ([], world)
    else if header.shouldStop ≠ 0 then
      return ([], world.write (buffer + 2) (UInt8.ofNat statusStopped))
    else if header.status = statusStopped then return ([], world)
    else
      let command ← world.read (buffer + 0x20 + 0x20 * header.index) 0x20
      let (executed, world) ← processQueue execute buffer fuel
        (executeNext execute buffer command world)
      return ((header, command) :: executed, world)

/-- How a request is answered: in the handler, or when the delay is over. -/
inductive QueueAnswer where
  | atOnce
  | delayed
deriving DecidableEq, Repr

structure QueueRun (R : Type) where
  answers : List QueueAnswer
  executed : List (CommandHeader × Command)
  world : GspWorld R

/-- `TriggerCmdReqQueue`. The first answer does not return. -/
def triggerCmdReqQueue (execute : Command → GspWorld R → GspWorld R) (delayGameRenderThread : Bool)
    (threadIdWithRights : Option (Fin 4)) (fuel : Nat) (world : GspWorld R) :
    Except QueueFault (QueueRun R) := do
  let answers := if threadIdWithRights = none then [QueueAnswer.atOnce] else []
  let (executed, world) ← processQueue execute (getCommandBuffer threadIdWithRights) fuel world
  let requiresDelay := delayGameRenderThread && executed.any fun entry => entry.2.id == submitCmdList
  return { answers := answers ++ [if requiresDelay then .delayed else .atOnce], executed, world }

/-! ## A queue that was processed -/

/-- The header stops the queue. -/
def CommandHeader.Stops (header : CommandHeader) : Prop :=
  header.numberCommands = 0 ∨ header.shouldStop ≠ 0 ∨ header.status = statusStopped

/-- The headers before the commands, and the one in the end. -/
def headers (executed : List (CommandHeader × Command)) (after : CommandHeader) :
    List CommandHeader :=
  executed.map Prod.fst ++ [after]

/-- The commands are places of the ring, each at most once. From a header that asks for commands, the
place and the number go on by one with each command, so that they describe what is left. The queue goes
on until a header stops it, or a command does. -/
structure Processed (before : CommandHeader) (executed : List (CommandHeader × Command))
    (after : CommandHeader) : Prop where
  inRing : ∀ entry ∈ executed, entry.1.index < 15
  once : (executed.map fun entry => entry.1.index).Nodup
  describes : ∀ i header, (headers executed after)[i]? = some header →
    header.index = nextCommand^[i] before.index ∧ header.numberCommands + i = before.numberCommands
  /-- What is left in the end. -/
  leaves : after.index = nextCommand^[executed.length] before.index ∧
    after.numberCommands + executed.length = before.numberCommands
  goesOn : ∀ i entry, executed[i]? = some entry →
    ¬entry.1.Stops ∧ (i + 1 < executed.length → entry.2.stop = 0)
  stops : after.Stops

/-- The request is answered once, and its queue is processed. -/
def Processes (execute : Command → GspWorld R → GspWorld R) (delayGameRenderThread : Bool)
    (threadIdWithRights : Option (Fin 4)) (world : GspWorld R) : Prop :=
  ∃ fuel run, triggerCmdReqQueue execute delayGameRenderThread threadIdWithRights fuel world = .ok run ∧
    run.answers.length = 1 ∧
    Processed (world.header (getCommandBuffer threadIdWithRights)) run.executed
      (run.world.header (getCommandBuffer threadIdWithRights))

/-- At most so many commands are left before the queue stops. The index of each is one of the ring, and
executing it leaves index and number. -/
def Orderly (execute : Command → GspWorld R → GspWorld R) (buffer : Nat) : Nat → GspWorld R → Prop
  | 0, world => (world.header buffer).Stops
  | room + 1, world =>
    (world.header buffer).Stops ∨
      (world.header buffer).index < 15 ∧
        ∀ command, world.read (buffer + 0x20 + 0x20 * (world.header buffer).index) 0x20 = .ok command →
          ((executeNext execute buffer command world).header buffer).index =
              nextCommand (world.header buffer).index ∧
            ((executeNext execute buffer command world).header buffer).numberCommands + 1 =
              (world.header buffer).numberCommands ∧
            Orderly execute buffer room (executeNext execute buffer command world)

/-! ## Command buffers in the page -/

theorem getCommandBuffer_le (threadIdWithRights : Option (Fin 4)) :
    getCommandBuffer threadIdWithRights + 0x200 ≤ 0x1000 := by
  cases threadIdWithRights with
  | none => decide
  | some threadId => revert threadId; decide

section Queue

variable {execute : Command → GspWorld R → GspWorld R} {buffer : Nat} {world final : GspWorld R}
  {executed : List (CommandHeader × Command)} {before after : CommandHeader} {fuel room : Nat}

theorem GspWorld.read_of_le {offset size : Nat} (h : offset + size ≤ 0x1000) :
    world.read offset size =
      .ok ((List.range size).map fun i => world.sharedMemory (offset + i)) := if_pos h

/-- The places of the ring are in the page. -/
theorem read_command (hbuffer : buffer + 0x200 ≤ 0x1000) {index : Nat} (h : index < 15) :
    ∃ command, world.read (buffer + 0x20 + 0x20 * index) 0x20 = .ok command :=
  ⟨_, GspWorld.read_of_le (by omega)⟩

@[simp] theorem header_write_status (value : UInt8) :
    (world.write (buffer + 2) value).header buffer =
      { world.header buffer with status := value.toNat } := by
  simp [GspWorld.header, GspWorld.write]

/-- A command with its stop flag set stops the queue. -/
theorem stops_executeNext {command : Command} (h : command.stop ≠ 0) :
    ((executeNext execute buffer command world).header buffer).Stops := by
  unfold executeNext
  rw [if_pos h, header_write_status]
  exact .inr (.inr rfl)

/-! ## Steps of the loop -/

/-- The loop ends with a header that stops it. -/
theorem processQueue_of_stops (hbuffer : buffer + 0x200 ≤ 0x1000)
    (h : (world.header buffer).Stops) :
    ∃ final, processQueue execute buffer (fuel + 1) world = .ok ([], final) ∧
      (final.header buffer).index = (world.header buffer).index ∧
      (final.header buffer).numberCommands = (world.header buffer).numberCommands ∧
      (final.header buffer).Stops := by
  rw [processQueue, GspWorld.read_of_le (by omega)]
  simp only [bind, Except.bind, pure, Except.pure]
  by_cases hnone : (world.header buffer).numberCommands = 0
  · rw [if_pos hnone]
    exact ⟨world, rfl, rfl, rfl, h⟩
  rw [if_neg hnone]
  by_cases hstop : (world.header buffer).shouldStop ≠ 0
  · rw [if_pos hstop]
    refine ⟨_, rfl, ?_, ?_, ?_⟩
    · rw [header_write_status]
    · rw [header_write_status]
    · rw [header_write_status]
      exact .inr (.inr rfl)
  · have hstatus : (world.header buffer).status = statusStopped :=
      (h.resolve_left hnone).resolve_left hstop
    rw [if_neg hstop, if_pos hstatus]
    exact ⟨world, rfl, rfl, rfl, h⟩

/-- Otherwise the loop takes a command. -/
theorem processQueue_of_goesOn (hbuffer : buffer + 0x200 ≤ 0x1000)
    (h : ¬(world.header buffer).Stops) :
    processQueue execute buffer (fuel + 1) world =
      (world.read (buffer + 0x20 + 0x20 * (world.header buffer).index) 0x20).bind fun command =>
        (processQueue execute buffer fuel (executeNext execute buffer command world)).bind fun rest =>
          .ok ((world.header buffer, command) :: rest.1, rest.2) := by
  simp only [CommandHeader.Stops, not_or] at h
  obtain ⟨hsome, hstop, hstatus⟩ := h
  rw [processQueue, GspWorld.read_of_le (by omega)]
  simp only [bind, Except.bind, pure, Except.pure, if_neg hsome, if_neg hstop, if_neg hstatus]

/-! ## Runs of the loop -/

/-- `Processed` along the loop, where the places of the ring need not be different. -/
inductive Advances : CommandHeader → List (CommandHeader × Command) → CommandHeader → Prop where
  | stop {before after : CommandHeader} (hindex : after.index = before.index)
    (hnumber : after.numberCommands = before.numberCommands) (hstops : after.Stops) :
    Advances before [] after
  | next {before between after : CommandHeader} {command : Command}
    {executed : List (CommandHeader × Command)} (hgoesOn : ¬before.Stops) (hring : before.index < 15)
    (hlast : executed ≠ [] → command.stop = 0) (hindex : between.index = nextCommand before.index)
    (hnumber : between.numberCommands + 1 = before.numberCommands)
    (hrest : Advances between executed after) :
    Advances before ((before, command) :: executed) after

theorem after_header {executed : List (CommandHeader × Command)} {after : CommandHeader} :
    (headers executed after)[executed.length]? = some after := by
  simp [headers]

namespace Advances

theorem describes (h : Advances before executed after) (i : Nat) (header : CommandHeader)
    (hi : (headers executed after)[i]? = some header) :
    header.index = nextCommand^[i] before.index ∧
      header.numberCommands + i = before.numberCommands := by
  induction h generalizing i with
  | stop hindex hnumber hstops =>
    cases i with
    | zero =>
      cases hi
      exact ⟨hindex, hnumber⟩
    | succ i => cases hi
  | next hgoesOn hring hlast hindex hnumber hrest ih =>
    cases i with
    | zero =>
      cases hi
      exact ⟨rfl, rfl⟩
    | succ i =>
      obtain ⟨hindex', hnumber'⟩ := ih i hi
      rw [Function.iterate_succ_apply, ← hindex]
      exact ⟨hindex', by omega⟩

theorem goesOn (h : Advances before executed after) (i : Nat) (entry : CommandHeader × Command)
    (hi : executed[i]? = some entry) :
    ¬entry.1.Stops ∧ (i + 1 < executed.length → entry.2.stop = 0) := by
  induction h generalizing i with
  | stop hindex hnumber hstops => cases hi
  | next hgoesOn hring hlast hindex hnumber hrest ih =>
    cases i with
    | zero =>
      cases hi
      exact ⟨hgoesOn, fun hmore => hlast (List.ne_nil_of_length_pos (Nat.lt_of_succ_lt_succ hmore))⟩
    | succ i =>
      obtain ⟨hgoesOn', hlast'⟩ := ih i hi
      exact ⟨hgoesOn', fun hmore => hlast' (Nat.lt_of_succ_lt_succ hmore)⟩

theorem inRing (h : Advances before executed after) : ∀ entry ∈ executed, entry.1.index < 15 := by
  induction h with
  | stop hindex hnumber hstops => exact fun _ hmem => absurd hmem List.not_mem_nil
  | next hgoesOn hring hlast hindex hnumber hrest ih =>
    intro entry hmem
    rcases List.mem_cons.mp hmem with rfl | hmem
    · exact hring
    · exact ih entry hmem

theorem stops (h : Advances before executed after) : after.Stops := by
  induction h with
  | stop hindex hnumber hstops => exact hstops
  | next hgoesOn hring hlast hindex hnumber hrest ih => exact ih

end Advances

/-- The places that follow one of the ring. -/
theorem iterate_nextCommand {index : Nat} (h : index < 15) (i : Nat) :
    nextCommand^[i] index = (index + i) % 15 := by
  induction i with
  | zero => exact (Nat.mod_eq_of_lt h).symm
  | succ i ih =>
    rw [Function.iterate_succ_apply', ih, nextCommand, Nat.mod_add_mod, Nat.add_assoc]

/-- Fifteen commands in a row are in different places. -/
theorem Advances.once (h : Advances before executed after) (hlength : executed.length ≤ 15) :
    (executed.map fun entry => entry.1.index).Nodup := by
  rw [List.nodup_iff_getElem?_ne_getElem?]
  intro i j hij hj heq
  rw [List.length_map] at hj
  have hplace : ∀ k (hk : k < executed.length),
      (executed[k]).1.index = (before.index + k) % 15 := by
    intro k hk
    have hfirst : before.index < 15 := by
      cases h with
      | stop => exact absurd hk (Nat.not_lt_zero k)
      | next hgoesOn hring => exact hring
    have hheader : (headers executed after)[k]? = some (executed[k]).1 := by
      unfold headers
      rw [List.getElem?_append_left (by rwa [List.length_map]), List.getElem?_map,
        List.getElem?_eq_getElem hk]
      rfl
    rw [(h.describes k _ hheader).1, iterate_nextCommand hfirst]
  rw [List.getElem?_map, List.getElem?_map, List.getElem?_eq_getElem hj,
    List.getElem?_eq_getElem (Nat.lt_trans hij hj)] at heq
  have hsame : (executed[i]).1.index = (executed[j]).1.index := Option.some.inj heq
  rw [hplace i (Nat.lt_trans hij hj), hplace j hj] at hsame
  omega

/-- So many different places are not in the ring. -/
theorem Processed.length_le (h : Processed before executed after) : executed.length ≤ 15 := by
  have hsub : (executed.map fun entry => entry.1.index) ⊆ List.range 15 := by
    intro index hmem
    obtain ⟨entry, hentry, rfl⟩ := List.mem_map.mp hmem
    exact List.mem_range.mpr (h.inRing entry hentry)
  have hle := (h.once.subperm hsub).length_le
  rwa [List.length_map, List.length_range] at hle

/-- An orderly queue is processed. -/
theorem processQueue_of_orderly (hbuffer : buffer + 0x200 ≤ 0x1000)
    (h : Orderly execute buffer room world) :
    ∃ executed final, processQueue execute buffer (room + 1) world = .ok (executed, final) ∧
      executed.length ≤ room ∧
      Advances (world.header buffer) executed (final.header buffer) := by
  induction room generalizing world with
  | zero =>
    obtain ⟨final, hrun, hindex, hnumber, hstops⟩ :=
      (@processQueue_of_stops _ execute _ _ 0) hbuffer h
    exact ⟨[], final, hrun, Nat.le_refl 0, .stop hindex hnumber hstops⟩
  | succ room ih =>
    by_cases hstops : (world.header buffer).Stops
    · obtain ⟨final, hrun, hindex, hnumber, hstops⟩ :=
        (@processQueue_of_stops _ execute _ _ (room + 1)) hbuffer hstops
      exact ⟨[], final, hrun, Nat.zero_le _, .stop hindex hnumber hstops⟩
    · obtain ⟨hring, hcommand⟩ := h.resolve_left hstops
      obtain ⟨command, hread⟩ := (@read_command _ _ world) hbuffer hring
      obtain ⟨hindex, hnumber, hrest⟩ := hcommand command hread
      obtain ⟨executed, final, hrun, hlength, hadvances⟩ := ih hrest
      refine ⟨(world.header buffer, command) :: executed, final, ?_, Nat.succ_le_succ hlength,
        .next hstops hring ?_ hindex hnumber hadvances⟩
      · rw [processQueue_of_goesOn hbuffer hstops, hread, Except.bind, hrun]
        rfl
      · -- behind a command that stops the queue there is none
        intro hmore
        by_contra hstop
        have hhead := (@stops_executeNext _ execute buffer world) hstop
        cases hadvances with
        | stop => exact hmore rfl
        | next hgoesOn => exact hgoesOn hhead

theorem orderly_mono {room' : Nat} (hle : room ≤ room') (h : Orderly execute buffer room world) :
    Orderly execute buffer room' world := by
  induction room generalizing world room' with
  | zero =>
    cases room' with
    | zero => exact h
    | succ room' => exact .inl h
  | succ room ih =>
    obtain ⟨room', rfl⟩ := Nat.exists_eq_add_of_le' (Nat.le_trans (Nat.le_add_left 1 room) hle)
    rcases h with hstops | ⟨hring, hcommand⟩
    · exact .inl hstops
    · refine .inr ⟨hring, fun command hread => ?_⟩
      obtain ⟨hindex, hnumber, hrest⟩ := hcommand command hread
      exact ⟨hindex, hnumber, ih (Nat.le_of_succ_le_succ hle) hrest⟩

/-- The first header of a run. -/
theorem header_of_processQueue (hbuffer : buffer + 0x200 ≤ 0x1000) {fuel : Nat}
    (hrun : processQueue execute buffer fuel world = .ok (executed, final)) :
    ∃ header, (headers executed (final.header buffer))[0]? = some header ∧
      header.index = (world.header buffer).index ∧
      header.numberCommands = (world.header buffer).numberCommands := by
  cases fuel with
  | zero => cases hrun
  | succ fuel =>
    by_cases hstops : (world.header buffer).Stops
    · obtain ⟨final', hrun', hindex, hnumber, -⟩ :=
        (@processQueue_of_stops _ execute _ _ fuel) hbuffer hstops
      rw [hrun'] at hrun
      cases hrun
      exact ⟨_, rfl, hindex, hnumber⟩
    · rw [processQueue_of_goesOn hbuffer hstops] at hrun
      simp only [Except.bind] at hrun
      split at hrun
      · cases hrun
      · split at hrun
        · cases hrun
        · cases hrun
          exact ⟨_, rfl, rfl, rfl⟩

/-- A queue that was processed is orderly. -/
theorem orderly_of_processQueue (hbuffer : buffer + 0x200 ≤ 0x1000)
    (hrun : processQueue execute buffer fuel world = .ok (executed, final))
    (hring : ∀ entry ∈ executed, entry.1.index < 15)
    (hdescribes : ∀ i header, (headers executed (final.header buffer))[i]? = some header →
      header.index = nextCommand^[i] (world.header buffer).index ∧
        header.numberCommands + i = (world.header buffer).numberCommands) :
    Orderly execute buffer executed.length world := by
  induction fuel generalizing world executed with
  | zero => cases hrun
  | succ fuel ih =>
    by_cases hstops : (world.header buffer).Stops
    · exact orderly_mono (Nat.zero_le _) hstops
    · rw [processQueue_of_goesOn hbuffer hstops] at hrun
      simp only [Except.bind] at hrun
      split at hrun
      · cases hrun
      · next command hread =>
        split at hrun
        · cases hrun
        · next rest hrest =>
          cases hrun
          obtain ⟨header, hheader, hindex, hnumber⟩ := header_of_processQueue hbuffer hrest
          obtain ⟨hindex', hnumber'⟩ := hdescribes 1 header hheader
          rw [hindex] at hindex'
          rw [hnumber] at hnumber'
          refine .inr ⟨hring _ List.mem_cons_self, fun command' hread' => ?_⟩
          obtain rfl : command = command' := Except.ok.inj (hread.symm.trans hread')
          refine ⟨hindex', hnumber', ih hrest (fun entry hmem =>
            hring entry (List.mem_cons_of_mem _ hmem)) fun i header hi => ?_⟩
          obtain ⟨hplace, hleft⟩ := hdescribes (i + 1) header hi
          rw [Function.iterate_succ_apply] at hplace
          rw [hindex']
          exact ⟨hplace, by omega⟩

end Queue

section Requests

variable (execute : Command → GspWorld R → GspWorld R) (delayGameRenderThread : Bool)
  (threadIdWithRights : Option (Fin 4)) (world : GspWorld R)

variable {execute delayGameRenderThread threadIdWithRights world} in
theorem Processes.orderly
    (h : Processes execute delayGameRenderThread threadIdWithRights world) :
    threadIdWithRights ≠ none ∧
      Orderly execute (getCommandBuffer threadIdWithRights) 15 world := by
  obtain ⟨fuel, run, hrun, hanswers, hprocessed⟩ := h
  simp only [triggerCmdReqQueue, bind, Except.bind] at hrun
  split at hrun
  · cases hrun
  · next result hresult =>
    cases hrun
    constructor
    · rintro rfl
      cases hanswers
    · exact orderly_mono hprocessed.length_le (orderly_of_processQueue
        (getCommandBuffer_le threadIdWithRights) hresult hprocessed.inRing hprocessed.describes)

theorem processes_iff :
    Processes execute delayGameRenderThread threadIdWithRights world ↔
      threadIdWithRights ≠ none ∧
        Orderly execute (getCommandBuffer threadIdWithRights) 15 world := by
  constructor
  · exact Processes.orderly
  · rintro ⟨hrights, horderly⟩
    obtain ⟨executed, final, hrun, hlength, hadvances⟩ :=
      processQueue_of_orderly (getCommandBuffer_le threadIdWithRights) horderly
    have hprocessed : Processed (world.header (getCommandBuffer threadIdWithRights)) executed
        (final.header (getCommandBuffer threadIdWithRights)) :=
      ⟨hadvances.inRing, hadvances.once hlength, hadvances.describes,
        hadvances.describes _ _ after_header, hadvances.goesOn, hadvances.stops⟩
    obtain ⟨answer, htrigger⟩ : ∃ answer,
        triggerCmdReqQueue execute delayGameRenderThread threadIdWithRights 16 world =
          .ok ⟨[answer], executed, final⟩ := by
      rw [triggerCmdReqQueue, hrun, if_neg hrights]
      exact ⟨_, rfl⟩
    exact ⟨16, _, htrigger, rfl, hprocessed⟩

end Requests

/-- A page with the header of the first thread, and nothing else. -/
def headerWorld (index numberCommands : UInt8) : GspWorld Unit where
  sharedMemory := Function.update (Function.update (fun _ => 0) 0x800 index) 0x801 numberCommands
  rest := ()

/-- A parameter of a command, as a little-endian word. -/
def Command.word (command : Command) (i : Nat) : Nat :=
  (List.range 4).foldr (fun k word => (command.getD (4 * i + k) 0).toNat + 256 * word) 0

/-- `RequestDma` between two places in the shared memory, which is mapped at an address. -/
def requestDma (mapped : Nat) (command : Command) (world : GspWorld Unit) : GspWorld Unit :=
  { world with
    sharedMemory := fun i =>
      if command.word 2 - mapped ≤ i ∧ i < command.word 2 - mapped + command.word 3 then
        world.sharedMemory (command.word 1 - mapped + (i - (command.word 2 - mapped)))
      else world.sharedMemory i }

/-- The command at the first place: a DMA that copies a header with one command over the header. -/
def copyOverHeader : Command :=
  [0, 0, 0, 0, 0x00, 0x26, 0x00, 0x10, 0x00, 0x28, 0x00, 0x10, 4, 0, 0, 0,
    0, 0, 0, 0, 0, 0, 0, 0, 0, 0, 0, 0, 0, 0, 0, 0]

/-- A page with this command, its header, and the header that it copies. -/
def dmaWorld : GspWorld Unit where
  sharedMemory i :=
    if 0x820 ≤ i then copyOverHeader.getD (i - 0x820) 0 else if i = 0x601 ∨ i = 0x801 then 1 else 0
  rest := ()

theorem requestDma_copyOverHeader (world : GspWorld Unit) :
    requestDma 0x10002000 copyOverHeader world =
      { world with
        sharedMemory := fun i => if 0x800 ≤ i ∧ i < 0x804 then world.sharedMemory (0x600 + (i - 0x800))
          else world.sharedMemory i } := by
  have hsource : copyOverHeader.word 1 - 0x10002000 = 0x600 := by decide +kernel
  have hdest : copyOverHeader.word 2 - 0x10002000 = 0x800 := by decide +kernel
  have hsize : 0x800 + copyOverHeader.word 3 = 0x804 := by decide +kernel
  rw [requestDma, hsource, hdest, hsize]

/-- The command takes the header back to where it was. -/
theorem executeNext_dmaWorld :
    executeNext (requestDma 0x10002000) 0x800 copyOverHeader dmaWorld = dmaWorld := by
  have hgoesOn : ¬copyOverHeader.stop ≠ 0 := fun hstop => hstop rfl
  rw [executeNext, if_neg hgoesOn, requestDma_copyOverHeader]
  refine congrArg (GspWorld.mk · ()) (funext fun i => ?_)
  by_cases hcopied : 0x800 ≤ i ∧ i < 0x804
  · rw [if_pos hcopied]
    obtain ⟨hle, hlt⟩ := hcopied
    interval_cases i <;> rfl
  · have hindex : i ≠ 0x800 := by omega
    have hnumber : i ≠ 0x800 + 1 := by omega
    rw [if_neg hcopied, GspWorld.write, GspWorld.write]
    exact (Function.update_of_ne hindex _ _).trans (Function.update_of_ne hnumber _ _)

/-- Without the right the request is answered twice, a place behind the ring is read, and a command that
puts its own header back is executed for ever. -/
theorem not_processes :
    ¬Processes (requestDma 0x10002000) false none (headerWorld 0 0) ∧
      triggerCmdReqQueue (requestDma 0x10002000) false (some 0) 1 (headerWorld 255 1) =
        .error .outside ∧
      ¬Processes (requestDma 0x10002000) false (some 0) (headerWorld 255 1) ∧
      ∀ fuel, triggerCmdReqQueue (requestDma 0x10002000) false (some 0) fuel dmaWorld =
        .error .running := by
  have hbuffer : getCommandBuffer (some 0) = 0x800 := rfl
  refine ⟨fun h => h.orderly.1 rfl, ?_, fun h => ?_, fun fuel => ?_⟩
  · have hgoesOn : ¬((headerWorld 255 1).header 0x800).Stops := by
      unfold CommandHeader.Stops
      decide
    have hindex : ((headerWorld 255 1).header 0x800).index = 255 := rfl
    have hread : (headerWorld 255 1).read (0x800 + 0x20 + 0x20 * 255) 0x20 = .error .outside :=
      if_neg (by decide)
    rw [triggerCmdReqQueue, hbuffer, processQueue_of_goesOn (by decide) hgoesOn, hindex, hread]
    rfl
  · rcases h.orderly.2 with hstops | ⟨hring, -⟩
    · revert hstops
      unfold CommandHeader.Stops
      decide
    · exact absurd hring (by decide)
  · have hgoesOn : ¬(dmaWorld.header 0x800).Stops := by
      unfold CommandHeader.Stops
      decide
    have hread : dmaWorld.read (0x800 + 0x20 + 0x20 * 0) 0x20 = .ok copyOverHeader := by
      decide +kernel
    have hindex : (dmaWorld.header 0x800).index = 0 := rfl
    have hloop : processQueue (requestDma 0x10002000) 0x800 fuel dmaWorld = .error .running := by
      induction fuel with
      | zero => rfl
      | succ fuel ih =>
        rw [processQueue_of_goesOn (by decide) hgoesOn, hindex, hread, Except.bind,
          executeNext_dmaWorld, ih]
        rfl
    rw [triggerCmdReqQueue, hbuffer, hloop]
    rfl

end GbaStation.Gsp
