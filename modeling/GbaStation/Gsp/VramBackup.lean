import Mathlib.Data.List.Basic
import Mathlib.Logic.Function.Basic

/-!
# The backup of VRAM when an applet takes the screen (`SaveVramSysArea`, `RestoreVramSysArea`)

The picture on the screens is copied to three areas in VRAM. The banks with the areas are backed up
before, in two steps, and put back when the picture is restored.

- `saves_iff`: a save is undone by the restore behind it if and only if the top screen does not have
  four bytes per pixel, and no other backup is open that differs.

Surfaces of the rasterizer are flushed and invalidated around every access, so the memory is the one that
the guest and the GPU agree on. The handler would not run if VRAM were not mapped.
-/

namespace GbaStation.Gsp

/-- The memory of the guest, by virtual addresses. -/
abbrev GuestMemory := Nat → UInt8

def vramVaddr : Nat := 0x1F000000
def vramSize : Nat := 0x00600000
def vramBackupBankSize : Nat := 0x80000
def bankCount : Nat := vramSize / vramBackupBankSize

/-! ## Captures -/

/-- `memcpy`, or `memset` with zero if there is no source. -/
structure Store where
  dst : Nat
  bytes : Nat
  source : Option Nat
deriving DecidableEq, Repr

namespace Store

def Covers (store : Store) (a : Nat) : Prop := store.dst ≤ a ∧ a < store.dst + store.bytes

instance (store : Store) (a : Nat) : Decidable (store.Covers a) :=
  inferInstanceAs (Decidable (_ ∧ _))

def apply (memory : GuestMemory) (store : Store) : GuestMemory := fun a =>
  if store.Covers a then
    match store.source with
    | some source => memory (source + (a - store.dst))
    | none => 0
  else memory a

end Store

/-- The fields of `FrameBufferInfo` that are used here. -/
structure FrameBufferInfo where
  addressLeft : UInt32
  addressRight : UInt32
  stride : UInt32
  format : UInt32
deriving DecidableEq, Repr

/-- `bpp_per_format`, at `GetPixelFormat`. -/
def FrameBufferInfo.bytesPerPixel (info : FrameBufferInfo) : Nat :=
  [4, 3, 2, 2, 2, 0, 0, 0].getD (info.format.toNat % 8) 0

def framebufferWidth : Nat := 240
def topFramebufferHeight : Nat := 400
def bottomFramebufferHeight : Nat := 320
def framebufferSaveAreaTopLeft : Nat := vramVaddr + 0x273000
def framebufferSaveAreaTopRight : Nat := vramVaddr + 0x2B9800
def framebufferSaveAreaBottom : Nat := vramVaddr + 0x4C7800

/-- `CopyFrameBuffer`, where `mapped` says which addresses have a pointer. -/
def copyFrameBuffer (mapped : Nat → Bool) (dst src dstStride srcStride lines : Nat) : List Store :=
  if mapped src then
    (List.range lines).map fun y =>
      { dst := dst + y * dstStride, bytes := min srcStride dstStride, source := some (src + y * srcStride) }
  else []

/-- `ClearFramebuffer`. -/
def clearFramebuffer (dst dstStride lines : Nat) : List Store :=
  (List.range lines).map fun y => { dst := dst + y * dstStride, bytes := dstStride, source := none }

/-- One picture: it is copied if it has an address and a format of two or three bytes. -/
def capture (mapped : Nat → Bool) (dst : Nat) (address : UInt32) (info : FrameBufferInfo)
    (lines : Nat) : List Store :=
  if address ≠ 0 ∧ info.bytesPerPixel ≠ 0 ∧ info.bytesPerPixel ≠ 4 then
    copyFrameBuffer mapped dst address.toNat (framebufferWidth * info.bytesPerPixel) info.stride.toNat
      lines
  else clearFramebuffer dst (framebufferWidth * info.bytesPerPixel) lines

/-- All that `SaveVramSysArea` writes, in its order. -/
def captures (mapped : Nat → Bool) (top bottom : FrameBufferInfo) : List Store :=
  capture mapped framebufferSaveAreaTopLeft top.addressLeft top topFramebufferHeight ++
    capture mapped framebufferSaveAreaTopRight top.addressRight top topFramebufferHeight ++
    capture mapped framebufferSaveAreaBottom bottom.addressLeft bottom bottomFramebufferHeight

/-- Whether `SaveVramSysArea` writes a byte. -/
def Captured (mapped : Nat → Bool) (top bottom : FrameBufferInfo) (a : Nat) : Prop :=
  ∃ store ∈ captures mapped top bottom, store.Covers a

/-! ## The handler -/

inductive VramState where
  | state0 | state1 | state2
deriving DecidableEq, Repr

/-- `VRAMBankBackupMask`. -/
def mask0 : UInt8 := 1
def mask1 : UInt8 := 2
def mask2 : UInt8 := 4

def maskPerBank : List UInt8 :=
  [mask0, mask0, mask0, mask0 ||| mask1, mask0 ||| mask1, mask0 ||| mask1, mask0, mask0 ||| mask2,
    mask0 ||| mask2, mask0 ||| mask1, mask0 ||| mask1, mask0 ||| mask1]

/-- The banks of a mask, in their order. -/
def banks (mask : UInt8) : List Nat :=
  (List.range bankCount).filter fun bank => mask &&& maskPerBank.getD bank 0 != 0

def bankVaddr (bank : Nat) : Nat := vramVaddr + bank * vramBackupBankSize

def InBank (bank a : Nat) : Prop := bankVaddr bank ≤ a ∧ a < bankVaddr bank + vramBackupBankSize

instance (bank a : Nat) : Decidable (InBank bank a) := inferInstanceAs (Decidable (_ ∧ _))

structure VramBackupHandler where
  vramBackup : Nat → Nat → UInt8
  currState : VramState

namespace VramBackupHandler

/-- `SaveVRAMBank`. -/
def saveVramBank (memory : GuestMemory) (vramBackup : Nat → Nat → UInt8) (bank : Nat) :
    Nat → Nat → UInt8 :=
  Function.update vramBackup bank fun offset => memory (bankVaddr bank + offset)

/-- `RestoreVRAMBank`. -/
def restoreVramBank (vramBackup : Nat → Nat → UInt8) (memory : GuestMemory) (bank : Nat) :
    GuestMemory :=
  fun a => if InBank bank a then vramBackup bank (a - bankVaddr bank) else memory a

/-- `SaveVRAMWithState`. -/
def saveVramWithState (state : VramState) (memory : GuestMemory) (handler : VramBackupHandler) :
    VramBackupHandler :=
  if state = .state0 ∧ handler.currState = .state0 then
    { vramBackup := (banks mask1).foldl (saveVramBank memory) handler.vramBackup, currState := .state1 }
  else if state = .state1 ∧ handler.currState = .state1 then
    { vramBackup := (banks mask2).foldl (saveVramBank memory) handler.vramBackup, currState := .state2 }
  else handler

/-- `RestoreVRAMWithState`. -/
def restoreVramWithState (state : VramState) (handler : VramBackupHandler) (memory : GuestMemory) :
    VramBackupHandler × GuestMemory :=
  if state = .state0 ∧ handler.currState = .state1 then
    ({ handler with currState := .state0 },
      (banks mask1).foldl (restoreVramBank handler.vramBackup) memory)
  else if state = .state1 ∧ handler.currState = .state2 then
    ({ handler with currState := .state1 },
      (banks mask2).foldl (restoreVramBank handler.vramBackup) memory)
  else (handler, memory)

/-- `ResetState`. -/
def resetState (handler : VramBackupHandler) : VramBackupHandler := { handler with currState := .state0 }

end VramBackupHandler

open VramBackupHandler (saveVramBank restoreVramBank saveVramWithState restoreVramWithState)

/-! ## Requests -/

structure VramSystem where
  memory : GuestMemory
  handler : VramBackupHandler

/-- `SaveVramSysArea` of a session that may save, with what the framebuffer information is then. -/
def saveVramSysArea (mapped : Nat → Bool) (top bottom : FrameBufferInfo) (system : VramSystem) :
    VramSystem where
  memory := (captures mapped top bottom).foldl Store.apply system.memory
  handler := (system.handler.saveVramWithState .state0 system.memory).saveVramWithState .state1
    ((captures mapped top bottom).foldl Store.apply system.memory)

/-- `RestoreVramSysArea` of a session that may save. -/
def restoreVramSysArea (system : VramSystem) : VramSystem :=
  let first := system.handler.restoreVramWithState .state1 system.memory
  let second := first.1.restoreVramWithState .state0 first.2
  { memory := second.2, handler := second.1 }

/-- What happens to VRAM and its backup. Requests of a session that may not save answer with an error,
and its disconnect does not reset the state. -/
inductive VramEvent where
  | save (allowed : Bool) (mapped : Nat → Bool) (top bottom : FrameBufferInfo)
  | restore (allowed : Bool)
  | disconnect (allowed : Bool)
  | write (change : GuestMemory → GuestMemory)

def VramEvent.apply (system : VramSystem) : VramEvent → VramSystem
  | .save allowed mapped top bottom =>
    if allowed then saveVramSysArea mapped top bottom system else system
  | .restore allowed => if allowed then restoreVramSysArea system else system
  | .disconnect allowed => if allowed then { system with handler := system.handler.resetState } else system
  | .write change => { system with memory := change system.memory }

/-- The memory before the save that the next restore belongs to: the first one since the last restore or
disconnect. -/
def VramEvent.matching (system : VramSystem) (opened : Option GuestMemory) :
    VramEvent → Option GuestMemory
  | .save allowed _ _ _ => if allowed then some (opened.getD system.memory) else opened
  | .restore allowed => if allowed then none else opened
  | .disconnect allowed => if allowed then none else opened
  | .write _ => opened

/-- A run, with the memory before the save that is open. -/
def VramSystem.run (system : VramSystem) (opened : Option GuestMemory) :
    List VramEvent → VramSystem × Option GuestMemory
  | [] => (system, opened)
  | event :: events =>
    VramSystem.run (event.apply system) (event.matching system opened) events

/-- The handler is constructed with empty backups. -/
def VramSystem.initial (memory : GuestMemory) : VramSystem where
  memory := memory
  handler := { vramBackup := fun _ _ => 0, currState := .state0 }

open VramSystem (run initial)

/-- What is restored is what was saved: every byte that a restore changes becomes what it was before the
save that the restore belongs to. -/
def RestoresMatching (system : VramSystem) (opened : Option GuestMemory) : Prop :=
  ∀ a, (restoreVramSysArea system).memory a ≠ system.memory a →
    ∃ before, opened = some before ∧ (restoreVramSysArea system).memory a = before a

/-- A save is undone by the restore behind it, whatever is written in between, and in all that may follow
nothing but matching backups is restored. -/
def Saves (mapped : Nat → Bool) (top bottom : FrameBufferInfo) (system : VramSystem)
    (opened : Option GuestMemory) : Prop :=
  (∀ change : GuestMemory → GuestMemory, ∀ a, Captured mapped top bottom a →
    (restoreVramSysArea
      (VramEvent.apply (saveVramSysArea mapped top bottom system) (.write change))).memory a =
        system.memory a) ∧
    ∀ events, RestoresMatching
      (run (saveVramSysArea mapped top bottom system)
        (some (opened.getD system.memory)) events).1
      (run (saveVramSysArea mapped top bottom system)
        (some (opened.getD system.memory)) events).2

/-! ## Where pictures are written -/

section Captures

variable {mapped : Nat → Bool} {top bottom info : FrameBufferInfo} {memory : GuestMemory}
  {stores : List Store} {store : Store} {dst lines a : Nat} {address : UInt32}

/-- Bytes that are not written stay. -/
theorem foldl_apply_of_not (h : ∀ store ∈ stores, ¬store.Covers a) :
    stores.foldl Store.apply memory a = memory a := by
  induction stores generalizing memory with
  | nil => rfl
  | cons store stores ih =>
    rw [List.foldl_cons, ih fun store hmem => h store (List.mem_cons_of_mem _ hmem), Store.apply,
      if_neg (h store List.mem_cons_self)]

/-- Bytes that are only filled are zero. -/
theorem foldl_apply_of_fills (hcovers : ∃ store ∈ stores, store.Covers a)
    (hfills : ∀ store ∈ stores, store.source = none) : stores.foldl Store.apply memory a = 0 := by
  induction stores generalizing memory with
  | nil => exact absurd hcovers.choose_spec.1 List.not_mem_nil
  | cons store stores ih =>
    rw [List.foldl_cons]
    by_cases hlater : ∃ store ∈ stores, store.Covers a
    · exact ih hlater fun store hmem => hfills store (List.mem_cons_of_mem _ hmem)
    · obtain ⟨first, hmem, hfirst⟩ := hcovers
      obtain rfl : first = store :=
        (List.mem_cons.mp hmem).resolve_right fun hmem => hlater ⟨first, hmem, hfirst⟩
      rw [foldl_apply_of_not fun store hmem hstore => hlater ⟨store, hmem, hstore⟩, Store.apply,
        if_pos hfirst, hfills first List.mem_cons_self]

/-- A line of a picture. -/
theorem line_lt {y stride bytes : Nat} (hy : y < lines) (hbytes : bytes ≤ stride)
    (ha : a < dst + y * stride + bytes) : a < dst + lines * stride := by
  have hle : (y + 1) * stride ≤ lines * stride := Nat.mul_le_mul_right stride hy
  rw [Nat.succ_mul] at hle
  omega

/-- A picture takes at most the bytes of its lines. -/
theorem covers_capture (hmem : store ∈ capture mapped dst address info lines) (ha : store.Covers a) :
    dst ≤ a ∧ a < dst + lines * (framebufferWidth * info.bytesPerPixel) := by
  unfold capture copyFrameBuffer clearFramebuffer at hmem
  split at hmem
  · split at hmem
    · obtain ⟨y, hy, rfl⟩ := List.mem_map.mp hmem
      exact ⟨Nat.le_trans (Nat.le_add_right ..) ha.1,
        line_lt (List.mem_range.mp hy) (Nat.min_le_right ..) ha.2⟩
    · exact absurd hmem List.not_mem_nil
  · obtain ⟨y, hy, rfl⟩ := List.mem_map.mp hmem
    exact ⟨Nat.le_trans (Nat.le_add_right ..) ha.1,
      line_lt (List.mem_range.mp hy) (Nat.le_refl _) ha.2⟩

theorem bytesPerPixel_le (info : FrameBufferInfo) : info.bytesPerPixel ≤ 4 := by
  have hlt : info.format.toNat % 8 < 8 := Nat.mod_lt _ (by decide)
  unfold FrameBufferInfo.bytesPerPixel
  generalize info.format.toNat % 8 = format at hlt
  revert format
  decide

theorem capture_of_null (hmem : store ∈ capture mapped dst 0 info lines) : store.source = none := by
  unfold capture clearFramebuffer at hmem
  rw [if_neg fun hcond => hcond.1 rfl] at hmem
  obtain ⟨y, -, rfl⟩ := List.mem_map.mp hmem
  rfl

/-- Where pictures are written, with so many bytes per pixel on the top screen. -/
theorem captured_range (h : Captured mapped top bottom a) :
    (vramVaddr + 0x273000 ≤ a ∧ a < vramVaddr + 0x2B9800 + 96000 * top.bytesPerPixel) ∨
      (vramVaddr + 0x4C7800 ≤ a ∧ a < vramVaddr + 0x512800) := by
  obtain ⟨store, hmem, ha⟩ := h
  have hbottom := bytesPerPixel_le bottom
  rcases List.mem_append.mp hmem with hmem | hmem
  · rcases List.mem_append.mp hmem with hmem | hmem
    · have hrange := covers_capture hmem ha
      unfold framebufferSaveAreaTopLeft framebufferWidth topFramebufferHeight at hrange
      generalize vramVaddr = base at hrange ⊢
      omega
    · have hrange := covers_capture hmem ha
      unfold framebufferSaveAreaTopRight framebufferWidth topFramebufferHeight at hrange
      generalize vramVaddr = base at hrange ⊢
      omega
  · have hrange := covers_capture hmem ha
    unfold framebufferSaveAreaBottom framebufferWidth bottomFramebufferHeight at hrange
    generalize vramVaddr = base at hrange ⊢
    omega

/-- With four bytes per pixel the right picture of the top screen is cleared beyond its area. -/
theorem captured_beyond (h : top.bytesPerPixel = 4) :
    Captured mapped top bottom (vramVaddr + 0x300000) := by
  refine ⟨{ dst := framebufferSaveAreaTopRight + 300 * (framebufferWidth * 4)
            bytes := framebufferWidth * 4
            source := none }, ?_, ?_⟩
  · simp only [captures, List.mem_append]
    refine .inl (.inr ?_)
    unfold capture
    rw [if_neg fun hcond => hcond.2.2 h, h]
    exact List.mem_map.mpr ⟨300, List.mem_range.mpr (by decide), rfl⟩
  · unfold Store.Covers
    decide

end Captures

/-! ## Banks -/

section Banks

variable {memory : GuestMemory} {vramBackup : Nat → Nat → UInt8} {list : List Nat} {bank bank' a : Nat}

theorem banks_mask1 : banks mask1 = [3, 4, 5, 9, 10, 11] := by decide

theorem banks_mask2 : banks mask2 = [7, 8] := by decide

theorem InBank.unique (h : InBank bank a) (h' : InBank bank' a) : bank = bank' := by
  unfold InBank bankVaddr vramBackupBankSize at h h'
  omega

theorem saveBanks_apply (bank : Nat) :
    list.foldl (saveVramBank memory) vramBackup bank =
      if bank ∈ list then fun offset => memory (bankVaddr bank + offset) else vramBackup bank := by
  induction list generalizing vramBackup with
  | nil => rfl
  | cons first list ih =>
    rw [List.foldl_cons, ih]
    by_cases hmem : bank ∈ list
    · rw [if_pos hmem, if_pos (List.mem_cons_of_mem _ hmem)]
    · rw [if_neg hmem, saveVramBank]
      by_cases hfirst : bank = first
      · rw [hfirst, Function.update_self, if_pos List.mem_cons_self]
      · rw [Function.update_of_ne hfirst, if_neg fun hcons =>
          (List.mem_cons.mp hcons).elim hfirst hmem]

theorem restoreBanks_of_not (h : ∀ bank ∈ list, ¬InBank bank a) :
    list.foldl (restoreVramBank vramBackup) memory a = memory a := by
  induction list generalizing memory with
  | nil => rfl
  | cons first list ih =>
    rw [List.foldl_cons, ih fun bank hmem => h bank (List.mem_cons_of_mem _ hmem),
      restoreVramBank, if_neg (h first List.mem_cons_self)]

theorem restoreBanks_of_mem (hmem : bank ∈ list) (ha : InBank bank a) :
    list.foldl (restoreVramBank vramBackup) memory a =
      vramBackup bank (a - bankVaddr bank) := by
  induction list generalizing memory with
  | nil => exact absurd hmem List.not_mem_nil
  | cons first list ih =>
    rw [List.foldl_cons]
    by_cases hlater : bank ∈ list
    · exact ih hlater
    · obtain rfl : bank = first := (List.mem_cons.mp hmem).resolve_right hlater
      rw [restoreBanks_of_not fun bank' hmem' ha' => hlater (ha.unique ha' ▸ hmem'),
        restoreVramBank, if_pos ha]

end Banks

/-! ## Saves and restores -/

/-- The banks that a restore puts back. -/
def restoredBanks : List Nat := banks mask2 ++ banks mask1

/-- The banks are backed up as the memory was. -/
def Backed (handler : VramBackupHandler) (before : GuestMemory) : Prop :=
  ∀ bank ∈ restoredBanks, ∀ offset < vramBackupBankSize,
    handler.vramBackup bank offset = before (bankVaddr bank + offset)

section Steps

variable {mapped : Nat → Bool} {top bottom : FrameBufferInfo} {system : VramSystem} {bank a : Nat}

theorem restoredBanks_eq : restoredBanks = [7, 8, 3, 4, 5, 9, 10, 11] := by
  rw [restoredBanks, banks_mask1, banks_mask2]
  rfl

/-- With at most three bytes per pixel the pictures are in banks of the first step. -/
theorem captured_inBank (hformat : top.bytesPerPixel ≠ 4) (h : Captured mapped top bottom a) :
    ∃ bank ∈ restoredBanks, InBank bank a := by
  have hle := bytesPerPixel_le top
  have hrange := captured_range h
  rw [restoredBanks_eq]
  suffices hbank : InBank 4 a ∨ InBank 5 a ∨ InBank 9 a ∨ InBank 10 a by
    rcases hbank with hbank | hbank | hbank | hbank
    · exact ⟨4, by decide, hbank⟩
    · exact ⟨5, by decide, hbank⟩
    · exact ⟨9, by decide, hbank⟩
    · exact ⟨10, by decide, hbank⟩
  unfold InBank bankVaddr vramBackupBankSize
  generalize vramVaddr = base at hrange ⊢
  omega

theorem not_inBank_beyond : ∀ bank ∈ restoredBanks, ¬InBank bank (vramVaddr + 0x300000) := by
  rw [restoredBanks_eq]
  decide

/-- The banks of the second step are not written. -/
theorem not_captured (hmem : bank ∈ banks mask2) (ha : InBank bank a) :
    ¬Captured mapped top bottom a := by
  intro hcaptured
  have hle := bytesPerPixel_le top
  have hrange := captured_range hcaptured
  rw [banks_mask2] at hmem
  simp only [List.mem_cons, List.not_mem_nil, or_false] at hmem
  unfold InBank bankVaddr vramBackupBankSize at ha
  omega

/-- A save with no backup open takes one. -/
theorem saveVramSysArea_of_state0 (h : system.handler.currState = .state0) :
    (saveVramSysArea mapped top bottom system).handler.currState = .state2 ∧
      Backed (saveVramSysArea mapped top bottom system).handler system.memory := by
  have hfirst : system.handler.saveVramWithState .state0 system.memory =
      { vramBackup := (banks mask1).foldl (saveVramBank system.memory)
          system.handler.vramBackup
        currState := .state1 } := if_pos ⟨rfl, h⟩
  unfold saveVramSysArea
  rw [hfirst]
  refine ⟨rfl, fun bank hmem offset hoffset => ?_⟩
  have hin : InBank bank (bankVaddr bank + offset) :=
    ⟨Nat.le_add_right .., Nat.add_lt_add_left hoffset _⟩
  simp only [saveVramWithState, reduceCtorEq, if_false, and_self, if_true]
  rw [saveBanks_apply]
  by_cases hsecond : bank ∈ banks mask2
  · rw [if_pos hsecond]
    exact foldl_apply_of_not fun store hstore hcovers =>
      not_captured hsecond hin ⟨store, hstore, hcovers⟩
  · rw [if_neg hsecond, saveBanks_apply, if_pos ((List.mem_append.mp hmem).resolve_left hsecond)]

/-- Another save leaves the backup that is open. -/
theorem saveVramSysArea_of_state2 (h : system.handler.currState = .state2) :
    (saveVramSysArea mapped top bottom system).handler = system.handler := by
  simp only [saveVramSysArea, saveVramWithState, h, reduceCtorEq, and_false,
    if_false]

/-- A restore with no backup open does nothing. -/
theorem restoreVramSysArea_of_state0 (h : system.handler.currState = .state0) :
    restoreVramSysArea system = system := by
  simp only [restoreVramSysArea, restoreVramWithState, h, reduceCtorEq, and_false,
    if_false]

/-- A restore puts the banks back. -/
theorem restoreVramSysArea_of_state2 (h : system.handler.currState = .state2) :
    restoreVramSysArea system =
      { memory := restoredBanks.foldl
          (restoreVramBank system.handler.vramBackup) system.memory
        handler := { system.handler with currState := .state0 } } := by
  simp only [restoreVramSysArea, restoreVramWithState, h, reduceCtorEq, and_self,
    if_false, if_true, restoredBanks, List.foldl_append]

/-! ## Runs -/

/-- A backup is open if and only if a save is, and it is what the memory was before that. -/
def Matched (system : VramSystem) (opened : Option GuestMemory) : Prop :=
  (system.handler.currState = .state0 ∧ opened = none) ∨
    system.handler.currState = .state2 ∧ ∃ before, opened = some before ∧ Backed system.handler before

variable {opened : Option GuestMemory}

theorem Matched.save (h : Matched system opened) :
    Matched (saveVramSysArea mapped top bottom system) (some (opened.getD system.memory)) := by
  rcases h with ⟨hstate, rfl⟩ | ⟨hstate, before, rfl, hbacked⟩
  · obtain ⟨hstate', hbacked⟩ := (@saveVramSysArea_of_state0 mapped top bottom) hstate
    exact .inr ⟨hstate', system.memory, rfl, hbacked⟩
  · have hhandler := (@saveVramSysArea_of_state2 mapped top bottom) hstate
    refine .inr ⟨by rw [hhandler]; exact hstate, before, rfl, ?_⟩
    rw [hhandler]
    exact hbacked

theorem Matched.apply (h : Matched system opened) (event : VramEvent) :
    Matched (event.apply system) (event.matching system opened) := by
  cases event with
  | save allowed mapped top bottom =>
    cases allowed with
    | false => exact h
    | true => exact h.save
  | restore allowed =>
    cases allowed with
    | false => exact h
    | true =>
      left
      rcases h with ⟨hstate, rfl⟩ | ⟨hstate, -⟩
      · refine ⟨?_, rfl⟩
        rw [VramEvent.apply, if_pos rfl, restoreVramSysArea_of_state0 hstate]
        exact hstate
      · refine ⟨?_, rfl⟩
        rw [VramEvent.apply, if_pos rfl, restoreVramSysArea_of_state2 hstate]
  | disconnect allowed =>
    cases allowed with
    | false => exact h
    | true => exact .inl ⟨rfl, rfl⟩
  | write change => exact h

theorem Matched.run (h : Matched system opened) (events : List VramEvent) :
    Matched (run system opened events).1 (run system opened events).2 := by
  induction events generalizing system opened with
  | nil => exact h
  | cons event events ih => exact ih (h.apply event)

theorem matched_initial (memory : GuestMemory) : Matched (initial memory) none :=
  .inl ⟨rfl, rfl⟩

/-- What a restore does to a byte. -/
theorem restored_of_mem (h : system.handler.currState = .state2) (hmem : bank ∈ restoredBanks)
    (hin : InBank bank a) :
    (restoreVramSysArea system).memory a = system.handler.vramBackup bank (a - bankVaddr bank) := by
  rw [restoreVramSysArea_of_state2 h]
  exact restoreBanks_of_mem hmem hin

theorem restored_of_not (h : system.handler.currState = .state2)
    (hnot : ∀ bank ∈ restoredBanks, ¬InBank bank a) :
    (restoreVramSysArea system).memory a = system.memory a := by
  rw [restoreVramSysArea_of_state2 h]
  exact restoreBanks_of_not hnot

/-- A byte of a backup. -/
theorem Backed.apply {before : GuestMemory} (h : Backed system.handler before)
    (hmem : bank ∈ restoredBanks) (hin : InBank bank a) :
    system.handler.vramBackup bank (a - bankVaddr bank) = before a := by
  rw [h bank hmem _ (Nat.sub_lt_left_of_lt_add hin.1 hin.2), Nat.add_sub_cancel' hin.1]

theorem Matched.restores (h : Matched system opened) : RestoresMatching system opened := by
  intro a hchanged
  rcases h with ⟨hstate, -⟩ | ⟨hstate, before, rfl, hbacked⟩
  · rw [restoreVramSysArea_of_state0 hstate] at hchanged
    exact absurd rfl hchanged
  · refine ⟨before, rfl, ?_⟩
    by_cases hbank : ∃ bank ∈ restoredBanks, InBank bank a
    · obtain ⟨bank, hmem, hin⟩ := hbank
      rw [restored_of_mem hstate hmem hin, hbacked.apply hmem hin]
    · rw [restored_of_not hstate fun bank hmem hin => hbank ⟨bank, hmem, hin⟩] at hchanged
      exact absurd rfl hchanged

end Steps

/-- The bytes of a backup that is open are those that a save writes now. -/
def BackupCurrent (mapped : Nat → Bool) (top bottom : FrameBufferInfo) (system : VramSystem) : Prop :=
  ∀ bank a, InBank bank a → Captured mapped top bottom a →
    system.handler.vramBackup bank (a - bankVaddr bank) = system.memory a

theorem saves_iff (memory : GuestMemory) (events : List VramEvent) (mapped : Nat → Bool)
    (top bottom : FrameBufferInfo) :
    Saves mapped top bottom (run (initial memory) none events).1
        (run (initial memory) none events).2 ↔
      top.bytesPerPixel ≠ 4 ∧
        ((run (initial memory) none events).1.handler.currState = .state0 ∨
          BackupCurrent mapped top bottom
            (run (initial memory) none events).1) := by
  have hmatched := (matched_initial memory).run events
  generalize (run (initial memory) none events).1 = system at hmatched ⊢
  generalize (run (initial memory) none events).2 = opened at hmatched ⊢
  have hsaved := (@Matched.save mapped top bottom) hmatched
  have hstate : ∀ change, (VramEvent.apply (saveVramSysArea mapped top bottom system)
      (.write change)).handler.currState = .state2 := fun _ =>
    hsaved.elim (fun hclosed => absurd hclosed.2 (Option.some_ne_none _)) And.left
  constructor
  · rintro ⟨hundone, -⟩
    have hformat : top.bytesPerPixel ≠ 4 := by
      intro hformat
      -- the first byte behind the banks stays as the last write leaves it
      have hbeyond := hundone (fun _ _ => system.memory (vramVaddr + 0x300000) + 1) _
        (captured_beyond hformat)
      rw [restored_of_not (hstate _) not_inBank_beyond] at hbeyond
      exact absurd hbeyond (by simp [VramEvent.apply])
    refine ⟨hformat, ?_⟩
    rcases hmatched with ⟨hclosed, -⟩ | ⟨hopen, -⟩
    · exact .inl hclosed
    · right
      intro bank a hin hcaptured
      obtain ⟨bank', hmem, hin'⟩ := captured_inBank hformat hcaptured
      obtain rfl := hin.unique hin'
      have hrestored := hundone id a hcaptured
      rw [restored_of_mem (hstate id) hmem hin] at hrestored
      rw [← hrestored, VramEvent.apply, saveVramSysArea_of_state2 hopen]
  · rintro ⟨hformat, hbackup⟩
    refine ⟨fun change a hcaptured => ?_, fun events => (hsaved.run events).restores⟩
    obtain ⟨bank, hmem, hin⟩ := captured_inBank hformat hcaptured
    rw [restored_of_mem (hstate change) hmem hin]
    rcases hbackup with hclosed | hcurrent
    · exact (saveVramSysArea_of_state0 hclosed).2.apply hmem hin
    · rcases hmatched with ⟨hclosed, -⟩ | ⟨hopen, -⟩
      · exact (saveVramSysArea_of_state0 hclosed).2.apply hmem hin
      · rw [VramEvent.apply, saveVramSysArea_of_state2 hopen]
        exact hcurrent bank a hin hcaptured

/-- A screen with four bytes per pixel, and no pictures. -/
def rgba8Screen : FrameBufferInfo where
  addressLeft := 0
  addressRight := 0
  stride := 960
  format := 0

/-- Without pictures, the first byte behind the banks is cleared and not restored, even if nothing else
is written. -/
theorem not_saves_of_null {mapped : Nat → Bool} {top bottom : FrameBufferInfo} {system : VramSystem}
    {opened : Option GuestMemory} (hformat : top.bytesPerPixel = 4) (hleft : top.addressLeft = 0)
    (hright : top.addressRight = 0) (hbottom : bottom.addressLeft = 0)
    (hstate : system.handler.currState = .state0)
    (hsome : system.memory (vramVaddr + 0x300000) ≠ 0) : ¬Saves mapped top bottom system opened := by
  rintro ⟨hundone, -⟩
  have hcaptured := (@captured_beyond mapped _ bottom) hformat
  have hfills : ∀ store ∈ captures mapped top bottom, store.source = none := by
    intro store hmem
    rw [captures, hleft, hright, hbottom] at hmem
    rcases List.mem_append.mp hmem with hmem | hmem
    · rcases List.mem_append.mp hmem with hmem | hmem
      · exact capture_of_null hmem
      · exact capture_of_null hmem
    · exact capture_of_null hmem
  have hcleared : (saveVramSysArea mapped top bottom system).memory (vramVaddr + 0x300000) = 0 :=
    foldl_apply_of_fills hcaptured hfills
  have hopen : (VramEvent.apply (saveVramSysArea mapped top bottom system)
      (.write id)).handler.currState = .state2 := (saveVramSysArea_of_state0 hstate).1
  have hbeyond := hundone id _ hcaptured
  rw [restored_of_not hopen not_inBank_beyond] at hbeyond
  exact hsome (hbeyond.symm.trans hcleared)

theorem not_saves :
    ¬Saves (fun _ => true) rgba8Screen rgba8Screen (initial fun _ => 7) none :=
  not_saves_of_null rfl rfl rfl rfl rfl (by unfold initial; decide)

end GbaStation.Gsp
