import Mathlib.Algebra.Order.Ring.Int

/-!
# Service results

A `Result` is the 32-bit code a service call returns (`core/hle/result.h`); the constants
are those of `core/hle/kernel/errors.h`. The top bit marks an error.
-/

namespace GbaStation

/-- A call that returns gives a value and the state it has left. -/
theorem returned {α β : Type*} {a a' : α} {b b' : β} (h : some (a, b) = some (a', b')) :
    a = a' ∧ b = b' :=
  Prod.mk.inj (Option.some.inj h)

/-- What holds of the state that was left. -/
theorem of_returned {α β : Type*} {P : β → Prop} {a a' : α} {b b' : β} (hb : P b)
    (h : some (a, b) = some (a', b')) : P b' := (returned h).2 ▸ hb

end GbaStation

namespace GbaStation.Kernel

/-- A result code. -/
structure Result where
  raw : UInt32
deriving DecidableEq, Repr

namespace Result

/-- `IsSuccess`: bit 31 is clear. -/
def isSuccess (r : Result) : Bool := r.raw &&& 0x80000000 = 0

def success : Result := ⟨0⟩
def outOfHandles : Result := ⟨0xD8600413⟩
def sessionClosed : Result := ⟨0xC920181A⟩
def invalidCombination : Result := ⟨0xE0E01BEE⟩
def invalidCombinationKernel : Result := ⟨0xD90007EE⟩
def misalignedAddress : Result := ⟨0xE0E01BF1⟩
def misalignedSize : Result := ⟨0xE0E01BF2⟩
def outOfHeapMemory : Result := ⟨0xC8601BF3⟩
def invalidAddress : Result := ⟨0xE0E01BF5⟩
def invalidAddressState : Result := ⟨0xE0A01BF5⟩
def invalidPointer : Result := ⟨0xD8E007F6⟩
def invalidHandle : Result := ⟨0xD8E007F7⟩
def outOfRange : Result := ⟨0xE0E01BFD⟩
def outOfRangeKernel : Result := ⟨0xD8E007FD⟩
def wrongPermission : Result := ⟨0xD900182E⟩
def timeout : Result := ⟨0x09401BFE⟩
def outOfMemory : Result := ⟨0xD86007F3⟩
def notAuthorized : Result := ⟨0xD9001BEA⟩

/-- The codes that are put together where they are returned: `Mutex::Release` by another thread,
`Mutex::Release` of a mutex that is not locked, `CreateThread` with a bad entry point, and
`ReplyAndReceive` with nothing to do. -/
def wrongLockingThread : Result := ⟨0xD8E0041F⟩
def invalidResultValue : Result := ⟨0xD8A007FF⟩
def invalidEntryPoint : Result := ⟨0xD8E007F5⟩
def nothingToReceive : Result := ⟨0xE7E3FFFF⟩

end Result

end GbaStation.Kernel
