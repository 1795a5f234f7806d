import GbaStation.Common.PagedMemory

/-!
# Packets (`network/packet.cpp`)

Reading the fields of a packet that came from the network. A read past the end marks the packet as
invalid, and every later read fails as well; the variable that is read into then keeps its value, so
the bytes of an array are what they were before.
-/

namespace GbaStation.Network

/-- A packet that is read from `readPos` on. -/
structure Packet where
  data : List Byte
  readPos : Nat := 0
  isValid : Bool := true

namespace Packet

def ignoreBytes (p : Packet) (length : Nat) : Packet := { p with readPos := p.readPos + length }

/-- The packet after `CheckSize`, which is valid if there is as much left. -/
def checkSize (p : Packet) (size : Nat) : Packet :=
  { p with isValid := p.isValid && decide (p.readPos + size ≤ p.data.length) }

/-- `size` bytes, if there are as many left. -/
def read (p : Packet) (size : Nat) : Option (List Byte) × Packet :=
  let p := p.checkSize size
  if p.isValid then
    (some ((p.data.drop p.readPos).take size), { p with readPos := p.readPos + size })
  else (none, p)

/-- The value of bytes in network order. -/
def networkOrder (bytes : List Byte) : Nat := bytes.foldl (fun n b => n * 0x100 + b.toNat) 0

/-- `u32` and `u64`: zero if there are not enough bytes. -/
def readWord (p : Packet) (size : Nat) : Nat × Packet :=
  match p.read size with
  | (some bytes, p) => (networkOrder bytes, p)
  | (none, p) => (0, p)

/-- `std::string`: the length and the characters. -/
def readString (p : Packet) : List Byte × Packet :=
  let (length, p) := p.readWord 4
  if length = 0 then ([], p)
  else
    match p.read length with
    | (some bytes, p) => (bytes, p)
    | (none, p) => ([], p)

/-- `std::array` of bytes; `before` is what was in the memory of the bytes that cannot be read. -/
def readArray (p : Packet) (before : Nat → Byte) : Nat → List Byte × Packet
  | 0 => ([], p)
  | size + 1 =>
    let (bytes, p) := p.readArray before size
    match p.read 1 with
    | (some [byte], p) => (bytes ++ [byte], p)
    | (_, p) => (bytes ++ [before size], p)

end Packet

end GbaStation.Network
