import Ext4tc.Lib.Memory

/-! # Sector reads of a partition

`partition::read_sectors` and `partition::read_sectors_ex`. A read is told by
its environment whether it succeeds; a failed one is a NULL buffer. The heap
bytes behind a buffer are arbitrary but fixed. -/

namespace Ext4tc.DiskUtils
open Ext4tc.Lib

/-- What the program does instead of returning. -/
inductive Fault where
  | nullDeref
  | useAfterFree
  | divByZero
  | outOfBounds
  | hang
  deriving DecidableEq, Repr

structure Partition where
  sectorSize : Nat
  offset : Nat
  device : Nat → UInt8
  heap : Nat → UInt8

namespace Partition

/-- A partition of 512-byte sectors at the start of a device. -/
def ofDevice (device : Nat → UInt8) : Partition := ⟨512, 0, device, fun _ => 0⟩

/-- The file position of `l_offset.QuadPart`, in unsigned 64-bit arithmetic. -/
def seek (p : Partition) (sStart : Nat) : Nat :=
  (sStart * p.sectorSize % 2 ^ 64 + p.offset) % 2 ^ 64

/-- A freshly read buffer of `len` bytes, from device position `pos` on. -/
def bufferAt (p : Partition) (pos len : Nat) : Buffer :=
  ⟨len, fun i => if i < len then p.device (pos + i) else p.heap (i - len)⟩

def readSectorsEx (p : Partition) (ok : Bool) (sStart nSectors : Nat) : Option Buffer :=
  if ok then some (p.bufferAt (p.seek sStart) (nSectors * p.sectorSize % 2 ^ 32)) else none

/-- `read_sectors` takes its start sector as a DWORD. -/
def readSectors (p : Partition) (ok : Bool) (sStart nSectors : Nat) : Option Buffer :=
  p.readSectorsEx ok (sStart % 2 ^ 32) nSectors

/-- Device position of byte `x` of the partition. -/
def pos (p : Partition) (x : Nat) : Nat := (p.offset + x) % 2 ^ 64

/-- File system block `b` of `bs` bytes, as a buffer that holds just it. -/
def block (p : Partition) (bs b : Nat) : Buffer := p.bufferAt (p.pos (b * bs)) bs

/-- Word `w` of file system block `b`, straight from the device. -/
def word (p : Partition) (bs b w : Nat) : Nat :=
  Buffer.u32 ⟨bs, fun i => p.device (p.pos (b * bs) + i)⟩ (4 * w)

theorem bufferAt_byte (p : Partition) {pos len i : Nat} (h : i < len) :
    (p.bufferAt pos len).byte i = p.device (pos + i) := by
  simp [bufferAt, h]

theorem block_u32 (p : Partition) {bs b w : Nat} (h : 4 * w + 4 ≤ bs) :
    (p.block bs b).u32 (4 * w) = p.word bs b w := by
  refine Buffer.u32_congr ?_
  intro k hk
  rw [block, bufferAt_byte p (by omega)]

/-- 64-bit wrapping of the sector product does not move the position. -/
theorem seek_eq (p : Partition) (s : Nat) : p.seek (s % 2 ^ 64) = p.pos (s * p.sectorSize) := by
  unfold seek pos
  rw [Nat.mod_mul_mod, Nat.mod_add_mod, Nat.add_comm]

/-- Whole-block reads: `n` sectors from `n * b` on are block `b`. -/
theorem readSectorsEx_block (p : Partition) {bs n : Nat} (hn : n * p.sectorSize = bs)
    (hbs : bs < 2 ^ 32) (b : Nat) :
    p.readSectorsEx true (n * b % 2 ^ 64) n = some (p.block bs b) := by
  rw [readSectorsEx, if_pos rfl, seek_eq, hn, Nat.mod_eq_of_lt hbs, block]
  rw [Nat.mul_right_comm, hn, Nat.mul_comm]

end Partition

end Ext4tc.DiskUtils
