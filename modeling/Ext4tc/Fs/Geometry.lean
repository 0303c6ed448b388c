import Ext4tc.Fs.Blocks
import Mathlib.Tactic.IntervalCases

/-! # Block geometry

Arithmetic of the block sizes `1024 * 2 ^ k`, `k ≤ 6`, shared by the mapper and
the readers. -/

namespace Ext4tc.Fs
open Ext4tc.Lib Ext4tc.DiskUtils

/-- Blocks of `bs` bytes that `size` bytes occupy. -/
def fileBlocks (bs size : Nat) : Nat := (size + bs - 1) / bs

/-- The count that `read_file` and `get_dir_entry` compute: a 64-bit quotient, cast
to 32 bits. -/
def nBlocks (blockSizeByte size : Nat) : Nat :=
  (size + blockSizeByte + (2 ^ 64 - 1)) % 2 ^ 64 / blockSizeByte % 2 ^ 32

theorem Ext4SuperBlock.blockSize_eq {sb : Ext4SuperBlock} (h : sb.sLogBlockSize ≤ 6) :
    sb.blockSize = 1024 * 2 ^ sb.sLogBlockSize := by
  unfold Ext4SuperBlock.blockSize shl32
  generalize sb.sLogBlockSize = k at h ⊢
  interval_cases k <;> rfl

theorem Ext4SuperBlock.blockSize_cases {sb : Ext4SuperBlock} (h : sb.sLogBlockSize ≤ 6) :
    ∃ a, sb.addrPerBlock = a ∧ sb.blockSize = 4 * a ∧ 128 * (a / 128) = a ∧ 256 ≤ a ∧
      a ≤ 16384 := by
  refine ⟨sb.addrPerBlock, rfl, ?_⟩
  unfold Ext4SuperBlock.addrPerBlock
  rw [Ext4SuperBlock.blockSize_eq h]
  generalize sb.sLogBlockSize = k at h ⊢
  interval_cases k <;> decide

theorem Ext4SuperBlock.blockSize_pos {sb : Ext4SuperBlock} (h : sb.sLogBlockSize ≤ 6) :
    1024 ≤ sb.blockSize ∧ sb.blockSize ≤ 65536 := by
  obtain ⟨a, -, hb, -, hlo, hhi⟩ := Ext4SuperBlock.blockSize_cases h
  omega

theorem Ext4SuperBlock.whole_sectors {sb : Ext4SuperBlock} {sectorSize : Nat}
    (h : sb.sLogBlockSize ≤ 6) (hs : 512 ≤ sectorSize) (hw : sectorSize ∣ sb.blockSize) :
    sb.blockSize / sectorSize % 2 ^ 16 * sectorSize = sb.blockSize := by
  have hmax := (Ext4SuperBlock.blockSize_pos h).2
  have hlt : sb.blockSize / sectorSize < 2 ^ 16 := by
    refine (Nat.div_lt_iff_lt_mul (Nat.lt_of_lt_of_le (by decide) hs)).mpr ?_
    have := Nat.mul_le_mul_left (2 ^ 16) hs
    omega
  rw [Nat.mod_eq_of_lt hlt, Nat.div_mul_cancel hw]

/-- Blocks are whole sectors, and their sectors can be counted in 16 bits. -/
structure WholeSectors (p : Partition) (sb : Ext4SuperBlock) : Prop where
  logBlockSize : sb.sLogBlockSize ≤ 6
  sector : 512 ≤ p.sectorSize
  whole : p.sectorSize ∣ sb.blockSize

theorem WholeSectors.sectors {p : Partition} {sb : Ext4SuperBlock} (h : WholeSectors p sb) :
    sb.blockSize / p.sectorSize % 2 ^ 16 * p.sectorSize = sb.blockSize :=
  Ext4SuperBlock.whole_sectors h.logBlockSize h.sector h.whole

theorem WholeSectors.readSectorsEx {p : Partition} {sb : Ext4SuperBlock} (h : WholeSectors p sb)
    (a : Nat) :
    p.readSectorsEx true (sb.blockSize / p.sectorSize % 2 ^ 16 * a % 2 ^ 64)
      (sb.blockSize / p.sectorSize % 2 ^ 16) = some (p.block sb.blockSize a) := by
  have hmax := (Ext4SuperBlock.blockSize_pos h.logBlockSize).2
  exact p.readSectorsEx_block h.sectors (by omega) a

/-- Whatever the shift count, the block size is a 32-bit power of two, or 0. -/
theorem Ext4SuperBlock.blockSize_le (sb : Ext4SuperBlock) : sb.blockSize ≤ 2 ^ 31 := by
  have h : ∀ k < 32, shl32 1024 k ≤ 2 ^ 31 := by decide
  exact h _ (Nat.mod_lt _ (by decide))

/-- A block index inside a file of `n` blocks starts before the file's end. -/
theorem mul_lt_of_lt_fileBlocks {bs size i : Nat} (hbs : 0 < bs) (h : i < fileBlocks bs size) :
    i * bs < size := by
  have := (Nat.le_div_iff_mul_le hbs).mp (Nat.succ_le_of_lt h)
  rw [Nat.succ_mul] at this
  omega

theorem size_le_fileBlocks_mul {bs : Nat} (size : Nat) (hbs : 0 < bs) :
    size ≤ fileBlocks bs size * bs := (round_up hbs).1

/-- A count below `2 ^ 32` survives the arithmetic and the cast. -/
theorem nBlocks_eq {bs size : Nat} (hlo : 0 < bs) (hhi : bs ≤ 2 ^ 31)
    (h : fileBlocks bs size < 2 ^ 32) : nBlocks bs size = fileBlocks bs size := by
  have hsize := size_le_fileBlocks_mul size hlo
  have hblocks := Nat.mul_le_mul_right bs (Nat.le_of_lt h)
  have hbound : 2 ^ 32 * bs ≤ 2 ^ 32 * 2 ^ 31 := Nat.mul_le_mul_left _ hhi
  have hsum : (size + bs + (2 ^ 64 - 1)) % 2 ^ 64 = size + bs - 1 := by omega
  rw [nBlocks, hsum, ← fileBlocks, Nat.mod_eq_of_lt h]

/-- The cast may lose blocks, and never adds one. -/
theorem nBlocks_le {bs : Nat} (hlo : 0 < bs) (hhi : bs ≤ 2 ^ 31) (size : Nat) :
    nBlocks bs size ≤ fileBlocks bs size := by
  rcases Nat.lt_or_ge (fileBlocks bs size) (2 ^ 32) with hlt | hge
  · exact Nat.le_of_eq (nBlocks_eq hlo hhi hlt)
  · have hcast : nBlocks bs size < 2 ^ 32 := Nat.mod_lt _ (by decide)
    omega

theorem Blocks.readBlock_of_sector_512 {fails : Nat → Bool} {b : Blocks} {bs blk : Nat}
    (hs : b.part.sectorSize = 512) (hb : b.blockSizeSect * 512 = bs) (hbs : bs < 2 ^ 32)
    (hok : fails b.reads = false) : b.readBlock fails blk = some (b.part.block bs blk) := by
  unfold Blocks.readBlock
  rw [hok, Bool.not_false]
  exact b.part.readSectorsEx_block (by rw [hs, hb]) hbs blk

end Ext4tc.Fs
