import Ext4tc.DiskUtils.DirEntry
import Ext4tc.DiskUtils.ReadFile

/-! # The unit of the sector reads

Every reader turns a byte or block address into a sector number, and the partition
multiplies it by `sector_size` again. `read_file` and `get_dir_entry` divide by
`sector_size`, the mapper shifts by 9, and `get_ext2_sb` has its sector number written
out. An extent is the file position and the length that a sector read comes down to. -/

namespace Ext4tc.DiskUtils
open Ext4tc.Lib Ext4tc.Fs

/-- Where a sector read goes, and how many bytes it asks for. -/
def Partition.extent (p : Partition) (sStart nSectors : Nat) : Nat × Nat :=
  (p.seek sStart, nSectors * p.sectorSize % 2 ^ 32)

def Partition.bufferOf (p : Partition) (extent : Nat × Nat) : Buffer :=
  p.bufferAt extent.1 extent.2

def superBlockExtent (p : Partition) : Nat × Nat := p.extent (2 % 2 ^ 32) 2

/-- The reads of `read_file` and of `get_dir_entry`. -/
def dataExtent (p : Partition) (sb : Ext4SuperBlock) (b : Nat) : Nat × Nat :=
  p.extent (sb.blockSize / p.sectorSize % 2 ^ 16 * b % 2 ^ 64)
    (sb.blockSize / p.sectorSize % 2 ^ 16)

/-- The reads of the mapper: indirect blocks and extent nodes. -/
def nodeExtent (mapper : Blocks) (b : Nat) : Nat × Nat :=
  mapper.part.extent (mapper.blockSizeSect * b % 2 ^ 64) mapper.blockSizeSect

/-! ## The reads of the code -/

theorem readSectors_superBlockExtent (p : Partition) (ok : Bool) :
    p.readSectors ok 2 2 = if ok then some (p.bufferOf (superBlockExtent p)) else none := rfl

theorem readBlock_nodeExtent (fails : Nat → Bool) (mapper : Blocks) (b : Nat) :
    mapper.readBlock fails b =
      if !fails mapper.reads then some (mapper.part.bufferOf (nodeExtent mapper b)) else none := rfl

theorem copyBlock_dataExtent {env : CopyEnv} {p : Partition} {sb : Ext4SuperBlock}
    {i nWrite b : Nat} {st st' : CopyState} {step : CopyStep} {outcome : Option Outcome}
    (h : copyBlock env p (sb.blockSize / p.sectorSize % 2 ^ 16) i nWrite st =
      .ok (step, st', outcome))
    (hread : step.read = some (b, true)) :
    step.write = some ((p.bufferOf (dataExtent p sb b)).slice 0 nWrite, env.writeOk i) := by
  unfold copyBlock at h
  split at h
  next => cases h
  next ret blk hcall =>
    simp only [if_neg (Nat.not_lt_zero ret.ret)] at h
    cases hok : env.readOk i with
    | false =>
      simp only [hok, Partition.readSectorsEx, Bool.false_eq_true, if_false] at h
      cases h
      cases hread
    | true =>
      simp only [hok, Partition.readSectorsEx, if_true] at h
      cases h
      cases hread
      rfl

theorem dirBlock_dataExtent {env : DirEnv} {p : Partition} {sb : Ext4SuperBlock} {i b : Nat}
    {st st' : DirState} {step : DirStep}
    (h : dirBlock env p (sb.blockSize / p.sectorSize % 2 ^ 16) sb.blockSize i st =
      (some step, st', none))
    (hread : step.read = some (b, true)) :
    recordLoop env.heap sb.blockSize (p.bufferOf (dataExtent p sb b)) env.fuel 0 st.tab =
      .ok st'.tab := by
  unfold dirBlock at h
  split at h
  next => cases h
  next ret blk hcall =>
    simp only [if_neg (Nat.not_lt_zero ret.ret)] at h
    cases hok : env.readOk i with
    | false =>
      simp only [hok, Partition.readSectorsEx, Bool.false_eq_true, if_false] at h
      cases h
    | true =>
      simp only [hok, Partition.readSectorsEx, if_true] at h
      split at h
      next => cases h
      next tab htab =>
        cases h
        cases hread
        exact htab

/-! ## One unit -/

/-- Every read goes to the byte it means, and takes one block, or at least the superblock.
The mapper is in any state that lookups leave it in. -/
structure OneUnit (p : Partition) (sb : Ext4SuperBlock) : Prop where
  superBlock : ∃ len, superBlockExtent p = (p.pos 1024, len) ∧ 1024 ≤ len
  dataBlocks : ∀ b, dataExtent p sb b = (p.pos (b * sb.blockSize), sb.blockSize)
  nodes : ∀ inode fails is rs mapper,
    (Blocks.new p sb inode).getExt2BlkNrs fails is = .ok (rs, mapper) →
      ∀ b, nodeExtent mapper b = (p.pos (b * sb.blockSize), sb.blockSize)

theorem extent_block {p : Partition} {n bs : Nat} (hn : n * p.sectorSize = bs) (hbs : bs < 2 ^ 32)
    (b : Nat) : p.extent (n * b % 2 ^ 64) n = (p.pos (b * bs), bs) := by
  rw [Partition.extent, Partition.seek_eq, hn, Nat.mod_eq_of_lt hbs, Nat.mul_right_comm, hn,
    Nat.mul_comm]

/-- Only a sector of 512 bytes takes sector 2 to byte 1024. -/
theorem sectorSize_of_superBlock {p : Partition} (hs : p.sectorSize < 2 ^ 32) {len : Nat}
    (h : superBlockExtent p = (p.pos 1024, len)) : p.sectorSize = 512 := by
  have hseek := congrArg Prod.fst h
  simp only [superBlockExtent, Partition.extent, Partition.seek, Partition.pos] at hseek
  omega

/-- **The readers agree on their unit exactly on sectors of 512 bytes**, and as long as the
sectors of a block can be counted in 16 bits. -/
theorem one_unit_iff {p : Partition} {sb : Ext4SuperBlock} (hdvd : p.sectorSize ∣ sb.blockSize)
    (hbs : sb.blockSize ≠ 0) :
    OneUnit p sb ↔ p.sectorSize = 512 ∧ sb.blockSize < 2 ^ 25 := by
  have hmax := sb.blockSize_le
  have hs := Nat.le_of_dvd (Nat.pos_of_ne_zero hbs) hdvd
  constructor
  · intro h
    obtain ⟨len, hsuper, -⟩ := h.superBlock
    have h512 := sectorSize_of_superBlock (by omega) hsuper
    have hlen := congrArg Prod.snd (h.dataBlocks 0)
    simp only [dataExtent, Partition.extent, h512] at hlen
    exact ⟨h512, by omega⟩
  · rintro ⟨h512, hlt⟩
    have hdiv := Nat.div_mul_cancel hdvd
    have hsect : sb.blockSize / p.sectorSize % 2 ^ 16 = sb.blockSize / p.sectorSize :=
      Nat.mod_eq_of_lt (by rw [h512]; omega)
    refine ⟨⟨1024, ?_, Nat.le_refl _⟩, ?_, ?_⟩
    · have hseek := p.seek_eq 2
      simp only [superBlockExtent, Partition.extent, h512] at hseek ⊢
      exact congrArg (·, 1024) hseek
    · intro b
      rw [dataExtent, hsect]
      exact extent_block hdiv (by omega) b
    · intro inode fails is rs mapper hrun b
      obtain ⟨hpart, -, hcount⟩ := Blocks.getExt2BlkNrs_same hrun
      have hnew : (Blocks.new p sb inode).blockSizeSect = sb.blockSize / p.sectorSize := by
        rw [h512]
        exact Nat.mod_eq_of_lt (by omega)
      rw [nodeExtent, hpart, hcount, hnew]
      exact extent_block hdiv (by omega) b

def sb4096 : Ext4SuperBlock := (Buffer.zeros 1024).poke 24 [2]

/-- On 512-byte sectors all is well. -/
theorem one_unit_512 : OneUnit ⟨512, 0, fun _ => 0, fun _ => 0⟩ sb4096 :=
  (one_unit_iff (by decide) (by decide)).mpr (by decide)

/-- On sectors of 4096 bytes the superblock is looked for at byte 8192, and block 3, which
`read_file` finds at byte 12288, is at byte 98304 for the mapper, and eight blocks long. -/
theorem units_differ_4096 :
    let p : Partition := ⟨4096, 0, fun _ => 0, fun _ => 0⟩
    p.sectorSize ∣ sb4096.blockSize ∧ superBlockExtent p = (8192, 8192) ∧
      dataExtent p sb4096 3 = (12288, 4096) ∧
      nodeExtent (Blocks.new p sb4096 (Buffer.zeros 128)) 3 = (98304, 32768) ∧
      ¬OneUnit p sb4096 := by
  refine ⟨by decide, by decide, by decide, by decide, ?_⟩
  intro h
  obtain ⟨len, hsuper, -⟩ := h.superBlock
  have h512 := sectorSize_of_superBlock (by decide) hsuper
  exact absurd h512 (by decide)

end Ext4tc.DiskUtils
