import Ext4tc.DiskUtils.Mounting
import Ext4tc.Fs.Geometry

/-! # Where the group descriptors come from

`get_ext2_gr_descriptors` against the layout of the format: the descriptor table
follows the block of the superblock, which is block `s_first_data_block`. The code
reads from block 1 on, so on a file system of 1 KiB blocks, where the superblock has
block 1 for itself, it takes the superblock for the table. -/

namespace Ext4tc.DiskUtils
open Ext4tc.Lib Ext4tc.Fs

/-- The superblock, 1024 bytes into the partition. -/
def Partition.superBlock (p : Partition) : Ext4SuperBlock :=
  ⟨1024, (p.bufferAt (p.pos 1024) 1024).byte⟩

namespace GroupLayout

def hasIncompat (sb : Ext4SuperBlock) (feature : Nat) : Prop := sb.sFeatureIncompat &&& feature ≠ 0

instance (sb : Ext4SuperBlock) (feature : Nat) : Decidable (hasIncompat sb feature) :=
  inferInstanceAs (Decidable (_ ≠ _))

def descSize (sb : Ext4SuperBlock) : Nat :=
  if hasIncompat sb ext4FeatureIncompat64bit then ext4MinDescSize64bit else ext4MinDescSize

/-- The groups that the blocks make up, the last of which may be cut short. -/
def groupCount (sb : Ext4SuperBlock) : Nat :=
  (sb.blocksCount - sb.sFirstDataBlock + sb.sBlocksPerGroup - 1) / sb.sBlocksPerGroup

/-- The blocks of the descriptor table. -/
def tableBlocks (sb : Ext4SuperBlock) : Nat :=
  (groupCount sb + sb.blockSize / descSize sb - 1) / (sb.blockSize / descSize sb)

def diskDesc (p : Partition) (i : Nat) : Ext4GroupDesc :=
  ⟨descSize p.superBlock, fun k =>
    p.device (p.pos ((p.superBlock.sFirstDataBlock + 1) * p.superBlock.blockSize) +
      (i * descSize p.superBlock + k))⟩

end GroupLayout

open GroupLayout

/-- A file system without META_BG: its descriptor table stands in the first group, behind
the superblock, and every inode bitmap is a block of the file system. -/
structure ConsistentLayout (p : Partition) : Prop where
  magic : p.superBlock.sMagic = ext4SuperMagic
  blockSize : p.superBlock.sLogBlockSize ≤ 6
  noMetaBg : ¬hasIncompat p.superBlock ext4FeatureIncompatMetaBg
  count32 : p.superBlock.blocksCount < 2 ^ 32
  descSize : hasIncompat p.superBlock ext4FeatureIncompat64bit →
    p.superBlock.sDescSize = ext4MinDescSize64bit
  first : p.superBlock.sFirstDataBlock = 0 ∨
    p.superBlock.sFirstDataBlock = 1 ∧ p.superBlock.sLogBlockSize = 0
  nonempty : p.superBlock.sFirstDataBlock < p.superBlock.blocksCount
  tableFits : 1 + tableBlocks p.superBlock ≤ p.superBlock.sBlocksPerGroup
  inodeBitmaps : ∀ i < groupCount p.superBlock,
    (diskDesc p i).bgInodeBitmapLo < p.superBlock.blocksCount

/-- The loaded descriptors are those of the disk. -/
structure DescriptorsLoaded (p : Partition) (info : Ext4SbInfo) (tables : GroupTables) : Prop where
  count : info.sGroupBlockCount = groupCount p.superBlock
  descs : ∀ i < groupCount p.superBlock, ∀ k < GroupLayout.descSize p.superBlock,
    (tables.grDesc i).byte k = (diskDesc p i).byte k

/-! ## Arithmetic of the layout -/

theorem descSize_cases (sb : Ext4SuperBlock) :
    GroupLayout.descSize sb = 32 ∨ GroupLayout.descSize sb = 64 := by
  unfold GroupLayout.descSize
  split
  next => exact .inr rfl
  next => exact .inl rfl

theorem blocksCount_of_lt {sb : Ext4SuperBlock} (h : sb.blocksCount < 2 ^ 32) :
    sb.blocksCount = sb.sBlocksCountLo := by
  have hlo : sb.sBlocksCountLo < 2 ^ 32 := Buffer.u32_lt _ _
  have hsum : sb.blocksCount = sb.sBlocksCountHi * 2 ^ 32 + sb.sBlocksCountLo :=
    or_low_eq_add _ _ hlo
  omega

/-- Rounding up, with the division of the source. -/
theorem pred_div_succ {n d : Nat} (hn : 0 < n) (hd : 0 < d) :
    (n - 1) / d + 1 = (n + d - 1) / d := by
  rw [← Nat.add_div_right _ hd]
  congr 1
  omega

section Sizes

variable {p : Partition} (h : ConsistentLayout p)
include h

theorem ConsistentLayout.descs_per_block :
    p.superBlock.blockSize / GroupLayout.descSize p.superBlock * GroupLayout.descSize p.superBlock =
        p.superBlock.blockSize ∧
      0 < p.superBlock.blockSize / GroupLayout.descSize p.superBlock ∧
      p.superBlock.blockSize / GroupLayout.descSize p.superBlock ≤ 2048 ∧
      512 * (p.superBlock.blockSize / 512) = p.superBlock.blockSize ∧
      p.superBlock.blockSize ≤ 65536 := by
  obtain ⟨a, -, hb, ha, hlo, hhi⟩ := Ext4SuperBlock.blockSize_cases h.blockSize
  rcases descSize_cases p.superBlock with hd | hd <;> rw [hd, hb] <;> omega

theorem ConsistentLayout.groupCount_pos : 0 < groupCount p.superBlock := by
  have hne := h.nonempty
  have hfits := h.tableFits
  refine Nat.div_pos ?_ (by omega)
  omega

theorem ConsistentLayout.tableBlocks_pos : 0 < tableBlocks p.superBlock := by
  have hg := h.groupCount_pos
  have hd := h.descs_per_block.2.1
  exact Nat.div_pos (by omega) hd

/-- All groups but the last are whole. -/
theorem ConsistentLayout.groups_lt :
    (groupCount p.superBlock - 1) * p.superBlock.sBlocksPerGroup < 2 ^ 32 := by
  have hpos := h.groupCount_pos
  have hcount := h.count32
  have hle := Nat.div_mul_le_self (p.superBlock.blocksCount - p.superBlock.sFirstDataBlock +
    p.superBlock.sBlocksPerGroup - 1) p.superBlock.sBlocksPerGroup
  rw [← groupCount] at hle
  rw [Nat.sub_mul, Nat.one_mul]
  omega

/-- The table has room for all descriptors, and its size fits 32 bits. -/
theorem ConsistentLayout.table_size :
    groupCount p.superBlock * GroupLayout.descSize p.superBlock ≤
        tableBlocks p.superBlock * p.superBlock.blockSize ∧
      tableBlocks p.superBlock * p.superBlock.blockSize < 2 ^ 32 ∧
      groupCount p.superBlock + 2048 < 2 ^ 32 := by
  obtain ⟨hwhole, hpos, hper, -, hbs⟩ := h.descs_per_block
  have hfits := h.tableFits
  have htable := h.tableBlocks_pos
  have hgroups := h.groups_lt
  have hds : GroupLayout.descSize p.superBlock ≤ 64 := by
    rcases descSize_cases p.superBlock with hd | hd <;> simp [hd]
  obtain ⟨hup, hless⟩ := @round_up (groupCount p.superBlock) _ hpos
  rw [← tableBlocks] at hup hless
  generalize p.superBlock.blockSize / GroupLayout.descSize p.superBlock = dpb at *
  generalize groupCount p.superBlock = count at *
  generalize tableBlocks p.superBlock = blocks at *
  generalize GroupLayout.descSize p.superBlock = ds at *
  rw [← hwhole, ← Nat.mul_assoc]
  refine ⟨Nat.mul_le_mul_right ds (by omega), ?_, ?_⟩
  · -- few blocks in a group bound the table by the group, many bound the groups
    rcases Nat.lt_or_ge p.superBlock.sBlocksPerGroup (2 ^ 16 + 1) with hfew | hmany
    · calc blocks * dpb * ds = blocks * (dpb * ds) := Nat.mul_assoc _ _ _
        _ ≤ (2 ^ 16 - 1) * 65536 := Nat.mul_le_mul (by omega) (by omega)
        _ < 2 ^ 32 := by norm_num
    · have hle := Nat.mul_le_mul_left (count - 1) hmany
      calc blocks * dpb * ds ≤ (2 ^ 16 + 2048) * 64 := Nat.mul_le_mul (by omega) hds
        _ < 2 ^ 32 := by norm_num
  · have hle := Nat.mul_le_mul_left (count - 1) (show 2 ≤ p.superBlock.sBlocksPerGroup by omega)
    omega

theorem ConsistentLayout.offsets_fit :
    groupCount p.superBlock * GroupLayout.descSize p.superBlock < 2 ^ 31 := by
  obtain ⟨-, -, -, -, hbs⟩ := h.descs_per_block
  obtain ⟨hroom, -, -⟩ := h.table_size
  have hfits := h.tableFits
  have hgroups := h.groups_lt
  have hds : GroupLayout.descSize p.superBlock ≤ 64 := by
    rcases descSize_cases p.superBlock with hd | hd <;> simp [hd]
  rcases Nat.lt_or_ge p.superBlock.sBlocksPerGroup (2 ^ 13 + 1) with hfew | hmany
  · have hsize := Nat.mul_le_mul (show tableBlocks p.superBlock ≤ 2 ^ 13 by omega) hbs
    omega
  · have hle := Nat.mul_le_mul_left (groupCount p.superBlock - 1) hmany
    have hcount : groupCount p.superBlock ≤ 2 ^ 20 := by omega
    have hsize := Nat.mul_le_mul hcount hds
    omega

end Sizes

/-! ## Mounting -/

namespace PartitionLinuxExt2

/-- The superblock object between `initialize_from_sb` and the read of the table. -/
def initialized (p : Partition) : Ext4SbInfo where
  ext4Sb := p.superBlock
  sDescSize := GroupLayout.descSize p.superBlock
  sInodesPerBlock := p.superBlock.sInodesPerGroup
  sGdbCount := tableBlocks p.superBlock
  sDescPerBlock := p.superBlock.blockSize / GroupLayout.descSize p.superBlock
  sGroupBlockCount := groupCount p.superBlock

/-- What the code reads as the table: whole blocks, from block 1 on. -/
def tableBuffer (p : Partition) : Buffer :=
  p.bufferAt (p.pos p.superBlock.blockSize)
    (tableBlocks p.superBlock * p.superBlock.blockSize)

section Mount

variable {p : Partition}

theorem readSb_superBlock (hs : p.sectorSize = 512) : (readSb p).ext4Sb = p.superBlock := by
  have hseek := p.seek_eq 2
  rw [hs] at hseek
  have hbuffer : p.seek 2 = p.pos 1024 := hseek
  rw [readSb, hbuffer, hs]
  rfl

theorem usedDescSize_consistent (h : ConsistentLayout p) :
    usedDescSize p.superBlock = GroupLayout.descSize p.superBlock := by
  by_cases h64 : hasIncompat p.superBlock ext4FeatureIncompat64bit
  · rw [GroupLayout.descSize, if_pos h64, ← h.descSize h64]
    exact if_pos h64
  · rw [GroupLayout.descSize, if_neg h64]
    exact if_neg h64

/-- The numbers of the code are those of the layout. -/
theorem initializedInfo_consistent (h : ConsistentLayout p) :
    initializedInfo p.superBlock = initialized p := by
  obtain ⟨-, hdpb, hper, -, -⟩ := h.descs_per_block
  obtain ⟨-, -, hsum⟩ := h.table_size
  have hfits := h.tableFits
  have hne := h.nonempty
  have hcount := h.count32
  have hpos := h.groupCount_pos
  have hlo := blocksCount_of_lt h.count32
  have hsize := usedDescSize_consistent h
  have hgroups : groupBlockCount p.superBlock = groupCount p.superBlock := by
    rw [groupBlockCount, ← hlo, sub32_of_le (by omega) hcount, sub32_of_le (by omega) (by omega),
      pred_div_succ (by omega) (by omega), ← groupCount]
    exact Nat.mod_eq_of_lt (by omega)
  have hblocks : sub32 ((groupCount p.superBlock +
      p.superBlock.blockSize / GroupLayout.descSize p.superBlock) % 2 ^ 32) 1 /
        (p.superBlock.blockSize / GroupLayout.descSize p.superBlock) =
      tableBlocks p.superBlock := by
    rw [Nat.mod_eq_of_lt (by omega), sub32_of_le (by omega) (by omega), tableBlocks]
  simp only [initializedInfo, initialized, descPerBlock, hsize, hgroups, hblocks]

theorem initializeFromSb_consistent (hs : p.sectorSize = 512) (h : ConsistentLayout p) :
    (readSb p).initializeFromSb = .ok (initialized p) := by
  obtain ⟨-, hdpb, -, -, -⟩ := h.descs_per_block
  have hfits := h.tableFits
  have hdiv : ¬(usedDescSize p.superBlock = 0 ∨ p.superBlock.sBlocksPerGroup = 0 ∨
      descPerBlock p.superBlock = 0) := by
    rw [descPerBlock, usedDescSize_consistent h]
    rcases descSize_cases p.superBlock with hd | hd <;> omega
  rw [initializeFromSb_eq, readSb_superBlock hs, if_neg hdiv, initializedInfo_consistent h]

theorem readSectors_table (hs : p.sectorSize = 512) (h : ConsistentLayout p) :
    p.readSectors true (p.superBlock.blockSize / 512)
      (tableBlocks p.superBlock * (p.superBlock.blockSize / 512) % 2 ^ 32) =
        some (tableBuffer p) := by
  obtain ⟨-, -, -, hsect, hbs⟩ := h.descs_per_block
  obtain ⟨-, hsize, -⟩ := h.table_size
  have hlt : tableBlocks p.superBlock * (p.superBlock.blockSize / 512) < 2 ^ 32 :=
    Nat.lt_of_le_of_lt (Nat.mul_le_mul_left _ (Nat.div_le_self _ _)) hsize
  have hlen : tableBlocks p.superBlock * (p.superBlock.blockSize / 512) * 512 =
      tableBlocks p.superBlock * p.superBlock.blockSize := by
    rw [Nat.mul_assoc, Nat.mul_comm _ 512, hsect]
  have hseek : p.seek (p.superBlock.blockSize / 512) = p.pos p.superBlock.blockSize := by
    have hpos := p.seek_eq (p.superBlock.blockSize / 512)
    rwa [hs, Nat.mul_comm _ 512, hsect, Nat.mod_eq_of_lt (by omega)] at hpos
  rw [Partition.readSectors, Partition.readSectorsEx, if_pos rfl, Nat.mod_eq_of_lt hlt,
    Nat.mod_eq_of_lt (by omega), hseek, hs, hlen, Nat.mod_eq_of_lt hsize, tableBuffer]

/-- **Mounting a consistent file system succeeds**, with the table read from block 1. -/
theorem getExt2Sb_consistent (hs : p.sectorSize = 512) (h : ConsistentLayout p) :
    (new p).getExt2Sb true true = .ok (true, { new p with
      ext2 := .live ((initialized p).fillGroupDescriptorTable p.heap (tableBuffer p)) }) := by
  have hsb := readSb_superBlock hs
  have hinfo := initializedInfo_consistent h
  have hmagic : (readSb p).checkIfExt4Compatible = true := by
    rw [Ext4SbInfo.checkIfExt4Compatible, hsb]
    exact beq_iff_eq.mpr h.magic
  have hinit := initializeFromSb_consistent hs h
  have hread := readSectors_table hs h
  rw [← hinfo, ← hsb] at hinit
  have hmount := @getExt2Sb_reads p (tableBuffer p) (by omega) hmagic hinit
  rw [hsb, hinfo, hs] at hmount
  exact hmount hread

theorem loaded_byte (h : ConsistentLayout p) {i k : Nat} (hi : i < groupCount p.superBlock)
    (hk : k < GroupLayout.descSize p.superBlock) :
    (Ext4SbInfo.groupDescriptorGet p.heap (GroupLayout.descSize p.superBlock)
        (tableBuffer p) i).byte k =
      p.device (p.pos p.superBlock.blockSize + (i * GroupLayout.descSize p.superBlock + k)) := by
  obtain ⟨hroom, hsize, -⟩ := h.table_size
  have hend : i * GroupLayout.descSize p.superBlock + GroupLayout.descSize p.superBlock ≤
      groupCount p.superBlock * GroupLayout.descSize p.superBlock := by
    rw [← Nat.succ_mul]
    exact Nat.mul_le_mul_right _ hi
  have hoffsets := h.offsets_fit
  rw [Ext4SbInfo.groupDescriptorGet_byte _ _ hk (by omega), tableBuffer,
    Partition.bufferAt_byte p (by omega)]

/-- **The descriptors come from their table exactly if the superblock shares block 0**,
that is with blocks of more than 1 KiB. -/
theorem group_descriptors_loaded_iff (hs : p.sectorSize = 512) (h : ConsistentLayout p) :
    (∃ part info tables, (new p).getExt2Sb true true = .ok (true, part) ∧ part.ext2 = .live info ∧
        info.tables = some tables ∧ DescriptorsLoaded p info tables) ↔
      p.superBlock.sFirstDataBlock = 0 := by
  rw [getExt2Sb_consistent hs h]
  constructor
  · rintro ⟨part, info, tables, hmount, hlive, htables, hloaded⟩
    cases hmount
    cases hlive
    cases htables
    rcases h.first with hzero | ⟨hone, hlog⟩
    · exact hzero
    · -- the second word of the superblock is its block count, and no inode bitmap is there
      have hpos := h.groupCount_pos
      have hbs : p.superBlock.blockSize = 1024 := by
        rw [Ext4SuperBlock.blockSize_eq h.blockSize, hlog]
        rfl
      have hbitmap := h.inodeBitmaps 0 hpos
      have hword : (diskDesc p 0).bgInodeBitmapLo = p.superBlock.sBlocksCountLo := by
        refine Buffer.u32_congr fun k hk => ?_
        have hds : 4 + k < GroupLayout.descSize p.superBlock := by
          rcases descSize_cases p.superBlock with hd | hd <;> omega
        have hbyte := hloaded.descs 0 hpos (4 + k) hds
        have hcode := loaded_byte h hpos hds
        rw [← hbyte]
        refine hcode.trans ?_
        rw [hbs, Nat.zero_mul, Nat.zero_add]
        exact (Partition.bufferAt_byte p (by omega)).symm
      rw [hword, blocksCount_of_lt h.count32] at hbitmap
      exact absurd hbitmap (Nat.lt_irrefl _)
  · intro hzero
    refine ⟨_, _, _, rfl, rfl, rfl, rfl, ?_⟩
    intro i hi k hk
    refine (loaded_byte h hi hk).trans ?_
    rw [diskDesc, hzero, Nat.zero_add, Nat.one_mul]

end Mount

/-- A file system of sixteen blocks of `1024 * 2 ^ log` bytes in one group. -/
def sixteenBlocks (log : UInt8) (first : UInt8) : Partition :=
  .ofDevice ((Buffer.zeros 0).pokes
    [(1028, [16]), (1044, [first]), (1048, [log]), (1056, [16]), (1064, [8]),
      (1080, [0x53, 0xef]), (1112, [128])]).byte

theorem sixteenBlocks_consistent : ConsistentLayout (sixteenBlocks 2 0) where
  magic := by decide
  blockSize := by decide
  noMetaBg := by decide
  count32 := by decide
  descSize := by decide
  first := by decide
  nonempty := by decide
  tableFits := by decide
  inodeBitmaps := by decide

/-- With blocks of 4 KiB the descriptors are loaded. -/
theorem group_descriptors_loaded_sixteenBlocks :
    ∃ part info tables, (new (sixteenBlocks 2 0)).getExt2Sb true true = .ok (true, part) ∧
      part.ext2 = .live info ∧ info.tables = some tables ∧
      DescriptorsLoaded (sixteenBlocks 2 0) info tables :=
  (group_descriptors_loaded_iff rfl sixteenBlocks_consistent).mpr (by decide)

/-- With blocks of 1 KiB the superblock is taken for the descriptor table: its block count
stands where the first inode bitmap should. -/
theorem superblock_taken_for_descriptors :
    ConsistentLayout (sixteenBlocks 0 1) ∧
      ∃ part info tables, (new (sixteenBlocks 0 1)).getExt2Sb true true = .ok (true, part) ∧
        part.ext2 = .live info ∧ info.tables = some tables ∧
        (tables.grDesc 0).bgInodeBitmapLo = 16 ∧
        (diskDesc (sixteenBlocks 0 1) 0).bgInodeBitmapLo = 0 ∧
        ¬DescriptorsLoaded (sixteenBlocks 0 1) info tables := by
  have hconsistent : ConsistentLayout (sixteenBlocks 0 1) :=
    ⟨by decide, by decide, by decide, by decide, by decide, by decide, by decide, by decide,
      by decide⟩
  refine ⟨hconsistent, _, _, _, rfl, rfl, rfl, by decide, by decide, ?_⟩
  intro hloaded
  have hbyte := hloaded.descs 0 (by decide) 4 (by decide)
  revert hbyte
  decide

end PartitionLinuxExt2

end Ext4tc.DiskUtils
