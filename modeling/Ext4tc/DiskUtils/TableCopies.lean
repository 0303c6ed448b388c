import Ext4tc.DiskUtils.MountRuns
import Ext4tc.Fs.BlockCount

/-! # The copies of the group descriptors

The table is read in one piece of `s_gdb_count` blocks and cut into the descriptors one after
the other, each with `s_desc_size` bytes for an element of 64. -/

namespace Ext4tc.DiskUtils
open Ext4tc.Lib Ext4tc.Fs

namespace PartitionLinuxExt2

/-- Every descriptor is copied from inside the buffer and fits its element of `gr_desc`. -/
def CopiesInside (info : Ext4SbInfo) (buffer : Buffer) : Prop :=
  ∀ i < info.sGroupBlockCount, 0 ≤ Ext4SbInfo.descOffset info.sDescSize i ∧
    Ext4SbInfo.descOffset info.sDescSize i + info.sDescSize ≤ buffer.size ∧ info.sDescSize ≤ 64

/-- The blocks that hold the descriptors, rounded up. -/
def wholeTableBlocks (sb : Ext4SuperBlock) : Nat :=
  (groupBlockCount sb + descPerBlock sb - 1) / descPerBlock sb

/-- The whole sectors of a block, in bytes. -/
def sectorBytes (p : Partition) (sb : Ext4SuperBlock) : Nat :=
  sb.blockSize / p.sectorSize * p.sectorSize

/-- A table whose descriptors have at most 64 bytes, begin below 2^31 and fit the sectors of
their blocks, of less than 2^32 bytes. -/
structure TableFits (p : Partition) (sb : Ext4SuperBlock) : Prop where
  descSize : usedDescSize sb ≤ 64
  offsets : (groupBlockCount sb - 1) * usedDescSize sb < 2 ^ 31
  room : p.sectorSize ∣ sb.blockSize ∨
    groupBlockCount sb * usedDescSize sb ≤ wholeTableBlocks sb * sectorBytes p sb
  size : wholeTableBlocks sb * sectorBytes p sb < 2 ^ 32

/-! ## The offsets -/

theorem descOffset_nonneg {ds i : Nat} (h : i * ds < 2 ^ 32) :
    0 ≤ Ext4SbInfo.descOffset ds i ↔ i * ds < 2 ^ 31 := by
  have hword : Ext4SbInfo.descOffset ds i = Int.bmod (i * ds : Nat) (2 ^ 32) := by
    rw [Int.natCast_mul]
    rfl
  rw [hword, bmod_word h]
  split <;> omega

theorem exists_negative_offset {ds k : Nat} (hds : 0 < ds) (hds' : ds ≤ 64) (h : 2 ^ 31 ≤ k * ds) :
    ∃ i ≤ k, Ext4SbInfo.descOffset ds i < 0 := by
  obtain ⟨hup, hless⟩ := @round_up (2 ^ 31) ds hds
  refine ⟨(2 ^ 31 + ds - 1) / ds, ?_, ?_⟩
  · refine Nat.le_of_lt_succ ((Nat.div_lt_iff_lt_mul hds).mpr ?_)
    rw [Nat.succ_mul]
    omega
  · rw [← Int.not_le, descOffset_nonneg (by omega)]
    omega

/-- The copies are inside a buffer if the first and the last one are. -/
theorem copies_iff {count ds len : Nat} (hds : 0 < ds) :
    (∀ i < count, 0 ≤ Ext4SbInfo.descOffset ds i ∧ Ext4SbInfo.descOffset ds i + ds ≤ len ∧
        ds ≤ 64) ↔
      count = 0 ∨ ds ≤ 64 ∧ (count - 1) * ds < 2 ^ 31 ∧ count * ds ≤ len := by
  rcases Nat.eq_zero_or_pos count with rfl | hpos
  · exact iff_of_true nofun (.inl rfl)
  obtain ⟨k, rfl⟩ := Nat.exists_eq_add_of_le' hpos
  rw [Nat.add_sub_cancel, Nat.succ_mul]
  constructor
  · intro h
    obtain ⟨-, -, h64⟩ := h 0 hpos
    have hoffset : k * ds < 2 ^ 31 := by
      by_contra hlarge
      obtain ⟨i, hi, hneg⟩ := exists_negative_offset hds h64 (Nat.not_lt.mp hlarge)
      obtain ⟨hnonneg, -⟩ := h i (Nat.lt_succ_of_le hi)
      omega
    obtain ⟨-, hend, -⟩ := h k (Nat.lt_succ_self k)
    rw [Ext4SbInfo.descOffset_of_lt hoffset] at hend
    exact .inr ⟨h64, hoffset, by omega⟩
  · rintro (hzero | ⟨h64, hoffset, hend⟩) i hi
    · cases hzero
    · have hle := Nat.mul_le_mul_right ds (Nat.le_of_lt_succ hi)
      rw [Ext4SbInfo.descOffset_of_lt (by omega)]
      omega

/-! ## The table -/

/-- A table of descriptors that begin below 2^31, cut to 32 bits, has room for them only if it
was not cut. -/
theorem cut_table_iff {count ds dpb bs w : Nat} (hpos : 0 < count) (hds : 0 < ds) (hds' : ds ≤ 64)
    (hbs : 1024 ≤ bs) (hbs' : bs ≤ 2 ^ 31) (hdpb : dpb = bs / ds) (hw : w ≤ bs)
    (hoffset : (count - 1) * ds < 2 ^ 31) :
    count * ds ≤ (count + dpb - 1) / dpb * w % 2 ^ 32 ↔
      count * ds ≤ (count + dpb - 1) / dpb * w ∧ (count + dpb - 1) / dpb * w < 2 ^ 32 := by
  constructor
  · intro h
    have hdpb' : 0 < dpb := hdpb ▸ Nat.div_pos (by omega) hds
    obtain ⟨hup, hless⟩ := @round_up count dpb hdpb'
    have hblock := Nat.lt_mul_div_succ bs hds
    rw [← hdpb, Nat.mul_succ, Nat.mul_comm] at hblock
    generalize (count + dpb - 1) / dpb = blocks at h hup hless ⊢
    have hsome : blocks ≠ 0 := by
      rintro rfl
      omega
    obtain ⟨k, rfl⟩ := Nat.exists_eq_succ_of_ne_zero hsome
    -- all blocks but the last are full, but for less than a descriptor each
    have hfull : k * (dpb * ds) ≤ (count - 1) * ds := by
      rw [← Nat.mul_assoc]
      rw [Nat.succ_mul] at hless
      exact Nat.mul_le_mul_right ds (by omega)
    have hbelow : k * (dpb * ds) < 2 ^ 31 := Nat.lt_of_le_of_lt hfull hoffset
    have hmany : k * 961 ≤ k * (dpb * ds) := Nat.mul_le_mul_left k (by omega)
    have htable : k.succ * w ≤ k * (dpb * ds) + k * 63 + bs := by
      have hle := Nat.mul_le_mul_left k (show w ≤ dpb * ds + 63 by omega)
      rw [Nat.succ_mul]
      rw [Nat.mul_add] at hle
      omega
    have hlast : (count - 1) * ds + ds = count * ds := by
      rw [← Nat.succ_mul]
      congr 1
      omega
    have hsize : k.succ * w < 2 ^ 32 := by omega
    exact ⟨Nat.mod_eq_of_lt hsize ▸ h, hsize⟩
  · rintro ⟨hroom, hsize⟩
    rwa [Nat.mod_eq_of_lt hsize]

/-- The read of the descriptor table. -/
def tableRead (p : Partition) (ok : Bool) (info : Ext4SbInfo) : Option Buffer :=
  p.readSectors ok (info.ext4Sb.blockSize / p.sectorSize)
    (info.sGdbCount * (info.ext4Sb.blockSize / p.sectorSize) % 2 ^ 32)

section Copies

variable {p : Partition} {sb : Ext4SuperBlock}

theorem sGdbCount_eq (hd : NonzeroDivisors sb)
    (hoffset : (groupBlockCount sb - 1) * usedDescSize sb < 2 ^ 31) :
    (initializedInfo sb).sGdbCount = wholeTableBlocks sb := by
  have hds := Nat.pos_of_ne_zero hd.descSize
  have hdpb : 0 < descPerBlock sb := Nat.div_pos hd.descPerBlock hds
  have hbs := sb.blockSize_le
  have hper : descPerBlock sb ≤ sb.blockSize := Nat.div_le_self _ _
  have hcount : groupBlockCount sb - 1 ≤ (groupBlockCount sb - 1) * usedDescSize sb :=
    Nat.le_mul_of_pos_right _ hds
  have hsum : sub32 ((groupBlockCount sb + descPerBlock sb) % 2 ^ 32) 1 =
      groupBlockCount sb + descPerBlock sb - 1 := by
    unfold sub32
    omega
  change sub32 ((groupBlockCount sb + descPerBlock sb) % 2 ^ 32) 1 / descPerBlock sb = _
  rw [hsum, wholeTableBlocks]

theorem le_blockSize (hd : NonzeroDivisors sb) : 1024 ≤ sb.blockSize := by
  have hds := Nat.pos_of_ne_zero hd.descSize
  have hbs := hd.descPerBlock
  obtain ⟨hdvd, -⟩ := @Ext4SuperBlock.blockSize_dvd sb (by omega)
  exact Nat.le_of_dvd (by omega) hdvd

/-- Blocks of whole sectors have room for the descriptors they are counted for. -/
theorem table_room (hd : NonzeroDivisors sb) (h : p.sectorSize ∣ sb.blockSize) :
    groupBlockCount sb * usedDescSize sb ≤ wholeTableBlocks sb * sectorBytes p sb := by
  have hdpb : 0 < descPerBlock sb := Nat.div_pos hd.descPerBlock (Nat.pos_of_ne_zero hd.descSize)
  obtain ⟨hup, -⟩ := @round_up (groupBlockCount sb) (descPerBlock sb) hdpb
  calc groupBlockCount sb * usedDescSize sb
      ≤ wholeTableBlocks sb * descPerBlock sb * usedDescSize sb := Nat.mul_le_mul_right _ hup
    _ = wholeTableBlocks sb * (descPerBlock sb * usedDescSize sb) := Nat.mul_assoc _ _ _
    _ ≤ wholeTableBlocks sb * sb.blockSize := Nat.mul_le_mul_left _ (Nat.div_mul_le_self _ _)
    _ = wholeTableBlocks sb * sectorBytes p sb := by rw [sectorBytes, Nat.div_mul_cancel h]

/-- **The copies stay inside their source and destination exactly if the table fits.** -/
theorem table_copies_iff (hs : p.sectorSize ≠ 0) (hd : NonzeroDivisors (readSb p).ext4Sb) :
    ∃ info buffer, (readSb p).initializeFromSb = .ok info ∧ tableRead p true info = some buffer ∧
      getExt2GrDescriptors p true info =
        .ok (some (info.fillGroupDescriptorTable p.heap buffer)) ∧
      (CopiesInside info buffer ↔
        groupBlockCount (readSb p).ext4Sb = 0 ∨ TableFits p (readSb p).ext4Sb) := by
  have hinit := initializeFromSb_nonzero hd
  have hread : tableRead p true (initializedInfo (readSb p).ext4Sb) = some _ := rfl
  refine ⟨_, _, hinit, hread, getExt2GrDescriptors_of_read hs hread, ?_⟩
  generalize (readSb p).ext4Sb = sb at hd ⊢
  have hds := Nat.pos_of_ne_zero hd.descSize
  have hlen : (initializedInfo sb).sGdbCount * (sb.blockSize / p.sectorSize) % 2 ^ 32 *
      p.sectorSize % 2 ^ 32 = (initializedInfo sb).sGdbCount * sectorBytes p sb % 2 ^ 32 := by
    rw [Nat.mod_mul_mod, Nat.mul_assoc, ← sectorBytes]
  have hcopies := @copies_iff (groupBlockCount sb) (usedDescSize sb)
    ((initializedInfo sb).sGdbCount * sectorBytes p sb % 2 ^ 32) hds
  refine Iff.trans ?_ (hcopies.trans ?_)
  · rw [← hlen]
    exact Iff.rfl
  by_cases hzero : groupBlockCount sb = 0
  · exact iff_of_true (.inl hzero) (.inl hzero)
  rw [or_iff_right hzero, or_iff_right hzero]
  have hcut := fun h64 hoffset => @cut_table_iff (groupBlockCount sb) (usedDescSize sb)
    (descPerBlock sb) sb.blockSize (sectorBytes p sb) (Nat.pos_of_ne_zero hzero) hds h64
    (le_blockSize hd) sb.blockSize_le rfl (Nat.div_mul_le_self _ _) hoffset
  constructor
  · rintro ⟨h64, hoffset, hroom⟩
    rw [sGdbCount_eq hd hoffset] at hroom
    obtain ⟨hfits, hsize⟩ := (hcut h64 hoffset).mp hroom
    exact ⟨h64, hoffset, .inr hfits, hsize⟩
  · rintro ⟨h64, hoffset, hroom, hsize⟩
    have hfits : groupBlockCount sb * usedDescSize sb ≤ wholeTableBlocks sb * sectorBytes p sb :=
      hroom.elim (table_room hd) id
    refine ⟨h64, hoffset, ?_⟩
    rw [sGdbCount_eq hd hoffset]
    exact (hcut h64 hoffset).mpr ⟨hfits, hsize⟩

end Copies

theorem table_copies_iff_smallDevice :
    ∃ info buffer, (readSb smallDevice).initializeFromSb = .ok info ∧
      tableRead smallDevice true info = some buffer ∧ CopiesInside info buffer := by
  obtain ⟨info, buffer, hinit, hread, -, hcopies⟩ := @table_copies_iff smallDevice (by decide)
    ⟨by decide, by decide, by decide, by decide⟩
  exact ⟨info, buffer, hinit, hread, hcopies.mpr (.inr
    ⟨by decide, by decide, by decide, by decide⟩)⟩

/-- A 64-bit file system with descriptors of 128 bytes. -/
def largeDescriptors : Partition :=
  .ofDevice ((Buffer.zeros 0).pokes
    [(1028, [9]), (1044, [1]), (1056, [8]), (1064, [8]), (1080, [0x53, 0xef]), (1112, [128]),
      (1120, [0x80]), (1278, [128])]).byte

/-- It is mounted, and its descriptor does not fit its element. -/
theorem descriptor_beyond_element :
    ∃ m info buffer, (new largeDescriptors).getExt2Sb true true = .ok (true, m) ∧
      (readSb largeDescriptors).initializeFromSb = .ok info ∧
      tableRead largeDescriptors true info = some buffer ∧ info.sGroupBlockCount = 1 ∧
      info.sDescSize = 128 ∧ ¬CopiesInside info buffer := by
  refine ⟨_, _, _, rfl, rfl, rfl, by decide, by decide, fun h => ?_⟩
  obtain ⟨-, -, h64⟩ := h 0 (by decide)
  revert h64
  decide

end PartitionLinuxExt2

end Ext4tc.DiskUtils
