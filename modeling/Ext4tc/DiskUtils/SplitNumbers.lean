import Ext4tc.DiskUtils.PartitionLinuxExt2
import Ext4tc.Fs.ExtentPath

/-! # Block numbers in two halves

The number of a child node, the first block of an extent and the block of an inode table
stand on disk as a high and a low half. All three are put together with `(hi << 31) << 1`. The
halves of the first two have 16 bits and are shifted as an `int`, which has no room for them;
that of the third is cast to 64 bits. -/

namespace Ext4tc.DiskUtils
open Ext4tc.Lib Ext4tc.Fs

def wholeNumber (hi lo : Nat) : Nat := hi * 2 ^ 32 + lo

def Partition.sectorsAt (p : Partition) (ok : Bool) (blk blockSizeSect n : Nat) : Option Buffer :=
  if ok then some (p.bufferAt (p.pos (blk * (blockSizeSect * p.sectorSize)))
    (n * p.sectorSize % 2 ^ 32)) else none

/-- Extent `i` of a leaf, entry `j` of an index node and the inode table of a group are found
under their whole numbers, and read from there. -/
structure NumbersRebuilt (b : Blocks) (leaf : Ext4ExtentHeader) (i : Nat) (node : Ext4ExtentHeader)
    (j : Nat) (info : Ext4SbInfo) (gd : Ext4GroupDesc) : Prop where
  extent : Blocks.startAddr leaf i = wholeNumber (leaf.eeStartHi i) (leaf.eeStartLo i)
  dataBlock : ∀ fails blkIndex r b' path, b.getExt2ExtentBlk fails blkIndex = .ok (.at r, b') →
    b'.extentPath = some path →
    (Blocks.slot path (extInodeHdr b.inode).ehDepth).pHdr = some leaf →
    (Blocks.slot path (extInodeHdr b.inode).ehDepth).pExt = some i →
      r = (wholeNumber (leaf.eeStartHi i) (leaf.eeStartLo i) + blkIndex +
        (2 ^ 64 - leaf.eeBlock i)) % 2 ^ 64
  index : Blocks.leafAddr node j = wholeNumber (node.eiLeafHi j) (node.eiLeafLo j)
  childRead : ∀ fails, b.readBlock fails (Blocks.leafAddr node j) =
    b.part.sectorsAt (!fails b.reads) (wholeNumber (node.eiLeafHi j) (node.eiLeafLo j))
      b.blockSizeSect b.blockSizeSect
  table : info.has64bit = true → PartitionLinuxExt2.inodeTableBlock info gd =
    wholeNumber gd.bgInodeTableHi gd.bgInodeTableLo
  tableRead : info.has64bit = true → ∀ p ok, PartitionLinuxExt2.readInodeTable p ok info gd =
    p.sectorsAt ok (wholeNumber gd.bgInodeTableHi gd.bgInodeTableLo)
      (info.ext4Sb.blockSize / p.sectorSize) (PartitionLinuxExt2.inodeTableSectors p info.ext4Sb)

/-! ## The sites -/

/-- The two shifts leave the low half alone. -/
theorem split_eq_iff (hi lo : Nat) : splitHi hi ||| lo = wholeNumber hi lo ↔ hi = 0 := by
  rw [splitHi_eq_zero, Nat.zero_or, wholeNumber]
  omega

theorem readSectorsEx_sectorsAt (p : Partition) (ok : Bool) (blk blockSizeSect n : Nat) :
    p.readSectorsEx ok (blk * blockSizeSect % 2 ^ 64) n = p.sectorsAt ok blk blockSizeSect n := by
  rw [Partition.readSectorsEx, Partition.sectorsAt, Partition.seek_eq, Nat.mul_assoc]

theorem readBlock_sectorsAt (fails : Nat → Bool) (b : Blocks) (blk : Nat) :
    b.readBlock fails blk =
      b.part.sectorsAt (!fails b.reads) blk b.blockSizeSect b.blockSizeSect := by
  rw [Blocks.readBlock, Nat.mul_comm, readSectorsEx_sectorsAt]

theorem leafSlot_none {x : Ext4ExtPath} {leaf : Ext4ExtentHeader} {blockNo : Nat}
    (h : Blocks.ext4ExtBinsearch leaf blockNo = none) :
    (Blocks.leafSlot x leaf blockNo).pExt = none := by
  unfold Blocks.leafSlot
  rw [h]

theorem leafSlot_some {x : Ext4ExtPath} {leaf : Ext4ExtentHeader} {blockNo i : Nat}
    (h : Blocks.ext4ExtBinsearch leaf blockNo = some i) :
    Blocks.leafSlot x leaf blockNo = { x with
      pDepth := 0, pExt := some i, pIdx := none, pBlock := Blocks.startAddr leaf i } := by
  unfold Blocks.leafSlot
  rw [h]

theorem leafSlot_pBlock {x : Ext4ExtPath} {leaf : Ext4ExtentHeader} {blockNo i : Nat}
    (h : (Blocks.leafSlot x leaf blockNo).pExt = some i) :
    (Blocks.leafSlot x leaf blockNo).pBlock = Blocks.startAddr leaf i ∧
      (Blocks.leafSlot x leaf blockNo).pHdr = x.pHdr := by
  cases hfound : Blocks.ext4ExtBinsearch leaf blockNo with
  | none =>
    rw [leafSlot_none hfound] at h
    cases h
  | some j =>
    rw [leafSlot_some hfound] at h ⊢
    obtain rfl : j = i := Option.some.inj h
    exact ⟨rfl, rfl⟩

theorem slot_set_pExt {path : List Ext4ExtPath} {x : Ext4ExtPath} {d i : Nat}
    (h : (Blocks.slot (path.set d x) d).pExt = some i) : Blocks.slot (path.set d x) d = x := by
  unfold Blocks.slot at h ⊢
  rw [List.getD_eq_getElem?_getD, List.getElem?_set_self'] at h ⊢
  cases hget : path[d]? with
  | none =>
    rw [hget] at h
    cases h
  | some y => rfl

theorem ext4ExtFindExtent_pBlock {fails : Nat → Bool} {b : Blocks} {blockNo reads i : Nat}
    {path : List Ext4ExtPath} {path₀ : Option (List Ext4ExtPath)} {leaf : Ext4ExtentHeader}
    (h : b.ext4ExtFindExtent fails blockNo path₀ = .ok (path, reads))
    (hhdr : (Blocks.slot path (extInodeHdr b.inode).ehDepth).pHdr = some leaf)
    (hext : (Blocks.slot path (extInodeHdr b.inode).ehDepth).pExt = some i) :
    (Blocks.slot path (extInodeHdr b.inode).ehDepth).pBlock = Blocks.startAddr leaf i := by
  rw [Blocks.ext4ExtFindExtent] at h
  split at h
  next => cases h
  next walked reads₁ hloop =>
    split at h
    next => cases h
    next leaf' hleaf =>
      cases h
      have hslot := slot_set_pExt hext
      rw [hslot] at hext hhdr ⊢
      obtain ⟨hblock, hsame⟩ := leafSlot_pBlock hext
      rw [hsame, hleaf] at hhdr
      rw [hblock, Option.some.inj hhdr]

/-- A block of an extent is counted from its first one on. -/
theorem getExt2ExtentBlk_at {fails : Nat → Bool} {b b' : Blocks} {blkIndex r i : Nat}
    {leaf : Ext4ExtentHeader} {path : List Ext4ExtPath}
    (h : b.getExt2ExtentBlk fails blkIndex = .ok (.at r, b')) (hpath : b'.extentPath = some path)
    (hhdr : (Blocks.slot path (extInodeHdr b.inode).ehDepth).pHdr = some leaf)
    (hext : (Blocks.slot path (extInodeHdr b.inode).ehDepth).pExt = some i) :
    r = (Blocks.startAddr leaf i + blkIndex + (2 ^ 64 - leaf.eeBlock i)) % 2 ^ 64 := by
  simp only [Blocks.getExt2ExtentBlk] at h
  split at h
  next => cases h
  next =>
    split at h
    next => cases h
    next found reads hfind =>
      split at h
      next i' leaf' hext' hhdr' =>
        simp only [Except.ok.injEq, Prod.mk.injEq, BlkNr.at, BlkNr.mk.injEq, true_and,
          Option.some.injEq] at h
        obtain ⟨hr, rfl⟩ := h
        obtain rfl : found = path := Option.some.inj hpath
        obtain rfl := Option.some.inj (hext.symm.trans hext')
        obtain rfl := Option.some.inj (hhdr.symm.trans hhdr')
        rw [← hr, ext4ExtFindExtent_pBlock hfind hhdr hext]
      next => cases h

theorem inodeTableBlock_eq {info : Ext4SbInfo} (gd : Ext4GroupDesc) (h64 : info.has64bit = true) :
    PartitionLinuxExt2.inodeTableBlock info gd =
      wholeNumber gd.bgInodeTableHi gd.bgInodeTableLo := by
  rw [PartitionLinuxExt2.inodeTableBlock, if_pos h64]
  exact or_low_eq_add _ _ (Buffer.u32_lt _ _)

/-- **The numbers come out whole exactly if the 16-bit halves are 0**; the inode tables always
do. -/
theorem numbers_rebuilt_iff (b : Blocks) (leaf : Ext4ExtentHeader) (i : Nat)
    (node : Ext4ExtentHeader) (j : Nat) (info : Ext4SbInfo) (gd : Ext4GroupDesc) :
    NumbersRebuilt b leaf i node j info gd ↔ leaf.eeStartHi i = 0 ∧ node.eiLeafHi j = 0 := by
  constructor
  · intro h
    exact ⟨(split_eq_iff _ _).mp h.extent, (split_eq_iff _ _).mp h.index⟩
  · rintro ⟨hextent, hindex⟩
    have hstart : Blocks.startAddr leaf i = wholeNumber (leaf.eeStartHi i) (leaf.eeStartLo i) :=
      (split_eq_iff _ _).mpr hextent
    have hchild : Blocks.leafAddr node j = wholeNumber (node.eiLeafHi j) (node.eiLeafLo j) :=
      (split_eq_iff _ _).mpr hindex
    refine ⟨hstart, fun fails blkIndex r b' path hcall hpath hhdr hext => ?_, hchild,
      fun fails => ?_, inodeTableBlock_eq gd, fun h64 p ok => ?_⟩
    · rw [getExt2ExtentBlk_at hcall hpath hhdr hext, hstart]
    · rw [readBlock_sectorsAt, hchild]
    · rw [PartitionLinuxExt2.readInodeTable, readSectorsEx_sectorsAt, inodeTableBlock_eq gd h64]

/-- An inode with one extent, of block 2^32 + 5. -/
def beyondSixteenTiB : Ext4Inode :=
  (Buffer.zeros 128).pokes [(34, [8]), (40, [0x0a, 0xf3, 1, 0, 4]), (56, [1, 0, 1]), (60, [5])]

/-- Its first block is taken from block 5. -/
theorem high_half_lost :
    (extInodeHdr beyondSixteenTiB).eeStartHi 0 = 1 ∧
      (extInodeHdr beyondSixteenTiB).eeStartLo 0 = 5 ∧
      ((Blocks.new (.ofDevice fun _ => 0) (Buffer.zeros 1024) beyondSixteenTiB).getExt2BlkNr
        noFails 0).map Prod.fst = .ok (.at 5) ∧
      ¬NumbersRebuilt (Blocks.new (.ofDevice fun _ => 0) (Buffer.zeros 1024) beyondSixteenTiB)
        (extInodeHdr beyondSixteenTiB) 0 (extInodeHdr beyondSixteenTiB) 0
        (.superblockGet (Buffer.zeros 1024)) (Buffer.zeros 64) := by
  refine ⟨by decide, by decide, by decide +kernel, fun h => ?_⟩
  have hzero := (split_eq_iff _ _).mp h.extent
  revert hzero
  decide

end Ext4tc.DiskUtils
