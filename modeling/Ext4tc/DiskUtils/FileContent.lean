import Ext4tc.DiskUtils.CopyResult
import Ext4tc.DiskUtils.SparseFile

/-! # The content of a file

What a file holds by its inode and the device: each block that is mapped to an initialised
data block has that block's bytes, and each hole has zeros. Nothing of the mapper is in it.
On a well-formed mapping without holes the lookups lead to the blocks of the content, so
that a copy of what they find is a copy of the file. -/

namespace Ext4tc.DiskUtils
open Ext4tc.Lib Ext4tc.Fs

/-- The chain of pointers of block `b` has no 0 and ends in `a`. -/
def ChainEnds (p : Partition) (bs : Nat) (inode : Ext4Inode) (b a : Nat) : Prop :=
  ∃ i ws, indirectChain (bs / 4) b = some (i, ws) ∧ 0 ∉ pointers p bs (inode.iBlock i) ws ∧
    (pointers p bs (inode.iBlock i) ws).getLast? = some a

/-- An initialised extent of the tree, whichever it is, has block `b` in `a`. -/
def ExtentHas (p : Partition) (sb : Ext4SuperBlock) (inode : Ext4Inode) (b a : Nat) : Prop :=
  ∃ leaf i, LeafExtent p sb inode leaf i ∧ Covers leaf i b ∧ leaf.eeLen i ≤ extInitMaxLen ∧
    a = leaf.eeStartHi i * 2 ^ 32 + leaf.eeStartLo i + (b - leaf.eeBlock i)

/-- Block `b` of the file is stored in block `a` of the device. -/
def StoredAt (p : Partition) (sb : Ext4SuperBlock) (inode : Ext4Inode) (b a : Nat) : Prop :=
  if inode.iFlags &&& ext4ExtentsFl = 0 then ChainEnds p sb.blockSize inode b a
  else ExtentHas p sb inode b a

open Classical in
/-- The bytes of block `b`: those of the block it is stored in, or zeros. -/
noncomputable def storedBlock (p : Partition) (sb : Ext4SuperBlock) (inode : Ext4Inode) (b : Nat) :
    List UInt8 :=
  if h : ∃ a, StoredAt p sb inode b a then (p.block sb.blockSize h.choose).slice 0 sb.blockSize
  else List.replicate sb.blockSize 0

noncomputable def storedContent (p : Partition) (sb : Ext4SuperBlock) (inode : Ext4Inode) :
    List UInt8 :=
  ((List.range (fileBlocks sb.blockSize inode.size)).flatMap (storedBlock p sb inode)).take
    inode.size

/-- A file without holes whose mapping is well-formed: through pointers within the double
indirect range, or through extents that keep apart. -/
structure WholeFile (p : Partition) (sb : Ext4SuperBlock) (inode : Ext4Inode) : Prop where
  mapping : IndirectFile p sb inode ∨ ExtentFile p sb inode ∧ RangesApart p sb inode
  size : inode.size ≤ 2 ^ 32 * sb.blockSize
  stored : ∀ b < fileBlocks sb.blockSize inode.size, ∃ a, StoredAt p sb inode b a

/-- The block that a lookup of `b` leads to. -/
def lookedUpAt (p : Partition) (sb : Ext4SuperBlock) (inode : Ext4Inode) (b : Nat) : Nat :=
  if inode.iFlags &&& ext4ExtentsFl = 0 then refBlkNr p sb.blockSize inode b
  else (extentAnswer p sb.blockSize inode b).physicalBlkAddr.getD 0

section Mapping

variable {p : Partition} {sb : Ext4SuperBlock} {inode : Ext4Inode}

theorem StoredAt.direct (hflags : inode.iFlags &&& ext4ExtentsFl = 0) {b : Nat} (hb : b < 12)
    (hmapped : inode.iBlock b ≠ 0) : StoredAt p sb inode b (inode.iBlock b) := by
  rw [StoredAt, if_pos hflags]
  exact ⟨b, [], if_pos hb, by simpa [pointers] using hmapped.symm, rfl⟩

/-- Within the double indirect range the chain of pointers is the pointer chase. -/
theorem ChainEnds.refBlkNr_eq (hf : IndirectFile p sb inode) {b a : Nat}
    (hb : b < fileBlocks sb.blockSize inode.size) (h : ChainEnds p sb.blockSize inode b a) :
    refBlkNr p sb.blockSize inode b = a := by
  obtain ⟨i, ws, hchain, -, hlast⟩ := h
  have hrange := hf.blocks
  rw [show sb.addrPerBlock = sb.blockSize / 4 from rfl] at hrange
  unfold indirectChain at hchain
  unfold refBlkNr
  dsimp only
  split at hchain
  next hdirect =>
    cases hchain
    rw [if_pos hdirect]
    exact Option.some.inj hlast
  next hdirect =>
    rw [if_neg hdirect]
    split at hchain
    next hsingle =>
      cases hchain
      rw [if_pos (by omega)]
      exact Option.some.inj hlast
    next hsingle =>
      rw [if_neg (by omega)]
      rw [if_pos (by rw [Nat.pow_two]; omega)] at hchain
      cases hchain
      exact Option.some.inj hlast

/-- The start of an extent of a well-formed tree has no high half. -/
theorem LeafExtent.eeStartHi_eq (hf : ExtentFile p sb inode) (ha : RangesApart p sb inode)
    {leaf : Ext4ExtentHeader} {i b : Nat} (he : LeafExtent p sb inode leaf i)
    (hc : Covers leaf i b) : leaf.eeStartHi i = 0 := by
  obtain ⟨hleaf, -⟩ := IntervalTree.leaf_pick_of_mem ha he hc.1 hc.2
  have hnode := hf.nodes.leaf hf.keys b
  rw [leaf_width oneBlock actualLen, hleaf] at hnode
  exact (hnode.2 i he.lt).1 rfl

theorem ExtentHas.answer_eq (hf : ExtentFile p sb inode) (ha : RangesApart p sb inode) {b a : Nat}
    (h : ExtentHas p sb inode b a) : extentAnswer p sb.blockSize inode b = .at a := by
  obtain ⟨leaf, i, he, hc, -, rfl⟩ := h
  have hhi := LeafExtent.eeStartHi_eq hf ha he hc
  rw [extentAnswer_of_covers ha he hc, hhi, Nat.zero_mul, Nat.zero_add]
  rfl

end Mapping

namespace WholeFile

variable {p : Partition} {sb : Ext4SuperBlock} {inode : Ext4Inode}

/-- **A stored block is found where it is stored.** -/
theorem lookedUpAt_eq (h : WholeFile p sb inode) {b a : Nat}
    (hb : b < fileBlocks sb.blockSize inode.size) (hs : StoredAt p sb inode b a) :
    lookedUpAt p sb inode b = a := by
  unfold StoredAt at hs
  unfold lookedUpAt
  rcases h.mapping with hf | ⟨hf, ha⟩
  · rw [if_pos hf.noExtents] at hs ⊢
    exact hs.refBlkNr_eq hf hb
  · rw [if_neg hf.extents] at hs ⊢
    rw [hs.answer_eq hf ha]
    rfl

theorem logBlockSize (h : WholeFile p sb inode) : sb.sLogBlockSize ≤ 6 :=
  h.mapping.elim IndirectFile.logBlockSize fun hf => hf.1.logBlockSize

theorem wholeSectors (h : WholeFile p sb inode) : WholeSectors p sb := by
  have hsector : p.sectorSize = 512 := h.mapping.elim IndirectFile.sector fun hf => hf.1.sector
  obtain ⟨a, -, hbs, h128, -⟩ := Ext4SuperBlock.blockSize_cases h.logBlockSize
  refine ⟨h.logBlockSize, by omega, ?_⟩
  rw [hsector, hbs]
  exact ⟨a / 128, by omega⟩

theorem blockSize_pos (h : WholeFile p sb inode) : 0 < sb.blockSize :=
  Nat.lt_of_lt_of_le (by decide) (Ext4SuperBlock.blockSize_pos h.logBlockSize).1

/-- Asked in order, the mapper answers every block of the file. -/
theorem lookups (h : WholeFile p sb inode) :
    ∃ b', (Blocks.new p sb inode).getExt2BlkNrs noFails
        (List.range (fileBlocks sb.blockSize inode.size)) =
      .ok ((List.range (fileBlocks sb.blockSize inode.size)).map fun b =>
        .at (lookedUpAt p sb inode b), b') := by
  rcases h.mapping with hf | ⟨hf, ha⟩
  · have hchase : ∀ b, lookedUpAt p sb inode b = refBlkNr p sb.blockSize inode b :=
      fun b => if_pos hf.noExtents
    simp only [hchase]
    rw [List.range_eq_range', ← cursorAt_zero]
    exact cursorAt_run hf _ 0 0 (by omega)
  · obtain ⟨b', hrun, -⟩ := extentLookups hf (List.range (fileBlocks sb.blockSize inode.size))
      (pathState_new p sb inode)
    refine ⟨b', hrun.trans ?_⟩
    refine congrArg (fun rs => Except.ok (rs, b')) (List.map_congr_left fun b hb => ?_)
    obtain ⟨a, hs⟩ := h.stored b (List.mem_range.mp hb)
    rw [h.lookedUpAt_eq (List.mem_range.mp hb) hs]
    rw [StoredAt, if_neg hf.extents] at hs
    exact hs.answer_eq hf ha

/-- So a copy has all it needs, if the reads of the mapper succeed. -/
theorem copyInput (h : WholeFile p sb inode) {env : CopyEnv} (henv : env.metaFails = noFails) :
    CopyInput env p sb inode (lookedUpAt p sb inode) :=
  ⟨h.logBlockSize, h.size, henv ▸ h.lookups⟩

/-- **What the lookups lead to is the content of the file.** -/
theorem fileContent_eq (h : WholeFile p sb inode) :
    fileContent p sb.blockSize (lookedUpAt p sb inode) inode.size = storedContent p sb inode := by
  refine congrArg (List.take inode.size) (List.flatMap_congr fun b hb => ?_)
  have hstored := h.stored b (List.mem_range.mp hb)
  rw [storedBlock, dif_pos hstored, h.lookedUpAt_eq (List.mem_range.mp hb) hstored.choose_spec]

theorem storedContent_length (h : WholeFile p sb inode) :
    (storedContent p sb inode).length = inode.size := by
  rw [← h.fileContent_eq]
  exact fileContent_length h.blockSize_pos

theorem of_direct (hf : IndirectFile p sb inode) (hfew : fileBlocks sb.blockSize inode.size ≤ 12)
    (hmapped : ∀ b < fileBlocks sb.blockSize inode.size, inode.iBlock b ≠ 0) :
    WholeFile p sb inode := by
  refine ⟨.inl hf, ?_, fun b hb => ⟨inode.iBlock b, ?_⟩⟩
  · have hall := size_le_fileBlocks_mul inode.size
      (Nat.lt_of_lt_of_le (by decide) (Ext4SuperBlock.blockSize_pos hf.logBlockSize).1)
    exact hall.trans (Nat.mul_le_mul_right _ (by omega))
  · exact .direct hf.noExtents (by omega) (hmapped b hb)

theorem of_oneExtent (hsector : p.sectorSize = 512) (hlog : sb.sLogBlockSize ≤ 6)
    (hflags : inode.iFlags &&& ext4ExtentsFl ≠ 0)
    (hroot : (extInodeHdr inode).ehMagic = ext4ExtMagic ∧ (extInodeHdr inode).ehDepth = 0 ∧
      (extInodeHdr inode).ehEntries = 1)
    (hextent : (extInodeHdr inode).eeBlock 0 = 0 ∧ (extInodeHdr inode).eeStartHi 0 = 0 ∧
      (extInodeHdr inode).eeLen 0 ≤ extInitMaxLen)
    (hall : fileBlocks sb.blockSize inode.size ≤ (extInodeHdr inode).eeLen 0) :
    WholeFile p sb inode := by
  obtain ⟨hmagic, hdepth, hone⟩ := hroot
  obtain ⟨hfirst, hhi, hinit⟩ := hextent
  have hzero : ∀ i, i < (extInodeHdr inode).ehEntries → i = 0 := by omega
  have hwell : ∀ width, (extentTree p sb.blockSize width).WellFormed 0 (extInodeHdr inode) 0
      none := by
    intro width
    refine ⟨Nat.le_of_eq hone.symm, fun i j hij hj => ?_, fun i hi => ⟨Nat.zero_le _, trivial, ?_⟩⟩
    · have hj' := hzero j hj
      omega
    · rw [IntervalTree.next, if_neg (by rw [show (extentTree p sb.blockSize width).entries
        (extInodeHdr inode) = (extInodeHdr inode).ehEntries from rfl]; omega)]
      trivial
  have hfile : ExtentFile p sb inode := by
    refine ⟨hsector, hlog, hflags, hmagic, ?_, ?_⟩
    · rw [hdepth]
      refine ⟨show 12 * (extInodeHdr inode).ehEntries + 12 ≤ 60 by omega,
        fun i hi => ⟨fun _ => ?_, fun h => absurd rfl h⟩⟩
      rw [hzero i hi]
      exact hhi
    · rw [hdepth]
      exact hwell oneBlock
  have hlen : (extInodeHdr inode).eeLen 0 < 2 ^ 16 := Buffer.u16_lt _ _
  refine ⟨.inr ⟨hfile, ?_⟩, ?_, fun b hb => ⟨(extInodeHdr inode).eeStartHi 0 * 2 ^ 32 +
    (extInodeHdr inode).eeStartLo 0 + (b - (extInodeHdr inode).eeBlock 0), ?_⟩⟩
  · rw [RangesApart, hdepth]
    exact hwell actualLen
  · have hsize := size_le_fileBlocks_mul inode.size
      (Nat.lt_of_lt_of_le (by decide) (Ext4SuperBlock.blockSize_pos hlog).1)
    exact hsize.trans (Nat.mul_le_mul_right _ (by omega))
  · rw [StoredAt, if_neg hflags]
    refine ⟨extInodeHdr inode, 0, ?_, ?_, hinit, rfl⟩
    · rw [LeafExtent, hdepth]
      exact .here (show 0 < (extInodeHdr inode).ehEntries by omega)
    · rw [Covers, actualLen, if_pos hinit, hfirst]
      omega

end WholeFile

/-- The file of inode 12, in an extent of one block. -/
theorem image_wholeFile : WholeFile image imageSb (imageInode 12) :=
  .of_oneExtent (by decide) (by decide) (by decide) (by decide) (by decide) (by decide)

end Ext4tc.DiskUtils
