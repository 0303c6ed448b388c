import Ext4tc.DiskUtils.InodeCache
import Ext4tc.Lib.Transition

/-! # What mounting divides by

A superblock is taken for its magic number alone. Mounting divides by the descriptor size, by
the number of descriptors in a block and by the blocks of a group, an inode lookup by the
inodes of a group, and so does the destructor. -/

namespace Ext4tc.DiskUtils
open Ext4tc.Lib Ext4tc.Fs

namespace PartitionLinuxExt2

/-! ## Divisors -/

/-- The divisors of the program are not 0. -/
structure NonzeroDivisors (sb : Ext4SuperBlock) : Prop where
  descSize : usedDescSize sb ≠ 0
  descPerBlock : usedDescSize sb ≤ sb.blockSize
  blocksPerGroup : sb.sBlocksPerGroup ≠ 0
  inodesPerGroup : sb.sInodesPerGroup ≠ 0

theorem descPerBlock_eq_zero {sb : Ext4SuperBlock} (h : usedDescSize sb ≠ 0) :
    descPerBlock sb = 0 ↔ sb.blockSize < usedDescSize sb := by
  rw [descPerBlock, Nat.div_eq_zero_iff]
  omega

theorem initializeFromSb_nonzero {p : Partition} (h : NonzeroDivisors (readSb p).ext4Sb) :
    (readSb p).initializeFromSb = .ok (initializedInfo (readSb p).ext4Sb) := by
  rw [initializeFromSb_eq, if_neg]
  rw [descPerBlock_eq_zero h.descSize, not_or, not_or]
  exact ⟨h.descSize, h.blocksPerGroup, Nat.not_lt.mpr h.descPerBlock⟩

/-! ## Runs of calls -/

/-- A use of a partition: mounting it, or looking up an inode. -/
inductive VolumeCall where
  | mount (okSb okGr : Bool)
  | inode (nInode : Nat) (ok : Bool)

def call (part : PartitionLinuxExt2) : VolumeCall → Except Fault PartitionLinuxExt2
  | .mount okSb okGr => (part.getExt2Sb okSb okGr).map Prod.snd
  | .inode nInode ok => (part.getExt4Inode ok nInode).map Prod.snd

/-- What a run of calls leaves in a partition: a mounted one has the numbers of its superblock. -/
structure MountedFrom (p : Partition) (part : PartitionLinuxExt2) : Prop where
  same : part.part = p
  info : ∀ info, part.ext2 = .live info → ∃ tables,
    info = { initializedInfo (readSb p).ext4Sb with tables := some tables }

theorem MountedFrom.getExt4Inode {p : Partition} {part part' : PartitionLinuxExt2} {ok : Bool}
    {n : Nat} {found : Option Ext4Inode} (hm : MountedFrom p part)
    (h : part.getExt4Inode ok n = .ok (found, part')) : MountedFrom p part' := by
  obtain ⟨-, rfl⟩ | ⟨info, hlive, -, rfl | ⟨tables, queue, rfl⟩⟩ := getExt4Inode_ok h
  · exact hm
  · exact hm
  · obtain ⟨-, rfl⟩ := hm.info info hlive
    refine ⟨hm.same, fun info' hlive' => ?_⟩
    cases hlive'
    exact ⟨tables, rfl⟩

theorem MountedFrom.new (p : Partition) : MountedFrom p (new p) := ⟨rfl, nofun⟩

theorem MountedFrom.call {p : Partition} {part part' : PartitionLinuxExt2} {c : VolumeCall}
    (hm : MountedFrom p part) (h : part.call c = .ok part') : MountedFrom p part' := by
  cases c with
  | mount okSb okGr =>
    obtain ⟨⟨done, part₁⟩, hcall, rfl⟩ := exists_of_map_ok h
    cases hext : part.ext2 with
    | null =>
      obtain ⟨part, ext2, queue⟩ := part
      obtain rfl := hm.same
      obtain rfl : ext2 = .null := hext
      obtain ⟨-, rfl | rfl⟩ | ⟨-, -, -, -, buffer, -, rfl⟩ := getExt2Sb_new hcall
      · exact hm
      · exact ⟨rfl, nofun⟩
      · refine ⟨rfl, fun info hlive => ?_⟩
        cases hlive
        exact ⟨_, rfl⟩
    | freed =>
      rw [getExt2Sb, hext] at hcall
      cases hcall
    | live info =>
      rw [getExt2Sb, hext] at hcall
      cases hcall
      exact hm
  | inode n ok =>
    obtain ⟨⟨found, part₁⟩, hcall, rfl⟩ := exists_of_map_ok h
    exact hm.getExt4Inode hcall

/-! ## Divisions -/

/-- No run of calls on a partition divides by zero, nor does the destructor or a look into the
cache behind it. -/
structure NeverDividesByZero (p : Partition) : Prop where
  runs : ∀ calls : List VolumeCall, calls.foldlM call (new p) ≠ .error .divByZero
  destroyed : ∀ (calls : List VolumeCall) part, calls.foldlM call (new p) = .ok part →
    part.destroy ≠ .error .divByZero
  cached : ∀ (calls : List VolumeCall) part info tables n, calls.foldlM call (new p) = .ok part →
    part.ext2 = .live info → info.getInodeFromCache tables n ≠ .error .divByZero

section Divisions

variable {p : Partition}

theorem deleteTables_ne_divByZero (info : Ext4SbInfo) (k i : Nat) :
    info.deleteTables k i ≠ .error .divByZero := by
  induction k generalizing i with
  | zero => nofun
  | succ k ih =>
    rw [Ext4SbInfo.deleteTables]
    split
    · nofun
    · exact ih (i + 1)

theorem getInodeFromCache_ne_divByZero {info : Ext4SbInfo} (h : info.sInodesPerBlock ≠ 0)
    (tables : GroupTables) (n : Nat) :
    info.getInodeFromCache tables n ≠ .error .divByZero := by
  rw [Ext4SbInfo.getInodeFromCache, if_neg h]
  intro hzero
  dsimp only at hzero
  split at hzero <;> cases hzero

/-- A lookup divides by the sector size and the inodes of a group. -/
theorem getExt4Inode_ne_divByZero {part : PartitionLinuxExt2} (hm : MountedFrom p part)
    (hs : p.sectorSize ≠ 0) (hipg : (readSb p).ext4Sb.sInodesPerGroup ≠ 0) (ok : Bool) (n : Nat) :
    part.getExt4Inode ok n ≠ .error .divByZero := by
  intro h
  cases hext : part.ext2 with
  | null =>
    rw [PartitionLinuxExt2.getExt4Inode, hext] at h
    cases h
  | freed =>
    rw [PartitionLinuxExt2.getExt4Inode, hext] at h
    dsimp only at h
    split at h <;> cases h
  | live info =>
    obtain ⟨tables, rfl⟩ := hm.info info hext
    by_cases hn : n = 0
    · rw [PartitionLinuxExt2.getExt4Inode, hext] at h
      cases (if_pos hn).symm.trans h
    · have hlooks : LooksUp part _ tables n := ⟨hext, rfl, hn, hm.same ▸ hs, hipg, rfl⟩
      obtain hgroup | hbeyond := Nat.lt_or_ge (group _ n) (groupBlockCount (readSb p).ext4Sb)
      · cases hslot : tables.inodesTableCache (group _ n) with
        | some inodes => cases (hlooks.hit hgroup hslot ok).symm.trans h
        | none => cases (hlooks.miss hgroup hslot rfl).symm.trans h
      · cases (hlooks.beyond hbeyond ok).symm.trans h

theorem getExt2Sb_ne_divByZero {part : PartitionLinuxExt2} (hm : MountedFrom p part)
    (hs : p.sectorSize ≠ 0) (hd : NonzeroDivisors (readSb p).ext4Sb) (okSb okGr : Bool) :
    part.getExt2Sb okSb okGr ≠ .error .divByZero := by
  obtain ⟨part, ext2, queue⟩ := part
  obtain rfl := hm.same
  cases ext2 with
  | freed => nofun
  | live info => nofun
  | null =>
    have hinit := initializeFromSb_nonzero hd
    intro h
    simp only [getExt2Sb] at h
    split at h
    next => cases h
    next buffer hread =>
      rw [superblockGet_readSb hread] at h
      split at h
      next =>
        simp only [hinit, getExt2GrDescriptors] at h
        rw [if_neg hs] at h
        split at h
        next herror =>
          split at herror <;> cases herror
        next => cases h
        next => cases h
      next => cases h

theorem MountedFrom.calls_ne_divByZero {part : PartitionLinuxExt2} (hm : MountedFrom p part)
    (hs : p.sectorSize ≠ 0) (hd : NonzeroDivisors (readSb p).ext4Sb) (c : VolumeCall) :
    part.call c ≠ .error .divByZero := by
  intro h
  cases c with
  | mount okSb okGr => exact getExt2Sb_ne_divByZero hm hs hd okSb okGr (of_map_error h)
  | inode n ok => exact getExt4Inode_ne_divByZero hm hs hd.inodesPerGroup ok n (of_map_error h)

theorem destroy_ne_divByZero {part : PartitionLinuxExt2} (hm : MountedFrom p part)
    (hipg : (readSb p).ext4Sb.sInodesPerGroup ≠ 0) : part.destroy ≠ .error .divByZero := by
  intro h
  unfold destroy at h
  split at h
  next => cases h
  next => cases h
  next info hlive =>
    obtain ⟨tables, rfl⟩ := hm.info info hlive
    simp only [Ext4SbInfo.destroy] at h
    split at h
    next hzero => exact hipg hzero
    next => exact deleteTables_ne_divByZero _ _ _ h

/-! ## Exactly when nothing is divided by zero -/

theorem getExt2Sb_divByZero (hsb : (readSb p).checkIfExt4Compatible = true)
    (hzero : usedDescSize (readSb p).ext4Sb = 0 ∨ (readSb p).ext4Sb.sBlocksPerGroup = 0 ∨
      descPerBlock (readSb p).ext4Sb = 0) :
    (new p).getExt2Sb true true = .error .divByZero := by
  have hinit := initializeFromSb_eq p
  rw [if_pos hzero] at hinit
  have hread : p.readSectors true 2 2 =
      some (p.bufferAt (p.seek 2) (2 * p.sectorSize % 2 ^ 32)) := rfl
  simp only [getExt2Sb, new, hread]
  rw [← readSb, if_pos hsb, hinit]

theorem NeverDividesByZero.nonzeroDivisors (h : NeverDividesByZero p) (hs : p.sectorSize ≠ 0)
    (hsb : (readSb p).checkIfExt4Compatible = true) : NonzeroDivisors (readSb p).ext4Sb := by
  have hdiv : ¬(usedDescSize (readSb p).ext4Sb = 0 ∨ (readSb p).ext4Sb.sBlocksPerGroup = 0 ∨
      descPerBlock (readSb p).ext4Sb = 0) := fun hzero =>
    h.runs [.mount true true]
      (foldlM_cons_error (congrArg (Except.map Prod.snd) (getExt2Sb_divByZero hsb hzero)))
  have hinit := initializeFromSb_eq p
  rw [if_neg hdiv] at hinit
  simp only [not_or] at hdiv
  obtain ⟨hsize, hblocks, hper⟩ := hdiv
  rw [descPerBlock_eq_zero hsize, Nat.not_lt] at hper
  refine ⟨hsize, hper, hblocks, fun hipg => ?_⟩
  -- the destructor is behind a mount
  have hmount := getExt2Sb_reads hs hsb hinit rfl
  have hrun : [VolumeCall.mount true true].foldlM call (new p) = .ok _ :=
    foldlM_cons_ok (congrArg (Except.map Prod.snd) hmount)
  refine h.destroyed _ _ hrun ?_
  simp only [destroy, Ext4SbInfo.destroy, Ext4SbInfo.fillGroupDescriptorTable]
  exact if_pos hipg

/-- **No division by zero, in any run of calls, exactly if the four divisors of the superblock
are not 0.** -/
theorem never_divides_by_zero_iff (hs : p.sectorSize ≠ 0)
    (hsb : (readSb p).checkIfExt4Compatible = true) :
    NeverDividesByZero p ↔ NonzeroDivisors (readSb p).ext4Sb := by
  constructor
  · intro h
    exact h.nonzeroDivisors hs hsb
  · intro hd
    have hkeeps : ∀ part c part', MountedFrom p part → part.call c = .ok part' →
        MountedFrom p part' := fun _ _ _ hm h => hm.call h
    refine ⟨fun calls => ?_, fun calls part hrun => ?_,
      fun calls part info tables n hrun hlive => ?_⟩
    · exact foldlM_ne_error hkeeps (fun part c hm => hm.calls_ne_divByZero hs hd c) (.new p)
    · exact destroy_ne_divByZero (foldlM_keeps hkeeps (.new p) hrun) hd.inodesPerGroup
    · have hm := foldlM_keeps hkeeps (.new p) hrun
      obtain ⟨tables', rfl⟩ := hm.info info hlive
      exact getInodeFromCache_ne_divByZero hd.inodesPerGroup tables n

end Divisions

theorem never_divides_by_zero_smallDevice : NeverDividesByZero smallDevice :=
  (never_divides_by_zero_iff (by decide) (by decide)).mpr
    ⟨by decide, by decide, by decide, by decide⟩

/-- A superblock that says that its groups have no blocks. -/
def emptyGroups : Partition :=
  .ofDevice ((Buffer.zeros 0).pokes
    [(1028, [9]), (1064, [8]), (1080, [0x53, 0xef]), (1112, [128])]).byte

/-- It is taken for its magic number, and mounting divides by its `s_blocks_per_group`. -/
theorem mount_divides_by_zero :
    (readSb emptyGroups).checkIfExt4Compatible = true ∧
      (new emptyGroups).getExt2Sb true true = .error .divByZero ∧
      ¬NeverDividesByZero emptyGroups := by
  have hmount : (new emptyGroups).getExt2Sb true true = .error .divByZero := rfl
  refine ⟨by decide, hmount, fun h => h.runs [.mount true true] (foldlM_cons_error ?_)⟩
  rw [call, hmount]
  rfl

end PartitionLinuxExt2

end Ext4tc.DiskUtils
