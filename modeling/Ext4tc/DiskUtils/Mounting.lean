import Ext4tc.DiskUtils.PartitionLinuxExt2

/-! # What mounts and lookups do

The numbers that mounting takes from the superblock, in closed form, and the outcomes of
`get_ext2_sb` on a fresh object and of `get_ext4_inode`. What is said of mounted partitions
follows from these, not from the code. -/

namespace Ext4tc.DiskUtils
open Ext4tc.Lib Ext4tc.Fs

namespace PartitionLinuxExt2

/-! ## The superblock object -/

/-- The superblock that mounting reads, with the numbers it takes from it. -/
def readSb (p : Partition) : Ext4SbInfo :=
  .superblockGet (p.bufferAt (p.seek 2) (2 * p.sectorSize % 2 ^ 32))

/-- The descriptor size that `initialize_from_sb` goes by. -/
def usedDescSize (sb : Ext4SuperBlock) : Nat :=
  if sb.sFeatureIncompat &&& ext4FeatureIncompat64bit ≠ 0 then sb.sDescSize else ext4MinDescSize

/-- The number of groups, from the low word of the block count. -/
def groupBlockCount (sb : Ext4SuperBlock) : Nat :=
  (sub32 (sub32 sb.sBlocksCountLo sb.sFirstDataBlock) 1 / sb.sBlocksPerGroup + 1) % 2 ^ 32

def descPerBlock (sb : Ext4SuperBlock) : Nat := sb.blockSize / usedDescSize sb

/-- The object with its numbers filled in. -/
def initializedInfo (sb : Ext4SuperBlock) : Ext4SbInfo where
  ext4Sb := sb
  sDescSize := usedDescSize sb
  sInodesPerBlock := sb.sInodesPerGroup
  sGdbCount := sub32 ((groupBlockCount sb + descPerBlock sb) % 2 ^ 32) 1 / descPerBlock sb
  sDescPerBlock := descPerBlock sb
  sGroupBlockCount := groupBlockCount sb

theorem initializeFromSb_eq (p : Partition) : (readSb p).initializeFromSb =
    if usedDescSize (readSb p).ext4Sb = 0 ∨ (readSb p).ext4Sb.sBlocksPerGroup = 0 ∨
        descPerBlock (readSb p).ext4Sb = 0 then .error .divByZero
    else .ok (initializedInfo (readSb p).ext4Sb) := by
  have hsize : (if (readSb p).has64bit = true then (readSb p).ext4Sb.sDescSize
      else ext4MinDescSize) = usedDescSize (readSb p).ext4Sb := by
    simp only [usedDescSize, Ext4SbInfo.has64bit, bne_iff_ne]
  simp only [Ext4SbInfo.initializeFromSb, hsize]
  rfl

/-! ## Mounting -/

theorem superblockGet_readSb {p : Partition} {ok : Bool} {buffer : Buffer}
    (h : p.readSectors ok 2 2 = some buffer) : Ext4SbInfo.superblockGet buffer = readSb p := by
  cases ok with
  | false => cases h
  | true =>
    cases h
    rfl

/-- **Mounting**: what a fresh partition turns into. -/
theorem getExt2Sb_new {p : Partition} {part' : PartitionLinuxExt2} {okSb okGr done : Bool}
    {queue : List Nat} (h : getExt2Sb okSb okGr ⟨p, .null, queue⟩ = .ok (done, part')) :
    (done = false ∧ (part' = ⟨p, .null, queue⟩ ∨ part' = ⟨p, .freed, queue⟩)) ∨
      done = true ∧ p.sectorSize ≠ 0 ∧ (readSb p).checkIfExt4Compatible = true ∧
        (readSb p).initializeFromSb = .ok (initializedInfo (readSb p).ext4Sb) ∧
        ∃ buffer, p.readSectors okGr ((readSb p).ext4Sb.blockSize / p.sectorSize)
            ((initializedInfo (readSb p).ext4Sb).sGdbCount *
              ((readSb p).ext4Sb.blockSize / p.sectorSize) % 2 ^ 32) = some buffer ∧
          part' = ⟨p, .live ((initializedInfo (readSb p).ext4Sb).fillGroupDescriptorTable p.heap
            buffer), queue⟩ := by
  simp only [getExt2Sb] at h
  split at h
  next =>
    cases h
    exact .inl ⟨rfl, .inr rfl⟩
  next buffer hread =>
    rw [superblockGet_readSb hread] at h
    split at h
    next hmagic =>
      split at h
      next => cases h
      next info hinit =>
        obtain rfl : info = initializedInfo (readSb p).ext4Sb := by
          rw [initializeFromSb_eq] at hinit
          split at hinit
          next => cases hinit
          next =>
            cases hinit
            rfl
        simp only [getExt2GrDescriptors] at h
        split at h
        next => cases h
        next info' hgr =>
          split at hgr
          next => cases hgr
          next hs =>
            split at hgr
            next => cases hgr
            next table htable =>
              cases hgr
              cases h
              exact .inr ⟨rfl, hs, hmagic, hinit, table, htable, rfl⟩
        next =>
          cases h
          exact .inl ⟨rfl, .inl rfl⟩
    next =>
      cases h
      exact .inl ⟨rfl, .inl rfl⟩

theorem getExt2GrDescriptors_of_read {p : Partition} {ok : Bool} {info : Ext4SbInfo}
    {buffer : Buffer} (hs : p.sectorSize ≠ 0)
    (hread : p.readSectors ok (info.ext4Sb.blockSize / p.sectorSize)
      (info.sGdbCount * (info.ext4Sb.blockSize / p.sectorSize) % 2 ^ 32) = some buffer) :
    getExt2GrDescriptors p ok info = .ok (some (info.fillGroupDescriptorTable p.heap buffer)) := by
  simp only [getExt2GrDescriptors, hread]
  exact if_neg hs

theorem getExt2Sb_reads {p : Partition} {buffer : Buffer} (hs : p.sectorSize ≠ 0)
    (hsb : (readSb p).checkIfExt4Compatible = true)
    (hinit : (readSb p).initializeFromSb = .ok (initializedInfo (readSb p).ext4Sb))
    (hread : p.readSectors true ((readSb p).ext4Sb.blockSize / p.sectorSize)
      ((initializedInfo (readSb p).ext4Sb).sGdbCount *
        ((readSb p).ext4Sb.blockSize / p.sectorSize) % 2 ^ 32) = some buffer) :
    (new p).getExt2Sb true true = .ok (true, ⟨p, .live
      ((initializedInfo (readSb p).ext4Sb).fillGroupDescriptorTable p.heap buffer), []⟩) := by
  have hblock : p.readSectors true 2 2 =
      some (p.bufferAt (p.seek 2) (2 * p.sectorSize % 2 ^ 32)) := rfl
  have htable := @getExt2GrDescriptors_of_read p true (initializedInfo (readSb p).ext4Sb) buffer
    hs hread
  simp only [getExt2Sb, new, hblock]
  rw [← readSb, if_pos hsb, hinit]
  simp only [htable]

/-! ## Lookups -/

def group (info : Ext4SbInfo) (n : Nat) : Nat := (n - 1) / info.ext4Sb.sInodesPerGroup

def recordOff (info : Ext4SbInfo) (n : Nat) : Nat :=
  (n - 1) % info.ext4Sb.sInodesPerGroup * info.ext4Sb.sInodeSize

/-- **One lookup**: it changes the tables and the queue of a live object, and nothing else. -/
theorem getExt4Inode_ok {part part' : PartitionLinuxExt2} {ok : Bool} {n : Nat}
    {found : Option Ext4Inode} (h : part.getExt4Inode ok n = .ok (found, part')) :
    found = none ∧ part' = part ∨ ∃ info, part.ext2 = .live info ∧ part.part.sectorSize ≠ 0 ∧
      (part' = part ∨ ∃ tables queue,
        part' = ⟨part.part, .live { info with tables := some tables }, queue⟩) := by
  unfold getExt4Inode at h
  split at h
  next =>
    cases h
    exact .inl ⟨rfl, rfl⟩
  next =>
    split at h
    next =>
      cases h
      exact .inl ⟨rfl, rfl⟩
    next => cases h
  next info hlive =>
    split at h
    next =>
      cases h
      exact .inl ⟨rfl, rfl⟩
    next =>
      simp only [getLiveInode] at h
      split at h
      next => cases h
      next hzero =>
        refine .inr ⟨info, hlive, fun hs => hzero (.inl hs), ?_⟩
        split at h
        next => cases h
        next tables _ =>
          split at h
          next => cases h
          next =>
            cases h
            exact .inl rfl
          next =>
            split at h
            next => cases h
            next =>
              split at h
              next =>
                cases h
                exact .inr ⟨_, _, rfl⟩
              next =>
                cases h
                exact .inr ⟨_, _, rfl⟩

/-- A call that finds an inode is on a live object, and leaves the partition as it was. -/
theorem getExt4Inode_some {part part' : PartitionLinuxExt2} {ok : Bool} {n : Nat}
    {inode : Ext4Inode} (h : part.getExt4Inode ok n = .ok (some inode, part')) :
    part.part.sectorSize ≠ 0 ∧ part'.part = part.part := by
  obtain ⟨hnone, -⟩ | ⟨info, -, hs, rfl | ⟨tables, queue, rfl⟩⟩ := getExt4Inode_ok h
  · cases hnone
  · exact ⟨hs, rfl⟩
  · exact ⟨hs, rfl⟩

/-- A partition after a lookup that did not find its group in the cache: a full queue gave up a
group before the read, and the table that was read is in the cache. -/
def afterMiss (part : PartitionLinuxExt2) (info : Ext4SbInfo) (tables : GroupTables) (g : Nat) :
    Option Buffer → PartitionLinuxExt2
  | none =>
    let (tables, queue) := popFullQueue tables part.groupDescQueue
    ⟨part.part, .live { info with tables := some tables }, queue⟩
  | some inodes =>
    let (tables, queue) := popFullQueue tables part.groupDescQueue
    ⟨part.part, .live { info with tables := some (tables.addInodesGrpToCache inodes g) },
      queue ++ [g]⟩

/-- A lookup that gets to the tables of a live object. -/
structure LooksUp (part : PartitionLinuxExt2) (info : Ext4SbInfo) (tables : GroupTables)
    (n : Nat) : Prop where
  live : part.ext2 = .live info
  tables : info.tables = some tables
  number : n ≠ 0
  sector : part.part.sectorSize ≠ 0
  perGroup : info.ext4Sb.sInodesPerGroup ≠ 0
  perBlock : info.sInodesPerBlock = info.ext4Sb.sInodesPerGroup

@[simp] theorem popFullQueue_grDesc (tables : GroupTables) (queue : List Nat) :
    (popFullQueue tables queue).1.grDesc = tables.grDesc := by
  unfold popFullQueue
  split
  next =>
    cases queue with
    | nil => rfl
    | cons index queue => rfl
  next => rfl

namespace LooksUp

variable {part : PartitionLinuxExt2} {info : Ext4SbInfo} {tables : GroupTables} {n : Nat}

theorem getLiveInode (h : LooksUp part info tables n) (ok : Bool) :
    part.getExt4Inode ok n = part.getLiveInode ok info n := by
  rw [getExt4Inode, h.live]
  exact if_neg h.number

theorem getInodeFromCache (h : LooksUp part info tables n) :
    info.getInodeFromCache tables n =
      if info.sGroupBlockCount ≤ group info n then .error .outOfBounds
      else .ok ((tables.inodesTableCache (group info n)).map fun inodes =>
        inodes.shift (recordOff info n % 2 ^ 32)) := by
  simp only [Ext4SbInfo.getInodeFromCache, h.perBlock]
  exact if_neg h.perGroup

theorem beyond (h : LooksUp part info tables n) (hgroup : info.sGroupBlockCount ≤ group info n)
    (ok : Bool) : part.getExt4Inode ok n = .error .outOfBounds := by
  have hcache := h.getInodeFromCache
  rw [if_pos hgroup] at hcache
  rw [h.getLiveInode]
  simp only [PartitionLinuxExt2.getLiveInode, h.tables, hcache]
  exact if_neg (not_or.mpr ⟨h.sector, h.perGroup⟩)

section Within

variable (h : LooksUp part info tables n) (hgroup : group info n < info.sGroupBlockCount)
include h hgroup

theorem hit {inodes : Buffer} (hslot : tables.inodesTableCache (group info n) = some inodes)
    (ok : Bool) :
    part.getExt4Inode ok n = .ok (some (inodes.shift (recordOff info n % 2 ^ 32)), part) := by
  have hcache := h.getInodeFromCache
  rw [if_neg (Nat.not_le.mpr hgroup), hslot, Option.map_some] at hcache
  rw [h.getLiveInode]
  simp only [PartitionLinuxExt2.getLiveInode, h.tables, hcache]
  exact if_neg (not_or.mpr ⟨h.sector, h.perGroup⟩)

theorem miss (hslot : tables.inodesTableCache (group info n) = none) {ok : Bool}
    {table : Option Buffer}
    (hread : readInodeTable part.part ok info (tables.grDesc (group info n)) = table) :
    part.getExt4Inode ok n =
      .ok (table.map fun inodes => inodes.shift (recordOff info n % 2 ^ 32),
        part.afterMiss info tables (group info n) table) := by
  have hcache := h.getInodeFromCache
  rw [if_neg (Nat.not_le.mpr hgroup), hslot, Option.map_none] at hcache
  have hdiv : (n - 1) / info.ext4Sb.sInodesPerGroup = group info n := rfl
  rw [h.getLiveInode]
  simp only [PartitionLinuxExt2.getLiveInode, h.tables, hcache, hdiv, popFullQueue_grDesc, hread]
  rw [if_neg (not_or.mpr ⟨h.sector, h.perGroup⟩), if_neg (Nat.not_le.mpr hgroup)]
  cases table with
  | none => rfl
  | some inodes => rfl

end Within

end LooksUp

end PartitionLinuxExt2

end Ext4tc.DiskUtils
