import Ext4tc.Fs.Ext4SbInfo

/-! # A mounted partition

The class `partition_linux_ext2`: mounting and inode lookup. A sector read is
told whether it succeeds by the `ok` argument of the call it belongs to. -/

namespace Ext4tc.DiskUtils
open Ext4tc.Lib Ext4tc.Fs

def maxGroupDescQueueLen : Nat := 100

/-- The pointer `ext2`. A failed superblock read deletes the object and keeps
the pointer. -/
inductive Ext2Ptr where
  | null
  | freed
  | live (info : Ext4SbInfo)

structure PartitionLinuxExt2 where
  part : Partition
  ext2 : Ext2Ptr
  groupDescQueue : List Nat

namespace PartitionLinuxExt2

def new (part : Partition) : PartitionLinuxExt2 := ⟨part, .null, []⟩

def getExt2GrDescriptors (p : Partition) (ok : Bool) (info : Ext4SbInfo) :
    Except Fault (Option Ext4SbInfo) :=
  if p.sectorSize = 0 then .error .divByZero
  else
    let blockSizeSect := info.ext4Sb.blockSize / p.sectorSize
    match p.readSectors ok blockSizeSect (info.sGdbCount * blockSizeSect % 2 ^ 32) with
    | none => .ok none
    | some buffer => .ok (some (info.fillGroupDescriptorTable p.heap buffer))

/-- `get_ext2_sb`; `okSb` and `okGr` are for its two reads. -/
def getExt2Sb (okSb okGr : Bool) (part : PartitionLinuxExt2) :
    Except Fault (Bool × PartitionLinuxExt2) :=
  match part.ext2 with
  | .null =>
    match part.part.readSectors okSb 2 2 with
    | none => .ok (false, { part with ext2 := .freed })
    | some buffer =>
      let info := Ext4SbInfo.superblockGet buffer
      if info.checkIfExt4Compatible then
        match info.initializeFromSb with
        | .error e => .error e
        | .ok info =>
          match getExt2GrDescriptors part.part okGr info with
          | .error e => .error e
          | .ok (some info) => .ok (true, { part with ext2 := .live info })
          | .ok none => .ok (false, { part with ext2 := .null })
      else .ok (false, { part with ext2 := .null })
  | .freed => .error .useAfterFree
  | .live info => .ok (info.checkIfExt4Compatible && info.tables.isSome, part)

/-- The block number of a group's inode table, from both halves on a 64-bit
file system. -/
def inodeTableBlock (info : Ext4SbInfo) (gd : Ext4GroupDesc) : Nat :=
  (if info.has64bit then gd.bgInodeTableHi * 2 ^ 32 else 0) ||| gd.bgInodeTableLo

/-- The sectors `get_ext4_inode` reads for one group, in 32-bit arithmetic. -/
def inodeTableSectors (p : Partition) (sb : Ext4SuperBlock) : Nat :=
  sub32 ((sb.sInodeSize * sb.sInodesPerGroup + p.sectorSize) % 2 ^ 32) 1 / p.sectorSize

/-- The read of a group's whole inode table. -/
def readInodeTable (p : Partition) (ok : Bool) (info : Ext4SbInfo) (gd : Ext4GroupDesc) :
    Option Buffer :=
  p.readSectorsEx ok (inodeTableBlock info gd * (info.ext4Sb.blockSize / p.sectorSize) % 2 ^ 64)
    (inodeTableSectors p info.ext4Sb)

/-- A full queue gives up the group that came first, table and all. -/
def popFullQueue (tables : GroupTables) (queue : List Nat) : GroupTables × List Nat :=
  if maxGroupDescQueueLen ≤ queue.length then
    match queue with
    | [] => (tables, [])
    | index :: queue => (tables.removeInodesGrpFromCache index, queue)
  else (tables, queue)

/-- `get_ext4_inode` past the test of `ext2` and of the number. -/
def getLiveInode (ok : Bool) (part : PartitionLinuxExt2) (info : Ext4SbInfo) (nInode : Nat) :
    Except Fault (Option Ext4Inode × PartitionLinuxExt2) :=
  let sb := info.ext4Sb
  let inodePer := sb.sInodesPerGroup
  if part.part.sectorSize = 0 ∨ inodePer = 0 then .error .divByZero
  else
    let nrGroupBlock := (nInode - 1) / inodePer
    let inodeOffset := (nInode - 1) % inodePer * sb.sInodeSize % 2 ^ 32
    match info.tables with
    | none => .error .nullDeref
    | some tables =>
      match info.getInodeFromCache tables nInode with
      | .error e => .error e
      | .ok (some inode) => .ok (some inode, part)
      | .ok none =>
        let (tables, queue) := popFullQueue tables part.groupDescQueue
        if info.sGroupBlockCount ≤ nrGroupBlock then .error .outOfBounds
        else
          match readInodeTable part.part ok info (tables.grDesc nrGroupBlock) with
          | none => .ok (none, ⟨part.part, .live { info with tables := some tables }, queue⟩)
          | some inodes =>
            .ok (some (inodes.shift inodeOffset),
              ⟨part.part,
                .live { info with tables := some (tables.addInodesGrpToCache inodes nrGroupBlock) },
                queue ++ [nrGroupBlock]⟩)

def getExt4Inode (ok : Bool) (part : PartitionLinuxExt2) (nInode : Nat) :
    Except Fault (Option Ext4Inode × PartitionLinuxExt2) :=
  match part.ext2 with
  | .null => .ok (none, part)
  | .freed => if nInode = 0 then .ok (none, part) else .error .useAfterFree
  | .live info => if nInode = 0 then .ok (none, part) else getLiveInode ok part info nInode

/-- The destructor. -/
def destroy (part : PartitionLinuxExt2) : Except Fault Unit :=
  match part.ext2 with
  | .null => .ok ()
  | .freed => .error .useAfterFree
  | .live info => info.destroy

/-- The call finds the inode on a mounted partition. -/
def Loaded (inodeOk : Bool) (part : PartitionLinuxExt2) (inodeNr : Nat) (sb : Ext4SuperBlock)
    (inode : Ext4Inode) : Prop :=
  ∃ info part', part.ext2 = .live info ∧ info.ext4Sb = sb ∧
    part.getExt4Inode inodeOk inodeNr = .ok (some inode, part')

/-- A run of calls, each with the fate of the read it may make. -/
def getExt4Inodes : PartitionLinuxExt2 → List (Nat × Bool) → Except Fault PartitionLinuxExt2
  | part, [] => .ok part
  | part, (nInode, ok) :: calls =>
    match part.getExt4Inode ok nInode with
    | .error e => .error e
    | .ok (_, part) => getExt4Inodes part calls

end PartitionLinuxExt2

end Ext4tc.DiskUtils
