import Ext4tc.Fs.Ext4

/-! # The superblock in memory

The class `ext4_sb_info`. `fill_group_descriptor_table` allocates its two arrays
together, so they are there or missing together; both have `s_group_block_count`
elements, and an index past them is a fault. -/

namespace Ext4tc.Fs
open Ext4tc.Lib Ext4tc.DiskUtils

structure GroupTables where
  grDesc : Nat → Ext4GroupDesc
  inodesTableCache : Nat → Option Buffer

structure Ext4SbInfo where
  ext4Sb : Ext4SuperBlock
  sDescSize : Nat := 0
  sInodesPerBlock : Nat := 0
  sGdbCount : Nat := 0
  sDescPerBlock : Nat := 0
  sGroupBlockCount : Nat := 0
  tables : Option GroupTables := none

namespace Ext4SbInfo

/-- The constructor, with the copy of the 1024 superblock bytes. -/
def superblockGet (buffer : Buffer) : Ext4SbInfo := { ext4Sb := ⟨1024, buffer.byte⟩ }

def checkIfExt4Compatible (info : Ext4SbInfo) : Bool := info.ext4Sb.sMagic == ext4SuperMagic

def has64bit (info : Ext4SbInfo) : Bool :=
  info.ext4Sb.sFeatureIncompat &&& ext4FeatureIncompat64bit != 0

/-- Every division of the source is a fault when its divisor is 0. -/
def initializeFromSb (info : Ext4SbInfo) : Except Fault Ext4SbInfo :=
  let sb := info.ext4Sb
  let sDescSize := if info.has64bit then sb.sDescSize else ext4MinDescSize
  let sDescPerBlock := sb.blockSize / sDescSize
  if sDescSize = 0 ∨ sb.sBlocksPerGroup = 0 ∨ sDescPerBlock = 0 then .error .divByZero
  else
    let sGroupBlockCount :=
      (sub32 (sub32 sb.sBlocksCountLo sb.sFirstDataBlock) 1 / sb.sBlocksPerGroup + 1) % 2 ^ 32
    .ok { info with
      sDescSize, sDescPerBlock, sGroupBlockCount
      sGdbCount := sub32 ((sGroupBlockCount + sDescPerBlock) % 2 ^ 32) 1 / sDescPerBlock
      sInodesPerBlock := sb.sInodesPerGroup }

/-- The variable `offset` for descriptor `i`, an `int`. -/
def descOffset (sDescSize i : Nat) : Int := Int.bmod (i * sDescSize) (2 ^ 32)

theorem descOffset_of_lt {sDescSize i : Nat} (h : i * sDescSize < 2 ^ 31) :
    descOffset sDescSize i = (i * sDescSize : Nat) :=
  Int.bmod_eq_of_le (by omega) (by omega)

/-- Byte `x` of a buffer, or what stands in front of it. -/
def byteAround (heap : Nat → UInt8) (buffer : Buffer) : Int → UInt8
  | .ofNat x => buffer.byte x
  | .negSucc x => heap x

@[simp] theorem byteAround_natCast (heap : Nat → UInt8) (buffer : Buffer) (x : Nat) :
    byteAround heap buffer x = buffer.byte x := rfl

/-- Descriptor `i` gets `s_desc_size` bytes; the rest of its 64 is what was there. -/
def groupDescriptorGet (heap : Nat → UInt8) (sDescSize : Nat) (buffer : Buffer) (i : Nat) :
    Ext4GroupDesc :=
  ⟨64, fun k =>
    if k < sDescSize then byteAround heap buffer (descOffset sDescSize i + k)
    else heap (64 * i + k)⟩

theorem groupDescriptorGet_byte (heap : Nat → UInt8) {sDescSize i k : Nat} (buffer : Buffer)
    (hk : k < sDescSize) (hi : i * sDescSize < 2 ^ 31) :
    (groupDescriptorGet heap sDescSize buffer i).byte k = buffer.byte (i * sDescSize + k) := by
  simp only [groupDescriptorGet, if_pos hk]
  rw [descOffset_of_lt hi, ← Int.natCast_add, byteAround_natCast]

def fillGroupDescriptorTable (heap : Nat → UInt8) (info : Ext4SbInfo) (buffer : Buffer) :
    Ext4SbInfo :=
  { info with tables := some ⟨groupDescriptorGet heap info.sDescSize buffer, fun _ => none⟩ }

/-- `get_inode_from_cache`: the record inside the table in the slot, if it is filled. -/
def getInodeFromCache (info : Ext4SbInfo) (tables : GroupTables) (inodeNo : Nat) :
    Except Fault (Option Ext4Inode) :=
  if info.sInodesPerBlock = 0 then .error .divByZero
  else
    let groupNo := (inodeNo - 1) / info.sInodesPerBlock
    let inodeOffset := (inodeNo - 1) % info.sInodesPerBlock * info.ext4Sb.sInodeSize % 2 ^ 32
    if info.sGroupBlockCount ≤ groupNo then .error .outOfBounds
    else .ok ((tables.inodesTableCache groupNo).map fun inodes => inodes.shift inodeOffset)

/-- The loop of the destructor over the slots, with `k` of them left from slot `i` on. -/
def deleteTables (info : Ext4SbInfo) : (k i : Nat) → Except Fault Unit
  | 0, _ => .ok ()
  | k + 1, i =>
    if info.sGroupBlockCount ≤ i then .error .outOfBounds else deleteTables info k (i + 1)

/-- The destructor. The number of groups is an `int`. -/
def destroy (info : Ext4SbInfo) : Except Fault Unit :=
  match info.tables with
  | none => .ok ()
  | some _ =>
    if info.ext4Sb.sInodesPerGroup = 0 then .error .divByZero
    else
      let nGroups : Int :=
        Int.bmod (info.ext4Sb.sInodesCount / info.ext4Sb.sInodesPerGroup : Nat) (2 ^ 32)
      info.deleteTables nGroups.toNat 0

end Ext4SbInfo

namespace GroupTables

def addInodesGrpToCache (tables : GroupTables) (inodes : Buffer) (groupBlockNo : Nat) :
    GroupTables :=
  { tables with
    inodesTableCache := fun g =>
      if g = groupBlockNo then some inodes else tables.inodesTableCache g }

def removeInodesGrpFromCache (tables : GroupTables) (groupBlockNo : Nat) : GroupTables :=
  { tables with
    inodesTableCache := fun g => if g = groupBlockNo then none else tables.inodesTableCache g }

end GroupTables

end Ext4tc.Fs
