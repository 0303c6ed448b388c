import Ext4tc.DiskUtils.Partition

/-! # On-disk structures

The fields of `ext4.h` and `ext4_extents.h` that the program reads, as accessors
at their byte offsets. A structure is a pointer into the bytes it was read to,
as in the source. -/

namespace Ext4tc.Fs
open Ext4tc.Lib

/-! ## Super block -/

abbrev Ext4SuperBlock := Buffer

def ext4GoodOldRev : Nat := 0
def ext4GoodOldInodeSize : Nat := 128

namespace Ext4SuperBlock

def sInodesCount (sb : Ext4SuperBlock) : Nat := Buffer.u32 sb 0
def sBlocksCountLo (sb : Ext4SuperBlock) : Nat := Buffer.u32 sb 4
def sFirstDataBlock (sb : Ext4SuperBlock) : Nat := Buffer.u32 sb 20
def sLogBlockSize (sb : Ext4SuperBlock) : Nat := Buffer.u32 sb 24
def sBlocksPerGroup (sb : Ext4SuperBlock) : Nat := Buffer.u32 sb 32
def sInodesPerGroup (sb : Ext4SuperBlock) : Nat := Buffer.u32 sb 40
def sMagic (sb : Ext4SuperBlock) : Nat := Buffer.u16 sb 56
def sRevLevel (sb : Ext4SuperBlock) : Nat := Buffer.u32 sb 76
def sInodeSize (sb : Ext4SuperBlock) : Nat := Buffer.u16 sb 88
def sFeatureIncompat (sb : Ext4SuperBlock) : Nat := Buffer.u32 sb 96
def sDescSize (sb : Ext4SuperBlock) : Nat := Buffer.u16 sb 254
def sBlocksCountHi (sb : Ext4SuperBlock) : Nat := Buffer.u32 sb 336

def blocksCount (sb : Ext4SuperBlock) : Nat := (sBlocksCountHi sb * 2 ^ 32) ||| sBlocksCountLo sb

/-- `EXT4_BLOCK_SIZE`. The shift count is taken modulo 32, as the processor does. -/
def blockSize (sb : Ext4SuperBlock) : Nat := shl32 1024 (sLogBlockSize sb % 32)

def addrPerBlock (sb : Ext4SuperBlock) : Nat := blockSize sb / 4

/-- `EXT4_INODE_SIZE`, which no function of the program uses. -/
def inodeSize (sb : Ext4SuperBlock) : Nat :=
  if sRevLevel sb = ext4GoodOldRev then ext4GoodOldInodeSize else sInodeSize sb

end Ext4SuperBlock

def ext4SuperMagic : Nat := 0xEF53
def ext4FeatureIncompatMetaBg : Nat := 0x0010
def ext4FeatureIncompat64bit : Nat := 0x0080
def ext4MinDescSize : Nat := 32
def ext4MinDescSize64bit : Nat := 64
def ext4RootIno : Nat := 2

/-! ## Group descriptor -/

abbrev Ext4GroupDesc := Buffer

namespace Ext4GroupDesc

def bgInodeBitmapLo (gd : Ext4GroupDesc) : Nat := Buffer.u32 gd 4
def bgInodeTableLo (gd : Ext4GroupDesc) : Nat := Buffer.u32 gd 8
def bgInodeTableHi (gd : Ext4GroupDesc) : Nat := Buffer.u32 gd 40

end Ext4GroupDesc

/-! ## Inode -/

abbrev Ext4Inode := Buffer

namespace Ext4Inode

def iMode (inode : Ext4Inode) : Nat := Buffer.u16 inode 0
def iSizeLo (inode : Ext4Inode) : Nat := Buffer.u32 inode 4
def iFlags (inode : Ext4Inode) : Nat := Buffer.u32 inode 32
def iBlock (inode : Ext4Inode) (i : Nat) : Nat := Buffer.u32 inode (40 + 4 * i)
def iSizeHigh (inode : Ext4Inode) : Nat := Buffer.u32 inode 108

def isReg (inode : Ext4Inode) : Bool := iMode inode &&& 0xF000 == 0x8000

/-- The 64-bit size that `read_file`, `get_dir_entry` and `FsGetFile` assemble. -/
def size (inode : Ext4Inode) : Nat := (iSizeHigh inode * 2 ^ 32) ||| iSizeLo inode

theorem size_eq (inode : Ext4Inode) : size inode = iSizeHigh inode * 2 ^ 32 + iSizeLo inode :=
  or_low_eq_add _ _ (Buffer.u32_lt _ _)

end Ext4Inode

/-! ## Directory record -/

/-- A record in memory: `sizeof(ext4_dir_entry_2)` is 264, 8 bytes of header, 255
of name, and one of padding. -/
abbrev Ext4DirEntry2 := Buffer

def sizeofExt4DirEntry2 : Nat := 264

namespace Ext4DirEntry2

def inode (dir : Ext4DirEntry2) : Nat := Buffer.u32 dir 0
def recLen (dir : Ext4DirEntry2) : Nat := Buffer.u16 dir 4
def nameLen (dir : Ext4DirEntry2) : Nat := Buffer.u8 dir 6
def fileType (dir : Ext4DirEntry2) : Nat := Buffer.u8 dir 7

def name (dir : Ext4DirEntry2) (i : Nat) : UInt8 := dir.byte (8 + i)

def nameBytes (dir : Ext4DirEntry2) : List UInt8 := (List.range (nameLen dir)).map (name dir)

end Ext4DirEntry2

def ext4FtRegFile : Nat := 1
def ext4FtDir : Nat := 2

def ext4ExtentsFl : Nat := 0x00080000
def ext4IndBlock : Nat := 12
def ext4DindBlock : Nat := ext4IndBlock + 1

/-! ## Extent tree nodes -/

abbrev Ext4ExtentHeader := Buffer

namespace Ext4ExtentHeader

def ehMagic (eh : Ext4ExtentHeader) : Nat := Buffer.u16 eh 0
def ehEntries (eh : Ext4ExtentHeader) : Nat := Buffer.u16 eh 2
def ehDepth (eh : Ext4ExtentHeader) : Nat := Buffer.u16 eh 6

/-- The byte offset of entry `i`: 12 bytes each, after the 12 bytes of header. -/
def entryOff (i : Nat) : Nat := 12 + 12 * i

def eiBlock (eh : Ext4ExtentHeader) (i : Nat) : Nat := Buffer.u32 eh (entryOff i)
def eiLeafLo (eh : Ext4ExtentHeader) (i : Nat) : Nat := Buffer.u32 eh (entryOff i + 4)
def eiLeafHi (eh : Ext4ExtentHeader) (i : Nat) : Nat := Buffer.u16 eh (entryOff i + 8)

def eeBlock (eh : Ext4ExtentHeader) (i : Nat) : Nat := Buffer.u32 eh (entryOff i)
def eeLen (eh : Ext4ExtentHeader) (i : Nat) : Nat := Buffer.u16 eh (entryOff i + 4)
def eeStartHi (eh : Ext4ExtentHeader) (i : Nat) : Nat := Buffer.u16 eh (entryOff i + 6)
def eeStartLo (eh : Ext4ExtentHeader) (i : Nat) : Nat := Buffer.u32 eh (entryOff i + 8)

end Ext4ExtentHeader

def ext4ExtMagic : Nat := 0xf30a
def extInitMaxLen : Nat := 2 ^ 15

/-- `ext_inode_hdr`: the 60 bytes of `i_block` read as an extent node. -/
def extInodeHdr (inode : Ext4Inode) : Ext4ExtentHeader := ⟨60, fun i => inode.byte (40 + i)⟩

/-- `(hi << 31) << 1` on a 16-bit field, promoted to a 32-bit int. -/
def splitHi (hi : Nat) : Nat := shl32 (shl32 hi 31) 1

@[simp] theorem splitHi_eq_zero (hi : Nat) : splitHi hi = 0 := shl32_shl32 hi

end Ext4tc.Fs
