import Ext4tc.DiskUtils.DirEntry
import Ext4tc.Lib.CString

/-! # Names and directories of the plugin

The part of the class `ext4PluginDescr` that walks paths. Directories are loaded
through the partitions of the disks, whose state goes along. The plugin keeps one
entry table, `dir_entries`, for all its searches; `get_ext2_inode` loads tables of
its own. Entries are never NULL, so the tests for that are left out. -/

namespace Ext4tc.Plugin
open Ext4tc.Lib Ext4tc.Fs Ext4tc.DiskUtils

def separator : UInt8 := 0x5c
def maxPath : Nat := 260

/-- The calls that go to `hard_disks[disk_no]->get_partitions_ext2()[part_no_map]`. -/
structure Partitions (σ : Type) where
  getDirEntry : σ → (diskNo partNoMap inodeNr : Nat) → Except Fault (DirResult × σ)
  getExt4Inode : σ → (diskNo partNoMap inodeNr : Nat) → Except Fault (Option Ext4Inode × σ)

/-! ## Entry tables -/

/-- A loop over the entries `i`, `i + 1`, ... of a table, `k` of them, up to the first one
that `p` picks. -/
def findEntry (tab : Option (List Ext4DirEntry2)) (p : Ext4DirEntry2 → Bool) :
    (k i : Nat) → Except Fault (Option (Nat × Ext4DirEntry2))
  | 0, _ => .ok none
  | k + 1, i =>
    match tab with
    | none => .error .nullDeref
    | some dirs =>
      match dirs[i]? with
      | none => .error .outOfBounds
      | some dir => if p dir then .ok (some (i, dir)) else findEntry tab p k (i + 1)

def freeExt2DirEntries (tab : Option (List Ext4DirEntry2)) (num : Nat) : Except Fault Unit :=
  match tab with
  | none => .ok ()
  | some dirs => if num ≤ dirs.length then .ok () else .error .outOfBounds

/-- The name test of both walks, on a component. -/
def isNamed (word : List UInt8) (dir : Ext4DirEntry2) : Bool :=
  word.length == dir.nameLen && strncmpEq (cstr word) dir.name word.length

/-- Entries that a search shows: not deleted, and not `.` or `..`. The comparison stops
after `name_len` bytes, so an empty name is passed over as well. -/
def isListed (dir : Ext4DirEntry2) : Bool :=
  dir.inode != 0 && !strncmpEq (cstr [0x2e]) dir.name dir.nameLen &&
    !strncmpEq (cstr [0x2e, 0x2e]) dir.name dir.nameLen

/-! ## The table of the plugin -/

/-- The fields that the walks use. -/
structure Ext4PluginDescr (σ : Type) where
  hardDisks : σ
  dirEntries : Option (List Ext4DirEntry2)
  dirEntryNum : Nat

section Table

variable {σ : Type} (parts : Partitions σ) (diskNo partNoMap : Nat)

/-- `load_ext2_dir_entry`, true for 0. The old table goes first; a count that the
directory read does not store stays as it was. -/
def loadExt2DirEntry (descr : Ext4PluginDescr σ) (inodeNum : Nat) :
    Except Fault (Bool × Ext4PluginDescr σ) :=
  match freeExt2DirEntries descr.dirEntries descr.dirEntryNum with
  | .error fault => .error fault
  | .ok () =>
    match parts.getDirEntry descr.hardDisks diskNo partNoMap inodeNum with
    | .error fault => .error fault
    | .ok (result, hardDisks) =>
      .ok (result.table.isSome, ⟨hardDisks, result.table, result.readDirs.getD descr.dirEntryNum⟩)

/-- The loop of `get_first_dir_entry` over the components. A component that no entry is
named like changes nothing, and the type of an entry is not looked at. -/
def enterComponents : List (Nat × List UInt8) → Ext4PluginDescr σ →
    Except Fault (Bool × Ext4PluginDescr σ)
  | [], descr => .ok (true, descr)
  | (_, word) :: words, descr =>
    match findEntry descr.dirEntries (isNamed word) descr.dirEntryNum 0 with
    | .error fault => .error fault
    | .ok none => enterComponents words descr
    | .ok (some (_, dir)) =>
      match loadExt2DirEntry parts diskNo partNoMap descr dir.inode with
      | .error fault => .error fault
      | .ok (false, descr) => .ok (false, descr)
      | .ok (true, descr) => enterComponents words descr

/-- The components that `strtok_s` finds behind the device name. -/
def components (path : List UInt8) : List (Nat × List UInt8) :=
  match strchr separator (path.drop 1) with
  | none => []
  | some k => strtok separator 1 (path.drop (k + 2))

/-- What `get_first_dir_entry` returns, and what it stores in `*num_entry`, if anything. -/
structure FirstEntry where
  dir : Option Ext4DirEntry2
  numEntry : Option Nat

/-- The scan that ends `get_first_dir_entry`. -/
def firstListed (descr : Ext4PluginDescr σ) : Except Fault FirstEntry :=
  match findEntry descr.dirEntries isListed descr.dirEntryNum 0 with
  | .error fault => .error fault
  | .ok none => .ok ⟨none, some descr.dirEntryNum⟩
  | .ok (some (i, dir)) => .ok ⟨some dir, some i⟩

def getFirstDirEntry (descr : Ext4PluginDescr σ) (path : List UInt8) :
    Except Fault (FirstEntry × Ext4PluginDescr σ) :=
  match loadExt2DirEntry parts diskNo partNoMap descr ext4RootIno with
  | .error fault => .error fault
  | .ok (false, descr) => .ok (⟨none, none⟩, descr)
  | .ok (true, descr) =>
    match enterComponents parts diskNo partNoMap (components path) descr with
    | .error fault => .error fault
    | .ok (false, descr) => .ok (⟨none, none⟩, descr)
    | .ok (true, descr) =>
      match firstListed descr with
      | .error fault => .error fault
      | .ok first => .ok (first, descr)

/-- `get_next_dir_entry`: the entry, and what is in `*num_last_entry` afterwards. -/
def getNextDirEntry (descr : Ext4PluginDescr σ) (numLastEntry : Nat) :
    Except Fault (Option Ext4DirEntry2 × Nat) :=
  if descr.dirEntries.isNone ∨ descr.dirEntryNum ≤ numLastEntry then .ok (none, numLastEntry)
  else
    match findEntry descr.dirEntries isListed (descr.dirEntryNum - (numLastEntry + 1))
      (numLastEntry + 1) with
    | .error fault => .error fault
    | .ok none => .ok (none, numLastEntry)
    | .ok (some (i, dir)) => .ok (some dir, i)

end Table

/-! ## The file walk -/

section FileWalk

variable {σ : Type} (parts : Partitions σ) (diskNo partNoMap : Nat)

/-- The variables of `get_ext2_inode` that its loop changes. -/
structure InodeWalk (σ : Type) where
  hardDisks : σ
  dirs : Option (List Ext4DirEntry2)
  entryNum : Nat
  found : Bool

/-- The loop over the components before the last one, false for its `return NULL`. The
flag `found` is never cleared, so after a first hit a miss changes nothing. -/
def walkComponents : List (Nat × List UInt8) → InodeWalk σ → Except Fault (Bool × InodeWalk σ)
  | [], walk => .ok (true, walk)
  | (_, word) :: words, walk =>
    match findEntry walk.dirs (fun dir => isNamed word dir && dir.fileType == ext4FtDir)
        walk.entryNum 0 with
    | .error fault => .error fault
    | .ok none => if walk.found then walkComponents words walk else .ok (false, walk)
    | .ok (some (_, dir)) =>
      match freeExt2DirEntries walk.dirs walk.entryNum with
      | .error fault => .error fault
      | .ok () =>
        match parts.getDirEntry walk.hardDisks diskNo partNoMap dir.inode with
        | .error fault => .error fault
        | .ok (result, hardDisks) =>
          walkComponents words ⟨hardDisks, result.table, result.readDirs.getD walk.entryNum, true⟩

/-- What `get_ext2_inode` returns, and what it stores in `*inode_num`, if anything. -/
structure FoundInode where
  inode : Option Ext4Inode
  inodeNum : Option Nat

/-- The file test of the last loop: the type, then the name. -/
def isFileNamed (word : List UInt8) (dir : Ext4DirEntry2) : Bool :=
  dir.fileType == ext4FtRegFile &&
    (word.length == dir.nameLen && strncmpEq (cstr word) dir.name dir.nameLen)

/-- The loop over the last directory, and the two ends of `get_ext2_inode`. -/
def lookUpFile (word : List UInt8) (walk : InodeWalk σ) : Except Fault (FoundInode × σ) :=
  match findEntry walk.dirs (isFileNamed word) walk.entryNum 0 with
  | .error fault => .error fault
  | .ok none =>
    match freeExt2DirEntries walk.dirs walk.entryNum with
    | .error fault => .error fault
    | .ok () => .ok (⟨none, none⟩, walk.hardDisks)
  | .ok (some (_, dir)) =>
    match parts.getExt4Inode walk.hardDisks diskNo partNoMap dir.inode with
    | .error fault => .error fault
    | .ok (inode, hardDisks) =>
      match freeExt2DirEntries walk.dirs walk.entryNum with
      | .error fault => .error fault
      | .ok () => .ok (⟨inode, some dir.inode⟩, hardDisks)

/-- `get_ext2_inode` on a path. The copy of the path has no terminator if it does not fit
into `MAX_PATH` bytes, and `strrchr` gets NULL for a path of one component. `ptr` is the
last component, which ends the walk where a token starts at it. -/
def getExt2Inode (hardDisks : σ) (path : List UInt8) : Except Fault (FoundInode × σ) :=
  match parts.getDirEntry hardDisks diskNo partNoMap ext4RootIno with
  | .error fault => .error fault
  | .ok (result, hardDisks) =>
    if maxPath ≤ path.length then .error .outOfBounds
    else
      match strchr separator (path.drop 1) with
      | none => .error .nullDeref
      | some k =>
        let word := path.drop (k + 1)
        let ptr := (strrchr separator word).getD 0 + 1
        match walkComponents parts diskNo partNoMap
            ((strtok separator 1 (word.drop 1)).takeWhile fun t => t.1 ≠ ptr)
            ⟨hardDisks, result.table, result.readDirs.getD 0, false⟩ with
        | .error fault => .error fault
        | .ok (true, walk) => lookUpFile parts diskNo partNoMap (word.drop ptr) walk
        | .ok (false, walk) =>
          match freeExt2DirEntries walk.dirs walk.entryNum with
          | .error fault => .error fault
          | .ok () => .ok (⟨none, none⟩, walk.hardDisks)

end FileWalk

end Ext4tc.Plugin
