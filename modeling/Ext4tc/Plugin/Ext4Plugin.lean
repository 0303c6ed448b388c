import Ext4tc.Plugin.Devices
import Ext4tc.Plugin.Ext4PluginDescr

/-! # The search functions of the plugin

`FsFindFirst`, `FsFindNext` and `FsFindClose`. A handle keeps the place of its search,
the entries are in the one table of the plugin. The conversions between the code page of
the caller and UTF-8 are the system's and stay open, as does the content of the buffer
that the caller passes: what a call does not write keeps its value. -/

namespace Ext4tc.Plugin
open Ext4tc.Lib Ext4tc.Fs Ext4tc.DiskUtils

/-- `WIN32_FIND_DATA`, as far as it is written. -/
structure FindData where
  cFileName : List UInt8
  dwFileAttributes : Nat
  ftLastWriteTime : Nat × Nat
  nFileSizeLow : Nat
  nFileSizeHigh : Nat
  deriving DecidableEq

def fileAttributeDirectory : Nat := 0x10
def fileAttributeNormal : Nat := 0x80

/-- The high and the low word of the time that stands for none. -/
def noTime : Nat × Nat := (0xFFFFFFFF, 0xFFFFFFFE)

/-- The buffer after `memset`. -/
def FindData.zero : FindData := ⟨[], 0, (0, 0), 0, 0⟩

/-- `tLastFindStuct`: `root` where `searchhandle` is `INVALID_HANDLE_VALUE`. -/
structure LastFind where
  root : Bool
  diskNo : Nat
  partNoMap : Nat
  numLastEntry : Nat
  deriving DecidableEq

/-- What does not change while the plugin runs: its devices, the partitions behind them,
and the two directions of `MultibyteToMultibyte`. -/
structure PluginEnv (σ : Type) where
  initialized : Bool
  devices : Devices
  parts : Partitions σ
  toUtf8 : List UInt8 → List UInt8
  toAcp : List UInt8 → List UInt8

section Find

variable {σ : Type} (env : PluginEnv σ)

def returnFile (fd : FindData) (dir : Ext4DirEntry2) : FindData :=
  { fd with
    cFileName := env.toAcp dir.nameBytes
    dwFileAttributes :=
      if dir.fileType = ext4FtDir then fileAttributeDirectory else fileAttributeNormal
    ftLastWriteTime := noTime }

/-- The size fields, from the inode of an entry that is no directory, and `RETURN_FILE`. -/
def showEntry (descr : Ext4PluginDescr σ) (diskNo partNoMap : Nat) (fd : FindData)
    (dir : Ext4DirEntry2) :
    Except Fault (FindData × Ext4PluginDescr σ) :=
  if dir.fileType = ext4FtDir then .ok (returnFile env { fd with nFileSizeLow := 0 } dir, descr)
  else
    match env.parts.getExt4Inode descr.hardDisks diskNo partNoMap dir.inode with
    | .error fault => .error fault
    | .ok (none, _) => .error .nullDeref
    | .ok (some inode, hardDisks) =>
      .ok (returnFile env
        { fd with
          nFileSizeLow := inode.iSizeLo
          nFileSizeHigh :=
            if dir.fileType = ext4FtRegFile then inode.iSizeHigh else fd.nFileSizeHigh } dir,
        { descr with hardDisks })

/-- What `FsFindFirst` shows where there is no entry to show. -/
def showParent (fd : FindData) : FindData :=
  { fd with
    cFileName := [0x2e, 0x2e]
    dwFileAttributes := fileAttributeDirectory
    ftLastWriteTime := noTime }

/-- The branch of `FsFindFirst` for the list of partitions. -/
def findFirstRoot : Except Fault (Option LastFind × FindData) :=
  let fd :=
    { FindData.zero with dwFileAttributes := fileAttributeDirectory, ftLastWriteTime := noTime }
  match env.devices.getFirstExt4DiskAndPartNo with
  | none => .ok (none, fd)
  | some (diskNo, partNo) =>
    match env.devices.getPartitionIndexViaRealNumber diskNo partNo with
    | .error fault => .error fault
    | .ok partNoMap =>
      .ok (some ⟨true, diskNo, partNoMap, 0⟩,
        { fd with cFileName := Devices.displayName diskNo partNo })

/-- The branch of `FsFindFirst` for a directory. -/
def findFirstDir (descr : Ext4PluginDescr σ) (path : List UInt8) :
    Except Fault ((Option LastFind × FindData) × Ext4PluginDescr σ) :=
  match env.devices.extractDiskAndPartNo path with
  | none => .ok ((none, .zero), descr)
  | some (diskNo, partNo) =>
    match env.devices.getPartitionIndexViaRealNumber diskNo partNo with
    | .error fault => .error fault
    | .ok partNoMap =>
      match getFirstDirEntry env.parts diskNo partNoMap descr (env.toUtf8 path) with
      | .error fault => .error fault
      | .ok (first, descr) =>
        match first.dir with
        | none => .ok ((some ⟨false, diskNo, partNoMap, first.numEntry.getD 0⟩, showParent .zero),
            descr)
        | some dir =>
          match showEntry env descr diskNo partNoMap .zero dir with
          | .error fault => .error fault
          | .ok (fd, descr) => .ok ((some ⟨false, diskNo, partNoMap, first.numEntry.getD 0⟩, fd),
              descr)

/-- `FsFindFirst`; the handle is `none` for `INVALID_HANDLE_VALUE`. -/
def fsFindFirst (descr : Ext4PluginDescr σ) (path : List UInt8) (fd : FindData) :
    Except Fault ((Option LastFind × FindData) × Ext4PluginDescr σ) :=
  if !env.initialized || env.devices.idMap.isNone then .ok ((none, fd), descr)
  else if env.toUtf8 path = [separator] then (findFirstRoot env).map fun found => (found, descr)
  else findFirstDir env descr path

/-- `FsFindNext` on the list of partitions. -/
def findNextRoot (lf : LastFind) (fd : FindData) : Bool × LastFind × FindData :=
  match env.devices.getNextExt4DiskAndPartNo lf.diskNo lf.partNoMap with
  | none => (false, lf, fd)
  | some (diskNo, partNoMap) =>
    (true, { lf with diskNo, partNoMap },
      { fd with
        cFileName := Devices.displayName diskNo ((env.devices.disk diskNo).getD partNoMap 0) })

/-- `FsFindNext`: what it returns, the handle's struct afterwards, and the buffer. -/
def fsFindNext (descr : Ext4PluginDescr σ) (lf : LastFind) (fd : FindData) :
    Except Fault ((Bool × LastFind × FindData) × Ext4PluginDescr σ) :=
  if lf.root then .ok (findNextRoot env lf fd, descr)
  else
    match getNextDirEntry descr lf.numLastEntry with
    | .error fault => .error fault
    | .ok (none, numLastEntry) => .ok ((false, { lf with numLastEntry }, fd), descr)
    | .ok (some dir, numLastEntry) =>
      match showEntry env descr lf.diskNo lf.partNoMap fd dir with
      | .error fault => .error fault
      | .ok (fd, descr) => .ok ((true, { lf with numLastEntry }, fd), descr)

end Find

end Ext4tc.Plugin
