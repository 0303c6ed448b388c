import Ext4tc.Lib.Representation
import Ext4tc.Plugin.GetFile

/-! # The cache does not show

The plugin on mounted partitions, with their caches of inode tables, next to a plugin on
partitions that keep nothing and read their volume with every call. Each function of the
plugin on one side tracks itself on the other, so no reply of any session depends on what
is cached, on what was evicted, or on what was asked for before. -/

namespace Ext4tc.Plugin
open Ext4tc.Lib Ext4tc.Fs Ext4tc.DiskUtils

/-- Partitions that keep nothing. -/
def volumePartitions (vol : Nat → Nat → Volume) : Partitions Unit where
  getDirEntry _ diskNo partNoMap n := ((vol diskNo partNoMap).load n).map fun result => (result, ())
  getExt4Inode _ diskNo partNoMap n := ((vol diskNo partNoMap).inode n).map fun inode => (inode, ())

/-- The calls of two kinds of partitions track each other. -/
structure PartsTrack {σ τ : Type} (R : σ → τ → Prop) (parts : Partitions σ)
    (parts' : Partitions τ) : Prop where
  dir : ∀ s t, R s t → ∀ diskNo partNoMap n,
    Tracks R (parts.getDirEntry s diskNo partNoMap n) (parts'.getDirEntry t diskNo partNoMap n)
  inode : ∀ s t, R s t → ∀ diskNo partNoMap n,
    Tracks R (parts.getExt4Inode s diskNo partNoMap n) (parts'.getExt4Inode t diskNo partNoMap n)

theorem Answers.tracks {α σ : Type} {Inv : σ → Prop} {x : Except Fault (α × σ)}
    {r : Except Fault α} (h : Answers Inv x r) :
    Tracks (fun s (_ : Unit) => Inv s) x (r.map fun a => (a, ())) := by
  cases r with
  | error fault =>
    obtain rfl : x = .error fault := h
    exact .error fault
  | ok a =>
    obtain ⟨s, rfl, hs⟩ := h
    exact .ok hs

theorem Serves.tracks {σ : Type} {parts : Partitions σ} {Inv : σ → Prop}
    {vol : Nat → Nat → Volume} (h : Serves parts Inv vol) :
    PartsTrack (fun s (_ : Unit) => Inv s) parts (volumePartitions vol) where
  dir s _ hs diskNo partNoMap n := (h.dir s hs diskNo partNoMap n).tracks
  inode s _ hs diskNo partNoMap n := (h.inode s hs diskNo partNoMap n).tracks

/-- Two plugins with the same table, on disks that stand for the same. -/
structure SameTable {σ τ : Type} (R : σ → τ → Prop) (descr : Ext4PluginDescr σ)
    (descr' : Ext4PluginDescr τ) : Prop where
  disks : R descr.hardDisks descr'.hardDisks
  dirEntries : descr.dirEntries = descr'.dirEntries
  dirEntryNum : descr.dirEntryNum = descr'.dirEntryNum

/-! ## The walks -/

section Walks

variable {σ τ : Type} {R : σ → τ → Prop} {parts : Partitions σ} {parts' : Partitions τ}
  (hp : PartsTrack R parts parts') (diskNo partNoMap : Nat) {descr : Ext4PluginDescr σ}
  {descr' : Ext4PluginDescr τ}
include hp

theorem load_tracks (h : SameTable R descr descr') (n : Nat) :
    Tracks (SameTable R) (loadExt2DirEntry parts diskNo partNoMap descr n)
      (loadExt2DirEntry parts' diskNo partNoMap descr' n) := by
  rw [loadExt2DirEntry, loadExt2DirEntry, h.dirEntries, h.dirEntryNum]
  cases freeExt2DirEntries descr'.dirEntries descr'.dirEntryNum with
  | error fault => exact .error fault
  | ok _ =>
    obtain ⟨fault, hx, hy⟩ | ⟨result, s, t, hx, hy, hr⟩ := hp.dir _ _ h.disks diskNo partNoMap n
    · simp only [hx, hy]
      exact .error fault
    · simp only [hx, hy]
      exact .ok ⟨hr, rfl, rfl⟩

theorem enterComponents_tracks (words : List (Nat × List UInt8)) (h : SameTable R descr descr') :
    Tracks (SameTable R) (enterComponents parts diskNo partNoMap words descr)
      (enterComponents parts' diskNo partNoMap words descr') := by
  induction words generalizing descr descr' with
  | nil => exact .ok h
  | cons word words ih =>
    obtain ⟨start, word⟩ := word
    rw [enterComponents, enterComponents, h.dirEntries, h.dirEntryNum]
    split
    next fault _ => exact .error fault
    next => exact ih h
    next i dir _ =>
      obtain ⟨fault, hx, hy⟩ | ⟨loaded, d, d', hx, hy, hd⟩ :=
        load_tracks hp diskNo partNoMap h dir.inode
      · rw [hx, hy]
        exact .error fault
      · rw [hx, hy]
        cases loaded with
        | false => exact .ok hd
        | true => exact ih hd

theorem getFirstDirEntry_tracks (h : SameTable R descr descr') (path : List UInt8) :
    Tracks (SameTable R) (getFirstDirEntry parts diskNo partNoMap descr path)
      (getFirstDirEntry parts' diskNo partNoMap descr' path) := by
  rw [getFirstDirEntry, getFirstDirEntry]
  obtain ⟨fault, hx, hy⟩ | ⟨loaded, d, d', hx, hy, hd⟩ :=
    load_tracks hp diskNo partNoMap h ext4RootIno
  · rw [hx, hy]
    exact .error fault
  rw [hx, hy]
  cases loaded with
  | false => exact .ok hd
  | true =>
    simp only
    obtain ⟨fault, hx, hy⟩ | ⟨entered, d₂, d₂', hx, hy, hd₂⟩ :=
      enterComponents_tracks hp diskNo partNoMap (components path) hd
    · rw [hx, hy]
      exact .error fault
    rw [hx, hy]
    cases entered with
    | false => exact .ok hd₂
    | true =>
      simp only [firstListed, hd₂.dirEntries, hd₂.dirEntryNum]
      split
      next fault _ => exact .error fault
      next first _ => exact .ok hd₂

structure SameWalk (R : σ → τ → Prop) (walk : InodeWalk σ) (walk' : InodeWalk τ) : Prop where
  disks : R walk.hardDisks walk'.hardDisks
  dirs : walk.dirs = walk'.dirs
  entryNum : walk.entryNum = walk'.entryNum
  found : walk.found = walk'.found

theorem walkComponents_tracks (words : List (Nat × List UInt8)) {walk : InodeWalk σ}
    {walk' : InodeWalk τ} (h : SameWalk R walk walk') :
    Tracks (SameWalk R) (walkComponents parts diskNo partNoMap words walk)
      (walkComponents parts' diskNo partNoMap words walk') := by
  induction words generalizing walk walk' with
  | nil => exact .ok h
  | cons word words ih =>
    obtain ⟨start, word⟩ := word
    rw [walkComponents, walkComponents, h.dirs, h.entryNum, h.found]
    split
    next fault _ => exact .error fault
    next =>
      split
      next => exact ih h
      next => exact .ok h
    next i dir _ =>
      cases freeExt2DirEntries walk'.dirs walk'.entryNum with
      | error fault => exact .error fault
      | ok _ =>
        obtain ⟨fault, hx, hy⟩ | ⟨result, s, t, hx, hy, hr⟩ :=
          hp.dir _ _ h.disks diskNo partNoMap dir.inode
        · simp only [hx, hy]
          exact .error fault
        · simp only [hx, hy]
          exact ih ⟨hr, rfl, rfl, rfl⟩

theorem lookUpFile_tracks (word : List UInt8) {walk : InodeWalk σ} {walk' : InodeWalk τ}
    (h : SameWalk R walk walk') :
    Tracks R (lookUpFile parts diskNo partNoMap word walk)
      (lookUpFile parts' diskNo partNoMap word walk') := by
  rw [lookUpFile, lookUpFile, h.dirs, h.entryNum]
  split
  next fault _ => exact .error fault
  next =>
    cases freeExt2DirEntries walk'.dirs walk'.entryNum with
    | error fault => exact .error fault
    | ok _ => exact .ok h.disks
  next i dir _ =>
    obtain ⟨fault, hx, hy⟩ | ⟨inode, s, t, hx, hy, hr⟩ :=
      hp.inode _ _ h.disks diskNo partNoMap dir.inode
    · simp only [hx, hy]
      exact .error fault
    · simp only [hx, hy]
      cases freeExt2DirEntries walk'.dirs walk'.entryNum with
      | error fault => exact .error fault
      | ok _ => exact .ok hr

theorem getExt2Inode_tracks {s : σ} {t : τ} (h : R s t) (path : List UInt8) :
    Tracks R (getExt2Inode parts diskNo partNoMap s path)
      (getExt2Inode parts' diskNo partNoMap t path) := by
  rw [getExt2Inode, getExt2Inode]
  obtain ⟨fault, hx, hy⟩ | ⟨result, s', t', hx, hy, hr⟩ := hp.dir s t h diskNo partNoMap ext4RootIno
  · rw [hx, hy]
    exact .error fault
  rw [hx, hy]
  simp only
  split
  next => exact .error _
  next =>
    split
    next => exact .error _
    next k _ =>
      have hstart : SameWalk R ⟨s', result.table, result.readDirs.getD 0, false⟩
          ⟨t', result.table, result.readDirs.getD 0, false⟩ := ⟨hr, rfl, rfl, rfl⟩
      obtain ⟨fault, hx, hy⟩ | ⟨entered, w, w', hx, hy, hw⟩ :=
        walkComponents_tracks hp diskNo partNoMap
          ((strtok separator 1 ((path.drop (k + 1)).drop 1)).takeWhile fun t =>
            t.1 ≠ (strrchr separator (path.drop (k + 1))).getD 0 + 1) hstart
      · rw [hx, hy]
        exact .error fault
      rw [hx, hy]
      cases entered with
      | true => exact lookUpFile_tracks hp diskNo partNoMap _ hw
      | false =>
        simp only [hw.dirs, hw.entryNum]
        cases freeExt2DirEntries w'.dirs w'.entryNum with
        | error fault => exact .error fault
        | ok _ => exact .ok hw.disks

end Walks

/-! ## The functions of the plugin -/

def PluginEnv.on {σ τ : Type} (env : PluginEnv σ) (parts' : Partitions τ) : PluginEnv τ :=
  ⟨env.initialized, env.devices, parts', env.toUtf8, env.toAcp⟩

section On

variable {σ τ : Type} (env : PluginEnv σ) (parts' : Partitions τ)

@[simp] theorem PluginEnv.on_initialized : (env.on parts').initialized = env.initialized := rfl
@[simp] theorem PluginEnv.on_devices : (env.on parts').devices = env.devices := rfl
@[simp] theorem PluginEnv.on_parts : (env.on parts').parts = parts' := rfl
@[simp] theorem PluginEnv.on_toUtf8 : (env.on parts').toUtf8 = env.toUtf8 := rfl

theorem findFirstRoot_on : findFirstRoot (env.on parts') = findFirstRoot env := rfl

end On

section Functions

variable {σ τ : Type} {R : σ → τ → Prop} {env : PluginEnv σ} {parts' : Partitions τ}
  (hp : PartsTrack R env.parts parts') {descr : Ext4PluginDescr σ} {descr' : Ext4PluginDescr τ}
include hp

theorem showEntry_tracks (h : SameTable R descr descr') (diskNo partNoMap : Nat) (fd : FindData)
    (dir : Ext4DirEntry2) :
    Tracks (SameTable R) (showEntry env descr diskNo partNoMap fd dir)
      (showEntry (env.on parts') descr' diskNo partNoMap fd dir) := by
  unfold showEntry
  split
  next => exact .ok h
  next =>
    obtain ⟨fault, hx, hy⟩ | ⟨inode, s, t, hx, hy, hr⟩ :=
      hp.inode _ _ h.disks diskNo partNoMap dir.inode
    · rw [PluginEnv.on_parts, hx, hy]
      exact .error fault
    · rw [PluginEnv.on_parts, hx, hy]
      cases inode with
      | none => exact .error _
      | some inode => exact .ok ⟨hr, h.dirEntries, h.dirEntryNum⟩

theorem findFirstDir_tracks (h : SameTable R descr descr') (path : List UInt8) :
    Tracks (SameTable R) (findFirstDir env descr path)
      (findFirstDir (env.on parts') descr' path) := by
  unfold findFirstDir
  rw [PluginEnv.on_devices, PluginEnv.on_parts, PluginEnv.on_toUtf8]
  split
  next => exact .ok h
  next diskNo partNo _ =>
    split
    next fault _ => exact .error fault
    next partNoMap _ =>
      obtain ⟨fault, hx, hy⟩ | ⟨first, d, d', hx, hy, hd⟩ :=
        getFirstDirEntry_tracks hp diskNo partNoMap h (env.toUtf8 path)
      · rw [hx, hy]
        exact .error fault
      rw [hx, hy]
      simp only
      split
      next => exact .ok hd
      next dir _ =>
        obtain ⟨fault, hx, hy⟩ | ⟨fd, d₂, d₂', hx, hy, hd₂⟩ :=
          showEntry_tracks hp hd diskNo partNoMap .zero dir
        · rw [hx, hy]
          exact .error fault
        · rw [hx, hy]
          exact .ok hd₂

theorem fsFindFirst_tracks (h : SameTable R descr descr') (path : List UInt8) (fd : FindData) :
    Tracks (SameTable R) (fsFindFirst env descr path fd)
      (fsFindFirst (env.on parts') descr' path fd) := by
  unfold fsFindFirst
  rw [PluginEnv.on_initialized, PluginEnv.on_devices, PluginEnv.on_toUtf8, findFirstRoot_on]
  split
  next => exact .ok h
  next =>
    split
    next =>
      cases findFirstRoot env with
      | error fault => exact .error fault
      | ok found => exact .ok h
    next => exact findFirstDir_tracks hp h path

theorem fsFindNext_tracks (h : SameTable R descr descr') (lf : LastFind) (fd : FindData) :
    Tracks (SameTable R) (fsFindNext env descr lf fd)
      (fsFindNext (env.on parts') descr' lf fd) := by
  unfold fsFindNext
  split
  next => exact .ok h
  next =>
    have hnext :
        getNextDirEntry descr lf.numLastEntry = getNextDirEntry descr' lf.numLastEntry := by
      rw [getNextDirEntry, getNextDirEntry, h.dirEntries, h.dirEntryNum]
    rw [hnext]
    split
    next fault _ => exact .error fault
    next => exact .ok h
    next dir numLastEntry _ =>
      obtain ⟨fault, hx, hy⟩ | ⟨fd', d, d', hx, hy, hd⟩ :=
        showEntry_tracks hp h lf.diskNo lf.partNoMap fd dir
      · rw [hx, hy]
        exact .error fault
      · rw [hx, hy]
        exact .ok hd

theorem fsGetFile_tracks {s : σ} {t : τ} (h : R s t) (createOk : Bool) (remoteName : List UInt8) :
    Tracks R (fsGetFile env createOk s remoteName)
      (fsGetFile (env.on parts') createOk t remoteName) := by
  unfold fsGetFile
  rw [PluginEnv.on_devices, PluginEnv.on_parts, PluginEnv.on_toUtf8]
  split
  next => exact .ok h
  next diskNo partNo _ =>
    split
    next fault _ => exact .error fault
    next partNoMap _ =>
      exact (getExt2Inode_tracks hp diskNo partNoMap h _).map fun _ _ _ hr => ⟨rfl, hr⟩

end Functions

/-! ## Sessions -/

/-- A call of a search, or of `FsGetFile` up to its thread. -/
inductive PluginCall where
  | search (call : SearchCall)
  | getFile (c : Nat) (createOk : Bool) (remoteName : List UInt8)

def PluginCall.who : PluginCall → Nat
  | search call => call.who
  | getFile c _ _ => c

inductive PluginReply where
  | search (reply : SearchReply)
  | getFile (out : GetFile)

section Session

variable {σ : Type} (env : PluginEnv σ)

/-- `FsGetFile` uses the disks of the plugin, and none of its table. -/
def SearchState.pluginCall (s : SearchState σ) :
    PluginCall → Except Fault (PluginReply × SearchState σ)
  | .search call => (s.call env call).map fun (reply, s) => (.search reply, s)
  | .getFile _ createOk remoteName =>
    (fsGetFile env createOk s.descr.hardDisks remoteName).map fun (out, hardDisks) =>
      (.getFile out, { s with descr := { s.descr with hardDisks } })

def pluginSystem : ClientSystem (SearchState σ) Nat PluginCall PluginReply Fault :=
  ⟨PluginCall.who, SearchState.pluginCall env⟩

end Session

/-- The same handles and tables, on disks that stand for the same. -/
structure SameSession {σ τ : Type} (R : σ → τ → Prop) (s : SearchState σ) (t : SearchState τ) :
    Prop where
  descr : SameTable R s.descr t.descr
  handles : s.handles = t.handles
  left : s.left = t.left

section Sessions

variable {σ τ : Type} {R : σ → τ → Prop} {env : PluginEnv σ} {parts' : Partitions τ}
  (hp : PartsTrack R env.parts parts') {s : SearchState σ} {t : SearchState τ}
include hp

theorem searchCall_tracks (h : SameSession R s t) (call : SearchCall) :
    Tracks (SameSession R) (s.call env call) (t.call (env.on parts') call) := by
  cases call with
  | findFirst c path fd =>
    rw [SearchState.call, SearchState.call]
    obtain ⟨fault, hx, hy⟩ | ⟨found, d, d', hx, hy, hd⟩ := fsFindFirst_tracks hp h.descr path fd
    · rw [hx, hy]
      exact .error fault
    · rw [hx, hy]
      exact .ok ⟨hd, by rw [h.handles], by rw [h.left, hd.dirEntries]⟩
  | findNext c fd =>
    rw [SearchState.call, SearchState.call, h.handles]
    split
    next => exact .error _
    next lf _ =>
      obtain ⟨fault, hx, hy⟩ | ⟨found, d, d', hx, hy, hd⟩ := fsFindNext_tracks hp h.descr lf fd
      · rw [hx, hy]
        exact .error fault
      · rw [hx, hy]
        exact .ok ⟨hd, rfl, h.left⟩
  | findClose c => exact .ok ⟨h.descr, by rw [h.handles], h.left⟩

theorem pluginCall_tracks (h : SameSession R s t) (call : PluginCall) :
    Tracks (SameSession R) (s.pluginCall env call) (t.pluginCall (env.on parts') call) := by
  cases call with
  | search call => exact (searchCall_tracks hp h call).map fun _ _ _ hr => ⟨rfl, hr⟩
  | getFile c createOk remoteName =>
    exact (fsGetFile_tracks hp h.descr.disks createOk remoteName).map fun _ _ _ hr =>
      ⟨rfl, ⟨hr, h.descr.dirEntries, h.descr.dirEntryNum⟩, h.handles, h.left⟩

end Sessions

/-- The state of a plugin whose partitions keep nothing. -/
def SearchState.uncached {σ : Type} (s : SearchState σ) : SearchState Unit :=
  ⟨⟨(), s.descr.dirEntries, s.descr.dirEntryNum⟩, s.handles, s.left⟩

section Uncached

variable {mounts : Nat → Nat → Option Mount}

theorem SearchState.same_uncached {s : SearchState LinuxDisks}
    (hd : Mounted mounts s.descr.hardDisks) :
    SameSession (fun disks (_ : Unit) => Mounted mounts disks) s s.uncached :=
  ⟨⟨hd, rfl, rfl⟩, rfl, rfl⟩

/-- A call on mounted partitions is the same call on what their devices say. -/
theorem uncached_step {diskEnv : DiskEnv} {env : PluginEnv LinuxDisks}
    (hparts : env.parts = linuxPartitions diskEnv) (hok : ∀ n, (diskEnv.dir n).inodeOk = true)
    {s : SearchState LinuxDisks} {t : SearchState Unit} (call : PluginCall)
    (h : SameSession (fun disks (_ : Unit) => Mounted mounts disks) s t) :
    Tracks (SameSession fun disks (_ : Unit) => Mounted mounts disks)
      ((pluginSystem env).step s call)
      ((pluginSystem (env.on (volumePartitions (linuxVolume mounts diskEnv)))).step t call) := by
  have hp := (linuxPartitions_serve mounts hok).tracks
  rw [← hparts] at hp
  exact pluginCall_tracks hp h call

end Uncached

/-- **No session can tell the caches from reading the device every time**: whatever is in
them at the start, and however the calls of searches and of `FsGetFile` follow each other. -/
theorem cache_does_not_show {mounts : Nat → Nat → Option Mount} {diskEnv : DiskEnv}
    {env : PluginEnv LinuxDisks} (hparts : env.parts = linuxPartitions diskEnv)
    (hok : ∀ n, (diskEnv.dir n).inodeOk = true) {s : SearchState LinuxDisks}
    (hd : Mounted mounts s.descr.hardDisks) (calls : List PluginCall) :
    (pluginSystem env).run s calls =
      (pluginSystem (env.on (volumePartitions (linuxVolume mounts diskEnv)))).run s.uncached
        calls := by
  exact ClientSystem.run_eq_of_tracks
    (R := SameSession fun disks (_ : Unit) => Mounted mounts disks) rfl
    (fun _ _ call h => uncached_step hparts hok call h) (SearchState.same_uncached hd) calls

/-- Searches that go from one directory to another, and the file between them. -/
theorem cache_does_not_show_tree :
    (pluginSystem treePlugin).run treeSearch
        (treeCalls.map .search ++ [.getFile 0 true (devPath sda1 [[0x61], [0x67]])]) =
      (pluginSystem (treePlugin.on (volumePartitions (linuxVolume treeMounts treeEnv)))).run
        treeSearch.uncached
        (treeCalls.map .search ++ [.getFile 0 true (devPath sda1 [[0x61], [0x67]])]) :=
  cache_does_not_show rfl (fun _ => rfl) treeDisks_mounted _

end Ext4tc.Plugin
