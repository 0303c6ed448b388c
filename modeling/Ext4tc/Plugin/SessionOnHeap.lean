import Ext4tc.Plugin.TablesOnHeap
import Ext4tc.Plugin.Transparency

/-! # Sessions on the heap

The functions of the plugin on a heap: what they show is behind pointers into the table that
the last load has left. No session follows a pointer to what was deleted, or deletes
anything twice, unless the session without a heap fails in the same way; and what is on the
heap between its calls is the table of the plugin, and one entry for each directory read
that gave up behind a record. -/

namespace Ext4tc.Plugin
open Ext4tc.Lib Ext4tc.Fs Ext4tc.DiskUtils
open Ext4tc.DiskUtils.OnHeap (derefEntry Held)

/-- The plugin and the handles of its clients. -/
structure HeapSession (σ : Type) where
  descr : HeapTable σ
  handles : Nat → Option LastFind

namespace OnHeap

/-! ## The code -/

section Code

variable {σ : Type} (env : PluginEnv σ) (read : HeapReader σ)

/-- The size fields, and `RETURN_FILE`, on the entry behind the pointer. -/
def showEntry (descr : HeapTable σ) (diskNo partNoMap : Nat) (fd : FindData) (ptr : Nat) :
    Except Fault (FindData × HeapTable σ) :=
  match derefEntry descr.heap ptr with
  | .error fault => .error fault
  | .ok dir =>
    if dir.fileType = ext4FtDir then .ok (returnFile env { fd with nFileSizeLow := 0 } dir, descr)
    else
      match env.parts.getExt4Inode descr.hardDisks diskNo partNoMap dir.inode with
      | .error fault => .error fault
      | .ok (none, _) => .error .nullDeref
      | .ok (some inode, hardDisks) =>
        .ok (returnFile env
          { fd with
            nFileSizeLow := inode.iSizeLo
            nFileSizeHigh :=
              if dir.fileType = ext4FtRegFile then inode.iSizeHigh else fd.nFileSizeHigh } dir,
          { descr with hardDisks })

/-- The branch of `FsFindFirst` for a directory. -/
def findFirstDir (descr : HeapTable σ) (path : List UInt8) :
    Except Fault ((Option LastFind × FindData) × HeapTable σ) :=
  match env.devices.extractDiskAndPartNo path with
  | none => .ok ((none, .zero), descr)
  | some (diskNo, partNo) =>
    match env.devices.getPartitionIndexViaRealNumber diskNo partNo with
    | .error fault => .error fault
    | .ok partNoMap =>
      match getFirstDirEntry read diskNo partNoMap descr (env.toUtf8 path) with
      | .error fault => .error fault
      | .ok (first, descr) =>
        match first.dir with
        | none => .ok ((some ⟨false, diskNo, partNoMap, first.numEntry.getD 0⟩, showParent .zero),
            descr)
        | some ptr =>
          match showEntry env descr diskNo partNoMap .zero ptr with
          | .error fault => .error fault
          | .ok (fd, descr) => .ok ((some ⟨false, diskNo, partNoMap, first.numEntry.getD 0⟩, fd),
              descr)

def fsFindFirst (descr : HeapTable σ) (path : List UInt8) (fd : FindData) :
    Except Fault ((Option LastFind × FindData) × HeapTable σ) :=
  if !env.initialized || env.devices.idMap.isNone then .ok ((none, fd), descr)
  else if env.toUtf8 path = [separator] then (findFirstRoot env).map fun found => (found, descr)
  else findFirstDir env read descr path

def fsFindNext (descr : HeapTable σ) (lf : LastFind) (fd : FindData) :
    Except Fault ((Bool × LastFind × FindData) × HeapTable σ) :=
  if lf.root then .ok (findNextRoot env lf fd, descr)
  else
    match getNextDirEntry descr lf.numLastEntry with
    | .error fault => .error fault
    | .ok (none, numLastEntry) => .ok ((false, { lf with numLastEntry }, fd), descr)
    | .ok (some ptr, numLastEntry) =>
      match showEntry env descr lf.diskNo lf.partNoMap fd ptr with
      | .error fault => .error fault
      | .ok (fd, descr) => .ok ((true, { lf with numLastEntry }, fd), descr)

/-- `FsGetFile` up to `CreateThread`. -/
def fsGetFile (createOk : Bool) (hardDisks : σ) (heap : DirHeap) (remoteName : List UInt8) :
    Except Fault (GetFile × (σ × DirHeap)) :=
  match env.devices.extractDiskAndPartNo remoteName with
  | none => .ok (.notFound, (hardDisks, heap))
  | some (diskNo, partNo) =>
    match env.devices.getPartitionIndexViaRealNumber diskNo partNo with
    | .error fault => .error fault
    | .ok partNoMap =>
      (getExt2Inode read diskNo partNoMap env.parts hardDisks heap (env.toUtf8 remoteName)).map
        fun (found, s) => (.ofFound createOk diskNo partNoMap found, s)

def searchCall (s : HeapSession σ) : SearchCall → Except Fault (SearchReply × HeapSession σ)
  | .findFirst c path fd =>
    match fsFindFirst env read s.descr path fd with
    | .error fault => .error fault
    | .ok ((handle, fd), descr) =>
      .ok (.first handle.isSome fd, ⟨descr, Function.update s.handles c handle⟩)
  | .findNext c fd =>
    match s.handles c with
    | none => .error .outOfBounds
    | some lf =>
      match fsFindNext env s.descr lf fd with
      | .error fault => .error fault
      | .ok ((more, lf, fd), descr) =>
        .ok (.next more fd, ⟨descr, Function.update s.handles c (some lf)⟩)
  | .findClose c => .ok (.closed, { s with handles := Function.update s.handles c none })

def pluginCall (s : HeapSession σ) : PluginCall → Except Fault (PluginReply × HeapSession σ)
  | .search call => (searchCall env read s call).map fun (reply, s) => (.search reply, s)
  | .getFile _ createOk remoteName =>
    (fsGetFile env read createOk s.descr.hardDisks s.descr.heap remoteName).map
      fun (out, (hardDisks, heap)) =>
        (.getFile out, { s with descr := { s.descr with hardDisks, heap } })

end Code

end OnHeap

def heapSystem {σ : Type} (env : PluginEnv σ) (read : HeapReader σ) :
    ClientSystem (HeapSession σ) Nat PluginCall PluginReply Fault :=
  ⟨PluginCall.who, OnHeap.pluginCall env read⟩

def SearchState.start {σ : Type} (disks : σ) : SearchState σ :=
  ⟨⟨disks, none, 0⟩, fun _ => none, fun _ => none⟩

def HeapSession.start {σ : Type} (disks : σ) : HeapSession σ :=
  ⟨⟨disks, .empty, none, 0⟩, fun _ => none⟩

namespace OnHeap

/-! ## The functions -/

/-- The plugin and its handles, next to those whose tables are values. -/
structure SessionStands {σ : Type} (s : HeapSession σ) (t : SearchState (σ × Nat)) : Prop where
  descr : Stands 0 s.descr t.descr
  handles : s.handles = t.handles

section Functions

variable {σ : Type} {env : PluginEnv σ} {read : HeapReader σ}
  {lost : σ → (diskNo partNoMap inodeNr : Nat) → Nat} {s : HeapTable σ}
  {t : Ext4PluginDescr (σ × Nat)}

theorem showEntry_onHeap (h : Stands 0 s t) (diskNo partNoMap : Nat) (fd : FindData) {ptr : Nat}
    {dir : Ext4DirEntry2} (hdir : derefEntry s.heap ptr = .ok dir) :
    Tracks (Stands 0) (showEntry env s diskNo partNoMap fd ptr)
      (Plugin.showEntry (env.on (env.parts.counting lost)) t diskNo partNoMap fd dir) := by
  unfold showEntry Plugin.showEntry
  simp only [hdir, PluginEnv.on_parts, Partitions.counting_getExt4Inode, h.disks]
  split
  next => exact .ok h
  next =>
    cases env.parts.getExt4Inode t.hardDisks.1 diskNo partNoMap dir.inode with
    | error fault => exact .error fault
    | ok out =>
      obtain ⟨_ | inode, disks⟩ := out
      · exact .error _
      · exact .ok ⟨rfl, h.num, h.sized, h.held⟩

variable (hr : ReadsOnHeap read env.parts lost)
include hr

theorem findFirstDir_onHeap (h : Stands 0 s t) (path : List UInt8) :
    Tracks (Stands 0) (findFirstDir env read s path)
      (Plugin.findFirstDir (env.on (env.parts.counting lost)) t path) := by
  unfold findFirstDir Plugin.findFirstDir
  rw [PluginEnv.on_devices, PluginEnv.on_parts, PluginEnv.on_toUtf8]
  cases env.devices.extractDiskAndPartNo path with
  | none => exact .ok h
  | some place =>
    obtain ⟨diskNo, partNo⟩ := place
    simp only
    cases env.devices.getPartitionIndexViaRealNumber diskNo partNo with
    | error fault => exact .error fault
    | ok partNoMap =>
      simp only
      obtain ⟨fault, hx, hy⟩ | ⟨⟨first, s'⟩, ⟨first', t'⟩, hx, hy, hdir, hnum, h'⟩ :=
        getFirstDirEntry_onHeap hr diskNo partNoMap h (env.toUtf8 path)
      · rw [hx, hy]
        exact .error fault
      rw [hx, hy]
      obtain ⟨ptr, num⟩ := first
      obtain ⟨dir, num'⟩ := first'
      obtain rfl : num = num' := hnum
      cases hdir with
      | null => exact .ok h'
      | entry hentry =>
        simp only
        obtain ⟨fault, hx, hy⟩ | ⟨fd, s₂, t₂, hx, hy, h₂⟩ :=
          @showEntry_onHeap σ env lost _ _ h' diskNo partNoMap .zero _ _ hentry
        · rw [hx, hy]
          exact .error fault
        · rw [hx, hy]
          exact .ok h₂

theorem fsFindFirst_onHeap (h : Stands 0 s t) (path : List UInt8) (fd : FindData) :
    Tracks (Stands 0) (fsFindFirst env read s path fd)
      (Plugin.fsFindFirst (env.on (env.parts.counting lost)) t path fd) := by
  unfold fsFindFirst Plugin.fsFindFirst
  rw [PluginEnv.on_initialized, PluginEnv.on_devices, PluginEnv.on_toUtf8, findFirstRoot_on]
  split
  next => exact .ok h
  next =>
    split
    next =>
      cases findFirstRoot env with
      | error fault => exact .error fault
      | ok found => exact .ok h
    next => exact findFirstDir_onHeap hr h path

omit hr in
theorem fsFindNext_onHeap (h : Stands 0 s t) (lf : LastFind) (fd : FindData) :
    Tracks (Stands 0) (fsFindNext env s lf fd)
      (Plugin.fsFindNext (env.on (env.parts.counting lost)) t lf fd) := by
  unfold fsFindNext Plugin.fsFindNext
  split
  next => exact .ok h
  next =>
    obtain ⟨fault, hx, hy⟩ | ⟨⟨ptr, num⟩, ⟨dir, num'⟩, hx, hy, hdir, hnum⟩ :=
      h.getNextDirEntry lf.numLastEntry
    · rw [hx, hy]
      exact .error fault
    rw [hx, hy]
    obtain rfl : num = num' := hnum
    cases hdir with
    | null => exact .ok h
    | entry hentry =>
      simp only
      obtain ⟨fault, hx, hy⟩ | ⟨fd', s', t', hx, hy, h'⟩ :=
        @showEntry_onHeap σ env lost _ _ h lf.diskNo lf.partNoMap fd _ _ hentry
      · rw [hx, hy]
        exact .error fault
      · rw [hx, hy]
        exact .ok h'

theorem fsGetFile_onHeap {frame : Multiset (Nat × DirObject)} {disks : σ} {heap : DirHeap}
    {d : σ × Nat} (h : Cleared frame (disks, heap) d) (createOk : Bool) (remoteName : List UInt8) :
    Tracks (Cleared frame) (fsGetFile env read createOk disks heap remoteName)
      (Plugin.fsGetFile (env.on (env.parts.counting lost)) createOk d remoteName) := by
  unfold fsGetFile Plugin.fsGetFile
  rw [PluginEnv.on_devices, PluginEnv.on_parts, PluginEnv.on_toUtf8]
  cases env.devices.extractDiskAndPartNo remoteName with
  | none => exact .ok h
  | some place =>
    obtain ⟨diskNo, partNo⟩ := place
    simp only
    cases env.devices.getPartitionIndexViaRealNumber diskNo partNo with
    | error fault => exact .error fault
    | ok partNoMap =>
      exact (getExt2Inode_onHeap hr diskNo partNoMap h _).map fun _ _ _ hc => ⟨rfl, hc⟩

/-! ## Sessions -/

theorem searchCall_onHeap {s : HeapSession σ} {t : SearchState (σ × Nat)}
    (h : SessionStands s t) (call : SearchCall) :
    Tracks SessionStands (searchCall env read s call)
      (t.call (env.on (env.parts.counting lost)) call) := by
  cases call with
  | findFirst c path fd =>
    rw [searchCall, SearchState.call]
    obtain ⟨fault, hx, hy⟩ | ⟨found, s', t', hx, hy, h'⟩ := fsFindFirst_onHeap hr h.descr path fd
    · rw [hx, hy]
      exact .error fault
    · rw [hx, hy]
      exact .ok ⟨h', by rw [h.handles]⟩
  | findNext c fd =>
    rw [searchCall, SearchState.call, h.handles]
    cases t.handles c with
    | none => exact .error _
    | some lf =>
      simp only
      obtain ⟨fault, hx, hy⟩ | ⟨found, s', t', hx, hy, h'⟩ :=
        @fsFindNext_onHeap σ env lost _ _ h.descr lf fd
      · rw [hx, hy]
        exact .error fault
      · rw [hx, hy]
        exact .ok ⟨h', rfl⟩
  | findClose c => exact .ok ⟨h.descr, by rw [h.handles]⟩

/-- `FsGetFile` is called while the table of the plugin stays where it is. -/
theorem pluginCall_onHeap {s : HeapSession σ} {t : SearchState (σ × Nat)}
    (h : SessionStands s t) (call : PluginCall) :
    Tracks SessionStands (pluginCall env read s call)
      (t.pluginCall (env.on (env.parts.counting lost)) call) := by
  cases call with
  | search call => exact (searchCall_onHeap hr h call).map fun _ _ _ h' => ⟨rfl, h'⟩
  | getFile c createOk remoteName =>
    obtain ⟨objs, gone, hpoints, hgone, hh⟩ := h.descr.held
    rw [Multiset.add_zero, Multiset.add_comm] at hh
    have hclear : Cleared objs (s.descr.hardDisks, s.descr.heap) t.descr.hardDisks :=
      ⟨h.descr.disks, gone, hgone, hh⟩
    refine (fsGetFile_onHeap hr hclear createOk remoteName).map fun _ s' d' hc => ⟨rfl, ?_⟩
    obtain ⟨gone', hgone', hh'⟩ := hc.held
    refine ⟨⟨hc.disks, h.descr.num, h.descr.sized, objs, gone', hpoints, hgone', ?_⟩, h.handles⟩
    rwa [Multiset.add_zero, Multiset.add_comm]

end Functions

end OnHeap

/-! ## Partitions -/

/-- The directory reads of the partitions, on the heap. -/
def linuxReader (env : DiskEnv) : HeapReader LinuxDisks := fun disks diskNo partNoMap n h =>
  onPartition disks diskNo partNoMap fun part =>
    DiskUtils.OnHeap.getDirEntry (env.dir n) part n (env.nrBlk n) h

def lostByRead (env : DiskEnv) (disks : LinuxDisks) (diskNo partNoMap n : Nat) : Nat :=
  match disks diskNo partNoMap with
  | none => 0
  | some part => part.lostEntries (env.dir n) n (env.nrBlk n)

section Partitions

variable (env : DiskEnv)

theorem lostByRead_eq_zero (hread : ∀ n i, (env.dir n).readOk i = true) (disks : LinuxDisks)
    (diskNo partNoMap n : Nat) : lostByRead env disks diskNo partNoMap n = 0 := by
  unfold lostByRead
  cases disks diskNo partNoMap with
  | none => rfl
  | some part => exact part.lostEntries_eq_zero (hread n) n (env.nrBlk n)

theorem readDirectory_counted {n : Nat} {part part' : PartitionLinuxExt2}
    {dirs : List Ext4DirEntry2} {num : Option Nat}
    (h : readDirectory env n part = .ok (⟨some dirs, num⟩, part')) : num = some dirs.length := by
  rw [readDirectory] at h
  obtain ⟨result, hresult, heq⟩ := exists_of_map_ok h
  obtain rfl : result = ⟨some dirs, num⟩ := congrArg Prod.fst heq
  split at hresult
  next => cases hresult
  next => cases hresult
  next =>
    split at hresult
    next => cases hresult
    next =>
      split at hresult
      next => cases hresult
      next => cases hresult
      next => exact readDir_counted hresult

theorem onPartition_both {α β : Type} {Q : α → β → Prop} {disks : LinuxDisks}
    {diskNo partNoMap : Nat} {call : PartitionLinuxExt2 → Except Fault (α × PartitionLinuxExt2)}
    {call' : PartitionLinuxExt2 → Except Fault (β × PartitionLinuxExt2)}
    (h : ∀ part, disks diskNo partNoMap = some part →
      Both (fun out out' => out.2 = out'.2 ∧ Q out.1 out'.1) (call part) (call' part)) :
    Both (fun out out' => out.2 = out'.2 ∧ Q out.1 out'.1)
      (onPartition disks diskNo partNoMap call) (onPartition disks diskNo partNoMap call') := by
  unfold onPartition
  cases hpart : disks diskNo partNoMap with
  | none => exact .error _
  | some part =>
    obtain ⟨fault, hx, hy⟩ | ⟨⟨a, part'⟩, ⟨b, part''⟩, hx, hy, hsame, hq⟩ := h part hpart
    · simp only [hx, hy]
      exact .error fault
    · simp only [hx, hy]
      obtain rfl : part' = part'' := hsame
      exact .ok ⟨rfl, hq⟩

theorem linuxReader_onHeap :
    ReadsOnHeap (linuxReader env) (linuxPartitions env) (lostByRead env) where
  dir disks diskNo partNoMap n h frame hh := by
    refine onPartition_both fun part hpart => ?_
    rw [lostByRead, hpart]
    exact DiskUtils.OnHeap.getDirEntry_held (env.dir n) part n (env.nrBlk n) hh
  counted disks diskNo partNoMap n dirs num disks' h := by
    have hcall : onPartition disks diskNo partNoMap (readDirectory env n) =
      .ok (⟨some dirs, num⟩, disks') := h
    unfold onPartition at hcall
    split at hcall
    next => cases hcall
    next part _ =>
      obtain ⟨⟨result, part'⟩, hread, heq⟩ := exists_of_map_ok hcall
      obtain rfl : result = ⟨some dirs, num⟩ := congrArg Prod.fst heq
      exact readDirectory_counted env hread

end Partitions

theorem counting_tracks {σ : Type} (parts : Partitions σ)
    (lost : σ → (diskNo partNoMap inodeNr : Nat) → Nat) :
    PartsTrack (fun s t => s.1 = t) (parts.counting lost) parts where
  dir s t h diskNo partNoMap n := by
    subst h
    rw [Partitions.counting_getDirEntry]
    cases parts.getDirEntry s.1 diskNo partNoMap n with
    | error fault => exact .error fault
    | ok out => exact .ok rfl
  inode s t h diskNo partNoMap n := by
    subst h
    rw [Partitions.counting_getExt4Inode]
    cases parts.getExt4Inode s.1 diskNo partNoMap n with
    | error fault => exact .error fault
    | ok out => exact .ok rfl

theorem counting_zero_tracks {σ : Type} (parts : Partitions σ)
    {lost : σ → (diskNo partNoMap inodeNr : Nat) → Nat} (hlost : ∀ s d p n, lost s d p n = 0) :
    PartsTrack (fun s t => s.1 = t ∧ s.2 = 0) (parts.counting lost) parts where
  dir s t h diskNo partNoMap n := by
    obtain ⟨rfl, hzero⟩ := h
    rw [Partitions.counting_getDirEntry, hlost, hzero]
    cases parts.getDirEntry s.1 diskNo partNoMap n with
    | error fault => exact .error fault
    | ok out => exact .ok ⟨rfl, rfl⟩
  inode s t h diskNo partNoMap n := by
    obtain ⟨rfl, hzero⟩ := h
    rw [Partitions.counting_getExt4Inode, hzero]
    cases parts.getExt4Inode s.1 diskNo partNoMap n with
    | error fault => exact .error fault
    | ok out => exact .ok ⟨rfl, rfl⟩

section Sessions

variable {env : PluginEnv LinuxDisks} {diskEnv : DiskEnv}
  (hparts : env.parts = linuxPartitions diskEnv) (disks : LinuxDisks) (calls : List PluginCall)
include hparts

/-- The plugin with partitions that count what they lose. -/
def countingEnv (env : PluginEnv LinuxDisks) (diskEnv : DiskEnv) : PluginEnv (LinuxDisks × Nat) :=
  env.on (env.parts.counting (lostByRead diskEnv))

theorem onHeap_step (s : HeapSession LinuxDisks) (t : SearchState (LinuxDisks × Nat))
    (call : PluginCall) (h : OnHeap.SessionStands s t) :
    Tracks OnHeap.SessionStands ((heapSystem env (linuxReader diskEnv)).step s call)
      ((pluginSystem (countingEnv env diskEnv)).step t call) :=
  OnHeap.pluginCall_onHeap (hparts ▸ linuxReader_onHeap diskEnv) h call

omit hparts in
theorem onHeap_start :
    OnHeap.SessionStands (HeapSession.start disks) (SearchState.start (disks, 0)) :=
  ⟨⟨rfl, rfl, nofun, 0, 0, .null, DiskUtils.OnHeap.lost_zero, ObjectHeap.holds_empty⟩, rfl⟩

omit hparts in
/-- The count is the same in every session of the plugin, and it does not show. -/
theorem counting_step {R : LinuxDisks × Nat → LinuxDisks → Prop}
    (hp : PartsTrack R (env.parts.counting (lostByRead diskEnv)) env.parts)
    (s : SearchState (LinuxDisks × Nat)) (t : SearchState LinuxDisks) (call : PluginCall)
    (h : SameSession R s t) :
    Tracks (SameSession R) ((pluginSystem (countingEnv env diskEnv)).step s call)
      ((pluginSystem env).step t call) :=
  @pluginCall_tracks _ _ R (countingEnv env diskEnv) env.parts hp s t h call

/-- **What a session of the plugin owns.** On the heap it has the replies and the failures of
the session without one: no pointer is followed to what was deleted, and nothing is deleted
twice. Wherever its calls lead, the heap holds the table of the plugin and the entries that
the directory reads lost, and nothing else; nothing is lost where all blocks can be read. -/
theorem session_owns_its_tables :
    (heapSystem env (linuxReader diskEnv)).run (.start disks) calls =
        (pluginSystem env).run (.start disks) calls ∧
      ∀ s, (heapSystem env (linuxReader diskEnv)).Reaches (.start disks) calls s →
        ∃ t, (pluginSystem (countingEnv env diskEnv)).Reaches (.start (disks, 0)) calls t ∧
          Held 0 t.descr.hardDisks.2 t.descr.dirEntries s.descr.dirs s.descr.heap ∧
          ((∀ n i, (diskEnv.dir n).readOk i = true) → t.descr.hardDisks.2 = 0) := by
  refine ⟨?_, fun s hreaches => ?_⟩
  · have hheap := ClientSystem.run_eq_of_tracks (R := OnHeap.SessionStands) rfl (onHeap_step hparts)
      (onHeap_start disks) calls
    have hcount : (pluginSystem (countingEnv env diskEnv)).run (.start (disks, 0)) calls =
        (pluginSystem env).run (.start disks) calls :=
      ClientSystem.run_eq_of_tracks (R := SameSession fun (s : LinuxDisks × Nat) t => s.1 = t) rfl
        (counting_step (counting_tracks env.parts (lostByRead diskEnv)))
        ⟨⟨rfl, rfl, rfl⟩, rfl, rfl⟩ calls
    exact hheap.trans hcount
  · obtain ⟨t, ht, hstands⟩ :=
      ClientSystem.reaches_of_tracks (onHeap_step hparts) (onHeap_start disks) hreaches
    refine ⟨t, ht, hstands.descr.held, fun hread => ?_⟩
    have hzero := counting_zero_tracks env.parts (lostByRead_eq_zero diskEnv hread)
    obtain ⟨t', -, hsame⟩ := ClientSystem.reaches_of_tracks (counting_step hzero)
      (t := .start disks) ⟨⟨⟨rfl, rfl⟩, rfl, rfl⟩, rfl, rfl⟩ ht
    exact hsame.descr.disks.2

end Sessions

/-- Searches that go from one directory to another, and a file between them. -/
def treeSession : List PluginCall :=
  treeCalls.map .search ++ [.getFile 0 true (devPath sda1 [[0x61], [0x67]])]

/-- They lose nothing. -/
theorem session_owns_its_tables_tree :
    (heapSystem treePlugin (linuxReader treeEnv)).run (.start treeDisks) treeSession =
        (pluginSystem treePlugin).run (.start treeDisks) treeSession ∧
      ∀ s, (heapSystem treePlugin (linuxReader treeEnv)).Reaches (.start treeDisks) treeSession s →
        ∃ dirs, Held 0 0 dirs s.descr.dirs s.descr.heap := by
  obtain ⟨hrun, hheap⟩ := @session_owns_its_tables treePlugin treeEnv rfl treeDisks treeSession
  refine ⟨hrun, fun s hs => ?_⟩
  obtain ⟨t, -, hheld, hlost⟩ := hheap s hs
  rw [hlost fun _ _ => rfl] at hheld
  exact ⟨t.descr.dirEntries, hheld⟩

end Ext4tc.Plugin
