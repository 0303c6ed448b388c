import Ext4tc.DiskUtils.FailedDirectory
import Ext4tc.Lib.Transition
import Ext4tc.Plugin.LinuxPartitions

/-! # Directory loads that give up

What the two walks of the plugin make of a directory read that returns NULL without a count.
`get_ext2_inode` starts with a count of 0, so a failed load of the root does no harm; behind
any other the count is that of the directory left, and the next loop reads a table that is
not there. `load_ext2_dir_entry` keeps the count of the table that it has freed. -/

namespace Ext4tc.Plugin
open Ext4tc.Lib Ext4tc.Fs Ext4tc.DiskUtils PartitionLinuxExt2

/-! ## Reads that fail at any call -/

/-- The disks, and how many calls went to them. -/
structure ClockedDisks where
  disks : LinuxDisks
  calls : Nat

/-- The partitions of the disks, with an environment for each call. -/
def clockedPartitions (env : Nat → DiskEnv) : Partitions ClockedDisks where
  getDirEntry s diskNo partNoMap n :=
    ((linuxPartitions (env s.calls)).getDirEntry s.disks diskNo partNoMap n).map
      fun (result, disks) => (result, ⟨disks, s.calls + 1⟩)
  getExt4Inode s diskNo partNoMap n :=
    ((linuxPartitions (env s.calls)).getExt4Inode s.disks diskNo partNoMap n).map
      fun (inode, disks) => (inode, ⟨disks, s.calls + 1⟩)

/-- The directory load of inode `n` gives up: no inode, or a block that cannot be read. -/
def LoadGivesUp (env : Nat → DiskEnv) (s : ClockedDisks) (diskNo partNoMap n : Nat) : Prop :=
  ∃ part, s.disks diskNo partNoMap = some part ∧
    part.GivesUp ((env s.calls).dir n) n ((env s.calls).nrBlk n)

/-! ## The walks -/

section Walks

variable {σ : Type} (parts : Partitions σ) (diskNo partNoMap : Nat)

/-- The load returns NULL and stores no count. -/
def Uncounted (s : σ) (n : Nat) : Prop :=
  ∃ s', parts.getDirEntry s diskNo partNoMap n = .ok (⟨none, none⟩, s')

/-- Where there is no table, the count is 0 if there is one. -/
def CountsNull : Prop :=
  ∀ s n num s', parts.getDirEntry s diskNo partNoMap n = .ok (⟨none, num⟩, s') →
    num = none ∨ num = some 0

/-- The components that `get_ext2_inode` walks, separator `k` being the one behind the device. -/
def walkedComponents (path : List UInt8) (k : Nat) : List (Nat × List UInt8) :=
  (strtok separator 1 ((path.drop (k + 1)).drop 1)).takeWhile fun t =>
    t.1 ≠ (strrchr separator (path.drop (k + 1))).getD 0 + 1

/-- From `s` on, `get_ext2_inode` gets to the load of directory `dir`, with its variables as
in `walk`. -/
def LoadsBelowRoot (s : σ) (path : List UInt8) (walk : InodeWalk σ) (dir : Ext4DirEntry2) : Prop :=
  ∃ result s' k before word after i,
    parts.getDirEntry s diskNo partNoMap ext4RootIno = .ok (result, s') ∧
    path.length < maxPath ∧ strchr separator (path.drop 1) = some k ∧
    walkedComponents path k = before ++ word :: after ∧
    walkComponents parts diskNo partNoMap before ⟨s', result.table, result.readDirs.getD 0, false⟩ =
      .ok (true, walk) ∧
    findEntry walk.dirs (fun dir => isNamed word.2 dir && dir.fileType == ext4FtDir)
      walk.entryNum 0 = .ok (some (i, dir)) ∧
    freeExt2DirEntries walk.dirs walk.entryNum = .ok ()

def FindsNoInode (s : σ) (path : List UInt8) : Prop :=
  ∃ num s', getExt2Inode parts diskNo partNoMap s path = .ok (⟨none, num⟩, s')

/-- Whichever load of the walk gives up, it returns NULL. -/
structure WalkFailsSafely (s : σ) (path : List UInt8) : Prop where
  root : Uncounted parts diskNo partNoMap s ext4RootIno → FindsNoInode parts diskNo partNoMap s path
  below : ∀ walk dir, LoadsBelowRoot parts diskNo partNoMap s path walk dir →
    Uncounted parts diskNo partNoMap walk.hardDisks dir.inode →
      FindsNoInode parts diskNo partNoMap s path

/-- Behind a load that fails, the table of the plugin is empty. -/
def FailedLoadEmpties (descr : Ext4PluginDescr σ) (n : Nat) : Prop :=
  ∀ descr', loadExt2DirEntry parts diskNo partNoMap descr n = .ok (false, descr') →
    descr'.dirEntries = none ∧ descr'.dirEntryNum = 0

end Walks

section Proofs

variable {σ : Type} {parts : Partitions σ} {diskNo partNoMap : Nat}

theorem findEntry_none {p : Ext4DirEntry2 → Bool} {k i : Nat} (hk : k ≠ 0) :
    findEntry none p k i = .error .nullDeref := by
  obtain ⟨k, rfl⟩ := Nat.exists_eq_succ_of_ne_zero hk
  rfl

theorem findEntry_pos {tab : Option (List Ext4DirEntry2)} {p : Ext4DirEntry2 → Bool} {k i : Nat}
    {found : Nat × Ext4DirEntry2} (h : findEntry tab p k i = .ok (some found)) : k ≠ 0 := by
  rintro rfl
  cases h

theorem walkComponents_append {after : List (Nat × List UInt8)} :
    ∀ {before : List (Nat × List UInt8)} {walk walk' : InodeWalk σ},
    walkComponents parts diskNo partNoMap before walk = .ok (true, walk') →
    walkComponents parts diskNo partNoMap (before ++ after) walk =
      walkComponents parts diskNo partNoMap after walk'
  | [], walk, walk', h => by
    cases h
    rfl
  | (_, word) :: before, walk, walk', h => by
    rw [walkComponents] at h
    rw [List.cons_append, walkComponents]
    split at h
    next => cases h
    next =>
      split at h
      next hfound =>
        rw [if_pos hfound]
        exact walkComponents_append h
      next => cases h
    next =>
      split at h
      next => cases h
      next =>
        split at h
        next => cases h
        next => exact walkComponents_append h

/-- Behind a load that gave up, with entries counted, the next loop dereferences NULL. -/
theorem walkComponents_uncounted {words : List (Nat × List UInt8)} {s : σ} {num : Nat}
    (hnum : num ≠ 0) :
    walkComponents parts diskNo partNoMap words ⟨s, none, num, true⟩ = .error .nullDeref ∨
      words = [] ∧ walkComponents parts diskNo partNoMap words ⟨s, none, num, true⟩ =
        .ok (true, ⟨s, none, num, true⟩) := by
  cases words with
  | nil => exact .inr ⟨rfl, rfl⟩
  | cons word words =>
    rw [walkComponents]
    exact .inl (by simp only [findEntry_none hnum])

theorem getExt2Inode_of_root {s s' : σ} {result : DirResult} {path : List UInt8} {k : Nat}
    (hload : parts.getDirEntry s diskNo partNoMap ext4RootIno = .ok (result, s'))
    (hlen : path.length < maxPath) (hk : strchr separator (path.drop 1) = some k)
    {found : Bool} {walk : InodeWalk σ}
    (hwalk : walkComponents parts diskNo partNoMap (walkedComponents path k)
      ⟨s', result.table, result.readDirs.getD 0, false⟩ = .ok (found, walk)) :
    getExt2Inode parts diskNo partNoMap s path =
      if found then lookUpFile parts diskNo partNoMap ((path.drop (k + 1)).drop
        ((strrchr separator (path.drop (k + 1))).getD 0 + 1)) walk
      else
        (freeExt2DirEntries walk.dirs walk.entryNum).map fun _ =>
          (⟨none, none⟩, walk.hardDisks) := by
  unfold walkedComponents at hwalk
  unfold getExt2Inode
  cases found with
  | true => simp only [hload, if_neg (Nat.not_le.mpr hlen), hk, hwalk, if_true]
  | false =>
    simp only [hload, if_neg (Nat.not_le.mpr hlen), hk, hwalk, Bool.false_eq_true, if_false]
    cases freeExt2DirEntries walk.dirs walk.entryNum with
    | error fault => rfl
    | ok u => rfl

/-- **The root**: a load that gives up there ends in NULL, if the walk gets to its loop. -/
theorem findsNoInode_root_iff {s : σ} {path : List UInt8}
    (h : Uncounted parts diskNo partNoMap s ext4RootIno) :
    FindsNoInode parts diskNo partNoMap s path ↔
      path.length < maxPath ∧ ∃ k, strchr separator (path.drop 1) = some k := by
  obtain ⟨s', hload⟩ := h
  constructor
  · rintro ⟨num, s'', hinode⟩
    unfold getExt2Inode at hinode
    simp only [hload] at hinode
    split at hinode
    next => cases hinode
    next hlen =>
      split at hinode
      next => cases hinode
      next k hk => exact ⟨Nat.not_le.mp hlen, k, hk⟩
  · rintro ⟨hlen, k, hk⟩
    cases hwords : walkedComponents path k with
    | nil =>
      refine ⟨none, s', ?_⟩
      rw [getExt2Inode_of_root hload hlen hk (by rw [hwords]; rfl)]
      rfl
    | cons word words =>
      refine ⟨none, s', ?_⟩
      rw [getExt2Inode_of_root hload hlen hk (by rw [hwords]; rfl)]
      rfl

/-- **Below the root**: a load that gives up ends in a NULL dereference. -/
theorem getExt2Inode_below {s : σ} {path : List UInt8} {walk : InodeWalk σ} {dir : Ext4DirEntry2}
    (h : LoadsBelowRoot parts diskNo partNoMap s path walk dir)
    (hup : Uncounted parts diskNo partNoMap walk.hardDisks dir.inode) :
    getExt2Inode parts diskNo partNoMap s path = .error .nullDeref := by
  obtain ⟨result, s', k, before, word, after, i, hload, hlen, hk, hwords, hbefore, hfind, hfree⟩ :=
    h
  obtain ⟨s'', hsub⟩ := hup
  have hnum := findEntry_pos hfind
  have hstep : walkComponents parts diskNo partNoMap (before ++ word :: after)
      ⟨s', result.table, result.readDirs.getD 0, false⟩ =
      walkComponents parts diskNo partNoMap after ⟨s'', none, walk.entryNum, true⟩ := by
    rw [walkComponents_append hbefore, walkComponents]
    simp only [hfind, hfree, hsub]
    rfl
  rw [← hwords] at hstep
  rcases @walkComponents_uncounted σ parts diskNo partNoMap after s'' walk.entryNum hnum with
    hnull | ⟨rfl, hend⟩
  · have hwalk := hstep.trans hnull
    unfold walkedComponents at hwalk
    unfold getExt2Inode
    simp only [hload, if_neg (Nat.not_le.mpr hlen), hk, hwalk]
  · rw [getExt2Inode_of_root hload hlen hk (hstep.trans hend), if_pos rfl, lookUpFile,
      findEntry_none hnum]

/-- **The walk returns NULL wherever a load gives up exactly if only that of the root does.** -/
theorem walkFailsSafely_iff (s : σ) (path : List UInt8) :
    WalkFailsSafely parts diskNo partNoMap s path ↔
      (Uncounted parts diskNo partNoMap s ext4RootIno →
        path.length < maxPath ∧ ∃ k, strchr separator (path.drop 1) = some k) ∧
      ∀ walk dir, LoadsBelowRoot parts diskNo partNoMap s path walk dir →
        ¬Uncounted parts diskNo partNoMap walk.hardDisks dir.inode := by
  constructor
  · intro h
    refine ⟨fun hup => (findsNoInode_root_iff hup).mp (h.root hup), fun walk dir hloads hup => ?_⟩
    obtain ⟨num, s', hnull⟩ := h.below walk dir hloads hup
    cases (getExt2Inode_below hloads hup).symm.trans hnull
  · rintro ⟨hroot, hbelow⟩
    exact ⟨fun hup => (findsNoInode_root_iff hup).mpr (hroot hup),
      fun walk dir hloads hup => absurd hup (hbelow walk dir hloads)⟩

/-- **A failed load leaves an empty table exactly if the count was 0, or none was kept.** -/
theorem failedLoadEmpties_iff (hcounts : CountsNull parts diskNo partNoMap)
    (descr : Ext4PluginDescr σ) (n : Nat) :
    FailedLoadEmpties parts diskNo partNoMap descr n ↔
      (freeExt2DirEntries descr.dirEntries descr.dirEntryNum = .ok () →
        Uncounted parts diskNo partNoMap descr.hardDisks n → descr.dirEntryNum = 0) := by
  constructor
  · rintro h hfree ⟨s', hload⟩
    refine (h ⟨s', none, descr.dirEntryNum⟩ ?_).2
    unfold loadExt2DirEntry
    simp only [hfree, hload]
    rfl
  · intro h descr' hfails
    unfold loadExt2DirEntry at hfails
    split at hfails
    next => cases hfails
    next hfree =>
      split at hfails
      next => cases hfails
      next result s' hload =>
        obtain ⟨table, num⟩ := result
        cases table with
        | some dirs => cases hfails
        | none =>
          cases hfails
          rcases hcounts _ _ _ _ hload with rfl | rfl
          · exact ⟨rfl, h hfree ⟨s', hload⟩⟩
          · exact ⟨rfl, rfl⟩

end Proofs

/-! ## The partitions of the disks -/

section Disks

variable (env : Nat → DiskEnv) (s : ClockedDisks) (diskNo partNoMap n : Nat)

theorem clocked_load (result : DirResult) :
    (∃ s', (clockedPartitions env).getDirEntry s diskNo partNoMap n = .ok (result, s')) ↔
      ∃ part, s.disks diskNo partNoMap = some part ∧
        (part.getDirEntry ((env s.calls).dir n) n ((env s.calls).nrBlk n)).1.result =
          .ok result := by
  simp only [clockedPartitions, linuxPartitions, onPartition, readDirectory]
  cases hpart : s.disks diskNo partNoMap with
  | none =>
    refine iff_of_false ?_ ?_
    · rintro ⟨s', h⟩
      cases h
    · rintro ⟨part, h, -⟩
      cases h
  | some part =>
    simp only [Option.some.injEq, exists_eq_left']
    cases (part.getDirEntry ((env s.calls).dir n) n ((env s.calls).nrBlk n)).1.result with
    | error fault =>
      refine iff_of_false ?_ (fun h => by cases h)
      rintro ⟨s', h⟩
      cases h
    | ok result' =>
      constructor
      · rintro ⟨s', h⟩
        cases h
        rfl
      · intro h
        cases h
        exact ⟨_, rfl⟩

theorem uncounted_iff :
    Uncounted (clockedPartitions env) diskNo partNoMap s n ↔
      LoadGivesUp env s diskNo partNoMap n := by
  rw [Uncounted, clocked_load]
  simp only [getDirEntry_uncounted_iff]
  rfl

theorem clocked_countsNull : CountsNull (clockedPartitions env) diskNo partNoMap := by
  intro s n num s' h
  obtain ⟨part, -, hresult⟩ := (clocked_load env s diskNo partNoMap n ⟨none, num⟩).mp ⟨s', h⟩
  exact getDirEntry_null hresult

end Disks

/-- **Directory loads that fail**: NULL comes with a count of 0, `get_ext2_inode` returns NULL,
and `load_ext2_dir_entry` leaves an empty table, exactly if no load gives up at a count that is
not 0. In `get_ext2_inode` that is any load but the one of the root. -/
theorem failed_directory_loads_iff (env : Nat → DiskEnv) (diskNo partNoMap : Nat) :
    (∀ denv (part : PartitionLinuxExt2) inodeNr nrBlk count,
      NullLeavesZero (part.getDirEntry denv inodeNr nrBlk).1 count ↔
        count = 0 ∨ ¬part.GivesUp denv inodeNr nrBlk) ∧
    (∀ s path, WalkFailsSafely (clockedPartitions env) diskNo partNoMap s path ↔
      (LoadGivesUp env s diskNo partNoMap ext4RootIno →
        path.length < maxPath ∧ ∃ k, strchr separator (path.drop 1) = some k) ∧
      ∀ walk dir, LoadsBelowRoot (clockedPartitions env) diskNo partNoMap s path walk dir →
        ¬LoadGivesUp env walk.hardDisks diskNo partNoMap dir.inode) ∧
    ∀ descr n, FailedLoadEmpties (clockedPartitions env) diskNo partNoMap descr n ↔
      (freeExt2DirEntries descr.dirEntries descr.dirEntryNum = .ok () →
        LoadGivesUp env descr.hardDisks diskNo partNoMap n → descr.dirEntryNum = 0) := by
  refine ⟨nullLeavesZero_iff, fun s path => ?_, fun descr n => ?_⟩
  · simp only [← uncounted_iff]
    exact walkFailsSafely_iff s path
  · rw [← uncounted_iff]
    exact failedLoadEmpties_iff (clocked_countsNull env diskNo partNoMap) descr n

/-- The tree after `a` was deleted: its record is still in the root, with inode 0. -/
def deletedDisks : ClockedDisks where
  disks diskNo partNoMap :=
    if diskNo = 0 ∧ partNoMap = 0 then
      some (mountedAt (.ofDevice ((⟨0, treeDisk.device⟩ : Buffer).pokes [(20504, [0])]).byte)
        treeMount.info treeMount.grDesc .empty)
    else none
  calls := 0

/-- The walk of `\sda1\a\g` gets to the load of inode 0, which gives up. -/
theorem deletedDisks_loads :
    ∃ walk dir, LoadsBelowRoot (clockedPartitions fun _ => treeEnv) 0 0 deletedDisks
        (devPath sda1 [[0x61], [0x67]]) walk dir ∧
      Uncounted (clockedPartitions fun _ => treeEnv) 0 0 walk.hardDisks dir.inode := by
  have hrun : ((clockedPartitions fun _ => treeEnv).getDirEntry deletedDisks 0 0 ext4RootIno).map
      (fun (result, s') => ((findEntry result.table
          (fun dir => isNamed [0x61] dir && dir.fileType == ext4FtDir)
          (result.readDirs.getD 0) 0).map (Option.map fun found => (found.1, found.2.inode)),
        freeExt2DirEntries result.table (result.readDirs.getD 0),
        ((clockedPartitions fun _ => treeEnv).getDirEntry s' 0 0 0).map
          fun (result', _) => (result'.table.isNone, result'.readDirs))) =
      .ok (.ok (some (2, 0)), .ok (), .ok (true, none)) := by decide +kernel
  obtain ⟨⟨result, s'⟩, hload, hvalues⟩ := exists_of_map_ok hrun
  obtain ⟨hfind, hrest⟩ := Prod.mk.inj hvalues
  obtain ⟨hfree, hnull⟩ := Prod.mk.inj hrest
  obtain ⟨found, hfind, hentry⟩ := exists_of_map_ok hfind
  obtain ⟨⟨i, dir⟩, rfl, hfields⟩ := Option.map_eq_some_iff.mp hentry
  have hinode : dir.inode = 0 := (Prod.mk.inj hfields).2
  obtain ⟨⟨⟨table, num⟩, s''⟩, hnull, hfields⟩ := exists_of_map_ok hnull
  obtain ⟨htable, hnum⟩ := Prod.mk.inj hfields
  refine ⟨⟨s', result.table, result.readDirs.getD 0, false⟩, dir,
    ⟨result, s', 4, [], (1, [0x61]), [], i, hload, by decide, by decide, by decide +kernel, rfl,
      hfind, hfree⟩, s'', ?_⟩
  obtain rfl : table = none := Option.isNone_iff_eq_none.mp htable
  obtain rfl : num = none := hnum
  rw [hinode]
  exact hnull

/-- Inode 0, which a deleted record has, makes `get_dir_entry` return NULL and leave the count
of the directory before, and `get_ext2_inode` goes on with that count and no table. -/
theorem deleted_directory_keeps_count :
    (¬∀ (env : DirEnv) (part : PartitionLinuxExt2) (inodeNr nrBlk count : Nat),
      NullLeavesZero (part.getDirEntry env inodeNr nrBlk).1 count) ∧
    getExt2Inode (clockedPartitions fun _ => treeEnv) 0 0 deletedDisks
        (devPath sda1 [[0x61], [0x67]]) = .error .nullDeref ∧
      ¬WalkFailsSafely (clockedPartitions fun _ => treeEnv) 0 0 deletedDisks
        (devPath sda1 [[0x61], [0x67]]) := by
  obtain ⟨walk, dir, hloads, hup⟩ := deletedDisks_loads
  refine ⟨fun h => ?_, getExt2Inode_below hloads hup, fun h => ?_⟩
  · obtain ⟨part, -, hgives⟩ := (uncounted_iff _ _ _ _ _).mp hup
    rcases (nullLeavesZero_iff _ part _ _ 1).mp (h _ part _ _ 1) with hzero | hnot
    · exact absurd hzero (by decide)
    · exact hnot hgives
  · exact ((walkFailsSafely_iff _ _).mp h).2 walk dir hloads hup

end Ext4tc.Plugin
