import Ext4tc.Plugin.PartitionIndex
import Ext4tc.Plugin.RootListing
import Ext4tc.Plugin.StoredTree

/-! # The trees of the drives

From the bytes of the drives to what the user browses: `FsInit` finds the partitions, the
root lists them, and the paths under their names lead into the trees that they store. In
between their numbers are printed, read back and looked up in the map. -/

namespace Ext4tc.Plugin
open Ext4tc.Lib Ext4tc.Fs Ext4tc.DiskUtils PartitionLinuxExt2

/-! ## One object, one tree -/

theorem Answers.map_fst {α σ : Type} {Inv : σ → Prop} {x : Except Fault (α × σ)}
    {r : Except Fault α} (h : Answers Inv x r) : x.map Prod.fst = r := by
  cases r with
  | error fault => exact congrArg (Except.map Prod.fst) h
  | ok a =>
    obtain ⟨s, hx, -⟩ := h
    rw [hx]
    rfl

/-- Two mounts that read the same. -/
structure Mount.Agrees (m m' : Mount) : Prop where
  part : m.part = m'.part
  sb : m.info.ext4Sb = m'.info.ext4Sb
  inode : m.inode = m'.inode

section Agrees

variable {m m' : Mount}

theorem Mount.Holds.agrees {part : PartitionLinuxExt2} (h : m.Holds part) (h' : m'.Holds part) :
    m.Agrees m' := by
  obtain ⟨hpart, info, hlive, hsb⟩ := h.live
  obtain ⟨hpart', info', hlive', hsb'⟩ := h'.live
  cases hlive.symm.trans hlive'
  refine ⟨hpart.symm.trans hpart', hsb.symm.trans hsb', funext fun n => ?_⟩
  exact (m.getExt4Inode_answers h n).map_fst.symm.trans (m'.getExt4Inode_answers h' n).map_fst

theorem StoredFile.of_agrees {n : Nat} {src : CopySource} (hm : m.Agrees m')
    (h : StoredFile m n src) : StoredFile m' n src :=
  ⟨hm.inode ▸ h.inode, h.reg, h.part.trans hm.part, h.sb.trans hm.sb, h.whole⟩

theorem StoredDir.of_agrees {env : DiskEnv} {n : Nat} {records : List Ext4DirEntry2}
    (hm : m.Agrees m') (h : StoredDir m env n records) : StoredDir m' env n records := by
  obtain ⟨inode, hinode, hfile, hcount, inBlock, hrecords, hblocks⟩ := h.stored
  rw [hm.inode] at hinode
  rw [hm.part, hm.sb] at hfile hblocks
  rw [hm.sb] at hcount hrecords
  exact ⟨⟨inode, hinode, hfile, hcount, inBlock, hrecords, hblocks⟩, hm.sb ▸ h.reads, h.names,
    h.first⟩

/-- **What a tree is stored on is the object**, not a mount of it. -/
theorem Stores.of_agrees {env : DiskEnv} {n : Nat} {tree : Tree} (hm : m.Agrees m')
    (h : Stores m env n tree) : Stores m' env n tree := by
  induction h with
  | file h => exact .file (h.of_agrees hm)
  | special h => exact .special (hm.inode ▸ h)
  | dir h hnamed _ ih => exact .dir (h.of_agrees hm) hnamed ih

end Agrees

/-! ## Names and paths -/

/-- `\name`, alone or with a path behind it. -/
def underName (name rest : List UInt8) : List UInt8 := separator :: (name ++ rest)

/-- The number of the disk fits a letter, and those of its partitions an `int`. -/
theorem isName_displayName {diskNo partNo : Nat} (hdisk : diskNo < 26) (hno : partNo < 2 ^ 31) :
    IsName (Devices.displayName diskNo partNo) := by
  rw [displayName_eq hno]
  have hletter := letter_toNat hdisk
  generalize UInt8.ofNat (diskNo + 0x61) = x at hletter
  have hx : x ≠ 0 ∧ x ≠ separator := by
    constructor
    · rintro rfl
      simp at hletter
    · rintro rfl
      simp [separator] at hletter
  have hbytes : ∀ y ∈ 0x73 :: 0x64 :: x :: (Nat.toDigits 10 partNo).map charByte,
      y ≠ 0 ∧ y ≠ separator := by
    intro y hy
    rcases List.mem_cons.mp hy with rfl | hy
    · decide
    rcases List.mem_cons.mp hy with rfl | hy
    · decide
    rcases List.mem_cons.mp hy with rfl | hy
    · exact hx
    · exact digits_ne partNo y hy
  exact ⟨⟨List.cons_ne_nil _ _, fun hmem => (hbytes _ hmem).2 rfl⟩,
    fun hmem => (hbytes _ hmem).1 rfl⟩

section Root

variable {σ : Type} {env : PluginEnv σ} (hsound : SoundDevices env.devices)
  (hinit : env.initialized = true) {diskNo partNoMap partNo : Nat}
  (hpart : (env.devices.disk diskNo)[partNoMap]? = some partNo)
include hsound hinit hpart

theorem root_lists (hroot : env.toUtf8 [separator] = [separator]) (descr : Ext4PluginDescr σ)
    (fd : FindData) : ∃ shown, RootYields env descr fd shown ∧
      ⟨diskNo, partNoMap, Devices.displayName diskNo partNo⟩ ∈ shown := by
  have hlt := (List.getElem?_eq_some_iff.mp hpart).1
  have hplace : (diskNo, partNoMap) ∈ allPartitions env.devices := by
    rw [allPartitions, List.mem_flatMap]
    exact ⟨diskNo, List.mem_range.mpr (disk_lt_length hlt),
      List.mem_map_of_mem (List.mem_range.mpr hlt)⟩
  have hshown : shownAs env.devices (diskNo, partNoMap) =
      ⟨diskNo, partNoMap, Devices.displayName diskNo partNo⟩ := by
    rw [shownAs, List.getD_eq_getElem?_getD, hpart, Option.getD_some]
  obtain ⟨hnil, -⟩ | ⟨lf, fd', hcall, hat, hall⟩ := findFirst_root hsound hinit hroot descr fd
  · rw [hnil] at hplace
    cases hplace
  · obtain ⟨s, hdrains, -, -⟩ := findNextRound_leaves.drains hat
    refine ⟨_, ⟨some lf, fd', descr, hcall, _, s, hall, hdrains⟩, ?_⟩
    exact List.mem_map.mpr ⟨_, hplace, hshown⟩

theorem dirPath_underName (hdisk : diskNo < 26)
    (hint : ∀ no ∈ env.devices.disk diskNo, no < 2 ^ 31) {rest : List UInt8}
    {cs : List (List UInt8)} (hrest : named rest = [])
    (hutf8 : env.toUtf8 (underName (Devices.displayName diskNo partNo) rest) =
      devPath (Devices.displayName diskNo partNo) cs) (hcs : ∀ c ∈ cs, IsName c) :
    DirPath env (underName (Devices.displayName diskNo partNo) rest) diskNo partNoMap
      (Devices.displayName diskNo partNo) cs :=
  have hmem := List.mem_of_getElem? hpart
  ⟨hinit, ⟨partNo, extract_displayName (hsound.increasing diskNo) hmem hint hdisk hrest,
    hsound.indexed diskNo partNoMap partNo hpart⟩, hutf8,
    isName_displayName hdisk (hint partNo hmem), hcs⟩

end Root

/-! ## The drives -/

/-- An entry of the partition table of a drive that mounts. A letter stands for the drive, and
the numbers of what mounts there are `int`s. -/
structure HasName (fuel : Nat) (drives : Drives) (diskNo : Nat) (disk : Disk) (p : LinuxPart) :
    Prop where
  letter : diskNo < 26
  opened : ∀ k, k ≤ diskNo → (drives k).isSome = true
  entry : OnDrive fuel drives diskNo disk p
  numbers : ∀ q, OnDrive fuel drives diskNo disk q → q.info.partNo < 2 ^ 31

/-- The object of a mounted partition stores a tree. -/
def StoresTree (part : PartitionLinuxExt2) (diskEnv : DiskEnv) (tree : Tree) : Prop :=
  ∃ m : Mount, m.Holds part ∧ Stores m diskEnv ext4RootIno tree

/-- What the user meets of a partition: its name in the root, paths under this name, and the
tree behind them, where it stores one. -/
structure ShowsPartition (env : PluginEnv LinuxDisks) (mounts : Nat → Nat → Option Mount)
    (diskEnv : DiskEnv) (diskNo partNoMap : Nat) (name : List UInt8) (part : PartitionLinuxExt2)
    (descr : Ext4PluginDescr LinuxDisks) : Prop where
  listed : ∀ fd, ∃ shown, RootYields env descr fd shown ∧ ⟨diskNo, partNoMap, name⟩ ∈ shown
  paths : ∀ rest cs, named rest = [] → env.toUtf8 (underName name rest) = devPath name cs →
    (∀ c ∈ cs, IsName c) → DirPath env (underName name rest) diskNo partNoMap name cs
  tree : ∀ tree, StoresTree part diskEnv tree → ShowsTree env mounts diskNo partNoMap tree descr

theorem Searched.onDrive {fuel : Nat} {drives : Drives} {init : InitResult} {count : Nat}
    {tables : List LinuxTable} (h : Searched fuel drives init count tables) {diskNo partNo : Nat}
    (hmem : partNo ∈ init.devices.disk diskNo) :
    ∃ disk p, OnDrive fuel drives diskNo disk p ∧ p.info.partNo = partNo := by
  obtain ⟨j, hj⟩ := List.mem_iff_getElem?.mp hmem
  have hlt := (List.getElem?_eq_some_iff.mp hj).1
  obtain ⟨part, hpart⟩ := Option.isSome_iff_exists.mp ((h.object_iff diskNo j).mpr hlt)
  obtain ⟨disk, p, hdrive, -, hno⟩ := h.object hpart
  exact ⟨disk, p, hdrive, Option.some.inj (hno.symm.trans hj)⟩

def storedMachine : Machine := [(storedDrive, ⟨fun _ => true, fun _ => true⟩)]

def storedEntry : PartInfo :=
  storedDrive.primaryPart 1 (PartInfo.new.setPartInfo
    ((storedDrive.partitionAt 0).bufferAt 446 16))

def storedPart : LinuxPart :=
  ⟨storedEntry, mountedAt storedMount.part storedMount.info storedMount.grDesc .empty⟩

theorem storedDrive_scan : ∃ scan, storedDrive.makePartitionsList 3 = .ok scan ∧ scan.ret = 0 ∧
    listEntries scan.partitions = [storedEntry] := by
  have hrun : (storedDrive.makePartitionsList 3).map
      (fun scan => (scan.ret, listEntries scan.partitions)) = .ok (0, [storedEntry]) := by
    decide +kernel
  obtain ⟨scan, hscan, hvalues⟩ := exists_of_map_ok hrun
  exact ⟨scan, hscan, Prod.mk.inj hvalues⟩

theorem storedMachine_hasName : HasName 3 (drivesOf storedMachine) 0 storedDrive storedPart := by
  obtain ⟨scan, hscan, hret, hentries⟩ := storedDrive_scan
  refine ⟨by decide, ?_, ⟨_, scan, 0, rfl, hscan, by rw [hret], ?_⟩, ?_⟩
  · intro k hk
    rw [Nat.le_zero.mp hk]
    rfl
  · rw [hentries]
    exact ⟨rfl, by decide +kernel, rfl⟩
  · intro q hq
    obtain ⟨_, scan', i, -, hscan', -, htry⟩ := hq.found
    cases hscan.symm.trans hscan'
    have hmem := List.mem_of_getElem? htry.entry
    rw [hentries] at hmem
    rw [List.mem_singleton.mp hmem]
    decide +kernel

theorem storedMachine_fsInit : ∃ init s, fsInit 3 true (drivesOf storedMachine) = .ok init ∧
    init.initialized = true ∧ Usable init.hardDisks ∧
      (pluginSystem (init.env wideEnv id id)).Reaches init.start storedCalls s := by
  have hrun : (fsInit 3 true (drivesOf storedMachine)).map (fun init => (init.initialized,
      ((pluginSystem (init.env wideEnv id id)).run init.start storedCalls).map List.length)) =
      .ok (true, .ok 4) := by decide +kernel
  obtain ⟨init, hinit, hvalues⟩ := exists_of_map_ok hrun
  obtain ⟨hinitialized, hrun⟩ := Prod.mk.inj hvalues
  obtain ⟨out, hrun, -⟩ := exists_of_map_ok hrun
  obtain ⟨s, hreaches⟩ := ClientSystem.reaches_of_run hrun
  exact ⟨init, s, hinit, hinitialized, usable_of_fsInit hinit (by decide +kernel), hreaches⟩

end Ext4tc.Plugin
