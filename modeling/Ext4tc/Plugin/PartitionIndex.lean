import Ext4tc.Plugin.FsInit

/-! # The place that a name selects

`extract_disk_and_part_no` lets through every number from 0 up to the greatest one of the
disk, and `get_partition_index_via_real_number` looks the number up without a test. A number
without a partition has an empty cell, which stands for the first place; the number 0 has
none, and the cell in front of the segment belongs to another disk or to no disk at all. -/

namespace Ext4tc.Plugin
open Ext4tc.Lib Ext4tc.Fs Ext4tc.DiskUtils

def Devices.selectedPlace (devices : Devices) (diskNo partNo : Nat) : Nat :=
  if partNo = 0 then TwoLevel.frontPlace devices.partNos diskNo
  else TwoLevel.placeOr 0 (devices.disk diskNo) partNo

/-- What is accepted: a disk that has partitions, and a number up to its greatest one. -/
structure WithinDisk (devices : Devices) (diskNo partNo : Nat) : Prop where
  disk : diskNo < devices.partNos.length
  listed : devices.disk diskNo ≠ []
  part : partNo ≤ TwoLevel.width (devices.disk diskNo)

theorem int32_le (n : Nat) : int32 n ≤ n := by
  by_cases h : n < 2 ^ 31
  · rw [int32_of_lt h]
  · have := int32_lt n
    omega

theorem extract_within {devices : Devices} {path : List UInt8} {diskNo partNo : Nat}
    (h : devices.extractDiskAndPartNo path = some (diskNo, partNo)) :
    WithinDisk devices diskNo partNo := by
  obtain ⟨letters, digits, -, hvalid, rfl, rfl⟩ := extract_iff.mp h
  obtain ⟨hlo, hlt, hnonneg, last, hlast, hle⟩ := validate_iff.mp hvalid
  refine ⟨by omega, ?_, ?_⟩
  · intro hnil
    rw [hnil] at hlast
    cases hlast
  · have hword := int32_le last
    rw [TwoLevel.width, hlast, Option.getD_some]
    omega

/-- **The look-up ends at the selected place**, on a map that is the index of the numbers. -/
theorem index_of_isIndex {devices : Devices} {idMap : List Nat} (hmap : devices.idMap = some idMap)
    (hindex : TwoLevel.IsIndex 0 devices.partNos idMap)
    (hinc : ∀ nos ∈ devices.partNos, Increasing nos) {diskNo partNo : Nat}
    (h : WithinDisk devices diskNo partNo) :
    devices.getPartitionIndexViaRealNumber diskNo partNo =
      .ok (devices.selectedPlace diskNo partNo) := by
  have hdisk : devices.partNos[diskNo]? = some (devices.disk diskNo) := by
    rw [List.getElem?_eq_getElem h.disk, disk_eq_getElem h.disk]
  have hpos : 0 < devices.partNos.length := by have := h.disk; omega
  have hlead := hindex.lead diskNo _ hdisk
  rw [if_neg h.listed] at hlead
  simp only [Devices.getPartitionIndexViaRealNumber, hmap, hlead, Devices.selectedPlace]
  rw [if_neg (by omega)]
  by_cases hzero : partNo = 0
  · simp only [hzero, Nat.add_zero, hindex.front hinc h.disk, if_true]
  · simp only [hindex.cell diskNo partNo _ hdisk (Nat.pos_of_ne_zero hzero) h.part, if_neg hzero]

/-- A number of its own never leaves the table of its disk. -/
theorem selectedPlace_lt_iff {devices : Devices} {diskNo partNo : Nat}
    (h : WithinDisk devices diskNo partNo) :
    devices.selectedPlace diskNo partNo < (devices.disk diskNo).length ↔
      partNo ≠ 0 ∨ TwoLevel.frontPlace devices.partNos diskNo < (devices.disk diskNo).length := by
  have hpos := List.length_pos_iff.mpr h.listed
  unfold Devices.selectedPlace
  by_cases hzero : partNo = 0
  · simp [hzero]
  · rw [if_neg hzero, TwoLevel.placeOr]
    simp only [ne_eq, hzero, not_false_eq_true, true_or, iff_true]
    split
    next hmem => exact List.idxOf_lt_length_of_mem hmem
    next => exact hpos

/-! ## After `FsInit` -/

section Searched

variable {fuel : Nat} {drives : Drives} {init : InitResult} {count : Nat}
  {tables : List LinuxTable} (h : Searched fuel drives init count tables)
include h

theorem Searched.isIndex (hne : init.devices.partNos ≠ []) :
    ∃ idMap, init.devices.idMap = some idMap ∧
      TwoLevel.IsIndex 0 init.devices.partNos idMap := by
  have hnos := h.devices.1
  have hempty : tables.length ≠ 0 := by
    intro hzero
    rw [hnos, List.length_eq_zero_iff.mp hzero] at hne
    exact hne rfl
  have hmap := h.mapped
  rw [mapTables, if_neg hempty] at hmap
  obtain ⟨idMap, hrun, heq⟩ := exists_of_map_ok hmap
  obtain ⟨row, hwrites, hindex⟩ :=
    TwoLevel.writes_isIndex Fault.outOfBounds (increasing_of_sound h.sound) 0
  rw [initExt2PartitionsIdMap, mapDisks_eq tables 0 tables.length _ h.sound] at hrun
  rw [List.length_map] at hwrites
  cases hrun.symm.trans hwrites
  rw [← heq]
  exact ⟨idMap, rfl, hindex⟩

theorem Searched.object_iff (diskNo j : Nat) :
    (init.hardDisks diskNo j).isSome = true ↔ j < (init.devices.disk diskNo).length := by
  rw [h.objects, linuxDisksOf, Devices.disk, h.devices.1, List.getD_eq_getElem?_getD,
    List.getElem?_map]
  cases tables[diskNo]? with
  | none => simp
  | some table => simp [LinuxTable.partNos]

end Searched

/-- What the calls do with a name that is accepted. -/
structure Selects (init : InitResult) (env : PluginEnv LinuxDisks) (path : List UInt8)
    (diskNo partNo : Nat) : Prop where
  /-- The look-up succeeds, and this is the place that it ends at. -/
  place : init.devices.getPartitionIndexViaRealNumber diskNo partNo =
    .ok (init.devices.selectedPlace diskNo partNo)
  /-- There is a partition in it, unless the number is 0 and the cell in front does not fit. -/
  inside : (init.hardDisks diskNo (init.devices.selectedPlace diskNo partNo)).isSome = true ↔
    partNo ≠ 0 ∨
      TwoLevel.frontPlace init.devices.partNos diskNo < (init.devices.disk diskNo).length
  /-- Otherwise the calls go past the end of the table. -/
  outside : init.hardDisks diskNo (init.devices.selectedPlace diskNo partNo) = none →
    (∀ createOk, fsGetFile env createOk init.hardDisks path = .error .outOfBounds) ∧
      ∀ fd, env.toUtf8 path ≠ [separator] → init.initialized = true →
        fsFindFirst env init.start.descr path fd = .error .outOfBounds

/-- **Every accepted name but a number 0 selects a partition of its disk**: its own, or the
first one if the number is missing. -/
theorem accepted_names_select {fuel : Nat} {drives : Drives} {init : InitResult}
    (h : fsInit fuel true drives = .ok init) {path : List UInt8} {diskNo partNo : Nat}
    (hread : init.devices.extractDiskAndPartNo path = some (diskNo, partNo)) (diskEnv : DiskEnv)
    (toUtf8 toAcp : List UInt8 → List UInt8) :
    Selects init (init.env diskEnv toUtf8 toAcp) path diskNo partNo := by
  obtain ⟨count, tables, hsearched⟩ := fsInit_searched h
  have hwithin := extract_within hread
  have hne : init.devices.partNos ≠ [] := List.ne_nil_of_length_pos (by
    have := hwithin.disk
    omega)
  obtain ⟨idMap, hmap, hindex⟩ := hsearched.isIndex hne
  have hinc : ∀ nos ∈ init.devices.partNos, Increasing nos := by
    rw [hsearched.devices.1]
    exact increasing_of_sound hsearched.sound
  have hplace := index_of_isIndex hmap hindex hinc hwithin
  refine ⟨hplace, (hsearched.object_iff _ _).trans (selectedPlace_lt_iff hwithin), ?_⟩
  intro hnone
  have hdir : ∀ n, (linuxPartitions diskEnv).getDirEntry init.hardDisks diskNo
      (init.devices.selectedPlace diskNo partNo) n = .error .outOfBounds := by
    intro n
    simp only [linuxPartitions, onPartition, hnone]
  constructor
  · intro createOk
    simp only [fsGetFile, InitResult.env, hread, hplace, getExt2Inode, hdir, Except.map]
  · intro fd hroot hinit
    have hthere : (!(init.env diskEnv toUtf8 toAcp).initialized ||
        (init.env diskEnv toUtf8 toAcp).devices.idMap.isNone) = false := by
      simp [InitResult.env, hinit, hmap]
    rw [fsFindFirst, hthere, if_neg Bool.false_ne_true, if_neg hroot]
    simp only [findFirstDir, InitResult.env, InitResult.start, hread, hplace, getFirstDirEntry,
      loadExt2DirEntry, freeExt2DirEntries, hdir]

/-! ## Two drives -/

/-- `\sdb0` on a machine whose second disk alone has partitions, two of them: the cell in
front of their segment leads to the segment, and is taken for a place. -/
theorem accepted_names_select_twoDisks :
    ∃ init, fsInit 3 true (drivesOf twoDisks) = .ok init ∧
      init.devices.extractDiskAndPartNo [0x5c, 0x73, 0x64, 0x62, 0x30] = some (1, 0) ∧
      init.hardDisks 1 2 = none ∧
      Selects init (init.env treeEnv id id) [0x5c, 0x73, 0x64, 0x62, 0x30] 1 0 := by
  have hrun : (fsInit 3 true (drivesOf twoDisks)).map (fun init => (init.devices.partNos,
      init.devices.extractDiskAndPartNo [0x5c, 0x73, 0x64, 0x62, 0x30],
      (init.hardDisks 1 2).isSome)) = .ok ([[], [1, 6]], some (1, 0), false) := by decide +kernel
  obtain ⟨init, hinit, hvalues⟩ := exists_of_map_ok hrun
  simp only [Prod.mk.injEq, Option.isSome_eq_false_iff, Option.isNone_iff_eq_none] at hvalues
  obtain ⟨-, hread, hnone⟩ := hvalues
  exact ⟨init, hinit, hread, hnone, accepted_names_select hinit hread treeEnv id id⟩

end Ext4tc.Plugin
