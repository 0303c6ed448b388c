import Ext4tc.Plugin.DeviceNames
import Ext4tc.Plugin.Transparency

/-! # From `FsInit` to the calls

The plugin as `FsInit` leaves it: the drives are counted, their partition tables are read,
what carries an ext file system is mounted, and the numbers are mapped. What the results
about its calls assume is what comes out of that: each place of the map stands for one
entry of a partition table whose mount succeeded, and no such entry is missing. -/

namespace Ext4tc.Plugin
open Ext4tc.Lib Ext4tc.Fs Ext4tc.DiskUtils PartitionLinuxExt2

/-- The physical drives by their numbers, where they can be opened, each with the fate of
its mounts. -/
abbrev Drives := Nat → Option (Disk × MountEnv)

/-- `get_hdd_count`, from drive `n` on: up to the first number that cannot be opened. -/
def getHddCount (drives : Drives) : (fuel n : Nat) → Except Fault Nat
  | 0, _ => .error .hang
  | fuel + 1, n => if (drives n).isSome then getHddCount drives fuel (n + 1) else .ok n

def countedDrives (drives : Drives) (count : Nat) : Machine := (List.range count).filterMap drives

/-- What is behind `hard_disks`. -/
def linuxDisksOf (tables : List LinuxTable) : LinuxDisks := fun diskNo partNoMap =>
  tables[diskNo]?.bind fun table => table.parts[partNoMap]?.map LinuxPart.part

def foundDisks (fuel : Nat) (machine : Machine) : LinuxDisks :=
  match initDisks fuel 0 machine with
  | .error _ => linuxDisksOf []
  | .ok (_, tables) => linuxDisksOf tables

/-- What `FsInit` returns, and what it leaves of the plugin. -/
structure InitResult where
  ret : Int
  initialized : Bool
  devices : Devices
  hardDisks : LinuxDisks

def fsInit (fuel : Nat) (isUserAdmin : Bool) (drives : Drives) : Except Fault InitResult :=
  if !isUserAdmin then .ok ⟨-1, false, devicesOf [] none, linuxDisksOf []⟩
  else
    match getHddCount drives fuel 0 with
    | .error fault => .error fault
    | .ok count =>
      match searchSystemForLinuxExt2Partitions fuel (countedDrives drives count) with
      | .error fault => .error fault
      | .ok (p, devices) =>
        let hardDisks := foundDisks fuel (countedDrives drives count)
        if int32 p = -1 then .ok ⟨-1, false, devices, hardDisks⟩
        else .ok ⟨0, true, devices, hardDisks⟩

namespace InitResult

variable (init : InitResult)

def env (diskEnv : DiskEnv) (toUtf8 toAcp : List UInt8 → List UInt8) : PluginEnv LinuxDisks :=
  ⟨init.initialized, init.devices, linuxPartitions diskEnv, toUtf8, toAcp⟩

def start : SearchState LinuxDisks := ⟨⟨init.hardDisks, none, 0⟩, fun _ => none, fun _ => none⟩

end InitResult

/-! ## The drives -/

theorem getHddCount_ok {drives : Drives} : ∀ {fuel n count : Nat},
    getHddCount drives fuel n = .ok count →
      n ≤ count ∧ drives count = none ∧ ∀ k, n ≤ k → k < count → (drives k).isSome = true
  | 0, _, _, h => nomatch h
  | fuel + 1, n, count, h => by
    rw [getHddCount] at h
    split at h
    next hsome =>
      obtain ⟨hle, hnone, hall⟩ := getHddCount_ok h
      refine ⟨by omega, hnone, ?_⟩
      intro k hk hlt
      rcases Nat.eq_or_lt_of_le hk with rfl | hk
      · exact hsome
      · exact hall k hk hlt
    next hnone =>
      cases h
      exact ⟨Nat.le_refl n, Option.not_isSome_iff_eq_none.mp hnone, fun k hk hlt => by omega⟩

theorem countedDrives_succ {drives : Drives} {count : Nat} {drive : Disk × MountEnv}
    (h : drives count = some drive) :
    countedDrives drives (count + 1) = countedDrives drives count ++ [drive] := by
  simp [countedDrives, List.range_succ, h]

/-- Drives without a gap keep their numbers. -/
theorem countedDrives_get {drives : Drives} {count : Nat}
    (h : ∀ k, k < count → (drives k).isSome = true) :
    (countedDrives drives count).length = count ∧
      ∀ diskNo, diskNo < count → (countedDrives drives count)[diskNo]? = drives diskNo := by
  induction count with
  | zero => exact ⟨rfl, nofun⟩
  | succ count ih =>
    obtain ⟨hlen, hget⟩ := ih fun k hk => h k (by omega)
    obtain ⟨drive, hdrive⟩ := Option.isSome_iff_exists.mp (h count (by omega))
    rw [countedDrives_succ hdrive]
    refine ⟨by simp [hlen], ?_⟩
    intro diskNo hdisk
    rcases Nat.lt_succ_iff_lt_or_eq.mp hdisk with hlt | rfl
    · rw [List.getElem?_append_left (by omega), hget diskNo hlt]
    · rw [List.getElem?_append_right (by omega), hlen, hdrive]
      simp

/-! ## The tables -/

theorem initDisks_get {fuel : Nat} : ∀ {machine : Machine} {p p' : Nat} {tables : List LinuxTable},
    initDisks fuel p machine = .ok (p', tables) → ∀ (diskNo : Nat) (table : LinuxTable),
      tables[diskNo]? = some table → ∃ disk env ok, machine[diskNo]? = some (disk, env) ∧
        disk.init env fuel = .ok (ok, table)
  | [], _, _, _, h, diskNo, table, hget => by
    cases h
    simp at hget
  | (disk, env) :: machine, p, p', tables, h, diskNo, table, hget => by
    rw [initDisks] at h
    split at h
    next => cases h
    next ok table₀ hinit =>
      split at h
      next => cases h
      next =>
        split at h
        next => cases h
        next hrest =>
          cases h
          cases diskNo with
          | zero =>
            obtain rfl := Option.some.inj hget
            exact ⟨disk, env, ok, rfl, hinit⟩
          | succ diskNo => exact initDisks_get hrest diskNo table (by simpa using hget)

theorem disk_get {devices : Devices} {tables : List LinuxTable}
    (h : devices.partNos = tables.map LinuxTable.partNos) (diskNo partNoMap : Nat) :
    (devices.disk diskNo)[partNoMap]? =
      tables[diskNo]?.bind fun table => table.parts[partNoMap]?.map fun p => p.info.partNo := by
  rw [Devices.disk, h, List.getD_eq_getElem?_getD, List.getElem?_map]
  cases tables[diskNo]? with
  | none => rfl
  | some table => simp [LinuxTable.partNos]

theorem initDisks_of_search {fuel p : Nat} {machine : Machine} {devices : Devices}
    (h : searchSystemForLinuxExt2Partitions fuel machine = .ok (p, devices)) :
    ∃ tables, initDisks fuel 0 machine = .ok (p, tables) := by
  unfold searchSystemForLinuxExt2Partitions at h
  split at h
  next hempty =>
    cases h
    exact ⟨[], by rw [List.length_eq_zero_iff.mp hempty]; rfl⟩
  next =>
    split at h
    next => cases h
    next hinit =>
      split at h
      next => cases h
      next =>
        cases h
        exact ⟨_, hinit⟩

/-! ## What was found -/

/-- An entry of the partition table of a drive whose mount succeeded. -/
structure OnDrive (fuel : Nat) (drives : Drives) (diskNo : Nat) (disk : Disk) (p : LinuxPart) :
    Prop where
  found : ∃ env scan i, drives diskNo = some (disk, env) ∧
    disk.makePartitionsList fuel = .ok scan ∧ 0 ≤ scan.ret ∧
      disk.Tries env (listEntries scan.partitions) i true p

/-- What a successful `FsInit` has done with the drives. -/
structure Searched (fuel : Nat) (drives : Drives) (init : InitResult) (count : Nat)
    (tables : List LinuxTable) : Prop where
  last : drives count = none
  opened : ∀ k, k < count → (drives k).isSome = true
  run : ∃ p, initDisks fuel 0 (countedDrives drives count) = .ok (p, tables)
  sound : ∀ table ∈ tables, SoundTable table
  mapped : mapTables (TwoLevel.total (tables.map LinuxTable.partNos)) tables = .ok init.devices
  objects : init.hardDisks = linuxDisksOf tables

theorem fsInit_searched {fuel : Nat} {drives : Drives} {init : InitResult}
    (h : fsInit fuel true drives = .ok init) :
    ∃ count tables, Searched fuel drives init count tables := by
  rw [fsInit, if_neg (by decide)] at h
  split at h
  next => cases h
  next count hcount =>
    obtain ⟨-, hlast, hopened⟩ := getHddCount_ok hcount
    split at h
    next => cases h
    next p devices hsearch =>
      have hleft : init.devices = devices ∧
          init.hardDisks = foundDisks fuel (countedDrives drives count) := by
        dsimp only at h
        split at h <;> cases h <;> exact ⟨rfl, rfl⟩
      obtain ⟨rfl, hdisks⟩ := hleft
      obtain ⟨tables, hrun⟩ := initDisks_of_search hsearch
      obtain ⟨-, hsound, hsum⟩ := initDisks_spec hrun
      rw [searchSystem_eq hrun] at hsearch
      obtain ⟨devices, hmap, heq⟩ := exists_of_map_ok hsearch
      cases heq
      rw [hsum, Nat.zero_add] at hmap
      refine ⟨count, tables, hlast, fun k hk => hopened k (Nat.zero_le k) hk, ⟨p, hrun⟩, hsound,
        hmap, ?_⟩
      rw [hdisks, foundDisks, hrun]

namespace Searched

variable {fuel : Nat} {drives : Drives} {init : InitResult} {count : Nat}
  {tables : List LinuxTable} (h : Searched fuel drives init count tables)
include h

theorem devices : init.devices.partNos = tables.map LinuxTable.partNos ∧
    SoundDevices init.devices := by
  obtain ⟨devices, hmap, hnos, hsound⟩ := mapTables_sound h.sound
  cases h.mapped.symm.trans hmap
  exact ⟨hnos, hsound⟩

theorem table {diskNo : Nat} {table : LinuxTable} (htable : tables[diskNo]? = some table) :
    ∃ disk env ok, drives diskNo = some (disk, env) ∧ disk.init env fuel = .ok (ok, table) := by
  obtain ⟨p, hrun⟩ := h.run
  obtain ⟨hlen, hget⟩ := countedDrives_get h.opened
  obtain ⟨disk, env, ok, hdrive, hinit⟩ := initDisks_get hrun diskNo table htable
  have hlt : diskNo < count := hlen ▸ (List.getElem?_eq_some_iff.mp hdrive).1
  exact ⟨disk, env, ok, hget diskNo hlt ▸ hdrive, hinit⟩

theorem object {diskNo partNoMap : Nat} {part : PartitionLinuxExt2}
    (hpart : init.hardDisks diskNo partNoMap = some part) :
    ∃ disk p, OnDrive fuel drives diskNo disk p ∧ p.part = part ∧
      (init.devices.disk diskNo)[partNoMap]? = some p.info.partNo := by
  rw [h.objects, linuxDisksOf, Option.bind_eq_some_iff] at hpart
  obtain ⟨table, htable, hpart⟩ := hpart
  obtain ⟨p, hp, rfl⟩ := Option.map_eq_some_iff.mp hpart
  obtain ⟨disk, env, ok, hdrive, hinit⟩ := h.table htable
  obtain ⟨scan, hscan, hmem⟩ := Disk.init_mem hinit
  obtain ⟨hret, i, htry⟩ := (hmem p).mp (List.mem_of_getElem? hp)
  refine ⟨disk, p, ⟨env, scan, i, hdrive, hscan, hret, htry⟩, rfl, ?_⟩
  simp [disk_get h.devices.1, htable, hp]

theorem place {diskNo : Nat} {disk : Disk} {p : LinuxPart} (hdisk : diskNo < count)
    (hp : OnDrive fuel drives diskNo disk p) :
    ∃ partNoMap, init.hardDisks diskNo partNoMap = some p.part ∧
      (init.devices.disk diskNo)[partNoMap]? = some p.info.partNo := by
  obtain ⟨sum, hrun⟩ := h.run
  obtain ⟨hlen, -, -⟩ := initDisks_spec hrun
  have htable := List.getElem?_eq_getElem
    (show diskNo < tables.length by rw [hlen, (countedDrives_get h.opened).1]; exact hdisk)
  obtain ⟨disk', env', ok, hdrive', hinit⟩ := h.table htable
  obtain ⟨env, scan, i, hdrive, hscan, hret, htry⟩ := hp.found
  cases hdrive.symm.trans hdrive'
  obtain ⟨scan', hscan', hmem⟩ := Disk.init_mem hinit
  cases hscan.symm.trans hscan'
  obtain ⟨partNoMap, hget⟩ := List.mem_iff_getElem?.mp ((hmem p).mpr ⟨hret, i, htry⟩)
  refine ⟨partNoMap, ?_, ?_⟩
  · simp [h.objects, linuxDisksOf, htable, hget]
  · simp [disk_get h.devices.1, htable, hget]

end Searched

/-! ## What the calls meet -/

/-- Layouts that an inode lookup can handle. -/
def Usable (hardDisks : LinuxDisks) : Prop :=
  ∀ diskNo partNoMap part info, hardDisks diskNo partNoMap = some part → part.ext2 = .live info →
    TableLayout part.part info

/-- A mount stands for an entry of a partition table, in the place of its number. -/
structure StandsFor (init : InitResult) (diskNo partNoMap : Nat) (disk : Disk) (p : LinuxPart)
    (m : Mount) : Prop where
  part : m.part = disk.partitionOf p.info
  holds : m.Holds p.part
  number : (init.devices.disk diskNo)[partNoMap]? = some p.info.partNo

/-- The mounts are what is on the drives, up to the first number without one: each of them
stands for an entry that mounts, and no such entry is missing. -/
structure Detected (fuel : Nat) (drives : Drives) (init : InitResult)
    (mounts : Nat → Nat → Option Mount) : Prop where
  mounted : ∀ diskNo partNoMap m, mounts diskNo partNoMap = some m →
    ∃ disk p, OnDrive fuel drives diskNo disk p ∧ StandsFor init diskNo partNoMap disk p m
  all : ∀ diskNo disk p, (∀ k, k ≤ diskNo → (drives k).isSome = true) →
    OnDrive fuel drives diskNo disk p →
      ∃ partNoMap m, mounts diskNo partNoMap = some m ∧ StandsFor init diskNo partNoMap disk p m

section OnDrive

variable {fuel : Nat} {drives : Drives} {diskNo : Nat} {disk : Disk} {p : LinuxPart}
  (h : OnDrive fuel drives diskNo disk p)
include h

theorem OnDrive.live : ∃ info tables, p.part.part = disk.partitionOf p.info ∧
    p.part.ext2 = .live info ∧ info.tables = some tables := by
  obtain ⟨env, scan, i, -, -, -, htry⟩ := h.found
  obtain ⟨hfalse, -⟩ | ⟨-, -, -, -, buffer, -, hpart⟩ := getExt2Sb_new htry.mount
  · cases hfalse
  · rw [hpart]
    exact ⟨_, _, rfl, rfl, rfl⟩

theorem OnDrive.mount (hlayout : ∀ info, p.part.ext2 = .live info → TableLayout p.part.part info) :
    ∃ m : Mount, m.Holds p.part := by
  obtain ⟨env, scan, i, -, -, -, htry⟩ := h.found
  obtain ⟨info, tables, hpart, hlive, htables⟩ := h.live
  obtain ⟨m, -, -, -, hholds⟩ :=
    Mount.holds_of_getExt2Sb htry.mount hlive htables (hpart ▸ hlayout info hlive)
  exact ⟨m, hholds⟩

theorem OnDrive.standsFor {init : InitResult} {partNoMap : Nat} {m : Mount} (hm : m.Holds p.part)
    (hno : (init.devices.disk diskNo)[partNoMap]? = some p.info.partNo) :
    StandsFor init diskNo partNoMap disk p m := by
  obtain ⟨-, -, hpart, -⟩ := h.live
  exact ⟨hm.live.1.symm.trans hpart, hm, hno⟩

end OnDrive

/-- **The objects that the search leaves are mounts of what is on the drives.** -/
theorem Searched.mounts {fuel : Nat} {drives : Drives} {init : InitResult} {count : Nat}
    {tables : List LinuxTable} (h : Searched fuel drives init count tables)
    (hlayout : Usable init.hardDisks) :
    ∃ mounts, Mounted mounts init.hardDisks ∧ Detected fuel drives init mounts := by
  have hone : ∀ diskNo partNoMap, ∃ found : Option Mount,
      (init.hardDisks diskNo partNoMap = none → found = none) ∧
        ∀ part, init.hardDisks diskNo partNoMap = some part →
          ∃ m, found = some m ∧ m.Holds part := by
    intro diskNo partNoMap
    cases hpart : init.hardDisks diskNo partNoMap with
    | none => exact ⟨none, fun _ => rfl, fun _ hpart => by cases hpart⟩
    | some part =>
      obtain ⟨disk, p, hdrive, rfl, -⟩ := h.object hpart
      obtain ⟨m, hm⟩ := hdrive.mount fun info hlive => hlayout _ _ _ _ hpart hlive
      refine ⟨some m, (fun hnone => by cases hnone), ?_⟩
      intro part hsome
      cases hsome
      exact ⟨m, rfl, hm⟩
  choose mounts hnone hsome using hone
  refine ⟨mounts, ?_, ?_, ?_⟩
  · intro diskNo partNoMap
    cases hpart : init.hardDisks diskNo partNoMap with
    | none => simp only [hnone diskNo partNoMap hpart]
    | some part =>
      obtain ⟨m, hm, hholds⟩ := hsome diskNo partNoMap part hpart
      rw [hm]
      exact ⟨part, rfl, hholds⟩
  · intro diskNo partNoMap m hm
    cases hpart : init.hardDisks diskNo partNoMap with
    | none => cases hm.symm.trans (hnone diskNo partNoMap hpart)
    | some part =>
      obtain ⟨m', hm', hholds⟩ := hsome diskNo partNoMap part hpart
      cases hm.symm.trans hm'
      obtain ⟨disk, p, hdrive, rfl, hno⟩ := h.object hpart
      exact ⟨disk, p, hdrive, hdrive.standsFor hholds hno⟩
  · intro diskNo disk p hopen hdrive
    have hlt : diskNo < count := by
      by_contra hge
      have := hopen count (by omega)
      rw [h.last] at this
      cases this
    obtain ⟨partNoMap, hpart, hno⟩ := h.place hlt hdrive
    obtain ⟨m, hm, hholds⟩ := hsome diskNo partNoMap _ hpart
    exact ⟨partNoMap, m, hm, hdrive.standsFor hholds hno⟩

/-! ## The calls -/

theorem extract_no_disks {devices : Devices} (h : devices.partNos = []) (path : List UInt8) :
    devices.extractDiskAndPartNo path = none := by
  by_contra hne
  obtain ⟨⟨diskNo, partNo⟩, hread⟩ := Option.ne_none_iff_exists'.mp hne
  obtain ⟨letters, digits, -, hvalid, -⟩ := extract_iff.mp hread
  obtain ⟨hlo, hlt, -⟩ := validate_iff.mp hvalid
  simp [h] at hlt
  omega

/-- Without administrator rights `FsInit` gives up, and the calls find nothing. -/
theorem refused_init_finds_nothing {fuel : Nat} {drives : Drives} {init : InitResult}
    (h : fsInit fuel false drives = .ok init) (diskEnv : DiskEnv)
    (toUtf8 toAcp : List UInt8 → List UInt8) (descr : Ext4PluginDescr LinuxDisks)
    (path : List UInt8) (fd : FindData) (createOk : Bool) :
    init.ret = -1 ∧
      fsFindFirst (init.env diskEnv toUtf8 toAcp) descr path fd = .ok ((none, fd), descr) ∧
        fsGetFile (init.env diskEnv toUtf8 toAcp) createOk descr.hardDisks path =
          .ok (.notFound, descr.hardDisks) := by
  cases h
  have hread : (devicesOf [] none).extractDiskAndPartNo path = none := extract_no_disks rfl path
  refine ⟨rfl, rfl, ?_⟩
  simp only [fsGetFile, InitResult.env, hread]

/-- The plugin whose partitions keep nothing and read what the mounts say. -/
def InitResult.uncachedEnv (init : InitResult) (mounts : Nat → Nat → Option Mount)
    (diskEnv : DiskEnv) (toUtf8 toAcp : List UInt8 → List UInt8) : PluginEnv Unit :=
  (init.env diskEnv toUtf8 toAcp).on (volumePartitions (linuxVolume mounts diskEnv))

/-- **After `FsInit` every session shows what is on the drives**: it has the replies, and the
faults, of a plugin without state behind its partitions, which reads from the drives, with
every call, what the partition tables and superblocks say is there. -/
theorem session_after_init {fuel : Nat} {drives : Drives} {init : InitResult}
    (h : fsInit fuel true drives = .ok init) (hlayout : Usable init.hardDisks) {diskEnv : DiskEnv}
    (hok : ∀ n, (diskEnv.dir n).inodeOk = true) (toUtf8 toAcp : List UInt8 → List UInt8) :
    SoundDevices init.devices ∧ ∃ mounts, Detected fuel drives init mounts ∧ ∀ calls,
      (pluginSystem (init.env diskEnv toUtf8 toAcp)).run init.start calls =
        (pluginSystem (init.uncachedEnv mounts diskEnv toUtf8 toAcp)).run init.start.uncached
          calls := by
  obtain ⟨count, tables, hsearched⟩ := fsInit_searched h
  obtain ⟨mounts, hd, hdetected⟩ := hsearched.mounts hlayout
  refine ⟨hsearched.devices.2, mounts, hdetected, fun calls => ?_⟩
  exact ClientSystem.run_eq_of_tracks
    (R := SameSession fun disks (_ : Unit) => Mounted mounts disks) rfl
    (fun _ _ call hs => uncached_step rfl hok call hs) (SearchState.same_uncached hd) calls

/-! ## Two drives -/

def drivesOf (machine : Machine) : Drives := fun n => machine[n]?

instance (p : Partition) (info : Ext4SbInfo) : Decidable (TableLayout p info) :=
  decidable_of_iff (0 < info.ext4Sb.sInodesPerGroup ∧
      info.ext4Sb.sInodeSize * info.ext4Sb.sInodesPerGroup + p.sectorSize - 1 < 2 ^ 32 ∧
        p.sectorSize ∣ info.ext4Sb.blockSize)
    ⟨fun ⟨h₁, h₂, h₃⟩ => ⟨h₁, h₂, h₃⟩, fun ⟨h₁, h₂, h₃⟩ => ⟨h₁, h₂, h₃⟩⟩

/-- The layouts of a table, as far as its objects are live. -/
def usableTable (table : LinuxTable) : Bool :=
  table.parts.all fun p =>
    match p.part.ext2 with
    | .live info => decide (TableLayout p.part.part info)
    | _ => true

theorem usable_of_tables {tables : List LinuxTable} (h : tables.all usableTable = true) :
    Usable (linuxDisksOf tables) := by
  intro diskNo partNoMap part info hpart hlive
  rw [linuxDisksOf, Option.bind_eq_some_iff] at hpart
  obtain ⟨table, htable, hpart⟩ := hpart
  obtain ⟨p, hp, rfl⟩ := Option.map_eq_some_iff.mp hpart
  have husable := List.all_eq_true.mp h table (List.mem_of_getElem? htable)
  have hone := List.all_eq_true.mp husable p (List.mem_of_getElem? hp)
  rw [hlive] at hone
  exact of_decide_eq_true hone

theorem Searched.machine {fuel : Nat} {machine : Machine} {init : InitResult} {count : Nat}
    {tables : List LinuxTable} (h : Searched fuel (drivesOf machine) init count tables) :
    countedDrives (drivesOf machine) count = machine := by
  obtain ⟨hlen, hget⟩ := countedDrives_get h.opened
  refine List.ext_getElem? fun k => ?_
  by_cases hk : k < count
  · exact hget k hk
  · have hlast := List.getElem?_eq_none_iff.mp h.last
    rw [List.getElem?_eq_none (by omega), List.getElem?_eq_none (by omega)]

theorem usable_of_fsInit {fuel : Nat} {machine : Machine} {init : InitResult}
    (h : fsInit fuel true (drivesOf machine) = .ok init)
    (htables : (initDisks fuel 0 machine).map (fun r => r.2.all usableTable) = .ok true) :
    Usable init.hardDisks := by
  obtain ⟨count, tables, hsearched⟩ := fsInit_searched h
  obtain ⟨p, hrun⟩ := hsearched.run
  rw [hsearched.machine] at hrun
  rw [hrun] at htables
  rw [hsearched.objects]
  exact usable_of_tables (Except.ok.inj htables)

theorem twoDisks_fsInit : ∃ init, fsInit 3 true (drivesOf twoDisks) = .ok init ∧ init.ret = 0 ∧
    Usable init.hardDisks := by
  have hret : (fsInit 3 true (drivesOf twoDisks)).map InitResult.ret = .ok 0 := by decide +kernel
  obtain ⟨init, hinit, hret⟩ := exists_of_map_ok hret
  exact ⟨init, hinit, hret, usable_of_fsInit hinit (by decide +kernel)⟩

theorem session_after_init_twoDisks :
    ∃ init, fsInit 3 true (drivesOf twoDisks) = .ok init ∧ SoundDevices init.devices ∧
      ∃ mounts, Detected 3 (drivesOf twoDisks) init mounts ∧ ∀ calls,
        (pluginSystem (init.env treeEnv id id)).run init.start calls =
          (pluginSystem (init.uncachedEnv mounts treeEnv id id)).run init.start.uncached calls := by
  obtain ⟨init, hinit, -, husable⟩ := twoDisks_fsInit
  exact ⟨init, hinit, session_after_init hinit husable (fun _ => rfl) id id⟩

end Ext4tc.Plugin
