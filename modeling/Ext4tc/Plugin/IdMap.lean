import Ext4tc.DiskUtils.DiskInit
import Ext4tc.Plugin.Devices

/-! # The map of partition numbers

`search_system_for_linux_ext2_partitions` and `init_ext2_partitions_id_map`: the disks of
the machine are initialised, and one array takes the number of every ext partition to its
place in the table of its disk. It is the two-level index of the library. -/

namespace Ext4tc.Plugin
open Ext4tc.Lib Ext4tc.DiskUtils

/-- The disks that `get_hdd_count` counts, each with the fate of its mounts. -/
abbrev Machine := List (Disk × MountEnv)

/-- `get_partitions_ext2()[n - 1]->get_part_no()`. -/
def lastPartNo (table : LinuxTable) : Except Fault Nat :=
  match table.parts[table.count - 1]? with
  | none => .error .outOfBounds
  | some p => .ok p.info.partNo

/-- The loop over the disks, which sums up their greatest numbers. -/
def initDisks (fuel : Nat) : (p : Nat) → Machine → Except Fault (Nat × List LinuxTable)
  | p, [] => .ok (p, [])
  | p, (disk, env) :: machine =>
    match disk.init env fuel with
    | .error fault => .error fault
    | .ok (_, table) =>
      match if 0 < table.count then lastPartNo table else .ok 0 with
      | .error fault => .error fault
      | .ok last =>
        match initDisks fuel (p + last) machine with
        | .error fault => .error fault
        | .ok (p, tables) => .ok (p, table :: tables)

/-- The loop over the partitions of a disk, `k` of them from partition `j` on. -/
def mapPartitions (pos : Nat) (table : LinuxTable) :
    (k j : Nat) → List Nat → Except Fault (List Nat)
  | 0, _, idMap => .ok idMap
  | k + 1, j, idMap =>
    match table.parts[j]? with
    | none => .error .outOfBounds
    | some p =>
      match writeCell .outOfBounds idMap (pos + p.info.partNo - 1) j with
      | .error fault => .error fault
      | .ok idMap => mapPartitions pos table k (j + 1) idMap

/-- The loop over the disks, from disk `i` on. -/
def mapDisks : (i pos : Nat) → List LinuxTable → List Nat → Except Fault (List Nat)
  | _, _, [], idMap => .ok idMap
  | i, pos, table :: tables, idMap =>
    if 0 < table.count then
      match writeCell .outOfBounds idMap i pos with
      | .error fault => .error fault
      | .ok idMap =>
        match mapPartitions pos table table.count 0 idMap with
        | .error fault => .error fault
        | .ok idMap =>
          match lastPartNo table with
          | .error fault => .error fault
          | .ok last => mapDisks (i + 1) (pos + last) tables idMap
    else
      match writeCell .outOfBounds idMap i 0 with
      | .error fault => .error fault
      | .ok idMap => mapDisks (i + 1) pos tables idMap

def initExt2PartitionsIdMap (tables : List LinuxTable) (partitionsIdMapElem : Nat) :
    Except Fault (List Nat) :=
  mapDisks 0 tables.length tables (List.replicate partitionsIdMapElem 0)

def devicesOf (tables : List LinuxTable) (idMap : Option (List Nat)) : Devices :=
  ⟨tables.map LinuxTable.partNos, idMap⟩

/-- `search_system_for_linux_ext2_partitions`, which makes no map for a machine without disks. -/
def searchSystemForLinuxExt2Partitions (fuel : Nat) (machine : Machine) :
    Except Fault (Nat × Devices) :=
  if machine.length = 0 then .ok (0, devicesOf [] none)
  else
    match initDisks fuel 0 machine with
    | .error fault => .error fault
    | .ok (p, tables) =>
      match initExt2PartitionsIdMap tables (machine.length + p) with
      | .error fault => .error fault
      | .ok idMap => .ok (p, devicesOf tables (some idMap))

/-! ## The tables -/

/-- A table as `init` leaves it. -/
structure SoundTable (table : LinuxTable) : Prop where
  count : table.count = table.parts.length
  increasing : Increasing table.partNos

theorem SoundTable.lastPartNo {table : LinuxTable} (h : SoundTable table) (hne : 0 < table.count) :
    lastPartNo table = .ok (TwoLevel.width table.partNos) := by
  have hlast : table.parts[table.count - 1]? = table.parts.getLast? := by
    rw [List.getLast?_eq_getElem?, h.count]
  rw [Plugin.lastPartNo, hlast, TwoLevel.width, LinuxTable.partNos, List.getLast?_map]
  cases hp : table.parts.getLast? with
  | none =>
    rw [List.getLast?_eq_none_iff] at hp
    simp [h.count, hp] at hne
  | some p => rfl

theorem SoundTable.partNos_nil {table : LinuxTable} (h : SoundTable table) :
    table.partNos = [] ↔ table.count = 0 := by
  rw [LinuxTable.partNos, List.map_eq_nil_iff, h.count, List.length_eq_zero_iff]

theorem initDisks_spec {fuel : Nat} : ∀ {machine : Machine} {p p' : Nat} {tables : List LinuxTable},
    initDisks fuel p machine = .ok (p', tables) →
      tables.length = machine.length ∧ (∀ table ∈ tables, SoundTable table) ∧
        p' = p + TwoLevel.total (tables.map LinuxTable.partNos)
  | [], p, p', tables, h => by
    cases h
    exact ⟨rfl, nofun, rfl⟩
  | (disk, env) :: machine, p, p', tables, h => by
    rw [initDisks] at h
    split at h
    next => cases h
    next ok table hinit =>
      obtain ⟨hcount, hinc⟩ := Disk.init_table hinit
      have hsound : SoundTable table := ⟨hcount, hinc⟩
      have hlast : (if 0 < table.count then Plugin.lastPartNo table else .ok 0) =
          .ok (TwoLevel.width table.partNos) := by
        by_cases hne : 0 < table.count
        · rw [if_pos hne, hsound.lastPartNo hne]
        · rw [if_neg hne, hsound.partNos_nil.mpr (by omega)]
          rfl
      rw [hlast] at h
      simp only at h
      split at h
      next => cases h
      next p₁ tables₁ hrest =>
        cases h
        obtain ⟨hlen, hall, hsum⟩ := initDisks_spec hrest
        refine ⟨by simp [hlen], ?_, ?_⟩
        · intro t ht
          rcases List.mem_cons.mp ht with rfl | ht
          · exact hsound
          · exact hall t ht
        · simp only [hsum, List.map_cons, TwoLevel.total]
          omega

/-! ## The writes -/

theorem mapPartitions_eq (pos : Nat) (table : LinuxTable) : ∀ (k j : Nat) (idMap : List Nat),
    j + k = table.parts.length →
      mapPartitions pos table k j idMap = writeCells .outOfBounds
        (((table.partNos.drop j).zipIdx j).map fun p => (pos + p.1 - 1, p.2)) idMap
  | 0, j, idMap, h => by
    have hdrop : table.partNos.drop j = [] := by
      rw [List.drop_eq_nil_iff, LinuxTable.partNos, List.length_map]
      omega
    rw [hdrop]
    rfl
  | k + 1, j, idMap, h => by
    have hj : j < table.parts.length := by omega
    have hj' : j < table.partNos.length := by rwa [LinuxTable.partNos, List.length_map]
    have hno : table.partNos[j] = table.parts[j].info.partNo := List.getElem_map _
    rw [mapPartitions, List.getElem?_eq_getElem hj, List.drop_eq_getElem_cons hj', hno,
      List.zipIdx_cons, List.map_cons, writeCells]
    dsimp only
    cases writeCell Fault.outOfBounds idMap (pos + table.parts[j].info.partNo - 1) j with
    | error fault => rfl
    | ok idMap' => exact mapPartitions_eq pos table k (j + 1) idMap' (by omega)

/-- **The loops write the two-level index**, cell by cell. -/
theorem mapDisks_eq : ∀ (tables : List LinuxTable) (i pos : Nat) (idMap : List Nat),
    (∀ table ∈ tables, SoundTable table) →
      mapDisks i pos tables idMap = writeCells .outOfBounds
        (TwoLevel.writes i pos (tables.map LinuxTable.partNos)) idMap
  | [], _, _, _, _ => rfl
  | table :: tables, i, pos, idMap, h => by
    have hsound := h table List.mem_cons_self
    have hrest := fun t ht => h t (List.mem_cons_of_mem _ ht)
    rw [mapDisks, List.map_cons, TwoLevel.writes, List.cons_append, writeCells]
    by_cases hne : 0 < table.count
    · have hnos : table.partNos ≠ [] := fun hnil => by
        have := hsound.partNos_nil.mp hnil
        omega
      rw [if_pos hne, if_neg hnos]
      cases writeCell Fault.outOfBounds idMap i pos with
      | error fault => rfl
      | ok idMap₁ =>
        have hparts := mapPartitions_eq pos table table.count 0 idMap₁
          (by rw [hsound.count, Nat.zero_add])
        rw [List.drop_zero, ← TwoLevel.segment] at hparts
        simp only [hparts, writeCells_append, hsound.lastPartNo hne]
        cases writeCells Fault.outOfBounds (TwoLevel.segment pos table.partNos) idMap₁ with
        | error fault => rfl
        | ok idMap₂ =>
          exact mapDisks_eq tables (i + 1) (pos + TwoLevel.width table.partNos) idMap₂ hrest
    · have hnos := hsound.partNos_nil.mpr (by omega)
      rw [if_neg hne, if_pos hnos, hnos]
      cases writeCell Fault.outOfBounds idMap i 0 with
      | error fault => rfl
      | ok idMap₁ => exact mapDisks_eq tables (i + 1) pos idMap₁ hrest

/-- The writes of `init_ext2_partitions_id_map`, in their order. -/
def idMapWrites (tables : List LinuxTable) : List (Nat × Nat) :=
  TwoLevel.writes 0 tables.length (tables.map LinuxTable.partNos)

/-! ## The map -/

/-- Every number is listed, and found. -/
def Indexed (devices : Devices) : Prop :=
  ∀ diskNo j partNo, (devices.disk diskNo)[j]? = some partNo →
    devices.getPartitionIndexViaRealNumber diskNo partNo = .ok j

theorem indexed_of_reads {tables : List LinuxTable} {idMap : List Nat}
    (hsound : ∀ table ∈ tables, SoundTable table)
    (h : ∀ (k j p : Nat) (nos : List Nat), (tables.map LinuxTable.partNos)[k]? = some nos →
      nos[j]? = some p → ∃ b, idMap[k]? = some b ∧ idMap[b + p - 1]? = some j) :
    Indexed (devicesOf tables (some idMap)) := by
  intro diskNo j partNo hpart
  have hdisk : (tables.map LinuxTable.partNos)[diskNo]? =
      some ((devicesOf tables (some idMap)).disk diskNo) := by
    cases hget : (tables.map LinuxTable.partNos)[diskNo]? with
    | none =>
      rw [Devices.disk, devicesOf, List.getD_eq_getElem?_getD, hget] at hpart
      cases hpart
    | some nos => rw [Devices.disk, devicesOf, List.getD_eq_getElem?_getD, hget, Option.getD_some]
  obtain ⟨b, hlead, hcell⟩ := h diskNo j partNo _ hdisk hpart
  have hmem := List.mem_of_getElem? hdisk
  obtain ⟨table, htable, hnos⟩ := List.mem_map.mp hmem
  have hpos := (hsound table htable).increasing.pos partNo (hnos ▸ List.mem_of_getElem? hpart)
  simp only [Devices.getPartitionIndexViaRealNumber, devicesOf, hlead, hcell]
  rw [if_neg (by omega)]

theorem increasing_of_sound {tables : List LinuxTable}
    (hsound : ∀ table ∈ tables, SoundTable table) :
    ∀ nos ∈ tables.map LinuxTable.partNos, Increasing nos := by
  intro nos hnos
  obtain ⟨table, htable, rfl⟩ := List.mem_map.mp hnos
  exact (hsound table htable).increasing

theorem initExt2PartitionsIdMap_spec {tables : List LinuxTable}
    (hsound : ∀ table ∈ tables, SoundTable table) :
    ∃ idMap, initExt2PartitionsIdMap tables
        (tables.length + TwoLevel.total (tables.map LinuxTable.partNos)) = .ok idMap ∧
      Indexed (devicesOf tables (some idMap)) := by
  obtain ⟨idMap, hrun, hreads⟩ :=
    TwoLevel.writes_index Fault.outOfBounds (increasing_of_sound hsound) 0
  rw [List.length_map] at hrun
  refine ⟨idMap, ?_, indexed_of_reads hsound hreads⟩
  rw [initExt2PartitionsIdMap, mapDisks_eq tables 0 tables.length _ hsound]
  exact hrun

/-- What the plugin relies on: the numbers of a disk increase, each is found, and without a
map there are none. -/
structure SoundDevices (devices : Devices) : Prop where
  increasing : ∀ diskNo, Increasing (devices.disk diskNo)
  indexed : Indexed devices
  mapped : devices.idMap = none → ∀ diskNo, devices.disk diskNo = []

/-- What the search does with the tables, whose greatest numbers add up to `p`: a machine
without disks gets no map. -/
def mapTables (p : Nat) (tables : List LinuxTable) : Except Fault Devices :=
  if tables.length = 0 then .ok (devicesOf [] none)
  else (initExt2PartitionsIdMap tables (tables.length + p)).map fun idMap =>
    devicesOf tables (some idMap)

theorem searchSystem_eq {fuel p : Nat} {machine : Machine} {tables : List LinuxTable}
    (h : initDisks fuel 0 machine = .ok (p, tables)) :
    searchSystemForLinuxExt2Partitions fuel machine =
      (mapTables p tables).map fun devices => (p, devices) := by
  obtain ⟨hlen, -, hsum⟩ := initDisks_spec h
  unfold searchSystemForLinuxExt2Partitions mapTables
  rw [hlen]
  by_cases hempty : machine.length = 0
  · have htables := List.length_eq_zero_iff.mp (hlen.trans hempty)
    rw [if_pos hempty, if_pos hempty, hsum, htables]
    rfl
  · rw [if_neg hempty, if_neg hempty, h]
    dsimp only
    cases initExt2PartitionsIdMap tables (machine.length + p) with
    | error fault => rfl
    | ok idMap => rfl

/-- **Tables whose numbers increase are mapped**, and what comes of it can be relied on. -/
theorem mapTables_sound {tables : List LinuxTable} (hsound : ∀ table ∈ tables, SoundTable table) :
    ∃ devices, mapTables (TwoLevel.total (tables.map LinuxTable.partNos)) tables = .ok devices ∧
      devices.partNos = tables.map LinuxTable.partNos ∧ SoundDevices devices := by
  unfold mapTables
  by_cases hempty : tables.length = 0
  · have hnone : ∀ diskNo, (devicesOf [] none).disk diskNo = [] := fun _ => rfl
    rw [if_pos hempty, List.length_eq_zero_iff.mp hempty]
    refine ⟨_, rfl, rfl, fun diskNo => hnone diskNo ▸ .nil, ?_, fun _ => hnone⟩
    intro diskNo j partNo hpart
    rw [hnone] at hpart
    cases hpart
  · obtain ⟨idMap, hrun, hindexed⟩ := initExt2PartitionsIdMap_spec hsound
    rw [if_neg hempty, hrun]
    refine ⟨devicesOf tables (some idMap), rfl, rfl, ?_, hindexed, nofun⟩
    intro diskNo
    rw [Devices.disk, devicesOf, List.getD_eq_getElem?_getD]
    cases hget : (tables.map LinuxTable.partNos)[diskNo]? with
    | none => exact .nil
    | some nos => exact increasing_of_sound hsound nos (List.mem_of_getElem? hget)

theorem searchSystem_ok {fuel p : Nat} {machine : Machine} {tables : List LinuxTable}
    (h : initDisks fuel 0 machine = .ok (p, tables)) :
    ∃ devices, searchSystemForLinuxExt2Partitions fuel machine = .ok (p, devices) ∧
      devices.partNos = tables.map LinuxTable.partNos ∧ SoundDevices devices := by
  obtain ⟨-, hsound, hsum⟩ := initDisks_spec h
  obtain ⟨devices, hmap, hnos, hdevices⟩ := mapTables_sound hsound
  rw [Nat.zero_add] at hsum
  refine ⟨devices, ?_, hnos, hdevices⟩
  rw [searchSystem_eq h, hsum, hmap]
  rfl

/-- **The search leaves what the plugin relies on.** -/
theorem searchSystem_sound {fuel p : Nat} {machine : Machine} {devices : Devices}
    (h : searchSystemForLinuxExt2Partitions fuel machine = .ok (p, devices)) :
    SoundDevices devices := by
  cases hinit : initDisks fuel 0 machine with
  | error fault =>
    unfold searchSystemForLinuxExt2Partitions at h
    rw [hinit] at h
    split at h
    next hempty =>
      rw [List.length_eq_zero_iff.mp hempty] at hinit
      cases hinit
    next => cases h
  | ok r =>
    obtain ⟨p', tables⟩ := r
    obtain ⟨devices', hsearch, -, hsound⟩ := searchSystem_ok hinit
    cases h.symm.trans hsearch
    exact hsound

/-- **The map is within its bounds and correct**, on every machine whose disks could be
initialised: numbers of ext entries are positive and increase, the writes all go to
different cells of the array, and every number is taken to its place. -/
theorem partitions_id_map_correct {fuel p : Nat} {machine : Machine} {tables : List LinuxTable}
    (h : initDisks fuel 0 machine = .ok (p, tables)) :
    (∀ disk ∈ machine, ∀ r, disk.1.makePartitionsList fuel = .ok r →
        Increasing (linuxNos (listEntries r.partitions))) ∧
      (∀ w ∈ idMapWrites tables, w.1 < machine.length + p) ∧
      ((idMapWrites tables).map Prod.fst).Nodup ∧
      ∃ idMap, initExt2PartitionsIdMap tables (machine.length + p) = .ok idMap ∧
        writeCells Fault.outOfBounds (idMapWrites tables) (List.replicate (machine.length + p) 0) =
          .ok idMap ∧
        Indexed (devicesOf tables (some idMap)) := by
  obtain ⟨hlen, hsound, hsum⟩ := initDisks_spec h
  rw [Nat.zero_add] at hsum
  subst hsum
  have hinc := increasing_of_sound hsound
  obtain ⟨idMap, hrun, hindexed⟩ := initExt2PartitionsIdMap_spec hsound
  have hwrites := mapDisks_eq tables 0 tables.length
    (List.replicate (tables.length + TwoLevel.total (tables.map LinuxTable.partNos)) 0) hsound
  rw [← hlen]
  refine ⟨fun disk _ r hr => Disk.makePartitionsList_increasing hr, ?_, ?_, idMap, hrun, ?_,
    hindexed⟩
  · intro w hw
    have hb := TwoLevel.writes_bounds 0 tables.length _ hinc w hw
    rw [List.length_map] at hb
    omega
  · exact TwoLevel.writes_nodup 0 tables.length _ (by rw [List.length_map, Nat.zero_add]) hinc
  · exact hwrites.symm.trans hrun

/-! ## A machine -/

/-- The superblock of an ext file system in sixteen blocks of 4 KiB, at a byte of a disk. -/
def superBlockAt (pos : Nat) : List (Nat × List UInt8) :=
  [(pos + 4, [16]), (pos + 24, [2]), (pos + 32, [0, 0x80]), (pos + 40, [16]),
    (pos + 56, [0x53, 0xef]), (pos + 88, [128])]

/-- A disk with the partitions 1, 5 and 6 of the ext type, of which 1 and 6 can be mounted. -/
def linuxDisk : Disk :=
  diskOf ([(450, [0x83, 0, 0, 0, 100]), (466, [5, 0, 0, 0, 10]), (510, [0x55, 0xaa]),
    (5570, [0x83, 0, 0, 0, 100]), (5586, [5, 0, 0, 0, 10]), (5630, [0x55, 0xaa]),
    (10690, [0x83, 0, 0, 0, 100]), (10750, [0x55, 0xaa])] ++
    superBlockAt 52224 ++ superBlockAt 62464)

/-- Two disks, the first of which has no partition that can be mounted. -/
def twoDisks : Machine :=
  [(chainDisk, ⟨fun _ => true, fun _ => true⟩), (linuxDisk, ⟨fun _ => true, fun _ => true⟩)]

/-- The numbers of a run that is evaluated. -/
theorem initDisks_of_partNos {fuel p : Nat} {machine : Machine} {nos : List (List Nat)}
    (h : (initDisks fuel 0 machine).map (fun r => (r.1, r.2.map LinuxTable.partNos)) =
      .ok (p, nos)) :
    ∃ tables, initDisks fuel 0 machine = .ok (p, tables) ∧ tables.map LinuxTable.partNos = nos := by
  cases hinit : initDisks fuel 0 machine with
  | error fault => simp [hinit, Except.map] at h
  | ok r =>
    obtain ⟨p', tables⟩ := r
    simp only [hinit, Except.map, Except.ok.injEq, Prod.mk.injEq] at h
    obtain ⟨rfl, hnos⟩ := h
    exact ⟨tables, rfl, hnos⟩

theorem twoDisks_init :
    ∃ tables, initDisks 3 0 twoDisks = .ok (6, tables) ∧
      tables.map LinuxTable.partNos = [[], [1, 6]] :=
  initDisks_of_partNos (by decide +kernel)

theorem partitions_id_map_twoDisks :
    ∃ tables idMap, initDisks 3 0 twoDisks = .ok (6, tables) ∧
      initExt2PartitionsIdMap tables 8 = .ok idMap ∧
      (devicesOf tables (some idMap)).getPartitionIndexViaRealNumber 1 6 = .ok 1 := by
  obtain ⟨tables, hinit, hnos⟩ := twoDisks_init
  obtain ⟨-, -, -, idMap, hrun, -, hindexed⟩ := partitions_id_map_correct hinit
  refine ⟨tables, idMap, hinit, hrun, hindexed 1 1 6 ?_⟩
  rw [Devices.disk, devicesOf, hnos]
  rfl

end Ext4tc.Plugin
