import Ext4tc.Plugin.DeviceNames

/-! # What a path is read as

`extract_disk_and_part_no` on any path, against the partitions that are there. Capital letters,
values that wrapped around and the numbers of gaps are taken as far as
`validate_disk_and_part_no` lets them through. -/

namespace Ext4tc.Plugin
open Ext4tc.Lib Ext4tc.DiskUtils

/-- The name in a path stands for an ext partition: lower-case letters for its disk, and its
number. -/
def NamesPartition (devices : Devices) (path : List UInt8) (diskNo partNo : Nat) : Prop :=
  ∃ letters digits, Spelled path letters digits ∧ (∀ x ∈ letters, isLower x = true) ∧
    letterValue letters - 1 = diskNo ∧ digitValue digits = partNo ∧
    diskNo < devices.partNos.length ∧ partNo ∈ devices.disk diskNo

/-- `extract_disk_and_part_no` as it is called: what it returns, the offset behind the name
or -1, and what is in `*disk_no` and `*part_no` afterwards. -/
def extractCall (devices : Devices) (path : List UInt8) (diskNo partNo : Int) : Int × Int × Int :=
  match devices.extractDiskAndPartNo path with
  | none => (-1, diskNo, partNo)
  | some (d, p) =>
    ((((strstr [0x5c, 0x73, 0x64] path).getD 0 + 3 +
      ((deviceName path).getD []).length : Nat) : Int), d, p)

/-- A path is read as the partition that its name stands for, or not at all. -/
structure ReadsNames (devices : Devices) (path : List UInt8) : Prop where
  accepts : ∀ diskNo partNo, devices.extractDiskAndPartNo path = some (diskNo, partNo) ↔
    NamesPartition devices path diskNo partNo
  selects : ∀ diskNo partNo, devices.extractDiskAndPartNo path = some (diskNo, partNo) →
    ∃ j, devices.getPartitionIndexViaRealNumber diskNo partNo = .ok j ∧
      (devices.disk diskNo)[j]? = some partNo
  rejects : ∀ diskNo partNo, devices.extractDiskAndPartNo path = none →
    extractCall devices path diskNo partNo = (-1, diskNo, partNo)

/-! ## Exactly which names are read -/

/-- Lower-case letters and digits whose values an `int` holds. -/
structure Ordinary (letters digits : List UInt8) : Prop where
  lower : ∀ x ∈ letters, isLower x = true
  disk : letterValue letters ≤ 2 ^ 31
  part : digitValue digits < 2 ^ 31

theorem Ordinary.words {path letters digits : List UInt8} (h : Ordinary letters digits)
    (hs : Spelled path letters digits) :
    diskWord letters = letterValue letters - 1 ∧ partWord digits = digitValue digits := by
  have hpos := letterValue_pos hs.letters_ne h.lower
  have hnonneg := digitValue_nonneg hs.digit
  have hdisk := h.disk
  have hpart := h.part
  exact ⟨int32_eq (by omega) (by omega), int32_eq (by omega) (by omega)⟩

/-- The names that come out right: an ordinary one is not of a gap in the numbers of its disk,
any other one has 32-bit values that are refused, and a partition that is named can be told
as an `int`. -/
structure NoMisreading (devices : Devices) (path : List UInt8) : Prop where
  noGap : ∀ letters digits, Spelled path letters digits → Ordinary letters digits →
    devices.validateDiskAndPartNo (letterValue letters - 1) (digitValue digits) = true →
      (digitValue digits).toNat ∈ devices.disk (letterValue letters - 1).toNat
  noAlias : ∀ letters digits, Spelled path letters digits → ¬Ordinary letters digits →
    devices.validateDiskAndPartNo (diskWord letters) (partWord digits) = false
  fits : ∀ diskNo partNo, NamesPartition devices path diskNo partNo →
    diskNo < 2 ^ 31 ∧ ∀ last ∈ (devices.disk diskNo).getLast?, (partNo : Int) ≤ int32 last

section Exact

variable {devices : Devices} {path : List UInt8}

/-- What is read is what is named. -/
theorem NoMisreading.accepts (h : NoMisreading devices path) {diskNo partNo : Nat} :
    devices.extractDiskAndPartNo path = some (diskNo, partNo) ↔
      NamesPartition devices path diskNo partNo := by
  rw [extract_iff]
  constructor
  · rintro ⟨letters, digits, hspelled, hvalid, rfl, rfl⟩
    by_cases hordinary : Ordinary letters digits
    · obtain ⟨hdisk, hpart⟩ := hordinary.words hspelled
      rw [hdisk, hpart] at hvalid ⊢
      have hmem := h.noGap letters digits hspelled hordinary hvalid
      obtain ⟨hlo, hlt, hnonneg, -⟩ := validate_iff.mp hvalid
      exact ⟨letters, digits, hspelled, hordinary.lower, (Int.toNat_of_nonneg hlo).symm,
        (Int.toNat_of_nonneg hnonneg).symm, by omega, hmem⟩
    · rw [h.noAlias letters digits hspelled hordinary] at hvalid
      cases hvalid
  · rintro hnames
    obtain ⟨hdisk, hlast⟩ := h.fits diskNo partNo hnames
    obtain ⟨letters, digits, hspelled, hlower, hletters, hdigits, hlen, hmem⟩ := hnames
    obtain ⟨last, hget⟩ := Option.ne_none_iff_exists'.mp
      (mt List.getLast?_eq_none_iff.mp (List.ne_nil_of_mem hmem))
    have hle := hlast last hget
    have hint := int32_lt last
    have hordinary : Ordinary letters digits := ⟨hlower, by omega, by omega⟩
    obtain ⟨hdisk', hpart'⟩ := hordinary.words hspelled
    refine ⟨letters, digits, hspelled, ?_, by omega, by omega⟩
    rw [hdisk', hpart', hletters, hdigits]
    exact validate_iff.mpr ⟨by omega, by omega, by omega, last, hget, hle⟩

/-- What is read and named leaves no room for a misreading. -/
theorem ReadsNames.noMisreading (h : ReadsNames devices path) : NoMisreading devices path := by
  constructor
  · intro letters digits hspelled hordinary hvalid
    obtain ⟨hdisk, hpart⟩ := hordinary.words hspelled
    have hread : devices.extractDiskAndPartNo path =
        some ((letterValue letters - 1).toNat, (digitValue digits).toNat) :=
      extract_iff.mpr ⟨letters, digits, hspelled, by rwa [hdisk, hpart], by rw [hdisk],
        by rw [hpart]⟩
    obtain ⟨-, -, -, -, -, -, -, hmem⟩ := (h.accepts _ _).mp hread
    exact hmem
  · intro letters digits hspelled hnot
    by_contra hvalid
    rw [Bool.not_eq_false] at hvalid
    have hread := extract_iff.mpr ⟨letters, digits, hspelled, hvalid, rfl, rfl⟩
    obtain ⟨letters', digits', hspelled', hlower, hletters, hdigits, -, -⟩ :=
      (h.accepts _ _).mp hread
    obtain ⟨rfl, rfl⟩ := hspelled.unique hspelled'
    have hdisk : diskWord letters < 2 ^ 31 := int32_lt _
    have hpart : partWord digits < 2 ^ 31 := int32_lt _
    exact hnot ⟨hlower, by omega, by omega⟩
  · intro diskNo partNo hnames
    obtain ⟨letters, digits, hspelled, hvalid, rfl, rfl⟩ :=
      extract_iff.mp ((h.accepts _ _).mpr hnames)
    obtain ⟨hlo, -, hnonneg, last, hget, hle⟩ := validate_iff.mp hvalid
    have hdisk : diskWord letters < 2 ^ 31 := int32_lt _
    refine ⟨by omega, fun last' hget' => ?_⟩
    have hlast : last = last' := Option.some.inj (hget.symm.trans (Option.mem_def.mp hget'))
    rw [Int.toNat_of_nonneg hnonneg, ← hlast]
    exact hle

/-- **A path is read as the partition that it names exactly if it is not misread**, on any
disks whose partitions have increasing numbers. -/
theorem extract_names_iff {tables : List LinuxTable} (path : List UInt8)
    (hsound : ∀ table ∈ tables, SoundTable table) :
    ∃ devices, mapTables (TwoLevel.total (tables.map LinuxTable.partNos)) tables = .ok devices ∧
      devices.partNos = tables.map LinuxTable.partNos ∧
      (ReadsNames devices path ↔ NoMisreading devices path) := by
  obtain ⟨devices, hmap, hnos, hdevices⟩ := mapTables_sound hsound
  refine ⟨devices, hmap, hnos, ReadsNames.noMisreading, fun h => ⟨fun _ _ => h.accepts, ?_, ?_⟩⟩
  · intro diskNo partNo hread
    obtain ⟨-, -, -, -, -, -, -, hmem⟩ := h.accepts.mp hread
    obtain ⟨j, hj⟩ := List.getElem?_of_mem hmem
    exact ⟨j, hdevices.indexed diskNo j partNo hj, hj⟩
  · intro diskNo partNo hnone
    rw [extractCall, hnone]

end Exact

/-! ## Two disks -/

/-- `\sdb6` is the second partition of the second disk, and read as that. -/
theorem extract_names_iff_twoDisks :
    ∃ tables devices, mapTables 6 tables = .ok devices ∧ devices.partNos = [[], [1, 6]] ∧
      ReadsNames devices [0x5c, 0x73, 0x64, 0x62, 0x36] := by
  obtain ⟨tables, hinit, hnos⟩ := twoDisks_init
  obtain ⟨-, hsound, -⟩ := initDisks_spec hinit
  obtain ⟨devices, hmap, hpartNos, hreads⟩ :=
    extract_names_iff [0x5c, 0x73, 0x64, 0x62, 0x36] hsound
  rw [hnos] at hmap hpartNos
  refine ⟨tables, devices, hmap, hpartNos, hreads.mpr ?_⟩
  have hspelled : Spelled [0x5c, 0x73, 0x64, 0x62, 0x36] [0x62] [0x36] :=
    ⟨by decide, List.cons_ne_nil _ _, List.cons_ne_nil _ _, List.forall_mem_singleton.mpr rfl,
      List.forall_mem_singleton.mpr rfl⟩
  have hordinary : Ordinary [0x62] [0x36] :=
    ⟨List.forall_mem_singleton.mpr rfl, by decide, by decide⟩
  have hdisk : devices.disk 1 = [1, 6] := by
    rw [Devices.disk, hpartNos]
    rfl
  constructor
  · intro letters digits hs _ _
    obtain ⟨rfl, rfl⟩ := hs.unique hspelled
    rw [show (letterValue [0x62] - 1).toNat = 1 from rfl, hdisk]
    decide
  · intro letters digits hs hnot
    obtain ⟨rfl, rfl⟩ := hs.unique hspelled
    exact absurd hordinary hnot
  · rintro diskNo partNo ⟨letters, digits, hs, -, hletters, hdigits, -⟩
    obtain ⟨rfl, rfl⟩ := hs.unique hspelled
    obtain rfl : 1 = diskNo := Int.ofNat_inj.mp hletters
    obtain rfl : 6 = partNo := Int.ofNat_inj.mp hdigits
    rw [hdisk]
    decide

/-- `\sdb3` is read on the same disks, though the second of them has partitions 1 and 6 only,
and it selects partition 1. -/
theorem gap_name_accepted :
    ∃ devices, searchSystemForLinuxExt2Partitions 3 twoDisks = .ok (6, devices) ∧
      devices.partNos = [[], [1, 6]] ∧
      devices.extractDiskAndPartNo [0x5c, 0x73, 0x64, 0x62, 0x33] = some (1, 3) ∧
      devices.getPartitionIndexViaRealNumber 1 3 = .ok 0 ∧
      ¬ReadsNames devices [0x5c, 0x73, 0x64, 0x62, 0x33] := by
  have hrun : (searchSystemForLinuxExt2Partitions 3 twoDisks).map
      (fun r => (r.1, r.2.partNos, r.2.idMap)) =
        .ok (6, [[], [1, 6]], some [0, 2, 0, 0, 0, 0, 0, 1]) := by decide +kernel
  cases hsearch : searchSystemForLinuxExt2Partitions 3 twoDisks with
  | error fault => simp [hsearch, Except.map] at hrun
  | ok r =>
    obtain ⟨p, partNos, idMap⟩ := r
    simp only [hsearch, Except.map, Except.ok.injEq, Prod.mk.injEq] at hrun
    obtain ⟨rfl, rfl, rfl⟩ := hrun
    have hread : Devices.extractDiskAndPartNo
        ⟨[[], [1, 6]], some [0, 2, 0, 0, 0, 0, 0, 1]⟩ [0x5c, 0x73, 0x64, 0x62, 0x33] =
          some (1, 3) := by decide
    refine ⟨_, rfl, rfl, hread, rfl, fun h => ?_⟩
    obtain ⟨-, -, -, -, -, -, -, hmem⟩ := (h.accepts 1 3).mp hread
    simp [Devices.disk] at hmem

end Ext4tc.Plugin
