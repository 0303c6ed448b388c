import Ext4tc.DiskUtils.DiskInit

/-! # Detecting and collecting the ext partitions

`find_linux_partitions` counts the partitions that mount, and `ext2_partitions_init` finds
them again by their pointers. The two agree as long as `get_ext2_sb` leaves NULL where it
returns false, which it does not where the superblock cannot be read. -/

namespace Ext4tc.DiskUtils
open Ext4tc.Lib Ext4tc.Fs PartitionLinuxExt2

/-- The stores of the loop of `ext2_partitions_init`, from slot `i` on. -/
def storedSlots (n : Nat) : (i : Nat) → List LinuxPart → Except Fault (List (Nat × LinuxPart))
  | _, [] => .ok []
  | i, p :: parts =>
    match p.isMounted with
    | .error fault => .error fault
    | .ok false => storedSlots n i parts
    | .ok true =>
      if n + 1 ≤ i then .error .outOfBounds
      else
        match storedSlots n (i + 1) parts with
        | .error fault => .error fault
        | .ok slots => .ok ((i, p) :: slots)

theorem storePartitions_eq (n : Nat) : ∀ (i : Nat) (parts : List LinuxPart),
    storePartitions n i parts = (storedSlots n i parts).map fun slots => slots.map Prod.snd
  | _, [] => rfl
  | i, p :: parts => by
    rw [storePartitions, storedSlots]
    cases p.isMounted with
    | error fault => rfl
    | ok mounted =>
      cases mounted with
      | false => exact storePartitions_eq n i parts
      | true =>
        dsimp only
        split
        next => rfl
        next =>
          rw [storePartitions_eq n (i + 1) parts]
          cases storedSlots n (i + 1) parts with
          | error fault => rfl
          | ok slots => rfl

namespace Disk

variable (d : Disk) (env : MountEnv)

/-- What `get_ext2_sb` makes of entry `i`. -/
def mountEntry (i : Nat) (info : PartInfo) : Except Fault (Bool × PartitionLinuxExt2) :=
  (PartitionLinuxExt2.new (d.partitionOf info)).getExt2Sb (env.okSb i) (env.okGr i)

/-- The objects that are counted, in the order of the list. -/
def countedParts : (i : Nat) → List PartInfo → List LinuxPart
  | _, [] => []
  | i, info :: infos =>
    if info.type = linuxType then
      match d.mountEntry env i info with
      | .ok (true, part) => ⟨info, part⟩ :: countedParts (i + 1) infos
      | _ => countedParts (i + 1) infos
    else countedParts (i + 1) infos

/-- All stores into the table of `n + 1` slots, the terminator last. There is no table for
a count of 0. -/
def tableStores (infos : List PartInfo) : Except Fault (List (Nat × Option LinuxPart)) :=
  match d.findLinuxPartitions env 0 0 infos with
  | .error fault => .error fault
  | .ok (n, parts) =>
    if n = 0 then .ok []
    else (storedSlots n 0 parts).map fun slots =>
      slots.map (fun s => (s.1, some s.2)) ++ [(n, none)]

/-- The pointers of an entry say what `get_ext2_sb` returned. -/
structure PointersAgree (i : Nat) (info : PartInfo) : Prop where
  failed : ∀ part, d.mountEntry env i info = .ok (false, part) → part.ext2 = .null
  mounted : ∀ part, d.mountEntry env i info = .ok (true, part) →
    ∃ sbInfo, part.ext2 = .live sbInfo ∧ sbInfo.tables ≠ none

/-- Detection and collection agree: the pointers say what was detected, the count is that of
the objects detected, these go to slots 0, 1, ... in their order, and NULL goes behind them. -/
structure DetectionAgrees (infos : List PartInfo) : Prop where
  pointers : ∀ i info, infos[i]? = some info → info.type = linuxType → d.PointersAgree env i info
  counted : ∃ parts, d.findLinuxPartitions env 0 0 infos =
    .ok ((d.countedParts env 0 infos).length, parts)
  stores : d.tableStores env infos = .ok
    (if d.countedParts env 0 infos = [] then []
    else (List.range (d.countedParts env 0 infos).length).zip
      ((d.countedParts env 0 infos).map some) ++ [((d.countedParts env 0 infos).length, none)])

/-- The superblock of the entry is read, and if it is one of ext4, then mounting divides by
nothing that is 0. -/
structure MountsCleanly (i : Nat) (info : PartInfo) : Prop where
  superblock : env.okSb i = true
  divisors : (readSb (d.partitionOf info)).checkIfExt4Compatible = true →
    info.sectorSize ≠ 0 ∧ usedDescSize (readSb (d.partitionOf info)).ext4Sb ≠ 0 ∧
      (readSb (d.partitionOf info)).ext4Sb.sBlocksPerGroup ≠ 0 ∧
      descPerBlock (readSb (d.partitionOf info)).ext4Sb ≠ 0

end Disk

/-! ## One entry -/

section Entry

variable {d : Disk} {env : MountEnv} {i : Nat} {info : PartInfo}

theorem getExt2Sb_returns_iff (p : Partition) (okGr : Bool) :
    (∃ out, (PartitionLinuxExt2.new p).getExt2Sb true okGr = .ok out) ↔
      ((readSb p).checkIfExt4Compatible = true → p.sectorSize ≠ 0 ∧
        usedDescSize (readSb p).ext4Sb ≠ 0 ∧ (readSb p).ext4Sb.sBlocksPerGroup ≠ 0 ∧
        descPerBlock (readSb p).ext4Sb ≠ 0) := by
  have hblock : p.readSectors true 2 2 =
      some (p.bufferAt (p.seek 2) (2 * p.sectorSize % 2 ^ 32)) := rfl
  simp only [getExt2Sb, PartitionLinuxExt2.new, hblock]
  rw [← readSb]
  by_cases hmagic : (readSb p).checkIfExt4Compatible = true
  · rw [if_pos hmagic, initializeFromSb_eq]
    by_cases hzero : usedDescSize (readSb p).ext4Sb = 0 ∨ (readSb p).ext4Sb.sBlocksPerGroup = 0 ∨
        descPerBlock (readSb p).ext4Sb = 0
    · rw [if_pos hzero]
      refine iff_of_false ?_ fun h => ?_
      · rintro ⟨out, h⟩
        cases h
      · obtain ⟨-, hdesc, hper, hblocks⟩ := h hmagic
        exact hzero.elim hdesc (Or.elim · hper hblocks)
    · rw [if_neg hzero]
      obtain ⟨hdesc, hrest⟩ := not_or.mp hzero
      obtain ⟨hper, hblocks⟩ := not_or.mp hrest
      simp only [getExt2GrDescriptors]
      by_cases hs : p.sectorSize = 0
      · rw [if_pos hs]
        refine iff_of_false ?_ fun h => (h hmagic).1 hs
        rintro ⟨out, h⟩
        cases h
      · rw [if_neg hs]
        refine iff_of_true ?_ fun _ => ⟨hs, hdesc, hper, hblocks⟩
        cases p.readSectors okGr
          ((initializedInfo (readSb p).ext4Sb).ext4Sb.blockSize / p.sectorSize)
          ((initializedInfo (readSb p).ext4Sb).sGdbCount *
            ((initializedInfo (readSb p).ext4Sb).ext4Sb.blockSize / p.sectorSize) % 2 ^ 32) with
        | none => exact ⟨_, rfl⟩
        | some buffer => exact ⟨_, rfl⟩
  · rw [if_neg hmagic]
    exact iff_of_true ⟨_, rfl⟩ fun h => absurd h hmagic

/-- A superblock that cannot be read leaves the pointer to the object that was deleted. -/
theorem mountEntry_unread (h : env.okSb i = false) :
    d.mountEntry env i info = .ok (false, ⟨d.partitionOf info, .freed, []⟩) := by
  rw [Disk.mountEntry, h]
  rfl

/-- Behind a superblock that is read, a mount that fails leaves NULL. -/
theorem getExt2Sb_read_fails {p : Partition} {okGr : Bool} {part : PartitionLinuxExt2}
    (h : (PartitionLinuxExt2.new p).getExt2Sb true okGr = .ok (false, part)) :
    part.ext2 = .null := by
  have hblock : p.readSectors true 2 2 =
      some (p.bufferAt (p.seek 2) (2 * p.sectorSize % 2 ^ 32)) := rfl
  simp only [getExt2Sb, PartitionLinuxExt2.new, hblock] at h
  split at h
  next =>
    split at h
    next => cases h
    next =>
      split at h
      next => cases h
      next => cases h
      next =>
        cases h
        rfl
  next =>
    cases h
    rfl

theorem Disk.MountsCleanly.returns (h : d.MountsCleanly env i info) :
    ∃ out, d.mountEntry env i info = .ok out := by
  rw [Disk.mountEntry, h.superblock]
  exact (getExt2Sb_returns_iff _ _).mpr h.divisors

theorem Disk.MountsCleanly.pointers (h : d.MountsCleanly env i info) :
    d.PointersAgree env i info := by
  constructor
  · intro part hpart
    rw [Disk.mountEntry, h.superblock] at hpart
    exact getExt2Sb_read_fails hpart
  · intro part hpart
    obtain ⟨hfalse, -⟩ | ⟨-, -, -, -, buffer, -, rfl⟩ := getExt2Sb_new hpart
    · cases hfalse
    · exact ⟨_, rfl, Option.some_ne_none _⟩

/-- The second pass takes the object for what the first made of it. -/
theorem Disk.PointersAgree.isMounted (h : d.PointersAgree env i info) {mounted : Bool}
    {part : PartitionLinuxExt2} (hpart : d.mountEntry env i info = .ok (mounted, part)) :
    (LinuxPart.mk info part).isMounted = .ok mounted := by
  cases mounted with
  | false =>
    unfold LinuxPart.isMounted
    rw [h.failed part hpart]
  | true =>
    obtain ⟨sbInfo, hlive, -⟩ := h.mounted part hpart
    have hthere : (LinuxPart.mk info part).isMounted =
        .ok (sbInfo.checkIfExt4Compatible && sbInfo.tables.isSome) := by
      unfold LinuxPart.isMounted
      rw [hlive]
    rw [hthere, getExt2Sb_isMounted hpart info hthere]

end Entry

/-! ## Both passes -/

section Passes

variable {d : Disk} {env : MountEnv}

/-- **Where entries mount cleanly** the first pass counts what the second stores. -/
theorem findLinuxPartitions_clean : ∀ (infos : List PartInfo) (i n : Nat),
    (∀ j info, infos[j]? = some info → info.type = linuxType → d.MountsCleanly env (i + j) info) →
    ∃ parts, d.findLinuxPartitions env i n infos =
        .ok (n + (d.countedParts env i infos).length, parts) ∧
      ∀ slots k, k + (d.countedParts env i infos).length ≤ slots →
        storedSlots slots k parts = .ok ((List.range' k (d.countedParts env i infos).length).zip
          (d.countedParts env i infos))
  | [], i, n, _ => ⟨[], rfl, fun _ _ _ => rfl⟩
  | info :: infos, i, n, hclean => by
    have hrest : ∀ j info, infos[j]? = some info → info.type = linuxType →
        d.MountsCleanly env (i + 1 + j) info := by
      intro j info' hj htype
      rw [Nat.add_right_comm, Nat.add_assoc]
      exact hclean (j + 1) info' hj htype
    rw [Disk.findLinuxPartitions, Disk.countedParts]
    by_cases htype : info.type = linuxType
    · rw [if_pos htype, if_pos htype]
      have hhere := hclean 0 info rfl htype
      obtain ⟨⟨mounted, part⟩, hmount⟩ := hhere.returns
      have hagrees := hhere.pointers.isMounted hmount
      rw [Nat.add_zero] at hmount
      have hcall : (PartitionLinuxExt2.new (d.partitionOf info)).getExt2Sb (env.okSb i)
        (env.okGr i) = .ok (mounted, part) := hmount
      obtain ⟨parts, hfind, hstored⟩ := findLinuxPartitions_clean infos (i + 1)
        (if mounted then n + 1 else n) hrest
      simp only [hcall, hmount, hfind]
      cases mounted with
      | false =>
        refine ⟨_, rfl, fun slots k hle => ?_⟩
        rw [storedSlots, hagrees]
        exact hstored slots k hle
      | true =>
        refine ⟨_, by rw [List.length_cons, if_pos rfl, Nat.add_right_comm, Nat.add_assoc], ?_⟩
        intro slots k hle
        rw [List.length_cons] at hle ⊢
        rw [storedSlots, hagrees]
        simp only [if_neg (show ¬slots + 1 ≤ k by omega), hstored slots (k + 1) (by omega)]
        rw [List.range'_succ, List.zip_cons_cons]
    · rw [if_neg htype, if_neg htype]
      exact findLinuxPartitions_clean infos (i + 1) n hrest

theorem findLinuxPartitions_tries : ∀ (infos : List PartInfo) (i n : Nat)
    {out : Nat × List LinuxPart},
    d.findLinuxPartitions env i n infos = .ok out → ∀ j info, infos[j]? = some info →
      info.type = linuxType → ∃ r, d.mountEntry env (i + j) info = .ok r
  | [], _, _, _, _, _, _, hj, _ => by cases hj
  | info :: infos, i, n, out, h, j, info', hj, htype' => by
    rw [Disk.findLinuxPartitions] at h
    cases j with
    | zero =>
      obtain rfl : info = info' := Option.some.inj hj
      rw [if_pos htype'] at h
      split at h
      next => cases h
      next mounted part hcall => exact ⟨_, hcall⟩
    | succ j =>
      have hj' : infos[j]? = some info' := hj
      rw [← Nat.add_assoc, Nat.add_right_comm]
      split at h
      next =>
        split at h
        next => cases h
        next =>
          split at h
          next => cases h
          next hfind => exact findLinuxPartitions_tries infos (i + 1) _ hfind j info' hj' htype'
      next => exact findLinuxPartitions_tries infos (i + 1) n h j info' hj' htype'

/-- **Detection and collection agree exactly if every entry of the type mounts cleanly.** -/
theorem detection_agrees_iff (d : Disk) (env : MountEnv) (infos : List PartInfo) :
    d.DetectionAgrees env infos ↔
      ∀ i info, infos[i]? = some info → info.type = linuxType → d.MountsCleanly env i info := by
  constructor
  · intro h i info hi htype
    obtain ⟨parts, hfind⟩ := h.counted
    obtain ⟨⟨mounted, part⟩, hmount⟩ := findLinuxPartitions_tries infos 0 0 hfind i info hi htype
    rw [Nat.zero_add] at hmount
    have hread : env.okSb i = true := by
      by_contra hunread
      have hfreed := @mountEntry_unread d env i info (Bool.eq_false_of_not_eq_true hunread)
      cases (h.pointers i info hi htype).failed _ hfreed
    refine ⟨hread, (getExt2Sb_returns_iff _ (env.okGr i)).mp ⟨(mounted, part), ?_⟩⟩
    rw [← hread]
    exact hmount
  · intro h
    obtain ⟨parts, hfind, hstored⟩ := findLinuxPartitions_clean infos 0 0 fun j info hj htype => by
      rw [Nat.zero_add]
      exact h j info hj htype
    rw [Nat.zero_add] at hfind
    refine ⟨fun i info hi htype => (h i info hi htype).pointers, ⟨parts, hfind⟩, ?_⟩
    rw [Disk.tableStores]
    simp only [hfind, List.length_eq_zero_iff]
    split
    next => rfl
    next =>
      rw [hstored _ 0 (Nat.le_of_eq (Nat.zero_add _)), List.range_eq_range', List.zip_map_right]
      rfl

end Passes

/-- A Linux partition whose superblock cannot be read. -/
theorem unread_superblock_keeps_pointer :
    ¬∀ (d : Disk) (env : MountEnv) (infos : List PartInfo), d.DetectionAgrees env infos := by
  intro h
  have hagree := h chainDisk ⟨fun _ => false, fun _ => true⟩
    [{ PartInfo.new with type := linuxType, partNo := 1, offset := 1024, sectorSize := 512 }]
  cases (hagree.pointers 0 _ rfl rfl).failed _ (mountEntry_unread rfl)

end Ext4tc.DiskUtils
