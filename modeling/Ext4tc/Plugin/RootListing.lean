import Ext4tc.Lib.Enumeration
import Ext4tc.Plugin.DeviceNames

/-! # The listing of the root

`FsFindFirst` on the root starts with the number of a partition, which the map takes to its
place, and `FsFindNext` goes on from place to place. What is left behind a place are the
later places of its disk and all places of the later disks. -/

namespace Ext4tc.Plugin
open Ext4tc.Lib Ext4tc.DiskUtils

/-- A partition in the listing: the place that the handle keeps, and the name in the buffer. -/
structure ShownPartition where
  diskNo : Nat
  partNoMap : Nat
  name : List UInt8
  deriving DecidableEq

def shownPartition (lf : LastFind) (fd : FindData) : ShownPartition :=
  ⟨lf.diskNo, lf.partNoMap, fd.cFileName⟩

section Calls

variable {σ : Type} (env : PluginEnv σ)

/-- `FsFindNext` as the caller's loop uses it: the plugin, the handle and the buffer go along. -/
def findNextRound (s : Ext4PluginDescr σ × LastFind × FindData) :
    Except Fault (Option ShownPartition × Ext4PluginDescr σ × LastFind × FindData) :=
  match fsFindNext env s.1 s.2.1 s.2.2 with
  | .error fault => .error fault
  | .ok ((found, lf, fd), descr) =>
    .ok (if found then some (shownPartition lf fd) else none, descr, lf, fd)

/-- `FsFindFirst` on the root, and `FsFindNext` on its handle until it returns false. -/
def RootYields (descr : Ext4PluginDescr σ) (fd : FindData) (shown : List ShownPartition) : Prop :=
  ∃ handle fd' descr', fsFindFirst env descr [separator] fd = .ok ((handle, fd'), descr') ∧
    match handle with
    | none => shown = []
    | some lf => ∃ rest s, shown = shownPartition lf fd' :: rest ∧
        Drains (findNextRound env) (descr', lf, fd') rest s

end Calls

/-- Every partition of every disk, in lexicographic order of its disk and its place. -/
def allPartitions (devices : Devices) : List (Nat × Nat) :=
  (List.range devices.partNos.length).flatMap fun diskNo =>
    (List.range (devices.disk diskNo).length).map fun j => (diskNo, j)

def shownAs (devices : Devices) (place : Nat × Nat) : ShownPartition :=
  ⟨place.1, place.2,
    Devices.displayName place.1 ((devices.disk place.1).getD place.2 0)⟩

/-! ## The places that are left -/

section Places

variable (devices : Devices)

/-- The partitions of `k` disks from disk `i` on, the ones of the first disk from place `j` on. -/
def placesFrom : (k i j : Nat) → List (Nat × Nat)
  | 0, _, _ => []
  | k + 1, i, j =>
    (List.range' j ((devices.disk i).length - j)).map (fun m => (i, m)) ++ placesFrom k (i + 1) 0

theorem placesFrom_zero (k i : Nat) :
    placesFrom devices k i 0 = (List.range' i k).flatMap fun diskNo =>
      (List.range (devices.disk diskNo).length).map fun j => (diskNo, j) := by
  induction k generalizing i with
  | zero => rfl
  | succ k ih =>
    rw [placesFrom, ih, List.range'_succ, List.flatMap_cons, Nat.sub_zero, List.range_eq_range']

variable {devices} {k i j : Nat}

theorem placesFrom_of_lt (h : j < (devices.disk i).length) :
    placesFrom devices (k + 1) i j = (i, j) :: placesFrom devices (k + 1) i (j + 1) := by
  obtain ⟨n, hn⟩ := Nat.exists_eq_add_of_lt h
  have hj : (devices.disk i).length - j = n + 1 := by omega
  have hnext : (devices.disk i).length - (j + 1) = n := by omega
  rw [placesFrom, placesFrom, hj, hnext, List.range'_succ, List.map_cons, List.cons_append]

theorem placesFrom_of_le (h : (devices.disk i).length ≤ j) :
    placesFrom devices (k + 1) i j = placesFrom devices k (i + 1) 0 := by
  rw [placesFrom, Nat.sub_eq_zero_of_le h]
  rfl

theorem nextFrom_none (hj : j = 0 ∨ 0 < (devices.disk i).length)
    (h : placesFrom devices k i j = []) : devices.nextFrom k i j = none := by
  induction k generalizing i j with
  | zero => rfl
  | succ k ih =>
    rcases Nat.lt_or_ge j (devices.disk i).length with hlt | hge
    · rw [placesFrom_of_lt hlt] at h
      cases h
    · rw [placesFrom_of_le hge] at h
      have hrest := ih (.inl rfl) h
      rw [Devices.nextFrom, if_neg (Nat.not_lt.mpr hge)]
      split
      next => exact hrest
      next hnone =>
        obtain rfl : j = 0 := by omega
        exact hrest

/-- **The first place that is left is the one that is found**, and the others are left behind
it. A search from place 0 on begins its disk. -/
theorem nextFrom_some (hj : j = 0 ∨ 0 < (devices.disk i).length) {d m : Nat}
    {rest : List (Nat × Nat)} (h : placesFrom devices k i j = (d, m) :: rest) :
    devices.nextFrom k i j = some (d, m) ∧ m < (devices.disk d).length ∧ d < i + k ∧
      placesFrom devices (i + k - d) d (m + 1) = rest ∧
      (j = 0 → m = 0 ∧ ∀ x, i ≤ x → x < d → devices.disk x = []) := by
  induction k generalizing i j with
  | zero => cases h
  | succ k ih =>
    rcases Nat.lt_or_ge j (devices.disk i).length with hlt | hge
    · rw [placesFrom_of_lt hlt] at h
      cases h
      rw [Devices.nextFrom, if_pos (by omega), if_pos hlt]
      refine ⟨rfl, hlt, by omega, ?_, fun hzero => ⟨hzero, fun x hx hx' => by omega⟩⟩
      rw [Nat.add_sub_cancel_left]
    · rw [placesFrom_of_le hge] at h
      obtain ⟨hfound, hm, hd, hrest, hfirst⟩ := ih (.inl rfl) h
      refine ⟨?_, hm, by omega, ?_, ?_⟩
      · rw [Devices.nextFrom, if_neg (Nat.not_lt.mpr hge)]
        split
        next => exact hfound
        next hnone =>
          obtain rfl : j = 0 := by omega
          exact hfound
      · rwa [← Nat.add_right_comm, Nat.add_assoc] at hrest
      · rintro rfl
        obtain ⟨hm₀, hempty⟩ := hfirst rfl
        refine ⟨hm₀, fun x hx hx' => ?_⟩
        rcases Nat.eq_or_lt_of_le hx with rfl | hx
        · exact List.length_eq_zero_iff.mp (Nat.le_zero.mp hge)
        · exact hempty x hx hx'

end Places

/-! ## The calls -/

section Listing

variable {σ : Type} {env : PluginEnv σ}

def AtPartition (env : PluginEnv σ) (s : Ext4PluginDescr σ × LastFind × FindData) : Prop :=
  s.2.1.root = true ∧ s.2.1.partNoMap < (env.devices.disk s.2.1.diskNo).length

def leftToShow (env : PluginEnv σ) (s : Ext4PluginDescr σ × LastFind × FindData) :
    List ShownPartition :=
  (placesFrom env.devices (env.devices.partNos.length - s.2.1.diskNo) s.2.1.diskNo
    (s.2.1.partNoMap + 1)).map (shownAs env.devices)

/-- **A call of `FsFindNext` shows the next partition**, or there is none. -/
theorem findNextRound_leaves :
    Leaves (findNextRound env) (AtPartition env) (leftToShow env) := by
  constructor
  · rintro ⟨descr, lf, fd⟩ ⟨hroot, hlt⟩ hleft
    have hnone := nextFrom_none (.inr (Nat.zero_lt_of_lt hlt)) (List.map_eq_nil_iff.mp hleft)
    have hcall : fsFindNext env descr lf fd = .ok ((false, lf, fd), descr) := by
      rw [fsFindNext, if_pos hroot, findNextRoot, Devices.getNextExt4DiskAndPartNo, hnone]
    simp only [findNextRound, hcall]
    rfl
  · rintro ⟨descr, lf, fd⟩ shown rest ⟨hroot, hlt⟩ hleft
    obtain ⟨⟨d, m⟩, places, hplaces, rfl, rfl⟩ := List.map_eq_cons_iff.mp hleft
    obtain ⟨hfound, hm, -, hrest, -⟩ := nextFrom_some (.inr (Nat.zero_lt_of_lt hlt)) hplaces
    have hdisk : lf.diskNo + (env.devices.partNos.length - lf.diskNo) =
        env.devices.partNos.length := by
      have hlen : lf.diskNo < env.devices.partNos.length := disk_lt_length hlt
      omega
    have hcall := fsFindNext_root descr fd hroot hfound
    rw [hdisk] at hrest
    refine ⟨(descr, { lf with diskNo := d, partNoMap := m },
      { fd with cFileName := Devices.displayName d ((env.devices.disk d).getD m 0) }), ?_,
      ⟨hroot, hm⟩, ?_⟩
    · simp only [findNextRound, hcall]
      rfl
    · simp only [leftToShow, hrest]

theorem allPartitions_eq (devices : Devices) :
    allPartitions devices = placesFrom devices devices.partNos.length 0 0 := by
  rw [placesFrom_zero, allPartitions, List.range_eq_range']

theorem getFirst_none {devices : Devices} (h : allPartitions devices = []) :
    devices.getFirstExt4DiskAndPartNo = none := by
  have hfind : devices.partNos.findIdx? (fun partNos => !partNos.isEmpty) = none := by
    rw [List.findIdx?_eq_none_iff]
    intro partNos hmem
    obtain ⟨diskNo, hlt, rfl⟩ := List.mem_iff_getElem.mp hmem
    have hnone := List.flatMap_eq_nil_iff.mp h diskNo (List.mem_range.mpr hlt)
    rw [List.map_eq_nil_iff, List.range_eq_nil, disk_eq_getElem hlt] at hnone
    simp [List.length_eq_zero_iff.mp hnone]
  rw [Devices.getFirstExt4DiskAndPartNo, hfind]

variable (hsound : SoundDevices env.devices) (hinit : env.initialized = true)
  (hroot : env.toUtf8 [separator] = [separator])
include hsound hinit hroot

/-- The first call shows the first partition, or fails where there is none. -/
theorem findFirst_root (descr : Ext4PluginDescr σ) (fd : FindData) :
    (allPartitions env.devices = [] ∧
        ∃ fd', fsFindFirst env descr [separator] fd = .ok ((none, fd'), descr)) ∨
      ∃ lf fd', fsFindFirst env descr [separator] fd = .ok ((some lf, fd'), descr) ∧
        AtPartition env (descr, lf, fd') ∧
        (allPartitions env.devices).map (shownAs env.devices) =
          shownPartition lf fd' :: leftToShow env (descr, lf, fd') := by
  cases hplaces : allPartitions env.devices with
  | nil =>
    left
    have hcall : fsFindFirst env descr [separator] fd =
        if env.devices.idMap.isNone then .ok ((none, fd), descr)
        else (findFirstRoot env).map fun found => (found, descr) := by
      rw [fsFindFirst, hinit, hroot]
      simp
    rw [hcall, findFirstRoot, getFirst_none hplaces]
    refine ⟨rfl, ?_⟩
    split
    next => exact ⟨fd, rfl⟩
    next => exact ⟨_, rfl⟩
  | cons place rest =>
    right
    obtain ⟨d, m⟩ := place
    rw [allPartitions_eq] at hplaces
    obtain ⟨-, hm, -, hrest, hfirst⟩ := nextFrom_some (.inl rfl) hplaces
    obtain ⟨rfl, hempty⟩ := hfirst rfl
    have hcall := fsFindFirst_root hinit hroot hsound descr fd
      (fun x hx => hempty x (Nat.zero_le x) hx) hm
    refine ⟨_, _, hcall, ⟨rfl, hm⟩, ?_⟩
    rw [Nat.zero_add] at hrest
    simp only [List.map_cons, leftToShow, hrest]
    rfl

end Listing

/-- **The listing of the root shows every ext partition of every disk once, in order**, on any
number of disks, whatever increasing numbers their partitions have; the first call fails
exactly where there is no partition. -/
theorem root_enumeration_exact {tables : List LinuxTable}
    (hsound : ∀ table ∈ tables, SoundTable table) :
    ∃ devices, mapTables (TwoLevel.total (tables.map LinuxTable.partNos)) tables = .ok devices ∧
      devices.partNos = tables.map LinuxTable.partNos ∧
      ∀ {σ : Type} {env : PluginEnv σ}, env.devices = devices → env.initialized = true →
        env.toUtf8 [separator] = [separator] → ∀ descr fd,
          (∀ shown, RootYields env descr fd shown ↔
            shown = (allPartitions devices).map (shownAs devices)) ∧
          ((∃ fd', fsFindFirst env descr [separator] fd = .ok ((none, fd'), descr)) ↔
            allPartitions devices = []) := by
  obtain ⟨devices, hmap, hnos, hdevices⟩ := mapTables_sound hsound
  refine ⟨devices, hmap, hnos, ?_⟩
  rintro σ env rfl hinit hroot descr fd
  obtain ⟨hnil, fd', hcall⟩ | ⟨lf, fd', hcall, hat, hshown⟩ :=
    findFirst_root hdevices hinit hroot descr fd
  · rw [hnil]
    refine ⟨fun shown => ⟨?_, ?_⟩, fun _ => rfl, fun _ => ⟨fd', hcall⟩⟩
    · rintro ⟨handle, fd₁, descr₁, hcall', hyields⟩
      cases hcall.symm.trans hcall'
      exact hyields
    · rintro rfl
      exact ⟨none, fd', descr, hcall, rfl⟩
  · obtain ⟨s, hdrains, -, -⟩ := findNextRound_leaves.drains hat
    rw [hshown]
    refine ⟨fun shown => ⟨?_, ?_⟩, ?_, ?_⟩
    · rintro ⟨handle, fd₁, descr₁, hcall', hyields⟩
      cases hcall.symm.trans hcall'
      obtain ⟨rest, s', rfl, hdrains'⟩ := hyields
      rw [(hdrains'.unique hdrains).1]
    · rintro rfl
      exact ⟨some lf, fd', descr, hcall, _, s, rfl, hdrains⟩
    · rintro ⟨fd₁, hcall'⟩
      cases hcall.symm.trans hcall'
    · intro hnil
      rw [hnil] at hshown
      cases hshown

/-- Two disks, the first of them without a partition: `sdb1` and `sdb6`. -/
theorem root_enumeration_exact_twoDisks :
    ∃ tables devices, mapTables 6 tables = .ok devices ∧ devices.partNos = [[], [1, 6]] ∧
      RootYields (searchedPlugin devices) ⟨treeDisks, none, 0⟩ .zero
        [⟨1, 0, [0x73, 0x64, 0x62, 0x31]⟩, ⟨1, 1, [0x73, 0x64, 0x62, 0x36]⟩] := by
  obtain ⟨tables, hinit, hnos⟩ := twoDisks_init
  obtain ⟨-, hsound, -⟩ := initDisks_spec hinit
  obtain ⟨devices, hmap, hpartNos, hlisting⟩ := root_enumeration_exact hsound
  rw [hnos] at hmap hpartNos
  obtain ⟨hyields, -⟩ := @hlisting _ (searchedPlugin devices) rfl rfl rfl ⟨treeDisks, none, 0⟩ .zero
  refine ⟨tables, devices, hmap, hpartNos, (hyields _).mpr ?_⟩
  have hone : Devices.displayName 1 1 = [0x73, 0x64, 0x62, 0x31] := by decide
  have hsix : Devices.displayName 1 6 = [0x73, 0x64, 0x62, 0x36] := by decide
  rw [← hone, ← hsix]
  obtain ⟨partNos, idMap⟩ := devices
  cases hpartNos
  rfl

end Ext4tc.Plugin
