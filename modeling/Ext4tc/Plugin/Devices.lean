import Ext4tc.DiskUtils.Partition
import Ext4tc.Lib.CString
import Mathlib.Algebra.Order.Group.Int

/-! # Device names

The part of the class `ext4PluginDescr` that knows the disks: `\sda1` stands for
partition 1 of the first disk. The plugin keeps, for each disk, its ext partitions in
order with their numbers, and a map from a number to the place in that order. -/

namespace Ext4tc.Plugin
open Ext4tc.Lib Ext4tc.DiskUtils

/-- `partNos` holds, for each disk, `get_part_no()` of its ext partitions;
`idMap` is `ext4_partitions_id_map`, which may be NULL. -/
structure Devices where
  partNos : List (List Nat)
  idMap : Option (List Nat)

/-- `int` arithmetic, as the processor does it. -/
def int32 (x : Int) : Int := Int.bmod x (2 ^ 32)

/-- The byte of a character in the C locale. -/
def charByte (c : Char) : UInt8 := UInt8.ofNat c.toNat

/-- `%d`. -/
def decimal (x : Int) : List UInt8 :=
  (if x < 0 then [0x2d] else []) ++ (Nat.toDigits 10 x.natAbs).map charByte

/-- The first place at which `pat` occurs. -/
def strstr (pat : List UInt8) : List UInt8 → Option Nat
  | [] => if pat.isEmpty then some 0 else none
  | x :: s => if pat.isPrefixOf (x :: s) then some 0 else (strstr pat s).map (· + 1)

/-- `isalpha` and `isdigit` in the C locale. -/
def isAlpha (x : UInt8) : Bool := (0x41 ≤ x && x ≤ 0x5a) || (0x61 ≤ x && x ≤ 0x7a)

def isDigit (x : UInt8) : Bool := 0x30 ≤ x && x ≤ 0x39

structure DeviceScan where
  wasAlpha : Bool := false
  wasDigit : Bool := false
  diskNo : Int := 0
  partNo : Int := 0

def DeviceScan.step (scan : DeviceScan) (x : UInt8) : Option DeviceScan :=
  if isAlpha x then
    if scan.wasDigit then none
    else
      some { scan with wasAlpha := true, diskNo := int32 (scan.diskNo * 26 + x.toNat - 0x61 + 1) }
  else if isDigit x then
    if scan.wasAlpha then
      some { scan with wasDigit := true, partNo := int32 (scan.partNo * 10 + x.toNat - 0x30) }
    else none
  else none

namespace Devices

variable (devices : Devices)

/-- `get_partitions_ext2()` of a disk, as part numbers. -/
def disk (diskNo : Nat) : List Nat := devices.partNos.getD diskNo []

def validateDiskAndPartNo (diskNo partNo : Int) : Bool :=
  0 ≤ diskNo && diskNo < devices.partNos.length && 0 ≤ partNo &&
    match (devices.disk diskNo.toNat).getLast? with
    | none => false
    | some last => partNo ≤ int32 last

/-- `extract_disk_and_part_no`: letters and then digits behind the first `\sd`. -/
def extractDiskAndPartNo (path : List UInt8) : Option (Nat × Nat) :=
  match strstr [0x5c, 0x73, 0x64] path with
  | none => none
  | some at' =>
    let name := (path.drop (at' + 3)).takeWhile (· != 0x5c)
    if name.length < 2 then none
    else
      match name.foldlM DeviceScan.step {} with
      | none => none
      | some scan =>
        if !scan.wasDigit || !scan.wasAlpha then none
        else if devices.validateDiskAndPartNo (int32 (scan.diskNo - 1)) scan.partNo then
          some ((int32 (scan.diskNo - 1)).toNat, scan.partNo.toNat)
        else none

/-- `get_partition_index_via_real_number`: `map[map[disk_no] + part_no - 1]`. -/
def getPartitionIndexViaRealNumber (diskNo partNo : Nat) : Except Fault Nat :=
  match devices.idMap with
  | none => .error .nullDeref
  | some idMap =>
    match idMap[diskNo]? with
    | none => .error .outOfBounds
    | some pos =>
      if pos + partNo = 0 then .error .outOfBounds
      else
        match idMap[pos + partNo - 1]? with
        | none => .error .outOfBounds
        | some index => .ok index

/-- `get_first_ext4_disk_and_part_no`: the first disk that has a partition. -/
def getFirstExt4DiskAndPartNo : Option (Nat × Nat) :=
  match devices.partNos.findIdx? (fun partNos => !partNos.isEmpty) with
  | none => none
  | some diskNo => some (diskNo, (devices.disk diskNo).getD 0 0)

/-- The loop of `get_next_ext4_disk_and_part_no`, over `k` disks from disk `i` on, looking
for partition `j` of a disk that has any. -/
def nextFrom : (k i j : Nat) → Option (Nat × Nat)
  | 0, _, _ => none
  | k + 1, i, j =>
    if 0 < (devices.disk i).length then
      if j < (devices.disk i).length then some (i, j) else nextFrom k (i + 1) 0
    else nextFrom k (i + 1) j

def getNextExt4DiskAndPartNo (diskNo partNoMap : Nat) : Option (Nat × Nat) :=
  devices.nextFrom (devices.partNos.length - diskNo) diskNo (partNoMap + 1)

/-- `sd%c%d`, with the letter of the disk. -/
def displayName (diskNo partNo : Nat) : List UInt8 :=
  [0x73, 0x64, UInt8.ofNat (diskNo + 0x61)] ++ decimal (int32 partNo)

end Devices

end Ext4tc.Plugin
