import Ext4tc.DiskUtils.Partition
import Ext4tc.Lib.PointerWalk

/-! # The partition list of a disk

`disk::make_partitions_list`, with the list of `partition_list` and the entries of
`partition`. The scan goes through the four slots of the MBR and then, behind the last
extended one, along the chain of EBRs; a chain that does not end within the fuel is a
`hang`. Numbers of entries are counted as the objects are that carry them, one by one. -/

namespace Ext4tc.DiskUtils
open Ext4tc.Lib

/-! ## Entries -/

/-- The fields of the class `partition`. Its handle is always the one of the disk. -/
structure PartInfo where
  active : Bool
  primary : Bool
  sectorSize : Nat
  type : Nat
  hStart : Nat
  hEnd : Nat
  sStart : Nat
  sEnd : Nat
  cStart : Nat
  cEnd : Nat
  lba : Nat
  nSectors : Nat
  offset : Nat
  partNo : Nat
  deriving DecidableEq

namespace PartInfo

/-- The constructor. `sector_size` and `part_no` it leaves open; nothing reads them
before they are set. -/
def new : PartInfo where
  active := false
  primary := true
  sectorSize := 0
  type := 0
  hStart := 0
  hEnd := 0
  sStart := 0
  sEnd := 0
  cStart := 0
  cEnd := 0
  lba := 0
  nSectors := 0
  offset := 0
  partNo := 0

/-- The sectors are shifted in an `unsigned char`, out of the cylinder's two bits. -/
def setPartInfo (p : PartInfo) (buffer : Buffer) : PartInfo :=
  { p with
    active := buffer.u8 0 == 0x80
    hStart := buffer.u8 1
    sStart := buffer.u8 2 * 4 % 2 ^ 8 / 4
    cStart := buffer.u8 3
    type := buffer.u8 4
    hEnd := buffer.u8 5
    sEnd := buffer.u8 6 * 4 % 2 ^ 8 / 4
    cEnd := buffer.u8 7
    lba := buffer.u32 8
    nSectors := buffer.u32 12 }

end PartInfo

/-- `partition_list`. A `leaf` has a `next` of NULL, and `p` is NULL until it is set. -/
inductive PartitionList where
  | leaf (p : Option PartInfo)
  | link (p : Option PartInfo) (next : PartitionList)

namespace PartitionList

def p : PartitionList → Option PartInfo
  | leaf p => p
  | link p _ => p

def new : PartitionList := leaf none

/-- The walk to the end of the list, and the new node behind it. -/
def append (newPart : PartInfo) : PartitionList → PartitionList
  | leaf p => link p (leaf (some newPart))
  | link p next => link p (next.append newPart)

def addPart (l : PartitionList) (newPart : PartInfo) : PartitionList :=
  match l.p with
  | none => leaf (some newPart)
  | some _ => l.append newPart

/-- What the list holds, in its order. -/
def entries : PartitionList → List PartInfo
  | leaf p => p.toList
  | link p next => p.toList ++ next.entries

theorem append_entries (x : PartInfo) : ∀ l : PartitionList, (l.append x).entries = l.entries ++ [x]
  | leaf p => by simp [append, entries]
  | link p next => by simp [append, entries, append_entries x next]

/-- A list that is new, or holds something. -/
def Sound (l : PartitionList) : Prop := l = new ∨ l.p ≠ none

theorem addPart_p (l : PartitionList) (x : PartInfo) : (l.addPart x).p ≠ none := by
  unfold addPart
  cases h : l.p with
  | none => simp [p]
  | some y =>
    cases l with
    | leaf q =>
      obtain rfl : q = some y := h
      simp [append, p]
    | link q next =>
      obtain rfl : q = some y := h
      simp [append, p]

/-- **Nothing is lost, doubled or moved.** -/
theorem addPart_entries {l : PartitionList} (h : l.Sound) (x : PartInfo) :
    (l.addPart x).entries = l.entries ++ [x] := by
  unfold addPart
  cases hp : l.p with
  | none =>
    obtain rfl := h.resolve_right (not_not.mpr hp)
    simp [new, entries]
  | some y => exact append_entries x l

end PartitionList

def listEntries (l : Option PartitionList) : List PartInfo :=
  match l with
  | none => []
  | some l => l.entries

theorem listEntries_getD (l : Option PartitionList) :
    (l.getD .new).entries = listEntries l := by
  cases l with
  | none => simp [listEntries, PartitionList.new, PartitionList.entries]
  | some l => rfl

/-! ## The disk -/

/-- A disk, with a sector size as the constructor sets it. `readOk` tells which sectors
`read_sectors_data` can read; none, if the handle is invalid. -/
structure Disk where
  sectorSize : Nat
  device : Nat → UInt8
  heap : Nat → UInt8
  readOk : Nat → Bool
  minSector : 512 ≤ sectorSize
  sectorSize32 : sectorSize < 2 ^ 32

namespace Disk

variable (d : Disk)

def partitionAt (offset : Nat) : Partition := ⟨d.sectorSize, offset, d.device, d.heap⟩

def readSectorsData (startSector nSectors : Nat) : Option Buffer :=
  if d.readOk startSector then
    some ((d.partitionAt 0).bufferAt (startSector * d.sectorSize % 2 ^ 64)
      (nSectors * d.sectorSize % 2 ^ 32))
  else none

def magicNr : Nat := 0xaa55

structure TableScan where
  partitions : Option PartitionList
  partTmp : PartInfo
  isExtended : Bool
  offsetExtPart : Nat
  n : Nat

def primaryPart (n : Nat) (part : PartInfo) : PartInfo :=
  { part with
    offset := part.lba * d.sectorSize % 2 ^ 64
    sectorSize := d.sectorSize
    partNo := n }

/-- The loop over the MBR, for slot `i`. -/
def primaryEntry (sector : Buffer) (scan : TableScan) (i : Nat) : TableScan :=
  let part := scan.partTmp.setPartInfo (sector.shift (446 + i * 16))
  if part.type ≠ 0 then
    let part := d.primaryPart scan.n part
    { partitions := some ((scan.partitions.getD .new).addPart part)
      partTmp := part
      isExtended := scan.isExtended || part.type == 0x5 || part.type == 0xf
      offsetExtPart := if part.type = 0x5 ∨ part.type = 0xf then part.lba else scan.offsetExtPart
      n := scan.n + 1 }
  else { scan with partTmp := part, n := scan.n + 1 }

/-- An entry of an EBR: a logical partition, relative to the sector `start`. -/
def logicPart (start n : Nat) (part : PartInfo) : PartInfo :=
  { part with
    primary := false
    offset := (start + part.lba) % 2 ^ 32 * d.sectorSize % 2 ^ 64
    sectorSize := d.sectorSize
    partNo := n }

/-- What `make_partitions_list` returns, and the list it leaves. -/
structure ScanResult where
  ret : Int
  partitions : Option PartitionList

/-- The loop along the chain of EBRs. The link goes into the list as well, under number 0. -/
def ebrLoop (offsetExtPart : Nat) :
    (fuel offsetLogicExt n : Nat) → PartInfo → PartitionList → Except Fault ScanResult
  | 0, _, _, _, _ => .error .hang
  | fuel + 1, offsetLogicExt, n, partTmp, partitions =>
    match d.readSectorsData ((offsetExtPart + offsetLogicExt) % 2 ^ 32) 1 with
    | none => .ok ⟨-1, some partitions⟩
    | some sector =>
      if sector.u16 510 ≠ magicNr then .ok ⟨-1, none⟩
      else
        let part := d.logicPart (offsetExtPart + offsetLogicExt) n
          (partTmp.setPartInfo (sector.shift 446))
        if sector.u8 466 = 0x5 then
          let link := d.logicPart (offsetExtPart + offsetLogicExt) 0
            (part.setPartInfo (sector.shift 462))
          ebrLoop offsetExtPart fuel link.lba (n + 1) link ((partitions.addPart part).addPart link)
        else .ok ⟨0, some (partitions.addPart part)⟩

/-- `make_partitions_list`, on the empty list of a new disk. -/
def makePartitionsList (fuel : Nat) : Except Fault ScanResult :=
  match d.readSectorsData 0 1 with
  | none => .ok ⟨-1, none⟩
  | some sector =>
    if sector.u16 510 ≠ magicNr then .ok ⟨-1, none⟩
    else
      let scan := (List.range 4).foldl (d.primaryEntry sector) ⟨none, .new, false, 0, 1⟩
      if scan.isExtended then
        match scan.partitions with
        | none => .error .nullDeref
        | some partitions => d.ebrLoop scan.offsetExtPart fuel 0 scan.n scan.partTmp partitions
      else .ok ⟨0, scan.partitions⟩

end Disk

end Ext4tc.DiskUtils
