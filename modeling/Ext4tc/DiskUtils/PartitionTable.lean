import Ext4tc.DiskUtils.Disk

/-! # The partition table and its chain

What the scan of a disk should find, and when it comes to an end. Logical partitions are
relative to the EBR they stand in, links to the start of the extended partition. -/

namespace Ext4tc.DiskUtils
open Ext4tc.Lib

/-- An entry of 16 bytes, at a byte of a sector: its type is byte 4, the first sector bytes 8
to 11, the count of sectors bytes 12 to 15. In the bytes 2 and 6 the low six bits are those of
a sector. -/
def entryAt (sector : Buffer) (pos : Nat) : PartInfo where
  active := sector.byte pos == 0x80
  primary := true
  sectorSize := 0
  type := sector.u8 (pos + 4)
  hStart := sector.u8 (pos + 1)
  hEnd := sector.u8 (pos + 5)
  sStart := sector.u8 (pos + 2) % 64
  sEnd := sector.u8 (pos + 6) % 64
  cStart := sector.u8 (pos + 3)
  cEnd := sector.u8 (pos + 7)
  lba := sector.u32 (pos + 8)
  nSectors := sector.u32 (pos + 12)
  offset := 0
  partNo := 0

/-- Slot `i` of the table, from 0 on. -/
def slotAt (mbr : Buffer) (i : Nat) : PartInfo := entryAt mbr (446 + i * 16)

def PartInfo.isExtended (part : PartInfo) : Bool := part.type == 0x5 || part.type == 0xf

/-- The start of the last extended slot among the first `k`. -/
def extendedSlot (mbr : Buffer) (k : Nat) : Option Nat :=
  ((List.range k).filter fun i => (slotAt mbr i).isExtended).getLast?.map
    fun i => (slotAt mbr i).lba

namespace Disk

variable (d : Disk)

def primaryAt (mbr : Buffer) (i : Nat) : PartInfo :=
  { slotAt mbr i with
    offset := (slotAt mbr i).lba * d.sectorSize
    sectorSize := d.sectorSize
    partNo := i + 1 }

def primaryEntries (mbr : Buffer) (k : Nat) : List PartInfo :=
  ((List.range k).filter fun i => (slotAt mbr i).type ≠ 0).map (d.primaryAt mbr)

def mbr : Option Buffer :=
  (d.readSectorsData 0 1).filter fun sector => sector.u16 510 = magicNr

def extendedStart : Option Nat := d.mbr.bind fun mbr => extendedSlot mbr 4

/-- The EBR at an offset into the extended partition that starts at `x`. -/
def ebr (x offset : Nat) : Option Buffer :=
  (d.readSectorsData ((x + offset) % 2 ^ 32) 1).filter fun sector => sector.u16 510 = magicNr

/-- Where the link of an EBR leads, if it has one. -/
def nextOffset (x offset : Nat) : Option Nat :=
  (d.ebr x offset).bind fun sector =>
    if sector.u8 466 = 0x5 then some (entryAt sector 462).lba else none

/-! ## The slots -/

theorem setPartInfo_shift (part : PartInfo) (sector : Buffer) (pos : Nat) :
    part.setPartInfo (sector.shift pos) =
      { entryAt sector pos with
        primary := part.primary
        sectorSize := part.sectorSize
        offset := part.offset
        partNo := part.partNo } := by
  have hactive : ((sector.shift pos).u8 0 == 0x80) = (sector.byte pos == 0x80) := by
    rw [Bool.eq_iff_iff, beq_iff_eq, beq_iff_eq]
    exact UInt8.toNat_inj (b := 0x80)
  have hlow : ∀ x, x * 4 % 2 ^ 8 / 4 = x % 64 := by omega
  unfold PartInfo.setPartInfo
  rw [hactive, hlow, hlow]
  rfl

theorem logicPart_lba (start n : Nat) (part : PartInfo) (sector : Buffer) (pos : Nat) :
    (d.logicPart start n (part.setPartInfo (sector.shift pos))).lba = (entryAt sector pos).lba := by
  rw [setPartInfo_shift]
  rfl

theorem entryAt_lba_lt (sector : Buffer) (pos : Nat) : (entryAt sector pos).lba < 2 ^ 32 :=
  Buffer.u32_lt _ _

theorem offset_eq {sector : Nat} (h : sector < 2 ^ 32) :
    sector * d.sectorSize % 2 ^ 64 = sector * d.sectorSize := by
  have hmul : sector * d.sectorSize < 2 ^ 32 * 2 ^ 32 := Nat.mul_lt_mul'' h d.sectorSize32
  exact Nat.mod_eq_of_lt hmul

structure Scanned (mbr : Buffer) (k : Nat) (scan : TableScan) : Prop where
  entries : listEntries scan.partitions = d.primaryEntries mbr k
  sound : ∀ l, scan.partitions = some l → l.p ≠ none
  primary : scan.partTmp.primary = true
  extended : extendedSlot mbr k = if scan.isExtended then some scan.offsetExtPart else none
  listed : scan.isExtended = true → scan.partitions ≠ none
  n : scan.n = k + 1

variable {d}

theorem extendedSlot_succ (mbr : Buffer) (k : Nat) :
    extendedSlot mbr (k + 1) =
      if (slotAt mbr k).isExtended then some (slotAt mbr k).lba else extendedSlot mbr k := by
  unfold extendedSlot
  rw [List.range_succ, List.filter_append]
  cases h : (slotAt mbr k).isExtended with
  | true => simp [h]
  | false => simp [h]

theorem primaryEntries_succ (mbr : Buffer) (k : Nat) :
    d.primaryEntries mbr (k + 1) = d.primaryEntries mbr k ++
      if (slotAt mbr k).type ≠ 0 then [d.primaryAt mbr k] else [] := by
  unfold primaryEntries
  rw [List.range_succ, List.filter_append, List.map_append]
  by_cases h : (slotAt mbr k).type = 0
  · simp [h]
  · simp [h]

theorem primaryPart_eq {part : PartInfo} (h : part.primary = true) (mbr : Buffer) (k : Nat) :
    d.primaryPart (k + 1) (part.setPartInfo (mbr.shift (446 + k * 16))) = d.primaryAt mbr k := by
  have hoffset := d.offset_eq (entryAt_lba_lt mbr (446 + k * 16))
  simp only [primaryPart, primaryAt, setPartInfo_shift, h, slotAt, hoffset]
  rfl

/-- **One slot.** -/
theorem Scanned.step {mbr : Buffer} {k : Nat} {scan : TableScan} (h : Scanned d mbr k scan) :
    Scanned d mbr (k + 1) (d.primaryEntry mbr scan k) := by
  have htype : (scan.partTmp.setPartInfo (mbr.shift (446 + k * 16))).type =
    (slotAt mbr k).type := rfl
  unfold primaryEntry
  by_cases hzero : (slotAt mbr k).type = 0
  · have hext : (slotAt mbr k).isExtended = false := by simp [PartInfo.isExtended, hzero]
    simp only [htype, hzero, ne_eq, not_true_eq_false, if_false]
    refine ⟨?_, h.sound, h.primary, ?_, h.listed, by simp [h.n]⟩
    · simp [primaryEntries_succ, hzero, h.entries]
    · rw [extendedSlot_succ, hext]
      exact h.extended
  · simp only [htype, ne_eq, hzero, not_false_eq_true, if_true, h.n, primaryPart_eq h.primary]
    have hsound : (scan.partitions.getD .new).Sound := by
      cases hlist : scan.partitions with
      | none => exact .inl rfl
      | some l => exact .inr (h.sound l hlist)
    refine ⟨?_, ?_, rfl, ?_, nofun, rfl⟩
    · rw [listEntries, PartitionList.addPart_entries hsound, listEntries_getD, h.entries,
        primaryEntries_succ, if_pos hzero]
    · intro l hl
      cases hl
      exact PartitionList.addPart_p _ _
    · have hext : (d.primaryAt mbr k).type = (slotAt mbr k).type := rfl
      rw [extendedSlot_succ, h.extended, PartInfo.isExtended, hext]
      by_cases hfive : (slotAt mbr k).type = 0x5
      · simp [hfive, primaryAt]
      · by_cases hf : (slotAt mbr k).type = 0xf
        · simp [hf, primaryAt]
        · simp [hfive, hf]

/-- **All slots.** -/
theorem scanned (d : Disk) (mbr : Buffer) (k : Nat) :
    Scanned d mbr k ((List.range k).foldl (d.primaryEntry mbr) ⟨none, .new, false, 0, 1⟩) := by
  induction k with
  | zero => exact ⟨rfl, nofun, rfl, rfl, nofun, rfl⟩
  | succ k ih =>
    rw [List.range_succ, List.foldl_append]
    exact ih.step

/-! ## The scan -/

theorem validSector_eq_some {buffer : Option Buffer} {sector : Buffer} :
    (buffer.filter fun sector => sector.u16 510 = magicNr) = some sector ↔
      buffer = some sector ∧ sector.u16 510 = magicNr := by
  simp only [Option.filter_eq_some_iff, decide_eq_true_eq]

theorem makePartitionsList_mbr {d : Disk} {mbr : Buffer} (h : d.mbr = some mbr) :
    ∃ scan, Scanned d mbr 4 scan ∧ ∀ fuel, d.makePartitionsList fuel =
      if scan.isExtended then
        match scan.partitions with
        | none => .error .nullDeref
        | some partitions => d.ebrLoop scan.offsetExtPart fuel 0 5 scan.partTmp partitions
      else .ok ⟨0, scan.partitions⟩ := by
  obtain ⟨hread, hmagic⟩ := validSector_eq_some.mp h
  have hscan := scanned d mbr 4
  refine ⟨_, hscan, ?_⟩
  intro fuel
  rw [makePartitionsList, hread]
  simp only [if_neg (not_not.mpr hmagic)]
  generalize (List.range 4).foldl (d.primaryEntry mbr) ⟨none, .new, false, 0, 1⟩ = scan at hscan ⊢
  cases scan.isExtended with
  | false => rfl
  | true =>
    cases scan.partitions with
    | none => rfl
    | some partitions => simp only [if_true, hscan.n]

/-- Without an extended slot the scan ends with the slots. -/
theorem makePartitionsList_plain {d : Disk} {mbr : Buffer} (h : d.mbr = some mbr)
    (hext : extendedSlot mbr 4 = none) :
    ∃ l, listEntries l = d.primaryEntries mbr 4 ∧
      ∀ fuel, d.makePartitionsList fuel = .ok ⟨0, l⟩ := by
  obtain ⟨scan, hscan, hrun⟩ := makePartitionsList_mbr h
  have hextended := hscan.extended
  cases hflag : scan.isExtended with
  | true => simp [hext, hflag] at hextended
  | false =>
    refine ⟨scan.partitions, hscan.entries, ?_⟩
    intro fuel
    simp [hrun, hflag]

/-- With one it goes on along its chain. -/
theorem makePartitionsList_extended {d : Disk} {mbr : Buffer} {x : Nat} (h : d.mbr = some mbr)
    (hext : extendedSlot mbr 4 = some x) :
    ∃ part partitions, partitions.entries = d.primaryEntries mbr 4 ∧ partitions.p ≠ none ∧
      ∀ fuel, d.makePartitionsList fuel = d.ebrLoop x fuel 0 5 part partitions := by
  obtain ⟨scan, hscan, hrun⟩ := makePartitionsList_mbr h
  have hextended := hscan.extended
  cases hflag : scan.isExtended with
  | false => simp [hext, hflag] at hextended
  | true =>
    obtain rfl : x = scan.offsetExtPart := by simpa [hext, hflag] using hextended
    cases hlist : scan.partitions with
    | none => exact absurd hlist (hscan.listed hflag)
    | some partitions =>
      have hentries := hscan.entries
      rw [hlist] at hentries
      refine ⟨scan.partTmp, partitions, hentries, hscan.sound partitions hlist, ?_⟩
      intro fuel
      simp [hrun, hflag, hlist]

theorem makePartitionsList_no_mbr {d : Disk} (h : d.mbr = none) (fuel : Nat) :
    d.makePartitionsList fuel = .ok ⟨-1, none⟩ := by
  unfold makePartitionsList
  cases hread : d.readSectorsData 0 1 with
  | none => rfl
  | some sector =>
    have hmagic : sector.u16 510 ≠ magicNr := fun hmagic =>
      nomatch h.symm.trans (validSector_eq_some.mpr ⟨hread, hmagic⟩)
    simp only [if_pos hmagic]

theorem ebrLoop_none {d : Disk} {x offset : Nat} (h : d.ebr x offset = none) (fuel n : Nat)
    (part : PartInfo) (partitions : PartitionList) :
    ∃ r, d.ebrLoop x (fuel + 1) offset n part partitions = .ok r := by
  rw [ebrLoop]
  cases hread : d.readSectorsData ((x + offset) % 2 ^ 32) 1 with
  | none => exact ⟨_, rfl⟩
  | some sector =>
    have hmagic : sector.u16 510 ≠ magicNr := fun hmagic =>
      nomatch h.symm.trans (validSector_eq_some.mpr ⟨hread, hmagic⟩)
    exact ⟨_, if_pos hmagic⟩

theorem ebrLoop_some {d : Disk} {x offset : Nat} {sector : Buffer}
    (h : d.ebr x offset = some sector)
    (fuel n : Nat) (partTmp : PartInfo) (partitions : PartitionList) :
    d.ebrLoop x (fuel + 1) offset n partTmp partitions =
      let part := d.logicPart (x + offset) n (partTmp.setPartInfo (sector.shift 446))
      let link := d.logicPart (x + offset) 0 (part.setPartInfo (sector.shift 462))
      if sector.u8 466 = 0x5 then
        d.ebrLoop x fuel link.lba (n + 1) link ((partitions.addPart part).addPart link)
      else .ok ⟨0, some (partitions.addPart part)⟩ := by
  obtain ⟨hread, hmagic⟩ := validSector_eq_some.mp h
  rw [ebrLoop]
  simp only [hread, if_neg (not_not.mpr hmagic)]

/-! ## The end of the chain -/

/-- The loop along the chain runs out of fuel exactly where the chain goes on. -/
theorem ebrLoop_hang_iff (d : Disk) (x : Nat) : ∀ (fuel offset n : Nat) (part : PartInfo)
    (partitions : PartitionList),
    d.ebrLoop x fuel offset n part partitions = .error .hang ↔
      ∃ offset', Walk.place (d.nextOffset x) offset fuel = some offset'
  | 0, offset, n, part, partitions => iff_of_true rfl ⟨offset, rfl⟩
  | fuel + 1, offset, n, part, partitions => by
    rw [Walk.place_succ', nextOffset]
    cases hebr : d.ebr x offset with
    | none =>
      obtain ⟨r, hr⟩ := ebrLoop_none hebr fuel n part partitions
      simp [hr]
    | some sector =>
      rw [ebrLoop_some hebr]
      by_cases hlink : sector.u8 466 = 0x5
      · simp only [if_pos hlink, Option.bind_some, logicPart_lba]
        exact ebrLoop_hang_iff d x fuel _ _ _ _
      · simp [hlink]

theorem nextOffset_lt {d : Disk} {x offset offset' : Nat}
    (h : d.nextOffset x offset = some offset') : offset' < 2 ^ 32 := by
  obtain ⟨sector, -, hlink⟩ := Option.bind_eq_some_iff.mp h
  split at hlink
  next =>
    cases hlink
    exact entryAt_lba_lt sector 462
  next => cases hlink

theorem chain_offset_lt {d : Disk} {x k offset : Nat}
    (h : Walk.place (d.nextOffset x) 0 k = some offset) : offset < 2 ^ 32 := by
  cases k with
  | zero =>
    cases h
    decide
  | succ k =>
    obtain ⟨offset', -, hnext⟩ := Option.bind_eq_some_iff.mp h
    exact nextOffset_lt hnext

/-- **The scan of a disk ends exactly if its chain comes to no EBR twice.** -/
theorem make_partitions_list_ends_iff (d : Disk) :
    (∃ fuel, d.makePartitionsList fuel ≠ .error .hang) ↔
      ∀ x, d.extendedStart = some x → ∀ i j offset, i < j →
        Walk.place (d.nextOffset x) 0 i = some offset →
        Walk.place (d.nextOffset x) 0 j ≠ some offset := by
  cases hmbr : d.mbr with
  | none =>
    have hstart : d.extendedStart = none := by simp [extendedStart, hmbr]
    refine iff_of_true ⟨0, ?_⟩ ?_
    · rw [makePartitionsList_no_mbr hmbr]
      nofun
    · simp [hstart]
  | some mbr =>
    have hstart : d.extendedStart = extendedSlot mbr 4 := by simp [extendedStart, hmbr]
    rw [hstart]
    cases hext : extendedSlot mbr 4 with
    | none =>
      obtain ⟨l, -, hrun⟩ := makePartitionsList_plain hmbr hext
      refine iff_of_true ⟨0, ?_⟩ nofun
      rw [hrun]
      nofun
    | some x =>
      obtain ⟨part, partitions, -, -, hrun⟩ := makePartitionsList_extended hmbr hext
      have hends : (∃ fuel, d.makePartitionsList fuel ≠ .error .hang) ↔
          Walk.Ends (d.nextOffset x) 0 := by
        refine exists_congr fun fuel => ?_
        rw [hrun, ne_eq, ebrLoop_hang_iff, Option.eq_none_iff_forall_ne_some, not_exists]
      rw [hends, Walk.ends_iff_never_returns Function.injective_id fun _ _ => chain_offset_lt]
      exact ⟨fun h x' hx' => by cases hx'; exact h, fun h => h x rfl⟩

/-! ## The list -/

/-- An EBR that is read from sector `start`. -/
structure Ebr where
  start : Nat
  sector : Buffer

variable (d : Disk)

/-- The partition of an EBR, relative to it. -/
def logicalAt (n : Nat) (e : Ebr) : PartInfo :=
  { entryAt e.sector 446 with
    primary := false
    offset := (e.start + (entryAt e.sector 446).lba) * d.sectorSize
    sectorSize := d.sectorSize
    partNo := n }

/-- The link of an EBR, under number 0. Its offset is made as if it were a partition, and
is nowhere used. -/
def linkAt (e : Ebr) : PartInfo :=
  { entryAt e.sector 462 with
    primary := false
    offset := (e.start + (entryAt e.sector 462).lba) % 2 ^ 32 * d.sectorSize
    sectorSize := d.sectorSize
    partNo := 0 }

def ebrEntries (n : Nat) (e : Ebr) : List PartInfo :=
  d.logicalAt n e :: if e.sector.u8 466 = 0x5 then [d.linkAt e] else []

/-- From `offset` on the chain consists of these EBRs, with all sectors below `2 ^ 32`. -/
inductive EbrChain (x : Nat) : Nat → List Ebr → Prop
  | last {offset : Nat} {sector : Buffer} (ebr : d.ebr x offset = some sector)
      (part : x + offset + (entryAt sector 446).lba < 2 ^ 32)
      (noLink : sector.u8 466 ≠ 0x5) : EbrChain x offset [⟨x + offset, sector⟩]
  | link {offset : Nat} {sector : Buffer} {ebrs : List Ebr} (ebr : d.ebr x offset = some sector)
      (part : x + offset + (entryAt sector 446).lba < 2 ^ 32)
      (isLink : sector.u8 466 = 0x5) (rest : EbrChain x (entryAt sector 462).lba ebrs) :
      EbrChain x offset (⟨x + offset, sector⟩ :: ebrs)

/-- The chain of a table: there is none without an extended slot. -/
def ChainOf (mbr : Buffer) (ebrs : List Ebr) : Prop :=
  match extendedSlot mbr 4 with
  | none => ebrs = []
  | some x => d.EbrChain x 0 ebrs

/-- The slots in use, and behind them the EBRs, of which number `k` has partition `5 + k`. -/
def tableEntries (mbr : Buffer) (ebrs : List Ebr) : List PartInfo :=
  d.primaryEntries mbr 4 ++ (ebrs.zipIdx 5).flatMap fun e => d.ebrEntries e.2 e.1

variable {d}

theorem logicPart_logicalAt {x offset : Nat} {sector : Buffer}
    (h : x + offset + (entryAt sector 446).lba < 2 ^ 32) (n : Nat) (part : PartInfo) :
    d.logicPart (x + offset) n (part.setPartInfo (sector.shift 446)) =
      d.logicalAt n ⟨x + offset, sector⟩ := by
  have hoffset := d.offset_eq h
  simp only [logicalAt, logicPart, setPartInfo_shift, Nat.mod_eq_of_lt h, hoffset]

theorem logicPart_linkAt (start : Nat) (sector : Buffer) (part : PartInfo) :
    d.logicPart start 0 (part.setPartInfo (sector.shift 462)) = d.linkAt ⟨start, sector⟩ := by
  have hoffset := d.offset_eq (Nat.mod_lt (start + (entryAt sector 462).lba) (Nat.two_pow_pos 32))
  simp only [linkAt, logicPart, setPartInfo_shift, hoffset]

/-- **The loop lists a chain, EBR by EBR.** -/
theorem EbrChain.listed {x offset : Nat} {ebrs : List Ebr} (h : d.EbrChain x offset ebrs)
    {fuel : Nat} (hfuel : ebrs.length ≤ fuel) (n : Nat) (part : PartInfo)
    {partitions : PartitionList} (hsound : partitions.Sound) :
    ∃ l, d.ebrLoop x fuel offset n part partitions = .ok ⟨0, some l⟩ ∧
      l.entries = partitions.entries ++ (ebrs.zipIdx n).flatMap fun e => d.ebrEntries e.2 e.1 := by
  induction h generalizing fuel n part partitions with
  | last ebr part' noLink =>
    cases fuel with
    | zero => cases hfuel
    | succ fuel =>
      rw [ebrLoop_some ebr]
      simp only [if_neg noLink, logicPart_logicalAt part']
      refine ⟨_, rfl, ?_⟩
      rw [PartitionList.addPart_entries hsound]
      simp [ebrEntries, noLink]
  | @link offset sector ebrs ebr part' isLink rest ih =>
    cases fuel with
    | zero => cases hfuel
    | succ fuel =>
      have hfirst : (partitions.addPart (d.logicalAt n ⟨x + offset, sector⟩)).Sound :=
        .inr (PartitionList.addPart_p _ _)
      obtain ⟨l, hrun, hl⟩ := ih (Nat.le_of_succ_le_succ hfuel) (n + 1)
        (d.linkAt ⟨x + offset, sector⟩)
        (.inr (PartitionList.addPart_p (partitions.addPart (d.logicalAt n ⟨x + offset, sector⟩)) _))
      rw [ebrLoop_some ebr]
      simp only [if_pos isLink, logicPart_logicalAt part', logicPart_linkAt]
      refine ⟨l, hrun, ?_⟩
      rw [hl, PartitionList.addPart_entries hfirst, PartitionList.addPart_entries hsound]
      simp [ebrEntries, isLink]

/-- **The list is exactly the table and its chain.** -/
theorem make_partitions_list_exact {d : Disk} {mbr : Buffer} {ebrs : List Ebr}
    (hmbr : d.mbr = some mbr) (hchain : d.ChainOf mbr ebrs) {fuel : Nat}
    (hfuel : ebrs.length ≤ fuel) :
    ∃ l, d.makePartitionsList fuel = .ok ⟨0, l⟩ ∧ listEntries l = d.tableEntries mbr ebrs := by
  unfold ChainOf at hchain
  split at hchain
  next hext =>
    subst hchain
    obtain ⟨l, hentries, hrun⟩ := makePartitionsList_plain hmbr hext
    exact ⟨l, hrun fuel, by simp [tableEntries, hentries]⟩
  next x hext =>
    obtain ⟨part, partitions, hentries, hp, hrun⟩ := makePartitionsList_extended hmbr hext
    obtain ⟨l, hloop, hl⟩ := hchain.listed hfuel 5 part (.inr hp)
    refine ⟨some l, (hrun fuel).trans hloop, ?_⟩
    rw [listEntries, hl, hentries, tableEntries]

end Disk

/-! ## Two disks -/

def diskOf (writes : List (Nat × List UInt8)) : Disk :=
  ⟨512, ((Buffer.zeros 0).pokes writes).byte, fun _ => 0, fun _ => true, by decide, by decide⟩

/-- A primary partition at sector 2, and two logical ones, at sectors 5 and 7, in an
extended partition from sector 4 on. -/
def chainDisk : Disk :=
  diskOf [(450, [0x83, 0, 0, 0, 2]), (466, [5, 0, 0, 0, 4]), (510, [0x55, 0xaa]),
    (2498, [0x83, 0, 0, 0, 1]), (2514, [5, 0, 0, 0, 2]), (2558, [0x55, 0xaa]),
    (3522, [0x83, 0, 0, 0, 1]), (3582, [0x55, 0xaa])]

def chainDiskSector (start : Nat) : Buffer := (chainDisk.partitionAt 0).bufferAt (start * 512) 512

theorem chainDisk_mbr : chainDisk.mbr = some (chainDiskSector 0) :=
  Disk.validSector_eq_some.mpr ⟨rfl, by decide +kernel⟩

theorem chainDisk_chain : chainDisk.ChainOf (chainDiskSector 0)
    [⟨4, chainDiskSector 4⟩, ⟨6, chainDiskSector 6⟩] := by
  have hext : extendedSlot (chainDiskSector 0) 4 = some 4 := by decide +kernel
  have hlba : (entryAt (chainDiskSector 4) 462).lba = 2 := by decide +kernel
  have hlast : chainDisk.EbrChain 4 2 [⟨6, chainDiskSector 6⟩] :=
    .last (Disk.validSector_eq_some.mpr ⟨rfl, by decide +kernel⟩) (by decide +kernel)
      (by decide +kernel)
  rw [Disk.ChainOf, hext]
  refine .link (Disk.validSector_eq_some.mpr ⟨rfl, by decide +kernel⟩) (by decide +kernel)
    (by decide +kernel) ?_
  rw [hlba]
  exact hlast

theorem make_partitions_list_chainDisk :
    ∃ l, chainDisk.makePartitionsList 2 = .ok ⟨0, l⟩ ∧
      listEntries l = chainDisk.tableEntries (chainDiskSector 0)
        [⟨4, chainDiskSector 4⟩, ⟨6, chainDiskSector 6⟩] :=
  Disk.make_partitions_list_exact chainDisk_mbr chainDisk_chain (Nat.le_refl 2)

-- the numbers and the offsets, with a link under number 0
example : (chainDisk.tableEntries (chainDiskSector 0) [⟨4, chainDiskSector 4⟩,
    ⟨6, chainDiskSector 6⟩]).map (fun part => (part.partNo, part.offset)) =
      [(1, 1024), (2, 2048), (5, 2560), (0, 3072), (6, 3584)] := by decide +kernel

/-- An extended partition whose EBR links to itself. -/
def loopDisk : Disk :=
  diskOf [(450, [5, 0, 0, 0, 1]), (510, [0x55, 0xaa]), (978, [5]), (1022, [0x55, 0xaa])]

/-- The scan goes round the loop for ever. -/
theorem ebr_loop_hangs : ¬∃ fuel, loopDisk.makePartitionsList fuel ≠ .error .hang := by
  have hmbr : loopDisk.mbr = some ((loopDisk.partitionAt 0).bufferAt 0 512) :=
    Disk.validSector_eq_some.mpr ⟨rfl, by decide +kernel⟩
  have hnext : loopDisk.nextOffset 1 0 = some 0 := by decide +kernel
  have hround : ∀ k, Walk.place (loopDisk.nextOffset 1) 0 k = some 0 := by
    intro k
    induction k with
    | zero => rfl
    | succ k ih => rw [Walk.place_succ, ih, Option.bind_some, hnext]
  obtain ⟨part, partitions, -, -, hrun⟩ :=
    Disk.makePartitionsList_extended hmbr (show extendedSlot _ 4 = some 1 by decide +kernel)
  rintro ⟨fuel, hends⟩
  rw [hrun, Ne, Disk.ebrLoop_hang_iff] at hends
  exact hends ⟨0, hround fuel⟩

end Ext4tc.DiskUtils
