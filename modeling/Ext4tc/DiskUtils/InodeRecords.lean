import Ext4tc.DiskUtils.GroupIndexes
import Ext4tc.Fs.Geometry

/-! # Where the inode records are

The format gives the records of revision 0 a size of 128 bytes, and later ones the size in the
superblock. The code takes the size in the superblock for all of them: for the offset of a
record, in a table that is read and in one that is cached, and for the length of the read. A
pointer designates bytes of the device if it shows them whatever they are. -/

namespace Ext4tc.DiskUtils
open Ext4tc.Lib Ext4tc.Fs

namespace PartitionLinuxExt2

def withDevice (part : PartitionLinuxExt2) (device : Nat → UInt8) : PartitionLinuxExt2 :=
  { part with part := { part.part with device } }

/-- What a file system of either revision keeps to: its blocks are whole sectors, and its inodes
fill a group at least. -/
structure ConsistentInodes (p : Partition) (sb : Ext4SuperBlock) : Prop where
  whole : p.sectorSize ∣ sb.blockSize
  perGroup : 2 ≤ sb.sInodesPerGroup
  count : sb.sInodesPerGroup ≤ sb.sInodesCount

def Numbered (sb : Ext4SuperBlock) (n : Nat) : Prop := 1 ≤ n ∧ n ≤ sb.sInodesCount

/-- A lookup that found the record of inode `n`, unless its read failed. -/
structure FindsRecord (p : Partition) (info : Ext4SbInfo) (gd : Ext4GroupDesc) (n : Nat) (ok : Bool)
    (found : Option Ext4Inode) : Prop where
  answers : found = none → ok = false
  record : ∀ inode, found = some inode → ∀ k < info.ext4Sb.inodeSize, inode.byte k =
    p.device (p.pos (inodeTableBlock info gd * info.ext4Sb.blockSize) +
      ((n - 1) % info.ext4Sb.sInodesPerGroup * info.ext4Sb.inodeSize + k))
  long : ∀ table, readInodeTable p true info gd = some table →
    ((n - 1) % info.ext4Sb.sInodesPerGroup + 1) * info.ext4Sb.inodeSize ≤ table.size

/-- Behind any run of lookups, each lookup finds its record, whatever is on the device. -/
def RecordsLocated (m : PartitionLinuxExt2) (info : Ext4SbInfo) (tables : GroupTables) : Prop :=
  ∀ device calls n ok, (∀ call ∈ calls, Numbered info.ext4Sb call.1) → Numbered info.ext4Sb n →
    ∃ part found part', (m.withDevice device).getExt4Inodes calls = .ok part ∧
      part.getExt4Inode ok n = .ok (found, part') ∧
      FindsRecord (m.withDevice device).part info (tables.grDesc (group info n)) n ok found

/-- The superblock has the record size of its revision, and the tables of all inodes can be
read. -/
structure OneRecordSize (p : Partition) (sb : Ext4SuperBlock) : Prop where
  revision : sb.sRevLevel = ext4GoodOldRev → sb.sInodeSize = ext4GoodOldInodeSize
  size : sb.inodeSize * sb.sInodesPerGroup + p.sectorSize - 1 < 2 ^ 32
  groups : sb.sInodesCount ≤ groupBlockCount sb * sb.sInodesPerGroup

section Records

variable {p : Partition} {tables : GroupTables}

theorem inodeSize_eq_iff (sb : Ext4SuperBlock) : sb.inodeSize = sb.sInodeSize ↔
    (sb.sRevLevel = ext4GoodOldRev → sb.sInodeSize = ext4GoodOldInodeSize) := by
  unfold Ext4SuperBlock.inodeSize
  split
  next hold =>
    exact ⟨fun h _ => h.symm, fun h => (h hold).symm⟩
  next hnew => exact iff_of_true rfl fun h => absurd h hnew

theorem getExt4Inode_fresh {info : Ext4SbInfo} {gr : Nat → Ext4GroupDesc} {n : Nat} (hn : n ≠ 0)
    (hs : p.sectorSize ≠ 0) (hipg : info.ext4Sb.sInodesPerGroup ≠ 0)
    (hpb : info.sInodesPerBlock = info.ext4Sb.sInodesPerGroup)
    {r : Option Ext4Inode × PartitionLinuxExt2}
    (h : (mountedAt p info gr .empty).getExt4Inode true n = .ok r) :
    group info n < info.sGroupBlockCount ∧ ∃ table,
      readInodeTable p true info (gr (group info n)) = some table ∧
      r.1 = some (table.shift (recordOff info n % 2 ^ 32)) := by
  have hlooks : LooksUp (mountedAt p info gr .empty)
      { info with tables := some ⟨gr, fun _ => none⟩ } ⟨gr, fun _ => none⟩ n :=
    ⟨rfl, rfl, hn, hs, hipg, hpb⟩
  obtain hgroup | hbeyond := Nat.lt_or_ge (group info n) info.sGroupBlockCount
  · cases (hlooks.miss hgroup rfl rfl).symm.trans h
    exact ⟨hgroup, _, rfl, rfl⟩
  · cases (hlooks.beyond hbeyond true).symm.trans h

theorem getExt2Sb_numbers {m : PartitionLinuxExt2} {okSb okGr : Bool} {info : Ext4SbInfo}
    (hmount : (new p).getExt2Sb okSb okGr = .ok (true, m)) (hlive : m.ext2 = .live info) :
    info.sGroupBlockCount = groupBlockCount info.ext4Sb ∧ info.ext4Sb.blockSize ≠ 0 := by
  obtain ⟨hfalse, -⟩ | ⟨-, -, -, hinit, buffer, -, rfl⟩ := getExt2Sb_new hmount
  · cases hfalse
  · cases hlive
    refine ⟨rfl, fun hzero => ?_⟩
    have hblock : (readSb p).ext4Sb.blockSize = 0 := hzero
    have hnone : descPerBlock (readSb p).ext4Sb = 0 := by
      rw [descPerBlock, hblock, Nat.zero_div]
    rw [initializeFromSb_eq, if_pos (.inr (.inr hnone))] at hinit
    cases hinit

/-! ## What lookups that find their records say -/

theorem exists_ne_byte (x : UInt8) : ∃ y, y ≠ x := by
  by_cases h : x = 0
  · exact ⟨1, h ▸ by decide⟩
  · exact ⟨0, Ne.symm h⟩

section Located

variable {info : Ext4SbInfo} {device : Nat → UInt8}

theorem RecordsLocated.fresh
    (h : RecordsLocated (mountedAt p info tables.grDesc .empty) info tables)
    (hs : p.sectorSize ≠ 0) (hipg : info.ext4Sb.sInodesPerGroup ≠ 0)
    (hpb : info.sInodesPerBlock = info.ext4Sb.sInodesPerGroup)
    (hwhole : p.sectorSize ∣ info.ext4Sb.blockSize) (device : Nat → UInt8) {n : Nat}
    (hn : Numbered info.ext4Sb n) :
    group info n < info.sGroupBlockCount ∧ FindsRecord { p with device } info
      (tables.grDesc (group info n)) n true
      (some ((diskTable { p with device } info (tables.grDesc (group info n))).shift
        (recordOff info n % 2 ^ 32))) := by
  obtain ⟨part, found, part', hrun, hcall, hfinds⟩ := h device [] n true nofun hn
  cases hrun
  have hpos := hn.1
  obtain ⟨hgroup, table, hread, hfound⟩ := @getExt4Inode_fresh { p with device } info tables.grDesc
    n (by omega) hs hipg hpb _ hcall
  have htable := @readInodeTable_true { p with device } info hwhole (tables.grDesc (group info n))
  obtain rfl := Option.some.inj (htable.symm.trans hread)
  exact ⟨hgroup, hfound ▸ hfinds⟩

/-- If the size of revision 0 is not in the superblock, the second record shows another byte of
the device, or of the heap behind the table. -/
theorem RecordsLocated.revision
    (h : RecordsLocated (mountedAt p info tables.grDesc .empty) info tables)
    (hs : p.sectorSize ≠ 0) (hpb : info.sInodesPerBlock = info.ext4Sb.sInodesPerGroup)
    (hc : ConsistentInodes p info.ext4Sb) : info.ext4Sb.inodeSize = info.ext4Sb.sInodeSize := by
  have hper := hc.perGroup
  have hcount := hc.count
  have hsize : info.ext4Sb.sInodeSize < 2 ^ 16 := Buffer.u16_lt _ _
  by_contra hne
  have hold : info.ext4Sb.inodeSize = 128 := by
    by_contra hnew
    refine hne (if_neg fun hrev => hnew ?_)
    exact if_pos hrev
  have hoff : recordOff info 2 % 2 ^ 32 = info.ext4Sb.sInodeSize := by
    rw [recordOff, Nat.mod_eq_of_lt hper, Nat.one_mul, Nat.mod_eq_of_lt (by omega)]
  -- the device shows `v` in the record, and what the heap has there elsewhere
  let base := p.pos (inodeTableBlock info (tables.grDesc (group info 2)) * info.ext4Sb.blockSize)
  let len := inodeTableSectors p info.ext4Sb * p.sectorSize % 2 ^ 32
  obtain ⟨v, hv⟩ := exists_ne_byte (p.heap (info.ext4Sb.sInodeSize - len))
  let device := fun x => if x = base + 128 then v else p.heap (info.ext4Sb.sInodeSize - len)
  obtain ⟨-, hfinds⟩ := h.fresh hs (by omega) hpb hc.whole device (n := 2) ⟨by omega, by omega⟩
  have hbyte := hfinds.record _ rfl 0 (by omega)
  have hright : device (base +
      ((2 - 1) % info.ext4Sb.sInodesPerGroup * info.ext4Sb.inodeSize + 0)) = v := by
    rw [Nat.mod_eq_of_lt hper, Nat.one_mul, hold]
    exact if_pos rfl
  have hleft : ((diskTable { p with device } info (tables.grDesc (group info 2))).shift
      (recordOff info 2 % 2 ^ 32)).byte 0 = p.heap (info.ext4Sb.sInodeSize - len) := by
    rw [hoff]
    change (if info.ext4Sb.sInodeSize < len then device (base + info.ext4Sb.sInodeSize)
      else p.heap (info.ext4Sb.sInodeSize - len)) = _
    split
    · refine if_neg fun heq => hne ?_
      omega
    · rfl
  exact hv (hright.symm.trans (hbyte.symm.trans hleft))

/-- A product that is too large wraps around, and the table ends before its last record. -/
theorem RecordsLocated.size
    (h : RecordsLocated (mountedAt p info tables.grDesc .empty) info tables)
    (hs : p.sectorSize ≠ 0) (hpb : info.sInodesPerBlock = info.ext4Sb.sInodesPerGroup)
    (hc : ConsistentInodes p info.ext4Sb) (hblock : info.ext4Sb.blockSize ≠ 0)
    (hrev : info.ext4Sb.inodeSize = info.ext4Sb.sInodeSize) :
    info.ext4Sb.inodeSize * info.ext4Sb.sInodesPerGroup + p.sectorSize - 1 < 2 ^ 32 := by
  have hper := hc.perGroup
  have hsector : p.sectorSize ≤ 2 ^ 31 :=
    (Nat.le_of_dvd (Nat.pos_of_ne_zero hblock) hc.whole).trans (Ext4SuperBlock.blockSize_le _)
  obtain ⟨-, hfinds⟩ := h.fresh hs (by omega) hpb hc.whole p.device
    (n := info.ext4Sb.sInodesPerGroup) ⟨by omega, hc.count⟩
  have hlong := hfinds.long _ (readInodeTable_true hc.whole _)
  rw [Nat.mod_eq_of_lt (by omega), Nat.sub_add_cancel (by omega), hrev] at hlong
  have hrounds : inodeTableSectors p info.ext4Sb * p.sectorSize ≤
      sub32 ((info.ext4Sb.sInodeSize * info.ext4Sb.sInodesPerGroup + p.sectorSize) % 2 ^ 32) 1 :=
    Nat.div_mul_le_self _ _
  have htable : info.ext4Sb.sInodesPerGroup * info.ext4Sb.sInodeSize ≤
      inodeTableSectors p info.ext4Sb * p.sectorSize := hlong.trans (Nat.mod_le _ _)
  rw [hrev]
  rw [Nat.mul_comm] at htable
  unfold sub32 at hrounds
  omega

end Located

/-! ## Lookups of the numbers of the groups -/

/-- A lookup in a coherent cache, of tables with the records of the revision. -/
theorem FindsRecord.of_coherent {info : Ext4SbInfo} (hs : p.sectorSize ≠ 0)
    (hd : TableLayout p info) (hrev : info.ext4Sb.inodeSize = info.ext4Sb.sInodeSize)
    {c : FifoCache Nat Buffer}
    (hc : FifoCache.Coherent 100 (fun g => diskTable p info (tables.grDesc g)) c) (n : Nat)
    (ok : Bool) : FindsRecord p info (tables.grDesc (group info n)) n ok
      (((c.slots (group info n)).or (load p info tables.grDesc (group info n) ok)).map
        fun inodes => inodes.shift (recordOff info n)) := by
  refine ⟨fun hnull => ?_, fun inode hfound => ?_, fun table hread => ?_⟩
  · rw [Option.map_eq_none_iff, Option.or_eq_none_iff] at hnull
    cases ok with
    | false => rfl
    | true => cases hnull.2
  · rw [hrev]
    exact found_isRecord hs hd hc hfound
  · obtain rfl := Option.some.inj ((readInodeTable_true hd.whole _).symm.trans hread)
    obtain ⟨hend, hsize⟩ := recordOff_lt hs hd n
    rw [Nat.succ_mul, hrev]
    change _ ≤ inodeTableSectors p info.ext4Sb * p.sectorSize % 2 ^ 32
    rw [Nat.mod_eq_of_lt hsize]
    exact hend

/-- **Every record is found where its revision has it, and inside the table that was read,
exactly if the superblock has the record size of its revision and the tables can be read.** -/
theorem records_located_iff {m : PartitionLinuxExt2} {okSb okGr : Bool} {info : Ext4SbInfo}
    (hmount : (new p).getExt2Sb okSb okGr = .ok (true, m)) (hlive : m.ext2 = .live info)
    (htables : info.tables = some tables) (hc : ConsistentInodes p info.ext4Sb) :
    RecordsLocated m info tables ↔ OneRecordSize p info.ext4Sb := by
  obtain ⟨hgroups, hblock⟩ := getExt2Sb_numbers hmount hlive
  obtain ⟨hs, hpb, rfl⟩ := getExt2Sb_true hmount hlive htables
  have hper := hc.perGroup
  constructor
  · intro h
    have hrev := h.revision hs hpb hc
    refine ⟨(inodeSize_eq_iff _).mp hrev, h.size hs hpb hc hblock hrev, ?_⟩
    obtain ⟨hlast, -⟩ := h.fresh hs (by omega) hpb hc.whole p.device
      (n := info.ext4Sb.sInodesCount) ⟨by have := hc.count; omega, Nat.le_refl _⟩
    rw [group, hgroups, Nat.div_lt_iff_lt_mul (by omega)] at hlast
    omega
  · intro h device calls n ok hcalls hn
    have hrev := (inodeSize_eq_iff _).mpr h.revision
    have hd : TableLayout { p with device } info := ⟨by omega, hrev ▸ h.size, hc.whole⟩
    have hrange : ∀ {n}, Numbered info.ext4Sb n → InRange info n := fun hn =>
      ⟨hn.1, hgroups ▸ hn.2.trans h.groups⟩
    have hsector : ({ p with device } : Partition).sectorSize ≠ 0 := hs
    obtain ⟨c, hrun, hcoh⟩ := getExt4Inodes_coherent tables.grDesc hsector hpb hd
      fun call hmem => hrange (hcalls call hmem)
    exact ⟨_, _, _, hrun, getExt4Inode_mountedAt tables.grDesc hsector hpb hd c (hrange hn) ok,
      .of_coherent hsector hd hrev hcoh n ok⟩

end Records

theorem records_located_iff_eightInodes :
    ∃ m info tables, (new eightInodes).getExt2Sb true true = .ok (true, m) ∧
      m.ext2 = .live info ∧ info.tables = some tables ∧ info.ext4Sb.sRevLevel = ext4GoodOldRev ∧
      RecordsLocated m info tables := by
  have hmount : ∃ m info tables, (new eightInodes).getExt2Sb true true = .ok (true, m) ∧
      m.ext2 = .live info ∧ info.tables = some tables ∧
      info.ext4Sb = (readSb eightInodes).ext4Sb := ⟨_, _, _, rfl, rfl, rfl, rfl⟩
  obtain ⟨m, info, tables, hm, hlive, htables, hsb⟩ := hmount
  refine ⟨m, info, tables, hm, hlive, htables, ?_,
    (records_located_iff hm hlive htables ?_).mpr ?_⟩ <;> rw [hsb]
  · decide
  · exact ⟨by decide, by decide, by decide⟩
  · exact ⟨by decide, by decide, by decide⟩

def noInodeSize : Partition :=
  .ofDevice ((Buffer.zeros 0).pokes
    [(1024, [8]), (1028, [9]), (1044, [1]), (1056, [8]), (1064, [8]), (1080, [0x53, 0xef])]).byte

/-- All inodes are looked up at the start of an empty table. -/
theorem record_size_missing :
    ∃ m info tables, (new noInodeSize).getExt2Sb true true = .ok (true, m) ∧
      m.ext2 = .live info ∧ info.tables = some tables ∧ ConsistentInodes noInodeSize info.ext4Sb ∧
      info.ext4Sb.sRevLevel = ext4GoodOldRev ∧ info.ext4Sb.sInodeSize = 0 ∧
      ¬RecordsLocated m info tables := by
  have hmount : ∃ m info tables, (new noInodeSize).getExt2Sb true true = .ok (true, m) ∧
      m.ext2 = .live info ∧ info.tables = some tables ∧
      info.ext4Sb = (readSb noInodeSize).ext4Sb := ⟨_, _, _, rfl, rfl, rfl, rfl⟩
  obtain ⟨m, info, tables, hm, hlive, htables, hsb⟩ := hmount
  obtain ⟨hs, hpb, rfl⟩ := getExt2Sb_true hm hlive htables
  have hc : ConsistentInodes noInodeSize info.ext4Sb := by
    rw [hsb]
    exact ⟨by decide, by decide, by decide⟩
  refine ⟨_, info, tables, hm, hlive, htables, hc, ?_, ?_, fun h => ?_⟩
  · rw [hsb]
    decide
  · rw [hsb]
    decide
  · have hrev := h.revision hs hpb hc
    rw [hsb] at hrev
    revert hrev
    decide

end PartitionLinuxExt2

end Ext4tc.DiskUtils
