import Ext4tc.DiskUtils.Mounting
import Ext4tc.Lib.FifoCache

/-! # The inode table cache over whole runs

Mounting leaves an empty cache, and from then on one `get_ext4_inode` call is one
access of a first-in first-out cache of inode tables, keyed by group: the queue of
the partition and the slots of the superblock object move together. Coherence,
the bytes of a result and how long a group stays are facts about that cache. -/

namespace Ext4tc.DiskUtils
open Ext4tc.Lib Ext4tc.Fs

namespace PartitionLinuxExt2

def slot (part : PartitionLinuxExt2) (g : Nat) : Option Buffer :=
  match part.ext2 with
  | .live info => info.tables.bind fun tables => tables.inodesTableCache g
  | _ => none

def cache (part : PartitionLinuxExt2) : FifoCache Nat Buffer := ⟨part.groupDescQueue, part.slot⟩

/-- The calls of a run that find no table in their group's slot. -/
def misses (info : Ext4SbInfo) : PartitionLinuxExt2 → List (Nat × Bool) → Nat
  | _, [] => 0
  | part, (n, ok) :: calls =>
    (if part.slot (group info n) = none then 1 else 0) +
      match part.getExt4Inode ok n with
      | .error _ => 0
      | .ok (_, part) => misses info part calls

/-- The inode table of a group, from the device: whole sectors, from the table's block on. -/
def diskTable (p : Partition) (info : Ext4SbInfo) (gd : Ext4GroupDesc) : Buffer :=
  p.bufferAt (p.pos (inodeTableBlock info gd * info.ext4Sb.blockSize))
    (inodeTableSectors p info.ext4Sb * p.sectorSize % 2 ^ 32)

/-- `inode` points at the bytes of inode `n`'s record on the device. -/
def IsRecord (p : Partition) (info : Ext4SbInfo) (gd : Ext4GroupDesc) (n : Nat)
    (inode : Ext4Inode) : Prop :=
  ∀ k, k < info.ext4Sb.sInodeSize → inode.byte k =
    p.device (p.pos (inodeTableBlock info gd * info.ext4Sb.blockSize) +
      ((n - 1) % info.ext4Sb.sInodesPerGroup * info.ext4Sb.sInodeSize + k))

/-- What the layout of inode tables must keep to. -/
structure TableLayout (p : Partition) (info : Ext4SbInfo) : Prop where
  perGroup : 0 < info.ext4Sb.sInodesPerGroup
  size : info.ext4Sb.sInodeSize * info.ext4Sb.sInodesPerGroup + p.sectorSize - 1 < 2 ^ 32
  whole : p.sectorSize ∣ info.ext4Sb.blockSize

def InRange (info : Ext4SbInfo) (n : Nat) : Prop :=
  1 ≤ n ∧ n ≤ info.sGroupBlockCount * info.ext4Sb.sInodesPerGroup

/-! ## Mounting -/

def mountedAt (p : Partition) (info : Ext4SbInfo) (grDesc : Nat → Ext4GroupDesc)
    (c : FifoCache Nat Buffer) : PartitionLinuxExt2 :=
  ⟨p, .live { info with tables := some ⟨grDesc, c.slots⟩ }, c.queue⟩

@[simp] theorem mountedAt_slot (p : Partition) (info : Ext4SbInfo) (gr : Nat → Ext4GroupDesc)
    (c : FifoCache Nat Buffer) (g : Nat) : (mountedAt p info gr c).slot g = c.slots g := rfl

theorem getExt2Sb_true {p : Partition} {okSb okGr : Bool} {m : PartitionLinuxExt2}
    {info : Ext4SbInfo} {tables : GroupTables} (h : (new p).getExt2Sb okSb okGr = .ok (true, m))
    (hlive : m.ext2 = .live info) (htables : info.tables = some tables) :
    p.sectorSize ≠ 0 ∧ info.sInodesPerBlock = info.ext4Sb.sInodesPerGroup ∧
      m = mountedAt p info tables.grDesc .empty := by
  obtain ⟨hfalse, -⟩ | ⟨-, hs, -, -, buffer, -, rfl⟩ := getExt2Sb_new h
  · cases hfalse
  · cases hlive
    cases htables
    exact ⟨hs, rfl, rfl⟩

/-! ## One call -/

section Call

variable {p : Partition} {info : Ext4SbInfo} {gr : Nat → Ext4GroupDesc}

def load (p : Partition) (info : Ext4SbInfo) (gr : Nat → Ext4GroupDesc) (g : Nat) :
    Bool → Option Buffer
  | true => some (diskTable p info (gr g))
  | false => none

theorem readInodeTable_true (h : p.sectorSize ∣ info.ext4Sb.blockSize) (gd : Ext4GroupDesc) :
    readInodeTable p true info gd = some (diskTable p info gd) := by
  rw [readInodeTable, Partition.readSectorsEx, if_pos rfl, Partition.seek_eq, Nat.mul_assoc,
    Nat.div_mul_cancel h, diskTable]

theorem readInodeTable_eq (hd : TableLayout p info) (ok : Bool) (g : Nat) :
    readInodeTable p ok info (gr g) = load p info gr g ok := by
  cases ok with
  | false => rfl
  | true => exact readInodeTable_true hd.whole (gr g)

theorem group_lt {n : Nat} (hd : TableLayout p info) (hn : InRange info n) :
    group info n < info.sGroupBlockCount := by
  obtain ⟨hpos, hle⟩ := hn
  exact (Nat.div_lt_iff_lt_mul hd.perGroup).mpr (by omega)

theorem recordOff_lt (hs : p.sectorSize ≠ 0) (hd : TableLayout p info) (n : Nat) :
    recordOff info n + info.ext4Sb.sInodeSize ≤ inodeTableSectors p info.ext4Sb * p.sectorSize ∧
      inodeTableSectors p info.ext4Sb * p.sectorSize < 2 ^ 32 := by
  obtain ⟨hipg, hsize, -⟩ := hd
  have hidx := Nat.mod_lt (n - 1) hipg
  have hend : recordOff info n + info.ext4Sb.sInodeSize ≤
      info.ext4Sb.sInodeSize * info.ext4Sb.sInodesPerGroup := by
    rw [recordOff, ← Nat.succ_mul, Nat.mul_comm info.ext4Sb.sInodeSize]
    exact Nat.mul_le_mul_right _ hidx
  have hsub : sub32 ((info.ext4Sb.sInodeSize * info.ext4Sb.sInodesPerGroup + p.sectorSize) %
      2 ^ 32) 1 = info.ext4Sb.sInodeSize * info.ext4Sb.sInodesPerGroup + p.sectorSize - 1 := by
    unfold sub32
    omega
  obtain ⟨hup, hless⟩ := @round_up (info.ext4Sb.sInodeSize * info.ext4Sb.sInodesPerGroup)
    p.sectorSize (Nat.pos_of_ne_zero hs)
  rw [inodeTableSectors, hsub]
  omega

theorem popFullQueue_eq (c : FifoCache Nat Buffer) :
    popFullQueue ⟨gr, c.slots⟩ c.queue =
      (⟨gr, (c.makeRoom maxGroupDescQueueLen).slots⟩, (c.makeRoom maxGroupDescQueueLen).queue) := by
  unfold popFullQueue FifoCache.makeRoom
  by_cases hfull : maxGroupDescQueueLen ≤ c.queue.length
  · rw [if_pos hfull, if_pos hfull]
    cases hq : c.queue with
    | nil => simp [hq]
    | cons index queue => rfl
  · rw [if_neg hfull, if_neg hfull]

theorem afterMiss_mountedAt (c : FifoCache Nat Buffer) (g : Nat) (table : Option Buffer) :
    (mountedAt p info gr c).afterMiss { info with tables := some ⟨gr, c.slots⟩ } ⟨gr, c.slots⟩ g
      table = mountedAt p info gr (c.miss maxGroupDescQueueLen g table) := by
  cases table with
  | none =>
    simp only [afterMiss, mountedAt, popFullQueue_eq]
    rfl
  | some inodes =>
    simp only [afterMiss, mountedAt, popFullQueue_eq]
    rfl

/-- **One call is one access of the cache.** -/
theorem getExt4Inode_mountedAt (gr : Nat → Ext4GroupDesc) (hs : p.sectorSize ≠ 0)
    (hpb : info.sInodesPerBlock = info.ext4Sb.sInodesPerGroup) (hd : TableLayout p info)
    (c : FifoCache Nat Buffer) {n : Nat} (hn : InRange info n) (ok : Bool) :
    (mountedAt p info gr c).getExt4Inode ok n =
      .ok (((c.slots (group info n)).or (load p info gr (group info n) ok)).map
          fun inodes => inodes.shift (recordOff info n),
        mountedAt p info gr (c.access maxGroupDescQueueLen (group info n)
          (load p info gr (group info n) ok))) := by
  obtain ⟨hlen, hsize⟩ := recordOff_lt hs hd n
  have hg := group_lt hd hn
  have hoff : recordOff info n % 2 ^ 32 = recordOff info n := Nat.mod_eq_of_lt (by omega)
  have hlooks : LooksUp (mountedAt p info gr c) { info with tables := some ⟨gr, c.slots⟩ }
      ⟨gr, c.slots⟩ n := ⟨rfl, rfl, Nat.ne_of_gt hn.1, hs, hd.perGroup.ne', hpb⟩
  unfold FifoCache.access
  cases hslot : c.slots (group info n) with
  | some inodes =>
    rw [hlooks.hit hg hslot ok]
    exact congrArg (fun off => Except.ok (some (inodes.shift off), mountedAt p info gr c)) hoff
  | none =>
    have hread : readInodeTable p ok { info with tables := some ⟨gr, c.slots⟩ }
        (gr (group info n)) = load p info gr (group info n) ok := readInodeTable_eq hd ok _
    have hcall : (mountedAt p info gr c).getExt4Inode ok n =
        .ok ((load p info gr (group info n) ok).map fun inodes =>
            inodes.shift (recordOff info n % 2 ^ 32),
          (mountedAt p info gr c).afterMiss { info with tables := some ⟨gr, c.slots⟩ } ⟨gr, c.slots⟩
            (group info n) (load p info gr (group info n) ok)) := hlooks.miss hg hslot hread
    rw [hcall, hoff, afterMiss_mountedAt, Option.none_or]

end Call

/-! ## Runs -/

section Run

variable {p : Partition} {info : Ext4SbInfo} {gr : Nat → Ext4GroupDesc}

/-- The accesses that a run of calls makes. -/
def accesses (p : Partition) (info : Ext4SbInfo) (gr : Nat → Ext4GroupDesc)
    (calls : List (Nat × Bool)) :
    List (Nat × Option Buffer) :=
  calls.map fun call => (group info call.1, load p info gr (group info call.1) call.2)

theorem accesses_loadsFrom (calls : List (Nat × Bool)) :
    FifoCache.LoadsFrom (fun g => diskTable p info (gr g)) (accesses p info gr calls) := by
  intro g table hmem
  obtain ⟨⟨n, ok⟩, -, heq⟩ := List.mem_map.mp hmem
  obtain ⟨rfl, hload⟩ := Prod.mk.inj heq
  cases ok with
  | false => cases hload
  | true =>
    cases hload
    rfl

/-- A run of calls is a run of the cache, and misses are misses. -/
theorem getExt4Inodes_mountedAt (gr : Nat → Ext4GroupDesc) (hs : p.sectorSize ≠ 0)
    (hpb : info.sInodesPerBlock = info.ext4Sb.sInodesPerGroup) (hd : TableLayout p info) :
    ∀ (calls : List (Nat × Bool)) (c : FifoCache Nat Buffer),
      (∀ call ∈ calls, InRange info call.1) →
      (mountedAt p info gr c).getExt4Inodes calls =
          .ok (mountedAt p info gr (c.run maxGroupDescQueueLen (accesses p info gr calls))) ∧
        misses info (mountedAt p info gr c) calls =
          c.misses maxGroupDescQueueLen (accesses p info gr calls)
  | [], _, _ => ⟨rfl, rfl⟩
  | (n, ok) :: calls, c, hn => by
    have hcall := getExt4Inode_mountedAt gr hs hpb hd c (hn _ List.mem_cons_self) ok
    obtain ⟨hrun, hmiss⟩ := getExt4Inodes_mountedAt gr hs hpb hd calls
      (c.access maxGroupDescQueueLen (group info n) (load p info gr (group info n) ok))
      fun call hmem => hn call (List.mem_cons_of_mem _ hmem)
    constructor
    · rw [getExt4Inodes, hcall]
      exact hrun
    · rw [misses, hcall]
      simp only [hmiss, mountedAt_slot]
      rfl

/-- **A run from an empty cache leaves a coherent one.** -/
theorem getExt4Inodes_coherent (gr : Nat → Ext4GroupDesc) (hs : p.sectorSize ≠ 0)
    (hpb : info.sInodesPerBlock = info.ext4Sb.sInodesPerGroup) (hd : TableLayout p info)
    {calls : List (Nat × Bool)} (hcalls : ∀ call ∈ calls, InRange info call.1) :
    ∃ c, (mountedAt p info gr .empty).getExt4Inodes calls = .ok (mountedAt p info gr c) ∧
      FifoCache.Coherent maxGroupDescQueueLen (fun g => diskTable p info (gr g)) c := by
  obtain ⟨hrun, -⟩ := getExt4Inodes_mountedAt gr hs hpb hd calls .empty hcalls
  exact ⟨_, hrun, (FifoCache.coherent_empty maxGroupDescQueueLen
    fun g => diskTable p info (gr g)).run (by decide) (accesses_loadsFrom calls)⟩

theorem isRecord_shift (hs : p.sectorSize ≠ 0) (hd : TableLayout p info) (n : Nat)
    (gd : Ext4GroupDesc) :
    IsRecord p info gd n ((diskTable p info gd).shift (recordOff info n)) := by
  obtain ⟨hlen, hsize⟩ := recordOff_lt hs hd n
  intro k hk
  refine Partition.bufferAt_byte p ?_
  rw [Nat.mod_eq_of_lt hsize]
  omega

theorem found_isRecord (hs : p.sectorSize ≠ 0) (hd : TableLayout p info) {c : FifoCache Nat Buffer}
    (hc : FifoCache.Coherent 100 (fun g => diskTable p info (gr g)) c) {n : Nat} {ok : Bool}
    {inode : Ext4Inode} (h : ((c.slots (group info n)).or (load p info gr (group info n) ok)).map
      (fun inodes => inodes.shift (recordOff info n)) = some inode) :
    IsRecord p info (gr (group info n)) n inode := by
  obtain ⟨table, htable, rfl⟩ := Option.map_eq_some_iff.mp h
  rcases Option.or_eq_some_iff.mp htable with hslot | ⟨-, hload⟩
  · rw [hc.value _ _ hslot]
    exact isRecord_shift hs hd n _
  · rw [(accesses_loadsFrom (p := p) [(n, ok)]).head _ hload]
    exact isRecord_shift hs hd n _

/-- A group that a miss has just brought in outlasts 99 misses. -/
theorem loaded_stays (hs : p.sectorSize ≠ 0)
    (hpb : info.sInodesPerBlock = info.ext4Sb.sInodesPerGroup) (hd : TableLayout p info)
    {c : FifoCache Nat Buffer} (hc : FifoCache.Coherent 100 (fun g => diskTable p info (gr g)) c)
    {g : Nat} (hg : c.slots g = none) {calls : List (Nat × Bool)}
    (hcalls : ∀ call ∈ calls, InRange info call.1)
    (hmiss : misses info (mountedAt p info gr (c.miss 100 g (load p info gr g true))) calls ≤ 99) :
    ∃ part, (mountedAt p info gr (c.miss 100 g (load p info gr g true))).getExt4Inodes calls =
      .ok part ∧
      part.slot g ≠ none := by
  obtain ⟨hrun, hmisses⟩ := getExt4Inodes_mountedAt gr hs hpb hd calls _ hcalls
  have hnext : FifoCache.Coherent 100 (fun g => diskTable p info (gr g))
      (c.miss 100 g (load p info gr g true)) := hc.miss (by decide) hg fun a ha => by
    cases ha
    rfl
  have hslack : FifoCache.Slack 100 (c.miss 100 g (load p info gr g true)) g 99 :=
    FifoCache.slack_insert (by decide) hc hg
  rw [hmisses] at hmiss
  exact ⟨_, hrun, hslack.run (by decide) (accesses_loadsFrom calls) hnext hmiss⟩

end Run

/-- What a call on a partition that went through any run of calls does. The
queue and the slots agree and hold the tables of the device; a result is the
inode's record; NULL needs a failed read on a miss; and a group that was just
read stays for 99 more misses. -/
structure CallCoherent (p : Partition) (info : Ext4SbInfo) (gr : Nat → Ext4GroupDesc) (n : Nat)
    (ok : Bool) (part : PartitionLinuxExt2) (found : Option Ext4Inode)
    (part' : PartitionLinuxExt2) : Prop where
  coherent : FifoCache.Coherent 100 (fun g => diskTable p info (gr g)) part'.cache
  record : ∀ inode, found = some inode → IsRecord p info (gr (group info n)) n inode
  null : found = none → ok = false ∧ part.slot (group info n) = none
  stays : part.slot (group info n) = none → found ≠ none →
    ∀ calls, (∀ call ∈ calls, InRange info call.1) → misses info part' calls ≤ 99 →
      ∃ part'', part'.getExt4Inodes calls = .ok part'' ∧ part''.slot (group info n) ≠ none

/-- After any run of calls on a mounted partition, with reads failing at will,
the next call answers and is coherent. -/
theorem inode_cache_coherent {p : Partition} {okSb okGr : Bool} {m : PartitionLinuxExt2}
    {info : Ext4SbInfo} {tables : GroupTables}
    (hmount : (new p).getExt2Sb okSb okGr = .ok (true, m)) (hlive : m.ext2 = .live info)
    (htables : info.tables = some tables) (hd : TableLayout p info) (calls : List (Nat × Bool))
    (hcalls : ∀ call ∈ calls, InRange info call.1) (n : Nat) (ok : Bool) (hn : InRange info n) :
    ∃ part found part', m.getExt4Inodes calls = .ok part ∧
      part.getExt4Inode ok n = .ok (found, part') ∧
      CallCoherent p info tables.grDesc n ok part found part' := by
  obtain ⟨hs, hpb, rfl⟩ := getExt2Sb_true hmount hlive htables
  obtain ⟨c, hrun, hcoh⟩ := getExt4Inodes_coherent tables.grDesc hs hpb hd hcalls
  have hcall := getExt4Inode_mountedAt tables.grDesc hs hpb hd c hn ok
  refine ⟨_, _, _, hrun, hcall, ?_, fun inode => found_isRecord hs hd hcoh, ?_, ?_⟩
  · exact hcoh.access (by decide) (accesses_loadsFrom (p := p) [(n, ok)]).head
  · intro hnull
    rw [Option.map_eq_none_iff, Option.or_eq_none_iff] at hnull
    refine ⟨?_, hnull.1⟩
    cases ok with
    | false => rfl
    | true => cases hnull.2
  · intro hslot hfound calls' hcalls' hmiss
    rw [mountedAt_slot] at hslot
    cases ok with
    | false => exact absurd (by rw [hslot]; rfl) hfound
    | true =>
      have hmissed : c.access maxGroupDescQueueLen (group info n) (load p info tables.grDesc
          (group info n) true) = c.miss 100 (group info n)
            (load p info tables.grDesc (group info n) true) := by
        rw [FifoCache.access, hslot]
        rfl
      rw [hmissed] at hmiss ⊢
      exact loaded_stays hs hpb hd hcoh hslot hcalls' hmiss

/-- A device with one group of eight 128-byte inodes, superblock magic and all. -/
def smallDevice : Partition :=
  .ofDevice ((Buffer.zeros 0).pokes
    [(1028, [9]), (1044, [1]), (1056, [8]), (1064, [8]), (1080, [0x53, 0xef]), (1112, [128])]).byte

theorem inode_cache_coherent_smallDevice :
    ∃ m info tables, (new smallDevice).getExt2Sb true true = .ok (true, m) ∧ m.ext2 = .live info ∧
      info.tables = some tables ∧ ∃ part found part', m.getExt4Inodes [(1, true), (8, false)] =
        .ok part ∧
        part.getExt4Inode true 2 = .ok (found, part') ∧
        CallCoherent smallDevice info tables.grDesc 2 true part found part' := by
  have hmount : ∃ m info tables, (new smallDevice).getExt2Sb true true = .ok (true, m) ∧
      m.ext2 = .live info ∧ info.tables = some tables ∧ info.ext4Sb.sInodesPerGroup = 8 ∧
      info.ext4Sb.sInodeSize = 128 ∧ info.ext4Sb.blockSize = 1024 ∧ info.sGroupBlockCount = 1 :=
    ⟨_, _, _, rfl, rfl, rfl, by decide, by decide, by decide, by decide⟩
  obtain ⟨m, info, tables, hm, hlive, htables, hipg, hsize, hblock, hcount⟩ := hmount
  have hrange : ∀ n, 1 ≤ n → n ≤ 8 → InRange info n := fun n hlo hhi =>
    ⟨hlo, by rw [hcount, hipg]; omega⟩
  refine ⟨m, info, tables, hm, hlive, htables,
    inode_cache_coherent hm hlive htables ⟨?_, ?_, ?_⟩ _ ?_ 2 true
    (hrange 2 (by omega) (by omega))⟩
  · omega
  · rw [hipg, hsize]
    decide
  · rw [hblock]
    decide
  · intro call hmem
    simp only [List.mem_cons, List.not_mem_nil, or_false] at hmem
    obtain rfl | rfl := hmem
    · exact hrange 1 (by omega) (by omega)
    · exact hrange 8 (by omega) (by omega)

end PartitionLinuxExt2

end Ext4tc.DiskUtils
