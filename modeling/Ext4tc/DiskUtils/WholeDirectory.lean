import Ext4tc.DiskUtils.RecordWalk

/-! # Directories of well-formed blocks

A block in which the records follow each other to its end, each with room for its name, is
read record by record, and the table gets what every record says. The one exception is the
destructor of the mapper, on an extent-mapped directory that has no block. -/

namespace Ext4tc.DiskUtils
open Ext4tc.Lib Ext4tc.Fs

/-- From `offset` on, the records of a block follow each other to its end. -/
inductive RecordChain (bs : Nat) (buffer : Buffer) : Nat → List Ext4DirEntry2 → Prop
  | done : RecordChain bs buffer bs []
  | record {offset : Nat} {records : List Ext4DirEntry2}
      (header : 8 ≤ Ext4DirEntry2.recLen (buffer.shift offset))
      (name : Ext4DirEntry2.nameLen (buffer.shift offset) ≤
        Ext4DirEntry2.recLen (buffer.shift offset) - 8)
      (rest : RecordChain bs buffer (offset + Ext4DirEntry2.recLen (buffer.shift offset)) records) :
      RecordChain bs buffer offset (buffer.shift offset :: records)

theorem RecordChain.next {bs : Nat} {buffer : Buffer} {offset n : Nat}
    {records : List Ext4DirEntry2}
    (h : Ext4DirEntry2.recLen (buffer.shift offset) = n ∧ 8 ≤ n ∧
      Ext4DirEntry2.nameLen (buffer.shift offset) ≤ n - 8)
    (hrest : RecordChain bs buffer (offset + n) records) :
    RecordChain bs buffer offset (buffer.shift offset :: records) := by
  obtain ⟨rfl, hheader, hname⟩ := h
  exact .record hheader hname hrest

/-- An entry says what a record says. -/
structure Carries (dir record : Ext4DirEntry2) : Prop where
  inode : dir.inode = record.inode
  recLen : dir.recLen = record.recLen
  nameLen : dir.nameLen = record.nameLen
  fileType : dir.fileType = record.fileType
  nameBytes : dir.nameBytes = record.nameBytes

/-- The call returns a table of the records, in their order, and their number. -/
def ListsRecords (records : List Ext4DirEntry2) (result : Except Fault DirResult) : Prop :=
  ∃ r, result = .ok r ∧ r.readDirs = some records.length ∧
    (r.table.getD []).length = records.length ∧ List.Forall₂ Carries (r.table.getD []) records

/-- The inputs of a directory read: lookups and reads that succeed, well-formed blocks, and
fuel for as many records as a block can have. -/
structure DirInput (env : DirEnv) (p : Partition) (sb : Ext4SuperBlock) (inode : Ext4Inode)
    (addr : Nat → Nat) (records : Nat → List Ext4DirEntry2) : Prop where
  lookups : ∃ b', (Blocks.new p sb inode).getExt2BlkNrs env.metaFails
      (List.range (fileBlocks sb.blockSize inode.size)) =
    .ok ((List.range (fileBlocks sb.blockSize inode.size)).map fun i => .at (addr i), b')
  reads : ∀ i < fileBlocks sb.blockSize inode.size, env.readOk i = true
  chains : ∀ i < fileBlocks sb.blockSize inode.size,
    RecordChain sb.blockSize (p.block sb.blockSize (addr i)) 0 (records i)
  fuel : sb.blockSize < 8 * env.fuel

/-- The copies that are made of the bytes of a buffer, from `offset` on and into the objects
from the `k`-th on, say what the records say. -/
def CopiesSay (heap : Nat → Nat → UInt8) (buffer : Buffer) :
    (k offset : Nat) → List Ext4DirEntry2 → Prop
  | _, _, [] => True
  | k, offset, record :: records =>
    Carries (getExt4DirEntry (heap k) (buffer.shift offset)) record ∧
      CopiesSay heap buffer (k + 1) (offset + record.recLen) records

/-- The sector read of block `i` gets its records. -/
def ReadsRecords (env : DirEnv) (p : Partition) (bs : Nat) (addr : Nat → Nat)
    (records : Nat → List Ext4DirEntry2) (i : Nat) : Prop :=
  ∃ buffer, p.readSectorsEx true (bs / p.sectorSize % 2 ^ 16 * addr i % 2 ^ 64)
      (bs / p.sectorSize % 2 ^ 16) = some buffer ∧
    CopiesSay env.heap buffer ((List.range i).flatMap records).length 0 (records i)

/-! ## One record -/

theorem carries_copy (heap : Nat → UInt8) {record : Ext4DirEntry2} (hheader : 8 ≤ record.recLen)
    (hname : record.nameLen ≤ record.recLen - 8) :
    Carries (getExt4DirEntry heap record) record := by
  have h255 : record.nameLen < 2 ^ 8 := Buffer.u8_lt _ _
  have hbyte : ∀ i < 8 + record.nameLen, (getExt4DirEntry heap record).byte i = record.byte i :=
    fun i hi => getExt4DirEntry_byte heap (by unfold sizeofExt4DirEntry2; omega) (by omega)
  have hlen : (getExt4DirEntry heap record).nameLen = record.nameLen := nameLen_copy (by omega)
  refine ⟨?_, recLen_copy (by omega), hlen, ?_, ?_⟩
  · refine Buffer.u32_congr ?_
    intro k hk
    exact hbyte _ (by omega)
  · simp only [Ext4DirEntry2.fileType, Buffer.u8, hbyte 7 (by omega)]
  · rw [Ext4DirEntry2.nameBytes, hlen, Ext4DirEntry2.nameBytes]
    refine List.map_congr_left ?_
    intro i hi
    exact hbyte _ (Nat.add_lt_add_left (List.mem_range.mp hi) 8)

/-! ## One block -/

/-- A chain ends at the end of its block, and takes 8 bytes for each record. -/
theorem RecordChain.length_le {bs offset : Nat} {buffer : Buffer} {records : List Ext4DirEntry2}
    (h : RecordChain bs buffer offset records) : offset + 8 * records.length ≤ bs := by
  induction h with
  | done => simp
  | record header name rest ih =>
    simp only [List.length_cons]
    omega

theorem RecordChain.copiesSay (heap : Nat → Nat → UInt8) {bs offset : Nat} {buffer : Buffer}
    {records : List Ext4DirEntry2} (h : RecordChain bs buffer offset records) (k : Nat) :
    CopiesSay heap buffer k offset records := by
  induction h generalizing k with
  | done => trivial
  | record header name rest ih => exact ⟨carries_copy (heap k) header name, ih (k + 1)⟩

/-- **The record loop gets every record of a chain, once and in order**, from a buffer whose
copies say what the records say. -/
theorem recordLoop_chain {heap : Nat → Nat → UInt8} {bs offset : Nat} {block buffer : Buffer}
    {records : List Ext4DirEntry2} (hbs : bs ≤ 2 ^ 31) (h : RecordChain bs block offset records)
    {fuel : Nat} (hfuel : records.length < fuel) {entries : List Ext4DirEntry2}
    (hcopies : CopiesSay heap buffer entries.length offset records) :
    ∃ dirs, recordLoop heap bs buffer fuel offset (.of entries) = .ok (.of (entries ++ dirs)) ∧
      List.Forall₂ Carries dirs records := by
  induction h generalizing fuel entries with
  | done =>
    cases fuel with
    | zero => cases hfuel
    | succ fuel => exact ⟨[], by simp [recordLoop], .nil⟩
  | @record offset records header name rest ih =>
    cases fuel with
    | zero => cases hfuel
    | succ fuel =>
      have hend := rest.length_le
      obtain ⟨hcarries, hcopies⟩ := hcopies
      have hnext : (offset + (getExt4DirEntry (heap entries.length) (buffer.shift offset)).recLen) %
          2 ^ 32 = offset + Ext4DirEntry2.recLen (block.shift offset) := by
        rw [hcarries.recLen]
        exact Nat.mod_eq_of_lt (by omega)
      obtain ⟨dirs, hloop, hdirs⟩ := @ih fuel (Nat.lt_of_succ_lt_succ hfuel)
        (entries ++ [getExt4DirEntry (heap entries.length) (buffer.shift offset)])
        (by rwa [List.length_append, List.length_singleton])
      refine ⟨getExt4DirEntry (heap entries.length) (buffer.shift offset) :: dirs, ?_,
        .cons hcarries hdirs⟩
      rw [recordLoop, if_pos (by omega)]
      simp only [DirTable.of_entries, DirTable.push_of, hnext, hloop, List.append_assoc,
        List.singleton_append]

/-- Entries that begin with what the loop stored of a block carry its records only if its
copies say what they say. -/
theorem recordLoop_copies {heap : Nat → Nat → UInt8} {bs offset : Nat} {block buffer : Buffer}
    {records : List Ext4DirEntry2} (hbs : bs ≤ 2 ^ 31) (h : RecordChain bs block offset records)
    {fuel : Nat} {entries dirs more rest : List Ext4DirEntry2}
    (hloop : recordLoop heap bs buffer fuel offset (.of entries) = .ok (.of (entries ++ dirs)))
    (hall : List.Forall₂ Carries (dirs ++ more) (records ++ rest)) :
    CopiesSay heap buffer entries.length offset records ∧ List.Forall₂ Carries dirs records ∧
      List.Forall₂ Carries more rest := by
  induction h generalizing fuel entries dirs with
  | done =>
    cases fuel with
    | zero => cases hloop
    | succ fuel =>
      rw [recordLoop, if_neg (Nat.lt_irrefl bs)] at hloop
      have hsame : entries = entries ++ dirs := congrArg DirTable.entries (Except.ok.inj hloop)
      obtain rfl : dirs = [] := by simpa using hsame
      exact ⟨trivial, .nil, hall⟩
  | @record offset records header name tail ih =>
    cases fuel with
    | zero => cases hloop
    | succ fuel =>
      have hend := tail.length_le
      rw [recordLoop, if_pos (by omega)] at hloop
      simp only [DirTable.of_entries, DirTable.push_of] at hloop
      obtain ⟨dirs, hdirs⟩ := recordLoop_appends hloop
      have happ := congrArg DirTable.entries hdirs
      simp only [DirTable.of_entries, List.append_assoc, List.singleton_append] at happ
      obtain rfl := List.append_cancel_left happ
      obtain ⟨hcarries, hrest⟩ := List.forall₂_cons.mp hall
      have hnext : (offset + (getExt4DirEntry (heap entries.length) (buffer.shift offset)).recLen) %
          2 ^ 32 = offset + Ext4DirEntry2.recLen (block.shift offset) := by
        rw [hcarries.recLen]
        exact Nat.mod_eq_of_lt (by omega)
      rw [hdirs, hnext] at hloop
      obtain ⟨hcopies, hhere, hmore⟩ := ih hloop hrest
      rw [List.length_append, List.length_singleton] at hcopies
      exact ⟨⟨hcarries, hcopies⟩, .cons hcarries hhere, hmore⟩

/-! ## The whole directory -/

section Input

variable {env : DirEnv} {p : Partition} {sb : Ext4SuperBlock} {inode : Ext4Inode}
    {addr : Nat → Nat} {records : Nat → List Ext4DirEntry2}

theorem DirInput.lookup (hd : DirInput env p sb inode addr records) {i : Nat}
    (hi : i < fileBlocks sb.blockSize inode.size) :
    (Blocks.new p sb inode).lookup env.metaFails i = .ok (.at (addr i)) := by
  obtain ⟨b', hrun⟩ := hd.lookups
  rw [List.range_eq_range'] at hrun
  exact Blocks.lookup_of_getExt2BlkNrs _ 0 (Blocks.before_zero _ _) hrun i (Nat.zero_le i)
    (by omega)

theorem DirInput.readsRecords (hd : DirInput env p sb inode addr records)
    (hw : WholeSectors p sb) : ∀ i < fileBlocks sb.blockSize inode.size,
      ReadsRecords env p sb.blockSize addr records i :=
  fun i hi => ⟨_, hw.readSectorsEx (addr i), (hd.chains i hi).copiesSay env.heap _⟩

theorem DirInput.block (hd : DirInput env p sb inode addr records) {i : Nat}
    (hi : i < fileBlocks sb.blockSize inode.size) {b : Blocks}
    (hb : (Blocks.new p sb inode).before env.metaFails i = .ok b) :
    ∃ b' buffer, (Blocks.new p sb inode).before env.metaFails (i + 1) = .ok b' ∧
      p.readSectorsEx true (sb.blockSize / p.sectorSize % 2 ^ 16 * addr i % 2 ^ 64)
        (sb.blockSize / p.sectorSize % 2 ^ 16) = some buffer ∧
      ∀ nrBlk entries, dirBlock env p (sb.blockSize / p.sectorSize % 2 ^ 16) sb.blockSize i
          ⟨b, nrBlk, .of entries⟩ =
        match recordLoop env.heap sb.blockSize buffer env.fuel 0 (.of entries) with
        | .error fault => (some ⟨i, .at (addr i), some (addr i, true)⟩,
            ⟨b', addr i, .of entries⟩, some (.crashed fault))
        | .ok tab => (some ⟨i, .at (addr i), some (addr i, true)⟩, ⟨b', addr i, tab⟩, none) := by
  obtain ⟨b₁, b', hb₁, hcall, hb'⟩ := Blocks.lookup_ok (hd.lookup hi)
  obtain rfl : b₁ = b := Except.ok.inj (hb₁.symm.trans hb)
  refine ⟨b', _, hb', if_pos rfl, fun nrBlk entries => ?_⟩
  exact dirBlock_of_read sb.blockSize ⟨b₁, nrBlk, .of entries⟩ hcall (hd.reads i hi) (if_pos rfl)

/-- **A run of blocks appends their records**, where each is read with its own. -/
theorem DirInput.loop (hd : DirInput env p sb inode addr records) :
    ∀ (k i : Nat) {b : Blocks} (nrBlk : Nat) (entries : List Ext4DirEntry2),
      i + k ≤ fileBlocks sb.blockSize inode.size →
      (Blocks.new p sb inode).before env.metaFails i = .ok b →
      entries.length = ((List.range i).flatMap records).length →
      (∀ j, i ≤ j → j < i + k → ReadsRecords env p sb.blockSize addr records j) →
      ∃ steps b' nrBlk' dirs,
        dirLoop env p (sb.blockSize / p.sectorSize % 2 ^ 16) sb.blockSize k i
            ⟨b, nrBlk, .of entries⟩ = (steps, ⟨b', nrBlk', .of (entries ++ dirs)⟩, none) ∧
          (Blocks.new p sb inode).before env.metaFails (i + k) = .ok b' ∧
          List.Forall₂ Carries dirs ((List.range' i k).flatMap records)
  | 0, i, b, nrBlk, entries, _, hb, _, _ => ⟨[], b, nrBlk, [], by simp [dirLoop], hb, .nil⟩
  | k + 1, i, b, nrBlk, entries, hi, hb, hcount, hreads => by
    have hlt : i < fileBlocks sb.blockSize inode.size := by omega
    have hchain := hd.chains i hlt
    have hfuel : (records i).length < env.fuel := by
      have hlen := hchain.length_le
      have henough := hd.fuel
      omega
    obtain ⟨b₂, buffer, hb₂, hbuffer, hblock⟩ := hd.block hlt hb
    obtain ⟨buffer', hbuffer', hcopies⟩ := hreads i (Nat.le_refl i) (by omega)
    obtain rfl : buffer = buffer' := Option.some.inj (hbuffer.symm.trans hbuffer')
    rw [← hcount] at hcopies
    obtain ⟨dirs, hloop, hdirs⟩ := recordLoop_chain sb.blockSize_le hchain hfuel hcopies
    have hnext : (entries ++ dirs).length = ((List.range (i + 1)).flatMap records).length := by
      rw [List.range_succ, List.flatMap_append, List.length_append, List.length_append,
        List.flatMap_singleton, hcount, hdirs.length_eq]
    obtain ⟨steps, b', nrBlk', dirs', hrest, hb', hdirs'⟩ := hd.loop k (i + 1) (addr i)
      (entries ++ dirs) (by omega) hb₂ hnext fun j hlo hhi => hreads j (by omega) (by omega)
    refine ⟨⟨i, .at (addr i), some (addr i, true)⟩ :: steps, b', nrBlk', dirs ++ dirs', ?_, ?_, ?_⟩
    · rw [dirLoop, hblock, hloop]
      simp only [hrest, Option.toList_some, List.singleton_append, List.append_assoc]
    · rwa [Nat.add_right_comm] at hb'
    · rw [List.range'_succ, List.flatMap_cons]
      exact List.rel_append hdirs hdirs'

/-- A run of blocks that gets to its end appends entries, and they carry the records of the
blocks only if each block is read with its own. -/
theorem DirInput.loop_reads (hd : DirInput env p sb inode addr records) :
    ∀ (k i : Nat) {b : Blocks} (nrBlk : Nat) (entries : List Ext4DirEntry2),
      i + k ≤ fileBlocks sb.blockSize inode.size →
      (Blocks.new p sb inode).before env.metaFails i = .ok b →
      ∀ {steps st}, dirLoop env p (sb.blockSize / p.sectorSize % 2 ^ 16) sb.blockSize k i
          ⟨b, nrBlk, .of entries⟩ = (steps, st, none) →
        ∃ dirs, st.tab = .of (entries ++ dirs) ∧
          (Blocks.new p sb inode).before env.metaFails (i + k) = .ok st.blk ∧
          ∀ more rest, entries.length = ((List.range i).flatMap records).length →
            List.Forall₂ Carries (dirs ++ more) ((List.range' i k).flatMap records ++ rest) →
            (∀ j, i ≤ j → j < i + k → ReadsRecords env p sb.blockSize addr records j) ∧
              List.Forall₂ Carries more rest
  | 0, i, b, nrBlk, entries, _, hb, steps, st, hrun => by
    cases hrun
    refine ⟨[], by rw [List.append_nil], hb, fun more rest _ hall => ⟨?_, hall⟩⟩
    intro j hlo hhi
    omega
  | k + 1, i, b, nrBlk, entries, hi, hb, steps, st, hrun => by
    have hlt : i < fileBlocks sb.blockSize inode.size := by omega
    obtain ⟨b₂, buffer, hb₂, hbuffer, hblock⟩ := hd.block hlt hb
    rw [dirLoop, hblock] at hrun
    cases hloop : recordLoop env.heap sb.blockSize buffer env.fuel 0 (.of entries) with
    | error fault =>
      rw [hloop] at hrun
      cases hrun
    | ok tab =>
      obtain ⟨dirs, rfl⟩ := recordLoop_appends hloop
      rw [hloop] at hrun
      dsimp only at hrun
      rcases htail : dirLoop env p (sb.blockSize / p.sectorSize % 2 ^ 16) sb.blockSize k (i + 1)
        ⟨b₂, addr i, .of (entries ++ dirs)⟩ with ⟨steps', st', stop⟩
      rw [htail] at hrun
      cases hrun
      obtain ⟨dirs', htab, hb', hreads⟩ := hd.loop_reads k (i + 1) (addr i) (entries ++ dirs)
        (by omega) hb₂ htail
      refine ⟨dirs ++ dirs', by rw [htab, List.append_assoc], ?_, fun more rest hcount hall => ?_⟩
      · rwa [Nat.add_right_comm] at hb'
      · rw [List.range'_succ, List.flatMap_cons, List.append_assoc, List.append_assoc] at hall
        obtain ⟨hcopies, hhere, hrest⟩ :=
          recordLoop_copies sb.blockSize_le (hd.chains i hlt) hloop hall
        have hnext : (entries ++ dirs).length = ((List.range (i + 1)).flatMap records).length := by
          rw [List.range_succ, List.flatMap_append, List.length_append, List.length_append,
            List.flatMap_singleton, hcount, hhere.length_eq]
        obtain ⟨hothers, hmore⟩ := hreads more rest hnext hrest
        refine ⟨fun j hlo hhi => ?_, hmore⟩
        rcases Nat.eq_or_lt_of_le hlo with rfl | hlt
        · exact ⟨buffer, hbuffer, hcount ▸ hcopies⟩
        · exact hothers j hlt (by omega)

end Input

/-- A read that gets to its end returns the table, which is NULL if there is no entry. -/
theorem dirResult_end (st : DirState) :
    ∃ r, dirResult st none = .ok r ∧ r.readDirs = some st.tab.entries.length ∧
      r.table.getD [] = st.tab.entries := by
  refine ⟨_, rfl, rfl, ?_⟩
  cases h : st.tab.entries with
  | nil => simp
  | cons dir dirs => simp

theorem dirResult_counted {st : DirState} {stop : Option DirStop} {r : DirResult} {n : Nat}
    (h : dirDestroy st.blk (dirResult st stop) = .ok r) (hn : r.readDirs = some n) :
    stop = none ∧ st.blk.flush = .ok () ∧ r.table.getD [] = st.tab.entries := by
  cases stop with
  | some stop =>
    cases stop with
    | crashed fault => cases h
    | null =>
      simp only [dirResult, dirDestroy] at h
      split at h
      next => cases h
      next =>
        cases h
        cases hn
  | none =>
    obtain ⟨r', hr', -, htable⟩ := dirResult_end st
    rw [hr'] at h
    simp only [dirDestroy] at h
    split at h
    next => cases h
    next hflush =>
      cases h
      exact ⟨rfl, hflush, htable⟩

theorem RecordChain.ne_nil {bs : Nat} {buffer : Buffer} {records : List Ext4DirEntry2}
    (hbs : bs ≠ 0) (h : RecordChain bs buffer 0 records) : records ≠ [] := by
  rintro rfl
  cases h
  exact hbs rfl

/-- Blocks without a record are no blocks. -/
theorem DirInput.none_left {env : DirEnv} {p : Partition} {sb : Ext4SuperBlock}
    {inode : Ext4Inode} {addr : Nat → Nat} {records : Nat → List Ext4DirEntry2}
    (hd : DirInput env p sb inode addr records) (hbs : sb.blockSize ≠ 0) {i k : Nat}
    (hk : fileBlocks sb.blockSize inode.size = i + k)
    (hnil : (List.range' i k).flatMap records = []) : k = 0 := by
  by_contra hne
  obtain ⟨k, rfl⟩ := Nat.exists_eq_succ_of_ne_zero hne
  rw [List.range'_succ, List.flatMap_cons] at hnil
  exact (hd.chains i (by omega)).ne_nil hbs (List.append_eq_nil_iff.mp hnil).1

def dirImageRecord (offset : Nat) : Ext4DirEntry2 := (dirImage.block 4096 7).shift offset

theorem dirImage_chain : RecordChain 4096 (dirImage.block 4096 7) 0
    [dirImageRecord 0, dirImageRecord 12] := by
  have hfirst : Ext4DirEntry2.recLen ((dirImage.block 4096 7).shift 0) = 12 := by decide +kernel
  have hsecond : Ext4DirEntry2.recLen ((dirImage.block 4096 7).shift 12) = 4084 := by decide +kernel
  have hchain : RecordChain 4096 (dirImage.block 4096 7) 12 [dirImageRecord 12] :=
    .record (by rw [hsecond]; decide) (by decide +kernel) (by rw [hsecond]; exact .done)
  exact .record (by rw [hfirst]; decide) (by decide +kernel) (by rw [hfirst]; exact hchain)

theorem dirImage_dirInput :
    DirInput (zeroHeapEnv 1000) dirImage dirImageSb (dirImageInode 15) (fun _ => 7)
      fun _ => [dirImageRecord 0, dirImageRecord 12] := by
  have hsize : dirImageSb.blockSize = 4096 := by decide
  refine ⟨Blocks.exists_of_map_fst (by decide +kernel), fun _ _ => rfl, ?_, by decide⟩
  intro i _
  rw [hsize]
  exact dirImage_chain

theorem dirImage_wholeSectors : WholeSectors dirImage dirImageSb :=
  ⟨by decide, by decide, by decide⟩

end Ext4tc.DiskUtils
