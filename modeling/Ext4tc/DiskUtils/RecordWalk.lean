import Ext4tc.DiskUtils.DirEntry
import Ext4tc.Lib.PointerWalk

/-! # The walk over the records of a block

The record loop of `get_dir_entry` as a walk: from a record it goes on by the `rec_len`
of the copy, which for a `rec_len` below 6 is in part what the heap held before. The loop
stores what the walk passes, runs as long as the walk does, and reads where it is. -/

namespace Ext4tc.DiskUtils
open Ext4tc.Lib Ext4tc.Fs

/-! ## The table -/

/-- The chunks of a table that grew to `n` entries: it has room for one more. -/
def chunksFor (n : Nat) : Nat := if n = 0 then 0 else n / chunkSize + 1

/-- Growing keeps pace with the entries, at a chunk's boundary and elsewhere. -/
theorem chunksFor_succ (n : Nat) :
    (if chunkSize * chunksFor n ≤ n + 1 then chunksFor n + 1 else chunksFor n) = chunksFor (n + 1) ∧
      n + 1 ≤ chunkSize * chunksFor (n + 1) := by
  have hsucc : chunksFor (n + 1) = (n + 1) / 256 + 1 := if_neg (Nat.succ_ne_zero n)
  rw [hsucc]
  unfold chunksFor chunkSize
  split <;> split <;> omega

/-- A table that grew entry by entry. -/
def DirTable.of (entries : List Ext4DirEntry2) : DirTable := ⟨entries, chunksFor entries.length⟩

@[simp] theorem DirTable.of_entries (entries : List Ext4DirEntry2) :
    (DirTable.of entries).entries = entries := rfl

theorem DirTable.push_of (entries : List Ext4DirEntry2) (dir : Ext4DirEntry2) :
    (DirTable.of entries).push dir = .ok (.of (entries ++ [dir])) := by
  obtain ⟨hchunks, hroom⟩ := chunksFor_succ entries.length
  have hlen : (entries ++ [dir]).length = entries.length + 1 := by simp
  unfold DirTable.push DirTable.of
  simp only [hchunks, if_pos hroom, hlen]

/-! ## The walk -/

/-- How far the loop is: the entries stored before, and the offset in the block. -/
structure RecordPlace where
  num : Nat
  offset : Nat
  deriving DecidableEq

section Walk

variable (heap : Nat → Nat → UInt8) (blockSizeByte : Nat) (buffer : Buffer)

def recordAt (r : RecordPlace) : Ext4DirEntry2 :=
  getExt4DirEntry (heap r.num) (buffer.shift r.offset)

def nextRecord (r : RecordPlace) : Option RecordPlace :=
  let offset := (r.offset + (recordAt heap buffer r).recLen) % 2 ^ 32
  if offset < blockSizeByte then some ⟨r.num + 1, offset⟩ else none

/-- The records of the first `k` steps, as they are stored. -/
def walkRecords (k : Nat) (r : RecordPlace) : List Ext4DirEntry2 :=
  (Walk.trail (nextRecord heap blockSizeByte buffer) r k).map (recordAt heap buffer)

variable {heap blockSizeByte buffer}

/-- **The record loop stores what the walk passes**, and runs out of fuel where the walk
goes on. -/
theorem recordLoop_of (fuel : Nat) (entries : List Ext4DirEntry2) {offset : Nat}
    (h : offset < blockSizeByte) :
    recordLoop heap blockSizeByte buffer (fuel + 1) offset (.of entries) =
      match Walk.place (nextRecord heap blockSizeByte buffer) ⟨entries.length, offset⟩ fuel with
      | some _ => .error .hang
      | none => .ok (.of (entries ++
          walkRecords heap blockSizeByte buffer fuel ⟨entries.length, offset⟩)) := by
  induction fuel generalizing entries offset with
  | zero => simp [recordLoop, h, DirTable.push_of]
  | succ fuel ih =>
    have hdir : getExt4DirEntry (heap entries.length) (buffer.shift offset) =
        recordAt heap buffer ⟨entries.length, offset⟩ := rfl
    rw [recordLoop, if_pos h, DirTable.of_entries, hdir, Walk.place_succ', walkRecords, Walk.trail]
    simp only [DirTable.push_of]
    by_cases hnext : (offset + (recordAt heap buffer ⟨entries.length, offset⟩).recLen) % 2 ^ 32 <
        blockSizeByte
    · have hsome : nextRecord heap blockSizeByte buffer ⟨entries.length, offset⟩ =
          some ⟨entries.length + 1, _⟩ := if_pos hnext
      rw [ih _ hnext, hsome]
      simp [walkRecords]
    · have hnone : nextRecord heap blockSizeByte buffer ⟨entries.length, offset⟩ = none :=
        if_neg hnext
      rw [recordLoop, if_neg hnext, hnone]
      simp

theorem recordLoop_ends_iff (hpos : 0 < blockSizeByte) (entries : List Ext4DirEntry2) :
    (∃ fuel, recordLoop heap blockSizeByte buffer fuel 0 (.of entries) ≠ .error .hang) ↔
      Walk.Ends (nextRecord heap blockSizeByte buffer) ⟨entries.length, 0⟩ := by
  constructor
  · rintro ⟨fuel, hfuel⟩
    cases fuel with
    | zero => exact absurd rfl hfuel
    | succ fuel =>
      rw [recordLoop_of fuel entries hpos] at hfuel
      refine ⟨fuel, ?_⟩
      cases hplace : Walk.place (nextRecord heap blockSizeByte buffer) ⟨entries.length, 0⟩ fuel with
      | none => rfl
      | some r => simp [hplace] at hfuel
  · rintro ⟨fuel, hfuel⟩
    refine ⟨fuel + 1, ?_⟩
    rw [recordLoop_of fuel entries hpos, hfuel]
    simp

/-- The loop leaves a grown table, with the entries before in it. -/
theorem recordLoop_appends {fuel offset : Nat} {entries : List Ext4DirEntry2} {tab : DirTable}
    (h : recordLoop heap blockSizeByte buffer fuel offset (.of entries) = .ok tab) :
    ∃ dirs, tab = .of (entries ++ dirs) := by
  cases fuel with
  | zero => cases h
  | succ fuel =>
    by_cases hlt : offset < blockSizeByte
    · rw [recordLoop_of fuel entries hlt] at h
      split at h
      next => cases h
      next =>
        cases h
        exact ⟨_, rfl⟩
    · rw [recordLoop, if_neg hlt] at h
      cases h
      exact ⟨[], by rw [List.append_nil]⟩

theorem recordLoop_table {fuel offset : Nat} {entries : List Ext4DirEntry2} {tab : DirTable}
    (h : recordLoop heap blockSizeByte buffer fuel offset (.of entries) = .ok tab) :
    tab = .of tab.entries := by
  obtain ⟨dirs, rfl⟩ := recordLoop_appends h
  rfl

end Walk

theorem dirBefore_table {env : DirEnv} {p : Partition} {sb : Ext4SuperBlock} {inode : Ext4Inode}
    {nrBlk blockSizeSect blockSizeByte : Nat} : ∀ {i : Nat} {st : DirState},
    dirBefore env p blockSizeSect blockSizeByte (dirStart p sb inode nrBlk) i = some st →
      st.tab = .of st.tab.entries
  | 0, st, h => by
    cases h
    rfl
  | i + 1, st', h => by
    rw [dirBefore] at h
    split at h
    next => cases h
    next st hst =>
      have ih := dirBefore_table hst
      split at h
      next step st₁ hblock =>
        cases h
        unfold dirBlock at hblock
        split at hblock
        next => cases hblock
        next ret blk _ =>
          simp only [if_neg (Nat.not_lt_zero ret.ret)] at hblock
          split at hblock
          next => cases hblock
          next =>
            split at hblock
            next => cases hblock
            next tab htab =>
              cases hblock
              rw [ih] at htab
              exact recordLoop_table htab
      next => cases h

theorem dirBlock_of_read {env : DirEnv} {p : Partition} {n i a : Nat} (bs : Nat) (st : DirState)
    {blk : Blocks} (hcall : st.blk.getExt2BlkNr env.metaFails i = .ok (.at a, blk))
    (hread : env.readOk i = true) {buffer : Buffer}
    (hbuffer : p.readSectorsEx true (n * a % 2 ^ 64) n = some buffer) :
    dirBlock env p n bs i st =
      match recordLoop env.heap bs buffer env.fuel 0 st.tab with
      | .error fault => (some ⟨i, .at a, some (a, true)⟩, ⟨blk, a, st.tab⟩, some (.crashed fault))
      | .ok tab => (some ⟨i, .at a, some (a, true)⟩, ⟨blk, a, tab⟩, none) := by
  unfold dirBlock
  cases hloop : recordLoop env.heap bs buffer env.fuel 0 st.tab with
  | error fault =>
    simp only [hcall, hread, BlkNr.at, Option.getD_some, hbuffer, Nat.not_lt_zero, if_false, hloop]
  | ok tab =>
    simp only [hcall, hread, BlkNr.at, Option.getD_some, hbuffer, Nat.not_lt_zero, if_false, hloop]

theorem dirBlock_of_lookup {env : DirEnv} {p : Partition} {n bs i a : Nat} (st : DirState)
    {blk : Blocks} (hcall : st.blk.getExt2BlkNr env.metaFails i = .ok (.at a, blk))
    (hread : env.readOk i = true) (hn : n * p.sectorSize = bs) (hbs : bs < 2 ^ 32) :
    dirBlock env p n bs i st =
      match recordLoop env.heap bs (p.block bs a) env.fuel 0 st.tab with
      | .error fault => (some ⟨i, .at a, some (a, true)⟩, ⟨blk, a, st.tab⟩, some (.crashed fault))
      | .ok tab => (some ⟨i, .at a, some (a, true)⟩, ⟨blk, a, tab⟩, none) :=
  dirBlock_of_read bs st hcall hread (p.readSectorsEx_block hn hbs a)

/-! ## Copies -/

section Copy

variable {heap : Nat → UInt8} {src : Ext4DirEntry2}

theorem getExt4DirEntry_byte (heap : Nat → UInt8) {i : Nat} (hi : i < sizeofExt4DirEntry2)
    (h : i < src.recLen) :
    (getExt4DirEntry heap src).byte i = src.byte i :=
  if_pos (Nat.lt_min.mpr ⟨hi, h⟩)

theorem getExt4DirEntry_byte_heap {i : Nat} (h : src.recLen ≤ i) :
    (getExt4DirEntry heap src).byte i = heap i :=
  if_neg (fun hlt => Nat.not_le.mpr (Nat.lt_min.mp hlt).2 h)

theorem recLen_lt (dir : Ext4DirEntry2) : dir.recLen < 2 ^ 16 := Buffer.u16_lt _ _

/-- A record that is long enough is copied with its length. -/
theorem recLen_copy (h : 6 ≤ src.recLen) : (getExt4DirEntry heap src).recLen = src.recLen := by
  have h₄ := getExt4DirEntry_byte heap (by decide) (show 4 < src.recLen by omega)
  have h₅ := getExt4DirEntry_byte heap (by decide) (show 5 < src.recLen by omega)
  simp only [Ext4DirEntry2.recLen, Buffer.u16, Buffer.u8] at *
  rw [h₄, h₅]

theorem nameLen_copy (h : 7 ≤ src.recLen) : (getExt4DirEntry heap src).nameLen = src.nameLen := by
  have h₆ := getExt4DirEntry_byte heap (by decide) (show 6 < src.recLen by omega)
  simp only [Ext4DirEntry2.nameLen, Buffer.u8, h₆]

/-- The copy has length 0 only where its length is what the heap held. -/
theorem recLen_copy_zero : (getExt4DirEntry heap src).recLen = 0 ↔
    src.recLen < 5 ∧ heap 4 = 0 ∧ heap 5 = 0 := by
  have hsplit : ∀ dir : Ext4DirEntry2, dir.recLen = 0 ↔ dir.byte 4 = 0 ∧ dir.byte 5 = 0 := by
    intro dir
    simp only [Ext4DirEntry2.recLen, Buffer.u16, Buffer.u8, ← UInt8.toNat_inj, UInt8.toNat_zero,
      Nat.reduceAdd]
    omega
  rw [hsplit]
  rcases Nat.lt_or_ge src.recLen 5 with hlt | hge
  · rw [getExt4DirEntry_byte_heap (show src.recLen ≤ 4 by omega),
      getExt4DirEntry_byte_heap (show src.recLen ≤ 5 by omega)]
    exact ⟨fun h => ⟨hlt, h⟩, fun h => h.2⟩
  · refine iff_of_false ?_ fun h => absurd h.1 (by omega)
    rintro ⟨h₄, h₅⟩
    rw [getExt4DirEntry_byte heap (by decide) (show 4 < src.recLen by omega)] at h₄
    have hlow : src.u8 4 = 0 := by rw [Buffer.u8, h₄]; rfl
    have hval : src.recLen = src.u8 4 + 2 ^ 8 * src.u8 5 := rfl
    rcases Nat.lt_or_ge src.recLen 6 with h5 | h6
    · omega
    · rw [getExt4DirEntry_byte heap (by decide) (show 5 < src.recLen by omega)] at h₅
      exact absurd ((hsplit src).mpr ⟨h₄, h₅⟩) (by omega)

end Copy

/-! ## A device with directories -/

/-- A device of 4 KiB blocks with one group of sixteen 128-byte inodes, whose table is
block 4. The block of directory 12 is zero. In that of 13 the first record is too short for
the length of its name and the second ends 6 bytes before the block does. Directory 14 is
mapped by extents and empty, and 15 has the records `.` and `..`. -/
def dirImage : Partition :=
  .ofDevice ((Buffer.zeros 0).pokes
    [(1028, [16]), (1048, [2]), (1056, [0, 0x80]), (1064, [16]), (1080, [0x53, 0xef]),
      (1112, [128]), (4104, [4]),
      (17796, [0, 0x10]), (17832, [5]), (17924, [0, 0x10]), (17960, [6]), (18082, [8]),
      (18180, [0, 0x10]), (18216, [7]),
      (24576, [2, 0, 0, 0, 12, 0, 255, 2]), (24588, [2, 0, 0, 0, 0xee, 0x0f, 1, 2, 0x2e]),
      (28672, [15, 0, 0, 0, 12, 0, 1, 2, 0x2e]),
      (28684, [2, 0, 0, 0, 0xf4, 0x0f, 2, 2, 0x2e, 0x2e])]).byte

def dirImageSb : Ext4SuperBlock := ⟨1024, (dirImage.bufferAt 1024 1024).byte⟩

def dirImageInode (n : Nat) : Ext4Inode := (dirImage.bufferAt 16384 2048).shift (128 * (n - 1))

theorem dirImage_loaded :
    ∃ m, (PartitionLinuxExt2.new dirImage).getExt2Sb true true = .ok (true, m) ∧
      m.part = dirImage ∧ m.Loaded true 12 dirImageSb (dirImageInode 12) ∧
      m.Loaded true 13 dirImageSb (dirImageInode 13) ∧
      m.Loaded true 14 dirImageSb (dirImageInode 14) ∧
      m.Loaded true 15 dirImageSb (dirImageInode 15) :=
  ⟨_, rfl, rfl, ⟨_, _, rfl, rfl, rfl⟩, ⟨_, _, rfl, rfl, rfl⟩, ⟨_, _, rfl, rfl, rfl⟩,
    ⟨_, _, rfl, rfl, rfl⟩⟩

/-- All reads work, and the heap is zero. -/
def zeroHeapEnv (fuel : Nat) : DirEnv := ⟨true, fun _ => false, fun _ => true, fun _ _ => 0, fuel⟩

end Ext4tc.DiskUtils
