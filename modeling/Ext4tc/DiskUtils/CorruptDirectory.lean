import Ext4tc.DiskUtils.RecordWalk

/-! # Directory blocks of any content

`get_dir_entry` checks no field of a record. Whether its record loop ends, and whether it
stays inside the block, is up to what the records that it gets to hold. -/

namespace Ext4tc.DiskUtils
open Ext4tc.Lib Ext4tc.Fs

def diskRecord (buffer : Buffer) (offset : Nat) : Ext4DirEntry2 := buffer.shift offset

/-- The record loop over a block gets to a record, after `n` entries of other blocks. -/
def Reached (heap : Nat → Nat → UInt8) (blockSizeByte : Nat) (buffer : Buffer) (n : Nat)
    (r : RecordPlace) : Prop :=
  0 < blockSizeByte ∧ ∃ k, Walk.place (nextRecord heap blockSizeByte buffer) ⟨n, 0⟩ k = some r

section Walk

variable {heap : Nat → Nat → UInt8} {blockSizeByte : Nat} {buffer : Buffer} {n : Nat}

theorem nextRecord_some {r r' : RecordPlace}
    (h : nextRecord heap blockSizeByte buffer r = some r') :
    r' = ⟨r.num + 1, (r.offset + (recordAt heap buffer r).recLen) % 2 ^ 32⟩ ∧
      r'.offset < blockSizeByte := by
  unfold nextRecord at h
  simp only at h
  split at h
  next hlt =>
    cases h
    exact ⟨rfl, hlt⟩
  next => cases h

theorem place_offset_lt (hpos : 0 < blockSizeByte) {k : Nat} {r : RecordPlace}
    (h : Walk.place (nextRecord heap blockSizeByte buffer) ⟨n, 0⟩ k = some r) :
    r.offset < blockSizeByte := by
  cases k with
  | zero =>
    cases h
    exact hpos
  | succ k =>
    rw [Walk.place_succ, Option.bind_eq_some_iff] at h
    obtain ⟨r', -, hnext⟩ := h
    exact (nextRecord_some hnext).2

theorem place_num {r r' : RecordPlace} {m : Nat}
    (h : Walk.place (nextRecord heap blockSizeByte buffer) r m = some r') : r'.num = r.num + m := by
  induction m generalizing r' with
  | zero =>
    cases h
    rfl
  | succ m ih =>
    rw [Walk.place_succ, Option.bind_eq_some_iff] at h
    obtain ⟨r₁, h₁, hnext⟩ := h
    rw [(nextRecord_some hnext).1, ih h₁]
    rfl

theorem next_offset {r : RecordPlace} (hr : r.offset < blockSizeByte)
    (hbs : blockSizeByte ≤ 2 ^ 31) :
    (r.offset + (recordAt heap buffer r).recLen) % 2 ^ 32 =
      r.offset + (recordAt heap buffer r).recLen := by
  have hlen := recLen_lt (recordAt heap buffer r)
  exact Nat.mod_eq_of_lt (by omega)

/-! ## Termination -/

/-- The walk comes no further: the length is too short to be copied, and from here on the
objects hold 0 in its place. -/
structure Stuck (heap : Nat → Nat → UInt8) (buffer : Buffer) (r : RecordPlace) : Prop where
  short : (diskRecord buffer r.offset).recLen < 5
  zero : ∀ num, r.num ≤ num → heap num 4 = 0 ∧ heap num 5 = 0

theorem Stuck.place {r : RecordPlace} (h : Stuck heap buffer r) (hr : r.offset < blockSizeByte)
    (hbs : blockSizeByte ≤ 2 ^ 31) (m : Nat) :
    Walk.place (nextRecord heap blockSizeByte buffer) r m = some ⟨r.num + m, r.offset⟩ := by
  induction m with
  | zero => rfl
  | succ m ih =>
    have hzero : (recordAt heap buffer ⟨r.num + m, r.offset⟩).recLen = 0 :=
      recLen_copy_zero.mpr ⟨h.short, h.zero _ (Nat.le_add_right _ _)⟩
    have hstay : (r.offset + (recordAt heap buffer ⟨r.num + m, r.offset⟩).recLen) % 2 ^ 32 =
        r.offset := by
      rw [hzero]
      exact Nat.mod_eq_of_lt (by omega)
    rw [Walk.place_succ, ih, Option.bind_some, nextRecord]
    simp only [hstay, if_pos hr]
    rfl

/-- **A walk ends exactly if it does not get stuck.** -/
theorem ends_iff_not_stuck (hpos : 0 < blockSizeByte) (hbs : blockSizeByte ≤ 2 ^ 31) :
    Walk.Ends (nextRecord heap blockSizeByte buffer) ⟨n, 0⟩ ↔
      ¬∃ r, Reached heap blockSizeByte buffer n r ∧ Stuck heap buffer r := by
  constructor
  · rintro hends ⟨r, ⟨-, k, hk⟩, hstuck⟩
    have hr := place_offset_lt hpos hk
    exact Walk.not_ends_of_forever hk (fun m => ⟨_, hstuck.place hr hbs m⟩) hends
  · intro hfree
    have hbound : ∀ k r, Walk.place (nextRecord heap blockSizeByte buffer) ⟨n, 0⟩ k = some r →
        r.offset < blockSizeByte := fun k r hk => place_offset_lt hpos hk
    have hclimb : ∀ k r r', Walk.place (nextRecord heap blockSizeByte buffer) ⟨n, 0⟩ k = some r →
        nextRecord heap blockSizeByte buffer r = some r' → r.offset ≤ r'.offset := by
      intro k r r' hk hnext
      rw [(nextRecord_some hnext).1]
      show r.offset ≤ _ % 2 ^ 32
      rw [next_offset (hbound k r hk) hbs]
      exact Nat.le_add_right _ _
    rcases Walk.ends_or_stalls hbound hclimb with hends | ⟨k, r, hk, hstall⟩
    · exact hends
    · -- a step that does not climb copied a zero length
      have hr := hbound k r hk
      have hzero : ∀ m, (recordAt heap buffer ⟨r.num + m, r.offset⟩).recLen = 0 := by
        intro m
        obtain ⟨r', hm', hoff'⟩ := hstall (m + 1)
        obtain ⟨r₁, hm⟩ := Walk.place_some_mono (Nat.le_succ m) hm'
        obtain ⟨r₂, hm₂, hoff⟩ := hstall m
        obtain rfl := Option.some.inj (hm.symm.trans hm₂)
        have hnum := place_num hm
        rw [Walk.place_succ, hm, Option.bind_some] at hm'
        have hnext := congrArg RecordPlace.offset (nextRecord_some hm').1
        rw [hoff', next_offset (by omega) hbs, hoff] at hnext
        dsimp only at hnext
        have hplace : r₁ = ⟨r.num + m, r.offset⟩ := by
          cases r₁
          cases hoff
          cases hnum
          rfl
        rw [← hplace]
        omega
      refine absurd ⟨r, ⟨hpos, k, hk⟩, (recLen_copy_zero.mp (hzero 0)).1, ?_⟩ hfree
      intro num hnum
      have hheap := (recLen_copy_zero.mp (hzero (num - r.num))).2
      rwa [show r.num + (num - r.num) = num by omega] at hheap

/-- A loop that gets stuck outlasts any fuel. -/
theorem recordLoop_stuck (hbs : blockSizeByte ≤ 2 ^ 31) {entries : List Ext4DirEntry2}
    {r : RecordPlace} (hr : Reached heap blockSizeByte buffer entries.length r)
    (h : Stuck heap buffer r) (fuel : Nat) :
    recordLoop heap blockSizeByte buffer fuel 0 (.of entries) = .error .hang := by
  by_contra hends
  have hwalk := (recordLoop_ends_iff hr.1 entries).mp ⟨fuel, hends⟩
  exact (ends_iff_not_stuck hr.1 hbs).mp hwalk ⟨r, hr, h⟩

end Walk

/-- **The record loop over a block ends exactly if the walk does not get stuck**, in any
directory read, at any block it gets to and whatever that block holds. -/
theorem record_loop_ends_iff {env : DirEnv} {p : Partition} {sb : Ext4SuperBlock}
    {inode : Ext4Inode} {nrBlk i : Nat} {st : DirState}
    (hst : dirBefore env p (sb.blockSize / p.sectorSize % 2 ^ 16) sb.blockSize
      (dirStart p sb inode nrBlk) i = some st) (buffer : Buffer) :
    (∃ fuel, recordLoop env.heap sb.blockSize buffer fuel 0 st.tab ≠ .error .hang) ↔
      ¬∃ r, Reached env.heap sb.blockSize buffer st.tab.entries.length r ∧
        Stuck env.heap buffer r := by
  rcases Nat.eq_zero_or_pos sb.blockSize with hzero | hpos
  · refine iff_of_true ⟨1, ?_⟩ ?_
    · rw [recordLoop, hzero, if_neg (Nat.lt_irrefl 0)]
      intro h
      cases h
    · rintro ⟨r, ⟨hlt, -⟩, -⟩
      omega
  · rw [dirBefore_table hst, recordLoop_ends_iff hpos]
    exact ends_iff_not_stuck hpos sb.blockSize_le

/-- The walk over the block of directory 15 does not get stuck, even on a zero heap. -/
theorem record_loop_ends_dirImage :
    ¬∃ r, Reached (zeroHeapEnv 0).heap dirImageSb.blockSize (dirImage.block 4096 7) 0 r ∧
      Stuck (zeroHeapEnv 0).heap (dirImage.block 4096 7) r := by
  have hstart := dirBefore_zero (zeroHeapEnv 0) dirImage
    (dirImageSb.blockSize / dirImage.sectorSize % 2 ^ 16) dirImageSb.blockSize
    (dirStart dirImage dirImageSb (dirImageInode 15) 0)
  refine (record_loop_ends_iff hstart (dirImage.block 4096 7)).mp ⟨3, ?_⟩
  intro h
  exact absurd (congrArg Except.toBool h) (by decide +kernel)

/-- A block of zeros keeps `get_dir_entry` busy for ever. -/
theorem zero_block_hangs :
    ∃ m, (PartitionLinuxExt2.new dirImage).getExt2Sb true true = .ok (true, m) ∧
      ∀ fuel, (m.getDirEntry (zeroHeapEnv fuel) 12 0).1.result = .error .hang := by
  obtain ⟨m, hm, hpart, hl, -⟩ := dirImage_loaded
  refine ⟨m, hm, ?_⟩
  intro fuel
  have hlook : (Blocks.new dirImage dirImageSb (dirImageInode 12)).lookup (fun _ => false) 0 =
      .ok (.at 5) := by decide +kernel
  obtain ⟨b₁, b₂, hb₁, hcall, -⟩ := Blocks.lookup_ok hlook
  cases hb₁
  have hstuck : Stuck (zeroHeapEnv fuel).heap (dirImage.block 4096 5) ⟨0, 0⟩ :=
    ⟨by decide +kernel, fun _ _ => ⟨rfl, rfl⟩⟩
  have hloop : recordLoop (zeroHeapEnv fuel).heap 4096 (dirImage.block 4096 5) fuel 0 (.of []) =
      .error .hang :=
    recordLoop_stuck (by decide) ⟨by decide, 0, rfl⟩ hstuck fuel
  have hblock := dirBlock_of_lookup (dirStart dirImage dirImageSb (dirImageInode 12) 0) hcall
    (show (zeroHeapEnv fuel).readOk 0 = true from rfl)
    (show 8 * dirImage.sectorSize = 4096 from rfl) (by decide)
  have hempty : (dirStart dirImage dirImageSb (dirImageInode 12) 0).tab = .of [] := rfl
  have hfuel : (zeroHeapEnv fuel).fuel = fuel := rfl
  simp only [hempty, hfuel, hloop] at hblock
  have hsize : dirImageSb.blockSize = 4096 := by decide
  have hn : nBlocks 4096 (dirImageInode 12).size = 1 := by decide
  have hsect : 4096 / dirImage.sectorSize % 2 ^ 16 = 8 := rfl
  rw [getDirEntry_of_loaded (zeroHeapEnv fuel) hl, hpart, readDir, hsize, hn, hsect]
  simp only [dirLoop, hblock]
  rfl

/-! ## Bounds -/

/-- What is read of a record, and what name lookups read of its copy, is there. -/
structure ReadsInside (heap : Nat → Nat → UInt8) (blockSizeByte : Nat) (buffer : Buffer)
    (r : RecordPlace) : Prop where
  header : r.offset + 8 ≤ blockSizeByte
  copied : r.offset + min sizeofExt4DirEntry2 (diskRecord buffer r.offset).recLen ≤ blockSizeByte
  name : 8 + (recordAt heap buffer r).nameLen ≤
    min sizeofExt4DirEntry2 (diskRecord buffer r.offset).recLen

/-- A record with room for its name, of which the part that is copied ends in the block. -/
structure RecordFits (blockSizeByte : Nat) (buffer : Buffer) (offset : Nat) : Prop where
  name : 8 + (diskRecord buffer offset).nameLen ≤ (diskRecord buffer offset).recLen
  inside : offset + min sizeofExt4DirEntry2 (diskRecord buffer offset).recLen ≤ blockSizeByte

def nextOnDisk (blockSizeByte : Nat) (buffer : Buffer) (offset : Nat) : Option Nat :=
  if offset + (diskRecord buffer offset).recLen < blockSizeByte then
    some (offset + (diskRecord buffer offset).recLen)
  else none

def OnChain (blockSizeByte : Nat) (buffer : Buffer) (offset : Nat) : Prop :=
  0 < blockSizeByte ∧ ∃ k, Walk.place (nextOnDisk blockSizeByte buffer) 0 k = some offset

section Bounds

variable {heap : Nat → Nat → UInt8} {blockSizeByte : Nat} {buffer : Buffer} {n : Nat}

/-- A record is read inside the block exactly if it fits: a shorter one would not even be
copied with the length of its name. -/
theorem readsInside_iff_fits (r : RecordPlace) :
    ReadsInside heap blockSizeByte buffer r ↔ RecordFits blockSizeByte buffer r.offset := by
  have hname : 7 ≤ (diskRecord buffer r.offset).recLen →
      (recordAt heap buffer r).nameLen = (diskRecord buffer r.offset).nameLen := nameLen_copy
  constructor
  · rintro ⟨-, hcopied, hlen⟩
    have hmin := Nat.min_le_right sizeofExt4DirEntry2 (diskRecord buffer r.offset).recLen
    rw [hname (by omega)] at hlen
    exact ⟨by omega, hcopied⟩
  · rintro ⟨hlen, hinside⟩
    have h255 : (diskRecord buffer r.offset).nameLen < 2 ^ 8 := Buffer.u8_lt _ _
    have hmin : 8 + (diskRecord buffer r.offset).nameLen ≤
        min sizeofExt4DirEntry2 (diskRecord buffer r.offset).recLen :=
      Nat.le_min.mpr ⟨by unfold sizeofExt4DirEntry2; omega, hlen⟩
    exact ⟨by omega, hinside, by rwa [hname (by omega)]⟩

/-- As long as all records fit, the walk follows the chain on disk. -/
theorem next_of_fits (hpos : blockSizeByte ≤ 2 ^ 31) {r : RecordPlace}
    (hr : r.offset < blockSizeByte) (h : RecordFits blockSizeByte buffer r.offset) :
    (nextRecord heap blockSizeByte buffer r).map RecordPlace.offset =
      nextOnDisk blockSizeByte buffer r.offset := by
  have hlen : (recordAt heap buffer r).recLen = (diskRecord buffer r.offset).recLen :=
    recLen_copy (Nat.le_trans (by omega) h.name)
  have hoff : (r.offset + (recordAt heap buffer r).recLen) % 2 ^ 32 =
      r.offset + (recordAt heap buffer r).recLen := next_offset hr hpos
  rw [hlen] at hoff
  unfold nextRecord nextOnDisk
  simp only [hlen, hoff]
  split <;> rfl

/-- **The loop stays inside the block exactly if the records of the chain on disk fit.** -/
theorem record_reads_inside_iff (sb : Ext4SuperBlock) (heap : Nat → Nat → UInt8) (buffer : Buffer)
    (n : Nat) :
    (∀ r, Reached heap sb.blockSize buffer n r → ReadsInside heap sb.blockSize buffer r) ↔
      ∀ offset, OnChain sb.blockSize buffer offset → RecordFits sb.blockSize buffer offset := by
  rcases Nat.eq_zero_or_pos sb.blockSize with hzero | hpos
  · exact iff_of_true (fun r h => absurd h.1 (by omega)) fun offset h => absurd h.1 (by omega)
  have hmax := sb.blockSize_le
  -- the places and the offsets agree as far as either side says that the records fit
  have hagree : ∀ k, (∀ j < k, ∀ r, Walk.place (nextRecord heap sb.blockSize buffer) ⟨n, 0⟩ j =
      some r → RecordFits sb.blockSize buffer r.offset) →
      (Walk.place (nextRecord heap sb.blockSize buffer) ⟨n, 0⟩ k).map RecordPlace.offset =
        Walk.place (nextOnDisk sb.blockSize buffer) 0 k := by
    intro k
    induction k with
    | zero => intro _; rfl
    | succ k ih =>
      intro hfits
      have hprev := ih fun j hj => hfits j (by omega)
      rw [Walk.place_succ, Walk.place_succ, ← hprev]
      cases hplace : Walk.place (nextRecord heap sb.blockSize buffer) ⟨n, 0⟩ k with
      | none => rfl
      | some r =>
        have hlt := place_offset_lt hpos hplace
        exact next_of_fits hmax hlt (hfits k (Nat.lt_succ_self k) r hplace)
  constructor
  · rintro hinside offset ⟨-, k, hk⟩
    have hplaces := hagree k fun j _ r hj => (readsInside_iff_fits r).mp (hinside r ⟨hpos, j, hj⟩)
    rw [hk, Option.map_eq_some_iff] at hplaces
    obtain ⟨r, hr, rfl⟩ := hplaces
    exact (readsInside_iff_fits r).mp (hinside r ⟨hpos, k, hr⟩)
  · rintro hfits r ⟨-, k, hk⟩
    induction k using Nat.strong_induction_on generalizing r with
    | _ k ih =>
      have hplaces := hagree k fun j hj r' hj' => (readsInside_iff_fits r').mp (ih j hj r' hj')
      rw [hk] at hplaces
      exact (readsInside_iff_fits r).mpr (hfits r.offset ⟨hpos, k, hplaces.symm⟩)

end Bounds

/-- In the block of directory 13 the name of the first record is longer than the record, and
the header of the third one is cut off by the end of the block. -/
theorem directory_read_outside :
    ∃ m, (PartitionLinuxExt2.new dirImage).getExt2Sb true true = .ok (true, m) ∧
      m.Loaded true 13 dirImageSb (dirImageInode 13) ∧
      (∃ r, Reached (zeroHeapEnv 0).heap 4096 (dirImage.block 4096 6) 0 r ∧
        4096 < r.offset + 8) ∧
      ∃ r, Reached (zeroHeapEnv 0).heap 4096 (dirImage.block 4096 6) 0 r ∧
        min sizeofExt4DirEntry2 (diskRecord (dirImage.block 4096 6) r.offset).recLen <
          8 + (recordAt (zeroHeapEnv 0).heap (dirImage.block 4096 6) r).nameLen := by
  obtain ⟨m, hm, -, -, hl, -⟩ := dirImage_loaded
  have hplace : Walk.place (nextRecord (zeroHeapEnv 0).heap 4096 (dirImage.block 4096 6)) ⟨0, 0⟩ 2 =
      some ⟨2, 4090⟩ := by decide +kernel
  exact ⟨m, hm, hl, ⟨_, ⟨by decide, 2, hplace⟩, by decide⟩, ⟨0, 0⟩, ⟨by decide, 0, rfl⟩,
    by decide +kernel⟩

end Ext4tc.DiskUtils
