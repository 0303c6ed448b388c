import Ext4tc.DiskUtils.ReadFileRuns

/-! # What a copy leaves

When every lookup succeeds, a copy writes blocks 0, 1, 2, ... of the file, whole
ones and the rest of the last one, until something stops it. The one exception is
the destructor: a copy that stops before its first lookup has no extent path, and
on an extent-mapped inode the destructor goes through it all the same. -/

namespace Ext4tc.DiskUtils
open Ext4tc.Lib Ext4tc.Fs

/-- The first `size` bytes of the blocks at the addresses `addr 0`, `addr 1`, ... -/
def fileContent (p : Partition) (bs : Nat) (addr : Nat → Nat) (size : Nat) : List UInt8 :=
  ((List.range (fileBlocks bs size)).flatMap fun i => (p.block bs (addr i)).slice 0 bs).take size

/-- A copy looks up blocks in order, and ends with the whole content or, after an
error, with some of its blocks but not with all of it. -/
structure CopiesFile (bs : Nat) (content : List UInt8) (run : ReadRun) : Prop where
  lookups : ∃ m, run.steps.map CopyStep.index = List.range m
  ends : run.outcome = .returned 0 ∧ run.written = content ∨
    run.outcome = .returned (-1) ∧ ∃ m, m * bs < content.length ∧
      run.written = content.take (m * bs)

/-- The inputs of a copy: a block size of the format, a size that 32-bit block numbers
reach, and lookups that succeed. -/
structure CopyInput (env : CopyEnv) (p : Partition) (sb : Ext4SuperBlock) (inode : Ext4Inode)
    (addr : Nat → Nat) : Prop where
  logBlockSize : sb.sLogBlockSize ≤ 6
  size : inode.size ≤ 2 ^ 32 * sb.blockSize
  lookups : ∃ b', (Blocks.new p sb inode).getExt2BlkNrs env.metaFails
      (List.range (fileBlocks sb.blockSize inode.size)) =
    .ok ((List.range (fileBlocks sb.blockSize inode.size)).map fun i => .at (addr i), b')

/-- Neither the flag nor a read or a write that fails ends a copy at block `i` or before. -/
def CopyEnv.Undisturbed (env : CopyEnv) (i : Nat) : Prop :=
  ∀ j ≤ i, env.intFlag j = false ∧ env.readOk j = true ∧ env.writeOk j = true

/-- The first `n` bytes that the sector read of the data block at `a` gets are the block's. -/
def Partition.ReadsBlock (p : Partition) (bs a n : Nat) : Prop :=
  ∃ buffer, p.readSectorsEx true (bs / p.sectorSize % 2 ^ 16 * a % 2 ^ 64)
      (bs / p.sectorSize % 2 ^ 16) = some buffer ∧ buffer.slice 0 n = (p.block bs a).slice 0 n

theorem readsBlock_of_wholeSectors {p : Partition} {sb : Ext4SuperBlock} (h : WholeSectors p sb)
    (a n : Nat) : p.ReadsBlock sb.blockSize a n :=
  ⟨_, h.readSectorsEx a, rfl⟩

/-! ## The content -/

section Content

variable {p : Partition} {bs size : Nat} {addr : Nat → Nat}

theorem fileContent_length (hbs : 0 < bs) : (fileContent p bs addr size).length = size := by
  have hw : ∀ i, ((p.block bs (addr i)).slice 0 bs).length = bs :=
    fun i => Buffer.slice_length _ _ _
  rw [fileContent, List.length_take, flatMap_range_length hw,
    Nat.min_eq_left (size_le_fileBlocks_mul size hbs)]

theorem fileContent_take (p : Partition) (addr : Nat → Nat) {m r : Nat}
    (hm : m < fileBlocks bs size) (hr : r ≤ bs) (h : m * bs + r ≤ size) :
    (fileContent p bs addr size).take (m * bs + r) =
      ((List.range m).flatMap fun i => (p.block bs (addr i)).slice 0 bs) ++
        (p.block bs (addr m)).slice 0 r := by
  have hw : ∀ i, ((p.block bs (addr i)).slice 0 bs).length = bs :=
    fun i => Buffer.slice_length _ _ _
  rw [fileContent, List.take_take, Nat.min_eq_left h, take_flatMap_range hw hm hr,
    Buffer.slice_take _ _ hr]

end Content

/-! ## Steps of a copy whose lookups succeed -/

section Input

variable {env : CopyEnv} {p : Partition} {sb : Ext4SuperBlock} {inode : Ext4Inode}
    {addr : Nat → Nat}

theorem CopyInput.lookup (hd : CopyInput env p sb inode addr) {i : Nat}
    (hi : i < fileBlocks sb.blockSize inode.size) :
    (copyJob env p sb inode).lookup i = .ok (.at (addr i)) := by
  obtain ⟨b', hrun⟩ := hd.lookups
  rw [List.range_eq_range'] at hrun
  exact Blocks.lookup_of_getExt2BlkNrs _ 0 (Blocks.before_zero _ _) hrun i (Nat.zero_le i)
    (by omega)

theorem CopyInput.written (hd : CopyInput env p sb inode addr) {s : CopyStep}
    (hs : (copyJob env p sb inode).IsStep s) (hp : (copyJob env p sb inode).Passes s.index)
    (hi : s.index < fileBlocks sb.blockSize inode.size) :
    s.written = (copyJob env p sb inode).bytesAt (addr s.index) s.index := by
  obtain ⟨a, haddr, -, hwrite⟩ := hs.io
  have hlook := hs.lookup.symm.trans (hd.lookup hi)
  rw [Except.ok.injEq] at hlook
  obtain rfl : a = addr s.index := haddr _ (by rw [hlook]; rfl)
  rw [hp.readOk, hp.writeOk, if_pos rfl] at hwrite
  rw [CopyStep.written, hwrite]

theorem CopyInput.row_written (hd : CopyInput env p sb inode addr) {m : Nat} {row : List CopyStep}
    (hrow : (copyJob env p sb inode).Row 0 m row) (hm : m ≤ fileBlocks sb.blockSize inode.size) :
    row.flatMap CopyStep.written =
      (List.range m).flatMap fun i => (copyJob env p sb inode).bytesAt (addr i) i := by
  rw [List.range_eq_range', ← hrow.index, List.flatMap_map]
  refine List.flatMap_congr ?_
  intro s hmem
  have hlt := (hrow.mem_index s.index).mp ⟨s, hmem, rfl⟩
  exact hd.written (hrow.isStep s hmem) (hrow.passes _ (Nat.zero_le _) (by omega)) (by omega)

theorem CopyInput.blockSize_pos (hd : CopyInput env p sb inode addr) : 0 < sb.blockSize :=
  Nat.lt_of_lt_of_le (by decide) (Ext4SuperBlock.blockSize_pos hd.logBlockSize).1

theorem CopyInput.blocks (hd : CopyInput env p sb inode addr) (hpos : 0 < inode.size) :
    lastBlock sb.blockSize inode.size + 1 = fileBlocks sb.blockSize inode.size ∧
      totalBlocks sb.blockSize inode.size = fileBlocks sb.blockSize inode.size := by
  have hlo := hd.blockSize_pos
  have hn : 0 < fileBlocks sb.blockSize inode.size := fileBlocks_pos (by omega) hpos
  obtain ⟨-, hoff, -⟩ := offsetMax_eq hlo sb.blockSize_le hpos hd.size
  rw [totalBlocks, if_pos hoff, lastBlock_eq hlo sb.blockSize_le hpos hd.size]
  omega

theorem CopyInput.nWrite (hd : CopyInput env p sb inode addr) {i : Nat}
    (hi : i < fileBlocks sb.blockSize inode.size) :
    (copyJob env p sb inode).nWrite i = min sb.blockSize (inode.size - i * sb.blockSize) := by
  have hlo := hd.blockSize_pos
  have hstart := mul_lt_of_lt_fileBlocks hlo hi
  have hpos : 0 < inode.size := by omega
  obtain ⟨hlast, -⟩ := hd.blocks hpos
  obtain ⟨hsum, -, hle⟩ := offsetMax_eq hlo sb.blockSize_le hpos hd.size
  rcases Nat.lt_or_ge i (lastBlock sb.blockSize inode.size) with hlt | hge
  · have hnext : (i + 1) * sb.blockSize < inode.size := mul_lt_of_lt_fileBlocks hlo (by omega)
    rw [Nat.succ_mul] at hnext
    rw [copyJob_nWrite hlt]
    omega
  · have heq : i = lastBlock sb.blockSize inode.size := by omega
    rw [← hlast, Nat.add_sub_cancel, ← heq] at hsum
    rw [heq, copyJob_nWrite_last, ← heq]
    omega

theorem CopyInput.content_cut (hd : CopyInput env p sb inode addr) {m : Nat}
    (hm : m ≤ fileBlocks sb.blockSize inode.size) :
    ((List.range m).flatMap fun i =>
        (p.block sb.blockSize (addr i)).slice 0 ((copyJob env p sb inode).nWrite i)) =
      (fileContent p sb.blockSize addr inode.size).take (m * sb.blockSize) := by
  have hlo := hd.blockSize_pos
  have hwhole : ∀ {k}, k < fileBlocks sb.blockSize inode.size →
      ((List.range k).flatMap fun i =>
          (p.block sb.blockSize (addr i)).slice 0 ((copyJob env p sb inode).nWrite i)) =
        (List.range k).flatMap fun i => (p.block sb.blockSize (addr i)).slice 0 sb.blockSize := by
    intro k hk
    have hpos : 0 < inode.size := Nat.zero_lt_of_lt (mul_lt_of_lt_fileBlocks hlo hk)
    obtain ⟨hlast, -⟩ := hd.blocks hpos
    refine List.flatMap_congr fun i hi => ?_
    have hlt := List.mem_range.mp hi
    rw [copyJob_nWrite (by omega)]
  rcases Nat.lt_or_eq_of_le hm with hlt | rfl
  · have hcut := fileContent_take p addr hlt (Nat.zero_le sb.blockSize)
      (Nat.le_of_lt (mul_lt_of_lt_fileBlocks hlo hlt))
    rw [hwhole hlt]
    exact (hcut.trans (List.append_nil _)).symm
  · have hall := size_le_fileBlocks_mul inode.size hlo
    rw [List.take_of_length_le (by rw [fileContent_length hlo]; exact hall)]
    rcases Nat.eq_zero_or_pos inode.size with hzero | hpos
    · rw [fileContent, hzero, List.take_zero, fileBlocks_zero hlo]
      rfl
    · obtain ⟨hlast, -⟩ := hd.blocks hpos
      obtain ⟨hsum, -, hle⟩ := offsetMax_eq hlo sb.blockSize_le hpos hd.size
      rw [← hlast, Nat.add_sub_cancel] at hsum
      have hlt : lastBlock sb.blockSize inode.size < fileBlocks sb.blockSize inode.size := by omega
      have hcut := fileContent_take p addr hlt hle (Nat.le_of_eq hsum)
      rw [hsum, List.take_of_length_le (by rw [fileContent_length hlo])] at hcut
      rw [hcut, ← hwhole hlt, ← hlast, List.range_succ, List.flatMap_append,
        List.flatMap_singleton, copyJob_nWrite_last]

/-- **A row wrote its part of the content exactly if each of its blocks was read as it is.** -/
theorem CopyInput.row_written_iff (hd : CopyInput env p sb inode addr) {m : Nat}
    {row : List CopyStep} (hrow : (copyJob env p sb inode).Row 0 m row)
    (hm : m ≤ fileBlocks sb.blockSize inode.size) :
    row.flatMap CopyStep.written =
        (fileContent p sb.blockSize addr inode.size).take (m * sb.blockSize) ↔
      ∀ i < m, p.ReadsBlock sb.blockSize (addr i)
        (min sb.blockSize (inode.size - i * sb.blockSize)) := by
  have hlen : ∀ i, ((copyJob env p sb inode).bytesAt (addr i) i).length =
      ((p.block sb.blockSize (addr i)).slice 0 ((copyJob env p sb inode).nWrite i)).length :=
    fun i => by rw [CopyJob.bytesAt, Buffer.slice_length, Buffer.slice_length]
  rw [hd.row_written hrow hm, ← hd.content_cut hm, flatMap_range_inj hlen]
  refine forall₂_congr fun i hi => ?_
  rw [← hd.nWrite (by omega), Partition.ReadsBlock, Partition.readSectorsEx, if_pos rfl]
  constructor
  · intro hbytes
    exact ⟨_, rfl, hbytes⟩
  · rintro ⟨buffer, hbuffer, hbytes⟩
    rw [← Option.some.inj hbuffer] at hbytes
    exact hbytes

theorem CopyInput.lt_row_iff (hd : CopyInput env p sb inode addr) (hpos : 0 < inode.size) {m : Nat}
    {row tail : List CopyStep} {o : Outcome} (hrow : (copyJob env p sb inode).Row 0 m row)
    (hend : (copyJob env p sb inode).CopyEnd (lastBlock sb.blockSize inode.size)
      (totalBlocks sb.blockSize inode.size) m tail o) (i : Nat) :
    i < m ↔ i < fileBlocks sb.blockSize inode.size ∧ env.Undisturbed i := by
  obtain ⟨hlast, htotal⟩ := hd.blocks hpos
  rw [htotal] at hend
  constructor
  · intro hi
    have hm : m ≤ fileBlocks sb.blockSize inode.size := by cases hend <;> omega
    refine ⟨by omega, fun j hj => ?_⟩
    have hp := hrow.passes j (Nat.zero_le j) (by omega)
    exact ⟨hp.guard, hp.readOk, hp.writeOk⟩
  · rintro ⟨hi, hgo⟩
    by_contra hge
    obtain ⟨hflag, hread, hwrite⟩ := hgo m (Nat.not_lt.mp hge)
    cases hend with
    | done h => omega
    | interrupted _ hset => exact absurd (hflag.symm.trans hset) Bool.false_ne_true
    | crashed h _ hl => cases (hd.lookup h).symm.trans hl
    | failed _ _ _ hio => exact hio ⟨hread, hwrite⟩

/-- A copy that has an error wrote as many blocks as went through. -/
theorem CopyInput.error_copies_iff (hd : CopyInput env p sb inode addr) {m : Nat}
    {row tail : List CopyStep} (hrow : (copyJob env p sb inode).Row 0 m row)
    (hlt : m < fileBlocks sb.blockSize inode.size)
    (hnil : tail.flatMap CopyStep.written = [])
    (hlookups : ∃ k, (row ++ tail).map CopyStep.index = List.range k) :
    CopiesFile sb.blockSize (fileContent p sb.blockSize addr inode.size)
        ⟨row ++ tail, .returned (-1)⟩ ↔
      row.flatMap CopyStep.written =
        (fileContent p sb.blockSize addr inode.size).take (m * sb.blockSize) := by
  have hlo := hd.blockSize_pos
  have hcontent : (fileContent p sb.blockSize addr inode.size).length = inode.size :=
    fileContent_length hlo
  have hbefore := mul_lt_of_lt_fileBlocks hlo hlt
  have hrun : (⟨row ++ tail, .returned (-1)⟩ : ReadRun).written = row.flatMap CopyStep.written := by
    rw [ReadRun.written, List.flatMap_append, hnil, List.append_nil]
  constructor
  · rintro ⟨-, ⟨hzero, -⟩ | ⟨-, k, hk, hcut⟩⟩
    · cases hzero
    · have hwritten : (row.flatMap CopyStep.written).length =
          ((fileContent p sb.blockSize addr inode.size).take (m * sb.blockSize)).length := by
        rw [hd.row_written hrow (Nat.le_of_lt hlt), ← hd.content_cut (Nat.le_of_lt hlt)]
        simp only [List.length_flatMap, CopyJob.bytesAt, Buffer.slice_length]
      rw [hrun] at hcut
      rw [hcut, List.length_take, List.length_take, Nat.min_eq_left (Nat.le_of_lt hk),
        hcontent, Nat.min_eq_left (Nat.le_of_lt hbefore)] at hwritten
      rw [hcut, Nat.eq_of_mul_eq_mul_right hlo hwritten]
  · intro hcut
    exact ⟨hlookups, .inr ⟨rfl, m, by rw [hcontent]; exact hbefore, hrun.trans hcut⟩⟩

/-- **The copy up to its destructor.** -/
theorem CopyInput.ends_iff (hd : CopyInput env p sb inode addr) (hpos : 0 < inode.size) {m : Nat}
    {row tail : List CopyStep} {o : Outcome} (hrow : (copyJob env p sb inode).Row 0 m row)
    (hend : (copyJob env p sb inode).CopyEnd (lastBlock sb.blockSize inode.size)
      (totalBlocks sb.blockSize inode.size) m tail o) :
    (∃ error, o = .returned error) ∧
      (CopiesFile sb.blockSize (fileContent p sb.blockSize addr inode.size) ⟨row ++ tail, o⟩ ↔
        ∀ i < m, p.ReadsBlock sb.blockSize (addr i)
          (min sb.blockSize (inode.size - i * sb.blockSize))) := by
  have hlo := hd.blockSize_pos
  obtain ⟨hlast, htotal⟩ := hd.blocks hpos
  have hm : m ≤ fileBlocks sb.blockSize inode.size := by
    rw [htotal] at hend
    cases hend <;> omega
  have hindex := hrow.index
  rw [← List.range_eq_range'] at hindex
  rw [← hd.row_written_iff hrow hm]
  rw [htotal] at hend
  cases hend with
  | done h =>
    subst h
    refine ⟨⟨0, rfl⟩, ?_⟩
    rw [List.append_nil, List.take_of_length_le
      (by rw [fileContent_length hlo]; exact size_le_fileBlocks_mul inode.size hlo)]
    constructor
    · rintro ⟨-, ⟨-, hall⟩ | ⟨herror, -⟩⟩
      · exact hall
      · cases herror
    · intro hall
      exact ⟨⟨_, hindex⟩, .inl ⟨rfl, hall⟩⟩
  | interrupted h =>
    exact ⟨⟨-1, rfl⟩,
      hd.error_copies_iff hrow (by omega) rfl ⟨m, by rw [List.append_nil, hindex]⟩⟩
  | crashed h _ hl => cases (hd.lookup h).symm.trans hl
  | @failed h s hs hj hio =>
    refine ⟨⟨-1, rfl⟩, hd.error_copies_iff hrow h ?_ ⟨m + 1, ?_⟩⟩
    · rw [List.flatMap_singleton, hs.written_of_failed (by rw [hj]; exact hio)]
    · rw [List.map_append, hindex, List.map_singleton, hj, List.range_succ]

/-- The destructor goes through a path that is not there exactly when an
extent-mapped inode had no lookup at all. -/
theorem CopyInput.destroy_eq (hd : CopyInput env p sb inode addr) {k : Nat} {b : Blocks}
    (hk : k ≤ fileBlocks sb.blockSize inode.size)
    (hb : (Blocks.new p sb inode).before env.metaFails k = .ok b) (error : Int) :
    destroy b (.returned error) = if inode.iFlags &&& ext4ExtentsFl ≠ 0 ∧ k = 0
      then .crashed .nullDeref else .returned error := by
  have hanswers : ∀ i < k, (Blocks.new p sb inode).lookup env.metaFails i = .ok (.at (addr i)) :=
    fun i hi => hd.lookup (Nat.lt_of_lt_of_le hi hk)
  have hflush := Blocks.flush_before rfl hanswers hb
  rw [show (Blocks.new p sb inode).inode = inode from rfl] at hflush
  rw [destroy, hflush]
  by_cases h : inode.iFlags &&& ext4ExtentsFl ≠ 0 ∧ k = 0
  · rw [if_pos h, if_pos h]
  · rw [if_neg h, if_neg h]

theorem CopyInput.no_steps_iff (hd : CopyInput env p sb inode addr) (hpos : 0 < inode.size)
    {m : Nat} {row tail : List CopyStep} {o : Outcome} (hrow : (copyJob env p sb inode).Row 0 m row)
    (hend : (copyJob env p sb inode).CopyEnd (lastBlock sb.blockSize inode.size)
      (totalBlocks sb.blockSize inode.size) m tail o) :
    (row ++ tail).length = 0 ↔ env.intFlag 0 = true := by
  obtain ⟨hlast, htotal⟩ := hd.blocks hpos
  have hiff := hend.mem_index hrow (Nat.le_add_right _ _) 0
  constructor
  · intro hlen
    rw [List.length_eq_zero_iff.mp hlen] at hiff
    by_contra hflag
    obtain ⟨s, hmem, -⟩ := hiff.mpr
      ⟨by omega, Bool.eq_false_iff.mpr hflag, ⟨_, hd.lookup (by omega)⟩,
        fun j hj => absurd hj (by omega)⟩
    cases hmem
  · intro hflag
    by_contra hlen
    obtain ⟨s, hmem⟩ := List.exists_mem_of_length_pos (Nat.pos_of_ne_zero hlen)
    have hreach := (hend.mem_index hrow (Nat.le_add_right _ _) s.index).mp ⟨s, hmem, rfl⟩
    have hset := CopyEnv.intFlag_mono (Nat.zero_le s.index) hflag
    exact absurd (hreach.guard.symm.trans hset) Bool.false_ne_true

end Input

/-- A copy whose lookups succeed looks up its blocks in order and leaves the content of
the file, or an error and a cut of it, exactly unless the flag is set before the first
block of an extent-mapped file that is not empty, or a block that goes through is not read
as it is on the device. -/
theorem readFile_copies_iff {env : CopyEnv} {part : PartitionLinuxExt2} {inodeNr : Nat}
    {sb : Ext4SuperBlock} {inode : Ext4Inode} {addr : Nat → Nat}
    (hl : part.Loaded env.inodeOk inodeNr sb inode) (hd : CopyInput env part.part sb inode addr)
    (nrBlk : Nat) :
    CopiesFile sb.blockSize (fileContent part.part sb.blockSize addr inode.size)
        (part.readFile env inodeNr true nrBlk).1 ↔
      ¬(inode.iFlags &&& ext4ExtentsFl ≠ 0 ∧ inode.size ≠ 0 ∧ env.intFlag 0 = true) ∧
        ∀ i < fileBlocks sb.blockSize inode.size, env.Undisturbed i →
          part.part.ReadsBlock sb.blockSize (addr i)
            (min sb.blockSize (inode.size - i * sb.blockSize)) := by
  have hlo := hd.blockSize_pos
  rw [readFile_of_loaded env hl]
  by_cases hsize : inode.size = 0
  · have hempty : fileContent part.part sb.blockSize addr inode.size = [] :=
      List.length_eq_zero_iff.mp ((fileContent_length hlo).trans hsize)
    rw [if_pos hsize, hempty, hsize, fileBlocks_zero hlo]
    exact iff_of_true ⟨⟨0, rfl⟩, .inl ⟨rfl, rfl⟩⟩ ⟨fun h => h.2.1 rfl, nofun⟩
  · have hpos := Nat.pos_of_ne_zero hsize
    obtain ⟨m, row, tail, st, o, hrun, hrow, hend, hb⟩ :=
      copySteps_spec env part.part sb inode nrBlk
    obtain ⟨⟨error, rfl⟩, hcopies⟩ := hd.ends_iff hpos hrow hend
    have hrows := hd.lt_row_iff hpos hrow hend
    have hnone := hd.no_steps_iff hpos hrow hend
    have hlen := hend.length_le hrow (Nat.le_add_right _ _)
    rw [(hd.blocks hpos).2] at hlen
    rw [if_neg hsize, copyFile, if_neg (by omega), hrun]
    simp only [hd.destroy_eq hlen hb, hnone]
    by_cases hcrash : inode.iFlags &&& ext4ExtentsFl ≠ 0 ∧ env.intFlag 0 = true
    · rw [if_pos hcrash]
      refine iff_of_false ?_ fun h => h.1 ⟨hcrash.1, hsize, hcrash.2⟩
      intro h
      obtain ⟨h, -⟩ | ⟨h, -⟩ := h.ends
      · cases h
      · cases h
    · rw [if_neg hcrash, hcopies]
      constructor
      · intro hreads
        exact ⟨fun h => hcrash ⟨h.1, h.2.2⟩, fun i hi hgo => hreads i ((hrows i).mpr ⟨hi, hgo⟩)⟩
      · rintro ⟨-, hreads⟩ i hi
        exact hreads i ((hrows i).mp hi).1 ((hrows i).mp hi).2

theorem image_wholeSectors : WholeSectors image imageSb := ⟨by decide, by decide, by decide⟩

theorem image_copyInput {env : CopyEnv} (h : env.metaFails = quietEnv.metaFails) :
    CopyInput env image imageSb (imageInode 12) fun _ => 6 := by
  refine ⟨by decide, by decide, ?_⟩
  rw [h]
  exact Blocks.exists_of_map_fst (by decide +kernel)

theorem readFile_copies_image :
    ∃ m, (PartitionLinuxExt2.new image).getExt2Sb true true = .ok (true, m) ∧
      CopiesFile imageSb.blockSize (fileContent m.part imageSb.blockSize (fun _ => 6)
        (imageInode 12).size)
        (m.readFile quietEnv 12 true 0).1 := by
  obtain ⟨m, hm, hpart, hl, -⟩ := image_loaded
  have hd : CopyInput quietEnv m.part imageSb (imageInode 12) fun _ => 6 :=
    hpart ▸ image_copyInput rfl
  exact ⟨m, hm, (readFile_copies_iff hl hd 0).mpr ⟨by decide, fun _ _ _ =>
    readsBlock_of_wholeSectors (hpart ▸ image_wholeSectors) _ _⟩⟩

/-- The flag is set before the first block of an extent-mapped file: the copy has
its error, and the destructor goes through a path that is not there. -/
theorem interrupted_copy_crashes :
    ∃ m, (PartitionLinuxExt2.new image).getExt2Sb true true = .ok (true, m) ∧
      m.Loaded true 12 imageSb (imageInode 12) ∧
      CopyInput interruptedEnv m.part imageSb (imageInode 12) (fun _ => 6) ∧
      ¬CopiesFile imageSb.blockSize
        (fileContent m.part imageSb.blockSize (fun _ => 6) (imageInode 12).size)
        (m.readFile interruptedEnv 12 true 0).1 := by
  obtain ⟨m, hm, hpart, hl, -⟩ := image_loaded
  refine ⟨m, hm, hl, hpart ▸ image_copyInput rfl, ?_⟩
  intro hcopies
  have hcrash : (copyFile interruptedEnv image imageSb (imageInode 12) 0).outcome =
      .crashed .nullDeref := by decide
  rw [readFile_of_loaded interruptedEnv hl, if_neg (by decide), hpart] at hcopies
  obtain ⟨h, -⟩ | ⟨h, -⟩ := hcopies.ends
  · rw [hcrash] at h
    cases h
  · rw [hcrash] at h
    cases h

end Ext4tc.DiskUtils
