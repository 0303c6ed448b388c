import Ext4tc.DiskUtils.Mounting
import Ext4tc.Fs.Geometry

/-! # Reading a directory

`partition_linux_ext2::get_dir_entry`. Records are copied one by one into objects
of 264 bytes, whose bytes past the copied ones are what the heap left there; the
walk then goes on by the `rec_len` of the copy. A block whose walk does not end
within the fuel is a `hang`. As with `read_file`, a run keeps one step for each
block lookup that returned. -/

namespace Ext4tc.DiskUtils
open Ext4tc.Lib Ext4tc.Fs

/-- `heap k` is what the object of the `k`-th record holds before the copy. -/
structure DirEnv where
  inodeOk : Bool
  metaFails : Nat → Bool
  readOk : Nat → Bool
  heap : Nat → Nat → UInt8
  fuel : Nat

/-- `get_ext4_dir_entry`, into the fresh object `heap`. -/
def getExt4DirEntry (heap : Nat → UInt8) (src : Ext4DirEntry2) : Ext4DirEntry2 :=
  ⟨sizeofExt4DirEntry2,
    fun i => if i < min sizeofExt4DirEntry2 src.recLen then src.byte i else heap i⟩

def chunkSize : Nat := 256

/-- `tab_dir` with its `n_dir` entries and its allocation of whole chunks. -/
structure DirTable where
  entries : List Ext4DirEntry2
  nChunks : Nat

/-- Grow the table when the new count reaches its end, then store the entry. -/
def DirTable.push (tab : DirTable) (dir : Ext4DirEntry2) : Except Fault DirTable :=
  let nDir := tab.entries.length + 1
  let nChunks := if chunkSize * tab.nChunks ≤ nDir then tab.nChunks + 1 else tab.nChunks
  if nDir ≤ chunkSize * nChunks then .ok ⟨tab.entries ++ [dir], nChunks⟩ else .error .outOfBounds

/-- The record loop over one block. -/
def recordLoop (heap : Nat → Nat → UInt8) (blockSizeByte : Nat) (buffer : Buffer) :
    (fuel offset : Nat) → DirTable → Except Fault DirTable
  | 0, _, _ => .error .hang
  | fuel + 1, offset, tab =>
    if offset < blockSizeByte then
      let dir := getExt4DirEntry (heap tab.entries.length) (buffer.shift offset)
      match tab.push dir with
      | .error fault => .error fault
      | .ok tab => recordLoop heap blockSizeByte buffer fuel ((offset + dir.recLen) % 2 ^ 32) tab
    else .ok tab

structure DirStep where
  index : Nat
  blkNr : BlkNr
  read : Option (Nat × Bool)

structure DirState where
  blk : Blocks
  nrBlk : Nat
  tab : DirTable

inductive DirStop where
  | null
  | crashed (fault : Fault)

/-- Look up and read block `i`, and walk its records. The test of the lookup is on
an unsigned value, as in `read_file`. -/
def dirBlock (env : DirEnv) (p : Partition) (blockSizeSect blockSizeByte i : Nat) (st : DirState) :
    Option DirStep × DirState × Option DirStop :=
  match st.blk.getExt2BlkNr env.metaFails i with
  | .error fault => (none, st, some (.crashed fault))
  | .ok (ret, blk) =>
    let nrBlk := ret.physicalBlkAddr.getD st.nrBlk
    if ret.ret < 0 then (some ⟨i, ret, none⟩, ⟨blk, nrBlk, st.tab⟩, some .null)
    else
      match p.readSectorsEx (env.readOk i) (blockSizeSect * nrBlk % 2 ^ 64) blockSizeSect with
      | none => (some ⟨i, ret, some (nrBlk, false)⟩, ⟨blk, nrBlk, st.tab⟩, some .null)
      | some buffer =>
        match recordLoop env.heap blockSizeByte buffer env.fuel 0 st.tab with
        | .error fault => (some ⟨i, ret, some (nrBlk, true)⟩, ⟨blk, nrBlk, st.tab⟩,
            some (.crashed fault))
        | .ok tab => (some ⟨i, ret, some (nrBlk, true)⟩, ⟨blk, nrBlk, tab⟩, none)

/-- The loop over `k` blocks from block `i` on. -/
def dirLoop (env : DirEnv) (p : Partition) (blockSizeSect blockSizeByte : Nat) :
    (k i : Nat) → DirState → List DirStep × DirState × Option DirStop
  | 0, _, st => ([], st, none)
  | k + 1, i, st =>
    match dirBlock env p blockSizeSect blockSizeByte i st with
    | (step, st, some stop) => (step.toList, st, some stop)
    | (step, st, none) =>
      match dirLoop env p blockSizeSect blockSizeByte k (i + 1) st with
      | (steps, st, stop) => (step.toList ++ steps, st, stop)

/-- What `get_dir_entry` returns, and what it stores in `*read_dirs`, if anything. -/
structure DirResult where
  table : Option (List Ext4DirEntry2)
  readDirs : Option Nat

structure DirRun where
  steps : List DirStep
  result : Except Fault DirResult

/-- The return statements: a stop frees what there is and returns NULL without
storing a count; at the end a table that never got an entry is NULL as well. -/
def dirResult (st : DirState) : Option DirStop → Except Fault DirResult
  | some (.crashed fault) => .error fault
  | some .null => .ok ⟨none, none⟩
  | none => .ok ⟨if st.tab.entries.isEmpty then none else some st.tab.entries,
      some st.tab.entries.length⟩

/-- The destructor of the mapper runs at every return. -/
def dirDestroy (blk : Blocks) : Except Fault DirResult → Except Fault DirResult
  | .error fault => .error fault
  | .ok result =>
    match blk.flush with
    | .error fault => .error fault
    | .ok () => .ok result

/-- The state of a directory read before its first block. -/
def dirStart (p : Partition) (sb : Ext4SuperBlock) (inode : Ext4Inode) (nrBlk : Nat) : DirState :=
  ⟨Blocks.new p sb inode, nrBlk, ⟨[], 0⟩⟩

/-- `get_dir_entry` from the construction of `dir_blk` on. -/
def readDir (env : DirEnv) (p : Partition) (sb : Ext4SuperBlock) (inode : Ext4Inode) (nrBlk : Nat) :
    DirRun :=
  if sb.blockSize = 0 then ⟨[], .error .divByZero⟩
  else
    match dirLoop env p (sb.blockSize / p.sectorSize % 2 ^ 16) sb.blockSize
        (nBlocks sb.blockSize inode.size) 0 (dirStart p sb inode nrBlk) with
    | (steps, st, stop) => ⟨steps, dirDestroy st.blk (dirResult st stop)⟩

theorem readDir_counted {env : DirEnv} {p : Partition} {sb : Ext4SuperBlock} {inode : Ext4Inode}
    {nrBlk : Nat} {dirs : List Ext4DirEntry2} {num : Option Nat}
    (h : (readDir env p sb inode nrBlk).result = .ok ⟨some dirs, num⟩) :
    num = some dirs.length := by
  unfold readDir at h
  split at h
  next => cases h
  next =>
    split at h
    next steps st stop _ =>
      cases stop with
      | some stop =>
        cases stop with
        | crashed fault => cases h
        | null =>
          simp only [dirResult, dirDestroy] at h
          split at h <;> cases h
      | none =>
        simp only [dirResult, dirDestroy] at h
        split at h
        next => cases h
        next =>
          simp only [Except.ok.injEq, DirResult.mk.injEq] at h
          obtain ⟨htable, rfl⟩ := h
          split at htable
          next => cases htable
          next =>
            cases htable
            rfl

/-- `get_dir_entry`; `nrBlk` is what the variable `nr_blk` holds before it is set. -/
def PartitionLinuxExt2.getDirEntry (env : DirEnv) (part : PartitionLinuxExt2)
    (inodeNr nrBlk : Nat) :
    DirRun × PartitionLinuxExt2 :=
  match part.ext2 with
  | .null => (⟨[], .error .nullDeref⟩, part)
  | .freed => (⟨[], .error .useAfterFree⟩, part)
  | .live info =>
    if part.part.sectorSize = 0 then (⟨[], .error .divByZero⟩, part)
    else
      match part.getExt4Inode env.inodeOk inodeNr with
      | .error fault => (⟨[], .error fault⟩, part)
      | .ok (none, part) => (⟨[], .ok ⟨none, none⟩⟩, part)
      | .ok (some inode, part) => (readDir env part.part info.ext4Sb inode nrBlk, part)

/-! ## Runs -/

/-- The state before block `i`, if the loop gets to it. -/
def dirBefore (env : DirEnv) (p : Partition) (blockSizeSect blockSizeByte : Nat) (st : DirState) :
    Nat → Option DirState
  | 0 => some st
  | i + 1 =>
    match dirBefore env p blockSizeSect blockSizeByte st i with
    | none => none
    | some st =>
      match dirBlock env p blockSizeSect blockSizeByte i st with
      | (_, st, none) => some st
      | _ => none

/-- Whatever a lookup that returns answers, an address is read next. -/
theorem dirBlock_ok {env : DirEnv} {p : Partition} {i : Nat} {st : DirState} {ret : BlkNr}
    {blk : Blocks} (hcall : st.blk.getExt2BlkNr env.metaFails i = .ok (ret, blk))
    (blockSizeSect blockSizeByte : Nat) :
    ∃ read st' stop, dirBlock env p blockSizeSect blockSizeByte i st =
      (some ⟨i, ret, some read⟩, st', stop) := by
  unfold dirBlock
  simp only [hcall, if_neg (Nat.not_lt_zero ret.ret)]
  split
  next => exact ⟨_, _, _, rfl⟩
  next =>
    split
    next => exact ⟨_, _, _, rfl⟩
    next => exact ⟨_, _, _, rfl⟩

/-- A block that has a step read an address, and the step holds what its lookup
answered; one whose lookup returns has a step. -/
theorem dirBlock_spec (env : DirEnv) (p : Partition) (blockSizeSect blockSizeByte i : Nat)
    (st : DirState) :
    (∀ s, (dirBlock env p blockSizeSect blockSizeByte i st).1 = some s → s.index = i ∧
    s.read ≠ none ∧
        ∃ blk, st.blk.getExt2BlkNr env.metaFails i = .ok (s.blkNr, blk)) ∧
      ∀ ret blk, st.blk.getExt2BlkNr env.metaFails i = .ok (ret, blk) →
        ∃ s, (dirBlock env p blockSizeSect blockSizeByte i st).1 = some s := by
  cases hcall : st.blk.getExt2BlkNr env.metaFails i with
  | error fault =>
    unfold dirBlock
    rw [hcall]
    exact ⟨nofun, nofun⟩
  | ok r =>
    obtain ⟨ret, blk⟩ := r
    obtain ⟨read, st', stop, hblock⟩ := dirBlock_ok (p := p) hcall blockSizeSect blockSizeByte
    rw [hblock]
    refine ⟨?_, ?_⟩
    · intro s hs
      cases hs
      exact ⟨rfl, Option.some_ne_none read, blk, rfl⟩
    · intro _ _ _
      exact ⟨_, rfl⟩

section Runs

variable {env : DirEnv} {p : Partition} {blockSizeSect blockSizeByte : Nat} {st₀ : DirState}

theorem dirBefore_zero (env : DirEnv) (p : Partition) (blockSizeSect blockSizeByte : Nat)
    (st : DirState) :
    dirBefore env p blockSizeSect blockSizeByte st 0 = some st := rfl

theorem dirBefore_succ {i : Nat} {st : DirState}
    (h : dirBefore env p blockSizeSect blockSizeByte st₀ i = some st) :
    dirBefore env p blockSizeSect blockSizeByte st₀ (i + 1) =
      match dirBlock env p blockSizeSect blockSizeByte i st with
      | (_, st, none) => some st
      | _ => none := by
  rw [dirBefore, h]

theorem dirBefore_mono {i j : Nat} (hij : i ≤ j)
    (h : dirBefore env p blockSizeSect blockSizeByte st₀ j ≠ none) :
    dirBefore env p blockSizeSect blockSizeByte st₀ i ≠ none := by
  induction j, hij using Nat.le_induction with
  | base => exact h
  | succ j _ ih =>
    refine ih fun hnone => h ?_
    rw [dirBefore, hnone]

/-- The loop has a step for each block it gets to whose lookup returns, and for
no other; each step read an address. -/
theorem dirLoop_spec : ∀ (k i : Nat) (st : DirState),
    dirBefore env p blockSizeSect blockSizeByte st₀ i = some st →
    (∀ s ∈ (dirLoop env p blockSizeSect blockSizeByte k i st).1, s.read ≠ none ∧ s.index < i + k ∧
        ∃ st' blk, dirBefore env p blockSizeSect blockSizeByte st₀ s.index = some st' ∧
          st'.blk.getExt2BlkNr env.metaFails s.index = .ok (s.blkNr, blk)) ∧
      ∀ j st' ret blk, i ≤ j → j < i + k →
        dirBefore env p blockSizeSect blockSizeByte st₀ j = some st' →
        st'.blk.getExt2BlkNr env.metaFails j = .ok (ret, blk) →
        ∃ s ∈ (dirLoop env p blockSizeSect blockSizeByte k i st).1, s.index = j
  | 0, i, st, _ => ⟨nofun, fun j _ _ _ hlo hhi => absurd hhi (by omega)⟩
  | k + 1, i, st, hst => by
    obtain ⟨hstep, hret⟩ := dirBlock_spec env p blockSizeSect blockSizeByte i st
    have hnext := dirBefore_succ hst
    rw [dirLoop]
    rcases hblock : dirBlock env p blockSizeSect blockSizeByte i st with ⟨step, st₁, stop⟩
    rw [hblock] at hstep hret hnext
    have hhere : ∀ s, step = some s → s.read ≠ none ∧ s.index < i + (k + 1) ∧
        ∃ st' blk, dirBefore env p blockSizeSect blockSizeByte st₀ s.index = some st' ∧
          st'.blk.getExt2BlkNr env.metaFails s.index = .ok (s.blkNr, blk) := by
      intro s hs
      obtain ⟨rfl, hread, blk, hcall⟩ := hstep s hs
      exact ⟨hread, by omega, st, blk, hst, hcall⟩
    cases stop with
    | some stop =>
      refine ⟨fun s hmem => hhere s (Option.mem_toList.mp hmem), ?_⟩
      intro j st' ret blk hlo hhi hj hcall
      rcases Nat.eq_or_lt_of_le hlo with rfl | hlt
      · obtain rfl : st = st' := Option.some.inj (hst.symm.trans hj)
        obtain ⟨s, hs⟩ := hret ret blk hcall
        exact ⟨s, Option.mem_toList.mpr hs, (hstep s hs).1⟩
      · exact absurd hnext (dirBefore_mono hlt (by rw [hj]; exact Option.some_ne_none _))
    | none =>
      obtain ⟨hmem', hconv⟩ := dirLoop_spec k (i + 1) st₁ hnext
      refine ⟨?_, ?_⟩
      · intro s hmem
        rcases List.mem_append.mp hmem with hmem | hmem
        · exact hhere s (Option.mem_toList.mp hmem)
        · obtain ⟨hread, hlt, hrest⟩ := hmem' s hmem
          exact ⟨hread, by omega, hrest⟩
      · intro j st' ret blk hlo hhi hj hcall
        rcases Nat.eq_or_lt_of_le hlo with rfl | hlt
        · obtain rfl : st = st' := Option.some.inj (hst.symm.trans hj)
          obtain ⟨s, hs⟩ := hret ret blk hcall
          exact ⟨s, List.mem_append_left _ (Option.mem_toList.mpr hs), (hstep s hs).1⟩
        · obtain ⟨s, hs, hj'⟩ := hconv j st' ret blk hlt (by omega) hj hcall
          exact ⟨s, List.mem_append_right _ hs, hj'⟩

end Runs

/-- The read gets to block `i`, with the mapper in state `blk`. -/
def ReachesDirBlock (env : DirEnv) (p : Partition) (sb : Ext4SuperBlock) (inode : Ext4Inode)
    (nrBlk i : Nat) (blk : Blocks) : Prop :=
  sb.blockSize ≠ 0 ∧ i < nBlocks sb.blockSize inode.size ∧
    ∃ st, dirBefore env p (sb.blockSize / p.sectorSize % 2 ^ 16) sb.blockSize
      (dirStart p sb inode nrBlk) i = some st ∧ st.blk = blk

/-- Past the tests at its head, `get_dir_entry` is the read. -/
theorem getDirEntry_of_loaded (env : DirEnv) {part : PartitionLinuxExt2} {inodeNr : Nat}
    {sb : Ext4SuperBlock} {inode : Ext4Inode} (h : part.Loaded env.inodeOk inodeNr sb inode)
    (nrBlk : Nat) :
    (part.getDirEntry env inodeNr nrBlk).1 = readDir env part.part sb inode nrBlk := by
  obtain ⟨info, part', hlive, rfl, hinode⟩ := h
  obtain ⟨hs, hpart⟩ := PartitionLinuxExt2.getExt4Inode_some hinode
  simp only [PartitionLinuxExt2.getDirEntry, hlive, if_neg hs, hinode, hpart]

/-- Steps read an address, and they are the lookups of the blocks the read gets to. -/
theorem getDirEntry_steps {env : DirEnv} {part : PartitionLinuxExt2} {inodeNr : Nat}
    {sb : Ext4SuperBlock} {inode : Ext4Inode} (h : part.Loaded env.inodeOk inodeNr sb inode)
    (nrBlk : Nat) :
    (∀ s ∈ (part.getDirEntry env inodeNr nrBlk).1.steps, s.read ≠ none) ∧
      ∀ i ret, (∃ s ∈ (part.getDirEntry env inodeNr nrBlk).1.steps, s.index = i ∧ s.blkNr = ret) ↔
        ∃ blk blk', ReachesDirBlock env part.part sb inode nrBlk i blk ∧
          blk.getExt2BlkNr env.metaFails i = .ok (ret, blk') := by
  rw [getDirEntry_of_loaded env h, readDir]
  by_cases hbs : sb.blockSize = 0
  · rw [if_pos hbs]
    exact ⟨nofun, fun i ret => iff_of_false (fun ⟨_, h, _⟩ => nomatch h) fun ⟨_, _, h, _⟩ =>
      h.1 hbs⟩
  · rw [if_neg hbs]
    obtain ⟨hmem, hconv⟩ := dirLoop_spec (nBlocks sb.blockSize inode.size) 0
      (dirStart part.part sb inode nrBlk)
      (dirBefore_zero env part.part (sb.blockSize / part.part.sectorSize % 2 ^ 16) sb.blockSize _)
    rcases hloop : dirLoop env part.part (sb.blockSize / part.part.sectorSize % 2 ^ 16) sb.blockSize
      (nBlocks sb.blockSize inode.size) 0 (dirStart part.part sb inode nrBlk) with ⟨steps, st, stop⟩
    rw [hloop] at hmem hconv
    refine ⟨fun s hs => (hmem s hs).1, fun i ret => ⟨?_, ?_⟩⟩
    · rintro ⟨s, hs, rfl, rfl⟩
      obtain ⟨-, hlt, st', blk', hst', hcall⟩ := hmem s hs
      exact ⟨st'.blk, blk', ⟨hbs, by omega, st', hst', rfl⟩, hcall⟩
    · rintro ⟨blk, blk', ⟨-, hlt, st', hst', rfl⟩, hcall⟩
      obtain ⟨s, hs, rfl⟩ := hconv i st' ret blk' (Nat.zero_le i) (by omega) hst' hcall
      obtain ⟨-, -, st'', blk'', hst'', hcall'⟩ := hmem s hs
      obtain rfl : st' = st'' := Option.some.inj (hst'.symm.trans hst'')
      exact ⟨s, hs, rfl, congrArg Prod.fst (Except.ok.inj (hcall'.symm.trans hcall))⟩

end Ext4tc.DiskUtils
