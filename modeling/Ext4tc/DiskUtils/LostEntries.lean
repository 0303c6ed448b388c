import Ext4tc.DiskUtils.DirHeap

/-! # The entry that is lost

A directory read that gives up deletes the entries from the first to the last but one, and
the array, so that the last entry stays on the heap without a pointer to it. Each block that
is read has a record, so this is so exactly if the block that fails is not the first. -/

namespace Ext4tc.DiskUtils
open Ext4tc.Lib Ext4tc.Fs

/-- The read gets to a block behind its first one and cannot read it. -/
def LaterBlockFails (env : DirEnv) (p : Partition) (sb : Ext4SuperBlock) (inode : Ext4Inode)
    (nrBlk : Nat) : Prop :=
  ∃ i blk ret blk', 0 < i ∧ ReachesDirBlock env p sb inode nrBlk i blk ∧
    blk.getExt2BlkNr env.metaFails i = .ok (ret, blk') ∧ env.readOk i = false

/-- `get_dir_entry` finds the inode, and a block behind the first one fails. -/
def PartitionLinuxExt2.LosesEntry (env : DirEnv) (part : PartitionLinuxExt2)
    (inodeNr nrBlk : Nat) : Prop :=
  ∃ info inode part', part.ext2 = .live info ∧
    part.getExt4Inode env.inodeOk inodeNr = .ok (some inode, part') ∧
    LaterBlockFails env part'.part info.ext4Sb inode nrBlk

/-! ## Blocks -/

section Blocks

variable {env : DirEnv} {p : Partition} {blockSizeSect blockSizeByte : Nat}

theorem DirTable.push_length {tab tab' : DirTable} {dir : Ext4DirEntry2}
    (h : tab.push dir = .ok tab') : tab'.entries.length = tab.entries.length + 1 := by
  by_cases hroom : tab.entries.length + 1 ≤ chunkSize *
      (if chunkSize * tab.nChunks ≤ tab.entries.length + 1 then tab.nChunks + 1 else tab.nChunks)
  · simp only [DirTable.push, if_pos hroom] at h
    cases h
    simp
  · simp only [DirTable.push, if_neg hroom] at h
    cases h

theorem recordLoop_grows {residue : Nat → Nat → UInt8} {buffer : Buffer} :
    ∀ {fuel offset : Nat} {tab tab' : DirTable},
      recordLoop residue blockSizeByte buffer fuel offset tab = .ok tab' →
      tab.entries.length ≤ tab'.entries.length ∧
        (offset < blockSizeByte → tab.entries.length < tab'.entries.length)
  | 0, _, _, _, h => nomatch h
  | fuel + 1, offset, tab, tab', h => by
    rw [recordLoop] at h
    split at h
    next hlt =>
      dsimp only at h
      split at h
      next => cases h
      next tab₁ hpush =>
        have hone := DirTable.push_length hpush
        have hrest := (recordLoop_grows h).1
        exact ⟨by omega, fun _ => by omega⟩
    next hge =>
      cases h
      exact ⟨Nat.le_refl _, fun hlt => absurd hlt hge⟩

/-- A block that stops the loop stores nothing, and one that does not has an entry. -/
theorem dirBlock_entries (hpos : 0 < blockSizeByte) (i : Nat) (st : DirState) :
    (∀ step st', dirBlock env p blockSizeSect blockSizeByte i st = (step, st', some .null) →
        st'.tab = st.tab) ∧
      ∀ step st', dirBlock env p blockSizeSect blockSizeByte i st = (step, st', none) →
        st'.tab.entries ≠ [] := by
  unfold dirBlock
  cases st.blk.getExt2BlkNr env.metaFails i with
  | error fault =>
    constructor <;> intro step st' h <;> cases h
  | ok r =>
    obtain ⟨ret, blk⟩ := r
    simp only [if_neg (Nat.not_lt_zero ret.ret)]
    cases p.readSectorsEx (env.readOk i)
        (blockSizeSect * ret.physicalBlkAddr.getD st.nrBlk % 2 ^ 64) blockSizeSect with
    | none =>
      constructor <;> intro step st' h <;> cases h
      rfl
    | some buffer =>
      simp only
      cases hloop : recordLoop env.heap blockSizeByte buffer env.fuel 0 st.tab with
      | error fault =>
        constructor <;> intro step st' h <;> cases h
      | ok tab =>
        constructor <;> intro step st' h <;> cases h
        have hgrown := (recordLoop_grows hloop).2 hpos
        exact List.ne_nil_of_length_pos (Nat.lt_of_le_of_lt (Nat.zero_le _) hgrown)

theorem lostBy_steps (steps steps' : List DirStep) (st : DirState) (stop : Option DirStop) :
    OnHeap.lostBy (steps, st, stop) = OnHeap.lostBy (steps', st, stop) := by
  cases stop with
  | none => rfl
  | some stop => cases stop <;> rfl

/-- **The loop loses an entry exactly if it stops behind its first block.** -/
theorem lostBy_dirLoop (hpos : 0 < blockSizeByte) {st₀ : DirState} : ∀ (k i : Nat) (st : DirState),
    dirBefore env p blockSizeSect blockSizeByte st₀ i = some st →
    (st.tab.entries ≠ [] ↔ 0 < i) →
    (OnHeap.lostBy (dirLoop env p blockSizeSect blockSizeByte k i st) = 1 ↔
      ∃ j st₁ ret blk', 0 < j ∧ i ≤ j ∧ j < i + k ∧
        dirBefore env p blockSizeSect blockSizeByte st₀ j = some st₁ ∧
        st₁.blk.getExt2BlkNr env.metaFails j = .ok (ret, blk') ∧ env.readOk j = false)
  | 0, i, st, _, _ => by
    refine iff_of_false Nat.zero_ne_one ?_
    rintro ⟨j, -, -, -, -, hlo, hhi, -⟩
    omega
  | k + 1, i, st, hst, hentries => by
    have hnull := fun blk' => @dirBlock_null_iff env p blockSizeSect blockSizeByte i st blk'
    obtain ⟨hkeeps, hstores⟩ := @dirBlock_entries env p blockSizeSect blockSizeByte hpos i st
    have hnext := dirBefore_succ hst
    rw [dirLoop]
    rcases hblock : dirBlock env p blockSizeSect blockSizeByte i st with ⟨step, st₁, stop⟩
    rw [hblock] at hnext
    cases stop with
    | none =>
      have ih := lostBy_dirLoop hpos k (i + 1) st₁ hnext
        (iff_of_true (hstores step st₁ hblock) (Nat.succ_pos i))
      simp only [lostBy_steps (step.toList ++ _) (dirLoop env p blockSizeSect blockSizeByte k
        (i + 1) st₁).1]
      refine Iff.trans ih ⟨?_, ?_⟩
      · rintro ⟨j, st₂, ret, blk', h0, hlo, hhi, hj⟩
        exact ⟨j, st₂, ret, blk', h0, by omega, by omega, hj⟩
      · rintro ⟨j, st₂, ret, blk', h0, hlo, hhi, hj, hcall, hread⟩
        rcases Nat.eq_or_lt_of_le hlo with rfl | hlt
        · -- block `i` did not stop the loop
          obtain rfl : st = st₂ := Option.some.inj (hst.symm.trans hj)
          obtain ⟨step', st', hstop, -⟩ := (hnull blk').mpr ⟨ret, hcall, hread⟩
          cases hblock.symm.trans hstop
        · exact ⟨j, st₂, ret, blk', h0, hlt, by omega, hj, hcall, hread⟩
    | some stop =>
      -- no block behind this one is got to
      have hlast : ∀ j, i < j → dirBefore env p blockSizeSect blockSizeByte st₀ j = none := by
        intro j hlt
        by_contra hj
        exact dirBefore_mono (show i + 1 ≤ j from hlt) hj hnext
      constructor
      · intro hlost
        cases stop with
        | crashed fault => cases hlost
        | null =>
          have htab := hkeeps step st₁ hblock
          have hsome : st.tab.entries ≠ [] := by
            rintro hnil
            rw [OnHeap.lostBy, htab, hnil] at hlost
            cases hlost
          obtain ⟨ret, hcall, hread⟩ := (hnull st₁.blk).mp ⟨step, st₁, hblock, rfl⟩
          exact ⟨i, st, ret, st₁.blk, hentries.mp hsome, Nat.le_refl i, by omega, hst, hcall,
            hread⟩
      · rintro ⟨j, st₂, ret, blk', h0, hlo, hhi, hj, hcall, hread⟩
        rcases Nat.eq_or_lt_of_le hlo with rfl | hlt
        · obtain rfl : st = st₂ := Option.some.inj (hst.symm.trans hj)
          obtain ⟨step', st', hstop, -⟩ := (hnull blk').mpr ⟨ret, hcall, hread⟩
          cases hblock.symm.trans hstop
          have hlength := List.length_pos_of_ne_nil (hentries.mpr h0)
          rw [OnHeap.lostBy, hkeeps _ _ hblock]
          omega
        · rw [hlast j hlt] at hj
          cases hj

end Blocks

/-! ## One call -/

section Calls

variable {env : DirEnv}

theorem lostBy_le_one (run : List DirStep × DirState × Option DirStop) :
    OnHeap.lostBy run ≤ 1 := by
  obtain ⟨steps, st, _ | _ | fault⟩ := run
  · exact Nat.zero_le 1
  · exact Nat.min_le_left 1 _
  · exact Nat.zero_le 1

theorem lostEntries_eq_one_iff {p : Partition} {sb : Ext4SuperBlock} (inode : Ext4Inode)
    (nrBlk : Nat) (hbs : sb.blockSize ≠ 0) :
    lostEntries env p sb inode nrBlk = 1 ↔ LaterBlockFails env p sb inode nrBlk := by
  have hstart : (dirStart p sb inode nrBlk).tab.entries ≠ [] ↔ 0 < 0 :=
    iff_of_false (fun h => h rfl) (Nat.lt_irrefl 0)
  have hloop := @lostBy_dirLoop env p (sb.blockSize / p.sectorSize % 2 ^ 16) sb.blockSize
    (Nat.pos_of_ne_zero hbs) (dirStart p sb inode nrBlk) (nBlocks sb.blockSize inode.size) 0 _
    (dirBefore_zero ..) hstart
  refine Iff.trans hloop ⟨?_, ?_⟩
  · rintro ⟨j, st, ret, blk', h0, -, hlt, hst, hcall, hread⟩
    exact ⟨j, st.blk, ret, blk', h0, ⟨hbs, by omega, st, hst, rfl⟩, hcall, hread⟩
  · rintro ⟨j, -, ret, blk', h0, ⟨-, hlt, st, hst, rfl⟩, hcall, hread⟩
    exact ⟨j, st, ret, blk', h0, Nat.zero_le j, by omega, hst, hcall, hread⟩

variable {part : PartitionLinuxExt2} {inodeNr nrBlk : Nat}

theorem PartitionLinuxExt2.lostEntries_le_one : part.lostEntries env inodeNr nrBlk ≤ 1 := by
  unfold PartitionLinuxExt2.lostEntries
  split
  next => exact lostBy_le_one _
  next => exact Nat.zero_le 1

theorem PartitionLinuxExt2.lostEntries_eq_one_iff {result : DirResult}
    (hrun : (part.getDirEntry env inodeNr nrBlk).1.result = .ok result) :
    part.lostEntries env inodeNr nrBlk = 1 ↔ part.LosesEntry env inodeNr nrBlk := by
  unfold PartitionLinuxExt2.getDirEntry at hrun
  unfold PartitionLinuxExt2.lostEntries PartitionLinuxExt2.LosesEntry
  cases hext2 : part.ext2 with
  | null =>
    simp only [hext2] at hrun
    cases hrun
  | freed =>
    simp only [hext2] at hrun
    cases hrun
  | live info =>
    simp only [hext2] at hrun
    split at hrun
    next => cases hrun
    next =>
      cases hinode : part.getExt4Inode env.inodeOk inodeNr with
      | error fault =>
        simp only [hinode] at hrun
        cases hrun
      | ok found =>
        obtain ⟨_ | inode, part'⟩ := found
        · refine iff_of_false Nat.zero_ne_one ?_
          rintro ⟨_, inode, part₁, -, hfound, -⟩
          cases hfound
        · simp only [hinode] at hrun
          have hbs : info.ext4Sb.blockSize ≠ 0 := by
            intro hzero
            rw [readDir, if_pos hzero] at hrun
            cases hrun
          refine Iff.trans (DiskUtils.lostEntries_eq_one_iff inode nrBlk hbs) ⟨?_, ?_⟩
          · intro hfails
            exact ⟨info, inode, part', rfl, rfl, hfails⟩
          · rintro ⟨_, _, _, hlive, hfound, hfails⟩
            cases hlive
            cases hfound
            exact hfails

/-- **What `get_dir_entry` leaves on the heap**: besides what was there, the table that it
returns, and one entry that nothing points to exactly if it could read its first block and
not a later one. -/
theorem directory_read_leaks_iff (env : DirEnv) (part : PartitionLinuxExt2) (inodeNr nrBlk : Nat)
    {h : DirHeap} {frame : Multiset (Nat × DirObject)} (hh : h.Holds frame) :
    Both (fun out out' => out.2 = out'.2 ∧ out.1.readDirs = out'.1.readDirs ∧
        ∃ lost, OnHeap.Held frame lost out'.1.table out.1.table out.1.heap ∧ lost ≤ 1 ∧
          (lost = 1 ↔ part.LosesEntry env inodeNr nrBlk))
      (OnHeap.getDirEntry env part inodeNr nrBlk h)
      ((part.getDirEntry env inodeNr nrBlk).1.result.map fun result =>
        (result, (part.getDirEntry env inodeNr nrBlk).2)) := by
  obtain ⟨fault, hx, hy⟩ | ⟨out, out', hx, hy, hpart, hreads, hheld⟩ :=
    OnHeap.getDirEntry_held env part inodeNr nrBlk hh
  · exact .inl ⟨fault, hx, hy⟩
  · obtain ⟨result, hrun, -⟩ := exists_of_map_ok hy
    exact .inr ⟨out, out', hx, hy, hpart, hreads, _, hheld,
      PartitionLinuxExt2.lostEntries_le_one, PartitionLinuxExt2.lostEntries_eq_one_iff hrun⟩

end Calls

/-! ## A directory of two blocks -/

/-- The directory 15 is two blocks long. -/
def longDirectory : Partition :=
  { dirImage with device := ((⟨0, dirImage.device⟩ : Buffer).pokes [(18181, [0x20])]).byte }

def longMount : PartitionLinuxExt2 :=
  match (PartitionLinuxExt2.new longDirectory).getExt2Sb true true with
  | .ok (_, part) => part
  | .error _ => .new longDirectory

/-- The second block cannot be read. -/
def cutEnv : DirEnv := { zeroHeapEnv 3 with readOk := fun i => i == 0 }

theorem longMount_losesEntry : longMount.LosesEntry cutEnv 15 0 :=
  ⟨_, _, _, rfl, rfl, 1, _, _, _, by decide, ⟨by decide, by decide, _, rfl, rfl⟩, rfl, rfl⟩

/-- The read returns NULL, and an entry stays on the heap. -/
theorem directory_read_leaks_longDirectory :
    ∃ out, OnHeap.getDirEntry cutEnv longMount 15 0 .empty = .ok out ∧ out.1.table = none ∧
      ∃ gone, out.1.heap.Holds gone ∧ gone.card = 1 := by
  have hvalue : (longMount.getDirEntry cutEnv 15 0).1.result = .ok ⟨none, none⟩ := rfl
  obtain ⟨fault, -, hy⟩ | ⟨out, out', hx, hy, -, -, lost, hheld, -, hlost⟩ :=
    directory_read_leaks_iff cutEnv longMount 15 0 ObjectHeap.holds_empty
  · rw [hvalue] at hy
    cases hy
  · rw [hvalue] at hy
    obtain rfl : _ = out' := Except.ok.inj hy
    obtain ⟨objs, gone, hpoints, hgone, hh⟩ := hheld
    rw [hlost.mpr longMount_losesEntry] at hgone
    generalize htable : out.1.table = table at hpoints
    cases hpoints with
    | null =>
      rw [Multiset.zero_add, Multiset.add_zero] at hh
      exact ⟨out, hx, htable, gone, hh, hgone.1⟩

end Ext4tc.DiskUtils
