import Ext4tc.DiskUtils.FailedLookup

/-! # Directory reads that give up

`get_dir_entry` returns NULL for an empty directory, whose count it stores, and where it
gives up: no inode, or a block that cannot be read. Giving up stores nothing, so the caller
goes on with the count that it had. -/

namespace Ext4tc.DiskUtils
open Ext4tc.Lib Ext4tc.Fs

/-- The read gets to a block that it cannot read, and to the end of the mapper behind it. -/
def DirBlockFails (env : DirEnv) (p : Partition) (sb : Ext4SuperBlock) (inode : Ext4Inode)
    (nrBlk : Nat) : Prop :=
  ∃ i blk ret blk', ReachesDirBlock env p sb inode nrBlk i blk ∧
    blk.getExt2BlkNr env.metaFails i = .ok (ret, blk') ∧ env.readOk i = false ∧ blk'.flush = .ok ()

/-- The directory read gives up: there is no inode, or a block of it fails to be read. -/
def PartitionLinuxExt2.GivesUp (env : DirEnv) (part : PartitionLinuxExt2) (inodeNr nrBlk : Nat) :
    Prop :=
  ∃ info, part.ext2 = .live info ∧ part.part.sectorSize ≠ 0 ∧
    ∃ found part', part.getExt4Inode env.inodeOk inodeNr = .ok (found, part') ∧
      ∀ inode, found = some inode → DirBlockFails env part.part info.ext4Sb inode nrBlk

/-- Where it returns NULL, `*read_dirs` is 0 afterwards, `count` being what it was before. -/
def NullLeavesZero (run : DirRun) (count : Nat) : Prop :=
  ∀ result, run.result = .ok result → result.table = none → result.readDirs.getD count = 0

/-! ## The loop -/

section Loop

variable {env : DirEnv} {p : Partition} {blockSizeSect blockSizeByte : Nat}

/-- A block stops the loop with NULL exactly if it cannot be read. -/
theorem dirBlock_null_iff (i : Nat) (st : DirState) (blk' : Blocks) :
    (∃ step st', dirBlock env p blockSizeSect blockSizeByte i st = (step, st', some .null) ∧
      st'.blk = blk') ↔
    ∃ ret, st.blk.getExt2BlkNr env.metaFails i = .ok (ret, blk') ∧ env.readOk i = false := by
  unfold dirBlock
  cases hcall : st.blk.getExt2BlkNr env.metaFails i with
  | error fault => simp
  | ok r =>
    obtain ⟨ret, blk⟩ := r
    simp only [if_neg (Nat.not_lt_zero ret.ret), Partition.readSectorsEx]
    cases hread : env.readOk i with
    | false => simp
    | true =>
      simp only [if_true]
      split <;> simp

theorem dirLoop_null_iff {st₀ : DirState} (blk' : Blocks) : ∀ (k i : Nat) (st : DirState),
    dirBefore env p blockSizeSect blockSizeByte st₀ i = some st →
    ((∃ steps st', dirLoop env p blockSizeSect blockSizeByte k i st = (steps, st', some .null) ∧
      st'.blk = blk') ↔
    ∃ j st₁ ret, i ≤ j ∧ j < i + k ∧ dirBefore env p blockSizeSect blockSizeByte st₀ j = some st₁ ∧
      st₁.blk.getExt2BlkNr env.metaFails j = .ok (ret, blk') ∧ env.readOk j = false)
  | 0, i, st, _ => by
    refine iff_of_false ?_ ?_
    · rintro ⟨steps, st', h, -⟩
      cases h
    · rintro ⟨j, -, -, hlo, hhi, -⟩
      omega
  | k + 1, i, st, hst => by
    have hhere := @dirBlock_null_iff env p blockSizeSect blockSizeByte i st blk'
    have hnext := dirBefore_succ hst
    rw [dirLoop]
    rcases hblock : dirBlock env p blockSizeSect blockSizeByte i st with ⟨step, st₁, stop⟩
    rw [hblock] at hhere hnext
    -- a block behind this one is got to only if this one does not stop the loop
    have hbehind : ∀ j, i < j → dirBefore env p blockSizeSect blockSizeByte st₀ j ≠ none →
        stop = none := by
      intro j hlt hj
      have hreach := dirBefore_mono (show i + 1 ≤ j from hlt) hj
      rw [hnext] at hreach
      cases stop with
      | none => rfl
      | some stop => exact absurd rfl hreach
    cases stop with
    | some stop =>
      constructor
      · rintro ⟨steps, st', hloop, hblk⟩
        cases hloop
        obtain ⟨ret, hcall, hread⟩ := hhere.mp ⟨step, _, rfl, hblk⟩
        exact ⟨i, st, ret, Nat.le_refl i, by omega, hst, hcall, hread⟩
      · rintro ⟨j, st', ret, hlo, hhi, hj, hcall, hread⟩
        rcases Nat.eq_or_lt_of_le hlo with rfl | hlt
        · obtain rfl : st = st' := Option.some.inj (hst.symm.trans hj)
          obtain ⟨step', st', hnull, hblk⟩ := hhere.mpr ⟨ret, hcall, hread⟩
          cases hnull
          exact ⟨_, _, rfl, hblk⟩
        · cases hbehind j hlt (by rw [hj]; exact Option.some_ne_none _)
    | none =>
      have ih := dirLoop_null_iff blk' k (i + 1) st₁ hnext
      constructor
      · rintro ⟨steps, st', hloop, hblk⟩
        obtain ⟨j, st₂, ret, hlo, hhi, hj⟩ := ih.mp ⟨_, st', by
          have hstop := congrArg (fun out => out.2.2) hloop
          have hstate := congrArg (fun out => out.2.1) hloop
          exact Prod.ext rfl (Prod.ext hstate hstop), hblk⟩
        exact ⟨j, st₂, ret, by omega, by omega, hj⟩
      · rintro ⟨j, st', ret, hlo, hhi, hj, hcall, hread⟩
        rcases Nat.eq_or_lt_of_le hlo with rfl | hlt
        · obtain rfl : st = st' := Option.some.inj (hst.symm.trans hj)
          obtain ⟨step', st', hnull, -⟩ := hhere.mpr ⟨ret, hcall, hread⟩
          cases hnull
        · obtain ⟨steps, st₂, hloop, hblk⟩ := ih.mpr ⟨j, st', ret, hlt, by omega, hj, hcall, hread⟩
          simp only [hloop]
          exact ⟨_, st₂, rfl, hblk⟩

end Loop

/-! ## One call -/

theorem dirDestroy_ok {blk : Blocks} {returned : Except Fault DirResult} {result : DirResult} :
    dirDestroy blk returned = .ok result ↔ returned = .ok result ∧ blk.flush = .ok () := by
  unfold dirDestroy
  cases returned with
  | error fault => exact iff_of_false (fun h => by cases h) (fun h => by cases h.1)
  | ok result' =>
    cases blk.flush with
    | error fault => exact iff_of_false (fun h => by cases h) (fun h => by cases h.2)
    | ok u => exact ⟨fun h => ⟨h, rfl⟩, fun h => h.1⟩

/-- Only a read that stops with NULL stores no count. -/
theorem dirResult_uncounted {st : DirState} {stop : Option DirStop}
    {table : Option (List Ext4DirEntry2)}
    (h : dirResult st stop = .ok ⟨table, none⟩) : stop = some .null ∧ table = none := by
  cases stop with
  | none => cases h
  | some stop =>
    cases stop with
    | null =>
      cases h
      exact ⟨rfl, rfl⟩
    | crashed fault => cases h

theorem dirResult_null {st : DirState} {stop : Option DirStop} {num : Option Nat}
    (h : dirResult st stop = .ok ⟨none, num⟩) : num = none ∨ num = some 0 := by
  cases stop with
  | some stop =>
    cases stop with
    | null =>
      cases h
      exact .inl rfl
    | crashed fault => cases h
  | none =>
    simp only [dirResult, Except.ok.injEq, DirResult.mk.injEq] at h
    obtain ⟨htable, rfl⟩ := h
    split at htable
    next hempty =>
      exact .inr (congrArg some (List.length_eq_zero_iff.mpr (List.isEmpty_iff.mp hempty)))
    next => cases htable

theorem readDir_uncounted_iff (env : DirEnv) (p : Partition) (sb : Ext4SuperBlock)
    (inode : Ext4Inode) (nrBlk : Nat) :
    (readDir env p sb inode nrBlk).result = .ok ⟨none, none⟩ ↔
      DirBlockFails env p sb inode nrBlk := by
  unfold readDir
  by_cases hbs : sb.blockSize = 0
  · rw [if_pos hbs]
    exact iff_of_false (fun h => by cases h) fun ⟨_, _, _, _, h, _⟩ => h.1 hbs
  rw [if_neg hbs]
  have hloop := fun blk' => @dirLoop_null_iff env p (sb.blockSize / p.sectorSize % 2 ^ 16)
    sb.blockSize (dirStart p sb inode nrBlk) blk' (nBlocks sb.blockSize inode.size) 0
    (dirStart p sb inode nrBlk) (dirBefore_zero _ _ _ _ _)
  rcases hrun : dirLoop env p (sb.blockSize / p.sectorSize % 2 ^ 16) sb.blockSize
    (nBlocks sb.blockSize inode.size) 0 (dirStart p sb inode nrBlk) with ⟨steps, st, stop⟩
  simp only [hrun] at hloop
  rw [dirDestroy_ok]
  constructor
  · rintro ⟨hresult, hflush⟩
    obtain ⟨rfl, -⟩ := dirResult_uncounted hresult
    obtain ⟨j, st₁, ret, -, hlt, hst, hcall, hread⟩ := (hloop st.blk).mp ⟨steps, st, rfl, rfl⟩
    exact ⟨j, st₁.blk, ret, st.blk, ⟨hbs, by omega, st₁, hst, rfl⟩, hcall, hread, hflush⟩
  · rintro ⟨j, blk, ret, blk', ⟨-, hlt, st₁, hst, rfl⟩, hcall, hread, hflush⟩
    obtain ⟨steps', st', hnull, rfl⟩ :=
      (hloop blk').mpr ⟨j, st₁, ret, Nat.zero_le j, by omega, hst, hcall, hread⟩
    cases hnull
    exact ⟨rfl, hflush⟩

theorem readDir_null {env : DirEnv} {p : Partition} {sb : Ext4SuperBlock} {inode : Ext4Inode}
    {nrBlk : Nat} {num : Option Nat} (h : (readDir env p sb inode nrBlk).result = .ok ⟨none, num⟩) :
    num = none ∨ num = some 0 := by
  unfold readDir at h
  split at h
  next => cases h
  next =>
    split at h
    next steps st stop _ => exact dirResult_null (dirDestroy_ok.mp h).1

/-- **The directory read gives up exactly if there is no inode, or a block fails.** -/
theorem getDirEntry_uncounted_iff (env : DirEnv) (part : PartitionLinuxExt2) (inodeNr nrBlk : Nat) :
    (part.getDirEntry env inodeNr nrBlk).1.result = .ok ⟨none, none⟩ ↔
      part.GivesUp env inodeNr nrBlk := by
  unfold PartitionLinuxExt2.getDirEntry PartitionLinuxExt2.GivesUp
  cases hext2 : part.ext2 with
  | null => exact iff_of_false (fun h => by cases h) fun ⟨_, h, _⟩ => by cases h
  | freed => exact iff_of_false (fun h => by cases h) fun ⟨_, h, _⟩ => by cases h
  | live info =>
    dsimp only
    by_cases hs : part.part.sectorSize = 0
    · rw [if_pos hs]
      exact iff_of_false (fun h => by cases h) fun ⟨_, _, hne, _⟩ => hne hs
    rw [if_neg hs]
    cases hinode : part.getExt4Inode env.inodeOk inodeNr with
    | error fault =>
      exact iff_of_false (fun h => by cases h) fun ⟨_, _, _, _, _, h, _⟩ => by cases h
    | ok r =>
      obtain ⟨found, part'⟩ := r
      cases found with
      | none => exact iff_of_true rfl ⟨info, rfl, hs, none, part', rfl, fun _ h => by cases h⟩
      | some inode =>
        obtain ⟨-, hpart⟩ := PartitionLinuxExt2.getExt4Inode_some hinode
        dsimp only
        rw [readDir_uncounted_iff, hpart]
        constructor
        · intro hfails
          refine ⟨info, rfl, hs, some inode, part', rfl, ?_⟩
          intro inode' h
          cases h
          exact hfails
        · rintro ⟨info', hlive, -, found, part'', hok, hfails⟩
          cases hlive
          cases hok
          exact hfails inode rfl

theorem getDirEntry_null {env : DirEnv} {part : PartitionLinuxExt2} {inodeNr nrBlk : Nat}
    {num : Option Nat} (h : (part.getDirEntry env inodeNr nrBlk).1.result = .ok ⟨none, num⟩) :
    num = none ∨ num = some 0 := by
  unfold PartitionLinuxExt2.getDirEntry at h
  split at h
  next => cases h
  next => cases h
  next =>
    split at h
    next => cases h
    next =>
      split at h
      next => cases h
      next =>
        cases h
        exact .inl rfl
      next => exact readDir_null h

/-- **NULL comes with a count of 0 exactly if the count was 0 or the read does not give up.** -/
theorem nullLeavesZero_iff (env : DirEnv) (part : PartitionLinuxExt2) (inodeNr nrBlk count : Nat) :
    NullLeavesZero (part.getDirEntry env inodeNr nrBlk).1 count ↔
      count = 0 ∨ ¬part.GivesUp env inodeNr nrBlk := by
  rw [← getDirEntry_uncounted_iff]
  constructor
  · intro h
    by_cases hup : (part.getDirEntry env inodeNr nrBlk).1.result = .ok ⟨none, none⟩
    · exact .inl (h _ hup rfl)
    · exact .inr hup
  · rintro hup ⟨table, num⟩ hresult htable
    obtain rfl : table = none := htable
    rcases getDirEntry_null hresult with rfl | rfl
    · exact hup.resolve_right (not_not.mpr hresult)
    · rfl

end Ext4tc.DiskUtils
