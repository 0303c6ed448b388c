import Ext4tc.Plugin.CopyThread

/-! # `read_file` as the copy thread

The thread of the poll protocol leaves lookups, reads and writes open. Every call
of `read_file` is one of its runs: the flag is raised, if at all, just before the
test that first sees it, and the call ends where the run ends. -/

namespace Ext4tc.Plugin
open Ext4tc.Lib Ext4tc.Fs Ext4tc.DiskUtils

/-- The thread, and a flag that is raised from outside. -/
inductive FlaggedStep (bs size : Nat) : Shared × ThreadPc → Shared × ThreadPc → Prop
  | thread {sh sh' t t'} (h : ThreadStep bs size sh t sh' t') : FlaggedStep bs size (sh, t)
      (sh', t')
  | raise {sh t} : FlaggedStep bs size (sh, t) ({ sh with intFlag := true }, t)

def copyThread (bs size : Nat) : TransitionSystem (Shared × ThreadPc) where
  start s := s = (copyStart, .start)
  step := FlaggedStep bs size

def afterBytes (n : Nat) : Shared := ⟨n, true, 0, false⟩

section Run

variable {bs size : Nat} {sh sh' : Shared} {t t' : ThreadPc}

theorem run_thread (h : ThreadStep bs size sh t sh' t') :
    (copyThread bs size).Run (sh, t) (sh', t') :=
  .single (.thread h)

/-- A test that does not see the flag leads to its block. -/
theorem run_to_lookup {i : Nat} (hi : i ≤ lastBlock bs size) (hoff : 0 < offsetMax bs size)
    (hflag : sh.intFlag = false) : (copyThread bs size).Run (sh, .test i) (sh, .lookup i) := by
  by_cases hlt : i < lastBlock bs size
  · exact run_thread (.enter hlt hflag)
  · have hlast : lastBlock bs size = i := Nat.le_antisymm (Nat.not_lt.mp hlt) hi
    have hlookup : ThreadStep bs size sh .lastTest sh (.lookup i) := hlast ▸ .enterLast hflag hoff
    exact (run_thread (.leave (.inl (Nat.le_of_eq hlast)))).trans (run_thread hlookup)

theorem run_interrupted {i : Nat} : (copyThread bs size).Run (sh, .test i)
    ({ sh with error := -1, intFlag := true }, .destroy) := by
  have hraised : (copyThread bs size).Run (sh, .test i) ({ sh with intFlag := true }, .test i) :=
    .single .raise
  exact hraised.trans ((run_thread (.leave (.inr rfl))).trans
    ((run_thread (.interrupted rfl)).trans (run_thread .setError)))

theorem run_failed {i : Nat} :
    (copyThread bs size).Run (sh, .lookup i) ({ sh with error := -1 }, .destroy) :=
  (run_thread .lookup).trans ((run_thread .readFails).trans (run_thread .setError))

end Run

section Copy

variable {env : CopyEnv} {p : Partition} {sb : Ext4SuperBlock} {inode : Ext4Inode}

/-- Blocks that go through take the thread from test to test. -/
theorem run_row (hoff : 0 < offsetMax sb.blockSize inode.size) {m : Nat} {row : List CopyStep}
    (hrow : (copyJob env p sb inode).Row 0 m row) (hm : m ≤ lastBlock sb.blockSize inode.size) :
    (copyThread sb.blockSize inode.size).Run (afterBytes 0, .test 0)
      (afterBytes (row.flatMap CopyStep.written).length, .test m) := by
  induction m generalizing row with
  | zero =>
    obtain rfl : row = [] := List.map_eq_nil_iff.mp hrow.index
    exact .refl
  | succ m ih =>
    obtain ⟨row', s, rfl, hrow', hs, rfl, hp⟩ := hrow.unsnoc
    have hlen : ((row' ++ [s]).flatMap CopyStep.written).length =
        (row'.flatMap CopyStep.written).length + sb.blockSize := by
      rw [List.flatMap_append, List.flatMap_singleton, List.length_append, hs.written_length hp,
        copyJob_nWrite hm]
    rw [hlen]
    exact (ih hrow' (Nat.le_of_lt hm)).trans ((run_to_lookup (Nat.le_of_lt hm) hoff rfl).trans
      ((run_thread .lookup).trans ((run_thread .read).trans (run_thread (.write hm)))))

def EndsAt (bs size n : Nat) : Outcome → Prop
  | .returned error =>
    ∃ flag, (copyThread bs size).Run (afterBytes 0, .test 0) (⟨n, true, error, flag⟩, .destroy)
  | .crashed _ => ∃ sh, (copyThread bs size).Run (afterBytes 0, .test 0) (sh, .crashed) ∧
      sh.destSize = n

/-- **A copy is a run of the thread** from its first test on. -/
theorem run_copy (hoff : 0 < offsetMax sb.blockSize inode.size) {m : Nat} {row tail : List CopyStep}
    {o : Outcome} (hrow : (copyJob env p sb inode).Row 0 m row)
    (hend : (copyJob env p sb inode).CopyEnd (lastBlock sb.blockSize inode.size)
      (totalBlocks sb.blockSize inode.size) m tail o) :
    EndsAt sb.blockSize inode.size ((row ++ tail).flatMap CopyStep.written).length o := by
  have htotal : totalBlocks sb.blockSize inode.size = lastBlock sb.blockSize inode.size + 1 := by
    rw [totalBlocks, if_pos hoff]
  rw [htotal] at hend
  rw [List.flatMap_append]
  cases hend with
  | done hm _ =>
    subst hm
    obtain ⟨row', s, rfl, hrow', hs, hindex, hp⟩ := hrow.unsnoc
    have hlast : s.written.length = offsetMax sb.blockSize inode.size :=
      (hs.written_length (hindex.symm ▸ hp)).trans
        ((congrArg _ hindex).trans (copyJob_nWrite_last env p sb inode))
    rw [List.flatMap_nil, List.append_nil, List.flatMap_append, List.flatMap_singleton,
      List.length_append, hlast]
    exact ⟨false, (run_row hoff hrow' (Nat.le_refl _)).trans
      ((run_to_lookup (Nat.le_refl _) hoff rfl).trans
      ((run_thread .lookup).trans ((run_thread .read).trans
        (run_thread (.writeLast (Nat.le_refl _))))))⟩
  | interrupted hm _ =>
    rw [List.flatMap_nil, List.append_nil]
    exact ⟨true, (run_row hoff hrow hm).trans run_interrupted⟩
  | crashed hm _ _ =>
    rw [List.flatMap_nil, List.append_nil]
    exact ⟨_, (run_row hoff hrow (Nat.le_of_lt_succ hm)).trans
      ((run_to_lookup (Nat.le_of_lt_succ hm) hoff rfl).trans (run_thread .lookupCrashes)), rfl⟩
  | failed hm hs hj hio =>
    rw [List.flatMap_singleton, hs.written_of_failed (by rw [hj]; exact hio), List.append_nil]
    exact ⟨false, (run_row hoff hrow (Nat.le_of_lt_succ hm)).trans
      ((run_to_lookup (Nat.le_of_lt_succ hm) hoff rfl).trans run_failed)⟩

end Copy

/-- How a run of the thread shows what a call wrote and how it ended. -/
def Shows (run : ReadRun) (sh : Shared) (t : ThreadPc) : Prop :=
  sh.destSize = run.written.length ∧
    match run.outcome with
    | .returned error => t = .finished ∧ sh.error = error
    | .crashed _ => t = .crashed

/-- **Every call of `read_file` is a run of the copy thread.** -/
theorem readFile_run (env : CopyEnv) {part : PartitionLinuxExt2} {inodeNr : Nat}
    {sb : Ext4SuperBlock} {inode : Ext4Inode} (h : part.Loaded env.inodeOk inodeNr sb inode)
    (hsize : inode.size ≤ 2 ^ 32 * sb.blockSize) (nrBlk : Nat) :
    ∃ sh t, (copyThread sb.blockSize inode.size).Run (copyStart, .start) (sh, t) ∧
      Shows (part.readFile env inodeNr true nrBlk).1 sh t := by
  have hclear : (copyThread sb.blockSize inode.size).Run (copyStart, .start)
    (afterBytes 0, .openInode) :=
    run_thread .clearError
  rw [readFile_of_loaded env h]
  by_cases hne : inode.size = 0
  · rw [if_pos hne]
    exact ⟨_, _, hclear.trans (run_thread (.empty hne)), rfl, rfl, rfl⟩
  · have hbs : sb.blockSize ≠ 0 := by
      intro hbs
      rw [hbs] at hsize
      omega
    obtain ⟨-, hoff⟩ := lastBlock_ends hsize sb.blockSize_le hne
    obtain ⟨m, row, tail, st, o, hrun, hrow, hend, -⟩ := copySteps_spec env part.part sb inode nrBlk
    have hends := run_copy hoff hrow hend
    have hopen := hclear.trans (run_thread (.nonempty hne hbs))
    rw [if_neg hne, copyFile, if_neg hbs, hrun]
    cases o with
    | crashed fault =>
      obtain ⟨sh, hcopy, hdest⟩ := hends
      exact ⟨sh, _, hopen.trans hcopy, hdest, rfl⟩
    | returned error =>
      obtain ⟨flag, hcopy⟩ := hends
      unfold Shows
      simp only [destroy]
      cases st.blk.flush with
      | error fault => exact ⟨_, _, hopen.trans (hcopy.trans (run_thread .destroyCrashes)), rfl,
          rfl⟩
      | ok _ => exact ⟨_, _, hopen.trans (hcopy.trans (run_thread .destroy)), rfl, rfl, rfl⟩

end Ext4tc.Plugin
