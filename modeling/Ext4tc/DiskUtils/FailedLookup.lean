import Ext4tc.DiskUtils.DirEntry
import Ext4tc.DiskUtils.ReadFileRuns

/-! # Failed lookups

A lookup that fails returns -1 out of an unsigned function, and its callers ask
whether the value is negative. So every lookup that returns is followed by a read,
of whatever address `nr_blk` holds, and no failure ever stops a call. -/

namespace Ext4tc.DiskUtils
open Ext4tc.Lib Ext4tc.Fs

/-- `-1`, as the unsigned value that arrives. -/
def IsFailure (r : BlkNr) : Prop := r.ret = 2 ^ 32 - 1

instance (r : BlkNr) : Decidable (IsFailure r) := inferInstanceAs (Decidable (r.ret = 2 ^ 32 - 1))

/-- A failed lookup is the end of a copy: no read, no write, and an error. -/
def StopsAtFailure (run : ReadRun) : Prop :=
  ∀ before s after, run.steps = before ++ s :: after → IsFailure s.blkNr →
    s.read = none ∧ s.write = none ∧ after = [] ∧ run.outcome = .returned (-1)

/-- A failed lookup is the end of a directory read: no read, and NULL. -/
def DirStopsAtFailure (run : DirRun) : Prop :=
  ∀ before s after, run.steps = before ++ s :: after → IsFailure s.blkNr →
    s.read = none ∧ after = [] ∧ ∃ readDirs, run.result = .ok ⟨none, readDirs⟩

/-- `read_file` stops at a failed lookup only if it meets none: no block that it
reaches fails to be looked up. -/
theorem stopsAtFailure_iff (env : CopyEnv) {part : PartitionLinuxExt2} {inodeNr : Nat}
    {sb : Ext4SuperBlock} {inode : Ext4Inode} (h : part.Loaded env.inodeOk inodeNr sb inode)
    (nrBlk : Nat) :
    StopsAtFailure (part.readFile env inodeNr true nrBlk).1 ↔
      ∀ i ret, ReachesBlock env part.part sb inode i →
        (Blocks.new part.part sb inode).lookup env.metaFails i = .ok ret → ¬IsFailure ret := by
  obtain ⟨hstep, hmem⟩ := readFile_steps h nrBlk
  constructor
  · intro hstop i ret hreach hlook hfail
    obtain ⟨s, hs, rfl⟩ := (hmem i).mpr hreach
    have hsame : s.blkNr = ret := Except.ok.inj ((hstep s hs).lookup.symm.trans hlook)
    obtain ⟨a, -, hread, -⟩ := (hstep s hs).io
    obtain ⟨before, after, hsteps⟩ := List.append_of_mem hs
    obtain ⟨hnone, -⟩ := hstop before s after hsteps (hsame ▸ hfail)
    rw [hread] at hnone
    cases hnone
  · intro hgood before s after hsteps hfail
    have hs : s ∈ (part.readFile env inodeNr true nrBlk).1.steps := by
      rw [hsteps]
      exact List.mem_append_right _ List.mem_cons_self
    exact absurd hfail (hgood s.index s.blkNr ((hmem s.index).mp ⟨s, hs, rfl⟩) (hstep s hs).lookup)

theorem dirStopsAtFailure_iff (env : DirEnv) {part : PartitionLinuxExt2} {inodeNr : Nat}
    {sb : Ext4SuperBlock} {inode : Ext4Inode} (h : part.Loaded env.inodeOk inodeNr sb inode)
    (nrBlk : Nat) :
    DirStopsAtFailure (part.getDirEntry env inodeNr nrBlk).1 ↔
      ∀ i ret blk blk', ReachesDirBlock env part.part sb inode nrBlk i blk →
        blk.getExt2BlkNr env.metaFails i = .ok (ret, blk') → ¬IsFailure ret := by
  obtain ⟨hread, hmem⟩ := getDirEntry_steps h nrBlk
  constructor
  · intro hstop i ret blk blk' hreach hcall hfail
    obtain ⟨s, hs, rfl, rfl⟩ := (hmem i ret).mpr ⟨blk, blk', hreach, hcall⟩
    obtain ⟨before, after, hsteps⟩ := List.append_of_mem hs
    obtain ⟨hnone, -⟩ := hstop before s after hsteps hfail
    exact hread s hs hnone
  · intro hgood before s after hsteps hfail
    have hs : s ∈ (part.getDirEntry env inodeNr nrBlk).1.steps := by
      rw [hsteps]
      exact List.mem_append_right _ List.mem_cons_self
    obtain ⟨blk, blk', hreach, hcall⟩ := (hmem s.index s.blkNr).mp ⟨s, hs, rfl, rfl⟩
    exact absurd hfail (hgood s.index s.blkNr blk blk' hreach hcall)

/-- Neither caller stops at a failed lookup: each does what it should exactly when
no block it gets to fails to be looked up. -/
theorem failed_lookup_stops_iff (env : CopyEnv) (denv : DirEnv) {part : PartitionLinuxExt2}
    {inodeNr : Nat} {sb : Ext4SuperBlock} {inode : Ext4Inode}
    (h : part.Loaded env.inodeOk inodeNr sb inode) (hd : part.Loaded denv.inodeOk inodeNr sb inode)
    (nrBlk : Nat) :
    (StopsAtFailure (part.readFile env inodeNr true nrBlk).1 ↔
      ∀ i ret, ReachesBlock env part.part sb inode i →
        (Blocks.new part.part sb inode).lookup env.metaFails i = .ok ret → ¬IsFailure ret) ∧
    (DirStopsAtFailure (part.getDirEntry denv inodeNr nrBlk).1 ↔
      ∀ i ret blk blk', ReachesDirBlock denv part.part sb inode nrBlk i blk →
        blk.getExt2BlkNr denv.metaFails i = .ok (ret, blk') → ¬IsFailure ret) :=
  ⟨stopsAtFailure_iff env h nrBlk, dirStopsAtFailure_iff denv hd nrBlk⟩

def quietDirEnv : DirEnv := ⟨true, fun _ => false, fun _ => true, fun _ _ => 0, 10⟩

theorem image_stops_at_failure :
    ∃ m, (PartitionLinuxExt2.new image).getExt2Sb true true = .ok (true, m) ∧
      StopsAtFailure (m.readFile quietEnv 12 true 0).1 ∧
      DirStopsAtFailure (m.getDirEntry quietDirEnv 12 0).1 := by
  obtain ⟨m, hm, hpart, hl, -⟩ := image_loaded
  have hlook : (Blocks.new image imageSb (imageInode 12)).lookup quietEnv.metaFails 0 =
    .ok (.at 6) := by
    decide +kernel
  obtain ⟨hfile, hdir⟩ := failed_lookup_stops_iff quietEnv quietDirEnv hl hl 0
  rw [hpart] at hfile hdir
  refine ⟨m, hm, hfile.mpr ?_, hdir.mpr ?_⟩
  · intro i ret hreach hret hfail
    have htotal : totalBlocks imageSb.blockSize (imageInode 12).size = 1 := by decide
    obtain rfl : i = 0 := by
      have := hreach.reached.lt
      omega
    cases hlook.symm.trans hret
    exact absurd hfail (by decide)
  · rintro i ret blk blk' ⟨-, hi, st, hst, rfl⟩ hcall hfail
    have hblocks : nBlocks imageSb.blockSize (imageInode 12).size = 1 := by decide
    obtain rfl : i = 0 := by omega
    cases hst
    obtain ⟨b₁, b₂, hb₁, hcall', -⟩ := Blocks.lookup_ok hlook
    cases hb₁
    cases hcall.symm.trans hcall'
    exact absurd hfail (by decide)

/-- The extent root has no entry, so the lookup fails. Both callers read block 5,
which `nr_blk` happens to hold. -/
theorem failed_lookup_read_on :
    ∃ m, (PartitionLinuxExt2.new image).getExt2Sb true true = .ok (true, m) ∧
      m.Loaded true 13 imageSb (imageInode 13) ∧
      ¬StopsAtFailure (m.readFile quietEnv 13 true 5).1 ∧
      ¬DirStopsAtFailure (m.getDirEntry quietDirEnv 13 5).1 := by
  obtain ⟨m, hm, hpart, -, hl, -⟩ := image_loaded
  have hlook : (Blocks.new image imageSb (imageInode 13)).lookup quietEnv.metaFails 0 =
    .ok .failed := by
    decide +kernel
  rw [← hpart] at hlook
  refine ⟨m, hm, hl, ?_, ?_⟩
  · intro hstop
    have hreach : ReachesBlock quietEnv m.part imageSb (imageInode 13) 0 :=
      reachesBlock_zero (by decide) (by decide) (by decide) rfl hlook
    exact (stopsAtFailure_iff quietEnv hl 5).mp hstop 0 .failed hreach hlook (by decide)
  · intro hstop
    obtain ⟨blk, blk', hblk, hcall, -⟩ := Blocks.lookup_ok hlook
    obtain rfl := Except.ok.inj ((Blocks.before_zero _ _).symm.trans hblk)
    have hreach : ReachesDirBlock quietDirEnv m.part imageSb (imageInode 13) 5 0
        (Blocks.new m.part imageSb (imageInode 13)) := ⟨by decide, by decide, _, rfl, rfl⟩
    exact (dirStopsAtFailure_iff quietDirEnv hl 5).mp hstop 0 .failed _ blk' hreach hcall
      (by decide)

end Ext4tc.DiskUtils
