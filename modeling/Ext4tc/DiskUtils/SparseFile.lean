import Ext4tc.DiskUtils.ReadFileRuns
import Ext4tc.Fs.ExtentPath

/-! # Holes

A block of a file may have no initialised data block: a pointer on its indirect
chain is 0, or no initialised extent has it. Nothing between the mapper and
`WriteFile` knows of that. A pointer of 0 is followed like any other, a gap is
counted on from the extent before it, and what is copied for a hole is whatever
the device has at the address that comes out. -/

namespace Ext4tc.DiskUtils
open Ext4tc.Lib Ext4tc.Fs

/-- The pointer `ptr`, and those met on the way down through words `ws`. -/
def pointers (p : Partition) (bs : Nat) : Nat → List Nat → List Nat
  | ptr, [] => [ptr]
  | ptr, w :: ws => ptr :: pointers p bs (p.word bs ptr w) ws

/-- The entry of `i_block` that block `b` hangs from, and the words on the way down
to it, for `a` pointers a block. -/
def indirectChain (a b : Nat) : Option (Nat × List Nat) :=
  if b < 12 then some (b, [])
  else if b - 12 < a then some (12, [b - 12])
  else if b - 12 - a < a ^ 2 then some (13, [(b - 12 - a) / a, (b - 12 - a) % a])
  else if b - 12 - a - a ^ 2 < a ^ 3 then
    some (14, [(b - 12 - a - a ^ 2) / a ^ 2, (b - 12 - a - a ^ 2) / a % a,
      (b - 12 - a - a ^ 2) % a])
  else none

/-- Some pointer on the chain of `b` is 0. -/
def IndirectHole (p : Partition) (bs : Nat) (inode : Ext4Inode) (b : Nat) : Prop :=
  ∃ i ws, indirectChain (bs / 4) b = some (i, ws) ∧ 0 ∈ pointers p bs (inode.iBlock i) ws

/-- Entry `i` of a leaf has an initialised block for `b`. -/
def HasBlock (leaf : Ext4ExtentHeader) (i b : Nat) : Prop :=
  i < leaf.ehEntries ∧ Covers leaf i b ∧ leaf.eeLen i ≤ extInitMaxLen

/-- The leaf that the search for `b` ends in, and the extent that it selects there. -/
def selectedLeaf (p : Partition) (bs : Nat) (inode : Ext4Inode) (b : Nat) : Ext4ExtentHeader :=
  (extentTree p bs actualLen).leaf b (extInodeHdr inode).ehDepth (extInodeHdr inode)

def selectedExtent (p : Partition) (bs : Nat) (inode : Ext4Inode) (b : Nat) : Nat :=
  (extentTree p bs actualLen).pick (selectedLeaf p bs inode b) b

/-- The extent that the search selects, if any, has no initialised block for `b`. -/
def ExtentHole (p : Partition) (bs : Nat) (inode : Ext4Inode) (b : Nat) : Prop :=
  ¬HasBlock (selectedLeaf p bs inode b) (selectedExtent p bs inode b) b

/-- Block `b` has no initialised data block. -/
def Hole (p : Partition) (bs : Nat) (inode : Ext4Inode) (b : Nat) : Prop :=
  if inode.iFlags &&& ext4ExtentsFl = 0 then IndirectHole p bs inode b else ExtentHole p bs inode b

/-- By the inode, block `a` of the device belongs to block `b` of the file: it ends the chain
of pointers of `b`, or it is where the extent that the search selects has `b`. -/
def Belongs (p : Partition) (bs : Nat) (inode : Ext4Inode) (b a : Nat) : Prop :=
  if inode.iFlags &&& ext4ExtentsFl = 0 then
    ∃ i ws, indirectChain (bs / 4) b = some (i, ws) ∧
      0 ∉ pointers p bs (inode.iBlock i) ws ∧ (pointers p bs (inode.iBlock i) ws).getLast? = some a
  else
    let leaf := selectedLeaf p bs inode b
    let i := selectedExtent p bs inode b
    i < leaf.ehEntries ∧ Covers leaf i b ∧
      a = leaf.eeStartHi i * 2 ^ 32 + leaf.eeStartLo i + (b - leaf.eeBlock i)

/-- What is written for a hole is zeros, and no block is handed out for it that is not its own. -/
def HolesAreZeros (p : Partition) (sb : Ext4SuperBlock) (inode : Ext4Inode) (run : ReadRun) :
    Prop :=
  ∀ b, b < fileBlocks sb.blockSize inode.size → Hole p sb.blockSize inode b →
    ∀ s ∈ run.steps, s.index = b → (∀ x ∈ s.written, x = 0) ∧
      ∀ a, s.blkNr.physicalBlkAddr = some a → Belongs p sb.blockSize inode b a

/-- What `nr_blk` holds before the lookup of block `i`: the address that a lookup set last. -/
def nrBlkBefore (fails : Nat → Bool) (blk : Blocks) (nrBlk : Nat) : Nat → Nat
  | 0 => nrBlk
  | i + 1 =>
    match blk.lookup fails i with
    | .error _ => nrBlkBefore fails blk nrBlk i
    | .ok ret => ret.physicalBlkAddr.getD (nrBlkBefore fails blk nrBlk i)

/-- The lookup of block `b` hands out no block, or the one of `b`; and what is read then, if it
is written, is zeros. -/
structure ReadsAsZeros (env : CopyEnv) (p : Partition) (sb : Ext4SuperBlock) (inode : Ext4Inode)
    (nrBlk b : Nat) : Prop where
  own : ∀ ret a, (Blocks.new p sb inode).lookup env.metaFails b = .ok ret →
    ret.physicalBlkAddr = some a → Belongs p sb.blockSize inode b a
  zeros : env.readOk b = true → env.writeOk b = true →
    ∀ x ∈ (copyJob env p sb inode).bytesAt
      (nrBlkBefore env.metaFails (Blocks.new p sb inode) nrBlk (b + 1)) b, x = 0

/-! ## What the hole shapes are -/

theorem not_hasBlock_iff {leaf : Ext4ExtentHeader} {i b : Nat} :
    ¬HasBlock leaf i b ↔ leaf.ehEntries ≤ i ∨ b < leaf.eeBlock i ∨
      leaf.eeBlock i + actualLen leaf i ≤ b ∨ extInitMaxLen < leaf.eeLen i := by
  unfold HasBlock Covers
  omega

theorem lookup_direct_hole {fails : Nat → Bool} {blk : Blocks} {bs b : Nat} (hb : b < 12)
    (hfl : blk.inode.iFlags &&& ext4ExtentsFl = 0) (hole : Hole blk.part bs blk.inode b) :
    blk.getExt2BlkNr fails b = .ok (.at 0, blk) := by
  rw [Hole, if_pos hfl] at hole
  obtain ⟨i, ws, hchain, hzero⟩ := hole
  rw [indirectChain, if_pos hb] at hchain
  cases hchain
  rw [Blocks.getExt2BlkNr_direct hfl hb, ← List.mem_singleton.mp hzero]

/-- A leaf with entries answers every block, in a hole or not: the one counted on
from the start of the selected extent. -/
theorem extentAnswer_selected {p : Partition} {bs : Nat} {inode : Ext4Inode} {b : Nat}
    (hne : (selectedLeaf p bs inode b).ehEntries ≠ 0) :
    extentAnswer p bs inode b =
      .at ((Blocks.startAddr (selectedLeaf p bs inode b) (selectedExtent p bs inode b) + b +
        (2 ^ 64 - (selectedLeaf p bs inode b).eeBlock
          (selectedExtent p bs inode b))) % 2 ^ 64) := by
  have hsearch : Blocks.ext4ExtBinsearch (selectedLeaf p bs inode b) b =
      some (selectedExtent p bs inode b) := by
    rw [Blocks.ext4ExtBinsearch, if_neg hne]
    rfl
  rw [extentAnswer, ← selectedLeaf, leafAnswer, hsearch]

/-- A hole has a block of its own only in an unwritten extent. -/
theorem Hole.unwritten {p : Partition} {bs : Nat} {inode : Ext4Inode} {b a : Nat}
    (hole : Hole p bs inode b) (h : Belongs p bs inode b a) :
    inode.iFlags &&& ext4ExtentsFl ≠ 0 ∧ Covers (selectedLeaf p bs inode b)
      (selectedExtent p bs inode b) b ∧
      extInitMaxLen < (selectedLeaf p bs inode b).eeLen (selectedExtent p bs inode b) := by
  by_cases hfl : inode.iFlags &&& ext4ExtentsFl = 0
  · rw [Hole, if_pos hfl] at hole
    rw [Belongs, if_pos hfl] at h
    obtain ⟨i, ws, hchain, hzero⟩ := hole
    obtain ⟨i', ws', hchain', hnonzero, -⟩ := h
    cases hchain.symm.trans hchain'
    exact absurd hzero hnonzero
  · rw [Hole, if_neg hfl, ExtentHole, not_hasBlock_iff] at hole
    rw [Belongs, if_neg hfl] at h
    obtain ⟨hlt, hcovers, -⟩ := h
    refine ⟨hfl, hcovers, ?_⟩
    unfold Covers at hcovers
    omega

/-! ## The variable `nr_blk` -/

section NrBlk

variable {job : CopyJob} {nrBlk : Nat}

/-- A block is read where `nr_blk` says once it is looked up. -/
theorem copyBlock_read {n i nWrite : Nat} {st st' : CopyState} {s : CopyStep} {o : Option Outcome}
    (hb : job.blk.before job.env.metaFails i = .ok st.blk)
    (hn : st.nrBlk = nrBlkBefore job.env.metaFails job.blk nrBlk i)
    (h : copyBlock job.env job.part n i nWrite st = .ok (s, st', o)) :
    s.read = some (nrBlkBefore job.env.metaFails job.blk nrBlk (i + 1), job.env.readOk i) ∧
      s.index = i ∧ st'.nrBlk = nrBlkBefore job.env.metaFails job.blk nrBlk (i + 1) ∧
      job.blk.before job.env.metaFails (i + 1) = .ok st'.blk := by
  have hlook := CopyJob.lookup_of_before hb
  rw [CopyJob.lookup] at hlook
  unfold copyBlock at h
  cases hcall : st.blk.getExt2BlkNr job.env.metaFails i with
  | error fault =>
    rw [hcall] at h
    cases h
  | ok r =>
    obtain ⟨ret, blk⟩ := r
    rw [hcall] at h hlook
    have hnext : nrBlkBefore job.env.metaFails job.blk nrBlk (i + 1) =
        ret.physicalBlkAddr.getD st.nrBlk := by
      rw [nrBlkBefore, hlook, hn]
      rfl
    have hbefore : job.blk.before job.env.metaFails (i + 1) = .ok blk := by
      rw [Blocks.before, hb]
      simp only [hcall, Except.map]
    simp only [if_neg (Nat.not_lt_zero ret.ret), Partition.readSectorsEx] at h
    rw [hnext]
    cases hread : job.env.readOk i with
    | false =>
      simp only [hread, Bool.false_eq_true, if_false] at h
      cases h
      exact ⟨rfl, rfl, rfl, hbefore⟩
    | true =>
      simp only [hread, if_true] at h
      cases h
      exact ⟨rfl, rfl, rfl, hbefore⟩

/-- So is every block of the loop; and where it ends without an outcome, it is at its end or the
flag is set. -/
theorem copyLoop_read {n blockSizeByte k i : Nat} {st st' : CopyState} {steps : List CopyStep}
    {o : Option Outcome} (hb : job.blk.before job.env.metaFails i = .ok st.blk)
    (hn : st.nrBlk = nrBlkBefore job.env.metaFails job.blk nrBlk i)
    (h : copyLoop job.env job.part n blockSizeByte k i st = (steps, st', o)) :
    (∀ s ∈ steps, ∃ ok,
        s.read = some (nrBlkBefore job.env.metaFails job.blk nrBlk (s.index + 1), ok)) ∧
      (o = none → job.env.intFlag (i + k) = false →
        job.blk.before job.env.metaFails (i + k) = .ok st'.blk ∧
          st'.nrBlk = nrBlkBefore job.env.metaFails job.blk nrBlk (i + k)) := by
  induction k generalizing i st steps st' o with
  | zero =>
    cases h
    exact ⟨fun _ hs => absurd hs List.not_mem_nil, fun _ _ => ⟨hb, hn⟩⟩
  | succ k ih =>
    rw [copyLoop] at h
    split at h
    next hflag =>
      cases h
      refine ⟨fun _ hs => absurd hs List.not_mem_nil, fun _ hunset => ?_⟩
      have hset := CopyEnv.intFlag_mono (Nat.le_add_right i (k + 1)) hflag
      exact absurd (hunset.symm.trans hset) Bool.false_ne_true
    next =>
      split at h
      next =>
        cases h
        exact ⟨fun _ hs => absurd hs List.not_mem_nil, fun ho => absurd ho (Option.some_ne_none _)⟩
      next s st₁ outcome hcall =>
        cases h
        obtain ⟨hread, hi, -⟩ := copyBlock_read hb hn hcall
        refine ⟨fun s' hs' => ?_, fun ho => absurd ho (Option.some_ne_none _)⟩
        rw [List.mem_singleton.mp hs', hi]
        exact ⟨_, hread⟩
      next s st₁ hcall =>
        obtain ⟨hread, hi, hn₁, hb₁⟩ := copyBlock_read hb hn hcall
        rcases hrest : copyLoop job.env job.part n blockSizeByte k (i + 1) st₁ with
          ⟨steps', st₂, o'⟩
        rw [hrest] at h
        cases h
        obtain ⟨hreads, hend⟩ := ih hb₁ hn₁ hrest
        refine ⟨fun s' hs' => ?_, ?_⟩
        · rcases List.mem_cons.mp hs' with rfl | hs'
          · exact ⟨_, hi ▸ hread⟩
          · exact hreads s' hs'
        · rw [Nat.add_right_comm] at hend
          exact hend

end NrBlk

theorem copySteps_read (env : CopyEnv) (p : Partition) (sb : Ext4SuperBlock) (inode : Ext4Inode)
    (nrBlk : Nat) : ∀ s ∈ (copySteps env p sb inode nrBlk).1, ∃ ok, s.read =
      some (nrBlkBefore env.metaFails (Blocks.new p sb inode) nrBlk (s.index + 1), ok) := by
  have hstart : (copyJob env p sb inode).blk.before env.metaFails 0 =
    .ok (Blocks.new p sb inode) := rfl
  rcases hloop : copyLoop env p (sb.blockSize / p.sectorSize % 2 ^ 16) sb.blockSize
    (lastBlock sb.blockSize inode.size) 0 ⟨Blocks.new p sb inode, nrBlk⟩ with ⟨steps, st, o⟩
  have hjob : copyLoop (copyJob env p sb inode).env (copyJob env p sb inode).part
    (sb.blockSize / p.sectorSize % 2 ^ 16) sb.blockSize (lastBlock sb.blockSize inode.size) 0
    ⟨Blocks.new p sb inode, nrBlk⟩ = (steps, st, o) := hloop
  obtain ⟨hreads, hend⟩ := copyLoop_read hstart rfl hjob
  rw [Nat.zero_add] at hend
  rw [copySteps, hloop]
  cases o with
  | some o => exact hreads
  | none =>
    rw [copyLast]
    split
    next => exact hreads
    next hflag =>
      split
      next =>
        split
        next => exact hreads
        next s st' o' hcall =>
          obtain ⟨hb, hn⟩ := hend rfl (Bool.eq_false_iff.mpr hflag)
          obtain ⟨hread, hi, -⟩ := copyBlock_read hb hn hcall
          intro s' hs'
          rcases List.mem_append.mp hs' with hs' | hs'
          · exact hreads s' hs'
          · rw [List.mem_singleton.mp hs', hi]
            exact ⟨_, hread⟩
      next => exact hreads

theorem readFile_written {env : CopyEnv} {part : PartitionLinuxExt2} {inodeNr : Nat}
    {sb : Ext4SuperBlock} {inode : Ext4Inode} (h : part.Loaded env.inodeOk inodeNr sb inode)
    (nrBlk : Nat) {s : CopyStep} (hs : s ∈ (part.readFile env inodeNr true nrBlk).1.steps) :
    s.written = if env.readOk s.index = true ∧ env.writeOk s.index = true then
      (copyJob env part.part sb inode).bytesAt
        (nrBlkBefore env.metaFails (Blocks.new part.part sb inode) nrBlk (s.index + 1)) s.index
      else [] := by
  have hstep := (readFile_steps h nrBlk).1 s hs
  obtain ⟨a, -, hread, hwrite⟩ := hstep.io
  rw [readFile_of_loaded env h] at hs
  split at hs
  next => cases hs
  next =>
    rw [copyFile] at hs
    split at hs
    next => cases hs
    next =>
      have hreads := copySteps_read env part.part sb inode nrBlk
      rcases hrun : copySteps env part.part sb inode nrBlk with ⟨steps, st, o⟩
      rw [hrun] at hs hreads
      obtain ⟨ok, hat⟩ := hreads s hs
      obtain rfl := (Prod.mk.inj (Option.some.inj (hread.symm.trans hat))).1
      rw [show (copyJob env part.part sb inode).env = env from rfl] at hwrite
      rw [CopyStep.written, hwrite]
      cases env.readOk s.index with
      | false => rfl
      | true =>
        cases env.writeOk s.index with
        | false => rfl
        | true => rfl

theorem image_block_no_hole : ¬Hole image imageSb.blockSize (imageInode 12) 0 := by
  rw [Hole, if_neg (by decide), ExtentHole, not_not]
  unfold HasBlock Covers
  decide +kernel

end Ext4tc.DiskUtils
