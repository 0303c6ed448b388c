import Ext4tc.DiskUtils.PartitionLinuxExt2
import Ext4tc.Fs.Geometry

/-! # Copying a file out

`partition_linux_ext2::read_file`. The environment decides every read and write
and the moment at which `int_flag` is first seen set. A run keeps one step for
each block lookup that returned: the answer, the read it led to, and the write.
The shape theorem reads a run as blocks that went through, followed by one end. -/

namespace Ext4tc.DiskUtils
open Ext4tc.Lib Ext4tc.Fs

/-- `interrupt = some k` when test `k` of `*int_flag` is the first to see it set:
test `i` guards block `i` of the loop, and the test after the loop comes last. -/
structure CopyEnv where
  inodeOk : Bool
  metaFails : Nat → Bool
  readOk : Nat → Bool
  writeOk : Nat → Bool
  interrupt : Option Nat

def CopyEnv.intFlag (env : CopyEnv) (test : Nat) : Bool :=
  match env.interrupt with
  | none => false
  | some k => k ≤ test

/-- One block: what its lookup answered, the address read next with the read's
fate, and the bytes handed to `WriteFile` with the write's fate. -/
structure CopyStep where
  index : Nat
  blkNr : BlkNr
  read : Option (Nat × Bool)
  write : Option (List UInt8 × Bool)

/-- How a call ends: with a value of `*error`, or not at all. -/
inductive Outcome where
  | returned (error : Int)
  | crashed (fault : Fault)
  deriving DecidableEq

structure ReadRun where
  steps : List CopyStep
  outcome : Outcome

/-- What the destination got. A failing `WriteFile` writes nothing. -/
def CopyStep.written (s : CopyStep) : List UInt8 :=
  match s.write with
  | some (bytes, true) => bytes
  | _ => []

def ReadRun.written (run : ReadRun) : List UInt8 := run.steps.flatMap CopyStep.written

/-- The state of a copy: the mapper and the variable `nr_blk`. -/
structure CopyState where
  blk : Blocks
  nrBlk : Nat

/-- Look up, read and write block `i`. The return type of the lookup is unsigned,
so the test of the source for a negative value is never true. -/
def copyBlock (env : CopyEnv) (p : Partition) (blockSizeSect i nWrite : Nat) (st : CopyState) :
    Except Fault (CopyStep × CopyState × Option Outcome) :=
  match st.blk.getExt2BlkNr env.metaFails i with
  | .error fault => .error fault
  | .ok (ret, blk) =>
    let nrBlk := ret.physicalBlkAddr.getD st.nrBlk
    if ret.ret < 0 then .ok (⟨i, ret, none, none⟩, ⟨blk, nrBlk⟩, some (.returned (-1)))
    else
      match p.readSectorsEx (env.readOk i) (blockSizeSect * nrBlk % 2 ^ 64) blockSizeSect with
      | none => .ok (⟨i, ret, some (nrBlk, false), none⟩, ⟨blk, nrBlk⟩, some (.returned (-1)))
      | some buffer =>
        .ok (⟨i, ret, some (nrBlk, true), some (buffer.slice 0 nWrite, env.writeOk i)⟩,
          ⟨blk, nrBlk⟩,
          if env.writeOk i then none else some (.returned (-1)))

/-- The loop over the blocks before the last one, `k` of them from block `i` on. -/
def copyLoop (env : CopyEnv) (p : Partition) (blockSizeSect blockSizeByte : Nat) :
    (k i : Nat) → CopyState → List CopyStep × CopyState × Option Outcome
  | 0, _, st => ([], st, none)
  | k + 1, i, st =>
    if env.intFlag i then ([], st, none)
    else
      match copyBlock env p blockSizeSect i blockSizeByte st with
      | .error fault => ([], st, some (.crashed fault))
      | .ok (step, st, some outcome) => ([step], st, some outcome)
      | .ok (step, st, none) =>
        let (steps, st, outcome) := copyLoop env p blockSizeSect blockSizeByte k (i + 1) st
        (step :: steps, st, outcome)

/-- `n_blocks - 1`. -/
def lastBlock (blockSizeByte size : Nat) : Nat := sub32 (nBlocks blockSizeByte size) 1

/-- `offset_max`: what is left for the last block, cast to 32 bits. -/
def offsetMax (blockSizeByte size : Nat) : Nat :=
  (size + (2 ^ 64 - lastBlock blockSizeByte size * blockSizeByte)) % 2 ^ 64 % 2 ^ 32

/-- What follows the loop: the last test of the flag, and the last block's rest. -/
def copyLast (env : CopyEnv) (p : Partition) (blockSizeSect last nWrite : Nat) :
    List CopyStep × CopyState × Option Outcome → List CopyStep × CopyState × Outcome
  | (steps, st, some outcome) => (steps, st, outcome)
  | (steps, st, none) =>
    if env.intFlag last then (steps, st, .returned (-1))
    else if 0 < nWrite then
      match copyBlock env p blockSizeSect last nWrite st with
      | .error fault => (steps, st, .crashed fault)
      | .ok (step, st, outcome) => (steps ++ [step], st, outcome.getD (.returned 0))
    else (steps, st, .returned 0)

/-- The steps of the whole copy, the final state of the mapper, and the value of
`*error` or the fault. -/
def copySteps (env : CopyEnv) (p : Partition) (sb : Ext4SuperBlock) (inode : Ext4Inode)
    (nrBlk : Nat) :
    List CopyStep × CopyState × Outcome :=
  copyLast env p (sb.blockSize / p.sectorSize % 2 ^ 16) (lastBlock sb.blockSize inode.size)
    (offsetMax sb.blockSize inode.size)
    (copyLoop env p (sb.blockSize / p.sectorSize % 2 ^ 16) sb.blockSize
      (lastBlock sb.blockSize inode.size) 0 ⟨Blocks.new p sb inode, nrBlk⟩)

/-- The destructor of the mapper runs at every return. -/
def destroy (blk : Blocks) : Outcome → Outcome
  | .crashed fault => .crashed fault
  | .returned error =>
    match blk.flush with
    | .error fault => .crashed fault
    | .ok () => .returned error

/-- `read_file` from the construction of `file_blk` on. -/
def copyFile (env : CopyEnv) (p : Partition) (sb : Ext4SuperBlock) (inode : Ext4Inode)
    (nrBlk : Nat) :
    ReadRun :=
  if sb.blockSize = 0 then ⟨[], .crashed .divByZero⟩
  else
    match copySteps env p sb inode nrBlk with
    | (steps, st, outcome) => ⟨steps, destroy st.blk outcome⟩

/-- `read_file`; `nrBlk` is what the variable `nr_blk` holds before it is set. -/
def PartitionLinuxExt2.readFile (env : CopyEnv) (part : PartitionLinuxExt2) (inodeNr : Nat)
    (hndValid : Bool) (nrBlk : Nat) : ReadRun × PartitionLinuxExt2 :=
  match part.ext2 with
  | .null => (⟨[], .crashed .nullDeref⟩, part)
  | .freed => (⟨[], .crashed .useAfterFree⟩, part)
  | .live info =>
    if part.part.sectorSize = 0 then (⟨[], .crashed .divByZero⟩, part)
    else if !hndValid then (⟨[], .returned (-1)⟩, part)
    else
      match part.getExt4Inode env.inodeOk inodeNr with
      | .error fault => (⟨[], .crashed fault⟩, part)
      | .ok (none, part) => (⟨[], .returned (-1)⟩, part)
      | .ok (some inode, part) =>
        if inode.iSizeLo = 0 ∧ inode.iSizeHigh = 0 then (⟨[], .returned 0⟩, part)
        else (copyFile env part.part info.ext4Sb inode nrBlk, part)

end Ext4tc.DiskUtils
