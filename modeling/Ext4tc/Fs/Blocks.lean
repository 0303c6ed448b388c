import Ext4tc.Fs.Ext4
import Ext4tc.Lib.RightmostSearch

/-! # The block mapper

The class `blocks`: one object maps the logical blocks of one inode, in two
schemes. Indirect mapping keeps two cursors with lazily loaded buffers; extent
mapping keeps the path of the last lookup. `reads` counts the object's own
sector reads, and `fails` says which of them come back NULL. -/

namespace Ext4tc.Fs
open Ext4tc.Lib Ext4tc.DiskUtils

/-- One level of a lookup. `pIdx` and `pExt` are positions in the node at `pHdr`. -/
structure Ext4ExtPath where
  pBlock : Nat := 0
  pDepth : Nat := 0
  pExt : Option Nat := none
  pIdx : Option Nat := none
  pHdr : Option Ext4ExtentHeader := none

structure Blocks where
  part : Partition
  inode : Ext4Inode
  extentPath : Option (List Ext4ExtPath)
  blockSizeSect : Nat
  blockSizeByte : Nat
  addrBlkPerBlock : Nat
  dindNBlk : Nat
  nBlock : Nat
  buffer : Option Buffer
  dindirectBuf : Option Buffer
  indIndex : Nat
  dindIndex : Nat
  reads : Nat

/-- What `get_ext2_blk_nr` returns, as the unsigned int it is, and what it
stored through `physical_blk_addr`, if it stored anything. -/
structure BlkNr where
  ret : Nat
  physicalBlkAddr : Option Nat
  deriving DecidableEq, Repr

/-- `return -1` out of a function that returns unsigned int. -/
def BlkNr.failed : BlkNr := ⟨2 ^ 32 - 1, none⟩

def BlkNr.at (blk : Nat) : BlkNr := ⟨0, some blk⟩

namespace Blocks

/-- The constructor. The block count is computed from the low size word alone. -/
def new (p : Partition) (sb : Ext4SuperBlock) (inode : Ext4Inode) : Blocks where
  part := p
  inode := inode
  extentPath := none
  blockSizeSect := sb.blockSize / 2 ^ 9 % 2 ^ 16
  blockSizeByte := sb.blockSize
  addrBlkPerBlock := sb.addrPerBlock
  dindNBlk := sb.addrPerBlock * sb.addrPerBlock % 2 ^ 32
  nBlock := sub32 ((inode.iSizeLo + sb.blockSize) % 2 ^ 32) 1 / sb.blockSize
  buffer := none
  dindirectBuf := none
  indIndex := 0
  dindIndex := 0
  reads := 0

/-- `part->read_sectors_ex` of the file system block `blk`. -/
def readBlock (fails : Nat → Bool) (b : Blocks) (blk : Nat) : Option Buffer :=
  b.part.readSectorsEx (!fails b.reads) (b.blockSizeSect * blk % 2 ^ 64) b.blockSizeSect

/-! ## Indirect mapping -/

def indirectBlkNr (fails : Nat → Bool) (b : Blocks) (indBlkNr : Nat) :
    Except Fault (Nat × Blocks) :=
  match b.buffer with
  | none =>
    match b.readBlock fails indBlkNr with
    | none => .error .nullDeref
    | some buffer =>
      let nrBlk := buffer.u32 (4 * b.indIndex)
      let b := { b with reads := b.reads + 1 }
      -- the post-incremented cursor is compared before the increment
      if b.indIndex = sub32 b.nBlock 1 then
        .ok (nrBlk, { b with buffer := none, indIndex := 0 })
      else
        .ok (nrBlk, { b with buffer := some buffer, indIndex := (b.indIndex + 1) % 2 ^ 32 })
  | some buffer =>
    let nrBlk := buffer.u32 (4 * b.indIndex)
    let indIndex := (b.indIndex + 1) % 2 ^ 32
    if indIndex = b.addrBlkPerBlock ∨ indIndex = b.nBlock then
      .ok (nrBlk, { b with buffer := none, indIndex := 0 })
    else
      .ok (nrBlk, { b with indIndex := indIndex })

/-- What a double indirect call that found the buffer loaded does last: the
cursor moves one call before the indirect block is exhausted, and the buffer goes
with the last block of the range or of the file. -/
def dindNext (b : Blocks) (blkIndex : Nat) : Blocks :=
  let b := if b.indIndex = sub32 b.addrBlkPerBlock 1 then
      { b with dindIndex := (b.dindIndex + 1) % 2 ^ 32 } else b
  if blkIndex = sub32 ((b.dindNBlk + b.addrBlkPerBlock + ext4IndBlock) % 2 ^ 32) 1 ∨
      blkIndex = sub32 b.nBlock 1 then
    { b with dindirectBuf := none, dindIndex := 0 }
  else b

/-- The double indirect branch of `get_ext2_non_extent_blk`. -/
def doubleIndirectBlkNr (fails : Nat → Bool) (b : Blocks) (blkIndex : Nat) :
    Except Fault (BlkNr × Blocks) :=
  match b.dindirectBuf with
  | none =>
    match b.readBlock fails (b.inode.iBlock ext4DindBlock) with
    | none => .ok (.failed, { b with reads := b.reads + 1 })
    | some dindirectBuf =>
      match indirectBlkNr fails { b with dindirectBuf := some dindirectBuf, reads := b.reads + 1 }
          (dindirectBuf.u32 0) with
      | .error e => .error e
      | .ok (nrBlk, b) =>
        if blkIndex = sub32 b.nBlock 1 then
          .ok (.at nrBlk, { b with dindirectBuf := none, dindIndex := 0 })
        else .ok (.at nrBlk, b)
  | some dindirectBuf =>
    match indirectBlkNr fails b (dindirectBuf.u32 (4 * b.dindIndex)) with
    | .error e => .error e
    | .ok (nrBlk, b) => .ok (.at nrBlk, b.dindNext blkIndex)

def getExt2NonExtentBlk (fails : Nat → Bool) (b : Blocks) (blkIndex : Nat) :
    Except Fault (BlkNr × Blocks) :=
  if blkIndex < ext4IndBlock then .ok (.at (b.inode.iBlock blkIndex), b)
  else if blkIndex < (b.addrBlkPerBlock + ext4IndBlock) % 2 ^ 32 then
    match indirectBlkNr fails b (b.inode.iBlock ext4IndBlock) with
    | .error e => .error e
    | .ok (nrBlk, b) => .ok (.at nrBlk, b)
  else if blkIndex < (b.dindNBlk + b.addrBlkPerBlock + ext4IndBlock) % 2 ^ 32 then
    doubleIndirectBlkNr fails b blkIndex
  else .ok (.failed, b)

/-! ## Extent mapping -/

/-- The slot of a path; every index the code uses is inside the array. -/
def slot (path : List Ext4ExtPath) (i : Nat) : Ext4ExtPath := path.getD i {}

def ext4ExtBinsearchIdx (eh : Ext4ExtentHeader) (blockNo : Nat) : Nat :=
  rightmost eh.eiBlock eh.ehEntries blockNo

/-- An empty leaf leaves `p_ext` NULL. -/
def ext4ExtBinsearch (eh : Ext4ExtentHeader) (blockNo : Nat) : Option Nat :=
  if eh.ehEntries = 0 then none else some (rightmost eh.eeBlock eh.ehEntries blockNo)

def leafAddr (eh : Ext4ExtentHeader) (idx : Nat) : Nat :=
  splitHi (eh.eiLeafHi idx) ||| eh.eiLeafLo idx

def startAddr (eh : Ext4ExtentHeader) (i : Nat) : Nat := splitHi (eh.eeStartHi i) ||| eh.eeStartLo i

/-- The `while (i)` loop of `ext4_ext_find_extent`; `i` levels are left below
level `ppos`. A child is read again only when its address is not the one the
level above already stands for. -/
def extFindLoop (fails : Nat → Bool) (b : Blocks) (blockNo : Nat) :
    (i ppos : Nat) → List Ext4ExtPath → Nat → Except Fault (List Ext4ExtPath × Nat)
  | 0, _, path, reads => .ok (path, reads)
  | i + 1, ppos, path, reads =>
    match (slot path ppos).pHdr with
    | none => .error .nullDeref
    | some eh =>
      let idx := ext4ExtBinsearchIdx eh blockNo
      let blockAddr := leafAddr eh idx
      let path := path.set ppos { slot path ppos with pIdx := some idx }
      if blockAddr = (slot path ppos).pBlock then
        extFindLoop fails b blockNo i (ppos + 1) path reads
      else
        let path := path.set ppos
          { slot path ppos with pBlock := blockAddr, pExt := none, pDepth := i + 1 }
        let child := readBlock fails { b with reads := reads } blockAddr
        let path := path.set (ppos + 1) { slot path (ppos + 1) with pHdr := child }
        extFindLoop fails b blockNo i (ppos + 1) path (reads + 1)

/-- The leaf level of `ext4_ext_find_extent`: its slot after the leaf search. -/
def leafSlot (x : Ext4ExtPath) (leaf : Ext4ExtentHeader) (blockNo : Nat) : Ext4ExtPath :=
  let x := { x with pDepth := 0, pExt := none, pIdx := none }
  match ext4ExtBinsearch leaf blockNo with
  | none => x
  | some i => { x with pExt := some i, pBlock := startAddr leaf i }

/-- `ext4_ext_find_extent`: `path` is NULL on the first lookup. -/
def ext4ExtFindExtent (fails : Nat → Bool) (b : Blocks) (blockNo : Nat)
    (path : Option (List Ext4ExtPath)) : Except Fault (List Ext4ExtPath × Nat) :=
  let eh := extInodeHdr b.inode
  let depth := eh.ehDepth
  let path := path.getD (List.replicate (depth + 2) {})
  match extFindLoop fails b blockNo depth 0
      (path.set 0 { slot path 0 with pHdr := some eh }) b.reads with
  | .error e => .error e
  | .ok (path, reads) =>
    match (slot path depth).pHdr with
    | none => .error .nullDeref
    | some leaf => .ok (path.set depth (leafSlot (slot path depth) leaf blockNo), reads)

def getExt2ExtentBlk (fails : Nat → Bool) (b : Blocks) (blkIndex : Nat) :
    Except Fault (BlkNr × Blocks) :=
  let eh := extInodeHdr b.inode
  if eh.ehMagic ≠ ext4ExtMagic then .ok (.failed, b)
  else
    match b.ext4ExtFindExtent fails blkIndex b.extentPath with
    | .error e => .error e
    | .ok (path, reads) =>
      let b := { b with extentPath := some path, reads := reads }
      match (slot path eh.ehDepth).pExt, (slot path eh.ehDepth).pHdr with
      | some i, some leaf =>
        .ok (.at (((slot path eh.ehDepth).pBlock + blkIndex + (2 ^ 64 - leaf.eeBlock i)) % 2 ^ 64),
          b)
      | _, _ => .ok (.failed, b)

/-! ## The mapper -/

def getExt2BlkNr (fails : Nat → Bool) (b : Blocks) (blkIndex : Nat) :
    Except Fault (BlkNr × Blocks) :=
  if b.inode.iFlags &&& ext4ExtentsFl ≠ 0 then b.getExt2ExtentBlk fails blkIndex
  else b.getExt2NonExtentBlk fails blkIndex

/-- The destructor's `flush`. It walks the path of an extent-mapped inode from
slot 1 on, whether there is one or not. -/
def flush (b : Blocks) : Except Fault Unit :=
  if b.inode.iFlags &&& ext4ExtentsFl ≠ 0 ∧ b.extentPath.isNone then .error .nullDeref else .ok ()

section Indirect

variable {fails : Nat → Bool} {b : Blocks} {i : Nat} (hfl : b.inode.iFlags &&& ext4ExtentsFl = 0)
include hfl

theorem getExt2BlkNr_direct (hi : i < 12) :
    b.getExt2BlkNr fails i = .ok (.at (b.inode.iBlock i), b) := by
  rw [getExt2BlkNr, if_neg (not_not.mpr hfl), getExt2NonExtentBlk,
    if_pos (show i < ext4IndBlock from hi)]

theorem getExt2BlkNr_single {nrBlk : Nat} {b' : Blocks} (hlo : 12 ≤ i)
    (hi : i < b.addrBlkPerBlock + 12) (hlt : b.addrBlkPerBlock + 12 < 2 ^ 32)
    (h : b.indirectBlkNr fails (b.inode.iBlock 12) = .ok (nrBlk, b')) :
    b.getExt2BlkNr fails i = .ok (.at nrBlk, b') := by
  have hlim : (b.addrBlkPerBlock + ext4IndBlock) % 2 ^ 32 = b.addrBlkPerBlock + 12 :=
    Nat.mod_eq_of_lt hlt
  rw [getExt2BlkNr, if_neg (not_not.mpr hfl), getExt2NonExtentBlk,
    if_neg (show ¬ i < ext4IndBlock from Nat.not_lt.mpr hlo), hlim, if_pos hi,
      show b.inode.iBlock ext4IndBlock = b.inode.iBlock 12 from rfl, h]

theorem getExt2BlkNr_doubleRange (hlo : ¬i < ext4IndBlock)
    (hsingle : ¬i < (b.addrBlkPerBlock + ext4IndBlock) % 2 ^ 32)
    (hi : i < (b.dindNBlk + b.addrBlkPerBlock + ext4IndBlock) % 2 ^ 32) :
    b.getExt2BlkNr fails i = b.doubleIndirectBlkNr fails i := by
  rw [getExt2BlkNr, if_neg (not_not.mpr hfl), getExt2NonExtentBlk, if_neg hlo, if_neg hsingle,
    if_pos hi]

theorem getExt2BlkNr_double (hlo : b.addrBlkPerBlock + 12 ≤ i)
    (hi : i < b.dindNBlk + b.addrBlkPerBlock + 12)
    (hlt : b.dindNBlk + b.addrBlkPerBlock + 12 < 2 ^ 32) :
    b.getExt2BlkNr fails i = b.doubleIndirectBlkNr fails i := by
  refine getExt2BlkNr_doubleRange hfl ?_ ?_ ?_ <;> unfold ext4IndBlock
  · omega
  · rw [Nat.mod_eq_of_lt (by omega)]
    omega
  · rw [Nat.mod_eq_of_lt hlt]
    exact hi

end Indirect

/-- The object with given buffers and cursors. -/
def load (b : Blocks) (buffer dindirectBuf : Option Buffer) (indIndex dindIndex reads : Nat) :
    Blocks :=
  { b with buffer, dindirectBuf, indIndex, dindIndex, reads }

@[simp] theorem load_nBlock (b : Blocks) (buf dbuf : Option Buffer) (ind dind r : Nat) :
    (b.load buf dbuf ind dind r).nBlock = b.nBlock := rfl

theorem doubleIndirectBlkNr_load {fails : Nat → Bool} {b b' : Blocks} {i nrBlk ind dind r : Nat}
    {buf : Option Buffer} {dbuf : Buffer}
    (hread : (b.load buf none ind dind r).readBlock fails (b.inode.iBlock 13) = some dbuf)
    (h : (b.load buf (some dbuf) ind dind (r + 1)).indirectBlkNr fails (dbuf.u32 0) =
      .ok (nrBlk, b')) :
    (b.load buf none ind dind r).doubleIndirectBlkNr fails i = .ok (.at nrBlk,
      if i = sub32 b'.nBlock 1 then { b' with dindirectBuf := none, dindIndex := 0 } else b') := by
  unfold load at hread h ⊢
  rw [doubleIndirectBlkNr]
  simp only [show b.inode.iBlock ext4DindBlock = b.inode.iBlock 13 from rfl, hread, h]
  split <;> rfl

theorem doubleIndirectBlkNr_loaded {fails : Nat → Bool} {b b' : Blocks} {i nrBlk ind dind r : Nat}
    {buf : Option Buffer} {dbuf : Buffer}
    (h : (b.load buf (some dbuf) ind dind r).indirectBlkNr fails (dbuf.u32 (4 * dind)) =
      .ok (nrBlk, b')) :
    (b.load buf (some dbuf) ind dind r).doubleIndirectBlkNr fails i =
    .ok (.at nrBlk, b'.dindNext i) := by
  unfold load at h ⊢
  rw [doubleIndirectBlkNr]
  simp only [h]

theorem dindNext_load {b : Blocks} {i ind dind r : Nat} {buf dbuf : Option Buffer}
    (hend : i ≠ sub32 ((b.dindNBlk + b.addrBlkPerBlock + ext4IndBlock) % 2 ^ 32) 1)
    (hlast : i ≠ sub32 b.nBlock 1) :
    (b.load buf dbuf ind dind r).dindNext i = b.load buf dbuf ind
      (if ind = sub32 b.addrBlkPerBlock 1 then (dind + 1) % 2 ^ 32 else dind) r := by
  unfold dindNext load
  simp only
  split <;> rw [if_neg (not_or.mpr ⟨hend, hlast⟩)]

/-! ## Runs -/

def getExt2BlkNrs (fails : Nat → Bool) : Blocks → List Nat → Except Fault (List BlkNr × Blocks)
  | b, [] => .ok ([], b)
  | b, i :: is =>
    match b.getExt2BlkNr fails i with
    | .error e => .error e
    | .ok (r, b) =>
      match getExt2BlkNrs fails b is with
      | .error e => .error e
      | .ok (rs, b) => .ok (r :: rs, b)

/-- The object before call `i` of the sequential run 0, 1, 2, ... -/
def before (fails : Nat → Bool) (b : Blocks) : Nat → Except Fault Blocks
  | 0 => .ok b
  | i + 1 =>
    match before fails b i with
    | .error e => .error e
    | .ok b => (b.getExt2BlkNr fails i).map Prod.snd

structure SameObject (b b' : Blocks) : Prop where
  part : b'.part = b.part
  inode : b'.inode = b.inode
  blockSizeSect : b'.blockSizeSect = b.blockSizeSect

theorem SameObject.refl (b : Blocks) : SameObject b b := ⟨rfl, rfl, rfl⟩

theorem SameObject.trans {b₁ b₂ b₃ : Blocks} (h : SameObject b₁ b₂) (h' : SameObject b₂ b₃) :
    SameObject b₁ b₃ :=
  ⟨h'.part.trans h.part, h'.inode.trans h.inode, h'.blockSizeSect.trans h.blockSizeSect⟩

/-- The numbers that the ranges go by stay as well. -/
structure SameFile (b b' : Blocks) : Prop extends SameObject b b' where
  addrBlkPerBlock : b'.addrBlkPerBlock = b.addrBlkPerBlock
  dindNBlk : b'.dindNBlk = b.dindNBlk

theorem SameFile.refl (b : Blocks) : SameFile b b := ⟨.refl b, rfl, rfl⟩

theorem SameFile.trans {b₁ b₂ b₃ : Blocks} (h : SameFile b₁ b₂) (h' : SameFile b₂ b₃) :
    SameFile b₁ b₃ :=
  ⟨h.toSameObject.trans h'.toSameObject, h'.addrBlkPerBlock.trans h.addrBlkPerBlock,
    h'.dindNBlk.trans h.dindNBlk⟩

theorem indirectBlkNr_same {fails : Nat → Bool} {b b' : Blocks} {ptr r : Nat}
    (h : b.indirectBlkNr fails ptr = .ok (r, b')) :
    SameFile b b' ∧ b'.extentPath = b.extentPath := by
  have hsame : ∀ buffer indIndex reads, SameFile b
      { b with buffer := buffer, indIndex := indIndex, reads := reads } := fun _ _ _ =>
    ⟨⟨rfl, rfl, rfl⟩, rfl, rfl⟩
  unfold indirectBlkNr at h
  split at h
  · split at h
    · cases h
    · dsimp only at h
      split at h <;> cases h <;> exact ⟨hsame _ _ _, rfl⟩
  · dsimp only at h
    split at h <;> cases h <;> exact ⟨hsame _ _ _, rfl⟩

theorem dindNext_same (b : Blocks) (i : Nat) :
    SameFile b (b.dindNext i) ∧ (b.dindNext i).extentPath = b.extentPath := by
  unfold dindNext
  dsimp only
  split <;> split <;> exact ⟨⟨⟨rfl, rfl, rfl⟩, rfl, rfl⟩, rfl⟩

theorem doubleIndirectBlkNr_same {fails : Nat → Bool} {b b' : Blocks} {i : Nat} {r : BlkNr}
    (h : b.doubleIndirectBlkNr fails i = .ok (r, b')) :
    SameFile b b' ∧ b'.extentPath = b.extentPath := by
  unfold doubleIndirectBlkNr at h
  split at h
  · split at h
    · cases h
      exact ⟨⟨⟨rfl, rfl, rfl⟩, rfl, rfl⟩, rfl⟩
    · split at h
      · cases h
      next hcall =>
        obtain ⟨⟨⟨hpart, hinode, hsect⟩, haddr, hdind⟩, hpath⟩ := indirectBlkNr_same hcall
        split at h <;> cases h <;> exact ⟨⟨⟨hpart, hinode, hsect⟩, haddr, hdind⟩, hpath⟩
  · split at h
    · cases h
    next hcall =>
      cases h
      obtain ⟨hsame, hpath⟩ := indirectBlkNr_same hcall
      obtain ⟨hsame', hpath'⟩ := dindNext_same _ i
      exact ⟨hsame.trans hsame', hpath'.trans hpath⟩

theorem getExt2NonExtentBlk_same {fails : Nat → Bool} {b b' : Blocks} {i : Nat} {r : BlkNr}
    (h : b.getExt2NonExtentBlk fails i = .ok (r, b')) :
    SameFile b b' ∧ b'.extentPath = b.extentPath := by
  unfold getExt2NonExtentBlk at h
  split at h
  · cases h
    exact ⟨.refl _, rfl⟩
  · split at h
    · split at h
      · cases h
      next hcall =>
        cases h
        exact indirectBlkNr_same hcall
    · split at h
      · exact doubleIndirectBlkNr_same h
      · cases h
        exact ⟨.refl _, rfl⟩

/-- On an extent-mapped inode an answer leaves a path. -/
theorem getExt2BlkNr_same {fails : Nat → Bool} {b b' : Blocks} {i : Nat} {r : BlkNr}
    (h : b.getExt2BlkNr fails i = .ok (r, b')) :
    SameFile b b' ∧ (b.inode.iFlags &&& ext4ExtentsFl ≠ 0 → r.ret = 0 →
      b'.extentPath ≠ none) := by
  unfold getExt2BlkNr at h
  split at h
  next hflags =>
    simp only [getExt2ExtentBlk] at h
    split at h
    · cases h
      exact ⟨.refl _, fun _ hret => nomatch hret⟩
    · split at h
      · cases h
      · split at h <;> cases h
        · exact ⟨⟨⟨rfl, rfl, rfl⟩, rfl, rfl⟩, fun _ _ => Option.some_ne_none _⟩
        · exact ⟨⟨⟨rfl, rfl, rfl⟩, rfl, rfl⟩, fun _ _ => Option.some_ne_none _⟩
  next hflags => exact ⟨(getExt2NonExtentBlk_same h).1, fun hne => absurd hne hflags⟩

theorem getExt2BlkNrs_cons {fails : Nat → Bool} {b b' : Blocks} {i : Nat} {r : BlkNr}
    (h : b.getExt2BlkNr fails i = .ok (r, b')) (is : List Nat) :
    b.getExt2BlkNrs fails (i :: is) =
      (b'.getExt2BlkNrs fails is).map fun out => (r :: out.1, out.2) := by
  rw [getExt2BlkNrs]
  simp only [h]
  cases b'.getExt2BlkNrs fails is with
  | error fault => rfl
  | ok out => rfl

theorem getExt2BlkNrs_cons_ok {fails : Nat → Bool} {b b' : Blocks} {i : Nat} {is : List Nat}
    {rs : List BlkNr} (h : b.getExt2BlkNrs fails (i :: is) = .ok (rs, b')) :
    ∃ r b₁ rest, b.getExt2BlkNr fails i = .ok (r, b₁) ∧
      b₁.getExt2BlkNrs fails is = .ok (rest, b') ∧ rs = r :: rest := by
  rw [getExt2BlkNrs] at h
  split at h
  next => cases h
  next r b₁ hcall =>
    split at h
    next => cases h
    next rest b₂ hrun =>
      cases h
      exact ⟨r, b₁, rest, hcall, hrun, rfl⟩

theorem getExt2BlkNrs_keeps {fails : Nat → Bool} {I : Blocks → Prop}
    (hcall : ∀ b i r b', I b → b.getExt2BlkNr fails i = .ok (r, b') → I b') {is : List Nat}
    {b b' : Blocks} {rs : List BlkNr} (hb : I b) (h : b.getExt2BlkNrs fails is = .ok (rs, b')) :
    I b' := by
  induction is generalizing b rs with
  | nil =>
    cases h
    exact hb
  | cons i is ih =>
    obtain ⟨r, b₁, rest, hfirst, hrun, -⟩ := getExt2BlkNrs_cons_ok h
    exact ih (hcall b i r b₁ hb hfirst) hrun

theorem getExt2BlkNrs_same {fails : Nat → Bool} {is : List Nat} {b b' : Blocks} {rs : List BlkNr}
    (h : b.getExt2BlkNrs fails is = .ok (rs, b')) : SameObject b b' :=
  getExt2BlkNrs_keeps (fun _ _ _ _ hsame hcall =>
    hsame.trans (getExt2BlkNr_same hcall).1.toSameObject) (.refl b) h

@[simp] theorem before_zero (fails : Nat → Bool) (b : Blocks) : b.before fails 0 = .ok b := rfl

def lookup (fails : Nat → Bool) (b : Blocks) (i : Nat) : Except Fault BlkNr :=
  match before fails b i with
  | .error e => .error e
  | .ok b => (b.getExt2BlkNr fails i).map Prod.fst

theorem lookup_ok {fails : Nat → Bool} {b : Blocks} {i : Nat} {r : BlkNr}
    (h : b.lookup fails i = .ok r) :
    ∃ b₁ b₂, b.before fails i = .ok b₁ ∧ b₁.getExt2BlkNr fails i = .ok (r, b₂) ∧
      b.before fails (i + 1) = .ok b₂ := by
  unfold lookup at h
  cases hb : b.before fails i with
  | error e =>
    rw [hb] at h
    cases h
  | ok b₁ =>
    rw [hb] at h
    cases hcall : b₁.getExt2BlkNr fails i with
    | error e =>
      simp only [hcall] at h
      cases h
    | ok rb =>
      simp only [hcall] at h
      cases h
      exact ⟨b₁, rb.2, rfl, hcall, by rw [before, hb]; simp only [hcall]; rfl⟩

theorem before_same {fails : Nat → Bool} {b : Blocks} : ∀ {i : Nat} {b' : Blocks},
    b.before fails i = .ok b' → SameObject b b'
  | 0, _, h => by
    cases h
    exact .refl _
  | i + 1, b', h => by
    rw [before] at h
    cases hb : b.before fails i with
    | error e =>
      rw [hb] at h
      cases h
    | ok b₁ =>
      rw [hb] at h
      cases hcall : b₁.getExt2BlkNr fails i with
      | error e =>
        simp only [hcall] at h
        cases h
      | ok rb =>
        simp only [hcall] at h
        cases h
        exact (before_same hb).trans (getExt2BlkNr_same hcall).1.toSameObject

/-- After `k` answered lookups the destructor goes through a path that is not there exactly
when an extent-mapped inode had none. -/
theorem flush_before {fails : Nat → Bool} {b b' : Blocks} {k : Nat} {answer : Nat → Nat}
    (hnew : b.extentPath = none) (hanswers : ∀ i < k, b.lookup fails i = .ok (.at (answer i)))
    (h : b.before fails k = .ok b') :
    b'.flush =
      if b.inode.iFlags &&& ext4ExtentsFl ≠ 0 ∧ k = 0 then .error .nullDeref else .ok () := by
  rw [flush, (before_same h).inode]
  cases k with
  | zero =>
    cases h
    simp [hnew]
  | succ k =>
    obtain ⟨b₁, b₂, hb₁, hcall, hb₂⟩ := lookup_ok (hanswers k (Nat.lt_succ_self k))
    obtain rfl : b₂ = b' := Except.ok.inj (hb₂.symm.trans h)
    have hpath := (getExt2BlkNr_same hcall).2
    rw [(before_same hb₁).inode] at hpath
    have hthere : ¬(b.inode.iFlags &&& ext4ExtentsFl ≠ 0 ∧ b₂.extentPath.isNone) := fun hnone =>
      hpath hnone.1 rfl (Option.isNone_iff_eq_none.mp hnone.2)
    have hlooked : ¬(b.inode.iFlags &&& ext4ExtentsFl ≠ 0 ∧ k + 1 = 0) :=
      fun hzero => Nat.succ_ne_zero k hzero.2
    rw [if_neg hthere, if_neg hlooked]

theorem exists_of_map_fst {ε α β : Type} {x : Except ε (α × β)} {a : α}
    (h : x.map Prod.fst = .ok a) :
    ∃ b, x = .ok (a, b) := by
  cases x with
  | error e => cases h
  | ok ab =>
    cases h
    exact ⟨ab.2, rfl⟩

/-- What a run over consecutive blocks answers is what the sequential lookups answer. -/
theorem lookup_of_getExt2BlkNrs {fails : Nat → Bool} {b : Blocks} {answer : Nat → BlkNr} :
    ∀ (k i : Nat) {b₁ b₂ : Blocks}, b.before fails i = .ok b₁ →
      b₁.getExt2BlkNrs fails (List.range' i k) = .ok ((List.range' i k).map answer, b₂) →
      ∀ j, i ≤ j → j < i + k → b.lookup fails j = .ok (answer j)
  | 0, i, _, _, _, _, j, hlo, hhi => absurd hhi (by omega)
  | k + 1, i, b₁, b₂, hb, hrun, j, hlo, hhi => by
    rw [List.range'_succ, List.map_cons] at hrun
    obtain ⟨r, b', rest, hcall, hrest, heq⟩ := getExt2BlkNrs_cons_ok hrun
    obtain ⟨rfl, rfl⟩ := List.cons.inj heq
    have hnext : b.before fails (i + 1) = .ok b' := by
      rw [before, hb]
      simp only [hcall]
      rfl
    rcases Nat.eq_or_lt_of_le hlo with rfl | hlt
    · rw [lookup, hb]
      simp only [hcall]
      rfl
    · exact lookup_of_getExt2BlkNrs k (i + 1) hnext hrest j hlt (by omega)

end Blocks

end Ext4tc.Fs
