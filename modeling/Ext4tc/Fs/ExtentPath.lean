import Ext4tc.Fs.IndirectCursor
import Ext4tc.Lib.IntervalTree

/-! # Extent lookups with a retained path

The path keeps the node buffers of the last lookup and reuses a child whose
address is the one its parent level already stands for. The invariant is that
the header at level `k + 1` is the block whose number level `k` holds; the
number of the leaf level means something else and is never compared. Every
lookup then answers what a lookup with a fresh path answers, and on a tree
whose extents keep apart that is the block of the extent that covers. -/

namespace Ext4tc.Fs
open Ext4tc.Lib Ext4tc.DiskUtils Blocks

/-- The tree of nodes on the partition, `width` saying how many blocks entry `i`
of a leaf takes up. Index entries and extents keep their key at one offset. -/
def extentTree (p : Partition) (bs : Nat) (width : Ext4ExtentHeader → Nat → Nat) :
    IntervalTree Ext4ExtentHeader Nat where
  entries eh := eh.ehEntries
  key eh i := eh.eiBlock i
  stop eh i := eh.eeBlock i + width eh i
  child eh i := p.block bs (eh.eiLeafLo i)

/-- `ext4_ext_get_actual_len`: the blocks an extent covers, written or not. -/
def actualLen (eh : Ext4ExtentHeader) (i : Nat) : Nat :=
  if eh.eeLen i ≤ extInitMaxLen then eh.eeLen i else eh.eeLen i - extInitMaxLen

/-- An extent cut down to its first block. -/
def oneBlock (_ : Ext4ExtentHeader) (_ : Nat) : Nat := 1

/-- Entries fit their node, and addresses have no high half and are not 0. -/
def NodeOk (height : Nat) (eh : Ext4ExtentHeader) : Prop :=
  12 * eh.ehEntries + 12 ≤ eh.size ∧ ∀ i, i < eh.ehEntries →
    (height = 0 → eh.eeStartHi i = 0) ∧ (height ≠ 0 → eh.eiLeafHi i = 0 ∧ eh.eiLeafLo i ≠ 0)

/-- A well-formed extent-mapped inode on 512-byte sectors. The order of the tree
is that of first blocks: an extent counts as the one block it starts at. -/
structure ExtentFile (p : Partition) (sb : Ext4SuperBlock) (inode : Ext4Inode) : Prop where
  sector : p.sectorSize = 512
  logBlockSize : sb.sLogBlockSize ≤ 6
  extents : inode.iFlags &&& ext4ExtentsFl ≠ 0
  magic : (extInodeHdr inode).ehMagic = ext4ExtMagic
  nodes : (extentTree p sb.blockSize oneBlock).All NodeOk (extInodeHdr inode).ehDepth
    (extInodeHdr inode)
  keys : (extentTree p sb.blockSize oneBlock).WellFormed (extInodeHdr inode).ehDepth
    (extInodeHdr inode) 0 none

instance (height : Nat) (eh : Ext4ExtentHeader) : Decidable (NodeOk height eh) :=
  inferInstanceAs (Decidable (_ ∧ _))

/-- Extents end before the next one begins, and before the next index key. -/
def RangesApart (p : Partition) (sb : Ext4SuperBlock) (inode : Ext4Inode) : Prop :=
  (extentTree p sb.blockSize actualLen).WellFormed (extInodeHdr inode).ehDepth
    (extInodeHdr inode) 0 none

def LeafExtent (p : Partition) (sb : Ext4SuperBlock) (inode : Ext4Inode) (leaf : Ext4ExtentHeader)
    (i : Nat) : Prop :=
  (extentTree p sb.blockSize actualLen).Entry (extInodeHdr inode).ehDepth (extInodeHdr inode) leaf i

def Covers (leaf : Ext4ExtentHeader) (i blk : Nat) : Prop :=
  leaf.eeBlock i ≤ blk ∧ blk < leaf.eeBlock i + actualLen leaf i

/-- What a lookup answers from the leaf it ends in. -/
def leafAnswer (leaf : Ext4ExtentHeader) (blk : Nat) : BlkNr :=
  match ext4ExtBinsearch leaf blk with
  | none => .failed
  | some i => .at ((startAddr leaf i + blk + (2 ^ 64 - leaf.eeBlock i)) % 2 ^ 64)

/-- What a lookup answers: nothing but the inode and the disk enters. -/
def extentAnswer (p : Partition) (bs : Nat) (inode : Ext4Inode) (blk : Nat) : BlkNr :=
  leafAnswer ((extentTree p bs actualLen).leaf blk (extInodeHdr inode).ehDepth
    (extInodeHdr inode)) blk

/-! ## Path slots -/

theorem slot_set (path : List Ext4ExtPath) (i j : Nat) (x : Ext4ExtPath) :
    slot (path.set i x) j = if i = j ∧ i < path.length then x else slot path j := by
  simp only [slot, List.getD_eq_getElem?_getD, List.getElem?_set]
  by_cases hij : i = j
  · subst hij
    by_cases hi : i < path.length
    · simp [hi]
    · simp [hi]
  · simp [hij]

theorem slot_set_self {path : List Ext4ExtPath} {i : Nat} (h : i < path.length) (x : Ext4ExtPath) :
    slot (path.set i x) i = x := by
  rw [slot_set, if_pos ⟨rfl, h⟩]

theorem slot_set_ne {path : List Ext4ExtPath} {i j : Nat} (h : i ≠ j) (x : Ext4ExtPath) :
    slot (path.set i x) j = slot path j := by
  rw [slot_set, if_neg fun hc => h hc.1]

theorem slot_replicate (n i : Nat) : slot (List.replicate n {}) i = {} := by
  simp only [slot, List.getD_eq_getElem?_getD, List.getElem?_replicate]
  split <;> rfl

/-- The header at level `k + 1` is the block level `k` holds the number of. -/
structure PathOk (p : Partition) (bs depth : Nat) (path : List Ext4ExtPath) : Prop where
  length : path.length = depth + 2
  header : ∀ k, k < depth → (slot path k).pBlock ≠ 0 →
    (slot path (k + 1)).pHdr = some (p.block bs (slot path k).pBlock)

theorem pathOk_replicate (p : Partition) (bs depth : Nat) :
    PathOk p bs depth (List.replicate (depth + 2) {}) :=
  ⟨by simp, fun k _ h => absurd (by rw [slot_replicate]) h⟩

/-- Only the block numbers above the leaf and the headers below the root matter. -/
theorem PathOk.set_of_eq {p : Partition} {bs depth : Nat} {path : List Ext4ExtPath}
    (h : PathOk p bs depth path) {i : Nat} {x : Ext4ExtPath} (hi : i < path.length)
    (hblock : i < depth → x.pBlock = (slot path i).pBlock)
    (hhdr : i ≠ 0 → x.pHdr = (slot path i).pHdr) : PathOk p bs depth (path.set i x) := by
  refine ⟨by rw [List.length_set, h.length], ?_⟩
  intro k hk hne
  have hb : (slot (path.set i x) k).pBlock = (slot path k).pBlock := by
    by_cases hik : i = k
    · subst hik
      rw [slot_set_self hi, hblock hk]
    · rw [slot_set_ne hik]
  have hh : (slot (path.set i x) (k + 1)).pHdr = (slot path (k + 1)).pHdr := by
    by_cases hik : i = k + 1
    · subst hik
      rw [slot_set_self hi, hhdr (by omega)]
    · rw [slot_set_ne hik]
  rw [hb] at hne ⊢
  rw [hh, h.header k hk hne]

/-- Reading a child anew: its number goes to level `i`, its buffer to the next. -/
theorem PathOk.set_child {p : Partition} {bs depth : Nat} {path : List Ext4ExtPath}
    (h : PathOk p bs depth path) {i blk : Nat} {x y : Ext4ExtPath} (hi : i < depth)
    (hx : x.pBlock = blk) (hxh : x.pHdr = (slot path i).pHdr) (hy : y.pHdr = some (p.block bs blk))
    (hyb : y.pBlock = (slot path (i + 1)).pBlock) :
    PathOk p bs depth ((path.set i x).set (i + 1) y) := by
  have hlen := h.length
  refine ⟨by simp [hlen], ?_⟩
  intro k hk hne
  have hlen' : i + 1 < (path.set i x).length := by simp; omega
  by_cases hki : k = i
  · subst hki
    rw [slot_set_self hlen', slot_set_ne (by omega), slot_set_self (by omega), hx, hy]
  · have hb : (slot ((path.set i x).set (i + 1) y) k).pBlock = (slot path k).pBlock := by
      by_cases hk' : k = i + 1
      · subst hk'
        rw [slot_set_self hlen', hyb]
      · rw [slot_set_ne (by omega), slot_set_ne (by omega)]
    have hh : (slot ((path.set i x).set (i + 1) y) (k + 1)).pHdr = (slot path (k + 1)).pHdr := by
      rw [slot_set_ne (by omega)]
      by_cases hk' : k + 1 = i
      · subst hk'
        rw [slot_set_self (by omega), hxh]
      · rw [slot_set_ne (by omega)]
    rw [hb] at hne ⊢
    rw [hh, h.header k hk hne]

/-! ## One lookup -/

theorem leafAddr_eq (eh : Ext4ExtentHeader) (i : Nat) : leafAddr eh i = eh.eiLeafLo i := by
  rw [leafAddr, splitHi_eq_zero, Nat.zero_or]

theorem startAddr_eq (eh : Ext4ExtentHeader) (i : Nat) : startAddr eh i = eh.eeStartLo i := by
  rw [startAddr, splitHi_eq_zero, Nat.zero_or]

section Lookup

variable {p : Partition} {sb : Ext4SuperBlock} {inode : Ext4Inode}
  {width : Ext4ExtentHeader → Nat → Nat}

/-- The loop walks the path to the leaf, whichever of its levels are reused. -/
theorem extFindLoop_spec {b : Blocks} {bs : Nat} (hp : b.part = p) (hs : p.sectorSize = 512)
    (hb : b.blockSizeSect * 512 = bs) (hbs : bs < 2 ^ 32) (blk depth : Nat) :
    ∀ (i ppos : Nat) (path : List Ext4ExtPath) (reads : Nat) (eh : Ext4ExtentHeader) (lo : Nat)
      (hi : Option Nat), ppos + i = depth → PathOk p bs depth path →
      (slot path ppos).pHdr = some eh → (extentTree p bs width).All NodeOk i eh →
      (extentTree p bs width).WellFormed i eh lo hi →
      ∃ path' reads', extFindLoop noFails b blk i ppos path reads = .ok (path', reads') ∧
        PathOk p bs depth path' ∧
        (slot path' depth).pHdr = some ((extentTree p bs width).leaf blk i eh)
  | 0, ppos, path, reads, eh, lo, hi, hd, hpath, hhdr, hall, hwf => by
    obtain rfl : ppos = depth := by omega
    exact ⟨path, reads, rfl, hpath, hhdr⟩
  | i + 1, ppos, path, reads, eh, lo, hi, hd, hpath, hhdr, hall, hwf => by
    have hlen := hpath.length
    have hidx : ext4ExtBinsearchIdx eh blk < eh.ehEntries := rightmost_lt _ blk hwf.entries_pos
    have hne : eh.eiLeafLo (ext4ExtBinsearchIdx eh blk) ≠ 0 := ((hall.1.2 _ hidx).2 (by omega)).2
    have hall' := hall.2 _ hidx
    have hwf' := (hwf.2.2 _ hidx).2.2
    have ih := extFindLoop_spec hp hs hb hbs blk depth i (ppos + 1)
    rw [extFindLoop, hhdr]
    simp only [leafAddr_eq]
    have hpath₁ := hpath.set_of_eq (i := ppos)
      (x := { slot path ppos with pIdx := some (ext4ExtBinsearchIdx eh blk) }) (by omega)
      (fun _ => rfl) (fun _ => rfl)
    have hpos : ppos < path.length := by omega
    have hself := slot_set_self hpos
      { slot path ppos with pIdx := some (ext4ExtBinsearchIdx eh blk) }
    rw [hself]
    split
    next heq =>
      -- the level stands for this child already
      have hchild := hpath₁.header ppos (by omega) (by rw [hself]; exact heq ▸ hne)
      rw [hself] at hchild
      change (slot _ (ppos + 1)).pHdr = some (p.block bs (slot path ppos).pBlock) at hchild
      rw [← heq] at hchild
      exact ih _ reads _ _ _ (by omega) hpath₁ hchild hall' hwf'
    next =>
      have hread : readBlock noFails { b with reads := reads }
          (eh.eiLeafLo (ext4ExtBinsearchIdx eh blk)) =
          some (p.block bs (eh.eiLeafLo (ext4ExtBinsearchIdx eh blk))) := by
        subst hp
        exact readBlock_of_sector_512 hs hb hbs rfl
      rw [hread]
      refine ih _ (reads + 1) _ _ _ (by omega)
        (hpath₁.set_child (by omega) rfl (by rw [hself]) rfl ?_) ?_ hall' hwf'
      · rw [slot_set_ne (by omega)]
      · rw [slot_set_self (by simp; omega)]
        rfl

/-- The object between lookups: no path yet, or one whose headers are in step. -/
structure PathState (p : Partition) (sb : Ext4SuperBlock) (inode : Ext4Inode) (b : Blocks) :
    Prop where
  partEq : b.part = p
  inodeEq : b.inode = inode
  sectEq : b.blockSizeSect = (Blocks.new p sb inode).blockSizeSect
  path : ∀ path, b.extentPath = some path → PathOk p sb.blockSize (extInodeHdr inode).ehDepth path

theorem pathState_new (p : Partition) (sb : Ext4SuperBlock) (inode : Ext4Inode) :
    PathState p sb inode (Blocks.new p sb inode) :=
  ⟨rfl, rfl, rfl, fun _ h => nomatch h⟩

theorem leaf_width (w w' : Ext4ExtentHeader → Nat → Nat) (bs blk : Nat) :
    ∀ (d : Nat) (eh : Ext4ExtentHeader),
      (extentTree p bs w).leaf blk d eh = (extentTree p bs w').leaf blk d eh
  | 0, _ => rfl
  | d + 1, _ => leaf_width w w' bs blk d _

/-- `ext4_ext_find_extent` ends in the leaf, with the entry its search picks. -/
theorem findExtent_spec (hf : ExtentFile p sb inode) {b : Blocks} (hb : PathState p sb inode b)
    (blk : Nat) :
    ∃ path reads, b.ext4ExtFindExtent noFails blk b.extentPath = .ok (path, reads) ∧
      PathOk p sb.blockSize (extInodeHdr inode).ehDepth path ∧
      ∃ x leaf, leaf = (extentTree p sb.blockSize oneBlock).leaf blk (extInodeHdr inode).ehDepth
          (extInodeHdr inode) ∧ x.pHdr = some leaf ∧
        slot path (extInodeHdr inode).ehDepth = leafSlot x leaf blk := by
  obtain ⟨a, -, ha, h128, -, hhi⟩ := Ext4SuperBlock.blockSize_cases hf.logBlockSize
  have hsect : b.blockSizeSect * 512 = sb.blockSize := by
    rw [hb.sectEq]
    change sb.blockSize / 2 ^ 9 % 2 ^ 16 * 512 = sb.blockSize
    omega
  have hnodes := hf.nodes
  have hkeys := hf.keys
  have hpath := hb.path
  unfold ext4ExtFindExtent
  simp only [hb.inodeEq]
  generalize (extInodeHdr inode).ehDepth = depth at *
  have hstart : PathOk p sb.blockSize depth
    (b.extentPath.getD (List.replicate (depth + 2) {})) := by
    cases h : b.extentPath with
    | none => exact pathOk_replicate p sb.blockSize depth
    | some path => exact hpath path h
  generalize b.extentPath.getD (List.replicate (depth + 2) {}) = path₀ at hstart ⊢
  have hlen₀ := hstart.length
  have hroot := hstart.set_of_eq (i := 0)
    (x := { slot path₀ 0 with pHdr := some (extInodeHdr inode) })
    (by omega) (fun _ => rfl) (fun h => absurd rfl h)
  obtain ⟨path, reads, hloop, hok, hleaf⟩ :=
    extFindLoop_spec hb.partEq hf.sector hsect (by omega) blk
    depth depth 0 _ b.reads _ _ _ (by omega) hroot (by rw [slot_set_self (by omega)]) hnodes hkeys
  have hlen := hok.length
  simp only [hloop, hleaf]
  refine ⟨_, _, rfl, hok.set_of_eq (by omega) (fun h => absurd h (Nat.lt_irrefl _)) fun _ => ?_,
    slot path depth, _, rfl, hleaf, slot_set_self (by omega) _⟩
  unfold leafSlot
  split <;> rfl

/-- **One lookup**: whatever the path, the answer is the inode's and the disk's. -/
theorem extentLookup (hf : ExtentFile p sb inode) {b : Blocks} (hb : PathState p sb inode b)
    (blk : Nat) :
    ∃ b', b.getExt2BlkNr noFails blk = .ok (extentAnswer p sb.blockSize inode blk, b') ∧
      PathState p sb inode b' := by
  obtain ⟨path, reads, hfind, hok, x, leaf, hleaf, hhdr, hslot⟩ := findExtent_spec hf hb blk
  rw [getExt2BlkNr, if_pos (by rw [hb.inodeEq]; exact hf.extents), getExt2ExtentBlk, hb.inodeEq,
    if_neg (not_not.mpr hf.magic), hfind]
  refine ⟨{ b with extentPath := some path, reads := reads }, ?_, hb.partEq, hb.inodeEq, hb.sectEq,
    ?_⟩
  · rw [extentAnswer, leaf_width actualLen oneBlock, ← hleaf]
    simp only [hslot, hb.inodeEq]
    unfold leafSlot leafAnswer
    cases ext4ExtBinsearch leaf blk with
    | none => rfl
    | some i => simp only [hhdr]
  · intro path' h
    cases h
    exact hok

theorem extentLookups (hf : ExtentFile p sb inode) : ∀ (blks : List Nat) {b : Blocks},
    PathState p sb inode b →
    ∃ b', b.getExt2BlkNrs noFails blks = .ok (blks.map (extentAnswer p sb.blockSize inode), b') ∧
      PathState p sb inode b'
  | [], b, hb => ⟨b, rfl, hb⟩
  | blk :: blks, b, hb => by
    obtain ⟨b₁, hcall, hb₁⟩ := extentLookup hf hb blk
    obtain ⟨b₂, hrun, hb₂⟩ := extentLookups hf blks hb₁
    refine ⟨b₂, ?_, hb₂⟩
    rw [getExt2BlkNrs_cons hcall, hrun]
    rfl

/-- Where extents keep apart, the extent that covers a block answers for it. -/
theorem extentAnswer_of_covers (ha : RangesApart p sb inode) {leaf : Ext4ExtentHeader}
    {i blk : Nat} (he : LeafExtent p sb inode leaf i) (hc : Covers leaf i blk) :
    extentAnswer p sb.blockSize inode blk =
      ⟨0, some (leaf.eeStartLo i + (blk - leaf.eeBlock i))⟩ := by
  obtain ⟨hleaf, hpick⟩ := IntervalTree.leaf_pick_of_mem ha he hc.1 hc.2
  have hpos : leaf.ehEntries ≠ 0 := Nat.ne_of_gt (Nat.zero_lt_of_lt he.lt)
  have hsearch : ext4ExtBinsearch leaf blk = some i := by
    rw [ext4ExtBinsearch, if_neg hpos]
    exact congrArg some hpick
  have hstart : leaf.eeStartLo i < 2 ^ 32 := Buffer.u32_lt _ _
  have hlen : actualLen leaf i < 2 ^ 16 := by
    have : leaf.eeLen i < 2 ^ 16 := Buffer.u16_lt _ _
    unfold actualLen
    split <;> omega
  obtain ⟨hle, hlt⟩ := hc
  rw [extentAnswer, hleaf, leafAnswer, hsearch]
  simp only [BlkNr.at, startAddr_eq]
  rw [show leaf.eeStartLo i + blk + (2 ^ 64 - leaf.eeBlock i) =
    leaf.eeStartLo i + (blk - leaf.eeBlock i) + 2 ^ 64 by
      have : leaf.eeBlock i < 2 ^ 32 := Buffer.u32_lt _ _
      omega, Nat.add_mod_right, Nat.mod_eq_of_lt (by omega)]

end Lookup

/-! ## Any order of lookups -/

/-- `answer` is what lookups answer: with a fresh path, and in every run that
starts from one. -/
structure Answers (p : Partition) (sb : Ext4SuperBlock) (inode : Ext4Inode) (answer : Nat → BlkNr) :
    Prop where
  fresh : ∀ blk, ∃ b', (Blocks.new p sb inode).getExt2BlkNr noFails blk = .ok (answer blk, b')
  run : ∀ blks, ∃ b', (Blocks.new p sb inode).getExt2BlkNrs noFails blks = .ok (blks.map answer, b')

/-- Every covered block is answered from the extent that covers it. -/
def MapsCovered (p : Partition) (sb : Ext4SuperBlock) (inode : Ext4Inode) (answer : Nat → BlkNr) :
    Prop :=
  ∀ leaf i blk, LeafExtent p sb inode leaf i → Covers leaf i blk →
    answer blk = ⟨0, some (leaf.eeStartLo i + (blk - leaf.eeBlock i))⟩

/-- The answer to a lookup does not depend on those before it, and it is the
block of the extent that covers, provided the ranges of extents keep apart. -/
theorem extent_lookups_any_order {p : Partition} {sb : Ext4SuperBlock} {inode : Ext4Inode}
    (hf : ExtentFile p sb inode) :
    ∃ answer, Answers p sb inode answer ∧
      (RangesApart p sb inode → MapsCovered p sb inode answer) := by
  refine ⟨extentAnswer p sb.blockSize inode, ⟨?_, ?_⟩, ?_⟩
  · intro blk
    obtain ⟨b, hcall, -⟩ := extentLookup hf (pathState_new p sb inode) blk
    exact ⟨b, hcall⟩
  · intro blks
    obtain ⟨b, hrun, -⟩ := extentLookups hf blks (pathState_new p sb inode)
    exact ⟨b, hrun⟩
  · intro ha leaf i blk
    exact extentAnswer_of_covers ha

/-- An inode whose root leads to two leaves: one extent maps blocks 0 and 1 to 100 and 101, the
other one block 8 to 200. -/
def twoLeaves : Ext4Inode :=
  (Buffer.zeros 128).pokes [(34, [8]), (40, [0x0a, 0xf3, 2, 0, 4, 0, 1]), (56, [50]), (64, [8]),
    (68, [51])]

def twoLeavesDisk : Partition :=
  .ofDevice ((Buffer.zeros 0).pokes
    [(51200, [0x0a, 0xf3, 1]), (51216, [2]), (51220, [100]), (52224, [0x0a, 0xf3, 1]),
      (52236, [8]), (52240, [1]), (52244, [200])]).byte

theorem extent_lookups_any_order_twoLeaves :
    ∃ answer, Answers twoLeavesDisk (Buffer.zeros 1024) twoLeaves answer ∧
      MapsCovered twoLeavesDisk (Buffer.zeros 1024) twoLeaves answer := by
  have hfile : ExtentFile twoLeavesDisk (Buffer.zeros 1024) twoLeaves :=
    ⟨by decide, by decide, by decide, by decide, by decide +kernel, by decide +kernel⟩
  have hapart : RangesApart twoLeavesDisk (Buffer.zeros 1024) twoLeaves := by
    unfold RangesApart
    decide +kernel
  obtain ⟨answer, hans, hmap⟩ := extent_lookups_any_order hfile
  exact ⟨answer, hans, hmap hapart⟩

/-- An inode whose root is the leaf: extent 0 maps blocks 0 to 3 to block 100 and on, extent 1
maps block 2 to block 200. -/
def overlappingExtents : Ext4Inode :=
  (Buffer.zeros 128).pokes [(34, [8]), (40, [0x0a, 0xf3, 2, 0, 4]), (56, [4]), (60, [100]),
    (64, [2]), (68, [1]), (72, [200])]

/-- Extents that overlap are in order by their first blocks. Block 3 lies in
extent 0 alone, yet it is looked up in extent 1. -/
theorem overlapping_extents_mapped_wrong :
    ExtentFile (.ofDevice fun _ => 0) (Buffer.zeros 1024) overlappingExtents ∧
      ¬ ∃ answer, Answers (.ofDevice fun _ => 0) (Buffer.zeros 1024) overlappingExtents answer ∧
        MapsCovered (.ofDevice fun _ => 0) (Buffer.zeros 1024) overlappingExtents answer := by
  refine ⟨⟨by decide, by decide, by decide, by decide, by decide +kernel, by decide +kernel⟩, ?_⟩
  rintro ⟨answer, hans, hmap⟩
  have hcovered := hmap (extInodeHdr overlappingExtents) 0 3 (.here (by decide))
    ⟨by decide, by decide⟩
  obtain ⟨b, hb⟩ := hans.fresh 3
  have hlookup : ((Blocks.new (.ofDevice fun _ => 0) (Buffer.zeros 1024)
      overlappingExtents).getExt2BlkNr noFails 3).map Prod.fst = .ok (.at 201) := by decide +kernel
  rw [hb, hcovered] at hlookup
  have h : BlkNr.mk 0 (some ((extInodeHdr overlappingExtents).eeStartLo 0 +
      (3 - (extInodeHdr overlappingExtents).eeBlock 0))) = .at 201 := Except.ok.inj hlookup
  exact absurd h (by decide)

end Ext4tc.Fs
