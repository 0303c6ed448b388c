import Ext4tc.Fs.NodeWalk

/-! # Searching the nodes of an extent tree

`ext4_ext_binsearch_idx` and `ext4_ext_binsearch` keep two pointers into a node that cross at
the end. They go by `eh_entries` alone: nothing compares it with the bytes that the node has,
and the search of an index node takes its first entry even if there is none. -/

namespace Ext4tc.Fs
open Ext4tc.Lib Ext4tc.DiskUtils

namespace Blocks

/-! ## The two searches -/

/-- The pointers of `ext4_ext_binsearch_idx` as positions, the first entry's being 0: where
`p_idx` points after at most `fuel` rounds. -/
def binsearchIdxLoop (eh : Ext4ExtentHeader) (blockNo fuel : Nat) : Option Int :=
  bisect eh.eiBlock blockNo fuel 1 (eh.ehEntries - 1)

/-- Those of `ext4_ext_binsearch`, for a node that is not empty. -/
def binsearchLoop (eh : Ext4ExtentHeader) (blockNo fuel : Nat) : Option Int :=
  bisect eh.eeBlock blockNo fuel 1 (eh.ehEntries - 1)

/-- A loop ends at entry `j` of the `n`, which is the last one not above `x`, or the first one
where there is none, if the entries are sorted. -/
structure FindsRightmost (loop : Nat → Option Int) (key : Nat → Nat) (n x j : Nat) : Prop where
  ends : ∀ fuel, n ≤ fuel → loop fuel = some (j : Int)
  among : j < n
  last : Sorted key n → IsRightmost key n x j

theorem bisect_findsRightmost (key : Nat → Nat) {n : Nat} (hn : 1 ≤ n) (x : Nat) :
    FindsRightmost (fun fuel => bisect key x fuel 1 (n - 1)) key n x (rightmost key n x) where
  ends fuel hfuel := bisect_eq key x 1 n (Nat.le_refl 1) hn fuel (by omega)
  among := rightmost_lt key x hn
  last hs := rightmost_sorted hs hn x

/-- **Both searches of a node** end, whether or not it is sorted, at the rightmost of its
entries that is not above the block. -/
theorem node_searches_rightmost (eh : Ext4ExtentHeader) (blockNo : Nat) (hn : 1 ≤ eh.ehEntries) :
    FindsRightmost (binsearchIdxLoop eh blockNo) eh.eiBlock eh.ehEntries blockNo
        (ext4ExtBinsearchIdx eh blockNo) ∧
      ∃ j, ext4ExtBinsearch eh blockNo = some j ∧
        FindsRightmost (binsearchLoop eh blockNo) eh.eeBlock eh.ehEntries blockNo j := by
  refine ⟨bisect_findsRightmost eh.eiBlock hn blockNo, rightmost eh.eeBlock eh.ehEntries blockNo,
    ?_, bisect_findsRightmost eh.eeBlock hn blockNo⟩
  rw [ext4ExtBinsearch, if_neg (Nat.ne_of_gt hn)]

def threeEntries : Ext4ExtentHeader := (Buffer.zeros 60).pokes [(2, [3]), (24, [5]), (36, [5])]

theorem node_searches_rightmost_threeEntries :
    FindsRightmost (binsearchIdxLoop threeEntries 5) threeEntries.eiBlock threeEntries.ehEntries 5
        (ext4ExtBinsearchIdx threeEntries 5) ∧
      ∃ j, ext4ExtBinsearch threeEntries 5 = some j ∧
        FindsRightmost (binsearchLoop threeEntries 5) threeEntries.eeBlock
          threeEntries.ehEntries 5 j :=
  node_searches_rightmost threeEntries 5 (by decide)

/-! ## What a lookup dereferences -/

/-- An entry of a node that is dereferenced, on a level of the tree. -/
structure Deref where
  level : Nat
  node : Ext4ExtentHeader
  entry : Nat

/-- The entries of a node that its search and the use of its answer dereference. A leaf
without entries is left alone. -/
def nodeDerefs (blockNo : Nat) (leaf : Bool) (eh : Ext4ExtentHeader) : List Nat :=
  if leaf then if eh.ehEntries = 0 then [] else lookedAt eh.eeBlock eh.ehEntries blockNo
  else lookedAt eh.eiBlock eh.ehEntries blockNo

/-- What `ext4_ext_find_extent` dereferences in its loop and behind it, from the states of
`extFindLoop`; nothing more behind a header that is NULL. -/
def extFindDerefs (fails : Nat → Bool) (b : Blocks) (blockNo : Nat) :
    (i ppos : Nat) → List Ext4ExtPath → Nat → List Deref
  | 0, ppos, path, _ =>
    match (slot path ppos).pHdr with
    | none => []
    | some leaf => (nodeDerefs blockNo true leaf).map fun entry => ⟨ppos, leaf, entry⟩
  | i + 1, ppos, path, reads =>
    match (slot path ppos).pHdr with
    | none => []
    | some eh =>
      (nodeDerefs blockNo false eh).map (fun entry => ⟨ppos, eh, entry⟩) ++
        extFindDerefs fails b blockNo i (ppos + 1)
          (nextPath blockNo path i ppos eh (childHdr fails b blockNo path ppos reads eh))
          (childReads blockNo path ppos reads eh)

/-- What a lookup through the extents dereferences. -/
def lookupDerefs (fails : Nat → Bool) (b : Blocks) (blockNo : Nat) : List Deref :=
  extFindDerefs fails b blockNo b.depth 0 b.rootedPath b.reads

def nodeBytes (bs level : Nat) : Nat := if level = 0 then 60 else bs

/-- The entry is one of its node's, and inside its bytes. -/
def Deref.Inside (bs : Nat) (d : Deref) : Prop :=
  d.entry < d.node.ehEntries ∧ Ext4ExtentHeader.entryOff d.entry + 12 ≤ nodeBytes bs d.level

/-- The lookup dereferences entries of its nodes only, and inside their bytes. -/
def ReadsInside (fails : Nat → Bool) (b : Blocks) (bs blockNo : Nat) : Prop :=
  ∀ d ∈ b.lookupDerefs fails blockNo, d.Inside bs

def nodeCapacity (bs level : Nat) : Nat := (nodeBytes bs level - 12) / 12

/-- The node on level `k` is no empty index node, and a count that is too large for its bytes
does not come up: the search turns to the left at an entry that they hold. -/
structure NodeSound (bs : Nat) (b : Blocks) (blockNo k : Nat) (eh : Ext4ExtentHeader) : Prop where
  nonempty : k < b.depth → 1 ≤ eh.ehEntries
  fits : eh.ehEntries ≤ nodeCapacity bs k ∨ ∃ m ∈ rightTurns 1 eh.ehEntries,
    m < nodeCapacity bs k ∧ blockNo < eh.eiBlock m

section Derefs

variable {fails : Nat → Bool} {bs : Nat} {b : Blocks} {blockNo : Nat}

theorem inside_iff (level : Nat) (eh : Ext4ExtentHeader) (i : Nat) :
    Deref.Inside bs ⟨level, eh, i⟩ ↔ i < eh.ehEntries ∧ i < nodeCapacity bs level := by
  unfold Deref.Inside Ext4ExtentHeader.entryOff nodeCapacity
  dsimp only
  omega

/-- **One node**: a search stays inside exactly if the node is sound. -/
theorem nodeDerefs_inside_iff {k : Nat} {leaf : Bool} (hleaf : leaf = true ↔ ¬k < b.depth)
    (eh : Ext4ExtentHeader) :
    (∀ i ∈ nodeDerefs blockNo leaf eh, Deref.Inside bs ⟨k, eh, i⟩) ↔
      b.NodeSound bs blockNo k eh := by
  have hsearch := lookedAt_below_iff eh.eiBlock eh.ehEntries blockNo (nodeCapacity bs k)
  simp only [inside_iff]
  cases leaf with
  | false =>
    have hindex : k < b.depth := not_not.mp fun h => Bool.noConfusion (hleaf.mpr h)
    rw [nodeDerefs, if_neg Bool.false_ne_true, hsearch]
    exact ⟨fun h => ⟨fun _ => h.1, h.2⟩, fun h => ⟨h.nonempty hindex, h.fits⟩⟩
  | true =>
    have hbottom := hleaf.mp rfl
    rw [nodeDerefs, if_pos rfl]
    split
    next hempty =>
      refine iff_of_true (fun i hi => absurd hi List.not_mem_nil) ⟨fun h => absurd h hbottom, ?_⟩
      exact .inl (hempty ▸ Nat.zero_le _)
    next hne =>
      -- index entries and extents begin with the same field
      refine hsearch.trans ⟨fun h => ⟨fun h => absurd h hbottom, h.2⟩, fun h => ⟨?_, h.fits⟩⟩
      exact Nat.pos_of_ne_zero hne

theorem forall_getElem?_cons {α : Type} {P : Nat → α → Prop} {x : α} {l : List α} :
    (∀ k a, (x :: l)[k]? = some a → P k a) ↔ P 0 x ∧ ∀ k a, l[k]? = some a → P (k + 1) a := by
  constructor
  · exact fun h => ⟨h 0 x rfl, fun k a hk => h (k + 1) a hk⟩
  · rintro ⟨hx, hl⟩ k a hk
    cases k with
    | zero => exact Option.some.inj hk ▸ hx
    | succ k => exact hl k a hk

/-- **A walk** stays inside its nodes exactly if each of them is sound. -/
theorem extFindDerefs_inside_iff : ∀ (i ppos reads : Nat) (eh : Ext4ExtentHeader)
    (path : List Ext4ExtPath), (slot path ppos).pHdr = some eh → ppos + i < path.length →
    ppos + i = b.depth →
    ((∀ d ∈ extFindDerefs fails b blockNo i ppos path reads, Deref.Inside bs d) ↔
      ∀ k node, (nodesFrom fails b blockNo path i ppos reads eh)[k]? = some node →
        b.NodeSound bs blockNo (ppos + k) node)
  | 0, ppos, reads, eh, path, hhdr, _, hdepth => by
    rw [extFindDerefs, hhdr, nodesFrom, forall_getElem?_cons]
    dsimp only
    rw [List.forall_mem_map,
      nodeDerefs_inside_iff (show true = true ↔ ¬ppos < b.depth from by simp; omega)]
    exact ⟨fun h => ⟨h, fun k node hk => by cases hk⟩, And.left⟩
  | i + 1, ppos, reads, eh, path, hhdr, hlen, hdepth => by
    obtain ⟨hlen', hsame, hhdr'⟩ := nextPath_spec fails b blockNo
      (show ppos + 1 < path.length by omega) i reads eh
    rw [extFindDerefs, hhdr, nodesFrom, forall_getElem?_cons]
    dsimp only
    rw [List.forall_mem_append, List.forall_mem_map,
      nodeDerefs_inside_iff (show false = true ↔ ¬ppos < b.depth from by simp; omega)]
    refine and_congr Iff.rfl ?_
    cases hchild : childHdr fails b blockNo path ppos reads eh with
    | none =>
      -- nothing is dereferenced behind a header that is NULL
      rw [hchild] at hhdr'
      refine iff_of_true (fun d hd => ?_) fun k node hk => by cases hk
      cases i <;>
      · rw [extFindDerefs, hhdr'] at hd
        cases hd
    | some child =>
      rw [hchild] at hhdr' hsame hlen'
      rw [Option.elim_some, ← nodesFrom_congr fails b blockNo i _ _ child hsame,
        extFindDerefs_inside_iff i (ppos + 1) _ child _ hhdr' (by omega) (by omega)]
      simp only [Nat.add_assoc, Nat.add_comm 1]

end Derefs

end Blocks

/-- **The lookups of a file read inside the nodes they get to exactly if these are sound.** -/
theorem extent_lookup_inside_iff (fails : Nat → Bool) (p : Partition) (sb : Ext4SuperBlock)
    (inode : Ext4Inode) (is : List Nat) (rs : List BlkNr) (b : Blocks)
    (hrun : (Blocks.new p sb inode).getExt2BlkNrs fails is = .ok (rs, b)) (blockNo : Nat) :
    b.ReadsInside fails sb.blockSize blockNo ↔
      ∀ k node, (b.lookupNodes fails blockNo)[k]? = some node →
        b.NodeSound sb.blockSize blockNo k node := by
  have hsized := Blocks.getExt2BlkNrs_sized (Blocks.pathSized_new p sb inode) hrun
  obtain ⟨hlen, hhdr, -⟩ := @Blocks.rootedPath_spec fails b blockNo hsized
  rw [Blocks.ReadsInside, Blocks.lookupDerefs, Blocks.extFindDerefs_inside_iff b.depth 0 b.reads _
    b.rootedPath hhdr (by omega) (Nat.zero_add _), Blocks.nodesFrom_rooted]
  simp only [Nat.zero_add]

/-- An inode whose extent root claims `n` entries. All its blocks are 0. -/
def rootOf (n : UInt8) : Ext4Inode :=
  (Buffer.zeros 128).pokes [(34, [8]), (40, [0x0a, 0xf3, n])]

theorem twoLeaves_nodes :
    (Blocks.new twoLeavesDisk (Buffer.zeros 1024) twoLeaves).lookupNodes noFails 8 =
      [extInodeHdr twoLeaves, twoLeavesDisk.block 1024 51] := by
  have hinode : (Blocks.new twoLeavesDisk (Buffer.zeros 1024) twoLeaves).inode = twoLeaves := rfl
  have hdepth : (Blocks.new twoLeavesDisk (Buffer.zeros 1024) twoLeaves).depth = 1 := by decide
  have haddr : Blocks.leafAddr (extInodeHdr twoLeaves)
      (Blocks.ext4ExtBinsearchIdx (extInodeHdr twoLeaves) 8) = 51 := by decide +kernel
  have hslot : (Blocks.slot
      (Blocks.new twoLeavesDisk (Buffer.zeros 1024) twoLeaves).startPath 0).pBlock = 0 := by decide
  have hread := @Blocks.readBlock_of_sector_512 noFails
    { Blocks.new twoLeavesDisk (Buffer.zeros 1024) twoLeaves with reads := 0 } 1024 51 rfl
    (by decide) (by decide) rfl
  have hchild : Blocks.childHdr noFails (.new twoLeavesDisk (Buffer.zeros 1024) twoLeaves) 8
      (Blocks.new twoLeavesDisk (Buffer.zeros 1024) twoLeaves).startPath 0
      (Blocks.new twoLeavesDisk (Buffer.zeros 1024) twoLeaves).reads
      (extInodeHdr twoLeaves) = some (twoLeavesDisk.block 1024 51) := by
    simp only [Blocks.childHdr, Blocks.Stays, haddr, hslot]
    rw [if_neg (by decide)]
    exact hread
  rw [Blocks.lookupNodes, hdepth, hinode, Blocks.nodesFrom, hchild, Option.elim_some,
    Blocks.nodesFrom]

/-- A lookup that goes on from the root's index entries to a leaf. -/
theorem extent_lookup_inside_twoLeaves :
    (Blocks.new twoLeavesDisk (Buffer.zeros 1024) twoLeaves).ReadsInside noFails
      (Ext4SuperBlock.blockSize (Buffer.zeros 1024)) 8 := by
  refine (extent_lookup_inside_iff noFails _ _ _ [] [] _ rfl 8).mpr fun k node hk => ?_
  rw [twoLeaves_nodes] at hk
  rcases k with _ | _ | k
  · cases hk
    exact ⟨fun _ => by decide, .inl (by decide)⟩
  · cases hk
    exact ⟨fun h => absurd h (by decide), .inl (by decide +kernel)⟩
  · cases hk

/-- A root that claims one entry more than its 60 bytes hold: the search goes on to it. -/
theorem overfull_root_leaves_inode :
    ¬∀ (fails : Nat → Bool) (p : Partition) (sb : Ext4SuperBlock) (inode : Ext4Inode)
      (is : List Nat) (rs : List BlkNr) (b : Blocks),
      (extInodeHdr inode).ehMagic = ext4ExtMagic →
        (Blocks.new p sb inode).getExt2BlkNrs fails is = .ok (rs, b) →
          ∀ blockNo, b.ReadsInside fails sb.blockSize blockNo := by
  intro h
  have hinside := h noFails (.ofDevice fun _ => 0) (Buffer.zeros 1024) (rootOf 5) [] [] _ rfl rfl 0
  have hsound := (@Blocks.nodeDerefs_inside_iff 1024
    (.new (.ofDevice fun _ => 0) (Buffer.zeros 1024) (rootOf 5)) 0 0 true (by decide)
    (extInodeHdr (rootOf 5))).mp fun i hi => hinside _ (List.mem_map_of_mem hi)
  obtain hfits | ⟨m, -, hm, hturn⟩ := hsound.fits
  · exact absurd hfits (by decide)
  · have hkeys : ∀ m < 4, ¬0 < (extInodeHdr (rootOf 5)).eiBlock m := by decide
    exact hkeys m hm hturn

end Ext4tc.Fs
