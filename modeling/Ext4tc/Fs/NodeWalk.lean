import Ext4tc.Fs.ExtentPath

/-! # The nodes of an extent lookup

`ext4_ext_find_extent` goes down one node a level and tests none of them. Here the nodes it
gets to are a list, cut off where a header is NULL: the list is as long as the tree is deep
exactly if the lookup comes to an end, and then nothing depends on the reads that would have
failed. -/

namespace Ext4tc.Fs
open Ext4tc.Lib Ext4tc.DiskUtils

namespace Blocks

/-- The selected entry names the block that the level stands for already. -/
abbrev Stays (blockNo : Nat) (path : List Ext4ExtPath) (ppos : Nat) (eh : Ext4ExtentHeader) :
    Prop :=
  leafAddr eh (ext4ExtBinsearchIdx eh blockNo) = (slot path ppos).pBlock

/-- The header below level `ppos`: the loaded one where the level stays, else one read anew. -/
def childHdr (fails : Nat → Bool) (b : Blocks) (blockNo : Nat) (path : List Ext4ExtPath)
    (ppos reads : Nat) (eh : Ext4ExtentHeader) : Option Ext4ExtentHeader :=
  if Stays blockNo path ppos eh then (slot path (ppos + 1)).pHdr
  else readBlock fails { b with reads := reads } (leafAddr eh (ext4ExtBinsearchIdx eh blockNo))

def childReads (blockNo : Nat) (path : List Ext4ExtPath) (ppos reads : Nat)
    (eh : Ext4ExtentHeader) : Nat :=
  if Stays blockNo path ppos eh then reads else reads + 1

/-- The nodes from level `ppos` on, with `i` levels below it. -/
def nodesFrom (fails : Nat → Bool) (b : Blocks) (blockNo : Nat) (path : List Ext4ExtPath) :
    (i ppos reads : Nat) → Ext4ExtentHeader → List Ext4ExtentHeader
  | 0, _, _, eh => [eh]
  | i + 1, ppos, reads, eh =>
    eh :: (childHdr fails b blockNo path ppos reads eh).elim [] fun child =>
      nodesFrom fails b blockNo path i (ppos + 1) (childReads blockNo path ppos reads eh) child

def depth (b : Blocks) : Nat := (extInodeHdr b.inode).ehDepth

def startPath (b : Blocks) : List Ext4ExtPath :=
  b.extentPath.getD (List.replicate (b.depth + 2) {})

/-- The nodes that a lookup gets to, from the inode's on. -/
def lookupNodes (fails : Nat → Bool) (b : Blocks) (blockNo : Nat) : List Ext4ExtentHeader :=
  nodesFrom fails b blockNo b.startPath b.depth 0 b.reads (extInodeHdr b.inode)

/-- A path, once there is one, has two slots more than the tree has levels of index nodes. -/
def PathSized (b : Blocks) : Prop := b.startPath.length = b.depth + 2

theorem pathSized_new (p : Partition) (sb : Ext4SuperBlock) (inode : Ext4Inode) :
    (new p sb inode).PathSized := List.length_replicate

section Loop

variable {fails : Nat → Bool} {b : Blocks} {blockNo : Nat}

/-- The paths say the same below level `ppos`. -/
structure SameBelow (path path' : List Ext4ExtPath) (ppos : Nat) : Prop where
  pBlock : ∀ k, ppos ≤ k → (slot path' k).pBlock = (slot path k).pBlock
  pHdr : ∀ k, ppos < k → (slot path' k).pHdr = (slot path k).pHdr

theorem SameBelow.set {path path' : List Ext4ExtPath} {ppos i : Nat}
    (h : SameBelow path path' ppos) (hi : i < ppos) (x : Ext4ExtPath) :
    SameBelow path (path'.set i x) ppos := by
  constructor
  · intro k hk
    rw [slot_set_ne (by omega), h.pBlock k hk]
  · intro k hk
    rw [slot_set_ne (by omega), h.pHdr k hk]

theorem SameBelow.setHdr {path path' : List Ext4ExtPath} {ppos : Nat}
    (h : SameBelow path path' ppos) (hdr : Option Ext4ExtentHeader) :
    SameBelow path (path'.set ppos { slot path' ppos with pHdr := hdr }) ppos := by
  constructor
  · intro k hk
    rw [slot_set]
    split
    next heq =>
      obtain ⟨rfl, -⟩ := heq
      exact h.pBlock ppos hk
    next => exact h.pBlock k hk
  · intro k hk
    rw [slot_set_ne (by omega), h.pHdr k hk]

/-- A walk goes by what is below its level. -/
theorem nodesFrom_congr (fails : Nat → Bool) (b : Blocks) (blockNo : Nat)
    {path path' : List Ext4ExtPath} : ∀ (i ppos reads : Nat) (eh : Ext4ExtentHeader),
    SameBelow path path' ppos →
    nodesFrom fails b blockNo path' i ppos reads eh = nodesFrom fails b blockNo path i ppos reads eh
  | 0, _, _, _, _ => rfl
  | i + 1, ppos, reads, eh, h => by
    have hstays : Stays blockNo path' ppos eh ↔ Stays blockNo path ppos eh := by
      rw [Stays, h.pBlock ppos (Nat.le_refl _)]
    have hbelow : SameBelow path path' (ppos + 1) :=
      ⟨fun k hk => h.pBlock k (by omega), fun k hk => h.pHdr k (by omega)⟩
    rw [nodesFrom, nodesFrom]
    simp only [childHdr, childReads, hstays, h.pHdr (ppos + 1) (Nat.lt_succ_self _)]
    exact congrArg (List.cons eh) (congrArg (Option.elim _ [])
      (funext fun child => nodesFrom_congr fails b blockNo i _ _ child hbelow))

/-- The path behind one level of the loop, with `i` levels left below it. -/
def nextPath (blockNo : Nat) (path : List Ext4ExtPath) (i ppos : Nat) (eh : Ext4ExtentHeader)
    (child : Option Ext4ExtentHeader) : List Ext4ExtPath :=
  let idx := ext4ExtBinsearchIdx eh blockNo
  let path' := path.set ppos { slot path ppos with pIdx := some idx }
  if Stays blockNo path ppos eh then path'
  else
    let path' := path'.set ppos
      { slot path' ppos with pBlock := leafAddr eh idx, pExt := none, pDepth := i + 1 }
    path'.set (ppos + 1) { slot path' (ppos + 1) with pHdr := child }

/-- **One level**: the loop goes on with the header of the child. -/
theorem extFindLoop_succ {path : List Ext4ExtPath} {ppos : Nat} {eh : Ext4ExtentHeader}
    (hhdr : (slot path ppos).pHdr = some eh) (hlen : ppos < path.length) (i reads : Nat) :
    extFindLoop fails b blockNo (i + 1) ppos path reads =
      extFindLoop fails b blockNo i (ppos + 1)
        (nextPath blockNo path i ppos eh (childHdr fails b blockNo path ppos reads eh))
        (childReads blockNo path ppos reads eh) := by
  have hself := slot_set_self hlen
    { slot path ppos with pIdx := some (ext4ExtBinsearchIdx eh blockNo) }
  rw [extFindLoop, hhdr]
  simp only [nextPath, childHdr, childReads, hself]
  by_cases hstays : Stays blockNo path ppos eh
  · simp only [if_pos hstays]
  · simp only [if_neg hstays]

theorem nextPath_spec (fails : Nat → Bool) (b : Blocks) (blockNo : Nat) {path : List Ext4ExtPath}
    {ppos : Nat} (hlen : ppos + 1 < path.length) (i reads : Nat) (eh : Ext4ExtentHeader) :
    (nextPath blockNo path i ppos eh (childHdr fails b blockNo path ppos reads eh)).length =
        path.length ∧
      SameBelow path (nextPath blockNo path i ppos eh
        (childHdr fails b blockNo path ppos reads eh)) (ppos + 1) ∧
      (slot (nextPath blockNo path i ppos eh (childHdr fails b blockNo path ppos reads eh))
        (ppos + 1)).pHdr = childHdr fails b blockNo path ppos reads eh := by
  have hbelow : SameBelow path path (ppos + 1) := ⟨fun _ _ => rfl, fun _ _ => rfl⟩
  unfold nextPath childHdr
  by_cases hstays : Stays blockNo path ppos eh
  · simp only [if_pos hstays]
    refine ⟨List.length_set, hbelow.set (Nat.lt_succ_self _) _, ?_⟩
    rw [slot_set_ne (by omega)]
  · simp only [if_neg hstays]
    refine ⟨by simp only [List.length_set], ?_, ?_⟩
    · exact ((hbelow.set (Nat.lt_succ_self _) _).set (Nat.lt_succ_self _) _).setHdr _
    · rw [slot_set_self (by simp only [List.length_set]; exact hlen)]

/-- A read that succeeds is the one that succeeds if none fails. -/
theorem childHdr_some {path : List Ext4ExtPath} {ppos reads : Nat} {eh child : Ext4ExtentHeader}
    (h : childHdr fails b blockNo path ppos reads eh = some child) :
    childHdr noFails b blockNo path ppos reads eh = some child := by
  unfold childHdr readBlock Partition.readSectorsEx at h ⊢
  split at h
  next hstays => rwa [if_pos hstays]
  next hstays =>
    rw [if_neg hstays]
    split at h
    next => exact h
    next => cases h

/-- A walk that gets to every level ends the loop in its last node, and no read on it fails. -/
theorem extFindLoop_complete : ∀ (i ppos reads : Nat) (eh : Ext4ExtentHeader)
    (path : List Ext4ExtPath), (slot path ppos).pHdr = some eh → ppos + i < path.length →
    (nodesFrom fails b blockNo path i ppos reads eh).length = i + 1 →
    ∃ path' reads' leaf, extFindLoop fails b blockNo i ppos path reads = .ok (path', reads') ∧
      extFindLoop noFails b blockNo i ppos path reads = .ok (path', reads') ∧
      path'.length = path.length ∧ (slot path' (ppos + i)).pHdr = some leaf
  | 0, ppos, reads, eh, path, hhdr, _, _ => ⟨path, reads, eh, rfl, rfl, rfl, hhdr⟩
  | i + 1, ppos, reads, eh, path, hhdr, hlen, hnodes => by
    obtain ⟨hlen', hsame, hhdr'⟩ := nextPath_spec fails b blockNo
      (show ppos + 1 < path.length by omega) i reads eh
    rw [nodesFrom] at hnodes
    rw [extFindLoop_succ hhdr (by omega), extFindLoop_succ hhdr (by omega)]
    cases hchild : childHdr fails b blockNo path ppos reads eh with
    | none =>
      rw [hchild] at hnodes
      exact absurd hnodes (by simp)
    | some child =>
      rw [hchild] at hnodes hlen' hsame hhdr'
      have hrest := Nat.succ.inj hnodes
      rw [Option.elim_some, ← nodesFrom_congr fails b blockNo i _ _ child hsame] at hrest
      obtain ⟨path', reads', leaf, hloop, hloop', hlen'', hleaf⟩ :=
        extFindLoop_complete i (ppos + 1) _ child _ hhdr' (by omega) hrest
      rw [childHdr_some hchild]
      refine ⟨path', reads', leaf, hloop, hloop', hlen''.trans hlen', ?_⟩
      rw [← hleaf, Nat.add_right_comm, Nat.add_assoc]

/-- One that does not meets NULL, in the loop or for its leaf. -/
theorem extFindLoop_cut : ∀ (i ppos reads : Nat) (eh : Ext4ExtentHeader)
    (path : List Ext4ExtPath), (slot path ppos).pHdr = some eh → ppos + i < path.length →
    (nodesFrom fails b blockNo path i ppos reads eh).length ≠ i + 1 →
    extFindLoop fails b blockNo i ppos path reads = .error .nullDeref ∨
      ∃ path' reads', extFindLoop fails b blockNo i ppos path reads = .ok (path', reads') ∧
        (slot path' (ppos + i)).pHdr = none
  | 0, _, _, _, _, _, _, hnodes => absurd rfl hnodes
  | i + 1, ppos, reads, eh, path, hhdr, hlen, hnodes => by
    obtain ⟨hlen', hsame, hhdr'⟩ := nextPath_spec fails b blockNo
      (show ppos + 1 < path.length by omega) i reads eh
    rw [nodesFrom] at hnodes
    rw [extFindLoop_succ hhdr (by omega), show ppos + (i + 1) = ppos + 1 + i by omega]
    cases hchild : childHdr fails b blockNo path ppos reads eh with
    | none =>
      rw [hchild] at hhdr'
      cases i with
      | zero => exact .inr ⟨_, _, rfl, hhdr'⟩
      | succ i =>
        rw [extFindLoop, hhdr']
        exact .inl rfl
    | some child =>
      rw [hchild] at hnodes hlen' hsame hhdr'
      have hrest : ¬_ := fun h => hnodes (congrArg Nat.succ h)
      rw [Option.elim_some, ← nodesFrom_congr fails b blockNo i _ _ child hsame] at hrest
      exact extFindLoop_cut i (ppos + 1) _ child _ hhdr' (by omega) hrest

end Loop

/-! ## One lookup -/

section Lookup

variable {fails : Nat → Bool} {b : Blocks} {blockNo : Nat}

def FindsNodes (fails : Nat → Bool) (b : Blocks) (blockNo : Nat) : Prop :=
  (b.lookupNodes fails blockNo).length = b.depth + 1

instance (fails : Nat → Bool) (b : Blocks) (blockNo : Nat) :
    Decidable (b.FindsNodes fails blockNo) :=
  inferInstanceAs (Decidable (_ = _))

def rootedPath (b : Blocks) : List Ext4ExtPath :=
  b.startPath.set 0 { slot b.startPath 0 with pHdr := some (extInodeHdr b.inode) }

theorem nodesFrom_rooted (fails : Nat → Bool) (b : Blocks) (blockNo : Nat) :
    nodesFrom fails b blockNo b.rootedPath b.depth 0 b.reads (extInodeHdr b.inode) =
      b.lookupNodes fails blockNo := by
  have hsame : SameBelow b.startPath b.startPath 0 := ⟨fun _ _ => rfl, fun _ _ => rfl⟩
  rw [lookupNodes, rootedPath, nodesFrom_congr fails b blockNo _ _ _ _ (hsame.setHdr _)]

theorem rootedPath_spec (hsized : b.PathSized) :
    b.rootedPath.length = b.depth + 2 ∧ (slot b.rootedPath 0).pHdr = some (extInodeHdr b.inode) ∧
      ((nodesFrom fails b blockNo b.rootedPath b.depth 0 b.reads (extInodeHdr b.inode)).length =
        b.depth + 1 ↔ b.FindsNodes fails blockNo) := by
  have hpos : 0 < b.startPath.length := by
    rw [hsized]
    exact Nat.succ_pos _
  refine ⟨List.length_set.trans hsized, ?_, ?_⟩
  · rw [rootedPath, slot_set_self hpos]
  · rw [FindsNodes, nodesFrom_rooted]

theorem ext4ExtFindExtent_of_loop {path : List Ext4ExtPath} {reads : Nat}
    (h : extFindLoop fails b blockNo b.depth 0 b.rootedPath b.reads = .ok (path, reads)) :
    b.ext4ExtFindExtent fails blockNo b.extentPath =
      (slot path b.depth).pHdr.elim (.error .nullDeref) fun leaf =>
        .ok (path.set b.depth (leafSlot (slot path b.depth) leaf blockNo), reads) := by
  unfold rootedPath startPath depth at h
  unfold ext4ExtFindExtent depth
  simp only [h]
  cases (slot path (extInodeHdr b.inode).ehDepth).pHdr with
  | none => rfl
  | some leaf => rfl

/-- A lookup that finds a node at every level goes through, as it does if no read fails. -/
theorem ext4ExtFindExtent_complete (hsized : b.PathSized) (h : b.FindsNodes fails blockNo) :
    ∃ path reads, b.ext4ExtFindExtent fails blockNo b.extentPath = .ok (path, reads) ∧
      b.ext4ExtFindExtent noFails blockNo b.extentPath = .ok (path, reads) ∧
      path.length = b.depth + 2 := by
  obtain ⟨hlen, hhdr, hnodes⟩ := @rootedPath_spec fails b blockNo hsized
  obtain ⟨path, reads, leaf, hloop, hloop', hlen', hleaf⟩ :=
    extFindLoop_complete b.depth 0 b.reads _ b.rootedPath hhdr (by omega) (hnodes.mpr h)
  rw [Nat.zero_add] at hleaf
  rw [ext4ExtFindExtent_of_loop hloop, ext4ExtFindExtent_of_loop hloop', hleaf]
  exact ⟨_, reads, rfl, rfl, by rw [List.length_set, hlen', hlen]⟩

/-- One that does not dereferences NULL. -/
theorem ext4ExtFindExtent_cut (hsized : b.PathSized) (h : ¬b.FindsNodes fails blockNo) :
    b.ext4ExtFindExtent fails blockNo b.extentPath = .error .nullDeref := by
  obtain ⟨hlen, hhdr, hnodes⟩ := @rootedPath_spec fails b blockNo hsized
  obtain hloop | ⟨path, reads, hloop, hleaf⟩ :=
    extFindLoop_cut b.depth 0 b.reads _ b.rootedPath hhdr (by omega) (mt hnodes.mp h)
  · unfold rootedPath startPath depth at hloop
    unfold ext4ExtFindExtent
    simp only [hloop]
  · rw [Nat.zero_add] at hleaf
    rw [ext4ExtFindExtent_of_loop hloop, hleaf, Option.elim_none]

theorem getExt2ExtentBlk_complete (hsized : b.PathSized)
    (h : (extInodeHdr b.inode).ehMagic = ext4ExtMagic → b.FindsNodes fails blockNo) :
    b.getExt2ExtentBlk fails blockNo = b.getExt2ExtentBlk noFails blockNo ∧
      ∃ r b', b.getExt2ExtentBlk noFails blockNo = .ok (r, b') ∧ b'.PathSized ∧
        ((extInodeHdr b.inode).ehMagic = ext4ExtMagic → b'.extentPath ≠ none) := by
  unfold getExt2ExtentBlk
  by_cases hmagic : (extInodeHdr b.inode).ehMagic = ext4ExtMagic
  · obtain ⟨path, reads, hfind, hfind', hlen⟩ := ext4ExtFindExtent_complete hsized (h hmagic)
    simp only [if_neg (not_not.mpr hmagic), hfind, hfind']
    refine ⟨trivial, ?_⟩
    have hsized' : PathSized { b with extentPath := some path, reads := reads } := hlen
    have hpath := Option.some_ne_none path
    split
    next => exact ⟨_, _, rfl, hsized', fun _ => hpath⟩
    next => exact ⟨_, _, rfl, hsized', fun _ => hpath⟩
  · simp only [if_pos hmagic]
    exact ⟨trivial, _, _, rfl, hsized, fun h => absurd h hmagic⟩

theorem getExt2ExtentBlk_cut (hsized : b.PathSized)
    (hmagic : (extInodeHdr b.inode).ehMagic = ext4ExtMagic) (h : ¬b.FindsNodes fails blockNo) :
    b.getExt2ExtentBlk fails blockNo = .error .nullDeref := by
  unfold getExt2ExtentBlk
  simp only [if_neg (not_not.mpr hmagic), ext4ExtFindExtent_cut hsized h]

theorem SameFile.sized {c : Blocks} (h : SameFile b c) (hpath : c.extentPath = b.extentPath)
    (hsized : b.PathSized) : c.PathSized := by
  unfold PathSized startPath depth at hsized ⊢
  rwa [h.inode, hpath]

theorem getExt2BlkNr_sized (hsized : b.PathSized) {r : BlkNr} {b' : Blocks}
    (h : b.getExt2BlkNr fails blockNo = .ok (r, b')) : b'.PathSized := by
  unfold getExt2BlkNr at h
  split at h
  next =>
    by_cases hmagic : (extInodeHdr b.inode).ehMagic = ext4ExtMagic
    · by_cases hnodes : b.FindsNodes fails blockNo
      · obtain ⟨hsame, r₁, b₁, hok, hsized', -⟩ := getExt2ExtentBlk_complete hsized fun _ => hnodes
        cases (hsame.trans hok).symm.trans h
        exact hsized'
      · cases (getExt2ExtentBlk_cut hsized hmagic hnodes).symm.trans h
    · obtain ⟨hsame, r₁, b₁, hok, hsized', -⟩ :=
        getExt2ExtentBlk_complete hsized fun h => absurd h hmagic
      cases (hsame.trans hok).symm.trans h
      exact hsized'
  next =>
    obtain ⟨hsame, hpath⟩ := getExt2NonExtentBlk_same h
    exact hsame.sized hpath hsized

theorem getExt2BlkNrs_sized {is : List Nat} {rs : List BlkNr} {b' : Blocks} (hsized : b.PathSized)
    (h : b.getExt2BlkNrs fails is = .ok (rs, b')) : b'.PathSized :=
  getExt2BlkNrs_keeps (fun _ _ _ _ hb hcall => getExt2BlkNr_sized hb hcall) hsized h

end Lookup

end Blocks

end Ext4tc.Fs
