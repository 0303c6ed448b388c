import Ext4tc.Fs.NodeWalk

/-! # The destructor of the mapper

`flush` goes by the flag and the depth of the inode: it frees the headers in the slots 1 to
`eh_depth + 1` of the path, whether there is a path or not. The path comes with the first
lookup that passes the magic test, whatever that lookup then answers. -/

namespace Ext4tc.Fs
open Ext4tc.Lib Ext4tc.DiskUtils

namespace Blocks

/-- The loop of `flush`, over `k` slots from slot `i` on: the slots that it frees. -/
def releaseSlots (path : List Ext4ExtPath) : (k i : Nat) → Except Fault (List Nat)
  | 0, _ => .ok []
  | k + 1, i =>
    match path[i]? with
    | none => .error .outOfBounds
    | some _ => (releaseSlots path k (i + 1)).map (List.cons i)

/-- `flush` with its loop. There is a slot to look at for every depth. -/
def flushSlots (b : Blocks) : Except Fault (List Nat) :=
  if b.inode.iFlags &&& ext4ExtentsFl ≠ 0 then
    match b.extentPath with
    | none => .error .nullDeref
    | some path => releaseSlots path (b.depth + 1) 1
  else .ok []

/-- The object can be destroyed: the slots 1 to `eh_depth + 1` are freed, if there are extents,
and the array has one slot more. -/
structure Destroyable (b : Blocks) : Prop where
  released : b.flushSlots =
    .ok (if b.inode.iFlags &&& ext4ExtentsFl ≠ 0 then List.range' 1 (b.depth + 1) else [])
  slots : ∀ path, b.extentPath = some path → path.length = b.depth + 2

/-- The lookups of the inode go down its tree. -/
def PassesMagic (inode : Ext4Inode) : Prop :=
  inode.iFlags &&& ext4ExtentsFl ≠ 0 ∧ (extInodeHdr inode).ehMagic = ext4ExtMagic

theorem releaseSlots_all {path : List Ext4ExtPath} : ∀ (k i : Nat), i + k ≤ path.length →
    releaseSlots path k i = .ok (List.range' i k)
  | 0, _, _ => rfl
  | k + 1, i, h => by
    have hrest := @releaseSlots_all path k (i + 1) (by omega)
    rw [releaseSlots, List.getElem?_eq_getElem (show i < path.length by omega)]
    dsimp only
    rw [hrest]
    rfl

section Flush

variable {b : Blocks}

theorem PathSized.slots (h : b.PathSized) {path : List Ext4ExtPath}
    (hpath : b.extentPath = some path) : path.length = b.depth + 2 := by
  unfold PathSized startPath at h
  rwa [hpath] at h

/-- On a path of that size the loop stays in the array, and `flush` is its loop. -/
theorem flush_eq (h : b.PathSized) : b.flush = b.flushSlots.map fun _ => () := by
  unfold flush flushSlots
  by_cases hfl : b.inode.iFlags &&& ext4ExtentsFl = 0
  · rw [if_neg (fun h => h.1 hfl), if_neg (not_not.mpr hfl)]
    rfl
  · cases hpath : b.extentPath with
    | none =>
      rw [if_pos ⟨hfl, rfl⟩, if_pos hfl]
      rfl
    | some path =>
      rw [if_neg (fun h => Bool.noConfusion h.2), if_pos hfl]
      have hlen := h.slots hpath
      have hloop := @releaseSlots_all path (b.depth + 1) 1 (by omega)
      dsimp only
      rw [hloop]
      rfl

theorem destroyable_iff_path (h : b.PathSized) :
    b.Destroyable ↔ (b.inode.iFlags &&& ext4ExtentsFl ≠ 0 → b.extentPath ≠ none) := by
  constructor
  · intro hdestroy hfl hnone
    have hreleased := hdestroy.released
    rw [flushSlots, if_pos hfl, hnone] at hreleased
    cases hreleased
  · refine fun hpath => ⟨?_, fun path => h.slots⟩
    unfold flushSlots
    by_cases hfl : b.inode.iFlags &&& ext4ExtentsFl = 0
    · rw [if_neg (not_not.mpr hfl), if_neg (not_not.mpr hfl)]
    · rw [if_pos hfl, if_pos hfl]
      cases hsome : b.extentPath with
      | none => exact absurd hsome (hpath hfl)
      | some path =>
        have hlen := h.slots hsome
        exact releaseSlots_all (b.depth + 1) 1 (by omega)

end Flush

/-! ## The runs -/

section Runs

variable {fails : Nat → Bool} {b b' : Blocks}

/-- **One call** makes the path if it passes the magic test, and else leaves it as it is. -/
theorem getExt2BlkNr_path (hsized : b.PathSized) {i : Nat} {r : BlkNr}
    (h : b.getExt2BlkNr fails i = .ok (r, b')) :
    b'.extentPath = none ↔ b.extentPath = none ∧ ¬PassesMagic b.inode := by
  unfold getExt2BlkNr at h
  by_cases hfl : b.inode.iFlags &&& ext4ExtentsFl = 0
  · rw [if_neg (not_not.mpr hfl)] at h
    rw [(getExt2NonExtentBlk_same h).2]
    exact ⟨fun hnone => ⟨hnone, fun hpass => hpass.1 hfl⟩, And.left⟩
  · rw [if_pos hfl] at h
    by_cases hmagic : (extInodeHdr b.inode).ehMagic = ext4ExtMagic
    · by_cases hnodes : b.FindsNodes fails i
      · obtain ⟨hsame, r₁, b₁, hok, -, hpath⟩ := getExt2ExtentBlk_complete hsized fun _ => hnodes
        cases (hsame.trans hok).symm.trans h
        exact iff_of_false (hpath hmagic) fun hnot => hnot.2 ⟨hfl, hmagic⟩
      · cases (getExt2ExtentBlk_cut hsized hmagic hnodes).symm.trans h
    · rw [getExt2ExtentBlk, if_pos hmagic] at h
      cases h
      exact ⟨fun hnone => ⟨hnone, fun hpass => hmagic hpass.2⟩, And.left⟩

/-- **A run** makes it with its first call, if with any. -/
theorem getExt2BlkNrs_path {is : List Nat} {rs : List BlkNr} (hsized : b.PathSized)
    (h : b.getExt2BlkNrs fails is = .ok (rs, b')) :
    b'.extentPath = none ↔ b.extentPath = none ∧ (is ≠ [] → ¬PassesMagic b.inode) := by
  induction is generalizing b rs with
  | nil =>
    cases h
    exact ⟨fun hnone => ⟨hnone, absurd rfl⟩, And.left⟩
  | cons i is ih =>
    obtain ⟨r, b₁, rest, hcall, hrun, -⟩ := getExt2BlkNrs_cons_ok h
    have hinode := (getExt2BlkNr_same hcall).1.inode
    have hcons : i :: is ≠ [] := List.cons_ne_nil i is
    rw [ih (getExt2BlkNr_sized hsized hcall) hrun, getExt2BlkNr_path hsized hcall, hinode]
    exact ⟨fun h => ⟨h.1.1, fun _ => h.1.2⟩, fun h => ⟨⟨h.1, h.2 hcons⟩, fun _ => h.2 hcons⟩⟩

end Runs

end Blocks

/-- **The object can be destroyed behind a run exactly if** its inode has no extents, or a
valid header and the run is not empty. -/
theorem destroyable_iff (fails : Nat → Bool) (p : Partition) (sb : Ext4SuperBlock)
    (inode : Ext4Inode) (is : List Nat) (rs : List BlkNr) (b : Blocks)
    (hrun : (Blocks.new p sb inode).getExt2BlkNrs fails is = .ok (rs, b)) :
    b.Destroyable ↔ inode.iFlags &&& ext4ExtentsFl = 0 ∨
      (extInodeHdr inode).ehMagic = ext4ExtMagic ∧ is ≠ [] := by
  have hsized := Blocks.getExt2BlkNrs_sized (Blocks.pathSized_new p sb inode) hrun
  have hpath := Blocks.getExt2BlkNrs_path (Blocks.pathSized_new p sb inode) hrun
  have hinode : b.inode = inode := (Blocks.getExt2BlkNrs_same hrun).inode
  have hnew : (Blocks.new p sb inode).extentPath = none := rfl
  have hmagic : Blocks.PassesMagic (Blocks.new p sb inode).inode ↔
      inode.iFlags &&& ext4ExtentsFl ≠ 0 ∧ (extInodeHdr inode).ehMagic = ext4ExtMagic := Iff.rfl
  rw [Blocks.destroyable_iff_path hsized, hinode, Ne, Ne, hpath, hmagic]
  by_cases hfl : inode.iFlags &&& ext4ExtentsFl = 0
  · simp [hfl]
  · simp only [hfl, hnew, not_false_eq_true, true_implies, true_and, false_or]
    tauto

def emptyRoot : Ext4Inode := (Buffer.zeros 128).pokes [(34, [8]), (40, [0x0a, 0xf3])]

/-- A lookup in it fails, and then the object can be destroyed. -/
theorem destroyable_emptyRoot :
    ∃ b, (Blocks.new (.ofDevice fun _ => 0) (Buffer.zeros 1024) emptyRoot).getExt2BlkNrs
      (fun _ => true) [0] = .ok ([.failed], b) ∧ b.Destroyable := by
  have hrun : ∃ b, (Blocks.new (.ofDevice fun _ => 0) (Buffer.zeros 1024) emptyRoot).getExt2BlkNrs
      (fun _ => true) [0] = .ok ([.failed], b) := ⟨_, rfl⟩
  obtain ⟨b, hrun⟩ := hrun
  refine ⟨b, hrun, (destroyable_iff _ _ _ _ _ _ _ hrun).mpr (.inr ⟨?_, ?_⟩)⟩
  · decide
  · decide

/-- An object for an inode with extents that is destroyed before any lookup, as that of an
empty directory is. -/
theorem unused_object_crashes :
    ¬∀ (fails : Nat → Bool) (p : Partition) (sb : Ext4SuperBlock) (inode : Ext4Inode)
      (is : List Nat) (rs : List BlkNr) (b : Blocks),
      (Blocks.new p sb inode).getExt2BlkNrs fails is = .ok (rs, b) → b.Destroyable := by
  intro h
  have hdestroy := h noFails (.ofDevice fun _ => 0) (Buffer.zeros 1024) emptyRoot [] [] _ rfl
  have hcrash : (Blocks.new (.ofDevice fun _ => 0) (Buffer.zeros 1024) emptyRoot).flushSlots =
      .error .nullDeref := rfl
  cases hcrash.symm.trans hdestroy.released

end Ext4tc.Fs
