import Ext4tc.DiskUtils.DirHeap
import Ext4tc.Plugin.GetFile

/-! # The tables of the plugin on the heap

The walks of the plugin with the pointers that they follow: the table of the plugin is an
array of entries on the heap, which a load deletes before it makes another, and a lookup of
a file has tables of its own. The walks on the heap answer as those whose tables are values,
and they delete each table once. -/

namespace Ext4tc.Plugin
open Ext4tc.Lib Ext4tc.Fs Ext4tc.DiskUtils
open Ext4tc.DiskUtils.OnHeap (derefSlot derefEntry deleteTable PointsTo Held Lost SameResult
  slotsOf entryObjects derefTable_held mem_entryObjects getElem?_slotsOf getElem?_slotsOf_behind
  deleteTable_held)

/-- `get_dir_entry` of a partition, on a heap. -/
abbrev HeapReader (σ : Type) :=
  σ → (diskNo partNoMap inodeNr : Nat) → DirHeap → Except Fault (OnHeap.DirResult × σ)

/-- `dir_entries` and `dir_entry_num`, or the variables of a lookup that are like them, along
with the disks and the heap. -/
structure HeapTable (σ : Type) where
  hardDisks : σ
  heap : DirHeap
  dirs : Option Nat
  num : Nat

/-- The variables of `get_ext2_inode`. -/
structure HeapWalk (σ : Type) extends HeapTable σ where
  found : Bool

namespace OnHeap

/-! ## The code -/

/-- The loops over the entries: the first one that `p` picks, by its index and its pointer. -/
def findEntry (h : DirHeap) (tab : Option Nat) (p : Ext4DirEntry2 → Bool) :
    (k i : Nat) → Except Fault (Option (Nat × Nat))
  | 0, _ => .ok none
  | k + 1, i =>
    match derefSlot h tab i with
    | .error fault => .error fault
    | .ok ptr =>
      match derefEntry h ptr with
      | .error fault => .error fault
      | .ok dir => if p dir then .ok (some (i, ptr)) else findEntry h tab p k (i + 1)

def freeExt2DirEntries (h : DirHeap) (tab : Option Nat) (num : Nat) : Except Fault DirHeap :=
  match tab with
  | none => .ok h
  | some t => deleteTable h (some t) num

section Code

variable {σ : Type} (read : HeapReader σ) (diskNo partNoMap : Nat)

def loadExt2DirEntry (descr : HeapTable σ) (inodeNum : Nat) :
    Except Fault (Bool × HeapTable σ) :=
  match freeExt2DirEntries descr.heap descr.dirs descr.num with
  | .error fault => .error fault
  | .ok heap =>
    match read descr.hardDisks diskNo partNoMap inodeNum heap with
    | .error fault => .error fault
    | .ok (result, hardDisks) =>
      .ok (result.table.isSome,
        ⟨hardDisks, result.heap, result.table, result.readDirs.getD descr.num⟩)

/-- The loop of `get_first_dir_entry` over the components. -/
def enterComponents : List (Nat × List UInt8) → HeapTable σ → Except Fault (Bool × HeapTable σ)
  | [], descr => .ok (true, descr)
  | (_, word) :: words, descr =>
    match findEntry descr.heap descr.dirs (isNamed word) descr.num 0 with
    | .error fault => .error fault
    | .ok none => enterComponents words descr
    | .ok (some (_, ptr)) =>
      match derefEntry descr.heap ptr with
      | .error fault => .error fault
      | .ok dir =>
        match loadExt2DirEntry read diskNo partNoMap descr dir.inode with
        | .error fault => .error fault
        | .ok (false, descr) => .ok (false, descr)
        | .ok (true, descr) => enterComponents words descr

/-- What `get_first_dir_entry` returns: a pointer. -/
structure FirstEntry where
  dir : Option Nat
  numEntry : Option Nat

/-- The scan that ends `get_first_dir_entry`. -/
def firstListed (descr : HeapTable σ) : Except Fault FirstEntry :=
  match findEntry descr.heap descr.dirs isListed descr.num 0 with
  | .error fault => .error fault
  | .ok none => .ok ⟨none, some descr.num⟩
  | .ok (some (i, ptr)) => .ok ⟨some ptr, some i⟩

def getFirstDirEntry (descr : HeapTable σ) (path : List UInt8) :
    Except Fault (FirstEntry × HeapTable σ) :=
  match loadExt2DirEntry read diskNo partNoMap descr ext4RootIno with
  | .error fault => .error fault
  | .ok (false, descr) => .ok (⟨none, none⟩, descr)
  | .ok (true, descr) =>
    match enterComponents read diskNo partNoMap (components path) descr with
    | .error fault => .error fault
    | .ok (false, descr) => .ok (⟨none, none⟩, descr)
    | .ok (true, descr) =>
      match firstListed descr with
      | .error fault => .error fault
      | .ok first => .ok (first, descr)

def getNextDirEntry (descr : HeapTable σ) (numLastEntry : Nat) :
    Except Fault (Option Nat × Nat) :=
  if descr.dirs.isNone ∨ descr.num ≤ numLastEntry then .ok (none, numLastEntry)
  else
    match findEntry descr.heap descr.dirs isListed (descr.num - (numLastEntry + 1))
      (numLastEntry + 1) with
    | .error fault => .error fault
    | .ok none => .ok (none, numLastEntry)
    | .ok (some (i, ptr)) => .ok (some ptr, i)

/-- The loop of `get_ext2_inode` over the components before the last one. -/
def walkComponents : List (Nat × List UInt8) → HeapWalk σ → Except Fault (Bool × HeapWalk σ)
  | [], walk => .ok (true, walk)
  | (_, word) :: words, walk =>
    match findEntry walk.heap walk.dirs
      (fun dir => isNamed word dir && dir.fileType == ext4FtDir) walk.num 0 with
    | .error fault => .error fault
    | .ok none => if walk.found then walkComponents words walk else .ok (false, walk)
    | .ok (some (_, ptr)) =>
      match derefEntry walk.heap ptr with
      | .error fault => .error fault
      | .ok dir =>
        match freeExt2DirEntries walk.heap walk.dirs walk.num with
        | .error fault => .error fault
        | .ok heap =>
          match read walk.hardDisks diskNo partNoMap dir.inode heap with
          | .error fault => .error fault
          | .ok (result, hardDisks) =>
            walkComponents words
              ⟨⟨hardDisks, result.heap, result.table, result.readDirs.getD walk.num⟩, true⟩

/-- The loop over the last directory, and the two ends of `get_ext2_inode`. -/
def lookUpFile (parts : Partitions σ) (word : List UInt8) (walk : HeapTable σ) :
    Except Fault (FoundInode × (σ × DirHeap)) :=
  match findEntry walk.heap walk.dirs (isFileNamed word) walk.num 0 with
  | .error fault => .error fault
  | .ok none =>
    match freeExt2DirEntries walk.heap walk.dirs walk.num with
    | .error fault => .error fault
    | .ok heap => .ok (⟨none, none⟩, (walk.hardDisks, heap))
  | .ok (some (_, ptr)) =>
    match derefEntry walk.heap ptr with
    | .error fault => .error fault
    | .ok dir =>
      match parts.getExt4Inode walk.hardDisks diskNo partNoMap dir.inode with
      | .error fault => .error fault
      | .ok (inode, hardDisks) =>
        match freeExt2DirEntries walk.heap walk.dirs walk.num with
        | .error fault => .error fault
        | .ok heap => .ok (⟨inode, some dir.inode⟩, (hardDisks, heap))

def getExt2Inode (parts : Partitions σ) (hardDisks : σ) (heap : DirHeap) (path : List UInt8) :
    Except Fault (FoundInode × (σ × DirHeap)) :=
  match read hardDisks diskNo partNoMap ext4RootIno heap with
  | .error fault => .error fault
  | .ok (result, hardDisks) =>
    if maxPath ≤ path.length then .error .outOfBounds
    else
      match strchr separator (path.drop 1) with
      | none => .error .nullDeref
      | some k =>
        let word := path.drop (k + 1)
        let ptr := (strrchr separator word).getD 0 + 1
        match walkComponents read diskNo partNoMap
            ((strtok separator 1 (word.drop 1)).takeWhile fun t => t.1 ≠ ptr)
            ⟨⟨hardDisks, result.heap, result.table, result.readDirs.getD 0⟩, false⟩ with
        | .error fault => .error fault
        | .ok (true, walk) =>
          lookUpFile diskNo partNoMap parts (word.drop ptr) walk.toHeapTable
        | .ok (false, walk) =>
          match freeExt2DirEntries walk.heap walk.dirs walk.num with
          | .error fault => .error fault
          | .ok heap => .ok (⟨none, none⟩, (walk.hardDisks, heap))

end Code

end OnHeap

/-! ## Tables as values -/

/-- Partitions that count the entries that their directory reads lose. -/
def Partitions.counting {σ : Type} (parts : Partitions σ)
    (lost : σ → (diskNo partNoMap inodeNr : Nat) → Nat) : Partitions (σ × Nat) where
  getDirEntry s diskNo partNoMap n :=
    (parts.getDirEntry s.1 diskNo partNoMap n).map fun (result, disks) =>
      (result, (disks, s.2 + lost s.1 diskNo partNoMap n))
  getExt4Inode s diskNo partNoMap n :=
    (parts.getExt4Inode s.1 diskNo partNoMap n).map fun (inode, disks) => (inode, (disks, s.2))

theorem Partitions.counting_getDirEntry {σ : Type} (parts : Partitions σ)
    (lost : σ → (diskNo partNoMap inodeNr : Nat) → Nat) (s : σ × Nat) (diskNo partNoMap n : Nat) :
    (parts.counting lost).getDirEntry s diskNo partNoMap n =
      (parts.getDirEntry s.1 diskNo partNoMap n).map fun (result, disks) =>
        (result, (disks, s.2 + lost s.1 diskNo partNoMap n)) := rfl

theorem Partitions.counting_getExt4Inode {σ : Type} (parts : Partitions σ)
    (lost : σ → (diskNo partNoMap inodeNr : Nat) → Nat) (s : σ × Nat) (diskNo partNoMap n : Nat) :
    (parts.counting lost).getExt4Inode s diskNo partNoMap n =
      (parts.getExt4Inode s.1 diskNo partNoMap n).map fun (inode, disks) =>
        (inode, (disks, s.2)) := rfl

/-- The directory reads of partitions are made on a heap, and a table comes with its length. -/
structure ReadsOnHeap {σ : Type} (read : HeapReader σ) (parts : Partitions σ)
    (lost : σ → (diskNo partNoMap inodeNr : Nat) → Nat) : Prop where
  dir : ∀ s diskNo partNoMap n h frame, h.Holds frame →
    Both (fun out out' => out.2 = out'.2 ∧
        SameResult frame (lost s diskNo partNoMap n) out.1 out'.1)
      (read s diskNo partNoMap n h) (parts.getDirEntry s diskNo partNoMap n)
  counted : ∀ s diskNo partNoMap n dirs num s',
    parts.getDirEntry s diskNo partNoMap n = .ok (⟨some dirs, num⟩, s') → num = some dirs.length

namespace OnHeap

inductive PtrTo (h : DirHeap) : Option Nat → Option Ext4DirEntry2 → Prop
  | null : PtrTo h none none
  | entry {ptr dir} (hdir : derefEntry h ptr = .ok dir) : PtrTo h (some ptr) (some dir)

inductive Found (h : DirHeap) : Option (Nat × Nat) → Option (Nat × Ext4DirEntry2) → Prop
  | none : Found h none none
  | some {i ptr dir} (hdir : derefEntry h ptr = .ok dir) : Found h (some (i, ptr)) (some (i, dir))

section Relations

variable {σ : Type}

/-- The heap holds the table, the lost entries that were counted, and what it held besides. -/
structure Stands (frame : Multiset (Nat × DirObject)) (s : HeapTable σ)
    (t : Ext4PluginDescr (σ × Nat)) : Prop where
  disks : s.hardDisks = t.hardDisks.1
  num : s.num = t.dirEntryNum
  sized : Sized t
  held : Held frame t.hardDisks.2 t.dirEntries s.dirs s.heap

structure StandsWalk (frame : Multiset (Nat × DirObject)) (walk : HeapWalk σ)
    (walk' : InodeWalk (σ × Nat)) : Prop where
  table : Stands frame walk.toHeapTable ⟨walk'.hardDisks, walk'.dirs, walk'.entryNum⟩
  found : walk.found = walk'.found

/-- There is no table but what was there besides. -/
structure Cleared (frame : Multiset (Nat × DirObject)) (s : σ × DirHeap) (d : σ × Nat) : Prop where
  disks : s.1 = d.1
  held : ∃ gone, Lost d.2 gone ∧ s.2.Holds (gone + frame)

end Relations

/-! ## Scans -/

section Scans

variable {h : DirHeap} {rest : Multiset (Nat × DirObject)} {tab : Option Nat}
  {table : Option (List Ext4DirEntry2)} {objs : Multiset (Nat × DirObject)}

theorem isSome_of_pointsTo (hpoints : PointsTo tab table objs) : tab.isSome = table.isSome := by
  cases hpoints <;> rfl

/-- A scan follows the pointers of the array, and fails where there is none. -/
theorem findEntry_held (hpoints : PointsTo tab table objs) (hh : h.Holds (objs + rest))
    (p : Ext4DirEntry2 → Bool) (k i : Nat) :
    Both (Found h) (findEntry h tab p k i) (Plugin.findEntry table p k i) := by
  induction k generalizing i with
  | zero => exact .ok .none
  | succ k ih =>
    cases hpoints with
    | null => exact .error _
    | @table t ptrs dirs hlen =>
      rw [findEntry, Plugin.findEntry]
      have htable := derefTable_held hh (Multiset.mem_add.mpr (.inl (Multiset.mem_cons_self _ _)))
      by_cases hi : i < dirs.length
      · have hi' : i < ptrs.length := by omega
        have hentry : derefEntry h ptrs[i] = .ok dirs[i] := by
          have hmem : (ptrs[i], DirObject.entry dirs[i]) ∈
              (t, DirObject.table (slotsOf ptrs (chunkSize * chunksFor dirs.length))) ::ₘ
                entryObjects ptrs dirs + rest :=
            Multiset.mem_add.mpr (.inl (Multiset.mem_cons_of_mem (mem_entryObjects hi' hi)))
          simp only [derefEntry, hh.read hmem]
        simp only [derefSlot, htable, getElem?_slotsOf hi', hentry, List.getElem?_eq_getElem hi]
        cases p dirs[i] with
        | true => exact .ok (.some hentry)
        | false => exact ih (i + 1)
      · have hbehind : dirs[i]? = none := List.getElem?_eq_none (by omega)
        have hslot : derefSlot h (some t) i = .error .outOfBounds := by
          simp only [derefSlot, htable]
          split
          next ptr hptr => exact absurd hptr (getElem?_slotsOf_behind (by omega) ptr)
          next => rfl
        rw [hslot, hbehind]
        exact .error _

end Scans

/-! ## The walks -/

section Walks

variable {σ : Type} {read : HeapReader σ} {parts : Partitions σ}
  {lost : σ → (diskNo partNoMap inodeNr : Nat) → Nat} {frame : Multiset (Nat × DirObject)}
  {s : HeapTable σ} {t : Ext4PluginDescr (σ × Nat)}

theorem Stands.find (h : Stands frame s t) (p : Ext4DirEntry2 → Bool) (k i : Nat) :
    Both (Found s.heap) (findEntry s.heap s.dirs p k i) (Plugin.findEntry t.dirEntries p k i) := by
  obtain ⟨objs, gone, hpoints, -, hh⟩ := h.held
  exact findEntry_held hpoints hh p k i

/-- **A table is deleted as a whole**, with what its count says. -/
theorem Stands.free (h : Stands frame s t) :
    Plugin.freeExt2DirEntries t.dirEntries t.dirEntryNum = .ok () ∧
      ∃ heap, freeExt2DirEntries s.heap s.dirs s.num = .ok heap ∧
        Cleared frame (s.hardDisks, heap) t.hardDisks := by
  refine ⟨h.sized.free, ?_⟩
  have hsized := h.sized
  obtain ⟨objs, gone, hpoints, hgone, hh⟩ := h.held
  rw [h.num]
  unfold Sized at hsized
  generalize s.dirs = tab at hpoints
  generalize t.dirEntries = table at hpoints hsized
  cases hpoints with
  | null => exact ⟨s.heap, rfl, h.disks, gone, hgone, by rwa [Multiset.zero_add] at hh⟩
  | @table p ptrs dirs hlen =>
    rw [hsized dirs rfl]
    rw [Multiset.cons_add] at hh
    obtain ⟨heap, hdelete, hheap⟩ := deleteTable_held (k := dirs.length) hlen (by omega) hh
    refine ⟨heap, hdelete, h.disks, gone, hgone, ?_⟩
    rwa [List.drop_of_length_le (by omega), entryObjects, List.zip_nil_left, Multiset.coe_nil,
      Multiset.zero_add] at hheap

variable (hr : ReadsOnHeap read parts lost) (diskNo partNoMap : Nat)
include hr

/-- A read where there is no table leaves one, and counts what it lost. -/
theorem Cleared.readDir {heap : DirHeap} {disks : σ} {d : σ × Nat}
    (h : Cleared frame (disks, heap) d) (n num : Nat) :
    Both (fun out out' => out.1.table.isSome = out'.1.table.isSome ∧
        Stands frame ⟨out.2, out.1.heap, out.1.table, out.1.readDirs.getD num⟩
          ⟨out'.2, out'.1.table, out'.1.readDirs.getD num⟩)
      (read disks diskNo partNoMap n heap)
      ((parts.counting lost).getDirEntry d diskNo partNoMap n) := by
  obtain ⟨gone, hgone, hh⟩ := h.held
  have hdisks : disks = d.1 := h.disks
  rw [hdisks]
  obtain ⟨fault, hx, hy⟩ | ⟨⟨result, s'⟩, ⟨result', s''⟩, hx, hy, hs', hreads, hheld⟩ :=
    hr.dir d.1 diskNo partNoMap n heap _ hh
  · rw [hx, Partitions.counting_getDirEntry, hy]
    exact .error fault
  · have hcount := hr.counted d.1 diskNo partNoMap n
    rw [hy] at hcount
    rw [hx, Partitions.counting_getDirEntry, hy]
    obtain ⟨objs, gone', hpoints, hgone', hh'⟩ := hheld
    refine .ok ⟨?_, hs', congrArg (·.getD num) hreads, fun dirs hdirs => ?_, objs, gone' + gone,
      hpoints, ⟨?_, ?_⟩, ?_⟩
    · exact isSome_of_pointsTo hpoints
    · obtain ⟨table, readDirs⟩ := result'
      obtain rfl : table = some dirs := hdirs
      rw [hcount dirs readDirs s'' rfl]
      rfl
    · rw [Multiset.card_add, hgone'.1, hgone.1, Nat.add_comm]
    · intro o ho
      rcases Multiset.mem_add.mp ho with ho | ho
      · exact hgone'.2 o ho
      · exact hgone.2 o ho
    · rwa [Multiset.add_assoc]

theorem load_onHeap (h : Stands frame s t) (n : Nat) :
    Tracks (Stands frame) (loadExt2DirEntry read diskNo partNoMap s n)
      (Plugin.loadExt2DirEntry (parts.counting lost) diskNo partNoMap t n) := by
  obtain ⟨hfree', heap, hfree, hclear⟩ := h.free
  rw [h.num] at hfree
  simp only [loadExt2DirEntry, Plugin.loadExt2DirEntry, hfree, hfree', h.num]
  obtain ⟨fault, hx, hy⟩ | ⟨out, out', hx, hy, hsome, hstands⟩ :=
    hclear.readDir hr diskNo partNoMap n t.dirEntryNum
  · simp only [hx, hy]
    exact .error fault
  · simp only [hx, hy, hsome]
    exact .ok hstands

theorem enterComponents_onHeap (words : List (Nat × List UInt8)) (h : Stands frame s t) :
    Tracks (Stands frame) (enterComponents read diskNo partNoMap words s)
      (Plugin.enterComponents (parts.counting lost) diskNo partNoMap words t) := by
  induction words generalizing s t with
  | nil => exact .ok h
  | cons word words ih =>
    obtain ⟨start, word⟩ := word
    rw [enterComponents, Plugin.enterComponents, h.num]
    obtain ⟨fault, hx, hy⟩ | ⟨found, found', hx, hy, hfound⟩ :=
      h.find (isNamed word) t.dirEntryNum 0
    · rw [hx, hy]
      exact .error fault
    rw [hx, hy]
    cases hfound with
    | none => exact ih h
    | @some i ptr dir hdir =>
      simp only [hdir]
      obtain ⟨fault, hx, hy⟩ | ⟨loaded, s', t', hx, hy, h'⟩ :=
        load_onHeap hr diskNo partNoMap h dir.inode
      · rw [hx, hy]
        exact .error fault
      · rw [hx, hy]
        cases loaded with
        | false => exact .ok h'
        | true => exact ih h'

omit hr in
theorem Stands.firstListed (h : Stands frame s t) :
    Both (fun first first' => PtrTo s.heap first.dir first'.dir ∧ first.numEntry = first'.numEntry)
      (firstListed s) (Plugin.firstListed t) := by
  unfold OnHeap.firstListed Plugin.firstListed
  rw [h.num]
  obtain ⟨fault, hx, hy⟩ | ⟨found, found', hx, hy, hfound⟩ := h.find isListed t.dirEntryNum 0
  · rw [hx, hy]
    exact .error fault
  · rw [hx, hy]
    cases hfound with
    | none => exact .ok ⟨.null, rfl⟩
    | some hdir => exact .ok ⟨.entry hdir, rfl⟩

/-- **`get_first_dir_entry` returns a pointer to the entry of the model**, into the new table. -/
theorem getFirstDirEntry_onHeap (h : Stands frame s t) (path : List UInt8) :
    Both (fun out out' => PtrTo out.2.heap out.1.dir out'.1.dir ∧
        out.1.numEntry = out'.1.numEntry ∧ Stands frame out.2 out'.2)
      (getFirstDirEntry read diskNo partNoMap s path)
      (Plugin.getFirstDirEntry (parts.counting lost) diskNo partNoMap t path) := by
  rw [getFirstDirEntry, Plugin.getFirstDirEntry]
  obtain ⟨fault, hx, hy⟩ | ⟨loaded, s₁, t₁, hx, hy, h₁⟩ :=
    load_onHeap hr diskNo partNoMap h ext4RootIno
  · rw [hx, hy]
    exact .error fault
  rw [hx, hy]
  cases loaded with
  | false => exact .ok ⟨.null, rfl, h₁⟩
  | true =>
    simp only
    obtain ⟨fault, hx, hy⟩ | ⟨entered, s₂, t₂, hx, hy, h₂⟩ :=
      enterComponents_onHeap hr diskNo partNoMap (components path) h₁
    · rw [hx, hy]
      exact .error fault
    rw [hx, hy]
    cases entered with
    | false => exact .ok ⟨.null, rfl, h₂⟩
    | true =>
      simp only
      obtain ⟨fault, hx, hy⟩ | ⟨first, first', hx, hy, hdir, hnum⟩ := h₂.firstListed
      · rw [hx, hy]
        exact .error fault
      · rw [hx, hy]
        exact .ok ⟨hdir, hnum, h₂⟩

omit hr in
theorem Stands.getNextDirEntry (h : Stands frame s t) (numLastEntry : Nat) :
    Both (fun out out' => PtrTo s.heap out.1 out'.1 ∧ out.2 = out'.2)
      (getNextDirEntry s numLastEntry) (Plugin.getNextDirEntry t numLastEntry) := by
  have hnone : s.dirs.isNone = t.dirEntries.isNone := by
    obtain ⟨objs, gone, hpoints, -⟩ := h.held
    rw [← Option.not_isSome, ← Option.not_isSome, isSome_of_pointsTo hpoints]
  unfold OnHeap.getNextDirEntry Plugin.getNextDirEntry
  rw [h.num, hnone]
  split
  next => exact .ok ⟨.null, rfl⟩
  next =>
    obtain ⟨fault, hx, hy⟩ | ⟨found, found', hx, hy, hfound⟩ :=
      h.find isListed (t.dirEntryNum - (numLastEntry + 1)) (numLastEntry + 1)
    · rw [hx, hy]
      exact .error fault
    · rw [hx, hy]
      cases hfound with
      | none => exact .ok ⟨.null, rfl⟩
      | some hdir => exact .ok ⟨.entry hdir, rfl⟩

theorem walkComponents_onHeap (words : List (Nat × List UInt8)) {walk : HeapWalk σ}
    {walk' : InodeWalk (σ × Nat)} (h : StandsWalk frame walk walk') :
    Tracks (StandsWalk frame) (walkComponents read diskNo partNoMap words walk)
      (Plugin.walkComponents (parts.counting lost) diskNo partNoMap words walk') := by
  induction words generalizing walk walk' with
  | nil => exact .ok h
  | cons word words ih =>
    obtain ⟨start, word⟩ := word
    have hnum : walk.num = walk'.entryNum := h.table.num
    rw [walkComponents, Plugin.walkComponents, hnum, h.found]
    obtain ⟨fault, hx, hy⟩ | ⟨found, found', hx, hy, hfound⟩ :=
      h.table.find (fun dir => isNamed word dir && dir.fileType == ext4FtDir) walk'.entryNum 0
    · rw [hx, hy]
      exact .error fault
    rw [hx, hy]
    cases hfound with
    | none =>
      simp only
      split
      next => exact ih h
      next => exact .ok h
    | @some i ptr dir hdir =>
      obtain ⟨hfree', heap, hfree, hclear⟩ := h.table.free
      rw [hnum] at hfree
      simp only [hdir, hfree, hfree']
      obtain ⟨fault, hx, hy⟩ | ⟨out, out', hx, hy, -, hstands⟩ :=
        hclear.readDir hr diskNo partNoMap dir.inode walk'.entryNum
      · simp only [hx, hy]
        exact .error fault
      · simp only [hx, hy]
        exact ih ⟨hstands, rfl⟩

omit hr in
theorem lookUpFile_onHeap (word : List UInt8) {walk' : InodeWalk (σ × Nat)}
    (h : Stands frame s ⟨walk'.hardDisks, walk'.dirs, walk'.entryNum⟩) :
    Tracks (Cleared frame) (lookUpFile diskNo partNoMap parts word s)
      (Plugin.lookUpFile (parts.counting lost) diskNo partNoMap word walk') := by
  obtain ⟨hfree', heap, hfree, hclear⟩ := h.free
  have hnum : s.num = walk'.entryNum := h.num
  have hdisks : s.hardDisks = walk'.hardDisks.1 := h.disks
  rw [lookUpFile, Plugin.lookUpFile, hnum]
  rw [hnum] at hfree
  obtain ⟨fault, hx, hy⟩ | ⟨found, found', hx, hy, hfound⟩ :=
    h.find (isFileNamed word) walk'.entryNum 0
  · rw [hx, hy]
    exact .error fault
  rw [hx, hy]
  cases hfound with
  | none =>
    simp only [hfree, hfree']
    exact .ok hclear
  | @some i ptr dir hdir =>
    simp only [hdir, hdisks, Partitions.counting_getExt4Inode]
    cases parts.getExt4Inode walk'.hardDisks.1 diskNo partNoMap dir.inode with
    | error fault => exact .error fault
    | ok out =>
      simp only [Except.map, hfree, hfree']
      exact .ok ⟨rfl, hclear.held⟩

/-- **A lookup of a file leaves of its tables what their reads lost**, and the rest of the heap
as it was. -/
theorem getExt2Inode_onHeap {disks : σ} {heap : DirHeap} {d : σ × Nat}
    (h : Cleared frame (disks, heap) d) (path : List UInt8) :
    Tracks (Cleared frame) (getExt2Inode read diskNo partNoMap parts disks heap path)
      (Plugin.getExt2Inode (parts.counting lost) diskNo partNoMap d path) := by
  rw [getExt2Inode, Plugin.getExt2Inode]
  obtain ⟨fault, hx, hy⟩ | ⟨out, out', hx, hy, -, hstands⟩ :=
    h.readDir hr diskNo partNoMap ext4RootIno 0
  · rw [hx, hy]
    exact .error fault
  rw [hx, hy]
  simp only
  split
  next => exact .error _
  next =>
    cases strchr separator (path.drop 1) with
    | none => exact .error _
    | some k =>
      simp only
      have hstart : StandsWalk frame
          ⟨⟨out.2, out.1.heap, out.1.table, out.1.readDirs.getD 0⟩, false⟩
          ⟨out'.2, out'.1.table, out'.1.readDirs.getD 0, false⟩ := ⟨hstands, rfl⟩
      obtain ⟨fault, hx, hy⟩ | ⟨entered, walk, walk', hx, hy, hwalk⟩ :=
        walkComponents_onHeap hr diskNo partNoMap
          ((strtok separator 1 ((path.drop (k + 1)).drop 1)).takeWhile fun t =>
            t.1 ≠ (strrchr separator (path.drop (k + 1))).getD 0 + 1) hstart
      · rw [hx, hy]
        exact .error fault
      rw [hx, hy]
      cases entered with
      | true => exact lookUpFile_onHeap diskNo partNoMap _ hwalk.table
      | false =>
        obtain ⟨hfree', heap, hfree, hclear⟩ := hwalk.table.free
        simp only [hfree, hfree']
        exact .ok hclear

end Walks

end OnHeap

end Ext4tc.Plugin
