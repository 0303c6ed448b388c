import Ext4tc.DiskUtils.FailedDirectory
import Ext4tc.DiskUtils.RecordWalk
import Ext4tc.Lib.ObjectHeap
import Ext4tc.Lib.Representation

/-! # Directory tables on the heap

`get_dir_entry` with its pointers: every `new` and every `delete` of the sector buffer, of
the entries and of the array of pointers to them. What it answers is what the model without
a heap answers; what it owns afterwards is the table that it returns, or else an entry that
nobody deletes. -/

namespace Ext4tc.DiskUtils
open Ext4tc.Lib Ext4tc.Fs

/-- What a directory read makes with `new`. A slot of the array that has not been set is no
pointer. -/
inductive DirObject where
  | buffer (b : Buffer)
  | entry (dir : Ext4DirEntry2)
  | table (slots : List (Option Nat))

abbrev DirHeap := ObjectHeap DirObject

namespace OnHeap

/-! ## Pointers -/

/-- `delete`, which lets NULL pass. -/
def delete (h : DirHeap) : Option Nat → Except Fault DirHeap
  | none => .ok h
  | some p =>
    match h.free p with
    | none => .error .useAfterFree
    | some h => .ok h

def derefBuffer (h : DirHeap) (p : Nat) : Except Fault Buffer :=
  match h.read p with
  | some (.buffer b) => .ok b
  | _ => .error .useAfterFree

def derefEntry (h : DirHeap) (p : Nat) : Except Fault Ext4DirEntry2 :=
  match h.read p with
  | some (.entry dir) => .ok dir
  | _ => .error .useAfterFree

def derefTable (h : DirHeap) : Option Nat → Except Fault (List (Option Nat))
  | none => .error .nullDeref
  | some t =>
    match h.read t with
    | some (.table slots) => .ok slots
    | _ => .error .useAfterFree

def derefSlot (h : DirHeap) (tabDir : Option Nat) (i : Nat) : Except Fault Nat :=
  match derefTable h tabDir with
  | .error fault => .error fault
  | .ok slots =>
    match slots[i]? with
    | some (some p) => .ok p
    | _ => .error .outOfBounds

def setSlot (h : DirHeap) (tabDir : Option Nat) (i p : Nat) : Except Fault DirHeap :=
  match tabDir with
  | none => .error .nullDeref
  | some t =>
    match derefTable h (some t) with
    | .error fault => .error fault
    | .ok slots =>
      if i < slots.length then
        match h.write t (.table (slots.set i (some p))) with
        | none => .error .useAfterFree
        | some h => .ok h
      else .error .outOfBounds

/-- What `memcpy` copies of the old array: `n` slots, and nothing of NULL. -/
def copySlots (h : DirHeap) (tabDir : Option Nat) (n : Nat) :
    Except Fault (List (Option Nat)) :=
  if n = 0 then .ok []
  else
    match derefTable h tabDir with
    | .error fault => .error fault
    | .ok slots => if n ≤ slots.length then .ok (slots.take n) else .error .outOfBounds

/-- `delete dirs[i]` for `k` entries from entry `i` on. -/
def deleteEntries (tabDir : Option Nat) : (k i : Nat) → DirHeap → Except Fault DirHeap
  | 0, _, h => .ok h
  | k + 1, i, h =>
    match derefSlot h tabDir i with
    | .error fault => .error fault
    | .ok p =>
      match delete h (some p) with
      | .error fault => .error fault
      | .ok h => deleteEntries tabDir k (i + 1) h

/-- The first `num` entries, and the array. -/
def deleteTable (h : DirHeap) (tabDir : Option Nat) (num : Nat) : Except Fault DirHeap :=
  match deleteEntries tabDir num 0 h with
  | .error fault => .error fault
  | .ok h => delete h tabDir

/-! ## The directory read -/

structure TableVars where
  nDir : Nat
  nChunks : Nat
  tabDir : Option Nat

/-- A longer array, with the old slots in it, in place of the old one. -/
def growTable (h : DirHeap) (v : TableVars) : Except Fault (TableVars × DirHeap) :=
  match copySlots h v.tabDir (v.nDir - 1) with
  | .error fault => .error fault
  | .ok slots =>
    let nChunks := v.nChunks + 1
    let (t, h) := h.alloc
      (.table (slots ++ List.replicate (chunkSize * nChunks - slots.length) none))
    match delete h v.tabDir with
    | .error fault => .error fault
    | .ok h => .ok (⟨v.nDir, nChunks, some t⟩, h)

/-- The new entry is counted, room is made for it, and it is stored. -/
def pushEntry (h : DirHeap) (v : TableVars) (dirEntry : Nat) : Except Fault (TableVars × DirHeap) :=
  let v := { v with nDir := v.nDir + 1 }
  match if chunkSize * v.nChunks ≤ v.nDir then growTable h v else .ok (v, h) with
  | .error fault => .error fault
  | .ok (v, h) =>
    match setSlot h v.tabDir (v.nDir - 1) dirEntry with
    | .error fault => .error fault
    | .ok h => .ok (v, h)

/-- The record loop; `residue k` is what the object of the `k`-th record holds at first. -/
def recordLoop (residue : Nat → Nat → UInt8) (blockSizeByte buffer : Nat) :
    (fuel offset : Nat) → TableVars → DirHeap → Except Fault (TableVars × DirHeap)
  | 0, _, _, _ => .error .hang
  | fuel + 1, offset, v, h =>
    if offset < blockSizeByte then
      match derefBuffer h buffer with
      | .error fault => .error fault
      | .ok block =>
        let dir := getExt4DirEntry (residue v.nDir) (block.shift offset)
        let (p, h) := h.alloc (.entry dir)
        match pushEntry h v p with
        | .error fault => .error fault
        | .ok (v, h) =>
          recordLoop residue blockSizeByte buffer fuel ((offset + dir.recLen) % 2 ^ 32) v h
    else .ok (v, h)

structure State where
  blk : Blocks
  nrBlk : Nat
  vars : TableVars
  heap : DirHeap

/-- Look up and read block `i`, walk its records, and delete its buffer. -/
def dirBlock (env : DirEnv) (p : Partition) (blockSizeSect blockSizeByte i : Nat) (st : State) :
    State × Option DirStop :=
  match st.blk.getExt2BlkNr env.metaFails i with
  | .error fault => (st, some (.crashed fault))
  | .ok (ret, blk) =>
    let nrBlk := ret.physicalBlkAddr.getD st.nrBlk
    if ret.ret < 0 then (⟨blk, nrBlk, st.vars, st.heap⟩, some .null)
    else
      match p.readSectorsEx (env.readOk i) (blockSizeSect * nrBlk % 2 ^ 64) blockSizeSect with
      | none => (⟨blk, nrBlk, st.vars, st.heap⟩, some .null)
      | some block =>
        let (buffer, h) := st.heap.alloc (.buffer block)
        match recordLoop env.heap blockSizeByte buffer env.fuel 0 st.vars h with
        | .error fault => (⟨blk, nrBlk, st.vars, st.heap⟩, some (.crashed fault))
        | .ok (vars, h) =>
          match delete h (some buffer) with
          | .error fault => (⟨blk, nrBlk, vars, h⟩, some (.crashed fault))
          | .ok h => (⟨blk, nrBlk, vars, h⟩, none)

/-- The loop over `k` blocks from block `i` on. -/
def dirLoop (env : DirEnv) (p : Partition) (blockSizeSect blockSizeByte : Nat) :
    (k i : Nat) → State → State × Option DirStop
  | 0, _, st => (st, none)
  | k + 1, i, st =>
    match dirBlock env p blockSizeSect blockSizeByte i st with
    | (st, some stop) => (st, some stop)
    | (st, none) => dirLoop env p blockSizeSect blockSizeByte k (i + 1) st

/-- What `get_dir_entry` returns, what it stores in `*read_dirs`, and the heap it leaves. -/
structure DirResult where
  table : Option Nat
  readDirs : Option Nat
  heap : DirHeap

/-- The return statements. A read that gives up deletes the entries but the last one. -/
def dirResult (st : State) : Option DirStop → Except Fault DirResult
  | some (.crashed fault) => .error fault
  | some .null =>
    match deleteTable st.heap st.vars.tabDir (st.vars.nDir - 1) with
    | .error fault => .error fault
    | .ok h => .ok ⟨none, none, h⟩
  | none => .ok ⟨st.vars.tabDir, some st.vars.nDir, st.heap⟩

/-- `get_dir_entry` from the construction of `dir_blk` on. -/
def readDir (env : DirEnv) (p : Partition) (sb : Ext4SuperBlock) (inode : Ext4Inode) (nrBlk : Nat)
    (h : DirHeap) : Except Fault DirResult :=
  if sb.blockSize = 0 then .error .divByZero
  else
    match dirLoop env p (sb.blockSize / p.sectorSize % 2 ^ 16) sb.blockSize
        (nBlocks sb.blockSize inode.size) 0 ⟨Blocks.new p sb inode, nrBlk, ⟨0, 0, none⟩, h⟩ with
    | (st, stop) =>
      match dirResult st stop with
      | .error fault => .error fault
      | .ok result =>
        match st.blk.flush with
        | .error fault => .error fault
        | .ok () => .ok result

def getDirEntry (env : DirEnv) (part : PartitionLinuxExt2) (inodeNr nrBlk : Nat) (h : DirHeap) :
    Except Fault (DirResult × PartitionLinuxExt2) :=
  match part.ext2 with
  | .null => .error .nullDeref
  | .freed => .error .useAfterFree
  | .live info =>
    if part.part.sectorSize = 0 then .error .divByZero
    else
      match part.getExt4Inode env.inodeOk inodeNr with
      | .error fault => .error fault
      | .ok (none, part) => .ok (⟨none, none, h⟩, part)
      | .ok (some inode, part) =>
        (readDir env part.part info.ext4Sb inode nrBlk h).map fun result => (result, part)

/-! ## What a pointer stands for -/

/-- An array of which the first slots are set. -/
def slotsOf (ptrs : List Nat) (size : Nat) : List (Option Nat) :=
  ptrs.map some ++ List.replicate (size - ptrs.length) none

def entryObjects (ptrs : List Nat) (dirs : List Ext4DirEntry2) : Multiset (Nat × DirObject) :=
  ↑(ptrs.zip (dirs.map DirObject.entry))

/-- A pointer to a table of these entries, and the objects that are behind it. -/
inductive PointsTo : Option Nat → Option (List Ext4DirEntry2) → Multiset (Nat × DirObject) → Prop
  | null : PointsTo none none 0
  | table {t ptrs dirs} (h : ptrs.length = dirs.length) :
      PointsTo (some t) (some dirs)
        ((t, .table (slotsOf ptrs (chunkSize * chunksFor dirs.length))) ::ₘ entryObjects ptrs dirs)

/-- A table is NULL until it gets its first entry. -/
def tableOf (dirs : List Ext4DirEntry2) : Option (List Ext4DirEntry2) :=
  if dirs.isEmpty then none else some dirs

section Slots

variable {ptrs : List Nat} {size : Nat} {dirs : List Ext4DirEntry2}

theorem length_slotsOf (h : ptrs.length ≤ size) : (slotsOf ptrs size).length = size := by
  simp [slotsOf, h]

theorem take_slotsOf : (slotsOf ptrs size).take ptrs.length = ptrs.map some := by
  simp [slotsOf]

theorem getElem?_slotsOf {i : Nat} (hi : i < ptrs.length) :
    (slotsOf ptrs size)[i]? = some (some ptrs[i]) := by
  rw [slotsOf, List.getElem?_append_left (by simpa using hi), List.getElem?_map,
    List.getElem?_eq_getElem hi]
  rfl

theorem getElem?_slotsOf_behind {i : Nat} (hi : ptrs.length ≤ i) (p : Nat) :
    (slotsOf ptrs size)[i]? ≠ some (some p) := by
  rw [slotsOf, List.getElem?_append_right (by simpa using hi), List.getElem?_replicate]
  split <;> simp

theorem set_slotsOf (h : ptrs.length < size) (p : Nat) :
    (slotsOf ptrs size).set ptrs.length (some p) = slotsOf (ptrs ++ [p]) size := by
  obtain ⟨k, hk⟩ : ∃ k, size - ptrs.length = k + 1 := ⟨size - ptrs.length - 1, by omega⟩
  simp [slotsOf, hk, List.replicate_succ, show size - (ptrs.length + 1) = k by omega]

theorem entryObjects_cons (p : Nat) (dir : Ext4DirEntry2) :
    entryObjects (p :: ptrs) (dir :: dirs) = (p, .entry dir) ::ₘ entryObjects ptrs dirs := rfl

theorem entryObjects_concat (h : ptrs.length = dirs.length) (p : Nat) (dir : Ext4DirEntry2) :
    entryObjects (ptrs ++ [p]) (dirs ++ [dir]) = (p, .entry dir) ::ₘ entryObjects ptrs dirs := by
  rw [entryObjects, List.map_append, List.zip_append (by simpa using h)]
  exact Multiset.coe_eq_coe.mpr List.perm_append_comm

theorem mem_entryObjects {i : Nat} (hi : i < ptrs.length) (hi' : i < dirs.length) :
    (ptrs[i], DirObject.entry dirs[i]) ∈ entryObjects ptrs dirs := by
  refine Multiset.mem_coe.mpr (List.mem_iff_getElem.mpr ⟨i, by simp [hi, hi'], ?_⟩)
  simp

end Slots

/-! ## The operations -/

section Operations

variable {h : DirHeap} {t p : Nat} {slots : List (Option Nat)} {objs : Multiset (Nat × DirObject)}

theorem delete_held {o : DirObject} (hh : h.Holds ((p, o) ::ₘ objs)) :
    ∃ h', delete h (some p) = .ok h' ∧ h'.Holds objs := by
  obtain ⟨h', hfree, hh'⟩ := hh.free
  exact ⟨h', by simp only [delete, hfree], hh'⟩

theorem derefTable_held (hh : h.Holds objs) (hmem : (t, .table slots) ∈ objs) :
    derefTable h (some t) = .ok slots := by
  simp only [derefTable, hh.read hmem]

theorem setSlot_held (hh : h.Holds ((t, .table slots) ::ₘ objs)) {i : Nat} (hi : i < slots.length) :
    ∃ h', setSlot h (some t) i p = .ok h' ∧
      h'.Holds ((t, .table (slots.set i (some p))) ::ₘ objs) := by
  obtain ⟨h', hwrite, hh'⟩ := hh.write (.table (slots.set i (some p)))
  refine ⟨h', ?_, hh'⟩
  simp only [setSlot, derefTable_held hh (Multiset.mem_cons_self _ _), if_pos hi, hwrite]

theorem deleteEntries_held {size : Nat} {ptrs : List Nat} {dirs : List Ext4DirEntry2}
    (hlen : ptrs.length = dirs.length) : ∀ (k i : Nat) {h : DirHeap}, i + k ≤ ptrs.length →
      h.Holds ((t, .table (slotsOf ptrs size)) ::ₘ
        (entryObjects (ptrs.drop i) (dirs.drop i) + objs)) →
      ∃ h', deleteEntries (some t) k i h = .ok h' ∧
        h'.Holds ((t, .table (slotsOf ptrs size)) ::ₘ
          (entryObjects (ptrs.drop (i + k)) (dirs.drop (i + k)) + objs))
  | 0, i, h, _, hh => ⟨h, rfl, hh⟩
  | k + 1, i, h, hik, hh => by
    have hi : i < ptrs.length := by omega
    have hi' : i < dirs.length := by omega
    rw [List.drop_eq_getElem_cons hi, List.drop_eq_getElem_cons hi', entryObjects_cons,
      Multiset.cons_add, Multiset.cons_swap] at hh
    have hslot : derefSlot h (some t) i = .ok ptrs[i] := by
      have htab := derefTable_held hh (Multiset.mem_cons_of_mem (Multiset.mem_cons_self _ _))
      simp only [derefSlot, htab, getElem?_slotsOf hi]
    obtain ⟨h₁, hdelete, hh₁⟩ := delete_held hh
    obtain ⟨h', hrest, hh'⟩ := deleteEntries_held hlen k (i + 1) (by omega) hh₁
    rw [show i + 1 + k = i + (k + 1) by omega] at hh'
    exact ⟨h', by simp only [deleteEntries, hslot, hdelete, hrest], hh'⟩

theorem deleteTable_held {size : Nat} {ptrs : List Nat} {dirs : List Ext4DirEntry2}
    (hlen : ptrs.length = dirs.length) {k : Nat} (hk : k ≤ ptrs.length)
    (hh : h.Holds ((t, .table (slotsOf ptrs size)) ::ₘ (entryObjects ptrs dirs + objs))) :
    ∃ h', deleteTable h (some t) k = .ok h' ∧
      h'.Holds (entryObjects (ptrs.drop k) (dirs.drop k) + objs) := by
  obtain ⟨h₁, hentries, hh₁⟩ := deleteEntries_held hlen k 0 (by omega) hh
  rw [Nat.zero_add] at hh₁
  obtain ⟨h', hdelete, hh'⟩ := delete_held hh₁
  exact ⟨h', by simp only [deleteTable, hentries, hdelete], hh'⟩

end Operations

/-! ## The read -/

/-- The variables of a table that grew entry by entry. -/
structure Holding (v : TableVars) (dirs : List Ext4DirEntry2) (objs : Multiset (Nat × DirObject)) :
    Prop where
  nDir : v.nDir = dirs.length
  nChunks : v.nChunks = chunksFor dirs.length
  points : PointsTo v.tabDir (tableOf dirs) objs

section Read

variable {h : DirHeap} {v : TableVars} {dirs : List Ext4DirEntry2}
  {objs frame : Multiset (Nat × DirObject)}

theorem holding_nil : Holding ⟨0, 0, none⟩ [] 0 := ⟨rfl, rfl, .null⟩

theorem Holding.parts (hv : Holding v dirs objs) :
    (dirs = [] ∧ v.tabDir = none ∧ objs = 0) ∨ ∃ t ptrs, v.tabDir = some t ∧
      ptrs.length = dirs.length ∧
      objs = (t, .table (slotsOf ptrs (chunkSize * chunksFor dirs.length))) ::ₘ
        entryObjects ptrs dirs := by
  have hpoints := hv.points
  generalize htab : v.tabDir = tab at hpoints
  generalize hdirs : tableOf dirs = table at hpoints
  cases hpoints with
  | null =>
    refine .inl ⟨?_, rfl, rfl⟩
    simpa [tableOf] using hdirs
  | @table t ptrs dirs' hlen =>
    obtain rfl : dirs = dirs' := by
      rw [tableOf] at hdirs
      split at hdirs
      next => cases hdirs
      next => exact Option.some.inj hdirs
    exact .inr ⟨t, ptrs, rfl, hlen, rfl⟩

/-- The longer array has the old pointers in it, and the old one is deleted. -/
theorem growTable_held (hv : Holding v dirs objs) (hh : h.Holds (objs + frame)) :
    ∃ t h' ptrs, growTable h { v with nDir := v.nDir + 1 } =
        .ok (⟨v.nDir + 1, v.nChunks + 1, some t⟩, h') ∧ ptrs.length = dirs.length ∧
      h'.Holds ((t, .table (slotsOf ptrs (chunkSize * (chunksFor dirs.length + 1)))) ::ₘ
        (entryObjects ptrs dirs + frame)) := by
  obtain ⟨rfl, htab, rfl⟩ | ⟨t, ptrs, htab, hlen, rfl⟩ := hv.parts
  · have halloc := hh.alloc (DirObject.table (slotsOf [] (chunkSize * (v.nChunks + 1))))
    have hn := hv.nDir
    rw [hv.nChunks] at halloc
    refine ⟨h.next, _, [], ?_, rfl, halloc⟩
    simp [growTable, copySlots, htab, hn, delete, slotsOf, hv.nChunks]
  · have htable := derefTable_held hh
      (Multiset.mem_add.mpr (.inl (Multiset.mem_cons_self _ (entryObjects ptrs dirs))))
    have hcopy : copySlots h (some t) ptrs.length = .ok (ptrs.map some) := by
      unfold copySlots
      split
      next hzero => rw [List.length_eq_zero_iff.mp hzero, List.map_nil]
      next =>
        have hle : ptrs.length ≤ (slotsOf ptrs (chunkSize * chunksFor dirs.length)).length := by
          simp [slotsOf]
        simp only [htable, if_pos hle, take_slotsOf]
    have hn : v.nDir + 1 - 1 = ptrs.length := by rw [hv.nDir, hlen, Nat.add_sub_cancel]
    have hnew : ptrs.map some ++ List.replicate
        (chunkSize * (v.nChunks + 1) - (ptrs.map some).length) none =
          slotsOf ptrs (chunkSize * (chunksFor dirs.length + 1)) := by
      rw [hv.nChunks, List.length_map, slotsOf]
    have halloc := hh.alloc
      (DirObject.table (slotsOf ptrs (chunkSize * (chunksFor dirs.length + 1))))
    rw [Multiset.cons_add, Multiset.cons_swap] at halloc
    obtain ⟨h', hdelete, hh'⟩ := delete_held halloc
    refine ⟨h.next, h', ptrs, ?_, hlen, hh'⟩
    simp only [growTable, htab, hn, hcopy, hnew, hdelete, ObjectHeap.alloc_fst]

/-- **An entry is pushed as on a list**: its pointer is in the next slot. -/
theorem pushEntry_held (hv : Holding v dirs objs) {p : Nat} {dir : Ext4DirEntry2}
    (hh : h.Holds ((p, .entry dir) ::ₘ (objs + frame))) :
    ∃ v' h' objs', pushEntry h v p = .ok (v', h') ∧ Holding v' (dirs ++ [dir]) objs' ∧
      h'.Holds (objs' + frame) := by
  obtain ⟨hchunks, hroom⟩ := chunksFor_succ dirs.length
  have hlength : (dirs ++ [dir]).length = dirs.length + 1 := by simp
  have htableOf : tableOf (dirs ++ [dir]) = some (dirs ++ [dir]) := by simp [tableOf]
  have hn : v.nDir + 1 - 1 = dirs.length := by rw [hv.nDir, Nat.add_sub_cancel]
  -- with room for it, whether the array had to grow or not
  have hstore : ∀ {t : Nat} {ptrs : List Nat} {h₁ : DirHeap}, ptrs.length = dirs.length →
      h₁.Holds ((t, .table (slotsOf ptrs (chunkSize * chunksFor (dirs.length + 1)))) ::ₘ
        (entryObjects ptrs dirs + ((p, .entry dir) ::ₘ frame))) →
      ∃ h' objs', setSlot h₁ (some t) (v.nDir + 1 - 1) p = .ok h' ∧
        Holding ⟨v.nDir + 1, chunksFor (dirs.length + 1), some t⟩ (dirs ++ [dir]) objs' ∧
        h'.Holds (objs' + frame) := by
    intro t ptrs h₁ hlen hh₁
    have hi : ptrs.length < chunkSize * chunksFor (dirs.length + 1) := by omega
    obtain ⟨h', hset, hh'⟩ := setSlot_held hh₁ (p := p) (i := ptrs.length)
      (by rw [length_slotsOf hi.le]; exact hi)
    rw [set_slotsOf hi, Multiset.add_cons, ← Multiset.cons_add, ← entryObjects_concat hlen,
      ← hlength, ← Multiset.cons_add] at hh'
    rw [hlen] at hset
    rw [hn]
    refine ⟨h', _, hset, ⟨by rw [hv.nDir, hlength], by rw [hlength], ?_⟩, hh'⟩
    rw [htableOf]
    exact .table (by simp [hlen])
  by_cases hgrow : chunkSize * v.nChunks ≤ v.nDir + 1
  · rw [← Multiset.add_cons] at hh
    obtain ⟨t, h₁, ptrs, hgrown, hlen, hh₁⟩ := growTable_held hv hh
    rw [if_pos (by rwa [← hv.nChunks, ← hv.nDir])] at hchunks
    rw [hchunks] at hh₁
    obtain ⟨h', objs', hset, hv', hh'⟩ := hstore hlen hh₁
    rw [← hchunks, ← hv.nChunks] at hv'
    exact ⟨_, h', objs', by simp only [pushEntry, if_pos hgrow, hgrown, hset], hv', hh'⟩
  · rw [if_neg (by rwa [← hv.nChunks, ← hv.nDir])] at hchunks
    obtain ⟨rfl, -, -⟩ | ⟨t, ptrs, htab, hlen, rfl⟩ := hv.parts
    · rw [hv.nChunks] at hgrow
      simp [chunksFor] at hgrow
    · rw [hchunks, ← Multiset.add_cons, Multiset.cons_add] at hh
      obtain ⟨h', objs', hset, hv', hh'⟩ := hstore hlen hh
      rw [← hchunks, ← hv.nChunks, ← htab] at hv'
      rw [← htab] at hset
      exact ⟨_, h', objs', by simp only [pushEntry, if_neg hgrow, hset], hv', hh'⟩

/-- **The record loop makes the entries of the model**, fails where it does, and leaves the rest
of the heap as it is. -/
theorem recordLoop_held (residue : Nat → Nat → UInt8) (blockSizeByte b : Nat) (block : Buffer) :
    ∀ (fuel offset : Nat) {v : TableVars} {dirs : List Ext4DirEntry2}
      {objs : Multiset (Nat × DirObject)} {h : DirHeap}, Holding v dirs objs →
      h.Holds (objs + ((b, .buffer block) ::ₘ frame)) →
      Both (fun (s : TableVars × DirHeap) tab => ∃ dirs' objs', tab = DirTable.of dirs' ∧
          Holding s.1 dirs' objs' ∧ s.2.Holds (objs' + ((b, .buffer block) ::ₘ frame)))
        (recordLoop residue blockSizeByte b fuel offset v h)
        (DiskUtils.recordLoop residue blockSizeByte block fuel offset (.of dirs))
  | 0, _, _, _, _, _, _, _ => .error _
  | fuel + 1, offset, v, dirs, objs, h, hv, hh => by
    rw [recordLoop, DiskUtils.recordLoop]
    by_cases hoffset : offset < blockSizeByte
    · have hmem : (b, DirObject.buffer block) ∈ objs + ((b, .buffer block) ::ₘ frame) :=
        Multiset.mem_add.mpr (.inr (Multiset.mem_cons_self _ _))
      have hblock : derefBuffer h b = .ok block := by simp only [derefBuffer, hh.read hmem]
      rw [if_pos hoffset, if_pos hoffset, hblock, DirTable.of_entries, ← hv.nDir]
      dsimp only
      generalize getExt4DirEntry (residue v.nDir) (block.shift offset) = dir
      obtain ⟨v', h', objs', hpush, hv', hh'⟩ := pushEntry_held hv (hh.alloc (.entry dir))
      simp only [ObjectHeap.alloc_fst, hpush, DirTable.push_of]
      exact recordLoop_held residue blockSizeByte b block fuel _ hv' hh'
    · rw [if_neg hoffset, if_neg hoffset]
      exact .ok ⟨dirs, objs, rfl, hv, hh⟩

structure SameState (frame : Multiset (Nat × DirObject)) (s : State) (st : DirState) : Prop where
  blk : s.blk = st.blk
  nrBlk : s.nrBlk = st.nrBlk
  held : ∃ dirs objs, st.tab = .of dirs ∧ Holding s.vars dirs objs ∧ s.heap.Holds (objs + frame)

section Loops

variable {env : DirEnv} {part : Partition} {blockSizeSect blockSizeByte : Nat} {s : State}
  {st : DirState}

theorem dirBlock_held (i : Nat) (hs : SameState frame s st) :
    ∃ step s' st' stop, dirBlock env part blockSizeSect blockSizeByte i s = (s', stop) ∧
      DiskUtils.dirBlock env part blockSizeSect blockSizeByte i st = (step, st', stop) ∧
      SameState frame s' st' := by
  obtain ⟨dirs, objs, htab, hv, hh⟩ := hs.held
  unfold dirBlock DiskUtils.dirBlock
  rw [hs.blk, hs.nrBlk]
  cases st.blk.getExt2BlkNr env.metaFails i with
  | error fault => exact ⟨none, s, st, _, rfl, rfl, hs⟩
  | ok r =>
    obtain ⟨ret, blk⟩ := r
    simp only [if_neg (Nat.not_lt_zero ret.ret)]
    cases part.readSectorsEx (env.readOk i)
        (blockSizeSect * ret.physicalBlkAddr.getD st.nrBlk % 2 ^ 64) blockSizeSect with
    | none => exact ⟨_, _, _, _, rfl, rfl, rfl, rfl, dirs, objs, htab, hv, hh⟩
    | some block =>
      have halloc := hh.alloc (.buffer block)
      rw [← Multiset.add_cons] at halloc
      simp only [ObjectHeap.alloc_fst, htab]
      obtain ⟨fault, hx, hy⟩ | ⟨⟨v', h'⟩, tab', hx, hy, dirs', objs', rfl, hv', hh'⟩ :=
        recordLoop_held env.heap blockSizeByte s.heap.next block env.fuel 0 hv halloc
      · rw [hx, hy]
        exact ⟨_, _, _, _, rfl, rfl, rfl, rfl, dirs, objs, rfl, hv, hh⟩
      · rw [hx, hy]
        rw [Multiset.add_cons] at hh'
        obtain ⟨h'', hdelete, hh''⟩ := delete_held hh'
        simp only [hdelete]
        exact ⟨_, _, _, _, rfl, rfl, rfl, rfl, dirs', objs', rfl, hv', hh''⟩

theorem dirLoop_held : ∀ (k i : Nat) {s : State} {st : DirState}, SameState frame s st →
    ∃ steps s' st' stop, dirLoop env part blockSizeSect blockSizeByte k i s = (s', stop) ∧
      DiskUtils.dirLoop env part blockSizeSect blockSizeByte k i st = (steps, st', stop) ∧
      SameState frame s' st'
  | 0, _, s, st, hs => ⟨[], s, st, none, rfl, rfl, hs⟩
  | k + 1, i, s, st, hs => by
    obtain ⟨step, s₁, st₁, stop, hx, hy, hs₁⟩ := dirBlock_held i hs
    rw [dirLoop, DiskUtils.dirLoop, hx, hy]
    cases stop with
    | some stop => exact ⟨_, s₁, st₁, _, rfl, rfl, hs₁⟩
    | none =>
      obtain ⟨steps, s', st', stop, hx', hy', hs'⟩ := dirLoop_held k (i + 1) hs₁
      exact ⟨step.toList ++ steps, s', st', stop, hx', by simp only [hy'], hs'⟩

end Loops

/-- Entries that no pointer leads to any more, as many as these. -/
def Lost (n : Nat) (gone : Multiset (Nat × DirObject)) : Prop :=
  gone.card = n ∧ ∀ o ∈ gone, ∃ dir, o.2 = .entry dir

/-- The heap holds the table behind the pointer, lost entries, and what it held besides. -/
def Held (frame : Multiset (Nat × DirObject)) (n : Nat) (table : Option (List Ext4DirEntry2))
    (tabDir : Option Nat) (h : DirHeap) : Prop :=
  ∃ objs gone, PointsTo tabDir table objs ∧ Lost n gone ∧ h.Holds (objs + (gone + frame))

structure SameResult (frame : Multiset (Nat × DirObject)) (n : Nat) (result : DirResult)
    (result' : DiskUtils.DirResult) : Prop where
  readDirs : result.readDirs = result'.readDirs
  held : Held frame n result'.table result.table result.heap

/-- What a read that gives up leaves: the last entry, if it had any. -/
def lostBy : List DirStep × DirState × Option DirStop → Nat
  | (_, st, some .null) => min 1 st.tab.entries.length
  | _ => 0

theorem lost_zero : Lost 0 0 := ⟨rfl, fun _ ho => absurd ho (Multiset.notMem_zero _)⟩

theorem lost_entryObjects {ptrs : List Nat} {dirs : List Ext4DirEntry2}
    (hlen : ptrs.length = dirs.length) : Lost dirs.length (entryObjects ptrs dirs) := by
  refine ⟨by simp [entryObjects, hlen], fun o ho => ?_⟩
  obtain ⟨dir, -, hdir⟩ := List.mem_map.mp (List.of_mem_zip (Multiset.mem_coe.mp ho)).2
  exact ⟨dir, hdir.symm⟩

/-- **A read that gives up deletes all that it made but the last entry.** -/
theorem deleteTable_givenUp (hv : Holding v dirs objs) (hh : h.Holds (objs + frame)) :
    ∃ h' gone, deleteTable h v.tabDir (v.nDir - 1) = .ok h' ∧ Lost (min 1 dirs.length) gone ∧
      h'.Holds (gone + frame) := by
  rw [hv.nDir]
  obtain ⟨rfl, htab, rfl⟩ | ⟨t, ptrs, htab, hlen, rfl⟩ := hv.parts
  · exact ⟨h, 0, by rw [htab]; rfl, lost_zero, hh⟩
  · rw [Multiset.cons_add] at hh
    obtain ⟨h', hdelete, hh'⟩ := deleteTable_held (k := dirs.length - 1) hlen (by omega) hh
    have hrest : (dirs.drop (dirs.length - 1)).length = min 1 dirs.length := by
      rw [List.length_drop]
      omega
    exact ⟨h', _, by rw [htab, hdelete], hrest ▸ lost_entryObjects (by simp [hlen]), hh'⟩

theorem dirResult_held {s : State} {st : DirState} (hs : SameState frame s st)
    (steps : List DirStep) (stop : Option DirStop) :
    Both (SameResult frame (lostBy (steps, st, stop))) (dirResult s stop)
      (DiskUtils.dirResult st stop) := by
  obtain ⟨dirs, objs, htab, hv, hh⟩ := hs.held
  cases stop with
  | none =>
    rw [DiskUtils.dirResult, htab, DirTable.of_entries]
    refine .ok ⟨congrArg some hv.nDir, objs, 0, hv.points, lost_zero, ?_⟩
    rwa [Multiset.zero_add]
  | some stop =>
    cases stop with
    | crashed fault => exact .error fault
    | null =>
      obtain ⟨h', gone, hdelete, hgone, hh'⟩ := deleteTable_givenUp hv hh
      rw [dirResult, hdelete]
      refine .ok ⟨rfl, 0, gone, .null, ?_, by rwa [Multiset.zero_add]⟩
      rwa [lostBy, htab, DirTable.of_entries]

end Read

end OnHeap

/-! ## What a directory read loses -/

/-- The entries that `get_dir_entry` loses from the construction of `dir_blk` on. -/
def lostEntries (env : DirEnv) (p : Partition) (sb : Ext4SuperBlock) (inode : Ext4Inode)
    (nrBlk : Nat) : Nat :=
  OnHeap.lostBy (dirLoop env p (sb.blockSize / p.sectorSize % 2 ^ 16) sb.blockSize
    (nBlocks sb.blockSize inode.size) 0 (dirStart p sb inode nrBlk))

/-- The entries that `get_dir_entry` loses: none where it does not get to its loop. -/
def PartitionLinuxExt2.lostEntries (env : DirEnv) (part : PartitionLinuxExt2)
    (inodeNr nrBlk : Nat) : Nat :=
  match part.ext2, part.getExt4Inode env.inodeOk inodeNr with
  | .live info, .ok (some inode, part) =>
    DiskUtils.lostEntries env part.part info.ext4Sb inode nrBlk
  | _, _ => 0

theorem lostEntries_eq_zero {env : DirEnv} (hread : ∀ i, env.readOk i = true) (p : Partition)
    (sb : Ext4SuperBlock) (inode : Ext4Inode) (nrBlk : Nat) :
    lostEntries env p sb inode nrBlk = 0 := by
  unfold lostEntries
  generalize sb.blockSize / p.sectorSize % 2 ^ 16 = blockSizeSect
  have hnull := fun blk' => @dirLoop_null_iff env p blockSizeSect sb.blockSize
    (dirStart p sb inode nrBlk) blk' (nBlocks sb.blockSize inode.size) 0 _ (dirBefore_zero ..)
  generalize nBlocks sb.blockSize inode.size = k at hnull ⊢
  rcases hloop : dirLoop env p blockSizeSect sb.blockSize k 0 (dirStart p sb inode nrBlk) with
    ⟨steps, st, _ | ⟨_ | fault⟩⟩
  · rfl
  · obtain ⟨j, -, -, -, -, -, -, hfails⟩ := (hnull st.blk).mp ⟨steps, st, hloop, rfl⟩
    rw [hread j] at hfails
    cases hfails
  · rfl

theorem PartitionLinuxExt2.lostEntries_eq_zero {env : DirEnv} (hread : ∀ i, env.readOk i = true)
    (part : PartitionLinuxExt2) (inodeNr nrBlk : Nat) :
    part.lostEntries env inodeNr nrBlk = 0 := by
  unfold PartitionLinuxExt2.lostEntries
  split
  next => exact DiskUtils.lostEntries_eq_zero hread ..
  next => rfl

namespace OnHeap

/-- **A directory read on the heap answers as without one**, and leaves its table, what it
lost, and what was there before. -/
theorem readDir_held {env : DirEnv} {p : Partition} {sb : Ext4SuperBlock} {inode : Ext4Inode}
    {nrBlk : Nat} {h : DirHeap} {frame : Multiset (Nat × DirObject)} (hh : h.Holds frame) :
    Both (SameResult frame (lostEntries env p sb inode nrBlk)) (readDir env p sb inode nrBlk h)
      (DiskUtils.readDir env p sb inode nrBlk).result := by
  unfold readDir DiskUtils.readDir lostEntries
  by_cases hbs : sb.blockSize = 0
  · rw [if_pos hbs, if_pos hbs]
    exact .error _
  rw [if_neg hbs, if_neg hbs]
  have hstart : SameState frame ⟨Blocks.new p sb inode, nrBlk, ⟨0, 0, none⟩, h⟩
      (dirStart p sb inode nrBlk) := by
    refine ⟨rfl, rfl, [], 0, rfl, holding_nil, ?_⟩
    rwa [Multiset.zero_add]
  generalize sb.blockSize / p.sectorSize % 2 ^ 16 = blockSizeSect
  generalize nBlocks sb.blockSize inode.size = k
  obtain ⟨steps, s, st, stop, hx, hy, hs⟩ := @dirLoop_held frame env p blockSizeSect
    sb.blockSize k 0 _ _ hstart
  rw [hx, hy]
  obtain ⟨fault, hx, hy⟩ | ⟨result, result', hx, hy, hresult⟩ := dirResult_held hs steps stop
  · simp only [hx, hy]
    exact .error fault
  · simp only [hx, hy, DiskUtils.dirDestroy, hs.blk]
    cases st.blk.flush with
    | error fault => exact .error fault
    | ok _ => exact .ok hresult

theorem getDirEntry_held (env : DirEnv) (part : PartitionLinuxExt2) (inodeNr nrBlk : Nat)
    {h : DirHeap} {frame : Multiset (Nat × DirObject)} (hh : h.Holds frame) :
    Both (fun out out' => out.2 = out'.2 ∧
        SameResult frame (part.lostEntries env inodeNr nrBlk) out.1 out'.1)
      (getDirEntry env part inodeNr nrBlk h)
      ((part.getDirEntry env inodeNr nrBlk).1.result.map fun result =>
        (result, (part.getDirEntry env inodeNr nrBlk).2)) := by
  unfold getDirEntry PartitionLinuxExt2.getDirEntry PartitionLinuxExt2.lostEntries
  cases hext2 : part.ext2 with
  | null => exact .error _
  | freed => exact .error _
  | live info =>
    simp only
    by_cases hs : part.part.sectorSize = 0
    · rw [if_pos hs, if_pos hs]
      exact .error _
    rw [if_neg hs, if_neg hs]
    cases part.getExt4Inode env.inodeOk inodeNr with
    | error fault => exact .error fault
    | ok found =>
      obtain ⟨_ | inode, part'⟩ := found
      · refine .ok ⟨rfl, rfl, 0, 0, .null, lost_zero, ?_⟩
        simpa using hh
      · simp only
        obtain ⟨fault, hx, hy⟩ | ⟨result, result', hx, hy, hresult⟩ :=
          @readDir_held env part'.part info.ext4Sb inode nrBlk h frame hh
        · rw [hx, hy]
          exact .error fault
        · rw [hx, hy]
          exact .ok ⟨rfl, hresult⟩

end OnHeap

end Ext4tc.DiskUtils
