import Ext4tc.DiskUtils.MountRuns
import Mathlib.Data.List.Induction

/-! # Indexes into the arrays of groups

The arrays have an element for each group of blocks, as the low word of the block count has
them. An inode number picks its element by the inodes of a group, and the destructor goes over
as many elements as the inode count makes groups. -/

namespace Ext4tc.DiskUtils
open Ext4tc.Lib Ext4tc.Fs

namespace PartitionLinuxExt2

def liveAt (p : Partition) (tables : GroupTables) (queue : List Nat) : PartitionLinuxExt2 :=
  ⟨p, .live { initializedInfo (readSb p).ext4Sb with tables := some tables }, queue⟩

def nrGroupBlock (sb : Ext4SuperBlock) (n : Nat) : Nat := (n - 1) / sb.sInodesPerGroup

theorem getExt2Sb_liveAt {p : Partition} {m : PartitionLinuxExt2} {okSb okGr : Bool}
    (h : (new p).getExt2Sb okSb okGr = .ok (true, m)) :
    p.sectorSize ≠ 0 ∧ ∃ tables, m = liveAt p tables [] := by
  obtain ⟨hfalse, -⟩ | ⟨-, hs, -, -, buffer, -, rfl⟩ := getExt2Sb_new h
  · cases hfalse
  · exact ⟨hs, _, rfl⟩

/-- A number that no inode of the file system has. -/
def Outside (sb : Ext4SuperBlock) (n : Nat) : Prop := n = 0 ∨ sb.sInodesCount < n

/-- Every state that a run of lookups of `ns` goes through, whatever reads fail: no index leaves
an array, in a lookup, in the queue of groups to give up or in the destructor; and a number from
outside gives NULL. -/
structure IndexesInBounds (sb : Ext4SuperBlock) (m : PartitionLinuxExt2) (ns : List Nat) :
    Prop where
  lookups : ∀ calls, calls.map Prod.fst <+: ns → m.getExt4Inodes calls ≠ .error .outOfBounds
  queued : ∀ calls part, calls.map Prod.fst <+: ns → m.getExt4Inodes calls = .ok part →
    ∀ g ∈ part.groupDescQueue, g < groupBlockCount sb
  destroyed : ∀ calls part, calls.map Prod.fst <+: ns → m.getExt4Inodes calls = .ok part →
    part.destroy ≠ .error .outOfBounds
  outside : ∀ calls part n ok, calls.map Prod.fst ++ [n] <+: ns →
    m.getExt4Inodes calls = .ok part → Outside sb n →
      ∃ part', part.getExt4Inode ok n = .ok (none, part')

/-- The inode count and the numbers of a run fit the groups of blocks. -/
structure GroupsAgree (sb : Ext4SuperBlock) (ns : List Nat) : Prop where
  numbers : ∀ n ∈ ns, n = 0 ∨ n ≤ sb.sInodesCount ∧ nrGroupBlock sb n < groupBlockCount sb
  count : sb.sInodesCount / sb.sInodesPerGroup ≤ groupBlockCount sb ∨
    2 ^ 31 ≤ sb.sInodesCount / sb.sInodesPerGroup

/-! ## The destructor -/

theorem deleteTables_outOfBounds (info : Ext4SbInfo) (k i : Nat) :
    info.deleteTables k i ≠ .error .outOfBounds ↔ k = 0 ∨ i + k ≤ info.sGroupBlockCount := by
  induction k generalizing i with
  | zero =>
    refine iff_of_true ?_ (.inl rfl)
    nofun
  | succ k ih =>
    rw [Ext4SbInfo.deleteTables]
    by_cases hend : info.sGroupBlockCount ≤ i
    · rw [if_pos hend]
      refine iff_of_false (fun h => h rfl) ?_
      omega
    · rw [if_neg hend, ih]
      omega

section Lookups

variable {p : Partition} {tables : GroupTables} {queue : List Nat}

/-- A count of 2^31 groups or more is negative, and the loop has no rounds. -/
theorem destroy_liveAt (hipg : (readSb p).ext4Sb.sInodesPerGroup ≠ 0) :
    (liveAt p tables queue).destroy ≠ .error .outOfBounds ↔
      (readSb p).ext4Sb.sInodesCount / (readSb p).ext4Sb.sInodesPerGroup ≤
          groupBlockCount (readSb p).ext4Sb ∨
        2 ^ 31 ≤ (readSb p).ext4Sb.sInodesCount / (readSb p).ext4Sb.sInodesPerGroup := by
  have hcount : (readSb p).ext4Sb.sInodesCount < 2 ^ 32 := Buffer.u32_lt _ _
  have hq : (readSb p).ext4Sb.sInodesCount / (readSb p).ext4Sb.sInodesPerGroup < 2 ^ 32 :=
    Nat.lt_of_le_of_lt (Nat.div_le_self _ _) hcount
  have hdestroy : (liveAt p tables queue).destroy =
      ({ initializedInfo (readSb p).ext4Sb with tables := some tables } : Ext4SbInfo).deleteTables
        (Int.bmod ((readSb p).ext4Sb.sInodesCount / (readSb p).ext4Sb.sInodesPerGroup : Nat)
          (2 ^ 32)).toNat 0 := by
    simp only [liveAt, destroy, Ext4SbInfo.destroy]
    exact if_neg hipg
  rw [hdestroy, deleteTables_outOfBounds, Nat.zero_add]
  change _ ∨ _ ≤ groupBlockCount (readSb p).ext4Sb ↔ _
  generalize (readSb p).ext4Sb.sInodesCount / (readSb p).ext4Sb.sInodesPerGroup = q at hq
  rw [bmod_word hq]
  split <;> omega

/-! ## Lookups -/

theorem getExt4Inode_zero (ok : Bool) : (liveAt p tables queue).getExt4Inode ok 0 =
    .ok (none, liveAt p tables queue) := rfl

theorem looksUp_liveAt (hs : p.sectorSize ≠ 0) (hipg : (readSb p).ext4Sb.sInodesPerGroup ≠ 0)
    {n : Nat} (hn : n ≠ 0) : LooksUp (liveAt p tables queue)
      { initializedInfo (readSb p).ext4Sb with tables := some tables } tables n :=
  ⟨rfl, rfl, hn, hs, hipg, rfl⟩

theorem mem_popFullQueue {g : Nat} (h : g ∈ (popFullQueue tables queue).2) : g ∈ queue := by
  unfold popFullQueue at h
  split at h
  next =>
    cases queue with
    | nil => exact h
    | cons index queue => exact List.mem_cons_of_mem _ h
  next => exact h

/-- A lookup in one of the groups answers, and the group may be queued. -/
theorem getExt4Inode_within (hs : p.sectorSize ≠ 0)
    (hipg : (readSb p).ext4Sb.sInodesPerGroup ≠ 0) {n : Nat} (hn : n ≠ 0)
    (hgroup : nrGroupBlock (readSb p).ext4Sb n < groupBlockCount (readSb p).ext4Sb) (ok : Bool) :
    ∃ found tables' queue', (liveAt p tables queue).getExt4Inode ok n =
        .ok (found, liveAt p tables' queue') ∧ (ok = true → found ≠ none) ∧
      ∀ g ∈ queue', g ∈ queue ∨ g = nrGroupBlock (readSb p).ext4Sb n := by
  have hlooks := @looksUp_liveAt p tables queue hs hipg n hn
  cases hslot : tables.inodesTableCache (nrGroupBlock (readSb p).ext4Sb n) with
  | some inodes =>
    exact ⟨_, tables, queue, hlooks.hit hgroup hslot ok, fun _ => Option.some_ne_none _,
      fun g hg => .inl hg⟩
  | none =>
    cases ok with
    | false =>
      refine ⟨none, (popFullQueue tables queue).1, (popFullQueue tables queue).2,
        hlooks.miss hgroup hslot rfl, fun h => Bool.noConfusion h, fun g hg => ?_⟩
      exact .inl (mem_popFullQueue hg)
    | true =>
      refine ⟨_, _, (popFullQueue tables queue).2 ++ [nrGroupBlock (readSb p).ext4Sb n],
        hlooks.miss hgroup hslot rfl, fun _ => Option.some_ne_none _, fun g hg => ?_⟩
      obtain hold | hnew := List.mem_append.mp hg
      · exact .inl (mem_popFullQueue hold)
      · exact .inr (List.mem_singleton.mp hnew)

/-! ## Runs -/

theorem getExt4Inodes_concat {m part : PartitionLinuxExt2} {calls : List (Nat × Bool)}
    (h : m.getExt4Inodes calls = .ok part) (n : Nat) (ok : Bool) :
    m.getExt4Inodes (calls ++ [(n, ok)]) = (part.getExt4Inode ok n).map Prod.snd := by
  induction calls generalizing m with
  | nil =>
    cases h
    rw [List.nil_append, getExt4Inodes]
    cases part.getExt4Inode ok n <;> rfl
  | cons c calls ih =>
    obtain ⟨n', ok'⟩ := c
    rw [getExt4Inodes] at h
    rw [List.cons_append, getExt4Inodes]
    cases hcall : m.getExt4Inode ok' n' with
    | error fault =>
      rw [hcall] at h
      cases h
    | ok r =>
      rw [hcall] at h
      exact ih h

theorem getExt4Inodes_within (hs : p.sectorSize ≠ 0)
    (hipg : (readSb p).ext4Sb.sInodesPerGroup ≠ 0) {calls : List (Nat × Bool)}
    (hcalls : ∀ n ∈ calls.map Prod.fst, n = 0 ∨
      nrGroupBlock (readSb p).ext4Sb n < groupBlockCount (readSb p).ext4Sb)
    (hqueue : ∀ g ∈ queue, g < groupBlockCount (readSb p).ext4Sb) :
    ∃ tables' queue', (liveAt p tables queue).getExt4Inodes calls = .ok (liveAt p tables' queue') ∧
      ∀ g ∈ queue', g < groupBlockCount (readSb p).ext4Sb := by
  induction calls generalizing tables queue with
  | nil => exact ⟨tables, queue, rfl, hqueue⟩
  | cons c calls ih =>
    obtain ⟨n, ok⟩ := c
    have hrest := fun n hn => hcalls n (List.mem_cons_of_mem _ hn)
    rw [getExt4Inodes]
    obtain rfl | hgroup := hcalls n List.mem_cons_self
    · rw [getExt4Inode_zero]
      exact ih hrest hqueue
    · by_cases hn : n = 0
      · subst hn
        rw [getExt4Inode_zero]
        exact ih hrest hqueue
      · obtain ⟨found, tables', queue', hcall, -, hnew⟩ :=
          @getExt4Inode_within p tables queue hs hipg n hn hgroup ok
        rw [hcall]
        refine ih hrest fun g hg => ?_
        obtain hold | rfl := hnew g hg
        · exact hqueue g hold
        · exact hgroup

theorem IndexesInBounds.numbers (hs : p.sectorSize ≠ 0)
    (hipg : (readSb p).ext4Sb.sInodesPerGroup ≠ 0) {ns : List Nat}
    (h : IndexesInBounds (readSb p).ext4Sb (liveAt p tables []) ns) {pre : List Nat}
    (hpre : pre <+: ns) : ∀ n ∈ pre, n = 0 ∨ n ≤ (readSb p).ext4Sb.sInodesCount ∧
      nrGroupBlock (readSb p).ext4Sb n < groupBlockCount (readSb p).ext4Sb := by
  induction pre using List.reverseRecOn with
  | nil => nofun
  | append_singleton pre n ih =>
    have hbefore := ih ((List.prefix_append pre [n]).trans hpre)
    have hnumbers : (pre.map fun n => (n, true)).map Prod.fst = pre := by
      rw [List.map_map]
      exact List.map_id pre
    obtain ⟨tables', queue, hrun, -⟩ := @getExt4Inodes_within p tables [] hs hipg
      (pre.map fun n => (n, true)) (fun n hn => (hbefore n (hnumbers ▸ hn)).imp id And.right)
      (List.forall_mem_nil _)
    have hlast : n = 0 ∨ n ≤ (readSb p).ext4Sb.sInodesCount ∧
        nrGroupBlock (readSb p).ext4Sb n < groupBlockCount (readSb p).ext4Sb := by
      by_cases hzero : n = 0
      · exact .inl hzero
      have hgroup : nrGroupBlock (readSb p).ext4Sb n < groupBlockCount (readSb p).ext4Sb := by
        by_contra hbeyond
        refine h.lookups ((pre.map fun n => (n, true)) ++ [(n, true)]) ?_ ?_
        · rw [List.map_append, hnumbers]
          exact hpre
        · have hlooks := @looksUp_liveAt p tables' queue hs hipg n hzero
          rw [getExt4Inodes_concat hrun, hlooks.beyond (Nat.not_lt.mp hbeyond)]
          rfl
      refine .inr ⟨?_, hgroup⟩
      by_contra hlarge
      have houtside : Outside (readSb p).ext4Sb n := .inr (Nat.not_le.mp hlarge)
      obtain ⟨part', hnull⟩ := h.outside _ _ n true (by rw [hnumbers]; exact hpre) hrun houtside
      obtain ⟨found, tables₁, queue₁, hcall, hfound, -⟩ :=
        @getExt4Inode_within p tables' queue hs hipg n hzero hgroup true
      cases hnull.symm.trans hcall
      exact hfound rfl rfl
    intro n' hn'
    obtain hold | hnew := List.mem_append.mp hn'
    · exact hbefore n' hold
    · exact List.mem_singleton.mp hnew ▸ hlast

/-- **The indexes of a run stay inside the arrays, and numbers from outside give NULL, exactly
if the inode count and the numbers fit the groups of blocks.** -/
theorem group_indexes_iff {m : PartitionLinuxExt2} {okSb okGr : Bool}
    (hmount : (new p).getExt2Sb okSb okGr = .ok (true, m))
    (hipg : (readSb p).ext4Sb.sInodesPerGroup ≠ 0) (ns : List Nat) :
    IndexesInBounds (readSb p).ext4Sb m ns ↔ GroupsAgree (readSb p).ext4Sb ns := by
  obtain ⟨hs, tables, rfl⟩ := getExt2Sb_liveAt hmount
  constructor
  · intro h
    exact ⟨h.numbers hs hipg (List.prefix_refl ns),
      (destroy_liveAt hipg).mp (h.destroyed [] _ List.nil_prefix rfl)⟩
  · intro h
    have hrun : ∀ calls : List (Nat × Bool), calls.map Prod.fst <+: ns →
        ∃ tables' queue, (liveAt p tables []).getExt4Inodes calls = .ok (liveAt p tables' queue) ∧
          ∀ g ∈ queue, g < groupBlockCount (readSb p).ext4Sb := fun calls hcalls =>
      getExt4Inodes_within hs hipg
        (fun n hn => (h.numbers n (hcalls.subset hn)).imp id And.right) (List.forall_mem_nil _)
    refine ⟨fun calls hcalls => ?_, fun calls part hcalls hpart => ?_,
      fun calls part hcalls hpart => ?_, fun calls part n ok hcalls hpart hout => ?_⟩
    · obtain ⟨tables', queue, heq, -⟩ := hrun calls hcalls
      rw [heq]
      nofun
    · obtain ⟨tables', queue, heq, hqueue⟩ := hrun calls hcalls
      cases hpart.symm.trans heq
      exact hqueue
    · obtain ⟨tables', queue, heq, -⟩ := hrun calls hcalls
      cases hpart.symm.trans heq
      exact (destroy_liveAt hipg).mpr h.count
    · obtain ⟨tables', queue, heq, -⟩ := hrun calls ((List.prefix_append _ _).trans hcalls)
      cases hpart.symm.trans heq
      have hn : n ∈ ns := hcalls.subset (List.mem_append_right _ List.mem_cons_self)
      obtain rfl : n = 0 := by
        obtain hzero | ⟨hle, -⟩ := h.numbers n hn
        · exact hzero
        · exact hout.resolve_right (Nat.not_lt.mpr hle)
      exact ⟨_, getExt4Inode_zero ok⟩

end Lookups

def eightInodes : Partition :=
  .ofDevice ((Buffer.zeros 0).pokes
    [(1024, [8]), (1028, [9]), (1044, [1]), (1056, [8]), (1064, [8]), (1080, [0x53, 0xef]),
      (1112, [128])]).byte

theorem group_indexes_iff_eightInodes :
    ∃ m, (new eightInodes).getExt2Sb true true = .ok (true, m) ∧
      IndexesInBounds (readSb eightInodes).ext4Sb m [1, 0, 8] := by
  have hmount : ∃ m, (new eightInodes).getExt2Sb true true = .ok (true, m) := ⟨_, rfl⟩
  obtain ⟨m, hm⟩ := hmount
  refine ⟨m, hm, (group_indexes_iff hm (by decide) _).mpr ⟨by decide, by decide⟩⟩

/-- Inode 9 is looked up in a second group, of which there is none. -/
theorem number_beyond_groups :
    ∃ m, (new eightInodes).getExt2Sb true true = .ok (true, m) ∧
      m.getExt4Inode true 9 = .error .outOfBounds ∧
      ¬IndexesInBounds (readSb eightInodes).ext4Sb m [9] := by
  refine ⟨_, rfl, rfl, fun h => ?_⟩
  exact h.lookups [(9, true)] (List.prefix_refl [9]) rfl

end PartitionLinuxExt2

end Ext4tc.DiskUtils
