import Ext4tc.DiskUtils.PartitionTable
import Ext4tc.DiskUtils.InodeCache
import Ext4tc.Lib.Transition
import Ext4tc.Lib.TwoLevelIndex

/-! # The ext partitions of a disk

`disk::init`: the entries of type 0x83 are mounted, and those that mount make up the table
`partitions_ext2`. Their numbers increase along the table, since the scan counts its
entries and the links of the chain, which have number 0, are of another type. -/

namespace Ext4tc.DiskUtils
open Ext4tc.Lib Ext4tc.Fs

def linuxType : Nat := 0x83

/-- The fate of the two reads of `get_ext2_sb`, for entry `i` of a list. -/
structure MountEnv where
  okSb : Nat → Bool
  okGr : Nat → Bool

/-- An object of type 0x83, which is a `partition_linux_ext2`. -/
structure LinuxPart where
  info : PartInfo
  part : PartitionLinuxExt2

structure LinuxTable where
  count : Nat
  parts : List LinuxPart

namespace Disk

variable (d : Disk)

def partitionOf (info : PartInfo) : Partition := ⟨info.sectorSize, info.offset, d.device, d.heap⟩

/-- The loop of `find_linux_partitions`, from entry `i` on: how many mount, and the objects
that were tried. -/
def findLinuxPartitions (env : MountEnv) :
    (i n : Nat) → List PartInfo → Except Fault (Nat × List LinuxPart)
  | _, n, [] => .ok (n, [])
  | i, n, info :: infos =>
    if info.type = linuxType then
      match (PartitionLinuxExt2.new (d.partitionOf info)).getExt2Sb (env.okSb i) (env.okGr i) with
      | .error fault => .error fault
      | .ok (mounted, part) =>
        match findLinuxPartitions env (i + 1) (if mounted then n + 1 else n) infos with
        | .error fault => .error fault
        | .ok (n, parts) => .ok (n, ⟨info, part⟩ :: parts)
    else findLinuxPartitions env (i + 1) n infos

end Disk

/-- The test of `ext2_partitions_init`. -/
def LinuxPart.isMounted (p : LinuxPart) : Except Fault Bool :=
  match p.part.ext2 with
  | .null => .ok false
  | .freed => .error .useAfterFree
  | .live info => .ok (info.checkIfExt4Compatible && info.tables.isSome)

/-- The loop of `ext2_partitions_init`, which stores into a table of `n + 1` from slot `i` on. -/
def storePartitions (n : Nat) : (i : Nat) → List LinuxPart → Except Fault (List LinuxPart)
  | _, [] => .ok []
  | i, p :: parts =>
    match p.isMounted with
    | .error fault => .error fault
    | .ok false => storePartitions n i parts
    | .ok true =>
      if n + 1 ≤ i then .error .outOfBounds
      else
        match storePartitions n (i + 1) parts with
        | .error fault => .error fault
        | .ok parts => .ok (p :: parts)

namespace Disk

variable (d : Disk)

/-- `find_linux_partitions` gives up on a list that is NULL. -/
def ext2PartitionsInit (env : MountEnv) (partitions : Option PartitionList) :
    Except Fault LinuxTable :=
  match partitions with
  | none => .ok ⟨0, []⟩
  | some partitions =>
    match d.findLinuxPartitions env 0 0 partitions.entries with
    | .error fault => .error fault
    | .ok (n, parts) =>
      if n = 0 then .ok ⟨0, []⟩
      else (storePartitions n 0 parts).map fun parts => ⟨n, parts⟩

def init (env : MountEnv) (fuel : Nat) : Except Fault (Bool × LinuxTable) :=
  match d.makePartitionsList fuel with
  | .error fault => .error fault
  | .ok ⟨ret, partitions⟩ =>
    if ret < 0 then .ok (false, ⟨0, []⟩)
    else (d.ext2PartitionsInit env partitions).map fun table => (true, table)

end Disk

def linuxNos (infos : List PartInfo) : List Nat :=
  (infos.filter fun info => info.type = linuxType).map PartInfo.partNo

/-! ## Numbers -/

/-- The numbers increase, and `n` is still free. -/
structure NumberedBelow (n : Nat) (infos : List PartInfo) : Prop where
  increasing : Increasing (linuxNos infos)
  below : ∀ p ∈ linuxNos infos, p < n

theorem linuxNos_append (infos : List PartInfo) (info : PartInfo) :
    linuxNos (infos ++ [info]) =
      linuxNos infos ++ if info.type = linuxType then [info.partNo] else [] := by
  unfold linuxNos
  by_cases h : info.type = linuxType
  · simp [h]
  · simp [h]

theorem NumberedBelow.other {n : Nat} {infos : List PartInfo} (h : NumberedBelow n infos)
    {info : PartInfo} (htype : info.type ≠ linuxType) : NumberedBelow n (infos ++ [info]) := by
  have hnos : linuxNos (infos ++ [info]) = linuxNos infos := by
    rw [linuxNos_append, if_neg htype, List.append_nil]
  exact ⟨hnos ▸ h.increasing, hnos ▸ h.below⟩

theorem NumberedBelow.next {n : Nat} {infos : List PartInfo} (h : NumberedBelow n infos)
    (hn : 0 < n) {info : PartInfo} (hno : info.partNo = n) :
    NumberedBelow (n + 1) (infos ++ [info]) := by
  by_cases htype : info.type = linuxType
  · have hnos : linuxNos (infos ++ [info]) = linuxNos infos ++ [n] := by
      rw [linuxNos_append, if_pos htype, hno]
    refine ⟨⟨?_, ?_⟩, ?_⟩
    · rw [hnos, List.pairwise_append]
      exact ⟨h.increasing.sorted, List.pairwise_singleton _ _, by simpa using h.below⟩
    · rw [hnos]
      intro p hp
      rcases List.mem_append.mp hp with hp | hp
      · exact h.increasing.pos p hp
      · rwa [List.mem_singleton.mp hp]
    · rw [hnos]
      intro p hp
      rcases List.mem_append.mp hp with hp | hp
      · exact Nat.lt_succ_of_lt (h.below p hp)
      · rw [List.mem_singleton.mp hp]
        exact Nat.lt_succ_self n
  · have hsame := h.other htype
    exact ⟨hsame.increasing, fun p hp => Nat.lt_succ_of_lt (hsame.below p hp)⟩

namespace Disk

theorem numberedBelow_primaryEntries (d : Disk) (mbr : Buffer) (k : Nat) :
    NumberedBelow (k + 1) (d.primaryEntries mbr k) := by
  induction k with
  | zero => exact ⟨.nil, nofun⟩
  | succ k ih =>
    rw [primaryEntries_succ]
    by_cases h : (slotAt mbr k).type = 0
    · rw [if_neg (not_not.mpr h), List.append_nil]
      exact ⟨ih.increasing, fun p hp => Nat.lt_succ_of_lt (ih.below p hp)⟩
    · rw [if_pos h]
      exact ih.next (Nat.succ_pos k) rfl

/-- **Along the chain the numbers go on to increase**, however it ends. -/
theorem ebrLoop_increasing (d : Disk) (x : Nat) : ∀ (fuel offset n : Nat) (part : PartInfo)
    (partitions : PartitionList) {r : ScanResult}, partitions.Sound → 0 < n →
    NumberedBelow n partitions.entries →
    d.ebrLoop x fuel offset n part partitions = .ok r →
      Increasing (linuxNos (listEntries r.partitions))
  | 0, _, _, _, _, _, _, _, _, h => nomatch h
  | fuel + 1, offset, n, part, partitions, r, hsound, hn, hnos, h => by
    rw [ebrLoop] at h
    split at h
    next =>
      cases h
      exact hnos.increasing
    next sector _ =>
      split at h
      next =>
        cases h
        exact .nil
      next =>
        have hpart : NumberedBelow (n + 1) (partitions.addPart (d.logicPart (x + offset) n
            (part.setPartInfo (sector.shift 446)))).entries := by
          rw [PartitionList.addPart_entries hsound]
          exact hnos.next hn rfl
        simp only at h
        split at h
        next hlink =>
          have hsound' : (partitions.addPart (d.logicPart (x + offset) n
              (part.setPartInfo (sector.shift 446)))).Sound := .inr (PartitionList.addPart_p _ _)
          refine ebrLoop_increasing d x fuel _ (n + 1) _ _ (.inr (PartitionList.addPart_p _ _))
            (Nat.succ_pos n) ?_ h
          rw [PartitionList.addPart_entries hsound']
          refine hpart.other ?_
          have htype : (d.logicPart (x + offset) 0 ((d.logicPart (x + offset) n
              (part.setPartInfo (sector.shift 446))).setPartInfo (sector.shift 462))).type = 5 :=
            hlink
          rw [htype]
          decide
        next =>
          cases h
          exact hpart.increasing

/-- **The numbers of the ext entries of a disk are positive and increase.** -/
theorem makePartitionsList_increasing {d : Disk} {fuel : Nat} {r : ScanResult}
    (h : d.makePartitionsList fuel = .ok r) : Increasing (linuxNos (listEntries r.partitions)) := by
  cases hmbr : d.mbr with
  | none =>
    rw [makePartitionsList_no_mbr hmbr] at h
    cases h
    exact .nil
  | some mbr =>
    have hslots := d.numberedBelow_primaryEntries mbr 4
    cases hext : extendedSlot mbr 4 with
    | none =>
      obtain ⟨l, hentries, hrun⟩ := makePartitionsList_plain hmbr hext
      cases (hrun fuel).symm.trans h
      rw [hentries]
      exact hslots.increasing
    | some x =>
      obtain ⟨part, partitions, hentries, hp, hrun⟩ := makePartitionsList_extended hmbr hext
      rw [hrun] at h
      rw [← hentries] at hslots
      exact ebrLoop_increasing d x fuel 0 5 part partitions (.inr hp) (by decide) hslots h

end Disk

/-! ## Mounting -/

/-- **A mount that succeeds is one that the second loop takes for one.** -/
theorem getExt2Sb_isMounted {p : Partition} {okSb okGr mounted b : Bool} {part : PartitionLinuxExt2}
    (h : (PartitionLinuxExt2.new p).getExt2Sb okSb okGr = .ok (mounted, part)) (info : PartInfo)
    (hb : (LinuxPart.mk info part).isMounted = .ok b) : b = mounted := by
  obtain ⟨rfl, rfl | rfl⟩ | ⟨rfl, -, hmagic, -, buffer, -, rfl⟩ :=
    PartitionLinuxExt2.getExt2Sb_new h
  · cases hb
    rfl
  · cases hb
  · have hlive : (LinuxPart.mk info ⟨p, .live ((PartitionLinuxExt2.initializedInfo
        (PartitionLinuxExt2.readSb p).ext4Sb).fillGroupDescriptorTable p.heap buffer),
        []⟩).isMounted = .ok ((PartitionLinuxExt2.readSb p).checkIfExt4Compatible && true) := rfl
    rw [hlive, hmagic] at hb
    cases hb
    rfl

/-! ## The table -/

/-- The objects that are tried are the entries of the type, and as many of them end up in
the table as were counted. -/
theorem findLinuxPartitions_spec (d : Disk) (env : MountEnv) : ∀ (infos : List PartInfo)
    {i n n' : Nat} {parts : List LinuxPart},
    d.findLinuxPartitions env i n infos = .ok (n', parts) →
      parts.map LinuxPart.info = infos.filter (fun info => info.type = linuxType) ∧
        ∀ {m k : Nat} {stored : List LinuxPart}, storePartitions m k parts = .ok stored →
          n + stored.length = n' ∧ stored.Sublist parts
  | [], i, n, n', parts, h => by
    cases h
    refine ⟨rfl, ?_⟩
    intro m k stored hstore
    cases hstore
    exact ⟨rfl, .slnil⟩
  | info :: infos, i, n, n', parts, h => by
    rw [Disk.findLinuxPartitions] at h
    by_cases htype : info.type = linuxType
    · rw [if_pos htype] at h
      split at h
      next => cases h
      next mounted part hmount =>
        split at h
        next => cases h
        next n₁ parts₁ hrest =>
          cases h
          obtain ⟨hinfos, hstored⟩ := findLinuxPartitions_spec d env infos hrest
          refine ⟨by simp [htype, hinfos], ?_⟩
          intro m k stored hstore
          rw [storePartitions] at hstore
          split at hstore
          next => cases hstore
          next hb =>
            obtain rfl := getExt2Sb_isMounted hmount info hb
            obtain ⟨hlen, hsub⟩ := hstored hstore
            exact ⟨hlen, hsub.cons _⟩
          next hb =>
            obtain rfl := getExt2Sb_isMounted hmount info hb
            split at hstore
            next => cases hstore
            next =>
              split at hstore
              next => cases hstore
              next stored₁ hstore₁ =>
                cases hstore
                obtain ⟨hlen, hsub⟩ := hstored hstore₁
                refine ⟨?_, hsub.cons_cons _⟩
                rw [List.length_cons]
                simp only [if_true] at hlen
                omega
    · rw [if_neg htype] at h
      obtain ⟨hinfos, hstored⟩ := findLinuxPartitions_spec d env infos h
      exact ⟨by simp [htype, hinfos], hstored⟩

def LinuxTable.partNos (table : LinuxTable) : List Nat := table.parts.map fun p => p.info.partNo

/-- **The table of a disk**: as long as its count, with numbers that increase. -/
theorem Disk.init_table {d : Disk} {env : MountEnv} {fuel : Nat} {ok : Bool} {table : LinuxTable}
    (h : d.init env fuel = .ok (ok, table)) :
    table.count = table.parts.length ∧ Increasing table.partNos := by
  have hnone : Increasing (LinuxTable.partNos ⟨0, []⟩) := .nil
  unfold init at h
  split at h
  next => cases h
  next ret partitions hscan =>
    split at h
    next =>
      cases h
      exact ⟨rfl, hnone⟩
    next =>
      unfold ext2PartitionsInit at h
      split at h
      next =>
        cases h
        exact ⟨rfl, hnone⟩
      next l =>
        split at h
        next => cases h
        next n parts hfind =>
          split at h
          next =>
            cases h
            exact ⟨rfl, hnone⟩
          next =>
            obtain ⟨hinfos, hstored⟩ := findLinuxPartitions_spec d env l.entries hfind
            cases hstore : storePartitions n 0 parts with
            | error fault => simp [hstore, Except.map] at h
            | ok stored =>
              simp only [hstore, Except.map, Except.ok.injEq, Prod.mk.injEq] at h
              obtain ⟨-, rfl⟩ := h
              obtain ⟨hlen, hsub⟩ := hstored hstore
              rw [Nat.zero_add] at hlen
              refine ⟨hlen.symm, ?_⟩
              have hnos := makePartitionsList_increasing hscan
              rw [linuxNos, listEntries, ← hinfos, List.map_map] at hnos
              exact hnos.sublist (hsub.map _)

/-! ## What the table holds -/

/-- Entry `i` of the list, of the type, and the object that its mount made of it. -/
structure Disk.Tries (d : Disk) (env : MountEnv) (infos : List PartInfo) (i : Nat)
    (mounted : Bool) (p : LinuxPart) : Prop where
  entry : infos[i]? = some p.info
  linux : p.info.type = linuxType
  mount : (PartitionLinuxExt2.new (d.partitionOf p.info)).getExt2Sb (env.okSb i) (env.okGr i) =
    .ok (mounted, p.part)

theorem findLinuxPartitions_mem (d : Disk) (env : MountEnv) (infos : List PartInfo) :
    ∀ {k n n' : Nat} {parts : List LinuxPart},
      d.findLinuxPartitions env k n (infos.drop k) = .ok (n', parts) →
        n ≤ n' ∧ (∀ p ∈ parts, ∃ i mounted, d.Tries env infos i mounted p) ∧
          ∀ i mounted p, k ≤ i → d.Tries env infos i mounted p →
            p ∈ parts ∧ (mounted = true → n < n') := by
  intro k
  induction hleft : infos.length - k generalizing k with
  | zero =>
    intro n n' parts h
    have hend := List.drop_of_length_le (l := infos) (i := k) (by omega)
    rw [hend] at h
    cases h
    refine ⟨Nat.le_refl _, nofun, ?_⟩
    intro i mounted p hi htry
    have := (List.getElem?_eq_some_iff.mp htry.entry).1
    omega
  | succ m ih =>
    intro n n' parts h
    have hk : k < infos.length := by omega
    rw [List.drop_eq_getElem_cons hk, Disk.findLinuxPartitions] at h
    by_cases htype : infos[k].type = linuxType
    · rw [if_pos htype] at h
      split at h
      next => cases h
      next mounted part hmount =>
        split at h
        next => cases h
        next n₁ parts₁ hrest =>
          cases h
          obtain ⟨hle, hmem, hall⟩ := ih (k := k + 1) (by omega) hrest
          have htry : d.Tries env infos k mounted ⟨infos[k], part⟩ :=
            ⟨List.getElem?_eq_getElem hk, htype, hmount⟩
          refine ⟨by split at hle <;> omega, ?_, ?_⟩
          · intro p hp
            rcases List.mem_cons.mp hp with rfl | hp
            · exact ⟨k, mounted, htry⟩
            · exact hmem p hp
          · intro i mounted' p hi htry'
            rcases Nat.eq_or_lt_of_le hi with rfl | hlt
            · obtain ⟨info, part'⟩ := p
              obtain rfl := Option.some.inj (htry.entry.symm.trans htry'.entry)
              cases htry.mount.symm.trans htry'.mount
              refine ⟨List.mem_cons_self, ?_⟩
              rintro rfl
              exact hle
            · obtain ⟨hp, hcount⟩ := hall i mounted' p hlt htry'
              refine ⟨List.mem_cons_of_mem _ hp, fun hm => ?_⟩
              have := hcount hm
              split at this <;> omega
    · rw [if_neg htype] at h
      obtain ⟨hle, hmem, hall⟩ := ih (k := k + 1) (by omega) h
      refine ⟨hle, hmem, ?_⟩
      intro i mounted p hi htry
      rcases Nat.eq_or_lt_of_le hi with rfl | hlt
      · obtain heq := Option.some.inj ((List.getElem?_eq_getElem hk).symm.trans htry.entry)
        exact absurd (heq ▸ htry.linux) htype
      · exact hall i mounted p hlt htry

theorem storePartitions_mem {n : Nat} : ∀ {parts : List LinuxPart} {i : Nat}
    {stored : List LinuxPart}, storePartitions n i parts = .ok stored →
      ∀ p, p ∈ stored ↔ p ∈ parts ∧ p.isMounted = .ok true
  | [], i, stored, h, p => by
    cases h
    simp
  | q :: parts, i, stored, h, p => by
    rw [storePartitions] at h
    split at h
    next => cases h
    next hq =>
      rw [storePartitions_mem h p, List.mem_cons]
      constructor
      · rintro ⟨hp, hm⟩
        exact ⟨.inr hp, hm⟩
      · rintro ⟨rfl | hp, hm⟩
        · cases hq.symm.trans hm
        · exact ⟨hp, hm⟩
    next hq =>
      split at h
      next => cases h
      next =>
        split at h
        next => cases h
        next stored₁ hstore =>
          cases h
          rw [List.mem_cons, List.mem_cons, storePartitions_mem hstore p]
          constructor
          · rintro (rfl | ⟨hp, hm⟩)
            · exact ⟨.inl rfl, hq⟩
            · exact ⟨.inr hp, hm⟩
          · rintro ⟨rfl | hp, hm⟩
            · exact .inl rfl
            · exact .inr ⟨hp, hm⟩

theorem Disk.Tries.isMounted {d : Disk} {env : MountEnv} {infos : List PartInfo} {i : Nat}
    {p : LinuxPart} (h : d.Tries env infos i true p) : p.isMounted = .ok true := by
  obtain ⟨hfalse, -⟩ | ⟨-, -, hmagic, -, buffer, -, hpart⟩ :=
    PartitionLinuxExt2.getExt2Sb_new h.mount
  · cases hfalse
  · rw [LinuxPart.isMounted, hpart]
    show Except.ok ((PartitionLinuxExt2.readSb _).checkIfExt4Compatible && true) = _
    rw [hmagic]
    rfl

/-- **The table of a disk holds exactly the entries that mount.** -/
theorem Disk.init_mem {d : Disk} {env : MountEnv} {fuel : Nat} {ok : Bool} {table : LinuxTable}
    (h : d.init env fuel = .ok (ok, table)) :
    ∃ scan, d.makePartitionsList fuel = .ok scan ∧ ∀ p, p ∈ table.parts ↔
      0 ≤ scan.ret ∧ ∃ i, d.Tries env (listEntries scan.partitions) i true p := by
  unfold init at h
  split at h
  next => cases h
  next ret partitions hscan =>
    refine ⟨⟨ret, partitions⟩, hscan, fun p => ?_⟩
    split at h
    next hret =>
      cases h
      exact ⟨nofun, fun ⟨hle, _⟩ => absurd hle (by simpa using hret)⟩
    next hret =>
      have hle : 0 ≤ ret := by simpa using hret
      unfold ext2PartitionsInit at h
      split at h
      next =>
        cases h
        refine ⟨nofun, ?_⟩
        rintro ⟨-, i, htry⟩
        have := htry.entry
        simp [listEntries] at this
      next l =>
        split at h
        next => cases h
        next n parts hfind =>
          obtain ⟨-, hmem, hall⟩ := findLinuxPartitions_mem d env l.entries (k := 0)
            (by rwa [List.drop_zero])
          split at h
          next hzero =>
            cases h
            refine ⟨nofun, ?_⟩
            rintro ⟨-, i, htry⟩
            have := (hall i true p (Nat.zero_le i) htry).2 rfl
            omega
          next =>
            obtain ⟨r, hrun, heq⟩ := exists_of_map_ok h
            obtain ⟨stored, hstore, rfl⟩ := exists_of_map_ok hrun
            cases heq
            rw [storePartitions_mem hstore p]
            constructor
            · rintro ⟨hp, hm⟩
              obtain ⟨i, mounted, htry⟩ := hmem p hp
              obtain rfl := getExt2Sb_isMounted htry.mount p.info hm
              exact ⟨hle, i, htry⟩
            · rintro ⟨-, i, htry⟩
              exact ⟨(hall i true p (Nat.zero_le i) htry).1, htry.isMounted⟩

end Ext4tc.DiskUtils
