import Ext4tc.DiskUtils.InodeCache
import Ext4tc.Plugin.Volume

/-! # Mounted partitions as volumes

The partitions behind the walks of the plugin. A mounted partition whose reads succeed
answers from the device alone: its cache holds tables of the device, whatever was asked
for before. So mounted partitions serve the volumes that their devices describe. -/

namespace Ext4tc.Plugin
open Ext4tc.Lib Ext4tc.Fs Ext4tc.DiskUtils PartitionLinuxExt2

/-- `hard_disks[disk_no]->get_partitions_ext2()[part_no_map]`, where there is one. -/
abbrev LinuxDisks := Nat → Nat → Option PartitionLinuxExt2

def LinuxDisks.set (disks : LinuxDisks) (diskNo partNoMap : Nat) (part : PartitionLinuxExt2) :
    LinuxDisks :=
  fun d p => if d = diskNo ∧ p = partNoMap then some part else disks d p

/-- What surrounds the directory reads: the environment of each read by its inode number,
and what `nr_blk` holds before it. -/
structure DiskEnv where
  dir : Nat → DirEnv
  nrBlk : Nat → Nat

/-- A call on one partition, which leaves the others as they are. -/
def onPartition {α : Type} (disks : LinuxDisks) (diskNo partNoMap : Nat)
    (call : PartitionLinuxExt2 → Except Fault (α × PartitionLinuxExt2)) :
    Except Fault (α × LinuxDisks) :=
  match disks diskNo partNoMap with
  | none => .error .outOfBounds
  | some part => (call part).map fun (a, part) => (a, disks.set diskNo partNoMap part)

def readDirectory (env : DiskEnv) (n : Nat) (part : PartitionLinuxExt2) :
    Except Fault (DirResult × PartitionLinuxExt2) :=
  match part.getDirEntry (env.dir n) n (env.nrBlk n) with
  | (run, part) => run.result.map fun result => (result, part)

def linuxPartitions (env : DiskEnv) : Partitions LinuxDisks where
  getDirEntry disks diskNo partNoMap n := onPartition disks diskNo partNoMap (readDirectory env n)
  getExt4Inode disks diskNo partNoMap n := onPartition disks diskNo partNoMap fun part =>
    part.getExt4Inode (env.dir n).inodeOk n

/-- A mount: what a successful `get_ext2_sb` leaves, on a usable layout. -/
structure Mount where
  part : Partition
  info : Ext4SbInfo
  grDesc : Nat → Ext4GroupDesc
  sector : part.sectorSize ≠ 0
  perBlock : info.sInodesPerBlock = info.ext4Sb.sInodesPerGroup
  layout : TableLayout part info

namespace Mount

/-- The object is this mount with a coherent cache. -/
def Holds (m : Mount) (part : PartitionLinuxExt2) : Prop :=
  ∃ c, part = mountedAt m.part m.info m.grDesc c ∧
    FifoCache.Coherent maxGroupDescQueueLen (fun g => diskTable m.part m.info (m.grDesc g)) c

def diskInode (m : Mount) (n : Nat) : Ext4Inode :=
  (diskTable m.part m.info (m.grDesc (group m.info n))).shift (recordOff m.info n)

def inode (m : Mount) (n : Nat) : Except Fault (Option Ext4Inode) :=
  if n = 0 then .ok none
  else if m.info.sGroupBlockCount ≤ group m.info n then .error .outOfBounds
  else .ok (some (m.diskInode n))

def volume (m : Mount) (env : DiskEnv) : Volume where
  inode := m.inode
  load n :=
    match m.inode n with
    | .error fault => .error fault
    | .ok none => .ok ⟨none, none⟩
    | .ok (some inode) => (readDir (env.dir n) m.part m.info.ext4Sb inode (env.nrBlk n)).result

theorem holds_of_getExt2Sb {p : Partition} {okSb okGr : Bool} {part : PartitionLinuxExt2}
    {info : Ext4SbInfo} {tables : GroupTables} (h : (new p).getExt2Sb okSb okGr = .ok (true, part))
    (hlive : part.ext2 = .live info) (htables : info.tables = some tables)
    (hd : TableLayout p info) :
    ∃ m : Mount, m.part = p ∧ m.info = info ∧ m.grDesc = tables.grDesc ∧ m.Holds part := by
  obtain ⟨hs, hpb, rfl⟩ := getExt2Sb_true h hlive htables
  exact ⟨⟨p, info, tables.grDesc, hs, hpb, hd⟩, rfl, rfl, rfl, _, rfl, FifoCache.coherent_empty _ _⟩

/-- **An inode lookup answers from the device**, and the mount goes on holding. -/
theorem getExt4Inode_answers (m : Mount) {part : PartitionLinuxExt2} (h : m.Holds part) (n : Nat) :
    Answers m.Holds (part.getExt4Inode true n) (m.inode n) := by
  obtain ⟨c, rfl, hc⟩ := h
  unfold inode
  by_cases hn : n = 0
  · rw [if_pos hn]
    exact ⟨mountedAt m.part m.info m.grDesc c, by simp only [getExt4Inode, mountedAt, hn, if_true],
      c, rfl, hc⟩
  · rw [if_neg hn]
    by_cases hg : m.info.sGroupBlockCount ≤ group m.info n
    · rw [if_pos hg]
      have hlooks : LooksUp (mountedAt m.part m.info m.grDesc c) { m.info with
          tables := some ⟨m.grDesc, c.slots⟩ } ⟨m.grDesc, c.slots⟩ n :=
        ⟨rfl, rfl, hn, m.sector, m.layout.perGroup.ne', m.perBlock⟩
      exact hlooks.beyond hg true
    · rw [if_neg hg]
      have hrange : InRange m.info n := by
        have hlt := (Nat.div_lt_iff_lt_mul m.layout.perGroup).mp (Nat.not_le.mp hg)
        exact ⟨Nat.pos_of_ne_zero hn, by omega⟩
      have hvalue : (c.slots (group m.info n)).or
        (load m.part m.info m.grDesc (group m.info n) true) =
          some (diskTable m.part m.info (m.grDesc (group m.info n))) := by
        cases hslot : c.slots (group m.info n) with
        | none => rfl
        | some table => rw [hc.value _ _ hslot, Option.some_or]
      have hcall := getExt4Inode_mountedAt m.grDesc m.sector m.perBlock m.layout c hrange true
      rw [hvalue] at hcall
      exact ⟨_, hcall, _, rfl, hc.access (by decide)
        (accesses_loadsFrom (p := m.part) [(n, true)]).head⟩

theorem Holds.live {m : Mount} {part : PartitionLinuxExt2} (h : m.Holds part) :
    part.part = m.part ∧ ∃ info, part.ext2 = .live info ∧ info.ext4Sb = m.info.ext4Sb := by
  obtain ⟨c, rfl, -⟩ := h
  exact ⟨rfl, _, rfl, rfl⟩

theorem getDirEntry_answers (m : Mount) {part : PartitionLinuxExt2} (h : m.Holds part)
    (env : DiskEnv) {n : Nat} (hok : (env.dir n).inodeOk = true) :
    Answers m.Holds (readDirectory env n part) ((m.volume env).load n) := by
  have hcall := m.getExt4Inode_answers h n
  obtain ⟨hpart, info, hlive, hsb⟩ := h.live
  have hs : part.part.sectorSize ≠ 0 := hpart ▸ m.sector
  simp only [readDirectory, getDirEntry, hlive, if_neg hs, hok, volume]
  cases hi : m.inode n with
  | error fault =>
    rw [hi] at hcall
    have hcall' : part.getExt4Inode true n = .error fault := hcall
    simp only [hcall']
    rfl
  | ok found =>
    rw [hi] at hcall
    obtain ⟨part', hcall', hholds⟩ := hcall
    cases found with
    | none =>
      simp only [hcall']
      exact ⟨part', rfl, hholds⟩
    | some inode =>
      obtain ⟨hpart', -⟩ := hholds.live
      simp only [hcall', hpart', hsb]
      cases (readDir (env.dir n) m.part m.info.ext4Sb inode (env.nrBlk n)).result with
      | error fault => rfl
      | ok result => exact ⟨part', rfl, hholds⟩

/-! ## What a directory read can return -/

theorem counted (m : Mount) (env : DiskEnv) : (m.volume env).Counted := by
  intro n dirs num h
  simp only [volume] at h
  split at h
  next => cases h
  next => cases h
  next => exact readDir_counted h

end Mount

/-- The state of the disks: each partition is mounted as it should be. -/
def Mounted (mounts : Nat → Nat → Option Mount) (disks : LinuxDisks) : Prop :=
  ∀ d p, match mounts d p with
    | none => disks d p = none
    | some m => ∃ part, disks d p = some part ∧ m.Holds part

/-- The volume of a partition; an index without one is out of bounds. -/
def linuxVolume (mounts : Nat → Nat → Option Mount) (env : DiskEnv) (diskNo partNoMap : Nat) :
    Volume :=
  match mounts diskNo partNoMap with
  | none => ⟨fun _ => .error .outOfBounds, fun _ => .error .outOfBounds⟩
  | some m => m.volume env

theorem linuxVolume_counted (mounts : Nat → Nat → Option Mount) (env : DiskEnv)
    (diskNo partNoMap : Nat) :
    (linuxVolume mounts env diskNo partNoMap).Counted := by
  unfold linuxVolume
  cases mounts diskNo partNoMap with
  | none => exact nofun
  | some m => exact m.counted env

theorem Mounted.set {mounts : Nat → Nat → Option Mount} {disks : LinuxDisks}
    (h : Mounted mounts disks) {diskNo partNoMap : Nat} {m : Mount}
    (hm : mounts diskNo partNoMap = some m) {part : PartitionLinuxExt2} (hp : m.Holds part) :
    Mounted mounts (disks.set diskNo partNoMap part) := by
  intro d p
  unfold LinuxDisks.set
  by_cases hdp : d = diskNo ∧ p = partNoMap
  · obtain ⟨rfl, rfl⟩ := hdp
    rw [hm, if_pos ⟨rfl, rfl⟩]
    exact ⟨part, rfl, hp⟩
  · rw [if_neg hdp]
    exact h d p

theorem Mounted.answers {α : Type} {mounts : Nat → Nat → Option Mount} {disks : LinuxDisks}
    (h : Mounted mounts disks) {diskNo partNoMap : Nat} {m : Mount}
    (hm : mounts diskNo partNoMap = some m)
    {call : PartitionLinuxExt2 → Except Fault (α × PartitionLinuxExt2)} {r : Except Fault α}
    (hcall : ∀ part, m.Holds part → Answers m.Holds (call part) r) :
    Answers (Mounted mounts) (onPartition disks diskNo partNoMap call) r := by
  have hpart := h diskNo partNoMap
  rw [hm] at hpart
  obtain ⟨part, hpart, hholds⟩ := hpart
  have hans := hcall part hholds
  cases r with
  | error fault =>
    have hans' : call part = .error fault := hans
    simp only [onPartition, hpart, hans']
    rfl
  | ok a =>
    obtain ⟨part', hans', hholds'⟩ := hans
    simp only [onPartition, hpart, hans']
    exact ⟨_, rfl, h.set hm hholds'⟩

theorem Mounted.missing {α : Type} {mounts : Nat → Nat → Option Mount} {disks : LinuxDisks}
    (h : Mounted mounts disks) {diskNo partNoMap : Nat} (hm : mounts diskNo partNoMap = none)
    (call : PartitionLinuxExt2 → Except Fault (α × PartitionLinuxExt2)) :
    onPartition disks diskNo partNoMap call = .error .outOfBounds := by
  have hpart := h diskNo partNoMap
  rw [hm] at hpart
  rw [onPartition, show disks diskNo partNoMap = none from hpart]

/-- **Mounted partitions whose inode reads succeed serve the volumes of their devices.** -/
theorem linuxPartitions_serve (mounts : Nat → Nat → Option Mount) {env : DiskEnv}
    (hok : ∀ n, (env.dir n).inodeOk = true) :
    Serves (linuxPartitions env) (Mounted mounts) (linuxVolume mounts env) := by
  constructor
  · intro disks hd diskNo partNoMap n
    unfold linuxVolume
    cases hm : mounts diskNo partNoMap with
    | none => exact hd.missing hm _
    | some m => exact hd.answers hm fun part hholds => m.getDirEntry_answers hholds env (hok n)
  · intro disks hd diskNo partNoMap n
    unfold linuxVolume
    cases hm : mounts diskNo partNoMap with
    | none => exact hd.missing hm _
    | some m =>
      refine hd.answers hm ?_
      intro part hholds
      rw [hok n]
      exact m.getExt4Inode_answers hholds n

/-! ## A device with a tree -/

/-- A device of 4 KiB blocks with one group of sixteen 128-byte inodes. The root has the
directory `a`, inode 3, and the file `f`, inode 4; `a` has the file `g`, inode 5. The
data of `f` is what a directory with the one record `z` would be. -/
def treeDisk : Partition :=
  .ofDevice ((Buffer.zeros 0).pokes
    [(1028, [16]), (1048, [2]), (1056, [0, 0x80]), (1064, [16]), (1080, [0x53, 0xef]),
      (1112, [128]),
      (4104, [4]), (16516, [0, 0x10]), (16552, [5]), (16644, [0, 0x10]), (16680, [6]),
      (16772, [0, 0x10]), (16808, [7]), (16900, [0, 0x10]), (16936, [8]),
      (20480, [2, 0, 0, 0, 12, 0, 1, 2, 0x2e]), (20492, [2, 0, 0, 0, 12, 0, 2, 2, 0x2e, 0x2e]),
      (20504, [3, 0, 0, 0, 12, 0, 1, 2, 0x61]), (20516, [4, 0, 0, 0, 0xdc, 0x0f, 1, 1, 0x66]),
      (24576, [3, 0, 0, 0, 12, 0, 1, 2, 0x2e]), (24588, [2, 0, 0, 0, 12, 0, 2, 2, 0x2e, 0x2e]),
      (24600, [5, 0, 0, 0, 0xe8, 0x0f, 1, 1, 0x67]),
        (28672, [9, 0, 0, 0, 0, 0x10, 1, 1, 0x7a])]).byte

def treeInfo : Ext4SbInfo where
  ext4Sb := ⟨1024, (treeDisk.bufferAt 1024 1024).byte⟩
  sDescSize := 32
  sInodesPerBlock := 16
  sGdbCount := 1
  sDescPerBlock := 128
  sGroupBlockCount := 1

def treeMount : Mount where
  part := treeDisk
  info := treeInfo
  grDesc := Ext4SbInfo.groupDescriptorGet treeDisk.heap 32 (treeDisk.bufferAt 4096 4096)
  sector := by decide
  perBlock := by decide
  layout := ⟨by decide, by decide, by decide⟩

-- mounting the device gives this partition
example : (new treeDisk).getExt2Sb true true =
    .ok (true, mountedAt treeMount.part treeMount.info treeMount.grDesc .empty) := rfl

def treeEnv : DiskEnv := ⟨fun _ => ⟨true, fun _ => false, fun _ => true, fun _ _ => 0, 10⟩,
    fun _ => 0⟩

def treeVolume : Volume := treeMount.volume treeEnv

def entryFields (e : Ext4DirEntry2) : List UInt8 × Nat × Nat := (e.nameBytes, e.fileType, e.inode)

theorem treeVolume_root :
    (treeVolume.entries 2).map entryFields =
      [([0x2e], 2, 2), ([0x2e, 0x2e], 2, 2), ([0x61], 2, 3), ([0x66], 1, 4)] := by decide +kernel

theorem treeVolume_a :
    (treeVolume.entries 3).map entryFields =
      [([0x2e], 2, 3), ([0x2e, 0x2e], 2, 2), ([0x67], 1, 5)] := by decide +kernel

section Fields

variable {vol : Volume} {d : Nat} {fields : List (List UInt8 × Nat × Nat)}
    (h : (vol.entries d).map entryFields = fields)
include h

theorem fields_all {P : List UInt8 × Nat × Nat → Prop} (hall : ∀ f ∈ fields, P f)
    {e : Ext4DirEntry2} (he : e ∈ vol.entries d) : P (entryFields e) :=
  hall _ (h ▸ List.mem_map_of_mem he)

theorem exists_of_fields {f : List UInt8 × Nat × Nat} (hf : f ∈ fields) :
    ∃ e ∈ vol.entries d, e.nameBytes = f.1 ∧ e.fileType = f.2.1 ∧ e.inode = f.2.2 := by
  rw [← h] at hf
  obtain ⟨e, he, rfl⟩ := List.mem_map.mp hf
  exact ⟨e, he, rfl, rfl, rfl⟩

theorem fields_unique (hnodup : (fields.map Prod.fst).Nodup) {e e' : Ext4DirEntry2}
    (he : e ∈ vol.entries d) (he' : e' ∈ vol.entries d) (hname : e.nameBytes = e'.nameBytes) :
    e = e' := by
  rw [← h, List.map_map] at hnodup
  exact List.inj_on_of_nodup_map hnodup he he' hname

theorem find_of_fields {p : List UInt8 × Nat × Nat → Bool} {f : List UInt8 × Nat × Nat}
    (hf : fields.find? p = some f) :
    ∃ e, ((vol.entries d).find? fun e => p (entryFields e)) = some e ∧ entryFields e = f := by
  rw [← h, List.find?_map] at hf
  exact Option.map_eq_some_iff.mp hf

end Fields

theorem Mount.loads_of_fields (m : Mount) (env : DiskEnv) {n : Nat}
    {fields : List (List UInt8 × Nat × Nat)}
    (h : ((m.volume env).entries n).map entryFields = fields) (hne : fields ≠ []) :
    (m.volume env).load n = .ok (dirTable ((m.volume env).entries n)) := by
  refine Volume.loads_of_entries (m.counted env) fun hempty => hne ?_
  rw [← h, hempty]
  rfl

theorem treeVolume_directory {d : Nat} (h : treeVolume.Directory d) : d = 2 ∨ d = 3 := by
  induction h with
  | root => exact .inl rfl
  | sub _ he htype ih =>
    obtain rfl | rfl := ih
    · exact fields_all treeVolume_root (P := fun f => f.2.1 = 2 → f.2.2 = 2 ∨ f.2.2 = 3)
        (by decide) he htype
    · exact fields_all treeVolume_a (P := fun f => f.2.1 = 2 → f.2.2 = 2 ∨ f.2.2 = 3)
        (by decide) he htype

theorem treeVolume_dirTree : treeVolume.DirTree := by
  have hne : ∀ d, treeVolume.Directory d → treeVolume.entries d ≠ [] := by
    intro d hd hempty
    obtain rfl | rfl := treeVolume_directory hd
    · have h := treeVolume_root
      rw [hempty] at h
      cases h
    · have h := treeVolume_a
      rw [hempty] at h
      cases h
  have hfile : ∀ n, n = 4 ∨ n = 5 → ∃ inode, treeVolume.inode n = .ok (some inode) := by
    rintro n (rfl | rfl)
    · exact ⟨_, rfl⟩
    · exact ⟨_, rfl⟩
  refine ⟨fun d hd => Volume.loads_of_entries (treeMount.counted treeEnv) (hne d hd),
    fun d hd e he e' he' => ?_,
    fun d hd e he => ?_, fun d hd e he htype => hfile _ ?_⟩
  · obtain rfl | rfl := treeVolume_directory hd
    · exact fields_unique treeVolume_root (by decide) he he'
    · exact fields_unique treeVolume_a (by decide) he he'
  · obtain rfl | rfl := treeVolume_directory hd
    · exact fields_all treeVolume_root (P := fun f => f.2.2 ≠ 0) (by decide) he
    · exact fields_all treeVolume_a (P := fun f => f.2.2 ≠ 0) (by decide) he
  · obtain rfl | rfl := treeVolume_directory hd
    · exact fields_all treeVolume_root (P := fun f => f.2.1 = 1 → f.2.2 = 4 ∨ f.2.2 = 5)
        (by decide) he htype
    · exact fields_all treeVolume_a (P := fun f => f.2.1 = 1 → f.2.2 = 4 ∨ f.2.2 = 5)
        (by decide) he htype

theorem mounted_alone (m : Mount) :
    Mounted (fun diskNo partNoMap => if diskNo = 0 ∧ partNoMap = 0 then some m else none)
      (fun diskNo partNoMap => if diskNo = 0 ∧ partNoMap = 0 then
        some (mountedAt m.part m.info m.grDesc .empty) else none) := by
  intro d p
  dsimp only
  by_cases hdp : d = 0 ∧ p = 0
  · rw [if_pos hdp, if_pos hdp]
    exact ⟨_, rfl, _, rfl, FifoCache.coherent_empty _ _⟩
  · rw [if_neg hdp, if_neg hdp]

def treeMounts (diskNo partNoMap : Nat) : Option Mount :=
  if diskNo = 0 ∧ partNoMap = 0 then some treeMount else none

def treeDisks : LinuxDisks := fun diskNo partNoMap =>
  if diskNo = 0 ∧ partNoMap = 0 then
    some (mountedAt treeMount.part treeMount.info treeMount.grDesc .empty)
  else none

theorem treeDisks_mounted : Mounted treeMounts treeDisks := mounted_alone treeMount

theorem treeDisks_serve :
    Serves (linuxPartitions treeEnv) (Mounted treeMounts) (linuxVolume treeMounts treeEnv) :=
  linuxPartitions_serve treeMounts fun _ => rfl

theorem treeVolume_leads_a : treeVolume.Leads ext4RootIno [[0x61]] 3 := by
  obtain ⟨e, he, hname, htype, hinode⟩ :=
    exists_of_fields treeVolume_root (f := ([0x61], 2, 3)) (by decide)
  exact ⟨e, ⟨⟨he, hname⟩, htype⟩, hinode.symm⟩

theorem treeVolume_no_x (d : Nat) : ¬treeVolume.Leads ext4RootIno [[0x61], [0x78]] d := by
  rintro ⟨e, ⟨⟨he, hname⟩, -⟩, e', ⟨⟨he', hname'⟩, -⟩, -⟩
  have hinode : e.inode = 3 :=
    fields_all treeVolume_root (P := fun f => f.1 = [0x61] → f.2.2 = 3) (by decide) he hname
  rw [hinode] at he'
  exact fields_all treeVolume_a (P := fun f => f.1 ≠ [0x78]) (by decide) he' hname'

def sda1 : List UInt8 := [0x73, 0x64, 0x61, 0x31]

theorem isName_singleton {x : UInt8} (hx : x ≠ 0) (hsep : x ≠ separator) : IsName [x] :=
  ⟨⟨List.cons_ne_nil x [], fun h => hsep (List.mem_singleton.mp h).symm⟩,
    fun h => hx (List.mem_singleton.mp h).symm⟩

theorem isName_a : ∀ c ∈ [[(0x61 : UInt8)]], IsName c :=
  fun _ hc => List.mem_singleton.mp hc ▸ isName_singleton (by decide) (by decide)

end Ext4tc.Plugin
