import Ext4tc.Plugin.CopyDelivery
import Ext4tc.Plugin.CopyEnds
import Ext4tc.Plugin.Listing

/-! # Getting a file

`FsGetFile` from the name to the copy. The name is resolved by the main thread, and the
copy thread asks the partition for the inode again, by its number. The last thing that a
lookup of a file does is to read that inode, so its table is in the cache then, and the
thread needs no read to find the same record. -/

namespace Ext4tc.Plugin
open Ext4tc.Lib Ext4tc.Fs Ext4tc.DiskUtils PartitionLinuxExt2

/-- What `FsGetFile` does with its name: it returns one of three errors, or it starts the
thread on an inode of a partition. -/
inductive GetFile where
  | notFound
  | notSupported
  | writeError
  | copying (diskNo partNoMap inodeNum : Nat) (inode : Ext4Inode)

/-- What follows the lookup; `createOk` is the fate of `CreateFile`, and `inode_num` is 0
where nothing was stored. -/
def GetFile.ofFound (createOk : Bool) (diskNo partNoMap : Nat) (found : FoundInode) : GetFile :=
  match found.inode with
  | none => .notFound
  | some inode =>
    if !inode.isReg then .notSupported
    else if !createOk then .writeError
    else .copying diskNo partNoMap (found.inodeNum.getD 0) inode

/-- `FsGetFile` up to `CreateThread`. Nothing but the disks tells a plugin that is not
initialised: it has none. -/
def fsGetFile {σ : Type} (env : PluginEnv σ) (createOk : Bool) (hardDisks : σ)
    (remoteName : List UInt8) : Except Fault (GetFile × σ) :=
  match env.devices.extractDiskAndPartNo remoteName with
  | none => .ok (.notFound, hardDisks)
  | some (diskNo, partNo) =>
    match env.devices.getPartitionIndexViaRealNumber diskNo partNo with
    | .error fault => .error fault
    | .ok partNoMap =>
      (getExt2Inode env.parts diskNo partNoMap hardDisks (env.toUtf8 remoteName)).map
        fun (found, hardDisks) => (.ofFound createOk diskNo partNoMap found, hardDisks)

/-! ## The inode that the lookup leaves in the cache -/

section Reads

variable {σ : Type} {parts : Partitions σ} {diskNo partNoMap : Nat}

/-- A file that is found was read last. -/
theorem lookUpFile_reads {word : List UInt8} {walk : InodeWalk σ} {inode : Ext4Inode}
    {num : Option Nat} {s : σ}
    (h : lookUpFile parts diskNo partNoMap word walk = .ok (⟨some inode, num⟩, s)) :
    ∃ n, num = some n ∧
      parts.getExt4Inode walk.hardDisks diskNo partNoMap n = .ok (some inode, s) := by
  rw [lookUpFile] at h
  split at h
  next => cases h
  next =>
    split at h
    next => cases h
    next => cases h
  next =>
    split at h
    next => cases h
    next hcall =>
      split at h
      next => cases h
      next =>
        cases h
        exact ⟨_, rfl, hcall⟩

variable {Inv : σ → Prop} {vol : Nat → Nat → Volume} {dev : List UInt8} {cs : List (List UInt8)}
  {d : Nat} {c : List UInt8}

theorem getExt2Inode_reads (hs : Serves parts Inv vol) (hdev : IsName dev)
    (hcs : ∀ c ∈ cs, IsName c) (hres : (vol diskNo partNoMap).Resolves ext4RootIno cs d)
    (hlen : (devPath dev (cs ++ [c])).length < maxPath) (hc : IsName c) {s s' : σ} (hi : Inv s)
    {inode : Ext4Inode} {num : Option Nat}
    (h : getExt2Inode parts diskNo partNoMap s (devPath dev (cs ++ [c])) =
      .ok (⟨some inode, num⟩, s')) :
    ∃ s₁ n, Inv s₁ ∧ num = some n ∧
      parts.getExt4Inode s₁ diskNo partNoMap n = .ok (some inode, s') := by
  obtain ⟨walk, hroot, -, hcall⟩ := getExt2Inode_devPath hs hdev.no_sep hcs hc hlen hi hres.load
  obtain ⟨walk', hrun, hat⟩ := walkComponents_resolves hs hcs hres hroot 0
  rw [hcall _ _ hrun, if_pos rfl] at h
  obtain ⟨n, hnum, hread⟩ := lookUpFile_reads h
  exact ⟨walk'.hardDisks, n, hat.inv, hnum, hread⟩

end Reads

/-- **A lookup that succeeded succeeds again**, whatever becomes of reads: the table is in
the cache. -/
theorem Mount.getExt4Inode_again (m : Mount) {part part' : PartitionLinuxExt2}
    (h : m.Holds part) {n : Nat} {inode : Ext4Inode}
    (hcall : part.getExt4Inode true n = .ok (some inode, part')) (ok : Bool) :
    part'.getExt4Inode ok n = .ok (some inode, part') := by
  have hans := m.getExt4Inode_answers h n
  unfold Mount.inode at hans
  split at hans
  next =>
    obtain ⟨_, hnone, -⟩ := hans
    cases hcall.symm.trans hnone
  next hn =>
    split at hans
    next => cases hcall.symm.trans hans
    next hg =>
      obtain ⟨c, rfl, -⟩ := h
      have hlt := (Nat.div_lt_iff_lt_mul m.layout.perGroup).mp (Nat.not_le.mp hg)
      have hrange : InRange m.info n := ⟨Nat.pos_of_ne_zero hn, by omega⟩
      have hread := fun c ok => getExt4Inode_mountedAt m.grDesc m.sector m.perBlock m.layout c
        hrange ok
      rw [hread] at hcall
      obtain ⟨hfound, rfl⟩ := Prod.mk.inj (Except.ok.inj hcall)
      obtain ⟨table, htable, hinode⟩ := Option.map_eq_some_iff.mp hfound
      have hslot : (c.access maxGroupDescQueueLen _ _).slots (group m.info n) = some table :=
        c.access_slot _ _ htable
      rw [hread, FifoCache.access_of_hit hslot, hslot, Option.some_or]
      exact congrArg (fun i => Except.ok (some i, _)) hinode

theorem Mounted.again {mounts : Nat → Nat → Option Mount} {disks disks' : LinuxDisks}
    (h : Mounted mounts disks) {diskNo partNoMap : Nat} {m : Mount}
    (hm : mounts diskNo partNoMap = some m) {env : DiskEnv} {n : Nat}
    (hok : (env.dir n).inodeOk = true) {inode : Ext4Inode}
    (hcall : (linuxPartitions env).getExt4Inode disks diskNo partNoMap n =
      .ok (some inode, disks')) :
    ∃ part, disks' diskNo partNoMap = some part ∧
      ∀ ok, part.getExt4Inode ok n = .ok (some inode, part) := by
  have hpart := h diskNo partNoMap
  rw [hm] at hpart
  obtain ⟨part, hpart, hholds⟩ := hpart
  rw [show (linuxPartitions env).getExt4Inode disks diskNo partNoMap n =
    onPartition disks diskNo partNoMap _ from rfl, onPartition, hpart, hok] at hcall
  obtain ⟨⟨_, part'⟩, hread, heq⟩ := exists_of_map_ok hcall
  cases heq
  exact ⟨part', by simp [LinuxDisks.set], m.getExt4Inode_again hholds hread⟩

/-! ## From the name to the bytes -/

/-- The thread starts on inode `n`, and finds there what the name was resolved to. -/
def StartsCopy (mounts : Nat → Nat → Option Mount) (diskNo partNoMap n : Nat) (src : CopySource)
    (out : Except Fault (GetFile × LinuxDisks)) : Prop :=
  ∃ disks part, out = .ok (.copying diskNo partNoMap n src.inode, disks) ∧
    Mounted mounts disks ∧ disks diskNo partNoMap = some part ∧ part.part = src.part ∧
      ∀ ok, part.Loaded ok n src.sb src.inode

/-- A call of `FsGetFile` on the file of inode `n`, and what comes of it. -/
structure GetsFile (mounts : Nat → Nat → Option Mount) (diskNo partNoMap n : Nat)
    (src : CopySource) (out : Except Fault (GetFile × LinuxDisks)) : Prop where
  starts : StartsCopy mounts diskNo partNoMap n src out
  /-- Success stands for the content of that inode, now and later. -/
  whole : ∀ s, (dataProcess src).Reachable s → s.poll = .returned .ok →
    ∀ s', (dataProcess src).Run s s' → s'.sh.dest = src.content
  /-- The call comes to its end. -/
  ends : ∀ run, (copyParties src.bs src.size).FairRun run → ∃ k, Ended (run k)

/-- Inode `n` is that of a regular file without holes. -/
structure StoredFile (m : Mount) (n : Nat) (src : CopySource) : Prop where
  inode : m.inode n = .ok (some src.inode)
  reg : src.inode.isReg = true
  part : src.part = m.part
  sb : src.sb = m.info.ext4Sb
  whole : src.Whole

/-- A file of this name in the directory that the path resolves to, regular by its entry
and by its inode. -/
structure NamesFile (m : Mount) (env : DiskEnv) (cs : List (List UInt8)) (c : List UInt8) (n : Nat)
    (src : CopySource) : Prop extends StoredFile m n src where
  found : ∃ d e, (m.volume env).Resolves ext4RootIno cs d ∧ (m.volume env).fileIn d c = some e ∧
    e.inode = n

/-- **The name of a file starts its copy**: the lookup finds the inode that the name leads to on
the device. -/
theorem NamesFile.starts {mounts : Nat → Nat → Option Mount} {diskEnv : DiskEnv}
    {env : PluginEnv LinuxDisks} (hparts : env.parts = linuxPartitions diskEnv)
    (hok : ∀ n, (diskEnv.dir n).inodeOk = true) {diskNo partNoMap : Nat} {m : Mount}
    (hm : mounts diskNo partNoMap = some m) {path dev c : List UInt8} {cs : List (List UInt8)}
    (hpath : DirPath env path diskNo partNoMap dev (cs ++ [c]))
    (hlen : (devPath dev (cs ++ [c])).length < maxPath) {n : Nat} {src : CopySource}
    (hfile : NamesFile m diskEnv cs c n src) {disks : LinuxDisks}
    (hd : Mounted mounts disks) :
    StartsCopy mounts diskNo partNoMap n src (fsGetFile env true disks path) := by
  obtain ⟨d, e, hres, hentry, rfl⟩ := hfile.found
  obtain ⟨partNo, hextract, hindex⟩ := hpath.device
  have hs := linuxPartitions_serve mounts hok
  have hvol : linuxVolume mounts diskEnv diskNo partNoMap = m.volume diskEnv := by
    rw [linuxVolume, hm]
  have hcs : ∀ c' ∈ cs, IsName c' := fun c' hc' =>
    hpath.names c' (List.mem_append_left _ hc')
  have hc : IsName c := hpath.names c (List.mem_append_right _ (List.mem_singleton_self c))
  rw [← hvol] at hres hentry
  have hans := getExt2Inode_resolves hs hpath.dev hcs hres hc hlen hd
  rw [hentry] at hans
  simp only [hvol, show (m.volume diskEnv).inode e.inode = _ from hfile.inode] at hans
  obtain ⟨disks', hcall, hd'⟩ := hans
  obtain ⟨disks₁, n, hd₁, hn, hread⟩ := getExt2Inode_reads hs hpath.dev hcs hres hlen hc hd hcall
  cases hn
  obtain ⟨part, hpart, hagain⟩ := hd₁.again hm (hok e.inode) hread
  have hholds := hd' diskNo partNoMap
  rw [hm] at hholds
  obtain ⟨part', hpart', hholds⟩ := hholds
  obtain rfl := Option.some.inj (hpart.symm.trans hpart')
  obtain ⟨hsame, info, hlive, hsb⟩ := hholds.live
  refine ⟨disks', part, ?_, hd', hpart, hsame.trans hfile.part.symm,
    fun ok => ⟨info, part, hlive, hsb.trans hfile.sb.symm, hagain ok⟩⟩
  simp only [fsGetFile, hextract, hindex, hpath.utf8, hparts, hcall]
  simp [Except.map, GetFile.ofFound, hfile.reg]

/-- The tree, with the mode of a regular file in inode 5. -/
def savedDisk : Partition :=
  .ofDevice ((⟨0, treeDisk.device⟩ : Buffer).pokes [(16896, [0xa4, 0x81])]).byte

def savedMount : Mount where
  part := savedDisk
  info := { treeInfo with ext4Sb := ⟨1024, (savedDisk.bufferAt 1024 1024).byte⟩ }
  grDesc := Ext4SbInfo.groupDescriptorGet savedDisk.heap 32 (savedDisk.bufferAt 4096 4096)
  sector := by decide
  perBlock := by decide
  layout := ⟨by decide, by decide, by decide⟩

def savedMounts (diskNo partNoMap : Nat) : Option Mount :=
  if diskNo = 0 ∧ partNoMap = 0 then some savedMount else none

def savedDisks : LinuxDisks := fun diskNo partNoMap =>
  if diskNo = 0 ∧ partNoMap = 0 then
    some (mountedAt savedMount.part savedMount.info savedMount.grDesc .empty)
  else none

def savedSource : CopySource :=
  ⟨savedMount.part, savedMount.info.ext4Sb, savedMount.diskInode 5, fun _ => false, 0⟩

theorem savedVolume_root :
    ((savedMount.volume treeEnv).entries 2).map entryFields =
      [([0x2e], 2, 2), ([0x2e, 0x2e], 2, 2), ([0x61], 2, 3), ([0x66], 1, 4)] := by decide +kernel

theorem savedVolume_a :
    ((savedMount.volume treeEnv).entries 3).map entryFields =
      [([0x2e], 2, 3), ([0x2e, 0x2e], 2, 2), ([0x67], 1, 5)] := by decide +kernel

theorem savedSource_whole : savedSource.Whole :=
  ⟨.of_direct ⟨by decide, by decide, by decide, by decide +kernel, by decide +kernel⟩
    (by decide +kernel) (by decide +kernel), rfl⟩

theorem savedVolume_namesFile :
    NamesFile savedMount treeEnv [[0x61]] [0x67] 5 savedSource := by
  obtain ⟨a, ha, hfields⟩ := find_of_fields savedVolume_root
    (p := fun f => f.1 == [0x61]) (f := ([0x61], 2, 3)) (by decide)
  obtain ⟨g, hg, hfields'⟩ := find_of_fields savedVolume_a
    (p := fun f => f.1 == [0x67] && f.2.1 == ext4FtRegFile) (f := ([0x67], 1, 5)) (by decide)
  have htype : a.fileType = 2 := congrArg (fun f => f.2.1) hfields
  have hinode : a.inode = 3 := congrArg (fun f => f.2.2) hfields
  have hroot := savedMount.loads_of_fields treeEnv savedVolume_root (by decide)
  have hload := savedMount.loads_of_fields treeEnv savedVolume_a (by decide)
  have hstored : StoredFile savedMount 5 savedSource :=
    ⟨rfl, by decide +kernel, rfl, rfl, savedSource_whole⟩
  refine ⟨hstored, 3, g, ⟨hroot, a, ha, htype, ?_⟩, hg, congrArg (fun f => f.2.2) hfields'⟩
  rw [hinode]
  exact ⟨rfl, hload⟩

end Ext4tc.Plugin
