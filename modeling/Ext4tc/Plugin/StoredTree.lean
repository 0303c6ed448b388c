import Ext4tc.DiskUtils.PartitionTable
import Ext4tc.Lib.FileTree
import Ext4tc.Plugin.DirectoryListing
import Ext4tc.Plugin.GetFile
import Ext4tc.Plugin.Transparency

/-! # The tree on a partition

What the plugin is for: a partition stores a tree of directories and files, and the plugin
shows this tree. The tree knows nothing of blocks, inodes and records; that it is stored is
a relation between it and the bytes of the device. Wherever the calls of a session have
left the plugin, the path of a directory lists its children with their names, kinds and
sizes, and the path of a file gets its content. -/

namespace Ext4tc.Plugin
open Ext4tc.Lib Ext4tc.Fs Ext4tc.DiskUtils PartitionLinuxExt2

/-- Names and contents are bytes; of a special file the low word of its size is known. -/
abbrev Tree := FileTree (List UInt8) (List UInt8) Nat

/-! ## Storing -/

/-- The blocks that a directory is stored in hold the records, well-formed. -/
structure HoldsRecords (m : Mount) (inode : Ext4Inode) (records : List Ext4DirEntry2) : Prop where
  file : WholeFile m.part m.info.ext4Sb inode
  count : 0 < fileBlocks m.info.ext4Sb.blockSize inode.size ∧
    fileBlocks m.info.ext4Sb.blockSize inode.size < 2 ^ 32
  blocks : ∃ inBlock, records =
      (List.range (fileBlocks m.info.ext4Sb.blockSize inode.size)).flatMap inBlock ∧
    ∀ b < fileBlocks m.info.ext4Sb.blockSize inode.size,
      ∃ a, StoredAt m.part m.info.ext4Sb inode b a ∧
        RecordChain m.info.ext4Sb.blockSize (m.part.block m.info.ext4Sb.blockSize a) 0 (inBlock b)

/-- Every read of a directory succeeds, and the fuel is enough for the records of a block. -/
structure ReadsAll (env : DirEnv) (bs : Nat) : Prop where
  mapper : env.metaFails = noFails
  data : ∀ i, env.readOk i = true
  fuel : bs < 8 * env.fuel

/-- The records of a directory: their names have no zero in them, and no record stands in
front of a live one of its name. -/
structure StoredDir (m : Mount) (env : DiskEnv) (n : Nat) (records : List Ext4DirEntry2) :
    Prop where
  stored : ∃ inode, m.inode n = .ok (some inode) ∧ HoldsRecords m inode records
  reads : ReadsAll (env.dir n) m.info.ext4Sb.blockSize
  names : ∀ r ∈ records, (0 : UInt8) ∉ r.nameBytes
  first : records.Pairwise fun r r' => IsLive r' → r.nameBytes ≠ r'.nameBytes

/-- A record has the name and the type of a child. -/
def SaysChild (r : Ext4DirEntry2) (child : List UInt8 × Tree) : Prop :=
  r.nameBytes = child.1 ∧
    match child.2 with
    | .file _ => r.fileType = ext4FtRegFile
    | .special _ => r.fileType ≠ ext4FtRegFile ∧ r.fileType ≠ ext4FtDir
    | .dir _ => r.fileType = ext4FtDir

/-- Inode `n` of the device stores the tree: a file has its content there, without holes, and
the live records of a directory are its children, in their order. -/
inductive Stores (m : Mount) (env : DiskEnv) : Nat → Tree → Prop
  | file {n src} (h : StoredFile m n src) : Stores m env n (.file src.content)
  | special {n inode} (h : m.inode n = .ok (some inode)) :
      Stores m env n (.special inode.iSizeLo)
  | dir {n records children} (h : StoredDir m env n records)
      (hnamed : List.Forall₂ SaysChild (records.filter IsLive) children)
      (hstores : ∀ (i : Nat) r child, (records.filter IsLive)[i]? = some r →
        children[i]? = some child → Stores m env r.inode child.2) : Stores m env n (.dir children)

section Stores

variable {m : Mount} {env : DiskEnv} {n : Nat}

theorem exists_of_forall₂ {α β : Type} {R : α → β → Prop} {as : List α} {bs : List β}
    (h : List.Forall₂ R as bs) {i : Nat} {b : β} (hb : bs[i]? = some b) :
    ∃ a, as[i]? = some a ∧ R a b := by
  obtain ⟨hi, rfl⟩ := List.getElem?_eq_some_iff.mp hb
  have hlt := h.length_eq.symm ▸ hi
  exact ⟨as[i], List.getElem?_eq_getElem hlt, h.get hlt hi⟩

theorem find_of_carries {dirs records : List Ext4DirEntry2} (h : List.Forall₂ Carries dirs records)
    {c : List UInt8} {r : Ext4DirEntry2}
    (hr : (records.find? fun r => r.nameBytes == c) = some r) :
    ∃ e, (dirs.find? fun e => e.nameBytes == c) = some e ∧ Carries e r := by
  induction h with
  | nil => cases hr
  | @cons e r' dirs records hhead _ ih =>
    rw [List.find?_cons] at hr ⊢
    rw [hhead.nameBytes]
    cases hname : r'.nameBytes == c with
    | true =>
      rw [hname] at hr
      cases hr
      exact ⟨e, rfl, hhead⟩
    | false =>
      rw [hname] at hr
      exact ih hr

/-- **A stored directory is read** record by record, wherever its blocks are. -/
theorem StoredDir.read {records : List Ext4DirEntry2} (h : StoredDir m env n records) :
    DirRecords m env n records := by
  obtain ⟨inode, hinode, hfile, hcount, inBlock, rfl, hblocks⟩ := h.stored
  refine ⟨inode, lookedUpAt m.part m.info.ext4Sb inode, inBlock, hinode, ?_, hfile.wholeSectors,
    hcount.2, fun hnone => Nat.ne_of_gt hcount.1 hnone.2, rfl⟩
  refine ⟨h.reads.mapper ▸ hfile.lookups, fun i _ => h.reads.data i, ?_, h.reads.fuel⟩
  intro b hb
  obtain ⟨a, hstored, hchain⟩ := hblocks b hb
  rw [hfile.lookedUpAt_eq hb hstored]
  exact hchain

theorem HoldsRecords.oneBlock {inode : Ext4Inode} {records : List Ext4DirEntry2}
    (hfile : IndirectFile m.part m.info.ext4Sb inode)
    (hone : fileBlocks m.info.ext4Sb.blockSize inode.size = 1) (hmapped : inode.iBlock 0 ≠ 0)
    (hchain : RecordChain m.info.ext4Sb.blockSize
      (m.part.block m.info.ext4Sb.blockSize (inode.iBlock 0)) 0 records) :
    HoldsRecords m inode records := by
  have hzero : ∀ b < fileBlocks m.info.ext4Sb.blockSize inode.size, b = 0 := by
    intro b hb
    omega
  refine ⟨.of_direct hfile (by omega) fun b hb => hzero b hb ▸ hmapped, by omega,
    fun _ => records, ?_, ?_⟩
  · rw [hone]
    exact (List.append_nil records).symm
  · intro b hb
    obtain rfl := hzero b hb
    exact ⟨_, .direct hfile.noExtents (by decide) hmapped, hchain⟩

theorem StoredDir.load {records : List Ext4DirEntry2} (h : StoredDir m env n records) :
    (m.volume env).load n = .ok (dirTable ((m.volume env).entries n)) := by
  obtain ⟨dirs, hload, -⟩ := h.read.load
  rw [Volume.entries_of_load hload, hload]

theorem StoredDir.find {records : List Ext4DirEntry2} (h : StoredDir m env n records)
    {r : Ext4DirEntry2} (hr : r ∈ records) (hlive : IsLive r) :
    (records.find? fun r' => r'.nameBytes == r.nameBytes) = some r := by
  obtain ⟨before, after, rfl⟩ := List.append_of_mem hr
  have hbefore := (List.pairwise_append.mp h.first).2.2
  refine List.find?_eq_some_iff_append.mpr ⟨beq_self_eq_true _, before, after, rfl, ?_⟩
  intro r' hr'
  simpa using hbefore r' hr' r List.mem_cons_self hlive

theorem Stores.child {children : List (List UInt8 × Tree)} {c : List UInt8} {t : Tree}
    (h : Stores m env n (.dir children)) (hc : (FileTree.dir children : Tree).find c = some t) :
    (m.volume env).load n = .ok (dirTable ((m.volume env).entries n)) ∧
      ∃ e, ((m.volume env).entries n).find? (fun e => e.nameBytes == c) = some e ∧
        SaysChild e (c, t) ∧ Stores m env e.inode t := by
  obtain ⟨_, i, heq, hi⟩ := FileTree.find_some hc
  cases heq
  cases h with
  | dir hdir hnamed hstores =>
    obtain ⟨r, hr, hsay⟩ := exists_of_forall₂ hnamed hi
    obtain ⟨hmem, hlive⟩ := List.mem_filter.mp (List.mem_of_getElem? hr)
    have hfirst := hdir.find hmem (of_decide_eq_true hlive)
    rw [hsay.1] at hfirst
    obtain ⟨e, he, hcarries⟩ := find_of_carries hdir.read.entries hfirst
    refine ⟨hdir.load, e, he, ?_, hcarries.inode ▸ hstores i r _ hr hi⟩
    rw [SaysChild, hcarries.nameBytes, hcarries.fileType]
    exact hsay

/-- **A path to a directory of the tree** resolves to where the directory is stored. -/
theorem Stores.resolves {t : Tree} {cs : List (List UInt8)} {children : List (List UInt8 × Tree)}
    (h : Stores m env n t) (hpath : t.lookup cs = some (.dir children)) :
    ∃ d, (m.volume env).Resolves n cs d ∧ Stores m env d (.dir children) := by
  induction cs generalizing n t with
  | nil =>
    cases Option.some.inj hpath
    refine ⟨n, ⟨rfl, ?_⟩, h⟩
    cases h with
    | dir hdir => exact hdir.load
  | cons c cs ih =>
    obtain ⟨t', hc, hrest⟩ := Option.bind_eq_some_iff.mp hpath
    obtain ⟨own, -, rfl, -⟩ := FileTree.find_some hc
    obtain ⟨hload, e, he, hnamed, hstores⟩ := h.child hc
    obtain ⟨d, hres, hend⟩ := ih hstores hrest
    obtain ⟨own', rfl⟩ := FileTree.lookup_dir hrest
    exact ⟨d, ⟨hload, e, he, hnamed.2, hres⟩, hend⟩

/-- **A path to a file of the tree** names the file that is stored there. -/
theorem Stores.namesFile {t : Tree} {cs : List (List UInt8)} {c content : List UInt8}
    (h : Stores m env ext4RootIno t) (hpath : t.lookup (cs ++ [c]) = some (.file content)) :
    ∃ n src, NamesFile m env cs c n src ∧ src.content = content := by
  obtain ⟨children, hdir, hc⟩ := FileTree.lookup_concat hpath
  obtain ⟨d, hres, hd⟩ := h.resolves hdir
  obtain ⟨-, e, he, hnamed, hstores⟩ := hd.child hc
  have hfile : (m.volume env).fileIn d c = some e := find_and he (beq_iff_eq.mpr hnamed.2)
  generalize hn : e.inode = k at hstores
  cases hstores with
  | @file _ src hstored => exact ⟨_, src, ⟨hstored, d, e, hres, hfile, hn⟩, rfl⟩

end Stores

/-! ## Showing -/

/-- The buffer `fd`, which was `buf`, says what there is to say of a child. -/
structure ShowsChild {σ : Type} (env : PluginEnv σ) (child : List UInt8 × Tree)
    (buf fd : FindData) : Prop where
  name : fd.cFileName = env.toAcp child.1
  time : fd.ftLastWriteTime = noTime
  kind : match child.2 with
    | .file content => fd.dwFileAttributes = fileAttributeNormal ∧
        fd.nFileSizeHigh * 2 ^ 32 + fd.nFileSizeLow = content.length
    | .special sizeLo => fd.dwFileAttributes = fileAttributeNormal ∧ fd.nFileSizeLow = sizeLo ∧
        fd.nFileSizeHigh = buf.nFileSizeHigh
    | .dir _ => fd.dwFileAttributes = fileAttributeDirectory ∧ fd.nFileSizeLow = 0 ∧
        fd.nFileSizeHigh = buf.nFileSizeHigh

/-- A call of `FsGetFile` copies the content: it starts on a file of this content, and what
it says and does is true of it. -/
def GetsContent (mounts : Nat → Nat → Option Mount) (diskNo partNoMap : Nat)
    (content : List UInt8) (out : Except Fault (GetFile × LinuxDisks)) : Prop :=
  ∃ n src, src.content = content ∧ GetsFile mounts diskNo partNoMap n src out

section Showing

variable {m : Mount} {diskEnv : DiskEnv} {n : Nat}

/-- Where no directory is stored there is an inode. -/
theorem Stores.inode {t : Tree} (h : Stores m diskEnv n t) (ht : ∀ children, t ≠ .dir children) :
    ∃ inode, m.inode n = .ok (some inode) := by
  cases h with
  | file hstored => exact ⟨_, hstored.inode⟩
  | special hinode => exact ⟨_, hinode⟩
  | dir => exact absurd rfl (ht _)

/-- So the inodes of the live records that are not of directories can be read. -/
theorem reads_of_stores {records : List Ext4DirEntry2} {children : List (List UInt8 × Tree)}
    (hnamed : List.Forall₂ SaysChild (records.filter IsLive) children)
    (hstores : ∀ (i : Nat) r child, (records.filter IsLive)[i]? = some r →
      children[i]? = some child → Stores m diskEnv r.inode child.2) :
    ∀ r ∈ records, IsLive r → r.fileType ≠ ext4FtDir →
      ∃ inode, m.inode r.inode = .ok (some inode) := by
  intro r hr hlive htype
  have hmem : r ∈ records.filter IsLive := List.mem_filter.mpr ⟨hr, decide_eq_true hlive⟩
  obtain ⟨i, hi⟩ := List.mem_iff_getElem?.mp hmem
  have hflip : List.Forall₂ (flip SaysChild) children (records.filter IsLive) := hnamed.flip
  obtain ⟨child, hchild, hsay⟩ := exists_of_forall₂ hflip hi
  refine (hstores i r child hi hchild).inode ?_
  intro own heq
  have hkind := hsay.2
  rw [heq] at hkind
  exact htype hkind

theorem ShowsRecord.child {σ : Type} {env : PluginEnv σ} {r : Ext4DirEntry2}
    {child : List UInt8 × Tree} {buf fd : FindData}
    (h : ShowsRecord env (m.volume diskEnv) r buf fd) (hnamed : SaysChild r child)
    (hstores : Stores m diskEnv r.inode child.2) : ShowsChild env child buf fd := by
  obtain ⟨c, t⟩ := child
  obtain ⟨hname, htype⟩ := hnamed
  refine ⟨h.name.trans (congrArg env.toAcp hname), h.time, ?_⟩
  have hattributes := h.attributes
  cases t with
  | dir children =>
    rw [if_pos htype] at hattributes
    exact ⟨hattributes, h.dir htype⟩
  | file content =>
    have hne : r.fileType ≠ ext4FtDir := by
      rw [show r.fileType = ext4FtRegFile from htype]
      decide
    obtain ⟨inode, hinode, hlow, hhigh⟩ := h.file hne
    rw [if_neg hne] at hattributes
    rw [if_pos htype] at hhigh
    generalize r.inode = k at hstores hinode
    cases hstores with
    | @file _ src hstored =>
      obtain rfl : inode = src.inode :=
        (Option.some.inj (Except.ok.inj (hstored.inode.symm.trans hinode))).symm
      refine ⟨hattributes, ?_⟩
      rw [hlow, hhigh, ← Ext4Inode.size_eq]
      exact hstored.whole.file.storedContent_length.symm
  | special sizeLo =>
    obtain ⟨inode, hinode, hlow, hhigh⟩ := h.file htype.2
    rw [if_neg htype.2] at hattributes
    rw [if_neg htype.1] at hhigh
    generalize r.inode = k at hstores hinode
    cases hstores with
    | special hstored =>
      obtain rfl := Option.some.inj (Except.ok.inj (hstored.symm.trans hinode))
      exact ⟨hattributes, hlow, hhigh⟩

/-- **A stored directory is listed** as the tree has it. -/
theorem Stores.lists {mounts : Nat → Nat → Option Mount} {env : PluginEnv LinuxDisks}
    (hparts : env.parts = linuxPartitions diskEnv) (hok : ∀ n, (diskEnv.dir n).inodeOk = true)
    {diskNo partNoMap : Nat} (hm : mounts diskNo partNoMap = some m) {path dev : List UInt8}
    {cs : List (List UInt8)} (hpath : DirPath env path diskNo partNoMap dev cs)
    (hres : (m.volume diskEnv).Resolves ext4RootIno cs n) {children : List (List UInt8 × Tree)}
    (h : Stores m diskEnv n (.dir children)) {descr : Ext4PluginDescr LinuxDisks}
    (hready : Ready (Mounted mounts) descr) (fd : FindData) (bufs : List FindData) :
    ListsDirectory (ShowsChild env) env descr path fd children bufs := by
  cases h with
  | @dir _ records _ hdir hnamed hstores =>
    have hlisted := hdir.read.listedRead hdir.names (reads_of_stores hnamed hstores)
    have hd : Mounted mounts descr.hardDisks := hready.inv
    have hlists := hd.lists hparts hok hm hpath hres hready.sized hlisted fd bufs
    have hrecords : ListsDirectory (ShowsRecord env (m.volume diskEnv)) env descr path fd
        (records.filter IsLive) bufs :=
      hlists.convert ((listed_of_carries hdir.read.entries hdir.names).imp
        fun _ _ hc _ _ hshows => hshows.of_carries hc)
    refine hrecords.convert (List.forall₂_iff_get.mpr ⟨hnamed.length_eq, ?_⟩)
    intro i hi hi' buf fd' hshows
    exact hshows.child (hnamed.get hi hi') (hstores i _ _ (List.getElem?_eq_getElem hi)
      (List.getElem?_eq_getElem hi'))

end Showing

/-! ## Sessions -/

/-- The plugin shows the tree of a partition, whatever its caller's buffers hold. -/
structure ShowsTree (env : PluginEnv LinuxDisks) (mounts : Nat → Nat → Option Mount)
    (diskNo partNoMap : Nat) (tree : Tree) (descr : Ext4PluginDescr LinuxDisks) : Prop where
  lists : ∀ path dev cs children, DirPath env path diskNo partNoMap dev cs →
    tree.lookup cs = some (.dir children) → ∀ fd bufs,
      ListsDirectory (ShowsChild env) env descr path fd children bufs
  gets : ∀ path dev cs c content, DirPath env path diskNo partNoMap dev (cs ++ [c]) →
    tree.lookup (cs ++ [c]) = some (.file content) →
      (devPath dev (cs ++ [c])).length < maxPath →
        GetsContent mounts diskNo partNoMap content (fsGetFile env true descr.hardDisks path)

section Sessions

variable {mounts : Nat → Nat → Option Mount} {diskEnv : DiskEnv} {env : PluginEnv LinuxDisks}
  (hparts : env.parts = linuxPartitions diskEnv) (hok : ∀ n, (diskEnv.dir n).inodeOk = true)
include hparts hok

theorem pluginCall_ready {s s' : SearchState LinuxDisks} {call : PluginCall} {reply : PluginReply}
    (h : Ready (Mounted mounts) s.descr)
    (hcall : (pluginSystem env).step s call = .ok (reply, s')) :
    Ready (Mounted mounts) s'.descr := by
  have hs := linuxPartitions_serve mounts hok
  rw [← hparts] at hs
  cases call with
  | search call =>
    obtain ⟨⟨_, s₁⟩, hrun, heq⟩ := exists_of_map_ok hcall
    cases heq
    exact call_ready hs (linuxVolume_counted mounts diskEnv) h (searchSystem_step hrun)
  | getFile c createOk name =>
    obtain ⟨e, hx, -⟩ | ⟨_, s₁, t, hx, -, hsame⟩ :=
      uncached_step hparts hok (.getFile c createOk name) (SearchState.same_uncached h.inv)
    · cases hcall.symm.trans hx
    · cases hcall.symm.trans hx
      obtain ⟨_, -, heq⟩ := exists_of_map_ok hcall
      cases heq
      exact ⟨hsame.descr.disks, h.sized⟩

theorem reaches_ready {s₀ s : SearchState LinuxDisks} {calls : List PluginCall}
    (hcalls : (pluginSystem env).Reaches s₀ calls s) (h₀ : Ready (Mounted mounts) s₀.descr) :
    Ready (Mounted mounts) s.descr :=
  hcalls.keeps (fun _ _ _ _ h hcall => pluginCall_ready hparts hok h hcall) h₀

theorem Stores.shown {diskNo partNoMap : Nat} {m : Mount} (hm : mounts diskNo partNoMap = some m)
    {tree : Tree} (hstored : Stores m diskEnv ext4RootIno tree)
    {descr : Ext4PluginDescr LinuxDisks} (hready : Ready (Mounted mounts) descr) :
    ShowsTree env mounts diskNo partNoMap tree descr := by
  constructor
  · intro path dev cs children hpath hdir fd bufs
    obtain ⟨d, hres, hd⟩ := hstored.resolves hdir
    exact hd.lists hparts hok hm hpath hres hready fd bufs
  · intro path dev cs c content hpath hfile hlen
    obtain ⟨n, src, hnames, hcontent⟩ := hstored.namesFile hfile
    exact ⟨n, src, hcontent, hnames.starts hparts hok hm hpath hlen hready.inv,
      fun _ hs hret _ hrun => hnames.whole.delivered hs hret hrun,
      fun _ hrun => copy_ends hnames.whole.file.size src.sb.blockSize_le hrun⟩

end Sessions

/-! ## A stored tree -/

/-- A drive with one partition, from sector 64 on, and zeros in front of it but for the table.
The partition has the tree, where the file `f`, inode 4, is regular as well. -/
def storedDrive : Disk :=
  { diskOf [] with
    device := ((⟨0, fun i => savedDisk.device (i - 32768)⟩ : Buffer).pokes
      [(450, [0x83, 0, 0, 0, 64]), (510, [0x55, 0xaa]), (49536, [0xa4, 0x81])]).byte }

def storedDisk : Partition := storedDrive.partitionAt 32768

def storedMount : Mount where
  part := storedDisk
  info := { treeInfo with ext4Sb := ⟨1024, (storedDisk.bufferAt (storedDisk.seek 2) 1024).byte⟩ }
  grDesc := Ext4SbInfo.groupDescriptorGet storedDisk.heap 32
    (storedDisk.bufferAt (storedDisk.seek 8) 4096)
  sector := by decide
  perBlock := by decide
  layout := ⟨by decide, by decide, by decide⟩

def storedMounts (diskNo partNoMap : Nat) : Option Mount :=
  if diskNo = 0 ∧ partNoMap = 0 then some storedMount else none

def storedSearch : SearchState LinuxDisks :=
  ⟨⟨fun diskNo partNoMap => if diskNo = 0 ∧ partNoMap = 0 then
      some (mountedAt storedMount.part storedMount.info storedMount.grDesc .empty) else none,
    none, 0⟩, fun _ => none, fun _ => none⟩

def storedSource (n : Nat) : CopySource :=
  ⟨storedMount.part, storedMount.info.ext4Sb, storedMount.diskInode n, fun _ => false, 0⟩

noncomputable def storedFile (n : Nat) : Tree := .file (storedSource n).content

/-- `a\g` and `f`. -/
noncomputable def storedTree : Tree :=
  .dir [([0x61], .dir [([0x67], storedFile 5)]), ([0x66], storedFile 4)]

def storedRecord (block offset : Nat) : Ext4DirEntry2 := (storedDisk.block 4096 block).shift offset

def storedRoot : List Ext4DirEntry2 := [0, 12, 24, 36].map (storedRecord 5)

def storedA : List Ext4DirEntry2 := [0, 12, 24].map (storedRecord 6)

theorem storedRoot_chain : RecordChain 4096 (storedDisk.block 4096 5) 0 storedRoot :=
  .next (n := 12) (by decide +kernel) (.next (n := 12) (by decide +kernel)
    (.next (n := 12) (by decide +kernel) (.next (n := 4060) (by decide +kernel) .done)))

theorem storedA_chain : RecordChain 4096 (storedDisk.block 4096 6) 0 storedA :=
  .next (n := 12) (by decide +kernel) (.next (n := 12) (by decide +kernel)
    (.next (n := 4072) (by decide +kernel) .done))

theorem storedRoot_dir : StoredDir storedMount wideEnv 2 storedRoot :=
  ⟨⟨storedMount.diskInode 2, rfl, .oneBlock ⟨by decide, by decide, by decide, by decide +kernel,
      by decide +kernel⟩ (by decide +kernel) (by decide +kernel) storedRoot_chain⟩,
    ⟨rfl, fun _ => rfl, by decide⟩, by decide +kernel, by decide +kernel⟩

theorem storedA_dir : StoredDir storedMount wideEnv 3 storedA :=
  ⟨⟨storedMount.diskInode 3, rfl, .oneBlock ⟨by decide, by decide, by decide, by decide +kernel,
      by decide +kernel⟩ (by decide +kernel) (by decide +kernel) storedA_chain⟩,
    ⟨rfl, fun _ => rfl, by decide⟩, by decide +kernel, by decide +kernel⟩

theorem storedFile_stores {n : Nat}
    (hinode : storedMount.inode n = .ok (some (storedMount.diskInode n)) ∧
      (storedMount.diskInode n).isReg = true) (hwhole : (storedSource n).Whole) :
    Stores storedMount wideEnv n (storedFile n) :=
  .file ⟨hinode.1, hinode.2, rfl, rfl, hwhole⟩

theorem storedSources_whole : (storedSource 4).Whole ∧ (storedSource 5).Whole :=
  ⟨⟨.of_direct ⟨by decide, by decide, by decide, by decide +kernel, by decide +kernel⟩
      (by decide +kernel) (by decide +kernel), rfl⟩,
    ⟨.of_direct ⟨by decide, by decide, by decide, by decide +kernel, by decide +kernel⟩
      (by decide +kernel) (by decide +kernel), rfl⟩⟩

theorem storedA_stores : Stores storedMount wideEnv 3 (.dir [([0x67], storedFile 5)]) := by
  have hlive : ¬IsLive (storedRecord 6 0) ∧ ¬IsLive (storedRecord 6 12) ∧
    IsLive (storedRecord 6 24) := by decide +kernel
  have hnamed : (storedRecord 6 24).nameBytes = [0x67] ∧ (storedRecord 6 24).fileType = 1 ∧
    (storedRecord 6 24).inode = 5 := by decide +kernel
  have hlist : storedA.filter IsLive = [storedRecord 6 24] := by simp [storedA, hlive]
  refine .dir storedA_dir ?_ ?_
  · rw [hlist]
    exact .cons ⟨hnamed.1, hnamed.2.1⟩ .nil
  · rw [hlist]
    intro i r child hr hchild
    cases i with
    | zero =>
      cases hr
      cases hchild
      rw [hnamed.2.2]
      exact storedFile_stores ⟨rfl, by decide +kernel⟩ storedSources_whole.2
    | succ i => cases hr

theorem storedTree_stores : Stores storedMount wideEnv ext4RootIno storedTree := by
  have hlive : ¬IsLive (storedRecord 5 0) ∧ ¬IsLive (storedRecord 5 12) ∧
    IsLive (storedRecord 5 24) ∧ IsLive (storedRecord 5 36) := by decide +kernel
  have hnamed : (storedRecord 5 24).nameBytes = [0x61] ∧ (storedRecord 5 24).fileType = 2 ∧
    (storedRecord 5 24).inode = 3 ∧ (storedRecord 5 36).nameBytes = [0x66] ∧
      (storedRecord 5 36).fileType = 1 ∧ (storedRecord 5 36).inode = 4 := by decide +kernel
  obtain ⟨haName, haType, haInode, hfName, hfType, hfInode⟩ := hnamed
  have hlist : storedRoot.filter IsLive = [storedRecord 5 24, storedRecord 5 36] := by
    simp [storedRoot, hlive]
  refine .dir storedRoot_dir ?_ ?_
  · rw [hlist]
    exact .cons ⟨haName, haType⟩ (.cons ⟨hfName, hfType⟩ .nil)
  · rw [hlist]
    intro i r child hr hchild
    rcases i with _ | _ | i
    · cases hr
      cases hchild
      rw [haInode]
      exact storedA_stores
    · cases hr
      cases hchild
      rw [hfInode]
      exact storedFile_stores ⟨rfl, by decide +kernel⟩ storedSources_whole.1
    · cases hr

/-- A search of the root, the file `f`, and a search of `a` that begins before the first one
has come to its end. -/
def storedCalls : List PluginCall :=
  [.search (.findFirst 0 (devPath sda1 []) .zero), .getFile 1 true (devPath sda1 [[0x66]]),
    .search (.findFirst 2 (devPath sda1 [[0x61]]) .zero), .search (.findNext 0 .zero)]

end Ext4tc.Plugin
