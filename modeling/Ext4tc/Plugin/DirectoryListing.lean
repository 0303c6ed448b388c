import Ext4tc.DiskUtils.WholeDirectory
import Ext4tc.Plugin.DirectorySearch
import Ext4tc.Plugin.Listing

/-! # The listing of a directory

`FsFindFirst` on a directory and `FsFindNext` on its handle, each with whatever buffer the
caller passes. What is left to come are the listed entries behind the place in the handle;
a call shows the first of them, and where none is left it changes neither the handle nor
the buffer. Together with the directory read, the records of the device are what is shown. -/

namespace Ext4tc.Plugin
open Ext4tc.Lib Ext4tc.Fs Ext4tc.DiskUtils

/-- The buffer `fd`, which was `buf`, says what the directory says of an entry. The high
word of the size is written for regular files only. -/
structure ShowsRecord {σ : Type} (env : PluginEnv σ) (vol : Volume) (e : Ext4DirEntry2)
    (buf fd : FindData) : Prop where
  name : fd.cFileName = env.toAcp e.nameBytes
  attributes : fd.dwFileAttributes =
    if e.fileType = ext4FtDir then fileAttributeDirectory else fileAttributeNormal
  time : fd.ftLastWriteTime = noTime
  dir : e.fileType = ext4FtDir → fd.nFileSizeLow = 0 ∧ fd.nFileSizeHigh = buf.nFileSizeHigh
  file : e.fileType ≠ ext4FtDir → ∃ inode, vol.inode e.inode = .ok (some inode) ∧
    fd.nFileSizeLow = inode.iSizeLo ∧ fd.nFileSizeHigh =
      if e.fileType = ext4FtRegFile then inode.iSizeHigh else buf.nFileSizeHigh

section Shows

variable {σ α : Type} (shows : α → FindData → FindData → Prop) (env : PluginEnv σ)

/-- The answers to calls with the buffers `bufs`, where the entries `left` are to come. -/
inductive Answered : List α → List FindData → List (Bool × FindData) → Prop
  | nil {left} : Answered left [] []
  | more {e left buf bufs fd rest} (h : shows e buf fd) (hrest : Answered left bufs rest) :
      Answered (e :: left) (buf :: bufs) ((true, fd) :: rest)
  | done {buf bufs rest} (hrest : Answered [] bufs rest) :
      Answered [] (buf :: bufs) ((false, buf) :: rest)

def findNexts : LastFind → Ext4PluginDescr σ → List FindData →
    Except Fault (List (Bool × FindData) × LastFind × Ext4PluginDescr σ)
  | lf, descr, [] => .ok ([], lf, descr)
  | lf, descr, buf :: bufs =>
    match fsFindNext env descr lf buf with
    | .error fault => .error fault
    | .ok ((more, lf, fd), descr) =>
      (findNexts lf descr bufs).map fun (rest, s) => ((more, fd) :: rest, s)

/-- A search of `path` shows the entries: the first one, and the others in their order with
the further calls; `..` stands for a directory that has none. -/
def ListsDirectory (descr₀ : Ext4PluginDescr σ) (path : List UInt8) (fd₀ : FindData)
    (entries : List α) (bufs : List FindData) : Prop :=
  ∃ lf fd descr rest s, fsFindFirst env descr₀ path fd₀ = .ok ((some lf, fd), descr) ∧
    findNexts env lf descr bufs = .ok (rest, s) ∧
      match entries with
      | [] => fd = showParent .zero ∧ Answered shows [] bufs rest
      | e :: left => shows e .zero fd ∧ Answered shows left bufs rest

variable {shows env} {β : Type} {shows' : β → FindData → FindData → Prop}

/-- What shows the one shows the other. -/
theorem Answered.convert {as : List α} {bs : List β} {bufs : List FindData}
    {rest : List (Bool × FindData)} (h : Answered shows as bufs rest)
    (hconvert : List.Forall₂ (fun a b => ∀ buf fd, shows a buf fd → shows' b buf fd) as bs) :
    Answered shows' bs bufs rest := by
  induction h generalizing bs with
  | nil => exact .nil
  | more hshows _ ih =>
    cases hconvert with
    | cons hhead htail => exact .more (hhead _ _ hshows) (ih htail)
  | done _ ih =>
    cases hconvert
    exact .done (ih .nil)

theorem ListsDirectory.convert {descr₀ : Ext4PluginDescr σ} {path : List UInt8} {fd₀ : FindData}
    {as : List α} {bs : List β} {bufs : List FindData}
    (h : ListsDirectory shows env descr₀ path fd₀ as bufs)
    (hconvert : List.Forall₂ (fun a b => ∀ buf fd, shows a buf fd → shows' b buf fd) as bs) :
    ListsDirectory shows' env descr₀ path fd₀ bs bufs := by
  obtain ⟨lf, fd, descr, rest, s, hfirst, hrest, hshown⟩ := h
  refine ⟨lf, fd, descr, rest, s, hfirst, hrest, ?_⟩
  cases hconvert with
  | nil => exact ⟨hshown.1, hshown.2.convert .nil⟩
  | cons hhead htail => exact ⟨hhead _ _ hshown.1, hshown.2.convert htail⟩

end Shows

/-! ## The calls -/

section Calls

variable {σ : Type} {env : PluginEnv σ} {Inv : σ → Prop} {vol : Nat → Nat → Volume}
  {diskNo partNoMap : Nat} {d : Nat}

/-- The handle has `left` to come in directory `d`. -/
structure Behind (Inv : σ → Prop) (vol : Volume) (diskNo partNoMap d : Nat) (lf : LastFind)
    (descr : Ext4PluginDescr σ) (left : List Ext4DirEntry2) : Prop where
  root : lf.root = false
  diskNo_eq : lf.diskNo = diskNo
  partNoMap_eq : lf.partNoMap = partNoMap
  table : TableOf Inv vol d descr
  left_eq : left = ((vol.entries d).drop (lf.numLastEntry + 1)).filter isListed

def ListedRead (vol : Volume) (d : Nat) : Prop :=
  ∀ e ∈ vol.entries d, isListed e = true → e.fileType ≠ ext4FtDir →
    ∃ inode, vol.inode e.inode = .ok (some inode)

theorem mem_of_left {vol : Volume} {n : Nat} {e : Ext4DirEntry2} {left : List Ext4DirEntry2}
    (h : e :: left = ((vol.entries d).drop n).filter isListed) :
    e ∈ vol.entries d ∧ isListed e = true := by
  have hmem : e ∈ ((vol.entries d).drop n).filter isListed := h ▸ List.mem_cons_self
  obtain ⟨hmem, hlisted⟩ := List.mem_filter.mp hmem
  exact ⟨List.mem_of_mem_drop hmem, hlisted⟩

variable (hs : Serves env.parts Inv vol) (hread : ListedRead (vol diskNo partNoMap) d)
include hs

theorem showEntry_says {descr : Ext4PluginDescr σ} (buf : FindData) {e : Ext4DirEntry2}
    (hat : HasTable Inv (vol diskNo partNoMap) d descr) (hinode : e.fileType ≠ ext4FtDir →
      ∃ inode, (vol diskNo partNoMap).inode e.inode = .ok (some inode)) :
    ∃ fd descr', showEntry env descr diskNo partNoMap buf e = .ok (fd, descr') ∧
      ShowsRecord env (vol diskNo partNoMap) e buf fd ∧
        HasTable Inv (vol diskNo partNoMap) d descr' := by
  unfold showEntry
  by_cases htype : e.fileType = ext4FtDir
  · rw [if_pos htype]
    exact ⟨_, descr, rfl, ⟨rfl, rfl, rfl, fun _ => ⟨rfl, rfl⟩, fun h => absurd htype h⟩, hat⟩
  · obtain ⟨inode, hfound⟩ := hinode htype
    have hcall := hs.inode descr.hardDisks hat.inv diskNo partNoMap e.inode
    rw [hfound] at hcall
    obtain ⟨s', hcall, hi⟩ := hcall
    simp only [if_neg htype, hcall]
    exact ⟨_, _, rfl, ⟨rfl, rfl, rfl, fun h => absurd h htype, fun _ => ⟨inode, hfound, rfl, rfl⟩⟩,
      hi, hat.table, hat.num⟩

omit hs in
theorem Behind.done {lf : LastFind} {descr : Ext4PluginDescr σ}
    (h : Behind Inv (vol diskNo partNoMap) diskNo partNoMap d lf descr []) (buf : FindData) :
    fsFindNext env descr lf buf = .ok ((false, lf, buf), descr) := by
  have hnext : getNextDirEntry descr lf.numLastEntry = .ok (none, lf.numLastEntry) := by
    obtain hat | ⟨hnone, -⟩ := h.table
    · exact (getNextDirEntry_leaves hat.table hat.num).done _ trivial h.left_eq.symm
    · simp [getNextDirEntry, hnone.table]
  rw [fsFindNext, if_neg (by rw [h.root]; exact Bool.false_ne_true)]
  simp only [hnext]

include hread

/-- **A call shows the first entry that is left.** -/
theorem Behind.more {lf : LastFind} {descr : Ext4PluginDescr σ} {e : Ext4DirEntry2}
    {left : List Ext4DirEntry2}
    (h : Behind Inv (vol diskNo partNoMap) diskNo partNoMap d lf descr (e :: left))
    (buf : FindData) :
    ∃ lf' fd descr', fsFindNext env descr lf buf = .ok ((true, lf', fd), descr') ∧
      ShowsRecord env (vol diskNo partNoMap) e buf fd ∧
        Behind Inv (vol diskNo partNoMap) diskNo partNoMap d lf' descr' left := by
  obtain ⟨hmem, hlisted⟩ := mem_of_left h.left_eq
  obtain hat | ⟨-, hempty⟩ := h.table
  · obtain ⟨n, hnext, -, hleft⟩ :=
      (getNextDirEntry_leaves hat.table hat.num).more _ _ _ trivial h.left_eq.symm
    obtain ⟨fd, descr', hshow, hshows, hat'⟩ := showEntry_says hs buf hat (hread e hmem hlisted)
    refine ⟨{ lf with numLastEntry := n }, fd, descr', ?_, hshows,
      ⟨h.root, h.diskNo_eq, h.partNoMap_eq, .inl hat', hleft.symm⟩⟩
    rw [fsFindNext, h.root]
    simp only [Bool.false_eq_true, if_false, hnext, h.diskNo_eq, h.partNoMap_eq, hshow]
  · rw [hempty] at hmem
    cases hmem

/-- **Calls in a row** show what is left, entry by entry. -/
theorem Behind.nexts {lf : LastFind} {descr : Ext4PluginDescr σ} {left : List Ext4DirEntry2}
    (h : Behind Inv (vol diskNo partNoMap) diskNo partNoMap d lf descr left)
    (bufs : List FindData) :
    ∃ rest s, findNexts env lf descr bufs = .ok (rest, s) ∧
      Answered (ShowsRecord env (vol diskNo partNoMap)) left bufs rest := by
  induction bufs generalizing lf descr left with
  | nil => exact ⟨[], _, rfl, .nil⟩
  | cons buf bufs ih =>
    cases left with
    | nil =>
      obtain ⟨rest, s, hrest, hans⟩ := ih h
      refine ⟨(false, buf) :: rest, s, ?_, .done hans⟩
      rw [findNexts, h.done buf]
      simp only [hrest]
      rfl
    | cons e left =>
      obtain ⟨lf', fd, descr', hcall, hshows, hbehind⟩ := h.more hs hread buf
      obtain ⟨rest, s, hrest, hans⟩ := ih hbehind
      refine ⟨(true, fd) :: rest, s, ?_, .more hshows hans⟩
      rw [findNexts, hcall]
      simp only [hrest]
      rfl

/-- **A search of a directory lists it.** -/
theorem lists_directory (hcount : (vol diskNo partNoMap).Counted) {path dev : List UInt8}
    {cs : List (List UInt8)} (hpath : DirPath env path diskNo partNoMap dev cs)
    (hres : (vol diskNo partNoMap).Resolves ext4RootIno cs d) {descr₀ : Ext4PluginDescr σ}
    (hi : Inv descr₀.hardDisks) (hsized : Sized descr₀) (fd₀ : FindData) (bufs : List FindData) :
    ListsDirectory (ShowsRecord env (vol diskNo partNoMap)) env descr₀ path fd₀
      (((vol diskNo partNoMap).entries d).filter isListed) bufs := by
  obtain ⟨first, descr, hrun, hend⟩ :=
    getFirstDirEntry_resolves hs hcount hpath.dev hpath.names hres hi hsized
  obtain ⟨partNo, hextract, hindex, hcall⟩ := hpath.findFirst
  have hfirst := hcall descr₀ fd₀
  simp only [findFirstDir, hextract, hindex, hpath.utf8, hrun] at hfirst
  have hparent : ∀ n, TableOf Inv (vol diskNo partNoMap) d descr →
      first = ⟨none, n⟩ → (((vol diskNo partNoMap).entries d).filter isListed) = [] →
      ListsDirectory (ShowsRecord env (vol diskNo partNoMap)) env descr₀ path fd₀ [] bufs := by
    rintro n htable rfl hnil
    have hleft : ∀ k, [] = (((vol diskNo partNoMap).entries d).drop k).filter isListed := by
      intro k
      rw [List.filter_eq_nil_iff] at hnil
      exact (List.filter_eq_nil_iff.mpr fun e he => hnil e (List.mem_of_mem_drop he)).symm
    have hbehind : Behind Inv (vol diskNo partNoMap) diskNo partNoMap d
        ⟨false, diskNo, partNoMap, n.getD 0⟩ descr [] := ⟨rfl, rfl, rfl, htable, hleft _⟩
    obtain ⟨rest, s, hrest, hans⟩ := hbehind.nexts hs hread bufs
    exact ⟨_, _, _, rest, s, hfirst, hrest, rfl, hans⟩
  obtain ⟨hat, hlisted⟩ | ⟨hnone, hfound, hempty⟩ := hend
  · obtain ⟨hscan, hnil⟩ | ⟨j, e, hscan, hcons⟩ := firstListed_cases hat.table hat.num
    · rw [hnil]
      exact hparent _ (.inl hat) (Except.ok.inj (hlisted.symm.trans hscan)) hnil
    · obtain rfl := Except.ok.inj (hlisted.symm.trans hscan)
      obtain ⟨hmem, hshown⟩ := mem_of_left (n := 0) hcons.symm
      obtain ⟨fd, descr', hshow, hshows, hat'⟩ :=
        showEntry_says hs .zero hat (hread e hmem hshown)
      have hbehind : Behind Inv (vol diskNo partNoMap) diskNo partNoMap d
          ⟨false, diskNo, partNoMap, j⟩ descr'
          ((((vol diskNo partNoMap).entries d).drop (j + 1)).filter isListed) :=
        ⟨rfl, rfl, rfl, .inl hat', rfl⟩
      obtain ⟨rest, s, hrest, hans⟩ := hbehind.nexts hs hread bufs
      simp only [hshow] at hfirst
      rw [hcons]
      exact ⟨_, fd, descr', rest, s, hfirst, hrest, hshows, hans⟩
  · have hnil : ((vol diskNo partNoMap).entries d).filter isListed = [] := by rw [hempty]; rfl
    rw [hnil]
    exact hparent none (.inr ⟨hnone, hempty⟩) hfound hnil

end Calls

/-! ## Records of the device -/

/-- The records of directory `d`, whose blocks are whole sectors, well-formed, can be read,
and are fewer than `2 ^ 32`. A directory of no block at all must not be extent-mapped. -/
structure DirRecords (m : Mount) (env : DiskEnv) (d : Nat) (records : List Ext4DirEntry2) :
    Prop where
  read : ∃ inode addr inBlock, m.inode d = .ok (some inode) ∧
    DirInput (env.dir d) m.part m.info.ext4Sb inode addr inBlock ∧
    WholeSectors m.part m.info.ext4Sb ∧ fileBlocks m.info.ext4Sb.blockSize inode.size < 2 ^ 32 ∧
    ¬(inode.iFlags &&& ext4ExtentsFl ≠ 0 ∧ fileBlocks m.info.ext4Sb.blockSize inode.size = 0) ∧
    records = (List.range (fileBlocks m.info.ext4Sb.blockSize inode.size)).flatMap inBlock

theorem DirRecords.load {m : Mount} {env : DiskEnv} {d : Nat} {records : List Ext4DirEntry2}
    (h : DirRecords m env d records) :
    ∃ dirs, (m.volume env).load d = .ok (dirTable dirs) ∧ List.Forall₂ Carries dirs records := by
  obtain ⟨inode, addr, inBlock, hinode, hd, hwhole, hlt, hblocks, rfl⟩ := h.read
  have hpos := (Ext4SuperBlock.blockSize_pos hwhole.logBlockSize).1
  obtain ⟨steps, b, nrBlk, dirs, hloop, hb, hdirs⟩ := hd.loop
    (fileBlocks m.info.ext4Sb.blockSize inode.size) 0 (env.nrBlk d) [] (by omega)
    (Blocks.before_zero _ _) rfl fun i _ hi => hd.readsRecords hwhole i (by omega)
  rw [Nat.zero_add] at hb
  rw [← List.range_eq_range'] at hdirs
  have hflush := Blocks.flush_before rfl (fun i hi => hd.lookup hi) hb
  have hstart : dirStart m.part m.info.ext4Sb inode (env.nrBlk d) =
    ⟨Blocks.new m.part m.info.ext4Sb inode, env.nrBlk d, .of []⟩ := rfl
  rw [show (Blocks.new m.part m.info.ext4Sb inode).inode = inode from rfl, if_neg hblocks] at hflush
  have hread : (readDir (env.dir d) m.part m.info.ext4Sb inode (env.nrBlk d)).result =
      .ok (dirTable dirs) := by
    rw [readDir, if_neg (by omega), nBlocks_eq (by omega) m.info.ext4Sb.blockSize_le hlt, hstart,
      hloop, List.nil_append]
    simp only [dirResult, dirDestroy, hflush, DirTable.of_entries]
    rfl
  refine ⟨dirs, ?_, hdirs⟩
  simp only [Mount.volume, hinode, hread]

theorem Volume.entries_of_load {vol : Volume} {d : Nat} {dirs : List Ext4DirEntry2}
    (h : vol.load d = .ok (dirTable dirs)) : vol.entries d = dirs := by
  rw [Volume.entries, h]
  cases dirs <;> rfl

theorem DirRecords.entries {m : Mount} {env : DiskEnv} {d : Nat} {records : List Ext4DirEntry2}
    (h : DirRecords m env d records) : List.Forall₂ Carries ((m.volume env).entries d) records := by
  obtain ⟨dirs, hload, hdirs⟩ := h.load
  rwa [Volume.entries_of_load hload]

theorem DirRecords.oneBlock {m : Mount} {env : DiskEnv} {d addr : Nat} {inode : Ext4Inode}
    {records : List Ext4DirEntry2} (hinode : m.inode d = .ok (some inode))
    (hone : fileBlocks m.info.ext4Sb.blockSize inode.size = 1)
    (hwhole : WholeSectors m.part m.info.ext4Sb)
    (hlookup : ((Blocks.new m.part m.info.ext4Sb inode).getExt2BlkNrs (env.dir d).metaFails
      (List.range 1)).map Prod.fst = .ok [.at addr])
    (hread : (env.dir d).readOk 0 = true) (hfuel : m.info.ext4Sb.blockSize < 8 * (env.dir d).fuel)
    (hchain : RecordChain m.info.ext4Sb.blockSize (m.part.block m.info.ext4Sb.blockSize addr) 0
      records) : DirRecords m env d records := by
  refine ⟨inode, fun _ => addr, fun _ => records, hinode, ?_, hwhole, by rw [hone]; decide, ?_, ?_⟩
  · refine ⟨?_, ?_, fun _ _ => hchain, hfuel⟩
    · rw [hone]
      exact Blocks.exists_of_map_fst hlookup
    · intro i hi
      obtain rfl : i = 0 := by omega
      exact hread
  · rw [hone]
    exact fun h => absurd h.2 Nat.one_ne_zero
  · rw [hone]
    exact (List.append_nil records).symm

theorem DirRecords.carried {m : Mount} {env : DiskEnv} {d : Nat} {records : List Ext4DirEntry2}
    (h : DirRecords m env d records) {e : Ext4DirEntry2} (he : e ∈ (m.volume env).entries d) :
    ∃ record ∈ records, Carries e record := by
  obtain ⟨i, hi, rfl⟩ := List.mem_iff_getElem.mp he
  have hlen := h.entries.length_eq
  exact ⟨records[i], List.getElem_mem _, h.entries.get hi (hlen ▸ hi)⟩

theorem isListed_of_carries {dir record : Ext4DirEntry2} (h : Carries dir record)
    (hname : (0 : UInt8) ∉ record.nameBytes) : isListed dir = true ↔ IsLive record := by
  rw [isListed_iff (h.nameBytes ▸ hname), IsLive, h.inode, h.nameBytes, IsLive]

theorem listed_of_carries {dirs records : List Ext4DirEntry2}
    (h : List.Forall₂ Carries dirs records)
    (hnames : ∀ record ∈ records, (0 : UInt8) ∉ record.nameBytes) :
    List.Forall₂ Carries (dirs.filter isListed) (records.filter IsLive) := by
  induction h with
  | nil => exact .nil
  | @cons dir record dirs records hhead _ ih =>
    have hiff := isListed_of_carries hhead (hnames record List.mem_cons_self)
    have hrest := ih fun r hr => hnames r (List.mem_cons_of_mem _ hr)
    by_cases hlive : IsLive record
    · rw [List.filter_cons_of_pos (hiff.mpr hlive), List.filter_cons_of_pos (by simpa using hlive)]
      exact .cons hhead hrest
    · rw [List.filter_cons_of_neg (fun hl => hlive (hiff.mp hl)),
        List.filter_cons_of_neg (by simpa using hlive)]
      exact hrest

/-- What can be read of the live records can be read of the listed entries. -/
theorem DirRecords.listedRead {m : Mount} {env : DiskEnv} {d : Nat} {records : List Ext4DirEntry2}
    (h : DirRecords m env d records) (hnames : ∀ record ∈ records, (0 : UInt8) ∉ record.nameBytes)
    (hread : ∀ record ∈ records, IsLive record → record.fileType ≠ ext4FtDir →
      ∃ inode, m.inode record.inode = .ok (some inode)) : ListedRead (m.volume env) d := by
  intro e he hlisted htype
  obtain ⟨record, hrecord, hc⟩ := h.carried he
  rw [hc.fileType] at htype
  rw [hc.inode]
  exact hread record hrecord ((isListed_of_carries hc (hnames record hrecord)).mp hlisted) htype

theorem ShowsRecord.of_carries {σ : Type} {env : PluginEnv σ} {vol : Volume}
    {dir record : Ext4DirEntry2} {buf fd : FindData} (h : ShowsRecord env vol dir buf fd)
    (hc : Carries dir record) : ShowsRecord env vol record buf fd := by
  obtain ⟨hname, hattributes, htime, hdir, hfile⟩ := h
  rw [hc.nameBytes] at hname
  rw [hc.fileType] at hattributes hdir hfile
  rw [hc.inode] at hfile
  exact ⟨hname, hattributes, htime, hdir, hfile⟩

section Mounted

variable {mounts : Nat → Nat → Option Mount} {diskEnv : DiskEnv} {env : PluginEnv LinuxDisks}
  (hparts : env.parts = linuxPartitions diskEnv) (hok : ∀ n, (diskEnv.dir n).inodeOk = true)
  {diskNo partNoMap : Nat} {m : Mount} (hm : mounts diskNo partNoMap = some m)
  {path dev : List UInt8} {cs : List (List UInt8)}
  (hpath : DirPath env path diskNo partNoMap dev cs) {d : Nat}
  (hres : (m.volume diskEnv).Resolves ext4RootIno cs d)
  {descr : Ext4PluginDescr LinuxDisks} (hd : Mounted mounts descr.hardDisks)
  (hsized : Sized descr)
include hparts hok hm hpath hres hd hsized

theorem Mounted.lists (hlisted : ListedRead (m.volume diskEnv) d) (fd : FindData)
    (bufs : List FindData) :
    ListsDirectory (ShowsRecord env (m.volume diskEnv)) env descr path fd
      (((m.volume diskEnv).entries d).filter isListed) bufs := by
  have hs := linuxPartitions_serve mounts hok
  have hcount := linuxVolume_counted mounts diskEnv diskNo partNoMap
  have hvol : linuxVolume mounts diskEnv diskNo partNoMap = m.volume diskEnv := by
    rw [linuxVolume, hm]
  rw [← hparts] at hs
  rw [← hvol] at hres hlisted ⊢
  exact lists_directory hs hlisted hcount hpath hres hd hsized fd bufs

end Mounted

/-! ## The directory `a` of the tree -/

/-- Everything works, and the record loop may take as many steps as a block has records. -/
def wideEnv : DiskEnv := ⟨fun _ => ⟨true, fun _ => false, fun _ => true, fun _ _ => 0, 1000⟩,
    fun _ => 0⟩

def widePlugin : PluginEnv LinuxDisks := { treePlugin with parts := linuxPartitions wideEnv }

def treeRecord (offset : Nat) : Ext4DirEntry2 := (treeDisk.block 4096 6).shift offset

def treeRecords : List Ext4DirEntry2 := [treeRecord 0, treeRecord 12, treeRecord 24]

theorem treeRecords_chain : RecordChain 4096 (treeDisk.block 4096 6) 0 treeRecords :=
  .next (n := 12) (by decide +kernel) (.next (n := 12) (by decide +kernel)
    (.next (n := 4072) (by decide +kernel) .done))

theorem treeRecords_read : DirRecords treeMount wideEnv 3 treeRecords :=
  .oneBlock rfl (by decide +kernel) ⟨by decide, by decide, by decide⟩ (by decide +kernel) rfl
    (by decide) treeRecords_chain

theorem wideVolume_root :
    ((treeMount.volume wideEnv).entries 2).map entryFields =
      [([0x2e], 2, 2), ([0x2e, 0x2e], 2, 2), ([0x61], 2, 3), ([0x66], 1, 4)] := by decide +kernel

theorem wideVolume_a :
    ((treeMount.volume wideEnv).entries 3).map entryFields =
      [([0x2e], 2, 3), ([0x2e, 0x2e], 2, 2), ([0x67], 1, 5)] := by decide +kernel

theorem wideVolume_resolves : (treeMount.volume wideEnv).Resolves ext4RootIno [[0x61]] 3 := by
  obtain ⟨a, ha, hfields⟩ := find_of_fields wideVolume_root
    (p := fun f => f.1 == [0x61]) (f := ([0x61], 2, 3)) (by decide)
  have htype : a.fileType = 2 := congrArg (fun f => f.2.1) hfields
  have hinode : a.inode = 3 := congrArg (fun f => f.2.2) hfields
  refine ⟨treeMount.loads_of_fields wideEnv wideVolume_root (by decide), a, ha, htype, ?_⟩
  rw [hinode]
  exact ⟨rfl, treeMount.loads_of_fields wideEnv wideVolume_a (by decide)⟩

theorem treeRecords_names : ∀ record ∈ treeRecords, (0 : UInt8) ∉ record.nameBytes := by
  decide +kernel

theorem treeRecords_live : ∀ record ∈ treeRecords, IsLive record → record.inode = 5 := by
  decide +kernel

end Ext4tc.Plugin
