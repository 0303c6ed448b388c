import Ext4tc.Lib.Enumeration
import Ext4tc.Lib.Tombstones
import Ext4tc.Plugin.FilePath
import Ext4tc.Plugin.SearchHandles

/-! # Opening what is listed

`FsFindFirst` and `FsFindNext` enumerate a directory, and `get_ext2_inode` looks a file up
in it. Deleted records, of inode 0, are still in the table with their names and types:
the listing passes over them, the lookup takes them like others. -/

namespace Ext4tc.Plugin
open Ext4tc.Lib Ext4tc.Fs Ext4tc.DiskUtils PartitionLinuxExt2

/-! ## A directory with leftovers -/

/-- Directories as lists with deleted records: a lookup takes the regular files. -/
def dirRecords : RecordList Ext4DirEntry2 (List UInt8) where
  key := Ext4DirEntry2.nameBytes
  live e := e.inode ≠ 0
  candidate e := e.fileType == ext4FtRegFile
  shown e := isListed e = true ∧ e.fileType = ext4FtRegFile
  live_of_shown e h := by
    intro hzero
    simp [isListed, hzero] at h
  candidate_of_shown e h := by simp [h.2]

/-- What is there: the path resolves, the names of live records differ, and what a listing
reads can be read. -/
structure DirContent (vol : Volume) (cs : List (List UInt8)) (d : Nat) : Prop where
  resolves : vol.Resolves ext4RootIno cs d
  unique : dirRecords.UniqueLive (vol.entries d)
  reads : ∀ e ∈ vol.entries d, isListed e = true → e.fileType ≠ ext4FtDir →
    ∃ inode, vol.inode e.inode = .ok (some inode)

section Listing

variable {σ : Type} (env : PluginEnv σ)

/-- A path, as it is passed by the caller, of components on a partition. -/
structure DirPath (path : List UInt8) (diskNo partNoMap : Nat) (dev : List UInt8)
    (cs : List (List UInt8)) : Prop where
  initialized : env.initialized = true
  device : ∃ partNo, env.devices.extractDiskAndPartNo path = some (diskNo, partNo) ∧
    env.devices.getPartitionIndexViaRealNumber diskNo partNo = .ok partNoMap
  utf8 : env.toUtf8 path = devPath dev cs
  dev : IsName dev
  names : ∀ c ∈ cs, IsName c

/-- The names of the files that are shown get through both conversions, as one component. -/
def Lossless (path : List UInt8) (entries : List Ext4DirEntry2) : Prop :=
  ∀ e ∈ entries, dirRecords.shown e → IsName e.nameBytes ∧
    env.toUtf8 (path ++ separator :: env.toAcp e.nameBytes) =
      env.toUtf8 path ++ separator :: e.nameBytes

/-- An enumeration: a first call, and further ones on its handle. -/
inductive Enumeration (descr₀ : Ext4PluginDescr σ) (path : List UInt8) :
    LastFind → FindData → Ext4PluginDescr σ → Prop
  | first {lf : LastFind} {fd fd' : FindData} {descr : Ext4PluginDescr σ}
      (h : fsFindFirst env descr₀ path fd = .ok ((some lf, fd'), descr)) :
      Enumeration descr₀ path lf fd' descr
  | next {lf lf' : LastFind} {fd fd' fd₀ : FindData} {descr descr' : Ext4PluginDescr σ}
      (hshown : Enumeration descr₀ path lf fd₀ descr)
      (h : fsFindNext env descr lf fd = .ok ((true, lf', fd'), descr')) :
      Enumeration descr₀ path lf' fd' descr'

/-- The record at the handle's place in the table, which the last call has shown. -/
def shownRecord (lf : LastFind) (descr : Ext4PluginDescr σ) : Option Ext4DirEntry2 :=
  descr.dirEntries.bind fun dirs => dirs[lf.numLastEntry]?

/-- Each regular file that the enumeration shows is opened by the directory's path with the
shown name behind it. -/
def ListingOpens (Inv : σ → Prop) (vol : Volume) (diskNo partNoMap : Nat)
    (descr₀ : Ext4PluginDescr σ) (path : List UInt8) : Prop :=
  ∀ lf fd descr e, Enumeration env descr₀ path lf fd descr → shownRecord lf descr = some e →
    e.fileType = ext4FtRegFile → ∀ s, Inv s → ∃ inode s',
      getExt2Inode env.parts diskNo partNoMap s (env.toUtf8 (path ++ separator :: fd.cFileName)) =
          .ok (⟨some inode, some e.inode⟩, s') ∧
        vol.inode e.inode = .ok (some inode)

end Listing

/-! ## The two walks -/

theorem find_and {α : Type} {p q : α → Bool} {l : List α} {a : α} (h : l.find? p = some a)
    (hq : q a = true) : (l.find? fun x => p x && q x) = some a := by
  obtain ⟨hp, before, after, rfl, hbefore⟩ := List.find?_eq_some_iff_append.mp h
  rw [List.find?_eq_some_iff_append]
  refine ⟨by simp [hp, hq], before, after, rfl, ?_⟩
  intro x hx
  simp [by simpa using hbefore x hx]

section Walks

variable {σ : Type} {parts : Partitions σ} {Inv : σ → Prop} {vol : Nat → Nat → Volume}
  {diskNo partNoMap : Nat} {d : Nat}

/-- The lookup walks to where the path resolves. -/
theorem walkComponents_resolves (hs : Serves parts Inv vol) {cs : List (List UInt8)}
    (hcs : ∀ c ∈ cs, IsName c) {n : Nat} (h : (vol diskNo partNoMap).Resolves n cs d)
    {walk : InodeWalk σ} (hat : At Inv (vol diskNo partNoMap) n walk) (off : Nat) :
    ∃ walk', walkComponents parts diskNo partNoMap (placed off cs) walk = .ok (true, walk') ∧
      At Inv (vol diskNo partNoMap) d walk' := by
  induction cs generalizing n walk off with
  | nil => exact ⟨walk, rfl, h.1 ▸ hat⟩
  | cons c cs ih =>
    obtain ⟨-, e, he, htype, hrest⟩ := h
    obtain ⟨walk₁, hrun, hat₁, -⟩ := walkComponents_enter hs hat (hcs c List.mem_cons_self)
      (find_and he (beq_iff_eq.mpr htype)) hrest.load (off + 1) (placed (off + 1 + c.length) cs)
    rw [placed, hrun]
    exact ih (fun c' hc' => hcs c' (List.mem_cons_of_mem c hc')) hrest hat₁ _

end Walks

/-! ## The enumeration -/

section Enumerate

variable {σ : Type} {env : PluginEnv σ} {Inv : σ → Prop} {vol : Nat → Nat → Volume}
  {diskNo partNoMap : Nat} {path dev : List UInt8} {cs : List (List UInt8)} {d : Nat}

/-- The plugin has the table of directory `d`, or none if that is empty. -/
def TableOf (Inv : σ → Prop) (vol : Volume) (d : Nat) (descr : Ext4PluginDescr σ) : Prop :=
  HasTable Inv vol d descr ∨ HasNone Inv descr ∧ vol.entries d = []

/-- What every call of the enumeration leaves. -/
structure Stands (env : PluginEnv σ) (Inv : σ → Prop) (vol : Volume) (diskNo partNoMap d : Nat)
    (lf : LastFind) (fd : FindData) (descr : Ext4PluginDescr σ) : Prop where
  root : lf.root = false
  diskNo_eq : lf.diskNo = diskNo
  partNoMap_eq : lf.partNoMap = partNoMap
  table : TableOf Inv vol d descr
  shows : ∀ e, shownRecord lf descr = some e →
    isListed e = true ∧ fd.cFileName = env.toAcp e.nameBytes

variable (hs : Serves env.parts Inv vol)
include hs

theorem getFirstDirEntry_resolves (hcount : (vol diskNo partNoMap).Counted) (hdev : IsName dev)
    (hcs : ∀ c ∈ cs, IsName c) (hres : (vol diskNo partNoMap).Resolves ext4RootIno cs d)
    {descr : Ext4PluginDescr σ} (hi : Inv descr.hardDisks) (hsized : Sized descr) :
    ∃ first descr', getFirstDirEntry env.parts diskNo partNoMap descr (devPath dev cs) =
        .ok (first, descr') ∧
      (HasTable Inv (vol diskNo partNoMap) d descr' ∧ firstListed descr' = .ok first ∨
        HasNone Inv descr' ∧ first = ⟨none, none⟩ ∧ (vol diskNo partNoMap).entries d = []) := by
  have hroot := hres.load
  cases hentries : (vol diskNo partNoMap).entries ext4RootIno with
  | nil =>
    rw [hentries] at hroot
    obtain ⟨descr', hload, hnone⟩ := load_none hs hi hsized hroot
    refine ⟨⟨none, none⟩, descr', by rw [getFirstDirEntry, hload], .inr ⟨hnone, rfl, ?_⟩⟩
    cases cs with
    | nil => exact hres.1 ▸ hentries
    | cons c cs =>
      obtain ⟨-, e, he, -⟩ := hres
      simp [hentries] at he
  | cons dir dirs =>
    rw [hentries] at hroot
    have hwalk := getFirstDirEntry_looseWalk hs hcount hdev.no_sep hcs hi hsized hroot
    obtain hend | ⟨hend, hempty⟩ := looseWalk_of_resolves hres
    · rw [hend] at hwalk
      obtain ⟨first, descr', hrun, hat, hfirst⟩ := hwalk
      exact ⟨first, descr', hrun, .inl ⟨hat, hfirst⟩⟩
    · rw [hend] at hwalk
      obtain ⟨descr', hrun, hnone⟩ := hwalk
      exact ⟨_, descr', hrun, .inr ⟨hnone, rfl, hempty⟩⟩

theorem showEntry_shows {descr : Ext4PluginDescr σ} (fd : FindData) {dir : Ext4DirEntry2}
    (hat : HasTable Inv (vol diskNo partNoMap) d descr) (hread : dir.fileType ≠ ext4FtDir →
      ∃ inode, (vol diskNo partNoMap).inode dir.inode = .ok (some inode)) :
    ∃ fd' descr', showEntry env descr diskNo partNoMap fd dir = .ok (fd', descr') ∧
      fd'.cFileName = env.toAcp dir.nameBytes ∧ HasTable Inv (vol diskNo partNoMap) d descr' := by
  unfold showEntry
  by_cases htype : dir.fileType = ext4FtDir
  · rw [if_pos htype]
    exact ⟨_, descr, rfl, rfl, hat⟩
  · obtain ⟨inode, hinode⟩ := hread htype
    have hcall := hs.inode descr.hardDisks hat.inv diskNo partNoMap dir.inode
    rw [hinode] at hcall
    obtain ⟨s', hcall, hi⟩ := hcall
    simp only [if_neg htype, hcall]
    exact ⟨_, _, rfl, rfl, hi, hat.table, hat.num⟩

omit hs in
theorem shownRecord_eq {lf : LastFind} {descr : Ext4PluginDescr σ} {v : Volume}
    (hat : HasTable Inv v d descr) : shownRecord lf descr = (v.entries d)[lf.numLastEntry]? := by
  rw [shownRecord, hat.table, Option.bind_some]

omit hs in
theorem HasTable.found {descr : Ext4PluginDescr σ} {v : Volume} (hat : HasTable Inv v d descr)
    {k i j : Nat} {dir : Ext4DirEntry2}
    (h : findEntry descr.dirEntries isListed k i = .ok (some (j, dir))) :
    (v.entries d)[j]? = some dir ∧ isListed dir = true := by
  rw [hat.table] at h
  exact findEntry_found h

omit hs in
theorem stands_of_shown {lf : LastFind} {fd : FindData} {descr : Ext4PluginDescr σ} {v : Volume}
    {dir : Ext4DirEntry2} (hroot : lf.root = false) (hdiskNo : lf.diskNo = diskNo)
    (hpartNoMap : lf.partNoMap = partNoMap) (hat : HasTable Inv v d descr)
    (hplace : (v.entries d)[lf.numLastEntry]? = some dir) (hlisted : isListed dir = true)
    (hname : fd.cFileName = env.toAcp dir.nameBytes) :
    Stands env Inv v diskNo partNoMap d lf fd descr := by
  refine ⟨hroot, hdiskNo, hpartNoMap, .inl hat, ?_⟩
  intro e he
  rw [shownRecord_eq hat, hplace] at he
  cases he
  exact ⟨hlisted, hname⟩

omit hs in
theorem DirPath.findFirst (hpath : DirPath env path diskNo partNoMap dev cs) :
    ∃ partNo, env.devices.extractDiskAndPartNo path = some (diskNo, partNo) ∧
      env.devices.getPartitionIndexViaRealNumber diskNo partNo = .ok partNoMap ∧
      ∀ descr fd, fsFindFirst env descr path fd = findFirstDir env descr path := by
  obtain ⟨partNo, hextract, hindex⟩ := hpath.device
  refine ⟨partNo, hextract, hindex, ?_⟩
  intro descr fd
  have hmap : env.devices.idMap.isNone = false := by
    cases hidMap : env.devices.idMap with
    | none => simp [Devices.getPartitionIndexViaRealNumber, hidMap] at hindex
    | some idMap => rfl
  have hroot : env.toUtf8 path ≠ [separator] := by
    rw [hpath.utf8, devPath]
    simp [hpath.dev.ne_nil]
  rw [fsFindFirst, hpath.initialized, hmap, if_neg (by simp), if_neg hroot]

variable (hcount : (vol diskNo partNoMap).Counted)
  (hpath : DirPath env path diskNo partNoMap dev cs)
  (hdir : DirContent (vol diskNo partNoMap) cs d)

include hcount hpath hdir in
/-- **The first call** shows a record, or has nothing to show. -/
theorem findFirst_stands {descr₀ descr : Ext4PluginDescr σ} (hi : Inv descr₀.hardDisks)
    (hsized : Sized descr₀) {fd fd' : FindData} {lf : LastFind}
    (h : fsFindFirst env descr₀ path fd = .ok ((some lf, fd'), descr)) :
    Stands env Inv (vol diskNo partNoMap) diskNo partNoMap d lf fd' descr := by
  obtain ⟨first, descr₁, hrun, hend⟩ :=
    getFirstDirEntry_resolves hs hcount hpath.dev hpath.names hdir.resolves hi hsized
  obtain ⟨partNo, hextract, hindex, hcall⟩ := hpath.findFirst
  rw [hcall, findFirstDir] at h
  simp only [hextract, hindex, hpath.utf8, hrun] at h
  obtain ⟨hat, hfirst⟩ | ⟨hnone, rfl, hempty⟩ := hend
  · unfold firstListed at hfirst
    split at hfirst
    next => cases hfirst
    next =>
      cases hfirst
      cases h
      refine ⟨rfl, rfl, rfl, .inl hat, ?_⟩
      intro e he
      rw [shownRecord_eq hat] at he
      simp [hat.num] at he
    next i dir hfind =>
      cases hfirst
      obtain ⟨hplace, hlisted⟩ := hat.found hfind
      obtain ⟨fd₁, descr₂, hshow, hname, hat₂⟩ := showEntry_shows hs .zero hat
        (hdir.reads dir (List.mem_of_getElem? hplace) hlisted)
      simp only [hshow] at h
      cases h
      exact stands_of_shown rfl rfl rfl hat₂ hplace hlisted hname
  · cases h
    refine ⟨rfl, rfl, rfl, .inr ⟨hnone, hempty⟩, ?_⟩
    intro e he
    simp [shownRecord, hnone.table] at he

include hdir in
/-- **Each further call** that succeeds shows a record. -/
theorem findNext_stands {descr descr' : Ext4PluginDescr σ} {lf lf' : LastFind}
    {fd fd' fd₀ : FindData}
    (hstands : Stands env Inv (vol diskNo partNoMap) diskNo partNoMap d lf fd₀ descr)
    (h : fsFindNext env descr lf fd = .ok ((true, lf', fd'), descr')) :
    Stands env Inv (vol diskNo partNoMap) diskNo partNoMap d lf' fd' descr' := by
  rw [fsFindNext, hstands.root] at h
  simp only [Bool.false_eq_true, if_false] at h
  obtain hat | ⟨hnone, -⟩ := hstands.table
  · unfold getNextDirEntry at h
    split at h
    next => cases h
    next => cases h
    next dir numLastEntry hnext =>
      split at hnext
      next => cases hnext
      next =>
        split at hnext
        next => cases hnext
        next => cases hnext
        next i dir' hfind =>
          cases hnext
          obtain ⟨hplace, hlisted⟩ := hat.found hfind
          obtain ⟨fd₁, descr₂, hshow, hname, hat₂⟩ := showEntry_shows hs fd hat
            (hdir.reads dir (List.mem_of_getElem? hplace) hlisted)
          rw [hstands.diskNo_eq, hstands.partNoMap_eq, hshow] at h
          cases h
          exact stands_of_shown rfl rfl rfl hat₂ hplace hlisted hname
  · simp [getNextDirEntry, hnone.table] at h

include hcount hpath hdir in
/-- So the handle stands at its place in every enumeration. -/
theorem enumeration_stands {descr₀ descr : Ext4PluginDescr σ} (hi : Inv descr₀.hardDisks)
    (hsized : Sized descr₀) {lf : LastFind} {fd : FindData}
    (h : Enumeration env descr₀ path lf fd descr) :
    Stands env Inv (vol diskNo partNoMap) diskNo partNoMap d lf fd descr := by
  induction h with
  | first h => exact findFirst_stands hs hcount hpath hdir hi hsized h
  | next _ h ih => exact findNext_stands hs hdir ih h

def ShownAt (env : PluginEnv σ) (descr₀ : Ext4PluginDescr σ) (path : List UInt8) (i : Nat) : Prop :=
  ∃ lf fd descr, Enumeration env descr₀ path lf fd descr ∧ lf.numLastEntry = i

include hcount hpath hdir in
theorem shownAt_first {descr₀ : Ext4PluginDescr σ} (hi : Inv descr₀.hardDisks)
    (hsized : Sized descr₀) {i : Nat} {e : Ext4DirEntry2}
    (he : ((vol diskNo partNoMap).entries d)[i]? = some e) (hlisted : isListed e = true)
    (hnone : ∀ m < i,
      ∀ e', ((vol diskNo partNoMap).entries d)[m]? = some e' → isListed e' = false) :
    ShownAt env descr₀ path i := by
  obtain ⟨first, descr₁, hrun, hend⟩ :=
    getFirstDirEntry_resolves hs hcount hpath.dev hpath.names hdir.resolves hi hsized
  obtain ⟨hat, hfirst⟩ | ⟨-, -, hempty⟩ := hend
  · have hlen := (List.getElem?_eq_some_iff.mp he).1
    have hfind : findEntry descr₁.dirEntries isListed descr₁.dirEntryNum 0 = .ok (some (i, e)) := by
      rw [hat.table, hat.num]
      exact findEntry_at (Nat.zero_le i) (by omega) he hlisted fun m _ hm => hnone m hm
    obtain rfl : first = ⟨some e, some i⟩ := by
      rw [firstListed, hfind] at hfirst
      exact (Except.ok.inj hfirst).symm
    obtain ⟨fd, descr, hshow, -⟩ := showEntry_shows hs .zero hat
      (hdir.reads e (List.mem_of_getElem? he) hlisted)
    obtain ⟨partNo, hextract, hindex, hcall⟩ := hpath.findFirst
    have hfirst := hcall descr₀ .zero
    simp only [findFirstDir, hextract, hindex, hpath.utf8, hrun, hshow] at hfirst
    exact ⟨_, _, _, .first hfirst, rfl⟩
  · simp [hempty] at he

include hcount hpath hdir in
theorem shownAt_next {descr₀ : Ext4PluginDescr σ} (hi : Inv descr₀.hardDisks)
    (hsized : Sized descr₀) {i j : Nat} {e : Ext4DirEntry2} (h : ShownAt env descr₀ path i)
    (hij : i < j) (he : ((vol diskNo partNoMap).entries d)[j]? = some e)
    (hlisted : isListed e = true)
    (hnone : ∀ m, i < m → m < j →
      ∀ e', ((vol diskNo partNoMap).entries d)[m]? = some e' → isListed e' = false) :
    ShownAt env descr₀ path j := by
  obtain ⟨lf, fd, descr, henum, rfl⟩ := h
  have hstands := enumeration_stands hs hcount hpath hdir hi hsized henum
  obtain hat | ⟨-, hempty⟩ := hstands.table
  · have hlen := (List.getElem?_eq_some_iff.mp he).1
    have hfind : findEntry descr.dirEntries isListed (descr.dirEntryNum - (lf.numLastEntry + 1))
        (lf.numLastEntry + 1) = .ok (some (j, e)) := by
      rw [hat.table, hat.num]
      exact findEntry_at hij (by omega) he hlisted fun m hm => hnone m hm
    have hnext : getNextDirEntry descr lf.numLastEntry = .ok (some e, j) := by
      rw [getNextDirEntry, if_neg (by simp [hat.table, hat.num]; omega), hfind]
    obtain ⟨fd', descr', hshow, -⟩ := showEntry_shows hs fd hat
      (hdir.reads e (List.mem_of_getElem? he) hlisted)
    have hcall : fsFindNext env descr lf fd =
        .ok ((true, { lf with numLastEntry := j }, fd'), descr') := by
      rw [fsFindNext, hstands.root]
      simp only [Bool.false_eq_true, if_false, hnext, hstands.diskNo_eq, hstands.partNoMap_eq,
        hshow]
    exact ⟨_, _, _, .next henum hcall, rfl⟩
  · simp [hempty] at he

include hcount hpath hdir in
/-- **Every listed record is shown**, under its name. -/
theorem listed_shown {descr₀ : Ext4PluginDescr σ} (hi : Inv descr₀.hardDisks)
    (hsized : Sized descr₀) {i : Nat} {e : Ext4DirEntry2}
    (he : ((vol diskNo partNoMap).entries d)[i]? = some e) (hlisted : isListed e = true) :
    ∃ lf fd descr, Enumeration env descr₀ path lf fd descr ∧ shownRecord lf descr = some e ∧
      fd.cFileName = env.toAcp e.nameBytes := by
  have hnone : ∀ m : Nat,
      (¬∃ e', ((vol diskNo partNoMap).entries d)[m]? = some e' ∧ isListed e' = true) →
      ∀ e', ((vol diskNo partNoMap).entries d)[m]? = some e' → isListed e' = false := by
    intro m hm e' he'
    by_contra hne
    exact hm ⟨e', he', by simpa using hne⟩
  have henum : Enumerates
      (fun i => ∃ e, ((vol diskNo partNoMap).entries d)[i]? = some e ∧ isListed e = true)
      (ShownAt env descr₀ path) := by
    constructor
    · rintro i ⟨e, he, hlisted⟩ hbefore
      exact shownAt_first hs hcount hpath hdir hi hsized he hlisted
        fun m hm => hnone m (hbefore m hm)
    · rintro i j - h hij ⟨e, he, hlisted⟩ hbetween
      exact shownAt_next hs hcount hpath hdir hi hsized h hij he hlisted
        fun m hm hm' => hnone m (hbetween m hm hm')
  obtain ⟨lf, fd, descr, hrun, rfl⟩ := henum.all i ⟨e, he, hlisted⟩
  have hstands := enumeration_stands hs hcount hpath hdir hi hsized hrun
  have hrecord : shownRecord lf descr = some e := by
    obtain hat | ⟨-, hempty⟩ := hstands.table
    · rw [shownRecord_eq hat, he]
    · simp [hempty] at he
  exact ⟨lf, fd, descr, hrun, hrecord, (hstands.shows e hrecord).2⟩

end Enumerate

/-! ## The lookup -/

section LookUp

variable {σ : Type} {parts : Partitions σ} {Inv : σ → Prop} {vol : Nat → Nat → Volume}
  {diskNo partNoMap : Nat} {dev : List UInt8} {cs : List (List UInt8)} {d : Nat}
  (hs : Serves parts Inv vol) (hdev : IsName dev) (hcs : ∀ c ∈ cs, IsName c)
  (hres : (vol diskNo partNoMap).Resolves ext4RootIno cs d)
include hs hdev hcs hres

/-- The call answers with the first regular file of the name. -/
theorem getExt2Inode_resolves {c : List UInt8} (hc : IsName c)
    (hlen : (devPath dev (cs ++ [c])).length < maxPath) {s : σ} (hi : Inv s) :
    Answers Inv (getExt2Inode parts diskNo partNoMap s (devPath dev (cs ++ [c])))
      (match (vol diskNo partNoMap).fileIn d c with
        | none => .ok ⟨none, none⟩
        | some e => ((vol diskNo partNoMap).inode e.inode).map fun inode =>
            ⟨inode, some e.inode⟩) := by
  obtain ⟨walk, hroot, -, hcall⟩ := getExt2Inode_devPath hs hdev.no_sep hcs hc hlen hi hres.load
  obtain ⟨walk', hrun, hat⟩ := walkComponents_resolves hs hcs hres hroot 0
  rw [hcall _ _ hrun, if_pos rfl]
  exact lookUpFile_at hs hat hc

omit hdev hcs in
/-- A path that does not fit is copied without its end. -/
theorem getExt2Inode_long {path : List UInt8} (hlen : maxPath ≤ path.length) {s : σ} (hi : Inv s) :
    getExt2Inode parts diskNo partNoMap s path = .error .outOfBounds := by
  obtain ⟨s', hload, -⟩ := getDirEntry_loads hs hi hres.load
  simp only [getExt2Inode, hload, if_pos hlen]

theorem fileIn_of_opened {c : List UInt8} (hc : IsName c)
    (hlen : (devPath dev (cs ++ [c])).length < maxPath) {s s' : σ} (hi : Inv s) {inode : Ext4Inode}
    {num : Nat} (h : getExt2Inode parts diskNo partNoMap s (devPath dev (cs ++ [c])) =
      .ok (⟨some inode, some num⟩, s')) :
    ∃ e, (vol diskNo partNoMap).fileIn d c = some e ∧ e.inode = num := by
  have hout := getExt2Inode_resolves hs hdev hcs hres hc hlen hi
  rw [h] at hout
  cases hfile : (vol diskNo partNoMap).fileIn d c with
  | none =>
    rw [hfile] at hout
    obtain ⟨_, hret, -⟩ := hout
    cases hret
  | some e =>
    rw [hfile] at hout
    cases hinode : (vol diskNo partNoMap).inode e.inode with
    | error fault =>
      simp only [hinode] at hout
      cases hout
    | ok found =>
      simp only [hinode] at hout
      obtain ⟨_, hret, -⟩ := hout
      cases hret
      exact ⟨e, rfl, rfl⟩

/-- **A record is opened exactly if the lookup by name finds it**, and the path fits. -/
theorem opens_iff (hunique : dirRecords.UniqueLive ((vol diskNo partNoMap).entries d))
    {e : Ext4DirEntry2} (he : e ∈ (vol diskNo partNoMap).entries d) (hname : IsName e.nameBytes)
    (hlive : e.inode ≠ 0) (hread : ∃ inode, (vol diskNo partNoMap).inode e.inode = .ok (some inode))
    {s : σ} (hi : Inv s) :
    (∃ inode s', getExt2Inode parts diskNo partNoMap s (devPath dev (cs ++ [e.nameBytes])) =
          .ok (⟨some inode, some e.inode⟩, s') ∧
        (vol diskNo partNoMap).inode e.inode = .ok (some inode)) ↔
      (devPath dev (cs ++ [e.nameBytes])).length < maxPath ∧
        dirRecords.lookUp ((vol diskNo partNoMap).entries d) e.nameBytes = some e := by
  rcases Nat.lt_or_ge (devPath dev (cs ++ [e.nameBytes])).length maxPath with hlen | hlen
  · have hlookUp : dirRecords.lookUp ((vol diskNo partNoMap).entries d) e.nameBytes =
        (vol diskNo partNoMap).fileIn d e.nameBytes := rfl
    rw [hlookUp]
    constructor
    · rintro ⟨inode, s', hrun, -⟩
      obtain ⟨e', hfile, hnum⟩ := fileIn_of_opened hs hdev hcs hres hname hlen hi hrun
      obtain ⟨⟨hmem, hname'⟩, -⟩ := find_some hfile
      have hsame : e' = e := hunique.eq hmem he (show e'.inode ≠ 0 from hnum ▸ hlive) hlive hname'
      exact ⟨hlen, hsame ▸ hfile⟩
    · rintro ⟨-, hfile⟩
      obtain ⟨inode, hinode⟩ := hread
      have hout := getExt2Inode_resolves hs hdev hcs hres hname hlen hi
      simp only [hfile, hinode] at hout
      obtain ⟨s', hrun, -⟩ := hout
      exact ⟨inode, s', hrun, hinode⟩
  · rw [getExt2Inode_long hs hres hlen hi]
    constructor
    · rintro ⟨_, _, hrun, -⟩
      cases hrun
    · rintro ⟨hlt, -⟩
      omega

end LookUp

theorem devPath_append (dev : List UInt8) (cs : List (List UInt8)) (c : List UInt8) :
    devPath dev cs ++ separator :: c = devPath dev (cs ++ [c]) := by
  simp [devPath, joinPath]

/-- **What is listed can be opened exactly if no deleted regular file stands before a live
one of its name**, and the paths fit. -/
theorem listed_files_open_iff {σ : Type} {env : PluginEnv σ} {Inv : σ → Prop}
    {vol : Nat → Nat → Volume} (hs : Serves env.parts Inv vol) {diskNo partNoMap : Nat}
    (hcount : (vol diskNo partNoMap).Counted) {path dev : List UInt8} {cs : List (List UInt8)}
    (hpath : DirPath env path diskNo partNoMap dev cs) {d : Nat}
    (hdir : DirContent (vol diskNo partNoMap) cs d)
    (hconv : Lossless env path ((vol diskNo partNoMap).entries d)) {descr : Ext4PluginDescr σ}
    (hi : Inv descr.hardDisks) (hsized : Sized descr) :
    ListingOpens env Inv (vol diskNo partNoMap) diskNo partNoMap descr path ↔
      (∀ e ∈ (vol diskNo partNoMap).entries d, dirRecords.shown e →
        (devPath dev (cs ++ [e.nameBytes])).length < maxPath) ∧
      dirRecords.Unhidden ((vol diskNo partNoMap).entries d) := by
  have hopens : ∀ e ∈ (vol diskNo partNoMap).entries d, dirRecords.shown e → ∀ s, Inv s →
      ((∃ inode s', getExt2Inode env.parts diskNo partNoMap s
          (env.toUtf8 (path ++ separator :: env.toAcp e.nameBytes)) =
            .ok (⟨some inode, some e.inode⟩, s') ∧
          (vol diskNo partNoMap).inode e.inode = .ok (some inode)) ↔
        (devPath dev (cs ++ [e.nameBytes])).length < maxPath ∧
          dirRecords.lookUp ((vol diskNo partNoMap).entries d) e.nameBytes = some e) := by
    intro e he hshown s hi
    obtain ⟨hname, hutf8⟩ := hconv e he hshown
    have hread := hdir.reads e he hshown.1 (by rw [hshown.2]; decide)
    rw [hutf8, hpath.utf8, devPath_append]
    exact opens_iff hs hpath.dev hpath.names hdir.resolves hdir.unique he hname
      (dirRecords.live_of_shown e hshown) hread hi
  rw [← RecordList.shown_found_iff hdir.unique]
  constructor
  · intro h
    have hfound : ∀ e ∈ (vol diskNo partNoMap).entries d, dirRecords.shown e →
        (devPath dev (cs ++ [e.nameBytes])).length < maxPath ∧
          dirRecords.lookUp ((vol diskNo partNoMap).entries d) e.nameBytes = some e := by
      intro e he hshown
      obtain ⟨i, hget⟩ := List.mem_iff_getElem?.mp he
      obtain ⟨lf, fd, descr', henum, hrecord, hname⟩ :=
        listed_shown hs hcount hpath hdir hi hsized hget hshown.1
      refine (hopens e he hshown _ hi).mp ?_
      rw [← hname]
      exact h lf fd descr' e henum hrecord hshown.2 _ hi
    exact ⟨fun e he hshown => (hfound e he hshown).1, fun e he hshown => (hfound e he hshown).2⟩
  · rintro ⟨hfit, hfound⟩ lf fd descr' e henum hrecord hreg s hi'
    have hstands := enumeration_stands hs hcount hpath hdir hi hsized henum
    obtain ⟨hlisted, hname⟩ := hstands.shows e hrecord
    have he : e ∈ (vol diskNo partNoMap).entries d := by
      obtain hat | ⟨hnone, -⟩ := hstands.table
      · rw [shownRecord_eq hat] at hrecord
        exact List.mem_of_getElem? hrecord
      · simp [shownRecord, hnone.table] at hrecord
    rw [hname]
    exact (hopens e he ⟨hlisted, hreg⟩ s hi').mpr
      ⟨hfit e he ⟨hlisted, hreg⟩, hfound e he ⟨hlisted, hreg⟩⟩

/-! ## A partition with leftovers -/

/-- The tree with deleted records: in the root one of the name `f` before the live `f`, in
`a` one of the name `g` behind the live `g`. -/
def leftoverDisk : Partition :=
  .ofDevice ((⟨0, treeDisk.device⟩ : Buffer).pokes
    [(20516, [0, 0, 0, 0, 12, 0, 1, 1, 0x66]), (20528, [4, 0, 0, 0, 0xd0, 0x0f, 1, 1, 0x66]),
      (24600, [5, 0, 0, 0, 12, 0, 1, 1, 0x67]), (24612, [0, 0, 0, 0, 0xdc, 0x0f, 1, 1, 0x67])]).byte

def leftoverMount : Mount where
  part := leftoverDisk
  info := { treeInfo with ext4Sb := ⟨1024, (leftoverDisk.bufferAt 1024 1024).byte⟩ }
  grDesc := Ext4SbInfo.groupDescriptorGet leftoverDisk.heap 32 (leftoverDisk.bufferAt 4096 4096)
  sector := by decide
  perBlock := by decide
  layout := ⟨by decide, by decide, by decide⟩

def leftoverVolume : Volume := leftoverMount.volume treeEnv

theorem leftoverVolume_root :
    (leftoverVolume.entries 2).map entryFields =
      [([0x2e], 2, 2), ([0x2e, 0x2e], 2, 2), ([0x61], 2, 3), ([0x66], 1, 0), ([0x66], 1, 4)] := by
  decide +kernel

theorem leftoverVolume_a :
    (leftoverVolume.entries 3).map entryFields =
      [([0x2e], 2, 3), ([0x2e, 0x2e], 2, 2), ([0x67], 1, 5), ([0x67], 1, 0)] := by decide +kernel

def leftoverMounts (diskNo partNoMap : Nat) : Option Mount :=
  if diskNo = 0 ∧ partNoMap = 0 then some leftoverMount else none

def leftoverDisks : LinuxDisks := fun diskNo partNoMap =>
  if diskNo = 0 ∧ partNoMap = 0 then
    some (mountedAt leftoverMount.part leftoverMount.info leftoverMount.grDesc .empty)
  else none

theorem leftoverDisks_mounted : Mounted leftoverMounts leftoverDisks := mounted_alone leftoverMount

theorem leftoverDisks_serve :
    Serves (linuxPartitions treeEnv) (Mounted leftoverMounts)
      (linuxVolume leftoverMounts treeEnv) :=
  linuxPartitions_serve leftoverMounts fun _ => rfl

def leftoverDescr : Ext4PluginDescr LinuxDisks := ⟨leftoverDisks, none, 0⟩

theorem leftoverVolume_loads {n : Nat} {fields : List (List UInt8 × Nat × Nat)}
    (h : (leftoverVolume.entries n).map entryFields = fields) (hne : fields ≠ []) :
    leftoverVolume.load n = .ok (dirTable (leftoverVolume.entries n)) := by
  have hentries : leftoverVolume.entries n ≠ [] := by
    intro hempty
    rw [hempty] at h
    exact hne h.symm
  exact Volume.loads_of_entries (leftoverMount.counted treeEnv) hentries

theorem leftoverVolume_reads {d : Nat} {fields : List (List UInt8 × Nat × Nat)}
    (h : (leftoverVolume.entries d).map entryFields = fields)
    (hfields : ∀ f ∈ fields, f.2.1 ≠ ext4FtDir → f.2.2 = 0 ∨ f.2.2 = 4 ∨ f.2.2 = 5) :
    ∀ e ∈ leftoverVolume.entries d, isListed e = true → e.fileType ≠ ext4FtDir →
      ∃ inode, leftoverVolume.inode e.inode = .ok (some inode) := by
  intro e he hlisted htype
  have hinode : e.inode = 0 ∨ e.inode = 4 ∨ e.inode = 5 := fields_all h hfields he htype
  obtain hzero | hfour | hfive := hinode
  · simp [isListed, hzero] at hlisted
  · exact hfour ▸ ⟨_, rfl⟩
  · exact hfive ▸ ⟨_, rfl⟩

theorem uniqueLive_of_fields {vol : Volume} {d : Nat} {fields : List (List UInt8 × Nat × Nat)}
    (h : (vol.entries d).map entryFields = fields)
    (hfields : fields.Pairwise fun f f' => f.2.2 ≠ 0 → f'.2.2 ≠ 0 → f.1 ≠ f'.1) :
    dirRecords.UniqueLive (vol.entries d) := by
  rw [← h, List.pairwise_map] at hfields
  exact hfields

theorem sda1_isName : IsName sda1 := ⟨⟨by decide, by decide⟩, by decide⟩

theorem treePlugin_dirPath {cs : List (List UInt8)} (hcs : ∀ c ∈ cs, IsName c)
    (hdevice : treePlugin.devices.extractDiskAndPartNo (devPath sda1 cs) = some (0, 1)) :
    DirPath treePlugin (devPath sda1 cs) 0 0 sda1 cs :=
  ⟨rfl, ⟨1, hdevice, rfl⟩, rfl, sda1_isName, hcs⟩

theorem treePlugin_lossless {path : List UInt8} {vol : Volume} {d : Nat}
    {fields : List (List UInt8 × Nat × Nat)} (h : (vol.entries d).map entryFields = fields)
    (hfields : ∀ f ∈ fields, f.2.1 = ext4FtRegFile → f.1 = [0x66] ∨ f.1 = [0x67]) :
    Lossless treePlugin path (vol.entries d) := by
  rintro e he ⟨-, htype⟩
  have hname : e.nameBytes = [0x66] ∨ e.nameBytes = [0x67] := fields_all h hfields he htype
  refine ⟨?_, rfl⟩
  obtain hname | hname := hname
  · exact hname ▸ isName_singleton (by decide) (by decide)
  · exact hname ▸ isName_singleton (by decide) (by decide)

theorem leftoverVolume_resolves_a : leftoverVolume.Resolves ext4RootIno [[0x61]] 3 := by
  have hfind : (((leftoverVolume.entries 2).map entryFields).find? fun f => f.1 == [0x61]) =
      some ([0x61], 2, 3) := by
    rw [leftoverVolume_root]
    decide
  rw [List.find?_map] at hfind
  obtain ⟨e, he, hfields⟩ := Option.map_eq_some_iff.mp hfind
  have htype : e.fileType = 2 := congrArg (fun f => f.2.1) hfields
  have hinode : e.inode = 3 := congrArg (fun f => f.2.2) hfields
  refine ⟨leftoverVolume_loads leftoverVolume_root (by decide), e, he, htype, hinode, ?_⟩
  rw [hinode]
  exact leftoverVolume_loads leftoverVolume_a (by decide)

/-- In `\sda1\a` the deleted record stands behind the live one. -/
theorem listed_files_open_leftover :
    ListingOpens treePlugin (Mounted leftoverMounts) leftoverVolume 0 0 leftoverDescr
      (devPath sda1 [[0x61]]) := by
  have hdir : DirContent leftoverVolume [[0x61]] 3 :=
    ⟨leftoverVolume_resolves_a, uniqueLive_of_fields leftoverVolume_a (by decide),
      leftoverVolume_reads leftoverVolume_a (by decide)⟩
  refine (@listed_files_open_iff _ treePlugin _ _ leftoverDisks_serve 0 0
    (leftoverMount.counted treeEnv) _ _ _ (treePlugin_dirPath isName_a (by decide)) 3 hdir
    (treePlugin_lossless leftoverVolume_a (by decide)) leftoverDescr leftoverDisks_mounted
    nofun).mpr ⟨?_, ?_⟩
  · intro e he hshown
    have hname : e.nameBytes = [0x67] :=
      fields_all leftoverVolume_a (P := fun f => f.2.1 = 1 → f.1 = [0x67]) (by decide) he hshown.2
    rw [hname]
    decide
  · have hfields : ((leftoverVolume.entries 3).map entryFields).Pairwise fun old f =>
        ¬old.2.2 ≠ 0 → (old.2.1 == ext4FtRegFile) = true → f.2.2 ≠ 0 → old.1 ≠ f.1 := by
      rw [leftoverVolume_a]
      decide
    rw [List.pairwise_map] at hfields
    exact hfields.imp fun h hdead hreg hshown => h hdead hreg (dirRecords.live_of_shown _ hshown)

/-- The file `f` of the root is shown, but `\sda1\f` is looked up as the deleted record. -/
theorem deleted_record_hides_file :
    DirPath treePlugin (devPath sda1 []) 0 0 sda1 [] ∧ DirContent leftoverVolume [] 2 ∧
      Lossless treePlugin (devPath sda1 []) (leftoverVolume.entries 2) ∧
      ¬ListingOpens treePlugin (Mounted leftoverMounts) leftoverVolume 0 0 leftoverDescr
        (devPath sda1 []) := by
  have hpath : DirPath treePlugin (devPath sda1 []) 0 0 sda1 [] :=
    treePlugin_dirPath nofun (by decide)
  have hdir : DirContent leftoverVolume [] 2 :=
    ⟨⟨rfl, leftoverVolume_loads leftoverVolume_root (by decide)⟩,
      uniqueLive_of_fields leftoverVolume_root (by decide),
      leftoverVolume_reads leftoverVolume_root (by decide)⟩
  refine ⟨hpath, hdir, treePlugin_lossless leftoverVolume_root (by decide), ?_⟩
  intro hopens
  have hlive : ((leftoverVolume.entries 2)[4]?).map (fun e => (isListed e, entryFields e)) =
      some (true, [0x66], 1, 4) := by decide +kernel
  obtain ⟨e, he, hfields⟩ := Option.map_eq_some_iff.mp hlive
  have hlisted : isListed e = true := congrArg Prod.fst hfields
  have hname : e.nameBytes = [0x66] := congrArg (fun f => f.2.1) hfields
  have htype : e.fileType = 1 := congrArg (fun f => f.2.2.1) hfields
  obtain ⟨lf, fd, descr, henum, hrecord, hshown⟩ := @listed_shown _ treePlugin _ _ 0 0 _ _ _ _
    leftoverDisks_serve (leftoverMount.counted treeEnv) hpath hdir leftoverDescr
    leftoverDisks_mounted nofun 4 e he hlisted
  obtain ⟨inode, disks, hrun, -⟩ :=
    hopens lf fd descr e henum hrecord htype leftoverDisks leftoverDisks_mounted
  have hdeleted : (getExt2Inode (linuxPartitions treeEnv) 0 0 leftoverDisks
      (devPath sda1 [] ++ separator :: [0x66])).map
        (fun out => (out.1.inode.isSome, out.1.inodeNum)) = .ok (false, some 0) := by decide +kernel
  rw [hshown, hname] at hrun
  rw [show getExt2Inode (linuxPartitions treeEnv) 0 0 leftoverDisks
    (devPath sda1 [] ++ separator :: [0x66]) = _ from hrun] at hdeleted
  cases hdeleted

end Ext4tc.Plugin
