import Ext4tc.Plugin.DeviceNames
import Ext4tc.Plugin.SearchHandles

/-! # Leftovers in the caller's buffer

`FsFindFirst` clears the structure that it fills, `FsFindNext` fills what it is given. On the
list of partitions it writes the name alone, and in a directory the high word of the size for
regular files alone. What a search shows is compared between two runs that differ in the
buffers, while other calls change the plugin in any way between its own. -/

namespace Ext4tc.Plugin
open Ext4tc.Lib Ext4tc.Fs Ext4tc.DiskUtils

/-- What the caller reads of an entry: its name, its attributes and its 64-bit size. -/
structure ShownEntry where
  name : List UInt8
  attributes : Nat
  size : Nat
  deriving DecidableEq

def FindData.shown (fd : FindData) : ShownEntry :=
  ⟨fd.cFileName, fd.dwFileAttributes, fd.nFileSizeHigh * 2 ^ 32 + fd.nFileSizeLow⟩

section Search

variable {σ : Type} (env : PluginEnv σ)

/-- What a call of `FsFindNext` shows, if it returns true. -/
def shownNext (descr : Ext4PluginDescr σ) (lf : LastFind) (fd : FindData) :
    Except Fault (Option ShownEntry) :=
  (fsFindNext env descr lf fd).map fun out => if out.1.1 then some out.1.2.2.shown else none

/-- The calls of `FsFindNext` of a search, each after what other calls made of the plugin, and
each with a buffer of its own. -/
def shownBy : (descr : Ext4PluginDescr σ) → LastFind → (buffers : Nat → FindData) →
    (others : List (Ext4PluginDescr σ → Ext4PluginDescr σ)) →
      List (Except Fault (Option ShownEntry))
  | _, _, _, [] => []
  | descr, lf, buffers, other :: others =>
    shownNext env (other descr) lf (buffers 0) ::
      match fsFindNext env (other descr) lf (buffers 0) with
      | .error _ => []
      | .ok ((_, lf, _), descr) => shownBy descr lf (fun n => buffers (n + 1)) others

/-- A search from its `FsFindFirst` on. -/
def searchShows (descr : Ext4PluginDescr σ) (path : List UInt8) (fd : FindData)
    (buffers : Nat → FindData) (others : List (Ext4PluginDescr σ → Ext4PluginDescr σ)) :
    List (Except Fault (Option ShownEntry)) :=
  match fsFindFirst env descr path fd with
  | .error fault => [.error fault]
  | .ok ((none, _), _) => [.ok none]
  | .ok ((some lf, fd), descr) => .ok (some fd.shown) :: shownBy env descr lf buffers others

/-- Nothing that the search shows depends on the buffers, and the partitions at the root are
shown as directories. -/
structure ForgetsBuffers (descr : Ext4PluginDescr σ) (path : List UInt8)
    (others : List (Ext4PluginDescr σ → Ext4PluginDescr σ)) : Prop where
  same : ∀ fd fd' buffers buffers', searchShows env descr path fd buffers others =
    searchShows env descr path fd' buffers' others
  directories : env.toUtf8 path = [separator] → ∀ fd buffers shown,
    .ok (some shown) ∈ searchShows env descr path fd buffers others →
      shown.attributes = fileAttributeDirectory

/-- The record that the next call comes to, with an inode where that is asked for. -/
def Reaches (descr : Ext4PluginDescr σ) (lf : LastFind) (dir : Ext4DirEntry2) : Prop :=
  (∃ place, getNextDirEntry descr lf.numLastEntry = .ok (some dir, place)) ∧
    (dir.fileType ≠ ext4FtDir → ∃ inode hardDisks, env.parts.getExt4Inode descr.hardDisks
      lf.diskNo lf.partNoMap dir.inode = .ok (some inode, hardDisks))

/-- The next call comes to no partition, and to no record but one of a regular file. -/
structure NextIsFile (descr : Ext4PluginDescr σ) (lf : LastFind) : Prop where
  root : lf.root = true → env.devices.getNextExt4DiskAndPartNo lf.diskNo lf.partNoMap = none
  dir : lf.root = false → ∀ dir, Reaches env descr lf dir → dir.fileType = ext4FtRegFile

def OnlyFiles : (descr : Ext4PluginDescr σ) → LastFind →
    (others : List (Ext4PluginDescr σ → Ext4PluginDescr σ)) → Prop
  | _, _, [] => True
  | descr, lf, other :: others =>
    NextIsFile env (other descr) lf ∧
      match fsFindNext env (other descr) lf .zero with
      | .error _ => True
      | .ok ((_, lf, _), descr) => OnlyFiles descr lf others

/-- The calls of `FsFindNext` behind a first call that succeeds come to regular files only. -/
def OnlyFilesFollow (descr : Ext4PluginDescr σ) (path : List UInt8)
    (others : List (Ext4PluginDescr σ → Ext4PluginDescr σ)) : Prop :=
  ∀ lf fd descr', fsFindFirst env descr path .zero = .ok ((some lf, fd), descr') →
    OnlyFiles env descr' lf others

end Search

/-! ## One call -/

section OneCall

variable {σ : Type} {env : PluginEnv σ} {descr : Ext4PluginDescr σ} {lf : LastFind}

inductive NextCall (env : PluginEnv σ) (descr : Ext4PluginDescr σ) (lf : LastFind) : Prop where
  | fails (hfile : NextIsFile env descr lf) (fault : Fault)
      (h : ∀ fd, fsFindNext env descr lf fd = .error fault)
  | ends (hfile : NextIsFile env descr lf) (lf' : LastFind)
      (h : ∀ fd, fsFindNext env descr lf fd = .ok ((false, lf', fd), descr))
  | partition (hroot : lf.root = true)
      (hnext : env.devices.getNextExt4DiskAndPartNo lf.diskNo lf.partNoMap ≠ none)
      (lf' : LastFind) (name : List UInt8)
      (h : ∀ fd, fsFindNext env descr lf fd =
        .ok ((true, lf', { fd with cFileName := name }), descr))
  | directory (hroot : lf.root = false) (dir : Ext4DirEntry2) (hdir : Reaches env descr lf dir)
      (htype : dir.fileType = ext4FtDir) (lf' : LastFind)
      (h : ∀ fd, fsFindNext env descr lf fd =
        .ok ((true, lf', returnFile env { fd with nFileSizeLow := 0 } dir), descr))
  | file (hroot : lf.root = false) (dir : Ext4DirEntry2) (hdir : Reaches env descr lf dir)
      (htype : dir.fileType ≠ ext4FtDir) (lf' : LastFind) (inode : Ext4Inode) (hardDisks : σ)
      (h : ∀ fd, fsFindNext env descr lf fd =
        .ok ((true, lf', returnFile env
          { fd with
            nFileSizeLow := inode.iSizeLo
            nFileSizeHigh :=
              if dir.fileType = ext4FtRegFile then inode.iSizeHigh else fd.nFileSizeHigh } dir),
          { descr with hardDisks }))

/-- The record that a call comes to is the one of `get_next_dir_entry`. -/
theorem Reaches.unique {dir dir' : Ext4DirEntry2} {place : Nat} (h : Reaches env descr lf dir)
    (hnext : getNextDirEntry descr lf.numLastEntry = .ok (some dir', place)) : dir = dir' := by
  obtain ⟨⟨_, hnext'⟩, -⟩ := h
  cases hnext.symm.trans hnext'
  rfl

theorem fsFindNext_cases (env : PluginEnv σ) (descr : Ext4PluginDescr σ) (lf : LastFind) :
    NextCall env descr lf := by
  cases hroot : lf.root with
  | true =>
    cases hnext : env.devices.getNextExt4DiskAndPartNo lf.diskNo lf.partNoMap with
    | none =>
      refine .ends ⟨fun _ => hnext, fun hdir => ?_⟩ lf fun fd => ?_
      · cases hroot.symm.trans hdir
      · rw [fsFindNext, if_pos hroot, findNextRoot, hnext]
    | some place =>
      obtain ⟨diskNo, j⟩ := place
      exact .partition hroot (hnext ▸ Option.some_ne_none _) _ _ fun fd =>
        fsFindNext_root descr fd hroot hnext
  | false =>
    have hcall : ∀ fd, fsFindNext env descr lf fd = _ := fun fd => by
      rw [fsFindNext, if_neg (by simp [hroot])]
    have hfile : (∀ dir, ¬Reaches env descr lf dir) → NextIsFile env descr lf := fun hnone =>
      ⟨fun htrue => Bool.noConfusion (hroot.symm.trans htrue),
        fun _ dir hdir => absurd hdir (hnone dir)⟩
    cases hnext : getNextDirEntry descr lf.numLastEntry with
    | error fault =>
      refine .fails (hfile fun dir hdir => ?_) fault fun fd => by simp only [hcall fd, hnext]
      obtain ⟨⟨_, hnext'⟩, -⟩ := hdir
      cases hnext.symm.trans hnext'
    | ok out =>
      obtain ⟨dir, place⟩ := out
      cases dir with
      | none =>
        refine .ends (hfile fun dir hdir => ?_) { lf with numLastEntry := place } fun fd => by
          simp only [hcall fd, hnext]
        obtain ⟨⟨_, hnext'⟩, -⟩ := hdir
        cases hnext.symm.trans hnext'
      | some dir =>
        by_cases htype : dir.fileType = ext4FtDir
        · refine .directory hroot dir ⟨⟨place, hnext⟩, absurd htype⟩ htype
            { lf with numLastEntry := place } fun fd => ?_
          simp only [hcall fd, hnext, showEntry, if_pos htype]
        · cases hinode :
            env.parts.getExt4Inode descr.hardDisks lf.diskNo lf.partNoMap dir.inode with
          | error fault =>
            refine .fails (hfile fun dir' hdir => ?_) fault fun fd => by
              simp only [hcall fd, hnext, showEntry, if_neg htype, hinode]
            obtain rfl := hdir.unique hnext
            obtain ⟨_, _, hinode'⟩ := hdir.2 htype
            cases hinode.symm.trans hinode'
          | ok out =>
            obtain ⟨inode, hardDisks⟩ := out
            cases inode with
            | none =>
              refine .fails (hfile fun dir' hdir => ?_) .nullDeref fun fd => by
                simp only [hcall fd, hnext, showEntry, if_neg htype, hinode]
              obtain rfl := hdir.unique hnext
              obtain ⟨_, _, hinode'⟩ := hdir.2 htype
              cases hinode.symm.trans hinode'
            | some inode =>
              refine .file hroot dir ⟨⟨place, hnext⟩, fun _ => ⟨inode, hardDisks, hinode⟩⟩ htype
                { lf with numLastEntry := place } inode hardDisks fun fd => ?_
              simp only [hcall fd, hnext, showEntry, if_neg htype, hinode]

/-- What a call leaves behind does not depend on the buffer. -/
theorem fsFindNext_state (fd fd' : FindData) :
    (∃ fault, fsFindNext env descr lf fd = .error fault ∧
      fsFindNext env descr lf fd' = .error fault) ∨
    ∃ found lf' fd₁ fd₁' descr', fsFindNext env descr lf fd = .ok ((found, lf', fd₁), descr') ∧
      fsFindNext env descr lf fd' = .ok ((found, lf', fd₁'), descr') := by
  cases fsFindNext_cases env descr lf with
  | fails _ fault h => exact .inl ⟨fault, h fd, h fd'⟩
  | ends _ lf' h => exact .inr ⟨_, _, _, _, _, h fd, h fd'⟩
  | partition _ _ lf' name h => exact .inr ⟨_, _, _, _, _, h fd, h fd'⟩
  | directory _ dir _ _ lf' h => exact .inr ⟨_, _, _, _, _, h fd, h fd'⟩
  | file _ dir _ _ lf' inode hardDisks h => exact .inr ⟨_, _, _, _, _, h fd, h fd'⟩

/-- **One call** shows the same with every buffer exactly if it comes to no partition, and to
no record but one of a regular file. -/
theorem shownNext_same_iff :
    (∀ fd fd', shownNext env descr lf fd = shownNext env descr lf fd') ↔
      NextIsFile env descr lf := by
  unfold shownNext
  cases fsFindNext_cases env descr lf with
  | fails hfile fault h => exact iff_of_true (fun fd fd' => by rw [h, h]) hfile
  | ends hfile lf' h =>
    refine iff_of_true (fun fd fd' => ?_) hfile
    rw [h, h]
    rfl
  | partition hroot hnext lf' name h =>
    refine iff_of_false (fun hsame => ?_) fun hfile => hnext (hfile.root hroot)
    -- the attributes are left over
    have hattr := hsame .zero { FindData.zero with dwFileAttributes := fileAttributeDirectory }
    rw [h, h] at hattr
    cases hattr
  | directory hroot dir hdir htype lf' h =>
    refine iff_of_false (fun hsame => ?_) fun hfile => ?_
    · -- the high word of the size is left over
      have hsize := hsame .zero { FindData.zero with nFileSizeHigh := 1 }
      rw [h, h] at hsize
      simp [Except.map, returnFile, FindData.shown, FindData.zero] at hsize
    · cases htype.symm.trans (hfile.dir hroot dir hdir)
  | file hroot dir hdir htype lf' inode hardDisks h =>
    by_cases hreg : dir.fileType = ext4FtRegFile
    · refine iff_of_true (fun fd fd' => ?_) ⟨fun htrue => ?_, fun _ dir' hdir' => ?_⟩
      · simp only [h, if_pos hreg, Except.map, if_true, returnFile, FindData.shown]
      · cases hroot.symm.trans htrue
      · obtain ⟨⟨_, hnext⟩, -⟩ := hdir
        rw [hdir'.unique hnext, hreg]
    · refine iff_of_false (fun hsame => ?_) fun hfile => hreg (hfile.dir hroot dir hdir)
      have hsize := hsame .zero { FindData.zero with nFileSizeHigh := 1 }
      rw [h, h, if_neg hreg, if_neg hreg] at hsize
      simp [Except.map, returnFile, FindData.shown, FindData.zero] at hsize

end OneCall

/-! ## A search -/

section Runs

variable {σ : Type} {env : PluginEnv σ} {descr descr' : Ext4PluginDescr σ} {lf lf' : LastFind}
  {other : Ext4PluginDescr σ → Ext4PluginDescr σ}
  {others : List (Ext4PluginDescr σ → Ext4PluginDescr σ)}

theorem shownBy_error {fault : Fault}
    (h : fsFindNext env (other descr) lf .zero = .error fault) (buffers : Nat → FindData) :
    shownBy env descr lf buffers (other :: others) =
      [shownNext env (other descr) lf (buffers 0)] := by
  rw [shownBy]
  obtain ⟨fault', -, hcall⟩ | ⟨_, _, _, _, _, hzero, -⟩ :=
    @fsFindNext_state σ env (other descr) lf .zero (buffers 0)
  · rw [hcall]
  · cases h.symm.trans hzero

theorem shownBy_ok {found : Bool} {fd : FindData}
    (h : fsFindNext env (other descr) lf .zero = .ok ((found, lf', fd), descr'))
    (buffers : Nat → FindData) :
    shownBy env descr lf buffers (other :: others) =
      shownNext env (other descr) lf (buffers 0) ::
        shownBy env descr' lf' (fun n => buffers (n + 1)) others := by
  rw [shownBy]
  obtain ⟨fault, hzero, -⟩ | ⟨_, _, _, _, _, hzero, hcall⟩ :=
    @fsFindNext_state σ env (other descr) lf .zero (buffers 0)
  · cases h.symm.trans hzero
  · cases h.symm.trans hzero
    rw [hcall]

/-- **The calls of `FsFindNext`** show the same with all buffers exactly if each of them comes
to a regular file, or to nothing. -/
theorem shownBy_same_iff (others : List (Ext4PluginDescr σ → Ext4PluginDescr σ))
    (descr : Ext4PluginDescr σ) (lf : LastFind) :
    (∀ buffers buffers', shownBy env descr lf buffers others =
      shownBy env descr lf buffers' others) ↔ OnlyFiles env descr lf others := by
  induction others generalizing descr lf with
  | nil => exact iff_of_true (fun _ _ => rfl) trivial
  | cons other others ih =>
    rw [OnlyFiles, ← shownNext_same_iff]
    cases hzero : fsFindNext env (other descr) lf .zero with
    | error fault =>
      simp only [shownBy_error hzero, List.cons.injEq, and_true]
      exact ⟨fun h fd fd' => h (fun _ => fd) fun _ => fd', fun h buffers buffers' => h _ _⟩
    | ok out =>
      obtain ⟨⟨found, lf', fd⟩, descr'⟩ := out
      simp only [shownBy_ok hzero, List.cons.injEq, ← ih descr' lf']
      constructor
      · refine fun h => ⟨fun fd fd' => (h (fun _ => fd) fun _ => fd').1, fun buffers buffers' => ?_⟩
        exact (h (fun n => buffers (n - 1)) fun n => buffers' (n - 1)).2
      · exact fun h buffers buffers' => ⟨h.1 _ _, h.2 _ _⟩

theorem OnlyFiles.root_shows_none (hroot : lf.root = true) (h : OnlyFiles env descr lf others)
    (buffers : Nat → FindData) (shown : ShownEntry) :
    .ok (some shown) ∉ shownBy env descr lf buffers others := by
  induction others generalizing descr lf buffers with
  | nil => exact List.not_mem_nil
  | cons other others ih =>
    obtain ⟨hfile, hrest⟩ := h
    have hcall : ∀ fd, fsFindNext env (other descr) lf fd = .ok ((false, lf, fd), other descr) := by
      intro fd
      rw [fsFindNext, if_pos hroot, findNextRoot, hfile.root hroot]
    rw [hcall] at hrest
    rw [shownBy_ok (hcall _), List.mem_cons, not_or, shownNext, hcall]
    exact ⟨fun h => (by cases h), ih hroot hrest _⟩

end Runs

section Search

variable {σ : Type} {env : PluginEnv σ} {descr : Ext4PluginDescr σ} {path : List UInt8}

/-- `FsFindFirst` clears the buffer, or returns without a handle. -/
theorem fsFindFirst_buffer (fd fd' : FindData) :
    fsFindFirst env descr path fd = fsFindFirst env descr path fd' ∨
      ∀ fd₀, fsFindFirst env descr path fd₀ = .ok ((none, fd₀), descr) := by
  by_cases hinit : (!env.initialized || env.devices.idMap.isNone) = true
  · refine .inr fun fd₀ => ?_
    rw [fsFindFirst, if_pos hinit]
  · left
    rw [fsFindFirst, fsFindFirst, if_neg hinit, if_neg hinit]

theorem fsFindFirst_atRoot (hpath : env.toUtf8 path = [separator]) {fd fd' : FindData}
    {lf : LastFind} {descr' : Ext4PluginDescr σ}
    (h : fsFindFirst env descr path fd = .ok ((some lf, fd'), descr')) :
    lf.root = true ∧ fd'.dwFileAttributes = fileAttributeDirectory := by
  rw [fsFindFirst, if_pos hpath] at h
  split at h
  next => cases h
  next =>
    obtain ⟨found, hfound, heq⟩ := exists_of_map_ok h
    cases heq
    refine ⟨findFirstRoot_root hfound lf rfl, ?_⟩
    unfold findFirstRoot at hfound
    dsimp only at hfound
    split at hfound
    next => cases hfound
    next =>
      split at hfound
      next => cases hfound
      next =>
        cases hfound
        rfl

/-- The buffer of `FsFindFirst` shows nowhere. -/
theorem searchShows_first (fd : FindData) (buffers : Nat → FindData)
    (others : List (Ext4PluginDescr σ → Ext4PluginDescr σ)) :
    searchShows env descr path fd buffers others =
      searchShows env descr path .zero buffers others := by
  unfold searchShows
  obtain hsame | hnone := @fsFindFirst_buffer σ env descr path fd .zero
  · rw [hsame]
  · rw [hnone, hnone]

/-- **A search shows the same with all buffers**, and its partitions as directories, exactly
if its calls of `FsFindNext` come to regular files only. -/
theorem search_forgets_buffers_iff (descr : Ext4PluginDescr σ) (path : List UInt8)
    (others : List (Ext4PluginDescr σ → Ext4PluginDescr σ)) :
    ForgetsBuffers env descr path others ↔ OnlyFilesFollow env descr path others := by
  constructor
  · intro h lf fd descr' hfirst
    rw [← shownBy_same_iff]
    intro buffers buffers'
    have hsame := h.same .zero .zero buffers buffers'
    simp only [searchShows, hfirst, List.cons.injEq, true_and] at hsame
    exact hsame
  · intro h
    constructor
    · intro fd fd' buffers buffers'
      rw [searchShows_first fd, searchShows_first fd', searchShows, searchShows]
      split
      next => rfl
      next => rfl
      next lf fd₁ descr' hfirst =>
        exact congrArg _ ((shownBy_same_iff others descr' lf).mpr (h lf fd₁ descr' hfirst) _ _)
    · intro hpath fd buffers shown hmem
      rw [searchShows_first, searchShows] at hmem
      split at hmem
      next => cases List.mem_singleton.mp hmem
      next => cases List.mem_singleton.mp hmem
      next lf fd₁ descr' hfirst =>
        obtain ⟨hroot, hattr⟩ := fsFindFirst_atRoot hpath hfirst
        rcases List.mem_cons.mp hmem with heq | hlater
        · cases heq
          exact hattr
        · exact absurd hlater ((h lf fd₁ descr' hfirst).root_shows_none hroot buffers shown)

end Search

/-- The second partition of a disk with two is shown with the attributes of the buffer. -/
theorem partition_keeps_attributes :
    ¬∀ (env : PluginEnv LinuxDisks) descr path others, ForgetsBuffers env descr path others := by
  intro h
  have hforgets := h ⟨true, ⟨[[1, 2]], some [1, 0, 1]⟩, linuxPartitions treeEnv, id, id⟩
    treeDescr [separator] [id]
  have hshown :
      (⟨Devices.displayName 0 2, 0, 0⟩ : ShownEntry).attributes = fileAttributeDirectory :=
    hforgets.directories rfl .zero (fun _ => .zero) _ (by decide +kernel)
  cases hshown

end Ext4tc.Plugin
