import Ext4tc.Plugin.FsInit
import Ext4tc.Plugin.RootListing

/-! # Sessions without faults

Searches and file lookups of any number of clients, in any order. The searches share one
table, so a `FsFindNext` may meet the table of another directory, or of another partition:
it then shows the wrong entries, and asks its own partition for the inodes of them. No call
faults, as long as these can be read there, handles are used while they are open, and no
path goes through a file. -/

namespace Ext4tc.Plugin
open Ext4tc.Lib Ext4tc.Fs Ext4tc.DiskUtils

/-- No component of the walk by names is the name of something that is not a directory. -/
def Volume.OnlyDirs (vol : Volume) : Nat → List (List UInt8) → Prop
  | _, [] => True
  | n, c :: cs =>
    match (vol.entries n).find? fun e => e.nameBytes == c with
    | none => vol.OnlyDirs n cs
    | some e => e.fileType = ext4FtDir ∧ vol.OnlyDirs e.inode cs

/-- The partitions that are used hold trees, and what is listed on one of them can be read
on each of them. -/
structure Browsable (vol : Nat → Nat → Volume) (used : Nat → Nat → Prop) : Prop where
  tree : ∀ d p, used d p → (vol d p).DirTree
  counted : ∀ d p, used d p → (vol d p).Counted
  inodes : ∀ d p d' p', used d p → used d' p' → ∀ n, (vol d p).Directory n →
    ∀ e ∈ (vol d p).entries n, isListed e = true → e.fileType ≠ ext4FtDir →
      ∃ inode, (vol d' p').inode e.inode = .ok (some inode)

/-- In a tree such a walk ends in a directory, or where its empty table is. -/
theorem looseWalk_of_onlyDirs {vol : Volume} (ht : vol.DirTree) {cs : List (List UInt8)} {n : Nat}
    (hn : vol.Directory n) (h : vol.OnlyDirs n cs) :
    vol.looseWalk n cs = .ok none ∨ ∃ d, vol.Directory d ∧ vol.looseWalk n cs = .ok (some d) := by
  induction cs generalizing n with
  | nil => exact .inr ⟨n, hn, rfl⟩
  | cons c cs ih =>
    rw [Volume.looseWalk]
    rw [Volume.OnlyDirs] at h
    cases hfind : (vol.entries n).find? fun e => e.nameBytes == c with
    | none =>
      rw [hfind] at h
      exact ih hn h
    | some e =>
      rw [hfind] at h
      have hdir := Volume.Directory.sub hn (List.mem_of_find?_eq_some hfind) h.1
      simp only [ht.loads _ hdir]
      split
      next => exact ih hdir h.2
      next => exact .inl rfl

/-! ## States and calls -/

section Safe

variable {σ : Type} (Inv : σ → Prop) (vol : Nat → Nat → Volume) (used : Nat → Nat → Prop)

/-- The table is one of a directory on a used partition, or there is none. -/
def SafeTable (descr : Ext4PluginDescr σ) : Prop :=
  (∃ d p n, used d p ∧ (vol d p).Directory n ∧ HasTable Inv (vol d p) n descr) ∨ HasNone Inv descr

/-- A state between the calls of a session. -/
structure SafeState (s : SearchState σ) : Prop where
  table : SafeTable Inv vol used s.descr
  handles : ∀ c lf, s.handles c = some lf → lf.root = false → used lf.diskNo lf.partNoMap

/-- What a path of `FsFindFirst` may be. -/
inductive SafeDir (env : PluginEnv σ) : List UInt8 → Prop
  | root {path} (h : env.toUtf8 path = [separator]) : SafeDir env path
  | refused {path} (h : env.devices.extractDiskAndPartNo path = none) : SafeDir env path
  | dir {path diskNo partNoMap dev cs} (hpath : DirPath env path diskNo partNoMap dev cs)
      (hused : used diskNo partNoMap)
      (hdirs : (vol diskNo partNoMap).OnlyDirs ext4RootIno cs) : SafeDir env path

/-- What a name of `FsGetFile` may be: it has a component behind the device, and fits. -/
inductive SafeFile (env : PluginEnv σ) : List UInt8 → Prop
  | refused {name} (h : env.devices.extractDiskAndPartNo name = none) : SafeFile env name
  | file {name diskNo partNoMap dev cs c}
      (hpath : DirPath env name diskNo partNoMap dev (cs ++ [c])) (hused : used diskNo partNoMap)
      (hlen : (devPath dev (cs ++ [c])).length < maxPath) : SafeFile env name

/-- The calls of a session: a handle is used while it is open. -/
def SafeCall (env : PluginEnv σ) (s : SearchState σ) : PluginCall → Prop
  | .search (.findFirst _ path _) => SafeDir vol used env path
  | .search (.findNext c _) => s.handles c ≠ none
  | .search (.findClose _) => True
  | .getFile _ _ name => SafeFile used env name

end Safe

/-! ## What the calls do -/

section Calls

variable {σ : Type} {env : PluginEnv σ} {Inv : σ → Prop} {vol : Nat → Nat → Volume}
  {used : Nat → Nat → Prop}

theorem SafeTable.ready {descr : Ext4PluginDescr σ} (h : SafeTable Inv vol used descr) :
    Ready Inv descr := by
  obtain ⟨_, _, _, -, -, hat⟩ | hnone := h
  · exact hat.ready
  · exact hnone.ready

/-- Handles that are safe stay so when a safe one, or none, is put in the place of one. -/
theorem safe_update {handles : Nat → Option LastFind} {c : Nat} {handle : Option LastFind}
    (h : ∀ c lf, handles c = some lf → lf.root = false → used lf.diskNo lf.partNoMap)
    (hnew : ∀ lf, handle = some lf → lf.root = false → used lf.diskNo lf.partNoMap) :
    ∀ c' lf, Function.update handles c handle c' = some lf → lf.root = false →
      used lf.diskNo lf.partNoMap := by
  intro c' lf hlf
  by_cases hc : c' = c
  · subst hc
    rw [Function.update_self] at hlf
    exact hnew lf hlf
  · rw [Function.update_of_ne hc] at hlf
    exact h c' lf hlf

theorem HasTable.next {v : Volume} {n : Nat} {descr : Ext4PluginDescr σ}
    (h : HasTable Inv v n descr) (numLastEntry : Nat) :
    ∃ found num, getNextDirEntry descr numLastEntry = .ok (found, num) ∧
      ∀ dir, found = some dir → dir ∈ v.entries n ∧ isListed dir = true := by
  rw [getNextDirEntry]
  split
  next => exact ⟨none, _, rfl, fun _ h => by cases h⟩
  next hlt =>
    simp only [not_or, Nat.not_le] at hlt
    have hnum := h.num
    have hspan : numLastEntry + 1 + (descr.dirEntryNum - (numLastEntry + 1)) =
        (v.entries n).length := by omega
    obtain ⟨r, hrun, -⟩ := findEntry_some (p := isListed) hspan
    rw [h.table, hrun]
    cases r with
    | none => exact ⟨none, _, rfl, fun _ h => by cases h⟩
    | some found =>
      obtain ⟨i, dir⟩ := found
      obtain ⟨hget, hlisted⟩ := findEntry_found hrun
      refine ⟨some dir, i, rfl, ?_⟩
      intro dir' hdir
      cases hdir
      exact ⟨List.mem_of_getElem? hget, hlisted⟩

theorem findFirstRoot_ok (hsound : SoundDevices env.devices) :
    ∃ found, findFirstRoot env = .ok found := by
  unfold findFirstRoot
  cases hfirst : env.devices.getFirstExt4DiskAndPartNo with
  | none => exact ⟨_, rfl⟩
  | some first =>
    have hindex := hsound.indexed first.1 0 first.2 (getFirst_valid hfirst)
    simp only [hindex]
    exact ⟨_, rfl⟩

variable (hs : Serves env.parts Inv vol) (hb : Browsable vol used)
include hs hb

/-- An entry that is listed on a used partition can be shown by a search of any of them. -/
theorem showEntry_safe {descr : Ext4PluginDescr σ} {d p n diskNo partNoMap : Nat}
    (hused : used d p) (hn : (vol d p).Directory n) (hat : HasTable Inv (vol d p) n descr)
    (hused' : used diskNo partNoMap) {dir : Ext4DirEntry2} (hdir : dir ∈ (vol d p).entries n)
    (hlisted : isListed dir = true) (fd : FindData) :
    ∃ fd' descr', showEntry env descr diskNo partNoMap fd dir = .ok (fd', descr') ∧
      SafeTable Inv vol used descr' := by
  unfold showEntry
  by_cases htype : dir.fileType = ext4FtDir
  · rw [if_pos htype]
    exact ⟨_, descr, rfl, .inl ⟨d, p, n, hused, hn, hat⟩⟩
  · obtain ⟨inode, hinode⟩ :=
      hb.inodes d p diskNo partNoMap hused hused' n hn dir hdir hlisted htype
    have hcall := hs.inode descr.hardDisks hat.inv diskNo partNoMap dir.inode
    rw [hinode] at hcall
    obtain ⟨s', hcall, hi⟩ := hcall
    simp only [if_neg htype, hcall]
    exact ⟨_, _, rfl, .inl ⟨d, p, n, hused, hn, hi, hat.table, hat.num⟩⟩

theorem getFirstDirEntry_safe {descr : Ext4PluginDescr σ} (h : SafeTable Inv vol used descr)
    {diskNo partNoMap : Nat} (hused : used diskNo partNoMap) {dev : List UInt8} (hdev : IsName dev)
    {cs : List (List UInt8)} (hcs : ∀ c ∈ cs, IsName c)
    (hdirs : (vol diskNo partNoMap).OnlyDirs ext4RootIno cs) :
    ∃ first descr', getFirstDirEntry env.parts diskNo partNoMap descr (devPath dev cs) =
        .ok (first, descr') ∧
      (HasNone Inv descr' ∧ first.dir = none ∨ ∃ n, (vol diskNo partNoMap).Directory n ∧
        HasTable Inv (vol diskNo partNoMap) n descr' ∧
          first.dir = ((vol diskNo partNoMap).entries n).find? isListed) := by
  have ht := hb.tree _ _ hused
  have hroot := ht.loads _ .root
  cases hentries : (vol diskNo partNoMap).entries ext4RootIno with
  | nil =>
    rw [hentries] at hroot
    obtain ⟨descr', hload, hnone⟩ := load_none hs h.ready.inv h.ready.sized hroot
    exact ⟨⟨none, none⟩, descr', by rw [getFirstDirEntry, hload], .inl ⟨hnone, rfl⟩⟩
  | cons dir dirs =>
    rw [hentries] at hroot
    have hwalk := getFirstDirEntry_looseWalk hs (hb.counted _ _ hused) hdev.no_sep hcs
      h.ready.inv h.ready.sized hroot
    obtain hend | ⟨n, hn, hend⟩ := looseWalk_of_onlyDirs ht .root hdirs
    · rw [hend] at hwalk
      obtain ⟨descr', hrun, hnone⟩ := hwalk
      exact ⟨_, descr', hrun, .inl ⟨hnone, rfl⟩⟩
    · rw [hend] at hwalk
      obtain ⟨first, descr', hrun, hat, hfirst⟩ := hwalk
      exact ⟨first, descr', hrun, .inr ⟨n, hn, hat, hat.dir_eq hfirst⟩⟩

/-- **A search of a safe path begins without a fault.** -/
theorem fsFindFirst_safe (hsound : SoundDevices env.devices) {descr : Ext4PluginDescr σ}
    (h : SafeTable Inv vol used descr) {path : List UInt8} (hpath : SafeDir vol used env path)
    (fd : FindData) :
    ∃ handle fd' descr', fsFindFirst env descr path fd = .ok ((handle, fd'), descr') ∧
      SafeTable Inv vol used descr' ∧
        ∀ lf, handle = some lf → lf.root = false → used lf.diskNo lf.partNoMap := by
  rw [fsFindFirst]
  split
  next => exact ⟨none, fd, descr, rfl, h, fun _ hlf => by cases hlf⟩
  next =>
    split
    next =>
      obtain ⟨found, hfound⟩ := findFirstRoot_ok hsound
      rw [hfound]
      refine ⟨found.1, found.2, descr, rfl, h, ?_⟩
      intro lf hlf hroot
      rw [findFirstRoot_root hfound lf hlf] at hroot
      cases hroot
    next hnotRoot =>
      rw [findFirstDir]
      cases hpath with
      | root hroot => exact absurd hroot hnotRoot
      | refused hrefused =>
        rw [hrefused]
        exact ⟨none, .zero, descr, rfl, h, fun _ hlf => by cases hlf⟩
      | dir hpath hused hdirs =>
        rename_i diskNo partNoMap dev cs
        have hlf : ∀ num lf, some (LastFind.mk false diskNo partNoMap num) = some lf →
            lf.root = false → used lf.diskNo lf.partNoMap := by
          intro num lf hlf _
          cases hlf
          exact hused
        obtain ⟨partNo, hextract, hindex⟩ := hpath.device
        obtain ⟨first, descr₁, hrun, hend⟩ :=
          getFirstDirEntry_safe hs hb h hused hpath.dev hpath.names hdirs
        simp only [hextract, hindex, hpath.utf8, hrun]
        obtain ⟨hnone, hdir⟩ | ⟨n, hn, hat, hdir⟩ := hend
        · rw [hdir]
          exact ⟨_, _, _, rfl, .inr hnone, hlf _⟩
        · cases hfind : first.dir with
          | none =>
            exact ⟨_, _, _, rfl, .inl ⟨_, _, n, hused, hn, hat⟩, hlf _⟩
          | some dir =>
            rw [hfind] at hdir
            obtain ⟨fd', descr₂, hshow, hsafe⟩ := showEntry_safe hs hb hused hn hat hused
              (List.mem_of_find?_eq_some hdir.symm) (List.find?_some hdir.symm) .zero
            simp only [hshow]
            exact ⟨_, _, _, rfl, hsafe, hlf _⟩

/-- **So does it go on**, whatever table it meets. -/
theorem fsFindNext_safe {descr : Ext4PluginDescr σ} (h : SafeTable Inv vol used descr)
    {lf : LastFind} (hlf : lf.root = false → used lf.diskNo lf.partNoMap) (fd : FindData) :
    ∃ more lf' fd' descr', fsFindNext env descr lf fd = .ok ((more, lf', fd'), descr') ∧
      SafeTable Inv vol used descr' ∧ (lf'.root = false → used lf'.diskNo lf'.partNoMap) := by
  rw [fsFindNext]
  split
  next hroot =>
    have hkeeps : (findNextRoot env lf fd).2.1.root = lf.root := by
      unfold findNextRoot
      split <;> rfl
    refine ⟨_, _, _, descr, rfl, h, fun hfalse => ?_⟩
    have hlf' := hkeeps.symm.trans hfalse
    rw [hroot] at hlf'
    cases hlf'
  next hroot =>
    have hused := hlf (Bool.eq_false_iff.mpr hroot)
    obtain ⟨d, p, n, hused', hn, hat⟩ | hnone := h
    · obtain ⟨found, num, hnext, hfound⟩ := hat.next lf.numLastEntry
      rw [hnext]
      cases found with
      | none => exact ⟨_, _, _, descr, rfl, .inl ⟨d, p, n, hused', hn, hat⟩, fun _ => hused⟩
      | some dir =>
        obtain ⟨hmem, hlisted⟩ := hfound dir rfl
        obtain ⟨fd', descr', hshow, hsafe⟩ :=
          showEntry_safe hs hb hused' hn hat hused hmem hlisted fd
        simp only [hshow]
        exact ⟨_, _, _, _, rfl, hsafe, fun _ => hused⟩
    · have hnext : getNextDirEntry descr lf.numLastEntry = .ok (none, lf.numLastEntry) := by
        simp [getNextDirEntry, hnone.table]
      rw [hnext]
      exact ⟨_, _, _, descr, rfl, .inr hnone, fun _ => hused⟩

omit hs in
theorem answer_safe {diskNo partNoMap : Nat} (hused : used diskNo partNoMap)
    (cs : List (List UInt8)) (c : List UInt8) :
    ∃ found, answer (vol diskNo partNoMap) cs c = .ok found := by
  have ht := hb.tree _ _ hused
  rw [answer]
  cases hend : walkEnd (vol diskNo partNoMap) cs with
  | none => exact ⟨_, rfl⟩
  | some d =>
    have hd : (vol diskNo partNoMap).Directory d :=
      (walkEnd_some hend).1 ▸ directory_stayWalk .root
    simp only
    cases hfile : (vol diskNo partNoMap).fileIn d c with
    | none => exact ⟨_, rfl⟩
    | some e =>
      obtain ⟨⟨hmem, -⟩, htype⟩ := find_some hfile
      obtain ⟨inode, hinode⟩ := ht.files d hd e hmem htype
      simp only [hinode]
      exact ⟨_, rfl⟩

theorem fsGetFile_safe {s : σ} (hi : Inv s) {name : List UInt8} (hname : SafeFile used env name)
    (createOk : Bool) : ∃ out s', fsGetFile env createOk s name = .ok (out, s') ∧ Inv s' := by
  rw [fsGetFile]
  cases hname with
  | refused hrefused =>
    rw [hrefused]
    exact ⟨_, s, rfl, hi⟩
  | file hpath hused hlen =>
    rename_i diskNo partNoMap dev cs c
    obtain ⟨partNo, hextract, hindex⟩ := hpath.device
    have hcs : ∀ c' ∈ cs, IsName c' := fun c' hc' =>
      hpath.names c' (List.mem_append_left _ hc')
    have hc : IsName c := hpath.names c (List.mem_append_right _ (List.mem_singleton_self c))
    have hans := getExt2Inode_answers hs (hb.tree _ _ hused) hpath.dev.no_sep hcs hc hlen hi
    obtain ⟨found, hfound⟩ := answer_safe hb hused cs c
    rw [hfound] at hans
    obtain ⟨s', hcall, hi'⟩ := hans
    simp only [hextract, hindex, hpath.utf8, hcall]
    exact ⟨_, s', rfl, hi'⟩

/-- **A safe call succeeds in a safe state**, and leaves one. -/
theorem pluginCall_safe (hsound : SoundDevices env.devices) {s : SearchState σ}
    (h : SafeState Inv vol used s) {call : PluginCall} (hcall : SafeCall vol used env s call) :
    ∃ reply s', s.pluginCall env call = .ok (reply, s') ∧ SafeState Inv vol used s' := by
  match call with
  | .search (.findFirst c path fd) =>
    obtain ⟨handle, fd', descr', hrun, htable, hused⟩ :=
      fsFindFirst_safe hs hb hsound h.table hcall fd
    simp only [SearchState.pluginCall, SearchState.call, hrun]
    exact ⟨_, _, rfl, htable, safe_update h.handles hused⟩
  | .search (.findNext c fd) =>
    obtain ⟨lf, hlf⟩ := Option.ne_none_iff_exists'.mp hcall
    obtain ⟨more, lf', fd', descr', hrun, htable, hused⟩ :=
      fsFindNext_safe hs hb h.table (h.handles c lf hlf) fd
    simp only [SearchState.pluginCall, SearchState.call, hlf, hrun]
    refine ⟨_, _, rfl, htable, safe_update h.handles ?_⟩
    intro lf₁ hlf₁
    cases hlf₁
    exact hused
  | .search (.findClose c) =>
    exact ⟨_, _, rfl, h.table, safe_update h.handles fun _ hlf => by cases hlf⟩
  | .getFile c createOk name =>
    obtain ⟨out, s', hrun, hi⟩ := fsGetFile_safe hs hb h.table.ready.inv hcall createOk
    simp only [SearchState.pluginCall, hrun]
    refine ⟨_, _, rfl, ?_, h.handles⟩
    obtain ⟨d, p, n, hused, hn, hat⟩ | hnone := h.table
    · exact .inl ⟨d, p, n, hused, hn, hi, hat.table, hat.num⟩
    · exact .inr ⟨hi, hnone.table⟩

end Calls

theorem SafeState.fresh {σ : Type} {Inv : σ → Prop} {vol : Nat → Nat → Volume}
    {used : Nat → Nat → Prop} {hardDisks : σ} (hi : Inv hardDisks) :
    SafeState Inv vol used ⟨⟨hardDisks, none, 0⟩, fun _ => none, fun _ => none⟩ :=
  ⟨.inr ⟨hi, rfl⟩, nofun⟩

/-! ## Two searches and a file -/

def onlyFirst (diskNo partNoMap : Nat) : Prop := diskNo = 0 ∧ partNoMap = 0

theorem treeVolume_browsable : Browsable (linuxVolume treeMounts treeEnv) onlyFirst := by
  constructor
  · rintro d p ⟨rfl, rfl⟩
    exact treeVolume_dirTree
  · rintro d p ⟨rfl, rfl⟩
    exact linuxVolume_counted treeMounts treeEnv 0 0
  · rintro d p d' p' ⟨rfl, rfl⟩ ⟨rfl, rfl⟩ n hn e he - htype
    have hfile : e.fileType = ext4FtRegFile := by
      obtain rfl | rfl := treeVolume_directory hn
      · exact fields_all treeVolume_root (P := fun f => f.2.1 ≠ ext4FtDir → f.2.1 = ext4FtRegFile)
          (by decide) he htype
      · exact fields_all treeVolume_a (P := fun f => f.2.1 ≠ ext4FtDir → f.2.1 = ext4FtRegFile)
          (by decide) he htype
    exact treeVolume_dirTree.files n hn e he hfile

theorem treePlugin_sound : SoundDevices treePlugin.devices := by
  have hdisk : ∀ diskNo, treePlugin.devices.disk diskNo = if diskNo = 0 then [1] else [] := by
    intro diskNo
    cases diskNo <;> rfl
  refine ⟨fun diskNo => ?_, ?_, nofun⟩
  · rw [hdisk]
    split
    next => exact ⟨List.pairwise_singleton _ _, by simp⟩
    next => exact .nil
  · intro diskNo j partNo hpart
    rw [hdisk] at hpart
    split at hpart
    next hzero =>
      subst hzero
      obtain ⟨rfl, rfl⟩ : j = 0 ∧ partNo = 1 := by
        cases j with
        | zero => exact ⟨rfl, (Option.some.inj hpart).symm⟩
        | succ j => simp at hpart
      rfl
    next => simp at hpart

/-- The root and `a` are searched at the same time, with one table, and a file is looked up. -/
def mixedSession : List PluginCall :=
  [.search (.findFirst 0 (devPath sda1 []) .zero),
    .search (.findFirst 1 (devPath sda1 [[0x61]]) .zero), .search (.findNext 0 .zero),
    .getFile 2 true (devPath sda1 [[0x61], [0x67]]),
    .search (.findClose 0)]

theorem findFirst_handle {σ : Type} {env : PluginEnv σ} {s s' : SearchState σ} {c c' : Nat}
    {path : List UInt8} {fd : FindData} {reply : PluginReply} (hne : c ≠ c')
    (h : (pluginSystem env).step s (.search (.findFirst c' path fd)) = .ok (reply, s')) :
    s'.handles c = s.handles c := by
  obtain ⟨⟨_, s₁⟩, hcall, heq⟩ := exists_of_map_ok h
  cases heq
  have hstep : (searchSystem env).step s (.findFirst c' path fd) = .ok (_, s') := hcall
  cases searchSystem_step hstep
  exact Function.update_of_ne hne _ _

theorem mixedSession_safe : (pluginSystem treePlugin).Meets
    (SafeCall (linuxVolume treeMounts treeEnv) onlyFirst treePlugin) treeSearch mixedSession := by
  obtain ⟨a, ha, hfields⟩ := find_of_fields treeVolume_root
    (p := fun f => f.1 == [0x61]) (f := ([0x61], 2, 3)) (by decide)
  have hnames : ∀ c ∈ [[(0x61 : UInt8)]] ++ [[0x67]], IsName c := by
    intro c hc
    rcases List.mem_append.mp hc with hc | hc
    · exact isName_a c hc
    · exact List.mem_singleton.mp hc ▸ isName_singleton (by decide) (by decide)
  have hdirs : treeVolume.OnlyDirs ext4RootIno [[0x61]] := by
    have hfind : ((treeVolume.entries ext4RootIno).find? fun e => e.nameBytes == [0x61]) = some a :=
      ha
    rw [Volume.OnlyDirs, hfind]
    exact ⟨congrArg (fun f => f.2.1) hfields, trivial⟩
  have hopened : ((pluginSystem treePlugin).step treeSearch
      (.search (.findFirst 0 (devPath sda1 []) .zero))).map (fun r => (r.2.handles 0).isSome) =
        .ok true := by decide +kernel
  refine .cons (.dir (treePlugin_dirPath nofun (by decide)) ⟨rfl, rfl⟩ trivial) ?_
  intro reply₁ s₁ hstep₁
  have hhandle₁ : s₁.handles 0 ≠ none := by
    rw [hstep₁] at hopened
    exact Option.isSome_iff_ne_none.mp (Except.ok.inj hopened)
  refine .cons (.dir (treePlugin_dirPath isName_a (by decide)) ⟨rfl, rfl⟩ hdirs) ?_
  intro reply₂ s₂ hstep₂
  have hhandle₂ : s₂.handles 0 ≠ none :=
    findFirst_handle (show 0 ≠ 1 by decide) hstep₂ ▸ hhandle₁
  refine .cons hhandle₂ fun _ _ _ => .cons ?_ fun _ _ _ => .cons trivial fun _ _ _ => trivial
  exact .file (treePlugin_dirPath hnames (by decide)) ⟨rfl, rfl⟩ (by decide)

end Ext4tc.Plugin
