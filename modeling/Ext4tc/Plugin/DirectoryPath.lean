import Ext4tc.Plugin.LinuxPartitions

/-! # Resolving the path of a directory

`get_first_dir_entry` on a tree. A component is looked for by its name alone, a missing
one leaves the table of the directory before it, and whatever an entry stands for is
loaded as a directory. The call ends with the table of the inode that such a walk ends
in, and fails only where a load does. -/

namespace Ext4tc.Plugin
open Ext4tc.Lib Ext4tc.Fs Ext4tc.DiskUtils

namespace Volume

/-- The walk by names that loads what it finds: the inode whose table it ends with, or
none where a load gives no table. -/
def looseWalk (vol : Volume) : Nat → List (List UInt8) → Except Fault (Option Nat)
  | n, [] => .ok (some n)
  | n, c :: cs =>
    match (vol.entries n).find? fun e => e.nameBytes == c with
    | none => looseWalk vol n cs
    | some e =>
      match vol.load e.inode with
      | .error fault => .error fault
      | .ok result => if result.table.isSome then looseWalk vol e.inode cs else .ok none

end Volume

/-- `get_first_dir_entry` loads the directory that the path names, and nothing to list
if there is none. -/
structure ExactDirectory {σ : Type} (vol : Volume) (cs : List (List UInt8))
    (out : Except Fault (FirstEntry × Ext4PluginDescr σ)) : Prop where
  loads : ∀ d, vol.Leads ext4RootIno cs d →
    ∃ first descr, out = .ok (first, descr) ∧ descr.dirEntries.getD [] = vol.entries d ∧
      first.dir = (vol.entries d).find? isListed
  fails : (¬∃ d, vol.Leads ext4RootIno cs d) →
    ∃ first descr, out = .ok (first, descr) ∧ first.dir = none ∧
      ∀ e ∈ descr.dirEntries.getD [], isListed e = false

/-- The count of the plugin is that of its table. -/
def Sized {σ : Type} (descr : Ext4PluginDescr σ) : Prop :=
  ∀ dirs, descr.dirEntries = some dirs → descr.dirEntryNum = dirs.length

structure HasTable {σ : Type} (Inv : σ → Prop) (vol : Volume) (n : Nat)
    (descr : Ext4PluginDescr σ) :
    Prop where
  inv : Inv descr.hardDisks
  table : descr.dirEntries = some (vol.entries n)
  num : descr.dirEntryNum = (vol.entries n).length

structure HasNone {σ : Type} (Inv : σ → Prop) (descr : Ext4PluginDescr σ) : Prop where
  inv : Inv descr.hardDisks
  table : descr.dirEntries = none

section Code

variable {σ : Type} {parts : Partitions σ} {Inv : σ → Prop} {vol : Nat → Nat → Volume}
  {diskNo partNoMap : Nat}

theorem Sized.free {descr : Ext4PluginDescr σ} (h : Sized descr) :
    freeExt2DirEntries descr.dirEntries descr.dirEntryNum = .ok () := by
  unfold freeExt2DirEntries
  split
  next => rfl
  next dirs hdirs => rw [if_pos (Nat.le_of_eq (h dirs hdirs))]

theorem HasTable.sized {v : Volume} {n : Nat} {descr : Ext4PluginDescr σ}
    (h : HasTable Inv v n descr) :
    Sized descr := by
  intro dirs hdirs
  rw [h.table] at hdirs
  cases hdirs
  exact h.num

theorem HasTable.find {v : Volume} {n : Nat} {descr : Ext4PluginDescr σ}
    (h : HasTable Inv v n descr) (p : Ext4DirEntry2 → Bool) :
    ∃ r, findEntry descr.dirEntries p descr.dirEntryNum 0 = .ok r ∧
      r.map Prod.snd = (v.entries n).find? p := by
  rw [h.table, h.num]
  exact findEntry_some (Nat.zero_add _)

theorem HasTable.firstListed {v : Volume} {n : Nat} {descr : Ext4PluginDescr σ}
    (h : HasTable Inv v n descr) : ∃ first, firstListed descr = .ok first := by
  obtain ⟨r, hrun, hr⟩ := h.find isListed
  rw [Plugin.firstListed, hrun]
  cases r with
  | none => exact ⟨_, rfl⟩
  | some found => exact ⟨_, rfl⟩

theorem HasTable.dir_eq {v : Volume} {n : Nat} {descr : Ext4PluginDescr σ} {first : FirstEntry}
    (h : HasTable Inv v n descr) (hfirst : Plugin.firstListed descr = .ok first) :
    first.dir = (v.entries n).find? isListed := by
  obtain ⟨r, hrun, hr⟩ := h.find isListed
  rw [Plugin.firstListed, hrun] at hfirst
  cases r with
  | none =>
    cases hfirst
    exact hr
  | some found =>
    cases hfirst
    exact hr

variable (hs : Serves parts Inv vol) (hc : (vol diskNo partNoMap).Counted)
include hs

theorem load_error {descr : Ext4PluginDescr σ} (hi : Inv descr.hardDisks) (hsized : Sized descr)
    {n : Nat} {fault : Fault} (h : (vol diskNo partNoMap).load n = .error fault) :
    loadExt2DirEntry parts diskNo partNoMap descr n = .error fault := by
  have hcall := hs.dir descr.hardDisks hi diskNo partNoMap n
  rw [h] at hcall
  have hcall' : parts.getDirEntry descr.hardDisks diskNo partNoMap n = .error fault := hcall
  simp only [loadExt2DirEntry, hsized.free, hcall']

theorem load_none {descr : Ext4PluginDescr σ} (hi : Inv descr.hardDisks) (hsized : Sized descr)
    {n : Nat} {num : Option Nat} (h : (vol diskNo partNoMap).load n = .ok ⟨none, num⟩) :
    ∃ descr', loadExt2DirEntry parts diskNo partNoMap descr n = .ok (false, descr') ∧
      HasNone Inv descr' := by
  have hcall := hs.dir descr.hardDisks hi diskNo partNoMap n
  rw [h] at hcall
  obtain ⟨s', hcall, hi'⟩ := hcall
  simp only [loadExt2DirEntry, hsized.free, hcall]
  exact ⟨_, rfl, hi', rfl⟩

include hc

theorem load_some {descr : Ext4PluginDescr σ} (hi : Inv descr.hardDisks) (hsized : Sized descr)
    {n : Nat} {dirs : List Ext4DirEntry2} {num : Option Nat}
    (h : (vol diskNo partNoMap).load n = .ok ⟨some dirs, num⟩) :
    ∃ descr', loadExt2DirEntry parts diskNo partNoMap descr n = .ok (true, descr') ∧
      HasTable Inv (vol diskNo partNoMap) n descr' := by
  have hentries : (vol diskNo partNoMap).entries n = dirs := by
    rw [Volume.entries, h]
    rfl
  obtain rfl := hc n dirs num h
  have hcall := hs.dir descr.hardDisks hi diskNo partNoMap n
  rw [h] at hcall
  obtain ⟨s', hcall, hi'⟩ := hcall
  simp only [loadExt2DirEntry, hsized.free, hcall]
  exact ⟨_, rfl, hi', congrArg some hentries.symm, (congrArg List.length hentries.symm)⟩

/-- **The loop over the components is the loose walk.** -/
theorem enterComponents_looseWalk {cs : List (List UInt8)} (hcs : ∀ c ∈ cs, IsName c) {n : Nat}
    {descr : Ext4PluginDescr σ} (hat : HasTable Inv (vol diskNo partNoMap) n descr) (off : Nat) :
    match (vol diskNo partNoMap).looseWalk n cs with
    | .error fault => enterComponents parts diskNo partNoMap (placed off cs) descr = .error fault
    | .ok none => ∃ descr', enterComponents parts diskNo partNoMap (placed off cs) descr =
        .ok (false, descr') ∧ HasNone Inv descr'
    | .ok (some n') => ∃ descr', enterComponents parts diskNo partNoMap (placed off cs) descr =
        .ok (true, descr') ∧ HasTable Inv (vol diskNo partNoMap) n' descr' := by
  induction cs generalizing n descr off with
  | nil => exact ⟨descr, rfl, hat⟩
  | cons c cs ih =>
    have hrest : ∀ c ∈ cs, IsName c := fun c' hc' => hcs c' (List.mem_cons_of_mem _ hc')
    obtain ⟨r, hrun, hr⟩ := hat.find (isNamed c)
    rw [isNamed_eq (hcs c List.mem_cons_self).no_nul] at hr
    rw [placed, enterComponents, hrun, Volume.looseWalk]
    cases he : ((vol diskNo partNoMap).entries n).find? fun e => e.nameBytes == c with
    | none =>
      rw [he, Option.map_eq_none_iff] at hr
      subst hr
      exact ih hrest hat _
    | some e =>
      rw [he] at hr
      obtain ⟨⟨i, dir⟩, rfl, rfl⟩ := Option.map_eq_some_iff.mp hr
      simp only
      cases hload : (vol diskNo partNoMap).load dir.inode with
      | error fault =>
        simp only [load_error hs hat.inv hat.sized hload]
      | ok result =>
        obtain ⟨table, num⟩ := result
        cases table with
        | none =>
          obtain ⟨descr', hcall, hnone⟩ := load_none hs hat.inv hat.sized hload
          simp only [hcall]
          exact ⟨descr', rfl, hnone⟩
        | some dirs =>
          obtain ⟨descr', hcall, hat'⟩ := load_some hs hc hat.inv hat.sized hload
          simp only [hcall, Option.isSome_some, if_true]
          exact ih hrest hat' _

/-- From a root with entries, the call is the loose walk and the scan of its end. -/
theorem getFirstDirEntry_looseWalk {dev : List UInt8} (hdev : separator ∉ dev)
    {cs : List (List UInt8)} (hcs : ∀ c ∈ cs, IsName c) {descr : Ext4PluginDescr σ}
    (hi : Inv descr.hardDisks) (hsized : Sized descr) {dirs : List Ext4DirEntry2} {num : Option Nat}
    (hroot : (vol diskNo partNoMap).load ext4RootIno = .ok ⟨some dirs, num⟩) :
    match (vol diskNo partNoMap).looseWalk ext4RootIno cs with
    | .error fault => getFirstDirEntry parts diskNo partNoMap descr (devPath dev cs) = .error fault
    | .ok none => ∃ descr', getFirstDirEntry parts diskNo partNoMap descr (devPath dev cs) =
        .ok (⟨none, none⟩, descr') ∧ HasNone Inv descr'
    | .ok (some n) => ∃ first descr',
        getFirstDirEntry parts diskNo partNoMap descr (devPath dev cs) = .ok (first, descr') ∧
        HasTable Inv (vol diskNo partNoMap) n descr' ∧ firstListed descr' = .ok first := by
  obtain ⟨descr₁, hload, hat⟩ := load_some hs hc hi hsized hroot
  have hwalk := enterComponents_looseWalk hs hc hcs hat 0
  rw [getFirstDirEntry, hload, components_devPath hdev hcs]
  cases hend : (vol diskNo partNoMap).looseWalk ext4RootIno cs with
  | error fault =>
    rw [hend] at hwalk
    simp only [show enterComponents parts diskNo partNoMap
      (placed 0 cs) descr₁ = .error fault from hwalk]
  | ok n =>
    rw [hend] at hwalk
    cases n with
    | none =>
      obtain ⟨descr₂, hrun, hnone⟩ := hwalk
      simp only [hrun]
      exact ⟨descr₂, rfl, hnone⟩
    | some n =>
      obtain ⟨descr₂, hrun, hat₂⟩ := hwalk
      obtain ⟨first, hfirst⟩ := hat₂.firstListed
      simp only [hrun, hfirst]
      exact ⟨first, descr₂, rfl, hat₂, hfirst⟩

end Code

/-! ## When the call is right -/

section Exact

variable {vol : Volume} {cs : List (List UInt8)} {d d' : Nat}

theorem find_name (ht : vol.DirTree) (hd : vol.Directory d) {c : List UInt8} {e : Ext4DirEntry2}
    (hn : vol.Names d c e) : ((vol.entries d).find? fun e => e.nameBytes == c) = some e := by
  cases h : (vol.entries d).find? fun e => e.nameBytes == c with
  | none => exact absurd (beq_iff_eq.mpr hn.2) (List.find?_eq_none.mp h e hn.1)
  | some e' =>
    have hname := List.find?_some h
    rw [beq_iff_eq] at hname
    rw [ht.unique d hd e' (List.mem_of_find?_eq_some h) e hn.1 (hname.trans hn.2.symm)]

/-- From a directory without entries only the empty path leads anywhere. -/
theorem leads_of_empty (hempty : vol.entries d = []) (h : vol.Leads d cs d') : d' = d := by
  cases cs with
  | nil => exact h
  | cons c cs =>
    obtain ⟨e, ⟨⟨hmem, -⟩, -⟩, -⟩ := h
    rw [hempty] at hmem
    cases hmem

/-- In a tree a path that leads somewhere resolves. -/
theorem resolves_of_leads (ht : vol.DirTree) (hd : vol.Directory d) (h : vol.Leads d cs d') :
    vol.Resolves d cs d' := by
  induction cs generalizing d with
  | nil => exact ⟨h.symm, ht.loads d hd⟩
  | cons c cs ih =>
    obtain ⟨e, ⟨hn, htype⟩, hrest⟩ := h
    exact ⟨ht.loads d hd, e, find_name ht hd hn, htype, ih (.sub hd hn.1 htype) hrest⟩

/-- A path that resolves is walked to its directory, or to where its empty table is. -/
theorem looseWalk_of_resolves (h : vol.Resolves d cs d') :
    vol.looseWalk d cs = .ok (some d') ∨ vol.looseWalk d cs = .ok none ∧ vol.entries d' = [] := by
  induction cs generalizing d with
  | nil => exact .inl (congrArg (fun n => Except.ok (some n)) h.1)
  | cons c cs ih =>
    obtain ⟨-, e, he, -, hrest⟩ := h
    rw [Volume.looseWalk, he]
    simp only [hrest.load]
    cases hentries : vol.entries e.inode with
    | cons dir dirs => exact ih hrest
    | nil =>
      refine .inr ⟨rfl, ?_⟩
      cases cs with
      | nil => exact hrest.1 ▸ hentries
      | cons c' cs =>
        obtain ⟨-, e', he', -⟩ := hrest
        simp [hentries] at he'

/-- A call that ends without a table is right where nothing, or an empty directory, is named. -/
theorem exact_of_none {σ : Type} {Inv : σ → Prop} {descr : Ext4PluginDescr σ}
    (hnone : HasNone Inv descr) (h : ∀ d, vol.Leads ext4RootIno cs d → vol.entries d = []) :
    ExactDirectory vol cs (.ok (⟨none, none⟩, descr)) := by
  refine ⟨fun d hd => ⟨_, _, rfl, ?_, ?_⟩, fun _ => ⟨_, _, rfl, rfl, ?_⟩⟩
  · rw [hnone.table, h d hd, Option.getD_none]
  · rw [h d hd, List.find?_nil]
  · rw [hnone.table]
    exact nofun

/-- A call that ends with the table of `n` is right where the path leads there, or where
it leads nowhere and there is nothing to list. -/
theorem exact_of_table {σ : Type} {Inv : σ → Prop} {descr : Ext4PluginDescr σ} {first : FirstEntry}
    {n : Nat} (hat : HasTable Inv vol n descr) (hfirst : first.dir = (vol.entries n).find? isListed)
    (h : ∀ d, vol.Leads ext4RootIno cs d → n = d) :
    ExactDirectory vol cs (.ok (first, descr)) ↔
      (∃ d, vol.Leads ext4RootIno cs d) ∨ ∀ e ∈ vol.entries n, isListed e = false := by
  have hentries : descr.dirEntries.getD [] = vol.entries n := by rw [hat.table, Option.getD_some]
  constructor
  · intro hexact
    by_cases hleads : ∃ d, vol.Leads ext4RootIno cs d
    · exact .inl hleads
    · obtain ⟨_, _, hret, -, hlisted⟩ := hexact.fails hleads
      cases hret
      rw [hentries] at hlisted
      exact .inr hlisted
  · intro hwhen
    refine ⟨fun d hd => ⟨_, _, rfl, ?_, ?_⟩, fun hnot => ⟨_, _, rfl, ?_, ?_⟩⟩
    · rw [hentries, h d hd]
    · rw [hfirst, h d hd]
    · rw [hfirst, List.find?_eq_none]
      intro e he
      rw [hwhen.resolve_left hnot e he]
      exact Bool.false_ne_true
    · rw [hentries]
      exact hwhen.resolve_left hnot

theorem looseWalk_of_empty (hempty : vol.entries d = []) : vol.looseWalk d cs = .ok (some d) := by
  induction cs with
  | nil => rfl
  | cons c cs ih =>
    rw [Volume.looseWalk, hempty, List.find?_nil]
    exact ih

/-- A call that ends as the loose walk does is right in the cases that the walk tells. -/
theorem exact_iff_of_walk {σ : Type} {Inv : σ → Prop} (ht : vol.DirTree)
    {out : Except Fault (FirstEntry × Ext4PluginDescr σ)}
    (hrun : match vol.looseWalk ext4RootIno cs with
      | .error fault => out = .error fault
      | .ok none => ∃ descr, out = .ok (⟨none, none⟩, descr) ∧ HasNone Inv descr
      | .ok (some n) => ∃ first descr, out = .ok (first, descr) ∧ HasTable Inv vol n descr ∧
          firstListed descr = .ok first) :
    ExactDirectory vol cs out ↔
      (∃ d, vol.Leads ext4RootIno cs d) ∨ vol.looseWalk ext4RootIno cs = .ok none ∨
      ∃ n, vol.looseWalk ext4RootIno cs = .ok (some n) ∧
        ∀ e ∈ vol.entries n, isListed e = false := by
  have hleads : ∀ d, vol.Leads ext4RootIno cs d → vol.looseWalk ext4RootIno cs = .ok (some d) ∨
      vol.looseWalk ext4RootIno cs = .ok none ∧ vol.entries d = [] :=
    fun d h => looseWalk_of_resolves (resolves_of_leads ht .root h)
  cases hwalk : vol.looseWalk ext4RootIno cs with
  | error fault =>
    rw [hwalk] at hrun hleads
    subst hrun
    have hnowhere : ¬∃ d, vol.Leads ext4RootIno cs d := by
      rintro ⟨d, hd⟩
      obtain h | ⟨h, -⟩ := hleads d hd <;> cases h
    refine iff_of_false ?_ ?_
    · intro hexact
      obtain ⟨_, _, hret, -⟩ := hexact.fails hnowhere
      cases hret
    · rintro (h | h | ⟨n, h, -⟩)
      · exact hnowhere h
      · cases h
      · cases h
  | ok reached =>
    rw [hwalk] at hrun hleads
    cases reached with
    | none =>
      obtain ⟨descr', rfl, hnone⟩ := hrun
      refine iff_of_true (exact_of_none hnone ?_) (.inr (.inl rfl))
      intro d hd
      obtain h | ⟨-, h⟩ := hleads d hd
      · cases h
      · exact h
    | some n =>
      obtain ⟨first, descr', rfl, hat, hfirst⟩ := hrun
      have hthere : ∀ d, vol.Leads ext4RootIno cs d → n = d := by
        intro d hd
        obtain h | ⟨h, -⟩ := hleads d hd
        · cases h
          rfl
        · cases h
      rw [exact_of_table hat (hat.dir_eq hfirst) hthere]
      refine or_congr_right ⟨fun h => .inr ⟨n, rfl, h⟩, ?_⟩
      rintro (h | ⟨n', h, hlisted⟩)
      · cases h
      · cases h
        exact hlisted

end Exact

/-- **The call resolves its path exactly** when the path leads to a directory, and else
when its walk ends in a load without a table, or with nothing in it to list. -/
theorem get_first_dir_entry_exact_iff {σ : Type} {parts : Partitions σ} {Inv : σ → Prop}
    {vol : Nat → Nat → Volume} (hs : Serves parts Inv vol) (diskNo partNoMap : Nat)
    (hcount : (vol diskNo partNoMap).Counted) (ht : (vol diskNo partNoMap).DirTree)
    {dev : List UInt8} (hdev : separator ∉ dev) {cs : List (List UInt8)} (hcs : ∀ c ∈ cs, IsName c)
    (descr : Ext4PluginDescr σ) (hi : Inv descr.hardDisks) (hsized : Sized descr) :
    ExactDirectory (vol diskNo partNoMap) cs
        (getFirstDirEntry parts diskNo partNoMap descr (devPath dev cs)) ↔
      (∃ d, (vol diskNo partNoMap).Leads ext4RootIno cs d) ∨
      (vol diskNo partNoMap).looseWalk ext4RootIno cs = .ok none ∨
      ∃ n, (vol diskNo partNoMap).looseWalk ext4RootIno cs = .ok (some n) ∧
        ∀ e ∈ (vol diskNo partNoMap).entries n, isListed e = false := by
  have hroot := ht.loads _ .root
  cases hempty : (vol diskNo partNoMap).entries ext4RootIno with
  | nil =>
    rw [hempty] at hroot
    obtain ⟨descr', hload, hnone⟩ := load_none hs hi hsized hroot
    have hrun : getFirstDirEntry parts diskNo partNoMap descr (devPath dev cs) =
        .ok (⟨none, none⟩, descr') := by rw [getFirstDirEntry, hload]
    rw [hrun]
    refine iff_of_true (exact_of_none hnone ?_) (.inr (.inr ⟨_, looseWalk_of_empty hempty, ?_⟩))
    · intro d hd
      rw [leads_of_empty hempty hd, hempty]
    · rw [hempty]
      exact nofun
  | cons dir dirs =>
    rw [hempty] at hroot
    exact exact_iff_of_walk ht (getFirstDirEntry_looseWalk hs hcount hdev hcs hi hsized hroot)

def treeDescr : Ext4PluginDescr LinuxDisks := ⟨treeDisks, none, 0⟩

/-- `\sda1\a` is a directory. -/
theorem get_first_dir_entry_exact_tree :
    ExactDirectory treeVolume [[0x61]]
      (getFirstDirEntry (linuxPartitions treeEnv) 0 0 treeDescr (devPath sda1 [[0x61]])) :=
  (get_first_dir_entry_exact_iff treeDisks_serve 0 0
    (treeMount.counted treeEnv) treeVolume_dirTree
    (by decide) isName_a treeDescr treeDisks_mounted nofun).mpr (.inl ⟨3, treeVolume_leads_a⟩)

theorem not_exact_of_dir {σ : Type} {vol : Volume} {cs : List (List UInt8)}
    {out : Except Fault (FirstEntry × Ext4PluginDescr σ)} (hno : ¬∃ d, vol.Leads ext4RootIno cs d)
    (h : (out.map fun r => r.1.dir.isSome) = .ok true) : ¬ExactDirectory vol cs out := by
  intro hexact
  obtain ⟨first, descr, rfl, hdir, -⟩ := hexact.fails hno
  have hsome : first.dir.isSome = true := Except.ok.inj h
  rw [hdir] at hsome
  cases hsome

/-- `\sda1\x`, which is missing, lists the root; `\sda1\f`, a file, lists its data. -/
theorem missing_directory_listed :
    Mounted treeMounts treeDisks ∧ treeVolume.DirTree ∧
      ¬ExactDirectory treeVolume [[0x78]]
        (getFirstDirEntry (linuxPartitions treeEnv) 0 0 treeDescr (devPath sda1 [[0x78]])) ∧
      ¬ExactDirectory treeVolume [[0x66]]
        (getFirstDirEntry (linuxPartitions treeEnv) 0 0 treeDescr (devPath sda1 [[0x66]])) := by
  refine ⟨treeDisks_mounted, treeVolume_dirTree, not_exact_of_dir ?_ (by decide +kernel),
    not_exact_of_dir ?_ (by decide +kernel)⟩
  · rintro ⟨d, e, ⟨⟨he, hname⟩, -⟩, -⟩
    exact fields_all treeVolume_root (P := fun f => f.1 ≠ [0x78]) (by decide) he hname
  · rintro ⟨d, e, ⟨⟨he, hname⟩, htype⟩, -⟩
    exact fields_all treeVolume_root (P := fun f => f.1 = [0x66] → f.2.1 ≠ 2)
      (by decide) he hname htype

end Ext4tc.Plugin
