import Ext4tc.Lib.Representation
import Ext4tc.Plugin.Listing

/-! # The fast way to a directory

`get_first_dir_entry2` opens a directory from the table of the one before it: it takes the
last component of the path, or `..` where the path got shorter, and loads what this table
says. `FsFindFirst` keeps a branch for it, after which a comment wants it, and calls the
slow `get_first_dir_entry` there as well. The fast call agrees with the slow one on every
way through a tree that goes down to a child or up to the parent with each step. -/

namespace Ext4tc.Plugin
open Ext4tc.Lib Ext4tc.Fs Ext4tc.DiskUtils

/-- `current_path`. The copy has no terminator: what `strlen` counts goes on by the bytes
that stand behind it before the first zero. -/
structure CurrentPath where
  path : List UInt8
  slack : Nat

def CurrentPath.strlen (current : CurrentPath) : Nat := current.path.length + current.slack

structure Browser (σ : Type) where
  descr : Ext4PluginDescr σ
  current : Option CurrentPath

def parentName : List UInt8 := [0x2e, 0x2e]

section Code

variable {σ : Type} (parts : Partitions σ) (diskNo partNoMap : Nat)

/-- `get_first_dir_entry` along with `set_current_path`, which it calls when the root is
loaded. -/
def getFirstDirEntryAt (b : Browser σ) (path : List UInt8) (slack : Nat) :
    Except Fault (FirstEntry × Browser σ) :=
  match loadExt2DirEntry parts diskNo partNoMap b.descr ext4RootIno with
  | .error fault => .error fault
  | .ok (false, descr) => .ok (⟨none, none⟩, ⟨descr, b.current⟩)
  | .ok (true, descr) =>
    match enterComponents parts diskNo partNoMap (components path) descr with
    | .error fault => .error fault
    | .ok (false, descr) => .ok (⟨none, none⟩, ⟨descr, some ⟨path, slack⟩⟩)
    | .ok (true, descr) =>
      match firstListed descr with
      | .error fault => .error fault
      | .ok first => .ok (first, ⟨descr, some ⟨path, slack⟩⟩)

/-- What `get_first_dir_entry2` looks for in the table. -/
def wordToEnter (current : CurrentPath) (path : List UInt8) : Option (List UInt8) :=
  if path.length < current.strlen then some parentName
  else (strrchr separator path).map fun k => path.drop (k + 1)

/-- `get_first_dir_entry2`. Where no entry has the name, it returns the last one that it
looked at. -/
def getFirstDirEntry2 (b : Browser σ) (path : List UInt8) (slack : Nat) :
    Except Fault (FirstEntry × Browser σ) :=
  match b.current.bind fun current => wordToEnter current path with
  | none => .error .nullDeref
  | some word =>
    match findEntry b.descr.dirEntries (isNamed word) b.descr.dirEntryNum 0 with
    | .error fault => .error fault
    | .ok none =>
      .ok (⟨((b.descr.dirEntries.getD []).take b.descr.dirEntryNum).getLast?, some 0⟩, b)
    | .ok (some (_, dir)) =>
      match loadExt2DirEntry parts diskNo partNoMap b.descr dir.inode with
      | .error fault => .error fault
      | .ok (false, descr) => .ok (⟨none, none⟩, ⟨descr, b.current⟩)
      | .ok (true, descr) =>
        match firstListed descr with
        | .error fault => .error fault
        | .ok first => .ok (first, ⟨descr, some ⟨path, slack⟩⟩)

/-- Without its path it is `get_first_dir_entry`. -/
theorem getFirstDirEntryAt_descr (b : Browser σ) (path : List UInt8) (slack : Nat) :
    (getFirstDirEntryAt parts diskNo partNoMap b path slack).map (fun r => (r.1, r.2.descr)) =
      getFirstDirEntry parts diskNo partNoMap b.descr path := by
  unfold getFirstDirEntryAt getFirstDirEntry
  cases loadExt2DirEntry parts diskNo partNoMap b.descr ext4RootIno with
  | error fault => rfl
  | ok loaded =>
    obtain ⟨_ | _, descr⟩ := loaded
    · rfl
    · simp only
      cases enterComponents parts diskNo partNoMap (components path) descr with
      | error fault => rfl
      | ok entered =>
        obtain ⟨_ | _, descr'⟩ := entered
        · rfl
        · simp only
          cases firstListed descr' <;> rfl

end Code

/-! ## Ways through a tree -/

/-- A component that names something in its directory, not the directory or its parent. -/
structure IsChildName (c : List UInt8) : Prop extends IsName c where
  ne_self : c ≠ [0x2e]
  ne_parent : c ≠ parentName

/-- A tree in which each child has the entry for the way up. -/
structure Volume.Walkable (vol : Volume) : Prop extends vol.DirTree where
  counted : vol.Counted
  dotted : ∀ d c e, vol.Directory d → IsChildName c → vol.DirAt d c e →
    ∃ up, vol.Names e.inode parentName up ∧ up.inode = d

/-- Where a path is on the machine. -/
structure Place where
  diskNo : Nat
  partNoMap : Nat
  dev : List UInt8
  cs : List (List UInt8)

def Place.path (place : Place) : List UInt8 := devPath place.dev place.cs

def Place.child (place : Place) (c : List UInt8) : Place := { place with cs := place.cs ++ [c] }

/-- The path of the place leads to directory `d` of a tree. -/
structure Place.Opens (vol : Nat → Nat → Volume) (place : Place) (d : Nat) : Prop where
  tree : (vol place.diskNo place.partNoMap).Walkable
  dev : separator ∉ place.dev
  names : ∀ c ∈ place.cs, IsChildName c
  leads : (vol place.diskNo place.partNoMap).Leads ext4RootIno place.cs d

/-- What is opened next: the list of the devices, or a directory, whose path comes to stand
before `slack` bytes that are not zero. -/
inductive Visit
  | devices
  | dir (place : Place) (slack : Nat)

/-- The steps of a way: from the list of the devices to any directory, from a directory down
to a child or up to its parent, and from anywhere back to the list. On the way down the
bytes behind the path must not make it longer than the next one. -/
inductive Move (vol : Nat → Nat → Volume) : Option (Place × Nat) → Visit → Option (Place × Nat) →
    Prop
  | devices {g} : Move vol g .devices none
  | first {place slack d} (h : place.Opens vol d) :
      Move vol none (.dir place slack) (some (place, slack))
  | down {place : Place} {slack c slack' d} (h : (place.child c).Opens vol d)
      (hslack : slack ≤ c.length + 1) :
      Move vol (some (place, slack)) (.dir (place.child c) slack') (some (place.child c, slack'))
  | up {place : Place} {c slack slack'} :
      Move vol (some (place.child c, slack)) (.dir place slack') (some (place, slack'))

namespace Volume

variable {vol : Volume}

theorem leads_concat {n d : Nat} {cs : List (List UInt8)} {c : List UInt8}
    (h : vol.Leads n (cs ++ [c]) d) :
    ∃ m e, vol.Leads n cs m ∧ vol.DirAt m c e ∧ e.inode = d := by
  induction cs generalizing n with
  | nil =>
    obtain ⟨e, he, hd⟩ := h
    exact ⟨n, e, rfl, he, hd.symm⟩
  | cons c' cs ih =>
    obtain ⟨e', he', hrest⟩ := h
    obtain ⟨m, e, hleads, he, hd⟩ := ih hrest
    exact ⟨m, e, ⟨e', he', hleads⟩, he, hd⟩

theorem leads_unique (ht : vol.DirTree) {n d d' : Nat} {cs : List (List UInt8)}
    (hn : vol.Directory n) (h : vol.Leads n cs d) (h' : vol.Leads n cs d') : d = d' := by
  induction cs generalizing n with
  | nil => exact h.trans h'.symm
  | cons c cs ih =>
    obtain ⟨e, ⟨⟨he, hname⟩, htype⟩, hrest⟩ := h
    obtain ⟨e', ⟨⟨he', hname'⟩, -⟩, hrest'⟩ := h'
    obtain rfl := ht.unique n hn e he e' he' (hname.trans hname'.symm)
    exact ih (.sub hn he htype) hrest hrest'

end Volume

namespace Place.Opens

variable {vol : Nat → Nat → Volume} {place : Place} {c : List UInt8} {d : Nat}

theorem parent (h : (place.child c).Opens vol d) :
    IsChildName c ∧ ∃ m e, place.Opens vol m ∧
      (vol place.diskNo place.partNoMap).DirAt m c e ∧ e.inode = d := by
  obtain ⟨m, e, hleads, he, hd⟩ := Volume.leads_concat h.leads
  refine ⟨h.names c (List.mem_append_right _ (List.mem_singleton_self c)), m, e, ?_, he, hd⟩
  exact ⟨h.tree, h.dev, fun c' hc' => h.names c' (List.mem_append_left _ hc'), hleads⟩

theorem root_entries (h : (place.child c).Opens vol d) :
    (vol place.diskNo place.partNoMap).entries ext4RootIno ≠ [] := by
  have hleads : (vol place.diskNo place.partNoMap).Leads ext4RootIno (place.cs ++ [c]) d := h.leads
  intro hempty
  cases hcs : place.cs ++ [c] with
  | nil => exact absurd hcs (by simp)
  | cons c' cs =>
    rw [hcs] at hleads
    obtain ⟨e, ⟨⟨he, -⟩, -⟩, -⟩ := hleads
    rw [hempty] at he
    cases he

theorem directory (h : place.Opens vol d) :
    (vol place.diskNo place.partNoMap).Directory d := leads_directory .root h.leads

theorem entries_ne_nil (h : place.Opens vol d)
    (hroot : (vol place.diskNo place.partNoMap).entries ext4RootIno ≠ []) :
    (vol place.diskNo place.partNoMap).entries d ≠ [] := by
  obtain ⟨diskNo, partNoMap, dev, cs⟩ := place
  rcases List.eq_nil_or_concat' cs with rfl | ⟨cs, c, rfl⟩
  · obtain rfl : d = ext4RootIno := h.leads
    exact hroot
  · have hchild : (Place.child ⟨diskNo, partNoMap, dev, cs⟩ c).Opens vol d := h
    obtain ⟨hc, m, e, hm, he, rfl⟩ := hchild.parent
    obtain ⟨up, ⟨hup, -⟩, -⟩ := h.tree.dotted m c e hm.directory hc he
    exact List.ne_nil_of_mem hup

theorem isNames (h : place.Opens vol d) : ∀ c ∈ place.cs, IsName c :=
  fun c hc => (h.names c hc).toIsName

end Place.Opens

/-! ## The two calls -/

/-- The plugin has the table and the path of the place. -/
structure StandsAt {σ : Type} (Inv : σ → Prop) (vol : Nat → Nat → Volume) (place : Place)
    (slack d : Nat) (b : Browser σ) : Prop where
  current : b.current = some ⟨place.path, slack⟩
  table : HasTable Inv (vol place.diskNo place.partNoMap) d b.descr

section Calls

variable {σ : Type} {parts : Partitions σ} {Inv : σ → Prop} {vol : Nat → Nat → Volume}
  {place : Place} {d : Nat} {b : Browser σ}

/-- The scan sees nothing but the table. -/
theorem HasTable.firstListed_eq {v : Volume} {n : Nat} {descr descr' : Ext4PluginDescr σ}
    (h : HasTable Inv v n descr) (h' : HasTable Inv v n descr') :
    Plugin.firstListed descr = Plugin.firstListed descr' := by
  rw [Plugin.firstListed, Plugin.firstListed, h.table, h.num, h'.table, h'.num]

theorem Place.path_child (place : Place) (c : List UInt8) :
    (place.child c).path = place.path ++ separator :: c :=
  (devPath_append place.dev place.cs c).symm

/-- A path with fewer bytes behind it than the next component takes is not longer than the
next path. -/
theorem wordToEnter_child {c : List UInt8} (hc : separator ∉ c) {slack : Nat}
    (hslack : slack ≤ c.length + 1) :
    wordToEnter ⟨place.path, slack⟩ (place.child c).path = some c := by
  have hlonger : ¬(place.path ++ separator :: c).length < place.path.length + slack := by
    rw [List.length_append, List.length_cons]
    omega
  rw [wordToEnter, Place.path_child, CurrentPath.strlen, if_neg hlonger, strrchr_append hc,
    Option.map_some, ← List.drop_drop, List.drop_left]
  rfl

theorem wordToEnter_parent (c : List UInt8) (slack : Nat) :
    wordToEnter ⟨(place.child c).path, slack⟩ place.path = some parentName := by
  have hshorter : place.path.length < (place.path ++ separator :: c).length + slack := by
    rw [List.length_append, List.length_cons]
    omega
  rw [wordToEnter, Place.path_child, CurrentPath.strlen, if_pos hshorter]

variable (hs : Serves parts Inv vol)
include hs

/-- **The fast call** goes where the table says that the word leads. -/
theorem getFirstDirEntry2_enters {diskNo partNoMap n : Nat} {current : CurrentPath}
    {path word : List UInt8} (hcurrent : b.current = some current)
    (hcount : (vol diskNo partNoMap).Counted)
    (htable : HasTable Inv (vol diskNo partNoMap) n b.descr)
    (hword : wordToEnter current path = some word) (hnul : (0 : UInt8) ∉ word) {e : Ext4DirEntry2}
    (he : ((vol diskNo partNoMap).entries n).find? (fun e => e.nameBytes == word) = some e)
    (hne : (vol diskNo partNoMap).entries e.inode ≠ []) (slack : Nat) :
    ∃ first b', getFirstDirEntry2 parts diskNo partNoMap b path slack = .ok (first, b') ∧
      b'.current = some ⟨path, slack⟩ ∧
      HasTable Inv (vol diskNo partNoMap) e.inode b'.descr ∧
      firstListed b'.descr = .ok first := by
  obtain ⟨r, hrun, hr⟩ := htable.find (isNamed word)
  rw [isNamed_eq hnul, he] at hr
  obtain ⟨⟨i, dir⟩, rfl, rfl⟩ := Option.map_eq_some_iff.mp hr
  obtain ⟨entry, entries, hentries⟩ := List.exists_cons_of_ne_nil hne
  have hload := Volume.loads_of_entries hcount hne
  rw [hentries] at hload
  obtain ⟨descr', hcall, htable'⟩ := load_some hs hcount htable.inv htable.sized hload
  obtain ⟨first, hfirst⟩ := htable'.firstListed
  refine ⟨first, ⟨descr', some ⟨path, slack⟩⟩, ?_, rfl, htable', hfirst⟩
  rw [getFirstDirEntry2, hcurrent, Option.bind_some, hword]
  simp only [hrun, hcall, hfirst]

/-- **The slow call** goes to the directory, -/
theorem getFirstDirEntryAt_opens (hopens : place.Opens vol d) (hready : Ready Inv b.descr)
    (hroot : (vol place.diskNo place.partNoMap).entries ext4RootIno ≠ []) (slack : Nat) :
    ∃ first b', getFirstDirEntryAt parts place.diskNo place.partNoMap b place.path slack =
        .ok (first, b') ∧ StandsAt Inv vol place slack d b' ∧
      firstListed b'.descr = .ok first := by
  have hcount := hopens.tree.counted
  have hload := Volume.loads_of_entries hcount hroot
  obtain ⟨entry, entries, hentries⟩ := List.exists_cons_of_ne_nil hroot
  rw [hentries] at hload
  obtain ⟨descr₁, hcall, htable⟩ := load_some hs hcount hready.inv hready.sized hload
  have hwalk := enterComponents_looseWalk hs hcount hopens.isNames htable 0
  have hres := resolves_of_leads hopens.tree.toDirTree .root hopens.leads
  obtain hend | ⟨-, hempty⟩ := looseWalk_of_resolves hres
  · rw [hend] at hwalk
    obtain ⟨descr', hrun, htable'⟩ := hwalk
    obtain ⟨first, hfirst⟩ := htable'.firstListed
    refine ⟨first, ⟨descr', some ⟨place.path, slack⟩⟩, ?_, ⟨rfl, htable'⟩, hfirst⟩
    rw [getFirstDirEntryAt, hcall, Place.path, components_devPath hopens.dev hopens.isNames]
    simp only [hrun, hfirst]
  · exact absurd hempty (hopens.entries_ne_nil hroot)

theorem getFirstDirEntryAt_empty (hopens : place.Opens vol d) (hready : Ready Inv b.descr)
    (hroot : (vol place.diskNo place.partNoMap).entries ext4RootIno = []) (slack : Nat) :
    ∃ descr', getFirstDirEntryAt parts place.diskNo place.partNoMap b place.path slack =
      .ok (⟨none, none⟩, ⟨descr', b.current⟩) ∧ HasNone Inv descr' := by
  have hload := hopens.tree.loads _ .root
  rw [hroot] at hload
  obtain ⟨descr', hcall, hnone⟩ := load_none hs hready.inv hready.sized hload
  refine ⟨descr', ?_, hnone⟩
  rw [getFirstDirEntryAt, hcall]

end Calls

/-! ## The two ways -/

/-- What a visit shows: what the call returns, the table in which `FsFindNext` goes on, and
the path. -/
structure Seen where
  first : FirstEntry
  entries : Option (List Ext4DirEntry2)
  current : Option CurrentPath

section Visits

variable {σ : Type} (parts : Partitions σ)

def seen (r : FirstEntry × Browser σ) : Option Seen × Browser σ :=
  (some ⟨r.1, r.2.descr.dirEntries, r.2.current⟩, r.2)

/-- What `FsFindFirst` does: `clear_current_path` for the list of the devices, and the slow
call whether there is a path or not. -/
def Browser.visit (b : Browser σ) : Visit → Except Fault (Option Seen × Browser σ)
  | .devices => .ok (none, { b with current := none })
  | .dir place slack =>
    (getFirstDirEntryAt parts place.diskNo place.partNoMap b place.path slack).map seen

/-- The same with the fast call where there is a path. -/
def Browser.visitFast (b : Browser σ) : Visit → Except Fault (Option Seen × Browser σ)
  | .devices => .ok (none, { b with current := none })
  | .dir place slack =>
    if b.current.isNone then
      (getFirstDirEntryAt parts place.diskNo place.partNoMap b place.path slack).map seen
    else (getFirstDirEntry2 parts place.diskNo place.partNoMap b place.path slack).map seen

def slowVisits : ClientSystem (Browser σ) Unit Visit (Option Seen) Fault :=
  ⟨fun _ => (), fun b visit => b.visit parts visit⟩

def fastVisits : ClientSystem (Browser σ) Unit Visit (Option Seen) Fault :=
  ⟨fun _ => (), fun b visit => b.visitFast parts visit⟩

end Visits

/-! ## Along a way -/

/-- The two plugins on their way: in front of the list, or in the same place. -/
inductive Together {σ : Type} (Inv : σ → Prop) (vol : Nat → Nat → Volume) :
    Option (Place × Nat) → Browser σ → Browser σ → Prop
  | away {g b b'} (hready : Ready Inv b.descr) (hready' : Ready Inv b'.descr)
      (hpath : b.current = none) (hpath' : b'.current = none)
      (hopens : ∀ place slack, g = some (place, slack) → ∃ d, place.Opens vol d) :
      Together Inv vol g b b'
  | at {place slack d b b'} (hopens : place.Opens vol d) (hat : StandsAt Inv vol place slack d b)
      (hat' : StandsAt Inv vol place slack d b') : Together Inv vol (some (place, slack)) b b'

section Way

variable {σ : Type} {parts : Partitions σ} {Inv : σ → Prop} {vol : Nat → Nat → Volume}
  {place : Place} {slack d : Nat} {b b' : Browser σ}

/-- Two calls that come to the same place show the same. -/
theorem tracks_at {first first' : FirstEntry} {x y : Except Fault (FirstEntry × Browser σ)}
    (hx : x = .ok (first, b)) (hy : y = .ok (first', b')) (hopens : place.Opens vol d)
    (hat : StandsAt Inv vol place slack d b) (hat' : StandsAt Inv vol place slack d b')
    (hfirst : firstListed b.descr = .ok first) (hfirst' : firstListed b'.descr = .ok first') :
    Tracks (Together Inv vol (some (place, slack))) (x.map seen) (y.map seen) := by
  subst hx hy
  obtain rfl : first = first' := by
    rw [hat.table.firstListed_eq hat'.table, hfirst'] at hfirst
    exact (Except.ok.inj hfirst).symm
  refine .inr ⟨_, b, b', rfl, ?_, .at hopens hat hat'⟩
  simp only [Except.map, seen, hat.table.table, hat'.table.table, hat.current, hat'.current]

variable (hs : Serves parts Inv vol)
include hs

theorem slow_tracks (hopens : place.Opens vol d) (hready : Ready Inv b.descr)
    (hready' : Ready Inv b'.descr) (hpath : b.current = none) (hpath' : b'.current = none)
    (slack : Nat) :
    Tracks (Together Inv vol (some (place, slack)))
      ((getFirstDirEntryAt parts place.diskNo place.partNoMap b place.path slack).map seen)
      ((getFirstDirEntryAt parts place.diskNo place.partNoMap b' place.path slack).map seen) := by
  by_cases hroot : (vol place.diskNo place.partNoMap).entries ext4RootIno = []
  · obtain ⟨descr, hrun, hnone⟩ := getFirstDirEntryAt_empty hs hopens hready hroot slack
    obtain ⟨descr', hrun', hnone'⟩ := getFirstDirEntryAt_empty hs hopens hready' hroot slack
    rw [hrun, hrun', hpath, hpath']
    refine .inr ⟨_, ⟨descr, none⟩, ⟨descr', none⟩, rfl, ?_,
      .away hnone.ready hnone'.ready rfl rfl ?_⟩
    · simp only [Except.map, seen, hnone.table, hnone'.table]
    · intro place' slack' hg
      cases hg
      exact ⟨d, hopens⟩
  · obtain ⟨first, c, hrun, hat, hfirst⟩ := getFirstDirEntryAt_opens hs hopens hready hroot slack
    obtain ⟨first', c', hrun', hat', hfirst'⟩ :=
      getFirstDirEntryAt_opens hs hopens hready' hroot slack
    exact tracks_at hrun hrun' hopens hat hat' hfirst hfirst'

theorem down_tracks {c : List UInt8} {m : Nat} (hopens : place.Opens vol m)
    (hchild : (place.child c).Opens vol d) (hslack : slack ≤ c.length + 1)
    (hat : StandsAt Inv vol place slack m b) (hat' : StandsAt Inv vol place slack m b')
    (slack' : Nat) :
    Tracks (Together Inv vol (some (place.child c, slack')))
      ((getFirstDirEntryAt parts place.diskNo place.partNoMap b (place.child c).path slack').map
        seen)
      ((getFirstDirEntry2 parts place.diskNo place.partNoMap b' (place.child c).path slack').map
        seen) := by
  have ht := hchild.tree.toDirTree
  obtain ⟨hc, m', e, hm, he, rfl⟩ := hchild.parent
  obtain rfl := Volume.leads_unique ht .root hopens.leads hm.leads
  have hfind := find_name ht hopens.directory he.1
  obtain ⟨first, a, hrun, hata, hfirst⟩ :=
    getFirstDirEntryAt_opens hs hchild hat.table.ready hchild.root_entries slack'
  obtain ⟨first', a', hrun', hpath, htable, hfirst'⟩ :=
    getFirstDirEntry2_enters hs hat'.current hchild.tree.counted hat'.table
      (wordToEnter_child hc.no_sep hslack) hc.no_nul hfind
      (hchild.entries_ne_nil hchild.root_entries) slack'
  exact tracks_at hrun hrun' hchild hata ⟨hpath, htable⟩ hfirst hfirst'

theorem up_tracks {c : List UInt8} (hchild : (place.child c).Opens vol d)
    (hat : StandsAt Inv vol (place.child c) slack d b)
    (hat' : StandsAt Inv vol (place.child c) slack d b') (slack' : Nat) :
    Tracks (Together Inv vol (some (place, slack')))
      ((getFirstDirEntryAt parts place.diskNo place.partNoMap b place.path slack').map seen)
      ((getFirstDirEntry2 parts place.diskNo place.partNoMap b' place.path slack').map seen) := by
  have ht := hchild.tree.toDirTree
  obtain ⟨hc, m, e, hm, he, rfl⟩ := hchild.parent
  obtain ⟨up, hup, rfl⟩ := hchild.tree.dotted m c e hm.directory hc he
  have hfind := find_name ht hchild.directory hup
  obtain ⟨first, a, hrun, hata, hfirst⟩ :=
    getFirstDirEntryAt_opens hs hm hat.table.ready hchild.root_entries slack'
  obtain ⟨first', a', hrun', hpath, htable, hfirst'⟩ :=
    getFirstDirEntry2_enters hs hat'.current hchild.tree.counted hat'.table
      (wordToEnter_parent c slack) (by decide) hfind (hm.entries_ne_nil hchild.root_entries) slack'
  exact tracks_at hrun hrun' hm hata ⟨hpath, htable⟩ hfirst hfirst'

/-- **Each step of a way** shows the same, fast or slow. -/
theorem visit_tracks {g g' : Option (Place × Nat)} {visit : Visit} (h : Together Inv vol g b b')
    (hmove : Move vol g visit g') :
    Tracks (Together Inv vol g') ((slowVisits parts).step b visit)
      ((fastVisits parts).step b' visit) := by
  cases hmove with
  | devices =>
    refine .ok (.away ?_ ?_ rfl rfl nofun)
    · cases h with
      | away hready => exact hready
      | «at» hopens hat hat' => exact hat.table.ready
    · cases h with
      | away hready hready' => exact hready'
      | «at» hopens hat hat' => exact hat'.table.ready
  | first hopens =>
    cases h with
    | away hready hready' hpath hpath' =>
      have hslow : b'.current.isNone = true := by rw [hpath']; rfl
      simp only [slowVisits, fastVisits, Browser.visit, Browser.visitFast, hslow, if_true]
      exact slow_tracks hs hopens hready hready' hpath hpath' _
  | down hchild hslack =>
    cases h with
    | away hready hready' hpath hpath' =>
      have hslow : b'.current.isNone = true := by rw [hpath']; rfl
      simp only [slowVisits, fastVisits, Browser.visit, Browser.visitFast, hslow, if_true]
      exact slow_tracks hs hchild hready hready' hpath hpath' _
    | «at» hopens hat hat' =>
      have hfast : ¬b'.current.isNone = true := by rw [hat'.current]; exact Bool.false_ne_true
      simp only [slowVisits, fastVisits, Browser.visit, Browser.visitFast, if_neg hfast]
      exact down_tracks hs hopens hchild hslack hat hat' _
  | up =>
    cases h with
    | away hready hready' hpath hpath' hopens =>
      obtain ⟨d, hchild⟩ := hopens _ _ rfl
      obtain ⟨-, m, e, hm, -⟩ := hchild.parent
      have hslow : b'.current.isNone = true := by rw [hpath']; rfl
      simp only [slowVisits, fastVisits, Browser.visit, Browser.visitFast, hslow, if_true]
      exact slow_tracks hs hm hready hready' hpath hpath' _
    | «at» hchild hat hat' =>
      have hfast : ¬b'.current.isNone = true := by rw [hat'.current]; exact Bool.false_ne_true
      simp only [slowVisits, fastVisits, Browser.visit, Browser.visitFast, if_neg hfast]
      exact up_tracks hs hchild hat hat' _

end Way

/-- **The fast calls show what the slow ones show** along every way of single steps, wherever
the table of the plugin was before it. -/
theorem fast_visits_agree {σ : Type} {parts : Partitions σ} {Inv : σ → Prop}
    {vol : Nat → Nat → Volume} (hs : Serves parts Inv vol) {b : Browser σ}
    (hready : Ready Inv b.descr) (hpath : b.current = none) {visits : List Visit}
    (hway : ClientSystem.Along (Move vol) none visits) :
    (fastVisits parts).run b visits = (slowVisits parts).run b visits := by
  have htogether : Together Inv vol none b b :=
    .away hready hready hpath hpath fun _ _ h => by cases h
  have hwho : (slowVisits parts).who = (fastVisits parts).who := rfl
  have hstep : ∀ g b b' visit g', Together Inv vol g b b' → Move vol g visit g' →
      Tracks (Together Inv vol g') ((slowVisits parts).step b visit)
        ((fastVisits parts).step b' visit) :=
    fun _ _ _ _ _ h hmove => visit_tracks hs h hmove
  exact (ClientSystem.run_eq_along hwho hstep htogether hway).symm

/-! ## Down to `a` and back -/

theorem treeVolume_walkable : treeVolume.Walkable := by
  refine ⟨treeVolume_dirTree, treeMount.counted treeEnv, ?_⟩
  intro d c e hd hc ⟨⟨he, hname⟩, htype⟩
  subst hname
  obtain rfl | rfl := treeVolume_directory hd
  · have hinode : e.inode = 3 :=
      fields_all treeVolume_root
        (P := fun f => f.2.1 = 2 → f.1 ≠ [0x2e] → f.1 ≠ parentName → f.2.2 = 3)
        (by decide) he htype hc.ne_self hc.ne_parent
    obtain ⟨up, hup, hupName, -, hupInode⟩ :=
      exists_of_fields treeVolume_a (f := (parentName, 2, 2)) (by decide)
    rw [hinode]
    exact ⟨up, ⟨hup, hupName⟩, hupInode⟩
  · have hdots : e.nameBytes = [0x2e] ∨ e.nameBytes = parentName :=
      fields_all treeVolume_a (P := fun f => f.2.1 = 2 → f.1 = [0x2e] ∨ f.1 = parentName)
        (by decide) he htype
    exact absurd hdots (not_or.mpr ⟨hc.ne_self, hc.ne_parent⟩)

/-- `\sda1`, and the directory in it. -/
def treeRootPlace : Place := ⟨0, 0, sda1, []⟩

theorem treePlaces_open : treeRootPlace.Opens (linuxVolume treeMounts treeEnv) 2 ∧
    (treeRootPlace.child [0x61]).Opens (linuxVolume treeMounts treeEnv) 3 := by
  refine ⟨⟨treeVolume_walkable, by decide, nofun, rfl⟩,
    ⟨treeVolume_walkable, by decide, ?_, treeVolume_leads_a⟩⟩
  intro c hc
  rw [List.mem_singleton.mp hc]
  exact ⟨isName_singleton (by decide) (by decide), by decide, by decide⟩

/-- Into `a`, up again, to the list of the devices, and to `a` at once. -/
theorem fast_visits_agree_tree :
    (fastVisits (linuxPartitions treeEnv)).run ⟨treeDescr, none⟩
        [.dir treeRootPlace 2, .dir (treeRootPlace.child [0x61]) 7, .dir treeRootPlace 0, .devices,
          .dir (treeRootPlace.child [0x61]) 1] =
      (slowVisits (linuxPartitions treeEnv)).run ⟨treeDescr, none⟩
        [.dir treeRootPlace 2, .dir (treeRootPlace.child [0x61]) 7, .dir treeRootPlace 0, .devices,
          .dir (treeRootPlace.child [0x61]) 1] :=
  fast_visits_agree treeDisks_serve treeSearch_ready rfl
    ⟨_, .first treePlaces_open.1, _, .down treePlaces_open.2 (by decide), _, .up, _, .devices, _,
      .first treePlaces_open.2, trivial⟩

end Ext4tc.Plugin
