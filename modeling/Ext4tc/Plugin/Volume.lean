import Ext4tc.Plugin.Ext4PluginDescr

/-! # Directory trees

What a path should mean. A volume answers inode numbers with directory tables and
inodes, whatever is cached; its directories are the root and what directory entries
lead to. Partitions serve a volume when every call answers as it does and leaves them
in a state in which they still serve it. -/

namespace Ext4tc.Plugin
open Ext4tc.Lib Ext4tc.Fs Ext4tc.DiskUtils

structure Volume where
  load : Nat → Except Fault DirResult
  inode : Nat → Except Fault (Option Ext4Inode)

/-- The answer `r`, along with a next state that satisfies `Inv`. -/
def Answers {α σ : Type} (Inv : σ → Prop) (x : Except Fault (α × σ)) : Except Fault α → Prop
  | .error fault => x = .error fault
  | .ok a => ∃ s, x = .ok (a, s) ∧ Inv s

structure Serves {σ : Type} (parts : Partitions σ) (Inv : σ → Prop) (vol : Nat → Nat → Volume) :
    Prop where
  dir : ∀ s, Inv s → ∀ diskNo partNoMap n,
    Answers Inv (parts.getDirEntry s diskNo partNoMap n) ((vol diskNo partNoMap).load n)
  inode : ∀ s, Inv s → ∀ diskNo partNoMap n,
    Answers Inv (parts.getExt4Inode s diskNo partNoMap n) ((vol diskNo partNoMap).inode n)

/-- How `get_dir_entry` returns `dirs`. -/
def dirTable (dirs : List Ext4DirEntry2) : DirResult :=
  ⟨if dirs.isEmpty then none else some dirs, some dirs.length⟩

namespace Volume

variable (vol : Volume)

/-- The entries of a directory; none where the load fails. -/
def entries (n : Nat) : List Ext4DirEntry2 :=
  match vol.load n with
  | .ok result => result.table.getD []
  | .error _ => []

/-- The entry of directory `d` that `c` names. -/
def Names (d : Nat) (c : List UInt8) (e : Ext4DirEntry2) : Prop :=
  e ∈ vol.entries d ∧ e.nameBytes = c

def DirAt (d : Nat) (c : List UInt8) (e : Ext4DirEntry2) : Prop :=
  vol.Names d c e ∧ e.fileType = ext4FtDir

def FileAt (d : Nat) (c : List UInt8) (e : Ext4DirEntry2) : Prop :=
  vol.Names d c e ∧ e.fileType = ext4FtRegFile

/-- Components lead from directory to directory. -/
def Leads : Nat → List (List UInt8) → Nat → Prop
  | d, [], d' => d' = d
  | d, c :: cs, d' => ∃ e, vol.DirAt d c e ∧ Leads e.inode cs d'

def Counted : Prop := ∀ n dirs num, vol.load n = .ok ⟨some dirs, num⟩ → num = some dirs.length

/-- Components lead from record to record: the first record of each name is a directory,
and all tables on the way can be loaded. -/
def Resolves : Nat → List (List UInt8) → Nat → Prop
  | n, [], d => n = d ∧ vol.load n = .ok (dirTable (vol.entries n))
  | n, c :: cs, d => vol.load n = .ok (dirTable (vol.entries n)) ∧
      ∃ e, ((vol.entries n).find? fun e => e.nameBytes == c) = some e ∧
        e.fileType = ext4FtDir ∧ Resolves e.inode cs d

inductive Directory : Nat → Prop
  | root : Directory ext4RootIno
  | sub {d : Nat} {e : Ext4DirEntry2} (hd : Directory d) (he : e ∈ vol.entries d)
      (htype : e.fileType = ext4FtDir) : Directory e.inode

/-- All reads succeed, names are unique in each directory, and no record is deleted. -/
structure DirTree : Prop where
  loads : ∀ d, vol.Directory d → vol.load d = .ok (dirTable (vol.entries d))
  unique : ∀ d, vol.Directory d → ∀ e ∈ vol.entries d, ∀ e' ∈ vol.entries d,
    e.nameBytes = e'.nameBytes → e = e'
  live : ∀ d, vol.Directory d → ∀ e ∈ vol.entries d, e.inode ≠ 0
  files : ∀ d, vol.Directory d → ∀ e ∈ vol.entries d, e.fileType = ext4FtRegFile →
    ∃ inode, vol.inode e.inode = .ok (some inode)

variable {vol}

theorem Resolves.load {n d : Nat} {cs : List (List UInt8)} (h : vol.Resolves n cs d) :
    vol.load n = .ok (dirTable (vol.entries n)) := by
  cases cs with
  | nil => exact h.2
  | cons c cs => exact h.1

theorem loads_of_entries (hc : vol.Counted) {d : Nat} (h : vol.entries d ≠ []) :
    vol.load d = .ok (dirTable (vol.entries d)) := by
  unfold entries at h ⊢
  cases hload : vol.load d with
  | error fault =>
    rw [hload] at h
    exact absurd rfl h
  | ok result =>
    obtain ⟨table, num⟩ := result
    cases table with
    | none =>
      rw [hload] at h
      exact absurd rfl h
    | some dirs =>
      rw [hload] at h
      obtain ⟨dir, dirs, rfl⟩ := List.exists_cons_of_ne_nil h
      rw [hc d _ num hload]
      rfl

end Volume

structure IsName (c : List UInt8) : Prop extends IsComponent separator c where
  no_nul : (0 : UInt8) ∉ c

def devPath (dev : List UInt8) (cs : List (List UInt8)) : List UInt8 :=
  separator :: (dev ++ joinPath separator cs)

/-! ## Tables -/

theorem findEntry_some {dirs : List Ext4DirEntry2} {p : Ext4DirEntry2 → Bool} {k i : Nat}
    (h : i + k = dirs.length) :
    ∃ r, findEntry (some dirs) p k i = .ok r ∧ r.map Prod.snd = (dirs.drop i).find? p := by
  induction k generalizing i with
  | zero => exact ⟨none, rfl, by rw [List.drop_of_length_le (by omega)]; rfl⟩
  | succ k ih =>
    have hi : i < dirs.length := by omega
    obtain ⟨r, hrun, hr⟩ := ih (i := i + 1) (by omega)
    rw [findEntry, List.drop_eq_getElem_cons hi, List.find?_cons]
    simp only [List.getElem?_eq_getElem hi]
    cases hp : p dirs[i] with
    | true => exact ⟨some (i, dirs[i]), rfl, rfl⟩
    | false => exact ⟨r, hrun, hr⟩

theorem findEntry_found {dirs : List Ext4DirEntry2} {p : Ext4DirEntry2 → Bool} {k i j : Nat}
    {dir : Ext4DirEntry2} (h : findEntry (some dirs) p k i = .ok (some (j, dir))) :
    dirs[j]? = some dir ∧ p dir = true := by
  induction k generalizing i with
  | zero => cases h
  | succ k ih =>
    rw [findEntry] at h
    split at h
    next => cases h
    next dir' hdir =>
      cases hp : p dir' with
      | true =>
        rw [hp] at h
        cases h
        exact ⟨hdir, hp⟩
      | false =>
        rw [hp] at h
        exact ih h

theorem findEntry_at {dirs : List Ext4DirEntry2} {p : Ext4DirEntry2 → Bool} {k i j : Nat}
    {dir : Ext4DirEntry2} (hi : i ≤ j) (hk : j < i + k) (hdir : dirs[j]? = some dir)
    (hp : p dir = true)
    (hbefore : ∀ m, i ≤ m → m < j → ∀ e, dirs[m]? = some e → p e = false) :
    findEntry (some dirs) p k i = .ok (some (j, dir)) := by
  induction k generalizing i with
  | zero => omega
  | succ k ih =>
    rw [findEntry]
    rcases Nat.eq_or_lt_of_le hi with rfl | hlt
    · simp [hdir, hp]
    · have hj := (List.getElem?_eq_some_iff.mp hdir).1
      have hget := List.getElem?_eq_getElem (show i < dirs.length by omega)
      have hno := hbefore i (Nat.le_refl i) hlt _ hget
      simp only [hget, hno, Bool.false_eq_true, if_false]
      exact ih hlt (by omega) fun m hm => hbefore m (by omega)

theorem findEntry_dirTable (dirs : List Ext4DirEntry2) (p : Ext4DirEntry2 → Bool) :
    ∃ r, findEntry (dirTable dirs).table p dirs.length 0 = .ok r ∧
      r.map Prod.snd = dirs.find? p := by
  cases dirs with
  | nil => exact ⟨none, rfl, rfl⟩
  | cons dir dirs => exact findEntry_some (Nat.zero_add _)

theorem free_dirTable (dirs : List Ext4DirEntry2) :
    freeExt2DirEntries (dirTable dirs).table dirs.length = .ok () := by
  cases dirs with
  | nil => rfl
  | cons dir dirs => exact if_pos (Nat.le_refl _)

/-! ## Names -/

theorem isNamed_eq {word : List UInt8} (hw : (0 : UInt8) ∉ word) :
    isNamed word = fun dir => dir.nameBytes == word := by
  funext dir
  rw [Bool.eq_iff_iff, isNamed, Bool.and_eq_true, beq_iff_eq, beq_iff_eq, strncmpEq_iff hw,
    Ext4DirEntry2.nameBytes]
  constructor
  · rintro ⟨hlen, heq⟩
    rw [← hlen, heq]
  · intro h
    have hlen : word.length = dir.nameLen := by
      rw [← h, List.length_map, List.length_range]
    exact ⟨hlen, by rw [hlen, h]⟩

theorem isFileNamed_eq {word : List UInt8} (hw : (0 : UInt8) ∉ word) :
    isFileNamed word = fun dir => dir.nameBytes == word && dir.fileType == ext4FtRegFile := by
  funext dir
  have hname : (word.length == dir.nameLen && strncmpEq (cstr word) dir.name dir.nameLen) =
      isNamed word dir := by
    rw [isNamed]
    cases hlen : word.length == dir.nameLen with
    | false => rfl
    | true => rw [beq_iff_eq.mp hlen]
  rw [isFileNamed, hname, isNamed_eq hw, Bool.and_comm]

/-! ## Paths -/

theorem strchr_devPath {dev : List UInt8} (hdev : separator ∉ dev) {cs : List (List UInt8)}
    (hcs : cs ≠ []) :
    strchr separator ((devPath dev cs).drop 1) = some dev.length ∧
      (devPath dev cs).drop (dev.length + 1) = joinPath separator cs := by
  obtain ⟨c, cs, rfl⟩ := List.exists_cons_of_ne_nil hcs
  exact ⟨strchr_append hdev _, List.drop_left⟩

theorem components_devPath {dev : List UInt8} (hdev : separator ∉ dev) {cs : List (List UInt8)}
    (hcs : ∀ c ∈ cs, IsName c) : components (devPath dev cs) = placed 0 cs := by
  cases cs with
  | nil =>
    have hnone : strchr separator ((devPath dev []).drop 1) = none := by
      rw [devPath, List.drop_succ_cons, List.drop_zero]
      exact strchr_none (by simpa [joinPath] using hdev)
    rw [components, hnone]
    rfl
  | cons c cs =>
    obtain ⟨hchr, hdrop⟩ := strchr_devPath hdev (List.cons_ne_nil c cs)
    rw [components, hchr]
    show strtok separator 1 ((devPath dev (c :: cs)).drop (dev.length + 1 + 1)) = _
    rw [← List.drop_drop, hdrop, strtok_behind fun c' hc' => (hcs c' hc').toIsComponent]

/-! ## Loading a directory -/

/-- The entries of a directory that can be loaded, and their count, come back. -/
theorem getDirEntry_loads {σ : Type} {parts : Partitions σ} {Inv : σ → Prop}
    {vol : Nat → Nat → Volume} {diskNo partNoMap : Nat} (hs : Serves parts Inv vol) {s : σ}
    (hi : Inv s) {d : Nat}
    (hload : (vol diskNo partNoMap).load d = .ok (dirTable ((vol diskNo partNoMap).entries d))) :
    ∃ s', parts.getDirEntry s diskNo partNoMap d =
      .ok (dirTable ((vol diskNo partNoMap).entries d), s') ∧ Inv s' := by
  have h := hs.dir s hi diskNo partNoMap d
  rw [hload] at h
  exact h

end Ext4tc.Plugin
