import Ext4tc.Plugin.LinuxPartitions

/-! # Resolving the path of a file

`get_ext2_inode` on a tree. Its flag `found` is set by the first component that is
found and never cleared, so from then on a component that is missing is passed over:
the walk stays where it is. What the call returns is the file of that name in the
directory where such a walk ends. -/

namespace Ext4tc.Plugin
open Ext4tc.Lib Ext4tc.Fs Ext4tc.DiskUtils

namespace Volume

/-- The walk that stays where a component names no directory. -/
def stayWalk (vol : Volume) : Nat → List (List UInt8) → Nat
  | d, [] => d
  | d, c :: cs =>
    match (vol.entries d).find? fun e => e.nameBytes == c && e.fileType == ext4FtDir with
    | none => stayWalk vol d cs
    | some e => stayWalk vol e.inode cs

/-- What a lookup of `c` in directory `d` finds. -/
def fileIn (vol : Volume) (d : Nat) (c : List UInt8) : Option Ext4DirEntry2 :=
  (vol.entries d).find? fun e => e.nameBytes == c && e.fileType == ext4FtRegFile

end Volume

/-- `get_ext2_inode` opens the file that the path names, and no other. -/
structure ExactFile {σ : Type} (vol : Volume) (cs : List (List UInt8)) (c : List UInt8)
    (out : Except Fault (FoundInode × σ)) : Prop where
  opens : ∀ d e, vol.Leads ext4RootIno cs d → vol.FileAt d c e →
    ∃ inode s, out = .ok (⟨some inode, some e.inode⟩, s) ∧ vol.inode e.inode = .ok (some inode)
  only : ∀ inode num s, out = .ok (⟨some inode, num⟩, s) →
    ∃ d e, vol.Leads ext4RootIno cs d ∧ vol.FileAt d c e ∧ num = some e.inode ∧
      vol.inode e.inode = .ok (some inode)

/-! ## Finding by name -/

section Find

variable {vol : Volume} {d : Nat} {c : List UInt8} {e : Ext4DirEntry2} {ftype : Nat}

theorem find_some
    (h : ((vol.entries d).find? fun e => e.nameBytes == c && e.fileType == ftype) = some e) :
    vol.Names d c e ∧ e.fileType = ftype := by
  have hp := List.find?_some h
  rw [Bool.and_eq_true, beq_iff_eq, beq_iff_eq] at hp
  exact ⟨⟨List.mem_of_find?_eq_some h, hp.1⟩, hp.2⟩

theorem find_none
    (h : ((vol.entries d).find? fun e => e.nameBytes == c && e.fileType == ftype) = none) :
    ¬∃ e, vol.Names d c e ∧ e.fileType = ftype := by
  rintro ⟨e, ⟨hmem, hname⟩, htype⟩
  have hp := List.find?_eq_none.mp h e hmem
  rw [hname, htype, beq_self_eq_true, beq_self_eq_true] at hp
  exact hp rfl

theorem find_of_names (ht : vol.DirTree) (hd : vol.Directory d) (hn : vol.Names d c e)
    (htype : e.fileType = ftype) :
    ((vol.entries d).find? fun e => e.nameBytes == c && e.fileType == ftype) = some e := by
  cases h : (vol.entries d).find? fun e => e.nameBytes == c && e.fileType == ftype with
  | none => exact absurd ⟨e, hn, htype⟩ (find_none h)
  | some e' =>
    obtain ⟨⟨hmem, hname⟩, -⟩ := find_some h
    rw [ht.unique d hd e' hmem e hn.1 (hname.trans hn.2.symm)]

end Find

/-! ## The walk -/

section Walk

variable {vol : Volume} {d d' : Nat} {cs : List (List UInt8)}

theorem directory_stayWalk (hd : vol.Directory d) : vol.Directory (vol.stayWalk d cs) := by
  induction cs generalizing d with
  | nil => exact hd
  | cons c cs ih =>
    rw [Volume.stayWalk]
    split
    next => exact ih hd
    next e he =>
      obtain ⟨⟨hmem, -⟩, htype⟩ := find_some he
      exact ih (.sub hd hmem htype)

/-- A path that leads somewhere is walked without a stay. -/
theorem stayWalk_of_leads (ht : vol.DirTree) (hd : vol.Directory d) (h : vol.Leads d cs d') :
    vol.stayWalk d cs = d' := by
  induction cs generalizing d with
  | nil => exact h.symm
  | cons c cs ih =>
    obtain ⟨e, ⟨hn, htype⟩, hrest⟩ := h
    rw [Volume.stayWalk, find_of_names ht hd hn htype]
    exact ih (.sub hd hn.1 htype) hrest

/-- Where `get_ext2_inode` looks for the file, if it gets that far. -/
def walkEnd (vol : Volume) : List (List UInt8) → Option Nat
  | [] => some ext4RootIno
  | c :: cs =>
    match (vol.entries ext4RootIno).find? fun e => e.nameBytes == c && e.fileType == ext4FtDir with
    | none => none
    | some e => some (vol.stayWalk e.inode cs)

theorem walkEnd_some (h : walkEnd vol cs = some d) :
    d = vol.stayWalk ext4RootIno cs ∧ ∀ c ds, cs = c :: ds → ∃ e, vol.DirAt ext4RootIno c e := by
  cases cs with
  | nil =>
    cases h
    exact ⟨rfl, nofun⟩
  | cons c cs =>
    rw [walkEnd] at h
    split at h
    next => cases h
    next e he =>
      cases h
      refine ⟨by rw [Volume.stayWalk, he], ?_⟩
      intro c' ds heq
      cases heq
      exact ⟨e, find_some he⟩

theorem walkEnd_none (h : walkEnd vol cs = none) :
    ∃ c ds, cs = c :: ds ∧ ¬∃ e, vol.DirAt ext4RootIno c e := by
  cases cs with
  | nil => cases h
  | cons c cs =>
    rw [walkEnd] at h
    split at h
    next he => exact ⟨c, cs, rfl, find_none he⟩
    next => cases h

def answer (vol : Volume) (cs : List (List UInt8)) (c : List UInt8) : Except Fault FoundInode :=
  match walkEnd vol cs with
  | none => .ok ⟨none, none⟩
  | some d =>
    match vol.fileIn d c with
    | none => .ok ⟨none, none⟩
    | some e => (vol.inode e.inode).map fun inode => ⟨inode, some e.inode⟩

end Walk

/-! ## The code's walk -/

section Code

variable {σ : Type} {parts : Partitions σ} {Inv : σ → Prop} {vol : Nat → Nat → Volume}
  {diskNo partNoMap : Nat}

structure At (Inv : σ → Prop) (vol : Volume) (d : Nat) (walk : InodeWalk σ) : Prop where
  inv : Inv walk.hardDisks
  dirs : walk.dirs = (dirTable (vol.entries d)).table
  entryNum : walk.entryNum = (vol.entries d).length

theorem At.find {v : Volume} {d : Nat} {walk : InodeWalk σ} (h : At Inv v d walk)
    (p : Ext4DirEntry2 → Bool) :
    ∃ r, findEntry walk.dirs p walk.entryNum 0 = .ok r ∧
      r.map Prod.snd = (v.entries d).find? p := by
  rw [h.dirs, h.entryNum]
  exact findEntry_dirTable _ p

theorem At.free {v : Volume} {d : Nat} {walk : InodeWalk σ} (h : At Inv v d walk) :
    freeExt2DirEntries walk.dirs walk.entryNum = .ok () := by
  rw [h.dirs, h.entryNum]
  exact free_dirTable _

variable (hs : Serves parts Inv vol)
include hs

theorem walkComponents_enter {d : Nat} {walk : InodeWalk σ}
    (hat : At Inv (vol diskNo partNoMap) d walk) {c : List UInt8}
    (hc : IsName c) {e : Ext4DirEntry2} (he : ((vol diskNo partNoMap).entries d).find?
      (fun e => e.nameBytes == c && e.fileType == ext4FtDir) = some e)
    (hload : (vol diskNo partNoMap).load e.inode =
      .ok (dirTable ((vol diskNo partNoMap).entries e.inode)))
    (off : Nat) (words : List (Nat × List UInt8)) :
    ∃ walk', walkComponents parts diskNo partNoMap ((off, c) :: words) walk =
        walkComponents parts diskNo partNoMap words walk' ∧
      At Inv (vol diskNo partNoMap) e.inode walk' ∧ walk'.found = true := by
  obtain ⟨r, hrun, hr⟩ := hat.find fun dir => isNamed c dir && dir.fileType == ext4FtDir
  rw [isNamed_eq hc.no_nul, he] at hr
  obtain ⟨⟨i, dir⟩, rfl, rfl⟩ := Option.map_eq_some_iff.mp hr
  obtain ⟨s', hcall, hi⟩ := getDirEntry_loads hs hat.inv hload
  rw [walkComponents, hrun]
  simp only [hat.free, hcall]
  exact ⟨_, rfl, ⟨hi, rfl, rfl⟩, rfl⟩

variable (ht : (vol diskNo partNoMap).DirTree)
include ht

/-- Past the first hit the code stays where a component is missing. -/
theorem walkComponents_found {cs : List (List UInt8)} (hcs : ∀ c ∈ cs, IsName c) {d : Nat}
    (hd : (vol diskNo partNoMap).Directory d) {walk : InodeWalk σ}
    (hat : At Inv (vol diskNo partNoMap) d walk) (hfound : walk.found = true) (off : Nat) :
    ∃ walk', walkComponents parts diskNo partNoMap (placed off cs) walk = .ok (true, walk') ∧
      At Inv (vol diskNo partNoMap) ((vol diskNo partNoMap).stayWalk d cs) walk' := by
  induction cs generalizing d walk off with
  | nil => exact ⟨walk, rfl, hat⟩
  | cons c cs ih =>
    have hrest : ∀ c ∈ cs, IsName c := fun c' hc' => hcs c' (List.mem_cons_of_mem _ hc')
    rw [placed, Volume.stayWalk]
    cases he : ((vol diskNo partNoMap).entries d).find?
        fun e => e.nameBytes == c && e.fileType == ext4FtDir with
    | none =>
      obtain ⟨r, hrun, hr⟩ := hat.find fun dir => isNamed c dir && dir.fileType == ext4FtDir
      rw [isNamed_eq (hcs c List.mem_cons_self).no_nul, he, Option.map_eq_none_iff] at hr
      subst hr
      rw [walkComponents, hrun]
      simp only [hfound, if_true]
      exact ih hrest hd hat hfound _
    | some e =>
      obtain ⟨⟨hmem, -⟩, htype⟩ := find_some he
      obtain ⟨walk', hrun, hat', hfound'⟩ :=
        walkComponents_enter hs hat (hcs c List.mem_cons_self) he (ht.loads _ (.sub hd hmem htype))
          (off + 1) (placed (off + 1 + c.length) cs)
      rw [hrun]
      exact ih hrest (.sub hd hmem htype) hat' hfound' _

theorem walkComponents_root {cs : List (List UInt8)} (hcs : ∀ c ∈ cs, IsName c) {walk : InodeWalk σ}
    (hat : At Inv (vol diskNo partNoMap) ext4RootIno walk) (hfound : walk.found = false) :
    ∃ walk', walkComponents parts diskNo partNoMap (placed 0 cs) walk =
        .ok ((walkEnd (vol diskNo partNoMap) cs).isSome, walk') ∧
      At Inv (vol diskNo partNoMap) ((walkEnd (vol diskNo partNoMap) cs).getD ext4RootIno)
        walk' := by
  cases cs with
  | nil => exact ⟨walk, rfl, hat⟩
  | cons c cs =>
    have hrest : ∀ c ∈ cs, IsName c := fun c' hc' => hcs c' (List.mem_cons_of_mem _ hc')
    rw [placed, walkEnd]
    cases he : ((vol diskNo partNoMap).entries ext4RootIno).find?
        fun e => e.nameBytes == c && e.fileType == ext4FtDir with
    | none =>
      obtain ⟨r, hrun, hr⟩ := hat.find fun dir => isNamed c dir && dir.fileType == ext4FtDir
      rw [isNamed_eq (hcs c List.mem_cons_self).no_nul, he, Option.map_eq_none_iff] at hr
      subst hr
      rw [walkComponents, hrun]
      simp only [hfound, Bool.false_eq_true, if_false]
      exact ⟨walk, rfl, hat⟩
    | some e =>
      obtain ⟨⟨hmem, -⟩, htype⟩ := find_some he
      obtain ⟨walk', hrun, hat', hfound'⟩ :=
        walkComponents_enter hs hat (hcs c List.mem_cons_self) he
          (ht.loads _ (.sub .root hmem htype)) (0 + 1) (placed (0 + 1 + c.length) cs)
      obtain ⟨walk'', hrun', hat''⟩ :=
        walkComponents_found hs ht hrest (.sub .root hmem htype) hat' hfound'
        (0 + 1 + c.length)
      rw [hrun, hrun']
      exact ⟨walk'', rfl, hat''⟩

omit ht in
theorem lookUpFile_at {d : Nat} {walk : InodeWalk σ} (hat : At Inv (vol diskNo partNoMap) d walk)
    {c : List UInt8} (hc : IsName c) :
    Answers Inv (lookUpFile parts diskNo partNoMap c walk)
      (match (vol diskNo partNoMap).fileIn d c with
        | none => .ok ⟨none, none⟩
        | some e => ((vol diskNo partNoMap).inode e.inode).map fun inode =>
            ⟨inode, some e.inode⟩) := by
  obtain ⟨r, hrun, hr⟩ := hat.find (isFileNamed c)
  rw [isFileNamed_eq hc.no_nul, ← Volume.fileIn] at hr
  rw [lookUpFile, hrun]
  cases he : (vol diskNo partNoMap).fileIn d c with
  | none =>
    rw [he, Option.map_eq_none_iff] at hr
    subst hr
    simp only [hat.free]
    exact ⟨_, rfl, hat.inv⟩
  | some e =>
    rw [he] at hr
    obtain ⟨⟨i, dir⟩, rfl, rfl⟩ := Option.map_eq_some_iff.mp hr
    have hinode := hs.inode walk.hardDisks hat.inv diskNo partNoMap dir.inode
    cases hv : (vol diskNo partNoMap).inode dir.inode with
    | error fault =>
      rw [hv] at hinode
      have hcall : parts.getExt4Inode walk.hardDisks diskNo partNoMap dir.inode = .error fault :=
        hinode
      simp only [hcall, hv]
      rfl
    | ok inode =>
      rw [hv] at hinode
      obtain ⟨s', hcall, hi⟩ := hinode
      simp only [hcall, hat.free, hv]
      exact ⟨s', rfl, hi⟩

omit ht in
/-- On a path of components the call is its walk and the lookup behind it. -/
theorem getExt2Inode_devPath {dev : List UInt8} (hdev : separator ∉ dev) {cs : List (List UInt8)}
    {c : List UInt8} (hcs : ∀ c ∈ cs, IsName c) (hc : IsName c)
    (hlen : (devPath dev (cs ++ [c])).length < maxPath) {s : σ} (hi : Inv s)
    (hroot : (vol diskNo partNoMap).load ext4RootIno =
      .ok (dirTable ((vol diskNo partNoMap).entries ext4RootIno))) :
    ∃ walk, At Inv (vol diskNo partNoMap) ext4RootIno walk ∧ walk.found = false ∧
      ∀ ok walk', walkComponents parts diskNo partNoMap (placed 0 cs) walk = .ok (ok, walk') →
        getExt2Inode parts diskNo partNoMap s (devPath dev (cs ++ [c])) =
          if ok then lookUpFile parts diskNo partNoMap c walk'
          else (freeExt2DirEntries walk'.dirs walk'.entryNum).map fun _ =>
            (⟨none, none⟩, walk'.hardDisks) := by
  have hall : ∀ c' ∈ cs ++ [c], IsComponent separator c' := by
    intro c' hmem
    rcases List.mem_append.mp hmem with hmem | hmem
    · exact (hcs c' hmem).toIsComponent
    · exact List.mem_singleton.mp hmem ▸ hc.toIsComponent
  obtain ⟨hchr, hdrop⟩ := strchr_devPath hdev
    (List.append_ne_nil_of_right_ne_nil cs (List.cons_ne_nil c []))
  obtain ⟨hlast, hptr⟩ := strrchr_joinPath hc.toIsComponent cs
  obtain ⟨s', hload, hi'⟩ := getDirEntry_loads hs hi hroot
  refine ⟨⟨s', (dirTable ((vol diskNo partNoMap).entries ext4RootIno)).table,
    ((vol diskNo partNoMap).entries ext4RootIno).length, false⟩, ⟨hi', rfl, rfl⟩, rfl, ?_⟩
  intro ok walk' hrun
  rw [getExt2Inode, hload]
  simp only [Nat.not_le.mpr hlen, if_false, hchr, hdrop, hlast, Option.getD_some, hptr,
    strtok_behind hall, takeWhile_placed]
  simp only [dirTable, Option.getD_some] at hrun ⊢
  rw [hrun]
  cases ok with
  | true => rfl
  | false =>
    simp only [Bool.false_eq_true, if_false]
    cases freeExt2DirEntries walk'.dirs walk'.entryNum <;> rfl

/-- **The whole call** answers as the walk that stays does. -/
theorem getExt2Inode_answers {dev : List UInt8} (hdev : separator ∉ dev) {cs : List (List UInt8)}
    {c : List UInt8} (hcs : ∀ c ∈ cs, IsName c) (hc : IsName c)
    (hlen : (devPath dev (cs ++ [c])).length < maxPath) {s : σ} (hi : Inv s) :
    Answers Inv (getExt2Inode parts diskNo partNoMap s (devPath dev (cs ++ [c])))
      (answer (vol diskNo partNoMap) cs c) := by
  obtain ⟨walk, hroot, hfound, hcall⟩ :=
    getExt2Inode_devPath hs hdev hcs hc hlen hi (ht.loads _ .root)
  obtain ⟨walk', hrun, hat⟩ := walkComponents_root hs ht hcs hroot hfound
  rw [hcall _ _ hrun, answer]
  cases hend : walkEnd (vol diskNo partNoMap) cs with
  | none =>
    rw [hend] at hat
    simp only [Option.isSome_none, Bool.false_eq_true, if_false, hat.free]
    exact ⟨_, rfl, hat.inv⟩
  | some d =>
    rw [hend] at hat
    simp only [Option.isSome_some, if_true]
    exact lookUpFile_at hs hat hc

end Code

/-! ## When the call is right -/

section Exact

variable {vol : Volume} {cs : List (List UInt8)} {c : List UInt8}

theorem leads_directory {d d' : Nat} (hd : vol.Directory d) (h : vol.Leads d cs d') :
    vol.Directory d' := by
  induction cs generalizing d with
  | nil =>
    cases h
    exact hd
  | cons c cs ih =>
    obtain ⟨e, ⟨⟨hmem, -⟩, htype⟩, hrest⟩ := h
    exact ih (.sub hd hmem htype) hrest

theorem walkEnd_of_leads (ht : vol.DirTree) {d : Nat} (h : vol.Leads ext4RootIno cs d) :
    walkEnd vol cs = some d := by
  cases cs with
  | nil => exact congrArg some h.symm
  | cons c cs =>
    obtain ⟨e, ⟨hn, htype⟩, hrest⟩ := h
    rw [walkEnd, find_of_names ht .root hn htype]
    exact congrArg some (stayWalk_of_leads ht (.sub .root hn.1 htype) hrest)

theorem answer_some (ht : vol.DirTree) {d : Nat} {e : Ext4DirEntry2}
    (hend : walkEnd vol cs = some d) (hd : vol.Directory d) (he : vol.FileAt d c e) :
    ∃ inode, vol.inode e.inode = .ok (some inode) ∧
      answer vol cs c = .ok ⟨some inode, some e.inode⟩ := by
  obtain ⟨inode, hinode⟩ := ht.files d hd e he.1.1 he.2
  refine ⟨inode, hinode, ?_⟩
  rw [answer, hend]
  simp only [Volume.fileIn, find_of_names ht hd he.1 he.2, hinode]
  rfl

theorem some_of_answer {inode : Ext4Inode} {num : Option Nat}
    (h : answer vol cs c = .ok ⟨some inode, num⟩) :
    ∃ d e, walkEnd vol cs = some d ∧ vol.FileAt d c e ∧ num = some e.inode ∧
      vol.inode e.inode = .ok (some inode) := by
  unfold answer at h
  split at h
  next => cases h
  next d hend =>
    split at h
    next => cases h
    next e he =>
      cases hv : vol.inode e.inode with
      | error fault =>
        rw [hv] at h
        cases h
      | ok found =>
        rw [hv] at h
        cases h
        exact ⟨d, e, hend, find_some he, rfl, hv⟩

end Exact

/-- **The call resolves its path exactly** when the path leads to a directory, when its
first component does not, and when the walk that stays ends without such a file. -/
theorem get_ext2_inode_exact_iff {σ : Type} {parts : Partitions σ} {Inv : σ → Prop}
    {vol : Nat → Nat → Volume} (hs : Serves parts Inv vol) (diskNo partNoMap : Nat)
    (ht : (vol diskNo partNoMap).DirTree) {dev : List UInt8} (hdev : separator ∉ dev)
    {cs : List (List UInt8)} {c : List UInt8} (hcs : ∀ c ∈ cs, IsName c) (hc : IsName c)
    (hlen : (devPath dev (cs ++ [c])).length < maxPath) {s : σ} (hi : Inv s) :
    ExactFile (vol diskNo partNoMap) cs c
        (getExt2Inode parts diskNo partNoMap s (devPath dev (cs ++ [c]))) ↔
      (∃ d, (vol diskNo partNoMap).Leads ext4RootIno cs d) ∨
      (∃ c₁ ds, cs = c₁ :: ds ∧ ¬∃ e, (vol diskNo partNoMap).DirAt ext4RootIno c₁ e) ∨
      ¬∃ e, (vol diskNo partNoMap).FileAt ((vol diskNo partNoMap).stayWalk ext4RootIno cs) c e := by
  have hout := getExt2Inode_answers hs ht hdev hcs hc hlen hi
  generalize getExt2Inode parts diskNo partNoMap s (devPath dev (cs ++ [c])) = out at hout
  generalize vol diskNo partNoMap = v at ht hout ⊢
  have hopen : ∀ d e, walkEnd v cs = some d → v.Directory d → v.FileAt d c e →
      ∃ inode s, out = .ok (⟨some inode, some e.inode⟩, s) ∧
        v.inode e.inode = .ok (some inode) := by
    intro d e hend hd he
    obtain ⟨inode, hinode, hans⟩ := answer_some ht hend hd he
    rw [hans] at hout
    obtain ⟨s', rfl, -⟩ := hout
    exact ⟨inode, s', rfl, hinode⟩
  constructor
  · intro hexact
    cases hend : walkEnd v cs with
    | none => exact .inr (.inl (walkEnd_none hend))
    | some d =>
      obtain ⟨rfl, -⟩ := walkEnd_some hend
      by_cases hfile : ∃ e, v.FileAt (v.stayWalk ext4RootIno cs) c e
      · obtain ⟨e, he⟩ := hfile
        obtain ⟨inode, s', hret, -⟩ := hopen _ e hend (directory_stayWalk .root) he
        obtain ⟨d, -, hleads, -⟩ := hexact.only inode _ s' hret
        exact .inl ⟨d, hleads⟩
      · exact .inr (.inr hfile)
  · intro hwhen
    refine ⟨fun d e hleads he => hopen d e (walkEnd_of_leads ht hleads)
      (leads_directory .root hleads) he,
      fun inode num s' hret => ?_⟩
    rw [hret] at hout
    cases hans : answer v cs c with
    | error fault =>
      rw [hans] at hout
      cases hout
    | ok found =>
      rw [hans] at hout
      obtain ⟨s'', heq, -⟩ := hout
      cases heq
      obtain ⟨d, e, hend, he, hnum, hinode⟩ := some_of_answer hans
      obtain ⟨rfl, hfirst⟩ := walkEnd_some hend
      obtain ⟨d, hleads⟩ | ⟨c₁, ds, rfl, hmissing⟩ | hnone := hwhen
      · rw [stayWalk_of_leads ht .root hleads] at he
        exact ⟨d, e, hleads, he, hnum, hinode⟩
      · exact absurd (hfirst c₁ ds rfl) hmissing
      · exact absurd ⟨e, he⟩ hnone

/-- `\sda1\a\g` is a file. -/
theorem get_ext2_inode_exact_tree :
    ExactFile treeVolume [[0x61]] [0x67]
      (getExt2Inode (linuxPartitions treeEnv) 0 0 treeDisks
        (devPath sda1 ([[0x61]] ++ [[0x67]]))) :=
  (get_ext2_inode_exact_iff treeDisks_serve 0 0 treeVolume_dirTree
    (by decide) isName_a (isName_singleton (by decide) (by decide)) (by decide)
    treeDisks_mounted).mpr (.inl ⟨3, treeVolume_leads_a⟩)

/-- `\sda1\a\x\g` opens `\sda1\a\g`, though there is no `x`. -/
theorem missing_component_passed_over :
    Mounted treeMounts treeDisks ∧ treeVolume.DirTree ∧
      ¬ExactFile treeVolume [[0x61], [0x78]] [0x67]
        (getExt2Inode (linuxPartitions treeEnv) 0 0 treeDisks
          (devPath sda1 ([[0x61], [0x78]] ++ [[0x67]]))) := by
  refine ⟨treeDisks_mounted, treeVolume_dirTree, ?_⟩
  intro hexact
  have hopened : (getExt2Inode (linuxPartitions treeEnv) 0 0 treeDisks
      (devPath sda1 ([[0x61], [0x78]] ++ [[0x67]]))).map
        (fun out => (out.1.inode.isSome, out.1.inodeNum)) =
        .ok (true, some 5) := by decide +kernel
  revert hexact hopened
  generalize getExt2Inode (linuxPartitions treeEnv) 0 0 treeDisks
    (devPath sda1 ([[0x61], [0x78]] ++ [[0x67]])) = out
  intro hexact hopened
  cases out with
  | error fault => cases hopened
  | ok out =>
    obtain ⟨⟨inode, num⟩, disks⟩ := out
    cases inode with
    | none => cases hopened
    | some inode =>
      obtain ⟨d, -, hleads, -⟩ := hexact.only inode num disks rfl
      exact treeVolume_no_x d hleads

end Ext4tc.Plugin
