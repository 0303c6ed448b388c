import Ext4tc.Lib.Enumeration
import Ext4tc.Plugin.Volume

/-! # A search through one directory

`get_first_dir_entry` ends with a scan of the loaded table, and `get_next_dir_entry` goes on
behind the entry that was found last. Both keep that place in an out parameter. What is left
to come are the live entries behind the place. -/

namespace Ext4tc.Plugin
open Ext4tc.Lib Ext4tc.Fs

/-- An entry that belongs to a search: not deleted, and named neither `` nor `.` nor `..`. -/
def IsLive (dir : Ext4DirEntry2) : Prop :=
  dir.inode ≠ 0 ∧ dir.nameBytes ≠ [] ∧ dir.nameBytes ≠ [0x2e] ∧ dir.nameBytes ≠ [0x2e, 0x2e]

instance (dir : Ext4DirEntry2) : Decidable (IsLive dir) :=
  inferInstanceAs (Decidable (_ ∧ _ ∧ _ ∧ _))

/-- The scan of `get_first_dir_entry`, and calls of `get_next_dir_entry` until one returns
NULL: the entries, and what `*num_last_entry` is at the end. -/
def SearchYields {σ : Type} (descr : Ext4PluginDescr σ) (dirs : List Ext4DirEntry2) (last : Nat) :
    Prop :=
  ∃ first place rest, firstListed descr = .ok ⟨first, some place⟩ ∧
    Drains (getNextDirEntry descr) place rest last ∧ dirs = first.toList ++ rest

/-! ## The filter -/

/-- **The filter passes over exactly the three names**, if no name has a NUL in it. -/
theorem isListed_iff {dir : Ext4DirEntry2} (hname : (0 : UInt8) ∉ dir.nameBytes) :
    isListed dir = true ↔ IsLive dir := by
  have hbytes : ∀ i < dir.nameLen, dir.name i ≠ 0 := by
    intro i hi heq
    exact hname (heq ▸ List.mem_map_of_mem (List.mem_range.mpr hi))
  have hdot := strncmpEq_prefix (s := [0x2e]) (by decide) hbytes
  have hdots := strncmpEq_prefix (s := [0x2e, 0x2e]) (by decide) hbytes
  rw [← Ext4DirEntry2.nameBytes] at hdot hdots
  have hshort : dir.nameBytes <+: [0x2e] ↔ dir.nameBytes = [] ∨ dir.nameBytes = [0x2e] := by
    simp [List.prefix_cons_iff]
  have hlong : dir.nameBytes <+: [0x2e, 0x2e] ↔
      dir.nameBytes = [] ∨ dir.nameBytes = [0x2e] ∨ dir.nameBytes = [0x2e, 0x2e] := by
    simp [List.prefix_cons_iff, and_or_left, exists_or]
  rw [isListed, Bool.and_eq_true, Bool.and_eq_true, bne_iff_ne, Bool.not_eq_true',
    Bool.not_eq_true', ← Bool.not_eq_true, ← Bool.not_eq_true, hdot, hdots, hshort, hlong, IsLive]
  simp only [not_or, and_assoc]
  constructor
  · rintro ⟨hinode, hnil, hdot, -, -, hdots⟩
    exact ⟨hinode, hnil, hdot, hdots⟩
  · rintro ⟨hinode, hnil, hdot, hdots⟩
    exact ⟨hinode, hnil, hdot, hnil, hdot, hdots⟩

/-! ## The scans -/

/-- A scan to the end of a table finds the first entry it picks, or there is none. -/
theorem findEntry_filter {dirs : List Ext4DirEntry2} {p : Ext4DirEntry2 → Bool} {k i : Nat}
    (h : i + k = dirs.length) :
    (findEntry (some dirs) p k i = .ok none ∧ (dirs.drop i).filter p = []) ∨
      ∃ j dir, findEntry (some dirs) p k i = .ok (some (j, dir)) ∧
        (dirs.drop i).filter p = dir :: (dirs.drop (j + 1)).filter p := by
  induction k generalizing i with
  | zero =>
    left
    rw [List.drop_of_length_le (by omega)]
    exact ⟨rfl, rfl⟩
  | succ k ih =>
    have hi : i < dirs.length := by omega
    rw [findEntry, List.getElem?_eq_getElem hi, List.drop_eq_getElem_cons hi]
    cases hp : p dirs[i] with
    | true =>
      right
      exact ⟨i, dirs[i], by simp [hp], by rw [List.filter_cons_of_pos hp]⟩
    | false =>
      rw [List.filter_cons_of_neg (by simp [hp])]
      simp only [hp, Bool.false_eq_true, if_false]
      exact ih (by omega)

section Search

variable {σ : Type} {descr : Ext4PluginDescr σ} {dirs : List Ext4DirEntry2}
  (htable : descr.dirEntries = some dirs) (hnum : descr.dirEntryNum = dirs.length)
include htable hnum

/-- **Behind the place `n` the entries from `n + 1` on are left.** -/
theorem getNextDirEntry_leaves :
    Leaves (getNextDirEntry descr) (fun _ => True)
      fun n => (dirs.drop (n + 1)).filter isListed := by
  have hscan : ∀ n r, n < dirs.length →
      findEntry (some dirs) isListed (dirs.length - (n + 1)) (n + 1) = .ok r →
        getNextDirEntry descr n = .ok (r.map Prod.snd, (r.map Prod.fst).getD n) := by
    intro n r hn hfind
    rw [getNextDirEntry, htable, hnum, if_neg (by simpa using hn), hfind]
    cases r with
    | none => rfl
    | some found => rfl
  have hend : ∀ n, dirs.length ≤ n → getNextDirEntry descr n = .ok (none, n) := by
    intro n hn
    rw [getNextDirEntry, hnum, if_pos (.inr hn)]
  constructor
  · intro n _ hleft
    rcases Nat.lt_or_ge n dirs.length with hn | hn
    · have hsum : n + 1 + (dirs.length - (n + 1)) = dirs.length := by omega
      obtain ⟨hnone, -⟩ | ⟨j, dir, -, hfilter⟩ := findEntry_filter (p := isListed) hsum
      · exact hscan n none hn hnone
      · cases hfilter.symm.trans hleft
    · exact hend n hn
  · intro n dir rest _ hleft
    rcases Nat.lt_or_ge n dirs.length with hn | hn
    · have hsum : n + 1 + (dirs.length - (n + 1)) = dirs.length := by omega
      obtain ⟨-, hnil⟩ | ⟨j, dir', hfound, hfilter⟩ := findEntry_filter (p := isListed) hsum
      · cases hnil.symm.trans hleft
      · cases hfilter.symm.trans hleft
        exact ⟨j, hscan n (some (j, dir)) hn hfound, trivial, rfl⟩
    · rw [List.drop_of_length_le (by omega)] at hleft
      cases hleft

/-- The first scan finds the first entry of all, and leaves the rest. -/
theorem firstListed_cases :
    (firstListed descr = .ok ⟨none, some dirs.length⟩ ∧ dirs.filter isListed = []) ∨
      ∃ j dir, firstListed descr = .ok ⟨some dir, some j⟩ ∧
        dirs.filter isListed = dir :: (dirs.drop (j + 1)).filter isListed := by
  rw [firstListed, htable, hnum]
  obtain ⟨hnone, hfilter⟩ | ⟨j, dir, hfound, hfilter⟩ :=
    findEntry_filter (p := isListed) (Nat.zero_add dirs.length)
  · rw [List.drop_zero] at hfilter
    rw [hnone]
    exact .inl ⟨rfl, hfilter⟩
  · rw [List.drop_zero] at hfilter
    rw [hfound]
    exact .inr ⟨j, dir, rfl, hfilter⟩

/-- **A search yields the live entries of its table in their order, each once.** From then on
it yields nothing; and where there is none, it yields nothing from the start. -/
theorem directory_search_exact
    (hnames : ∀ dir ∈ dirs, dir.inode ≠ 0 → (0 : UInt8) ∉ dir.nameBytes) :
    ∃ last,
      (∀ found n, SearchYields descr found n ↔ found = dirs.filter IsLive ∧ n = last) ∧
        (∀ k, ask (getNextDirEntry descr) k last = .ok (List.replicate k none, last)) ∧
        (dirs.filter IsLive = [] → firstListed descr = .ok ⟨none, some last⟩) := by
  have hfilter : dirs.filter IsLive = dirs.filter isListed := by
    refine List.filter_congr fun dir hdir => ?_
    rw [Bool.eq_iff_iff, decide_eq_true_iff]
    by_cases hinode : dir.inode = 0
    · simp [IsLive, isListed, hinode]
    · exact (isListed_iff (hnames dir hdir hinode)).symm
  rw [hfilter]
  have hleaves := getNextDirEntry_leaves htable hnum
  obtain ⟨hfirst, hnil⟩ | ⟨j, dir, hfirst, hcons⟩ := firstListed_cases htable hnum
  · have hnone : (dirs.drop (dirs.length + 1)).filter isListed = [] := by
      rw [List.drop_of_length_le (by omega)]
      rfl
    have hlast := hleaves.done dirs.length trivial hnone
    refine ⟨dirs.length, ?_, ask_none hlast, fun _ => hfirst⟩
    intro found n
    constructor
    · rintro ⟨first, place, rest, hfirst', hrest, rfl⟩
      cases hfirst.symm.trans hfirst'
      obtain ⟨rfl, rfl⟩ := hrest.unique (.done hlast)
      exact ⟨hnil.symm, rfl⟩
    · rintro ⟨rfl, rfl⟩
      exact ⟨none, dirs.length, [], hfirst, .done hlast, hnil⟩
  · obtain ⟨last, hdrains, -, hnone⟩ := hleaves.drains (s := j) trivial
    refine ⟨last, ?_, ask_none (hleaves.done last trivial hnone), fun hnil => ?_⟩
    · intro found n
      constructor
      · rintro ⟨first, place, rest, hfirst', hrest, rfl⟩
        cases hfirst.symm.trans hfirst'
        obtain ⟨rfl, rfl⟩ := hrest.unique hdrains
        exact ⟨hcons.symm, rfl⟩
      · rintro ⟨rfl, rfl⟩
        exact ⟨some dir, j, _, hfirst, hdrains, hcons⟩
    · cases hcons.symm.trans hnil

end Search

def recordOf (inode : UInt8) (name : List UInt8) : Ext4DirEntry2 :=
  (Buffer.zeros sizeofExt4DirEntry2).pokes [(0, [inode]), (6, [UInt8.ofNat name.length]), (8, name)]

/-- A deleted record first and last, `..` before `.`, and between them `a` and `.b`. The name of
the first one has a zero in it. -/
def mixedTable : List Ext4DirEntry2 :=
  [recordOf 0 [0x78, 0x00, 0x78], recordOf 2 [0x2e, 0x2e], recordOf 3 [0x61], recordOf 2 [0x2e],
    recordOf 4 [0x2e, 0x62], recordOf 0 [0x79]]

theorem directory_search_exact_mixedTable :
    (mixedTable.filter IsLive).map Ext4DirEntry2.nameBytes = [[0x61], [0x2e, 0x62]] ∧
      ∃ last,
        (∀ found n, SearchYields ⟨(), some mixedTable, 6⟩ found n ↔
          found = mixedTable.filter IsLive ∧ n = last) ∧
          (∀ k, ask (getNextDirEntry (σ := Unit) ⟨(), some mixedTable, 6⟩) k last =
            .ok (List.replicate k none, last)) ∧
          (mixedTable.filter IsLive = [] →
            firstListed (σ := Unit) ⟨(), some mixedTable, 6⟩ = .ok ⟨none, some last⟩) :=
  ⟨by decide, directory_search_exact rfl rfl (by decide)⟩

end Ext4tc.Plugin
