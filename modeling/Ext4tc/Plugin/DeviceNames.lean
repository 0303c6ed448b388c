import Ext4tc.Lib.Enumeration
import Ext4tc.Plugin.Ext4Plugin
import Ext4tc.Plugin.IdMap
import Ext4tc.Plugin.LinuxPartitions
import Ext4tc.Plugin.NameScan

/-! # The names of the partitions

The root lists a partition under the letter of its disk and its number, and
`extract_disk_and_part_no` reads such a name back. It folds the letters in base 26; the
list prints one character only. -/

namespace Ext4tc.Plugin
open Ext4tc.Lib Ext4tc.DiskUtils

/-! ## Numbers -/

theorem charByte_digit {c : Char} (h : c.isDigit) :
    (charByte c).toNat = c.toNat ∧ 0x30 ≤ c.toNat ∧ c.toNat ≤ 0x39 := by
  obtain ⟨hlo, hhi⟩ : 48 ≤ c.toNat ∧ c.toNat ≤ 57 := Char.isDigit_iff_toNat.mp h
  refine ⟨?_, hlo, hhi⟩
  rw [charByte, UInt8.toNat_ofNat']
  omega

theorem charByte_ne {c : Char} (h : c.isDigit) : charByte c ≠ 0 ∧ charByte c ≠ 0x5c := by
  obtain ⟨hbyte, hlo, hhi⟩ := charByte_digit h
  constructor
  · intro heq
    rw [heq] at hbyte
    simp at hbyte
    omega
  · intro heq
    rw [heq] at hbyte
    simp at hbyte
    omega

theorem displayName_eq {diskNo partNo : Nat} (h : partNo < 2 ^ 31) :
    Devices.displayName diskNo partNo =
      0x73 :: 0x64 :: UInt8.ofNat (diskNo + 0x61) :: (Nat.toDigits 10 partNo).map charByte := by
  rw [Devices.displayName, int32_of_lt h]
  simp [decimal]

theorem isDigit_toDigits (n : Nat) : ∀ c ∈ Nat.toDigits 10 n, c.isDigit = true :=
  fun _ hc => Nat.isDigit_of_mem_toDigits (by decide) (by decide) hc

theorem digits_isDigit (n : Nat) : ∀ x ∈ (Nat.toDigits 10 n).map charByte, isDigit x = true := by
  intro x hx
  obtain ⟨c, hc, rfl⟩ := List.mem_map.mp hx
  obtain ⟨hbyte, hlo, hhi⟩ := charByte_digit (isDigit_toDigits n c hc)
  simp [isDigit, UInt8.le_iff_toNat_le, hbyte, hlo, hhi]

theorem foldl_charByte {ds : List Char} (h : ∀ c ∈ ds, c.isDigit = true) (a : Nat) :
    (ds.map charByte).foldl (fun (v : Int) x => v * 10 + ((x.toNat : Int) - 0x30)) a =
      (Nat.ofDigitChars 10 ds a : Nat) := by
  induction ds generalizing a with
  | nil => simp
  | cons c ds ih =>
    obtain ⟨hbyte, hlo, -⟩ := charByte_digit (h c List.mem_cons_self)
    have hnext : (a : Int) * 10 + (((charByte c).toNat : Int) - 0x30) =
        (10 * a + (c.toNat - '0'.toNat) : Nat) := by
      have hzero : '0'.toNat = 0x30 := rfl
      omega
    rw [List.map_cons, List.foldl_cons, hnext, Nat.ofDigitChars_cons]
    exact ih (fun c' hc' => h c' (List.mem_cons_of_mem c hc')) _

theorem digitValue_toDigits (n : Nat) : digitValue ((Nat.toDigits 10 n).map charByte) = n := by
  have hfold := foldl_charByte (isDigit_toDigits n) 0
  rw [Nat.ofDigitChars_toDigits (by decide) (by decide)] at hfold
  exact hfold

theorem letterValue_singleton (x : UInt8) : letterValue [x] = (x.toNat : Int) - 0x60 := by
  rw [letterValue, numeral, List.foldl_cons, List.foldl_nil, Int.zero_mul, Int.zero_add]

/-! ## Reading -/

theorem disk_eq_getElem {devices : Devices} {diskNo : Nat} (h : diskNo < devices.partNos.length) :
    devices.disk diskNo = devices.partNos[diskNo] := by
  rw [Devices.disk, List.getD_eq_getElem?_getD, List.getElem?_eq_getElem h, Option.getD_some]

theorem disk_lt_length {devices : Devices} {diskNo j : Nat}
    (h : j < (devices.disk diskNo).length) : diskNo < devices.partNos.length := by
  by_contra hge
  rw [Devices.disk, List.getD_eq_getElem?_getD, List.getElem?_eq_none (by omega)] at h
  simp at h

section Read

variable {devices : Devices} {diskNo partNo : Nat}

def named (rest : List UInt8) : List UInt8 := rest.takeWhile (· != separator)

theorem named_append_left {name : List UInt8} (h : separator ∉ name) (rest : List UInt8) :
    named (name ++ rest) = name ++ named rest := by
  rw [named, List.takeWhile_append_of_pos, named]
  intro x hx
  simpa using ne_of_mem_of_not_mem hx h

theorem validate_iff {d p : Int} : devices.validateDiskAndPartNo d p = true ↔
    0 ≤ d ∧ d < devices.partNos.length ∧ 0 ≤ p ∧
      ∃ last, (devices.disk d.toNat).getLast? = some last ∧ p ≤ int32 last := by
  unfold Devices.validateDiskAndPartNo
  cases hlast : (devices.disk d.toNat).getLast? with
  | none => simp
  | some last => simp [and_assoc]

theorem validate_eq_true {d p : Int} (h : devices.validateDiskAndPartNo d p = true) :
    0 ≤ p ∧ p < 2 ^ 31 := by
  obtain ⟨-, -, hp, last, -, hle⟩ := validate_iff.mp h
  have hint := int32_lt last
  omega

theorem validate_of_mem (hinc : Increasing (devices.disk diskNo))
    (hp : partNo ∈ devices.disk diskNo) (hint : ∀ p ∈ devices.disk diskNo, p < 2 ^ 31) :
    devices.validateDiskAndPartNo diskNo partNo = true := by
  have hne := List.ne_nil_of_mem hp
  have hdisk := disk_lt_length (List.length_pos_iff.mpr hne)
  have hlast := List.getLast?_eq_some_getLast hne
  have hle := TwoLevel.le_width hinc hp
  rw [TwoLevel.width, hlast, Option.getD_some] at hle
  have hword := int32_of_lt (hint _ (List.getLast_mem hne))
  exact validate_iff.mpr ⟨by omega, by omega, by omega, _, hlast, by omega⟩

/-! ## The names that are read back -/

theorem letter_toNat (h : diskNo < 26) : (UInt8.ofNat (diskNo + 0x61)).toNat = diskNo + 0x61 := by
  rw [UInt8.toNat_ofNat']
  omega

theorem isAlpha_letter {x : UInt8} (hx : x.toNat = diskNo + 0x61) (h : diskNo < 26) :
    isAlpha x = true := by
  simp [isAlpha, UInt8.le_iff_toNat_le, hx]
  omega

theorem digits_ne (n : Nat) :
    ∀ x ∈ (Nat.toDigits 10 n).map charByte, x ≠ 0 ∧ x ≠ separator := by
  intro x hx
  obtain ⟨c, hc, rfl⟩ := List.mem_map.mp hx
  exact charByte_ne (isDigit_toDigits n c hc)

theorem separator_notMem_digits (n : Nat) : separator ∉ (Nat.toDigits 10 n).map charByte :=
  fun hmem => (digits_ne n _ hmem).2 rfl

theorem deviceName_sd (rest : List UInt8) :
    deviceName (separator :: 0x73 :: 0x64 :: rest) = some (named rest) := by
  have hstr : strstr [0x5c, 0x73, 0x64] (separator :: 0x73 :: 0x64 :: rest) = some 0 := by
    simp [strstr, separator]
  rw [deviceName, hstr]
  rfl

theorem spelled_letter {x : UInt8} (h : isAlpha x = true) (n : Nat) {tail : List UInt8}
    (htail : named tail = []) :
    Spelled (separator :: 0x73 :: 0x64 :: x :: ((Nat.toDigits 10 n).map charByte ++ tail)) [x]
      ((Nat.toDigits 10 n).map charByte) := by
  have hname : separator ∉ x :: (Nat.toDigits 10 n).map charByte := by
    intro hmem
    rcases List.mem_cons.mp hmem with rfl | hmem
    · cases h
    · exact separator_notMem_digits n hmem
  refine ⟨?_, List.cons_ne_nil _ _, ?_, List.forall_mem_singleton.mpr h, digits_isDigit n⟩
  · rw [deviceName_sd, ← List.cons_append, named_append_left hname, htail, List.append_nil]
    rfl
  · simp [Nat.toDigits_ne_nil]

/-- Below the disk 26 a name is read back. -/
theorem extract_displayName (hinc : Increasing (devices.disk diskNo))
    (hp : partNo ∈ devices.disk diskNo) (hint : ∀ p ∈ devices.disk diskNo, p < 2 ^ 31)
    (hdisk : diskNo < 26) {tail : List UInt8} (htail : named tail = []) :
    devices.extractDiskAndPartNo (separator :: (Devices.displayName diskNo partNo ++ tail)) =
      some (diskNo, partNo) := by
  rw [displayName_eq (hint _ hp)]
  generalize hx : UInt8.ofNat (diskNo + 0x61) = x
  have hletter : x.toNat = diskNo + 0x61 := hx ▸ letter_toNat hdisk
  have hword : diskWord [x] = diskNo := by
    rw [diskWord, letterValue_singleton, int32_eq (by omega) (by omega)]
    omega
  have hpart : partWord ((Nat.toDigits 10 partNo).map charByte) = partNo := by
    rw [partWord, digitValue_toDigits, int32_of_lt (hint _ hp)]
  have hspelled := spelled_letter (isAlpha_letter hletter hdisk) partNo htail
  refine extract_iff.mpr ⟨_, _, hspelled, ?_, ?_, ?_⟩
  · rw [hword, hpart]
    exact validate_of_mem hinc hp hint
  · rw [hword, Int.toNat_natCast]
  · rw [hpart, Int.toNat_natCast]

theorem extract_letter_lt {x : UInt8} {d p : Nat}
    (h : devices.extractDiskAndPartNo
      (separator :: 0x73 :: 0x64 :: x :: (Nat.toDigits 10 partNo).map charByte) = some (d, p)) :
    d < 26 := by
  obtain ⟨letters, digits, hspelled, -, rfl, -⟩ := extract_iff.mp h
  obtain ⟨y, ys, rfl⟩ := List.exists_cons_of_ne_nil hspelled.letters_ne
  have halpha := hspelled.alpha y List.mem_cons_self
  have hname := hspelled.name
  rw [deviceName_sd] at hname
  rcases eq_or_ne x separator with rfl | hx
  · simp [named] at hname
  rw [named, List.takeWhile_cons, if_pos (bne_iff_ne.mpr hx)] at hname
  obtain rfl : x = y := (List.cons.inj (Option.some.inj hname)).1
  have hletter := @spelled_letter x halpha partNo [] rfl
  rw [List.append_nil] at hletter
  obtain ⟨hone, -⟩ := hspelled.unique hletter
  have hz : x.toNat ≤ 0x7a := by
    simp [isAlpha, UInt8.le_iff_toNat_le] at halpha
    omega
  rw [hone, diskWord, letterValue_singleton, int32_eq (by omega) (by omega)]
  omega

theorem takeWhile_displayName (hint : partNo < 2 ^ 31) (hx : UInt8.ofNat (diskNo + 0x61) ≠ 0) :
    (Devices.displayName diskNo partNo).takeWhile (· != 0) = Devices.displayName diskNo partNo := by
  rw [displayName_eq hint]
  generalize UInt8.ofNat (diskNo + 0x61) = x at hx
  have hdigits : ((Nat.toDigits 10 partNo).map charByte).takeWhile (· != 0) =
      (Nat.toDigits 10 partNo).map charByte := by
    have happ := @List.takeWhile_append_of_pos _ (· != (0 : UInt8)) _ []
      fun x hx => bne_iff_ne.mpr (digits_ne partNo x hx).1
    simpa using happ
  simp [hx, hdigits]

theorem extract_shown_lt {d p : Nat}
    (h : devices.extractDiskAndPartNo
      (separator :: (Devices.displayName diskNo partNo).takeWhile (· != 0)) = some (d, p)) :
    p < 2 ^ 31 ∧ (partNo < 2 ^ 31 → d < 26) := by
  constructor
  · obtain ⟨letters, digits, -, hvalid, -, rfl⟩ := extract_iff.mp h
    have hbound := validate_eq_true hvalid
    omega
  · intro hint
    by_cases hx : UInt8.ofNat (diskNo + 0x61) = 0
    · -- the letter ends the name
      rw [displayName_eq hint, hx] at h
      obtain ⟨letters, digits, hspelled, -⟩ := extract_iff.mp h
      have hname := hspelled.name
      simp [deviceName_sd, named, hspelled.letters_ne] at hname
    · rw [takeWhile_displayName hint hx, displayName_eq hint] at h
      exact extract_letter_lt h

end Read

/-! ## The listing of the root -/

section Enumeration

variable {devices : Devices}

theorem nextFrom_skip {k i diskNo j : Nat} (hi : i ≤ diskNo) (hk : diskNo < i + k)
    (hempty : ∀ m, i ≤ m → m < diskNo → devices.disk m = [])
    (hj : j < (devices.disk diskNo).length) : devices.nextFrom k i j = some (diskNo, j) := by
  induction k generalizing i with
  | zero => omega
  | succ k ih =>
    rw [Devices.nextFrom]
    rcases Nat.eq_or_lt_of_le hi with rfl | hlt
    · rw [if_pos (by omega), if_pos hj]
    · have hnil := hempty i (Nat.le_refl i) hlt
      rw [hnil, if_neg (by simp)]
      exact ih hlt (by omega) fun m hm => hempty m (by omega)

theorem nextFrom_valid {k i j : Nat} {r : Nat × Nat} (h : devices.nextFrom k i j = some r) :
    r.2 < (devices.disk r.1).length := by
  induction k generalizing i j with
  | zero => cases h
  | succ k ih =>
    rw [Devices.nextFrom] at h
    split at h
    next =>
      split at h
      next hj =>
        cases h
        exact hj
      next => exact ih h
    next => exact ih h

theorem getNext_same {diskNo j : Nat} (h : j + 1 < (devices.disk diskNo).length) :
    devices.getNextExt4DiskAndPartNo diskNo j = some (diskNo, j + 1) := by
  have hlt := disk_lt_length h
  exact nextFrom_skip (Nat.le_refl diskNo) (by omega) (fun m hm hm' => by omega) h

theorem getNext_last {diskNo diskNo' j : Nat} (h : (devices.disk diskNo).length = j + 1)
    (hlt : diskNo < diskNo') (hempty : ∀ m, diskNo < m → m < diskNo' → devices.disk m = [])
    (h' : 0 < (devices.disk diskNo').length) :
    devices.getNextExt4DiskAndPartNo diskNo j = some (diskNo', 0) := by
  have hlen := disk_lt_length h'
  obtain ⟨k, hk⟩ : ∃ k, devices.partNos.length - diskNo = k + 1 :=
    ⟨devices.partNos.length - diskNo - 1, by omega⟩
  rw [Devices.getNextExt4DiskAndPartNo, hk, Devices.nextFrom, if_pos (by omega), if_neg (by omega)]
  exact nextFrom_skip hlt (by omega) (fun m hm => hempty m hm) h'

theorem getFirst_eq {diskNo : Nat} (hempty : ∀ m < diskNo, devices.disk m = [])
    (h : 0 < (devices.disk diskNo).length) :
    devices.getFirstExt4DiskAndPartNo = some (diskNo, (devices.disk diskNo).getD 0 0) := by
  have hlen := disk_lt_length h
  have hfind : devices.partNos.findIdx? (fun partNos => !partNos.isEmpty) = some diskNo := by
    rw [List.findIdx?_eq_some_iff_getElem]
    refine ⟨hlen, ?_, ?_⟩
    · rw [← disk_eq_getElem hlen]
      simpa [List.length_pos_iff] using h
    · intro m hm
      rw [← disk_eq_getElem, hempty m hm]
      simp
  rw [Devices.getFirstExt4DiskAndPartNo, hfind]

theorem getFirst_valid {r : Nat × Nat} (h : devices.getFirstExt4DiskAndPartNo = some r) :
    (devices.disk r.1)[0]? = some r.2 := by
  unfold Devices.getFirstExt4DiskAndPartNo at h
  split at h
  next => cases h
  next diskNo hfind =>
    cases h
    obtain ⟨hlen, hne, -⟩ := List.findIdx?_eq_some_iff_getElem.mp hfind
    rw [← disk_eq_getElem hlen] at hne
    cases hparts : devices.disk diskNo with
    | nil => simp [hparts] at hne
    | cons p parts => simp

end Enumeration

/-! ## The calls on the root -/

section Calls

variable {σ : Type} {env : PluginEnv σ}

theorem fsFindNext_root (descr : Ext4PluginDescr σ) {lf : LastFind} (fd : FindData)
    (hroot : lf.root = true) {diskNo j : Nat}
    (hnext : env.devices.getNextExt4DiskAndPartNo lf.diskNo lf.partNoMap = some (diskNo, j)) :
    fsFindNext env descr lf fd = .ok ((true, { lf with diskNo, partNoMap := j },
      { fd with
        cFileName := Devices.displayName diskNo ((env.devices.disk diskNo).getD j 0) }),
      descr) := by
  rw [fsFindNext, if_pos hroot, findNextRoot, hnext]

theorem fsFindFirst_root (hinit : env.initialized = true)
    (hroot : env.toUtf8 [separator] = [separator]) (hsound : SoundDevices env.devices)
    (descr : Ext4PluginDescr σ) (fd : FindData) {diskNo : Nat}
    (hempty : ∀ m < diskNo, env.devices.disk m = []) (h : 0 < (env.devices.disk diskNo).length) :
    fsFindFirst env descr [separator] fd = .ok ((some ⟨true, diskNo, 0, 0⟩,
      { FindData.zero with
        dwFileAttributes := fileAttributeDirectory
        ftLastWriteTime := noTime
        cFileName := Devices.displayName diskNo ((env.devices.disk diskNo).getD 0 0) }),
      descr) := by
  have hmap : env.devices.idMap.isNone = false := by
    cases hidMap : env.devices.idMap with
    | none => simp [hsound.mapped hidMap diskNo] at h
    | some idMap => rfl
  have hpart : (env.devices.disk diskNo)[0]? = some ((env.devices.disk diskNo).getD 0 0) := by
    rw [List.getD_eq_getElem?_getD, List.getElem?_eq_getElem h, Option.getD_some]
  have hindex := hsound.indexed diskNo 0 _ hpart
  simp only [fsFindFirst, hinit, hmap, hroot, findFirstRoot, getFirst_eq hempty h, hindex]
  rfl

end Calls

def shownName (fd : FindData) : List UInt8 := fd.cFileName.takeWhile (· != 0)

/-- The listing of the root: a first call, and further ones on its handle. Between two
calls the plugin may do something else. -/
inductive RootShown {σ : Type} (env : PluginEnv σ) : LastFind → FindData → Prop
  | first {descr descr' : Ext4PluginDescr σ} {lf : LastFind} {fd fd' : FindData}
      (h : fsFindFirst env descr [separator] fd = .ok ((some lf, fd'), descr')) :
      RootShown env lf fd'
  | next {descr descr' : Ext4PluginDescr σ} {lf lf' : LastFind} {fd fd' fd₀ : FindData}
      (hshown : RootShown env lf fd₀)
      (h : fsFindNext env descr lf fd = .ok ((true, lf', fd'), descr')) : RootShown env lf' fd'

/-- The listing comes to partition `j` of a disk. -/
def Listed {σ : Type} (env : PluginEnv σ) (diskNo j : Nat) : Prop :=
  ∃ lf fd, RootShown env lf fd ∧ lf.diskNo = diskNo ∧ lf.partNoMap = j

/-- A name that stands for a partition, alone and in front of a path. -/
structure ReadAs (devices : Devices) (name : List UInt8) (diskNo partNo : Nat) : Prop where
  alone : devices.extractDiskAndPartNo (separator :: name) = some (diskNo, partNo)
  inPath : ∀ rest,
    devices.extractDiskAndPartNo (separator :: (name ++ separator :: rest)) = some (diskNo, partNo)

/-- Every partition is listed, by a name that is read as this partition and as no other. -/
structure NamesRoundTrip {σ : Type} (env : PluginEnv σ) : Prop where
  shown : ∀ diskNo j, j < (env.devices.disk diskNo).length → Listed env diskNo j
  decodes : ∀ lf fd, RootShown env lf fd →
    ∃ partNo, (env.devices.disk lf.diskNo)[lf.partNoMap]? = some partNo ∧
      ReadAs env.devices (shownName fd) lf.diskNo partNo
  distinct : ∀ lf fd lf' fd', RootShown env lf fd → RootShown env lf' fd' →
    shownName fd = shownName fd' → lf.diskNo = lf'.diskNo ∧ lf.partNoMap = lf'.partNoMap

section Listing

variable {σ : Type} {env : PluginEnv σ} (hroot : env.toUtf8 [separator] = [separator])
  (hsound : SoundDevices env.devices)
include hroot hsound

theorem rootShown_spec {lf : LastFind} {fd : FindData} (h : RootShown env lf fd) :
    lf.root = true ∧ ∃ partNo, (env.devices.disk lf.diskNo)[lf.partNoMap]? = some partNo ∧
      fd.cFileName = Devices.displayName lf.diskNo partNo := by
  induction h with
  | @first descr descr' lf fd fd' h =>
    simp only [fsFindFirst, if_pos hroot] at h
    split at h
    next => cases h
    next =>
      unfold findFirstRoot at h
      dsimp only at h
      split at h
      next => cases h
      next diskNo partNo hfirst =>
        have hpart := getFirst_valid hfirst
        rw [hsound.indexed diskNo 0 partNo hpart] at h
        cases h
        exact ⟨rfl, partNo, hpart, rfl⟩
  | @next descr descr' lf lf' fd fd' fd₀ hshown h ih =>
    unfold fsFindNext at h
    rw [if_pos ih.1] at h
    unfold findNextRoot at h
    split at h
    next => cases h
    next diskNo partNoMap hnext =>
      cases h
      have hvalid := nextFrom_valid hnext
      refine ⟨ih.1, _, List.getElem?_eq_getElem hvalid, ?_⟩
      rw [List.getD_eq_getElem?_getD, List.getElem?_eq_getElem hvalid, Option.getD_some]

variable (hinit : env.initialized = true) (descr : Ext4PluginDescr σ)
include hinit descr

omit hinit in
theorem listed_next {diskNo j diskNo' j' : Nat} (h : Listed env diskNo j)
    (hnext : env.devices.getNextExt4DiskAndPartNo diskNo j = some (diskNo', j')) :
    Listed env diskNo' j' := by
  obtain ⟨lf, fd, hshown, rfl, rfl⟩ := h
  have hlf := (rootShown_spec hroot hsound hshown).1
  exact ⟨_, _, .next hshown (fsFindNext_root descr fd hlf hnext), rfl, rfl⟩

theorem listed_first {diskNo : Nat} (hempty : ∀ m < diskNo, env.devices.disk m = [])
    (h : 0 < (env.devices.disk diskNo).length) : Listed env diskNo 0 :=
  ⟨_, _, .first (fsFindFirst_root hinit hroot hsound descr .zero hempty h), rfl, rfl⟩

omit hinit in
theorem listed_up {diskNo : Nat} (h : Listed env diskNo 0) :
    ∀ j, j < (env.devices.disk diskNo).length → Listed env diskNo j
  | 0, _ => h
  | j + 1, hj =>
    listed_next hroot hsound descr (listed_up h j (by omega)) (getNext_same hj)

/-- **The listing comes to every partition**, from the first of one disk over all of them to
the first of the next. -/
theorem listed_all {diskNo j : Nat} (hj : j < (env.devices.disk diskNo).length) :
    Listed env diskNo j := by
  have henum : Enumerates (fun i => 0 < (env.devices.disk i).length) fun i => Listed env i 0 := by
    constructor
    · intro i hi hnone
      exact listed_first hroot hsound hinit descr (fun m hm => by simpa using hnone m hm) hi
    · intro i i' hi hlisted hlt hi' hnone
      obtain ⟨k, hk⟩ : ∃ k, (env.devices.disk i).length = k + 1 :=
        ⟨_, (Nat.succ_pred_eq_of_pos hi).symm⟩
      have hlast := listed_up hroot hsound descr hlisted k (by omega)
      have hempty : ∀ m, i < m → m < i' → env.devices.disk m = [] :=
        fun m hm hm' => by simpa using hnone m hm hm'
      exact listed_next hroot hsound descr hlast (getNext_last hk hlt hempty hi')
  exact listed_up hroot hsound descr (henum.all diskNo (by omega)) j hj

end Listing

/-- The name of a partition among the first 26 disks is shown in full, and read back. -/
theorem readAs_of_lt {devices : Devices} {diskNo partNo : Nat} {fd : FindData}
    (hinc : Increasing (devices.disk diskNo)) (hpart : partNo ∈ devices.disk diskNo)
    (hint : ∀ p ∈ devices.disk diskNo, p < 2 ^ 31) (hdisk : diskNo < 26)
    (hname : fd.cFileName = Devices.displayName diskNo partNo) :
    ReadAs devices (shownName fd) diskNo partNo := by
  have hshape : shownName fd = Devices.displayName diskNo partNo := by
    rw [shownName, hname, takeWhile_displayName (hint partNo hpart)]
    intro hzero
    have hletter := letter_toNat hdisk
    rw [hzero] at hletter
    simp at hletter
  constructor
  · have halone := @extract_displayName _ _ _ hinc hpart hint hdisk [] rfl
    rwa [List.append_nil, ← hshape] at halone
  · intro rest
    rw [hshape]
    exact extract_displayName hinc hpart hint hdisk (by simp [named])

theorem same_of_readAs {devices : Devices} (hindexed : Indexed devices) {name : List UInt8}
    {diskNo diskNo' j j' partNo partNo' : Nat} (hget : (devices.disk diskNo)[j]? = some partNo)
    (hget' : (devices.disk diskNo')[j']? = some partNo') (hread : ReadAs devices name diskNo partNo)
    (hread' : ReadAs devices name diskNo' partNo') : diskNo = diskNo' ∧ j = j' := by
  have hsame := hread.alone.symm.trans hread'.alone
  simp only [Option.some.injEq, Prod.mk.injEq] at hsame
  obtain ⟨rfl, rfl⟩ := hsame
  have hindex := (hindexed _ _ _ hget).symm.trans (hindexed _ _ _ hget')
  exact ⟨rfl, Except.ok.inj hindex⟩

/-- **The names of the listing are read back exactly if the disks that have a partition are
among the first 26**, and their numbers can be told as an `int`. -/
theorem names_round_trip_iff {σ : Type} {env : PluginEnv σ} (descr : Ext4PluginDescr σ)
    {fuel p : Nat} {machine : Machine}
    (hsearch : searchSystemForLinuxExt2Partitions fuel machine = .ok (p, env.devices))
    (hinit : env.initialized = true) (hroot : env.toUtf8 [separator] = [separator]) :
    NamesRoundTrip env ↔
      ∀ diskNo, ∀ partNo ∈ env.devices.disk diskNo, diskNo < 26 ∧ partNo < 2 ^ 31 := by
  have hsound := searchSystem_sound hsearch
  have hlisted : ∀ diskNo j, j < (env.devices.disk diskNo).length → Listed env diskNo j :=
    fun _ _ hj => listed_all hroot hsound hinit descr hj
  constructor
  · intro h diskNo partNo hpart
    obtain ⟨j, hj, rfl⟩ := List.mem_iff_getElem.mp hpart
    obtain ⟨lf, fd, hshown, rfl, rfl⟩ := hlisted diskNo j hj
    obtain ⟨-, partNo, hget, hname⟩ := rootShown_spec hroot hsound hshown
    obtain ⟨partNo', hget', hread⟩ := h.decodes lf fd hshown
    cases hget.symm.trans hget'
    have halone := hread.alone
    rw [shownName, hname] at halone
    obtain ⟨hint, hdisk⟩ := extract_shown_lt halone
    rw [(List.getElem?_eq_some_iff.mp hget).2]
    exact ⟨hdisk hint, hint⟩
  · intro h
    have hdecodes : ∀ lf fd, RootShown env lf fd →
        ∃ partNo, (env.devices.disk lf.diskNo)[lf.partNoMap]? = some partNo ∧
          ReadAs env.devices (shownName fd) lf.diskNo partNo := by
      intro lf fd hshown
      obtain ⟨-, partNo, hget, hname⟩ := rootShown_spec hroot hsound hshown
      have hmem := List.mem_of_getElem? hget
      exact ⟨partNo, hget, readAs_of_lt (hsound.increasing _) hmem (fun q hq => (h _ q hq).2)
        (h _ _ hmem).1 hname⟩
    refine ⟨hlisted, hdecodes, ?_⟩
    intro lf fd lf' fd' hshown hshown' hname
    obtain ⟨partNo, hget, hread⟩ := hdecodes lf fd hshown
    obtain ⟨partNo', hget', hread'⟩ := hdecodes lf' fd' hshown'
    exact same_of_readAs hsound.indexed hget hget' (hname ▸ hread) hread'

/-- The plugin after it has searched the disks. -/
def searchedPlugin (devices : Devices) : PluginEnv LinuxDisks :=
  ⟨true, devices, linuxPartitions treeEnv, id, id⟩

theorem names_round_trip_twoDisks :
    ∃ p devices, searchSystemForLinuxExt2Partitions 3 twoDisks = .ok (p, devices) ∧
      devices.partNos = [[], [1, 6]] ∧ NamesRoundTrip (searchedPlugin devices) := by
  obtain ⟨tables, hinit, hnos⟩ := twoDisks_init
  obtain ⟨devices, hsearch, hpartNos, -⟩ := searchSystem_ok hinit
  rw [hnos] at hpartNos
  refine ⟨6, devices, hsearch, hpartNos, ?_⟩
  have hround := @names_round_trip_iff _ (searchedPlugin devices) ⟨treeDisks, none, 0⟩ _ _ _ hsearch
    rfl rfl
  refine hround.mpr ?_
  intro diskNo partNo hpart
  have hdisk := disk_lt_length (List.length_pos_of_mem hpart)
  rw [Devices.disk, searchedPlugin, hpartNos] at hpart
  rw [searchedPlugin, hpartNos] at hdisk
  obtain rfl | rfl : diskNo = 0 ∨ diskNo = 1 := by
    have hlt : diskNo < 2 := hdisk
    omega
  · simp at hpart
  · obtain rfl | rfl : partNo = 1 ∨ partNo = 6 := by simpa using hpart
    all_goals decide

/-- 26 disks without a partition, and one with two. -/
def manyDisks : Machine :=
  List.replicate 26 (diskOf [], ⟨fun _ => true, fun _ => true⟩) ++
    [(linuxDisk, ⟨fun _ => true, fun _ => true⟩)]

theorem manyDisks_init :
    ∃ tables, initDisks 3 0 manyDisks = .ok (6, tables) ∧
      tables.map LinuxTable.partNos = List.replicate 26 [] ++ [[1, 6]] :=
  initDisks_of_partNos (by decide +kernel)

/-- The first partition of disk 26 is shown as a name that is not read back. -/
theorem disk_letters_end :
    ∃ p devices, searchSystemForLinuxExt2Partitions 3 manyDisks = .ok (p, devices) ∧
      devices.disk 26 = [1, 6] ∧ ¬NamesRoundTrip (searchedPlugin devices) := by
  obtain ⟨tables, hinit, hnos⟩ := manyDisks_init
  obtain ⟨devices, hsearch, hpartNos, -⟩ := searchSystem_ok hinit
  rw [hnos] at hpartNos
  have hdisk : devices.disk 26 = [1, 6] := by
    rw [Devices.disk, hpartNos]
    rfl
  refine ⟨6, devices, hsearch, hdisk, ?_⟩
  intro h
  have hsound : SoundDevices (searchedPlugin devices).devices := searchSystem_sound hsearch
  obtain ⟨lf, fd, hshown, hlf, hmap⟩ := h.shown 26 0 (by rw [searchedPlugin, hdisk]; decide)
  obtain ⟨-, partNo, hget, hname⟩ := rootShown_spec rfl hsound hshown
  obtain ⟨partNo', -, hread⟩ := h.decodes lf fd hshown
  have hone : partNo = 1 := by
    rw [hlf, hmap, searchedPlugin, hdisk] at hget
    simpa using hget.symm
  have halone := hread.alone
  rw [shownName, hname, hlf, hone] at halone
  have hnone : (searchedPlugin devices).devices.extractDiskAndPartNo
      (separator :: (Devices.displayName 26 1).takeWhile (· != 0)) = none := rfl
  cases hnone.symm.trans halone

end Ext4tc.Plugin
