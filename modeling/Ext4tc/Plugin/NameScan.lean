import Ext4tc.Plugin.Devices

/-! # What the scan of a device name adds up

The loop of `extract_disk_and_part_no` takes letters and then digits, and folds both in 32 bits.
The disk is what the letters count in base 26 without a zero, the number what the digits are. -/

namespace Ext4tc.Plugin
open Ext4tc.Lib Ext4tc.DiskUtils

/-- What stands behind the first `\sd` of a path, up to the next separator. -/
def deviceName (path : List UInt8) : Option (List UInt8) :=
  (strstr [0x5c, 0x73, 0x64] path).map fun at' => (path.drop (at' + 3)).takeWhile (· != 0x5c)

def isLower (x : UInt8) : Bool := 0x61 ≤ x && x ≤ 0x7a

/-- The value of a row of digits, each of them counted from `off` on. -/
def numeral (base off : Int) (xs : List UInt8) : Int :=
  xs.foldl (fun v x => v * base + ((x.toNat : Int) - off)) 0

/-- The number of the letters, counted from 1 on as `a`, ..., `z`, `aa`, ... -/
def letterValue (letters : List UInt8) : Int := numeral 26 0x60 letters

def digitValue (digits : List UInt8) : Int := numeral 10 0x30 digits

/-- The name in a path is letters and then digits. -/
structure Spelled (path letters digits : List UInt8) : Prop where
  name : deviceName path = some (letters ++ digits)
  letters_ne : letters ≠ []
  digits_ne : digits ≠ []
  alpha : ∀ x ∈ letters, isAlpha x = true
  digit : ∀ x ∈ digits, isDigit x = true

/-! ## Numbers -/

theorem int32_eq {x : Int} (hlo : -2 ^ 31 ≤ x) (hhi : x < 2 ^ 31) : int32 x = x :=
  Int.bmod_eq_of_le (by omega) (by omega)

theorem int32_of_lt {n : Nat} (h : n < 2 ^ 31) : int32 n = n := int32_eq (by omega) (by omega)

theorem int32_lt (x : Int) : int32 x < 2 ^ 31 := by
  have h := Int.bmod_lt (x := x) (m := 2 ^ 32) (by decide)
  simpa [int32] using h

/-- The wrap of an intermediate result does not show in the result. -/
theorem int32_mul_add (x m y : Int) : int32 (int32 x * m + y) = int32 (x * m + y) := by
  rw [int32, int32, int32, ← Int.bmod_add_bmod, Int.bmod_mul_bmod, Int.bmod_add_bmod]

/-! ## The loop -/

theorem DeviceScan.step_first (x : UInt8) :
    DeviceScan.step {} x =
      if isAlpha x then some { wasAlpha := true, diskNo := (x.toNat : Int) - 0x60 } else none := by
  have hlt := UInt8.toNat_lt x
  have hword : int32 ((x.toNat : Int) - 0x61 + 1) = x.toNat - 0x60 := by
    rw [int32_eq (by omega) (by omega)]
    omega
  cases halpha : isAlpha x with
  | false => simp [DeviceScan.step, halpha]
  | true => simp [DeviceScan.step, halpha, hword]

theorem not_isAlpha_of_isDigit {x : UInt8} (h : isDigit x = true) : isAlpha x = false := by
  simp [isDigit, isAlpha, UInt8.le_iff_toNat_le] at h ⊢
  omega

theorem DeviceScan.step_alpha {scan : DeviceScan} {x : UInt8} (h : isAlpha x = true)
    (hdigit : scan.wasDigit = false) :
    scan.step x = some { scan with
      wasAlpha := true
      diskNo := int32 (scan.diskNo * 26 + ((x.toNat : Int) - 0x60)) } := by
  have hsum : scan.diskNo * 26 + x.toNat - 0x61 + 1 =
      scan.diskNo * 26 + ((x.toNat : Int) - 0x60) := by omega
  simp [DeviceScan.step, h, hdigit, hsum]

theorem DeviceScan.step_byte {scan : DeviceScan} {x : UInt8} (h : isDigit x = true)
    (halpha : scan.wasAlpha = true) :
    scan.step x = some { scan with
      wasDigit := true
      partNo := int32 (scan.partNo * 10 + ((x.toNat : Int) - 0x30)) } := by
  have hsum : scan.partNo * 10 + x.toNat - 0x30 =
      scan.partNo * 10 + ((x.toNat : Int) - 0x30) := by omega
  simp [DeviceScan.step, not_isAlpha_of_isDigit h, h, halpha, hsum]

theorem foldlM_letters {letters : List UInt8} (h : ∀ x ∈ letters, isAlpha x = true) (a : Int)
    {scan : DeviceScan} (hdigit : scan.wasDigit = false) (hdisk : scan.diskNo = int32 a) :
    letters.foldlM DeviceScan.step scan = some { scan with
      wasAlpha := scan.wasAlpha || !letters.isEmpty
      diskNo := int32 (letters.foldl (fun v x => v * 26 + ((x.toNat : Int) - 0x60)) a) } := by
  induction letters generalizing a scan with
  | nil => simp [← hdisk]
  | cons x letters ih =>
    rw [List.foldlM_cons, DeviceScan.step_alpha (h x List.mem_cons_self) hdigit]
    have hnext : int32 (scan.diskNo * 26 + ((x.toNat : Int) - 0x60)) =
        int32 (a * 26 + ((x.toNat : Int) - 0x60)) := by rw [hdisk, int32_mul_add]
    have hrest := @ih (fun y hy => h y (List.mem_cons_of_mem x hy)) _
      { scan with
        wasAlpha := true
        diskNo := int32 (scan.diskNo * 26 + ((x.toNat : Int) - 0x60)) } hdigit hnext
    simp only [Option.bind_eq_bind, Option.bind_some, List.foldl_cons, hrest]
    simp

theorem foldlM_rest {rest : List UInt8} (a : Int) {scan : DeviceScan}
    (halpha : scan.wasAlpha = true)
    (hhead : scan.wasDigit = false → ∀ x ∈ rest.head?, isAlpha x = false)
    (hpart : scan.partNo = int32 a) :
    rest.foldlM DeviceScan.step scan =
      if rest.all isDigit then some { scan with
        wasDigit := scan.wasDigit || !rest.isEmpty
        partNo := int32 (rest.foldl (fun v x => v * 10 + ((x.toNat : Int) - 0x30)) a) }
      else none := by
  induction rest generalizing a scan with
  | nil => simp [← hpart]
  | cons x rest ih =>
    rw [List.foldlM_cons]
    cases hx : isDigit x with
    | true =>
      rw [DeviceScan.step_byte hx halpha]
      have hnext : int32 (scan.partNo * 10 + ((x.toNat : Int) - 0x30)) =
          int32 (a * 10 + ((x.toNat : Int) - 0x30)) := by rw [hpart, int32_mul_add]
      have hrest := @ih _
        { scan with
          wasDigit := true
          partNo := int32 (scan.partNo * 10 + ((x.toNat : Int) - 0x30)) } halpha
        (fun hword => Bool.noConfusion hword) hnext
      simp only [Option.bind_eq_bind, Option.bind_some, List.foldl_cons, hrest]
      simp [hx]
    | false =>
      have hstep : scan.step x = none := by
        unfold DeviceScan.step
        cases hword : scan.wasDigit with
        | true => simp [hx]
        | false => simp [hx, hhead hword x rfl]
      rw [hstep, List.all_cons, hx, Bool.false_and, if_neg Bool.false_ne_true]
      rfl

theorem foldlM_spelled {letters digits : List UInt8} (hne : letters ≠ [])
    (halpha : ∀ x ∈ letters, isAlpha x = true) (hhead : ∀ x ∈ digits.head?, isAlpha x = false) :
    (letters ++ digits).foldlM DeviceScan.step {} =
      if digits.all isDigit then
        some ⟨true, !digits.isEmpty, int32 (letterValue letters), int32 (digitValue digits)⟩
      else none := by
  have hletters := @foldlM_letters letters halpha 0 {} rfl rfl
  have hnonempty : letters.isEmpty = false := List.isEmpty_eq_false_iff.mpr hne
  have hrest := @foldlM_rest digits 0
    ⟨true, false, int32 (letterValue letters), 0⟩ rfl (fun _ => hhead) rfl
  rw [List.foldlM_append, hletters, hnonempty]
  exact hrest

/-- **The loop takes letters and then digits, and nothing else.** -/
theorem scan_iff {name : List UInt8} {scan : DeviceScan} :
    (name.foldlM DeviceScan.step {} = some scan ∧ scan.wasDigit = true ∧ scan.wasAlpha = true) ↔
      ∃ letters digits, name = letters ++ digits ∧ letters ≠ [] ∧ digits ≠ [] ∧
        (∀ x ∈ letters, isAlpha x = true) ∧ (∀ x ∈ digits, isDigit x = true) ∧
        scan = ⟨true, true, int32 (letterValue letters), int32 (digitValue digits)⟩ := by
  constructor
  · rintro ⟨hscan, hdigit, halpha⟩
    have hhead : ∀ x ∈ (name.dropWhile isAlpha).head?, isAlpha x = false := by
      intro x hx
      have hnot := List.head?_dropWhile_not isAlpha name
      rw [Option.mem_def.mp hx] at hnot
      simpa using hnot
    have hsplit : name = name.takeWhile isAlpha ++ name.dropWhile isAlpha :=
      List.takeWhile_append_dropWhile.symm
    have hletters : ∀ x ∈ name.takeWhile isAlpha, isAlpha x = true :=
      fun x hx => List.all_eq_true.mp List.all_takeWhile x hx
    generalize name.takeWhile isAlpha = letters at hsplit hletters
    generalize name.dropWhile isAlpha = digits at hsplit hhead
    subst hsplit
    by_cases hne : letters = []
    · -- the first character is no letter
      subst hne
      cases digits with
      | nil =>
        cases hscan
        cases hdigit
      | cons x digits =>
        rw [List.nil_append, List.foldlM_cons, DeviceScan.step_first, hhead x rfl] at hscan
        cases hscan
    · rw [foldlM_spelled hne hletters hhead] at hscan
      split at hscan
      next hdigits =>
        cases hscan
        have hdigits_ne : digits ≠ [] := by
          rintro rfl
          cases hdigit
        refine ⟨letters, digits, rfl, hne, hdigits_ne, hletters, List.all_eq_true.mp hdigits, ?_⟩
        rw [List.isEmpty_eq_false_iff.mpr hdigits_ne]
        rfl
      next => cases hscan
  · rintro ⟨letters, digits, rfl, hne, hdigits_ne, hletters, hdigits, rfl⟩
    have hhead : ∀ x ∈ digits.head?, isAlpha x = false :=
      fun x hx => not_isAlpha_of_isDigit (hdigits x (List.mem_of_mem_head? hx))
    rw [foldlM_spelled hne hletters hhead, if_pos (List.all_eq_true.mpr hdigits),
      List.isEmpty_eq_false_iff.mpr hdigits_ne]
    exact ⟨rfl, rfl, rfl⟩

/-! ## The values -/

/-- The disk and the number of a name as the code has them. -/
def diskWord (letters : List UInt8) : Int := int32 (letterValue letters - 1)

def partWord (digits : List UInt8) : Int := int32 (digitValue digits)

section Values

variable {devices : Devices} {path letters digits : List UInt8} {diskNo partNo : Nat}

theorem int32_sub_one (x : Int) : int32 (int32 x - 1) = int32 (x - 1) := by
  have h := int32_mul_add x 1 (-1)
  rwa [Int.mul_one, Int.mul_one] at h

/-- **What a path is read as**: letters and digits, if their 32-bit values are valid. -/
theorem extract_iff : devices.extractDiskAndPartNo path = some (diskNo, partNo) ↔
    ∃ letters digits, Spelled path letters digits ∧
      devices.validateDiskAndPartNo (diskWord letters) (partWord digits) = true ∧
      (diskWord letters).toNat = diskNo ∧ (partWord digits).toNat = partNo := by
  unfold Devices.extractDiskAndPartNo
  cases hstr : strstr [0x5c, 0x73, 0x64] path with
  | none =>
    have hnone : deviceName path = none := by rw [deviceName, hstr, Option.map_none]
    constructor
    · nofun
    · rintro ⟨letters, digits, hspelled, -⟩
      cases hnone.symm.trans hspelled.name
  | some at' =>
    have hname : deviceName path = some ((path.drop (at' + 3)).takeWhile (· != 0x5c)) := by
      rw [deviceName, hstr, Option.map_some]
    dsimp only
    generalize (path.drop (at' + 3)).takeWhile (· != 0x5c) = name at hname ⊢
    constructor
    · intro h
      split at h
      next => cases h
      next =>
        split at h
        next => cases h
        next scan hscan =>
          split at h
          next => cases h
          next hflags =>
            simp only [Bool.or_eq_true, Bool.not_eq_true', not_or, Bool.not_eq_false] at hflags
            obtain ⟨letters, digits, rfl, hne, hdigits_ne, halpha, hdigit, rfl⟩ :=
              scan_iff.mp ⟨hscan, hflags⟩
            rw [int32_sub_one] at h
            split at h
            next hvalid =>
              cases h
              exact ⟨letters, digits, ⟨hname, hne, hdigits_ne, halpha, hdigit⟩, hvalid, rfl, rfl⟩
            next => cases h
    · rintro ⟨letters, digits, ⟨hname', hne, hdigits_ne, halpha, hdigit⟩, hvalid, rfl, rfl⟩
      obtain rfl := Option.some.inj (hname.symm.trans hname')
      obtain ⟨hscan, -, -⟩ := scan_iff.mpr
        ⟨letters, digits, rfl, hne, hdigits_ne, halpha, hdigit, rfl⟩
      have hlen : ¬(letters ++ digits).length < 2 := by
        have h₁ := List.length_pos_iff.mpr hne
        have h₂ := List.length_pos_iff.mpr hdigits_ne
        rw [List.length_append]
        omega
      simp only [if_neg hlen, hscan, int32_sub_one]
      rw [← diskWord, ← partWord, hvalid]
      rfl

theorem Spelled.unique {letters' digits' : List UInt8} (h : Spelled path letters digits)
    (h' : Spelled path letters' digits') : letters = letters' ∧ digits = digits' := by
  have hword : ∀ {letters digits}, Spelled path letters digits →
      (letters ++ digits).takeWhile isAlpha = letters := by
    intro letters digits h
    rw [List.takeWhile_append_of_pos h.alpha]
    obtain ⟨x, xs, rfl⟩ := List.exists_cons_of_ne_nil h.digits_ne
    rw [List.takeWhile_cons_of_neg, List.append_nil]
    simp [not_isAlpha_of_isDigit (h.digit x List.mem_cons_self)]
  have hname := Option.some.inj (h.name.symm.trans h'.name)
  have hletters : letters = letters' := by
    rw [← hword h, hname, hword h']
  subst hletters
  exact ⟨rfl, List.append_cancel_left hname⟩

/-- Digits that are no less than their zero do not make a value smaller. -/
theorem le_foldl_numeral {base off k : Int} (hbase : 1 ≤ base) (hk : 0 ≤ k) {xs : List UInt8}
    (h : ∀ x ∈ xs, off ≤ (x.toNat : Int)) {a : Int} (ha : k ≤ a) :
    k ≤ xs.foldl (fun v x => v * base + ((x.toNat : Int) - off)) a := by
  induction xs generalizing a with
  | nil => exact ha
  | cons x xs ih =>
    have hx := h x List.mem_cons_self
    have hmul := Int.mul_le_mul_of_nonneg_left hbase (show 0 ≤ a by omega)
    rw [Int.mul_one] at hmul
    have hstep : k ≤ a * base + ((x.toNat : Int) - off) := by omega
    exact ih (fun y hy => h y (List.mem_cons_of_mem x hy)) hstep

theorem letterValue_pos (hne : letters ≠ []) (h : ∀ x ∈ letters, isLower x = true) :
    1 ≤ letterValue letters := by
  have hlow : ∀ x ∈ letters, (0x61 : Int) ≤ (x.toNat : Int) := by
    intro x hx
    have hlower := h x hx
    simp [isLower, UInt8.le_iff_toNat_le] at hlower
    omega
  obtain ⟨x, xs, rfl⟩ := List.exists_cons_of_ne_nil hne
  have hx := hlow x List.mem_cons_self
  have hfirst : (1 : Int) ≤ 0 * 26 + ((x.toNat : Int) - 0x60) := by omega
  refine @le_foldl_numeral 26 0x60 1 (by decide) (by decide) xs (fun y hy => ?_) _ hfirst
  have hy' := hlow y (List.mem_cons_of_mem x hy)
  omega

theorem digitValue_nonneg (h : ∀ x ∈ digits, isDigit x = true) : 0 ≤ digitValue digits := by
  refine le_foldl_numeral (by decide) (by decide) (fun x hx => ?_) (by decide)
  have hdigit := h x hx
  simp [isDigit, UInt8.le_iff_toNat_le] at hdigit
  omega

end Values

end Ext4tc.Plugin
