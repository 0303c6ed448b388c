import Ext4tc.Plugin.Ext4Plugin

/-! # Converting names between code pages

`MultibyteToMultibyte` goes through wide characters with the two conversions of the system,
and returns what the second one returns: the bytes it wrote, the terminator among them. Its
three callers store a terminator of their own at that index, which is one place further on. -/

namespace Ext4tc.Plugin
open Ext4tc.Lib Ext4tc.Fs

def cpAcp : Nat := 0
def cpUtf8 : Nat := 65001

/-- The conversions of the system: what `MultiByteToWideChar` writes, of so many bytes and
into so many characters; and what `WideCharToMultiByte` returns and writes, of a terminated
string and into so many bytes. -/
structure Conversions where
  multiByteToWideChar : (codePage : Nat) → List UInt8 → (cchWideChar : Nat) → List UInt16
  wideCharToMultiByte : (codePage : Nat) → List UInt16 → (cbMultiByte : Nat) → Nat × List UInt8

/-- The documented behaviour of `WideCharToMultiByte`, where `text` is the string in the code
page: it writes the text and a terminator and counts both, or returns 0 if they do not fit. -/
structure Conversions.Documented (conv : Conversions) (text : Nat → List UInt16 → List UInt8) :
    Prop where
  fits : ∀ codePage wide n, (text codePage wide).length + 1 ≤ n →
    conv.wideCharToMultiByte codePage wide n =
      ((text codePage wide).length + 1, text codePage wide ++ [0])
  tooLong : ∀ codePage wide n, n < (text codePage wide).length + 1 →
    (conv.wideCharToMultiByte codePage wide n).1 = 0
  text_ne_zero : ∀ codePage wide, (0 : UInt8) ∉ text codePage wide

section Convert

variable (conv : Conversions)

/-- The wide characters in `wzTemp`, which is `nSrcLen + 1` zeros before. -/
def wzTemp (codePage : Nat) (src : List UInt8) (nSrcLen : Nat) : List UInt16 :=
  ((conv.multiByteToWideChar codePage src nSrcLen).take nSrcLen).takeWhile (· != 0)

/-- `MultibyteToMultibyte`: what it returns, and the bytes it writes into the destination. A
source is its bytes from the pointer on; `lpDestStr` tells whether there is a destination. -/
def multibyteToMultibyte (dwSrcCodePage : Nat) (lpSrcStr : Option (List UInt8)) (cbSrcStr : Int)
    (dwDestCodePage : Nat) (lpDestStr : Bool) (cbDestStr : Nat) : Nat × List UInt8 :=
  if dwSrcCodePage = dwDestCodePage then (0, [])
  else
    match lpSrcStr with
    | none => (0, [])
    | some bytes =>
      let nSrcLen :=
        if cbSrcStr = -1 then (bytes.takeWhile (· != 0)).length + 1 else cbSrcStr.toNat
      if !lpDestStr || cbDestStr = 0 then (nSrcLen, [])
      else conv.wideCharToMultiByte dwDestCodePage
        (wzTemp conv dwSrcCodePage (bytes.take nSrcLen) nSrcLen) cbDestStr

/-- The call of `FsFindFirst`, for `convPath`. -/
def findFirstConversion (path : List UInt8) : Nat × List UInt8 :=
  multibyteToMultibyte conv cpAcp (some (path ++ [0])) path.length cpUtf8 true maxPath

/-- That of `FsGetFile`, for `convRemoteName`. -/
def getFileConversion (remoteName : List UInt8) : Nat × List UInt8 :=
  multibyteToMultibyte conv cpAcp (some (remoteName ++ [0])) remoteName.length cpUtf8 true maxPath

/-- That of `RETURN_FILE`, for `cFileName`. The name is not terminated in its record. -/
def returnFileConversion (dir : Ext4DirEntry2) : Nat × List UInt8 :=
  multibyteToMultibyte conv cpUtf8 (some dir.nameBytes) dir.nameLen cpAcp true maxPath

/-- A path of the caller in UTF-8, and a name of the disk in the code page of the caller. -/
def pathText (text : Nat → List UInt16 → List UInt8) (path : List UInt8) : List UInt8 :=
  text cpUtf8 (wzTemp conv cpAcp path path.length)

def nameText (text : Nat → List UInt16 → List UInt8) (dir : Ext4DirEntry2) : List UInt8 :=
  text cpAcp (wzTemp conv cpUtf8 dir.nameBytes dir.nameLen)

/-- The terminator that a caller stores lies inside its `MAX_PATH` bytes. -/
def TerminatorInside (out : Nat × List UInt8) : Prop := out.1 < maxPath

instance (out : Nat × List UInt8) : Decidable (TerminatorInside out) :=
  inferInstanceAs (Decidable (_ < _))

/-- The string in a destination that held `old`, with the caller's terminator in it. -/
def storedString (old : List UInt8) (out : Nat × List UInt8) : List UInt8 :=
  ((out.2 ++ old.drop out.2.length).set out.1 0).takeWhile (· != 0)

end Convert

section Documented

variable {conv : Conversions} {text : Nat → List UInt16 → List UInt8}

/-- A source of `n` bytes, converted into another code page and a buffer of `MAX_PATH` bytes. -/
theorem multibyteToMultibyte_eq {src dest : Nat} (hne : src ≠ dest) (bytes : List UInt8) (n : Nat) :
    multibyteToMultibyte conv src (some bytes) n dest true maxPath =
      conv.wideCharToMultiByte dest (wzTemp conv src (bytes.take n) n) maxPath := by
  have hcount : ¬(n : Int) = -1 := by omega
  rw [multibyteToMultibyte, if_neg hne]
  dsimp only
  rw [if_neg (by decide), if_neg hcount, Int.toNat_natCast]

/-- **The index is past the end for one length only**: a text that fills the buffer with its
terminator. A longer one is not written, and its index is 0. -/
theorem terminatorInside_iff (hdoc : conv.Documented text) (codePage : Nat) (wide : List UInt16) :
    TerminatorInside (conv.wideCharToMultiByte codePage wide maxPath) ↔
      (text codePage wide).length ≠ maxPath - 1 := by
  unfold TerminatorInside
  rcases Nat.lt_or_ge maxPath ((text codePage wide).length + 1) with hlong | hfits
  · rw [hdoc.tooLong codePage wide maxPath hlong]
    exact iff_of_true (by decide) (by unfold maxPath at hlong ⊢; omega)
  · rw [hdoc.fits codePage wide maxPath hfits]
    unfold maxPath at hfits ⊢
    dsimp only
    omega

/-- The string that a caller then has: the text, or an empty one if that does not fit. -/
theorem storedString_eq (hdoc : conv.Documented text) (codePage : Nat) (wide : List UInt16)
    (old : List UInt8) :
    storedString old (conv.wideCharToMultiByte codePage wide maxPath) =
      if (text codePage wide).length < maxPath then text codePage wide else [] := by
  rcases Nat.lt_or_ge (text codePage wide).length maxPath with hfits | hlong
  · have hmem : ∀ x ∈ text codePage wide, (x != 0) = true := fun x hx =>
      bne_iff_ne.mpr fun hzero => hdoc.text_ne_zero codePage wide (hzero ▸ hx)
    rw [hdoc.fits codePage wide maxPath hfits, if_pos hfits, storedString, List.append_assoc,
      List.set_append_right _ _ (Nat.le_succ _), List.takeWhile_append_of_pos hmem]
    rw [Nat.succ_sub (Nat.le_refl _), Nat.sub_self, List.singleton_append, List.set_cons_succ]
    exact List.append_nil _
  · rw [if_neg (Nat.not_lt.mpr hlong), storedString,
      hdoc.tooLong codePage wide maxPath (Nat.lt_succ_of_le hlong)]
    cases (conv.wideCharToMultiByte codePage wide maxPath).2 ++ _ with
    | nil => rfl
    | cons x rest => rfl

theorem findFirstConversion_eq (path : List UInt8) :
    findFirstConversion conv path =
      conv.wideCharToMultiByte cpUtf8 (wzTemp conv cpAcp path path.length) maxPath := by
  rw [findFirstConversion, multibyteToMultibyte_eq (by decide), List.take_left']
  rfl

theorem returnFileConversion_eq (dir : Ext4DirEntry2) :
    returnFileConversion conv dir =
      conv.wideCharToMultiByte cpAcp (wzTemp conv cpUtf8 dir.nameBytes dir.nameLen) maxPath := by
  have hlen : dir.nameBytes.length ≤ dir.nameLen := by simp [Ext4DirEntry2.nameBytes]
  rw [returnFileConversion, multibyteToMultibyte_eq (by decide), List.take_of_length_le hlen]

/-- **The terminators of the three callers lie inside exactly if** the converted text does not
have `MAX_PATH - 1` bytes, whatever the conversion makes of the path or the name. -/
theorem name_conversion_inside_iff (hdoc : conv.Documented text) :
    (∀ path, path.length ≤ maxPath - 1 → (TerminatorInside (findFirstConversion conv path) ↔
      (pathText conv text path).length ≠ maxPath - 1)) ∧
    (∀ path, path.length ≤ maxPath - 1 → (TerminatorInside (getFileConversion conv path) ↔
      (pathText conv text path).length ≠ maxPath - 1)) ∧
    ∀ dir : Ext4DirEntry2, dir.nameLen ≤ 255 → (TerminatorInside (returnFileConversion conv dir) ↔
      (nameText conv text dir).length ≠ maxPath - 1) := by
  have hpath : ∀ path, TerminatorInside (findFirstConversion conv path) ↔
      (pathText conv text path).length ≠ maxPath - 1 := by
    intro path
    rw [findFirstConversion_eq, terminatorInside_iff hdoc]
    rfl
  refine ⟨fun path _ => hpath path, fun path _ => hpath path, fun dir _ => ?_⟩
  rw [returnFileConversion_eq, terminatorInside_iff hdoc]
  rfl

end Documented

/-! ## Names of ASCII characters -/

/-- The text in a code page that has the characters below 128, and `?` for all others. -/
def asciiText (_codePage : Nat) (wide : List UInt16) : List UInt8 :=
  wide.map fun c => if c ≠ 0 ∧ c < 128 then c.toUInt8 else 0x3f

def asciiConversions : Conversions where
  multiByteToWideChar _ src n := (src.map UInt8.toUInt16).take n
  wideCharToMultiByte codePage wide n :=
    if (asciiText codePage wide).length + 1 ≤ n then
      ((asciiText codePage wide).length + 1, asciiText codePage wide ++ [0])
    else (0, [])

theorem asciiConversions_documented : asciiConversions.Documented asciiText where
  fits _ _ _ h := if_pos h
  tooLong _ _ _ h := congrArg Prod.fst (if_neg (Nat.not_le.mpr h))
  text_ne_zero _ wide h := by
    obtain ⟨c, -, hc⟩ := List.mem_map.mp h
    split at hc
    next hchar =>
      have hbyte : c.toNat % 2 ^ 8 = 0 := congrArg UInt8.toNat hc
      have hlt : c.toNat < 128 := UInt16.lt_iff_toNat_lt.mp hchar.2
      exact hchar.1 (UInt16.toNat_inj.mp (by rw [UInt16.toNat_zero]; omega))
    next => cases hc

/-- A short path. -/
theorem name_conversion_inside_sda1 :
    TerminatorInside (findFirstConversion asciiConversions [0x5c, 0x73, 0x64, 0x61, 0x31]) :=
  ((name_conversion_inside_iff asciiConversions_documented).1 _ (by decide)).mpr (by decide)

theorem asciiText_row (codePage n : Nat) :
    (asciiText codePage (wzTemp asciiConversions cpAcp (List.replicate n 0x61) n)).length = n := by
  simp [wzTemp, asciiConversions, asciiText]

/-- A path of 259 characters, the longest that the caller can pass. -/
theorem longest_path_overruns :
    ¬∀ (conv : Conversions) (text : Nat → List UInt16 → List UInt8), conv.Documented text →
      ∀ path : List UInt8, path.length ≤ maxPath - 1 →
        TerminatorInside (findFirstConversion conv path) := by
  intro h
  have hinside := h asciiConversions asciiText asciiConversions_documented
    (List.replicate 259 0x61) (by rw [List.length_replicate]; decide)
  rw [findFirstConversion_eq, terminatorInside_iff asciiConversions_documented,
    List.length_replicate, asciiText_row] at hinside
  exact hinside rfl

end Ext4tc.Plugin
