import Mathlib.Data.List.Basic
import Mathlib.Data.Nat.Bitwise
import Mathlib.Tactic.Ring

/-! # Bytes, buffers and fixed-width words

A buffer is a pointer into memory: its `size` bytes are the ones it was
allocated for, `byte i` with `size ≤ i` is whatever lies behind them. Integers
stored in a buffer are little-endian and come out as `Nat`s below their width,
so an access is total and its bounds are a separate question. -/

namespace Ext4tc.Lib

structure Buffer where
  size : Nat
  byte : Nat → UInt8

namespace Buffer

def u8 (b : Buffer) (i : Nat) : Nat := (b.byte i).toNat

def u16 (b : Buffer) (i : Nat) : Nat := b.u8 i + 2 ^ 8 * b.u8 (i + 1)

def u32 (b : Buffer) (i : Nat) : Nat := b.u16 i + 2 ^ 16 * b.u16 (i + 2)

def slice (b : Buffer) (off len : Nat) : List UInt8 :=
  (List.range len).map fun i => b.byte (off + i)

def shift (b : Buffer) (off : Nat) : Buffer := ⟨b.size - off, fun i => b.byte (off + i)⟩

def zeros (size : Nat) : Buffer := ⟨size, fun _ => 0⟩

/-- The buffer with `bytes` written over it from `off` on. -/
def poke (b : Buffer) (off : Nat) (bytes : List UInt8) : Buffer :=
  ⟨b.size, fun i => if off ≤ i then bytes[i - off]?.getD (b.byte i) else b.byte i⟩

def pokes (b : Buffer) (writes : List (Nat × List UInt8)) : Buffer :=
  writes.foldl (fun b w => b.poke w.1 w.2) b

theorem u8_lt (b : Buffer) (i : Nat) : b.u8 i < 2 ^ 8 := (b.byte i).toNat_lt

theorem u16_lt (b : Buffer) (i : Nat) : b.u16 i < 2 ^ 16 := by
  have h₀ := b.u8_lt i
  have h₁ := b.u8_lt (i + 1)
  unfold u16
  omega

theorem u32_lt (b : Buffer) (i : Nat) : b.u32 i < 2 ^ 32 := by
  have h₀ := b.u16_lt i
  have h₁ := b.u16_lt (i + 2)
  unfold u32
  omega

theorem u32_congr {b c : Buffer} {i j : Nat}
    (h : ∀ k, k < 4 → b.byte (i + k) = c.byte (j + k)) : b.u32 i = c.u32 j := by
  have h₀ := h 0 (by omega)
  have h₁ := h 1 (by omega)
  have h₂ := h 2 (by omega)
  have h₃ := h 3 (by omega)
  simp only [Nat.add_zero] at h₀
  simp only [u32, u16, u8, Nat.add_assoc, Nat.reduceAdd, h₀, h₁, h₂, h₃]

@[simp] theorem slice_length (b : Buffer) (off len : Nat) : (b.slice off len).length = len := by
  simp [slice]

theorem slice_take (b : Buffer) (off : Nat) {m len : Nat} (h : m ≤ len) :
    (b.slice off len).take m = b.slice off m := by
  simp [slice, ← List.map_take, List.take_range, Nat.min_eq_left h]

end Buffer

/-! ## Rows of blocks -/

section Chunks

variable {α : Type} {f : Nat → List α} {w : Nat}

theorem flatMap_range_length (hw : ∀ i, (f i).length = w) :
    ∀ n, ((List.range n).flatMap f).length = n * w
  | 0 => by simp
  | n + 1 => by
    rw [List.range_succ, List.flatMap_append, List.length_append, flatMap_range_length hw n,
      List.flatMap_singleton, hw, Nat.succ_mul]

theorem take_flatMap_range (hw : ∀ i, (f i).length = w) {m n r : Nat} (hm : m < n) (hr : r ≤ w) :
    ((List.range n).flatMap f).take (m * w + r) = (List.range m).flatMap f ++ (f m).take r := by
  obtain ⟨d, rfl⟩ := Nat.exists_eq_add_of_lt hm
  rw [Nat.add_assoc, List.range_add, List.flatMap_append, ← flatMap_range_length hw m,
    List.take_length_add_append, List.range_succ_eq_map, List.map_cons, List.flatMap_cons,
      Nat.add_zero,
    List.take_append_of_le_length (by rw [hw]; exact hr)]

theorem flatMap_range_inj {g : Nat → List α} (hlen : ∀ i, (f i).length = (g i).length) :
    ∀ m, (List.range m).flatMap f = (List.range m).flatMap g ↔ ∀ i < m, f i = g i
  | 0 => iff_of_true rfl nofun
  | m + 1 => by
    simp only [List.range_succ, List.flatMap_append, List.flatMap_singleton]
    constructor
    · intro h
      obtain ⟨hrow, hlast⟩ := List.append_inj' h (hlen m)
      have ih := (flatMap_range_inj hlen m).mp hrow
      intro i hi
      rcases Nat.lt_succ_iff_lt_or_eq.mp hi with hlt | rfl
      · exact ih i hlt
      · exact hlast
    · intro h
      rw [(flatMap_range_inj hlen m).mpr fun i hi => h i (Nat.lt_succ_of_lt hi),
        h m (Nat.lt_succ_self m)]

end Chunks

/-! ## Rounding -/

theorem round_up {n d : Nat} (hd : 0 < d) :
    n ≤ (n + d - 1) / d * d ∧ (n + d - 1) / d * d < n + d := by
  have hdiv := Nat.div_add_mod (n + d - 1) d
  have hmod := Nat.mod_lt (n + d - 1) hd
  rw [Nat.mul_comm] at hdiv
  omega

/-! ## Unsigned 32-bit arithmetic -/

def sub32 (x y : Nat) : Nat := (x + (2 ^ 32 - y)) % 2 ^ 32

def shl32 (x n : Nat) : Nat := x * 2 ^ n % 2 ^ 32

theorem sub32_of_le {x y : Nat} (h : y ≤ x) (hx : x < 2 ^ 32) : sub32 x y = x - y := by
  unfold sub32
  omega

theorem bmod_word {x : Nat} (h : x < 2 ^ 32) :
    Int.bmod x (2 ^ 32) = if x < 2 ^ 31 then (x : Int) else (x : Int) - 2 ^ 32 := by
  by_cases hsmall : x < 2 ^ 31
  · rw [if_pos hsmall, Int.bmod_eq_of_le (by omega) (by omega)]
  · have hmod : (x : Int) % (2 ^ 32 : Nat) = x := by omega
    rw [if_neg hsmall, Int.bmod_def, hmod, if_neg (by omega)]
    rfl

/-- Shifting out all 32 bits in two steps leaves nothing. -/
theorem shl32_shl32 (x : Nat) : shl32 (shl32 x 31) 1 = 0 := by
  unfold shl32
  omega

theorem or_low_eq_add (hi lo : Nat) (h : lo < 2 ^ 32) :
    (hi * 2 ^ 32) ||| lo = hi * 2 ^ 32 + lo := by
  rw [← Nat.shiftLeft_eq, ← Nat.shiftLeft_add_eq_or_of_lt h]

end Ext4tc.Lib
