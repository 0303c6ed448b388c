import Mathlib.Data.Fintype.EquivFin
import Mathlib.Data.Fintype.Pigeonhole

/-! # Walks along pointers

A walk starts at a place and goes on to the next one, as long as there is a next
one. `place` counts the steps, `trail` lists what was passed. In a bounded set of
places a walk ends exactly if it comes to no place twice. A walk along which a
number never falls and stays bounded ends, or that number stops growing. -/

namespace Ext4tc.Lib.Walk

variable {α : Type} (next : α → Option α)

def place (a : α) : Nat → Option α
  | 0 => some a
  | k + 1 => (place a k).bind next

def Ends (a : α) : Prop := ∃ k, place next a k = none

def trail (a : α) : Nat → List α
  | 0 => []
  | k + 1 =>
    match next a with
    | none => [a]
    | some b => a :: trail b k

@[simp] theorem place_zero (a : α) : place next a 0 = some a := rfl

theorem place_succ (a : α) (k : Nat) : place next a (k + 1) = (place next a k).bind next := rfl

variable {next} {a b : α} {i j k : Nat}

theorem place_add (h : place next a i = some b) (k : Nat) :
    place next a (i + k) = place next b k := by
  induction k with
  | zero => exact h
  | succ k ih => rw [← Nat.add_assoc, place_succ, ih, place_succ]

theorem place_succ' (a : α) (k : Nat) :
    place next a (k + 1) = (next a).bind fun b => place next b k := by
  cases hnext : next a with
  | some b =>
    have hone : place next a 1 = some b := by simp [place_succ, hnext]
    rw [Nat.add_comm, place_add hone, Option.bind_some]
  | none =>
    induction k with
    | zero => simp [place_succ, hnext]
    | succ k ih => rw [place_succ, ih]; rfl

/-- Past its end a walk stays ended. -/
theorem place_none_mono (hij : i ≤ j) (h : place next a i = none) : place next a j = none := by
  induction j, hij using Nat.le_induction with
  | base => exact h
  | succ j _ ih => rw [place_succ, ih, Option.bind_none]

theorem place_some_mono (hij : i ≤ j) (h : place next a j = some b) :
    ∃ c, place next a i = some c := by
  cases hi : place next a i with
  | some c => exact ⟨c, rfl⟩
  | none => rw [place_none_mono hij hi] at h; cases h

theorem mem_trail : ∀ {k : Nat} {a : α}, b ∈ trail next a k ↔ ∃ i < k, place next a i = some b
  | 0, a => by simp [trail]
  | k + 1, a => by
    have hsplit : (∃ i < k + 1, place next a i = some b) ↔
        b = a ∨ ∃ i < k, place next a (i + 1) = some b := by
      constructor
      · rintro ⟨i, hi, hb⟩
        cases i with
        | zero => exact .inl (Option.some.inj hb).symm
        | succ i => exact .inr ⟨i, by omega, hb⟩
      · rintro (rfl | ⟨i, hi, hb⟩)
        · exact ⟨0, by omega, rfl⟩
        · exact ⟨i + 1, by omega, hb⟩
    rw [hsplit, trail]
    cases hnext : next a with
    | none => simp [place_succ', hnext]
    | some c => simp [place_succ', hnext, mem_trail]

/-! ## Walks that come back -/

/-- A walk that comes to a place twice goes round for ever. -/
theorem not_ends_of_return (hij : i < j) (hi : place next a i = some b)
    (hj : place next a j = some b) : ¬Ends next a := by
  rintro ⟨k, hk⟩
  have hround : ∀ m, place next b (m * (j - i)) = some b := by
    intro m
    induction m with
    | zero => simp
    | succ m ih =>
      rw [Nat.succ_mul, place_add ih, ← place_add hi, show i + (j - i) = j by omega, hj]
  have hfar : k ≤ i + k * (j - i) := by
    have := Nat.le_mul_of_pos_right k (show 0 < j - i by omega)
    omega
  have hlast := place_none_mono hfar hk
  rw [place_add hi, hround k] at hlast
  cases hlast

/-- **In a bounded set of places a walk ends exactly if it never comes back.** -/
theorem ends_iff_never_returns {f : α → Nat} (hf : Function.Injective f) {bound : Nat}
    (hbound : ∀ k b, place next a k = some b → f b < bound) :
    Ends next a ↔ ∀ i j b, i < j → place next a i = some b → place next a j ≠ some b := by
  constructor
  · intro hends i j b hij hi hj
    exact not_ends_of_return hij hi hj hends
  · intro hnever
    by_contra hforever
    have hsome : ∀ k, ∃ b, place next a k = some b := by
      intro k
      cases hk : place next a k with
      | none => exact absurd ⟨k, hk⟩ hforever
      | some b => exact ⟨b, rfl⟩
    choose b hb using hsome
    obtain ⟨i, j, hne, heq⟩ := Finite.exists_ne_map_eq_of_infinite
      fun k => (⟨f (b k), hbound k _ (hb k)⟩ : Fin bound)
    have hsame : b i = b j := hf (by simpa using heq)
    rcases Nat.lt_or_gt_of_ne hne with hlt | hlt
    · exact hnever i j (b i) hlt (hb i) (hsame ▸ hb j)
    · exact hnever j i (b j) hlt (hb j) (hsame ▸ hb i)

/-! ## Walks that climb -/

/-- **A climb below a bound ends, or comes to a standstill.** -/
theorem ends_or_stalls {f : α → Nat} {bound : Nat}
    (hbound : ∀ k b, place next a k = some b → f b < bound)
    (hclimb : ∀ k b c, place next a k = some b → next b = some c → f b ≤ f c) :
    Ends next a ∨ ∃ k b, place next a k = some b ∧
      ∀ m, ∃ c, place next b m = some c ∧ f c = f b := by
  by_contra hneither
  rw [not_or] at hneither
  obtain ⟨hforever, hmoves⟩ := hneither
  have hsome : ∀ k, ∃ b, place next a k = some b := by
    intro k
    cases hk : place next a k with
    | none => exact absurd ⟨k, hk⟩ hforever
    | some b => exact ⟨b, rfl⟩
  have hmono : ∀ k b, place next a k = some b → ∀ m c, place next b m = some c → f b ≤ f c := by
    intro k b hb m
    induction m with
    | zero =>
      intro c hc
      cases hc
      exact Nat.le_refl _
    | succ m ih =>
      intro c hc
      obtain ⟨d, hd⟩ := place_some_mono (Nat.le_succ m) hc
      have hstep : next d = some c := by rwa [place_succ, hd] at hc
      exact Nat.le_trans (ih d hd) (hclimb (k + m) d c (by rw [place_add hb, hd]) hstep)
  -- every place is followed by a higher one, so the number passes every bound
  have hhigh : ∀ n, ∃ k b, place next a k = some b ∧ n ≤ f b := by
    intro n
    induction n with
    | zero =>
      obtain ⟨b, hb⟩ := hsome 0
      exact ⟨0, b, hb, Nat.zero_le _⟩
    | succ n ih =>
      obtain ⟨k, b, hb, hn⟩ := ih
      have hmove : ∃ m, ∀ c, place next b m = some c → f c ≠ f b := by
        by_contra hstill
        push Not at hstill
        exact hmoves ⟨k, b, hb, hstill⟩
      obtain ⟨m, hm⟩ := hmove
      obtain ⟨c, hc⟩ := hsome (k + m)
      rw [place_add hb] at hc
      have hle := hmono k b hb m c hc
      have hne := hm c hc
      exact ⟨k + m, c, by rw [place_add hb, hc], by omega⟩
  obtain ⟨k, b, hb, hn⟩ := hhigh bound
  exact absurd (hbound k b hb) (by omega)

theorem not_ends_of_forever {k : Nat} (hb : place next a k = some b)
    (h : ∀ m, ∃ c, place next b m = some c) : ¬Ends next a := by
  rintro ⟨j, hj⟩
  obtain ⟨c, hc⟩ := h j
  have hlast := place_none_mono (Nat.le_add_left j k) hj
  rw [place_add hb, hc] at hlast
  cases hlast

end Ext4tc.Lib.Walk
