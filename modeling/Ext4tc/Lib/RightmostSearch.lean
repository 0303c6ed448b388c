import Mathlib.Data.Nat.Basic
import Mathlib.Order.Lattice

/-! # Rightmost entry not above a key

A table of `n` entries is a function from positions to keys. `IsRightmost`
says which position a search for `x` must answer: the last one whose key is not
above `x`, or position 0 when every key is above. The search keeps a window that
starts at position 1 and answers the position before it. -/

namespace Ext4tc.Lib

variable {κ : Type} [LinearOrder κ]

/-- Position `j` is the last of the `n` with a key not above `x`, or the first
one when there is no such position. -/
structure IsRightmost (key : Nat → κ) (n : Nat) (x : κ) (j : Nat) : Prop where
  lt : j < n
  below : j ≠ 0 → key j ≤ x
  above : ∀ i, j < i → i < n → x < key i

def StrictlySorted (key : Nat → κ) (n : Nat) : Prop :=
  ∀ i j, i < j → j < n → key i < key j

instance (key : Nat → κ) (n : Nat) : Decidable (StrictlySorted key n) :=
  decidable_of_iff (∀ j, j < n → ∀ i, i < j → key i < key j)
    ⟨fun h i j hij hj => h j hj i hij, fun h j hj i hij => h i j hij hj⟩

def Sorted (key : Nat → κ) (n : Nat) : Prop := ∀ i j, i < j → j < n → key i ≤ key j

theorem StrictlySorted.sorted {key : Nat → κ} {n : Nat} (h : StrictlySorted key n) :
    Sorted key n := fun i j hij hj => le_of_lt (h i j hij hj)

/-- One past the window's right end is `hi`, so that an empty window needs no
position before the table. -/
def searchFrom (key : Nat → κ) (x : κ) (l hi : Nat) : Nat :=
  if l < hi then
    let m := l + (hi - 1 - l) / 2
    if x < key m then searchFrom key x l m else searchFrom key x (m + 1) hi
  else l - 1
termination_by hi - l

def rightmost (key : Nat → κ) (n : Nat) (x : κ) : Nat := searchFrom key x 1 n

/-- Without any order on the table the answer stays inside the window. -/
theorem searchFrom_mem (key : Nat → κ) (x : κ) (l hi : Nat) (hl : 1 ≤ l) (h : l ≤ hi) :
    searchFrom key x l hi < hi := by
  fun_induction searchFrom key x l hi with
  | case1 l hi hlt m hx ih =>
    have := ih hl (by omega)
    omega
  | case2 l hi hlt m hx ih => exact ih (by omega) (by omega)
  | case3 l hi hlt => omega

theorem rightmost_lt (key : Nat → κ) {n : Nat} (x : κ) (hn : 1 ≤ n) : rightmost key n x < n :=
  searchFrom_mem key x 1 n (Nat.le_refl 1) hn

/-- The window keeps every key before it at or below `x` and every key after
it above. -/
theorem searchFrom_rightmost {key : Nat → κ} {n : Nat} (hs : Sorted key n) (x : κ)
    (l hi : Nat) (hl : 1 ≤ l) (h : l ≤ hi) (hn : hi ≤ n)
    (hbelow : l ≠ 1 → key (l - 1) ≤ x) (habove : ∀ i, hi ≤ i → i < n → x < key i) :
    IsRightmost key n x (searchFrom key x l hi) := by
  fun_induction searchFrom key x l hi with
  | case1 l hi hlt m hx ih =>
    refine ih hl (by omega) (by omega) hbelow ?_
    intro i hi' hin
    rcases Nat.lt_or_ge m i with hmi | hmi
    · exact lt_of_lt_of_le hx (hs m i hmi hin)
    · obtain rfl : i = m := by omega
      exact hx
  | case2 l hi hlt m hx ih =>
    refine ih (by omega) (by omega) hn ?_ habove
    intro _
    simpa using hx
  | case3 l hi hlt =>
    exact ⟨by omega, fun hj => hbelow (by omega), fun i hi' hin => habove i (by omega) hin⟩

theorem rightmost_sorted {key : Nat → κ} {n : Nat} (hs : Sorted key n) (hn : 1 ≤ n) (x : κ) :
    IsRightmost key n x (rightmost key n x) :=
  searchFrom_rightmost hs x 1 n (Nat.le_refl 1) hn (Nat.le_refl n)
    (fun h => absurd rfl h) (fun i hi hn => by omega)

theorem rightmost_spec {key : Nat → κ} {n : Nat} (hs : StrictlySorted key n) (hn : 1 ≤ n) (x : κ) :
    IsRightmost key n x (rightmost key n x) := rightmost_sorted hs.sorted hn x

theorem IsRightmost.unique {key : Nat → κ} {n : Nat} {x : κ} {i j : Nat}
    (hi : IsRightmost key n x i) (hj : IsRightmost key n x j) : i = j := by
  rcases Nat.lt_trichotomy i j with h | h | h
  · exact absurd (hi.above j h hj.lt) (not_lt.mpr (hj.below (by omega)))
  · exact h
  · exact absurd (hj.above i h hi.lt) (not_lt.mpr (hi.below (by omega)))

theorem isRightmost_of_between {key : Nat → κ} {n : Nat} (hs : StrictlySorted key n) {x : κ}
    {j : Nat} (hj : j < n) (hle : key j ≤ x) (hnext : j + 1 < n → x < key (j + 1)) :
    IsRightmost key n x j := by
  refine ⟨hj, fun _ => hle, ?_⟩
  intro i hi hn
  rcases Nat.lt_or_ge (j + 1) i with h | h
  · exact lt_trans (hnext (by omega)) (hs _ _ h hn)
  · obtain rfl : i = j + 1 := by omega
    exact hnext hn

/-! ## The positions that a search looks at -/

/-- The positions whose keys are compared, in order. -/
def probesFrom (key : Nat → κ) (x : κ) (l hi : Nat) : List Nat :=
  if l < hi then
    let m := l + (hi - 1 - l) / 2
    if x < key m then m :: probesFrom key x l m else m :: probesFrom key x (m + 1) hi
  else []
termination_by hi - l

/-- The positions of a search that turns to the right at each of them. No key matters. -/
def rightTurns (l hi : Nat) : List Nat :=
  if l < hi then
    let m := l + (hi - 1 - l) / 2
    m :: rightTurns (m + 1) hi
  else []
termination_by hi - l

/-- All positions that a search over `n` entries looks at, its answer last. -/
def lookedAt (key : Nat → κ) (n : Nat) (x : κ) : List Nat :=
  probesFrom key x 1 n ++ [rightmost key n x]

theorem le_of_mem_rightTurns {l hi i : Nat} (h : i ∈ rightTurns l hi) : l ≤ i := by
  fun_induction rightTurns l hi with
  | case1 l hlt m ih =>
    rcases List.mem_cons.mp h with rfl | hrest
    · exact Nat.le_add_right _ _
    · have := ih hrest
      omega
  | case2 => cases h

theorem probesFrom_lt {key : Nat → κ} {x : κ} {l hi i : Nat} (h : i ∈ probesFrom key x l hi) :
    i < hi := by
  fun_induction probesFrom key x l hi with
  | case1 l hi hlt m hx ih =>
    rcases List.mem_cons.mp h with rfl | hrest
    · omega
    · exact Nat.lt_trans (ih hrest) (by omega)
  | case2 l hi hlt m hx ih =>
    rcases List.mem_cons.mp h with rfl | hrest
    · omega
    · exact ih hrest
  | case3 => cases h

/-- **A search stays below `c`** exactly if its window does, or its first turn to the left is
below `c`: from there on it only comes to smaller positions. -/
theorem searchFrom_below_iff (key : Nat → κ) (x : κ) (c l hi : Nat) (hl : 1 ≤ l) (h : l ≤ hi) :
    ((∀ i ∈ probesFrom key x l hi, i < c) ∧ searchFrom key x l hi < c) ↔
      hi ≤ c ∨ ∃ m ∈ rightTurns l hi, m < c ∧ x < key m := by
  fun_induction searchFrom key x l hi with
  | case1 l hi hlt m hx ih =>
    rw [probesFrom, rightTurns, if_pos hlt, if_pos hlt]
    dsimp only
    rw [if_pos hx, List.forall_mem_cons, and_assoc, ih hl (Nat.le_add_right _ _)]
    constructor
    · exact fun hin => .inr ⟨m, List.mem_cons_self, hin.1, hx⟩
    · intro hin
      have hm : m < c := by
        rcases hin with hhi | ⟨i, hi', hic, -⟩
        · omega
        · rcases List.mem_cons.mp hi' with rfl | hrest
          · exact hic
          · have := le_of_mem_rightTurns hrest
            omega
      exact ⟨hm, .inl (Nat.le_of_lt hm)⟩
  | case2 l hi hlt m hx ih =>
    rw [probesFrom, rightTurns, if_pos hlt, if_pos hlt]
    dsimp only
    rw [if_neg hx, List.forall_mem_cons, and_assoc, ih (by omega) (by omega)]
    constructor
    · rintro ⟨-, hhi | ⟨i, hi', hin⟩⟩
      · exact .inl hhi
      · exact .inr ⟨i, List.mem_cons_of_mem _ hi', hin⟩
    · rintro (hhi | ⟨i, hi', hic, hix⟩)
      · exact ⟨by omega, .inl hhi⟩
      · rcases List.mem_cons.mp hi' with rfl | hrest
        · exact absurd hix hx
        · have := le_of_mem_rightTurns hrest
          exact ⟨by omega, .inr ⟨i, hrest, hic, hix⟩⟩
  | case3 l hi hlt =>
    rw [probesFrom, rightTurns, if_neg hlt, if_neg hlt]
    constructor
    · exact fun hin => .inl (by omega)
    · rintro (hhi | ⟨i, hi', -⟩)
      · exact ⟨fun i hi' => absurd hi' List.not_mem_nil, by omega⟩
      · exact absurd hi' List.not_mem_nil

theorem lookedAt_below_iff (key : Nat → κ) (n : Nat) (x : κ) (c : Nat) :
    (∀ i ∈ lookedAt key n x, i < n ∧ i < c) ↔
      1 ≤ n ∧ (n ≤ c ∨ ∃ m ∈ rightTurns 1 n, m < c ∧ x < key m) := by
  rcases Nat.eq_zero_or_pos n with rfl | hn
  · refine iff_of_false (fun h => ?_) fun h => absurd h.1 (by decide)
    exact absurd (h _ (List.mem_append_right _ List.mem_cons_self)).1 (Nat.not_lt_zero _)
  · rw [← searchFrom_below_iff key x c 1 n (Nat.le_refl 1) hn, ← rightmost]
    constructor
    · refine fun h => ⟨hn, fun i hi => (h i (List.mem_append_left _ hi)).2, ?_⟩
      exact (h _ (List.mem_append_right _ List.mem_cons_self)).2
    · rintro ⟨-, hprobes, hanswer⟩ i hi
      rcases List.mem_append.mp hi with hprobe | hlast
      · exact ⟨probesFrom_lt hprobe, hprobes i hprobe⟩
      · obtain rfl := List.mem_singleton.mp hlast
        exact ⟨rightmost_lt key x hn, hanswer⟩

/-! ## The search with two pointers -/

/-- The loop with inclusive bounds `l` and `r`, which cross at its end; `none` if it is still
going on after `fuel` rounds. -/
def bisect (key : Nat → κ) (x : κ) : (fuel : Nat) → (l r : Int) → Option Int
  | 0, _, _ => none
  | fuel + 1, l, r =>
    if l ≤ r then
      let m := l + (r - l) / 2
      if x < key m.toNat then bisect key x fuel l (m - 1) else bisect key x fuel (m + 1) r
    else some (l - 1)

/-- **The loop ends** within a round for each position of its window and one more, where the
window before `hi` does. -/
theorem bisect_eq (key : Nat → κ) (x : κ) (l hi : Nat) (hl : 1 ≤ l) (h : l ≤ hi) (fuel : Nat)
    (hfuel : hi - l < fuel) :
    bisect key x fuel l ((hi : Int) - 1) = some (searchFrom key x l hi : Int) := by
  obtain ⟨fuel, rfl⟩ : ∃ k, fuel = k + 1 := ⟨fuel - 1, by omega⟩
  fun_induction searchFrom key x l hi generalizing fuel with
  | case1 l hi hlt m hx ih =>
    have hm : (l : Int) + ((hi : Int) - 1 - l) / 2 = (m : Int) := by omega
    rw [bisect, if_pos (by omega)]
    dsimp only
    rw [hm, Int.toNat_natCast, if_pos hx]
    obtain ⟨fuel, rfl⟩ : ∃ k, fuel = k + 1 := ⟨fuel - 1, by omega⟩
    exact ih hl (by omega) fuel (by omega)
  | case2 l hi hlt m hx ih =>
    have hm : (l : Int) + ((hi : Int) - 1 - l) / 2 = (m : Int) := by omega
    rw [bisect, if_pos (by omega)]
    dsimp only
    rw [hm, Int.toNat_natCast, if_neg hx]
    obtain ⟨fuel, rfl⟩ : ∃ k, fuel = k + 1 := ⟨fuel - 1, by omega⟩
    exact ih (by omega) (by omega) fuel (by omega)
  | case3 l hi hlt =>
    rw [bisect, if_neg (by omega)]
    congr 1
    omega

end Ext4tc.Lib
