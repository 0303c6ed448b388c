import Ext4tc.Lib.RightmostSearch

/-! # Search trees over intervals

A tree is given by views of its nodes: how many entries a node has, their keys,
where an entry's interval stops, and the child an entry leads to. Depth is
uniform and travels with the statements. Descending by the rightmost key not
above `x` finds the leaf entry whose interval `[key, stop)` holds `x`, provided
the intervals, and not only the keys, keep between an index key and the next. -/

namespace Ext4tc.Lib

structure IntervalTree (ν κ : Type) where
  entries : ν → Nat
  key : ν → Nat → κ
  stop : ν → Nat → κ
  child : ν → Nat → ν

namespace IntervalTree

variable {ν κ : Type}

/-- Entry `i` of leaf `m` belongs to the tree of depth `d` at `n`. -/
inductive Entry (t : IntervalTree ν κ) : Nat → ν → ν → Nat → Prop
  | here {n : ν} {i : Nat} (hi : i < t.entries n) : Entry t 0 n n i
  | under {d : Nat} {n m : ν} {i j : Nat} (hj : j < t.entries n)
      (he : Entry t d (t.child n j) m i) :
      Entry t (d + 1) n m i

theorem Entry.lt {t : IntervalTree ν κ} {d : Nat} {n m : ν} {i : Nat} (he : t.Entry d n m i) :
    i < t.entries m := by
  induction he with
  | here hi => exact hi
  | under _ _ ih => exact ih

variable [LinearOrder κ]

def pick (t : IntervalTree ν κ) (n : ν) (x : κ) : Nat := rightmost (t.key n) (t.entries n) x

/-- The leaf that the descent for `x` ends in, `d` levels down. -/
def leaf (t : IntervalTree ν κ) (x : κ) : Nat → ν → ν
  | 0, n => n
  | d + 1, n => leaf t x d (t.child n (t.pick n x))

/-- An upper bound, absent at the right edge. -/
def Below : Option κ → κ → Prop
  | none, _ => True
  | some h, x => x ≤ h

/-- The bound entry `i` has from its right neighbour, or from its node. -/
def next (t : IntervalTree ν κ) (n : ν) (hi : Option κ) (i : Nat) : Option κ :=
  if i + 1 < t.entries n then some (t.key n (i + 1)) else hi

/-- Entries are there, sorted, and keep inside the window of their node. -/
def WellFormed (t : IntervalTree ν κ) : Nat → ν → κ → Option κ → Prop
  | 0, n, lo, hi => 1 ≤ t.entries n ∧ StrictlySorted (t.key n) (t.entries n) ∧
      ∀ i, i < t.entries n → lo ≤ t.key n i ∧ Below hi (t.stop n i) ∧
        Below (t.next n hi i) (t.stop n i)
  | d + 1, n, lo, hi => 1 ≤ t.entries n ∧ StrictlySorted (t.key n) (t.entries n) ∧
      ∀ i, i < t.entries n → lo ≤ t.key n i ∧ Below hi (t.key n i) ∧
        WellFormed t d (t.child n i) (t.key n i) (t.next n hi i)

instance decidableBelow : (hi : Option κ) → (x : κ) → Decidable (Below hi x)
  | none, _ => .isTrue trivial
  | some h, x => inferInstanceAs (Decidable (x ≤ h))

instance decidableWellFormed (t : IntervalTree ν κ) :
    (d : Nat) → (n : ν) → (lo : κ) → (hi : Option κ) → Decidable (t.WellFormed d n lo hi)
  | 0, n, lo, hi => inferInstanceAs (Decidable (1 ≤ t.entries n ∧
      StrictlySorted (t.key n) (t.entries n) ∧ ∀ i, i < t.entries n →
        lo ≤ t.key n i ∧ Below hi (t.stop n i) ∧ Below (t.next n hi i) (t.stop n i)))
  | d + 1, n, lo, hi =>
    have := decidableWellFormed t d
    inferInstanceAs (Decidable (1 ≤ t.entries n ∧
      StrictlySorted (t.key n) (t.entries n) ∧ ∀ i, i < t.entries n →
        lo ≤ t.key n i ∧ Below hi (t.key n i) ∧
          WellFormed t d (t.child n i) (t.key n i) (t.next n hi i)))

def All (t : IntervalTree ν κ) (P : Nat → ν → Prop) : Nat → ν → Prop
  | 0, n => P 0 n
  | d + 1, n => P (d + 1) n ∧ ∀ i, i < t.entries n → All t P d (t.child n i)

instance decidableAll (t : IntervalTree ν κ) (P : Nat → ν → Prop) [∀ d n, Decidable (P d n)] :
    (d : Nat) → (n : ν) → Decidable (t.All P d n)
  | 0, n => inferInstanceAs (Decidable (P 0 n))
  | d + 1, n =>
    have := decidableAll t P d
    inferInstanceAs (Decidable (P (d + 1) n ∧ ∀ i, i < t.entries n → All t P d (t.child n i)))

theorem WellFormed.entries_pos {t : IntervalTree ν κ} {d : Nat} {n : ν} {lo : κ} {hi : Option κ}
    (h : t.WellFormed d n lo hi) : 1 ≤ t.entries n := by
  cases d <;> exact h.1

theorem WellFormed.sorted {t : IntervalTree ν κ} {d : Nat} {n : ν} {lo : κ} {hi : Option κ}
    (h : t.WellFormed d n lo hi) : StrictlySorted (t.key n) (t.entries n) := by
  cases d <;> exact h.2.1

/-- What a node property says along the descent. -/
theorem All.leaf {t : IntervalTree ν κ} {P : Nat → ν → Prop} {d : Nat} {n : ν} {lo : κ}
    {hi : Option κ} (h : t.All P d n) (hw : t.WellFormed d n lo hi) (x : κ) :
    P 0 (t.leaf x d n) := by
  induction d generalizing n lo hi with
  | zero => exact h
  | succ d ih =>
    have hp := rightmost_lt (t.key n) x hw.entries_pos
    exact ih (h.2 _ hp) (hw.2.2 _ hp).2.2

/-- A leaf entry keeps inside the window of the whole tree. -/
theorem WellFormed.entry_mem {t : IntervalTree ν κ} {d : Nat} {n m : ν} {i : Nat} {lo : κ}
    {hi : Option κ} (h : t.WellFormed d n lo hi) (he : t.Entry d n m i) :
    lo ≤ t.key m i ∧ Below hi (t.stop m i) := by
  induction he generalizing lo hi with
  | here hlt => exact ⟨(h.2.2 _ hlt).1, (h.2.2 _ hlt).2.1⟩
  | @under d n m i j hj _ ih =>
    obtain ⟨hlo, -, hchild⟩ := h.2.2 j hj
    obtain ⟨hkey, hstop⟩ := ih hchild
    refine ⟨le_trans hlo hkey, ?_⟩
    unfold next at hstop
    split at hstop
    next hnext =>
      obtain ⟨-, hbelow, -⟩ := h.2.2 (j + 1) hnext
      cases hi with
      | none => trivial
      | some hi => exact le_trans hstop hbelow
    next => exact hstop

/-- **The descent finds the entry whose interval holds `x`.** -/
theorem leaf_pick_of_mem {t : IntervalTree ν κ} {d : Nat} {n m : ν} {i : Nat} {lo x : κ}
    {hi : Option κ} (h : t.WellFormed d n lo hi) (he : t.Entry d n m i) (hle : t.key m i ≤ x)
    (hlt : x < t.stop m i) : t.leaf x d n = m ∧ t.pick m x = i := by
  induction he generalizing lo hi with
  | @here n i hi' =>
    refine ⟨rfl, (rightmost_spec h.sorted h.entries_pos x).unique ?_⟩
    refine isRightmost_of_between h.sorted hi' hle ?_
    intro hnext
    have hstop := (h.2.2 i hi').2.2
    rw [next, if_pos hnext] at hstop
    exact lt_of_lt_of_le hlt hstop
  | @under d n m i j hj he ih =>
    have hchild := (h.2.2 j hj).2.2
    obtain ⟨hlo, hstop⟩ := hchild.entry_mem he
    have hj' : t.pick n x = j := by
      refine (rightmost_spec h.sorted h.entries_pos x).unique ?_
      refine isRightmost_of_between h.sorted hj (le_trans hlo hle) ?_
      intro hnext
      rw [next, if_pos hnext] at hstop
      exact lt_of_lt_of_le hlt hstop
    rw [leaf, hj']
    exact ih hchild hle hlt

end IntervalTree

end Ext4tc.Lib
