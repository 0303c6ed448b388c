import Mathlib.Data.Nat.Basic

/-! # Enumerations

A search that is asked again and again. It begins with the first position that has
something, and goes on from there to the next position that has; so it comes to every
position that has something. As a cursor it has a state, and what is left to come is a
function of the state. -/

namespace Ext4tc.Lib

/-- What the first call and each later one do for the positions that are reached. -/
structure Enumerates (has reached : Nat → Prop) : Prop where
  first : ∀ i, has i → (∀ m < i, ¬has m) → reached i
  next : ∀ i j, has i → reached i → i < j → has j → (∀ m, i < m → m < j → ¬has m) → reached j

theorem none_or_last (has : Nat → Prop) : ∀ i,
    (∀ m < i, ¬has m) ∨ ∃ last < i, has last ∧ ∀ m, last < m → m < i → ¬has m
  | 0 => .inl fun m hm => by omega
  | i + 1 => by
    by_cases hi : has i
    · exact .inr ⟨i, Nat.lt_succ_self i, hi, fun m hm hm' => by omega⟩
    · obtain hnone | ⟨last, hlt, hlast, hnone⟩ := none_or_last has i
      · left
        intro m hm
        rcases Nat.lt_succ_iff_lt_or_eq.mp hm with hm | rfl
        · exact hnone m hm
        · exact hi
      · refine .inr ⟨last, Nat.lt_succ_of_lt hlt, hlast, ?_⟩
        intro m hm hm'
        rcases Nat.lt_succ_iff_lt_or_eq.mp hm' with hm' | rfl
        · exact hnone m hm hm'
        · exact hi

/-- **Every position that has something is reached.** -/
theorem Enumerates.all {has reached : Nat → Prop} (h : Enumerates has reached) (i : Nat)
    (hi : has i) : reached i := by
  induction i using Nat.strong_induction_on with
  | h i ih =>
    obtain hnone | ⟨last, hlt, hlast, hnone⟩ := none_or_last has i
    · exact h.first i hi hnone
    · exact h.next last i hlast (ih last hlt hlast) hlt hi hnone

/-! ## Cursors -/

section Cursor

variable {ε σ α : Type} {next : σ → Except ε (Option α × σ)}

/-- Asked again and again from `s` on, `next` has the values `as` in turn, and then none. -/
inductive Drains (next : σ → Except ε (Option α × σ)) : σ → List α → σ → Prop
  | done {s s' : σ} (h : next s = .ok (none, s')) : Drains next s [] s'
  | more {s s₁ s' : σ} {a : α} {as : List α} (h : next s = .ok (some a, s₁))
      (rest : Drains next s₁ as s') : Drains next s (a :: as) s'

def ask (next : σ → Except ε (Option α × σ)) : Nat → σ → Except ε (List (Option α) × σ)
  | 0, s => .ok ([], s)
  | k + 1, s =>
    match next s with
    | .error e => .error e
    | .ok (a, s) =>
      match ask next k s with
      | .error e => .error e
      | .ok (as, s) => .ok (a :: as, s)

/-- What is left in each state: a question takes the first of it, and where nothing is left
it changes nothing. -/
structure Leaves (next : σ → Except ε (Option α × σ)) (Inv : σ → Prop) (left : σ → List α) :
    Prop where
  done : ∀ s, Inv s → left s = [] → next s = .ok (none, s)
  more : ∀ s a as, Inv s → left s = a :: as →
    ∃ s', next s = .ok (some a, s') ∧ Inv s' ∧ left s' = as

/-- **What is left comes, and nothing else**; then nothing is left. -/
theorem Leaves.drains {Inv : σ → Prop} {left : σ → List α} (h : Leaves next Inv left) {s : σ}
    (hs : Inv s) : ∃ s', Drains next s (left s) s' ∧ Inv s' ∧ left s' = [] := by
  generalize has : left s = as
  induction as generalizing s with
  | nil => exact ⟨s, .done (h.done s hs has), hs, has⟩
  | cons a as ih =>
    obtain ⟨s₁, hnext, hs₁, has₁⟩ := h.more s a as hs has
    obtain ⟨s', hrest, hs', hnone⟩ := ih hs₁ has₁
    exact ⟨s', .more hnext hrest, hs', hnone⟩

theorem ask_none {s : σ} (h : next s = .ok (none, s)) (k : Nat) :
    ask next k s = .ok (List.replicate k none, s) := by
  induction k with
  | zero => rfl
  | succ k ih =>
    simp only [ask, h, ih]
    rfl

theorem Drains.unique {s s₁ s₂ : σ} {as₁ as₂ : List α} (h₁ : Drains next s as₁ s₁)
    (h₂ : Drains next s as₂ s₂) : as₁ = as₂ ∧ s₁ = s₂ := by
  induction h₁ generalizing as₂ with
  | done h =>
    cases h₂ with
    | done h' =>
      cases h.symm.trans h'
      exact ⟨rfl, rfl⟩
    | more h' _ => cases h.symm.trans h'
  | more h _ ih =>
    cases h₂ with
    | done h' => cases h.symm.trans h'
    | more h' rest' =>
      cases h.symm.trans h'
      obtain ⟨rfl, rfl⟩ := ih rest'
      exact ⟨rfl, rfl⟩

end Cursor

end Ext4tc.Lib
