import Mathlib.Logic.Relation

/-! # Transition systems

States, the ones a run starts in, and the steps between them. What every step
keeps holds to the end of a run, and of every reachable state if it holds at the
start. A run of steps that may fail ends at the first failure. -/

namespace Ext4tc.Lib
open Relation

structure TransitionSystem (σ : Type) where
  start : σ → Prop
  step : σ → σ → Prop

namespace TransitionSystem

variable {σ : Type} {ts : TransitionSystem σ} {I : σ → Prop} {s s' : σ}

def Run (ts : TransitionSystem σ) : σ → σ → Prop := ReflTransGen ts.step

def Reachable (ts : TransitionSystem σ) (s : σ) : Prop := ∃ s₀, ts.start s₀ ∧ ts.Run s₀ s

def Stable (ts : TransitionSystem σ) (I : σ → Prop) : Prop := ∀ s s', I s → ts.step s s' → I s'

theorem Stable.run (h : ts.Stable I) (hs : I s) (hr : ts.Run s s') : I s' := by
  induction hr with
  | refl => exact hs
  | tail _ hstep ih => exact h _ _ ih hstep

theorem Stable.reachable (h : ts.Stable I) (hstart : ∀ s, ts.start s → I s) (hr : ts.Reachable s) :
    I s := by
  obtain ⟨s₀, hs₀, hrun⟩ := hr
  exact h.run (hstart s₀ hs₀) hrun

/-! ## Refinement -/

section Refinement

variable {τ : Type} {ts' : TransitionSystem τ} {f : σ → τ}

/-- Seen through `f`, each step that is taken from `I` is a run of `ts'`. -/
structure Refines (ts : TransitionSystem σ) (ts' : TransitionSystem τ) (I : σ → Prop) (f : σ → τ) :
    Prop where
  stable : ts.Stable I
  start : ∀ s, ts.start s → I s ∧ ts'.start (f s)
  step : ∀ s s', I s → ts.step s s' → ts'.Run (f s) (f s')

theorem Refines.run (h : ts.Refines ts' I f) (hs : I s) (hr : ts.Run s s') :
    ts'.Run (f s) (f s') := by
  induction hr with
  | refl => exact .refl
  | tail hrun hstep ih => exact ih.trans (h.step _ _ (h.stable.run hs hrun) hstep)

theorem Refines.inv (h : ts.Refines ts' I f) (hr : ts.Reachable s) : I s :=
  h.stable.reachable (fun s hs => (h.start s hs).1) hr

theorem Refines.reachable (h : ts.Refines ts' I f) (hr : ts.Reachable s) : ts'.Reachable (f s) := by
  obtain ⟨s₀, hs₀, hrun⟩ := hr
  obtain ⟨hi, hstart⟩ := h.start s₀ hs₀
  exact ⟨f s₀, hstart, h.run hi hrun⟩

end Refinement

end TransitionSystem

/-! ## Steps that may fail -/

section Map

variable {ε α β : Type} {f : α → β} {x : Except ε α}

theorem exists_of_map_ok {b : β} (h : x.map f = .ok b) : ∃ a, x = .ok a ∧ f a = b := by
  cases x with
  | error e => cases h
  | ok a => exact ⟨a, rfl, Except.ok.inj h⟩

theorem of_map_error {e : ε} (h : x.map f = .error e) : x = .error e := by
  cases x with
  | error e' => exact congrArg Except.error (Except.error.inj h)
  | ok a => cases h

end Map

section Fallible

variable {σ ι ε : Type} {step : σ → ι → Except ε σ} {I : σ → Prop} {s s' : σ} {is : List ι}

theorem foldlM_cons_ok {i : ι} {s₁ : σ} (h : step s i = .ok s₁) :
    (i :: is).foldlM step s = is.foldlM step s₁ := by
  rw [List.foldlM_cons, h]
  rfl

theorem foldlM_cons_error {i : ι} {e : ε} (h : step s i = .error e) :
    (i :: is).foldlM step s = .error e := by
  rw [List.foldlM_cons, h]
  rfl

theorem foldlM_keeps (hkeeps : ∀ s i s', I s → step s i = .ok s' → I s') (hs : I s)
    (h : is.foldlM step s = .ok s') : I s' := by
  induction is generalizing s with
  | nil =>
    cases h
    exact hs
  | cons i is ih =>
    cases hstep : step s i with
    | error e =>
      rw [foldlM_cons_error hstep] at h
      cases h
    | ok s₁ =>
      rw [foldlM_cons_ok hstep] at h
      exact ih (hkeeps s i s₁ hs hstep) h

/-- A failure that no step has from a state in `I` does not come up in a run from there. -/
theorem foldlM_ne_error {e : ε} (hkeeps : ∀ s i s', I s → step s i = .ok s' → I s')
    (hne : ∀ s i, I s → step s i ≠ .error e) (hs : I s) : is.foldlM step s ≠ .error e := by
  induction is generalizing s with
  | nil =>
    intro h
    cases h
  | cons i is ih =>
    cases hstep : step s i with
    | error e' =>
      rw [foldlM_cons_error hstep]
      exact hstep ▸ hne s i hs
    | ok s₁ =>
      rw [foldlM_cons_ok hstep]
      exact ih (hkeeps s i s₁ hs hstep)

end Fallible

end Ext4tc.Lib
