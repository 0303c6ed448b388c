import Ext4tc.Lib.Transition

/-! # Fair runs

A run that goes on forever, of parties that take turns in any order; where no party
steps, the state stays. A party is treated fairly if it is not ready forever without a
step. What a fair run comes to is shown by a rank that the steps of one party lower and
the steps of the others do not raise. -/

namespace Ext4tc.Lib

structure PartySystem (σ ι : Type) where
  start : σ → Prop
  step : ι → σ → σ → Prop

namespace PartySystem

variable {σ ι : Type}

def system (ps : PartySystem σ ι) : TransitionSystem σ where
  start := ps.start
  step s s' := ∃ i, ps.step i s s'

def Ready (ps : PartySystem σ ι) (i : ι) (s : σ) : Prop := ∃ s', ps.step i s s'

def Fair (ps : PartySystem σ ι) (i : ι) (run : Nat → σ) : Prop :=
  ∀ n, (∀ m, n ≤ m → ps.Ready i (run m)) → ∃ m, n ≤ m ∧ ps.step i (run m) (run (m + 1))

structure IsRun (ps : PartySystem σ ι) (run : Nat → σ) : Prop where
  start : ps.start (run 0)
  step : ∀ n, run (n + 1) = run n ∨ ∃ i, ps.step i (run n) (run (n + 1))

structure FairRun (ps : PartySystem σ ι) (run : Nat → σ) : Prop extends IsRun ps run where
  fair : ∀ i, ps.Fair i run

section Runs

variable {ps : PartySystem σ ι} {run : Nat → σ}

theorem IsRun.keeps (h : ps.IsRun run) {I : σ → Prop} (hstable : ps.system.Stable I) {n m : Nat}
    (hnm : n ≤ m) (hn : I (run n)) : I (run m) := by
  induction hnm with
  | refl => exact hn
  | @step m _ ih =>
    obtain hstay | hstep := h.step m
    · rw [hstay]
      exact ih
    · exact hstable _ _ ih hstep

theorem IsRun.invariant (h : ps.IsRun run) {I : σ → Prop} (hstable : ps.system.Stable I)
    (hstart : ∀ s, ps.start s → I s) (n : Nat) : I (run n) :=
  h.keeps hstable (Nat.zero_le n) (hstart _ h.start)

/-- How a party brings `Q` about from `P`: until then it is ready, its steps lower the
rank, and no step of another raises it or leaves `P`. -/
structure Lowers (ps : PartySystem σ ι) (i : ι) (rank : σ → Nat) (P Q : σ → Prop) : Prop where
  ready : ∀ s, P s → ¬Q s → ps.Ready i s
  own : ∀ s s', P s → ¬Q s → ps.step i s s' → Q s' ∨ P s' ∧ rank s' < rank s
  others : ∀ j s s', P s → ¬Q s → ps.step j s s' → Q s' ∨ P s' ∧ rank s' ≤ rank s

/-- **A party that is treated fairly and lowers a rank comes to its end.** -/
theorem IsRun.comes_to (h : ps.IsRun run) {i : ι} (hfair : ps.Fair i run) {rank : σ → Nat}
    {P Q : σ → Prop} (hl : ps.Lowers i rank P Q) {n : Nat} (hn : P (run n)) :
    ∃ m, n ≤ m ∧ Q (run m) := by
  induction hrank : rank (run n) using Nat.strongRecOn generalizing n with
  | ind k ih =>
    refine Classical.byContradiction fun hnone => ?_
    have hnot : ∀ m, n ≤ m → ¬Q (run m) := fun m hm hQ => hnone ⟨m, hm, hQ⟩
    -- without `Q` nothing leaves `P` or raises the rank
    have hkept : ∀ m, n ≤ m → P (run m) ∧ rank (run m) ≤ k := by
      intro m hm
      induction hm with
      | refl => exact ⟨hn, Nat.le_of_eq hrank⟩
      | @step m hm ihm =>
        obtain hstay | ⟨j, hstep⟩ := h.step m
        · rw [hstay]
          exact ihm
        · obtain hQ | ⟨hP, hle⟩ := hl.others j _ _ ihm.1 (hnot m hm) hstep
          · exact absurd hQ (hnot (m + 1) (Nat.le_succ_of_le hm))
          · exact ⟨hP, Nat.le_trans hle ihm.2⟩
    obtain ⟨m, hm, hstep⟩ := hfair n fun m hm => hl.ready _ (hkept m hm).1 (hnot m hm)
    obtain ⟨hPm, hle⟩ := hkept m hm
    obtain hQ | ⟨hP, hlt⟩ := hl.own _ _ hPm (hnot m hm) hstep
    · exact hnot (m + 1) (Nat.le_succ_of_le hm) hQ
    · obtain ⟨m', hm', hQ⟩ := ih _ (Nat.lt_of_lt_of_le hlt hle) hP rfl
      exact hnot m' (by omega) hQ

end Runs

end PartySystem

end Ext4tc.Lib
