import Ext4tc.Lib.Isolation

/-! # Two representations of one state

A computation on one representation tracks one on another when both fail with the same
error, or give the same result and states that stand for the same. Calls that track each
other have the same replies in every run, so what a representation keeps besides does not
show. -/

namespace Ext4tc.Lib

section Both

variable {ε α β : Type}

/-- Both fail with the same error, or their results are related. -/
def Both (R : α → β → Prop) (x : Except ε α) (y : Except ε β) : Prop :=
  (∃ e, x = .error e ∧ y = .error e) ∨ ∃ a b, x = .ok a ∧ y = .ok b ∧ R a b

variable {R : α → β → Prop}

theorem Both.error (e : ε) : Both R (.error e) (.error e) := .inl ⟨e, rfl, rfl⟩

theorem Both.ok {a : α} {b : β} (h : R a b) : Both (ε := ε) R (.ok a) (.ok b) :=
  .inr ⟨a, b, rfl, rfl, h⟩

end Both

section Tracks

variable {ε α β σ τ σ' τ' : Type}

def Tracks (R : σ → τ → Prop) (x : Except ε (α × σ)) (y : Except ε (α × τ)) : Prop :=
  (∃ e, x = .error e ∧ y = .error e) ∨ ∃ a s t, x = .ok (a, s) ∧ y = .ok (a, t) ∧ R s t

variable {R : σ → τ → Prop} {R' : σ' → τ' → Prop} {x : Except ε (α × σ)} {y : Except ε (α × τ)}

theorem Tracks.error (e : ε) : Tracks R (.error e : Except ε (α × σ)) (.error e) :=
  .inl ⟨e, rfl, rfl⟩

theorem Tracks.ok {a : α} {s : σ} {t : τ} (h : R s t) :
    Tracks R (.ok (a, s) : Except ε (α × σ)) (.ok (a, t)) := .inr ⟨a, s, t, rfl, rfl, h⟩

theorem Tracks.map (h : Tracks R x y) {f : α × σ → β × σ'} {g : α × τ → β × τ'}
    (hfg : ∀ a s t, R s t → (f (a, s)).1 = (g (a, t)).1 ∧ R' (f (a, s)).2 (g (a, t)).2) :
    Tracks R' (x.map f) (y.map g) := by
  obtain ⟨e, rfl, rfl⟩ | ⟨a, s, t, rfl, rfl, hr⟩ := h
  · exact .error e
  · obtain ⟨hresult, hstate⟩ := hfg a s t hr
    exact .inr ⟨(f (a, s)).1, (f (a, s)).2, (g (a, t)).2, rfl, by rw [hresult]; rfl, hstate⟩

end Tracks

namespace ClientSystem

variable {S T C Call Reply ε : Type} {sys : ClientSystem S C Call Reply ε}
  {sys' : ClientSystem T C Call Reply ε}

/-- Calls that are allowed from where the ones before them have led. -/
def Along {G : Type} (move : G → Call → G → Prop) : G → List Call → Prop
  | _, [] => True
  | g, call :: calls => ∃ g', move g call g' ∧ Along move g' calls

/-- **Runs of calls that track each other along the way have the same replies**, and fail
alike. -/
theorem run_eq_along {G : Type} {move : G → Call → G → Prop} {R : G → S → T → Prop}
    (hwho : sys.who = sys'.who)
    (hstep : ∀ g s t call g', R g s t → move g call g' →
      Tracks (R g') (sys.step s call) (sys'.step t call)) {g : G} {s : S} {t : T} (h : R g s t)
    {calls : List Call} (halong : Along move g calls) : sys.run s calls = sys'.run t calls := by
  induction calls generalizing g s t with
  | nil => rfl
  | cons call calls ih =>
    obtain ⟨g', hmove, hrest⟩ := halong
    obtain ⟨e, hx, hy⟩ | ⟨reply, s', t', hx, hy, h'⟩ := hstep g s t call g' h hmove
    · rw [run_of_error hx, run_of_error hy]
    · rw [run_of_ok hx, run_of_ok hy, ih h' hrest, hwho]

theorem along_anywhere (calls : List Call) : Along (fun (_ : Unit) _ _ => True) () calls := by
  induction calls with
  | nil => trivial
  | cons call calls ih => exact ⟨(), trivial, ih⟩

theorem run_eq_of_tracks {R : S → T → Prop} (hwho : sys.who = sys'.who)
    (hstep : ∀ s t call, R s t → Tracks R (sys.step s call) (sys'.step t call)) {s : S} {t : T}
    (h : R s t) (calls : List Call) : sys.run s calls = sys'.run t calls :=
  run_eq_along (R := fun (_ : Unit) => R) hwho (fun _ s t call _ h _ => hstep s t call h) h
    (along_anywhere calls)

/-- Where calls lead one system, they lead the other to a state that stands for the same. -/
theorem reaches_of_tracks {R : S → T → Prop}
    (hstep : ∀ s t call, R s t → Tracks R (sys.step s call) (sys'.step t call)) {s s' : S} {t : T}
    (h : R s t) {calls : List Call} (hreaches : sys.Reaches s calls s') :
    ∃ t', sys'.Reaches t calls t' ∧ R s' t' := by
  induction hreaches generalizing t with
  | nil => exact ⟨t, .nil, h⟩
  | cons hcall _ ih =>
    obtain ⟨e, hx, -⟩ | ⟨reply, s₁, t₁, hx, hy, h₁⟩ := hstep _ _ _ h
    · cases hcall.symm.trans hx
    · cases hcall.symm.trans hx
      obtain ⟨t', hrest, h'⟩ := ih h₁
      exact ⟨t', .cons hy hrest, h'⟩

end ClientSystem

end Ext4tc.Lib
