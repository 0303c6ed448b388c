import Ext4tc.Lib.Transition
import Mathlib.Data.List.Basic
import Mathlib.Logic.Function.Basic

/-! # Isolated clients of a shared state

Calls of several clients go to one state. The clients are isolated when each of them
gets from any order of the calls what its own calls give alone. By unwinding it is
enough to look at one step: a relation, for each client, between the shared state and
the one it would have alone, which the calls of the others keep and under which its own
calls go in lockstep. -/

namespace Ext4tc.Lib

section Lockstep

variable {ε α S : Type}

/-- Both computations fail with the same error, or give the same result and states that
`R` relates for it. -/
def Lockstep (R : α → S → S → Prop) (x y : Except ε (α × S)) : Prop :=
  (∃ e, x = .error e ∧ y = .error e) ∨ ∃ a s t, x = .ok (a, s) ∧ y = .ok (a, t) ∧ R a s t

variable {R : α → S → S → Prop} {x y : Except ε (α × S)}

theorem Lockstep.error {e : ε} (hx : x = .error e) (hy : y = .error e) : Lockstep R x y :=
  .inl ⟨e, hx, hy⟩

theorem Lockstep.ok {a : α} {s t : S} (hx : x = .ok (a, s)) (hy : y = .ok (a, t)) (h : R a s t) :
    Lockstep R x y := .inr ⟨a, s, t, hx, hy, h⟩

theorem Lockstep.self (h : Lockstep R x x) {a : α} {s : S} (hx : x = .ok (a, s)) : R a s s := by
  obtain ⟨e, he, -⟩ | ⟨a', s', t', hs, ht, hr⟩ := h
  · rw [hx] at he
    cases he
  · rw [hx] at hs ht
    cases hs
    cases ht
    exact hr

end Lockstep

/-- Calls, each of one client, on a shared state; a call that fails stops the system. -/
structure ClientSystem (S C Call Reply ε : Type) where
  who : Call → C
  step : S → Call → Except ε (Reply × S)

namespace ClientSystem

variable {S C Call Reply ε : Type} [DecidableEq C] (sys : ClientSystem S C Call Reply ε)

/-- The replies of a run, along with the clients they go to. -/
def run : S → List Call → Except ε (List (C × Reply))
  | _, [] => .ok []
  | s, call :: calls =>
    match sys.step s call with
    | .error e => .error e
    | .ok (reply, s') => (run s' calls).map fun replies => (sys.who call, reply) :: replies

def own (c : C) (calls : List Call) : List Call := calls.filter fun call => sys.who call = c

def ownReplies (c : C) (out : List (C × Reply)) : List (C × Reply) := out.filter fun r => r.1 = c

/-- Each client gets the replies that it gets alone; the run fails only as one of its
clients does alone. -/
structure Isolated (s : S) (calls : List Call) : Prop where
  replies : ∀ out, sys.run s calls = .ok out →
    ∀ c, sys.run s (sys.own c calls) = .ok (ownReplies c out)
  errors : ∀ e, sys.run s calls = .error e → ∃ c, sys.run s (sys.own c calls) = .error e

/-- Every call of the run is made in a state that `P` allows it in. -/
def Meets (P : S → Call → Prop) : S → List Call → Prop
  | _, [] => True
  | s, call :: calls =>
    P s call ∧ match sys.step s call with
      | .error _ => True
      | .ok (_, s') => Meets P s' calls

/-- The state in which calls end that all succeed. -/
inductive Reaches : S → List Call → S → Prop
  | nil {s} : Reaches s [] s
  | cons {s call calls reply s' s''} (h : sys.step s call = .ok (reply, s'))
      (hrest : Reaches s' calls s'') : Reaches s (call :: calls) s''

/-- What the relation of each client with its own run has to satisfy. -/
structure Unwinding (P : S → Call → Prop) (Sim : C → S → S → Prop) : Prop where
  other : ∀ c s a call reply s', Sim c s a → sys.who call ≠ c → sys.step s call = .ok (reply, s') →
    Sim c s' a
  own : ∀ s a call, Sim (sys.who call) s a → P s call →
    Lockstep (fun _ => Sim (sys.who call)) (sys.step s call) (sys.step a call)

variable {sys} {P : S → Call → Prop} {Sim : C → S → S → Prop}

theorem own_cons_self {call : Call} (calls : List Call) :
    sys.own (sys.who call) (call :: calls) = call :: sys.own (sys.who call) calls :=
  List.filter_cons_of_pos (decide_eq_true rfl)

theorem own_cons_other {c : C} {call : Call} (h : sys.who call ≠ c) (calls : List Call) :
    sys.own c (call :: calls) = sys.own c calls :=
  List.filter_cons_of_neg (by rwa [decide_eq_true_iff])

theorem ownReplies_cons_self (c : C) (reply : Reply) (out : List (C × Reply)) :
    ownReplies c ((c, reply) :: out) = (c, reply) :: ownReplies c out :=
  List.filter_cons_of_pos (decide_eq_true rfl)

theorem ownReplies_cons_other {c c' : C} (h : c' ≠ c) (reply : Reply) (out : List (C × Reply)) :
    ownReplies c ((c', reply) :: out) = ownReplies c out :=
  List.filter_cons_of_neg (by rwa [decide_eq_true_iff])

omit [DecidableEq C] in
theorem run_of_error {s : S} {call : Call} {e : ε} (h : sys.step s call = .error e)
    (calls : List Call) :
    sys.run s (call :: calls) = .error e := by
  rw [run, h]

omit [DecidableEq C] in
theorem run_of_ok {s s' : S} {call : Call} {reply : Reply} (h : sys.step s call = .ok (reply, s'))
    (calls : List Call) :
    sys.run s (call :: calls) = (sys.run s' calls).map fun replies =>
      (sys.who call, reply) :: replies := by
  rw [run, h]

omit [DecidableEq C] in
theorem Meets.cons {s : S} {call : Call} {calls : List Call} (h : P s call)
    (hrest : ∀ reply s', sys.step s call = .ok (reply, s') → sys.Meets P s' calls) :
    sys.Meets P s (call :: calls) := by
  refine ⟨h, ?_⟩
  split
  next => trivial
  next reply s' hstep => exact hrest reply s' hstep

omit [DecidableEq C] in
theorem Meets.tail {s s' : S} {call : Call} {calls : List Call} {reply : Reply}
    (h : sys.Meets P s (call :: calls)) (hstep : sys.step s call = .ok (reply, s')) :
    sys.Meets P s' calls := by
  rw [Meets, hstep] at h
  exact h.2

omit [DecidableEq C] in
/-- **A run whose calls are allowed comes to its end**, if an allowed call succeeds and keeps
what lets the next ones succeed. -/
theorem run_ok {I : S → Prop} (hstep : ∀ s call, I s → P s call →
    ∃ reply s', sys.step s call = .ok (reply, s') ∧ I s') {calls : List Call} {s : S} (h : I s)
    (hp : sys.Meets P s calls) : ∃ out, sys.run s calls = .ok out := by
  induction calls generalizing s with
  | nil => exact ⟨[], rfl⟩
  | cons call calls ih =>
    obtain ⟨reply, s', hcall, h'⟩ := hstep s call h hp.1
    obtain ⟨out, hrun⟩ := ih h' (hp.tail hcall)
    rw [run_of_ok hcall, hrun]
    exact ⟨_, rfl⟩

omit [DecidableEq C] in
theorem reaches_of_run {s : S} {calls : List Call} {out : List (C × Reply)}
    (h : sys.run s calls = .ok out) : ∃ s', sys.Reaches s calls s' := by
  induction calls generalizing s out with
  | nil => exact ⟨s, .nil⟩
  | cons call calls ih =>
    cases hstep : sys.step s call with
    | error e =>
      rw [run_of_error hstep] at h
      cases h
    | ok next =>
      obtain ⟨reply, s₁⟩ := next
      rw [run_of_ok hstep] at h
      obtain ⟨out', hrun, -⟩ := exists_of_map_ok h
      obtain ⟨s', hreaches⟩ := ih hrun
      exact ⟨s', .cons hstep hreaches⟩

omit [DecidableEq C] in
theorem Reaches.keeps {I : S → Prop}
    (hstep : ∀ s call reply s', I s → sys.step s call = .ok (reply, s') → I s') {s s' : S}
    {calls : List Call} (h : sys.Reaches s calls s') (hs : I s) : I s' := by
  induction h with
  | nil => exact hs
  | cons hcall _ ih => exact ih (hstep _ _ _ _ hs hcall)

namespace Unwinding

variable (hu : sys.Unwinding P Sim)
include hu

theorem run_replies {c : C} {calls : List Call} {s a : S} (hsim : Sim c s a)
    (hp : sys.Meets P s calls) {out : List (C × Reply)} (hrun : sys.run s calls = .ok out) :
    sys.run a (sys.own c calls) = .ok (ownReplies c out) := by
  induction calls generalizing s a out with
  | nil =>
    cases hrun
    rfl
  | cons call calls ih =>
    cases hstep : sys.step s call with
    | error e =>
      rw [run_of_error hstep] at hrun
      cases hrun
    | ok next =>
      obtain ⟨reply, s'⟩ := next
      rw [run_of_ok hstep] at hrun
      obtain ⟨out', hrun', rfl⟩ := exists_of_map_ok hrun
      by_cases hc : sys.who call = c
      · subst hc
        obtain ⟨e, hs, -⟩ | ⟨reply', t, a', hs, ha, hsim'⟩ := hu.own s a call hsim hp.1
        · rw [hstep] at hs
          cases hs
        · rw [hstep] at hs
          cases hs
          rw [own_cons_self, run_of_ok ha, ih hsim' (hp.tail hstep) hrun', ownReplies_cons_self]
          rfl
      · rw [own_cons_other hc, ownReplies_cons_other hc]
        exact ih (hu.other c s a call reply s' hsim hc hstep) (hp.tail hstep) hrun'

theorem run_errors {calls : List Call} {s : S} (alone : C → S) (hsim : ∀ c, Sim c s (alone c))
    (hp : sys.Meets P s calls) {e : ε} (hrun : sys.run s calls = .error e) :
    ∃ c, sys.run (alone c) (sys.own c calls) = .error e := by
  induction calls generalizing s alone with
  | nil => cases hrun
  | cons call calls ih =>
    obtain ⟨e', hs, ha⟩ | ⟨reply, s', a', hs, ha, hsim'⟩ :=
      hu.own s (alone (sys.who call)) call (hsim _) hp.1
    · rw [run_of_error hs] at hrun
      cases hrun
      refine ⟨sys.who call, ?_⟩
      rw [own_cons_self, run_of_error ha]
    · rw [run_of_ok hs] at hrun
      -- the caller goes on from its own next state, the others from where they are
      have hnext : ∀ c, Sim c s' (Function.update alone (sys.who call) a' c) := by
        intro c
        by_cases hc : c = sys.who call
        · subst hc
          rw [Function.update_self]
          exact hsim'
        · rw [Function.update_of_ne hc]
          exact hu.other c s (alone c) call reply s' (hsim c) (Ne.symm hc) hs
      obtain ⟨c, hfail⟩ := ih _ hnext (hp.tail hs) (of_map_error hrun)
      refine ⟨c, ?_⟩
      by_cases hc : c = sys.who call
      · subst hc
        rw [Function.update_self] at hfail
        rw [own_cons_self, run_of_ok ha, hfail]
        rfl
      · rw [Function.update_of_ne hc] at hfail
        rw [own_cons_other (Ne.symm hc)]
        exact hfail

/-- **Clients that unwind are isolated.** -/
theorem isolated {s : S} {calls : List Call} (hsim : ∀ c, Sim c s s) (hp : sys.Meets P s calls) :
    sys.Isolated s calls := by
  refine ⟨?_, ?_⟩
  · intro out hrun c
    exact hu.run_replies (hsim c) hp hrun
  · intro e hrun
    exact hu.run_errors (fun _ => s) hsim hp hrun

end Unwinding

end ClientSystem

end Ext4tc.Lib
