import Mathlib.Data.Multiset.MapFold
import Mathlib.Logic.Function.Basic

/-! # Heaps of objects

Objects are made, read, written and freed by their addresses. What a heap holds is said as
a multiset of objects with their addresses, so that what several owners hold is a sum: an
object that is freed is taken out of it, and one that nobody names any more is still there. -/

namespace Ext4tc.Lib

structure ObjectHeap (α : Type) where
  next : Nat
  cell : Nat → Option α

namespace ObjectHeap

variable {α : Type}

def empty : ObjectHeap α := ⟨0, fun _ => none⟩

def read (h : ObjectHeap α) (p : Nat) : Option α := h.cell p

def alloc (h : ObjectHeap α) (a : α) : Nat × ObjectHeap α :=
  (h.next, ⟨h.next + 1, Function.update h.cell h.next (some a)⟩)

def write (h : ObjectHeap α) (p : Nat) (a : α) : Option (ObjectHeap α) :=
  if (h.cell p).isSome then some ⟨h.next, Function.update h.cell p (some a)⟩ else none

def free (h : ObjectHeap α) (p : Nat) : Option (ObjectHeap α) :=
  if (h.cell p).isSome then some ⟨h.next, Function.update h.cell p none⟩ else none

/-- The heap holds these objects, each at its own address, and no others. -/
structure Holds (h : ObjectHeap α) (objs : Multiset (Nat × α)) : Prop where
  nodup : (objs.map Prod.fst).Nodup
  cell : ∀ p a, h.cell p = some a ↔ (p, a) ∈ objs
  below : ∀ o ∈ objs, o.1 < h.next

variable {h : ObjectHeap α} {p : Nat} {a : α} {objs : Multiset (Nat × α)}

@[simp] theorem alloc_fst (h : ObjectHeap α) (a : α) : (h.alloc a).1 = h.next := rfl

theorem holds_empty : (empty : ObjectHeap α).Holds 0 := by
  refine ⟨Multiset.nodup_zero, fun p a => ?_, fun o ho => ?_⟩
  · simp [empty]
  · simp at ho

namespace Holds

theorem fresh (hh : h.Holds objs) : h.next ∉ objs.map Prod.fst := by
  intro hmem
  obtain ⟨o, ho, hnext⟩ := Multiset.mem_map.mp hmem
  have := hh.below o ho
  omega

theorem read (hh : h.Holds objs) (hmem : (p, a) ∈ objs) : h.read p = some a :=
  (hh.cell p a).mpr hmem

theorem alloc (hh : h.Holds objs) (a : α) : (h.alloc a).2.Holds ((h.next, a) ::ₘ objs) := by
  refine ⟨?_, fun p b => ?_, fun o ho => ?_⟩
  · rw [Multiset.map_cons, Multiset.nodup_cons]
    exact ⟨hh.fresh, hh.nodup⟩
  · rw [ObjectHeap.alloc, Multiset.mem_cons]
    by_cases hp : p = h.next
    · subst hp
      have hnone : (h.next, b) ∉ objs := fun hmem =>
        hh.fresh (Multiset.mem_map_of_mem Prod.fst hmem)
      simp [hnone, eq_comm]
    · simp [hp, hh.cell p b]
  · rcases Multiset.mem_cons.mp ho with rfl | ho
    · exact Nat.lt_succ_self _
    · exact Nat.lt_succ_of_lt (hh.below o ho)

theorem cons_cell (hh : h.Holds ((p, a) ::ₘ objs)) :
    p ∉ objs.map Prod.fst ∧ (h.cell p).isSome = true := by
  have hnodup := hh.nodup
  rw [Multiset.map_cons, Multiset.nodup_cons] at hnodup
  refine ⟨hnodup.1, ?_⟩
  rw [(hh.cell p a).mpr (Multiset.mem_cons_self _ _)]
  rfl

theorem write (hh : h.Holds ((p, a) ::ₘ objs)) (b : α) :
    ∃ h', h.write p b = some h' ∧ h'.Holds ((p, b) ::ₘ objs) := by
  obtain ⟨hp, hsome⟩ := hh.cons_cell
  refine ⟨_, if_pos hsome, ?_, fun q c => ?_, fun o ho => ?_⟩
  · rw [Multiset.map_cons]
    exact Multiset.map_cons Prod.fst (p, a) objs ▸ hh.nodup
  · rw [Multiset.mem_cons]
    by_cases hq : q = p
    · subst hq
      have hnone : (q, c) ∉ objs := fun hmem => hp (Multiset.mem_map_of_mem Prod.fst hmem)
      simp [hnone, eq_comm]
    · simp [hq, hh.cell q c]
  · rcases Multiset.mem_cons.mp ho with rfl | ho
    · exact hh.below (p, a) (Multiset.mem_cons_self _ _)
    · exact hh.below o (Multiset.mem_cons_of_mem ho)

/-- **An object that is freed is taken out**, and the others stay. -/
theorem free (hh : h.Holds ((p, a) ::ₘ objs)) : ∃ h', h.free p = some h' ∧ h'.Holds objs := by
  obtain ⟨hp, hsome⟩ := hh.cons_cell
  refine ⟨_, if_pos hsome, ?_, fun q c => ?_, fun o ho => hh.below o (Multiset.mem_cons_of_mem ho)⟩
  · have hnodup := hh.nodup
    rw [Multiset.map_cons, Multiset.nodup_cons] at hnodup
    exact hnodup.2
  · by_cases hq : q = p
    · subst hq
      have hnone : (q, c) ∉ objs := fun hmem => hp (Multiset.mem_map_of_mem Prod.fst hmem)
      simp [hnone]
    · simp [hq, hh.cell q c]

end Holds

end ObjectHeap

end Ext4tc.Lib
