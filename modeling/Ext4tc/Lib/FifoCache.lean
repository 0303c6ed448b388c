import Mathlib.Data.List.Basic
import Mathlib.Data.List.Nodup

/-! # First-in first-out caches

A cache keeps one value for some keys, in slots, and the order in which the keys
came in, in a queue of at most `cap` keys. A miss makes room before it knows
whether the value can be had: a failed load leaves one key fewer. What keeps a
key in the cache is its slack, the keys before it in the queue and the free
places behind it. Only a miss that brings a value in uses it up. -/

namespace Ext4tc.Lib

structure FifoCache (ι α : Type) where
  queue : List ι
  slots : ι → Option α

namespace FifoCache

variable {ι α : Type}

def empty : FifoCache ι α := ⟨[], fun _ => none⟩

/-- The queue lists the filled slots, each once and at most `cap` of them, and
slot `i` holds `table i`. -/
structure Coherent (cap : Nat) (table : ι → α) (c : FifoCache ι α) : Prop where
  nodup : c.queue.Nodup
  length : c.queue.length ≤ cap
  mem_iff : ∀ i, i ∈ c.queue ↔ c.slots i ≠ none
  value : ∀ i a, c.slots i = some a → a = table i

theorem coherent_empty (cap : Nat) (table : ι → α) : Coherent cap table empty :=
  ⟨List.nodup_nil, Nat.zero_le _, fun _ => by simp [empty], fun _ _ h => nomatch h⟩

/-- Key `i` is in the queue with `k` successful misses to go before it can be dropped. -/
def Slack (cap : Nat) (c : FifoCache ι α) (i : ι) (k : Nat) : Prop :=
  ∃ pre post, c.queue = pre ++ i :: post ∧ k ≤ pre.length + (cap - c.queue.length)

theorem Slack.slot_ne_none {cap k : Nat} {table : ι → α} {c : FifoCache ι α} {i : ι}
    (h : Coherent cap table c) (hs : Slack cap c i k) : c.slots i ≠ none := by
  obtain ⟨pre, post, hq, -⟩ := hs
  refine (h.mem_iff i).mp ?_
  rw [hq]
  exact List.mem_append_right _ List.mem_cons_self

theorem Slack.mono {cap k : Nat} {c : FifoCache ι α} {i : ι} (hs : Slack cap c i (k + 1)) :
    Slack cap c i k := by
  obtain ⟨pre, post, hq, hk⟩ := hs
  exact ⟨pre, post, hq, by omega⟩

/-! ## Accesses -/

variable [DecidableEq ι]

def remove (c : FifoCache ι α) (i : ι) : FifoCache ι α :=
  { c with slots := fun j => if j = i then none else c.slots j }

def add (c : FifoCache ι α) (i : ι) (a : α) : FifoCache ι α :=
  { c with slots := fun j => if j = i then some a else c.slots j }

def push (c : FifoCache ι α) (i : ι) : FifoCache ι α := { c with queue := c.queue ++ [i] }

def makeRoom (cap : Nat) (c : FifoCache ι α) : FifoCache ι α :=
  if cap ≤ c.queue.length then
    match c.queue with
    | [] => c
    | i :: is => { c.remove i with queue := is }
  else c

/-- A miss for `i`: room is made, and the value goes in if there is one. -/
def miss (cap : Nat) (c : FifoCache ι α) (i : ι) : Option α → FifoCache ι α
  | none => c.makeRoom cap
  | some a => ((c.makeRoom cap).add i a).push i

/-- One access, `load` being the value that a miss would get. -/
def access (cap : Nat) (c : FifoCache ι α) (i : ι) (load : Option α) : FifoCache ι α :=
  match c.slots i with
  | some _ => c
  | none => c.miss cap i load

section Steps

variable {cap : Nat} {table : ι → α} {c : FifoCache ι α}

/-- Making room is dropping the head of a full queue. -/
theorem makeRoom_cases (h : Coherent cap table c) :
    c.makeRoom cap = c ∧ (c.queue = [] ∨ c.queue.length < cap) ∨
      ∃ i is, c.queue = i :: is ∧ is.length + 1 = cap ∧
        c.makeRoom cap = { c.remove i with queue := is } := by
  unfold makeRoom
  cases hq : c.queue with
  | nil =>
    left
    simp
  | cons i is =>
    have hlen := h.length
    rw [hq, List.length_cons] at hlen
    by_cases hfull : cap ≤ (i :: is).length
    · rw [List.length_cons] at hfull
      exact .inr ⟨i, is, rfl, by omega, by simp [hfull]⟩
    · rw [if_neg hfull]
      exact .inl ⟨rfl, .inr (Nat.lt_of_not_le hfull)⟩

theorem Coherent.makeRoom (h : Coherent cap table c) : Coherent cap table (c.makeRoom cap) := by
  obtain ⟨heq, -⟩ | ⟨i, is, hq, hlen, heq⟩ := makeRoom_cases h
  · rw [heq]
    exact h
  · have hnodup := h.nodup
    rw [hq, List.nodup_cons] at hnodup
    rw [heq]
    refine ⟨hnodup.2, by simp only; omega, ?_, ?_⟩
    · intro j
      have hmem := h.mem_iff j
      rw [hq, List.mem_cons] at hmem
      simp only [remove]
      by_cases hij : j = i
      · subst hij
        simp [hnodup.1]
      · rw [if_neg hij, ← hmem]
        simp [hij]
    · intro j a hj
      simp only [remove] at hj
      split at hj
      next => exact absurd hj nofun
      next => exact h.value j a hj

theorem makeRoom_room (hcap : 0 < cap) (h : Coherent cap table c) {i : ι} (hi : c.slots i = none) :
    (c.makeRoom cap).queue.length < cap ∧ (c.makeRoom cap).slots i = none := by
  obtain ⟨heq, hq | hlt⟩ | ⟨j, is, hq, hlen, heq⟩ := makeRoom_cases h
  · rw [heq, hq]
    exact ⟨hcap, hi⟩
  · rw [heq]
    exact ⟨hlt, hi⟩
  · rw [heq]
    refine ⟨by simp only; omega, ?_⟩
    simp only [remove]
    split
    · rfl
    · exact hi

theorem Coherent.insert (h : Coherent cap table c) {i : ι} (hi : c.slots i = none)
    (hlt : c.queue.length < cap) {a : α} (ha : a = table i) :
    Coherent cap table ((c.add i a).push i) := by
  have hnot : i ∉ c.queue := fun hmem => (h.mem_iff i).mp hmem hi
  refine ⟨?_, ?_, ?_, ?_⟩
  · simp only [push, add, List.nodup_append, List.nodup_singleton, h.nodup, true_and]
    intro j hj k hk
    rw [List.mem_singleton] at hk
    exact fun hjk => hnot (hk ▸ hjk ▸ hj)
  · simp only [push, add, List.length_append, List.length_singleton]
    omega
  · intro j
    simp only [push, add, List.mem_append, List.mem_singleton, h.mem_iff j]
    by_cases hij : j = i
    · simp [hij]
    · simp [hij]
  · intro j b hb
    simp only [push, add] at hb
    split at hb
    next hij =>
      cases hb
      rw [hij, ha]
    next => exact h.value j b hb

theorem Coherent.miss (hcap : 0 < cap) (h : Coherent cap table c) {i : ι} (hi : c.slots i = none)
    {load : Option α} (hload : ∀ a, load = some a → a = table i) :
    Coherent cap table (c.miss cap i load) := by
  cases load with
  | none => exact h.makeRoom
  | some a =>
    obtain ⟨hlt, hnone⟩ := makeRoom_room hcap h hi
    exact h.makeRoom.insert hnone hlt (hload a rfl)

theorem Coherent.access (hcap : 0 < cap) (h : Coherent cap table c) {i : ι} {load : Option α}
    (hload : ∀ a, load = some a → a = table i) : Coherent cap table (c.access cap i load) := by
  unfold FifoCache.access
  split
  next => exact h
  next hi => exact h.miss hcap hi hload

/-- An access ends with the value of its key, if there was one to be had. -/
theorem access_slot (c : FifoCache ι α) (i : ι) (load : Option α) {a : α}
    (ha : (c.slots i).or load = some a) : (c.access cap i load).slots i = some a := by
  unfold access
  cases hi : c.slots i with
  | some b =>
    rw [hi, Option.some_or] at ha
    simp only [hi]
    exact ha
  | none =>
    rw [hi, Option.none_or] at ha
    subst ha
    simp only [miss, push, add, if_true]

theorem access_of_hit {i : ι} {a : α} (hi : c.slots i = some a) (load : Option α) :
    c.access cap i load = c := by
  unfold access
  simp only [hi]

end Steps

/-! ## How long a key stays -/

section Slack

variable {cap : Nat} {table : ι → α} {c : FifoCache ι α} {i j : ι} {k : Nat} {load : Option α}

/-- A key that has just come in has all of `cap - 1` left. -/
theorem slack_insert (hcap : 0 < cap) (h : Coherent cap table c) (hi : c.slots i = none) {a : α} :
    Slack cap (c.miss cap i (some a)) i (cap - 1) := by
  obtain ⟨hlt, -⟩ := makeRoom_room hcap h hi
  refine ⟨(c.makeRoom cap).queue, [], rfl, ?_⟩
  simp only [miss, push, add, List.length_append, List.length_singleton]
  omega

theorem Slack.makeRoom (h : Coherent cap table c) (hs : Slack cap c i (k + 1)) :
    Slack cap (c.makeRoom cap) i (k + 1) := by
  obtain ⟨heq, -⟩ | ⟨j, is, hq, hlen, heq⟩ := makeRoom_cases h
  · rw [heq]
    exact hs
  · obtain ⟨pre, post, hq', hk⟩ := hs
    have hlen' : c.queue.length = cap := by rw [hq, List.length_cons, hlen]
    cases pre with
    | nil =>
      rw [hlen', List.length_nil] at hk
      omega
    | cons j' pre =>
      rw [hq, List.cons_append, List.cons.injEq] at hq'
      rw [List.length_cons] at hk
      rw [heq]
      exact ⟨pre, post, hq'.2, by simp only; omega⟩

/-- A miss uses up at most one of the slack. -/
theorem Slack.miss (h : Coherent cap table c) (hs : Slack cap c i (k + 1)) :
    Slack cap (c.miss cap j load) i k := by
  have hroom := hs.makeRoom h
  cases load with
  | none => exact hroom.mono
  | some a =>
    obtain ⟨pre, post, hq, hk⟩ := hroom
    refine ⟨pre, post ++ [j], ?_, ?_⟩
    · simp [FifoCache.miss, push, add, hq]
    · simp only [FifoCache.miss, push, add, List.length_append, List.length_singleton]
      omega

end Slack

/-! ## Runs -/

/-- The cache after a run of accesses, each with the value a miss would get. -/
def run (cap : Nat) (c : FifoCache ι α) : List (ι × Option α) → FifoCache ι α
  | [] => c
  | (i, load) :: rest => run cap (c.access cap i load) rest

def misses (cap : Nat) (c : FifoCache ι α) : List (ι × Option α) → Nat
  | [] => 0
  | (i, load) :: rest => (if c.slots i = none then 1 else 0) + misses cap (c.access cap i load) rest

def LoadsFrom (table : ι → α) (accesses : List (ι × Option α)) : Prop :=
  ∀ i a, (i, some a) ∈ accesses → a = table i

section Run

variable {cap : Nat} {table : ι → α} {i : ι} {load : Option α} {rest : List (ι × Option α)}

omit [DecidableEq ι] in
theorem LoadsFrom.head (h : LoadsFrom table ((i, load) :: rest)) :
    ∀ a, load = some a → a = table i := by
  rintro a rfl
  exact h i a List.mem_cons_self

omit [DecidableEq ι] in
theorem LoadsFrom.tail (h : LoadsFrom table ((i, load) :: rest)) : LoadsFrom table rest :=
  fun j a hm => h j a (List.mem_cons_of_mem _ hm)

theorem Coherent.run (hcap : 0 < cap) : ∀ {accesses : List (ι × Option α)} {c : FifoCache ι α},
    LoadsFrom table accesses → Coherent cap table c → Coherent cap table (c.run cap accesses)
  | [], _, _, h => h
  | (_, _) :: _, _, hl, h => by
    rw [FifoCache.run]
    exact Coherent.run hcap hl.tail (h.access hcap hl.head)

/-- **A key with slack `k` outlasts `k` misses.** -/
theorem Slack.run (hcap : 0 < cap) {i : ι} : ∀ {accesses : List (ι × Option α)} {c : FifoCache ι α}
    {k : Nat}, LoadsFrom table accesses → Coherent cap table c → Slack cap c i k →
    c.misses cap accesses ≤ k → (c.run cap accesses).slots i ≠ none
  | [], _, _, _, h, hs, _ => hs.slot_ne_none h
  | (j, load) :: rest, c, k, hl, h, hs, hm => by
    have hnext := h.access hcap hl.head
    rw [misses] at hm
    rw [FifoCache.run]
    unfold access at hm hnext ⊢
    cases hj : c.slots j with
    | some a =>
      simp only [hj] at hm hnext ⊢
      exact Slack.run hcap hl.tail hnext hs (by simpa using hm)
    | none =>
      simp only [hj, if_true] at hm hnext ⊢
      obtain ⟨k, rfl⟩ : ∃ k', k = k' + 1 := ⟨k - 1, by omega⟩
      exact Slack.run hcap hl.tail hnext (hs.miss h) (by omega)

end Run

end FifoCache

end Ext4tc.Lib
