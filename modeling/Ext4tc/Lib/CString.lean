import Mathlib.Data.List.TakeDrop

/-! # C strings

A C string is the list of its bytes up to the terminator, which is not one of
them. Positions are offsets into it. `strtok` is the walk of the function over one
string: each token with the place it starts at, which is what a comparison of
pointers sees. -/

namespace Ext4tc.Lib

/-- The bytes of a string as memory: zeros from its end on. -/
def cstr (s : List UInt8) (i : Nat) : UInt8 := s.getD i 0

/-- `!strncmp(a, b, n)`. -/
def strncmpEq (a b : Nat → UInt8) : Nat → Bool
  | 0 => true
  | n + 1 => a 0 == b 0 && (a 0 == 0 || strncmpEq (fun i => a (i + 1)) (fun i => b (i + 1)) n)

def strchr (c : UInt8) : List UInt8 → Option Nat
  | [] => none
  | x :: s => if x = c then some 0 else (strchr c s).map (· + 1)

def strrchr (c : UInt8) : List UInt8 → Option Nat
  | [] => none
  | x :: s =>
    match strrchr c s with
    | some i => some (i + 1)
    | none => if x = c then some 0 else none

/-- The tokens of a string that starts at `off`. A byte that is no separator begins a
token, unless the next one does: then it belongs to that token. -/
def strtok (sep : UInt8) : Nat → List UInt8 → List (Nat × List UInt8)
  | _, [] => []
  | off, x :: s =>
    if x = sep then strtok sep (off + 1) s
    else
      match strtok sep (off + 1) s with
      | [] => [(off, [x])]
      | (o, w) :: ts => if o = off + 1 then (off, x :: w) :: ts else (off, [x]) :: (o, w) :: ts

def joinPath (sep : UInt8) (cs : List (List UInt8)) : List UInt8 := cs.flatMap (sep :: ·)

/-- Components with the places they start at in their path, which starts at `off`. -/
def placed : Nat → List (List UInt8) → List (Nat × List UInt8)
  | _, [] => []
  | off, c :: cs => (off + 1, c) :: placed (off + 1 + c.length) cs

/-! ## Comparison -/

/-- A whole word compares equal exactly with its own bytes. -/
theorem strncmpEq_iff {s : List UInt8} (hs : (0 : UInt8) ∉ s) (b : Nat → UInt8) :
    strncmpEq (cstr s) b s.length = true ↔ (List.range s.length).map b = s := by
  induction s generalizing b with
  | nil => exact iff_of_true rfl rfl
  | cons x s ih =>
    rw [List.mem_cons, not_or] at hs
    have hx : ¬x = 0 := fun h => hs.1 h.symm
    have htail : (fun i => cstr (x :: s) (i + 1)) = cstr s := rfl
    have hhead : cstr (x :: s) 0 = x := rfl
    rw [List.length_cons, strncmpEq, htail, hhead, List.range_succ_eq_map, List.map_cons,
      List.map_map,
      List.cons.injEq, Bool.and_eq_true, Bool.or_eq_true, beq_iff_eq, beq_iff_eq]
    have hrest := ih hs.2 fun i => b (i + 1)
    constructor
    · rintro ⟨hb, hzero | heq⟩
      · exact absurd hzero hx
      · exact ⟨hb.symm, hrest.mp heq⟩
    · rintro ⟨hb, heq⟩
      exact ⟨hb.symm, .inr (hrest.mpr heq)⟩

/-- Bounded by the length of the other string, which has no terminator inside, it compares
equal exactly with the beginnings of the word. -/
theorem strncmpEq_prefix {s : List UInt8} (hs : (0 : UInt8) ∉ s) {b : Nat → UInt8} {n : Nat}
    (hb : ∀ i < n, b i ≠ 0) :
    strncmpEq (cstr s) b n = true ↔ (List.range n).map b <+: s := by
  induction n generalizing s b with
  | zero => exact iff_of_true rfl List.nil_prefix
  | succ n ih =>
    have hb₀ := hb 0 (Nat.succ_pos n)
    rw [strncmpEq, List.range_succ_eq_map, List.map_cons, List.map_map, Bool.and_eq_true,
      Bool.or_eq_true, beq_iff_eq, beq_iff_eq]
    cases s with
    | nil =>
      have hhead : cstr [] 0 = 0 := rfl
      rw [hhead]
      exact iff_of_false (fun h => hb₀ h.1.symm) (by simp)
    | cons x s =>
      rw [List.mem_cons, not_or] at hs
      have hx : ¬x = 0 := fun h => hs.1 h.symm
      have hhead : cstr (x :: s) 0 = x := rfl
      have htail : (fun i => cstr (x :: s) (i + 1)) = cstr s := rfl
      have hrest := ih hs.2 (b := fun i => b (i + 1)) fun i hi => hb (i + 1) (by omega)
      rw [hhead, htail, List.cons_prefix_cons, hrest]
      constructor
      · rintro ⟨heq, hzero | hpre⟩
        · exact absurd hzero hx
        · exact ⟨heq.symm, hpre⟩
      · rintro ⟨heq, hpre⟩
        exact ⟨heq.symm, .inr hpre⟩

/-! ## Places of separators -/

section Places

variable {sep : UInt8}

theorem strchr_none {s : List UInt8} (hs : sep ∉ s) : strchr sep s = none := by
  induction s with
  | nil => rfl
  | cons x s ih =>
    rw [List.mem_cons, not_or] at hs
    rw [strchr, if_neg (Ne.symm hs.1), ih hs.2, Option.map_none]

theorem strchr_append {s : List UInt8} (hs : sep ∉ s) (t : List UInt8) :
    strchr sep (s ++ sep :: t) = some s.length := by
  induction s with
  | nil => rw [List.nil_append, strchr, if_pos rfl, List.length_nil]
  | cons x s ih =>
    rw [List.mem_cons, not_or] at hs
    rw [List.cons_append, strchr, if_neg (Ne.symm hs.1), ih hs.2, Option.map_some, List.length_cons]

theorem strrchr_none {s : List UInt8} (hs : sep ∉ s) : strrchr sep s = none := by
  induction s with
  | nil => rfl
  | cons x s ih =>
    rw [List.mem_cons, not_or] at hs
    simp only [strrchr, ih hs.2, if_neg (Ne.symm hs.1)]

theorem strrchr_append {t : List UInt8} (ht : sep ∉ t) (s : List UInt8) :
    strrchr sep (s ++ sep :: t) = some s.length := by
  induction s with
  | nil => simp only [List.nil_append, strrchr, strrchr_none ht, if_pos, List.length_nil]
  | cons x s ih => simp only [List.cons_append, strrchr, ih, List.length_cons]

end Places

/-! ## Tokens of a path -/

section Tokens

variable {sep : UInt8}

structure IsComponent (sep : UInt8) (c : List UInt8) : Prop where
  ne_nil : c ≠ []
  no_sep : sep ∉ c

theorem joinPath_cons (c : List UInt8) (cs : List (List UInt8)) :
    joinPath sep (c :: cs) = sep :: (c ++ joinPath sep cs) := rfl

theorem joinPath_append (cs ds : List (List UInt8)) :
    joinPath sep (cs ++ ds) = joinPath sep cs ++ joinPath sep ds := List.flatMap_append

theorem length_joinPath_cons (c : List UInt8) (cs : List (List UInt8)) :
    (joinPath sep (c :: cs)).length = c.length + (joinPath sep cs).length + 1 := by
  rw [joinPath_cons, List.length_cons, List.length_append]

theorem strtok_le {off : Nat} {s : List UInt8} {t : Nat × List UInt8} (h : t ∈ strtok sep off s) :
    off ≤ t.1 := by
  induction s generalizing off t with
  | nil => cases h
  | cons x s ih =>
    rw [strtok] at h
    split at h
    next => exact Nat.le_of_succ_le (ih h)
    next =>
      split at h
      next => exact Nat.le_of_eq (congrArg Prod.fst (List.mem_singleton.mp h)).symm
      next o w ts heq =>
        have hrest : ∀ t ∈ (o, w) :: ts, off ≤ t.1 := fun t ht =>
          Nat.le_of_succ_le (ih (heq ▸ ht))
        split at h
        · rcases List.mem_cons.mp h with rfl | hmem
          · exact Nat.le_refl off
          · exact hrest t (List.mem_cons_of_mem _ hmem)
        · rcases List.mem_cons.mp h with rfl | hmem
          · exact Nat.le_refl off
          · exact hrest t hmem

theorem strtok_component {c : List UInt8} (hc : IsComponent sep c) {s : List UInt8}
    (hs : s = [] ∨ ∃ t, s = sep :: t) (off : Nat) :
    strtok sep off (c ++ s) = (off, c) :: strtok sep (off + c.length) s := by
  obtain ⟨hne, hno⟩ := hc
  induction c generalizing off with
  | nil => exact absurd rfl hne
  | cons x c ih =>
    rw [List.mem_cons, not_or] at hno
    rw [List.cons_append, strtok, if_neg (Ne.symm hno.1), List.length_cons]
    cases c with
    | cons y c =>
      rw [ih _ (List.cons_ne_nil y c) hno.2]
      simp only [if_true]
      congr 2
      omega
    | nil =>
      obtain rfl | ⟨t, rfl⟩ := hs
      · rfl
      · -- the next token starts past the separator, so it does not take `x` in
        have hskip : ∀ o, strtok sep o (sep :: t) = strtok sep (o + 1) t := fun o => by
          rw [strtok, if_pos rfl]
        rw [List.nil_append, hskip, List.length_nil, Nat.zero_add, hskip]
        split
        next heq => rw [heq]
        next o w ts heq =>
          have hle := strtok_le (t := (o, w)) (heq ▸ List.mem_cons_self)
          have hne' : o ≠ off + 1 := Nat.ne_of_gt hle
          rw [if_neg hne', heq]

/-- **The tokens of a path are its components**, each at its place. -/
theorem strtok_joinPath {cs : List (List UInt8)} (hcs : ∀ c ∈ cs, IsComponent sep c) (off : Nat) :
    strtok sep off (joinPath sep cs) = placed off cs := by
  induction cs generalizing off with
  | nil => rfl
  | cons c cs ih =>
    have hrest : joinPath sep cs = [] ∨ ∃ t, joinPath sep cs = sep :: t := by
      cases cs with
      | nil => exact .inl rfl
      | cons d ds => exact .inr ⟨_, joinPath_cons d ds⟩
    rw [joinPath_cons, strtok, if_pos rfl, strtok_component (hcs c List.mem_cons_self) hrest,
      ih fun d hd => hcs d (List.mem_cons_of_mem _ hd), placed]

theorem strtok_behind {cs : List (List UInt8)} (hcs : ∀ c ∈ cs, IsComponent sep c) :
    strtok sep 1 ((joinPath sep cs).drop 1) = placed 0 cs := by
  rw [← strtok_joinPath hcs 0]
  cases cs with
  | nil => rfl
  | cons c cs => rw [joinPath_cons, List.drop_succ_cons, List.drop_zero, strtok, if_pos rfl]

theorem strrchr_joinPath {c : List UInt8} (hc : IsComponent sep c) (cs : List (List UInt8)) :
    strrchr sep (joinPath sep (cs ++ [c])) = some (joinPath sep cs).length ∧
      (joinPath sep (cs ++ [c])).drop ((joinPath sep cs).length + 1) = c := by
  have hsplit : joinPath sep (cs ++ [c]) = joinPath sep cs ++ sep :: c := by
    rw [joinPath_append, joinPath_cons]
    exact congrArg (fun t => joinPath sep cs ++ sep :: t) (List.append_nil c)
  rw [hsplit]
  exact ⟨strrchr_append hc.no_sep _, by simp⟩

theorem placed_append (sep : UInt8) (off : Nat) (cs ds : List (List UInt8)) :
    placed off (cs ++ ds) = placed off cs ++ placed (off + (joinPath sep cs).length) ds := by
  induction cs generalizing off with
  | nil => rfl
  | cons c cs ih =>
    rw [List.cons_append, placed, placed, ih, List.cons_append, length_joinPath_cons]
    congr 3
    omega

theorem placed_le (sep : UInt8) {off : Nat} {cs : List (List UInt8)} {t : Nat × List UInt8}
    (h : t ∈ placed off cs) :
    t.1 ≤ off + (joinPath sep cs).length := by
  induction cs generalizing off with
  | nil => cases h
  | cons c cs ih =>
    rw [length_joinPath_cons]
    rcases List.mem_cons.mp h with rfl | hmem
    · show off + 1 ≤ _
      omega
    · have := ih hmem
      omega

theorem takeWhile_placed (cs : List (List UInt8)) (c : List UInt8) :
    (placed 0 (cs ++ [c])).takeWhile (fun t => t.1 ≠ (joinPath sep cs).length + 1) =
    placed 0 cs := by
  have hbefore : ∀ t ∈ placed 0 cs, decide (t.1 ≠ (joinPath sep cs).length + 1) = true := by
    intro t ht
    have hle := placed_le sep ht
    exact decide_eq_true (by omega)
  rw [placed_append sep, List.takeWhile_append_of_pos hbefore, placed, List.takeWhile_cons_of_neg,
    List.append_nil]
  simp

end Tokens

end Ext4tc.Lib
