import Mathlib.Data.List.Pairwise

/-! # Lists with deleted records

Records with keys, of which some are deleted but still there. A lookup takes the first
candidate with a key, deleted or not. Where the keys of the live records differ, it finds
all the records that are shown exactly if no deleted candidate hides one. -/

namespace Ext4tc.Lib

variable {α κ : Type}

/-- Which records are live, which ones a lookup takes, and which ones are shown. -/
structure RecordList (α κ : Type) where
  key : α → κ
  live : α → Prop
  candidate : α → Bool
  shown : α → Prop
  live_of_shown : ∀ a, shown a → live a
  candidate_of_shown : ∀ a, shown a → candidate a = true

namespace RecordList

variable (r : RecordList α κ)

def UniqueLive (records : List α) : Prop :=
  records.Pairwise fun a b => r.live a → r.live b → r.key a ≠ r.key b

/-- No deleted candidate has the key of a shown record behind it. -/
def Unhidden (records : List α) : Prop :=
  records.Pairwise fun old a =>
    ¬r.live old → r.candidate old = true → r.shown a → r.key old ≠ r.key a

variable {r} {records : List α}

theorem UniqueLive.eq (h : r.UniqueLive records) {a b : α} (ha : a ∈ records) (hb : b ∈ records)
    (hlive : r.live a) (hlive' : r.live b) (hkey : r.key a = r.key b) : a = b := by
  by_contra hne
  have hsymm : Std.Symm fun a b => r.live a → r.live b → r.key a ≠ r.key b :=
    ⟨fun a b hab hb ha => (hab ha hb).symm⟩
  exact h.forall ha hb hne hlive hlive' hkey

variable [BEq κ]

variable (r) in
def lookUp (records : List α) (k : κ) : Option α :=
  records.find? fun a => r.key a == k && r.candidate a

variable [LawfulBEq κ]

theorem lookUp_cons_of_ne {a b : α} (h : ¬(r.key b = r.key a ∧ r.candidate b = true)) :
    r.lookUp (b :: records) (r.key a) = r.lookUp records (r.key a) := by
  have hb : (r.key b == r.key a && r.candidate b) = false := by
    simpa using h
  rw [lookUp, List.find?_cons_of_neg (by simp [hb]), lookUp]

theorem lookUp_cons_of_eq {a b : α} (hkey : r.key b = r.key a) (hcand : r.candidate b = true) :
    r.lookUp (b :: records) (r.key a) = some b := by
  rw [lookUp, List.find?_cons_of_pos (by simp [hkey, hcand])]

/-- **What is shown is found exactly if no deleted record hides it.** -/
theorem shown_found_iff (hunique : r.UniqueLive records) :
    (∀ a ∈ records, r.shown a → r.lookUp records (r.key a) = some a) ↔ r.Unhidden records := by
  induction records with
  | nil => simp [Unhidden]
  | cons b records ih =>
    obtain ⟨hhead, htail⟩ := List.pairwise_cons.mp hunique
    have hfirst : ∀ a ∈ records, r.shown a → r.live b → r.key b ≠ r.key a :=
      fun a ha hshown hlive => hhead a ha hlive (r.live_of_shown a hshown)
    rw [Unhidden, List.pairwise_cons, ← Unhidden, ← ih htail]
    constructor
    · intro h
      constructor
      · intro a ha hdead hcand hshown hkey
        have hfound := h a (List.mem_cons_of_mem b ha) hshown
        rw [lookUp_cons_of_eq hkey hcand, Option.some.injEq] at hfound
        exact hdead (hfound ▸ r.live_of_shown a hshown)
      · intro a ha hshown
        have hfound := h a (List.mem_cons_of_mem b ha) hshown
        by_cases hb : r.key b = r.key a ∧ r.candidate b = true
        · rw [lookUp_cons_of_eq hb.1 hb.2, Option.some.injEq] at hfound
          exact absurd hb.1 (hfirst a ha hshown (hfound ▸ r.live_of_shown a hshown))
        · rwa [lookUp_cons_of_ne hb] at hfound
    · rintro ⟨hhides, h⟩ a ha hshown
      rcases List.mem_cons.mp ha with rfl | ha
      · exact lookUp_cons_of_eq rfl (r.candidate_of_shown a hshown)
      · rw [lookUp_cons_of_ne, h a ha hshown]
        rintro ⟨hkey, hcand⟩
        by_cases hlive : r.live b
        · exact hfirst a ha hshown hlive hkey
        · exact hhides a ha hlive hcand hshown hkey

end RecordList

end Ext4tc.Lib
