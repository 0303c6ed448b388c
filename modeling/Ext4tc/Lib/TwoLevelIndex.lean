import Mathlib.Data.List.Basic
import Mathlib.Data.List.Nodup
import Mathlib.Data.List.Pairwise

/-! # A two-level index in one row of cells

Some lists of increasing positive numbers are indexed in one row: cell `i` of the row leads
to the segment of list `i`, and number `p` of that list has cell `p - 1` of the segment,
which holds the place of `p` in the list. A segment is as long as its last number is big,
so no two numbers share a cell. -/

namespace Ext4tc.Lib

/-! ## Writes -/

section Cells

variable {ε α : Type} (err : ε)

/-- A write with its bounds check. -/
def writeCell (row : List α) (i : Nat) (a : α) : Except ε (List α) :=
  if i < row.length then .ok (row.set i a) else .error err

def writeCells : List (Nat × α) → List α → Except ε (List α)
  | [], row => .ok row
  | w :: ws, row =>
    match writeCell err row w.1 w.2 with
    | .error e => .error e
    | .ok row => writeCells ws row

theorem writeCells_append (ws ws' : List (Nat × α)) (row : List α) :
    writeCells err (ws ++ ws') row =
      match writeCells err ws row with
      | .error e => .error e
      | .ok row => writeCells err ws' row := by
  induction ws generalizing row with
  | nil => rfl
  | cons w ws ih =>
    rw [List.cons_append, writeCells, writeCells]
    cases writeCell err row w.1 w.2 with
    | error e => rfl
    | ok row' => exact ih row'

/-- **Writes inside the row succeed**, and to different cells they do not disturb each other. -/
theorem writeCells_spec : ∀ (ws : List (Nat × α)) (row : List α), (∀ w ∈ ws, w.1 < row.length) →
    ∃ row', writeCells err ws row = .ok row' ∧ row'.length = row.length ∧
      (∀ i, i ∉ ws.map Prod.fst → row'[i]? = row[i]?) ∧
      ((ws.map Prod.fst).Nodup → ∀ w ∈ ws, row'[w.1]? = some w.2)
  | [], row, _ => ⟨row, rfl, rfl, fun _ _ => rfl, fun _ => nofun⟩
  | w :: ws, row, h => by
    have hw := h w List.mem_cons_self
    obtain ⟨row', hrun, hlen, hframe, hread⟩ := writeCells_spec ws (row.set w.1 w.2) (by
      intro w' hw'
      rw [List.length_set]
      exact h w' (List.mem_cons_of_mem _ hw'))
    refine ⟨row', ?_, by rw [hlen, List.length_set], ?_, ?_⟩
    · simp only [writeCells, writeCell, if_pos hw, hrun]
    · intro i hi
      simp only [List.map_cons, List.mem_cons, not_or] at hi
      rw [hframe i hi.2, List.getElem?_set_ne (Ne.symm hi.1)]
    · intro hnodup w' hw'
      rw [List.map_cons, List.nodup_cons] at hnodup
      rcases List.mem_cons.mp hw' with rfl | htail
      · rw [hframe _ hnodup.1, List.getElem?_set_self hw]
      · exact hread hnodup.2 w' htail

end Cells

/-! ## Segments -/

/-- Positive numbers, each greater than the ones before. -/
structure Increasing (nos : List Nat) : Prop where
  sorted : nos.Pairwise (· < ·)
  pos : ∀ p ∈ nos, 0 < p

theorem Increasing.nil : Increasing [] := ⟨List.Pairwise.nil, nofun⟩

theorem Increasing.sublist {nos nos' : List Nat} (h : Increasing nos) (hsub : nos'.Sublist nos) :
    Increasing nos' :=
  ⟨h.sorted.sublist hsub, fun p hp => h.pos p (hsub.subset hp)⟩

namespace TwoLevel

/-- The last number, which is the length of the segment. -/
def width (nos : List Nat) : Nat := nos.getLast?.getD 0

def total : List (List Nat) → Nat
  | [] => 0
  | nos :: lists => width nos + total lists

def segment (base : Nat) (nos : List Nat) : List (Nat × Nat) :=
  nos.zipIdx.map fun p => (base + p.1 - 1, p.2)

/-- All writes: for list `i` the cell that leads to its segment, and the segment. A list
without numbers has none. -/
def writes : (i base : Nat) → List (List Nat) → List (Nat × Nat)
  | _, _, [] => []
  | i, base, nos :: lists =>
    (i, if nos = [] then 0 else base) :: segment base nos ++
      writes (i + 1) (base + width nos) lists

theorem le_width {nos : List Nat} (h : Increasing nos) {p : Nat} (hp : p ∈ nos) :
    p ≤ width nos := by
  obtain ⟨i, hi, rfl⟩ := List.mem_iff_getElem.mp hp
  have hne := List.ne_nil_of_mem hp
  rw [width, List.getLast?_eq_some_getLast hne, Option.getD_some, List.getLast_eq_getElem]
  rcases Nat.lt_or_ge i (nos.length - 1) with hlt | hge
  · exact Nat.le_of_lt (List.pairwise_iff_getElem.mp h.sorted i (nos.length - 1) hi (by omega) hlt)
  · simp only [show i = nos.length - 1 by omega, Nat.le_refl]

theorem mem_segment {base j p : Nat} {nos : List Nat} (h : nos[j]? = some p) :
    (base + p - 1, j) ∈ segment base nos :=
  List.mem_map.mpr ⟨(p, j), List.mem_zipIdx_iff_getElem?.mpr h, rfl⟩

theorem segment_bounds {base : Nat} {nos : List Nat} (h : Increasing nos) {w : Nat × Nat}
    (hw : w ∈ segment base nos) : base ≤ w.1 ∧ w.1 < base + width nos := by
  obtain ⟨⟨p, j⟩, hmem, rfl⟩ := List.mem_map.mp hw
  have hp : p ∈ nos := List.mem_of_getElem? (List.mem_zipIdx_iff_getElem?.mp hmem)
  have hpos := h.pos p hp
  have hle := le_width h hp
  dsimp only
  omega

theorem segment_nodup {base : Nat} {nos : List Nat} (h : Increasing nos) :
    ((segment base nos).map Prod.fst).Nodup := by
  have hcells : (segment base nos).map Prod.fst = nos.map fun p => base + p - 1 := by
    have hnos := congrArg (List.map fun p => base + p - 1) (List.zipIdx_map_fst 0 nos)
    rw [List.map_map] at hnos
    rw [segment, List.map_map]
    exact hnos
  rw [hcells]
  refine List.Nodup.map_on ?_ (h.sorted.imp Nat.ne_of_lt)
  intro p hp q hq heq
  have hp' := h.pos p hp
  have hq' := h.pos q hq
  omega

/-- **Leading cells stay in front of the segments**, and both stay within their bounds. -/
theorem writes_bounds : ∀ (i base : Nat) (lists : List (List Nat)),
    (∀ nos ∈ lists, Increasing nos) → ∀ w ∈ writes i base lists,
      (i ≤ w.1 ∧ w.1 < i + lists.length) ∨ (base ≤ w.1 ∧ w.1 < base + total lists)
  | _, _, [], _ => nofun
  | i, base, nos :: lists, h => by
    intro w hw
    rw [List.length_cons, total]
    rw [writes, List.cons_append, List.mem_cons, List.mem_append] at hw
    rcases hw with rfl | hw | hw
    · exact .inl ⟨Nat.le_refl _, by dsimp only; omega⟩
    · have hb := segment_bounds (h nos List.mem_cons_self) hw
      exact .inr ⟨hb.1, by omega⟩
    · rcases writes_bounds (i + 1) (base + width nos) lists
        (fun nos' hmem => h nos' (List.mem_cons_of_mem _ hmem)) w hw with hb | hb
      · exact .inl ⟨by omega, by omega⟩
      · exact .inr ⟨by omega, by omega⟩

/-- **No cell is written twice.** -/
theorem writes_nodup : ∀ (i base : Nat) (lists : List (List Nat)), i + lists.length ≤ base →
    (∀ nos ∈ lists, Increasing nos) → ((writes i base lists).map Prod.fst).Nodup
  | _, _, [], _, _ => List.nodup_nil
  | i, base, nos :: lists, hbase, h => by
    have hnos := h nos List.mem_cons_self
    have hrest : ∀ nos' ∈ lists, Increasing nos' :=
      fun nos' hmem => h nos' (List.mem_cons_of_mem _ hmem)
    have hbounds := writes_bounds (i + 1) (base + width nos) lists hrest
    have ih := writes_nodup (i + 1) (base + width nos) lists
      (by rw [List.length_cons] at hbase; omega) hrest
    rw [List.length_cons] at hbase
    rw [writes, List.cons_append, List.map_cons, List.map_append, List.nodup_cons]
    refine ⟨?_, List.nodup_append.mpr ⟨segment_nodup hnos, ih, ?_⟩⟩
    · intro hi
      rcases List.mem_append.mp hi with hi | hi
      · obtain ⟨w, hw, heq⟩ := List.mem_map.mp hi
        have hb := segment_bounds hnos hw
        dsimp only at heq
        omega
      · obtain ⟨w, hw, heq⟩ := List.mem_map.mp hi
        have hb := hbounds w hw
        dsimp only at heq
        omega
    · intro a ha b hb
      obtain ⟨w, hw, rfl⟩ := List.mem_map.mp ha
      obtain ⟨w', hw', rfl⟩ := List.mem_map.mp hb
      have hb := segment_bounds hnos hw
      have hb' := hbounds w' hw'
      omega

theorem mem_writes : ∀ (i base : Nat) {lists : List (List Nat)} {k j p : Nat} {nos : List Nat},
    lists[k]? = some nos → nos[j]? = some p →
    ∃ b, (i + k, b) ∈ writes i base lists ∧ (b + p - 1, j) ∈ writes i base lists
  | _, _, [], _, _, _, _, hk, _ => nomatch hk
  | i, base, nos :: lists, 0, j, p, nos', hk, hj => by
    obtain rfl : nos = nos' := Option.some.inj hk
    have hne : nos ≠ [] := by
      rintro rfl
      cases hj
    refine ⟨base, ?_, ?_⟩
    · simp [writes, hne]
    · rw [writes, List.cons_append]
      exact List.mem_cons_of_mem _ (List.mem_append_left _ (mem_segment hj))
  | i, base, nos :: lists, k + 1, j, p, nos', hk, hj => by
    have hk' : lists[k]? = some nos' := by simpa using hk
    obtain ⟨b, hlead, hcell⟩ := mem_writes (i + 1) (base + width nos) hk' hj
    rw [Nat.add_assoc, Nat.add_comm 1 k] at hlead
    exact ⟨b, List.mem_cons_of_mem _ (List.mem_append_right _ hlead),
      List.mem_cons_of_mem _ (List.mem_append_right _ hcell)⟩

/-- **The index**: the writes go into a row of the total length, and every number is found. -/
theorem writes_index {ε : Type} (err : ε) {lists : List (List Nat)}
    (h : ∀ nos ∈ lists, Increasing nos) (a : Nat) :
    ∃ row, writeCells err (writes 0 lists.length lists)
        (List.replicate (lists.length + total lists) a) = .ok row ∧
      ∀ (k j p : Nat) (nos : List Nat), lists[k]? = some nos → nos[j]? = some p →
        ∃ b, row[k]? = some b ∧ row[b + p - 1]? = some j := by
  have hnodup := writes_nodup 0 lists.length lists (by omega) h
  obtain ⟨row, hrun, -, -, hread⟩ := writeCells_spec err (writes 0 lists.length lists)
    (List.replicate (lists.length + total lists) a) (by
      intro w hw
      rw [List.length_replicate]
      rcases writes_bounds 0 lists.length lists h w hw with hb | hb
      · omega
      · omega)
  refine ⟨row, hrun, ?_⟩
  intro k j p nos hk hj
  obtain ⟨b, hlead, hcell⟩ := mem_writes 0 lists.length hk hj
  rw [Nat.zero_add] at hlead
  exact ⟨b, hread hnodup _ hlead, hread hnodup _ hcell⟩

/-! ## All cells of the row -/

theorem total_take_succ : ∀ {lists : List (List Nat)} {k : Nat} {nos : List Nat},
    lists[k]? = some nos → total (lists.take (k + 1)) = total (lists.take k) + width nos
  | [], _, _, h => nomatch h
  | nos :: lists, 0, nos', h => by
    obtain rfl : nos = nos' := Option.some.inj h
    simp [total]
  | nos :: lists, k + 1, nos', h => by
    have hget : lists[k]? = some nos' := by simpa using h
    have ih := total_take_succ hget
    rw [List.take_succ_cons, List.take_succ_cons, total, total, ih]
    omega

theorem segment_before {lists : List (List Nat)} {k k' : Nat} {nos : List Nat}
    (h : lists[k]? = some nos) (hlt : k < k') :
    total (lists.take k) + width nos ≤ total (lists.take k') := by
  induction k' with
  | zero => omega
  | succ k' ih =>
    cases hget : lists[k']? with
    | none =>
      have hlen := (List.getElem?_eq_some_iff.mp h).1
      have hend := List.getElem?_eq_none_iff.mp hget
      have ih := ih (by omega)
      rw [List.take_of_length_le hend] at ih
      rwa [List.take_of_length_le (show lists.length ≤ k' + 1 by omega)]
    | some nos' =>
      rw [total_take_succ hget]
      rcases Nat.lt_succ_iff_lt_or_eq.mp hlt with hlt | rfl
      · have := ih hlt
        omega
      · obtain rfl := Option.some.inj (h.symm.trans hget)
        exact Nat.le_refl _

theorem lead_mem_writes : ∀ (i base : Nat) {lists : List (List Nat)} {k : Nat} {nos : List Nat},
    lists[k]? = some nos →
      (i + k, if nos = [] then 0 else base + total (lists.take k)) ∈ writes i base lists
  | _, _, [], _, _, h => nomatch h
  | i, base, nos :: lists, 0, nos', h => by
    obtain rfl : nos = nos' := Option.some.inj h
    simp [writes, total]
  | i, base, nos :: lists, k + 1, nos', h => by
    have hget : lists[k]? = some nos' := by simpa using h
    have ih := lead_mem_writes (i + 1) (base + width nos) hget
    rw [List.take_succ_cons, total, ← Nat.add_assoc base, ← Nat.add_assoc i, Nat.add_right_comm]
    exact List.mem_cons_of_mem _ (List.mem_append_right _ ih)

theorem place_mem_writes : ∀ (i base : Nat) {lists : List (List Nat)} {k j p : Nat}
    {nos : List Nat}, lists[k]? = some nos → nos[j]? = some p →
      (base + total (lists.take k) + p - 1, j) ∈ writes i base lists
  | _, _, [], _, _, _, _, hk, _ => nomatch hk
  | i, base, nos :: lists, 0, j, p, nos', hk, hj => by
    obtain rfl : nos = nos' := Option.some.inj hk
    exact List.mem_cons_of_mem _ (List.mem_append_left _ (mem_segment hj))
  | i, base, nos :: lists, k + 1, j, p, nos', hk, hj => by
    have hget : lists[k]? = some nos' := by simpa using hk
    have ih := place_mem_writes (i + 1) (base + width nos) hget hj
    rw [List.take_succ_cons, total, ← Nat.add_assoc base]
    exact List.mem_cons_of_mem _ (List.mem_append_right _ ih)

theorem of_mem_writes : ∀ (i base : Nat) {lists : List (List Nat)} {w : Nat × Nat},
    w ∈ writes i base lists → (∃ k, k < lists.length ∧ w.1 = i + k) ∨
      ∃ (k j p : Nat) (nos : List Nat), lists[k]? = some nos ∧ nos[j]? = some p ∧
        w.1 = base + total (lists.take k) + p - 1
  | _, _, [], _, h => nomatch h
  | i, base, nos :: lists, w, h => by
    rw [writes, List.cons_append, List.mem_cons, List.mem_append] at h
    rcases h with rfl | h | h
    · exact .inl ⟨0, Nat.succ_pos _, rfl⟩
    · obtain ⟨⟨p, j⟩, hmem, rfl⟩ := List.mem_map.mp h
      exact .inr ⟨0, j, p, nos, rfl, List.mem_zipIdx_iff_getElem?.mp hmem, rfl⟩
    · obtain ⟨k, hk, hw⟩ | ⟨k, j, p, nos', hk, hj, hw⟩ :=
        of_mem_writes (i + 1) (base + width nos) h
      · exact .inl ⟨k + 1, by simp [hk], by omega⟩
      · refine .inr ⟨k + 1, j, p, nos', by simpa using hk, hj, ?_⟩
        rw [hw, List.take_succ_cons, total]
        omega

/-- The place of a number, and `a` for one that is missing. -/
def placeOr (a : Nat) (nos : List Nat) (p : Nat) : Nat := if p ∈ nos then nos.idxOf p else a

theorem placeOr_width (a : Nat) {nos : List Nat} (h : Increasing nos) (hne : nos ≠ []) :
    0 < width nos ∧ placeOr a nos (width nos) = nos.length - 1 := by
  have hlen := List.length_pos_iff.mpr hne
  have hlast : nos.length - 1 < nos.length := by omega
  have hwidth : width nos = nos[nos.length - 1] := by
    rw [width, List.getLast?_eq_some_getLast hne, Option.getD_some, List.getLast_eq_getElem]
  have hmem : nos[nos.length - 1] ∈ nos := List.getElem_mem hlast
  have hnodup : nos.Nodup := h.sorted.imp Nat.ne_of_lt
  rw [hwidth, placeOr, if_pos hmem, hnodup.idxOf_getElem]
  exact ⟨h.pos _ hmem, rfl⟩

/-- A row as the writes leave it: where the segments start, and what their cells hold. -/
structure IsIndex (a : Nat) (lists : List (List Nat)) (row : List Nat) : Prop where
  lead : ∀ (k : Nat) (nos : List Nat), lists[k]? = some nos →
    row[k]? = some (if nos = [] then 0 else lists.length + total (lists.take k))
  cell : ∀ (k p : Nat) (nos : List Nat), lists[k]? = some nos → 0 < p → p ≤ width nos →
    row[lists.length + total (lists.take k) + p - 1]? = some (placeOr a nos p)

theorem gap_notMem_writes {lists : List (List Nat)} (h : ∀ nos ∈ lists, Increasing nos)
    {k p : Nat} {nos : List Nat} (hk : lists[k]? = some nos) (hp : 0 < p) (hle : p ≤ width nos)
    (hgap : p ∉ nos) :
    lists.length + total (lists.take k) + p - 1 ∉
      (writes 0 lists.length lists).map Prod.fst := by
  intro hmem
  obtain ⟨w, hw, heq⟩ := List.mem_map.mp hmem
  rcases of_mem_writes 0 lists.length hw with ⟨k', hk', hw'⟩ | ⟨k', j, q, nos', hk', hj, hw'⟩
  · omega
  · have hq := List.mem_of_getElem? hj
    have hinc := h nos' (List.mem_of_getElem? hk')
    have hpos := hinc.pos q hq
    have hqle := le_width hinc hq
    rcases Nat.lt_trichotomy k' k with hlt | rfl | hlt
    · have := segment_before hk' hlt
      omega
    · obtain rfl := Option.some.inj (hk.symm.trans hk')
      obtain rfl : p = q := by omega
      exact hgap hq
    · have := segment_before hk hlt
      omega

/-- **The row is known cell by cell**, the gaps between the numbers included. -/
theorem writes_isIndex {ε : Type} (err : ε) {lists : List (List Nat)}
    (h : ∀ nos ∈ lists, Increasing nos) (a : Nat) :
    ∃ row, writeCells err (writes 0 lists.length lists)
      (List.replicate (lists.length + total lists) a) = .ok row ∧ IsIndex a lists row := by
  have hnodup := writes_nodup 0 lists.length lists (by omega) h
  obtain ⟨row, hrun, hlen, hframe, hread⟩ := writeCells_spec err (writes 0 lists.length lists)
    (List.replicate (lists.length + total lists) a) (by
      intro w hw
      rw [List.length_replicate]
      rcases writes_bounds 0 lists.length lists h w hw with hb | hb <;> omega)
  refine ⟨row, hrun, ?_, ?_⟩
  · intro k nos hk
    have hlead := hread hnodup _ (lead_mem_writes 0 lists.length hk)
    rwa [Nat.zero_add] at hlead
  · intro k p nos hk hp hle
    rw [placeOr]
    by_cases hmem : p ∈ nos
    · have hj : nos[nos.idxOf p]? = some p := by
        rw [List.getElem?_eq_getElem (List.idxOf_lt_length_of_mem hmem), List.getElem_idxOf]
      rw [if_pos hmem]
      exact hread hnodup _ (place_mem_writes 0 lists.length hk hj)
    · have hbound := segment_before hk (List.getElem?_eq_some_iff.mp hk).1
      rw [List.take_length] at hbound
      rw [if_neg hmem, hframe _ (gap_notMem_writes h hk hp hle hmem),
        List.getElem?_replicate_of_lt (by omega)]

/-! ## In front of a segment -/

/-- What the cell in front of the segment of list `k` holds: the last place of the list before
that has any numbers; without one, it is the leading cell of the last list. -/
def frontPlace (lists : List (List Nat)) (k : Nat) : Nat :=
  match ((lists.take k).filter (· ≠ [])).getLast? with
  | some nos => nos.length - 1
  | none =>
    if lists.getLast? = some [] then 0
    else lists.length + total (lists.take (lists.length - 1))

theorem lastListed (lists : List (List Nat)) : ∀ k, k ≤ lists.length →
    match ((lists.take k).filter (· ≠ [])).getLast? with
    | none => total (lists.take k) = 0
    | some nos => ∃ k', k' < k ∧ lists[k']? = some nos ∧ nos ≠ [] ∧
        total (lists.take k') + width nos = total (lists.take k)
  | 0, _ => rfl
  | k + 1, hk => by
    have ih := lastListed lists k (by omega)
    have hget := List.getElem?_eq_getElem (show k < lists.length by omega)
    have htotal := total_take_succ hget
    rw [List.take_succ_eq_append_getElem (by omega)] at htotal ⊢
    rw [htotal, List.filter_append]
    by_cases hnil : lists[k] = []
    · have hone : [lists[k]].filter (· ≠ []) = [] := by simp [hnil]
      have hwidth : width lists[k] = 0 := by rw [hnil]; rfl
      rw [hone, List.append_nil, hwidth, Nat.add_zero]
      cases hlast : ((lists.take k).filter (· ≠ [])).getLast? with
      | none =>
        rw [hlast] at ih
        exact ih
      | some nos =>
        rw [hlast] at ih
        obtain ⟨k', hlt, hrest⟩ := ih
        exact ⟨k', by omega, hrest⟩
    · have hone : [lists[k]].filter (· ≠ []) = [lists[k]] := by simp [hnil]
      rw [hone, List.getLast?_concat]
      exact ⟨k, Nat.lt_succ_self k, hget, hnil, rfl⟩

/-- **The cell in front of a segment.** -/
theorem IsIndex.front {a : Nat} {lists : List (List Nat)} {row : List Nat}
    (h : IsIndex a lists row) (hinc : ∀ nos ∈ lists, Increasing nos) {k : Nat}
    (hk : k < lists.length) :
    row[lists.length + total (lists.take k) - 1]? = some (frontPlace lists k) := by
  have hlast := lastListed lists k (by omega)
  rw [frontPlace]
  cases hget : ((lists.take k).filter (· ≠ [])).getLast? with
  | none =>
    rw [hget] at hlast
    have hend := List.getElem?_eq_getElem (show lists.length - 1 < lists.length by omega)
    have hlead := h.lead _ _ hend
    simp only [show total (lists.take k) = 0 from hlast, Nat.add_zero, hlead,
      List.getLast?_eq_getElem?, hend, Option.some.injEq]
  | some nos =>
    rw [hget] at hlast
    obtain ⟨k', -, hk', hne, htotal⟩ := hlast
    obtain ⟨hpos, hplace⟩ := placeOr_width a (hinc nos (List.mem_of_getElem? hk')) hne
    have hcell := h.cell k' (width nos) nos hk' hpos (Nat.le_refl _)
    rwa [Nat.add_assoc, htotal, hplace] at hcell

end TwoLevel

end Ext4tc.Lib
