import Ext4tc.DiskUtils.ReadFile
import Ext4tc.DiskUtils.Mounting

/-! # The shape of a copy

A copy is a row of blocks 0, 1, 2, ... that went through, and one end: all blocks
done, the flag seen, a lookup that crashed, or a block whose read or write failed.
What happens to a block is decided by the environment and by the sequential run
of lookups alone, so whether a block is reached can be said without running the
copy. -/

namespace Ext4tc.DiskUtils
open Ext4tc.Lib Ext4tc.Fs

theorem CopyEnv.intFlag_mono {env : CopyEnv} {i j : Nat} (hij : i ≤ j) (h : env.intFlag i = true) :
    env.intFlag j = true := by
  unfold CopyEnv.intFlag at h ⊢
  split at h
  · cases h
  · simp only [decide_eq_true_eq] at h ⊢
    omega

/-! ## Size arithmetic -/

section Arithmetic

variable {bs size : Nat}

theorem fileBlocks_zero (hbs : 0 < bs) : fileBlocks bs 0 = 0 :=
  Nat.div_eq_of_lt (by omega)

theorem fileBlocks_pos (hbs : 0 < bs) (h : 0 < size) : 0 < fileBlocks bs size :=
  Nat.div_pos (by omega) hbs

theorem fileBlocks_le (hbs : 0 < bs) (h : size ≤ 2 ^ 32 * bs) : fileBlocks bs size ≤ 2 ^ 32 := by
  refine Nat.le_of_lt_succ ((Nat.div_lt_iff_lt_mul hbs).mpr ?_)
  rw [Nat.succ_mul]
  omega

/-- `n_blocks - 1` is the last block even where `n_blocks` wraps to 0. -/
theorem lastBlock_eq (hlo : 0 < bs) (hhi : bs ≤ 2 ^ 31) (hpos : 0 < size)
    (hsize : size ≤ 2 ^ 32 * bs) :
    lastBlock bs size = fileBlocks bs size - 1 := by
  have hn : 0 < fileBlocks bs size := fileBlocks_pos (by omega) hpos
  have hn' : fileBlocks bs size ≤ 2 ^ 32 := fileBlocks_le (by omega) hsize
  have hbound : 2 ^ 32 * bs ≤ 2 ^ 32 * 2 ^ 31 := Nat.mul_le_mul_left _ hhi
  have hsum : (size + bs + (2 ^ 64 - 1)) % 2 ^ 64 = size + bs - 1 := by omega
  rw [lastBlock, nBlocks, hsum, ← fileBlocks, sub32]
  omega

/-- What is left for the last block is there, and no more than a block. -/
theorem offsetMax_eq (hlo : 0 < bs) (hhi : bs ≤ 2 ^ 31) (hpos : 0 < size)
    (hsize : size ≤ 2 ^ 32 * bs) :
    (fileBlocks bs size - 1) * bs + offsetMax bs size = size ∧ 0 < offsetMax bs size ∧
      offsetMax bs size ≤ bs := by
  have hn : 0 < fileBlocks bs size := fileBlocks_pos (by omega) hpos
  have hlt : (fileBlocks bs size - 1) * bs < size := mul_lt_of_lt_fileBlocks (by omega) (by omega)
  have hle : size ≤ fileBlocks bs size * bs := size_le_fileBlocks_mul size (by omega)
  have hsucc : fileBlocks bs size * bs = (fileBlocks bs size - 1) * bs + bs := by
    rw [← Nat.succ_mul, Nat.succ_eq_add_one, Nat.sub_add_cancel hn]
  have hbound : 2 ^ 32 * bs ≤ 2 ^ 32 * 2 ^ 31 := Nat.mul_le_mul_left _ hhi
  rw [offsetMax, lastBlock_eq hlo hhi hpos hsize]
  generalize (fileBlocks bs size - 1) * bs = x at hlt hle hsucc ⊢
  omega

end Arithmetic

/-- What a copy depends on: the environment, the partition, the sectors of a
block, the mapper it starts with, and how much it writes of each block. -/
structure CopyJob where
  env : CopyEnv
  part : Partition
  blockSizeSect : Nat
  blk : Blocks
  nWrite : Nat → Nat

namespace CopyJob

def lookup (job : CopyJob) (i : Nat) : Except Fault BlkNr := job.blk.lookup job.env.metaFails i

structure Passes (job : CopyJob) (i : Nat) : Prop where
  guard : job.env.intFlag i = false
  lookup : ∃ ret, job.lookup i = .ok ret
  readOk : job.env.readOk i = true
  writeOk : job.env.writeOk i = true

/-- The bytes of the block that a read at address `a` gets. -/
def bytesAt (job : CopyJob) (a i : Nat) : List UInt8 :=
  (job.part.bufferAt (job.part.seek (job.blockSizeSect * a % 2 ^ 64))
    (job.blockSizeSect * job.part.sectorSize % 2 ^ 32)).slice 0 (job.nWrite i)

/-- A step says what its lookup answered, reads the address it set, if it set
one, and writes what was read. -/
structure IsStep (job : CopyJob) (s : CopyStep) : Prop where
  guard : job.env.intFlag s.index = false
  lookup : job.lookup s.index = .ok s.blkNr
  io : ∃ a, (∀ a', s.blkNr.physicalBlkAddr = some a' → a = a') ∧
    s.read = some (a, job.env.readOk s.index) ∧
    s.write =
      if job.env.readOk s.index then some (job.bytesAt a s.index, job.env.writeOk s.index) else none

/-- Blocks `i` to `i + m - 1` went through. -/
structure Row (job : CopyJob) (i m : Nat) (steps : List CopyStep) : Prop where
  index : steps.map CopyStep.index = List.range' i m
  isStep : ∀ s ∈ steps, job.IsStep s
  passes : ∀ j, i ≤ j → j < i + m → job.Passes j

/-- The end of the loop before block `stop`, at block `j`. -/
inductive LoopEnd (job : CopyJob) (stop j : Nat) : List CopyStep → Option Outcome → Prop
  | done (h : j = stop) : LoopEnd job stop j [] none
  | interrupted (h : j < stop) (hflag : job.env.intFlag j = true) : LoopEnd job stop j [] none
  | crashed (h : j < stop) (hflag : job.env.intFlag j = false) {fault : Fault}
      (hl : job.lookup j = .error fault) : LoopEnd job stop j [] (some (.crashed fault))
  | failed (h : j < stop) {s : CopyStep} (hs : job.IsStep s) (hj : s.index = j)
      (hio : ¬(job.env.readOk j = true ∧ job.env.writeOk j = true)) :
      LoopEnd job stop j [s] (some (.returned (-1)))

/-- The end of the whole copy: `total` blocks, the last test being test `last`. -/
inductive CopyEnd (job : CopyJob) (last total j : Nat) : List CopyStep → Outcome → Prop
  | done (h : j = total) (hflag : job.env.intFlag last = false) :
      CopyEnd job last total j [] (.returned 0)
  | interrupted (h : j ≤ last) (hflag : job.env.intFlag j = true) :
      CopyEnd job last total j [] (.returned (-1))
  | crashed (h : j < total) (hflag : job.env.intFlag j = false) {fault : Fault}
      (hl : job.lookup j = .error fault) : CopyEnd job last total j [] (.crashed fault)
  | failed (h : j < total) {s : CopyStep} (hs : job.IsStep s) (hj : s.index = j)
      (hio : ¬(job.env.readOk j = true ∧ job.env.writeOk j = true)) :
      CopyEnd job last total j [s] (.returned (-1))

/-! ## One block -/

theorem lookup_of_before {job : CopyJob} {i : Nat} {b : Blocks}
    (hb : job.blk.before job.env.metaFails i = .ok b) :
    job.lookup i = (b.getExt2BlkNr job.env.metaFails i).map Prod.fst := by
  rw [lookup, Blocks.lookup, hb]

/-- One block crashes with its lookup, or is a step, and goes on exactly when its
read and its write work. -/
theorem copyBlock_spec {job : CopyJob} {i : Nat} {st : CopyState}
    (hb : job.blk.before job.env.metaFails i = .ok st.blk) (hflag : job.env.intFlag i = false) :
    (∃ fault, copyBlock job.env job.part job.blockSizeSect i (job.nWrite i) st = .error fault ∧
        job.lookup i = .error fault) ∨
      ∃ s st' o, copyBlock job.env job.part job.blockSizeSect i (job.nWrite i) st =
        .ok (s, st', o) ∧
        s.index = i ∧ job.IsStep s ∧ job.blk.before job.env.metaFails (i + 1) = .ok st'.blk ∧
        (o = none ∧ job.Passes i ∨
          o = some (.returned (-1)) ∧ ¬(job.env.readOk i = true ∧ job.env.writeOk i = true)) := by
  have hlook := lookup_of_before hb
  unfold copyBlock
  cases hcall : st.blk.getExt2BlkNr job.env.metaFails i with
  | error fault =>
    rw [hcall] at hlook
    exact .inl ⟨fault, rfl, hlook⟩
  | ok r =>
    obtain ⟨ret, blk⟩ := r
    rw [hcall] at hlook
    have hlook' : job.lookup i = .ok ret := hlook
    have hnext : job.blk.before job.env.metaFails (i + 1) = .ok blk := by
      rw [Blocks.before, hb]
      simp only [hcall, Except.map]
    have haddr : ∀ a', ret.physicalBlkAddr = some a' → ret.physicalBlkAddr.getD st.nrBlk = a' :=
      fun a' ha => by rw [ha, Option.getD_some]
    simp only [if_neg (Nat.not_lt_zero ret.ret), Partition.readSectorsEx]
    right
    cases hread : job.env.readOk i with
    | false =>
      refine ⟨_, _, _, rfl, rfl, ⟨hflag, hlook', _, haddr, ?_, ?_⟩, hnext, .inr ⟨rfl, by simp⟩⟩
      · simp only [hread]
      · simp [hread]
    | true =>
      refine ⟨_, _, _, rfl, rfl, ⟨hflag, hlook', _, haddr, ?_, ?_⟩, hnext, ?_⟩
      · simp only [hread]
      · simp only [hread, if_true]
        rfl
      · cases hwrite : job.env.writeOk i with
        | false => exact .inr ⟨by simp, by simp⟩
        | true => exact .inl ⟨by simp, hflag, ⟨ret, hlook'⟩, hread, hwrite⟩

/-! ## The loop -/

theorem Row.nil (job : CopyJob) (i : Nat) : job.Row i 0 [] :=
  ⟨rfl, nofun, fun j hlo hhi => absurd hhi (by omega)⟩

theorem Row.cons {job : CopyJob} {i m : Nat} {s : CopyStep} {steps : List CopyStep}
    (hs : job.IsStep s) (hi : s.index = i) (hp : job.Passes i) (h : job.Row (i + 1) m steps) :
    job.Row i (m + 1) (s :: steps) := by
  refine ⟨by rw [List.map_cons, hi, h.index, List.range'_succ], ?_, ?_⟩
  · intro s' hmem
    rcases List.mem_cons.mp hmem with rfl | hmem
    · exact hs
    · exact h.isStep s' hmem
  · intro j hlo hhi
    rcases Nat.eq_or_lt_of_le hlo with rfl | hlt
    · exact hp
    · exact h.passes j hlt (by omega)

/-- The loop is a row that went through, and an end. -/
theorem copyLoop_spec (job : CopyJob) (blockSizeByte : Nat) : ∀ (k i : Nat) (st : CopyState),
    (∀ j, i ≤ j → j < i + k → job.nWrite j = blockSizeByte) →
    job.blk.before job.env.metaFails i = .ok st.blk →
    ∃ m row tail st' o, copyLoop job.env job.part job.blockSizeSect blockSizeByte k i st =
        (row ++ tail, st', o) ∧ job.Row i m row ∧ job.LoopEnd (i + k) (i + m) tail o ∧
      job.blk.before job.env.metaFails (i + (row ++ tail).length) = .ok st'.blk
  | 0, i, st, _, hb => ⟨0, [], [], st, none, rfl, .nil job i, .done rfl, hb⟩
  | k + 1, i, st, hw, hb => by
    rw [copyLoop]
    cases hflag : job.env.intFlag i with
    | true => exact ⟨0, [], [], st, none, rfl, .nil job i, .interrupted (by omega) hflag, hb⟩
    | false =>
      simp only [Bool.false_eq_true, if_false]
      obtain ⟨fault, hcall, hl⟩ | ⟨s, st', o, hcall, hi, hs, hb', hgo⟩ := copyBlock_spec hb hflag
      · rw [← hw i (Nat.le_refl i) (by omega), hcall]
        exact ⟨0, [], [], st, _, rfl, .nil job i, .crashed (by omega) hflag hl, hb⟩
      · rw [← hw i (Nat.le_refl i) (by omega), hcall]
        obtain ⟨rfl, hp⟩ | ⟨rfl, hio⟩ := hgo
        · obtain ⟨m, row, tail, st'', o, hrun, hrow, hend, hb''⟩ :=
            copyLoop_spec job blockSizeByte k (i + 1) st'
              (fun j hlo hhi => hw j (by omega) (by omega)) hb'
          rw [hw i (Nat.le_refl i) (by omega)]
          simp only [hrun]
          refine ⟨m + 1, s :: row, tail, st'', o, rfl, hrow.cons hs hi hp, ?_, ?_⟩
          · rw [show i + (k + 1) = i + 1 + k by omega, show i + (m + 1) = i + 1 + m by omega]
            exact hend
          · rw [List.cons_append, List.length_cons, ← hb'']
            congr 1
            omega
        · exact ⟨0, [], [s], st', _, rfl, .nil job i, .failed (by omega) hs hi hio, hb'⟩

theorem Row.snoc {job : CopyJob} {m : Nat} {s : CopyStep} {steps : List CopyStep}
    (h : job.Row 0 m steps) (hs : job.IsStep s) (hm : s.index = m) (hp : job.Passes m) :
    job.Row 0 (m + 1) (steps ++ [s]) := by
  refine ⟨?_, ?_, ?_⟩
  · rw [List.map_append, h.index, List.map_singleton, hm, ← List.range_eq_range',
      ← List.range_eq_range',
      List.range_succ]
  · intro s' hmem
    rcases List.mem_append.mp hmem with hmem | hmem
    · exact h.isStep s' hmem
    · rw [List.mem_singleton.mp hmem]
      exact hs
  · intro j hlo hhi
    rcases Nat.lt_or_ge j m with hlt | hge
    · exact h.passes j hlo (by omega)
    · obtain rfl : j = m := by omega
      exact hp

theorem Row.unsnoc {job : CopyJob} {m : Nat} {row : List CopyStep} (h : job.Row 0 (m + 1) row) :
    ∃ row' s, row = row' ++ [s] ∧ job.Row 0 m row' ∧ job.IsStep s ∧ s.index = m ∧ job.Passes m := by
  rcases List.eq_nil_or_concat row with rfl | ⟨row', s, rfl⟩
  · have hindex := h.index
    rw [List.range'_succ] at hindex
    cases hindex
  · rw [List.concat_eq_append] at h ⊢
    have hindex : row'.map CopyStep.index ++ [s.index] = List.range' 0 m ++ [m] := by
      have := h.index
      rwa [List.map_append, ← List.range_eq_range', List.range_succ, List.range_eq_range'] at this
    obtain ⟨hrow, hs⟩ := List.append_inj' hindex rfl
    exact ⟨row', s, rfl, ⟨hrow, fun s' hs' => h.isStep s' (List.mem_append_left _ hs'),
        fun j hlo hhi => h.passes j hlo (by omega)⟩,
      h.isStep s (List.mem_append_right _ (List.mem_singleton_self s)), (List.cons.inj hs).1,
      h.passes m (Nat.zero_le m) (by omega)⟩

/-! ## What a step wrote -/

theorem IsStep.written_length {job : CopyJob} {s : CopyStep} (hs : job.IsStep s)
    (hp : job.Passes s.index) : s.written.length = job.nWrite s.index := by
  obtain ⟨a, -, -, hwrite⟩ := hs.io
  rw [hp.readOk, if_pos rfl, hp.writeOk] at hwrite
  rw [CopyStep.written, hwrite]
  exact Buffer.slice_length _ _ _

theorem IsStep.written_of_failed {job : CopyJob} {s : CopyStep} (hs : job.IsStep s)
    (hio : ¬(job.env.readOk s.index = true ∧ job.env.writeOk s.index = true)) : s.written = [] := by
  obtain ⟨a, -, -, hwrite⟩ := hs.io
  cases hread : job.env.readOk s.index with
  | false =>
    rw [hread, if_neg Bool.false_ne_true] at hwrite
    rw [CopyStep.written, hwrite]
  | true =>
    cases hok : job.env.writeOk s.index with
    | false =>
      rw [hread, if_pos rfl, hok] at hwrite
      rw [CopyStep.written, hwrite]
    | true => exact absurd ⟨hread, hok⟩ hio

/-- After the loop come the last test of the flag and the last block. -/
theorem copyLast_spec {job : CopyJob} {last m : Nat} {row tail : List CopyStep} {st : CopyState}
    {o : Option Outcome} (hrow : job.Row 0 m row) (hend : job.LoopEnd last m tail o)
    (hb : job.blk.before job.env.metaFails (row ++ tail).length = .ok st.blk) :
    ∃ m' row' tail' st' o', copyLast job.env job.part job.blockSizeSect last (job.nWrite last)
        (row ++ tail, st, o) = (row' ++ tail', st', o') ∧ job.Row 0 m' row' ∧
      job.CopyEnd last (last + if 0 < job.nWrite last then 1 else 0) m' tail' o' ∧
      job.blk.before job.env.metaFails (row' ++ tail').length = .ok st'.blk := by
  have hle : last ≤ last + if 0 < job.nWrite last then 1 else 0 := Nat.le_add_right _ _
  cases hend with
  | crashed h hflag hl =>
    exact ⟨m, row, [], st, _, by rw [copyLast], hrow, .crashed (by omega) hflag hl, hb⟩
  | failed h hs hj hio =>
    exact ⟨m, row, _, st, _, by rw [copyLast], hrow, .failed (by omega) hs hj hio, hb⟩
  | interrupted h hflag =>
    rw [copyLast, if_pos (CopyEnv.intFlag_mono (Nat.le_of_lt h) hflag)]
    exact ⟨m, row, [], st, _, rfl, hrow, .interrupted (by omega) hflag, hb⟩
  | done h =>
    subst h
    rw [List.append_nil] at hb ⊢
    rw [copyLast]
    cases hflag : job.env.intFlag m with
    | true => exact ⟨m, row, [], st, _, by simp, hrow, .interrupted (Nat.le_refl m) hflag,
        by simpa using hb⟩
    | false =>
      rw [if_neg Bool.false_ne_true]
      by_cases hw : 0 < job.nWrite m
      · have hlen : row.length = m := by
          rw [← List.length_map CopyStep.index, hrow.index, List.length_range']
        rw [if_pos hw, if_pos hw]
        rw [hlen] at hb
        obtain ⟨fault, hcall, hl⟩ | ⟨s, st', o, hcall, hi, hs, hb', hgo⟩ := copyBlock_spec hb hflag
        · rw [hcall]
          exact ⟨m, row, [], st, _, by simp, hrow, .crashed (by omega) hflag hl,
            by simpa [hlen] using hb⟩
        · rw [hcall]
          obtain ⟨rfl, hp⟩ | ⟨rfl, hio⟩ := hgo
          · exact ⟨m + 1, row ++ [s], [], st', _, by simp, hrow.snoc hs hi hp, .done rfl hflag,
              by simpa [hlen] using hb'⟩
          · exact ⟨m, row, [s], st', _, by simp, hrow, .failed (by omega) hs hi hio,
              by simpa [hlen] using hb'⟩
      · rw [if_neg hw, if_neg hw]
        exact ⟨m, row, [], st, _, by simp, hrow, .done rfl hflag, by simpa using hb⟩

/-- Block `i` of `total` is looked up: nothing stops the copy before it, and its
lookup returns. -/
structure Reached (job : CopyJob) (total i : Nat) : Prop where
  lt : i < total
  guard : job.env.intFlag i = false
  lookup : ∃ ret, job.lookup i = .ok ret
  before : ∀ j, j < i → job.Passes j

section Steps

variable {job : CopyJob} {last total m : Nat} {row tail : List CopyStep} {o : Outcome}

theorem CopyEnd.isStep (hrow : job.Row 0 m row) (hend : job.CopyEnd last total m tail o) :
    ∀ s ∈ row ++ tail, job.IsStep s := by
  intro s hmem
  rcases List.mem_append.mp hmem with hmem | hmem
  · exact hrow.isStep s hmem
  · cases hend with
    | failed h hs hj hio =>
      rw [List.mem_singleton.mp hmem]
      exact hs
    | done => cases hmem
    | interrupted => cases hmem
    | crashed => cases hmem

theorem Row.mem_index (hrow : job.Row 0 m row) (i : Nat) : (∃ s ∈ row, s.index = i) ↔ i < m := by
  have h : i ∈ row.map CopyStep.index ↔ i ∈ List.range' 0 m := by rw [hrow.index]
  rw [List.mem_map, List.mem_range'_1] at h
  rw [h]
  omega

theorem CopyEnd.index_le (hrow : job.Row 0 m row) (hend : job.CopyEnd last total m tail o)
    (hle : last ≤ total) : ∀ s ∈ row ++ tail, s.index < total ∧ s.index ≤ m := by
  have hm : m ≤ total := by cases hend <;> omega
  intro s hmem
  rcases List.mem_append.mp hmem with hmem | hmem
  · have hlt := (hrow.mem_index s.index).mp ⟨s, hmem, rfl⟩
    omega
  · cases hend with
    | failed h hs hj hio =>
      rw [List.mem_singleton.mp hmem, hj]
      omega
    | done => cases hmem
    | interrupted => cases hmem
    | crashed => cases hmem

theorem CopyEnd.length_le (hrow : job.Row 0 m row) (hend : job.CopyEnd last total m tail o)
    (hle : last ≤ total) : (row ++ tail).length ≤ total := by
  have hlen : row.length = m := by
    rw [← List.length_map CopyStep.index, hrow.index, List.length_range']
  rw [List.length_append, hlen]
  cases hend with
  | failed h => exact h
  | done h => exact Nat.le_of_eq h
  | interrupted h => exact Nat.le_trans h hle
  | crashed h => exact Nat.le_of_lt h

/-- **A block has a step exactly when it is reached.** -/
theorem CopyEnd.mem_index (hrow : job.Row 0 m row) (hend : job.CopyEnd last total m tail o)
    (hle : last ≤ total) (i : Nat) : (∃ s ∈ row ++ tail, s.index = i) ↔ job.Reached total i := by
  constructor
  · rintro ⟨s, hmem, rfl⟩
    have hs := hend.isStep hrow s hmem
    obtain ⟨hlt, hsm⟩ := hend.index_le hrow hle s hmem
    exact ⟨hlt, hs.guard, ⟨_, hs.lookup⟩, fun j hj => hrow.passes j (Nat.zero_le j) (by omega)⟩
  · intro h
    rcases Nat.lt_trichotomy i m with hlt | rfl | hgt
    · obtain ⟨s, hmem, hi⟩ := (hrow.mem_index i).mpr hlt
      exact ⟨s, List.mem_append_left _ hmem, hi⟩
    · cases hend with
      | done heq => exact absurd h.lt (by omega)
      | interrupted _ hflag => exact absurd (h.guard.symm.trans hflag) Bool.false_ne_true
      | crashed _ _ hl =>
        obtain ⟨ret, hret⟩ := h.lookup
        rw [hl] at hret
        cases hret
      | @failed _ s _ hj _ => exact ⟨s, List.mem_append_right _ (List.mem_singleton_self s), hj⟩
    · have hp := h.before m hgt
      cases hend with
      | done heq => exact absurd h.lt (by omega)
      | interrupted _ hflag => exact absurd (hp.guard.symm.trans hflag) Bool.false_ne_true
      | crashed _ _ hl =>
        obtain ⟨ret, hret⟩ := hp.lookup
        rw [hl] at hret
        cases hret
      | failed _ _ _ hio => exact absurd ⟨hp.readOk, hp.writeOk⟩ hio

end Steps

end CopyJob

/-! ## The whole copy -/

/-- The job of a `read_file` run: whole blocks, and the rest of the last one. -/
def copyJob (env : CopyEnv) (p : Partition) (sb : Ext4SuperBlock) (inode : Ext4Inode) :
    CopyJob where
  env := env
  part := p
  blockSizeSect := sb.blockSize / p.sectorSize % 2 ^ 16
  blk := Blocks.new p sb inode
  nWrite i := if i < lastBlock sb.blockSize inode.size then sb.blockSize
    else offsetMax sb.blockSize inode.size

def totalBlocks (blockSizeByte size : Nat) : Nat :=
  lastBlock blockSizeByte size + if 0 < offsetMax blockSizeByte size then 1 else 0

theorem copyJob_nWrite {env : CopyEnv} {p : Partition} {sb : Ext4SuperBlock} {inode : Ext4Inode}
    {j : Nat} (hj : j < lastBlock sb.blockSize inode.size) :
    (copyJob env p sb inode).nWrite j = sb.blockSize := by
  unfold copyJob
  dsimp only
  rw [if_pos hj]

theorem copyJob_nWrite_last (env : CopyEnv) (p : Partition) (sb : Ext4SuperBlock)
    (inode : Ext4Inode) :
    (copyJob env p sb inode).nWrite (lastBlock sb.blockSize inode.size) =
      offsetMax sb.blockSize inode.size := by
  unfold copyJob
  dsimp only
  rw [if_neg (Nat.lt_irrefl _)]

/-- **The shape of a run.** -/
theorem copySteps_spec (env : CopyEnv) (p : Partition) (sb : Ext4SuperBlock) (inode : Ext4Inode)
    (nrBlk : Nat) :
    ∃ m row tail st o, copySteps env p sb inode nrBlk = (row ++ tail, st, o) ∧
      (copyJob env p sb inode).Row 0 m row ∧
      (copyJob env p sb inode).CopyEnd (lastBlock sb.blockSize inode.size)
        (totalBlocks sb.blockSize inode.size) m tail o ∧
      (Blocks.new p sb inode).before env.metaFails (row ++ tail).length = .ok st.blk := by
  obtain ⟨m, row, tail, st, o, hrun, hrow, hend, hb⟩ :=
    CopyJob.copyLoop_spec (copyJob env p sb inode) sb.blockSize
      (lastBlock sb.blockSize inode.size) 0
      ⟨Blocks.new p sb inode, nrBlk⟩ (fun j _ hj => copyJob_nWrite (by rwa [Nat.zero_add] at hj))
      (Blocks.before_zero _ _)
  rw [Nat.zero_add, Nat.zero_add] at hend
  rw [Nat.zero_add] at hb
  have hlast := CopyJob.copyLast_spec hrow hend hb
  rw [copyJob_nWrite_last] at hlast
  have hrun' : copyLoop env p (sb.blockSize / p.sectorSize % 2 ^ 16) sb.blockSize
      (lastBlock sb.blockSize inode.size) 0 ⟨Blocks.new p sb inode, nrBlk⟩ = (row ++ tail, st, o) :=
        hrun
  rw [copySteps, hrun']
  exact hlast

/-! ## The call -/

/-- Block `i` of the file is looked up, and its lookup returns. -/
structure ReachesBlock (env : CopyEnv) (p : Partition) (sb : Ext4SuperBlock) (inode : Ext4Inode)
    (i : Nat) : Prop where
  blockSize : sb.blockSize ≠ 0
  size : inode.size ≠ 0
  reached : (copyJob env p sb inode).Reached (totalBlocks sb.blockSize inode.size) i

theorem reachesBlock_zero {env : CopyEnv} {p : Partition} {sb : Ext4SuperBlock} {inode : Ext4Inode}
    {ret : BlkNr} (hbs : sb.blockSize ≠ 0) (hsize : inode.size ≠ 0)
    (htotal : 0 < totalBlocks sb.blockSize inode.size) (hflag : env.intFlag 0 = false)
    (hlook : (Blocks.new p sb inode).lookup env.metaFails 0 = .ok ret) :
    ReachesBlock env p sb inode 0 := by
  refine ⟨hbs, hsize, htotal, hflag, ⟨ret, hlook⟩, ?_⟩
  intro j hj
  exact absurd hj (Nat.not_lt_zero j)

/-- Past the tests at its head, `read_file` is the copy. -/
theorem readFile_of_loaded (env : CopyEnv) {part : PartitionLinuxExt2} {inodeNr : Nat}
    {sb : Ext4SuperBlock} {inode : Ext4Inode} (h : part.Loaded env.inodeOk inodeNr sb inode)
    (nrBlk : Nat) :
    (part.readFile env inodeNr true nrBlk).1 =
      if inode.size = 0 then ⟨[], .returned 0⟩ else copyFile env part.part sb inode nrBlk := by
  obtain ⟨info, part', hlive, rfl, hinode⟩ := h
  obtain ⟨hs, hpart⟩ := PartitionLinuxExt2.getExt4Inode_some hinode
  have hzero : inode.iSizeLo = 0 ∧ inode.iSizeHigh = 0 ↔ inode.size = 0 := by
    rw [Ext4Inode.size_eq]
    omega
  simp only [PartitionLinuxExt2.readFile, hlive, if_neg hs, Bool.not_true, Bool.false_eq_true,
    if_false,
    hinode, hzero, hpart]
  split <;> rfl

/-- Steps are steps of the job, and a block has one exactly when it is reached. -/
theorem readFile_steps {env : CopyEnv} {part : PartitionLinuxExt2} {inodeNr : Nat}
    {sb : Ext4SuperBlock} {inode : Ext4Inode} (h : part.Loaded env.inodeOk inodeNr sb inode)
    (nrBlk : Nat) :
    (∀ s ∈ (part.readFile env inodeNr true nrBlk).1.steps,
        (copyJob env part.part sb inode).IsStep s) ∧
      ∀ i, (∃ s ∈ (part.readFile env inodeNr true nrBlk).1.steps, s.index = i) ↔
        ReachesBlock env part.part sb inode i := by
  rw [readFile_of_loaded env h]
  by_cases hsize : inode.size = 0
  · rw [if_pos hsize]
    exact ⟨nofun, fun i => iff_of_false (fun ⟨_, h, _⟩ => nomatch h) fun h => h.size hsize⟩
  rw [if_neg hsize, copyFile]
  by_cases hbs : sb.blockSize = 0
  · rw [if_pos hbs]
    exact ⟨nofun, fun i => iff_of_false (fun ⟨_, h, _⟩ => nomatch h) fun h => h.blockSize hbs⟩
  · obtain ⟨m, row, tail, st, o, hrun, hrow, hend, -⟩ :=
      copySteps_spec env part.part sb inode nrBlk
    rw [if_neg hbs, hrun]
    refine ⟨hend.isStep hrow, ?_⟩
    intro i
    rw [hend.mem_index hrow (Nat.le_add_right _ _)]
    exact ⟨fun h => ⟨hbs, hsize, h⟩, fun h => h.reached⟩

/-! ## A device to copy from -/

/-- A device of 4 KiB blocks with one group of sixteen 128-byte inodes, whose table
is block 4. Three inodes have a size of one block: 12 has it in an extent, 13 has an
extent root without entries, and 14 has no pointer. Block 5 is one directory record. -/
def image : Partition :=
  .ofDevice ((Buffer.zeros 0).pokes
    [(1028, [16]), (1048, [2]), (1056, [0, 0x80]), (1064, [16]), (1080, [0x53, 0xef]),
      (1112, [128]),
      (4104, [4]), (17796, [0, 0x10]), (17826, [8]), (17832, [0x0a, 0xf3, 1, 0, 4]),
      (17848, [1, 0, 0, 0, 6]), (17924, [0, 0x10]), (17954, [8]), (17960, [0x0a, 0xf3, 0, 0, 4]),
      (18052, [0, 0x10]), (20484, [0, 0x10])]).byte

def imageSb : Ext4SuperBlock := ⟨1024, (image.bufferAt 1024 1024).byte⟩

def imageInode (n : Nat) : Ext4Inode := (image.bufferAt 16384 2048).shift (128 * (n - 1))

theorem image_loaded :
    ∃ m, (PartitionLinuxExt2.new image).getExt2Sb true true = .ok (true, m) ∧ m.part = image ∧
      m.Loaded true 12 imageSb (imageInode 12) ∧ m.Loaded true 13 imageSb (imageInode 13) ∧
      m.Loaded true 14 imageSb (imageInode 14) :=
  ⟨_, rfl, rfl, ⟨_, _, rfl, rfl, rfl⟩, ⟨_, _, rfl, rfl, rfl⟩, ⟨_, _, rfl, rfl, rfl⟩⟩

def quietEnv : CopyEnv := ⟨true, fun _ => false, fun _ => true, fun _ => true, none⟩

/-- Everything works, and the flag is set before the first test of it. -/
def interruptedEnv : CopyEnv := { quietEnv with interrupt := some 0 }

end Ext4tc.DiskUtils
