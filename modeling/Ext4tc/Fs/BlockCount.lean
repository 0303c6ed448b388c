import Ext4tc.Fs.IndirectCursor

/-! # Where a file ends

The constructor of `blocks` counts the blocks of a file in 32 bits and from the low size word,
the readers count them from the whole size. Three tests compare a cursor with the
constructor's count, and let a buffer go where they are equal. -/

namespace Ext4tc.Fs
open Ext4tc.Lib Ext4tc.DiskUtils

/-- The first block index behind the three ranges of the indirect mapping. -/
def Blocks.indirectLimit (b : Blocks) : Nat := 12 + b.addrBlkPerBlock + b.dindNBlk

/-- In the sequential run over `n` blocks no call but the last lets go of the indirect buffer
or takes its cursor back inside an indirect block, and none lets go of the double indirect
buffer or takes its cursor back inside the double indirect range. -/
def KeepsBuffers (b₀ : Blocks) (n : Nat) : Prop :=
  ∀ fails i b r b', b₀.before fails i = .ok b → b.getExt2BlkNr fails i = .ok (r, b') →
    r.ret = 0 → 12 ≤ i → i + 1 < n →
      (b'.buffer = none ∨ b'.indIndex ≤ b.indIndex → b.indIndex + 1 = b₀.addrBlkPerBlock) ∧
      (b'.dindirectBuf = none ∨ b'.dindIndex < b.dindIndex →
        12 + b₀.addrBlkPerBlock ≤ i → i + 1 = b₀.indirectLimit)

/-- The mapper and its callers agree on where the file ends. -/
structure EndAgrees (p : Partition) (sb : Ext4SuperBlock) (inode : Ext4Inode) : Prop where
  count : (Blocks.new p sb inode).nBlock = nBlocks sb.blockSize inode.size
  keeps : inode.iFlags &&& ext4ExtentsFl = 0 →
    fileBlocks sb.blockSize inode.size ≤ (Blocks.new p sb inode).indirectLimit →
      KeepsBuffers (Blocks.new p sb inode) (fileBlocks sb.blockSize inode.size)

/-! ## The two counts -/

/-- The block size is a power of two that divides the 32-bit range. -/
theorem Ext4SuperBlock.blockSize_dvd {sb : Ext4SuperBlock} (h : sb.blockSize ≠ 0) :
    1024 ∣ sb.blockSize ∧ sb.blockSize ∣ 2 ^ 31 := by
  have hall : ∀ k < 32, shl32 1024 k ≠ 0 → 1024 ∣ shl32 1024 k ∧ shl32 1024 k ∣ 2 ^ 31 := by
    decide
  exact hall _ (Nat.mod_lt _ (by decide)) h

theorem div_mod_word_eq_iff {bs c : Nat} (hbs : 0 < bs) (hword : 2 ^ 32 = bs * c) (t : Nat) :
    t / bs % 2 ^ 32 = t % 2 ^ 32 / bs ↔ bs ∣ t / 2 ^ 32 := by
  have hc : 0 < c := by
    refine Nat.pos_of_ne_zero fun hzero => ?_
    rw [hzero, Nat.mul_zero] at hword
    cases hword
  have hsplit : t / bs = t % 2 ^ 32 / bs + c * (t / 2 ^ 32) := by
    conv_lhs => rw [← Nat.mod_add_div t (2 ^ 32)]
    rw [show 2 ^ 32 * (t / 2 ^ 32) = bs * (c * (t / 2 ^ 32)) by rw [hword, Nat.mul_assoc],
      Nat.add_mul_div_left _ _ hbs]
  have hlow : t % 2 ^ 32 / bs < c := by
    refine (Nat.div_lt_iff_lt_mul hbs).mpr ?_
    rw [Nat.mul_comm c bs, ← hword]
    exact Nat.mod_lt _ (by decide)
  have hcut : t / bs % 2 ^ 32 = t % 2 ^ 32 / bs + c * (t / 2 ^ 32 % bs) := by
    rw [hsplit, hword, Nat.mul_comm bs c, Nat.mod_mul, Nat.add_mul_mod_self_left,
      Nat.add_mul_div_left _ _ hc, ← Nat.mul_comm bs c, ← hword, Nat.mod_eq_of_lt hlow,
      Nat.div_eq_of_lt hlow, Nat.zero_add]
  rw [hcut, Nat.dvd_iff_mod_eq_zero, Nat.add_eq_left, Nat.mul_eq_zero]
  constructor
  · rintro (hzero | hmod)
    · omega
    · exact hmod
  · exact .inr

section Counts

variable {p : Partition} {sb : Ext4SuperBlock} {inode : Ext4Inode}

/-- The constructor's count is the quotient of the low word of the sum. -/
theorem new_nBlock (hbs : sb.blockSize ≠ 0) : (Blocks.new p sb inode).nBlock =
    (inode.size + sb.blockSize - 1) % 2 ^ 32 / sb.blockSize := by
  have hsum : sub32 ((inode.iSizeLo + sb.blockSize) % 2 ^ 32) 1 =
      (inode.size + sb.blockSize - 1) % 2 ^ 32 := by
    rw [Ext4Inode.size_eq, sub32]
    omega
  exact congrArg (· / sb.blockSize) hsum

/-- The counts are equal exactly if the sum that is divided is below 2^32, or its high word is a
multiple of the block size, which both counts then leave out. -/
theorem nBlock_eq_iff (hbs : sb.blockSize ≠ 0) :
    (Blocks.new p sb inode).nBlock = nBlocks sb.blockSize inode.size ↔
      sb.blockSize ∣ (inode.size + sb.blockSize - 1) / 2 ^ 32 := by
  obtain ⟨-, hdvd⟩ := Ext4SuperBlock.blockSize_dvd hbs
  obtain ⟨c, hc⟩ := Nat.dvd_trans hdvd (show 2 ^ 31 ∣ 2 ^ 32 by decide)
  have hsum : (inode.size + sb.blockSize + (2 ^ 64 - 1)) % 2 ^ 64 =
      (inode.size + sb.blockSize - 1) % 2 ^ 64 := by omega
  have hlow : (inode.size + sb.blockSize - 1) % 2 ^ 64 % 2 ^ 32 =
      (inode.size + sb.blockSize - 1) % 2 ^ 32 := by omega
  have hiff := div_mod_word_eq_iff (Nat.pos_of_ne_zero hbs) hc
    ((inode.size + sb.blockSize - 1) % 2 ^ 64)
  rw [hlow] at hiff
  have hhigh : (inode.size + sb.blockSize - 1) % 2 ^ 64 / 2 ^ 32 % sb.blockSize =
      (inode.size + sb.blockSize - 1) / 2 ^ 32 % sb.blockSize := by
    have hword : (inode.size + sb.blockSize - 1) % 2 ^ 64 / 2 ^ 32 =
        (inode.size + sb.blockSize - 1) / 2 ^ 32 % 2 ^ 32 := by omega
    rw [hword, Nat.mod_mod_of_dvd _ ⟨c, hc⟩]
  rw [new_nBlock hbs, nBlocks, hsum, eq_comm, hiff, Nat.dvd_iff_mod_eq_zero, hhigh,
    ← Nat.dvd_iff_mod_eq_zero]

/-- What the run over a file relies on: the numbers of its object, and that its cursors stay
below the number of its blocks. -/
structure RunFacts (b₀ : Blocks) (n : Nat) : Prop where
  noExtents : b₀.inode.iFlags &&& ext4ExtentsFl = 0
  addr : 256 ≤ b₀.addrBlkPerBlock
  limit : b₀.indirectLimit < 2 ^ 32
  blocks : n ≤ b₀.indirectLimit
  count : b₀.nBlock = n

theorem RunFacts.of_count (hbs : sb.blockSize ≠ 0) (hfl : inode.iFlags &&& ext4ExtentsFl = 0)
    (hfit : fileBlocks sb.blockSize inode.size ≤ (Blocks.new p sb inode).indirectLimit)
    (hdvd : sb.blockSize ∣ (inode.size + sb.blockSize - 1) / 2 ^ 32) :
    RunFacts (Blocks.new p sb inode) (fileBlocks sb.blockSize inode.size) := by
  have hall : ∀ k < 32, shl32 1024 k ≠ 0 → 256 ≤ shl32 1024 k / 4 ∧
      12 + shl32 1024 k / 4 + shl32 1024 k / 4 * (shl32 1024 k / 4) % 2 ^ 32 < 2 ^ 32 := by
    decide
  obtain ⟨haddr, hlimit⟩ := hall _ (Nat.mod_lt _ (by decide)) hbs
  have hblocks : (inode.size + sb.blockSize - 1) / sb.blockSize < 2 ^ 32 :=
    Nat.lt_of_le_of_lt hfit hlimit
  have hsum : (inode.size + sb.blockSize - 1) / 2 ^ 32 < sb.blockSize := by
    rw [Nat.div_lt_iff_lt_mul (Nat.pos_of_ne_zero hbs)] at hblocks
    rw [Nat.div_lt_iff_lt_mul (by decide), Nat.mul_comm]
    exact hblocks
  have hword : (inode.size + sb.blockSize - 1) % 2 ^ 32 = inode.size + sb.blockSize - 1 := by
    have hzero := Nat.eq_zero_of_dvd_of_lt hdvd hsum
    omega
  exact ⟨hfl, haddr, hlimit, hfit, by rw [new_nBlock hbs, hword, fileBlocks]⟩

end Counts

/-! ## The cursors -/

/-- The object before call `i` of a run: its numbers are those of the fresh one, and the
cursors have moved on by one word for each indirect call at most. -/
structure CursorWithin (b₀ : Blocks) (i : Nat) (b : Blocks) : Prop where
  inode : b.inode = b₀.inode
  addr : b.addrBlkPerBlock = b₀.addrBlkPerBlock
  dindNBlk : b.dindNBlk = b₀.dindNBlk
  nBlock : b.nBlock = b₀.nBlock
  fresh : b.buffer = none → b.indIndex = 0
  inside : b.indIndex < b₀.addrBlkPerBlock
  ind : b.indIndex ≤ i - 12
  dind : b.dindIndex ≤ i - 12

/-- What a call does with the indirect buffer: its cursor moves on, or the block is at its end
and the buffer goes. -/
def TakesWord (b b' : Blocks) : Prop :=
  (b'.indIndex = b.indIndex + 1 ∧ b.indIndex + 1 < b.addrBlkPerBlock ∧ b'.buffer ≠ none) ∨
    (b'.indIndex = 0 ∧ b.indIndex + 1 = b.addrBlkPerBlock ∧ b'.buffer = none)

section Cursors

variable {fails : Nat → Bool} {b₀ b b' : Blocks} {n i r : Nat}

theorem indirectBlkNr_takes {ptr : Nat} (h : b.indirectBlkNr fails ptr = .ok (r, b'))
    (haddr : 2 ≤ b.addrBlkPerBlock) (hword : b.addrBlkPerBlock < 2 ^ 32)
    (hfresh : b.buffer = none → b.indIndex = 0) (hin : b.indIndex < b.addrBlkPerBlock)
    (hn : b.indIndex + 1 < b.nBlock) (hn' : b.nBlock < 2 ^ 32) :
    TakesWord b b' ∧ b' = b.load b'.buffer b.dindirectBuf b'.indIndex b.dindIndex b'.reads := by
  unfold Blocks.indirectBlkNr at h
  split at h
  next hbuf =>
    have hzero := hfresh hbuf
    split at h
    next => cases h
    next buffer hread =>
      dsimp only at h
      rw [if_neg (by unfold sub32; omega)] at h
      cases h
      have hinc : (b.indIndex + 1) % 2 ^ 32 = b.indIndex + 1 := by omega
      exact ⟨.inl ⟨hinc, by omega, Option.some_ne_none _⟩, rfl⟩
  next buffer hbuf =>
    have hinc : (b.indIndex + 1) % 2 ^ 32 = b.indIndex + 1 := by omega
    simp only [hinc] at h
    split at h
    next hend =>
      cases h
      exact ⟨.inr ⟨rfl, by omega, rfl⟩, rfl⟩
    next hend =>
      cases h
      exact ⟨.inl ⟨rfl, by omega, hbuf ▸ Option.some_ne_none _⟩, rfl⟩

theorem dindNext_within {dbuf : Buffer} (hdbuf : b.dindirectBuf = some dbuf)
    (hlimit : b.indirectLimit < 2 ^ 32) (hdind : b.dindIndex + 1 < 2 ^ 32)
    (hn : i + 1 < b.nBlock) (hn' : b.nBlock < 2 ^ 32) :
    ∃ dbuf' dind, b.dindNext i = b.load b.buffer dbuf' b.indIndex dind b.reads ∧
      dind ≤ b.dindIndex + 1 ∧
      (dbuf' = none ∨ dind < b.dindIndex → i + 1 = b.indirectLimit) := by
  have hinc : (b.dindIndex + 1) % 2 ^ 32 = b.dindIndex + 1 := Nat.mod_eq_of_lt hdind
  have hlast : i ≠ sub32 b.nBlock 1 := by
    unfold sub32
    omega
  have hend : i = sub32 ((b.dindNBlk + b.addrBlkPerBlock + ext4IndBlock) % 2 ^ 32) 1 →
      i + 1 = b.indirectLimit := by
    unfold Blocks.indirectLimit at hlimit ⊢
    unfold sub32 ext4IndBlock
    omega
  unfold Blocks.dindNext
  dsimp only
  rw [hinc]
  split <;> split
  next hahead hstop => exact ⟨none, 0, rfl, by omega, fun _ => hend (hstop.resolve_right hlast)⟩
  next hahead hstop =>
    refine ⟨some dbuf, b.dindIndex + 1, by rw [← hdbuf]; rfl, by omega, ?_⟩
    rintro (hnone | hback)
    · cases hnone
    · omega
  next hahead hstop => exact ⟨none, 0, rfl, by omega, fun _ => hend (hstop.resolve_right hlast)⟩
  next hahead hstop =>
    refine ⟨some dbuf, b.dindIndex, by rw [← hdbuf]; rfl, by omega, ?_⟩
    rintro (hnone | hback)
    · cases hnone
    · omega

theorem CursorWithin.takes (hw : CursorWithin b₀ i b) (hlo : 12 ≤ i)
    (haddr : 1 ≤ b₀.addrBlkPerBlock) {dbuf : Option Buffer} {dind : Nat} (ht : TakesWord b b')
    (hload : b' = b.load b'.buffer dbuf b'.indIndex dind b'.reads)
    (hdind : dind ≤ b.dindIndex + 1) :
    CursorWithin b₀ (i + 1) b' := by
  have haddr' := hw.addr
  have hind := hw.ind
  have hdind' := hw.dind
  rw [hload]
  refine ⟨hw.inode, hw.addr, hw.dindNBlk, hw.nBlock, ?_, ?_, ?_, ?_⟩
  · intro hnone
    obtain ⟨-, -, hsome⟩ | ⟨hzero, -, -⟩ := ht
    · exact absurd hnone hsome
    · exact hzero
  · change b'.indIndex < _
    obtain ⟨hinc, hlt, -⟩ | ⟨hzero, -, -⟩ := ht <;> omega
  · change b'.indIndex ≤ _
    obtain ⟨hinc, -, -⟩ | ⟨hzero, -, -⟩ := ht <;> omega
  · change dind ≤ _
    omega

theorem CursorWithin.later (hw : CursorWithin b₀ i b)
    (hload : b' = b.load b.buffer b.dindirectBuf b.indIndex b.dindIndex b'.reads) :
    CursorWithin b₀ (i + 1) b' := by
  have hind := hw.ind
  have hdind := hw.dind
  rw [hload]
  refine ⟨hw.inode, hw.addr, hw.dindNBlk, hw.nBlock, hw.fresh, hw.inside, ?_, ?_⟩
  · change b.indIndex ≤ _
    omega
  · change b.dindIndex ≤ _
    omega

/-- What a call of the run does: an indirect one takes a word, and does not let go of the double
indirect buffer before its range ends. -/
def StepsOn (b₀ : Blocks) (i : Nat) (r : BlkNr) (b b' : Blocks) : Prop :=
  CursorWithin b₀ (i + 1) b' ∧ (r.ret = 0 → 12 ≤ i → TakesWord b b' ∧
    (b'.dindirectBuf = none ∨ b'.dindIndex < b.dindIndex →
      12 + b₀.addrBlkPerBlock ≤ i → i + 1 = b₀.indirectLimit))

section Double

variable {b₀ b b' : Blocks} {n i : Nat} {r : BlkNr} (hf : RunFacts b₀ n) (hw : CursorWithin b₀ i b)
  (hlo : 12 ≤ i) (hi : i + 1 < n) (hcall : b.doubleIndirectBlkNr fails i = .ok (r, b'))
include hf hw hlo hi hcall

/-- The first call of the double indirect range, and any that finds no buffer. -/
theorem CursorWithin.doubleFirst (hnone : b.dindirectBuf = none) : StepsOn b₀ i r b b' := by
  obtain ⟨-, haddr, hlimit, hblocks, hcount⟩ := hf
  have hind := hw.ind
  have haddr' := hw.addr
  have hnBlock := hw.nBlock.trans hcount
  unfold Blocks.indirectLimit at hlimit hblocks
  simp only [Blocks.doubleIndirectBlkNr, hnone] at hcall
  split at hcall
  next hfail =>
    cases hcall
    refine ⟨hw.later (hnone ▸ rfl), fun hret => ?_⟩
    cases hret
  next dbuf hread =>
    split at hcall
    next => cases hcall
    next nrBlk b₁ hind₁ =>
      obtain ⟨ht, hload⟩ := indirectBlkNr_takes hind₁ (haddr' ▸ (by omega)) (haddr' ▸ (by omega))
        hw.fresh (haddr' ▸ hw.inside) (by change b.indIndex + 1 < b.nBlock; omega)
        (by change b.nBlock < 2 ^ 32; omega)
      have hlast : i ≠ sub32 b₁.nBlock 1 := by
        rw [hload]
        change i ≠ sub32 b.nBlock 1
        unfold sub32
        omega
      rw [if_neg hlast] at hcall
      cases hcall
      refine ⟨hw.takes hlo (by omega) ht hload (Nat.le_succ _), fun _ _ => ⟨ht, ?_⟩⟩
      rw [hload]
      rintro (hgone | hback)
      · cases hgone
      · exact absurd hback (Nat.lt_irrefl _)

theorem CursorWithin.doubleNext {dbuf : Buffer} (hsome : b.dindirectBuf = some dbuf) :
    StepsOn b₀ i r b b' := by
  obtain ⟨-, haddr, hlimit, hblocks, hcount⟩ := hf
  have hind := hw.ind
  have hdind := hw.dind
  have haddr' := hw.addr
  have hnBlock := hw.nBlock.trans hcount
  have hlimit' : b.indirectLimit = b₀.indirectLimit := by
    rw [Blocks.indirectLimit, hw.addr, hw.dindNBlk, ← Blocks.indirectLimit]
  have hword : b₀.addrBlkPerBlock ≤ b₀.indirectLimit := by
    unfold Blocks.indirectLimit
    omega
  simp only [Blocks.doubleIndirectBlkNr, hsome] at hcall
  split at hcall
  next => cases hcall
  next nrBlk b₁ hind₁ =>
    obtain ⟨ht, hload⟩ := indirectBlkNr_takes hind₁ (by omega) (by omega) hw.fresh
      (haddr' ▸ hw.inside) (by omega) (by omega)
    have hdind₁ : b₁.dindIndex = b.dindIndex := by
      rw [hload]
      rfl
    have hlimit₁ : b₁.indirectLimit = b₀.indirectLimit := by
      rw [hload, ← hlimit']
      rfl
    have hnBlock₁ : b₁.nBlock = n := by
      rw [hload, ← hnBlock]
      rfl
    obtain ⟨dbuf', dind, hnext, hle, hrelease⟩ := @dindNext_within b₁ i dbuf
      (by rw [hload, ← hsome]; rfl) (by omega) (by omega) (by omega) (by omega)
    cases hcall
    have hload' : b₁.dindNext i = b.load b₁.buffer dbuf' b₁.indIndex dind b₁.reads := by
      rw [hnext, hload]
      rfl
    rw [hload']
    refine ⟨hw.takes hlo (by omega) ht rfl (by omega), fun _ _ => ⟨ht, fun hgone _ => ?_⟩⟩
    rw [← hlimit₁]
    rw [← hdind₁] at hgone
    exact hrelease hgone

theorem CursorWithin.double : StepsOn b₀ i r b b' := by
  cases hdbuf : b.dindirectBuf with
  | none => exact hw.doubleFirst hf hlo hi hcall hdbuf
  | some dbuf => exact hw.doubleNext hf hlo hi hcall hdbuf

end Double

/-- **A call of the run but the last.** -/
theorem CursorWithin.step {r : BlkNr} (hf : RunFacts b₀ n) (hw : CursorWithin b₀ i b)
    (hi : i + 1 < n) (hcall : b.getExt2BlkNr fails i = .ok (r, b')) : StepsOn b₀ i r b b' := by
  have haddr := hf.addr
  have hlimit := hf.limit
  have hblocks := hf.blocks
  have hind := hw.ind
  have haddr' := hw.addr
  have hnBlock := hw.nBlock.trans hf.count
  unfold Blocks.indirectLimit at hlimit hblocks
  have hmod : (b.addrBlkPerBlock + ext4IndBlock) % 2 ^ 32 = b.addrBlkPerBlock + 12 :=
    Nat.mod_eq_of_lt (by unfold ext4IndBlock; omega)
  rw [Blocks.getExt2BlkNr, if_neg (not_not.mpr (hw.inode ▸ hf.noExtents)),
    Blocks.getExt2NonExtentBlk] at hcall
  split at hcall
  next hdirect =>
    cases hcall
    exact ⟨hw.later rfl, fun _ hlo => absurd hdirect (Nat.not_lt.mpr hlo)⟩
  next hindirect =>
    have hlo : 12 ≤ i := Nat.not_lt.mp hindirect
    split at hcall
    next hsingle =>
      split at hcall
      next => cases hcall
      next nrBlk b₁ hind₁ =>
        cases hcall
        obtain ⟨ht, hload⟩ := indirectBlkNr_takes hind₁ (by omega) (by omega) hw.fresh
          (haddr' ▸ hw.inside) (by omega) (by omega)
        refine ⟨hw.takes hlo (by omega) ht hload (Nat.le_succ _),
          fun _ _ => ⟨ht, fun _ hdouble => ?_⟩⟩
        omega
    next hpast =>
      split at hcall
      next hdouble => exact hw.double hf hlo hi hcall
      next hbehind =>
        cases hcall
        refine ⟨hw.later rfl, fun hret => ?_⟩
        cases hret

/-- **The cursors of a run.** -/
theorem CursorWithin.before (hf : RunFacts b₀ n) (hstart : CursorWithin b₀ 0 b₀) (hi : i < n)
    (h : b₀.before fails i = .ok b) : CursorWithin b₀ i b := by
  induction i generalizing b with
  | zero =>
    cases h
    exact hstart
  | succ i ih =>
    rw [Blocks.before] at h
    cases hb : b₀.before fails i with
    | error fault =>
      rw [hb] at h
      cases h
    | ok b₁ =>
      rw [hb] at h
      cases hcall : b₁.getExt2BlkNr fails i with
      | error fault =>
        simp only [hcall] at h
        cases h
      | ok rb =>
        simp only [hcall] at h
        cases h
        exact (CursorWithin.step hf (ih (by omega) hb) hi hcall).1

theorem RunFacts.keepsBuffers (hf : RunFacts b₀ n) (hstart : CursorWithin b₀ 0 b₀) :
    KeepsBuffers b₀ n := by
  intro fails i b r b' hb hcall hret hlo hi
  have hw := CursorWithin.before hf hstart (by omega) hb
  obtain ⟨-, hsteps⟩ := hw.step hf hi hcall
  obtain ⟨htakes, hrelease⟩ := hsteps hret hlo
  refine ⟨fun hgone => ?_, hrelease⟩
  obtain ⟨hinc, -, hsome⟩ | ⟨-, hend, -⟩ := htakes
  · rcases hgone with hnone | hback
    · exact absurd hnone hsome
    · omega
  · exact hw.addr ▸ hend

end Cursors

/-! ## Exactly where they agree -/

/-- **The mapper and its callers agree on the end of a file exactly if the high word of the size,
rounded up to whole blocks, is a multiple of the block size**, as 0 is. -/
theorem end_agrees_iff (p : Partition) {sb : Ext4SuperBlock} (inode : Ext4Inode)
    (hbs : sb.blockSize ≠ 0) :
    EndAgrees p sb inode ↔ sb.blockSize ∣ (inode.size + sb.blockSize - 1) / 2 ^ 32 := by
  constructor
  · intro h
    exact (nBlock_eq_iff hbs).mp h.count
  · intro hdvd
    refine ⟨(nBlock_eq_iff hbs).mpr hdvd, fun hfl hfit => ?_⟩
    have hf : RunFacts (Blocks.new p sb inode) _ := RunFacts.of_count hbs hfl hfit hdvd
    have haddr := hf.addr
    refine hf.keepsBuffers ⟨rfl, rfl, rfl, rfl, fun _ => rfl, ?_, Nat.zero_le _, Nat.zero_le _⟩
    change 0 < _
    omega

theorem end_agrees_iff_thirteenBlocks :
    EndAgrees (.ofDevice fun _ => 9) (Buffer.zeros 1024) thirteenBlocks :=
  (end_agrees_iff _ _ (by decide)).mpr (by decide)

/-- A file of 4 GiB and a block of 4 KiB: its count is 1. -/
def beyondFourGiB : Ext4Inode := (Buffer.zeros 128).pokes [(4, [0, 0x10]), (88, [7]), (108, [1])]

/-- The first word of its indirect block is the last that is taken before the buffer goes. -/
theorem buffer_released_early :
    ∃ b r b', (Blocks.new (.ofDevice fun _ => 9) ((Buffer.zeros 1024).pokes [(24, [2])])
        beyondFourGiB).before noFails 12 = .ok b ∧
      b.getExt2BlkNr noFails 12 = .ok (r, b') ∧ b.nBlock = 1 ∧ b.indIndex = 0 ∧
      b.addrBlkPerBlock = 1024 ∧ b'.buffer = none ∧ b'.indIndex = 0 ∧
      fileBlocks 4096 beyondFourGiB.size = 2 ^ 20 + 1 ∧
      ¬EndAgrees (.ofDevice fun _ => 9) ((Buffer.zeros 1024).pokes [(24, [2])]) beyondFourGiB := by
  refine ⟨_, _, _, rfl, rfl, by decide, rfl, rfl, rfl, rfl, by decide, fun h => ?_⟩
  have hcount := h.count
  revert hcount
  decide

end Ext4tc.Fs
