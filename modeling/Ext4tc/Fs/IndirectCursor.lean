import Ext4tc.Fs.Geometry

/-! # Sequential runs of the indirect cursors

The code ignores the block index past the direct blocks: what call `i` answers
depends on the two cursors alone. `cursorAt` is the state before call `i` of a
sequential run, written out as a function of `i`; one step lemma for each part
of the index range says that a call answers the pointer chase and moves to the
state before call `i + 1`. -/

namespace Ext4tc.Fs
open Ext4tc.Lib Ext4tc.DiskUtils

def noFails : Nat → Bool := fun _ => false

/-- The pointer chase. Past the direct blocks it reads the words of `i_block[12]`'s
block, then, with `j` counted from there, word `j mod a` of the block that word
`j div a` of `i_block[13]`'s block names. -/
def refBlkNr (p : Partition) (bs : Nat) (inode : Ext4Inode) (i : Nat) : Nat :=
  let a := bs / 4
  if i < 12 then inode.iBlock i
  else if i < 12 + a then p.word bs (inode.iBlock 12) (i - 12)
  else
    let j := i - 12 - a
    p.word bs (p.word bs (inode.iBlock 13) (j / a)) (j % a)

/-- The indirect block that holds pointer `x`, counted from the first indirect
one: `i_block[12]`'s, then those named by `i_block[13]`'s block. -/
def holder (p : Partition) (bs : Nat) (inode : Ext4Inode) (x : Nat) : Nat :=
  let q := x / (bs / 4)
  if q = 0 then inode.iBlock 12 else p.word bs (inode.iBlock 13) (q - 1)

/-- The indirect buffer before pointer `x` is taken: none at the start of a block. -/
def bufferOf (p : Partition) (bs x blk : Nat) : Option Buffer :=
  if x % (bs / 4) = 0 then none else some (p.block bs blk)

/-- The double indirect buffer before call `12 + x`. -/
def dbufAt (p : Partition) (bs : Nat) (inode : Ext4Inode) (x : Nat) : Option Buffer :=
  if x ≤ bs / 4 then none else some (p.block bs (inode.iBlock 13))

/-- The double indirect cursor before call `12 + x`: one ahead at the last
pointer of an indirect block. -/
def dindAt (bs x : Nat) : Nat :=
  if x ≤ bs / 4 then 0 else x / (bs / 4) - 1 + if x % (bs / 4) = bs / 4 - 1 then 1 else 0

/-- The object before call `12 + x` of a sequential run, after `r` reads. -/
def cursorAt (p : Partition) (sb : Ext4SuperBlock) (inode : Ext4Inode) (x r : Nat) : Blocks :=
  (Blocks.new p sb inode).load (bufferOf p sb.blockSize x (holder p sb.blockSize inode x))
    (dbufAt p sb.blockSize inode x) (x % (sb.blockSize / 4)) (dindAt sb.blockSize x) r

/-- What the run relies on: 512-byte sectors, a block size in range, indirect
mapping, a size below 4 GiB whose blocks the double indirect range covers. -/
structure IndirectFile (p : Partition) (sb : Ext4SuperBlock) (inode : Ext4Inode) : Prop where
  sector : p.sectorSize = 512
  logBlockSize : sb.sLogBlockSize ≤ 6
  noExtents : inode.iFlags &&& ext4ExtentsFl = 0
  sizeHigh : inode.iSizeHigh = 0
  blocks : fileBlocks sb.blockSize inode.size ≤
    12 + sb.addrPerBlock + sb.addrPerBlock * sb.addrPerBlock

theorem refBlkNr_indirect {p : Partition} {bs : Nat} {inode : Ext4Inode} (x : Nat)
    (ha : 0 < bs / 4) :
    refBlkNr p bs inode (12 + x) = p.word bs (holder p bs inode x) (x % (bs / 4)) := by
  unfold refBlkNr holder
  simp only [show ¬ 12 + x < 12 by omega, if_false, Nat.add_lt_add_iff_left]
  by_cases hx : x < bs / 4
  · simp [hx, Nat.div_eq_of_lt hx, Nat.mod_eq_of_lt hx]
  · have hge : bs / 4 ≤ x := by omega
    have hq : x / (bs / 4) ≠ 0 := (Nat.div_pos hge ha).ne'
    have hd : (x - bs / 4) / (bs / 4) = x / (bs / 4) - 1 := by
      rw [Nat.div_eq_sub_div ha hge, Nat.add_sub_cancel]
    simp only [hx, hq, if_false, show 12 + x - 12 - bs / 4 = x - bs / 4 by omega, hd,
      ← Nat.mod_eq_sub_mod hge]

/-! ## The position in the indirect blocks -/

theorem next_in_block {a x : Nat} (h : x % a + 1 < a) :
    (x + 1) / a = x / a ∧ (x + 1) % a = x % a + 1 := by
  have hm : (x + 1) % a = x % a + 1 := by
    rw [Nat.add_mod, Nat.mod_eq_of_lt (show 1 < a by omega), Nat.mod_eq_of_lt h]
  exact ⟨Nat.succ_div_of_mod_ne_zero (by omega), hm⟩

theorem next_block {a x : Nat} (h : x % a + 1 = a) : (x + 1) / a = x / a + 1 ∧ (x + 1) % a = 0 := by
  have hm : (x + 1) % a = 0 := by
    rw [← Nat.mod_add_mod, h, Nat.mod_self]
  exact ⟨Nat.succ_div_of_mod_eq_zero hm, hm⟩

/-! ## One indirect step -/

section Step

variable {p : Partition} {sb : Ext4SuperBlock} {inode : Ext4Inode}

/-- The run never meets the release test against the block count: the count is
either out of the cursor's reach, or wrapped to 0. -/
theorem IndirectFile.nBlock (hf : IndirectFile p sb inode) :
    (Blocks.new p sb inode).nBlock = 0 ∨
      (Blocks.new p sb inode).nBlock = fileBlocks sb.blockSize inode.size := by
  have hlo : inode.iSizeLo < 2 ^ 32 := Buffer.u32_lt _ _
  obtain ⟨hb, hb'⟩ := Ext4SuperBlock.blockSize_pos hf.logBlockSize
  have hsz : inode.size = inode.iSizeLo := by rw [Ext4Inode.size_eq, hf.sizeHigh]; omega
  simp only [Blocks.new, fileBlocks, hsz, sub32]
  rcases Nat.lt_or_ge (inode.iSizeLo + sb.blockSize) (2 ^ 32 + 1) with h | h
  · right
    have hsum : ((inode.iSizeLo + sb.blockSize) % 2 ^ 32 + (2 ^ 32 - 1)) % 2 ^ 32 =
        inode.iSizeLo + sb.blockSize - 1 := by omega
    rw [hsum]
  · left
    exact Nat.div_eq_of_lt (by omega)

/-- One call of `indirect_blk_nr` in a sequential run. A pointer that is not
needed, because the block is loaded, may be anything. -/
theorem indirectBlkNr_load {b : Blocks} {bs x blk ptr dind r : Nat} {dbuf : Option Buffer}
    (hs : b.part.sectorSize = 512) (hbs : b.blockSizeSect * 512 = bs) (hlt : bs < 2 ^ 32)
    (ha : b.addrBlkPerBlock = bs / 4) (ha' : 2 ≤ bs / 4)
    (hn : b.nBlock = 0 ∨ x % (bs / 4) + 1 < b.nBlock ∧ b.nBlock < 2 ^ 32)
    (hptr : x % (bs / 4) = 0 → ptr = blk) :
    ∃ r', (b.load (bufferOf b.part bs x blk) dbuf (x % (bs / 4)) dind r).indirectBlkNr noFails ptr =
      .ok (b.part.word bs blk (x % (bs / 4)),
        b.load (bufferOf b.part bs (x + 1) blk) dbuf ((x + 1) % (bs / 4)) dind r') := by
  have hm := Nat.mod_lt x (show 0 < bs / 4 by omega)
  have hword : (b.part.block bs blk).u32 (4 * (x % (bs / 4))) = b.part.word bs blk (x % (bs / 4)) :=
    b.part.block_u32 (by omega)
  unfold Blocks.indirectBlkNr bufferOf Blocks.load
  by_cases h0 : x % (bs / 4) = 0
  · -- the block is loaded and its first pointer taken
    obtain ⟨-, hnext⟩ := next_in_block (a := bs / 4) (x := x) (by omega)
    have hcount : ¬ x % (bs / 4) = sub32 b.nBlock 1 := by
      unfold sub32
      omega
    have hread : Blocks.readBlock noFails { b with
        buffer := none, dindirectBuf := dbuf, indIndex := x % (bs / 4), dindIndex := dind,
        reads := r }
        blk = some (b.part.block bs blk) :=
      Blocks.readBlock_of_sector_512 hs hbs hlt rfl
    refine ⟨r + 1, ?_⟩
    simp only [if_pos h0, hptr h0, hread, hword]
    rw [if_neg hcount, hnext, if_neg (by omega), h0]
    rfl
  · refine ⟨r, ?_⟩
    simp only [if_neg h0, hword, ha]
    rcases Nat.lt_or_ge (x % (bs / 4) + 1) (bs / 4) with h | h
    · obtain ⟨-, hnext⟩ := next_in_block h
      have hinc : (x % (bs / 4) + 1) % 2 ^ 32 = x % (bs / 4) + 1 := by omega
      rw [hinc, if_neg (by omega), hnext, if_neg (by omega)]
    · obtain ⟨-, hnext⟩ := next_block (a := bs / 4) (x := x) (by omega)
      rw [if_pos (by omega), hnext, if_pos rfl]

/-- The next pointer is in the same block, or in none that is loaded. -/
theorem bufferOf_succ (bs x : Nat) :
    bufferOf p bs (x + 1) (holder p bs inode x) =
      bufferOf p bs (x + 1) (holder p bs inode (x + 1)) := by
  unfold bufferOf
  by_cases h : (x + 1) % (bs / 4) = 0
  · rw [if_pos h, if_pos h]
  · have hq : (x + 1) / (bs / 4) = x / (bs / 4) := Nat.succ_div_of_mod_ne_zero h
    unfold holder
    rw [if_neg h, if_neg h, hq]

/-- The numbers of the constructed object that every call of the run uses. -/
structure CursorFacts (sb : Ext4SuperBlock) (a : Nat) : Prop where
  addr : a = sb.blockSize / 4
  block : sb.blockSize = 4 * a
  sect : sb.blockSize / 2 ^ 9 % 2 ^ 16 * 512 = sb.blockSize
  low : 256 ≤ a
  high : a ≤ 16384
  square : a * a ≤ 16384 * 16384

theorem IndirectFile.facts (hf : IndirectFile p sb inode) : CursorFacts sb (sb.blockSize / 4) := by
  obtain ⟨a, rfl, hb, h128, hlo, hhi⟩ := Ext4SuperBlock.blockSize_cases hf.logBlockSize
  exact ⟨rfl, hb, by omega, hlo, hhi, Nat.mul_le_mul hhi hhi⟩

theorem indirectBlkNr_at (hf : IndirectFile p sb inode) {x r : Nat} (ptr dind : Nat)
    (dbuf : Option Buffer) (hx : 12 + x < fileBlocks sb.blockSize inode.size)
    (hptr : x % (sb.blockSize / 4) = 0 → ptr = holder p sb.blockSize inode x) :
    ∃ r', ((Blocks.new p sb inode).load (bufferOf p sb.blockSize x (holder p sb.blockSize inode x))
        dbuf (x % (sb.blockSize / 4)) dind r).indirectBlkNr noFails ptr =
      .ok (refBlkNr p sb.blockSize inode (12 + x), (Blocks.new p sb inode).load
        (bufferOf p sb.blockSize (x + 1) (holder p sb.blockSize inode (x + 1)))
        dbuf ((x + 1) % (sb.blockSize / 4)) dind r') := by
  obtain ⟨-, hb, hsect, hlo, hhi, hsq⟩ := hf.facts
  have hrange := hf.blocks
  have hle := Nat.mod_le x (sb.blockSize / 4)
  rw [show sb.addrPerBlock = sb.blockSize / 4 from rfl] at hrange
  rw [refBlkNr_indirect x (by omega), ← bufferOf_succ]
  refine indirectBlkNr_load (b := Blocks.new p sb inode) hf.sector hsect (by omega) rfl
    (by omega) ?_ hptr
  rcases hf.nBlock with h | h
  · exact .inl h
  · exact .inr (by omega)

/-- Calls 12 to `11 + a`: the pointers of `i_block[12]`'s block. -/
theorem cursorAt_single (hf : IndirectFile p sb inode) {x r : Nat} (hx : x < sb.blockSize / 4)
    (hn : 12 + x < fileBlocks sb.blockSize inode.size) :
    ∃ r', (cursorAt p sb inode x r).getExt2BlkNr noFails (12 + x) =
      .ok (.at (refBlkNr p sb.blockSize inode (12 + x)), cursorAt p sb inode (x + 1) r') := by
  obtain ⟨-, -, -, hlo, hhi, -⟩ := hf.facts
  obtain ⟨r', h⟩ := indirectBlkNr_at hf (r := r) (inode.iBlock 12) 0 none hn fun _ => by
    rw [holder, Nat.div_eq_of_lt hx, if_pos rfl]
  have hd : ∀ y, y ≤ sb.blockSize / 4 → dbufAt p sb.blockSize inode y = none ∧
    dindAt sb.blockSize y = 0 :=
    fun y hy => ⟨if_pos hy, if_pos hy⟩
  refine ⟨r', ?_⟩
  rw [cursorAt, cursorAt, (hd x (by omega)).1, (hd x (by omega)).2, (hd (x + 1) (by omega)).1,
    (hd (x + 1) (by omega)).2]
  refine Blocks.getExt2BlkNr_single hf.noExtents (by omega) ?_ ?_ h
  · change 12 + x < sb.blockSize / 4 + 12
    omega
  · change sb.blockSize / 4 + 12 < 2 ^ 32
    omega

theorem IndirectFile.dindNBlk (hf : IndirectFile p sb inode) :
    (Blocks.new p sb inode).dindNBlk = sb.blockSize / 4 * (sb.blockSize / 4) := by
  have hsq := hf.facts.square
  exact Nat.mod_eq_of_lt (show sb.blockSize / 4 * (sb.blockSize / 4) < 2 ^ 32 by omega)

theorem cursorAt_doubleRange (hf : IndirectFile p sb inode) {x r : Nat} (hx : sb.blockSize / 4 ≤ x)
    (hn : 12 + x < fileBlocks sb.blockSize inode.size) :
    (cursorAt p sb inode x r).getExt2BlkNr noFails (12 + x) =
      (cursorAt p sb inode x r).doubleIndirectBlkNr noFails (12 + x) := by
  obtain ⟨-, -, -, -, hhi, hsq⟩ := hf.facts
  have hrange := hf.blocks
  have hdind : (cursorAt p sb inode x r).dindNBlk = _ := hf.dindNBlk
  have haddr : (cursorAt p sb inode x r).addrBlkPerBlock = sb.blockSize / 4 := rfl
  rw [show sb.addrPerBlock = sb.blockSize / 4 from rfl] at hrange
  exact Blocks.getExt2BlkNr_double hf.noExtents (by omega) (by omega) (by omega)

/-- No release test of the double indirect branch holds before the last call. -/
theorem IndirectFile.no_release (hf : IndirectFile p sb inode) {x : Nat}
    (hn : 13 + x < fileBlocks sb.blockSize inode.size) :
    12 + x ≠ sub32 (((Blocks.new p sb inode).dindNBlk + (Blocks.new p sb inode).addrBlkPerBlock +
        ext4IndBlock) % 2 ^ 32) 1 ∧
      12 + x ≠ sub32 (Blocks.new p sb inode).nBlock 1 := by
  obtain ⟨-, -, -, -, hhi, hsq⟩ := hf.facts
  have hrange := hf.blocks
  rw [show sb.addrPerBlock = sb.blockSize / 4 from rfl] at hrange
  have hnb := hf.nBlock
  rw [hf.dindNBlk, show (Blocks.new p sb inode).addrBlkPerBlock = sb.blockSize / 4 from rfl]
  unfold ext4IndBlock sub32
  omega

/-- Call `12 + a` loads the double indirect block and its first indirect block. -/
theorem cursorAt_firstDouble (hf : IndirectFile p sb inode) {x r : Nat} (hx : x = sb.blockSize / 4)
    (hn : 12 + x < fileBlocks sb.blockSize inode.size) :
    ∃ b', (cursorAt p sb inode x r).getExt2BlkNr noFails (12 + x) =
        .ok (.at (refBlkNr p sb.blockSize inode (12 + x)), b') ∧
      (13 + x < fileBlocks sb.blockSize inode.size →
        ∃ r', b' = cursorAt p sb inode (x + 1) r') := by
  obtain ⟨-, hb, hsect, hlo, hhi, -⟩ := hf.facts
  have hword : (p.block sb.blockSize (inode.iBlock 13)).u32 0 =
    p.word sb.blockSize (inode.iBlock 13) 0 :=
    p.block_u32 (w := 0) (by omega)
  obtain ⟨r', h⟩ := indirectBlkNr_at hf (x := x) (r := r + 1)
    ((p.block sb.blockSize (inode.iBlock 13)).u32 0) 0
    (some (p.block sb.blockSize (inode.iBlock 13))) hn
    fun _ => by rw [hword, holder, hx, Nat.div_self (by omega), if_neg (by omega)]
  have hread : ((Blocks.new p sb inode).load
    (bufferOf p sb.blockSize x (holder p sb.blockSize inode x))
      none (x % (sb.blockSize / 4)) 0 r).readBlock noFails (inode.iBlock 13) =
      some (p.block sb.blockSize (inode.iBlock 13)) :=
    Blocks.readBlock_of_sector_512 hf.sector hsect (by omega) rfl
  have hstart : dbufAt p sb.blockSize inode x = none ∧ dindAt sb.blockSize x = 0 :=
    ⟨if_pos hx.le, if_pos hx.le⟩
  rw [cursorAt_doubleRange hf hx.ge hn, cursorAt, hstart.1, hstart.2,
    Blocks.doubleIndirectBlkNr_load hread h]
  refine ⟨_, rfl, fun hnext => ⟨r', ?_⟩⟩
  have hmod : (x + 1) % (sb.blockSize / 4) = 1 := by
    rw [hx, Nat.add_mod_left, Nat.mod_eq_of_lt (by omega)]
  have hdiv : (x + 1) / (sb.blockSize / 4) = 1 := by
    rw [hx, Nat.add_div_left _ (by omega), Nat.div_eq_of_lt (by omega)]
  have hd' : dindAt sb.blockSize (x + 1) = 0 := by
    rw [dindAt, if_neg (by omega), hdiv, hmod, if_neg (by omega)]
  have hbuf : dbufAt p sb.blockSize inode (x + 1) = some (p.block sb.blockSize (inode.iBlock 13)) :=
    if_neg (by omega)
  rw [Blocks.load_nBlock, if_neg (hf.no_release hnext).2, cursorAt, hd', hbuf]

/-- The double indirect cursor moves before the last pointer of a block is taken. -/
theorem dindAt_succ {bs x : Nat} (hx : bs / 4 < x) (ha : 2 ≤ bs / 4) :
    dindAt bs (x + 1) = dindAt bs x + if (x + 1) % (bs / 4) = bs / 4 - 1 then 1 else 0 := by
  have hm := Nat.mod_lt x (show 0 < bs / 4 by omega)
  have hq : 1 ≤ x / (bs / 4) := Nat.div_pos (by omega) (by omega)
  have h₀ : dindAt bs x = x / (bs / 4) - 1 + if x % (bs / 4) = bs / 4 - 1 then 1 else 0 :=
    if_neg (by omega)
  have h₁ : dindAt bs (x + 1) =
      (x + 1) / (bs / 4) - 1 + if (x + 1) % (bs / 4) = bs / 4 - 1 then 1 else 0 := if_neg (by omega)
  rw [h₀, h₁]
  rcases Nat.lt_or_ge (x % (bs / 4) + 1) (bs / 4) with hlt | hge
  · obtain ⟨hdiv, -⟩ := next_in_block hlt
    rw [hdiv, if_neg (show ¬ x % (bs / 4) = bs / 4 - 1 by omega)]
    rfl
  · obtain ⟨hdiv, hmod⟩ := next_block (a := bs / 4) (x := x) (by omega)
    rw [hdiv, hmod, if_pos (show x % (bs / 4) = bs / 4 - 1 by omega), if_neg (by omega)]
    omega

/-- Calls past `12 + a`: the double indirect block is loaded, its cursor one
ahead at the last pointer of each indirect block. -/
theorem cursorAt_double (hf : IndirectFile p sb inode) {x r : Nat} (hx : sb.blockSize / 4 < x)
    (hn : 12 + x < fileBlocks sb.blockSize inode.size) :
    ∃ b', (cursorAt p sb inode x r).getExt2BlkNr noFails (12 + x) =
        .ok (.at (refBlkNr p sb.blockSize inode (12 + x)), b') ∧
      (13 + x < fileBlocks sb.blockSize inode.size →
        ∃ r', b' = cursorAt p sb inode (x + 1) r') := by
  obtain ⟨-, hb, hsect, hlo, hhi, hsq⟩ := hf.facts
  have hrange := hf.blocks
  rw [show sb.addrPerBlock = sb.blockSize / 4 from rfl] at hrange
  have hq : 1 ≤ x / (sb.blockSize / 4) := Nat.div_pos (by omega) (by omega)
  have hq' : x / (sb.blockSize / 4) ≤ sb.blockSize / 4 := by
    refine Nat.lt_succ_iff.mp ((Nat.div_lt_iff_lt_mul (by omega)).mpr ?_)
    rw [Nat.succ_mul]
    omega
  have hbuf : ∀ y, sb.blockSize / 4 < y → dbufAt p sb.blockSize inode y =
      some (p.block sb.blockSize (inode.iBlock 13)) := fun y hy => if_neg (by omega)
  obtain ⟨r', h⟩ := indirectBlkNr_at hf (x := x) (r := r)
    ((p.block sb.blockSize (inode.iBlock 13)).u32 (4 * dindAt sb.blockSize x))
    (dindAt sb.blockSize x) (some (p.block sb.blockSize (inode.iBlock 13))) hn fun h0 => by
      -- the pointer is needed only at the start of a block, where the cursor is not ahead
      rw [dindAt, if_neg (by omega), if_neg (by omega), Nat.add_zero, p.block_u32 (by omega),
        holder,
        if_neg (by omega)]
  rw [cursorAt_doubleRange hf hx.le hn, cursorAt, hbuf x hx, Blocks.doubleIndirectBlkNr_loaded h]
  refine ⟨_, rfl, fun hnext => ⟨r', ?_⟩⟩
  have hdlt : dindAt sb.blockSize x + 1 < 2 ^ 32 := by
    rw [dindAt, if_neg (by omega)]
    split <;> omega
  obtain ⟨hend, hlast⟩ := hf.no_release hnext
  have hahead : sub32 (sb.blockSize / 4) 1 = sb.blockSize / 4 - 1 :=
    sub32_of_le (by omega) (by omega)
  rw [Blocks.dindNext_load hend hlast, cursorAt, hbuf (x + 1) (by omega),
    dindAt_succ hx (by omega), show (Blocks.new p sb inode).addrBlkPerBlock =
      sb.blockSize / 4 from rfl,
    hahead]
  split
  · rw [Nat.mod_eq_of_lt hdlt]
  · rfl

theorem cursorAt_zero : cursorAt p sb inode 0 0 = Blocks.new p sb inode := by
  have hd : dindAt sb.blockSize 0 = 0 ∧ dbufAt p sb.blockSize inode 0 = none :=
    ⟨if_pos (by omega), if_pos (by omega)⟩
  rw [cursorAt, Nat.zero_mod, hd.1, hd.2, bufferOf, Nat.zero_mod, if_pos rfl]
  rfl

/-- One call of the run: the pointer chase, and the state before the next call. -/
theorem cursorAt_step (hf : IndirectFile p sb inode) {i r : Nat}
    (hn : i < fileBlocks sb.blockSize inode.size) :
    ∃ b', (cursorAt p sb inode (i - 12) r).getExt2BlkNr noFails i =
        .ok (.at (refBlkNr p sb.blockSize inode i), b') ∧
      (i + 1 < fileBlocks sb.blockSize inode.size →
        ∃ r', b' = cursorAt p sb inode (i + 1 - 12) r') := by
  rcases Nat.lt_or_ge i 12 with hi | hi
  · have hcall : (cursorAt p sb inode (i - 12) r).getExt2BlkNr noFails i =
        .ok (.at (inode.iBlock i), cursorAt p sb inode (i - 12) r) :=
      Blocks.getExt2BlkNr_direct hf.noExtents hi
    rw [refBlkNr, if_pos hi]
    refine ⟨_, hcall, fun _ => ⟨r, ?_⟩⟩
    rw [show i - 12 = 0 by omega, show i + 1 - 12 = 0 by omega]
  · obtain ⟨x, rfl⟩ := Nat.exists_eq_add_of_le hi
    rw [show 12 + x - 12 = x by omega, show 12 + x + 1 - 12 = x + 1 by omega,
      show 12 + x + 1 = 13 + x by omega]
    rcases Nat.lt_trichotomy x (sb.blockSize / 4) with hx | hx | hx
    · obtain ⟨r', h⟩ := cursorAt_single hf (r := r) hx hn
      exact ⟨_, h, fun _ => ⟨r', rfl⟩⟩
    · exact cursorAt_firstDouble hf hx hn
    · exact cursorAt_double hf hx hn

theorem cursorAt_run (hf : IndirectFile p sb inode) : ∀ (k i r : Nat),
    i + k ≤ fileBlocks sb.blockSize inode.size →
    ∃ b', (cursorAt p sb inode (i - 12) r).getExt2BlkNrs noFails (List.range' i k) =
      .ok ((List.range' i k).map fun j => .at (refBlkNr p sb.blockSize inode j), b')
  | 0, _, _, _ => ⟨_, rfl⟩
  | k + 1, i, r, h => by
    obtain ⟨b, hcall, hnext⟩ := cursorAt_step hf (i := i) (r := r) (by omega)
    simp only [List.range'_succ, List.map_cons, Blocks.getExt2BlkNrs, hcall]
    cases k with
    | zero => exact ⟨b, rfl⟩
    | succ k =>
      obtain ⟨r', rfl⟩ := hnext (by omega)
      obtain ⟨b', hrun⟩ := cursorAt_run hf (k + 1) (i + 1) r' (by omega)
      exact ⟨b', by rw [hrun]⟩

end Step

/-- Asked for blocks `0, 1, ..., n - 1` in this order, a fresh object answers 0
and the pointer chase every time. -/
theorem sequential_lookups {p : Partition} {sb : Ext4SuperBlock} {inode : Ext4Inode}
    (hf : IndirectFile p sb inode) :
    ∃ b', (Blocks.new p sb inode).getExt2BlkNrs noFails
        (List.range (fileBlocks sb.blockSize inode.size)) =
      .ok ((List.range (fileBlocks sb.blockSize inode.size)).map fun i =>
        ⟨0, some (refBlkNr p sb.blockSize inode i)⟩, b') := by
  rw [List.range_eq_range', ← cursorAt_zero]
  exact cursorAt_run hf _ 0 0 (by omega)

/-- An inode of 13 blocks of 1 KiB, the last of them behind `i_block[12]` = 7. -/
def thirteenBlocks : Ext4Inode := (Buffer.zeros 128).pokes [(4, [0, 0x34]), (88, [7])]

theorem sequential_lookups_thirteenBlocks :
    ∃ b', (Blocks.new (.ofDevice fun _ => 9)
      (Buffer.zeros 1024) thirteenBlocks).getExt2BlkNrs noFails
        (List.range 13) =
      .ok ((List.range 13).map fun i =>
        ⟨0, some (refBlkNr (.ofDevice fun _ => 9) 1024 thirteenBlocks i)⟩, b') := by
  have hf : IndirectFile (.ofDevice fun _ => 9) (Buffer.zeros 1024) thirteenBlocks :=
    ⟨rfl, by decide, by decide, by decide, by decide⟩
  exact sequential_lookups hf

end Ext4tc.Fs
