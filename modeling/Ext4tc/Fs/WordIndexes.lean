import Ext4tc.Fs.IndirectCursor

/-! # The words of a block

Past the direct blocks a call takes a word of the indirect block, and one of the double
indirect block when it is in that range. The double indirect cursor is one ahead at the last
pointer of an indirect block; behind the last of them there is no word left for it. -/

namespace Ext4tc.Fs
open Ext4tc.Lib Ext4tc.DiskUtils

/-- The indexes of the words that call `i` takes, in `dindirect_buf` and then in `buffer`. -/
def Blocks.wordsTaken (b : Blocks) (i : Nat) : List Nat :=
  if i < ext4IndBlock then []
  else if i < (b.addrBlkPerBlock + ext4IndBlock) % 2 ^ 32 then [b.indIndex]
  else if i < (b.dindNBlk + b.addrBlkPerBlock + ext4IndBlock) % 2 ^ 32 then
    [if b.dindirectBuf.isNone then 0 else b.dindIndex, b.indIndex]
  else []

/-- No call of the sequential run over the file takes a word behind its block. -/
def IndexesInside (p : Partition) (sb : Ext4SuperBlock) (inode : Ext4Inode) : Prop :=
  ∀ i < fileBlocks sb.blockSize inode.size, ∃ b,
    (Blocks.new p sb inode).before noFails i = .ok b ∧ ∀ w ∈ b.wordsTaken i, w < sb.addrPerBlock

/-! ## What a call answers from -/

section Answers

variable {fails : Nat → Bool} {b : Blocks} {i : Nat}

theorem indirectBlkNr_answer (ptr : Nat) : (b.indirectBlkNr fails ptr).map Prod.fst =
    (b.buffer.or (b.readBlock fails ptr)).elim (.error .nullDeref) fun buffer =>
      .ok (buffer.u32 (4 * b.indIndex)) := by
  unfold Blocks.indirectBlkNr
  cases b.buffer with
  | some buffer =>
    dsimp only
    split <;> rfl
  | none =>
    cases hread : b.readBlock fails ptr with
    | none => rfl
    | some buffer =>
      dsimp only
      split <;> rfl

theorem getExt2BlkNr_single_answer (hfl : b.inode.iFlags &&& ext4ExtentsFl = 0)
    (hlo : ¬i < ext4IndBlock) (hi : i < (b.addrBlkPerBlock + ext4IndBlock) % 2 ^ 32) :
    (b.getExt2BlkNr fails i).map Prod.fst =
      ((b.indirectBlkNr fails (b.inode.iBlock ext4IndBlock)).map Prod.fst).map BlkNr.at := by
  rw [Blocks.getExt2BlkNr, if_neg (not_not.mpr hfl), Blocks.getExt2NonExtentBlk, if_neg hlo,
    if_pos hi]
  cases b.indirectBlkNr fails (b.inode.iBlock ext4IndBlock) with
  | error fault => rfl
  | ok found => rfl

theorem getExt2BlkNr_behind (hfl : b.inode.iFlags &&& ext4ExtentsFl = 0)
    (hlo : ¬i < ext4IndBlock) (hsingle : ¬i < (b.addrBlkPerBlock + ext4IndBlock) % 2 ^ 32)
    (hdouble : ¬i < (b.dindNBlk + b.addrBlkPerBlock + ext4IndBlock) % 2 ^ 32) :
    (b.getExt2BlkNr fails i).map Prod.fst = .ok .failed := by
  rw [Blocks.getExt2BlkNr, if_neg (not_not.mpr hfl), Blocks.getExt2NonExtentBlk, if_neg hlo,
    if_neg hsingle, if_neg hdouble]
  rfl

theorem doubleIndirectBlkNr_some {dbuf : Buffer} (h : b.dindirectBuf = some dbuf) :
    (b.doubleIndirectBlkNr fails i).map Prod.fst =
      ((b.indirectBlkNr fails (dbuf.u32 (4 * b.dindIndex))).map Prod.fst).map BlkNr.at := by
  simp only [Blocks.doubleIndirectBlkNr, h]
  cases b.indirectBlkNr fails (dbuf.u32 (4 * b.dindIndex)) with
  | error fault => rfl
  | ok found => rfl

theorem doubleIndirectBlkNr_none (h : b.dindirectBuf = none) :
    (b.doubleIndirectBlkNr fails i).map Prod.fst =
      (b.readBlock fails (b.inode.iBlock ext4DindBlock)).elim (.ok .failed) fun dbuf =>
        ((Blocks.indirectBlkNr fails { b with dindirectBuf := some dbuf, reads := b.reads + 1 }
          (dbuf.u32 0)).map Prod.fst).map BlkNr.at := by
  simp only [Blocks.doubleIndirectBlkNr, h]
  cases b.readBlock fails (b.inode.iBlock ext4DindBlock) with
  | none => rfl
  | some dbuf =>
    dsimp only [Option.elim_some]
    cases Blocks.indirectBlkNr fails { b with dindirectBuf := some dbuf, reads := b.reads + 1 }
      (dbuf.u32 0) with
    | error fault => rfl
    | ok found =>
      dsimp only
      split <;> rfl

def Blocks.rewritten (b : Blocks) (f g : Buffer → Buffer) : Blocks :=
  { b with buffer := b.buffer.map f, dindirectBuf := b.dindirectBuf.map g }

theorem indirectBlkNr_rewritten {f : Buffer → Buffer} (d d' : Option Buffer) (r ptr : Nat)
    (hf : ∀ x, b.buffer = some x → (f x).u32 (4 * b.indIndex) = x.u32 (4 * b.indIndex)) :
    (Blocks.indirectBlkNr fails { b with buffer := b.buffer.map f, dindirectBuf := d, reads := r }
        ptr).map Prod.fst =
      (Blocks.indirectBlkNr fails { b with dindirectBuf := d', reads := r } ptr).map Prod.fst := by
  have hread : Blocks.readBlock fails
    { b with buffer := b.buffer.map f, dindirectBuf := d, reads := r } ptr =
      Blocks.readBlock fails { b with dindirectBuf := d', reads := r } ptr := rfl
  rw [indirectBlkNr_answer, indirectBlkNr_answer, hread]
  cases hbuf : b.buffer with
  | none => rfl
  | some buffer => exact congrArg Except.ok (hf buffer hbuf)

/-- The double indirect branch depends on one word of each buffer. -/
theorem doubleIndirectBlkNr_rewritten {f g : Buffer → Buffer}
    (hf : ∀ x, b.buffer = some x → (f x).u32 (4 * b.indIndex) = x.u32 (4 * b.indIndex))
    (hg : ∀ x, b.dindirectBuf = some x → (g x).u32 (4 * b.dindIndex) = x.u32 (4 * b.dindIndex)) :
    ((b.rewritten f g).doubleIndirectBlkNr fails i).map Prod.fst =
      (b.doubleIndirectBlkNr fails i).map Prod.fst := by
  cases hdbuf : b.dindirectBuf with
  | none =>
    have hread : (b.rewritten f g).readBlock fails
        ((b.rewritten f g).inode.iBlock ext4DindBlock) =
          b.readBlock fails (b.inode.iBlock ext4DindBlock) := rfl
    rw [doubleIndirectBlkNr_none hdbuf, doubleIndirectBlkNr_none (congrArg (Option.map g) hdbuf),
      hread]
    cases b.readBlock fails (b.inode.iBlock ext4DindBlock) with
    | none => rfl
    | some dbuf =>
      exact congrArg (Except.map BlkNr.at)
        (indirectBlkNr_rewritten (some dbuf) (some dbuf) (b.reads + 1) _ hf)
  | some dbuf =>
    have hdbuf' : (b.rewritten f g).dindirectBuf = some (g dbuf) := congrArg (Option.map g) hdbuf
    rw [doubleIndirectBlkNr_some hdbuf, doubleIndirectBlkNr_some hdbuf', ← hg dbuf hdbuf]
    exact congrArg (Except.map BlkNr.at)
      (indirectBlkNr_rewritten _ b.dindirectBuf b.reads _ hf)

/-- **A call answers from the words it takes**, whatever else is in the buffers. -/
theorem getExt2BlkNr_rewritten (hfl : b.inode.iFlags &&& ext4ExtentsFl = 0) {f g : Buffer → Buffer}
    (hf : ∀ w ∈ b.wordsTaken i, ∀ x, b.buffer = some x → (f x).u32 (4 * w) = x.u32 (4 * w))
    (hg : ∀ w ∈ b.wordsTaken i, ∀ x, b.dindirectBuf = some x → (g x).u32 (4 * w) = x.u32 (4 * w)) :
    ((b.rewritten f g).getExt2BlkNr fails i).map Prod.fst =
      (b.getExt2BlkNr fails i).map Prod.fst := by
  unfold Blocks.wordsTaken at hf hg
  by_cases hdirect : i < ext4IndBlock
  · rw [Blocks.getExt2BlkNr_direct hfl hdirect,
      @Blocks.getExt2BlkNr_direct fails (b.rewritten f g) i hfl hdirect]
    rfl
  rw [if_neg hdirect] at hf hg
  by_cases hsingle : i < (b.addrBlkPerBlock + ext4IndBlock) % 2 ^ 32
  · rw [if_pos hsingle] at hf
    rw [getExt2BlkNr_single_answer hfl hdirect hsingle,
      @getExt2BlkNr_single_answer fails (b.rewritten f g) i hfl hdirect hsingle]
    exact congrArg (Except.map BlkNr.at)
      (indirectBlkNr_rewritten _ b.dindirectBuf b.reads _ (hf _ (List.mem_singleton_self _)))
  rw [if_neg hsingle] at hf hg
  by_cases hdouble : i < (b.dindNBlk + b.addrBlkPerBlock + ext4IndBlock) % 2 ^ 32
  · rw [if_pos hdouble] at hf hg
    rw [Blocks.getExt2BlkNr_doubleRange hfl hdirect hsingle hdouble,
      @Blocks.getExt2BlkNr_doubleRange fails (b.rewritten f g) i hfl hdirect hsingle hdouble]
    refine doubleIndirectBlkNr_rewritten (hf _ (List.mem_cons_of_mem _ List.mem_cons_self))
      fun x hx => hg b.dindIndex ?_ x hx
    rw [hx]
    exact List.mem_cons_self
  · rw [getExt2BlkNr_behind hfl hdirect hsingle hdouble,
      @getExt2BlkNr_behind fails (b.rewritten f g) i hfl hdirect hsingle hdouble]

end Answers

/-! ## The run -/

section Run

variable {p : Partition} {sb : Ext4SuperBlock} {inode : Ext4Inode}

theorem before_cursorAt (hf : IndirectFile p sb inode) {i : Nat}
    (hi : i < fileBlocks sb.blockSize inode.size) :
    ∃ r, (Blocks.new p sb inode).before noFails i = .ok (cursorAt p sb inode (i - 12) r) := by
  induction i with
  | zero => exact ⟨0, congrArg Except.ok cursorAt_zero.symm⟩
  | succ i ih =>
    obtain ⟨r, hbefore⟩ := ih (by omega)
    obtain ⟨b', hcall, hnext⟩ := cursorAt_step hf (i := i) (r := r) (by omega)
    obtain ⟨r', rfl⟩ := hnext hi
    refine ⟨r', ?_⟩
    rw [Blocks.before, hbefore]
    simp only [hcall]
    rfl

/-! ## The cursor of the double indirect block -/

/-- The cursor is at the end of its block only at the last pointer of the range. -/
theorem dindAt_lt_iff {bs x : Nat} (ha : 2 ≤ bs / 4) (hlt : x < bs / 4 + bs / 4 * (bs / 4)) :
    dindAt bs x < bs / 4 ↔ x + 1 < bs / 4 + bs / 4 * (bs / 4) := by
  unfold dindAt
  generalize bs / 4 = a at ha hlt ⊢
  have hsquare : 2 * a ≤ a * a := Nat.mul_le_mul_right a ha
  split
  next hfirst => omega
  next hlater =>
    have hsplit := Nat.div_add_mod x a
    have hm := Nat.mod_lt x (show 0 < a by omega)
    have hq : x / a ≤ a := by
      refine Nat.lt_succ_iff.mp ((Nat.div_lt_iff_lt_mul (by omega)).mpr ?_)
      rw [Nat.succ_mul]
      omega
    rcases Nat.eq_or_lt_of_le hq with hlast | hinner
    · -- the last indirect block of the range
      rw [hlast] at hsplit ⊢
      split <;> omega
    · have hle := Nat.mul_le_mul_left a (Nat.succ_le_of_lt hinner)
      rw [Nat.mul_succ] at hle
      split <;> omega

theorem wordsTaken_cursorAt (hf : IndirectFile p sb inode) {x r : Nat}
    (hn : 12 + x < fileBlocks sb.blockSize inode.size) :
    (cursorAt p sb inode x r).wordsTaken (12 + x) =
      if x < sb.blockSize / 4 then [x % (sb.blockSize / 4)]
      else [dindAt sb.blockSize x, x % (sb.blockSize / 4)] := by
  obtain ⟨-, -, -, hlo, hhi, hsq⟩ := hf.facts
  have hrange := hf.blocks
  rw [show sb.addrPerBlock = sb.blockSize / 4 from rfl] at hrange
  have hsingle : (sb.blockSize / 4 + ext4IndBlock) % 2 ^ 32 = sb.blockSize / 4 + 12 :=
    Nat.mod_eq_of_lt (by unfold ext4IndBlock; omega)
  have hdouble : (sb.blockSize / 4 * (sb.blockSize / 4) + sb.blockSize / 4 + ext4IndBlock) %
      2 ^ 32 = sb.blockSize / 4 * (sb.blockSize / 4) + sb.blockSize / 4 + 12 :=
    Nat.mod_eq_of_lt (by unfold ext4IndBlock; omega)
  have hdind : (cursorAt p sb inode x r).dindNBlk = _ := hf.dindNBlk
  have haddr : (cursorAt p sb inode x r).addrBlkPerBlock = sb.blockSize / 4 := rfl
  have hfirst : (if (cursorAt p sb inode x r).dindirectBuf.isNone then 0
      else (cursorAt p sb inode x r).dindIndex) = dindAt sb.blockSize x := by
    change (if (dbufAt p sb.blockSize inode x).isNone then 0 else dindAt sb.blockSize x) = _
    unfold dbufAt dindAt
    split <;> rfl
  rw [Blocks.wordsTaken, if_neg (by unfold ext4IndBlock; omega), hdind, haddr, hsingle, hdouble,
    hfirst]
  by_cases hx : x < sb.blockSize / 4
  · rw [if_pos (by omega), if_pos hx]
    rfl
  · rw [if_neg (by omega), if_pos (by omega), if_neg hx]
    rfl

/-- **The words of every call are inside their blocks exactly if the file does not fill the
whole double indirect range.** -/
theorem indexes_inside_iff (hf : IndirectFile p sb inode) :
    IndexesInside p sb inode ↔ fileBlocks sb.blockSize inode.size <
      12 + sb.addrPerBlock + sb.addrPerBlock * sb.addrPerBlock := by
  obtain ⟨-, -, -, hlo, hhi, hsq⟩ := hf.facts
  have hrange := hf.blocks
  rw [show sb.addrPerBlock = sb.blockSize / 4 from rfl] at hrange ⊢
  constructor
  · intro h
    by_contra hfull
    have hsquare : 0 < sb.blockSize / 4 * (sb.blockSize / 4) := Nat.mul_pos (by omega) (by omega)
    obtain ⟨x, hx⟩ : ∃ x, x + 1 = sb.blockSize / 4 + sb.blockSize / 4 * (sb.blockSize / 4) :=
      ⟨_, Nat.sub_add_cancel (by omega)⟩
    obtain ⟨b, hbefore, hwords⟩ := h (12 + x) (by omega)
    obtain ⟨r, hcursor⟩ := before_cursorAt hf (i := 12 + x) (by omega)
    rw [Nat.add_sub_cancel_left] at hcursor
    obtain rfl := Except.ok.inj (hbefore.symm.trans hcursor)
    rw [wordsTaken_cursorAt hf (by omega), if_neg (by omega)] at hwords
    have hlt := (dindAt_lt_iff (by omega) (by omega)).mp (hwords _ List.mem_cons_self)
    omega
  · intro hshort i hi
    obtain ⟨r, hcursor⟩ := before_cursorAt hf hi
    refine ⟨_, hcursor, fun w hw => ?_⟩
    rcases Nat.lt_or_ge i 12 with hdirect | hindirect
    · rw [Blocks.wordsTaken, if_pos (show i < ext4IndBlock from hdirect)] at hw
      cases hw
    · obtain ⟨x, rfl⟩ := Nat.exists_eq_add_of_le hindirect
      rw [Nat.add_sub_cancel_left, wordsTaken_cursorAt hf hi] at hw
      have hmod := Nat.mod_lt x (show 0 < sb.blockSize / 4 by omega)
      have hdind : dindAt sb.blockSize x < sb.blockSize / 4 :=
        (dindAt_lt_iff (by omega) (by omega)).mpr (by omega)
      split at hw
      next => exact List.mem_singleton.mp hw ▸ hmod
      next =>
        rcases List.mem_cons.mp hw with rfl | hw
        · exact hdind
        · exact List.mem_singleton.mp hw ▸ hmod

end Run

theorem indexes_inside_iff_thirteenBlocks :
    IndexesInside (.ofDevice fun _ => 9) (Buffer.zeros 1024) thirteenBlocks := by
  have hf : IndirectFile (.ofDevice fun _ => 9) (Buffer.zeros 1024) thirteenBlocks :=
    ⟨rfl, by decide, by decide, by decide, by decide⟩
  exact (indexes_inside_iff hf).mpr (by decide)

/-- A file of 12 + 256 + 65536 blocks of 1 KiB. -/
def wholeRange : Ext4Inode := (Buffer.zeros 128).pokes [(4, [0, 0x30, 0x04, 0x04])]

/-- Its last call takes word 256 of the 256 words of the double indirect block. -/
theorem word_behind_block :
    (∃ b, (Blocks.new (.ofDevice fun _ => 9) (Buffer.zeros 1024) wholeRange).before noFails 65803 =
        .ok b ∧ b.wordsTaken 65803 = [256, 255]) ∧
      ¬IndexesInside (.ofDevice fun _ => 9) (Buffer.zeros 1024) wholeRange := by
  have hf : IndirectFile (.ofDevice fun _ => 9) (Buffer.zeros 1024) wholeRange :=
    ⟨rfl, by decide, by decide, by decide, by decide⟩
  have hblocks : fileBlocks (Ext4SuperBlock.blockSize (Buffer.zeros 1024)) wholeRange.size =
      65804 := by decide
  obtain ⟨r, hcursor⟩ := before_cursorAt hf (i := 12 + 65791) (by rw [hblocks]; decide)
  refine ⟨⟨_, hcursor, ?_⟩, fun h => ?_⟩
  · rw [Nat.add_sub_cancel_left, wordsTaken_cursorAt hf (by rw [hblocks]; decide)]
    decide
  · have hshort := (indexes_inside_iff hf).mp h
    rw [hblocks] at hshort
    revert hshort
    decide

end Ext4tc.Fs
