import Ext4tc.Fs.NodeWalk
import Ext4tc.Lib.Transition

/-! # Failed reads in the mapper

Of the reads of the mapper only that of the double indirect block is tested. The others are
dereferenced whatever they return, so a call comes back exactly if the blocks it takes for
granted are there. A tested failure leaves the cursors where they are: the word that is next
was the failed call's, and the calls behind it are one word late. -/

namespace Ext4tc.Fs
open Ext4tc.Lib Ext4tc.DiskUtils

namespace Blocks

variable (fails : Nat → Bool) (b : Blocks) (i : Nat)

def InDouble : Prop :=
  b.inode.iFlags &&& ext4ExtentsFl = 0 ∧ ¬i < ext4IndBlock ∧
    ¬i < (b.addrBlkPerBlock + ext4IndBlock) % 2 ^ 32 ∧
    i < (b.dindNBlk + b.addrBlkPerBlock + ext4IndBlock) % 2 ^ 32

def UsesCursors : Prop :=
  b.InDouble i ∨ b.inode.iFlags &&& ext4ExtentsFl = 0 ∧ ¬i < ext4IndBlock ∧
    i < (b.addrBlkPerBlock + ext4IndBlock) % 2 ^ 32

def LosesDindirect : Prop := b.InDouble i ∧ b.dindirectBuf = none ∧ fails b.reads = true

/-- An indirect block is loaded, or read number `r` gets it. -/
def IndirectThere (r : Nat) : Prop := b.buffer = none → fails r = false

/-- What the call takes for granted is there: a node on every level of the tree, or an
indirect block, behind a double indirect one that is loaded or read. -/
def BlocksThere : Prop :=
  if b.inode.iFlags &&& ext4ExtentsFl ≠ 0 then
    (extInodeHdr b.inode).ehMagic = ext4ExtMagic → b.FindsNodes fails i
  else if i < ext4IndBlock then True
  else if i < (b.addrBlkPerBlock + ext4IndBlock) % 2 ^ 32 then b.IndirectThere fails b.reads
  else if i < (b.dindNBlk + b.addrBlkPerBlock + ext4IndBlock) % 2 ^ 32 then
    if b.dindirectBuf = none then fails b.reads = false → b.IndirectThere fails (b.reads + 1)
    else b.IndirectThere fails b.reads
  else True

end Blocks

/-! ## One call -/

namespace Blocks

section Call

variable {fails : Nat → Bool} {b : Blocks} {i : Nat}

theorem readBlock_ok (h : fails b.reads = false) (blk : Nat) :
    b.readBlock fails blk = b.readBlock noFails blk ∧
      ∃ buffer, b.readBlock noFails blk = some buffer := by
  unfold readBlock
  rw [h]
  exact ⟨rfl, _, rfl⟩

theorem readBlock_failed (h : fails b.reads = true) (blk : Nat) : b.readBlock fails blk = none := by
  unfold readBlock
  rw [h]
  rfl

theorem indirectBlkNr_there (h : b.IndirectThere fails b.reads) (ptr : Nat) :
    b.indirectBlkNr fails ptr = b.indirectBlkNr noFails ptr ∧
      ∃ nrBlk b', b.indirectBlkNr noFails ptr = .ok (nrBlk, b') := by
  unfold indirectBlkNr
  cases hbuf : b.buffer with
  | some buffer =>
    dsimp only
    refine ⟨rfl, ?_⟩
    split <;> exact ⟨_, _, rfl⟩
  | none =>
    obtain ⟨hread, buffer, hbuffer⟩ := readBlock_ok (h hbuf) ptr
    simp only [hread, hbuffer]
    refine ⟨trivial, ?_⟩
    split <;> exact ⟨_, _, rfl⟩

theorem indirectBlkNr_missing (h : ¬b.IndirectThere fails b.reads) (ptr : Nat) :
    b.indirectBlkNr fails ptr = .error .nullDeref := by
  obtain ⟨hbuf, hfails⟩ := Classical.not_imp.mp h
  unfold indirectBlkNr
  rw [hbuf]
  simp only [readBlock_failed (Bool.eq_true_of_not_eq_false hfails)]

theorem doubleIndirectBlkNr_loaded_there {dbuf : Buffer} (hdbuf : b.dindirectBuf = some dbuf)
    (h : b.IndirectThere fails b.reads) :
    b.doubleIndirectBlkNr fails i = b.doubleIndirectBlkNr noFails i ∧
      ∃ r b', b.doubleIndirectBlkNr noFails i = .ok (r, b') := by
  obtain ⟨hcall, nrBlk, b', hok⟩ := indirectBlkNr_there h (dbuf.u32 (4 * b.dindIndex))
  unfold doubleIndirectBlkNr
  simp only [hdbuf, hcall, hok]
  exact ⟨trivial, _, _, rfl⟩

theorem doubleIndirectBlkNr_read_there (hdbuf : b.dindirectBuf = none)
    (hread : fails b.reads = false) (h : b.IndirectThere fails (b.reads + 1)) :
    b.doubleIndirectBlkNr fails i = b.doubleIndirectBlkNr noFails i ∧
      ∃ r b', b.doubleIndirectBlkNr noFails i = .ok (r, b') := by
  obtain ⟨hsame, dbuf, hbuffer⟩ := readBlock_ok hread (b.inode.iBlock ext4DindBlock)
  have hthere : IndirectThere fails
    { b with dindirectBuf := some dbuf, reads := b.reads + 1 } (b.reads + 1) := h
  obtain ⟨hcall, nrBlk, b', hok⟩ := indirectBlkNr_there hthere (dbuf.u32 0)
  unfold doubleIndirectBlkNr
  simp only [hdbuf, hsame, hbuffer, hcall, hok]
  refine ⟨trivial, ?_⟩
  split <;> exact ⟨_, _, rfl⟩

theorem doubleIndirectBlkNr_loaded_missing {dbuf : Buffer} (hdbuf : b.dindirectBuf = some dbuf)
    (h : ¬b.IndirectThere fails b.reads) : b.doubleIndirectBlkNr fails i = .error .nullDeref := by
  unfold doubleIndirectBlkNr
  simp only [hdbuf, indirectBlkNr_missing h]

theorem doubleIndirectBlkNr_read_missing (hdbuf : b.dindirectBuf = none)
    (hread : fails b.reads = false) (h : ¬b.IndirectThere fails (b.reads + 1)) :
    b.doubleIndirectBlkNr fails i = .error .nullDeref := by
  obtain ⟨hsame, dbuf, hbuffer⟩ := readBlock_ok hread (b.inode.iBlock ext4DindBlock)
  have hmissing : ¬IndirectThere fails
    { b with dindirectBuf := some dbuf, reads := b.reads + 1 } (b.reads + 1) := h
  unfold doubleIndirectBlkNr
  simp only [hdbuf, hsame, hbuffer, indirectBlkNr_missing hmissing]

theorem doubleIndirectBlkNr_lost (hdbuf : b.dindirectBuf = none) (hread : fails b.reads = true) :
    b.doubleIndirectBlkNr fails i = .ok (.failed, { b with reads := b.reads + 1 }) := by
  unfold doubleIndirectBlkNr
  simp only [hdbuf, readBlock_failed hread]

theorem doubleIndirectBlkNr_there (hkeep : b.dindirectBuf = none → fails b.reads = false)
    (h : if b.dindirectBuf = none then fails b.reads = false → b.IndirectThere fails (b.reads + 1)
      else b.IndirectThere fails b.reads) :
    b.doubleIndirectBlkNr fails i = b.doubleIndirectBlkNr noFails i ∧
      ∃ r b', b.doubleIndirectBlkNr noFails i = .ok (r, b') := by
  cases hdbuf : b.dindirectBuf with
  | none =>
    rw [if_pos hdbuf] at h
    exact doubleIndirectBlkNr_read_there hdbuf (hkeep hdbuf) (h (hkeep hdbuf))
  | some dbuf =>
    rw [if_neg (by rw [hdbuf]; exact Option.some_ne_none _)] at h
    exact doubleIndirectBlkNr_loaded_there hdbuf h

/-- **A call whose blocks are there** answers as it does if no read fails. -/
theorem getExt2BlkNr_there (hsized : b.PathSized) (h : b.BlocksThere fails i)
    (hkeep : ¬b.LosesDindirect fails i) :
    b.getExt2BlkNr fails i = b.getExt2BlkNr noFails i ∧
      ∃ r b', b.getExt2BlkNr noFails i = .ok (r, b') := by
  unfold BlocksThere at h
  unfold getExt2BlkNr
  by_cases hfl : b.inode.iFlags &&& ext4ExtentsFl ≠ 0
  · rw [if_pos hfl] at h
    rw [if_pos hfl, if_pos hfl]
    obtain ⟨hsame, r, b', hok, -⟩ := getExt2ExtentBlk_complete hsized h
    exact ⟨hsame, r, b', hok⟩
  rw [if_neg hfl] at h
  rw [if_neg hfl, if_neg hfl]
  unfold getExt2NonExtentBlk
  by_cases hdirect : i < ext4IndBlock
  · simp only [if_pos hdirect]
    exact ⟨trivial, _, _, rfl⟩
  rw [if_neg hdirect] at h
  simp only [if_neg hdirect]
  by_cases hsingle : i < (b.addrBlkPerBlock + ext4IndBlock) % 2 ^ 32
  · rw [if_pos hsingle] at h
    obtain ⟨hsame, nrBlk, b', hok⟩ := indirectBlkNr_there h (b.inode.iBlock ext4IndBlock)
    simp only [if_pos hsingle, hsame, hok]
    exact ⟨trivial, _, _, rfl⟩
  rw [if_neg hsingle] at h
  simp only [if_neg hsingle]
  by_cases hdouble : i < (b.dindNBlk + b.addrBlkPerBlock + ext4IndBlock) % 2 ^ 32
  · rw [if_pos hdouble] at h
    simp only [if_pos hdouble]
    refine doubleIndirectBlkNr_there (fun hdbuf => ?_) h
    exact Bool.eq_false_of_not_eq_true fun hlost =>
      hkeep ⟨⟨not_not.mp hfl, hdirect, hsingle, hdouble⟩, hdbuf, hlost⟩
  · simp only [if_neg hdouble]
    exact ⟨trivial, _, _, rfl⟩

/-- **A call that loses the double indirect block** fails and moves nothing. -/
theorem getExt2BlkNr_lost (h : b.LosesDindirect fails i) :
    b.getExt2BlkNr fails i = .ok (.failed, { b with reads := b.reads + 1 }) := by
  obtain ⟨⟨hfl, hdirect, hsingle, hdouble⟩, hdbuf, hlost⟩ := h
  rw [getExt2BlkNr_doubleRange hfl hdirect hsingle hdouble, doubleIndirectBlkNr_lost hdbuf hlost]

theorem LosesDindirect.blocksThere (h : b.LosesDindirect fails i) : b.BlocksThere fails i := by
  obtain ⟨⟨hfl, hdirect, hsingle, hdouble⟩, hdbuf, hlost⟩ := h
  unfold BlocksThere
  rw [if_neg (not_not.mpr hfl), if_neg hdirect, if_neg hsingle, if_pos hdouble, if_pos hdbuf, hlost]
  exact fun h => Bool.noConfusion h

/-- **A call that misses a block it takes for granted** dereferences NULL. -/
theorem getExt2BlkNr_missing (hsized : b.PathSized) (h : ¬b.BlocksThere fails i) :
    b.getExt2BlkNr fails i = .error .nullDeref := by
  unfold BlocksThere at h
  unfold getExt2BlkNr
  by_cases hfl : b.inode.iFlags &&& ext4ExtentsFl ≠ 0
  · rw [if_pos hfl] at h
    obtain ⟨hmagic, hcut⟩ := Classical.not_imp.mp h
    rw [if_pos hfl, getExt2ExtentBlk_cut hsized hmagic hcut]
  rw [if_neg hfl] at h
  rw [if_neg hfl]
  unfold getExt2NonExtentBlk
  by_cases hdirect : i < ext4IndBlock
  · rw [if_pos hdirect] at h
    exact absurd trivial h
  rw [if_neg hdirect] at h ⊢
  by_cases hsingle : i < (b.addrBlkPerBlock + ext4IndBlock) % 2 ^ 32
  · rw [if_pos hsingle] at h
    simp only [if_pos hsingle, indirectBlkNr_missing h]
  rw [if_neg hsingle] at h ⊢
  by_cases hdouble : i < (b.dindNBlk + b.addrBlkPerBlock + ext4IndBlock) % 2 ^ 32
  · rw [if_pos hdouble] at h ⊢
    cases hdbuf : b.dindirectBuf with
    | none =>
      rw [if_pos hdbuf] at h
      obtain ⟨hread, hmissing⟩ := Classical.not_imp.mp h
      exact doubleIndirectBlkNr_read_missing hdbuf hread hmissing
    | some dbuf =>
      rw [if_neg (by rw [hdbuf]; exact Option.some_ne_none _)] at h
      exact doubleIndirectBlkNr_loaded_missing hdbuf h
  · rw [if_neg hdouble] at h
    exact absurd trivial h

/-- What a call that uses no cursor answers, on any object of the file. -/
theorem getExt2BlkNr_apart {fails' : Nat → Bool} {c : Blocks}
    (hfl : b.inode.iFlags &&& ext4ExtentsFl = 0) (hsame : SameFile b c) (h : ¬b.UsesCursors i) :
    ∃ r, b.getExt2BlkNr fails i = .ok (r, b) ∧ c.getExt2BlkNr fails' i = .ok (r, c) := by
  unfold getExt2BlkNr getExt2NonExtentBlk
  rw [hsame.inode, hsame.addrBlkPerBlock, hsame.dindNBlk, if_neg (not_not.mpr hfl),
    if_neg (not_not.mpr hfl)]
  by_cases hdirect : i < ext4IndBlock
  · rw [if_pos hdirect, if_pos hdirect]
    exact ⟨_, rfl, rfl⟩
  have hsingle : ¬i < (b.addrBlkPerBlock + ext4IndBlock) % 2 ^ 32 := fun hsingle =>
    h (.inr ⟨hfl, hdirect, hsingle⟩)
  have hdouble : ¬i < (b.dindNBlk + b.addrBlkPerBlock + ext4IndBlock) % 2 ^ 32 := fun hdouble =>
    h (.inl ⟨hfl, hdirect, hsingle, hdouble⟩)
  rw [if_neg hdirect, if_neg hdirect, if_neg hsingle, if_neg hsingle, if_neg hdouble,
    if_neg hdouble]
  exact ⟨_, rfl, rfl⟩

theorem blocksThere_noFails (hfl : b.inode.iFlags &&& ext4ExtentsFl = 0) :
    b.BlocksThere noFails i := by
  have hthere : ∀ r, b.IndirectThere noFails r := fun _ _ => rfl
  unfold BlocksThere
  rw [if_neg (not_not.mpr hfl)]
  split
  · trivial
  · split
    · exact hthere _
    · split
      · split
        · exact fun _ => hthere _
        · exact hthere _
      · trivial

theorem getExt2BlkNr_ret {r : BlkNr} {b' : Blocks} (h : b.getExt2BlkNr fails i = .ok (r, b')) :
    r = .failed ∨ r.ret = 0 := by
  unfold getExt2BlkNr at h
  split at h
  next =>
    simp only [getExt2ExtentBlk] at h
    split at h
    · cases h
      exact .inl rfl
    · split at h
      · cases h
      · split at h <;> cases h
        · exact .inr rfl
        · exact .inl rfl
  next =>
    unfold getExt2NonExtentBlk doubleIndirectBlkNr at h
    repeat' split at h
    all_goals cases h
    all_goals first
      | exact .inr rfl
      | exact .inl rfl

end Call

/-! ## Runs -/

/-- Along the run the calls have the blocks they take for granted. -/
def BlocksThereAlong (fails : Nat → Bool) : Blocks → List Nat → Prop
  | _, [] => True
  | b, i :: is =>
    b.BlocksThere fails i ∧ ∀ r b', b.getExt2BlkNr fails i = .ok (r, b') →
      BlocksThereAlong fails b' is

/-- Along the run, once a call has lost the double indirect block (`lost`), calls that go by
the cursors lose it again. -/
def CursorsKept (fails : Nat → Bool) : Prop → Blocks → List Nat → Prop
  | _, _, [] => True
  | lost, b, i :: is =>
    (lost → b.UsesCursors i → b.LosesDindirect fails i) ∧
      ∀ r b', b.getExt2BlkNr fails i = .ok (r, b') →
        CursorsKept fails (lost ∨ b.LosesDindirect fails i) b' is

/-- A call answers -1, or the block that it answers if no read fails. -/
def FailsOrAgrees (r r₀ : BlkNr) : Prop := r = .failed ∨ r.ret = 0 ∧ r = r₀

/-- Every call of the run comes back, and answers a failure or what the same run answers there
on `c` if no read fails. -/
def FailsSafely (fails : Nat → Bool) (b c : Blocks) (is : List Nat) : Prop :=
  ∃ rs b' rs₀ c', b.getExt2BlkNrs fails is = .ok (rs, b') ∧
    c.getExt2BlkNrs noFails is = .ok (rs₀, c') ∧ List.Forall₂ FailsOrAgrees rs rs₀

section Runs

variable {fails : Nat → Bool}

theorem FailsSafely.cons {b c b₁ c₁ : Blocks} {i : Nat} {is : List Nat} {r r₀ : BlkNr}
    (hcall : b.getExt2BlkNr fails i = .ok (r, b₁))
    (hcall₀ : c.getExt2BlkNr noFails i = .ok (r₀, c₁))
    (hanswer : FailsOrAgrees r r₀) (h : FailsSafely fails b₁ c₁ is) :
    FailsSafely fails b c (i :: is) := by
  obtain ⟨rs, b', rs₀, c', hrun, hrun₀, hall⟩ := h
  refine ⟨r :: rs, b', r₀ :: rs₀, c', ?_, ?_, .cons hanswer hall⟩
  · rw [getExt2BlkNrs_cons hcall, hrun]
    rfl
  · rw [getExt2BlkNrs_cons hcall₀, hrun₀]
    rfl

/-- **A run comes back exactly if its calls have the blocks they take for granted.** -/
theorem getExt2BlkNrs_ok_iff : ∀ (is : List Nat) {b : Blocks}, b.PathSized →
    ((∃ out, b.getExt2BlkNrs fails is = .ok out) ↔ BlocksThereAlong fails b is)
  | [], b, _ => iff_of_true ⟨_, rfl⟩ trivial
  | i :: is, b, hsized => by
    by_cases hthere : b.BlocksThere fails i
    · obtain ⟨r, b', hcall⟩ : ∃ r b', b.getExt2BlkNr fails i = .ok (r, b') := by
        by_cases hlost : b.LosesDindirect fails i
        · exact ⟨_, _, getExt2BlkNr_lost hlost⟩
        · obtain ⟨hsame, r, b', hok⟩ := getExt2BlkNr_there hsized hthere hlost
          exact ⟨r, b', hsame.trans hok⟩
      have ih := getExt2BlkNrs_ok_iff is (getExt2BlkNr_sized hsized hcall)
      rw [getExt2BlkNrs_cons hcall]
      constructor
      · rintro ⟨out, hout⟩
        obtain ⟨rest, hrest, -⟩ := exists_of_map_ok hout
        refine ⟨hthere, fun r₁ b₁ h => ?_⟩
        cases hcall.symm.trans h
        exact ih.mp ⟨rest, hrest⟩
      · rintro ⟨-, hrun⟩
        obtain ⟨out, hout⟩ := ih.mpr (hrun r b' hcall)
        exact ⟨_, by rw [hout]; rfl⟩
    · refine iff_of_false ?_ fun h => hthere h.1
      rintro ⟨out, hout⟩
      rw [getExt2BlkNrs] at hout
      simp only [getExt2BlkNr_missing hsized hthere] at hout
      cases hout

theorem getExt2BlkNr_noFails {c : Blocks} (hfl : c.inode.iFlags &&& ext4ExtentsFl = 0)
    (hsized : c.PathSized) (i : Nat) :
    ∃ r c', c.getExt2BlkNr noFails i = .ok (r, c') ∧ SameFile c c' ∧ c'.PathSized := by
  obtain ⟨-, r, c', hcall⟩ := @getExt2BlkNr_there noFails c i hsized (blocksThere_noFails hfl)
    fun h => Bool.noConfusion h.2.2
  exact ⟨r, c', hcall, (getExt2BlkNr_same hcall).1, getExt2BlkNr_sized hsized hcall⟩

/-- Once the double indirect block was lost, the calls that answer a block use no cursor, so
it is no matter where these are. -/
theorem failsSafely_behind : ∀ (is : List Nat) {b c : Blocks},
    b.inode.iFlags &&& ext4ExtentsFl = 0 → SameFile b c → c.PathSized →
    CursorsKept fails True b is → FailsSafely fails b c is
  | [], b, c, _, _, _, _ => ⟨[], b, [], c, rfl, rfl, .nil⟩
  | i :: is, b, c, hfl, hsame, hsized, ⟨hstep, hrest⟩ => by
    simp only [true_or] at hrest
    by_cases huses : b.UsesCursors i
    · have hcall := getExt2BlkNr_lost (hstep trivial huses)
      have hfl' : c.inode.iFlags &&& ext4ExtentsFl = 0 := hsame.inode ▸ hfl
      obtain ⟨r₀, c', hcall₀, hsame₀, hsized'⟩ := getExt2BlkNr_noFails hfl' hsized i
      have hread : SameFile { b with reads := b.reads + 1 } b := ⟨⟨rfl, rfl, rfl⟩, rfl, rfl⟩
      exact .cons hcall hcall₀ (.inl rfl) (failsSafely_behind is hfl
        ((hread.trans hsame).trans hsame₀) hsized' (hrest _ _ hcall))
    · obtain ⟨r, hcall, hcall₀⟩ := @getExt2BlkNr_apart fails b i noFails c hfl hsame huses
      exact .cons hcall hcall₀ ((getExt2BlkNr_ret hcall).imp_right fun h => ⟨h, rfl⟩)
        (failsSafely_behind is hfl hsame hsized (hrest _ _ hcall))

/-- Up to the first loss the run is the one in which no read fails. -/
theorem failsSafely_of_there : ∀ (is : List Nat) {b : Blocks}, b.PathSized →
    BlocksThereAlong fails b is → CursorsKept fails False b is → FailsSafely fails b b is
  | [], b, _, _, _ => ⟨[], b, [], b, rfl, rfl, .nil⟩
  | i :: is, b, hsized, ⟨hthere, hrun⟩, ⟨_, hkept⟩ => by
    simp only [false_or] at hkept
    by_cases hlost : b.LosesDindirect fails i
    · have hcall := getExt2BlkNr_lost hlost
      have hfl := hlost.1.1
      obtain ⟨r₀, c', hcall₀, hsame₀, hsized'⟩ := getExt2BlkNr_noFails hfl hsized i
      have hread : SameFile { b with reads := b.reads + 1 } b := ⟨⟨rfl, rfl, rfl⟩, rfl, rfl⟩
      have hkept' := hkept _ _ hcall
      rw [eq_true hlost] at hkept'
      exact .cons hcall hcall₀ (.inl rfl)
        (failsSafely_behind is hfl (hread.trans hsame₀) hsized' hkept')
    · obtain ⟨hsame, r, b', hcall₀⟩ := getExt2BlkNr_there hsized hthere hlost
      have hcall := hsame.trans hcall₀
      have hkept' := hkept _ _ hcall
      rw [eq_false hlost] at hkept'
      exact .cons hcall hcall₀ ((getExt2BlkNr_ret hcall).imp_right fun h => ⟨h, rfl⟩)
        (failsSafely_of_there is (getExt2BlkNr_sized hsized hcall) (hrun _ _ hcall) hkept')

end Runs

end Blocks

/-- **Failing reads**: a run comes back exactly if its calls have the blocks they take for
granted, and then its answers are failures or what they are if no read fails, provided that
calls which go by the cursors fail once the double indirect block was lost. -/
theorem failed_reads_become_failures_iff (fails : Nat → Bool) (p : Partition) (sb : Ext4SuperBlock)
    (inode : Ext4Inode) (is : List Nat) :
    ((∃ out, (Blocks.new p sb inode).getExt2BlkNrs fails is = .ok out) ↔
      Blocks.BlocksThereAlong fails (.new p sb inode) is) ∧
    (Blocks.BlocksThereAlong fails (.new p sb inode) is →
      Blocks.CursorsKept fails False (.new p sb inode) is →
        Blocks.FailsSafely fails (.new p sb inode) (.new p sb inode) is) :=
  ⟨Blocks.getExt2BlkNrs_ok_iff is (Blocks.pathSized_new p sb inode),
    Blocks.failsSafely_of_there is (Blocks.pathSized_new p sb inode)⟩

/-- A file without extents, whose pointers are all 0, on blocks of 1 KiB that hold numbers. -/
def numbered : Blocks :=
  .new (.ofDevice fun i => UInt8.ofNat (i / 4)) (Buffer.zeros 1024) (Buffer.zeros 128)

/-- No read succeeds: the double indirect block is lost, and block 0 is direct. -/
theorem failed_reads_become_failures_numbered :
    numbered.FailsSafely (fun _ => true) numbered [268, 0] := by
  have hlost : numbered.LosesDindirect (fun _ => true) 268 := by
    unfold Blocks.LosesDindirect Blocks.InDouble
    exact ⟨by decide, rfl, rfl⟩
  have hcall := Blocks.getExt2BlkNr_lost hlost
  refine (failed_reads_become_failures_iff (fun _ => true) _ _ _ [268, 0]).2 ⟨?_, ?_⟩ ⟨?_, ?_⟩
  · exact hlost.blocksThere
  · intro r b' h
    cases hcall.symm.trans h
    refine ⟨?_, fun _ _ _ => trivial⟩
    unfold Blocks.BlocksThere
    rw [if_neg (by decide), if_pos (by decide)]
    trivial
  · exact fun h => h.elim
  · intro r b' h
    cases hcall.symm.trans h
    refine ⟨fun _ huses => ?_, fun _ _ _ => trivial⟩
    have hdirect : (0 : Nat) < ext4IndBlock := by decide
    rcases huses with ⟨-, hnot, -⟩ | ⟨-, hnot, -⟩
    · exact absurd hdirect hnot
    · exact absurd hdirect hnot

/-- The read of the indirect block fails at the first block behind the direct ones. -/
theorem indirect_read_failed :
    ¬∀ (fails : Nat → Bool) (p : Partition) (sb : Ext4SuperBlock) (inode : Ext4Inode)
      (is : List Nat), Blocks.FailsSafely fails (.new p sb inode) (.new p sb inode) is := by
  intro h
  obtain ⟨rs, b', -, -, hrun, -⟩ := h (fun _ => true) (.ofDevice fun _ => 9) (Buffer.zeros 1024)
    (Buffer.zeros 128) [12]
  have hfault : (Blocks.new (.ofDevice fun _ => 9) (Buffer.zeros 1024)
      (Buffer.zeros 128)).getExt2BlkNrs (fun _ => true) [12] = .error .nullDeref := rfl
  cases hfault.symm.trans hrun

/-- Behind a lost block the words come one call late. -/
example : (numbered.getExt2BlkNrs noFails [268, 269]).map Prod.fst =
      .ok [.at 0, .at 0x01010101] ∧
    (numbered.getExt2BlkNrs (fun r => r == 0) [268, 269]).map Prod.fst = .ok [.failed, .at 0] := by
  decide +kernel

end Ext4tc.Fs
