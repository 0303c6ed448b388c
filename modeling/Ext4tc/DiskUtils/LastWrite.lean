import Ext4tc.DiskUtils.ReadFileRuns

/-! # The last write of a copy

`read_file` counts the blocks of a file in 32 bits, of a sum that may wrap around in 64. For a
block size that divides `2 ^ 32` neither does harm: what is left for the last block is as if
nothing had been cut off. The buffer is another matter: it holds whole sectors, and where a
sector is longer than a block it holds nothing. -/

namespace Ext4tc.DiskUtils
open Ext4tc.Lib Ext4tc.Fs

section Wrapping

variable {bs size : Nat}

/-- A sum that wraps around at a multiple of `bs * 2 ^ 32` keeps its quotient by `bs`, cast to
32 bits. -/
theorem wrapped_quotient (hdvd : bs ∣ 2 ^ 32) (x : Nat) :
    x % 2 ^ 64 / bs % 2 ^ 32 = x / bs % 2 ^ 32 := by
  obtain ⟨c, hc⟩ := hdvd
  have hword : 2 ^ 64 = bs * (c * 2 ^ 32) := by
    rw [← Nat.mul_assoc, ← hc]
    rfl
  rw [hword, Nat.mod_mul_right_div_self, Nat.mod_mod_of_dvd _ (Nat.dvd_mul_left _ _)]

/-- `n_blocks - 1` is the block of the last byte, cut to 32 bits. -/
theorem lastBlock_wrapped (hdvd : bs ∣ 2 ^ 32) (hpos : 0 < size) :
    lastBlock bs size = (size - 1) / bs % 2 ^ 32 := by
  have hbs : 0 < bs := Nat.pos_of_dvd_of_pos hdvd (by decide)
  have hcount : nBlocks bs size = ((size - 1) / bs + 1) % 2 ^ 32 := by
    have hsum : (size + bs + (2 ^ 64 - 1)) % 2 ^ 64 = (size - 1 + bs) % 2 ^ 64 := by omega
    rw [nBlocks, hsum, wrapped_quotient hdvd, Nat.add_div_right _ hbs]
  rw [lastBlock, hcount, sub32]
  omega

/-- **What is left for the last block** counts from its start to the last byte. -/
theorem offsetMax_wrapped (hdvd : bs ∣ 2 ^ 32) (hlt : bs < 2 ^ 32) (hpos : 0 < size) :
    offsetMax bs size = (size - 1) % bs + 1 := by
  have hbs : 0 < bs := Nat.pos_of_dvd_of_pos hdvd (by decide)
  have hrest : (size - 1) % bs < bs := Nat.mod_lt _ hbs
  have hsize : (size - 1) / bs * bs + (size - 1) % bs + 1 = size := by
    rw [Nat.div_add_mod', Nat.sub_add_cancel hpos]
  rw [offsetMax, lastBlock_wrapped hdvd hpos, Nat.mod_mod_of_dvd _ (show 2 ^ 32 ∣ 2 ^ 64 by decide)]
  generalize (size - 1) % bs = r at hrest hsize ⊢
  have hcut := Nat.div_add_mod ((size - 1) / bs) (2 ^ 32)
  generalize (size - 1) / bs / 2 ^ 32 = m at hcut
  -- the blocks that the cast drops have a multiple of `2 ^ 32` bytes
  have hsplit : size = 2 ^ 32 * (m * bs) + (size - 1) / bs % 2 ^ 32 * bs + r + 1 := by
    rw [← Nat.mul_assoc, ← Nat.add_mul, hcut, hsize]
  have hfits : (size - 1) / bs % 2 ^ 32 * bs ≤ 2 ^ 32 * 2 ^ 32 :=
    Nat.mul_le_mul (Nat.le_of_lt (Nat.mod_lt _ (by decide))) (Nat.le_of_lt hlt)
  generalize (size - 1) / bs % 2 ^ 32 * bs = low at hsplit hfits ⊢
  generalize m * bs = high at hsplit
  omega

end Wrapping

/-! ## The runs -/

theorem dvd_word_of_log {k : Nat} (hk : k ≤ 6) : 1024 * 2 ^ k ∣ 2 ^ 32 :=
  (Nat.mul_dvd_mul_left 1024 (Nat.pow_dvd_pow 2 hk)).trans (by decide)

/-- The bytes that the sector read of a block gets. -/
def Partition.bytesRead (p : Partition) (bs : Nat) : Nat :=
  bs / p.sectorSize % 2 ^ 16 * p.sectorSize % 2 ^ 32

/-- A write takes its `n` bytes from the front of the buffer that was read for it, and the
buffer has them. -/
def WritesOfBlock (p : Partition) (bs n : Nat) (s : CopyStep) : Prop :=
  ∀ bytes ok, s.write = some (bytes, ok) → ∃ a buffer, s.read = some (a, true) ∧
    p.readSectorsEx true (bs / p.sectorSize % 2 ^ 16 * a % 2 ^ 64)
      (bs / p.sectorSize % 2 ^ 16) = some buffer ∧ bytes = buffer.slice 0 n ∧ n ≤ buffer.size

/-- The last write of a copy takes at least one byte and at most a block, out of the block that
was read. -/
structure LastWriteInBlock (p : Partition) (sb : Ext4SuperBlock) (inode : Ext4Inode)
    (run : ReadRun) : Prop where
  low : 1 ≤ offsetMax sb.blockSize inode.size
  high : offsetMax sb.blockSize inode.size ≤ sb.blockSize
  inBuffer : ∀ s ∈ run.steps, s.index = lastBlock sb.blockSize inode.size →
    WritesOfBlock p sb.blockSize (offsetMax sb.blockSize inode.size) s

theorem bytesRead_of_wholeSectors {p : Partition} {sb : Ext4SuperBlock} (h : WholeSectors p sb) :
    p.bytesRead sb.blockSize = sb.blockSize := by
  have hmax := (Ext4SuperBlock.blockSize_pos h.logBlockSize).2
  rw [Partition.bytesRead, h.sectors]
  exact Nat.mod_eq_of_lt (by omega)

/-- A step writes exactly if its read worked, and takes the front of what was read. -/
theorem CopyJob.IsStep.writesOfBlock_iff {env : CopyEnv} {p : Partition} {sb : Ext4SuperBlock}
    {inode : Ext4Inode} {s : CopyStep} (h : (copyJob env p sb inode).IsStep s) :
    WritesOfBlock p sb.blockSize ((copyJob env p sb inode).nWrite s.index) s ↔
      (env.readOk s.index = true →
        (copyJob env p sb inode).nWrite s.index ≤ p.bytesRead sb.blockSize) := by
  obtain ⟨a, -, hread, hio⟩ := h.io
  rw [show (copyJob env p sb inode).env = env from rfl] at hread hio
  constructor
  · intro hwrites hok
    rw [if_pos hok] at hio
    obtain ⟨a', buffer, -, hbuffer, -, hle⟩ := hwrites _ _ hio
    cases hbuffer
    exact hle
  · intro hle bytes ok hwrite
    rw [hwrite] at hio
    cases hok : env.readOk s.index with
    | false =>
      rw [hok, if_neg Bool.false_ne_true] at hio
      cases hio
    | true =>
      rw [hok, if_pos rfl] at hio
      rw [hok] at hread
      exact ⟨a, _, hread, if_pos rfl, (Prod.mk.inj (Option.some.inj hio)).1, hle hok⟩

section Loaded

variable {env : CopyEnv} {part : PartitionLinuxExt2} {inodeNr : Nat} {sb : Ext4SuperBlock}
    {inode : Ext4Inode} (h : part.Loaded env.inodeOk inodeNr sb inode) {nrBlk : Nat}
include h

theorem lastStep_writesOfBlock_iff {s : CopyStep}
    (hs : s ∈ (part.readFile env inodeNr true nrBlk).1.steps)
    (hlast : s.index = lastBlock sb.blockSize inode.size) :
    WritesOfBlock part.part sb.blockSize (offsetMax sb.blockSize inode.size) s ↔
      (env.readOk (lastBlock sb.blockSize inode.size) = true →
        offsetMax sb.blockSize inode.size ≤ part.part.bytesRead sb.blockSize) := by
  have hwrites := ((readFile_steps h nrBlk).1 s hs).writesOfBlock_iff
  rwa [hlast, copyJob_nWrite_last] at hwrites

theorem LastWriteInBlock.le_bytesRead
    (hgood : LastWriteInBlock part.part sb inode (part.readFile env inodeNr true nrBlk).1)
    (hreach : ReachesBlock env part.part sb inode (lastBlock sb.blockSize inode.size))
    (hok : env.readOk (lastBlock sb.blockSize inode.size) = true) :
    offsetMax sb.blockSize inode.size ≤ part.part.bytesRead sb.blockSize := by
  obtain ⟨s, hs, hlast⟩ := ((readFile_steps h nrBlk).2 _).mpr hreach
  exact (lastStep_writesOfBlock_iff h hs hlast).mp (hgood.inBuffer s hs hlast) hok

end Loaded

/-- **The last write stays in the block**, whatever size the inode claims, exactly unless the
copy gets to it with fewer bytes read than the file has in its last block. -/
theorem last_write_in_block_iff {env : CopyEnv} {part : PartitionLinuxExt2} {inodeNr : Nat}
    {sb : Ext4SuperBlock} {inode : Ext4Inode} (h : part.Loaded env.inodeOk inodeNr sb inode)
    (nrBlk : Nat) (hk : sb.sLogBlockSize ≤ 6) (hpos : 0 < inode.size) :
    LastWriteInBlock part.part sb inode (part.readFile env inodeNr true nrBlk).1 ↔
      (ReachesBlock env part.part sb inode (lastBlock sb.blockSize inode.size) →
        env.readOk (lastBlock sb.blockSize inode.size) = true →
        (inode.size - 1) % sb.blockSize + 1 ≤ part.part.bytesRead sb.blockSize) := by
  obtain ⟨hlo, hhi⟩ := Ext4SuperBlock.blockSize_pos hk
  have hdvd := dvd_word_of_log hk
  rw [← Ext4SuperBlock.blockSize_eq hk] at hdvd
  have hrest := offsetMax_wrapped hdvd (by omega) hpos
  rw [← hrest]
  constructor
  · intro hgood hreach hok
    exact hgood.le_bytesRead h hreach hok
  · intro hgood
    have hmod : (inode.size - 1) % sb.blockSize < sb.blockSize := Nat.mod_lt _ (by omega)
    refine ⟨by omega, by omega, fun s hs hlast => ?_⟩
    have hreach := ((readFile_steps h nrBlk).2 _).mp ⟨s, hs, hlast⟩
    exact (lastStep_writesOfBlock_iff h hs hlast).mpr (hgood hreach)

/-! ## Sectors of 512 bytes and of 4096 -/

/-- The test device, where the size of inode 12 is 255 bytes short of `2 ^ 64`. -/
def hugeImage : Partition :=
  .ofDevice ((⟨0, image.device⟩ : Buffer).pokes
    [(17796, [1, 0xff, 0xff, 0xff]), (17900, [0xff, 0xff, 0xff, 0xff])]).byte

def hugeImageSb : Ext4SuperBlock := ⟨1024, (hugeImage.bufferAt 1024 1024).byte⟩

def hugeInode : Ext4Inode := (hugeImage.bufferAt 16384 2048).shift 1408

/-- Its size and the block size add up to more than 64 bits hold. -/
theorem last_write_in_block_huge :
    ∃ m, (PartitionLinuxExt2.new hugeImage).getExt2Sb true true = .ok (true, m) ∧
      hugeInode.size = 2 ^ 64 - 255 ∧
      LastWriteInBlock m.part hugeImageSb hugeInode (m.readFile quietEnv 12 true 0).1 := by
  have hloaded : ∃ m, (PartitionLinuxExt2.new hugeImage).getExt2Sb true true = .ok (true, m) ∧
      m.part = hugeImage ∧ m.Loaded true 12 hugeImageSb hugeInode :=
    ⟨_, rfl, rfl, _, _, rfl, rfl, rfl⟩
  obtain ⟨m, hm, hpart, hl⟩ := hloaded
  refine ⟨m, hm, by decide +kernel, ?_⟩
  refine (@last_write_in_block_iff quietEnv _ _ _ _ hl 0 (by decide) (by decide +kernel)).mpr ?_
  intro _ _
  rw [hpart, bytesRead_of_wholeSectors ⟨by decide, by decide, by decide⟩]
  decide +kernel

/-- A device of 4096-byte sectors with a file system of 1 KiB blocks where the mount looks for
it. The inode table is found at its start, and inode 12 has a size of one byte. -/
def longSectors : Partition :=
  ⟨4096, 0, ((Buffer.zeros 0).pokes
    [(1412, [1]), (1448, [3]), (8196, [16]), (8224, [0, 0x80]), (8232, [16]),
      (8248, [0x53, 0xef]), (8280, [128])]).byte, fun _ => 0x48⟩

def longSectorsSb : Ext4SuperBlock := ⟨1024, (longSectors.bufferAt 8192 8192).byte⟩

def longSectorsInode : Ext4Inode := (longSectors.bufferAt 0 4096).shift 1408

/-- No sector is read for the only block, and a byte of the heap is written. -/
theorem last_write_leaves_block :
    ∃ m, (PartitionLinuxExt2.new longSectors).getExt2Sb true true = .ok (true, m) ∧
      m.Loaded true 12 longSectorsSb longSectorsInode ∧ longSectorsSb.sLogBlockSize = 0 ∧
      longSectorsInode.size = 1 ∧ (m.readFile quietEnv 12 true 0).1.written = [0x48] ∧
      ¬LastWriteInBlock m.part longSectorsSb longSectorsInode
        (m.readFile quietEnv 12 true 0).1 := by
  have hloaded : ∃ m, (PartitionLinuxExt2.new longSectors).getExt2Sb true true = .ok (true, m) ∧
      m.part = longSectors ∧ m.Loaded true 12 longSectorsSb longSectorsInode ∧
      (m.readFile quietEnv 12 true 0).1.written = [0x48] :=
    ⟨_, rfl, rfl, ⟨_, _, rfl, rfl, rfl⟩, by decide +kernel⟩
  obtain ⟨m, hm, hpart, hl, hwritten⟩ := hloaded
  refine ⟨m, hm, hl, by decide, by decide, hwritten, fun hgood => ?_⟩
  have hlook : (Blocks.new m.part longSectorsSb longSectorsInode).lookup quietEnv.metaFails 0 =
      .ok (.at 3) := by
    rw [hpart]
    decide +kernel
  have hreach : ReachesBlock quietEnv m.part longSectorsSb longSectorsInode 0 :=
    reachesBlock_zero (by decide) (by decide) (by decide) rfl hlook
  have hle := hgood.le_bytesRead hl hreach rfl
  rw [hpart] at hle
  exact absurd hle (by decide)

end Ext4tc.DiskUtils
