import Ext4tc.Plugin.CopyThread
import Ext4tc.DiskUtils.FileContent

/-! # What a copy delivers

The copy thread again, this time with the bytes: the mapper, the variable `nr_blk`
and the buffer are the thread's own, the destination is shared. Forgetting the bytes
gives the process of sizes, so what holds of sizes holds here. The invariant is that
the mapper has answered the blocks before the current one in order, and that the
destination is what the lookups lead to, cut where the thread is; of a file without holes
this is the content. -/

namespace Ext4tc.Plugin
open Ext4tc.Lib Ext4tc.Fs Ext4tc.DiskUtils

/-- What the thread copies: a found inode of a mounted partition, the sector reads
of the mapper that fail, and what `nr_blk` holds at first. -/
structure CopySource where
  part : Partition
  sb : Ext4SuperBlock
  inode : Ext4Inode
  metaFails : Nat → Bool
  nrBlk : Nat

namespace CopySource

def bs (src : CopySource) : Nat := src.sb.blockSize

def size (src : CopySource) : Nat := src.inode.size

def blockSizeSect (src : CopySource) : Nat := src.sb.blockSize / src.part.sectorSize % 2 ^ 16

def last (src : CopySource) : Nat := lastBlock src.bs src.size

/-- `read_sectors_ex(block_size_sect * nr_blk, block_size_sect)`, when it succeeds. -/
def readBlock (src : CopySource) (nrBlk : Nat) : Option Buffer :=
  src.part.readSectorsEx true (src.blockSizeSect * nrBlk % 2 ^ 64) src.blockSizeSect

end CopySource

structure SharedData where
  dest : List UInt8
  handleOpen : Bool
  error : Int
  intFlag : Bool

/-- The bytes forgotten. -/
def SharedData.sizes (sh : SharedData) : Shared :=
  ⟨sh.dest.length, sh.handleOpen, sh.error, sh.intFlag⟩

inductive DataPc where
  | start
  | openInode
  | test (i : Nat) (st : CopyState)
  | lookup (i : Nat) (st : CopyState)
  | read (i : Nat) (st : CopyState)
  | write (i : Nat) (st : CopyState) (buffer : Buffer)
  | lastTest (st : CopyState)
  | setError (blk : Blocks)
  | destroy (blk : Blocks)
  | finished
  | crashed

def DataPc.place : DataPc → ThreadPc
  | .start => .start
  | .openInode => .openInode
  | .test i _ => .test i
  | .lookup i _ => .lookup i
  | .read i _ => .read i
  | .write i _ _ => .write i
  | .lastTest _ => .lastTest
  | .setError _ => .setError
  | .destroy _ => .destroy
  | .finished => .finished
  | .crashed => .crashed

/-- `read_file`. As in `copyBlock`, the answer of a lookup is an unsigned value, so it
is never negative. -/
inductive DataStep (src : CopySource) : SharedData → DataPc → SharedData → DataPc → Prop
  | clearError {sh} : DataStep src sh .start { sh with error := 0 } .openInode
  | empty {sh} (h : src.inode.iSizeLo = 0 ∧ src.inode.iSizeHigh = 0) :
      DataStep src sh .openInode sh .finished
  | divByZero {sh} (h : ¬(src.inode.iSizeLo = 0 ∧ src.inode.iSizeHigh = 0)) (hbs : src.bs = 0) :
      DataStep src sh .openInode sh .crashed
  | nonempty {sh} (h : ¬(src.inode.iSizeLo = 0 ∧ src.inode.iSizeHigh = 0)) (hbs : src.bs ≠ 0) :
      DataStep src sh .openInode sh (.test 0 ⟨Blocks.new src.part src.sb src.inode, src.nrBlk⟩)
  | enter {sh i st} (h : i < src.last) (hflag : sh.intFlag = false) :
      DataStep src sh (.test i st) sh (.lookup i st)
  | leave {sh i st} (h : src.last ≤ i ∨ sh.intFlag = true) :
      DataStep src sh (.test i st) sh (.lastTest st)
  | interrupted {sh st} (hflag : sh.intFlag = true) :
      DataStep src sh (.lastTest st) sh (.setError st.blk)
  | enterLast {sh st} (hflag : sh.intFlag = false) (h : 0 < offsetMax src.bs src.size) :
      DataStep src sh (.lastTest st) sh (.lookup src.last st)
  | noLast {sh st} (hflag : sh.intFlag = false) (h : offsetMax src.bs src.size = 0) :
      DataStep src sh (.lastTest st) sh (.destroy st.blk)
  | lookup {sh i st ret blk} (h : st.blk.getExt2BlkNr src.metaFails i = .ok (ret, blk))
      (hret : ¬ret.ret < 0) :
      DataStep src sh (.lookup i st) sh (.read i ⟨blk, ret.physicalBlkAddr.getD st.nrBlk⟩)
  | lookupFails {sh i st ret blk} (h : st.blk.getExt2BlkNr src.metaFails i = .ok (ret, blk))
      (hret : ret.ret < 0) : DataStep src sh (.lookup i st) sh (.setError blk)
  | lookupCrashes {sh i st fault} (h : st.blk.getExt2BlkNr src.metaFails i = .error fault) :
      DataStep src sh (.lookup i st) sh .crashed
  | read {sh i st buffer} (h : src.readBlock st.nrBlk = some buffer) :
      DataStep src sh (.read i st) sh (.write i st buffer)
  | readFails {sh i st} : DataStep src sh (.read i st) sh (.setError st.blk)
  | write {sh i st buffer} (h : i < src.last) : DataStep src sh (.write i st buffer)
      { sh with dest := sh.dest ++ buffer.slice 0 src.bs } (.test (i + 1) st)
  | writeLast {sh i st buffer} (h : src.last ≤ i) : DataStep src sh (.write i st buffer)
      { sh with dest := sh.dest ++ buffer.slice 0 (offsetMax src.bs src.size) } (.destroy st.blk)
  | writeFails {sh i st buffer} : DataStep src sh (.write i st buffer) sh (.setError st.blk)
  | setError {sh blk} : DataStep src sh (.setError blk) { sh with error := -1 } (.destroy blk)
  | destroy {sh blk} (h : blk.flush = .ok ()) : DataStep src sh (.destroy blk) sh .finished
  | destroyCrashes {sh blk fault} (h : blk.flush = .error fault) :
      DataStep src sh (.destroy blk) sh .crashed

structure DataProcess where
  sh : SharedData
  thread : DataPc
  poll : PollPc

def DataProcess.sizes (s : DataProcess) : CopyProcess := ⟨s.sh.sizes, s.thread.place, s.poll⟩

/-- `FsGetFile` looks at the size of the destination only, and writes none of it. -/
inductive DataProcess.Step (src : CopySource) : DataProcess → DataProcess → Prop
  | thread {sh sh' t t' m} (h : DataStep src sh t sh' t') :
      DataProcess.Step src ⟨sh, t, m⟩ ⟨sh', t', m⟩
  | poll {sh sh' t m m'} (ht : t.place ≠ .crashed) (hdest : sh'.dest = sh.dest)
      (h : PollStep src.size t.place sh.sizes m sh'.sizes m') :
      DataProcess.Step src ⟨sh, t, m⟩ ⟨sh', t, m'⟩

def dataProcess (src : CopySource) : TransitionSystem DataProcess where
  start s := s = ⟨⟨[], true, 0, false⟩, .start, .poll⟩
  step := DataProcess.Step src

/-! ## The process of sizes -/

section Sizes

variable {src : CopySource} {sh sh' : SharedData} {t t' : DataPc}

theorem CopySource.size_eq_zero_iff (src : CopySource) :
    src.size = 0 ↔ src.inode.iSizeLo = 0 ∧ src.inode.iSizeHigh = 0 := by
  rw [CopySource.size, Ext4Inode.size_eq]
  omega

theorem SharedData.sizes_append (sh : SharedData) (bytes : List UInt8) :
    SharedData.sizes { sh with dest := sh.dest ++ bytes } =
      { sh.sizes with destSize := sh.sizes.destSize + bytes.length } := by
  simp only [SharedData.sizes, List.length_append]

theorem DataStep.sizes (h : DataStep src sh t sh' t') :
    ThreadStep src.bs src.size sh.sizes t.place sh'.sizes t'.place := by
  have hempty := src.size_eq_zero_iff
  cases h with
  | clearError => exact .clearError
  | empty h => exact .empty (hempty.mpr h)
  | divByZero h hbs => exact .divByZero (fun hsize => h (hempty.mp hsize)) hbs
  | nonempty h hbs => exact .nonempty (fun hsize => h (hempty.mp hsize)) hbs
  | enter h hflag => exact .enter h hflag
  | leave h => exact .leave h
  | interrupted hflag => exact .interrupted hflag
  | enterLast hflag h => exact .enterLast hflag h
  | noLast hflag h => exact .noLast hflag h
  | lookup => exact .lookup
  | lookupFails _ hret => exact absurd hret (Nat.not_lt_zero _)
  | lookupCrashes => exact .lookupCrashes
  | read => exact .read
  | readFails => exact .readFails
  | write h =>
    rw [SharedData.sizes_append, Buffer.slice_length]
    exact .write h
  | writeLast h =>
    rw [SharedData.sizes_append, Buffer.slice_length]
    exact .writeLast h
  | writeFails => exact .writeFails
  | setError => exact .setError
  | destroy => exact .destroy
  | destroyCrashes => exact .destroyCrashes

/-- **Forgetting the bytes leaves the process of sizes.** -/
theorem dataProcess_refines (src : CopySource) :
    (dataProcess src).Refines (copyProcess src.bs src.size) (fun _ => True)
      DataProcess.sizes := by
  refine ⟨fun _ _ _ _ => trivial, ?_, ?_⟩
  · rintro _ rfl
    exact ⟨trivial, rfl⟩
  · rintro _ _ - (h | ⟨ht, -, h⟩)
    · exact .single (.thread h.sizes)
    · exact .single (.poll ht h)

end Sizes

/-! ## The invariant of the bytes -/

theorem PollStep.intFlag_mono {size : Nat} {t : ThreadPc} {sh sh' : Shared} {m m' : PollPc}
    (h : PollStep size t sh m sh' m') (hset : sh.intFlag = true) : sh'.intFlag = true := by
  cases h with
  | setFlag => rfl
  | _ => exact hset

namespace CopySource

/-- The environment of a copy that goes through. -/
def undisturbed (src : CopySource) : CopyEnv :=
  ⟨true, src.metaFails, fun _ => true, fun _ => true, none⟩

/-- `addr` says where lookups lead to, and blocks are whole sectors. -/
structure Readable (src : CopySource) (addr : Nat → Nat) : Prop where
  input : CopyInput src.undisturbed src.part src.sb src.inode addr
  sectors : WholeSectors src.part src.sb

/-- The blocks that lookups lead to. -/
def bytesAt (src : CopySource) (addr : Nat → Nat) : List UInt8 :=
  fileContent src.part src.bs addr src.size

/-- The content of the file, by its inode and the device. -/
noncomputable def content (src : CopySource) : List UInt8 :=
  storedContent src.part src.sb src.inode

/-- A file without holes, where the mapper can read what it needs. -/
structure Whole (src : CopySource) : Prop where
  file : WholeFile src.part src.sb src.inode
  reads : src.metaFails = noFails

/-- The mapper after the lookups of the first `k` blocks. -/
def Mapped (src : CopySource) (k : Nat) (blk : Blocks) : Prop :=
  (Blocks.new src.part src.sb src.inode).before src.metaFails k = .ok blk

/-- The first `k` blocks are written. -/
def Cut (src : CopySource) (addr : Nat → Nat) (k : Nat) (sh : SharedData) : Prop :=
  sh.dest = (src.bytesAt addr).take (k * src.bs)

/-- What the destructor may find, and what is written by then. Without a lookup the
flag is what stopped the copy. -/
def Stopped (src : CopySource) (addr : Nat → Nat) (sh : SharedData) (blk : Blocks) : Prop :=
  sh.dest <+: src.bytesAt addr ∧
    ∃ k, k ≤ fileBlocks src.bs src.size ∧ src.Mapped k blk ∧
      (k = 0 → sh.dest = [] ∧ sh.intFlag = true)

end CopySource

def DataOk (src : CopySource) (addr : Nat → Nat) (sh : SharedData) : DataPc → Prop
  | .start | .openInode => sh.dest = []
  | .test i st | .lookup i st =>
    src.size ≠ 0 ∧ i ≤ src.last ∧ src.Mapped i st.blk ∧ src.Cut addr i sh
  | .read i st => src.size ≠ 0 ∧ i ≤ src.last ∧ src.Mapped (i + 1) st.blk ∧
      src.Cut addr i sh ∧ st.nrBlk = addr i
  | .write i st buffer => src.size ≠ 0 ∧ i ≤ src.last ∧ src.Mapped (i + 1) st.blk ∧
      src.Cut addr i sh ∧ buffer = src.part.block src.bs (addr i)
  | .lastTest st => src.size ≠ 0 ∧ ∃ i, i ≤ src.last ∧ src.Mapped i st.blk ∧
      src.Cut addr i sh ∧ (i = src.last ∨ sh.intFlag = true)
  | .setError blk | .destroy blk => src.Stopped addr sh blk
  | .finished => sh.dest <+: src.bytesAt addr
  | .crashed => src.inode.iFlags &&& ext4ExtentsFl ≠ 0 ∧ sh.intFlag = true ∧ sh.dest = []

section Bytes

variable {src : CopySource} {addr : Nat → Nat} {sh sh' : SharedData} {t t' : DataPc}

theorem CopySource.Cut.begins {k : Nat} (h : src.Cut addr k sh) :
    sh.dest <+: src.bytesAt addr := h ▸ List.take_prefix _ _

theorem CopySource.Cut.nil (h : src.Cut addr 0 sh) : sh.dest = [] := by
  rw [h, Nat.zero_mul, List.take_zero]

theorem DataOk.poll_step (hok : DataOk src addr sh t) (hdest : sh'.dest = sh.dest)
    (hflag : sh.intFlag = true → sh'.intFlag = true) : DataOk src addr sh' t := by
  have hcut : ∀ k, src.Cut addr k sh → src.Cut addr k sh' := fun k h => hdest.trans h
  cases t with
  | start => exact hdest.trans hok
  | openInode => exact hdest.trans hok
  | test => exact ⟨hok.1, hok.2.1, hok.2.2.1, hcut _ hok.2.2.2⟩
  | lookup => exact ⟨hok.1, hok.2.1, hok.2.2.1, hcut _ hok.2.2.2⟩
  | read => exact ⟨hok.1, hok.2.1, hok.2.2.1, hcut _ hok.2.2.2.1, hok.2.2.2.2⟩
  | write => exact ⟨hok.1, hok.2.1, hok.2.2.1, hcut _ hok.2.2.2.1, hok.2.2.2.2⟩
  | lastTest =>
    obtain ⟨hne, i, hi, hmap, hat, hwhy⟩ := hok
    exact ⟨hne, i, hi, hmap, hcut i hat, hwhy.imp_right hflag⟩
  | setError =>
    obtain ⟨hbegin, k, hk, hmap, hzero⟩ := hok
    exact ⟨hdest ▸ hbegin, k, hk, hmap,
      fun h => ⟨hdest.trans (hzero h).1, hflag (hzero h).2⟩⟩
  | destroy =>
    obtain ⟨hbegin, k, hk, hmap, hzero⟩ := hok
    exact ⟨hdest ▸ hbegin, k, hk, hmap,
      fun h => ⟨hdest.trans (hzero h).1, hflag (hzero h).2⟩⟩
  | finished =>
    show sh'.dest <+: src.bytesAt addr
    rw [hdest]
    exact hok
  | crashed => exact ⟨hok.1, hflag hok.2.1, hdest.trans hok.2.2⟩

variable (hr : src.Readable addr)
include hr

theorem CopySource.Readable.bs_pos : 0 < src.bs := hr.input.blockSize_pos

theorem CopySource.Readable.last_eq (hne : src.size ≠ 0) :
    src.last + 1 = fileBlocks src.bs src.size :=
  (hr.input.blocks (Nat.pos_of_ne_zero hne)).1

theorem CopySource.Readable.lookup (hne : src.size ≠ 0) {i : Nat} (hi : i ≤ src.last)
    {blk : Blocks} (hmap : src.Mapped i blk) :
    ∃ blk', blk.getExt2BlkNr src.metaFails i = .ok (.at (addr i), blk') ∧
      src.Mapped (i + 1) blk' := by
  have hlt : i < fileBlocks src.bs src.size := by
    rw [← hr.last_eq hne]
    exact Nat.lt_succ_of_le hi
  obtain ⟨b₁, b₂, hb₁, hcall, hb₂⟩ := Blocks.lookup_ok (hr.input.lookup hlt)
  obtain rfl : b₁ = blk := Except.ok.inj (hb₁.symm.trans hmap)
  exact ⟨b₂, hcall, hb₂⟩

theorem CopySource.Readable.readBlock (a : Nat) :
    src.readBlock a = some (src.part.block src.bs a) := hr.sectors.readSectorsEx a

omit hr in
theorem CopySource.Cut.append {i r : Nat} (hcut : src.Cut addr i sh)
    (hi : i < fileBlocks src.bs src.size) (hle : r ≤ src.bs) (h : i * src.bs + r ≤ src.size) :
    sh.dest ++ (src.part.block src.bs (addr i)).slice 0 r =
      (src.bytesAt addr).take (i * src.bs + r) := by
  have hzero := fileContent_take src.part addr hi (Nat.zero_le src.bs) (by omega)
  have hrest := fileContent_take src.part addr hi hle h
  rw [hcut, CopySource.bytesAt, hrest, ← Nat.add_zero (i * src.bs), hzero]
  simp [Buffer.slice]

theorem CopySource.Cut.write (hne : src.size ≠ 0) {i : Nat} (hi : i < src.last)
    (hcut : src.Cut addr i sh) : src.Cut addr (i + 1)
      { sh with dest := sh.dest ++ (src.part.block src.bs (addr i)).slice 0 src.bs } := by
  have hlast := hr.last_eq hne
  have hend : (i + 1) * src.bs < src.size := mul_lt_of_lt_fileBlocks hr.bs_pos (by omega)
  rw [Nat.succ_mul] at hend
  have happ := hcut.append (by omega) (Nat.le_refl src.bs) (Nat.le_of_lt hend)
  rw [CopySource.Cut, Nat.succ_mul]
  exact happ

theorem CopySource.Cut.writeLast (hne : src.size ≠ 0) (hcut : src.Cut addr src.last sh) :
    sh.dest ++ (src.part.block src.bs (addr src.last)).slice 0 (offsetMax src.bs src.size) =
      src.bytesAt addr := by
  have hlast := hr.last_eq hne
  obtain ⟨hsum, -, hle⟩ :=
    offsetMax_eq hr.bs_pos src.sb.blockSize_le (Nat.pos_of_ne_zero hne) hr.input.size
  rw [← show src.last = fileBlocks src.bs src.size - 1 by omega] at hsum
  rw [hcut.append (by omega) hle (Nat.le_of_eq hsum), hsum]
  exact List.take_of_length_le (Nat.le_of_eq (fileContent_length hr.bs_pos))

theorem DataOk.thread_step (hok : DataOk src addr sh t) (h : DataStep src sh t sh' t') :
    DataOk src addr sh' t' := by
  cases h with
  | clearError => exact hok
  | empty =>
    have hnil : sh.dest = [] := hok
    show sh.dest <+: _
    rw [hnil]
    exact List.nil_prefix
  | divByZero _ hbs => exact absurd hbs (Nat.ne_of_gt hr.bs_pos)
  | nonempty h _ =>
    refine ⟨fun hsize => h (src.size_eq_zero_iff.mp hsize), Nat.zero_le _, rfl, ?_⟩
    rw [CopySource.Cut, Nat.zero_mul, List.take_zero]
    exact hok
  | enter => exact hok
  | @leave i _ hwhy =>
    obtain ⟨hne, hi, hmap, hcut⟩ := hok
    exact ⟨hne, i, hi, hmap, hcut, hwhy.imp_left (Nat.le_antisymm hi)⟩
  | interrupted hflag =>
    obtain ⟨hne, i, hi, hmap, hcut, -⟩ := hok
    have hlast := hr.last_eq hne
    refine ⟨hcut.begins, i, by omega, hmap, ?_⟩
    rintro rfl
    exact ⟨hcut.nil, hflag⟩
  | enterLast hflag _ =>
    obtain ⟨hne, i, hi, hmap, hcut, hlast | hset⟩ := hok
    · rw [← hlast]
      exact ⟨hne, hi, hmap, hcut⟩
    · exact absurd (hflag.symm.trans hset) Bool.false_ne_true
  | noLast _ hoff =>
    have hpos := (lastBlock_ends hr.input.size src.sb.blockSize_le hok.1).2
    exact absurd hoff (Nat.ne_of_gt hpos)
  | lookup h _ =>
    obtain ⟨hne, hi, hmap, hcut⟩ := hok
    obtain ⟨blk', hcall, hmap'⟩ := hr.lookup hne hi hmap
    cases hcall.symm.trans h
    exact ⟨hne, hi, hmap', hcut, rfl⟩
  | lookupFails _ hret => exact absurd hret (Nat.not_lt_zero _)
  | lookupCrashes h =>
    obtain ⟨hne, hi, hmap, -⟩ := hok
    obtain ⟨blk', hcall, -⟩ := hr.lookup hne hi hmap
    cases hcall.symm.trans h
  | read h =>
    obtain ⟨hne, hi, hmap, hcut, haddr⟩ := hok
    rw [haddr, hr.readBlock, Option.some.injEq] at h
    exact ⟨hne, hi, hmap, hcut, h.symm⟩
  | @readFails i =>
    obtain ⟨hne, hi, hmap, hcut, -⟩ := hok
    have hlast := hr.last_eq hne
    exact ⟨hcut.begins, i + 1, by omega, hmap, fun h => absurd h (Nat.succ_ne_zero i)⟩
  | write hlt =>
    obtain ⟨hne, -, hmap, hcut, rfl⟩ := hok
    exact ⟨hne, hlt, hmap, hcut.write hr hne hlt⟩
  | @writeLast i _ _ hge =>
    obtain ⟨hne, hi, hmap, hcut, rfl⟩ := hok
    have heq : i = src.last := Nat.le_antisymm hi hge
    have hlast := hr.last_eq hne
    rw [heq] at hcut hmap ⊢
    exact ⟨⟨[], (List.append_nil _).trans (hcut.writeLast hr hne)⟩, src.last + 1, by omega, hmap,
      fun h => absurd h (Nat.succ_ne_zero _)⟩
  | @writeFails i =>
    obtain ⟨hne, hi, hmap, hcut, -⟩ := hok
    have hlast := hr.last_eq hne
    exact ⟨hcut.begins, i + 1, by omega, hmap, fun h => absurd h (Nat.succ_ne_zero i)⟩
  | setError => exact hok
  | destroy => exact hok.1
  | destroyCrashes hfault =>
    obtain ⟨-, k, hk, hmap, hzero⟩ := hok
    have hanswers : ∀ i < k, (Blocks.new src.part src.sb src.inode).lookup src.metaFails i =
        .ok (.at (addr i)) := fun i hi => hr.input.lookup (Nat.lt_of_lt_of_le hi hk)
    rw [Blocks.flush_before rfl hanswers hmap] at hfault
    split at hfault
    next hcrash => exact ⟨hcrash.1, (hzero hcrash.2).2, (hzero hcrash.2).1⟩
    next => cases hfault

end Bytes

theorem DataOk.stable {src : CopySource} {addr : Nat → Nat} (hr : src.Readable addr) :
    (dataProcess src).Stable fun s => DataOk src addr s.sh s.thread := by
  rintro _ _ hok (h | ⟨_, hdest, h⟩)
  · exact hok.thread_step hr h
  · exact hok.poll_step hdest fun hset => h.intFlag_mono hset

theorem DataOk.begins {src : CopySource} {addr : Nat → Nat} {sh : SharedData} {t : DataPc}
    (hok : DataOk src addr sh t) : sh.dest <+: src.bytesAt addr := by
  have hnil : sh.dest = [] → sh.dest <+: src.bytesAt addr := fun h => h ▸ List.nil_prefix
  cases t with
  | start => exact hnil hok
  | openInode => exact hnil hok
  | test => exact hok.2.2.2.begins
  | lookup => exact hok.2.2.2.begins
  | read => exact hok.2.2.2.1.begins
  | write => exact hok.2.2.2.1.begins
  | lastTest =>
    obtain ⟨-, i, -, -, hcut, -⟩ := hok
    exact hcut.begins
  | setError => exact hok.1
  | destroy => exact hok.1
  | finished => exact hok
  | crashed => exact hnil hok.2.2

/-! ## What the destination holds -/

section Delivery

variable {src : CopySource} {addr : Nat → Nat} (hr : src.Readable addr) {s : DataProcess}
    (hs : (dataProcess src).Reachable s)
include hr hs

theorem dataOk_reachable : DataOk src addr s.sh s.thread := by
  refine (DataOk.stable hr).reachable (fun s hs => ?_) hs
  cases hs
  rfl

theorem dest_begins : s.sh.dest <+: src.bytesAt addr := (dataOk_reachable hr hs).begins

theorem dest_of_size (hsize : s.sizes.sh.destSize = src.size) : s.sh.dest = src.bytesAt addr :=
  (dest_begins hr hs).eq_of_length (hsize.trans (fileContent_length hr.bs_pos).symm)

theorem dest_whole (hret : s.poll = .returned .ok) {s' : DataProcess}
    (hrun : (dataProcess src).Run s s') : s'.sh.dest = src.bytesAt addr := by
  have hrefines := dataProcess_refines src
  have hstable := CopyOk.stable (lastFits hr.input.size src.sb.blockSize_le)
  have hok := hstable.run (hstable.reachable (fun _ => CopyOk.start) (hrefines.reachable hs))
    (hrefines.run trivial hrun)
  have hpoll := hok.poll
  rw [(returned_stable .ok).run (s := s.sizes) hret (hrefines.run trivial hrun)] at hpoll
  obtain ⟨s₀, hs₀, hrun₀⟩ := hs
  exact dest_of_size hr ⟨s₀, hs₀, hrun₀.trans hrun⟩ (hpoll.2 rfl).2.1

theorem dest_finished (hfin : s.thread.place = .finished) :
    s.sh.dest = src.bytesAt addr ∨ s.sh.error ≠ 0 := by
  have hsizes := (CopyOk.stable (lastFits hr.input.size src.sb.blockSize_le)).reachable
    (fun _ => CopyOk.start) ((dataProcess_refines src).reachable hs)
  have hthread := hsizes.thread
  rw [show s.sizes.thread = .finished from hfin] at hthread
  by_cases herr : s.sh.error = 0
  · exact .inl (dest_of_size hr hs (hthread.whole hr.input.size src.sb.blockSize_le herr))
  · exact .inr herr

theorem crashed_before_lookup (hcrashed : s.thread.place = .crashed) :
    src.inode.iFlags &&& ext4ExtentsFl ≠ 0 ∧ s.sh.intFlag = true ∧ s.sh.dest = [] := by
  have hat := dataOk_reachable hr hs
  generalize s.thread = t at hat hcrashed
  cases t with
  | crashed => exact hat
  | _ => cases hcrashed

end Delivery

/-- **A file without holes is readable**, and what the lookups lead to is its content. -/
theorem CopySource.Whole.readable {src : CopySource} (h : src.Whole) :
    ∃ addr, src.Readable addr ∧ src.bytesAt addr = src.content :=
  ⟨_, ⟨h.file.copyInput h.reads, h.file.wholeSectors⟩, h.file.fileContent_eq⟩

theorem CopySource.Whole.delivered {src : CopySource} (h : src.Whole) {s s' : DataProcess}
    (hs : (dataProcess src).Reachable s) (hret : s.poll = .returned .ok)
    (hrun : (dataProcess src).Run s s') : s'.sh.dest = src.content := by
  obtain ⟨addr, hr, hcontent⟩ := h.readable
  exact hcontent ▸ dest_whole hr hs hret hrun

/-- What the destination holds, whatever the order of steps. -/
structure Delivers (src : CopySource) : Prop where
  /-- Nothing but the beginning of the file is ever there. -/
  cut : ∀ s, (dataProcess src).Reachable s → s.sh.dest <+: src.content
  /-- `FS_FILE_OK` stands for the whole content, now and later. -/
  whole : ∀ s, (dataProcess src).Reachable s → s.poll = .returned .ok →
    ∀ s', (dataProcess src).Run s s' → s'.sh.dest = src.content
  /-- A thread that ends on its own has written all of it, or says so. -/
  own : ∀ s, (dataProcess src).Reachable s → s.thread.place = .finished →
    s.sh.dest = src.content ∨ s.sh.error ≠ 0
  /-- Only the destructor of a copy that never looked a block up runs into a fault. -/
  crash : ∀ s, (dataProcess src).Reachable s → s.thread.place = .crashed →
    src.inode.iFlags &&& ext4ExtentsFl ≠ 0 ∧ s.sh.intFlag = true ∧ s.sh.dest = []

end Ext4tc.Plugin
