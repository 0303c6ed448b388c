import Ext4tc.DiskUtils.ReadFileRuns
import Ext4tc.Lib.Transition

/-! # The copy thread and the poll loop

`FsGetFile` starts `copy_thread_subroutine` and then watches the size of the
destination: completion is a size, not the end of the thread. Both are step
relations over the destination and the words `error` and `int_flag` of `params`.
The thread's relation leaves open what lookups, reads and writes do, so it covers
every run of `read_file`. The invariant is that the size is one of block ends,
that it is the whole file only once nothing but the destructor is left, and that
an error is set only while something is missing. -/

namespace Ext4tc.Plugin
open Ext4tc.Lib Ext4tc.Fs Ext4tc.DiskUtils

structure Shared where
  destSize : Nat
  handleOpen : Bool
  error : Int
  intFlag : Bool

/-- Where the thread is. The loop body and the last block are one piece of code
here: `block i` is the last block when `i` is `n_blocks - 1`. -/
inductive ThreadPc where
  | start
  | openInode
  | test (i : Nat)
  | lookup (i : Nat)
  | read (i : Nat)
  | write (i : Nat)
  | lastTest
  | setError
  | destroy
  | finished
  | crashed
  deriving DecidableEq

/-- `read_file` on a file of `size` bytes in blocks of `bs`, with a valid handle and
an inode that is found. A lookup or the destructor may run into a NULL pointer. -/
inductive ThreadStep (bs size : Nat) : Shared → ThreadPc → Shared → ThreadPc → Prop
  | clearError {sh} : ThreadStep bs size sh .start { sh with error := 0 } .openInode
  | empty {sh} (h : size = 0) : ThreadStep bs size sh .openInode sh .finished
  | divByZero {sh} (h : size ≠ 0) (hbs : bs = 0) : ThreadStep bs size sh .openInode sh .crashed
  | nonempty {sh} (h : size ≠ 0) (hbs : bs ≠ 0) : ThreadStep bs size sh .openInode sh (.test 0)
  | enter {sh i} (h : i < lastBlock bs size) (hflag : sh.intFlag = false) :
      ThreadStep bs size sh (.test i) sh (.lookup i)
  | leave {sh i} (h : lastBlock bs size ≤ i ∨ sh.intFlag = true) :
      ThreadStep bs size sh (.test i) sh .lastTest
  | interrupted {sh} (hflag : sh.intFlag = true) : ThreadStep bs size sh .lastTest sh .setError
  | enterLast {sh} (hflag : sh.intFlag = false) (h : 0 < offsetMax bs size) :
      ThreadStep bs size sh .lastTest sh (.lookup (lastBlock bs size))
  | noLast {sh} (hflag : sh.intFlag = false) (h : offsetMax bs size = 0) :
      ThreadStep bs size sh .lastTest sh .destroy
  | lookup {sh i} : ThreadStep bs size sh (.lookup i) sh (.read i)
  | lookupCrashes {sh i} : ThreadStep bs size sh (.lookup i) sh .crashed
  | read {sh i} : ThreadStep bs size sh (.read i) sh (.write i)
  | readFails {sh i} : ThreadStep bs size sh (.read i) sh .setError
  | write {sh i} (h : i < lastBlock bs size) :
      ThreadStep bs size sh (.write i) { sh with destSize := sh.destSize + bs } (.test (i + 1))
  | writeLast {sh i} (h : lastBlock bs size ≤ i) : ThreadStep bs size sh (.write i)
      { sh with destSize := sh.destSize + offsetMax bs size } .destroy
  | writeFails {sh i} : ThreadStep bs size sh (.write i) sh .setError
  | setError {sh} : ThreadStep bs size sh .setError { sh with error := -1 } .destroy
  | destroy {sh} : ThreadStep bs size sh .destroy sh .finished
  | destroyCrashes {sh} : ThreadStep bs size sh .destroy sh .crashed

/-- `FS_FILE_OK`, `FS_FILE_READERROR` and `FS_FILE_USERABORT`. -/
inductive FsFile where
  | ok
  | readError
  | userAbort
  deriving DecidableEq

/-- Where `FsGetFile` is, from the creation of the thread on. `pos` is the size it
polled, and `abort` to `close` are the statements of its two early returns. -/
inductive PollPc where
  | poll
  | checkError (pos : Nat)
  | progress (pos : Nat)
  | abort (code : FsFile)
  | wait (code : FsFile)
  | close (code : FsFile)
  | closeFirst
  | waitLast
  | returned (code : FsFile)
  deriving DecidableEq

/-- `FsGetFile`: the size is polled before the error is looked at, and on success the
handle is closed before the thread is waited for. -/
inductive PollStep (size : Nat) (thread : ThreadPc) : Shared → PollPc → Shared → PollPc → Prop
  | sizeFails {sh} : PollStep size thread sh .poll sh (.abort .readError)
  | size {sh} : PollStep size thread sh .poll sh (.checkError sh.destSize)
  | error {sh pos} (h : sh.error ≠ 0) :
      PollStep size thread sh (.checkError pos) sh (.abort .readError)
  | done {sh pos} (h : sh.error = 0) (hpos : size ≤ pos) :
      PollStep size thread sh (.checkError pos) sh .closeFirst
  | more {sh pos} (h : sh.error = 0) (hpos : pos < size) :
      PollStep size thread sh (.checkError pos) sh (.progress pos)
  | goOn {sh pos} : PollStep size thread sh (.progress pos) sh .poll
  | userAbort {sh pos} : PollStep size thread sh (.progress pos) sh (.abort .userAbort)
  | setFlag {sh code} : PollStep size thread sh
      (.abort code) { sh with intFlag := true } (.wait code)
  | waited {sh code} (h : thread = .finished) : PollStep size thread sh (.wait code) sh
      (.close code)
  | closed {sh code} :
      PollStep size thread sh (.close code) { sh with handleOpen := false } (.returned code)
  | closedFirst {sh} : PollStep size thread sh .closeFirst { sh with handleOpen := false } .waitLast
  | waitedLast {sh} (h : thread = .finished) : PollStep size thread sh .waitLast sh (.returned .ok)

structure CopyProcess where
  sh : Shared
  thread : ThreadPc
  poll : PollPc

/-- A step of either party. A crash is the end of the process. -/
inductive CopyProcess.Step (bs size : Nat) : CopyProcess → CopyProcess → Prop
  | thread {sh sh' t t' m} (h : ThreadStep bs size sh t sh' t') :
      CopyProcess.Step bs size ⟨sh, t, m⟩ ⟨sh', t', m⟩
  | poll {sh sh' t m m'} (ht : t ≠ .crashed) (h : PollStep size t sh m sh' m') :
      CopyProcess.Step bs size ⟨sh, t, m⟩ ⟨sh', t, m'⟩

/-- `CREATE_ALWAYS` leaves an empty destination, and `params` is zeroed. -/
def copyStart : Shared := ⟨0, true, 0, false⟩

def copyProcess (bs size : Nat) : TransitionSystem CopyProcess where
  start s := s = ⟨copyStart, .start, .poll⟩
  step := CopyProcess.Step bs size

/-! ## The invariant -/

/-- What a copy that goes through writes. -/
def copiedBytes (bs size : Nat) : Nat :=
  if size = 0 then 0 else lastBlock bs size * bs + offsetMax bs size

/-- The last block has bytes, and none of them is behind the end of the file. -/
def LastFits (bs size : Nat) : Prop :=
  size ≠ 0 → bs ≠ 0 ∧ 0 < offsetMax bs size ∧ copiedBytes bs size ≤ size

/-- What holds of the shared words at each place of the thread. -/
def ThreadOk (bs size : Nat) (sh : Shared) : ThreadPc → Prop
  | .start | .openInode => sh.destSize = 0 ∧ sh.error = 0
  | .test i | .lookup i | .read i | .write i =>
    size ≠ 0 ∧ i ≤ lastBlock bs size ∧ sh.destSize = i * bs ∧ sh.error = 0
  | .lastTest => size ≠ 0 ∧ sh.error = 0 ∧
      ∃ i, i ≤ lastBlock bs size ∧ sh.destSize = i * bs ∧
        (i = lastBlock bs size ∨ sh.intFlag = true)
  | .setError => sh.destSize < copiedBytes bs size ∧ sh.error = 0
  | .destroy | .finished => sh.error = 0 ∧ sh.destSize = copiedBytes bs size ∨
      sh.error ≠ 0 ∧ sh.destSize < copiedBytes bs size
  | .crashed => True

/-- Nothing is missing, and nothing is left to write or to report. -/
def Complete (size : Nat) (sh : Shared) (t : ThreadPc) : Prop :=
  sh.error = 0 ∧ sh.destSize = size ∧
    (t = .destroy ∨ t = .finished ∨ t = .crashed ∨ size = 0 ∧ (t = .start ∨ t = .openInode))

/-- What holds at each place of `FsGetFile`. -/
def PollOk (size : Nat) (sh : Shared) (t : ThreadPc) : PollPc → Prop
  | .poll | .progress _ => sh.handleOpen = true
  | .checkError pos => sh.handleOpen = true ∧ pos ≤ sh.destSize
  | .abort code => sh.handleOpen = true ∧ code ≠ .ok
  | .wait code => sh.handleOpen = true ∧ code ≠ .ok
  | .close code => t = .finished ∧ code ≠ .ok
  | .closeFirst | .waitLast => Complete size sh t
  | .returned code => t = .finished ∧ (code = .ok → Complete size sh t)

structure CopyOk (bs size : Nat) (s : CopyProcess) : Prop where
  thread : ThreadOk bs size s.sh s.thread
  poll : PollOk size s.sh s.thread s.poll

/-! ## Steps of the thread -/

section Thread

variable {bs size : Nat} {sh sh' : Shared} {t t' : ThreadPc}

theorem copiedBytes_of_ne (hne : size ≠ 0) :
    copiedBytes bs size = lastBlock bs size * bs + offsetMax bs size := if_neg hne

theorem lastBlock_ends (h : size ≤ 2 ^ 32 * bs) (hbs : bs ≤ 2 ^ 31) (hne : size ≠ 0) :
    lastBlock bs size * bs + offsetMax bs size = size ∧ 0 < offsetMax bs size := by
  have hpos : 0 < bs := by
    rcases Nat.eq_zero_or_pos bs with rfl | hpos
    · omega
    · exact hpos
  obtain ⟨hsum, hoff, -⟩ := offsetMax_eq hpos hbs (Nat.pos_of_ne_zero hne) h
  rw [lastBlock_eq hpos hbs (Nat.pos_of_ne_zero hne) h]
  exact ⟨hsum, hoff⟩

/-- Of a size that 32-bit block numbers reach everything is written. -/
theorem copiedBytes_eq (h : size ≤ 2 ^ 32 * bs) (hbs : bs ≤ 2 ^ 31) :
    copiedBytes bs size = size := by
  by_cases hne : size = 0
  · rw [copiedBytes, if_pos hne, hne]
  · rw [copiedBytes_of_ne hne]
    exact (lastBlock_ends h hbs hne).1

theorem lastFits (h : size ≤ 2 ^ 32 * bs) (hbs : bs ≤ 2 ^ 31) : LastFits bs size := by
  intro hne
  refine ⟨?_, (lastBlock_ends h hbs hne).2, Nat.le_of_eq (copiedBytes_eq h hbs)⟩
  rintro rfl
  omega

theorem block_lt (hfits : LastFits bs size) (hne : size ≠ 0) {i : Nat}
    (hi : i ≤ lastBlock bs size) : i * bs < copiedBytes bs size := by
  obtain ⟨-, hoff, -⟩ := hfits hne
  have := Nat.mul_le_mul_right bs hi
  rw [copiedBytes_of_ne hne]
  omega

theorem ThreadOk.step (hfits : LastFits bs size) (hok : ThreadOk bs size sh t)
    (hstep : ThreadStep bs size sh t sh' t') : ThreadOk bs size sh' t' := by
  cases hstep with
  | clearError => exact ⟨hok.1, rfl⟩
  | empty hsize => exact .inl ⟨hok.2, hok.1.trans (if_pos hsize).symm⟩
  | divByZero hsize hbs => exact absurd hbs (hfits hsize).1
  | nonempty hsize _ => exact ⟨hsize, Nat.zero_le _, by rw [hok.1, Nat.zero_mul], hok.2⟩
  | enter hi _ => exact hok
  | leave hwhy =>
    obtain ⟨hne, hi, hdest, herr⟩ := hok
    exact ⟨hne, herr, _, hi, hdest, hwhy.imp_left fun hge => Nat.le_antisymm hi hge⟩
  | interrupted _ =>
    obtain ⟨hne, herr, i, hi, hdest, -⟩ := hok
    exact ⟨hdest ▸ block_lt hfits hne hi, herr⟩
  | enterLast hflag _ =>
    obtain ⟨hne, herr, i, hi, hdest, hlast | hset⟩ := hok
    · rw [← hlast]
      exact ⟨hne, hi, hdest, herr⟩
    · exact absurd (hflag.symm.trans hset) Bool.false_ne_true
  | noLast _ hoff => exact absurd hoff (Nat.ne_of_gt (hfits hok.1).2.1)
  | lookup => exact hok
  | lookupCrashes => trivial
  | read => exact hok
  | readFails => exact ⟨hok.2.2.1 ▸ block_lt hfits hok.1 hok.2.1, hok.2.2.2⟩
  | @write i hlt =>
    obtain ⟨hne, hi, hdest, herr⟩ := hok
    exact ⟨hne, hlt, (congrArg (· + bs) hdest).trans (Nat.succ_mul i bs).symm, herr⟩
  | @writeLast i hge =>
    obtain ⟨hne, hi, hdest, herr⟩ := hok
    refine .inl ⟨herr, ?_⟩
    rw [copiedBytes_of_ne hne, ← Nat.le_antisymm hi hge, ← hdest]
  | writeFails => exact ⟨hok.2.2.1 ▸ block_lt hfits hok.1 hok.2.1, hok.2.2.2⟩
  | setError => exact .inr ⟨show (-1 : Int) ≠ 0 by decide, hok.1⟩
  | destroy => exact hok
  | destroyCrashes => trivial

/-- The flag matters only where it explains why the loop was left. -/
theorem ThreadOk.setFlag (hok : ThreadOk bs size sh t) :
    ThreadOk bs size { sh with intFlag := true } t := by
  cases t with
  | lastTest =>
    obtain ⟨hne, herr, i, hi, hdest, -⟩ := hok
    exact ⟨hne, herr, i, hi, hdest, .inr rfl⟩
  | _ => exact hok

theorem copiedBytes_le (hfits : LastFits bs size) : copiedBytes bs size ≤ size := by
  by_cases hne : size = 0
  · rw [copiedBytes, if_pos hne]
    exact Nat.zero_le size
  · exact (hfits hne).2.2

/-- A size that is not short and no error: the thread has nothing left to do. -/
theorem ThreadOk.complete (hfits : LastFits bs size) (hok : ThreadOk bs size sh t)
    (ht : t ≠ .crashed) (herr : sh.error = 0) (hdest : size ≤ sh.destSize) :
    Complete size sh t := by
  have hle := copiedBytes_le hfits
  cases t with
  | start =>
    have hsize : size = 0 := by have := hok.1; omega
    exact ⟨herr, by rw [hok.1, hsize], .inr (.inr (.inr ⟨hsize, .inl rfl⟩))⟩
  | openInode =>
    have hsize : size = 0 := by have := hok.1; omega
    exact ⟨herr, by rw [hok.1, hsize], .inr (.inr (.inr ⟨hsize, .inr rfl⟩))⟩
  | lastTest =>
    obtain ⟨hne, -, i, hi, hat, -⟩ := hok
    exact absurd (block_lt hfits hne hi) (by omega)
  | setError => exact absurd hok.1 (by omega)
  | destroy =>
    obtain ⟨-, hsize⟩ | ⟨hne, -⟩ := hok
    · exact ⟨herr, by omega, .inl rfl⟩
    · exact absurd herr hne
  | finished =>
    obtain ⟨-, hsize⟩ | ⟨hne, -⟩ := hok
    · exact ⟨herr, by omega, .inr (.inl rfl)⟩
    · exact absurd herr hne
  | crashed => exact absurd rfl ht
  | _ =>
    obtain ⟨hne, hi, hat, -⟩ := hok
    exact absurd (block_lt hfits hne hi) (by omega)

theorem ThreadOk.whole (h : size ≤ 2 ^ 32 * bs) (hbs : bs ≤ 2 ^ 31)
    (hok : ThreadOk bs size sh .finished) (herr : sh.error = 0) : sh.destSize = size := by
  obtain ⟨-, hdest⟩ | ⟨hne, -⟩ := hok
  · exact hdest.trans (copiedBytes_eq h hbs)
  · exact absurd herr hne

theorem Complete.step (hc : Complete size sh t) (hstep : ThreadStep bs size sh t sh' t') :
    Complete size sh' t' := by
  obtain ⟨herr, hdest, rfl | rfl | rfl | ⟨hsize, rfl | rfl⟩⟩ := hc
  · cases hstep
    · exact ⟨herr, hdest, .inr (.inl rfl)⟩
    · exact ⟨herr, hdest, .inr (.inr (.inl rfl))⟩
  · cases hstep
  · cases hstep
  · cases hstep
    exact ⟨rfl, hdest, .inr (.inr (.inr ⟨hsize, .inr rfl⟩))⟩
  · cases hstep with
    | empty => exact ⟨herr, hdest, .inr (.inl rfl)⟩
    | divByZero hne => exact absurd hsize hne
    | nonempty hne => exact absurd hsize hne

/-- The thread neither opens nor closes the handle, and the destination only grows. -/
theorem ThreadStep.frame (hstep : ThreadStep bs size sh t sh' t') :
    sh'.handleOpen = sh.handleOpen ∧ sh.destSize ≤ sh'.destSize ∧ t ≠ .finished := by
  cases hstep with
  | write => exact ⟨rfl, Nat.le_add_right _ _, nofun⟩
  | writeLast => exact ⟨rfl, Nat.le_add_right _ _, nofun⟩
  | _ => exact ⟨rfl, Nat.le_refl _, nofun⟩

/-- What `FsGetFile` relies on is not disturbed by the thread. -/
theorem PollOk.thread_step {m : PollPc} (hok : PollOk size sh t m)
    (hstep : ThreadStep bs size sh t sh' t') : PollOk size sh' t' m := by
  obtain ⟨hopen, hgrows, hrunning⟩ := hstep.frame
  cases m with
  | poll => exact hopen.trans hok
  | progress => exact hopen.trans hok
  | checkError => exact ⟨hopen.trans hok.1, Nat.le_trans hok.2 hgrows⟩
  | abort => exact ⟨hopen.trans hok.1, hok.2⟩
  | wait => exact ⟨hopen.trans hok.1, hok.2⟩
  | close => exact absurd hok.1 hrunning
  | closeFirst => exact Complete.step hok hstep
  | waitLast => exact Complete.step hok hstep
  | returned => exact absurd hok.1 hrunning

/-- Where the handle is closed the thread is past its writes. -/
theorem PollOk.not_write {m : PollPc} (hok : PollOk size sh t m) (hclosed : sh.handleOpen = false)
    {i : Nat} : t ≠ .write i := by
  have hopen : sh.handleOpen ≠ true := by rw [hclosed]; exact Bool.false_ne_true
  rintro rfl
  cases m with
  | poll => exact hopen hok
  | progress => exact hopen hok
  | checkError => exact hopen hok.1
  | abort => exact hopen hok.1
  | wait => exact hopen hok.1
  | close => cases hok.1
  | closeFirst => obtain ⟨-, -, h | h | h | ⟨-, h | h⟩⟩ := hok <;> cases h
  | waitLast => obtain ⟨-, -, h | h | h | ⟨-, h | h⟩⟩ := hok <;> cases h
  | returned => cases hok.1

end Thread

/-! ## Steps of either party -/

section Process

variable {bs size : Nat}

/-- **Every step keeps the invariant.** -/
theorem CopyOk.stable (hfits : LastFits bs size) :
    (copyProcess bs size).Stable (CopyOk bs size) := by
  rintro _ _ ⟨hthread, hpoll⟩ (hstep | ⟨ht, hstep⟩)
  · exact ⟨hthread.step hfits hstep, hpoll.thread_step hstep⟩
  · cases hstep with
    | sizeFails => exact ⟨hthread, hpoll, nofun⟩
    | size => exact ⟨hthread, hpoll, Nat.le_refl _⟩
    | error => exact ⟨hthread, hpoll.1, nofun⟩
    | done herr hpos => exact ⟨hthread, hthread.complete hfits ht herr (Nat.le_trans hpos hpoll.2)⟩
    | more => exact ⟨hthread, hpoll.1⟩
    | goOn => exact ⟨hthread, hpoll⟩
    | userAbort => exact ⟨hthread, hpoll, nofun⟩
    | setFlag => exact ⟨hthread.setFlag, hpoll⟩
    | waited hdone => exact ⟨hthread, hdone, hpoll.2⟩
    | closed => exact ⟨hthread, hpoll.1, fun hcode => absurd hcode hpoll.2⟩
    | closedFirst => exact ⟨hthread, hpoll⟩
    | waitedLast hdone => exact ⟨hthread, hdone, fun _ => hpoll⟩

theorem CopyOk.start {s : CopyProcess} (hs : (copyProcess bs size).start s) : CopyOk bs size s := by
  cases hs
  exact ⟨⟨rfl, rfl⟩, rfl⟩

theorem returned_stable (code : FsFile) :
    (copyProcess bs size).Stable fun s => s.poll = .returned code := by
  rintro _ _ hs (_ | ⟨_, hstep⟩)
  · exact hs
  · cases hs
    cases hstep

end Process

/-- What `FsGetFile` may conclude from a size. -/
structure PollAgrees (bs size : Nat) : Prop where
  ok : ∀ s, (copyProcess bs size).Reachable s → s.poll = .returned .ok →
    ∀ s', (copyProcess bs size).Run s s' → s'.sh.destSize = size ∧ s'.sh.error = 0
  closed : ∀ s, (copyProcess bs size).Reachable s → s.sh.handleOpen = false →
    ∀ i, s.thread ≠ .write i
  finished : ∀ s, (copyProcess bs size).Reachable s → s.thread = .finished → s.sh.error = 0 →
    s.sh.intFlag = false → size ≤ s.sh.destSize

/-- **The size says enough**: success means the whole file and no error, now and
later; a closed handle is never written to; and a thread that ends without an error
and without being told to leaves nothing to wait for. -/
theorem poll_agrees_with_thread (sb : Ext4SuperBlock) (inode : Ext4Inode)
    (h : inode.size ≤ 2 ^ 32 * sb.blockSize) : PollAgrees sb.blockSize inode.size := by
  have hstable := CopyOk.stable (lastFits h sb.blockSize_le)
  refine ⟨?_, ?_, ?_⟩
  · intro s hs hret s' hrun
    have hok := hstable.run (hstable.reachable (fun _ => CopyOk.start) hs) hrun
    have hpoll := hok.poll
    rw [(returned_stable .ok).run hret hrun] at hpoll
    obtain ⟨herr, hdest, -⟩ := hpoll.2 rfl
    exact ⟨hdest, herr⟩
  · intro s hs hclosed i hwrite
    exact (hstable.reachable (fun _ => CopyOk.start) hs).poll.not_write hclosed hwrite
  · intro s hs hfin herr _
    obtain ⟨hthread, -⟩ := hstable.reachable (fun _ => CopyOk.start) hs
    rw [hfin] at hthread
    exact Nat.le_of_eq (hthread.whole h sb.blockSize_le herr).symm

theorem poll_agrees_with_thread_image : PollAgrees 4096 4096 :=
  poll_agrees_with_thread imageSb (imageInode 12) (by decide)

end Ext4tc.Plugin
