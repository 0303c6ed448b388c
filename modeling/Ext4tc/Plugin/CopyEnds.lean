import Ext4tc.DiskUtils.LastWrite
import Ext4tc.Lib.Progress
import Ext4tc.Plugin.CopyThread

/-! # The end of `FsGetFile`

The poll loop has no bound of its own: it asks for the size of the destination until that
is the size of the inode, or an error is set, or the user gives up. So that it ends rests
on the thread, which runs through its blocks at most once. A size that 32-bit block
numbers do not reach is never written, and then the loop goes on after the thread. -/

namespace Ext4tc.Plugin
open Ext4tc.Lib Ext4tc.Fs Ext4tc.DiskUtils

inductive Party where
  | thread
  | poll

inductive PartyStep (bs size : Nat) : Party → CopyProcess → CopyProcess → Prop
  | thread {sh sh' t t' m} (h : ThreadStep bs size sh t sh' t') :
      PartyStep bs size .thread ⟨sh, t, m⟩ ⟨sh', t', m⟩
  | poll {sh sh' t m m'} (ht : t ≠ .crashed) (h : PollStep size t sh m sh' m') :
      PartyStep bs size .poll ⟨sh, t, m⟩ ⟨sh', t, m'⟩

def copyParties (bs size : Nat) : PartySystem CopyProcess Party where
  start := (copyProcess bs size).start
  step := PartyStep bs size

def ThreadDone (s : CopyProcess) : Prop := s.thread = .finished ∨ s.thread = .crashed

/-- `FsGetFile` has returned, or a crash has ended the process. -/
def Ended (s : CopyProcess) : Prop := s.thread = .crashed ∨ ∃ code, s.poll = .returned code

theorem copyParties_stable {bs size : Nat} {I : CopyProcess → Prop}
    (h : (copyProcess bs size).Stable I) : (copyParties bs size).system.Stable I := by
  rintro s s' hs ⟨i, hstep⟩
  cases hstep with
  | thread hstep => exact h _ _ hs (.thread hstep)
  | poll ht hstep => exact h _ _ hs (.poll ht hstep)

/-! ## The thread -/

/-- An upper bound for the steps that the thread still has before it. -/
def threadRank (bs size : Nat) : ThreadPc → Nat
  | .start => 5 * lastBlock bs size + 9
  | .openInode => 5 * lastBlock bs size + 8
  | .test i => 5 * (lastBlock bs size - i) + 7
  | .lookup i => 5 * (lastBlock bs size - i) + 5
  | .read i => 5 * (lastBlock bs size - i) + 4
  | .write i => 5 * (lastBlock bs size - i) + 3
  | .lastTest => 6
  | .setError => 2
  | .destroy => 1
  | .finished | .crashed => 0

section Thread

variable {bs size : Nat} {sh sh' : Shared} {t t' : ThreadPc}

theorem ThreadStep.rank_lt (h : ThreadStep bs size sh t sh' t') :
    threadRank bs size t' < threadRank bs size t := by
  cases h <;> simp only [threadRank] <;> omega

theorem ThreadStep.exists_of_running (bs size : Nat) (sh : Shared) (hfinished : t ≠ .finished)
    (hcrashed : t ≠ .crashed) : ∃ sh' t', ThreadStep bs size sh t sh' t' := by
  cases t with
  | start => exact ⟨_, _, .clearError⟩
  | openInode =>
    by_cases hsize : size = 0
    · exact ⟨_, _, .empty hsize⟩
    · by_cases hbs : bs = 0
      · exact ⟨_, _, .divByZero hsize hbs⟩
      · exact ⟨_, _, .nonempty hsize hbs⟩
  | test i =>
    by_cases hleave : lastBlock bs size ≤ i ∨ sh.intFlag = true
    · exact ⟨_, _, .leave hleave⟩
    · obtain ⟨hi, hflag⟩ := not_or.mp hleave
      exact ⟨_, _, .enter (Nat.not_le.mp hi) (Bool.not_eq_true _ ▸ hflag)⟩
  | lookup i => exact ⟨_, _, .lookup⟩
  | read i => exact ⟨_, _, .read⟩
  | write i =>
    by_cases hi : i < lastBlock bs size
    · exact ⟨_, _, .write hi⟩
    · exact ⟨_, _, .writeLast (Nat.not_lt.mp hi)⟩
  | lastTest =>
    cases hflag : sh.intFlag with
    | true => exact ⟨_, _, .interrupted hflag⟩
    | false =>
      by_cases hoff : offsetMax bs size = 0
      · exact ⟨_, _, .noLast hflag hoff⟩
      · exact ⟨_, _, .enterLast hflag (Nat.pos_of_ne_zero hoff)⟩
  | setError => exact ⟨_, _, .setError⟩
  | destroy => exact ⟨_, _, .destroy⟩
  | finished => exact absurd rfl hfinished
  | crashed => exact absurd rfl hcrashed

theorem thread_lowers (bs size : Nat) :
    (copyParties bs size).Lowers .thread (fun s => threadRank bs size s.thread) (fun _ => True)
      ThreadDone where
  ready s _ hrunning := by
    obtain ⟨hfinished, hcrashed⟩ := not_or.mp hrunning
    obtain ⟨sh', t', hstep⟩ := ThreadStep.exists_of_running bs size s.sh hfinished hcrashed
    exact ⟨_, .thread (m := s.poll) hstep⟩
  own s s' _ _ hstep := by
    cases hstep with
    | thread hstep => exact .inr ⟨trivial, hstep.rank_lt⟩
  others i s s' _ _ hstep := by
    cases hstep with
    | thread hstep => exact .inr ⟨trivial, Nat.le_of_lt hstep.rank_lt⟩
    | poll _ _ => exact .inr ⟨trivial, Nat.le_refl _⟩

end Thread

/-! ## The poll loop after the thread -/

/-- An upper bound for the steps of `FsGetFile` once the thread has finished. A size that
was polled before that may send it round once more. -/
def pollRank (size : Nat) (s : CopyProcess) : Nat :=
  match s.poll with
  | .checkError pos => if s.sh.error = 0 ∧ pos < size then 7 else 4
  | .progress _ => 6
  | .poll => 5
  | .abort _ => 3
  | .wait _ | .closeFirst => 2
  | .close _ | .waitLast => 1
  | .returned _ => 0

section Poll

variable {bs size : Nat}

/-- What is left when the thread has finished. -/
def AfterThread (bs size : Nat) (s : CopyProcess) : Prop :=
  CopyOk bs size s ∧ s.thread = .finished

theorem PollStep.exists_of_finished (size : Nat) (sh : Shared) {m : PollPc}
    (h : ∀ code, m ≠ .returned code) : ∃ sh' m', PollStep size .finished sh m sh' m' := by
  cases m with
  | poll => exact ⟨_, _, .size⟩
  | checkError pos =>
    by_cases herr : sh.error = 0
    · by_cases hpos : size ≤ pos
      · exact ⟨_, _, .done herr hpos⟩
      · exact ⟨_, _, .more herr (Nat.not_le.mp hpos)⟩
    · exact ⟨_, _, .error herr⟩
  | progress pos => exact ⟨_, _, .goOn⟩
  | abort code => exact ⟨_, _, .setFlag⟩
  | wait code => exact ⟨_, _, .waited rfl⟩
  | close code => exact ⟨_, _, .closed⟩
  | closeFirst => exact ⟨_, _, .closedFirst⟩
  | waitLast => exact ⟨_, _, .waitedLast rfl⟩
  | returned code => exact absurd rfl (h code)

/-- A size that is polled after the thread is the last one. -/
theorem PollStep.rank_lt {sh sh' : Shared} {m m' : PollPc}
    (hdone : sh.error = 0 → sh.destSize = size) (h : PollStep size .finished sh m sh' m') :
    pollRank size ⟨sh', .finished, m'⟩ < pollRank size ⟨sh, .finished, m⟩ := by
  cases h with
  | size =>
    have hlast : ¬(sh.error = 0 ∧ sh.destSize < size) := by
      rintro ⟨herr, hlt⟩
      exact Nat.ne_of_lt hlt (hdone herr)
    simp only [pollRank, if_neg hlast]
    decide
  | error herr =>
    simp only [pollRank, herr, false_and, if_false]
    decide
  | done herr hpos =>
    simp only [pollRank, Nat.not_lt.mpr hpos, and_false, if_false]
    decide
  | more herr hpos =>
    simp only [pollRank, herr, hpos, and_self, if_true]
    decide
  | _ => simp [pollRank]

theorem poll_lowers (h : size ≤ 2 ^ 32 * bs) (hbs : bs ≤ 2 ^ 31) :
    (copyParties bs size).Lowers .poll (pollRank size) (AfterThread bs size) Ended := by
  have hstable := CopyOk.stable (lastFits h hbs)
  have hstep : ∀ i s s', AfterThread bs size s → (copyParties bs size).step i s s' →
      AfterThread bs size s' ∧ pollRank size s' < pollRank size s := by
    rintro i s s' ⟨hok, ht⟩ hstep
    cases hstep with
    | thread hstep =>
      obtain rfl := ht
      exact absurd rfl hstep.frame.2.2
    | poll hcrashed hstep =>
      have hok' := hstable _ _ hok (.poll hcrashed hstep)
      obtain rfl := ht
      exact ⟨⟨hok', rfl⟩, hstep.rank_lt (hok.thread.whole h hbs)⟩
  refine ⟨?_, ?_, ?_⟩
  · rintro ⟨sh, t, m⟩ ⟨-, rfl⟩ hended
    have hnot : ∀ code, m ≠ .returned code := fun code hm => hended (.inr ⟨code, hm⟩)
    obtain ⟨sh', m', hpoll⟩ := PollStep.exists_of_finished size sh hnot
    exact ⟨_, .poll nofun hpoll⟩
  · intro s s' hs _ hown
    exact .inr (hstep _ _ _ hs hown)
  · intro i s s' hs _ hother
    exact .inr ((hstep i _ _ hs hother).imp_right Nat.le_of_lt)

/-- **Every fair copy ends**, for sizes that 32-bit block numbers reach. -/
theorem copy_ends (h : size ≤ 2 ^ 32 * bs) (hbs : bs ≤ 2 ^ 31) {run : Nat → CopyProcess}
    (hrun : (copyParties bs size).FairRun run) : ∃ n, Ended (run n) := by
  obtain ⟨n, -, hdone⟩ :=
    hrun.toIsRun.comes_to (hrun.fair .thread) (thread_lowers bs size) (n := 0) trivial
  obtain hfinished | hcrashed := hdone
  · have hok : CopyOk bs size (run n) :=
      hrun.toIsRun.invariant (copyParties_stable (CopyOk.stable (lastFits h hbs)))
        (fun _ => CopyOk.start) n
    obtain ⟨m, -, hended⟩ := hrun.toIsRun.comes_to (hrun.fair .poll) (poll_lowers h hbs)
      (n := n) ⟨hok, hfinished⟩
    exact ⟨m, hended⟩
  · exact ⟨n, .inl hcrashed⟩

end Poll

/-! ## A copy that does not end -/

section Stall

variable {bs size : Nat}

/-- One step of a copy in which all goes well: the thread first, then the poll loop. -/
def stall (bs size : Nat) (s : CopyProcess) : CopyProcess :=
  match s.thread with
  | .start => { s with sh := { s.sh with error := 0 }, thread := .openInode }
  | .openInode => { s with thread := .test 0 }
  | .test i =>
    { s with thread := if i < lastBlock bs size then .lookup i else .lastTest }
  | .lastTest => { s with thread := .lookup (lastBlock bs size) }
  | .lookup i => { s with thread := .read i }
  | .read i => { s with thread := .write i }
  | .write i =>
    if i < lastBlock bs size then
      { s with sh := { s.sh with destSize := s.sh.destSize + bs }, thread := .test (i + 1) }
    else
      { s with
        sh := { s.sh with destSize := s.sh.destSize + offsetMax bs size }, thread := .destroy }
  | .destroy => { s with thread := .finished }
  | .setError | .crashed => s
  | .finished =>
    match s.poll with
    | .poll => { s with poll := .checkError s.sh.destSize }
    | .checkError pos => { s with poll := .progress pos }
    | .progress _ => { s with poll := .poll }
    | _ => s

def stallRun (bs size : Nat) : Nat → CopyProcess
  | 0 => ⟨copyStart, .start, .poll⟩
  | n + 1 => stall bs size (stallRun bs size n)

/-- Where the thread is in such a copy, and how much it has written. -/
def StallThread (bs size : Nat) (sh : Shared) : ThreadPc → Prop
  | .start | .openInode => sh.destSize = 0
  | .test i | .lookup i | .read i | .write i =>
    i ≤ lastBlock bs size ∧ sh.destSize = i * bs
  | .lastTest => sh.destSize = lastBlock bs size * bs
  | .destroy | .finished => sh.destSize = lastBlock bs size * bs + offsetMax bs size
  | .setError | .crashed => False

/-- The poll loop finds the size short. -/
def StallPoll (size : Nat) (t : ThreadPc) : PollPc → Prop
  | .poll => True
  | .checkError pos => t = .finished ∧ pos < size
  | .progress _ => t = .finished
  | _ => False

structure Stalls (bs size : Nat) (s : CopyProcess) : Prop where
  error : s.sh.error = 0
  intFlag : s.sh.intFlag = false
  thread : StallThread bs size s.sh s.thread
  poll : StallPoll size s.thread s.poll

theorem Stalls.written {sh : Shared} {d : Nat} {t : ThreadPc} (herr : sh.error = 0)
    (hflag : sh.intFlag = false) (ht : StallThread bs size { sh with destSize := d } t) :
    Stalls bs size ⟨{ sh with destSize := d }, t, .poll⟩ :=
  ⟨herr, hflag, ht, trivial⟩

/-- Before the thread has finished, the poll loop has not moved. -/
theorem StallPoll.running {t : ThreadPc} {m : PollPc} (h : StallPoll size t m)
    (ht : t ≠ .finished) : m = .poll := by
  cases m with
  | poll => rfl
  | checkError => exact absurd h.1 ht
  | progress => exact absurd h ht
  | _ => exact h.elim

variable (hsize : size ≠ 0) (hbs : bs ≠ 0) (hoff : 0 < offsetMax bs size)
  (hshort : lastBlock bs size * bs + offsetMax bs size < size)
include hsize hbs hoff hshort

omit hshort in
theorem Stalls.thread_step {s : CopyProcess} (h : Stalls bs size s)
    (hrunning : s.thread ≠ .finished) :
    Stalls bs size (stall bs size s) ∧ PartyStep bs size .thread s (stall bs size s) := by
  obtain ⟨sh, t, m⟩ := s
  obtain ⟨herr, hflag, ht, hm⟩ := h
  obtain rfl : m = .poll := hm.running hrunning
  cases t with
  | start => exact ⟨⟨rfl, hflag, ht, trivial⟩, .thread .clearError⟩
  | openInode =>
    exact ⟨⟨herr, hflag, ⟨Nat.zero_le _, ht.trans (Nat.zero_mul bs).symm⟩, trivial⟩,
      .thread (.nonempty hsize hbs)⟩
  | test i =>
    by_cases hlt : i < lastBlock bs size
    · simp only [stall, if_pos hlt]
      exact ⟨⟨herr, hflag, ht, trivial⟩, .thread (.enter hlt hflag)⟩
    · have hlast : i = lastBlock bs size := Nat.le_antisymm ht.1 (Nat.not_lt.mp hlt)
      have hdest : sh.destSize = lastBlock bs size * bs := hlast ▸ ht.2
      simp only [stall, if_neg hlt]
      exact ⟨⟨herr, hflag, hdest, trivial⟩, .thread (.leave (.inl (Nat.not_lt.mp hlt)))⟩
  | lookup i => exact ⟨⟨herr, hflag, ht, trivial⟩, .thread .lookup⟩
  | read i => exact ⟨⟨herr, hflag, ht, trivial⟩, .thread .read⟩
  | write i =>
    obtain ⟨hi, hdest⟩ := ht
    by_cases hlt : i < lastBlock bs size
    · have hsum : sh.destSize + bs = (i + 1) * bs := by rw [hdest, Nat.succ_mul]
      simp only [stall, if_pos hlt]
      exact ⟨.written herr hflag ⟨hlt, hsum⟩, .thread (.write hlt)⟩
    · have hlast : i = lastBlock bs size := Nat.le_antisymm hi (Nat.not_lt.mp hlt)
      have hsum : sh.destSize + offsetMax bs size =
          lastBlock bs size * bs + offsetMax bs size := by rw [hdest, hlast]
      simp only [stall, if_neg hlt]
      exact ⟨.written herr hflag hsum, .thread (.writeLast (Nat.not_lt.mp hlt))⟩
  | lastTest =>
    exact ⟨⟨herr, hflag, ⟨Nat.le_refl _, ht⟩, trivial⟩, .thread (.enterLast hflag hoff)⟩
  | destroy => exact ⟨⟨herr, hflag, ht, trivial⟩, .thread .destroy⟩
  | finished => exact absurd rfl hrunning
  | setError => exact ht.elim
  | crashed => exact ht.elim

omit hsize hbs hoff in
theorem Stalls.poll_step {s : CopyProcess} (h : Stalls bs size s) (hdone : s.thread = .finished) :
    Stalls bs size (stall bs size s) ∧ PartyStep bs size .poll s (stall bs size s) := by
  obtain ⟨sh, t, m⟩ := s
  obtain ⟨herr, hflag, ht, hm⟩ := h
  obtain rfl : t = .finished := hdone
  have hdest : sh.destSize < size := by
    rw [show sh.destSize = _ from ht]
    exact hshort
  cases m with
  | poll => exact ⟨⟨herr, hflag, ht, rfl, hdest⟩, .poll nofun .size⟩
  | checkError pos => exact ⟨⟨herr, hflag, ht, rfl⟩, .poll nofun (.more herr hm.2)⟩
  | progress pos => exact ⟨⟨herr, hflag, ht, trivial⟩, .poll nofun .goOn⟩
  | _ => exact hm.elim

theorem stallRun_stalls (n : Nat) : Stalls bs size (stallRun bs size n) := by
  induction n with
  | zero => exact ⟨rfl, rfl, rfl, trivial⟩
  | succ n ih =>
    by_cases hdone : (stallRun bs size n).thread = .finished
    · exact (ih.poll_step hshort hdone).1
    · exact (ih.thread_step hsize hbs hoff hdone).1

/-- **A size out of reach keeps `FsGetFile` in its loop**, in a run that is fair to both. -/
theorem stallRun_fair : (copyParties bs size).FairRun (stallRun bs size) := by
  have hstalls := stallRun_stalls hsize hbs hoff hshort
  have hown : ∀ n, (stallRun bs size n).thread ≠ .finished →
      (copyParties bs size).step .thread (stallRun bs size n) (stallRun bs size (n + 1)) :=
    fun n hrunning => ((hstalls n).thread_step hsize hbs hoff hrunning).2
  have hpoll : ∀ n, (stallRun bs size n).thread = .finished →
      (copyParties bs size).step .poll (stallRun bs size n) (stallRun bs size (n + 1)) :=
    fun n hdone => ((hstalls n).poll_step hshort hdone).2
  have hrun : (copyParties bs size).IsRun (stallRun bs size) := by
    refine ⟨rfl, fun n => .inr ?_⟩
    by_cases hdone : (stallRun bs size n).thread = .finished
    · exact ⟨_, hpoll n hdone⟩
    · exact ⟨_, hown n hdone⟩
  have hthread : (copyParties bs size).Fair .thread (stallRun bs size) := by
    intro n hready
    refine ⟨n, Nat.le_refl n, hown n fun hdone => ?_⟩
    obtain ⟨s', hstep⟩ := hready n (Nat.le_refl n)
    generalize stallRun bs size n = s at hstep hdone
    cases hstep with
    | thread hstep => exact hstep.frame.2.2 hdone
  refine ⟨hrun, ?_⟩
  rintro (_ | _)
  · exact hthread
  · intro n _
    obtain ⟨m, hm, hdone⟩ := hrun.comes_to hthread (thread_lowers bs size) (n := n) trivial
    refine ⟨m, hm, hpoll m ?_⟩
    have hat := (hstalls m).thread
    obtain hfinished | hcrashed := hdone
    · exact hfinished
    · rw [hcrashed] at hat
      exact hat.elim

theorem stallRun_not_ended (n : Nat) : ¬Ended (stallRun bs size n) := by
  have hstalls := stallRun_stalls hsize hbs hoff hshort n
  rintro (hcrashed | ⟨code, hcode⟩)
  · have hthread := hstalls.thread
    rw [hcrashed] at hthread
    exact hthread
  · have hpoll := hstalls.poll
    rw [hcode] at hpoll
    exact hpoll

end Stall

theorem written_short {bs size : Nat} (hdvd : bs ∣ 2 ^ 32) (hlt : bs < 2 ^ 32)
    (hsize : 2 ^ 32 * bs < size) :
    0 < offsetMax bs size ∧ lastBlock bs size * bs + offsetMax bs size < size := by
  have hpos : 0 < size := Nat.zero_lt_of_lt hsize
  have hrest := offsetMax_wrapped hdvd hlt hpos
  have hmod : (size - 1) % bs < bs := Nat.mod_lt _ (Nat.pos_of_dvd_of_pos hdvd (by decide))
  have hlast : lastBlock bs size < 2 ^ 32 := by
    rw [lastBlock_wrapped hdvd hpos]
    exact Nat.mod_lt _ (by decide)
  have hblocks := Nat.mul_le_mul_right bs (Nat.succ_le_of_lt hlast)
  rw [Nat.succ_mul] at hblocks
  omega

/-- **`FsGetFile` ends in every fair run exactly for the sizes that 32-bit block numbers
reach**, whatever reads, writes and the user do. -/
theorem copy_ends_iff (sb : Ext4SuperBlock) (hlog : sb.sLogBlockSize ≤ 6) (inode : Ext4Inode) :
    (∀ run, (copyParties sb.blockSize inode.size).FairRun run → ∃ n, Ended (run n)) ↔
      inode.size ≤ 2 ^ 32 * sb.blockSize := by
  constructor
  · intro hends
    refine Nat.le_of_not_lt fun hsize => ?_
    have hmax := (Ext4SuperBlock.blockSize_pos hlog).2
    have hdvd : sb.blockSize ∣ 2 ^ 32 :=
      Ext4SuperBlock.blockSize_eq hlog ▸ dvd_word_of_log hlog
    have hbs : sb.blockSize ≠ 0 := Nat.ne_of_gt (Nat.pos_of_dvd_of_pos hdvd (by decide))
    have hne : inode.size ≠ 0 := Nat.ne_of_gt (Nat.zero_lt_of_lt hsize)
    obtain ⟨hoff, hshort⟩ := written_short hdvd (by omega) hsize
    obtain ⟨n, hended⟩ := hends _ (stallRun_fair hne hbs hoff hshort)
    exact stallRun_not_ended hne hbs hoff hshort n hended
  · intro hsize run hrun
    exact copy_ends hsize sb.blockSize_le hrun

theorem copy_ends_iff_image :
    (∀ run, (copyParties imageSb.blockSize (imageInode 12).size).FairRun run →
      ∃ n, Ended (run n)) ↔ (imageInode 12).size ≤ 2 ^ 32 * imageSb.blockSize :=
  copy_ends_iff imageSb (by decide) (imageInode 12)

/-! ## Giving up -/

section GiveUp

variable {bs size : Nat}

def blockBytes (bs size i : Nat) : Nat := if i < lastBlock bs size then bs else offsetMax bs size

/-- What the thread may still write of the block it is at, once the flag is set. -/
def pendingWrite (bs size : Nat) : ThreadPc → Nat
  | .lookup i | .read i | .write i => blockBytes bs size i
  | _ => 0

theorem ThreadStep.intFlag_eq {sh sh' : Shared} {t t' : ThreadPc}
    (h : ThreadStep bs size sh t sh' t') : sh'.intFlag = sh.intFlag := by
  cases h <;> rfl

theorem ThreadStep.pending_le {sh sh' : Shared} {t t' : ThreadPc}
    (h : ThreadStep bs size sh t sh' t') (hflag : sh.intFlag = true) :
    sh'.destSize + pendingWrite bs size t' ≤ sh.destSize + pendingWrite bs size t := by
  cases h with
  | enter _ hclear => exact absurd (hclear.symm.trans hflag) Bool.false_ne_true
  | enterLast hclear _ => exact absurd (hclear.symm.trans hflag) Bool.false_ne_true
  | noLast hclear _ => exact absurd (hclear.symm.trans hflag) Bool.false_ne_true
  | @write i hlt =>
    show sh.destSize + bs + 0 ≤ sh.destSize + blockBytes bs size i
    rw [blockBytes, if_pos hlt, Nat.add_zero]
  | @writeLast i hge =>
    show sh.destSize + offsetMax bs size + 0 ≤ sh.destSize + blockBytes bs size i
    rw [blockBytes, if_neg (Nat.not_lt.mpr hge), Nat.add_zero]
  | lookup => exact Nat.le_refl _
  | read => exact Nat.le_refl _
  | _ => exact Nat.add_le_add_left (Nat.zero_le _) _

theorem given_up_stable (d : Nat) : (copyProcess bs size).Stable fun s =>
    s.sh.intFlag = true ∧ s.sh.destSize + pendingWrite bs size s.thread ≤ d := by
  rintro _ _ ⟨hflag, hle⟩ (hstep | ⟨_, hstep⟩)
  · exact ⟨hstep.intFlag_eq.trans hflag, Nat.le_trans (hstep.pending_le hflag) hle⟩
  · cases hstep with
    | setFlag => exact ⟨rfl, hle⟩
    | _ => exact ⟨hflag, hle⟩

/-- The handle is closed at the end of `FsGetFile` and nowhere else. -/
def HandleOk (s : CopyProcess) : Prop :=
  s.sh.handleOpen = false ↔ s.poll = .waitLast ∨ ∃ code, s.poll = .returned code

theorem handleOk_stable : (copyProcess bs size).Stable HandleOk := by
  rintro _ _ hs (hstep | ⟨_, hstep⟩)
  · rw [HandleOk, hstep.frame.1]
    exact hs
  · unfold HandleOk at hs ⊢
    cases hstep with
    | closed => exact iff_of_true rfl (.inr ⟨_, rfl⟩)
    | closedFirst => exact iff_of_true rfl (.inl rfl)
    | waitedLast => exact iff_of_true (hs.mpr (.inl rfl)) (.inr ⟨_, rfl⟩)
    | _ => simpa using hs

end GiveUp

/-- How a copy may end early, and what `FsGetFile` leaves behind. -/
structure GivesUpCleanly (bs size : Nat) : Prop where
  /-- Once `int_flag` is set, at most one more block is written. -/
  prompt : ∀ s, (copyProcess bs size).Reachable s → s.sh.intFlag = true →
    ∀ s', (copyProcess bs size).Run s s' → s'.sh.destSize ≤ s.sh.destSize + bs
  /-- `params` and the handle, which the thread uses, outlive it. -/
  joined : ∀ s, (copyProcess bs size).Reachable s → ∀ code, s.poll = .returned code →
    s.thread = .finished ∧ s.sh.handleOpen = false ∧
      ∀ s', (copyProcess bs size).Run s s' → s'.sh = s.sh
  /-- A call that failed with an error of the thread left the file incomplete. -/
  short : ∀ s, (copyProcess bs size).Reachable s → s.thread = .finished → s.sh.error ≠ 0 →
    s.sh.destSize < size

theorem returned_still {bs size : Nat} {s : CopyProcess} {code : FsFile}
    (hreturned : s.poll = .returned code) (hdone : s.thread = .finished) :
    (copyProcess bs size).Stable (· = s) := by
  rintro _ s' rfl hstep
  cases hstep with
  | thread hstep => exact absurd hdone hstep.frame.2.2
  | poll _ hstep =>
    obtain rfl := hreturned
    cases hstep

/-- The last block fits whatever the size is. -/
theorem lastFits_of_log {sb : Ext4SuperBlock} (hlog : sb.sLogBlockSize ≤ 6) (size : Nat) :
    LastFits sb.blockSize size := by
  have hmax := (Ext4SuperBlock.blockSize_pos hlog).2
  have hdvd : sb.blockSize ∣ 2 ^ 32 := Ext4SuperBlock.blockSize_eq hlog ▸ dvd_word_of_log hlog
  rcases Nat.lt_or_ge (2 ^ 32 * sb.blockSize) size with hsize | hsize
  · intro hne
    obtain ⟨hoff, hshort⟩ := written_short hdvd (by omega) hsize
    rw [copiedBytes_of_ne hne]
    exact ⟨Nat.ne_of_gt (Nat.pos_of_dvd_of_pos hdvd (by decide)), hoff, Nat.le_of_lt hshort⟩
  · exact lastFits hsize sb.blockSize_le

theorem ThreadOk.pending_le {sb : Ext4SuperBlock} (hlog : sb.sLogBlockSize ≤ 6) {size : Nat}
    {sh : Shared} {t : ThreadPc} (hok : ThreadOk sb.blockSize size sh t) :
    pendingWrite sb.blockSize size t ≤ sb.blockSize := by
  have hmax := (Ext4SuperBlock.blockSize_pos hlog).2
  have hdvd : sb.blockSize ∣ 2 ^ 32 := Ext4SuperBlock.blockSize_eq hlog ▸ dvd_word_of_log hlog
  have hblock : ∀ i, size ≠ 0 → blockBytes sb.blockSize size i ≤ sb.blockSize := by
    intro i hne
    unfold blockBytes
    split
    · exact Nat.le_refl _
    · rw [offsetMax_wrapped hdvd (by omega) (Nat.pos_of_ne_zero hne)]
      exact Nat.mod_lt _ (Nat.pos_of_dvd_of_pos hdvd (by decide))
  cases t with
  | lookup i => exact hblock i hok.1
  | read i => exact hblock i hok.1
  | write i => exact hblock i hok.1
  | _ => exact Nat.zero_le _

/-- **The copy is given up within a block, and never left behind running**, whatever the size
of the file. -/
theorem gives_up_cleanly (sb : Ext4SuperBlock) (hlog : sb.sLogBlockSize ≤ 6) (inode : Ext4Inode) :
    GivesUpCleanly sb.blockSize inode.size := by
  have hfits := lastFits_of_log hlog inode.size
  have hok : ∀ s, (copyProcess sb.blockSize inode.size).Reachable s →
      CopyOk sb.blockSize inode.size s := fun s hs =>
    (CopyOk.stable hfits).reachable (fun _ => CopyOk.start) hs
  have hhandle : ∀ s, (copyProcess sb.blockSize inode.size).Reachable s → HandleOk s := by
    intro s hs
    refine handleOk_stable.reachable ?_ hs
    rintro _ rfl
    exact iff_of_false nofun nofun
  refine ⟨?_, ?_, ?_⟩
  · intro s hs hflag s' hrun
    have hpending := (hok s hs).thread.pending_le hlog
    have hwritten := ((given_up_stable _).run ⟨hflag, Nat.le_refl _⟩ hrun).2
    omega
  · intro s hs code hcode
    have hdone := (hok s hs).poll
    rw [hcode] at hdone
    refine ⟨hdone.1, (hhandle s hs).mpr (.inr ⟨code, hcode⟩), fun s' hrun => ?_⟩
    rw [(returned_still hcode hdone.1).run rfl hrun]
  · intro s hs hfin herr
    have hthread := (hok s hs).thread
    rw [hfin] at hthread
    obtain ⟨hnone, -⟩ | ⟨-, hshort⟩ := hthread
    · exact absurd hnone herr
    · exact Nat.lt_of_lt_of_le hshort (copiedBytes_le hfits)

theorem gives_up_cleanly_image : GivesUpCleanly 4096 4096 :=
  gives_up_cleanly imageSb (by decide) (imageInode 12)

end Ext4tc.Plugin
