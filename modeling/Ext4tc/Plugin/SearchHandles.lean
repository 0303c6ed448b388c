import Ext4tc.Lib.Isolation
import Ext4tc.Plugin.DirectoryPath
import Ext4tc.Plugin.Ext4Plugin

/-! # Search handles

Clients that search at the same time. Each of them has its handle, but the plugin has
one entry table, which every search of a directory replaces. A client gets from any
order of the calls what it gets alone, as long as each of its `FsFindNext` calls meets
the table that its `FsFindFirst` left. -/

namespace Ext4tc.Plugin
open Ext4tc.Lib Ext4tc.Fs Ext4tc.DiskUtils

/-- The calls of client `c`; the buffer is the one it passes. -/
inductive SearchCall where
  | findFirst (c : Nat) (path : List UInt8) (fd : FindData)
  | findNext (c : Nat) (fd : FindData)
  | findClose (c : Nat)

namespace SearchCall

def who : SearchCall → Nat
  | findFirst c _ _ => c
  | findNext c _ => c
  | findClose c => c

end SearchCall

/-- What a client sees of a call: for `FsFindFirst`, whether there is a handle, and the
buffer, and likewise for `FsFindNext`. -/
inductive SearchReply where
  | first (valid : Bool) (fd : FindData)
  | next (more : Bool) (fd : FindData)
  | closed
  deriving DecidableEq

/-- The plugin and the handles of its clients, `none` for `INVALID_HANDLE_VALUE`. A client
has that value before its first search and after `FsFindClose`. No call reads `left`: it
records the table that is there after the last `FsFindFirst` of a client. -/
structure SearchState (σ : Type) where
  descr : Ext4PluginDescr σ
  handles : Nat → Option LastFind
  left : Nat → Option (List Ext4DirEntry2)

section Calls

variable {σ : Type} (env : PluginEnv σ)

/-- A call of a client. `FsFindNext` follows its handle without a test. -/
def SearchState.call (s : SearchState σ) : SearchCall → Except Fault (SearchReply × SearchState σ)
  | .findFirst c path fd =>
    match fsFindFirst env s.descr path fd with
    | .error fault => .error fault
    | .ok ((handle, fd), descr) =>
      .ok (.first handle.isSome fd,
        ⟨descr, Function.update s.handles c handle, Function.update s.left c descr.dirEntries⟩)
  | .findNext c fd =>
    match s.handles c with
    | none => .error .outOfBounds
    | some lf =>
      match fsFindNext env s.descr lf fd with
      | .error fault => .error fault
      | .ok ((more, lf, fd), descr) =>
        .ok (.next more fd, { s with descr, handles := Function.update s.handles c (some lf) })
  | .findClose c => .ok (.closed, { s with handles := Function.update s.handles c none })

def searchSystem : ClientSystem (SearchState σ) Nat SearchCall SearchReply Fault :=
  ⟨SearchCall.who, SearchState.call env⟩

/-- What a call does that succeeds. -/
inductive SearchState.Calls (s : SearchState σ) : SearchCall → SearchState σ → Prop
  | findFirst {c : Nat} {path : List UInt8} {fd fd' : FindData} {handle : Option LastFind}
      {descr : Ext4PluginDescr σ}
      (h : fsFindFirst env s.descr path fd = .ok ((handle, fd'), descr)) :
      s.Calls (.findFirst c path fd)
        ⟨descr, Function.update s.handles c handle, Function.update s.left c descr.dirEntries⟩
  | findNext {c : Nat} {fd fd' : FindData} {lf lf' : LastFind} {more : Bool}
      {descr : Ext4PluginDescr σ}
      (h : fsFindNext env s.descr lf fd = .ok ((more, lf', fd'), descr)) :
      s.Calls (.findNext c fd) { s with descr, handles := Function.update s.handles c (some lf') }
  | findClose {c : Nat} :
      s.Calls (.findClose c) { s with handles := Function.update s.handles c none }

theorem searchSystem_step {env : PluginEnv σ} {s s' : SearchState σ} {call : SearchCall}
    {reply : SearchReply} (hstep : (searchSystem env).step s call = .ok (reply, s')) :
    s.Calls env call s' := by
  have h : s.call env call = .ok (reply, s') := hstep
  cases call with
  | findFirst c path fd =>
    rw [SearchState.call] at h
    split at h
    next => cases h
    next hfirst =>
      cases h
      exact .findFirst hfirst
  | findNext c fd =>
    rw [SearchState.call] at h
    split at h
    next => cases h
    next =>
      split at h
      next => cases h
      next hnext =>
        cases h
        exact .findNext hnext
  | findClose c =>
    cases h
    exact .findClose

/-- `FsFindNext` on a directory meets the table that the search left. -/
def OwnTable (s : SearchState σ) : SearchCall → Prop
  | .findNext c _ => ∀ lf, s.handles c = some lf → lf.root = false → s.descr.dirEntries = s.left c
  | _ => True

end Calls

/-! ## The same call on two states of the plugin -/

/-- A state between the calls. -/
structure Ready {σ : Type} (Inv : σ → Prop) (descr : Ext4PluginDescr σ) : Prop where
  inv : Inv descr.hardDisks
  sized : Sized descr

structure Alike {σ : Type} (Inv : σ → Prop) (descr descr' : Ext4PluginDescr σ) : Prop where
  left : Ready Inv descr
  right : Ready Inv descr'
  table : descr.dirEntries = descr'.dirEntries

/-- What a load leaves of any two states: the same table, and if there is one, the same count. -/
structure Loaded {σ : Type} (Inv : σ → Prop) (loaded : Bool) (descr descr' : Ext4PluginDescr σ) :
    Prop extends Alike Inv descr descr' where
  num : loaded = true → descr.dirEntryNum = descr'.dirEntryNum

section Lockstep

variable {σ : Type} {Inv : σ → Prop}

theorem HasNone.ready {descr : Ext4PluginDescr σ} (h : HasNone Inv descr) : Ready Inv descr := by
  refine ⟨h.inv, ?_⟩
  intro dirs hdirs
  rw [h.table] at hdirs
  cases hdirs

theorem HasTable.ready {v : Volume} {n : Nat} {descr : Ext4PluginDescr σ}
    (h : HasTable Inv v n descr) :
    Ready Inv descr := ⟨h.inv, h.sized⟩

theorem Alike.num {descr descr' : Ext4PluginDescr σ} (h : Alike Inv descr descr')
    {dirs : List Ext4DirEntry2} (hdirs : descr.dirEntries = some dirs) :
    descr.dirEntryNum = descr'.dirEntryNum := by
  rw [h.left.sized dirs hdirs, h.right.sized dirs (h.table ▸ hdirs)]

/-- The step of a search reads the table and its count only. -/
theorem Alike.next {descr descr' : Ext4PluginDescr σ} (h : Alike Inv descr descr')
    (numLastEntry : Nat) :
    getNextDirEntry descr numLastEntry = getNextDirEntry descr' numLastEntry := by
  cases hdirs : descr.dirEntries with
  | none =>
    have hdirs' : descr'.dirEntries = none := h.table ▸ hdirs
    simp [getNextDirEntry, hdirs, hdirs']
  | some dirs =>
    rw [getNextDirEntry, getNextDirEntry, h.table, h.num hdirs]

variable {parts : Partitions σ} {vol : Nat → Nat → Volume} (hs : Serves parts Inv vol)
  (hc : ∀ diskNo partNoMap, (vol diskNo partNoMap).Counted) {descr descr' : Ext4PluginDescr σ}
include hs hc

theorem load_lockstep (h : Ready Inv descr) (h' : Ready Inv descr') (diskNo partNoMap n : Nat) :
    Lockstep (Loaded Inv) (loadExt2DirEntry parts diskNo partNoMap descr n)
      (loadExt2DirEntry parts diskNo partNoMap descr' n) := by
  cases hload : (vol diskNo partNoMap).load n with
  | error fault =>
    exact .error (load_error hs h.inv h.sized hload) (load_error hs h'.inv h'.sized hload)
  | ok result =>
    obtain ⟨table, num⟩ := result
    cases table with
    | none =>
      obtain ⟨d, hcall, hnone⟩ := load_none hs h.inv h.sized hload
      obtain ⟨d', hcall', hnone'⟩ := load_none hs h'.inv h'.sized hload
      exact .ok hcall hcall'
        ⟨⟨hnone.ready, hnone'.ready, hnone.table.trans hnone'.table.symm⟩, nofun⟩
    | some dirs =>
      obtain ⟨d, hcall, hat⟩ := load_some hs (hc diskNo partNoMap) h.inv h.sized hload
      obtain ⟨d', hcall', hat'⟩ := load_some hs (hc diskNo partNoMap) h'.inv h'.sized hload
      exact .ok hcall hcall'
        ⟨⟨hat.ready, hat'.ready, hat.table.trans hat'.table.symm⟩,
          fun _ => hat.num.trans hat'.num.symm⟩

theorem enterComponents_lockstep (diskNo partNoMap : Nat) (words : List (Nat × List UInt8))
    (h : Loaded Inv true descr descr') :
    Lockstep (Loaded Inv) (enterComponents parts diskNo partNoMap words descr)
      (enterComponents parts diskNo partNoMap words descr') := by
  induction words generalizing descr descr' with
  | nil => exact .ok rfl rfl h
  | cons word words ih =>
    obtain ⟨start, word⟩ := word
    rw [enterComponents, enterComponents, h.table, h.num rfl]
    split
    next fault _ => exact .error rfl rfl
    next => exact ih h
    next i dir _ =>
      obtain ⟨fault, hx, hy⟩ | ⟨loaded, d, d', hx, hy, hd⟩ :=
        load_lockstep hs hc h.left h.right diskNo partNoMap dir.inode
      · rw [hx, hy]
        exact .error rfl rfl
      · rw [hx, hy]
        cases loaded with
        | false => exact .ok rfl rfl hd
        | true => exact ih hd

theorem getFirstDirEntry_lockstep (h : Ready Inv descr) (h' : Ready Inv descr')
    (diskNo partNoMap : Nat) (path : List UInt8) :
    Lockstep (fun _ => Alike Inv) (getFirstDirEntry parts diskNo partNoMap descr path)
      (getFirstDirEntry parts diskNo partNoMap descr' path) := by
  rw [getFirstDirEntry, getFirstDirEntry]
  obtain ⟨fault, hx, hy⟩ | ⟨loaded, d, d', hx, hy, hd⟩ :=
    load_lockstep hs hc h h' diskNo partNoMap ext4RootIno
  · rw [hx, hy]
    exact .error rfl rfl
  rw [hx, hy]
  cases loaded with
  | false => exact .ok rfl rfl hd.toAlike
  | true =>
    simp only
    obtain ⟨fault, hx, hy⟩ | ⟨entered, d₂, d₂', hx, hy, hd₂⟩ :=
      enterComponents_lockstep hs hc diskNo partNoMap (components path) hd
    · rw [hx, hy]
      exact .error rfl rfl
    rw [hx, hy]
    cases entered with
    | false => exact .ok rfl rfl hd₂.toAlike
    | true =>
      simp only [firstListed, hd₂.table, hd₂.num rfl]
      split
      next fault _ => exact .error rfl rfl
      next first _ => exact .ok rfl rfl hd₂.toAlike

end Lockstep

/-- What a first call makes of any two states: searches that are ready, with the same
table if it is a directory that is searched. -/
structure Opened {σ : Type} (Inv : σ → Prop) (found : Option LastFind × FindData)
    (descr descr' : Ext4PluginDescr σ) :
    Prop where
  left : Ready Inv descr
  right : Ready Inv descr'
  table : ∀ lf, found.1 = some lf → lf.root = false → descr.dirEntries = descr'.dirEntries

theorem Opened.of_alike {σ : Type} {Inv : σ → Prop} {descr descr' : Ext4PluginDescr σ}
    (found : Option LastFind × FindData) (h : Alike Inv descr descr') :
    Opened Inv found descr descr' := ⟨h.left, h.right, fun _ _ _ => h.table⟩

section Find

variable {σ : Type} {env : PluginEnv σ} {Inv : σ → Prop} {vol : Nat → Nat → Volume}
  (hs : Serves env.parts Inv vol) {descr descr' : Ext4PluginDescr σ}

/-- A search step leaves the table and the kind of its handle as they were. -/
theorem showEntry_table {diskNo partNoMap : Nat} {fd : FindData} {dir : Ext4DirEntry2}
    {r : FindData × Ext4PluginDescr σ} (h : showEntry env descr diskNo partNoMap fd dir = .ok r) :
    r.2.dirEntries = descr.dirEntries := by
  unfold showEntry at h
  split at h
  next =>
    cases h
    rfl
  next =>
    split at h
    next => cases h
    next => cases h
    next =>
      cases h
      rfl

theorem findFirstRoot_root {found : Option LastFind × FindData} (h : findFirstRoot env = .ok found)
    (lf : LastFind) (hlf : found.1 = some lf) : lf.root = true := by
  unfold findFirstRoot at h
  dsimp only at h
  split at h
  next =>
    cases h
    cases hlf
  next =>
    split at h
    next => cases h
    next =>
      cases h
      cases hlf
      rfl

theorem fsFindNext_keeps {lf : LastFind} {fd : FindData}
    {r : (Bool × LastFind × FindData) × Ext4PluginDescr σ}
    (h : fsFindNext env descr lf fd = .ok r) :
    r.2.dirEntries = descr.dirEntries ∧ r.1.2.1.root = lf.root := by
  unfold fsFindNext at h
  split at h
  next =>
    cases h
    refine ⟨rfl, ?_⟩
    unfold findNextRoot
    split <;> rfl
  next =>
    split at h
    next => cases h
    next =>
      cases h
      exact ⟨rfl, rfl⟩
    next =>
      split at h
      next => cases h
      next fd' descr' hshow =>
        cases h
        exact ⟨showEntry_table hshow, rfl⟩

include hs

theorem showEntry_lockstep (h : Alike Inv descr descr') (diskNo partNoMap : Nat) (fd : FindData)
    (dir : Ext4DirEntry2) :
    Lockstep (fun _ => Alike Inv) (showEntry env descr diskNo partNoMap fd dir)
      (showEntry env descr' diskNo partNoMap fd dir) := by
  unfold showEntry
  split
  next => exact .ok rfl rfl h
  next =>
    have hx := hs.inode descr.hardDisks h.left.inv diskNo partNoMap dir.inode
    have hy := hs.inode descr'.hardDisks h.right.inv diskNo partNoMap dir.inode
    cases hinode : (vol diskNo partNoMap).inode dir.inode with
    | error fault =>
      rw [hinode] at hx hy
      exact .error
        (by rw [show env.parts.getExt4Inode descr.hardDisks _ _ _ = .error fault from hx])
        (by rw [show env.parts.getExt4Inode descr'.hardDisks _ _ _ = .error fault from hy])
    | ok inode =>
      rw [hinode] at hx hy
      obtain ⟨disks, hx, hi⟩ := hx
      obtain ⟨disks', hy, hi'⟩ := hy
      rw [hx, hy]
      cases inode with
      | none => exact .error rfl rfl
      | some inode => exact .ok rfl rfl ⟨⟨hi, h.left.sized⟩, ⟨hi', h.right.sized⟩, h.table⟩

/-- **Two searches with the same table take the same step.** -/
theorem fsFindNext_lockstep (h : Alike Inv descr descr') (lf : LastFind) (fd : FindData) :
    Lockstep (fun _ => Alike Inv) (fsFindNext env descr lf fd) (fsFindNext env descr' lf fd) := by
  unfold fsFindNext
  split
  next => exact .ok rfl rfl h
  next =>
    rw [h.next]
    split
    next fault _ => exact .error rfl rfl
    next => exact .ok rfl rfl h
    next dir numLastEntry _ =>
      obtain ⟨fault, hx, hy⟩ | ⟨fd', d, d', hx, hy, hd⟩ :=
        showEntry_lockstep hs h lf.diskNo lf.partNoMap fd dir
      · rw [hx, hy]
        exact .error rfl rfl
      · rw [hx, hy]
        exact .ok rfl rfl hd

theorem findFirstDir_lockstep (hc : ∀ diskNo partNoMap, (vol diskNo partNoMap).Counted)
    (h : Ready Inv descr) (h' : Ready Inv descr') (path : List UInt8) :
    Lockstep (Opened Inv) (findFirstDir env descr path) (findFirstDir env descr' path) := by
  unfold findFirstDir
  split
  next => exact .ok rfl rfl ⟨h, h', nofun⟩
  next diskNo partNo _ =>
    split
    next fault _ => exact .error rfl rfl
    next partNoMap _ =>
      obtain ⟨fault, hx, hy⟩ | ⟨first, d, d', hx, hy, hd⟩ :=
        getFirstDirEntry_lockstep hs hc h h' diskNo partNoMap (env.toUtf8 path)
      · rw [hx, hy]
        exact .error rfl rfl
      rw [hx, hy]
      simp only
      split
      next => exact .ok rfl rfl (.of_alike _ hd)
      next dir _ =>
        obtain ⟨fault, hx, hy⟩ | ⟨fd, d₂, d₂', hx, hy, hd₂⟩ :=
          showEntry_lockstep hs hd diskNo partNoMap .zero dir
        · rw [hx, hy]
          exact .error rfl rfl
        · rw [hx, hy]
          exact .ok rfl rfl (.of_alike _ hd₂)

/-- **A search starts the same way in any state.** -/
theorem fsFindFirst_lockstep (hc : ∀ diskNo partNoMap, (vol diskNo partNoMap).Counted)
    (h : Ready Inv descr) (h' : Ready Inv descr') (path : List UInt8) (fd : FindData) :
    Lockstep (Opened Inv) (fsFindFirst env descr path fd) (fsFindFirst env descr' path fd) := by
  unfold fsFindFirst
  split
  next => exact .ok rfl rfl ⟨h, h', nofun⟩
  next =>
    split
    next =>
      cases hroot : findFirstRoot env with
      | error fault => exact .error rfl rfl
      | ok found =>
        refine .ok rfl rfl ⟨h, h', ?_⟩
        intro lf hlf hdir
        rw [findFirstRoot_root hroot lf hlf] at hdir
        cases hdir
    next => exact findFirstDir_lockstep hs hc h h' path

end Find

/-! ## Isolation -/

/-- What relates the shared state to the one that client `c` would have alone. -/
structure Sim {σ : Type} (Inv : σ → Prop) (c : Nat) (s a : SearchState σ) : Prop where
  shared : Ready Inv s.descr
  alone : Ready Inv a.descr
  handle : s.handles c = a.handles c
  left : ∀ lf, a.handles c = some lf → lf.root = false → s.left c = a.descr.dirEntries

section Unwinding

variable {σ : Type} {env : PluginEnv σ} {Inv : σ → Prop} {vol : Nat → Nat → Volume}
  (hs : Serves env.parts Inv vol) (hc : ∀ diskNo partNoMap, (vol diskNo partNoMap).Counted)
include hs hc

theorem call_ready {s s' : SearchState σ} {call : SearchCall} (h : Ready Inv s.descr)
    (hcall : s.Calls env call s') : Ready Inv s'.descr := by
  cases hcall with
  | findFirst hfirst => exact ((fsFindFirst_lockstep hs hc h h _ _).self hfirst).left
  | findNext hnext => exact ((fsFindNext_lockstep hs ⟨h, h, rfl⟩ _ _).self hnext).left
  | findClose => exact h

omit hs hc in
/-- A call of another client leaves the handle and the ghost of `c` alone. -/
theorem call_frame {s s' : SearchState σ} {call : SearchCall} {c : Nat} (hwho : call.who ≠ c)
    (hcall : s.Calls env call s') : s'.handles c = s.handles c ∧ s'.left c = s.left c := by
  have hframe : ∀ {α : Type} (f : Nat → α) (a : α), Function.update f call.who a c = f c :=
    fun f a => Function.update_of_ne (Ne.symm hwho) a f
  cases hcall with
  | findFirst _ => exact ⟨hframe _ _, hframe _ _⟩
  | findNext _ => exact ⟨hframe _ _, rfl⟩
  | findClose => exact ⟨hframe _ _, rfl⟩

theorem findFirst_lockstep {s a : SearchState σ} (c : Nat) (h : Sim Inv c s a) (path : List UInt8)
    (fd : FindData) :
    Lockstep (fun _ => Sim Inv c) (s.call env (.findFirst c path fd))
      (a.call env (.findFirst c path fd)) := by
  rw [SearchState.call, SearchState.call]
  obtain ⟨fault, hx, hy⟩ | ⟨⟨handle, fd'⟩, d, d', hx, hy, hd⟩ :=
    fsFindFirst_lockstep hs hc h.shared h.alone path fd
  · rw [hx, hy]
    exact .error rfl rfl
  · rw [hx, hy]
    refine .ok rfl rfl ⟨hd.left, hd.right, ?_, ?_⟩
    · simp only [Function.update_self]
    · intro lf hlf hdir
      simp only [Function.update_self] at hlf ⊢
      exact hd.table lf hlf hdir

omit hc in
theorem findNext_lockstep {s a : SearchState σ} (c : Nat) (h : Sim Inv c s a) (fd : FindData)
    (hown : OwnTable s (.findNext c fd)) :
    Lockstep (fun _ => Sim Inv c) (s.call env (.findNext c fd)) (a.call env (.findNext c fd)) := by
  rw [SearchState.call, SearchState.call, h.handle]
  cases hlf : a.handles c with
  | none => exact .error rfl rfl
  | some lf =>
    cases hdir : lf.root with
    | true =>
      have hroot : ∀ descr : Ext4PluginDescr σ,
          fsFindNext env descr lf fd = .ok (findNextRoot env lf fd, descr) :=
        fun descr => if_pos hdir
      simp only [hroot]
      refine .ok rfl rfl ⟨h.shared, h.alone, ?_, ?_⟩
      · simp only [Function.update_self]
      · intro lf' hlf' hdir'
        simp only [Function.update_self, Option.some.injEq] at hlf'
        rw [← hlf', (fsFindNext_keeps (hroot a.descr)).2, hdir] at hdir'
        cases hdir'
    | false =>
      have htable : s.descr.dirEntries = a.descr.dirEntries :=
        (hown lf (h.handle.trans hlf) hdir).trans (h.left lf hlf hdir)
      simp only
      obtain ⟨fault, hx, hy⟩ | ⟨⟨more, lf', fd'⟩, d, d', hx, hy, hd⟩ :=
        fsFindNext_lockstep hs ⟨h.shared, h.alone, htable⟩ lf fd
      · rw [hx, hy]
        exact .error rfl rfl
      · rw [hx, hy]
        refine .ok rfl rfl ⟨hd.left, hd.right, ?_, ?_⟩
        · simp only [Function.update_self]
        · intro _ _ _
          exact (h.left lf hlf hdir).trans (fsFindNext_keeps hy).1.symm

theorem searchSystem_unwinding : (searchSystem env).Unwinding OwnTable (Sim Inv) where
  other c s a call reply s' h hwho hcall := by
    have hcalls := searchSystem_step hcall
    obtain ⟨hhandle, hleft⟩ := call_frame hwho hcalls
    exact ⟨call_ready hs hc h.shared hcalls, h.alone, hhandle.trans h.handle,
      fun lf hlf hdir => hleft.trans (h.left lf hlf hdir)⟩
  own s a call h hown := by
    cases call with
    | findFirst c path fd => exact findFirst_lockstep hs hc c h path fd
    | findNext c fd => exact findNext_lockstep hs c h fd hown
    | findClose c =>
      have hnone : ∀ s : SearchState σ, Function.update s.handles c none c = none :=
        fun s => Function.update_self c none s.handles
      refine .ok rfl rfl ⟨h.shared, h.alone, (hnone s).trans (hnone a).symm, ?_⟩
      intro lf hlf
      cases (hnone a).symm.trans hlf

end Unwinding

/-- **Searches are isolated in every run in which each step of a directory search meets the
table that its first call left.** -/
theorem search_handles_isolated {σ : Type} {env : PluginEnv σ} {Inv : σ → Prop}
    {vol : Nat → Nat → Volume} (hs : Serves env.parts Inv vol)
    (hc : ∀ diskNo partNoMap, (vol diskNo partNoMap).Counted) {s : SearchState σ}
    (hready : Ready Inv s.descr) (hnone : ∀ c, s.handles c = none) {calls : List SearchCall}
    (hown : (searchSystem env).Meets OwnTable s calls) :
    (searchSystem env).Isolated s calls := by
  refine (searchSystem_unwinding hs hc).isolated
    (fun c => ⟨hready, hready, rfl, fun lf hlf => ?_⟩) hown
  rw [hnone c] at hlf
  cases hlf

/-- Each `FsFindNext` comes from the client of the last `FsFindFirst`. -/
def InTurn : Option Nat → List SearchCall → Prop
  | _, [] => True
  | _, .findFirst c _ _ :: calls => InTurn (some c) calls
  | last, .findNext c _ :: calls => last = some c ∧ InTurn last calls
  | last, .findClose _ :: calls => InTurn last calls

theorem inTurn_ownTable {σ : Type} {env : PluginEnv σ} {calls : List SearchCall} {s : SearchState σ}
    (last : Option Nat) (hlast : ∀ c, last = some c → s.descr.dirEntries = s.left c)
    (h : InTurn last calls) : (searchSystem env).Meets OwnTable s calls := by
  induction calls generalizing s last with
  | nil => trivial
  | cons call calls ih =>
    cases call with
    | findFirst c path fd =>
      refine .cons trivial ?_
      intro reply s' hcall
      refine ih (some c) ?_ h
      rintro c' ⟨⟩
      cases searchSystem_step hcall with
      | findFirst _ =>
        simp only [Function.update_self]
    | findNext c fd =>
      obtain ⟨rfl, hrest⟩ := h
      refine .cons (fun _ _ _ => hlast c rfl) ?_
      intro reply s' hcall
      refine ih (some c) ?_ hrest
      intro c' hc'
      cases searchSystem_step hcall with
      | findNext hnext => exact (fsFindNext_keeps hnext).1.trans (hlast c' hc')
    | findClose c =>
      refine .cons trivial ?_
      intro reply s' hcall
      refine ih last ?_ h
      intro c' hc'
      cases searchSystem_step hcall with
      | findClose => exact hlast c' hc'

def treePlugin : PluginEnv LinuxDisks :=
  ⟨true, ⟨[[1]], some [1, 0]⟩, linuxPartitions treeEnv, id, id⟩

def treeSearch : SearchState LinuxDisks := ⟨treeDescr, fun _ => none, fun _ => none⟩

theorem treeSearch_ready : Ready (Mounted treeMounts) treeSearch.descr := ⟨treeDisks_mounted, nofun⟩

/-- A search of the root to its end, and then one of `a`. -/
def treeCalls : List SearchCall :=
  [.findFirst 0 (devPath sda1 []) .zero, .findNext 0 .zero, .findNext 0 .zero,
    .findFirst 1 (devPath sda1 [[0x61]]) .zero, .findClose 0, .findNext 1 .zero, .findClose 1]

theorem search_handles_isolated_inTurn : (searchSystem treePlugin).Isolated treeSearch treeCalls :=
  search_handles_isolated treeDisks_serve (linuxVolume_counted treeMounts treeEnv) treeSearch_ready
    (fun _ => rfl)
    (inTurn_ownTable none nofun (by simp [treeCalls, InTurn]))

/-- The searches of the root and of `a`, opened one after the other. -/
def mixedCalls : List SearchCall :=
  [.findFirst 0 (devPath sda1 []) .zero, .findFirst 1 (devPath sda1 [[0x61]]) .zero,
    .findNext 0 .zero]

/-- The search of the root ends after its first entry; alone it goes on with `f`. -/
theorem search_loses_entries :
    Ready (Mounted treeMounts) treeSearch.descr ∧
      ¬(searchSystem treePlugin).Isolated treeSearch mixedCalls := by
  refine ⟨treeSearch_ready, ?_⟩
  intro h
  have hmixed : (searchSystem treePlugin).run treeSearch mixedCalls =
      .ok [(0, .first true ⟨[0x61], fileAttributeDirectory, noTime, 0, 0⟩),
        (1, .first true ⟨[0x67], fileAttributeNormal, noTime, 4096, 0⟩),
        (0, .next false .zero)] := by
    decide +kernel
  have halone : (searchSystem treePlugin).run treeSearch
    ((searchSystem treePlugin).own 0 mixedCalls) =
      .ok [(0, .first true ⟨[0x61], fileAttributeDirectory, noTime, 0, 0⟩),
        (0, .next true ⟨[0x66], fileAttributeNormal, noTime, 4096, 0⟩)] := by
    decide +kernel
  have hsame := h.replies _ hmixed 0
  rw [halone] at hsame
  cases hsame

end Ext4tc.Plugin
