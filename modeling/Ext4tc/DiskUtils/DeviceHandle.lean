import Mathlib.Data.List.Forall2
import Ext4tc.DiskUtils.Disk

/-! # The device handle under the sector reads

`disk::read_sectors_data`, `partition::read_sectors` and `partition::read_sectors_ex` move
the file position of one handle and read from there. A seek that fails leaves the position
where an earlier call left it. The three test for another value than the zero that
`SetFilePointerEx` then returns, and none looks at `bytes_recv`. -/

namespace Ext4tc.DiskUtils
open Ext4tc.Lib

/-- What `ReadFile` answers: a failure, with the position behind it, or `bytes_recv`. -/
inductive ReadFileResult where
  | failed (position : Nat)
  | received (bytesRecv : Nat)
  deriving DecidableEq

/-- The answers of the system to the two requests of one call. -/
structure SystemCalls where
  setFilePointerEx : UInt32
  readFile : ReadFileResult

def invalidSetFilePointer : UInt32 := 0xffffffff

/-- What the three readers do with a handle: a seek to `lOffset`, and a read of `len` bytes
into a buffer of memory that holds `fresh`. Also the position that they leave. -/
def readAt (device fresh : Nat → UInt8) (sys : SystemCalls) (valid : Bool)
    (lOffset len position : Nat) : Option Buffer × Nat :=
  if valid then
    if sys.setFilePointerEx = invalidSetFilePointer then (none, lOffset)
    else
      let position := if sys.setFilePointerEx = 0 then position else lOffset
      match sys.readFile with
      | .failed position => (none, position)
      | .received bytesRecv =>
        (some ⟨len, fun i => if i < min bytesRecv len then device (position + i) else fresh i⟩,
          position + min bytesRecv len)
  else (none, position)

/-- The fields of a `disk` that its reader uses; whether `disk_handler` is valid. -/
structure DiskFields where
  diskHandler : Bool
  sectorSize : UInt32

/-- The fields of a `partition` that its readers use. -/
structure PartitionFields where
  partHandler : Bool
  sectorSize : UInt32
  offset : UInt64

section Readers

variable (device fresh : Nat → UInt8) (sys : SystemCalls)

def DiskFields.readSectorsData (d : DiskFields) (startSector : UInt32) (nSectors : Int32) :
    (position : Nat) → Option Buffer × Nat :=
  readAt device fresh sys d.diskHandler (startSector.toNat * d.sectorSize.toNat % 2 ^ 64)
    (nSectors.toUInt32.toNat * d.sectorSize.toNat % 2 ^ 32)

def PartitionFields.readSectors (p : PartitionFields) (sStart : UInt32) (nSectors : UInt32) :
    (position : Nat) → Option Buffer × Nat :=
  readAt device fresh sys p.partHandler
    ((sStart.toNat * p.sectorSize.toNat % 2 ^ 64 + p.offset.toNat) % 2 ^ 64)
    (nSectors.toNat * p.sectorSize.toNat % 2 ^ 32)

def PartitionFields.readSectorsEx (p : PartitionFields) (sStart : UInt64) (nSectors : UInt32) :
    (position : Nat) → Option Buffer × Nat :=
  readAt device fresh sys p.partHandler
    ((sStart.toNat * p.sectorSize.toNat % 2 ^ 64 + p.offset.toNat) % 2 ^ 64)
    (nSectors.toNat * p.sectorSize.toNat % 2 ^ 32)

end Readers

inductive ReadCall where
  | data (d : DiskFields) (startSector : UInt32) (nSectors : Int32)
  | sectors (p : PartitionFields) (sStart : UInt32) (nSectors : UInt32)
  | sectorsEx (p : PartitionFields) (sStart : UInt64) (nSectors : UInt32)

namespace ReadCall

def run (device fresh : Nat → UInt8) (sys : SystemCalls) : ReadCall → Nat → Option Buffer × Nat
  | data d startSector nSectors => d.readSectorsData device fresh sys startSector nSectors
  | sectors p sStart nSectors => p.readSectors device fresh sys sStart nSectors
  | sectorsEx p sStart nSectors => p.readSectorsEx device fresh sys sStart nSectors

def valid : ReadCall → Bool
  | data d _ _ => d.diskHandler
  | sectors p _ _ => p.partHandler
  | sectorsEx p _ _ => p.partHandler

/-- The position asked for: that of the partition plus the start in sectors. -/
def asked : ReadCall → Nat
  | data d startSector _ => startSector.toNat * d.sectorSize.toNat
  | sectors p sStart _ => p.offset.toNat + sStart.toNat * p.sectorSize.toNat
  | sectorsEx p sStart _ => p.offset.toNat + sStart.toNat * p.sectorSize.toNat

def length : ReadCall → Nat
  | data d _ nSectors => nSectors.toUInt32.toNat * d.sectorSize.toNat % 2 ^ 32
  | sectors p _ nSectors => nSectors.toNat * p.sectorSize.toNat % 2 ^ 32
  | sectorsEx p _ nSectors => nSectors.toNat * p.sectorSize.toNat % 2 ^ 32

end ReadCall

/-- The results of calls on one handle, one after the other. Each call has memory of its own. -/
def results (device : Nat → UInt8) :
    (memory : Nat → Nat → UInt8) → (position : Nat) → List (ReadCall × SystemCalls) →
      List (Option Buffer)
  | _, _, [] => []
  | memory, position, (call, sys) :: calls =>
    (call.run device (memory 0) sys position).1 ::
      results device (fun n => memory (n + 1)) (call.run device (memory 0) sys position).2 calls

/-- NULL, or a buffer of the bytes asked for. -/
def ReturnsAsked (device : Nat → UInt8) (call : ReadCall × SystemCalls) (result : Option Buffer) :
    Prop :=
  ∀ buffer, result = some buffer → ∀ i, i < buffer.size →
    buffer.byte i = device (call.1.asked + i)

/-- The read happens where it was asked for: behind a seek that succeeded, the position fits
64 bits, and behind one that failed it is the one that the handle already had. -/
def SeekArrives (call : ReadCall) (sys : SystemCalls) (position : Nat) : Prop :=
  (sys.setFilePointerEx ≠ 0 ∧ call.asked < 2 ^ 64) ∨
    (sys.setFilePointerEx = 0 ∧ position = call.asked)

/-- The call gives up, or has nothing to read, or reads all of it where it was asked for. -/
def ReadsWhole (call : ReadCall) (sys : SystemCalls) (position : Nat) : Prop :=
  call.valid = true → sys.setFilePointerEx ≠ invalidSetFilePointer →
    ∀ bytesRecv, sys.readFile = .received bytesRecv → call.length ≠ 0 →
      SeekArrives call sys position ∧ call.length ≤ bytesRecv

def positionAfter (call : ReadCall) (sys : SystemCalls) (position : Nat) : Nat :=
  (call.run (fun _ => 0) (fun _ => 0) sys position).2

def AllReadWhole : (position : Nat) → List (ReadCall × SystemCalls) → Prop
  | _, [] => True
  | position, (call, sys) :: calls =>
    ReadsWhole call sys position ∧ AllReadWhole (positionAfter call sys position) calls

/-! ## One call -/

section OneCall

variable {device fresh : Nat → UInt8} {sys : SystemCalls} {position : Nat}

theorem ReadCall.run_eq (call : ReadCall) :
    call.run device fresh sys position =
      readAt device fresh sys call.valid (call.asked % 2 ^ 64) call.length position := by
  cases call with
  | data d startSector nSectors => rfl
  | sectors p sStart nSectors =>
    rw [run, PartitionFields.readSectors, Nat.mod_add_mod, Nat.add_comm (_ * _)]
    rfl
  | sectorsEx p sStart nSectors =>
    rw [run, PartitionFields.readSectorsEx, Nat.mod_add_mod, Nat.add_comm (_ * _)]
    rfl

theorem readAt_cases (valid : Bool) (lOffset len : Nat) :
    (¬(valid = true ∧ sys.setFilePointerEx ≠ invalidSetFilePointer ∧
        ∃ bytesRecv, sys.readFile = .received bytesRecv) ∧
      (readAt device fresh sys valid lOffset len position).1 = none) ∨
    ∃ bytesRecv, valid = true ∧ sys.setFilePointerEx ≠ invalidSetFilePointer ∧
      sys.readFile = .received bytesRecv ∧
      (readAt device fresh sys valid lOffset len position).1 = some ⟨len, fun i =>
        if i < min bytesRecv len then
          device ((if sys.setFilePointerEx = 0 then position else lOffset) + i)
        else fresh i⟩ := by
  cases valid with
  | false => exact .inl ⟨fun h => Bool.noConfusion h.1, rfl⟩
  | true =>
    by_cases hinvalid : sys.setFilePointerEx = invalidSetFilePointer
    · refine .inl ⟨fun h => h.2.1 hinvalid, ?_⟩
      rw [readAt, if_pos rfl, if_pos hinvalid]
    · rw [readAt, if_pos rfl, if_neg hinvalid]
      cases hread : sys.readFile with
      | failed p =>
        refine .inl ⟨?_, rfl⟩
        rintro ⟨-, -, bytesRecv, h⟩
        cases h
      | received bytesRecv => exact .inr ⟨bytesRecv, rfl, hinvalid, rfl, rfl⟩

/-- The position behind a call does not depend on what the device and the memory hold. -/
theorem run_position (call : ReadCall) :
    (call.run device fresh sys position).2 = positionAfter call sys position := by
  rw [positionAfter, call.run_eq, call.run_eq, readAt, readAt]
  repeat' split
  all_goals rfl

/-- A seek arrives if and only if the read starts where it was asked for. -/
theorem seekArrives_iff (call : ReadCall) :
    SeekArrives call sys position ↔
      (if sys.setFilePointerEx = 0 then position else call.asked % 2 ^ 64) = call.asked := by
  unfold SeekArrives
  by_cases hzero : sys.setFilePointerEx = 0
  · simp [hzero]
  · simp [hzero]

theorem ReadsWhole.returnsAsked {call : ReadCall} (h : ReadsWhole call sys position) :
    ReturnsAsked device (call, sys) (call.run device fresh sys position).1 := by
  intro buffer hbuffer i hi
  rw [call.run_eq] at hbuffer
  obtain ⟨-, hnone⟩ | ⟨bytesRecv, hvalid, hinvalid, hread, hsome⟩ :=
    @readAt_cases device fresh sys position call.valid (call.asked % 2 ^ 64) call.length
  · rw [hnone] at hbuffer
    cases hbuffer
  · rw [hsome] at hbuffer
    cases hbuffer
    have hpos : call.length ≠ 0 := Nat.ne_of_gt (Nat.zero_lt_of_lt hi)
    obtain ⟨hseek, hwhole⟩ := h hvalid hinvalid bytesRecv hread hpos
    dsimp only
    rw [(seekArrives_iff call).mp hseek, Nat.min_eq_right hwhole, if_pos hi]

def markedDevice (mark : Nat) (x : Nat) : UInt8 := if x = mark then 1 else 0

/-- **One call**: whatever device and memory hold, it returns what was asked for exactly if it
reads all of it there. -/
theorem returnsAsked_iff (call : ReadCall) :
    (∀ device fresh, ReturnsAsked device (call, sys) (call.run device fresh sys position).1) ↔
      ReadsWhole call sys position := by
  refine ⟨fun h hvalid hinvalid bytesRecv hread hpos => ?_, fun h _ _ => h.returnsAsked⟩
  have hbuffer : ∀ (device fresh : Nat → UInt8) (i : Nat), i < call.length →
      (if i < min bytesRecv call.length then
        device ((if sys.setFilePointerEx = 0 then position else call.asked % 2 ^ 64) + i)
      else fresh i) = device (call.asked + i) := by
    intro device fresh i hi
    obtain ⟨hgives, -⟩ | ⟨bytesRecv', -, -, hread', hsome⟩ :=
      @readAt_cases device fresh sys position call.valid (call.asked % 2 ^ 64) call.length
    · exact absurd ⟨hvalid, hinvalid, bytesRecv, hread⟩ hgives
    · rw [hread] at hread'
      cases hread'
      rw [← call.run_eq] at hsome
      exact h device fresh _ hsome i hi
  -- memory without a zero tells a byte that was not read
  have hwhole : call.length ≤ bytesRecv := by
    by_contra hshort
    have hlt : bytesRecv < call.length := Nat.lt_of_not_le hshort
    have hbyte := hbuffer (fun _ => 0) (fun _ => 1) bytesRecv hlt
    rw [if_neg (by omega)] at hbyte
    cases hbyte
  refine ⟨(seekArrives_iff call).mpr ?_, hwhole⟩
  have hfirst := hbuffer (markedDevice call.asked) (fun _ => 0) 0 (Nat.pos_of_ne_zero hpos)
  rw [if_pos (by omega), Nat.add_zero, Nat.add_zero] at hfirst
  by_contra hother
  rw [markedDevice, markedDevice, if_neg hother, if_pos rfl] at hfirst
  cases hfirst

end OneCall

/-! ## Reads that are told whether they succeed

`Partition.readSectorsEx` takes one `ok` for all that the system answers. -/

/-- The seek succeeds, and a read that does not fail is not cut short. -/
structure SystemCalls.Complete (sys : SystemCalls) (len : Nat) : Prop where
  moved : sys.setFilePointerEx ≠ 0
  accepted : sys.setFilePointerEx ≠ invalidSetFilePointer
  whole : ∀ bytesRecv, sys.readFile = .received bytesRecv → len ≤ bytesRecv

def SystemCalls.ok (sys : SystemCalls) : Bool :=
  match sys.readFile with
  | .failed _ => false
  | .received _ => true

namespace PartitionFields

variable {device fresh : Nat → UInt8} {sys : SystemCalls} {position : Nat}

/-- The partition that the rest of the development reads. -/
def object (p : PartitionFields) (device heap : Nat → UInt8) : Partition :=
  ⟨p.sectorSize.toNat, p.offset.toNat, device, heap⟩

theorem readSectorsEx_eq (p : PartitionFields) (sStart : UInt64) (nSectors : UInt32) {len : Nat}
    (hlen : len = nSectors.toNat * p.sectorSize.toNat % 2 ^ 32) (hvalid : p.partHandler = true)
    (h : sys.Complete len) :
    (p.readSectorsEx device fresh sys sStart nSectors position).1 =
      (p.object device fun i => fresh (i + len)).readSectorsEx sys.ok sStart.toNat
        nSectors.toNat := by
  subst hlen
  rw [readSectorsEx, Partition.readSectorsEx, readAt, if_pos hvalid, if_neg h.accepted,
    if_neg h.moved, SystemCalls.ok]
  cases hread : sys.readFile with
  | failed position => rfl
  | received bytesRecv =>
    dsimp only
    rw [Nat.min_eq_right (h.whole bytesRecv hread), if_pos rfl, Partition.bufferAt]
    refine congrArg (fun byte => some (Buffer.mk _ byte)) (funext fun i => ?_)
    by_cases hi : i < nSectors.toNat * p.sectorSize.toNat % 2 ^ 32
    · rw [if_pos hi]
      exact (if_pos hi).symm
    · rw [if_neg hi]
      refine Eq.trans (congrArg fresh ?_) (if_neg hi).symm
      exact (Nat.sub_add_cancel (Nat.le_of_not_lt hi)).symm

theorem readSectors_eq (p : PartitionFields) (sStart nSectors : UInt32) {len : Nat}
    (hlen : len = nSectors.toNat * p.sectorSize.toNat % 2 ^ 32) (hvalid : p.partHandler = true)
    (h : sys.Complete len) :
    (p.readSectors device fresh sys sStart nSectors position).1 =
      (p.object device fun i => fresh (i + len)).readSectors sys.ok sStart.toNat
        nSectors.toNat := by
  have hex := @readSectorsEx_eq device fresh sys position p sStart.toUInt64 nSectors len hlen
    hvalid h
  rw [readSectorsEx, UInt32.toNat_toUInt64] at hex
  rw [readSectors, hex, Partition.readSectors, Nat.mod_eq_of_lt sStart.toNat_lt]

end PartitionFields

/-! ## A run of calls -/

/-- **A run of sector reads** returns NULL or the bytes asked for, whatever device and memory
hold, exactly if each call that does not give up reads all of it where it was asked for. -/
theorem sector_reads_return_asked_iff (position : Nat) (calls : List (ReadCall × SystemCalls)) :
    (∀ device memory, List.Forall₂ (ReturnsAsked device) calls
      (results device memory position calls)) ↔ AllReadWhole position calls := by
  induction calls generalizing position with
  | nil => exact iff_of_true (fun _ _ => .nil) trivial
  | cons head calls ih =>
    obtain ⟨call, sys⟩ := head
    simp only [results, List.forall₂_cons, run_position, AllReadWhole]
    rw [← returnsAsked_iff, ← ih]
    constructor
    · refine fun h => ⟨fun device fresh => (h device fun _ => fresh).1, fun device memory => ?_⟩
      exact (h device fun n => memory (n - 1)).2
    · exact fun h device memory => ⟨h.1 device (memory 0), h.2 device fun n => memory (n + 1)⟩

/-- The superblock asked for behind a seek that fails, after the read of the MBR. -/
theorem failed_seek_reads_on :
    ¬∀ position calls device memory, List.Forall₂ (ReturnsAsked device) calls
      (results device memory position calls) := by
  intro h
  have hruns := h 0 [(.data ⟨true, 512⟩ 0 1, ⟨1, .received 512⟩),
    (.sectors ⟨true, 512, 0⟩ 2 2, ⟨0, .received 1024⟩)] (markedDevice 1024) fun _ _ => 0
  simp only [results, List.forall₂_cons] at hruns
  have hbyte := hruns.2.1 _ rfl 0 (by decide)
  exact absurd hbyte (by decide)

end Ext4tc.DiskUtils
