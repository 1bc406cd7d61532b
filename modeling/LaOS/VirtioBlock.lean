import LaOS.TransitionSystem

/-!
# Reads from the block device

`virtio_pci_blk_bd_read`, next to a device that answers the requests of the single chain
in order, each after any delay.  Header, bounce buffer and status byte are shared by all
requests, and a used entry is counted only after a successful read.
-/

namespace LaOS.VirtioBlock

abbrev Byte : Type := BitVec 8

abbrev Sector : Type := Nat → Byte

abbrev Disk : Type := BitVec 64 → Sector

/-- `VIRTIO_BLK_SECTOR_SIZE`. -/
def sectorSize : Nat := 512

/-- `timeout` of `virtio_pci_blk_poll`. -/
def pollLimit : Nat := 10000000

def next (i : Nat) : Nat := (i + 1) % 65536

structure Request where
  sector : BitVec 64
  count : Nat
  done : Nat

namespace Request

/-- `sector + done`. -/
def current (req : Request) : BitVec 64 := req.sector + BitVec.ofNat 64 req.done

def advance (req : Request) : Request := { req with done := req.done + 1 }

/-- `(int)done`. -/
def asInt (req : Request) : Int :=
  if req.done < 2 ^ 31 then req.done else req.done - 2 ^ 32

/-- `done > 0 ? (int)done : -1`. -/
def partialResult (req : Request) : Int := if req.done > 0 then req.asInt else -1

end Request

inductive Driver
  | idle (last : Option (Request × Int))
  | building (req : Request)
  | headed (req : Request)
  | armed (req : Request)
  | counted (req : Request)
  | polling (req : Request) (left : Nat)
  | rechecking (req : Request)
  | seen (req : Request)
  | updated (req : Request)
  | passed (req : Request)
  | copied (req : Request)

/-- Where the device is with the oldest open request.  It says whether the data it wrote
is the sector asked for. -/
inductive Device
  | idle
  | fetched (sector : BitVec 64)
  | written (sound : Bool)
  | answered

structure State where
  initialized : Bool
  header : BitVec 64
  bounce : Sector
  status : Byte
  nextAvail : Nat
  availIdx : Nat
  usedIdx : Nat
  lastUsed : Nat
  buf : Nat → Byte
  driver : Driver
  device : Device
  /-- The available entries that the device has handled. -/
  deviceNext : Nat
  /-- The used entries that a poll of the driver has found. -/
  accounted : Nat

/-- `memcpy` of a sector to the given offset. -/
def copySector (buf : Nat → Byte) (base : Nat) (data : Sector) : Nat → Byte := fun offset =>
  if base ≤ offset ∧ offset < base + sectorSize then data (offset - base) else buf offset

def stepDriver (s : State) : Option State :=
  match s.driver with
  | .idle _ => none
  | .building req => some { s with header := req.current, driver := .headed req }
  | .headed req => some { s with status := 0xFF, driver := .armed req }
  | .armed req =>
    some { s with nextAvail := next s.nextAvail, driver := .counted req }
  | .counted req =>
    some { s with availIdx := s.nextAvail, driver := .polling req pollLimit }
  | .polling req left =>
    if s.usedIdx = s.lastUsed then
      match left with
      | 0 => some { s with driver := .rechecking req }
      | left + 1 => some { s with driver := .polling req left }
    else some { s with driver := .rechecking req }
  | .rechecking req =>
    if s.usedIdx = s.lastUsed then
      some { s with driver := .idle (some (req, req.partialResult)) }
    else some { s with accounted := s.accounted + 1, driver := .seen req }
  | .seen req =>
    if s.status = 0xFF then
      some { s with driver := .idle (some (req, req.partialResult)) }
    else some { s with driver := .updated req }
  | .updated req =>
    if s.status ≠ 0 then
      some { s with driver := .idle (some (req, req.partialResult)) }
    else some { s with driver := .passed req }
  | .passed req =>
    some { s with
      buf := copySector s.buf (req.done * sectorSize % 2 ^ 32) s.bounce
      driver := .copied req }
  | .copied req =>
    some { s with
      lastUsed := next s.lastUsed
      driver :=
        if req.advance.done < req.advance.count then .building req.advance
        else .idle (some (req.advance, req.advance.asInt)) }

inductive Action
  | call (sector : BitVec 64) (buf : Nat → Byte) (count : BitVec 32)
  | driver
  | fetch
  | writeData (other : Option Sector)
  | writeStatus (status : Byte)
  | complete

/-- A call, a step of the driver or a step of the device.  Status 0 says that the data is
the sector asked for. -/
def step (disk : Disk) (s : State) : Action → Option State
  | .call sector buf count =>
    match s.driver with
    | .idle _ =>
      let req : Request := ⟨sector, count.toNat, 0⟩
      some { s with
        buf := buf
        driver :=
          if !s.initialized then .idle (some (req, -1))
          else if count.toNat = 0 then .idle (some (req, 0))
          else .building req }
    | _ => none
  | .driver => stepDriver s
  | .fetch =>
    match s.device with
    | .idle =>
      if s.deviceNext = s.availIdx then none
      else some { s with device := .fetched s.header }
    | _ => none
  | .writeData other =>
    match s.device with
    | .fetched sector =>
      some { s with bounce := other.getD (disk sector), device := .written other.isNone }
    | _ => none
  | .writeStatus status =>
    match s.device with
    | .written sound =>
      if status = 0 ∧ !sound then none
      else some { s with status := status, device := .answered }
    | _ => none
  | .complete =>
    match s.device with
    | .answered =>
      some { s with
        usedIdx := next s.usedIdx
        deviceNext := next s.deviceNext
        device := .idle }
    | _ => none

/-- Before any call; `initialized` says whether the driver found a device. -/
def start (initialized : Bool) : State where
  initialized := initialized
  header := 0
  bounce := fun _ => 0
  status := 0
  nextAvail := 0
  availIdx := 0
  usedIdx := 0
  lastUsed := 0
  buf := fun _ => 0
  driver := .idle none
  device := .idle
  deviceNext := 0
  accounted := 0

def system (disk : Disk) : TransitionSystem State Action where
  initial := fun s => ∃ initialized, s = start initialized
  step := step disk

/-- The buffer starts with the given number of sectors of the disk. -/
def Holds (disk : Disk) (buf : Nat → Byte) (sector : BitVec 64) (count : Nat) : Prop :=
  ∀ i < count, ∀ offset < sectorSize,
    buf (i * sectorSize + offset) = disk (sector + BitVec.ofNat 64 i) offset

/-- After a call, the result counts sectors read correctly, and every used entry found is
counted in `g_last_used`. -/
structure Correct (disk : Disk) (s : State) : Prop where
  data : ∀ req result, s.driver = .idle (some (req, result)) → 0 < result →
    Holds disk s.buf req.sector result.toNat
  counted : ∀ last, s.driver = .idle last → s.lastUsed = s.accounted % 65536

/-- No request is open and no used entry is uncounted. -/
structure Settled (s : State) : Prop where
  device : s.device = .idle
  taken : s.deviceNext = s.availIdx
  used : s.usedIdx = s.lastUsed

/-- A call that reads something starts in a settled state and its offsets fit into 32 bits; the
device reports success. -/
def Smooth (s : State) : Action → Prop
  | .call _ _ count => count.toNat ≤ 2 ^ 23 ∧ (count.toNat ≠ 0 → Settled s)
  | .writeStatus status => status = 0
  | _ => True

variable {disk : Disk} {s after : State} {req : Request}

/-- How far the device is with the current request. -/
def Answering (disk : Disk) (s : State) (req : Request) : Prop :=
  match s.device with
  | .idle => True
  | .fetched sector => sector = req.current
  | .written sound => sound = true → s.bounce = disk req.current
  | .answered => s.bounce = disk req.current ∧ s.status = 0

structure InFlight (disk : Disk) (s : State) (req : Request) : Prop where
  taken : s.availIdx = next s.deviceNext
  used : s.usedIdx = s.lastUsed
  header : s.header = req.current
  answering : Answering disk s req

structure Delivered (disk : Disk) (s : State) (req : Request) : Prop where
  device : s.device = .idle
  taken : s.deviceNext = s.availIdx
  used : s.usedIdx = next s.lastUsed
  bounce : s.bounce = disk req.current
  status : s.status = 0

def DeviceOk (disk : Disk) (s : State) : Prop :=
  match s.driver with
  | .idle _ => True
  | .building _ | .headed _ | .armed _ | .counted _ => Settled s
  | .polling req _ | .rechecking req =>
    InFlight disk s req ∨ Delivered disk s req
  | .seen req | .updated req | .passed req | .copied req =>
    Delivered disk s req

structure Going (disk : Disk) (buf : Nat → Byte) (req : Request) : Prop where
  more : req.done < req.count
  bound : req.count ≤ 2 ^ 23
  filled : Holds disk buf req.sector req.done

def DriverOk (disk : Disk) (s : State) : Prop :=
  match s.driver with
  | .idle last =>
    s.nextAvail = s.availIdx ∧ s.lastUsed = s.accounted % 65536 ∧
      ∀ req result, last = some (req, result) → 0 < result →
        Holds disk s.buf req.sector result.toNat
  | .building req | .polling req _ | .rechecking req =>
    s.nextAvail = s.availIdx ∧ s.lastUsed = s.accounted % 65536 ∧
      Going disk s.buf req
  | .headed req | .armed req =>
    s.nextAvail = s.availIdx ∧ s.lastUsed = s.accounted % 65536 ∧
      s.header = req.current ∧ Going disk s.buf req
  | .counted req =>
    s.nextAvail = next s.availIdx ∧ s.lastUsed = s.accounted % 65536 ∧
      s.header = req.current ∧ Going disk s.buf req
  | .seen req | .updated req | .passed req =>
    s.nextAvail = s.availIdx ∧ next s.lastUsed = s.accounted % 65536 ∧
      Going disk s.buf req
  | .copied req =>
    s.nextAvail = s.availIdx ∧ next s.lastUsed = s.accounted % 65536 ∧
      Going disk s.buf req ∧ Holds disk s.buf req.sector (req.done + 1)

structure Inv (disk : Disk) (s : State) : Prop where
  driver : DriverOk disk s
  device : DeviceOk disk s

theorem inv_start (initialized : Bool) : Inv disk (start initialized) :=
  ⟨⟨rfl, rfl, nofun⟩, trivial⟩

theorem next_ne {i : Nat} : next i ≠ i := by
  unfold next
  omega

theorem next_mod {count i : Nat} (counted : i = count % 65536) :
    next i = (count + 1) % 65536 := by
  rw [counted, next, Nat.mod_add_mod]

variable {buf : Nat → Byte}

theorem Going.partialResult (going : Going disk buf req)
    (positive : 0 < req.partialResult) :
    Holds disk buf req.sector req.partialResult.toNat := by
  obtain ⟨more, bound, filled⟩ := going
  have small : req.asInt = req.done := by
    unfold Request.asInt
    rw [if_pos (by omega)]
  unfold Request.partialResult at positive ⊢
  split
  · rw [small]
    exact filled
  · next none =>
    rw [if_neg none] at positive
    cases positive

variable {sector : BitVec 64}

theorem Holds.copySector {done : Nat}
    (holds : Holds disk buf sector done) (bound : done < 2 ^ 23) {data : Sector}
    (isSector : data = disk (sector + BitVec.ofNat 64 done)) :
    Holds disk (copySector buf (done * sectorSize % 2 ^ 32) data) sector (done + 1) := by
  intro i below offset inside
  have base : done * sectorSize % 2 ^ 32 = done * sectorSize := by
    unfold sectorSize
    omega
  unfold sectorSize at inside
  rw [base]
  unfold VirtioBlock.copySector sectorSize
  by_cases isLast : i = done
  · subst isLast
    rw [if_pos ⟨by omega, by omega⟩, isSector, Nat.add_sub_cancel_left]
  · rw [if_neg (by omega)]
    exact holds i (by omega) offset inside

theorem Inv.stepDriver (inv : Inv disk s) (taken : stepDriver s = some after) :
    Inv disk after := by
  obtain ⟨driver, device⟩ := inv
  unfold VirtioBlock.stepDriver at taken
  unfold DriverOk at driver
  unfold DeviceOk at device
  generalize s.driver = phase at taken driver device
  cases phase with
  | idle last => cases taken
  | building req =>
    cases taken
    exact ⟨⟨driver.1, driver.2.1, rfl, driver.2.2⟩, { device with }⟩
  | headed req =>
    cases taken
    exact ⟨driver, { device with }⟩
  | armed req =>
    cases taken
    exact ⟨⟨congrArg next driver.1, driver.2⟩, { device with }⟩
  | counted req =>
    cases taken
    obtain ⟨advanced, account, header, going⟩ := driver
    refine ⟨⟨rfl, account, going⟩, .inl ⟨?_, device.used, header, ?_⟩⟩
    · exact advanced.trans (congrArg next device.taken.symm)
    · unfold Answering
      rw [device.device]
      exact trivial
  | polling req left =>
    simp only at taken
    have kept : ∀ {moved : State}, moved = { s with driver := moved.driver } →
        InFlight disk moved req ∨ Delivered disk moved req := by
      intro moved same
      rw [same]
      exact device.imp (fun flying => { flying with }) fun ready => { ready with }
    split at taken
    · cases left with
      | zero | succ left =>
        cases taken
        exact ⟨driver, kept rfl⟩
    · cases taken
      exact ⟨driver, kept rfl⟩
  | rechecking req =>
    simp only at taken
    obtain ⟨level, account, going⟩ := driver
    split at taken <;> cases taken
    next =>
      refine ⟨⟨level, account, fun _ _ same positive => ?_⟩, trivial⟩
      cases same
      exact going.partialResult positive
    next uncounted =>
      rcases device with flying | ready
      · exact absurd flying.used uncounted
      · exact ⟨⟨level, next_mod account, going⟩, { ready with }⟩
  | seen req =>
    simp only at taken
    rw [if_neg (by rw [device.status]; decide)] at taken
    cases taken
    exact ⟨driver, { device with }⟩
  | updated req =>
    simp only at taken
    rw [if_neg (not_not.mpr device.status)] at taken
    cases taken
    exact ⟨driver, { device with }⟩
  | passed req =>
    cases taken
    obtain ⟨level, account, going⟩ := driver
    have filled := going.filled.copySector (by have := going.more; have := going.bound; omega)
      device.bounce
    refine ⟨⟨level, account, { going with filled := ?_ }, filled⟩, { device with }⟩
    exact fun i below => filled i (by omega)
  | copied req =>
    simp only at taken
    obtain ⟨level, account, going, filled⟩ := driver
    split at taken <;> cases taken
    next more => exact ⟨⟨level, account, more, going.bound, filled⟩, { device with }⟩
    next =>
      refine ⟨⟨level, account, fun _ _ same _ => ?_⟩, trivial⟩
      have small : req.advance.asInt = req.done + 1 := by
        have := going.more
        have := going.bound
        unfold Request.asInt Request.advance
        rw [if_pos (by dsimp only; omega)]
        rfl
      cases same
      rw [small]
      exact filled

def Action.OfDevice : Action → Prop
  | .call _ _ _ | .driver => False
  | .writeStatus status => status = 0
  | .fetch | .writeData _ | .complete => True

variable {action : Action}

theorem step_of_nothing_open (ofDevice : action.OfDevice)
    (idle : s.device = .idle) (nothing : s.deviceNext = s.availIdx) :
    step disk s action = none := by
  cases action with
  | call | driver => exact ofDevice.elim
  | fetch =>
    simp only [step, idle]
    rw [if_pos nothing]
  | writeData | writeStatus | complete => simp only [step, idle]

theorem InFlight.deviceStep (ofDevice : action.OfDevice)
    (flying : InFlight disk s req) (taken : step disk s action = some after) :
    InFlight disk after req ∨ Delivered disk after req := by
  obtain ⟨opened, used, header, answering⟩ := flying
  unfold Answering at answering
  unfold step at taken
  generalize s.device = device at taken answering
  cases action with
  | call | driver => exact ofDevice.elim
  | fetch =>
    cases device with
    | idle =>
      rw [if_neg (by rw [opened]; exact next_ne.symm)] at taken
      cases taken
      exact .inl ⟨opened, used, header, header⟩
    | _ => cases taken
  | writeData other =>
    cases device with
    | fetched sector =>
      cases taken
      refine .inl ⟨opened, used, header, fun sound => ?_⟩
      cases other with
      | none => exact congrArg disk answering
      | some => cases sound
    | _ => cases taken
  | writeStatus status =>
    cases device with
    | written sound =>
      obtain ⟨wellFormed, ⟨⟩⟩ := Option.ite_none_left_eq_some.mp taken
      refine .inl ⟨opened, used, header, answering ?_, ofDevice⟩
      by_contra unsound
      rw [Bool.not_eq_true] at unsound
      exact wellFormed ⟨ofDevice, by rw [unsound]; rfl⟩
    | _ => cases taken
  | complete =>
    cases device with
    | answered =>
      cases taken
      exact .inr ⟨rfl, opened.symm, congrArg next used, answering.1, answering.2⟩
    | _ => cases taken

theorem deviceStep_keeps (ofDevice : action.OfDevice)
    (taken : step disk s action = some after) : after = { s with
      bounce := after.bounce, status := after.status, usedIdx := after.usedIdx,
      device := after.device, deviceNext := after.deviceNext } := by
  cases action with
  | call | driver => exact ofDevice.elim
  | fetch | writeStatus =>
    unfold step at taken
    simp only at taken
    split at taken
    · split at taken <;> cases taken
      rfl
    · cases taken
  | writeData | complete =>
    unfold step at taken
    simp only at taken
    split at taken <;> cases taken
    rfl

theorem Inv.deviceStep (inv : Inv disk s) (taken : step disk s action = some after)
    (ofDevice : action.OfDevice) : Inv disk after := by
  have kept := deviceStep_keeps ofDevice taken
  have sameDriver : after.driver = s.driver := by rw [kept]
  refine ⟨?_, ?_⟩
  · rw [kept]
    exact inv.driver
  have device := inv.device
  unfold DeviceOk at device ⊢
  rw [sameDriver]
  generalize s.driver = phase at device ⊢
  cases phase with
  | idle => exact trivial
  | building | headed | armed | counted | seen | updated | passed | copied =>
    cases (step_of_nothing_open ofDevice device.device device.taken).symm.trans taken
  | polling req | rechecking req =>
    rcases device with flying | ready
    · exact flying.deviceStep ofDevice taken
    · cases (step_of_nothing_open ofDevice ready.device ready.taken).symm.trans taken

theorem Inv.call (inv : Inv disk s) {count : BitVec 32}
    (smooth : Smooth s (.call sector buf count))
    (taken : step disk s (.call sector buf count) = some after) : Inv disk after := by
  have driver := inv.driver
  unfold DriverOk at driver
  unfold step at taken
  generalize s.driver = phase at driver taken
  cases phase with
  | idle last =>
    obtain ⟨level, account, -⟩ := driver
    obtain ⟨bound, settled⟩ := smooth
    simp only at taken
    split at taken
    · cases taken
      refine ⟨⟨level, account, fun _ _ same positive => ?_⟩, trivial⟩
      cases same
      cases positive
    split at taken <;> cases taken
    next =>
      refine ⟨⟨level, account, fun _ _ same positive => ?_⟩, trivial⟩
      cases same
      cases positive
    next positive =>
      refine ⟨⟨level, account, ?_, bound, nofun⟩, { settled positive with }⟩
      exact Nat.pos_of_ne_zero positive
  | _ => cases taken

theorem Inv.step (inv : Inv disk s) (smooth : Smooth s action)
    (taken : step disk s action = some after) : Inv disk after := by
  cases action with
  | call => exact inv.call smooth taken
  | driver => exact inv.stepDriver taken
  | fetch | writeData | complete => exact inv.deviceStep taken trivial
  | writeStatus => exact inv.deviceStep taken smooth

theorem Inv.correct (inv : Inv disk s) : Correct disk s := by
  have driver := inv.driver
  unfold DriverOk at driver
  constructor
  · intro req result phase positive
    rw [phase] at driver
    exact driver.2.2 req result rfl positive
  · intro last phase
    rw [phase] at driver
    exact driver.2.1

/-- When calls start in settled states and the device reports success, reads return what is on
the disk and all used entries found are counted. -/
theorem reads_correct (reached : (system disk).ReachableWhere Smooth s) :
    Correct disk s := by
  have inv : Inv disk s := by
    refine reached.invariant ?_ fun _ _ _ _ inv smooth taken => inv.step smooth taken
    rintro _ ⟨initialized, rfl⟩
    exact inv_start initialized
  exact inv.correct

theorem smooth_step (reached : (system disk).ReachableWhere Smooth s) (action : Action)
    (smooth : Smooth s action) (taken : step disk s action = some after) :
    (system disk).ReachableWhere Smooth after :=
  reached.next smooth taken

def numberedDisk : Disk := fun sector _ => BitVec.ofNat 8 sector.toNat

/-- A read of one sector with an answer of the device between the polls. -/
theorem reads_correct_oneSector :
    ∃ s req, (system numberedDisk).ReachableWhere Smooth s ∧
      s.driver = .idle (some (req, 1)) ∧ s.buf 0 = 5 ∧ Correct numberedDisk s := by
  have started : (system numberedDisk).ReachableWhere Smooth (start true) := .start ⟨true, rfl⟩
  have called := smooth_step started (.call 5 (fun _ => 0) 1)
    ⟨by decide, fun _ => ⟨rfl, rfl, rfl⟩⟩ rfl
  have headed := smooth_step called .driver trivial rfl
  have armed := smooth_step headed .driver trivial rfl
  have counted := smooth_step armed .driver trivial rfl
  have polling := smooth_step counted .driver trivial rfl
  have fetched := smooth_step polling .fetch trivial rfl
  have written := smooth_step fetched (.writeData none) trivial rfl
  have answered := smooth_step written (.writeStatus 0) rfl rfl
  have completed := smooth_step answered .complete trivial rfl
  have left := smooth_step completed .driver trivial rfl
  have seen := smooth_step left .driver trivial rfl
  have updated := smooth_step seen .driver trivial rfl
  have passed := smooth_step updated .driver trivial rfl
  have copied := smooth_step passed .driver trivial rfl
  have returned := smooth_step copied .driver trivial rfl
  exact ⟨_, _, returned, rfl, rfl, reads_correct returned⟩

/-- The device answers a request for sector 3 with status 1; one for sector 7 gives up because
of the uncounted entry and is answered during one for sector 9. -/
def staleAnswer : List Action :=
  [.call 3 (fun _ => 0) 1, .driver, .driver, .driver, .driver, .fetch, .writeData none,
    .writeStatus 1, .complete, .driver, .driver, .driver, .driver,
    .call 7 (fun _ => 0) 1, .driver, .driver, .driver, .driver, .fetch, .driver, .driver, .driver,
    .call 9 (fun _ => 0) 1, .driver, .driver, .driver, .driver, .writeData none, .writeStatus 0,
    .driver, .driver, .driver, .driver, .driver, .driver]

/-- A later call returns the data of another sector as its own, and the used entry of the failed
request is never counted. -/
theorem staleAnswer_wrong_sector : (∃ s req, (system numberedDisk).Reachable s ∧
      s.driver = .idle (some (req, 1)) ∧ req.sector = 9 ∧ s.buf 0 = 7 ∧
      numberedDisk 9 0 = 9) ∧
    ∃ s last, (system numberedDisk).Reachable s ∧ s.driver = .idle last ∧
      s.lastUsed = 0 ∧ s.accounted = 1 := by
  have started : (system numberedDisk).Reachable (start true) := .start ⟨true, rfl⟩
  exact ⟨⟨_, _, started.getD_run staleAnswer, rfl, rfl, rfl, rfl⟩,
    _, _, started.getD_run (staleAnswer.take 13), rfl, rfl, rfl⟩

end LaOS.VirtioBlock
