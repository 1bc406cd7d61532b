import LaOS.RingSlots
import LaOS.TransitionSystem

/-!
# The transmit ring

`e1000_send_packet` next to a device that completes submitted descriptors in order.  The
status of a descriptor is not tested before it is filled, so the driver keeps clear of
the device only while fewer than 255 descriptors are outstanding.
-/

namespace LaOS.Transmit

open Option List Function RingSlots

abbrev Byte : Type := BitVec 8

abbrev Thread : Type := Nat

def numTxDesc : Nat := 256

/-- `E1000_TX_BUFFER_SIZE`. -/
def txBufferSize : Nat := 4096

/-- The number of unsuccessful looks at a descriptor before a call gives up. -/
def pollLimit : Nat := 10000000

/-- `TX_CMD_EOP | TX_CMD_IFCS | TX_CMD_RS`. -/
def txCommand : Nat := 0x0B

/-- A descriptor; `dd` is the lowest bit of `status`. -/
structure Desc where
  length : Nat
  cmd : Nat
  dd : Bool

inductive Call
  | idle (result : Option Int)
  | waiting (data : List Byte)
  | locked (data : List Byte)
  | loaded (data : List Byte) (i : Nat)
  | copied (length i : Nat)
  | lengthSet (i : Nat)
  | cmdSet (i : Nat)
  | cleared (i : Nat)
  | advanced (i : Nat)
  | polling (i iter : Nat)

structure State where
  ring : Nat → Desc
  buffers : Nat → List Byte
  txTail : Nat
  lock : Option Thread
  calls : Thread → Call
  /-- The registers `TDH` and `TDT`. -/
  tdh : Nat
  tdt : Nat
  /-- The descriptors that were submitted and that the device has not completed, oldest
  first. -/
  outstanding : List Nat

namespace State

def goto (s : State) (t : Thread) (call : Call) : State :=
  { s with calls := update s.calls t call }

@[simp]
theorem calls_goto {s : State} {t : Thread} {call : Call} :
    (s.goto t call).calls t = call :=
  update_self ..

def setDesc (s : State) (i : Nat) (desc : Desc) : State :=
  { s with ring := update s.ring i desc }

end State

def stepCall (s : State) (t : Thread) : Option State :=
  match s.calls t with
  | .idle _ => none
  | .waiting data =>
    if s.lock.isNone then some ({ s with lock := some t }.goto t (.locked data))
    else none
  | .locked data => some (s.goto t (.loaded data s.txTail))
  | .loaded data i =>
    some ({ s with
        buffers := update s.buffers i
          (data ++ (s.buffers i).drop data.length) }.goto
      t (.copied data.length i))
  | .copied length i =>
    some ((s.setDesc i { s.ring i with length := length }).goto
      t (.lengthSet i))
  | .lengthSet i =>
    some ((s.setDesc i { s.ring i with cmd := txCommand }).goto
      t (.cmdSet i))
  | .cmdSet i =>
    some ((s.setDesc i { s.ring i with dd := false }).goto t (.cleared i))
  | .cleared i =>
    some ({ s with txTail := (i + 1) % numTxDesc }.goto t (.advanced i))
  | .advanced i =>
    some ({ s with tdt := s.txTail, outstanding := s.outstanding ++ [i] }.goto
      t (.polling i 0))
  | .polling i iter =>
    if (s.ring i).dd then
      some ({ s with lock := none }.goto t (.idle (some 0)))
    else if iter + 1 > pollLimit then
      some ({ s with lock := none }.goto t (.idle (some (-1))))
    else some (s.goto t (.polling i (iter + 1)))

inductive Action
  | call (t : Thread) (data : List Byte)
  | step (t : Thread)
  | complete

/-- A thread enters `e1000_send_packet`, a thread takes its next step, or the device
completes the oldest descriptor. -/
def step (s : State) : Action → Option State
  | .call t data =>
    match s.calls t with
    | .idle _ =>
      if data.length > txBufferSize then some (s.goto t (.idle (some (-1))))
      else some (s.goto t (.waiting data))
    | _ => none
  | .step t => stepCall s t
  | .complete =>
    match s.outstanding with
    | [] => none
    | i :: rest =>
      some { s.setDesc i { s.ring i with dd := true } with
        tdh := (s.tdh + 1) % numTxDesc
        outstanding := rest }

/-- After `e1000_init_tx`. -/
def afterInit (buffers : Nat → List Byte) : State where
  ring := fun _ => ⟨0, 0, true⟩
  buffers := buffers
  txTail := 0
  lock := none
  calls := fun _ => .idle none
  tdh := 0
  tdt := 0
  outstanding := []

def system : TransitionSystem State Action where
  initial := fun s => ∃ buffers, s = afterInit buffers
  step := step

def Call.writes : Call → Option Nat
  | .loaded _ i | .copied _ i | .lengthSet i | .cmdSet i => some i
  | _ => none

/-- No thread is about to write a slot that the device owns, or to move `TDT` onto the
head. -/
structure KeepsClear (s : State) : Prop where
  writes : ∀ t i, (s.calls t).writes = some i → i ∉ s.outstanding
  tdt : ∀ t i, s.calls t = .advanced i → s.txTail ≠ s.tdh

/-- A call that takes the lock finds fewer than 255 descriptors outstanding. -/
def Spaced (s : State) : Action → Prop
  | .step t =>
    (∃ data, s.calls t = .waiting data) → s.outstanding.length + 1 < numTxDesc
  | _ => True

/-- The outstanding descriptors are those from the head to the tail. -/
structure RingOk (tdh tdt : Nat) (outstanding : List Nat) : Prop where
  head : tdh < numTxDesc
  queue : outstanding = slots numTxDesc tdh outstanding.length
  tail : tdt = (tdh + outstanding.length) % numTxDesc

def Call.Holding : Call → Prop
  | .idle _ | .waiting _ => False
  | _ => True

/-- What the holder of the lock knows about the tail and the number of outstanding
descriptors. -/
def CallOk (txTail tdt count : Nat) : Call → Prop
  | .idle _ | .waiting _ => True
  | .locked _ => txTail = tdt ∧ count + 1 < numTxDesc
  | .loaded _ i | .copied _ i | .lengthSet i | .cmdSet i | .cleared i =>
    txTail = tdt ∧ i = tdt ∧ count + 1 < numTxDesc
  | .advanced i => txTail = (tdt + 1) % numTxDesc ∧ i = tdt ∧ count + 1 < numTxDesc
  | .polling _ _ => txTail = tdt

structure Inv (s : State) : Prop where
  ring : RingOk s.tdh s.tdt s.outstanding
  free : s.lock = none → s.txTail = s.tdt
  holder : ∀ t, (s.calls t).Holding → s.lock = some t
  calls : ∀ t, CallOk s.txTail s.tdt s.outstanding.length (s.calls t)

variable {s after : State} {t : Thread} {call : Call} {txTail tdt count less : Nat}

theorem callOk_of_not_holding (notHolding : ¬ call.Holding) : CallOk txTail tdt count call := by
  cases call with
  | idle | waiting => exact trivial
  | _ => exact absurd trivial notHolding

theorem CallOk.mono (ok : CallOk txTail tdt count call) (fewer : less ≤ count) :
    CallOk txTail tdt less call := by
  cases call with
  | idle | waiting | polling => exact ok
  | locked => exact ⟨ok.1, by have := ok.2; omega⟩
  | _ => exact ⟨ok.1, ok.2.1, by have := ok.2.2; omega⟩

theorem inv_afterInit (buffers : Nat → List Byte) : Inv (afterInit buffers) where
  ring := ⟨Nat.zero_lt_succ 255, rfl, rfl⟩
  free := fun _ => rfl
  holder := fun _ holding => holding.elim
  calls := fun _ => trivial

theorem Inv.holder_moves (inv : Inv s) (mine : s.lock = none ∨ s.lock = some t)
    (calls : after.calls = update s.calls t call) (lock : after.lock = some t)
    (ring : RingOk after.tdh after.tdt after.outstanding)
    (ok : CallOk after.txTail after.tdt after.outstanding.length call) : Inv after := by
  have others : ∀ other, other ≠ t → ¬ (s.calls other).Holding := by
    intro other ne holding
    have held := inv.holder other holding
    rcases mine with free | holds
    · cases free.symm.trans held
    · exact ne (some.inj (held.symm.trans holds))
  refine ⟨ring, fun free => ?_, fun other holding => ?_, fun other => ?_⟩
  · cases free.symm.trans lock
  · by_cases isThread : other = t
    · rw [isThread]
      exact lock
    · rw [calls, update_of_ne isThread] at holding
      exact absurd holding (others other isThread)
  · by_cases isThread : other = t
    · rw [isThread, calls, update_self]
      exact ok
    · rw [calls, update_of_ne isThread]
      exact callOk_of_not_holding (others other isThread)

theorem Inv.outside_moves (inv : Inv s) (notHolding : ¬ call.Holding)
    (calls : after.calls = update s.calls t call)
    (lock : after.lock = none ∧ s.lock = some t ∨
      after.lock = s.lock ∧ ¬ (s.calls t).Holding)
    (same : after.txTail = s.txTail ∧ after.tdt = s.tdt ∧ after.tdh = s.tdh ∧
      after.outstanding = s.outstanding)
    (tail : s.txTail = s.tdt ∨ after.lock = s.lock) : Inv after := by
  obtain ⟨sameTail, sameTdt, sameTdh, sameOut⟩ := same
  refine ⟨?_, ?_, fun other holding => ?_, fun other => ?_⟩
  · rw [sameTdt, sameTdh, sameOut]
    exact inv.ring
  · intro free
    rw [sameTail, sameTdt]
    rcases tail with level | sameLock
    · exact level
    · exact inv.free (sameLock.symm.trans free)
  · by_cases isThread : other = t
    · rw [calls, isThread, update_self] at holding
      exact absurd holding notHolding
    rw [calls, update_of_ne isThread] at holding
    have held := inv.holder other holding
    rcases lock with ⟨-, wasMine⟩ | ⟨sameLock, -⟩
    · exact absurd (some.inj (held.symm.trans wasMine)) isThread
    · exact sameLock.trans held
  · by_cases isThread : other = t
    · rw [calls, isThread, update_self]
      exact callOk_of_not_holding notHolding
    · rw [calls, update_of_ne isThread, sameTail, sameTdt, sameOut]
      exact inv.calls other

theorem RingOk.submit {tdh : Nat} {outstanding : List Nat} (ok : RingOk tdh tdt outstanding) :
    RingOk tdh ((tdt + 1) % numTxDesc) (outstanding ++ [tdt]) := by
  refine ⟨ok.head, ?_, ?_⟩
  · rw [length_append, length_singleton, slots_succ, ← ok.queue, ← ok.tail]
  · rw [length_append, length_singleton, ok.tail, Nat.mod_add_mod, Nat.add_assoc]

variable {i : Nat}

theorem RingOk.complete {tdh : Nat} {rest : List Nat} (ok : RingOk tdh tdt (i :: rest)) :
    RingOk ((tdh + 1) % numTxDesc) tdt rest := by
  have queue := ok.queue
  rw [length_cons, slots_cons ok.head] at queue
  refine ⟨Nat.mod_lt _ (by decide), (cons.inj queue).2, ?_⟩
  rw [ok.tail, length_cons, Nat.mod_add_mod, Nat.add_right_comm, Nat.add_assoc]

theorem Inv.stepCall (inv : Inv s) (spaced : (∃ data, s.calls t = .waiting data) →
      s.outstanding.length + 1 < numTxDesc)
    (ran : stepCall s t = some after) : Inv after := by
  have mine := inv.holder t
  have ok := inv.calls t
  unfold Transmit.stepCall at ran
  cases phase : s.calls t with
  | idle result =>
    rw [phase] at ran
    cases ran
  | waiting data =>
    rw [phase] at ran
    have room := spaced ⟨data, phase⟩
    simp only [isNone_iff_eq_none] at ran
    obtain ⟨free, ⟨⟩⟩ := ite_none_right_eq_some.mp ran
    exact inv.holder_moves (.inl free) rfl rfl inv.ring ⟨inv.free free, room⟩
  | locked data =>
    rw [phase] at ran mine ok
    cases ran
    exact inv.holder_moves (.inr (mine trivial)) rfl (mine trivial) inv.ring ⟨ok.1, ok.1, ok.2⟩
  | loaded data i | copied length i | lengthSet i | cmdSet i =>
    rw [phase] at ran mine ok
    cases ran
    exact inv.holder_moves (.inr (mine trivial)) rfl (mine trivial) inv.ring ok
  | cleared i =>
    rw [phase] at ran mine ok
    cases ran
    refine inv.holder_moves (.inr (mine trivial)) rfl (mine trivial) inv.ring ?_
    exact ⟨by rw [ok.2.1]; rfl, ok.2.1, ok.2.2⟩
  | advanced i =>
    rw [phase] at ran mine ok
    cases ran
    obtain ⟨moved, atTail, -⟩ := ok
    refine inv.holder_moves (.inr (mine trivial)) rfl (mine trivial) ?_ rfl
    have submitted := inv.ring.submit
    rw [← moved] at submitted
    rw [atTail]
    exact submitted
  | polling i iter =>
    rw [phase] at ran mine ok
    simp only at ran
    split at ran
    · cases ran
      exact inv.outside_moves id rfl (.inl ⟨rfl, mine trivial⟩) ⟨rfl, rfl, rfl, rfl⟩ (.inl ok)
    · split at ran <;> cases ran
      · exact inv.outside_moves id rfl (.inl ⟨rfl, mine trivial⟩) ⟨rfl, rfl, rfl, rfl⟩ (.inl ok)
      · exact inv.holder_moves (.inr (mine trivial)) rfl (mine trivial) inv.ring ok

theorem Inv.step (inv : Inv s) {action : Action} (spaced : Spaced s action)
    (ran : step s action = some after) : Inv after := by
  cases action with
  | call t data =>
    unfold Transmit.step at ran
    cases phase : s.calls t with
    | idle result =>
      simp only [phase] at ran
      have outside : ¬ (s.calls t).Holding := by
        rw [phase]
        exact id
      split at ran <;> cases ran
      all_goals exact inv.outside_moves id rfl (.inr ⟨rfl, outside⟩) ⟨rfl, rfl, rfl, rfl⟩ (.inr rfl)
    | _ =>
      simp only [phase] at ran
      cases ran
  | step t => exact inv.stepCall spaced ran
  | complete =>
    unfold Transmit.step at ran
    cases queue : s.outstanding with
    | nil =>
      simp only [queue] at ran
      cases ran
    | cons i rest =>
      simp only [queue] at ran
      cases ran
      have ring := inv.ring
      rw [queue] at ring
      refine ⟨ring.complete, inv.free, inv.holder, fun other => (inv.calls other).mono ?_⟩
      rw [queue]
      exact Nat.le_succ _

theorem inv_of_reachable (reached : system.ReachableWhere Spaced s) : Inv s := by
  refine reached.invariant ?_ fun _ _ _ _ inv spaced ran => inv.step spaced ran
  rintro _ ⟨buffers, rfl⟩
  exact inv_afterInit buffers

theorem Inv.keepsClear (inv : Inv s) : KeepsClear s := by
  constructor
  · intro t i writes
    have notTaken : s.tdt ∉ s.outstanding ∨
        ¬ s.outstanding.length + 1 < numTxDesc := by
      by_cases room : s.outstanding.length + 1 < numTxDesc
      · rw [inv.ring.queue, inv.ring.tail]
        exact .inl (next_not_mem_slots (by omega))
      · exact .inr room
    have ok := inv.calls t
    cases phase : s.calls t with
    | loaded _ pos | copied _ pos | lengthSet pos | cmdSet pos =>
      rw [phase] at ok writes
      obtain ⟨-, atTail, room⟩ := ok
      cases writes
      rw [atTail]
      exact notTaken.resolve_right (not_not.mpr room)
    | _ =>
      rw [phase] at writes
      cases writes
  · intro t i phase
    have ok := inv.calls t
    rw [phase] at ok
    obtain ⟨moved, -, room⟩ := ok
    rw [moved, inv.ring.tail, Nat.mod_add_mod]
    exact next_ne_head inv.ring.head (by omega) room

/-- While every call that takes the lock finds fewer than 255 descriptors outstanding, the
driver writes no slot of the device and never moves `TDT` onto the head. -/
theorem transmit_keepsClear (reached : system.ReachableWhere Spaced s) : KeepsClear s :=
  (inv_of_reachable reached).keepsClear

theorem spaced_step (reached : system.ReachableWhere Spaced s) (action : Action)
    (spaced : Spaced s action) (ran : step s action = some after) :
    system.ReachableWhere Spaced after :=
  reached.next spaced ran

theorem reachable_step (reached : system.Reachable s) (action : Action)
    (ran : step s action = some after) : system.Reachable after :=
  reached.next trivial ran

/-- The first call has submitted its descriptor and polls for the completion. -/
theorem transmit_keepsClear_firstCall :
    ∃ s, system.ReachableWhere Spaced s ∧ s.calls 0 = .polling 0 0 ∧ s.outstanding = [0] ∧
      KeepsClear s := by
  have started : system.ReachableWhere Spaced (afterInit fun _ => []) := .start ⟨_, rfl⟩
  have called := spaced_step started (.call 0 [1]) trivial rfl
  have locked := spaced_step called (.step 0) (fun _ => Nat.lt_of_sub_eq_succ rfl) rfl
  have loaded := spaced_step locked (.step 0) (fun _ => Nat.lt_of_sub_eq_succ rfl) rfl
  have copied := spaced_step loaded (.step 0) (fun _ => Nat.lt_of_sub_eq_succ rfl) rfl
  have lengthSet := spaced_step copied (.step 0) (fun _ => Nat.lt_of_sub_eq_succ rfl) rfl
  have cmdSet := spaced_step lengthSet (.step 0) (fun _ => Nat.lt_of_sub_eq_succ rfl) rfl
  have cleared := spaced_step cmdSet (.step 0) (fun _ => Nat.lt_of_sub_eq_succ rfl) rfl
  have advanced := spaced_step cleared (.step 0) (fun _ => Nat.lt_of_sub_eq_succ rfl) rfl
  have polling := spaced_step advanced (.step 0) (fun _ => Nat.lt_of_sub_eq_succ rfl) rfl
  exact ⟨_, polling, rfl, rfl, transmit_keepsClear polling⟩

theorem reachable_timeout (reached : system.Reachable s) {iter : Nat}
    (phase : s.calls t = .polling i iter) (notDone : (s.ring i).dd = false)
    (within : iter ≤ pollLimit) :
    system.Reachable ({ s with lock := none }.goto t (.idle (some (-1)))) := by
  induction left : pollLimit - iter generalizing s iter with
  | zero =>
    refine reachable_step reached (.step t) ?_
    simp only [step, stepCall, phase, notDone]
    rw [if_neg nofun, if_pos (by omega)]
  | succ left ih =>
    have looked : system.Reachable (s.goto t (.polling i (iter + 1))) := by
      refine reachable_step reached (.step t) ?_
      simp only [step, stepCall, phase, notDone]
      rw [if_neg nofun, if_neg (by omega)]
    have later := ih looked State.calls_goto notDone (by omega) (by omega)
    simp only [State.goto, update_idem] at later
    exact later

theorem reachable_loaded (reached : system.Reachable s) {result : Option Int}
    (idle : s.calls 0 = .idle result) (free : s.lock = none) :
    system.Reachable ({ s with lock := some 0 }.goto 0 (.loaded [] s.txTail)) := by
  have called : system.Reachable (s.goto 0 (.waiting [])) := by
    refine reachable_step reached (.call 0 []) ?_
    simp only [step, idle]
    rfl
  have locked : system.Reachable ({ s with lock := some 0 }.goto 0 (.locked [])) := by
    refine reachable_step called (.step 0) ?_
    simp only [step, stepCall, State.goto, update_self, free, update_idem]
    rfl
  refine reachable_step locked (.step 0) ?_
  simp only [step, stepCall, State.goto, update_self, update_idem]

theorem reachable_advanced (reached : system.Reachable s)
    (loaded : s.calls 0 = .loaded [] i) :
    ∃ ring buffers, (ring i).dd = false ∧ system.Reachable
      ({ s with ring := ring, buffers := buffers, txTail := (i + 1) % numTxDesc }.goto 0
        (.advanced i)) := by
  have copied := reachable_step reached (.step 0) (by
    simp only [step, stepCall, loaded]
    rfl)
  have lengthSet := reachable_step copied (.step 0) rfl
  have cmdSet := reachable_step lengthSet (.step 0) rfl
  have cleared := reachable_step cmdSet (.step 0) rfl
  have advanced := reachable_step cleared (.step 0) rfl
  simp only [State.goto, State.setDesc, update_idem, update_self] at advanced
  exact ⟨update s.ring i ⟨0, txCommand, false⟩, _, by rw [update_self], advanced⟩

structure TimedOut (s : State) (count : Nat) : Prop where
  reached : system.Reachable s
  idle : ∃ result, s.calls 0 = .idle result
  free : s.lock = none
  tail : s.txTail = count % numTxDesc
  head : s.tdh = 0
  outstanding : s.outstanding = slots numTxDesc 0 count

theorem exists_timedOut (count : Nat) : ∃ s, TimedOut s count := by
  induction count with
  | zero => exact ⟨afterInit fun _ => [], .start ⟨_, rfl⟩, ⟨none, rfl⟩, rfl, rfl, rfl, rfl⟩
  | succ count ih =>
    obtain ⟨s, reached, ⟨result, idle⟩, free, tail, head, outstanding⟩ := ih
    obtain ⟨ring, buffers, notDone, advanced⟩ :=
      reachable_advanced (reachable_loaded reached idle free) State.calls_goto
    have polling := reachable_step advanced (.step 0) (by
      rfl)
    refine ⟨_, reachable_timeout polling State.calls_goto notDone (Nat.zero_le _),
      ⟨_, State.calls_goto⟩, rfl, ?_, head, ?_⟩
    · change (s.txTail + 1) % numTxDesc = _
      rw [tail, Nat.mod_add_mod]
    · change s.outstanding ++ [s.txTail] = _
      rw [outstanding, tail, slots_succ, Nat.zero_add]

/-- After 256 calls that timed out the next call is about to overwrite a buffer of the device;
the last moved `TDT` onto the head. -/
theorem timeouts_overwrite_owned : (∃ s, system.Reachable s ∧
      ∃ i, (s.calls 0).writes = some i ∧ i ∈ s.outstanding) ∧
    ∃ s, system.Reachable s ∧ s.outstanding ≠ [] ∧
      (∃ i, s.calls 0 = .advanced i) ∧ s.txTail = s.tdh := by
  constructor
  · obtain ⟨s, reached, ⟨result, idle⟩, free, tail, head, outstanding⟩ := exists_timedOut 256
    refine ⟨_, reachable_loaded reached idle free, s.txTail, ?_, ?_⟩
    · simp only [State.goto, update_self, Call.writes]
    · change s.txTail ∈ s.outstanding
      rw [outstanding, tail]
      exact mem_slots.mpr ⟨0, by decide, rfl⟩
  obtain ⟨s, reached, ⟨result, idle⟩, free, tail, head, outstanding⟩ := exists_timedOut 255
  obtain ⟨ring, buffers, -, advanced⟩ :=
    reachable_advanced (reachable_loaded reached idle free) State.calls_goto
  refine ⟨_, advanced, ?_, ⟨_, State.calls_goto⟩, ?_⟩
  · change s.outstanding ≠ []
    rw [outstanding]
    exact ne_nil_of_length_pos (by rw [length_slots]; decide)
  · change (s.txTail + 1) % numTxDesc = s.tdh
    rw [tail, head]
    rfl

end LaOS.Transmit
