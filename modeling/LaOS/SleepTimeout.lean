import LaOS.SchedRuns

/-!
# Sleeping with a deadline

`schedule_timeout` stores the status and the deadline one after the other, and `pick_next`
runs a sleeping thread whose deadline has passed.
-/

namespace LaOS.Sleep

open Option Function
open Sched (Status Pc Frame SchedInv NoteUnrequested)

/-- Where a call of `schedule_timeout` is: after the test of the status, after each of the two
stores, and in or after `__schedule`. -/
inductive Phase
  | entered
  | marked
  | timed
  | waiting
  deriving DecidableEq

structure Call where
  phase : Phase
  start : Nat
  duration : Nat
  deriving DecidableEq

def Call.goto (call : Call) (phase : Phase) : Call := { call with phase }

/-- The tick that the call must not return before. -/
def Call.due (call : Call) : Nat := call.start + call.duration

structure State (Thread : Type) where
  sched : Sched.State Thread
  call : Thread → Option Call
  /-- Whether some call has returned before its time. -/
  early : Bool

variable {Thread : Type} [DecidableEq Thread]

namespace State

variable (s : State Thread)

def executing : Thread := s.sched.executing

def outside : Bool := !s.sched.panicked && (s.sched.frames s.executing).isEmpty

def storeCall (call : Option Call) : State Thread :=
  { s with call := Function.update s.call s.executing call }

end State

inductive Action (Thread : Type)
  | sched (action : Sched.Action Thread)
  | timeout (duration : Nat)
  | mark
  | deadline
  | enterSchedule
  | leave

/-- A thread inside a call does nothing else, and no other code changes its status. -/
def permits (s : State Thread) : Sched.Action Thread → Bool
  | .sleep | .setWakeup _ => false
  | .exec | .interrupt | .kick | .tick | .wake _ => true
  | .enqueue t _ => (s.call t).isNone
  | _ => (s.call s.executing).isNone

/-- The next access of a call of `schedule_timeout`. -/
def stepCall (s : State Thread) (call : Call) : Action Thread → Option (State Thread)
  | .mark =>
    if call.phase = .entered then
      some ({ s with sched := s.sched.storeStatus s.sched.current .sleeping }.storeCall
        (some (call.goto .marked)))
    else none
  | .deadline =>
    if call.phase = .marked then
      some ({ s with
        sched := { s.sched with
          wakeupTicks := Function.update s.sched.wakeupTicks s.sched.current
            (s.sched.ticks + call.duration) } }.storeCall (some (call.goto .timed)))
    else none
  | .enterSchedule =>
    if call.phase = .timed then
      some ({ s with sched := s.sched.call false [] }.storeCall (some (call.goto .waiting)))
    else none
  | .leave =>
    if call.phase = .waiting then
      some { s.storeCall none with
        early := s.early || decide (s.sched.ticks < call.due) }
    else none
  | _ => none

/-- A move of the scheduler, of other CPUs or of the running thread, or of a call. The idle
thread does not sleep. -/
def step (idle : Thread) (s : State Thread) : Action Thread → Option (State Thread)
  | .sched action =>
    if permits s action then
      (Sched.step idle s.sched action).map fun sched => { s with sched }
    else none
  | .timeout duration =>
    if s.outside ∧ s.sched.current ≠ idle then
      match s.call s.executing with
      | some _ => none
      | none =>
        if duration = 0 ∨ s.sched.status s.sched.current ≠ .running then some s
        else some (s.storeCall (some ⟨.entered, s.sched.ticks, duration⟩))
    else none
  | action =>
    if s.outside then
      match s.call s.executing with
      | none => none
      | some call => stepCall s call action
    else none

def system (idle : Thread) : TransitionSystem (State Thread) (Action Thread) where
  initial s := ∃ sched, (Sched.system idle).initial sched ∧
    s = ⟨sched, fun _ => none, false⟩
  step := step idle

/-- No interrupt reschedules between the two stores, and no request to reschedule arrives at the
end of `rcu_note_context_switch`. -/
def Unbroken (s : State Thread) : Action Thread → Prop
  | .sched action => NoteUnrequested s.sched action ∧
      (action = .interrupt → ∀ call, s.call s.executing = some call → call.phase ≠ .marked)
  | _ => True

instance (s : State Thread) (action : Action Thread) : Decidable (Unbroken s action) :=
  match action with
  | .sched action =>
    inferInstanceAs (Decidable (NoteUnrequested s.sched action ∧
      (action = .interrupt → ∀ call ∈ s.call s.executing, call.phase ≠ .marked)))
  | .timeout _ | .mark | .deadline | .enterSchedule | .leave => isTrue trivial

section Assertions

variable (calls : Thread → Option Call) (status : Thread → Status) (ticks : Nat)

def Over (t : Thread) : Prop :=
  ∀ call, calls t = some call → call.phase = .timed ∨ call.phase = .waiting → call.due ≤ ticks

def Awake (t : Thread) : Prop :=
  ∀ call, calls t = some call → call.phase = .entered → status t = .running

/-- A thread outside `__schedule` whose call went there has waited long enough. -/
def Back (t : Thread) : Prop :=
  (∀ call, calls t = some call → call.phase = .waiting → call.due ≤ ticks) ∧
    Awake calls status t

def PcOver (executing : Thread) : Pc Thread → Prop
  | .enter true => Back calls status ticks executing
  | .keepPrev (some (next, _)) | .rotate next _ | .setNext next => Over calls ticks next
  | .setPrev next | .unlockQueue next | .compare next | .noteNesting next | .noteDisable next
  | .noteEnable next | .noteTest next | .setCurrent next | .switchTo next =>
    Over calls ticks next ∧ Awake calls status next
  | .finish => Over calls ticks executing ∧ Awake calls status executing
  | _ => True

def TopOver (executing : Thread) : List (Frame Thread) → Prop
  | [] => Back calls status ticks executing
  | frame :: _ => PcOver calls status ticks executing frame.pc

/-- The stored deadlines are late enough, and only threads whose deadline has passed were woken. -/
structure CallsOk (idle : Thread) (wakeup : Thread → Nat) : Prop where
  idleFree : calls idle = none
  begun : ∀ t call, calls t = some call → call.start ≤ ticks
  kept : ∀ t call, calls t = some call → call.phase = .timed ∨ call.phase = .waiting →
    status t = .sleeping → call.due ≤ wakeup t
  elapsed : ∀ t, status t ≠ .sleeping → Over calls ticks t

end Assertions

structure SleepInv (idle : Thread) (s : State Thread) : Prop where
  sched : SchedInv idle s.sched
  calls : CallsOk s.call s.sched.status s.sched.ticks idle s.sched.wakeupTicks
  marked : ∀ t call, s.call t = some call → call.phase = .marked →
    t = s.executing ∧ s.sched.frames s.executing = [] ∧
      s.sched.status t = .sleeping
  top : TopOver s.call s.sched.status s.sched.ticks s.executing
    (s.sched.frames s.executing)
  punctual : s.early = false

section Assertions

variable {idle t next : Thread} {calls : Thread → Option Call} {status : Thread → Status}
  {ticks : Nat} {wakeup : Thread → Nat}

omit [DecidableEq Thread] in
theorem Over.back (elapsed : Over calls ticks t) (awake : Awake calls status t) :
    Back calls status ticks t :=
  ⟨fun call isCall isWaiting => elapsed call isCall (.inr isWaiting), awake⟩

section

variable (ok : CallsOk calls status ticks idle wakeup)

include ok

omit [DecidableEq Thread] in
theorem CallsOk.over_idle : Over calls ticks idle ∧ Awake calls status idle := by
  constructor
  all_goals
    intro call isCall
    cases ok.idleFree.symm.trans isCall

omit [DecidableEq Thread] in
theorem CallsOk.over_sleeper (sleeping : status t = .sleeping)
    (passed : wakeup t ≤ ticks) : Over calls ticks t := by
  intro call isCall phase
  exact Nat.le_trans (ok.kept t call isCall phase sleeping) passed

theorem CallsOk.storeStatus {value : Status}
    (elapsed : Over calls ticks t) (notSleeping : value ≠ .sleeping) :
    CallsOk calls (update status t value) ticks idle wakeup := by
  refine ⟨ok.idleFree, ok.begun, fun other call isCall phase sleeping => ?_, fun other awake => ?_⟩
  · by_cases isThread : other = t
    · rw [isThread, update_self] at sleeping
      exact absurd sleeping notSleeping
    · rw [update_of_ne isThread] at sleeping
      exact ok.kept other call isCall phase sleeping
  · by_cases isThread : other = t
    · rw [isThread]
      exact elapsed
    · rw [update_of_ne isThread] at awake
      exact ok.elapsed other awake

end

end Assertions

variable {frames : List (Frame Thread)}

section Schedule

variable {idle : Thread} {s : State Thread} {frame : Frame Thread}

theorem SleepInv.move (inv : SleepInv idle s)
    (unmarked : ∀ t call, s.call t = some call → call.phase ≠ .marked)
    {after : Sched.State Thread} (sched : SchedInv idle after)
    (framesEq : after.frames = update s.sched.frames s.sched.executing frames)
    (executingEq : after.executing = s.sched.executing)
    (calls : CallsOk s.call after.status after.ticks idle after.wakeupTicks)
    (top : TopOver s.call after.status after.ticks s.sched.executing frames) :
    SleepInv idle { s with sched := after } := by
  refine ⟨sched, calls, fun t call isCall isMarked => ?_, ?_, inv.punctual⟩
  · exact absurd isMarked (unmarked t call isCall)
  change TopOver s.call after.status after.ticks after.executing
    (after.frames after.executing)
  rw [executingEq, framesEq, update_self]
  exact top

theorem CallsOk.awake_storeStatus {calls : Thread → Option Call} {status : Thread → Status}
    {t next : Thread} {value : Status} (awake : Awake calls status next)
    (ne : next ≠ t) : Awake calls (update status t value) next := by
  intro call isCall isEntered
  rw [update_of_ne ne]
  exact awake call isCall isEntered

variable {executing : Thread}

omit [DecidableEq Thread] in
theorem PcOver.ite {calls : Thread → Option Call} {status : Thread → Status} {ticks : Nat}
    {pc pc' : Pc Thread} {test : Prop} [Decidable test]
    (yes : test → PcOver calls status ticks executing pc)
    (no : ¬ test → PcOver calls status ticks executing pc') :
    PcOver calls status ticks executing (if test then pc else pc') := by
  split
  next isTrue => exact yes isTrue
  next isFalse => exact no isFalse

theorem SleepInv.execFrame (inv : SleepInv idle s)
    (framesAt : s.sched.frames s.sched.executing = [frame])
    (quiet : NoteUnrequested s.sched .exec)
    (sched : SchedInv idle (Sched.execFrame idle s.sched frame [])) :
    SleepInv idle { s with sched := Sched.execFrame idle s.sched frame [] } := by
  have top := inv.top
  have calls := inv.calls
  have unmarked : ∀ t call, s.call t = some call → call.phase ≠ .marked := by
    intro t call isCall isMarked
    have outside := (inv.marked t call isCall isMarked).2.1
    cases framesAt.symm.trans outside
  change TopOver _ _ _ _ (s.sched.frames s.sched.executing) at top
  rw [framesAt] at top
  obtain ⟨prev, wasRunning, pc⟩ := frame
  obtain ⟨prevEq, pcOk⟩ := inv.sched.pcOk framesAt
  have found := top
  cases pc with
  | enter preemptive =>
    simp only [Sched.execFrame] at sched ⊢
    by_cases atomic : s.sched.preemptCount ≠ 0
    · rw [if_pos atomic] at sched ⊢
      cases preemptive with
      | true => exact inv.move unmarked sched rfl rfl calls found
      | false => exact { inv with sched, calls }
    · rw [if_neg atomic] at sched ⊢
      exact inv.move unmarked sched rfl rfl calls trivial
  | clearResched | unlinkZombie | linkZombie | lockQueue =>
    exact inv.move unmarked sched rfl rfl calls trivial
  | zombieTest =>
    exact inv.move unmarked sched rfl rfl calls (.ite (fun _ => trivial) fun _ => trivial)
  | checkZombies =>
    exact inv.move unmarked sched rfl rfl calls (.ite (fun _ => trivial) fun _ => calls.over_idle)
  | readCount =>
    exact inv.move unmarked sched rfl rfl calls (.ite (fun _ => calls.over_idle) fun _ => trivial)
  | scanRank remaining =>
    cases remaining with
    | nil | cons => exact inv.move unmarked sched rfl rfl calls trivial
  | scan priority remaining rest =>
    cases rest with
    | nil => exact inv.move unmarked sched rfl rfl calls trivial
    | cons pos rest =>
      refine inv.move unmarked sched rfl rfl calls (.ite (fun isReady => ?_) fun _ => trivial)
      exact calls.elapsed pos (by rw [isReady]; rintro ⟨⟩)
  | scanSleeper priority remaining pos rest =>
    exact inv.move unmarked sched rfl rfl calls
      (.ite (fun due => calls.over_sleeper due.1 due.2) fun _ => trivial)
  | keepPrev candidate =>
    refine inv.move unmarked sched rfl rfl calls (.ite (fun keeps => ?_) fun _ => ?_)
    · have running : s.sched.status prev = .running := (of_decide_eq_true keeps).2.1
      exact calls.elapsed prev (by rw [running]; rintro ⟨⟩)
    · cases candidate with
      | none => exact calls.over_idle.1
      | some choice => exact .ite (fun _ => found) fun _ => found
  | rotate | unlockQueue | noteDisable | setCurrent =>
    exact inv.move unmarked sched rfl rfl calls found
  | setNext next =>
    refine inv.move unmarked sched rfl rfl (calls.storeStatus found (by rintro ⟨⟩)) ⟨found, ?_⟩
    intro call _ _
    exact update_self ..
  | setPrev next =>
    simp only [Sched.execFrame] at sched ⊢
    by_cases outgoing : prev ≠ next ∧ s.sched.status prev = .running
    · rw [if_pos outgoing] at sched ⊢
      have elapsed := calls.elapsed prev (by rw [outgoing.2]; rintro ⟨⟩)
      exact inv.move unmarked sched rfl rfl (calls.storeStatus elapsed (by rintro ⟨⟩))
        ⟨found.1, CallsOk.awake_storeStatus found.2 (Ne.symm outgoing.1)⟩
    · rw [if_neg outgoing] at sched ⊢
      exact inv.move unmarked sched rfl rfl calls found
  | compare next =>
    simp only [Sched.execFrame] at sched ⊢
    by_cases same : next = prev
    · rw [if_pos same] at sched ⊢
      rw [same, prevEq] at found
      exact inv.move unmarked sched rfl rfl calls (found.1.back found.2)
    · rw [if_neg same] at sched ⊢
      exact inv.move unmarked sched rfl rfl calls found
  | noteNesting next =>
    exact inv.move unmarked sched rfl rfl calls (.ite (fun _ => found) fun _ => found)
  | noteEnable next =>
    simp only [Sched.execFrame] at sched ⊢
    by_cases underflow : s.sched.preemptCount = 0
    · rw [if_pos underflow] at sched ⊢
      exact { inv with sched, calls }
    · rw [if_neg underflow] at sched ⊢
      exact inv.move unmarked sched rfl rfl calls found
  | noteTest next =>
    simp only [Sched.execFrame] at sched ⊢
    have unrequested := quiet rfl _ (by rw [framesAt]; rfl) rfl
    unfold Sched.State.schedulePreempt at sched ⊢
    rw [unrequested, if_neg fun both => Bool.false_ne_true both.2] at sched ⊢
    exact inv.move unmarked sched rfl rfl calls found
  | switchTo next =>
    have ne : next ≠ s.sched.executing := by
      rw [← prevEq]
      exact pcOk.different
    refine ⟨sched, calls, fun t call isCall isMarked => ?_, ?_, inv.punctual⟩
    · exact absurd isMarked (unmarked t call isCall)
    change TopOver s.call s.sched.status s.sched.ticks next
      (update s.sched.frames s.sched.executing _ next)
    rw [update_of_ne ne]
    cases parkedAt : s.sched.frames next with
    | nil => exact found.1.back found.2
    | cons parked below =>
      obtain ⟨-, -, finished, -⟩ := inv.sched.parked next ne parked below parkedAt
      change PcOver _ _ _ _ parked.pc
      rw [finished]
      exact found
  | finish => exact inv.move unmarked sched rfl rfl calls (found.1.back found.2)

omit [DecidableEq Thread] in
theorem TopOver.mono {calls : Thread → Option Call} {status later : Thread → Status}
    {ticks laterTicks : Nat} (top : TopOver calls status ticks executing frames)
    (passed : ticks ≤ laterTicks)
    (awake : ∀ t, Awake calls status t → Awake calls later t) :
    TopOver calls later laterTicks executing frames := by
  have elapsed : ∀ t, Over calls ticks t → Over calls laterTicks t :=
    fun t isOver call isCall phase => Nat.le_trans (isOver call isCall phase) passed
  have back : Back calls status ticks executing → Back calls later laterTicks executing :=
    fun isBack => ⟨fun call isCall phase => Nat.le_trans (isBack.1 call isCall phase) passed,
      awake executing isBack.2⟩
  cases frames with
  | nil => exact back top
  | cons frame below =>
    obtain ⟨prev, wasRunning, pc⟩ := frame
    have found : PcOver calls status ticks executing pc := top
    cases pc with
    | enter preemptive =>
      cases preemptive with
      | true => exact back found
      | false => exact trivial
    | keepPrev candidate =>
      cases candidate with
      | none => exact trivial
      | some choice => exact elapsed choice.1 found
    | rotate next | setNext next => exact elapsed next found
    | setPrev next | unlockQueue next | compare next | noteNesting next | noteDisable next
    | noteEnable next | noteTest next | setCurrent next | switchTo next =>
      exact ⟨elapsed next found.1, awake next found.2⟩
    | finish => exact ⟨elapsed executing found.1, awake executing found.2⟩
    | _ => exact trivial

section

variable (inv : SleepInv idle s)

include inv

theorem SleepInv.storeStatus (t : Thread) (value : Status)
    {after : Sched.State Thread} (sched : SchedInv idle after)
    (statusEq : after.status = update s.sched.status t value)
    (same : after.executing = s.sched.executing ∧ after.frames = s.sched.frames ∧
      after.ticks = s.sched.ticks ∧ after.wakeupTicks = s.sched.wakeupTicks)
    (elapsed : Over s.call s.sched.ticks t) (notSleeping : value ≠ .sleeping)
    (off : ∀ call, s.call t = some call →
      s.sched.status t ≠ .running ∧ s.sched.status t ≠ .sleeping) :
    SleepInv idle { s with sched := after } := by
  obtain ⟨executingEq, framesEq, ticksEq, wakeupEq⟩ := same
  refine ⟨sched, ?_, ?_, ?_, inv.punctual⟩
  · change CallsOk s.call after.status after.ticks idle after.wakeupTicks
    rw [statusEq, ticksEq, wakeupEq]
    exact inv.calls.storeStatus elapsed notSleeping
  · intro other call isCall isMarked
    obtain ⟨isSelf, outside, sleeping⟩ := inv.marked other call isCall isMarked
    change other = after.executing ∧ after.frames after.executing = [] ∧
      after.status other = .sleeping
    rw [executingEq, framesEq, statusEq]
    refine ⟨isSelf, outside, ?_⟩
    by_cases isThread : other = t
    · rw [isThread] at isCall sleeping
      exact absurd sleeping (off call isCall).2
    · rw [update_of_ne isThread]
      exact sleeping
  · change TopOver s.call after.status after.ticks after.executing
      (after.frames after.executing)
    rw [executingEq, framesEq, statusEq, ticksEq]
    refine inv.top.mono (Nat.le_refl _) fun other awake call isCall isEntered => ?_
    by_cases isThread : other = t
    · rw [isThread] at isCall awake
      exact absurd (awake call isCall isEntered) (off call isCall).1
    · rw [update_of_ne isThread]
      exact awake call isCall isEntered

omit [DecidableEq Thread] in
theorem SleepInv.tick (sched : SchedInv idle { s.sched with ticks := s.sched.ticks + 1 }) :
    SleepInv idle { s with sched := { s.sched with ticks := s.sched.ticks + 1 } } := by
  have calls := inv.calls
  refine ⟨sched, ⟨calls.idleFree, ?_, calls.kept, ?_⟩, inv.marked, ?_, inv.punctual⟩
  · exact fun t call isCall => Nat.le_succ_of_le (calls.begun t call isCall)
  · exact fun t awake call isCall phase =>
      Nat.le_succ_of_le (calls.elapsed t awake call isCall phase)
  · exact inv.top.mono (Nat.le_succ _) fun _ awake => awake

omit [DecidableEq Thread] in
theorem SleepInv.current (outside : s.sched.frames s.sched.executing = []) :
    s.sched.current = s.sched.executing := by
  have top := inv.sched.top
  rw [outside] at top
  exact top.current

omit [DecidableEq Thread] in
theorem SleepInv.back (outside : s.sched.frames s.sched.executing = []) :
    Back s.call s.sched.status s.sched.ticks s.sched.executing := by
  have top := inv.top
  change TopOver _ _ _ _ (s.sched.frames s.sched.executing) at top
  rw [outside] at top
  exact top

variable {action : Sched.Action Thread}

theorem SleepInv.execThread {after : Sched.State Thread} (permitted : permits s action = true)
    (unmarked : action = .interrupt → ∀ call, s.call s.executing = some call →
      call.phase ≠ .marked)
    (framesAt : s.sched.frames s.sched.executing = []) (sched : SchedInv idle after)
    (ran : Sched.execThread idle s.sched action = some after) :
    SleepInv idle { s with sched := after } := by
  have top := inv.back framesAt
  have noneMarked : (∀ call, s.call s.executing = some call → call.phase ≠ .marked) →
      ∀ t call, s.call t = some call → call.phase ≠ .marked := by
    intro notMarked t call isCall isMarked
    rw [(inv.marked t call isCall isMarked).1] at isCall
    exact notMarked call isCall isMarked
  have free : (s.call s.executing).isNone = true →
      ∀ call, s.call s.executing ≠ some call := by
    intro isNone call isCall
    rw [isCall] at isNone
    cases isNone
  have retired : ∀ value, value ≠ Status.sleeping →
      (s.call s.executing).isNone = true →
      ∀ {later : Sched.State Thread}, SchedInv idle later →
      later = s.sched.storeStatus s.sched.current value →
      SleepInv idle { s with sched := later } := by
    intro value notSleeping isNone later laterSched laterEq
    have noCall : ∀ call, s.call s.sched.current ≠ some call := by
      rw [inv.current framesAt]
      exact free isNone
    exact inv.storeStatus s.sched.current value laterSched (by rw [laterEq]; rfl)
      (by rw [laterEq]; exact ⟨rfl, rfl, rfl, rfl⟩)
      (fun call isCall => absurd isCall (noCall call)) notSleeping
      fun call isCall => absurd isCall (noCall call)
  cases action with
  | interrupt =>
    obtain ⟨-, ⟨⟩⟩ := ite_none_right_eq_some.mp ran
    exact inv.move (noneMarked (unmarked rfl)) sched rfl rfl inv.calls top
  | schedule =>
    cases ran
    exact inv.move (noneMarked fun call isCall => absurd isCall (free permitted call)) sched rfl
      rfl inv.calls trivial
  | rcuReadLock | preemptDisable =>
    cases ran
    exact { inv with sched }
  | rcuReadUnlock =>
    obtain ⟨-, ⟨⟩⟩ := ite_none_right_eq_some.mp ran
    exact { inv with sched }
  | preemptEnable =>
    simp only [Sched.execThread] at ran
    have notMarked := noneMarked fun call isCall => absurd isCall (free permitted call)
    split at ran <;> cases ran
    · exact { inv with sched }
    unfold Sched.State.schedulePreempt at sched ⊢
    split at sched
    · next requested =>
      rw [if_pos requested]
      exact inv.move notMarked sched rfl rfl inv.calls top
    · next unrequested =>
      rw [if_neg unrequested]
      exact inv.move notMarked sched rfl rfl inv.calls top
  | block =>
    obtain ⟨-, ⟨⟩⟩ := ite_none_right_eq_some.mp ran
    exact retired .blocked (by rintro ⟨⟩) permitted sched rfl
  | exit =>
    obtain ⟨-, ⟨⟩⟩ := ite_none_right_eq_some.mp ran
    exact retired .zombie (by rintro ⟨⟩) permitted sched rfl
  | reap =>
    obtain ⟨-, ⟨⟩⟩ := ite_none_right_eq_some.mp ran
    obtain ⟨zombies, reaped⟩ := Sched.reapZombie_eq s.sched
    rw [reaped] at sched ⊢
    exact { inv with sched }
  | sleep | setWakeup => cases permitted
  | exec | kick | tick | wake | enqueue => cases ran

theorem SleepInv.schedStep {after : Sched.State Thread} (permitted : permits s action = true)
    (unbroken : Unbroken s (.sched action))
    (ran : Sched.step idle s.sched action = some after) :
    SleepInv idle { s with sched := after } := by
  have sched := inv.sched.step unbroken.1 ran
  unfold Sched.step at ran
  split at ran
  · cases ran
  cases action with
  | exec =>
    simp only at ran
    split at ran <;> cases ran
    next frame below framesAt =>
      have top := inv.sched.top
      rw [framesAt] at top
      cases below with
      | nil => exact inv.execFrame framesAt unbroken.1 sched
      | cons => exact top.elim
  | kick =>
    cases ran
    exact { inv with sched }
  | tick =>
    cases ran
    exact inv.tick sched
  | wake t =>
    obtain ⟨isBlocked, ⟨⟩⟩ := ite_none_right_eq_some.mp ran
    exact inv.storeStatus t .ready sched rfl ⟨rfl, rfl, rfl, rfl⟩
      (inv.calls.elapsed t (by rw [isBlocked]; exact nofun)) nofun
      fun _ _ => by rw [isBlocked]; exact ⟨nofun, nofun⟩
  | enqueue t atTail =>
    obtain ⟨-, ⟨⟩⟩ := ite_none_right_eq_some.mp ran
    have noCall : ∀ call, s.call t ≠ some call := by
      intro call isCall
      change (s.call t).isNone = true at permitted
      rw [isCall] at permitted
      cases permitted
    exact inv.storeStatus t .ready sched rfl ⟨rfl, rfl, rfl, rfl⟩
      (fun call isCall => absurd isCall (noCall call)) nofun
      fun call isCall => absurd isCall (noCall call)
  | _ =>
    obtain ⟨framesAt, ran⟩ := ite_none_right_eq_some.mp ran
    exact inv.execThread permitted unbroken.2 framesAt sched ran

end

end Schedule

section Calls

variable {idle : Thread} {s after : State Thread} {call : Call}

/-- What a call of the executing thread must satisfy after a step of its own. -/
structure OwnOk (call : Call) (status : Status) (wakeup ticks : Nat)
    (frames : List (Frame Thread)) : Prop where
  begun : call.start ≤ ticks
  kept : call.phase = .timed ∨ call.phase = .waiting → status = .sleeping → call.due ≤ wakeup
  elapsed : call.phase = .timed ∨ call.phase = .waiting → status ≠ .sleeping → call.due ≤ ticks
  marked : call.phase = .marked → frames = [] ∧ status = .sleeping

omit [DecidableEq Thread] in
theorem OwnOk.of_untimed {status : Status} {wakeup ticks : Nat} (begun : call.start ≤ ticks)
    (untimed : call.phase ≠ .timed ∧ call.phase ≠ .waiting)
    (marked : call.phase = .marked → frames = [] ∧ status = .sleeping) :
    OwnOk call status wakeup ticks frames := by
  have never : ¬ (call.phase = .timed ∨ call.phase = .waiting) := not_or.mpr untimed
  exact ⟨begun, fun timed => absurd timed never, fun timed => absurd timed never, marked⟩

variable {newCall : Option Call}

theorem SleepInv.ownStep (inv : SleepInv idle s) {sched : Sched.State Thread} {early : Bool}
    (notIdle : s.sched.executing ≠ idle)
    (schedInv : SchedInv idle sched) (executingEq : sched.executing = s.sched.executing)
    (ticksEq : sched.ticks = s.sched.ticks)
    (others : ∀ t ≠ s.sched.executing, sched.status t = s.sched.status t ∧
      sched.wakeupTicks t = s.sched.wakeupTicks t)
    (own : ∀ call, newCall = some call →
      OwnOk call (sched.status s.sched.executing) (sched.wakeupTicks s.sched.executing)
        s.sched.ticks (sched.frames s.sched.executing))
    (top : TopOver (update s.call s.sched.executing newCall) sched.status
      s.sched.ticks s.sched.executing (sched.frames s.sched.executing))
    (punctual : early = false) : SleepInv idle
      ⟨sched, update s.call s.sched.executing newCall, early⟩ := by
  have calls := inv.calls
  have ownCall : ∀ {call : Call},
      update s.call s.sched.executing newCall s.sched.executing = some call →
      newCall = some call := fun isCall => by rwa [update_self] at isCall
  have otherCall : ∀ {t : Thread} {call : Call}, t ≠ s.sched.executing →
      update s.call s.sched.executing newCall t = some call →
      s.call t = some call :=
    fun isOther isCall => (update_of_ne isOther _ _).symm.trans isCall
  refine ⟨schedInv, ⟨?_, fun t call isCall => ?_, fun t call isCall phase sleeping => ?_,
    fun t awake call isCall phase => ?_⟩, fun t call isCall isMarked => ?_, ?_, punctual⟩
  · exact (update_of_ne notIdle.symm _ _).trans calls.idleFree
  · change call.start ≤ sched.ticks
    rw [ticksEq]
    by_cases isSelf : t = s.sched.executing
    · subst isSelf
      exact (own call (ownCall isCall)).begun
    · exact calls.begun t call (otherCall isSelf isCall)
  · by_cases isSelf : t = s.sched.executing
    · subst isSelf
      exact (own call (ownCall isCall)).kept phase sleeping
    rw [(others t isSelf).2]
    exact calls.kept t call (otherCall isSelf isCall) phase
      ((others t isSelf).1.symm.trans sleeping)
  · change call.due ≤ sched.ticks
    rw [ticksEq]
    by_cases isSelf : t = s.sched.executing
    · subst isSelf
      exact (own call (ownCall isCall)).elapsed phase awake
    · refine calls.elapsed t ?_ call (otherCall isSelf isCall) phase
      rw [← (others t isSelf).1]
      exact awake
  · change t = sched.executing ∧ sched.frames sched.executing = [] ∧
      sched.status t = .sleeping
    rw [executingEq]
    by_cases isSelf : t = s.sched.executing
    · subst isSelf
      exact ⟨rfl, (own call (ownCall isCall)).marked isMarked⟩
    · exact absurd (inv.marked t call (otherCall isSelf isCall) isMarked).1 isSelf
  · change TopOver _ sched.status sched.ticks sched.executing (sched.frames sched.executing)
    rw [executingEq, ticksEq]
    exact top

theorem back_update {calls : Thread → Option Call} {status : Thread → Status} {ticks : Nat}
    {t : Thread} (own : ∀ call, newCall = some call →
      call.phase ≠ .waiting ∧ (call.phase = .entered → status t = .running)) :
    Back (update calls t newCall) status ticks t := by
  refine ⟨fun call isCall isWaiting => ?_, fun call isCall => ?_⟩
  all_goals rw [update_self] at isCall
  · exact absurd isWaiting (own call isCall).1
  · exact (own call isCall).2

section Own

variable (inv : SleepInv idle s) (outside : s.sched.frames s.sched.executing = [])

include inv outside

theorem SleepInv.enter (notIdle : s.sched.current ≠ idle)
    (running : s.sched.status s.sched.current = .running) (duration : Nat) :
    SleepInv idle (s.storeCall (some ⟨.entered, s.sched.ticks, duration⟩)) := by
  rw [inv.current outside] at notIdle running
  refine inv.ownStep notIdle inv.sched rfl rfl (fun _ _ => ⟨rfl, rfl⟩) ?_ ?_ inv.punctual
  · rintro _ ⟨⟩
    exact .of_untimed (Nat.le_refl _) ⟨nofun, nofun⟩ nofun
  rw [outside]
  refine back_update ?_
  rintro _ ⟨⟩
  exact ⟨nofun, fun _ => running⟩

variable (isCall : s.call s.sched.executing = some call)

include isCall

omit [DecidableEq Thread] outside in
theorem SleepInv.caller_ne_idle : s.sched.executing ≠ idle := by
  intro isIdle
  rw [isIdle] at isCall
  cases inv.calls.idleFree.symm.trans isCall

theorem SleepInv.mark : SleepInv idle
      ({ s with sched := s.sched.storeStatus s.sched.current .sleeping }.storeCall
        (some (call.goto .marked))) := by
  have current := inv.current outside
  have notIdle := inv.caller_ne_idle isCall
  have sched : SchedInv idle (s.sched.storeStatus s.sched.current .sleeping) :=
    inv.sched.retire outside (current ▸ notIdle) nofun nofun
  rw [current] at sched ⊢
  refine inv.ownStep notIdle sched rfl rfl (fun t isOther => ?_) ?_ ?_ inv.punctual
  · exact ⟨update_of_ne isOther _ _, rfl⟩
  · rintro _ ⟨⟩
    exact .of_untimed (inv.calls.begun _ call isCall) ⟨nofun, nofun⟩
      fun _ => ⟨outside, update_self ..⟩
  · change TopOver _ _ _ _ (s.sched.frames s.sched.executing)
    rw [outside]
    refine back_update ?_
    rintro _ ⟨⟩
    exact ⟨nofun, nofun⟩

theorem SleepInv.deadline (phase : call.phase = .marked) : SleepInv idle ({ s with
        sched := { s.sched with
          wakeupTicks := update s.sched.wakeupTicks s.sched.current
            (s.sched.ticks + call.duration) } }.storeCall (some (call.goto .timed))) := by
  have current := inv.current outside
  have notIdle := inv.caller_ne_idle isCall
  have begun := inv.calls.begun _ call isCall
  have sleeping := (inv.marked _ call isCall phase).2.2
  have sched := inv.sched.execThread outside (show Sched.execThread idle s.sched
      (.setWakeup call.duration) = some _ from rfl)
  rw [current] at sched ⊢
  refine inv.ownStep notIdle sched rfl rfl (fun t isOther => ?_) ?_ ?_ inv.punctual
  · exact ⟨rfl, update_of_ne isOther _ _⟩
  · rintro _ ⟨⟩
    refine ⟨begun, fun _ _ => ?_, fun _ awake => absurd sleeping awake, nofun⟩
    change call.start + call.duration ≤ update s.sched.wakeupTicks
      s.sched.executing (s.sched.ticks + call.duration) s.sched.executing
    rw [update_self]
    omega
  · change TopOver _ _ _ _ (s.sched.frames s.sched.executing)
    rw [outside]
    refine back_update ?_
    rintro _ ⟨⟩
    exact ⟨nofun, nofun⟩

theorem SleepInv.enterSchedule (phase : call.phase = .timed) : SleepInv idle
      ({ s with sched := s.sched.call false [] }.storeCall
        (some (call.goto .waiting))) := by
  have notIdle := inv.caller_ne_idle isCall
  have sched : SchedInv idle (s.sched.call false []) := inv.sched.call outside false _
  refine inv.ownStep notIdle sched rfl rfl (fun _ _ => ⟨rfl, rfl⟩) ?_ ?_ inv.punctual
  · rintro _ ⟨⟩
    exact ⟨inv.calls.begun _ call isCall,
      fun _ sleeping => inv.calls.kept _ call isCall (.inl phase) sleeping,
      fun _ awake => inv.calls.elapsed _ awake call isCall (.inl phase), nofun⟩
  · change TopOver _ _ _ _ (update s.sched.frames s.sched.executing _ s.sched.executing)
    rw [update_self]
    exact trivial

theorem SleepInv.leave (phase : call.phase = .waiting) : SleepInv idle { s.storeCall none with
      early := s.early || decide (s.sched.ticks < call.due) } := by
  have elapsed := (inv.back outside).1 call isCall phase
  refine inv.ownStep (inv.caller_ne_idle isCall) inv.sched rfl rfl
    (fun _ _ => ⟨rfl, rfl⟩) nofun ?_ ?_
  · change TopOver _ _ _ _ (s.sched.frames s.sched.executing)
    rw [outside]
    exact back_update nofun
  · rw [inv.punctual, Bool.false_or, decide_eq_false_iff_not]
    omega

end Own

omit [DecidableEq Thread] in
theorem frames_of_outside (outside : s.outside = true) :
    s.sched.frames s.sched.executing = [] := by
  unfold State.outside at outside
  rw [Bool.and_eq_true, List.isEmpty_iff] at outside
  exact outside.2

theorem SleepInv.stepCall (inv : SleepInv idle s) {action : Action Thread}
    (outside : s.outside = true) (isCall : s.call s.executing = some call)
    (ran : stepCall s call action = some after) : SleepInv idle after := by
  have framesAt := frames_of_outside outside
  cases action with
  | mark =>
    obtain ⟨-, ⟨⟩⟩ := ite_none_right_eq_some.mp ran
    exact inv.mark framesAt isCall
  | deadline =>
    obtain ⟨phase, ⟨⟩⟩ := ite_none_right_eq_some.mp ran
    exact inv.deadline framesAt isCall phase
  | enterSchedule =>
    obtain ⟨phase, ⟨⟩⟩ := ite_none_right_eq_some.mp ran
    exact inv.enterSchedule framesAt isCall phase
  | leave =>
    obtain ⟨phase, ⟨⟩⟩ := ite_none_right_eq_some.mp ran
    exact inv.leave framesAt isCall phase
  | sched | timeout => cases ran

theorem SleepInv.step (inv : SleepInv idle s) {action : Action Thread}
    (unbroken : Unbroken s action) (ran : step idle s action = some after) :
    SleepInv idle after := by
  cases action with
  | sched action =>
    obtain ⟨permitted, ran⟩ := ite_none_right_eq_some.mp ran
    obtain ⟨sched, moved, rfl⟩ := map_eq_some_iff.mp ran
    exact inv.schedStep permitted unbroken moved
  | timeout duration =>
    obtain ⟨guards, ran⟩ := ite_none_right_eq_some.mp ran
    split at ran
    · cases ran
    split at ran <;> cases ran
    next => exact inv
    next valid =>
      rw [not_or, not_not] at valid
      exact inv.enter (frames_of_outside guards.1) guards.2 valid.2 duration
  | mark | deadline | enterSchedule | leave =>
    obtain ⟨outside, ran⟩ := ite_none_right_eq_some.mp ran
    split at ran
    · cases ran
    · next isCall => exact inv.stepCall outside isCall ran

/-- As long as no interrupt reschedules between the two stores, no call of
`schedule_timeout` returns before its time. -/
theorem sleep_never_early (reached : (system idle).ReachableWhere Unbroken s) :
    s.early = false := by
  have inv : SleepInv idle s := by
    refine reached.invariant ?_ fun _ _ _ _ inv unbroken ran => inv.step unbroken ran
    rintro _ ⟨sched, ⟨boot, isMain, priority, notIdle, rfl⟩, rfl⟩
    refine ⟨Sched.schedInv_bootState notIdle isMain priority, ⟨rfl, nofun, nofun, fun _ _ => nofun⟩,
      nofun, ⟨nofun, nofun⟩, rfl⟩
  exact inv.punctual

end Calls

def bootState : State (Fin 2) :=
  ⟨Sched.bootState 1 0 true fun _ => 0, fun _ => none, false⟩

theorem initial_bootState : (system (1 : Fin 2)).initial bootState :=
  ⟨_, ⟨0, true, fun _ => 0, by decide, rfl⟩, rfl⟩

/-- The boot thread sleeps for two ticks, during which the idle thread runs. -/
def sleepTwoTicks : List (Action (Fin 2)) :=
  [.timeout 2, .mark, .deadline, .enterSchedule] ++ List.replicate 19 (.sched .exec) ++
    [.sched .tick, .sched .tick, .sched .schedule] ++ List.replicate 19 (.sched .exec) ++ [.leave]

def sleepTwoTicksRun : (system (1 : Fin 2)).Execution sleepTwoTicks.length :=
  TransitionSystem.executionOf _ initial_bootState sleepTwoTicks .leave (by decide +kernel)

theorem sleep_never_early_twoTicks : (sleepTwoTicksRun.states 45).call 0 = some ⟨.waiting, 0, 2⟩ ∧
      (sleepTwoTicksRun.states 46).call 0 = none ∧ (sleepTwoTicksRun.states 46).early = false := by
  have unbroken : ∀ i < sleepTwoTicks.length, Unbroken (sleepTwoTicksRun.states i)
      (sleepTwoTicksRun.actions i) := by
    decide +kernel
  refine ⟨by decide +kernel, by decide +kernel, ?_⟩
  exact sleep_never_early (sleepTwoTicksRun.reachableWhere unbroken 46 (by decide))

/-- An interrupt reschedules between the two stores of a call for five ticks: `pick_next` finds
the deadline of an earlier sleep and wakes the thread. -/
def interruptedSleep : List (Action (Fin 2)) :=
  [.timeout 5, .mark, .sched .kick, .sched .interrupt] ++ List.replicate 14 (.sched .exec) ++
    [.deadline, .enterSchedule] ++ List.replicate 16 (.sched .exec) ++ [.leave]

def interruptedSleepEnd : State (Fin 2) :=
  ((system 1).run bootState interruptedSleep).getD bootState

/-- The call has returned although no tick has passed. -/
theorem interruptedSleep_early :
    (system (1 : Fin 2)).Reachable interruptedSleepEnd ∧ interruptedSleepEnd.early = true ∧
      interruptedSleepEnd.sched.ticks = 0 := by
  refine ⟨TransitionSystem.Reachable.getD_run (.start initial_bootState) _, ?_⟩
  decide +kernel

end LaOS.Sleep
