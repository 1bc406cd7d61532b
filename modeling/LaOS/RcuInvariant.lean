import LaOS.RcuMachine

/-!
# The grace-period invariant

A sequence number stored in `rcu_gp_seq_seen`, or read from `gp_seq` and not
yet stored, certifies a CPU: every section on that CPU that is older than the
number is over, or its thread is on `blocked_tasks`.
-/

namespace LaOS.Rcu

variable {Thread : Type}

def Noted (readers : Readers Thread) (t : Thread) : Prop :=
  0 < readers.nesting t → t ∈ readers.blockedTasks

section

variable (cfg : Config Thread)

section

variable (readers : Readers Thread)

/-- The sections on `cpu` that are older than grace period `gp` are over or
belong to listed threads. -/
def Covered (cpu gp : Nat) : Prop :=
  ∀ t, cfg.cpuOf t = cpu → readers.sectionGp t < gp → Noted readers t

/-- `seq` is the number of a grace period that covers `cpu`. -/
def Certified (cpu : Nat) (seq : BitVec 32) : Prop :=
  ∃ gp ≤ readers.gpStarted, seq = BitVec.ofNat 32 gp ∧ Covered cfg readers cpu gp

/-- No open section is older than grace period `gp`. -/
def Elapsed (gp : Nat) : Prop :=
  ∀ t, 0 < readers.nesting t → gp ≤ readers.sectionGp t

/-- The grace period with number `target` covers the first `bound` CPUs, as long
as the sequence number has not wrapped. -/
def Pending (target : BitVec 32) (bound : Nat) : Prop :=
  readers.gpStarted < 2 ^ 31 →
    ∃ gp ≤ readers.gpStarted, target = BitVec.ofNat 32 gp ∧
      ∀ cpu < bound, cfg.present cpu = true → Covered cfg readers cpu gp

/-- The grace period with number `target` has elapsed, as long as the sequence
number has not wrapped. -/
def Finished (target : BitVec 32) : Prop :=
  readers.gpStarted < 2 ^ 31 →
    ∃ gp ≤ readers.gpStarted, target = BitVec.ofNat 32 gp ∧ Elapsed readers gp

/-- What a thread knows at each position of the task-level functions. -/
def PcOk (t : Thread) : TaskPc → Prop
  | .user | .unlockTest | .syncIncrement => True
  | .lockStore nesting | .unlockStore nesting => readers.nesting t = nesting
  | .unlockBlocked | .unlockIrqSave | .unlockPreemptDisable | .unlockSpin
  | .unlockListDel | .unlockSpinRelease | .unlockPreemptEnable | .unlockIrqRestore
  | .unlockClear | .unlockRead => readers.nesting t = 0
  | .unlockReport seq => Certified cfg readers (cfg.cpuOf t) seq
  | .syncScan target bound => Pending cfg readers target bound
  | .syncPreemptDisable target _ | .syncSpin target _ | .syncList target _
  | .syncStall target => Pending cfg readers target cfg.cpuCount
  | .syncSpinRelease target report empty | .syncPreemptEnable target report empty
  | .syncDecide target report empty =>
    Pending cfg readers target cfg.cpuCount ∧
      (report = false → empty = true → Finished readers target)

/-- Positions where `list_del` has run and `rcu_blocked` is not cleared yet. -/
def TaskPc.delisted : TaskPc → Bool
  | .unlockSpinRelease | .unlockPreemptEnable | .unlockIrqRestore | .unlockClear => true
  | _ => false

/-- Task code and the interrupt exit path enter `__schedule` with no frame
below them. -/
def Nested : List (Frame Thread) → Prop
  | [] => True
  | .task :: rest | .irq :: rest => rest = []
  | .note _ :: rest => Nested rest

/-- What holds of the current thread of a CPU, with its frames, in each mode. -/
def ModeOk (cpu : Nat) (t : Thread) (frames : List (Frame Thread)) : Mode Thread → Prop
  | .task | .tickTest | .irqReturn => frames = []
  | .tickRead => frames = [] ∧ readers.nesting t = 0
  | .tickStore seq => frames = [] ∧ Certified cfg readers cpu seq
  | .noteRead _ => readers.nesting t = 0
  | .noteStore _ seq => Noted readers t ∧ Certified cfg readers cpu seq
  | .noteSpinRelease _ | .notePreemptEnable _ | .switch _ => Noted readers t
  | .enter _ | .pick | .noteTest _ | .notePreemptDisable _ | .noteSpin _
  | .noteList _ => True

end

end

/-- The thread that a CPU inside `__schedule` is about to switch to. -/
def Mode.target : Mode Thread → Option Thread
  | .noteTest next | .noteRead next | .noteStore next _ | .notePreemptDisable next
  | .noteSpin next | .noteList next | .noteSpinRelease next | .notePreemptEnable next
  | .switch next => some next
  | _ => none

structure Inv (cfg : Config Thread) (s : State Thread) : Prop where
  pinned : ∀ cpu, cfg.hasCpu cpu → cfg.cpuOf (s.current cpu) = cpu
  sequence : s.gpSeq = BitVec.ofNat 32 s.gpStarted
  tasks : ∀ t, PcOk cfg s.toReaders t (s.pc t)
  modes : ∀ cpu, cfg.hasCpu cpu →
    ModeOk cfg s.toReaders cpu (s.current cpu)
      (s.frames (s.current cpu)) (s.mode cpu)
  targets : ∀ cpu next, (s.mode cpu).target = some next → cfg.cpuOf next = cpu
  nested : ∀ t, Nested (s.frames t)
  listed : ∀ t, s.rcuBlocked t = true →
    t ∈ s.blockedTasks ∨ (s.pc t).delisted = true
  switched : ∀ t, s.current (cfg.cpuOf t) ≠ t → Noted s.toReaders t
  framed : ∀ t next, Frame.note next ∈ s.frames t →
    Noted s.toReaders t ∧ cfg.cpuOf next = cfg.cpuOf t
  seen : ∀ cpu, Certified cfg s.toReaders cpu (s.gpSeqSeen cpu)

variable {cpu bound : Nat} {target : BitVec 32}

section Consequences

variable {cfg : Config Thread} {readers : Readers Thread} {s : State Thread}

theorem Covered.mono {gp older : Nat} (covered : Covered cfg readers cpu gp)
    (olderLe : older ≤ gp) : Covered cfg readers cpu older :=
  fun t onCpu began => covered t onCpu (lt_of_lt_of_le began olderLe)

theorem Inv.certified_of_quiescent (inv : Inv cfg s)
    (quiet : s.nesting (s.current cpu) = 0) :
    Certified cfg s.toReaders cpu s.gpSeq := by
  refine ⟨s.gpStarted, Nat.le_refl _, inv.sequence, ?_⟩
  intro t onCpu _
  by_cases running : s.current (cfg.cpuOf t) = t
  · intro inside
    rw [onCpu] at running
    rw [running] at quiet
    omega
  · exact inv.switched t running

theorem Pending.finished (pending : Pending cfg readers target cfg.cpuCount)
    (empty : readers.blockedTasks = []) : Finished readers target := by
  intro small
  obtain ⟨gp, gpLe, targetEq, covered⟩ := pending small
  refine ⟨gp, gpLe, targetEq, ?_⟩
  intro t inside
  by_contra older
  have onCpu := cfg.pinned t
  have noted := covered _ onCpu.1 onCpu.2 t rfl (by omega) inside
  simp [empty] at noted

theorem toInt_ofNat_of_lt {number : Nat} (small : number < 2 ^ 31) :
    (BitVec.ofNat 32 number).toInt = number := by
  rw [BitVec.toInt_eq_toNat_of_lt]
  all_goals
    simp only [BitVec.toNat_ofNat]
    omega

theorem Pending.mono {fewer : Nat}
    (pending : Pending cfg readers target bound) (fewerLe : fewer ≤ bound) :
    Pending cfg readers target fewer := by
  intro small
  obtain ⟨gp, gpLe, targetEq, covered⟩ := pending small
  exact ⟨gp, gpLe, targetEq, fun cpu below => covered cpu (lt_of_lt_of_le below fewerLe)⟩

theorem Pending.scanned {seq : BitVec 32} (pending : Pending cfg readers target bound)
    (seen : Certified cfg readers bound seq)
    (reported : cfg.present bound = true → seq.slt target = false) :
    Pending cfg readers target (bound + 1) := by
  intro small
  obtain ⟨gp, gpLe, targetEq, covered⟩ := pending small
  refine ⟨gp, gpLe, targetEq, ?_⟩
  intro cpu cpuLt present
  by_cases last : cpu = bound
  · subst last
    obtain ⟨reportedGp, reportedLe, seenEq, reportedCovers⟩ := seen
    apply reportedCovers.mono
    have notBelow := reported present
    rw [seenEq, targetEq] at notBelow
    have reportedSmall : reportedGp < 2 ^ 31 := by omega
    have gpSmall : gp < 2 ^ 31 := by omega
    simp only [BitVec.slt, toInt_ofNat_of_lt reportedSmall, toInt_ofNat_of_lt gpSmall,
      decide_eq_false_iff_not] at notBelow
    omega
  · exact covered cpu (by omega) present

end Consequences

section Readers

variable {cfg : Config Thread} {before after : Readers Thread}

/-- Knowledge about grace periods that have started is never lost. -/
structure Later (before after : Readers Thread) : Prop where
  started : before.gpStarted ≤ after.gpStarted
  noted : ∀ gp ≤ before.gpStarted, ∀ t,
    (before.sectionGp t < gp → Noted before t) →
      after.sectionGp t < gp → Noted after t
  elapsed : ∀ gp ≤ before.gpStarted, ∀ t,
    (0 < before.nesting t → gp ≤ before.sectionGp t) →
      0 < after.nesting t → gp ≤ after.sectionGp t

theorem Covered.later {gp : Nat} (covered : Covered cfg before cpu gp)
    (later : Later before after) (gpLe : gp ≤ before.gpStarted) : Covered cfg after cpu gp :=
  fun t onCpu => later.noted gp gpLe t (covered t onCpu)

theorem Certified.later {seq : BitVec 32} (certified : Certified cfg before cpu seq)
    (later : Later before after) : Certified cfg after cpu seq := by
  obtain ⟨gp, gpLe, seqEq, covered⟩ := certified
  exact ⟨gp, gpLe.trans later.started, seqEq, covered.later later gpLe⟩

theorem Pending.later (pending : Pending cfg before target bound) (later : Later before after) :
    Pending cfg after target bound := by
  intro small
  obtain ⟨gp, gpLe, targetEq, covered⟩ := pending (lt_of_le_of_lt later.started small)
  refine ⟨gp, gpLe.trans later.started, targetEq, ?_⟩
  exact fun cpu cpuLt present => (covered cpu cpuLt present).later later gpLe

theorem Finished.later (finished : Finished before target)
    (later : Later before after) : Finished after target := by
  intro small
  obtain ⟨gp, gpLe, targetEq, elapsed⟩ := finished (lt_of_le_of_lt later.started small)
  refine ⟨gp, gpLe.trans later.started, targetEq, ?_⟩
  exact fun t => later.elapsed gp gpLe t (elapsed t)

variable {t : Thread}

theorem PcOk.later {pc : TaskPc} (ok : PcOk cfg before t pc)
    (later : Later before after) (nestingEq : after.nesting t = before.nesting t) :
    PcOk cfg after t pc := by
  cases pc with
  | user | unlockTest | syncIncrement => trivial
  | lockStore | unlockStore | unlockBlocked | unlockIrqSave | unlockPreemptDisable
  | unlockSpin | unlockListDel | unlockSpinRelease | unlockPreemptEnable
  | unlockIrqRestore | unlockClear | unlockRead => exact nestingEq.trans ok
  | unlockReport => exact Certified.later ok later
  | syncScan | syncPreemptDisable | syncSpin | syncList | syncStall =>
    exact Pending.later ok later
  | syncSpinRelease | syncPreemptEnable | syncDecide =>
    exact ⟨ok.1.later later, fun report empty => (ok.2 report empty).later later⟩

theorem ModeOk.later {frames : List (Frame Thread)}
    {mode : Mode Thread} (ok : ModeOk cfg before cpu t frames mode)
    (later : Later before after) (nestingEq : after.nesting t = before.nesting t)
    (noted : Noted before t → Noted after t) :
    ModeOk cfg after cpu t frames mode := by
  cases mode with
  | task | tickTest | irqReturn => exact ok
  | tickRead => exact ⟨ok.1, nestingEq.trans ok.2⟩
  | tickStore => exact ⟨ok.1, ok.2.later later⟩
  | noteRead => exact nestingEq.trans ok
  | noteStore => exact ⟨noted ok.1, ok.2.later later⟩
  | noteSpinRelease | notePreemptEnable | switch => exact noted ok
  | enter | pick | noteTest | notePreemptDisable | noteSpin | noteList => trivial

end Readers

end LaOS.Rcu
