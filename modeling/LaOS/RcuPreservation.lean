import LaOS.RcuInvariant

/-!
# Preservation of the RCU invariant

The accesses of task code, of the timer interrupt and of `__schedule` are compositions of
elementary updates, with one lemma each.
-/

namespace LaOS.Rcu

open List Function

section Updates

variable {Thread : Type} {cfg : Config Thread} {s : State Thread} {cpu : Nat}
  {mode : Mode Thread}

section

variable (inv : Inv cfg s)

include inv

theorem Inv.setMode (ok : ModeOk cfg s.toReaders cpu (s.current cpu)
      (s.frames (s.current cpu)) mode)
    (target : ∀ next, mode.target = some next → cfg.cpuOf next = cpu) :
    Inv cfg (s.setMode cpu mode) :=
  { inv with
    modes := by
      intro other onCpu
      by_cases same : other = cpu
      · subst same
        simpa [State.setMode] using ok
      · simpa [State.setMode, same] using inv.modes other onCpu
    targets := by
      intro other next
      by_cases same : other = cpu
      · subst same
        simpa [State.setMode] using target next
      · simpa [State.setMode, same] using inv.targets other next }

theorem Inv.storeSeen {seq : BitVec 32} (certified : Certified cfg s.toReaders cpu seq) :
    Inv cfg (s.storeSeen cpu seq) :=
  { inv with
    seen := by
      intro other
      by_cases same : other = cpu
      · subst same
        simpa [State.storeSeen] using certified
      · simpa [State.storeSeen, same] using inv.seen other }

theorem Inv.storeNeedResched (cpu : Nat) (flag : Bool) :
    Inv cfg (s.storeNeedResched cpu flag) :=
  { inv with }

theorem Inv.storePreemptCount (cpu count : Nat) : Inv cfg (s.storePreemptCount cpu count) :=
  { inv with }

theorem Inv.storeBlockedLock (locked : Bool) : Inv cfg (s.storeBlockedLock locked) :=
  { inv with }

theorem Inv.preemptDisable (cpu : Nat) : Inv cfg (s.preemptDisable cpu) :=
  inv.storePreemptCount cpu _

end

theorem State.spinLock_eq_some {locked : State Thread} : s.spinLock = some locked ↔
      s.blockedLock = false ∧ locked = s.storeBlockedLock true := by
  unfold State.spinLock
  cases s.blockedLock with
  | false => simp [eq_comm]
  | true => simp

/-- The context switch: the outgoing thread has been noted, and the incoming one was not running
or is the outgoing one. -/
theorem Inv.storeCurrent (inv : Inv cfg s) {next : Thread}
    (onCpu : cfg.hasCpu cpu) (switching : s.mode cpu = .switch next) :
    Inv cfg (s.storeCurrent cpu next) := by
  have target := inv.targets cpu next (by rw [switching]; rfl)
  have outgoing : Noted s.toReaders (s.current cpu) := by
    have ok := inv.modes cpu onCpu
    rw [switching] at ok
    exact ok
  have incoming : Noted s.toReaders next := by
    by_cases running : s.current cpu = next
    · exact running ▸ outgoing
    · exact inv.switched next (by rw [target]; exact running)
  exact
    { inv with
      pinned := by
        intro other otherOn
        by_cases same : other = cpu
        · subst same
          simpa [State.storeCurrent] using target
        · simpa [State.storeCurrent, same] using inv.pinned other otherOn
      modes := by
        intro other otherOn
        by_cases same : other = cpu
        · subst same
          simpa [State.storeCurrent, switching, ModeOk] using incoming
        · simpa [State.storeCurrent, same] using inv.modes other otherOn
      switched := by
        intro t away
        by_cases was : s.current (cfg.cpuOf t) = t
        · by_cases same : cfg.cpuOf t = cpu
          · rw [same] at was
            exact was ▸ outgoing
          · simp [State.storeCurrent, same, was] at away
        · exact inv.switched t was }

theorem Inv.current_ne (inv : Inv cfg s) {other : Nat} (onCpu : cfg.hasCpu cpu)
    (otherOn : cfg.hasCpu other) (ne : other ≠ cpu) :
    s.current other ≠ s.current cpu := by
  intro same
  apply ne
  rw [← inv.pinned other otherOn, same, inv.pinned cpu onCpu]

variable [DecidableEq Thread]

section

variable (inv : Inv cfg s)

include inv

theorem Inv.setPc {t : Thread} (pc : TaskPc) (ok : PcOk cfg s.toReaders t pc)
    (listed : s.rcuBlocked t = true → t ∈ s.blockedTasks ∨ pc.delisted = true) :
    Inv cfg (s.setPc t pc) :=
  { inv with
    tasks := by
      intro other
      by_cases same : other = t
      · subst same
        simpa [State.setPc] using ok
      · simpa [State.setPc, same] using inv.tasks other
    listed := by
      intro other blocked
      by_cases same : other = t
      · subst same
        simpa [State.setPc] using listed blocked
      · simpa [State.setPc, same] using inv.listed other blocked }

theorem Inv.storeBlocked {t : Thread} {blocked : Bool}
    (listed : blocked = true → t ∈ s.blockedTasks) :
    Inv cfg (s.storeBlocked t blocked) :=
  { inv with
    listed := by
      intro other otherBlocked
      by_cases same : other = t
      · subst same
        simp only [State.storeBlocked, update_self] at otherBlocked
        exact .inl (listed otherBlocked)
      · simp only [State.storeBlocked, update_of_ne same] at otherBlocked
        exact inv.listed other otherBlocked }

theorem Inv.storeFrames_setMode (onCpu : cfg.hasCpu cpu)
    {frames : List (Frame Thread)} (nested : Nested frames)
    (framed : ∀ next, Frame.note next ∈ frames →
      Noted s.toReaders (s.current cpu) ∧ cfg.cpuOf next = cpu)
    (ok : ModeOk cfg s.toReaders cpu (s.current cpu) frames mode)
    (target : ∀ next, mode.target = some next → cfg.cpuOf next = cpu) :
    Inv cfg ((s.storeFrames (s.current cpu) frames).setMode cpu mode) :=
  { inv with
    modes := by
      intro other otherOn
      by_cases same : other = cpu
      · subst same
        simpa [State.storeFrames, State.setMode] using ok
      · simpa [State.storeFrames, State.setMode, same,
          inv.current_ne onCpu otherOn same] using inv.modes other otherOn
    targets := by
      intro other next
      by_cases same : other = cpu
      · subst same
        simpa [State.storeFrames, State.setMode] using target next
      · simpa [State.storeFrames, State.setMode, same] using inv.targets other next
    nested := by
      intro t
      by_cases same : t = s.current cpu
      · subst same
        simpa [State.storeFrames, State.setMode] using nested
      · simpa [State.storeFrames, State.setMode, same] using inv.nested t
    framed := by
      intro t next
      by_cases same : t = s.current cpu
      · subst same
        simpa [State.storeFrames, State.setMode, inv.pinned cpu onCpu] using framed next
      · simpa [State.storeFrames, State.setMode, same] using inv.framed t next }

variable {frame : Frame Thread}

theorem Inv.callSchedule (onCpu : cfg.hasCpu cpu)
    (preemptive : Bool) (nested : Nested (frame :: s.frames (s.current cpu)))
    (framed : ∀ next, frame = .note next →
      Noted s.toReaders (s.current cpu) ∧ cfg.cpuOf next = cpu) :
    Inv cfg (s.callSchedule cpu preemptive frame) := by
  apply inv.storeFrames_setMode onCpu nested
  · intro next mem
    rcases mem_cons.mp mem with atTop | below
    · exact framed next atTop.symm
    · have older := inv.framed _ next below
      rw [inv.pinned cpu onCpu] at older
      exact older
  · trivial
  · intro next impossible
    cases impossible

theorem Inv.leaveSchedule (onCpu : cfg.hasCpu cpu) : Inv cfg (s.leaveSchedule cpu) := by
  have nested := inv.nested (s.current cpu)
  have framed := inv.framed (s.current cpu)
  rw [inv.pinned cpu onCpu] at framed
  cases framesEq : s.frames (s.current cpu) with
  | nil =>
    simp only [State.leaveSchedule, framesEq]
    exact inv.setMode framesEq (fun next impossible => by cases impossible)
  | cons frame rest =>
    rw [framesEq] at nested framed
    simp only [State.leaveSchedule, framesEq]
    have restFramed := fun next (below : Frame.note next ∈ rest) =>
      framed next (mem_cons_of_mem _ below)
    cases frame with
    | task | irq =>
      subst nested
      refine inv.storeFrames_setMode onCpu trivial restFramed rfl ?_
      exact fun next impossible => by cases impossible
    | note next =>
      have top := framed next mem_cons_self
      refine inv.storeFrames_setMode onCpu nested restFramed top.1 ?_
      intro target targetEq
      cases targetEq
      exact top.2

theorem Inv.preemptEnable {after : State Thread} (onCpu : cfg.hasCpu cpu)
    (nested : Nested (frame :: s.frames (s.current cpu)))
    (framed : ∀ next, frame = .note next →
      Noted s.toReaders (s.current cpu) ∧ cfg.cpuOf next = cpu)
    (enabled : s.preemptEnable cpu frame = some after) : Inv cfg after := by
  unfold State.preemptEnable at enabled
  split at enabled
  · cases enabled
  · split at enabled <;> cases enabled
    · exact (inv.storePreemptCount cpu _).callSchedule onCpu true nested framed
    · exact inv.storePreemptCount cpu _

end

end Updates

section ReaderUpdates

variable {Thread : Type} {cfg : Config Thread} {s : State Thread}

/-- The thread runs task code and no assertion of the invariant depends on its
nesting. -/
structure Unobserved (cfg : Config Thread) (s : State Thread) (t : Thread) :
    Prop where
  running : s.current (cfg.cpuOf t) = t
  inTask : s.mode (cfg.cpuOf t) = .task
  unframed : s.frames t = []
  anyReaders : ∀ readers, PcOk cfg readers t (s.pc t)

theorem Inv.withReaders (inv : Inv cfg s) (after : Readers Thread) {gpSeq : BitVec 32}
    (later : Later s.toReaders after) (sequence : gpSeq = BitVec.ofNat 32 after.gpStarted)
    (kept : ∀ t, Unobserved cfg s t ∨ after.nesting t = s.nesting t ∧
        (Noted s.toReaders t → Noted after t))
    (listed : ∀ t ∈ s.blockedTasks,
      t ∈ after.blockedTasks ∨ (s.pc t).delisted = true) :
    Inv cfg { s with toReaders := after, gpSeq := gpSeq } :=
  { inv with
    sequence := sequence
    tasks := by
      intro t
      rcases kept t with free | ⟨nestingEq, _⟩
      · exact free.anyReaders after
      · exact (inv.tasks t).later later nestingEq
    modes := by
      intro cpu onCpu
      rcases kept (s.current cpu) with free | ⟨nestingEq, noted⟩
      · have inTask := free.inTask
        rw [inv.pinned cpu onCpu] at inTask
        simpa [inTask, ModeOk] using free.unframed
      · exact (inv.modes cpu onCpu).later later nestingEq noted
    listed := by
      intro t blocked
      rcases inv.listed t blocked with mem | removed
      · exact listed t mem
      · exact .inr removed
    switched := by
      intro t away
      rcases kept t with free | ⟨_, noted⟩
      · exact absurd free.running away
      · exact noted (inv.switched t away)
    framed := by
      intro t next mem
      rcases kept t with free | ⟨_, noted⟩
      · have none : Frame.note next ∈ s.frames t := mem
        simp [free.unframed] at none
      · exact (inv.framed t next mem).imp_left noted
    seen := fun cpu => (inv.seen cpu).later later }

theorem Inv.incrementGpSeq (inv : Inv cfg s) : Inv cfg s.incrementGpSeq := by
  refine inv.withReaders s.incrementGpSeq.toReaders ?_ ?_ ?_ ?_
  · exact ⟨Nat.le_succ _, fun _ _ _ covered => covered, fun _ _ _ elapsed => elapsed⟩
  · rw [inv.sequence]
    exact (BitVec.ofNat_add _ 1).symm
  · exact fun t => .inr ⟨rfl, fun noted => noted⟩
  · exact fun t mem => .inl mem

theorem Inv.listAdd (inv : Inv cfg s) (t : Thread) :
    Inv cfg (s.listAdd t) := by
  have noted : ∀ other, Noted s.toReaders other →
      Noted (s.listAdd t).toReaders other :=
    fun other noted inside => mem_cons_of_mem _ (noted inside)
  refine inv.withReaders (s.listAdd t).toReaders ?_ inv.sequence ?_ ?_
  · exact ⟨Nat.le_refl _, fun _ _ other covered older => noted other (covered older),
      fun _ _ _ elapsed => elapsed⟩
  · exact fun other => .inr ⟨rfl, noted other⟩
  · exact fun other mem => .inl (mem_cons_of_mem _ mem)

variable [DecidableEq Thread]

theorem Inv.listDel (inv : Inv cfg s) {t : Thread}
    (outside : s.nesting t = 0) (removed : (s.pc t).delisted = true) :
    Inv cfg (s.listDel t) := by
  have noted : ∀ other, Noted s.toReaders other →
      Noted (s.listDel t).toReaders other := by
    intro other noted inside
    have ne : other ≠ t := by
      rintro rfl
      exact absurd inside (by simp [State.listDel, outside])
    exact (mem_erase_of_ne ne).mpr (noted inside)
  refine inv.withReaders (s.listDel t).toReaders ?_ inv.sequence ?_ ?_
  · exact ⟨Nat.le_refl _, fun _ _ other covered older => noted other (covered older),
      fun _ _ _ elapsed => elapsed⟩
  · exact fun other => .inr ⟨rfl, noted other⟩
  · intro other mem
    by_cases same : other = t
    · exact .inr (same ▸ removed)
    · exact .inl ((mem_erase_of_ne same).mpr mem)

/-- A store to `rcu_nesting` keeps what is known about started grace periods: a section it opens
begins in the latest of them. -/
theorem later_storeNesting (s : State Thread) (t : Thread) (nesting : Nat) :
    Later s.toReaders (s.storeNesting t nesting).toReaders := by
  refine ⟨Nat.le_refl _, ?_, ?_⟩
  · intro gp gpLe other covered older
    by_cases same : other = t
    · subst same
      by_cases outside : s.nesting other = 0
      · simp only [State.storeNesting, if_pos outside, update_self] at older
        omega
      · simp only [State.storeNesting, if_neg outside] at older
        exact fun _ => covered older (Nat.pos_of_ne_zero outside)
    · have sectionEq : (s.storeNesting t nesting).sectionGp other =
          s.sectionGp other := by
        by_cases outside : s.nesting t = 0 <;>
          simp [State.storeNesting, outside, same]
      rw [sectionEq] at older
      simpa [Noted, State.storeNesting, same] using covered older
  · intro gp gpLe other elapsed inside
    by_cases outside : s.nesting t = 0
    · by_cases same : other = t
      · subst same
        simpa [State.storeNesting, outside] using gpLe
      · simp only [State.storeNesting, update_of_ne same, if_pos outside] at inside ⊢
        exact elapsed inside
    simp only [State.storeNesting, if_neg outside] at inside ⊢
    by_cases same : other = t
    · subst same
      exact elapsed (Nat.pos_of_ne_zero outside)
    · rw [update_of_ne same] at inside
      exact elapsed inside

theorem Inv.storeNesting (inv : Inv cfg s) {t : Thread} {nesting : Nat}
    (free : Unobserved cfg s t) : Inv cfg (s.storeNesting t nesting) := by
  refine inv.withReaders (s.storeNesting t nesting).toReaders
    (later_storeNesting s t nesting) inv.sequence ?_ ?_
  · intro other
    by_cases same : other = t
    · exact .inl (same ▸ free)
    right
    constructor
    · simp [State.storeNesting, same]
    · simp [Noted, State.storeNesting, same]
  · exact fun other mem => .inl mem

end ReaderUpdates

end LaOS.Rcu
