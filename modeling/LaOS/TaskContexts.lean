import LaOS.TaskLaunchSafety
import LaOS.TransitionSystem

/-!
# The life of boot contexts

The calls of `kernel/task_conf.c`, `kernel/task.c` and `kernel/tests/runner.c` on any
number of contexts that share the heap and the one test session.  Each context has a
history since it was last initialized, which no call reads.
-/

namespace LaOS.TaskConf

open List Function WordBytes BootFiles BlockLedger

def zeroConf : Conf := { initialConf 0 .base with initialized := false }

/-- `task_conf_claim_cpu_ctx`.  Without a result it returns -1. -/
def taskConfClaimCpuCtx (conf : Conf) (cpuId : Nat) : Option Conf :=
  if !conf.initialized || !conf.parsed || cpuId ≥ 64 || conf.startedCpus.testBit cpuId then none
  else some { conf with startedCpus := conf.startedCpus ||| 2 ^ cpuId }

/-- `task_conf_destroy_ctx`.  The first part of the result is whether it returned 0. -/
def taskConfDestroyCtx (m : Machine) : Except Fault (Bool × Machine) :=
  if !m.conf.initialized || m.conf.startedCpus ≠ 0 || m.conf.testsStarted then
    .ok (false, m)
  else do
    let m ← clearRecords m
    .ok (true, { m with conf := zeroConf })

/-- The file that `boot_file_lookup` finds in the set at an address. -/
def lookupConfig (set : FileSet) (source : Nat) (path : Option CString) :
    Except Fault (Option ConfigFile) :=
  match bootFileLookup set path with
  | .error fault => .error (.buffer fault)
  | .ok (.found file) => .ok (some { file with source })
  | .ok _ => .ok none

/-- `task_conf_load_ctx` for the set of files of the context. -/
def taskConfLoadCtx (m : Machine) (set : FileSet) (path : Option CString) :
    Except Fault (Bool × Machine) :=
  if !m.conf.initialized then .ok (false, m)
  else do
    match ← lookupConfig set m.conf.files path with
    | none => .ok (false, m)
    | some file => taskConfParseCtx m file

/-- `kernel_tests_start_config`.  Without a result it returns -1. -/
def kernelTestsStartConfig (conf : Conf) (sessionStarted : Bool) : Option Conf :=
  if !conf.initialized || !conf.parsed || conf.testsStarted then none
  else if conf.purpose ≠ .test ∧ conf.purpose ≠ .compat then none
  else if sessionStarted then none
  else some { conf with testsStarted := true }

/-- The records that `launchAll` queues before it ends, stops in a panic or faults. -/
def queuedRecords (files : FileSet) (missingPanics : Bool) (cpuId : Nat) (answers : Answers) :
    Nat → List (Nat × Task) → List (Nat × Task)
  | _, [] => []
  | i, record :: records =>
    match launch files missingPanics cpuId record.2 (answers.granted i)
      (answers.created i) with
    | .error _ | .ok .panic => []
    | .ok (.queued _) =>
      record :: queuedRecords files missingPanics cpuId answers (i + 1) records
    | .ok _ => queuedRecords files missingPanics cpuId answers (i + 1) records

structure Launched where
  block : Nat
  task : Task
  cpuId : Nat

/-- The files parsed, the CPUs claimed, the records launched and the number of test sessions
since the context was last initialized. -/
structure History where
  parses : List ConfigFile
  claims : List Nat
  launches : List Launched
  sessions : Nat

def History.new : History := ⟨[], [], [], 0⟩

structure State (Context : Type) where
  conf : Context → Conf
  history : Context → History
  heap : Ledger
  sessionStarted : Bool
  halted : Bool

inductive Call (Context : Type)
  | init (ctx : Context) (files : Nat) (purpose : Purpose)
  | parse (ctx : Context) (file : ConfigFile)
  | load (ctx : Context) (path : Option CString)
  | claim (ctx : Context) (cpuId : Nat)
  | run (ctx : Context) (cpuId : Nat) (answers : Answers)
  | startTests (ctx : Context)
  | destroy (ctx : Context)

variable {Context : Type}

def Call.context : Call Context → Context
  | .init ctx _ _ | .parse ctx _ | .load ctx _ | .claim ctx _ | .run ctx _ _
  | .startTests ctx | .destroy ctx => ctx

variable [DecidableEq Context]

namespace State

variable (s : State Context) (ctx : Context)

def machine : Machine := ⟨s.conf ctx, s.heap⟩

def put (conf : Conf) (history : History) : State Context :=
  { s with
    conf := Function.update s.conf ctx conf
    history := Function.update s.history ctx history }

/-- The state after a function on a context and the heap, with a note of its success. -/
def after (note : History → History) : Except Fault (Bool × Machine) → Bool × State Context
  | .error _ => (false, { s with halted := true })
  | .ok (success, m) =>
    (success, { s.put ctx m.conf
      (if success then note (s.history ctx) else s.history ctx) with
        heap := m.heap })

end State

def History.noteParse (file : ConfigFile) (history : History) : History :=
  { history with parses := file :: history.parses }

def History.noteRun (cpuId : Nat) (records : List (Nat × Task)) (history : History) : History :=
  { history with
    claims := cpuId :: history.claims
    launches := records.map (fun record => ⟨record.1, record.2, cpuId⟩) ++ history.launches }

/-- A call on the files at the given addresses.  The first part of the result is
whether it returned 0. -/
def perform (sets : Nat → FileSet) (s : State Context) : Call Context → Bool × State Context
  | .init ctx files purpose =>
    match taskConfInitCtx (s.conf ctx) files purpose with
    | none => (false, s)
    | some conf => (true, s.put ctx conf .new)
  | .parse ctx file =>
    s.after ctx (.noteParse file) (taskConfParseCtx (s.machine ctx) file)
  | .load ctx path =>
    let set := sets (s.conf ctx).files
    let note := match lookupConfig set (s.conf ctx).files path with
      | .ok (some file) => History.noteParse file
      | _ => id
    s.after ctx note (taskConfLoadCtx (s.machine ctx) set path)
  | .claim ctx cpuId =>
    match taskConfClaimCpuCtx (s.conf ctx) cpuId with
    | none => (false, s)
    | some conf => (true, s.put ctx conf ((s.history ctx).noteRun cpuId []))
  | .run ctx cpuId answers =>
    let conf := s.conf ctx
    let files := sets conf.files
    let queued := queuedRecords files conf.moduleMissingPanic cpuId answers 0 conf.tasks
    let history := (s.history ctx).noteRun cpuId queued
    match taskRunConfiguredCpuCtx conf files cpuId answers with
    | .ok (none, _) => (false, s)
    | .ok (some launched, conf) =>
      (true, { s.put ctx conf history with halted := launched.contains .panic })
    | .error _ =>
      (false, { s.put ctx { conf with startedCpus := conf.startedCpus ||| 2 ^ cpuId }
        history with halted := true })
  | .startTests ctx =>
    match kernelTestsStartConfig (s.conf ctx) s.sessionStarted with
    | none => (false, s)
    | some conf =>
      let history := s.history ctx
      (true, { s.put ctx conf { history with sessions := history.sessions + 1 } with
        sessionStarted := true })
  | .destroy ctx => s.after ctx id (taskConfDestroyCtx (s.machine ctx))

def system (sets : Nat → FileSet) : TransitionSystem (State Context) (Call Context) where
  initial s := s.conf = (fun _ => zeroConf) ∧ s.history = (fun _ => .new) ∧
    s.sessionStarted = false ∧ s.halted = false
  step s call := if s.halted then none else some (perform sets s call).2

section Launches

variable {files : FileSet} {missingPanics : Bool} {cpuId i : Nat} {answers : Answers}
  {records : List (Nat × Task)}

def Launch.isQueued : Launch → Bool
  | .queued _ => true
  | _ => false

/-- Without a fault these are the records whose outcome is that they were queued. -/
theorem queuedRecords_eq {outcomes : List Launch}
    (all : launchAll files missingPanics cpuId answers i (records.map Prod.snd) =
      .ok outcomes) : queuedRecords files missingPanics cpuId answers i records =
      ((records.zip outcomes).filter fun pair => pair.2.isQueued).map Prod.fst := by
  induction records generalizing i outcomes with
  | nil => rfl
  | cons record records ih =>
    rw [map_cons, launchAll] at all
    rw [queuedRecords]
    cases launched : launch files missingPanics cpuId record.2 (answers.granted i)
        (answers.created i) with
    | error fault =>
      rw [launched] at all
      cases all
    | ok outcome =>
      simp only [launched, bind, Except.bind] at all
      split at all
      next isPanic =>
        cases all
        rw [isPanic, zip_cons_cons, zip_nil_right]
        rfl
      next proceeds =>
        cases rest : launchAll files missingPanics cpuId answers (i + 1)
            (records.map Prod.snd) with
        | error fault =>
          rw [rest] at all
          cases all
        | ok others =>
          rw [rest] at all
          cases all
          cases outcome with
          | panic => exact absurd rfl proceeds
          | queued argv | otherCpu | unsupported | missing | refused | failed =>
            simp only [ih rest, zip_cons_cons]
            rfl

theorem queuedRecords_sublist :
    (queuedRecords files missingPanics cpuId answers i records).Sublist records := by
  induction records generalizing i with
  | nil => exact .slnil
  | cons record records ih =>
    rw [queuedRecords]
    split
    · exact nil_sublist _
    · exact nil_sublist _
    · exact ih.cons_cons record
    · exact ih.cons record

theorem cpuId_of_mem_queuedRecords {record : Nat × Task}
    (member : record ∈ queuedRecords files missingPanics cpuId answers i records) :
    record.2.cpuId = cpuId := by
  induction records generalizing i with
  | nil => cases member
  | cons first records ih =>
    rw [queuedRecords] at member
    split at member
    · cases member
    · cases member
    · next argv launched =>
      rcases mem_cons.mp member with rfl | member
      · by_contra other
        rw [launch, if_pos fun same => other same.symm] at launched
        cases launched
      · exact ih member
    · exact ih member

end Launches

/-- What holds of a history alone, also after the context was destroyed. -/
structure HistoryOk (history : History) : Prop where
  parsedOnce : history.parses.length ≤ 1
  launchedOnce : (history.launches.map Launched.block).Nodup
  ownCpu : ∀ launched ∈ history.launches, launched.task.cpuId = launched.cpuId

/-- The records are what the parser makes of the bytes of the file. -/
def MadeFrom (file : ConfigFile) (conf : Conf) : Prop :=
  ∃ heap last, taskConfParseV1Ctx ⟨initialConf conf.files conf.purpose, heap⟩
      file.contents.bytes = .ok (true, last) ∧
    conf.tasks = last.conf.tasks ∧ conf.directives = last.conf.directives

structure ParsedOk (conf : Conf) (history : History) : Prop where
  initialized : conf.initialized = true
  origin : ∃ file, history.parses = [file] ∧ file.source = conf.files ∧ MadeFrom file conf
  testsOnly : TestsOnly conf
  claimed : ∀ cpuId, conf.startedCpus.testBit cpuId = true ↔ cpuId ∈ history.claims
  sessions : conf.testsStarted = false → history.sessions = 0
  launched : ∀ launched ∈ history.launches, (launched.block, launched.task) ∈ conf.tasks ∧
    launched.cpuId ∈ history.claims

structure ContextOk (conf : Conf) (history : History) : Prop where
  past : HistoryOk history
  blank : conf.initialized = false → conf = zeroConf ∧ history.launches = []
  unparsed : conf.initialized = true → conf.parsed = false →
    conf = initialConf conf.files conf.purpose ∧ history = .new
  parsed : conf.parsed = true → ParsedOk conf history

structure LifecycleInv (s : State Context) : Prop where
  context : ∀ ctx, ContextOk (s.conf ctx) (s.history ctx)
  distinct : ∀ ctx, (s.conf ctx).blocks.Nodup
  live : ∀ ctx, ∀ block ∈ (s.conf ctx).blocks, block ∈ s.heap.live
  apart : ∀ ctx other, ctx ≠ other → ∀ block ∈ (s.conf ctx).blocks,
    block ∉ (s.conf other).blocks

section Steps

variable {s after : State Context} {ctx : Context} {conf : Conf} {history : History}
  {sets : Nat → FileSet}

theorem historyOk_new : HistoryOk .new := ⟨Nat.zero_le 1, .nil, nofun⟩

theorem contextOk_zeroConf (past : HistoryOk history) (noLaunches : history.launches = []) :
    ContextOk zeroConf history :=
  ⟨past, fun _ => ⟨rfl, noLaunches⟩, nofun, nofun⟩

theorem contextOk_initialConf (files : Nat) (purpose : Purpose) :
    ContextOk (initialConf files purpose) .new :=
  ⟨historyOk_new, nofun, fun _ _ => ⟨rfl, rfl⟩, nofun⟩

theorem ParsedOk.contextOk (parsed : ParsedOk conf history) (isParsed : conf.parsed = true)
    (past : HistoryOk history) : ContextOk conf history := by
  refine ⟨past, fun isBlank => ?_, fun _ notParsed => ?_, fun _ => parsed⟩
  · cases parsed.initialized.symm.trans isBlank
  · cases isParsed.symm.trans notParsed

theorem LifecycleInv.store (inv : LifecycleInv s) (ctx : Context)
    (confs : after.conf = update s.conf ctx conf)
    (histories : after.history = update s.history ctx history)
    (ok : ContextOk conf history) (distinct : conf.blocks.Nodup)
    (live : ∀ block ∈ conf.blocks, block ∈ after.heap.live)
    (fresh : ∀ block ∈ conf.blocks, block ∈ (s.conf ctx).blocks ∨ block ∉ s.heap.live)
    (kept : ∀ block ∈ s.heap.live, block ∉ (s.conf ctx).blocks →
      block ∈ after.heap.live) : LifecycleInv after := by
  have apart : ∀ other ≠ ctx, ∀ block ∈ conf.blocks, block ∉ (s.conf other).blocks := by
    intro other isOther block member otherMember
    rcases fresh block member with old | notLive
    · exact inv.apart ctx other (Ne.symm isOther) block old otherMember
    · exact notLive (inv.live other block otherMember)
  refine ⟨fun other => ?_, fun other => ?_, fun other => ?_, fun one other ne => ?_⟩
  · rw [confs, histories]
    by_cases same : other = ctx
    · subst same
      rw [update_self, update_self]
      exact ok
    · rw [update_of_ne same, update_of_ne same]
      exact inv.context other
  · rw [confs]
    by_cases same : other = ctx
    · subst same
      rw [update_self]
      exact distinct
    · rw [update_of_ne same]
      exact inv.distinct other
  · rw [confs]
    by_cases same : other = ctx
    · subst same
      rw [update_self]
      exact live
    · rw [update_of_ne same]
      intro block member
      exact kept block (inv.live other block member) (inv.apart other ctx same block member)
  · rw [confs]
    by_cases first : one = ctx
    · subst first
      rw [update_self, update_of_ne (Ne.symm ne)]
      exact apart other (Ne.symm ne)
    rw [update_of_ne first]
    by_cases second : other = ctx
    · subst second
      rw [update_self]
      exact fun block member isNew => apart one first block isNew member
    · rw [update_of_ne second]
      exact inv.apart one other ne

theorem LifecycleInv.storeSame (inv : LifecycleInv s) (ctx : Context)
    (confs : after.conf = update s.conf ctx conf)
    (histories : after.history = update s.history ctx history)
    (ok : ContextOk conf history) (blocks : conf.blocks = (s.conf ctx).blocks)
    (live : after.heap.live = s.heap.live) : LifecycleInv after := by
  refine inv.store ctx confs histories ok ?_ ?_ ?_ ?_
  · rw [blocks]
    exact inv.distinct ctx
  · rw [blocks, live]
    exact inv.live ctx
  · rw [blocks]
    exact fun _ => .inl
  · rw [live]
    exact fun _ member _ => member

theorem LifecycleInv.init (inv : LifecycleInv s) {files : Nat} {purpose : Purpose}
    (called : taskConfInitCtx (s.conf ctx) files purpose = some conf) :
    LifecycleInv (s.put ctx conf .new) := by
  obtain ⟨guards, ⟨⟩⟩ := Option.ite_none_left_eq_some.mp called
  have isBlank := ((inv.context ctx).blank (Bool.eq_false_iff.mpr (not_or.mp guards).2)).1
  refine inv.storeSame ctx rfl rfl (contextOk_initialConf files purpose) ?_ rfl
  rw [isBlank]
  rfl

theorem LifecycleInv.parse (inv : LifecycleInv s) (file : ConfigFile) :
    LifecycleInv (s.after ctx (.noteParse file)
      (taskConfParseCtx (s.machine ctx) file)).2 := by
  have ok := inv.context ctx
  by_cases ready : (s.conf ctx).initialized = true ∧ (s.conf ctx).parsed = false
  · obtain ⟨isInitial, isNew⟩ := ok.unparsed ready.1 ready.2
    have effect := @taskConfParseCtx_effect (s.conf ctx).files (s.conf ctx).purpose
      s.heap file
    rw [← isInitial] at effect
    change ParseEffect _ _ _ (taskConfParseCtx (s.machine ctx) file) at effect
    generalize taskConfParseCtx (s.machine ctx) file = outcome at effect
    cases effect with
    | failed live => exact inv.storeSame ctx rfl rfl ok rfl live
    | @accepted last source looped kept =>
      have reset : ∀ {Field : Type} (field : Conf → Field),
          field last.conf.reset = field (s.conf ctx) :=
        fun field => congrArg field kept.reset
      have sameFiles : last.conf.files = (s.conf ctx).files := reset Conf.files
      have samePurpose : last.conf.purpose = (s.conf ctx).purpose := reset Conf.purpose
      have noClaims : last.conf.startedCpus = 0 :=
        (reset Conf.startedCpus).trans (congrArg Conf.startedCpus isInitial)
      have parsedOk : ParsedOk { last.conf with configPath := file.path, parsed := true }
          (History.noteParse file (s.history ctx)) := by
        refine ⟨(reset Conf.initialized).trans ready.1, ⟨file, ?_, ?_, ?_⟩, ?_, ?_, ?_, ?_⟩
        · rw [isNew]
          rfl
        · exact source.trans sameFiles.symm
        · refine ⟨s.heap, last, ?_, rfl, rfl⟩
          rw [sameFiles, samePurpose, ← isInitial]
          exact looped
        · exact kept.testsOnly
        · intro cpuId
          rw [noClaims, isNew, Nat.zero_testBit]
          exact ⟨nofun, nofun⟩
        · intro
          rw [isNew]
          rfl
        · rw [isNew]
          exact nofun
      refine inv.store ctx rfl rfl (parsedOk.contextOk rfl ?_) kept.distinct ?_ ?_ ?_
      · rw [isNew]
        exact ⟨le_rfl, .nil, nofun⟩
      · intro block member
        change block ∈ last.heap.live
        rw [kept.live, Finset.mem_union, mem_toFinset]
        exact .inr member
      · exact fun block member => .inr (kept.apart block member)
      · intro block isLive _
        change block ∈ last.heap.live
        rw [kept.live]
        exact Finset.mem_union_left _ isLive
  · have refused : taskConfParseCtx (s.machine ctx) file =
        .ok (false, s.machine ctx) := by
      rw [taskConfParseCtx]
      cases isInitialized : (s.conf ctx).initialized with
      | false => simp [State.machine, isInitialized]
      | true =>
        have isParsed : (s.conf ctx).parsed = true := by
          by_contra notParsed
          exact ready ⟨isInitialized, Bool.eq_false_iff.mpr notParsed⟩
        simp [State.machine, isParsed]
    rw [refused]
    exact inv.storeSame ctx rfl rfl ok rfl rfl

theorem lookupConfig_ok (set : FileSet) (source : Nat) (path : Option CString) :
    ∃ result, lookupConfig set source path = .ok result := by
  obtain ⟨result, looked⟩ := bootFileLookup_ok set path
  rw [lookupConfig, looked]
  cases result with
  | found file => exact ⟨_, rfl⟩
  | missing | invalid => exact ⟨none, rfl⟩

theorem taskConfLoadCtx_cases (m : Machine) (set : FileSet) (path : Option CString) :
    taskConfLoadCtx m set path = .ok (false, m) ∨
      ∃ file, lookupConfig set m.conf.files path = .ok (some file) ∧
        taskConfLoadCtx m set path = taskConfParseCtx m file := by
  obtain ⟨found, looked⟩ := lookupConfig_ok set m.conf.files path
  rw [taskConfLoadCtx]
  split
  · exact .inl rfl
  simp only [looked, bind, Except.bind]
  cases found with
  | none => exact .inl rfl
  | some file => exact .inr ⟨file, rfl, rfl⟩

theorem LifecycleInv.load (inv : LifecycleInv s) (path : Option CString) :
    LifecycleInv (perform sets s (.load ctx path)).2 := by
  simp only [perform]
  rcases taskConfLoadCtx_cases (s.machine ctx) (sets (s.conf ctx).files) path
    with refused | ⟨file, looked, loaded⟩
  · rw [refused]
    exact inv.storeSame ctx rfl rfl (inv.context ctx) rfl rfl
  have found : lookupConfig (sets (s.conf ctx).files) (s.conf ctx).files path =
      .ok (some file) := looked
  rw [loaded, found]
  exact inv.parse file

theorem LifecycleInv.claim (inv : LifecycleInv s) {cpuId : Nat} {records : List (Nat × Task)}
    (isParsed : (s.conf ctx).parsed = true)
    (unclaimed : (s.conf ctx).startedCpus.testBit cpuId = false)
    (queued : records.Sublist (s.conf ctx).tasks)
    (named : ∀ record ∈ records, record.2.cpuId = cpuId)
    (confs : after.conf = update s.conf ctx { s.conf ctx with
      startedCpus := (s.conf ctx).startedCpus ||| 2 ^ cpuId })
    (histories : after.history = update s.history ctx
      ((s.history ctx).noteRun cpuId records))
    (live : after.heap.live = s.heap.live) : LifecycleInv after := by
  have ok := inv.context ctx
  have parsed := ok.parsed isParsed
  have distinct := (nodup_append'.mp (inv.distinct ctx)).1
  have isNew : cpuId ∉ (s.history ctx).claims := by
    rw [← parsed.claimed, unclaimed]
    exact Bool.false_ne_true
  have blocks : ((records.map fun record => (⟨record.1, record.2, cpuId⟩ : Launched)).map
      Launched.block) = records.map Prod.fst := by
    rw [map_map]
    rfl
  refine inv.storeSame ctx confs histories (ParsedOk.contextOk ?_ isParsed ?_) rfl live
  · refine { parsed with claimed := fun other => ?_, launched := fun launched member => ?_ }
    · change ((s.conf ctx).startedCpus ||| 2 ^ cpuId).testBit other = true ↔
        other ∈ cpuId :: (s.history ctx).claims
      rw [Nat.testBit_or, Bool.or_eq_true, parsed.claimed, Nat.testBit_two_pow, mem_cons,
        decide_eq_true_eq, or_comm, eq_comm]
    rcases mem_append.mp member with isNew | isOld
    · obtain ⟨record, isQueued, rfl⟩ := mem_map.mp isNew
      exact ⟨queued.mem isQueued, mem_cons_self⟩
    · obtain ⟨isTask, isClaimed⟩ := parsed.launched launched isOld
      exact ⟨isTask, mem_cons_of_mem _ isClaimed⟩
  refine ⟨ok.past.parsedOnce, ?_, fun launched member => ?_⟩
  · change (map Launched.block (_ ++ (s.history ctx).launches)).Nodup
    rw [map_append, blocks]
    refine (distinct.sublist (queued.map Prod.fst)).append ok.past.launchedOnce ?_
    intro block inNew inOld
    obtain ⟨record, isQueued, rfl⟩ := mem_map.mp inNew
    obtain ⟨launched, isOld, same⟩ := mem_map.mp inOld
    obtain ⟨isTask, isClaimed⟩ := parsed.launched launched isOld
    have sameRecord := inj_on_of_nodup_map distinct isTask (queued.mem isQueued) same
    have sameTask : launched.task = record.2 := congrArg Prod.snd sameRecord
    rw [← ok.past.ownCpu launched isOld, sameTask, named record isQueued] at isClaimed
    exact isNew isClaimed
  · rcases mem_append.mp member with isNew | isOld
    · obtain ⟨record, isQueued, rfl⟩ := mem_map.mp isNew
      exact named record isQueued
    · exact ok.past.ownCpu launched isOld

theorem LifecycleInv.claimCpu (inv : LifecycleInv s) {cpuId : Nat}
    (called : taskConfClaimCpuCtx (s.conf ctx) cpuId = some conf) :
    LifecycleInv (s.put ctx conf ((s.history ctx).noteRun cpuId [])) := by
  obtain ⟨guards, ⟨⟩⟩ := Option.ite_none_left_eq_some.mp called
  simp only [Bool.or_eq_true, Bool.not_eq_true', not_or, Bool.not_eq_false,
    Bool.not_eq_true] at guards
  exact inv.claim guards.1.1.2 guards.2 (nil_sublist _) nofun rfl rfl rfl

theorem taskRunConfiguredCpuCtx_cases (conf : Conf) (files : FileSet) (cpuId : Nat)
    (answers : Answers) : taskRunConfiguredCpuCtx conf files cpuId answers = .ok (none, conf) ∨
      conf.parsed = true ∧ conf.startedCpus.testBit cpuId = false ∧
        ((∃ outcomes, taskRunConfiguredCpuCtx conf files cpuId answers =
            .ok (some outcomes, { conf with startedCpus := conf.startedCpus ||| 2 ^ cpuId })) ∨
          ∃ fault, taskRunConfiguredCpuCtx conf files cpuId answers = .error fault) := by
  rw [taskRunConfiguredCpuCtx]
  split
  next => exact .inl rfl
  next guards =>
    simp only [Bool.or_eq_true, Bool.not_eq_true', not_or, Bool.not_eq_false,
      Bool.not_eq_true] at guards
    refine .inr ⟨guards.1.1.2, guards.2, ?_⟩
    cases launchAll files conf.moduleMissingPanic cpuId answers 0 (conf.tasks.map Prod.snd) with
    | error fault => exact .inr ⟨fault, rfl⟩
    | ok outcomes => exact .inl ⟨outcomes, rfl⟩

theorem LifecycleInv.run (inv : LifecycleInv s) {cpuId : Nat} {answers : Answers} :
    LifecycleInv (perform sets s (.run ctx cpuId answers)).2 := by
  have named : ∀ record ∈ queuedRecords (sets (s.conf ctx).files)
      (s.conf ctx).moduleMissingPanic cpuId answers 0 (s.conf ctx).tasks,
      record.2.cpuId = cpuId := fun _ => cpuId_of_mem_queuedRecords
  simp only [perform]
  rcases taskRunConfiguredCpuCtx_cases (s.conf ctx) (sets (s.conf ctx).files) cpuId
    answers with refused | ⟨isParsed, unclaimed, ⟨outcomes, ran⟩ | ⟨fault, ran⟩⟩
  · rw [refused]
    exact inv
  all_goals
    rw [ran]
    exact inv.claim isParsed unclaimed queuedRecords_sublist named rfl rfl rfl

theorem LifecycleInv.startTests (inv : LifecycleInv s) :
    LifecycleInv (perform sets s (.startTests ctx)).2 := by
  simp only [perform]
  split
  next => exact inv
  next conf called =>
    obtain ⟨guards, called⟩ := Option.ite_none_left_eq_some.mp called
    split at called
    · cases called
    split at called
    · cases called
    cases called
    simp only [Bool.or_eq_true, Bool.not_eq_true', not_or, Bool.not_eq_false] at guards
    have parsed := (inv.context ctx).parsed guards.1.2
    refine inv.storeSame ctx rfl rfl (ParsedOk.contextOk ?_ guards.1.2 ?_) rfl rfl
    · exact { parsed with sessions := nofun }
    · have past := (inv.context ctx).past
      exact { past with }

theorem ContextOk.isParsed (ok : ContextOk conf history)
    (records : conf.tasks ≠ [] ∨ conf.directives ≠ [] ∨ history.launches ≠ []) :
    conf.parsed = true := by
  by_contra notParsed
  rw [Bool.not_eq_true] at notParsed
  cases initialized : conf.initialized with
  | false =>
    obtain ⟨rfl, noLaunches⟩ := ok.blank initialized
    rcases records with some | some | some
    · exact some rfl
    · exact some rfl
    · exact some noLaunches
  | true =>
    obtain ⟨isInitial, rfl⟩ := ok.unparsed initialized notParsed
    rw [isInitial] at records
    rcases records with some | some | some
    all_goals exact some rfl

omit [DecidableEq Context] in
theorem LifecycleInv.clearRecords (inv : LifecycleInv s) :
    ∃ last, clearRecords (s.machine ctx) = .ok last ∧
      last.heap.live = s.heap.live \ (s.conf ctx).blocks.toFinset := by
  have parsing : Parsing (s.heap.live \ (s.conf ctx).blocks.toFinset)
      (s.conf ctx).reset (s.machine ctx) := by
    have ok := inv.context ctx
    refine ⟨rfl, inv.distinct ctx, ?_, fun block member => ?_, fun some => ?_⟩
    · refine (Finset.sdiff_union_of_subset fun block member => ?_).symm
      exact inv.live ctx block (mem_toFinset.mp member)
    · rw [Finset.mem_sdiff, mem_toFinset]
      exact fun outside => outside.2 member
    · exact (ok.parsed (ok.isParsed (.inr (.inl some)))).testsOnly some
  obtain ⟨last, cleared, live, -⟩ := clearRecords_ok parsing
  exact ⟨last, cleared, live⟩

theorem ContextOk.unstarted (ok : ContextOk conf history) (initialized : conf.initialized = true)
    (noCpus : conf.startedCpus = 0) (noTests : conf.testsStarted = false) :
    history.claims = [] ∧ history.sessions = 0 ∧ history.launches = [] := by
  cases isParsed : conf.parsed with
  | false =>
    rw [(ok.unparsed initialized isParsed).2]
    exact ⟨rfl, rfl, rfl⟩
  | true =>
    have parsed := ok.parsed isParsed
    have noClaims : history.claims = [] := by
      refine eq_nil_iff_forall_not_mem.mpr fun cpuId isClaimed => ?_
      have bit := (parsed.claimed cpuId).mpr isClaimed
      rw [noCpus, Nat.zero_testBit] at bit
      cases bit
    refine ⟨noClaims, parsed.sessions noTests,
      eq_nil_iff_forall_not_mem.mpr fun launched member => ?_⟩
    have isClaimed := (parsed.launched launched member).2
    rw [noClaims] at isClaimed
    cases isClaimed

theorem taskConfDestroyCtx_cases (m : Machine) :
    taskConfDestroyCtx m = .ok (false, m) ∨
      (m.conf.initialized = true ∧ m.conf.startedCpus = 0 ∧
        m.conf.testsStarted = false) ∧
        taskConfDestroyCtx m = (clearRecords m).map fun last =>
          (true, { last with conf := zeroConf }) := by
  rw [taskConfDestroyCtx]
  split
  next => exact .inl rfl
  next guards =>
    simp only [Bool.or_eq_true, Bool.not_eq_true', decide_eq_true_eq, not_or, Bool.not_eq_false,
      not_not] at guards
    refine .inr ⟨⟨guards.1.1, guards.1.2, Bool.not_eq_true _ ▸ guards.2⟩, ?_⟩
    cases clearRecords m with
    | error fault => rfl
    | ok last => rfl

theorem LifecycleInv.destroy (inv : LifecycleInv s) :
    LifecycleInv (s.after ctx id (taskConfDestroyCtx (s.machine ctx))).2 := by
  have ok := inv.context ctx
  rcases taskConfDestroyCtx_cases (s.machine ctx) with
    refused | ⟨⟨initialized, noCpus, noTests⟩, destroyed⟩
  · rw [refused]
    exact inv.storeSame ctx rfl rfl ok rfl rfl
  obtain ⟨last, cleared, live⟩ := @LifecycleInv.clearRecords _ _ ctx inv
  obtain ⟨-, -, noLaunches⟩ := ok.unstarted initialized noCpus noTests
  rw [destroyed, cleared]
  refine inv.store ctx rfl rfl (contextOk_zeroConf ok.past noLaunches) .nil nofun nofun ?_
  intro block isLive notOwn
  change block ∈ last.heap.live
  rw [live, Finset.mem_sdiff, mem_toFinset]
  exact ⟨isLive, notOwn⟩

theorem LifecycleInv.perform (inv : LifecycleInv s) (call : Call Context) :
    LifecycleInv (perform sets s call).2 := by
  cases call with
  | init ctx files purpose =>
    simp only [TaskConf.perform]
    split
    · exact inv
    next called => exact inv.init called
  | parse ctx file => exact inv.parse file
  | load ctx path => exact inv.load path
  | claim ctx cpuId =>
    simp only [TaskConf.perform]
    split
    · exact inv
    next called => exact inv.claimCpu called
  | run ctx cpuId answers => exact inv.run
  | startTests ctx => exact inv.startTests
  | destroy ctx => exact inv.destroy

theorem lifecycleInv_of_reachable (reached : (system sets).Reachable s) :
    LifecycleInv s := by
  refine reached.invariant ?_ ?_
  · rintro s ⟨confs, histories, -⟩
    refine ⟨fun ctx => ?_, fun ctx => ?_, fun ctx => ?_, fun ctx other _ => ?_⟩
    · rw [confs, histories]
      exact contextOk_zeroConf historyOk_new rfl
    · rw [confs]
      exact .nil
    all_goals
      rw [confs]
      exact nofun
  · intro s call after _ inv taken
    obtain ⟨-, ⟨⟩⟩ := Option.ite_none_left_eq_some.mp taken
    exact inv.perform call

/-- The state differs at most in one context, the heap and the flags. -/
def SameBut (ctx : Context) (s after : State Context) : Prop :=
  ∀ other ≠ ctx, after.conf other = s.conf other ∧ after.history other = s.history other

theorem sameBut_put : SameBut ctx s (s.put ctx conf history) := fun _ isOther =>
  ⟨update_of_ne isOther .., update_of_ne isOther ..⟩

omit [DecidableEq Context] in
theorem sameBut_refl : SameBut ctx s s := fun _ _ => ⟨rfl, rfl⟩

theorem sameBut_after {note : History → History} (outcome : Except Fault (Bool × Machine)) :
    SameBut ctx s (s.after ctx note outcome).2 := by
  cases outcome with
  | error fault => exact sameBut_refl
  | ok result => exact sameBut_put

theorem sameBut_perform (call : Call Context) :
    SameBut call.context s (perform sets s call).2 := by
  cases call with
  | parse ctx file | load ctx path | destroy ctx => exact sameBut_after _
  | init ctx files purpose | claim ctx cpuId | startTests ctx =>
    simp only [perform]
    split
    · exact sameBut_refl
    · exact sameBut_put
  | run ctx cpuId answers =>
    simp only [perform]
    split
    · exact sameBut_refl
    all_goals exact sameBut_put

theorem destroy_unstarted (inv : LifecycleInv s)
    (success : (perform sets s (.destroy ctx)).1 = true) :
    (s.history ctx).claims = [] ∧ (s.history ctx).sessions = 0 := by
  rcases taskConfDestroyCtx_cases (s.machine ctx) with
    refused | ⟨⟨initialized, noCpus, noTests⟩, -⟩
  · rw [perform, refused] at success
    cases success
  · obtain ⟨noClaims, noSessions, -⟩ :=
      (inv.context ctx).unstarted initialized noCpus noTests
    exact ⟨noClaims, noSessions⟩

/-- A context is parsed at most once and holds what its own files give; a record is launched at
most once, by its CPU; a context with something started is not destroyed; and calls leave other
contexts alone. -/
theorem contexts_lifecycle (reached : (system sets).Reachable s) :
    (∀ ctx, (s.history ctx).parses.length ≤ 1) ∧
    (∀ ctx, ((s.history ctx).launches.map Launched.block).Nodup ∧
      ∀ launched ∈ (s.history ctx).launches,
        (launched.block, launched.task) ∈ (s.conf ctx).tasks ∧
          launched.task.cpuId = launched.cpuId) ∧
    (∀ ctx, (s.conf ctx).purpose = .base ∨ (s.conf ctx).purpose = .recovery →
      (s.conf ctx).directives = []) ∧
    (∀ ctx, (s.conf ctx).tasks ≠ [] ∨ (s.conf ctx).directives ≠ [] →
      ∃ file, (s.history ctx).parses = [file] ∧
        file.source = (s.conf ctx).files ∧ MadeFrom file (s.conf ctx)) ∧
    (∀ ctx, (perform sets s (.destroy ctx)).1 = true →
      (s.history ctx).claims = [] ∧ (s.history ctx).sessions = 0) ∧
    (∀ call : Call Context, ∀ ctx ≠ call.context,
      (perform sets s call).2.conf ctx = s.conf ctx ∧
      (perform sets s call).2.history ctx = s.history ctx ∧
      ∀ block ∈ (s.conf ctx).blocks, block ∈ (perform sets s call).2.heap.live) := by
  have inv := lifecycleInv_of_reachable reached
  refine ⟨fun ctx => (inv.context ctx).past.parsedOnce, fun ctx => ?_,
    fun ctx plain => ?_, fun ctx records => ?_, fun ctx => destroy_unstarted inv,
    fun call ctx isOther => ?_⟩
  · have ok := inv.context ctx
    refine ⟨ok.past.launchedOnce, fun launched member => ⟨?_, ok.past.ownCpu launched member⟩⟩
    have isParsed := ok.isParsed (.inr (.inr (ne_nil_of_mem member)))
    exact ((ok.parsed isParsed).launched launched member).1
  · by_contra some
    have ok := inv.context ctx
    have isTest := (ok.parsed (ok.isParsed (.inr (.inl some)))).testsOnly some
    rcases plain with plain | plain
    all_goals
      rw [plain] at isTest
      exact isTest.elim nofun nofun
  · have ok := inv.context ctx
    have isParsed := ok.isParsed (records.imp_right .inl)
    exact (ok.parsed isParsed).origin
  · obtain ⟨sameConf, sameHistory⟩ := @sameBut_perform _ _ s sets call ctx isOther
    refine ⟨sameConf, sameHistory, ?_⟩
    rw [← sameConf]
    exact (inv.perform call).live ctx

end Steps

/-- The line `0 a:b 1 0x0`. -/
def oneTask : ConfigFile :=
  configuration [0x30, 0x20, 0x61, 0x3a, 0x62, 0x20, 0x31, 0x20, 0x30, 0x78, 0x30, 0x0a]

def zeroState : State Bool where
  conf := fun _ => zeroConf
  history := fun _ => .new
  heap := ⟨∅, 0, fun _ => true, 0, BlockLedger.fresh_empty⟩
  sessionStarted := false
  halted := false

/-- Two contexts are initialized, parsed and launched in turn, and then an attempt is made to
destroy the first one. -/
def launchTwice : List (Call Bool) :=
  [.init false 1 .base, .init true 1 .base, .parse true oneTask, .parse false oneTask,
    .run false 0 allGranted, .run true 0 allGranted, .destroy false]

def launchedTwice : State Bool :=
  ((system fun _ => oneModule).run zeroState launchTwice).getD zeroState

theorem contexts_lifecycle_oneTask : (launchedTwice.history false).launches.length = 1 ∧
      (launchedTwice.history true).launches.length = 1 ∧
      ∀ ctx, ((launchedTwice.history ctx).launches.map Launched.block).Nodup := by
  have initially : (system fun _ => oneModule).initial zeroState := ⟨rfl, rfl, rfl, rfl⟩
  have reached : (system fun _ => oneModule).Reachable launchedTwice :=
    TransitionSystem.Reachable.getD_run (.start initially) launchTwice
  exact ⟨by decide +kernel, by decide +kernel, fun ctx => ((contexts_lifecycle reached).2.1 ctx).1⟩

end LaOS.TaskConf
