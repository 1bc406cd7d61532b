import LaOS.BootLookup
import LaOS.TaskConfAtomic
import LaOS.TaskLaunch

/-!
# Which configurations can be launched

A record without an entry name holds a null pointer, so a launch is safe exactly if every
record that reaches its arguments has a name.
-/

namespace LaOS.TaskConf

open WordBytes Cpio BootFiles

section Lookups

variable {archive : Archive} {reader : Reader} {fuel : Nat} {ends : Bool} {entries : List Entry}

theorem lookupEntries_ok {wanted : List Byte} {found : Option View}
    (enumerates : Enumerates archive reader entries ends) (enough : entries.length < fuel) :
    ∃ result, lookupEntries wanted fuel reader found = .ok result := by
  induction enumerates generalizing fuel found with
  | done called | bad called =>
    obtain ⟨fuel, rfl⟩ := Nat.exists_eq_add_of_lt enough
    rw [lookupEntries, cpioReaderNext_eq, called]
    exact ⟨_, rfl⟩
  | @entry reader after entry entries ends same called named others ih =>
    cases fuel with
    | zero => omega
    | succ fuel =>
      have rest := fun found => @ih fuel found (by simpa using enough)
      rw [lookupEntries, cpioReaderNext_eq, called]
      simp only [bind, Except.bind, Enumerates.entryName same named]
      split
      · exact rest _
      split
      · exact ⟨_, rfl⟩
      split
      · exact ⟨_, rfl⟩
      split
      · exact rest _
      split
      · exact ⟨_, rfl⟩
      · exact rest _

theorem bootFileLookup_ok (files : FileSet) (path : Option CString) :
    ∃ result, bootFileLookup files path = .ok result := by
  rw [bootFileLookup]
  cases bootFileNormalize (path.map CString.bytes) with
  | none => exact ⟨_, rfl⟩
  | some wanted =>
    cases files with
    | modules modules => exact ⟨_, rfl⟩
    | cpio archive =>
      obtain ⟨enough, ends, enumerates⟩ := @enumerates_entriesFrom ⟨archive, 0, false⟩
        (archive.size + 1) rfl (Nat.zero_le _) (by simp only; omega)
      rcases cpioReaderInit_cases archive with rejected | ⟨-, opened⟩
      · simp only [rejected, bind, Except.bind]
        exact ⟨_, rfl⟩
      · simp only [opened, bind, Except.bind]
        exact lookupEntries_ok enumerates enough

theorem findModule_ok (files : FileSet) (module : List Byte) :
    ∃ result, findModule files module = .ok result := by
  have looked : ∃ result, bootFileLookupIn files taskPath (cString module) = .ok result := by
    rw [bootFileLookupIn]
    split
    · exact bootFileLookup_ok _ _
    split
    · exact ⟨_, rfl⟩
    · exact bootFileLookup_ok _ _
  obtain ⟨result, looked⟩ := looked
  exact ⟨result, by rw [findModule, looked]⟩

end Lookups

variable {files : FileSet} {missingPanics : Bool} {cpuId : Nat} {task : Task}
  {granted created : Bool}

def Reaches (files : FileSet) (cpuId : Nat) (task : Task) (granted : Bool) : Prop :=
  cpuId = task.cpuId ∧ executable task.type = true ∧
    (∃ file, findModule files task.module = .ok (.found file)) ∧ granted = true

def Panics (files : FileSet) (missingPanics : Bool) (cpuId : Nat) (task : Task) : Prop :=
  cpuId = task.cpuId ∧ executable task.type = true ∧
    (findModule files task.module = .ok .invalid ∨
      findModule files task.module = .ok .missing ∧ missingPanics = true)

inductive LaunchEffect (files : FileSet) (missingPanics : Bool) (cpuId : Nat) (task : Task)
    (granted : Bool) : Except Fault Launch → Prop
  | panic (panics : Panics files missingPanics cpuId task) :
      LaunchEffect files missingPanics cpuId task granted (.ok .panic)
  | next {outcome : Launch} (proceeds : outcome ≠ .panic)
      (calm : ¬ Panics files missingPanics cpuId task)
      (named : Reaches files cpuId task granted → task.name ≠ none) :
      LaunchEffect files missingPanics cpuId task granted (.ok outcome)
  | fault {fault : Fault} (calm : ¬ Panics files missingPanics cpuId task)
      (reached : Reaches files cpuId task granted) (unnamed : task.name = none) :
      LaunchEffect files missingPanics cpuId task granted (.error fault)

theorem launch_effect : LaunchEffect files missingPanics cpuId task granted
      (launch files missingPanics cpuId task granted created) := by
  obtain ⟨result, looked⟩ := findModule_ok files task.module
  rw [launch]
  split
  next otherCpu =>
    exact .next nofun (fun panics => otherCpu panics.1) fun reached => absurd reached.1 otherCpu
  next sameCpu =>
  have same := not_not.mp sameCpu
  split
  next unsupported =>
    have notExecutable : ¬ executable task.type = true := by simpa using unsupported
    exact .next nofun (fun panics => notExecutable panics.2.1) fun reached =>
      absurd reached.2.1 notExecutable
  next supported =>
  have isExecutable : executable task.type = true := by simpa using supported
  simp only [looked, bind, Except.bind]
  cases result with
  | invalid => exact .panic ⟨same, isExecutable, .inl looked⟩
  | missing =>
    cases missingPanics with
    | true => exact .panic ⟨same, isExecutable, .inr ⟨looked, rfl⟩⟩
    | false =>
      refine .next nofun ?_ ?_
      · rintro ⟨-, -, found | ⟨-, panics⟩⟩
        · cases looked.symm.trans found
        · cases panics
      · rintro ⟨-, -, ⟨file, found⟩, -⟩
        cases looked.symm.trans found
  | found file =>
    have calm : ¬ Panics files missingPanics cpuId task := by
      rintro ⟨-, -, found | ⟨found, -⟩⟩
      all_goals cases looked.symm.trans found
    rw [taskBuildArgv]
    cases granted with
    | false => exact .next nofun calm fun reached => absurd reached.2.2.2 Bool.false_ne_true
    | true =>
      cases named : task.name with
      | none => exact .fault calm ⟨same, isExecutable, ⟨file, looked⟩, rfl⟩ named
      | some name =>
        have isNamed : Reaches files cpuId task true → task.name ≠ none := by simp [named]
        simp only [Bool.not_true, Bool.false_eq_true, if_false, threadSetName]
        split
        · exact .next nofun calm isNamed
        split <;> exact .next nofun calm isNamed

def Named (files : FileSet) (missingPanics : Bool) (cpuId : Nat) (granted : Nat → Bool)
    (tasks : List Task) : Prop :=
  ∀ pos task, tasks[pos]? = some task →
    (∀ earlier other, earlier < pos → tasks[earlier]? = some other →
      ¬ Panics files missingPanics cpuId other) →
    Reaches files cpuId task (granted pos) → task.name ≠ none

variable {tasks : List Task} {grants : Nat → Bool}

theorem named_nil : Named files missingPanics cpuId grants [] := nofun

theorem named_cons_of_panics (panics : Panics files missingPanics cpuId task) :
    Named files missingPanics cpuId grants (task :: tasks) := by
  intro pos other found calm reached
  cases pos with
  | zero =>
    cases found
    obtain ⟨-, -, ⟨file, looked⟩, -⟩ := reached
    obtain ⟨-, -, invalid | ⟨missing, -⟩⟩ := panics
    · cases looked.symm.trans invalid
    · cases looked.symm.trans missing
  | succ pos => exact absurd panics (calm 0 task (Nat.succ_pos _) rfl)

theorem named_cons (calm : ¬ Panics files missingPanics cpuId task) :
    Named files missingPanics cpuId grants (task :: tasks) ↔
      (Reaches files cpuId task (grants 0) → task.name ≠ none) ∧
        Named files missingPanics cpuId (fun pos => grants (pos + 1)) tasks := by
  constructor
  · intro named
    refine ⟨named 0 task rfl nofun, fun pos other found othersCalm => ?_⟩
    refine named (pos + 1) other found fun earlier third before found => ?_
    cases earlier with
    | zero =>
      cases found
      exact calm
    | succ earlier => exact othersCalm earlier third (Nat.lt_of_succ_lt_succ before) found
  · rintro ⟨first, others⟩ pos other found allCalm
    cases pos with
    | zero =>
      cases found
      exact first
    | succ pos =>
      exact others pos other found fun earlier third before found =>
        allCalm (earlier + 1) third (Nat.succ_lt_succ before) found

theorem launchAll_ok_iff {answers : Answers} {i : Nat} :
    (∃ launched, launchAll files missingPanics cpuId answers i tasks = .ok launched) ↔
      Named files missingPanics cpuId (fun pos => answers.granted (i + pos)) tasks := by
  induction tasks generalizing i with
  | nil => exact ⟨fun _ => named_nil, fun _ => ⟨[], rfl⟩⟩
  | cons task tasks ih =>
    have effect := @launch_effect files missingPanics cpuId task (answers.granted i)
      (answers.created i)
    rw [launchAll]
    generalize launch files missingPanics cpuId task (answers.granted i)
      (answers.created i) = result at effect
    cases effect with
    | panic panics => exact ⟨fun _ => named_cons_of_panics panics, fun _ => ⟨[.panic], rfl⟩⟩
    | fault calm reached unnamed =>
      constructor
      · rintro ⟨launched, called⟩
        cases called
      · intro named
        exact absurd unnamed (((named_cons calm).mp named).1 reached)
    | @next outcome proceeds calm named =>
      have rest := @ih (i + 1)
      simp only [Nat.add_assoc, Nat.add_comm 1] at rest
      rw [named_cons calm, ← rest]
      simp only [bind, Except.bind, proceeds, if_false]
      constructor
      · rintro ⟨launched, called⟩
        split at called
        · cases called
        next others launchedOthers => exact ⟨named, others, launchedOthers⟩
      · rintro ⟨-, others, launchedOthers⟩
        simp only [launchedOthers]
        exact ⟨_, rfl⟩

theorem accepted_conf {m after : Machine} {source : Nat} {purpose : Purpose}
    {file : ConfigFile} (unparsed : Unparsed source purpose m)
    (accepted : taskConfParseCtx m file = .ok (true, after)) :
    after.conf.initialized = true ∧ after.conf.parsed = true := by
  obtain ⟨conf, heap⟩ := m
  obtain rfl := unparsed.conf_eq
  have effect := @taskConfParseCtx_effect source purpose heap file
  rw [accepted] at effect
  cases effect with
  | accepted isSource looped kept => exact ⟨congrArg Conf.initialized kept.reset, rfl⟩

/-- An accepted file is launched without a fault exactly if every record that reaches its
arguments has a name. -/
theorem launch_safe_iff {m after : Machine} {source : Nat} {purpose : Purpose}
    {file : ConfigFile} (unparsed : Unparsed source purpose m)
    (accepted : taskConfParseCtx m file = .ok (true, after)) (files : FileSet)
    (started cpuId : Nat) (answers : Answers) :
    (∃ result, taskRunConfiguredCpuCtx { after.conf with startedCpus := started } files cpuId
        answers = .ok result) ↔
      (cpuId < maxCpus → started.testBit cpuId = false →
        Named files after.conf.moduleMissingPanic cpuId answers.granted
          (after.conf.tasks.map Prod.snd)) := by
  obtain ⟨initialized, parsed⟩ := accepted_conf unparsed accepted
  have launched := @launchAll_ok_iff files after.conf.moduleMissingPanic cpuId
    (after.conf.tasks.map Prod.snd) answers 0
  simp only [Nat.zero_add] at launched
  rw [taskRunConfiguredCpuCtx]
  simp only [initialized, parsed, Bool.not_true, Bool.false_or, Bool.or_eq_true,
    decide_eq_true_eq, bind, Except.bind]
  split
  next refused =>
    refine ⟨fun _ small notStarted => ?_, fun _ => ⟨_, rfl⟩⟩
    rcases refused with large | isStarted
    · omega
    · rw [notStarted] at isStarted
      cases isStarted
  next claimed =>
    simp only [not_or, not_le, Bool.not_eq_true] at claimed
    simp only [claimed, true_implies, ← launched]
    constructor
    · rintro ⟨result, called⟩
      split at called
      · cases called
      next outcomes all => exact ⟨outcomes, all⟩
    · rintro ⟨outcomes, all⟩
      simp only [all]
      exact ⟨_, rfl⟩

def configuration (bytes : List Byte) : ConfigFile where
  contents := ⟨0x1000, bytes⟩
  path := []
  source := 1

/-- Only the module `/task/a`. -/
def oneModule : FileSet :=
  .modules [⟨⟨0x2000, [0x7f]⟩, some ⟨[0x2f, 0x74, 0x61, 0x73, 0x6b, 0x2f, 0x61], by decide⟩⟩]

def allGranted : Answers := ⟨fun _ => true, fun _ => true⟩

def launchFile (bytes : List Byte) : Option (Except Fault (Option (List Launch))) :=
  match taskConfParseCtx freshMachine (configuration bytes) with
  | .ok (true, after) =>
    some ((taskRunConfiguredCpuCtx after.conf oneModule 0 allGranted).map Prod.fst)
  | _ => none

theorem accepted_of_launchFile {bytes : List Byte} {outcome : Except Fault (Option (List Launch))}
    (launched : launchFile bytes = some outcome) :
    ∃ after, taskConfParseCtx freshMachine (configuration bytes) = .ok (true, after) ∧
      (taskRunConfiguredCpuCtx after.conf oneModule 0 allGranted).map Prod.fst = outcome := by
  rw [launchFile] at launched
  split at launched
  next after accepted => exact ⟨after, accepted, Option.some.inj launched⟩
  next => cases launched

/-- The line `0 a:b 1 0x0` is launched, and its record has a name. -/
theorem launch_safe_named : ∃ after, taskConfParseCtx freshMachine (configuration
        [0x30, 0x20, 0x61, 0x3a, 0x62, 0x20, 0x31, 0x20, 0x30, 0x78, 0x30, 0x0a]) =
          .ok (true, after) ∧ Named oneModule after.conf.moduleMissingPanic 0 allGranted.granted
        (after.conf.tasks.map Prod.snd) := by
  have launched : launchFile
      [0x30, 0x20, 0x61, 0x3a, 0x62, 0x20, 0x31, 0x20, 0x30, 0x78, 0x30, 0x0a] =
        some (.ok (some [.queued [[0x62]]])) := by
    decide +kernel
  obtain ⟨after, accepted, outcome⟩ := accepted_of_launchFile launched
  refine ⟨after, accepted, (launch_safe_iff unparsed_freshMachine accepted oneModule
    after.conf.startedCpus 0 allGranted).mp ?_ (by decide) ?_⟩
  · cases called : taskRunConfiguredCpuCtx after.conf oneModule 0 allGranted with
    | error fault =>
      rw [called] at outcome
      cases outcome
    | ok result => exact ⟨result, rfl⟩
  have started : (taskConfParseCtx freshMachine (configuration
      [0x30, 0x20, 0x61, 0x3a, 0x62, 0x20, 0x31, 0x20, 0x30, 0x78, 0x30, 0x0a])).toOption.map
        (fun result => result.2.conf.startedCpus) = some 0 := by
    decide +kernel
  rw [accepted] at started
  have notStarted : after.conf.startedCpus = 0 := Option.some.inj started
  rw [notStarted]
  rfl

/-- The name of the record for the line `0 a 1 0x0` is read through a null pointer. -/
theorem unnamed_task_faults : ∃ after, taskConfParseCtx freshMachine (configuration
        [0x30, 0x20, 0x61, 0x20, 0x31, 0x20, 0x30, 0x78, 0x30, 0x0a]) = .ok (true, after) ∧
      taskRunConfiguredCpuCtx after.conf oneModule 0 allGranted = .error .nullPointer := by
  have launched : launchFile [0x30, 0x20, 0x61, 0x20, 0x31, 0x20, 0x30, 0x78, 0x30, 0x0a] =
      some (.error .nullPointer) := by
    decide +kernel
  obtain ⟨after, accepted, outcome⟩ := accepted_of_launchFile launched
  refine ⟨after, accepted, ?_⟩
  cases called : taskRunConfiguredCpuCtx after.conf oneModule 0 allGranted with
  | error fault =>
    rw [called] at outcome
    cases outcome
    rfl
  | ok result =>
    rw [called] at outcome
    cases outcome

end LaOS.TaskConf
