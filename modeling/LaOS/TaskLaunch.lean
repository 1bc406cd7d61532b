import LaOS.TaskConf

/-!
# Launching the configured tasks

An embedding of `task_build_argv` and `task_run_configured_cpu_ctx` in `kernel/task.c`.
Whether a loader creates a thread is not determined by this model.
-/

namespace LaOS.TaskConf

open WordBytes BootFiles

def maxArgs : Nat := 33

theorem length_tail_dropWhile_lt {p rest : List Byte} {c : Byte}
    (start : p.dropWhile isBlank = c :: rest) :
    ((c :: rest).dropWhile (!isBlank ·)).tail.length < p.length := by
  have blanks := (p.dropWhile_suffix isBlank).length_le
  have word := ((c :: rest).dropWhile_suffix (!isBlank ·)).length_le
  rw [start] at blanks
  simp only [List.length_cons, List.length_tail] at *
  omega

/-- The loop of `task_build_argv` that splits the positional arguments; nothing when there are
too many. -/
def splitArgs (p : List Byte) (argc : Nat) : Option (List (List Byte)) :=
  match start : p.dropWhile isBlank with
  | [] => some []
  | c :: rest =>
    if argc = maxArgs then none
    else
      (splitArgs ((c :: rest).dropWhile (!isBlank ·)).tail (argc + 1)).map
        ((c :: rest).takeWhile (!isBlank ·) :: ·)
termination_by p.length
decreasing_by exact length_tail_dropWhile_lt start

def renderPair (pair : List Byte × List Byte) : List Byte := pair.1 ++ equals :: pair.2

/-- The loop of `task_build_argv` over the pairs.  Without a result there are too
many. -/
def pairArgs : List (List Byte × List Byte) → Nat → Option (List (List Byte))
  | [], _ => some []
  | pair :: pairs, argc =>
    if argc = maxArgs then none else (pairArgs pairs (argc + 1)).map (renderPair pair :: ·)

/-- `task_build_argv`, when `kmalloc` grants the block or not; nothing when it returns -1. The
name is copied from the record. -/
def taskBuildArgv (task : Task) (granted : Bool) : Except Fault (Option (List (List Byte))) :=
  if !granted then .ok none
  else
    match task.name with
    | none => .error .nullPointer
    | some name =>
      .ok ((splitArgs task.args.positional 1).bind fun words =>
        (pairArgs task.args.pairs (words.length + 1)).map fun pairs =>
          name :: (words ++ pairs))

def taskDriver : Nat := 1

def taskThread : Nat := 2

def taskUser : Nat := 3

/-- The types with a function that creates a thread. -/
def executable (type : Nat) : Bool := type = taskDriver || type = taskThread || type = taskUser

/-- The digits that `print_int_w` writes for a value of at most `count` digits. -/
def printDigits : Nat → Nat → List Byte
  | 0, _ => []
  | count + 1, value =>
    (if value < 10 then [] else printDigits count (value / 10)) ++ [BitVec.ofNat 8 (0x30 + value % 10)]

/-- The conversion `%d` of `ksprintf`. -/
def printInt (value : BitVec 32) : List Byte :=
  if value.msb then 0x2d :: printDigits 10 (-value).toNat else printDigits 10 value.toNat

/-- The number that `task_create_user` takes from an argument: ten without the argument or when
it starts with `0`, else its leading digits, with the wrap of an `int`. -/
def userNumber (argument : Option (List Byte)) : BitVec 32 :=
  match argument with
  | none => 10
  | some text =>
    if text.head? = some 0x30 then 10
    else
      (text.takeWhile fun c => 0x30 ≤ c && c ≤ 0x39).foldl
        (fun value c => value * 10 + (c - 0x30).setWidth 32) 0

/-- The path `/bin/user_elf`. -/
def userElf : List Byte :=
  [0x2f, 0x62, 0x69, 0x6e, 0x2f, 0x75, 0x73, 0x65, 0x72, 0x5f, 0x65, 0x6c, 0x66]

/-- The arguments that `task_create_user` puts on the user stack: the path, `id` with the first
number, and both numbers in a row. -/
def taskCreateUser (argv : List (List Byte)) : List (List Byte) :=
  [userElf, [0x69, 0x64, 0x20] ++ printInt (userNumber argv[1]?),
    printInt (userNumber argv[2]?) ++ printInt (userNumber argv[1]?)]

/-- What the entry of a created thread receives. `thread_entry_point` passes the block of
`task_build_argv` to kernel threads only. -/
def entryArguments (type : Nat) (argv : List (List Byte)) : List (List Byte) :=
  if type = taskUser then taskCreateUser argv else argv

/-- The directory `/task/` of the executable types. -/
def taskPath : CString := ⟨[0x2f, 0x74, 0x61, 0x73, 0x6b, 0x2f], by decide⟩

def cString (buffer : List Byte) : CString where
  bytes := buffer.takeWhile (· ≠ 0)
  noZero := by
    intro mem
    have notZero := List.all_eq_true.mp List.all_takeWhile _ mem
    simp at notZero

/-- `find_module` for an executable type. -/
def findModule (files : FileSet) (module : List Byte) : Except Fault (Lookup BootFile) :=
  match bootFileLookupIn files taskPath (cString module) with
  | .ok result => .ok result
  | .error fault => .error (.buffer fault)

inductive Launch
  | otherCpu
  | unsupported
  | missing
  | refused
  | failed
  | queued (received : List (List Byte))
  | panic
  deriving DecidableEq

/-- `thread_set_name`, which copies the name unless it is too long. -/
def threadSetName (name : Option (List Byte)) : Except Fault Unit :=
  match name with
  | none => .error .nullPointer
  | some _ => .ok ()

/-- The body of the loop of `task_run_configured_cpu_ctx`, with the answers of
`kmalloc` and of the loader. -/
def launch (files : FileSet) (missingPanics : Bool) (cpuId : Nat) (task : Task)
    (granted created : Bool) : Except Fault Launch :=
  if cpuId ≠ task.cpuId then .ok .otherCpu
  else if !executable task.type then .ok .unsupported
  else do
    match ← findModule files task.module with
    | .invalid => .ok .panic
    | .missing => .ok (if missingPanics then .panic else .missing)
    | .found _ =>
      match ← taskBuildArgv task granted with
      | none => .ok .refused
      | some argv =>
        if !created then .ok .failed
        else
          threadSetName task.name
          .ok (.queued (entryArguments task.type argv))

/-- The answers of `kmalloc` and of the loader for the records in turn. -/
structure Answers where
  granted : Nat → Bool
  created : Nat → Bool

/-- The loop of `task_run_configured_cpu_ctx`, from the record with the given index
on.  A panic ends it. -/
def launchAll (files : FileSet) (missingPanics : Bool) (cpuId : Nat) (answers : Answers) :
    Nat → List Task → Except Fault (List Launch)
  | _, [] => .ok []
  | i, task :: tasks => do
      let outcome ← launch files missingPanics cpuId task (answers.granted i)
        (answers.created i)
      if outcome = .panic then .ok [.panic]
      else
        let others ← launchAll files missingPanics cpuId answers (i + 1) tasks
        .ok (outcome :: others)

def maxCpus : Nat := 16

/-- `task_run_configured_cpu_ctx` for the files of the context, and the context after it;
nothing when it returns -1. -/
def taskRunConfiguredCpuCtx (conf : Conf) (files : FileSet) (cpuId : Nat) (answers : Answers) :
    Except Fault (Option (List Launch) × Conf) :=
  if !conf.initialized || !conf.parsed || cpuId ≥ maxCpus || conf.startedCpus.testBit cpuId then
    .ok (none, conf)
  else do
    let launched ← launchAll files conf.moduleMissingPanic cpuId answers 0
      (conf.tasks.map Prod.snd)
    .ok (some launched, { conf with startedCpus := conf.startedCpus ||| 2 ^ cpuId })

end LaOS.TaskConf
