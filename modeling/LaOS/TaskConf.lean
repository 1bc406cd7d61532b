import LaOS.BlockLedger
import LaOS.BootFiles

/-!
# Parsing the boot configuration

An embedding of `kernel/task_parser.c` and of the functions of `kernel/task_conf.c`
that build a configuration.  A cursor into the file is the rest of the view that
has not been consumed; reading at the end of the view is a fault.
-/

namespace LaOS.TaskConf

open WordBytes BootFiles BlockLedger

inductive Fault
  | outOfView
  | outOfFuel
  | badFree
  | nullPointer
  | buffer (fault : ByteBuffer.Fault)
  deriving DecidableEq

def space : Byte := 0x20

def tab : Byte := 0x09

def newline : Byte := 0x0a

def carriageReturn : Byte := 0x0d

def hash : Byte := 0x23

def atSign : Byte := 0x40

def quote : Byte := 0x22

def equals : Byte := 0x3d

def isLineEnd (c : Byte) : Bool := c = newline || c = carriageReturn || c = 0

def isBlank (c : Byte) : Bool := c = space || c = tab

def deref : List Byte → Except Fault Byte
  | [] => .error .outOfView
  | c :: _ => .ok c

def skipSpaces (p : List Byte) : List Byte := p.dropWhile isBlank

def skipLine (p : List Byte) : Except Fault (List Byte) := do
  let p := p.dropWhile (· ≠ newline)
  if p = [] then .ok p
  else
    let c ← deref p
    .ok (if c = newline then p.tail else p)

def intMax : Nat := 0x7fffffff

def decLoop : List Byte → Nat → Option (Nat × List Byte)
  | [], value => some (value, [])
  | c :: p, value =>
    if 0x30 ≤ c ∧ c ≤ 0x39 then
      let digit := c.toNat - 0x30
      if value > (intMax - digit) / 10 then none else decLoop p (value * 10 + digit)
    else some (value, c :: p)

/-- `parse_dec`.  Without a result it returns -1. -/
def parseDec (p : List Byte) : Option (Nat × List Byte) :=
  let start := skipSpaces p
  if start = [] then none
  else
    (decLoop start 0).bind fun (value, p) =>
      if p.length = start.length then none else some (value, p)

def uint64Max : Nat := 2 ^ 64 - 1

def hexDigit (c : Byte) : Option Nat :=
  if 0x30 ≤ c ∧ c ≤ 0x39 then some (c.toNat - 0x30)
  else if 0x61 ≤ c ∧ c ≤ 0x66 then some (c.toNat - 0x61 + 10)
  else if 0x41 ≤ c ∧ c ≤ 0x46 then some (c.toNat - 0x41 + 10)
  else none

def hexLoop : List Byte → Nat → Option (Nat × List Byte)
  | [], value => some (value, [])
  | c :: p, value =>
    match hexDigit c with
    | none => some (value, c :: p)
    | some digit =>
      if value > (uint64Max - digit) / 16 then none else hexLoop p (value * 16 + digit)

/-- The cursor after `0x`, if it stands there. -/
def skipRadix (p : List Byte) : Except Fault (List Byte) :=
  if p.length ≥ 2 then do
    let c ← deref p
    if c = 0x30 then
      let x ← deref p.tail
      .ok (if x = 0x78 ∨ x = 0x58 then p.drop 2 else p)
    else .ok p
  else .ok p

/-- `parse_hex`.  Without a result it returns -1. -/
def parseHex (p : List Byte) : Except Fault (Option (Nat × List Byte)) := do
  let p := skipSpaces p
  if p = [] then .ok none
  else
    let start ← skipRadix p
    .ok ((hexLoop start 0).bind fun (value, p) =>
      if p.length = start.length then none else some (value, p))

/-- The loop of `parse_string`, with the room that is left in the buffer. -/
def stringLoop : Nat → List Byte → List Byte × List Byte
  | 0, p => ([], p)
  | _ + 1, [] => ([], [])
  | room + 1, c :: p =>
    if isBlank c || isLineEnd c then ([], c :: p)
    else
      let (text, rest) := stringLoop room p
      (c :: text, rest)

/-- `parse_string` for a buffer of the given size.  Without a result it returns -1. -/
def parseString (p : List Byte) (size : Nat) : Except Fault (Option (List Byte × List Byte)) :=
  let p := skipSpaces p
  if p = [] then .ok none
  else
    let (text, p) := stringLoop (size - 1) p
    if text = [] then .ok none
    else if p = [] then .ok (some (text, p))
    else do
      let c ← deref p
      .ok (if !isBlank c && !isLineEnd c then none else some (text, p))

/-- What `parse_args` has stored: the text of the positional arguments, the pairs and the bytes
that the pairs take. -/
structure Args where
  positional : List Byte
  pairs : List (List Byte × List Byte)
  used : Nat
  deriving DecidableEq

def Args.empty : Args := ⟨[], [], 0⟩

def argsMax : Nat := 256

def kvCap : Nat := 16

/-- The branches of `parse_args` for a token. -/
def Args.add (args : Args) (token : List Byte) : Args :=
  if equals ∈ token then
    if args.pairs.length < kvCap then
      let key := token.takeWhile (· ≠ equals)
      let value := (token.dropWhile (· ≠ equals)).tail
      let used := args.used + key.length + 1 + value.length + 1
      if used ≤ argsMax - 1 then { args with pairs := args.pairs ++ [(key, value)], used }
      else args
    else args
  else if args.positional.length + token.length + 1 ≤ argsMax - 1 then
    let separator := if args.positional = [] then [] else [space]
    { args with positional := args.positional ++ separator ++ token }
  else args

def inQuotes (c : Byte) : Bool := !isLineEnd c && c ≠ quote

def inWord (c : Byte) : Bool := !isLineEnd c && !isBlank c

/-- The token at the cursor and the cursor after it. -/
def nextToken (p : List Byte) : Except Fault (List Byte × List Byte) := do
  let c ← deref p
  if c = quote then
    let token := p.tail.takeWhile inQuotes
    let p := p.tail.dropWhile inQuotes
    if p = [] then .ok (token, p)
    else
      let c ← deref p
      .ok (token, if c = quote then p.tail else p)
  else .ok (p.takeWhile inWord, p.dropWhile inWord)

def argsLoop : Nat → List Byte → Args → Except Fault (Args × List Byte)
  | 0, _, _ => .error .outOfFuel
  | fuel + 1, p, args => do
      let p := skipSpaces p
      if p = [] then .ok (args, p)
      else
        let c ← deref p
        if isLineEnd c then .ok (args, p)
        else
          let (token, p) ← nextToken p
          argsLoop fuel p (args.add token)

def parseArgs (p : List Byte) : Except Fault (Args × List Byte) :=
  argsLoop (p.length + 1) p .empty

structure Task where
  cpuId : Nat
  module : List Byte
  name : Option (List Byte)
  type : Nat
  magic : Nat
  args : Args
  deriving DecidableEq

structure Directive where
  name : List Byte
  pairs : List (List Byte × List Byte)

inductive Purpose
  | base
  | test
  | recovery
  | compat
  deriving DecidableEq

/-- A context.  Its records are listed with the blocks that hold them. -/
structure Conf where
  tasks : List (Nat × Task)
  directives : List (Nat × Directive)
  files : Nat
  purpose : Purpose
  moduleMissingPanic : Bool
  initialized : Bool
  parsed : Bool
  testsStarted : Bool
  startedCpus : Nat
  configPath : List Byte

/-- The context that `task_conf_init_ctx` prepares. -/
def initialConf (files : Nat) (purpose : Purpose) : Conf where
  tasks := []
  directives := []
  files
  purpose
  moduleMissingPanic := false
  initialized := true
  parsed := false
  testsStarted := false
  startedCpus := 0
  configPath := []

/-- `task_conf_init_ctx` for the address of a set of files.  Without a result it
returns -1. -/
def taskConfInitCtx (conf : Conf) (files : Nat) (purpose : Purpose) : Option Conf :=
  if files = 0 ∨ conf.initialized then none else some (initialConf files purpose)

structure Machine where
  conf : Conf
  heap : Ledger

def kfree (block : Nat) (heap : Ledger) : Except Fault Ledger :=
  match free heap block with
  | none => .error .badFree
  | some heap => .ok heap

def freeAll (blocks : List Nat) (heap : Ledger) : Except Fault Ledger :=
  blocks.foldlM (fun heap block => kfree block heap) heap

section

variable (m : Machine)

def clearRecords : Except Fault Machine := do
  let heap ← freeAll (m.conf.tasks.map Prod.fst) m.heap
  let heap ← freeAll (m.conf.directives.map Prod.fst) heap
  .ok { m with conf := { m.conf with tasks := [], directives := [] }, heap }

/-- `task_conf_add_directive_ctx`.  The first part of the result is whether it
returned 0. -/
def taskConfAddDirectiveCtx (directive : Directive) : Bool × Machine :=
  if !m.conf.initialized || !(m.conf.purpose = .test || m.conf.purpose = .compat)
    then (false, m)
  else
    match alloc m.heap with
    | (none, heap) => (false, { m with heap })
    | (some block, heap) =>
      (true, { conf := { m.conf with
        directives := m.conf.directives ++ [(block, directive)] }, heap })

def selftestMaxKv : Nat := 8

def fitted (text : List Byte) : List Byte := text.take 31

/-- The loop of `parse_test_directive` over pairs.  Without a result it returns -1. -/
def pairsLoop : Nat → List Byte → List (List Byte × List Byte) →
    Except Fault (Option (List (List Byte × List Byte) × List Byte))
  | 0, _, _ => .error .outOfFuel
  | fuel + 1, p, pairs => do
      let p := skipSpaces p
      if p = [] then .ok (some (pairs, p))
      else
        let c ← deref p
        if isLineEnd c || c = hash then .ok (some (pairs, p))
        else
          match ← parseString p 64 with
          | none => .ok none
          | some (token, p) =>
            if equals ∉ token ∨ pairs.length ≥ selftestMaxKv then .ok none
            else
              let key := fitted (token.takeWhile (· ≠ equals))
              let value := fitted (token.dropWhile (· ≠ equals)).tail
              pairsLoop fuel p (pairs ++ [(key, value)])

section

variable (p : List Byte)

/-- `parse_test_directive`.  The first part of the result is the cursor, unless the
function returned -1. -/
def parseTestDirective : Except Fault (Option (List Byte) × Machine) := do
  match ← parseString p 32 with
  | none => .ok (none, m)
  | some (name, p) =>
    match ← pairsLoop (p.length + 1) p [] with
    | none => .ok (none, m)
    | some (pairs, p) =>
      let (added, m) := taskConfAddDirectiveCtx m ⟨name, pairs⟩
      .ok (if added then some p else none, m)

/-- The text `@version`. -/
def versionText : List Byte := [0x40, 0x76, 0x65, 0x72, 0x73, 0x69, 0x6f, 0x6e]

/-- The text `@test`. -/
def testText : List Byte := [0x40, 0x74, 0x65, 0x73, 0x74]

/-- The text `@module_missing`. -/
def moduleMissingText : List Byte :=
  [0x40, 0x6d, 0x6f, 0x64, 0x75, 0x6c, 0x65, 0x5f, 0x6d, 0x69, 0x73, 0x73, 0x69, 0x6e, 0x67]

/-- The text `panic`. -/
def panicText : List Byte := [0x70, 0x61, 0x6e, 0x69, 0x63]

/-- The text `skip`. -/
def skipText : List Byte := [0x73, 0x6b, 0x69, 0x70]

/-- The branch of `parse_directive` for `@version`. -/
def parseVersion : Except Fault (Option (List Byte)) := do
  match ← parseString p 32 with
  | none => .ok none
  | some (value, p) =>
    if value ≠ [0x31] then .ok none
    else
      let p := skipSpaces p
      if p = [] then .ok (some p)
      else
        let c ← deref p
        .ok (if !isLineEnd c && c ≠ hash then none else some p)

/-- `parse_directive`.  The first part of the result is the cursor, unless the
function returned -1. -/
def parseDirective : Except Fault (Option (List Byte) × Machine) := do
  match ← parseString p 32 with
  | none => .ok (none, m)
  | some (name, p) =>
    if name = versionText then
      let p ← parseVersion p
      .ok (p, m)
    else if name = testText then parseTestDirective m p
    else if name = moduleMissingText then
      match ← parseString p 16 with
      | none => .ok (none, m)
      | some (value, p) =>
        if value = panicText then
          .ok (some p, { m with conf := { m.conf with moduleMissingPanic := true } })
        else if value = skipText then
          .ok (some p, { m with conf := { m.conf with moduleMissingPanic := false } })
        else .ok (none, m)
    else .ok (none, m)

/-- `separate_name`: the module and, after a colon, the name. -/
def separateName (info : List Byte) : List Byte × Option (List Byte) :=
  (info.takeWhile (· ≠ colon),
    if colon ∈ info then some (info.dropWhile (· ≠ colon)).tail else none)

/-- The fields of a task line before its arguments, and the cursor after them; nothing when one
is rejected. -/
def parseHead : Except Fault (Option (Task × List Byte)) := do
  match parseDec p with
  | none => .ok none
  | some (cpuId, p) =>
    match ← parseString p 64 with
    | none => .ok none
    | some (info, p) =>
      let (module, name) := separateName info
      match parseDec p with
      | none => .ok none
      | some (type, p) =>
        match ← parseHex p with
        | none => .ok none
        | some (magic, p) => .ok (some (⟨cpuId, module, name, type, magic, .empty⟩, p))

/-- The fields of a task line.  Without a result one of them is rejected. -/
def parseTask : Except Fault (Option (Task × List Byte)) := do
  match ← parseHead p with
  | none => .ok none
  | some (task, p) =>
    let (args, p) ← parseArgs p
    .ok (some ({ task with args }, p))

/-- A task line: a block is allocated and, when a field is rejected, given back. -/
def parseTaskLine : Except Fault (Option (List Byte) × Machine) := do
  match alloc m.heap with
  | (none, heap) => .ok (none, { m with heap })
  | (some block, heap) =>
    match ← parseTask p with
    | none =>
      let heap ← kfree block heap
      .ok (none, { m with heap })
    | some (task, p) =>
      .ok (some p, { conf := { m.conf with
        tasks := m.conf.tasks ++ [(block, task)] }, heap })

def parseItem : Except Fault (Option (List Byte) × Machine) := do
  let c ← deref p
  if c = atSign then parseDirective m p else parseTaskLine m p

end

end

/-- The loop of `task_conf_parse_v1_ctx`.  The first part of the result is whether
it returned 0. -/
def parseLines : Nat → List Byte → Machine → Except Fault (Bool × Machine)
  | 0, _, _ => .error .outOfFuel
  | fuel + 1, p, m => do
      let p := skipSpaces p
      if p = [] then .ok (true, m)
      else
        let c ← deref p
        if isLineEnd c then parseLines fuel p.tail m
        else if c = hash then
          let p ← skipLine p
          parseLines fuel p m
        else
          match ← parseItem m p with
          | (none, m) => .ok (false, m)
          | (some p, m) =>
            let p ← skipLine p
            parseLines fuel p m

def taskConfParseV1Ctx (m : Machine) (view : List Byte) : Except Fault (Bool × Machine) :=
  parseLines (view.length + 1) view m

/-- A file with the address of the set it belongs to. -/
structure ConfigFile extends BootFile where
  source : Nat

/-- `task_conf_parse_ctx`.  The first part of the result is whether it returned 0. -/
def taskConfParseCtx (m : Machine) (file : ConfigFile) : Except Fault (Bool × Machine) :=
  if !m.conf.initialized || m.conf.parsed || file.source ≠ m.conf.files ||
      file.contents.address = 0 || file.contents.size = 0 || file.contents.size > intMax ||
      file.contents.address.toNat > Cpio.uintptrMax - file.contents.size then .ok (false, m)
  else do
    let (parsed, m) ← taskConfParseV1Ctx m file.contents.bytes
    if !parsed then
      let m ← clearRecords m
      .ok (false, { m with conf := { m.conf with moduleMissingPanic := false } })
    else
      .ok (true, { m with conf := { m.conf with
        configPath := file.path, parsed := true } })

end LaOS.TaskConf
