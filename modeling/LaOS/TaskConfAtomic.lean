import LaOS.TaskNumbers

/-!
# Parsing is atomic

The parser reads only bytes of the file, its loops come to an end, and it owns
every block that it has allocated, so that a failed attempt leaves the context
and the heap as they were.
-/

namespace LaOS.TaskConf

open Option List WordBytes BootFiles BlockLedger

variable {p rest : List Byte} {c : Byte}

theorem deref_of_ne_nil (nonempty : p ≠ []) : ∃ c rest, p = c :: rest ∧ deref p = .ok c := by
  cases p with
  | nil => exact absurd rfl nonempty
  | cons c rest => exact ⟨c, rest, rfl, rfl⟩

theorem length_skipSpaces_le (p : List Byte) : (skipSpaces p).length ≤ p.length :=
  (dropWhile_suffix _).length_le

theorem skipLine_ok (p : List Byte) :
    ∃ after, skipLine p = .ok after ∧ after.length ≤ p.length := by
  have dropped := (p.dropWhile_suffix (· ≠ newline)).length_le
  rw [skipLine]
  split
  next => exact ⟨_, rfl, dropped⟩
  next nonempty =>
    obtain ⟨c, rest, same, read⟩ := deref_of_ne_nil nonempty
    rw [read]
    refine ⟨_, rfl, ?_⟩
    split
    · rw [length_tail]
      omega
    · exact dropped

theorem skipLine_cons (other : c ≠ newline) : skipLine (c :: p) = skipLine p := by
  rw [skipLine, skipLine, dropWhile_cons_of_pos (by simpa using other)]

/-- The result of a function that reads a field and leaves less than it was given. -/
def Consumes {Result : Type} (p : List Byte)
    (outcome : Except Fault (Option (Result × List Byte))) : Prop :=
  ∃ result, outcome = .ok result ∧ ∀ value rest, result = some (value, rest) →
    rest.length < p.length

variable {result : Nat}

theorem length_parseDec (read : parseDec p = some (result, rest)) : rest.length < p.length :=
  ((parseDec_eq_some_iff p result rest).mp read).length_lt.trans_le (length_skipSpaces_le p)

theorem consumes_parseHex (p : List Byte) : Consumes p (parseHex p) := by
  obtain ⟨outcome, parsed, exactly⟩ := parseHex_ok p
  refine ⟨outcome, parsed, fun value rest read => ?_⟩
  have shorter := ((exactly value rest).mp read).length_lt
  have start := length_dropRadix_le (skipSpaces p)
  have skipped := length_skipSpaces_le p
  omega

theorem stringLoop_spec (room : Nat) (p : List Byte) :
    p = (stringLoop room p).1 ++ (stringLoop room p).2 := by
  induction room generalizing p with
  | zero => rfl
  | succ room ih =>
    cases p with
    | nil => rfl
    | cons c p =>
      rw [stringLoop]
      split
      · rfl
      · exact congrArg _ (ih p)

theorem consumes_parseString (p : List Byte) (size : Nat) : Consumes p (parseString p size) := by
  have skipped := length_skipSpaces_le p
  have parts := stringLoop_spec (size - 1) (skipSpaces p)
  rw [parseString]
  split
  · exact ⟨none, rfl, nofun⟩
  generalize stringLoop (size - 1) (skipSpaces p) = read at parts ⊢
  obtain ⟨text, after⟩ := read
  simp only at parts ⊢
  split
  · exact ⟨none, rfl, nofun⟩
  next nonempty =>
    have positive := length_pos_iff.mpr nonempty
    have shorter : after.length < p.length := by
      rw [parts, length_append] at skipped
      omega
    split
    next => exact ⟨_, rfl, by rintro value rest ⟨⟩; exact shorter⟩
    next afterNonempty =>
      obtain ⟨c, rest, same, read⟩ := deref_of_ne_nil afterNonempty
      rw [read]
      refine ⟨_, rfl, fun value rest isRead => ?_⟩
      obtain ⟨-, ⟨⟩⟩ := ite_none_left_eq_some.mp isRead
      exact shorter

def tokenAt (c : Byte) (p : List Byte) : List Byte × List Byte :=
  if c = quote then
    (p.takeWhile inQuotes,
      if (p.dropWhile inQuotes).head? = some quote then (p.dropWhile inQuotes).tail
      else p.dropWhile inQuotes)
  else ((c :: p).takeWhile inWord, (c :: p).dropWhile inWord)

theorem nextToken_eq : nextToken (c :: p) = .ok (tokenAt c p) := by
  rw [nextToken, tokenAt]
  simp only [deref, bind, Except.bind, tail_cons]
  split
  next =>
    by_cases empty : p.dropWhile inQuotes = []
    · simp [empty]
    · obtain ⟨q, after, same, -⟩ := deref_of_ne_nil empty
      simp [same]
  next => rfl

theorem length_tokenAt (inLine : isLineEnd c = false) (notBlank : isBlank c = false) :
    (tokenAt c p).2.length < (c :: p).length := by
  rw [tokenAt]
  split
  next =>
    have dropped := (p.dropWhile_suffix inQuotes).length_le
    simp only [length_cons]
    split
    · rw [length_tail]
      omega
    · omega
  next =>
    have dropped := (p.dropWhile_suffix inWord).length_le
    rw [dropWhile_cons_of_pos (by simp [inWord, inLine, notBlank])]
    exact Nat.lt_succ_of_le dropped

theorem isBlank_of_skipSpaces (skipped : skipSpaces p = c :: rest) : isBlank c = false := by
  have notBlank := head?_dropWhile_not isBlank p
  rw [skipSpaces] at skipped
  rw [skipped] at notBlank
  simpa using notBlank

variable {fuel : Nat}

theorem argsLoop_ok {args : Args} (enough : p.length < fuel) :
    ∃ result after, argsLoop fuel p args = .ok (result, after) ∧ after.length ≤ p.length := by
  induction fuel generalizing p args with
  | zero => omega
  | succ fuel ih =>
    have skipped := length_skipSpaces_le p
    rw [argsLoop]
    cases skippedTo : skipSpaces p with
    | nil => exact ⟨args, [], rfl, Nat.zero_le _⟩
    | cons c rest =>
      rw [skippedTo] at skipped
      simp only [reduceCtorEq, if_false, deref, bind, Except.bind, nextToken_eq]
      split
      next => exact ⟨args, _, rfl, skipped⟩
      next inLine =>
        have shorter := @length_tokenAt rest c (Bool.eq_false_iff.mpr inLine)
          (isBlank_of_skipSpaces skippedTo)
        obtain ⟨result, after, looped, notLonger⟩ := @ih (tokenAt c rest).2
          (args.add (tokenAt c rest).1) (by omega)
        exact ⟨result, after, looped, by omega⟩

theorem pairsLoop_ok {pairs : List (List Byte × List Byte)} (enough : p.length < fuel) :
    ∃ result, pairsLoop fuel p pairs = .ok result ∧
      ∀ value after, result = some (value, after) → after.length ≤ p.length := by
  induction fuel generalizing p pairs with
  | zero => omega
  | succ fuel ih =>
    have skipped := length_skipSpaces_le p
    rw [pairsLoop]
    split
    next => exact ⟨_, rfl, by rintro value after ⟨⟩; exact skipped⟩
    next nonempty =>
      obtain ⟨c, rest, same, read⟩ := deref_of_ne_nil nonempty
      obtain ⟨result, parsed, shorter⟩ := consumes_parseString (skipSpaces p) 64
      simp only [read, bind, Except.bind, parsed]
      split
      next => exact ⟨_, rfl, by rintro value after ⟨⟩; exact skipped⟩
      next =>
        cases result with
        | none => exact ⟨none, rfl, nofun⟩
        | some field =>
          obtain ⟨token, after⟩ := field
          have consumed := shorter token after rfl
          simp only
          split
          next => exact ⟨none, rfl, nofun⟩
          next =>
            obtain ⟨result, looped, notLonger⟩ := @ih after
              (pairs ++ [(fitted (token.takeWhile (· ≠ equals)),
                fitted (token.dropWhile (· ≠ equals)).tail)]) (by omega)
            exact ⟨result, looped, fun value last isLast =>
              (notLonger value last isLast).trans (by omega)⟩

theorem consumes_parseHead (p : List Byte) : Consumes p (parseHead p) := by
  rw [parseHead]
  split
  next => exact ⟨none, rfl, nofun⟩
  next cpuId afterCpu readCpu =>
    have first := length_parseDec readCpu
    obtain ⟨info, parsedInfo, shorterInfo⟩ := consumes_parseString afterCpu 64
    rw [parsedInfo]
    cases info with
    | none => exact ⟨none, rfl, nofun⟩
    | some field =>
      obtain ⟨info, afterInfo⟩ := field
      have second := shorterInfo info afterInfo rfl
      simp only [bind, Except.bind]
      split
      next => exact ⟨none, rfl, nofun⟩
      next type afterType readType =>
        have third := length_parseDec readType
        obtain ⟨magic, parsedMagic, shorterMagic⟩ := consumes_parseHex afterType
        rw [parsedMagic]
        cases magic with
        | none => exact ⟨none, rfl, nofun⟩
        | some field =>
          obtain ⟨magic, afterMagic⟩ := field
          have fourth := shorterMagic magic afterMagic rfl
          refine ⟨_, rfl, ?_⟩
          rintro value rest ⟨⟩
          omega

theorem consumes_parseTask (p : List Byte) : Consumes p (parseTask p) := by
  obtain ⟨head, parsedHead, shorter⟩ := consumes_parseHead p
  rw [parseTask, parsedHead]
  cases head with
  | none => exact ⟨none, rfl, nofun⟩
  | some field =>
    obtain ⟨task, start⟩ := field
    have first := shorter task start rfl
    obtain ⟨args, after, parsedArgs, notLonger⟩ :=
      @argsLoop_ok start (start.length + 1) .empty (Nat.lt_succ_self _)
    simp only [bind, Except.bind, parseArgs, parsedArgs]
    refine ⟨_, rfl, ?_⟩
    rintro value rest ⟨⟩
    omega

def Conf.blocks (conf : Conf) : List Nat :=
  conf.tasks.map Prod.fst ++ conf.directives.map Prod.fst

def Conf.reset (conf : Conf) : Conf :=
  { conf with tasks := [], directives := [], moduleMissingPanic := false }

def TestsOnly (conf : Conf) : Prop :=
  conf.directives ≠ [] → conf.purpose = .test ∨ conf.purpose = .compat

/-- While a file is parsed, the allocated blocks are those of the records, and the rest of the
context is as it was. -/
structure Parsing (before : Finset Nat) (initial : Conf) (m : Machine) : Prop where
  reset : m.conf.reset = initial
  distinct : m.conf.blocks.Nodup
  live : m.heap.live = before ∪ m.conf.blocks.toFinset
  apart : ∀ block ∈ m.conf.blocks, block ∉ before
  testsOnly : TestsOnly m.conf

variable {before : Finset Nat} {initial : Conf} {m : Machine} {heap : Ledger} {block : Nat}

namespace Parsing

variable (parsing : Parsing before initial m)

include parsing

theorem withHeap (same : heap.live = m.heap.live) :
    Parsing before initial { m with heap } :=
  { parsing with live := same.trans parsing.live }

theorem withRecord {conf : Conf} (fresh : block ∉ m.heap.live)
    (live : heap.live = insert block m.heap.live)
    (blocks : conf.blocks.Perm (block :: m.conf.blocks)) (reset : conf.reset = initial)
    (testsOnly : TestsOnly conf) : Parsing before initial ⟨conf, heap⟩ := by
  rw [parsing.live] at fresh live
  simp only [Finset.mem_union, List.mem_toFinset, not_or] at fresh
  refine ⟨reset, ?_, ?_, ?_, testsOnly⟩
  · exact blocks.nodup_iff.mpr (nodup_cons.mpr ⟨fresh.2, parsing.distinct⟩)
  · rw [live, toFinset_eq_of_perm _ _ blocks, toFinset_cons, Finset.union_insert]
  · intro other member
    rcases mem_cons.mp (blocks.mem_iff.mp member) with rfl | member
    · exact fresh.1
    · exact parsing.apart other member

end Parsing

/-- A function that parses a part of a file keeps ownership, and it consumes
something unless it fails. -/
def Advances (before : Finset Nat) (initial : Conf) (p : List Byte)
    (outcome : Except Fault (Option (List Byte) × Machine)) : Prop :=
  ∃ cursor after, outcome = .ok (cursor, after) ∧ Parsing before initial after ∧
    ∀ rest, cursor = some rest → rest.length < p.length

variable (parsing : Parsing before initial m)

include parsing

theorem advances_parseTaskLine : Advances before initial p (parseTaskLine m p) := by
  have effect := alloc_effect m.heap
  rw [parseTaskLine]
  generalize alloc m.heap = answer at effect
  cases effect with
  | refused live => exact ⟨none, _, rfl, parsing.withHeap live, nofun⟩
  | @granted heap fresh live =>
    obtain ⟨result, parsed, shorter⟩ := consumes_parseTask p
    simp only [parsed, bind, Except.bind]
    cases result with
    | none =>
      have isLive : m.heap.next ∈ heap.live := by
        rw [live]
        exact Finset.mem_insert_self _ _
      obtain ⟨after, freed, remaining⟩ := free_of_mem isLive
      rw [live, Finset.erase_insert fresh] at remaining
      simp only [kfree, freed]
      exact ⟨none, _, rfl, parsing.withHeap remaining, nofun⟩
    | some field =>
      obtain ⟨task, after⟩ := field
      refine ⟨some after, _, rfl,
        parsing.withRecord fresh live ?_ parsing.reset parsing.testsOnly, ?_⟩
      · simp only [Conf.blocks, map_append, map_cons, map_nil]
        rw [append_assoc]
        exact perm_middle
      · rintro rest ⟨⟩
        exact shorter task after rfl

theorem parsing_addDirective {added : Bool} {after : Machine} {directive : Directive}
    (called : taskConfAddDirectiveCtx m directive = (added, after)) :
    Parsing before initial after := by
  rw [taskConfAddDirectiveCtx] at called
  split at called
  next =>
    cases called
    exact parsing
  next permitted =>
    have isTest : m.conf.purpose = .test ∨ m.conf.purpose = .compat := by
      simp only [Bool.or_eq_true, Bool.not_eq_true', not_or, Bool.or_eq_false_iff,
        decide_eq_false_iff_not] at permitted
      by_contra neither
      exact permitted.2 (not_or.mp neither)
    have effect := alloc_effect m.heap
    generalize alloc m.heap = answer at effect called
    cases effect with
    | refused live =>
      cases called
      exact parsing.withHeap live
    | granted fresh live =>
      cases called
      refine parsing.withRecord fresh live ?_ parsing.reset fun _ => isTest
      simp only [Conf.blocks, map_append, map_cons, map_nil]
      rw [← append_assoc]
      exact perm_append_singleton _ _

theorem advances_parseTestDirective : Advances before initial p (parseTestDirective m p) := by
  obtain ⟨name, parsedName, shorterName⟩ := consumes_parseString p 32
  rw [parseTestDirective, parsedName]
  cases name with
  | none => exact ⟨none, m, rfl, parsing, nofun⟩
  | some field =>
    obtain ⟨name, afterName⟩ := field
    have first := shorterName name afterName rfl
    obtain ⟨pairs, parsedPairs, notLonger⟩ :=
      @pairsLoop_ok afterName (afterName.length + 1) [] (Nat.lt_succ_self _)
    simp only [bind, Except.bind, parsedPairs]
    cases pairs with
    | none => exact ⟨none, m, rfl, parsing, nofun⟩
    | some field =>
      obtain ⟨pairs, afterPairs⟩ := field
      have second := notLonger pairs afterPairs rfl
      cases called : taskConfAddDirectiveCtx m ⟨name, pairs⟩ with
      | mk added after =>
        simp only [called]
        refine ⟨_, after, rfl, parsing_addDirective parsing called, ?_⟩
        intro rest isRest
        obtain ⟨-, ⟨⟩⟩ := ite_none_right_eq_some.mp isRest
        omega

omit parsing in
theorem parseVersion_ok (p : List Byte) :
    ∃ result, parseVersion p = .ok result ∧ ∀ rest, result = some rest → rest.length < p.length := by
  obtain ⟨value, parsed, shorter⟩ := consumes_parseString p 32
  rw [parseVersion, parsed]
  cases value with
  | none => exact ⟨none, rfl, nofun⟩
  | some field =>
    obtain ⟨value, after⟩ := field
    have first := shorter value after rfl
    have skipped := length_skipSpaces_le after
    simp only [bind, Except.bind]
    split
    next => exact ⟨none, rfl, nofun⟩
    split
    next =>
      refine ⟨_, rfl, ?_⟩
      rintro rest ⟨⟩
      omega
    next nonempty =>
      obtain ⟨c, rest, same, read⟩ := deref_of_ne_nil nonempty
      rw [read]
      refine ⟨_, rfl, fun rest isRest => ?_⟩
      obtain ⟨-, ⟨⟩⟩ := ite_none_left_eq_some.mp isRest
      omega

theorem advances_parseDirective : Advances before initial p (parseDirective m p) := by
  obtain ⟨name, parsedName, shorterName⟩ := consumes_parseString p 32
  rw [parseDirective, parsedName]
  cases name with
  | none => exact ⟨none, m, rfl, parsing, nofun⟩
  | some field =>
    obtain ⟨name, afterName⟩ := field
    have first := shorterName name afterName rfl
    simp only [bind, Except.bind]
    split
    next =>
      obtain ⟨cursor, parsed, shorter⟩ := parseVersion_ok afterName
      rw [parsed]
      exact ⟨cursor, m, rfl, parsing, fun rest isRest => (shorter rest isRest).trans first⟩
    split
    next =>
      obtain ⟨cursor, after, parsed, kept, shorter⟩ :=
        @advances_parseTestDirective afterName _ _ _ parsing
      exact ⟨cursor, after, parsed, kept, fun rest isRest => (shorter rest isRest).trans first⟩
    split
    next =>
      obtain ⟨value, parsedValue, shorterValue⟩ := consumes_parseString afterName 16
      rw [parsedValue]
      cases value with
      | none => exact ⟨none, m, rfl, parsing, nofun⟩
      | some field =>
        obtain ⟨value, after⟩ := field
        have second := shorterValue value after rfl
        have consumed : ∀ rest, some after = some rest → rest.length < p.length := by
          rintro rest ⟨⟩
          omega
        simp only
        split
        · exact ⟨_, _, rfl, { parsing with }, consumed⟩
        split
        · exact ⟨_, _, rfl, { parsing with }, consumed⟩
        · exact ⟨none, m, rfl, parsing, nofun⟩
    next => exact ⟨none, m, rfl, parsing, nofun⟩

theorem advances_parseItem : Advances before initial (c :: p) (parseItem m (c :: p)) := by
  rw [parseItem]
  simp only [deref, bind, Except.bind]
  split
  · exact advances_parseDirective parsing
  · exact advances_parseTaskLine parsing

theorem parseLines_ok (enough : p.length < fuel) :
    ∃ parsed after, parseLines fuel p m = .ok (parsed, after) ∧
      Parsing before initial after := by
  induction fuel generalizing p m with
  | zero => omega
  | succ fuel ih =>
    have skipped := length_skipSpaces_le p
    rw [parseLines]
    cases skippedTo : skipSpaces p with
    | nil => exact ⟨true, m, rfl, parsing⟩
    | cons c rest =>
      rw [skippedTo, length_cons] at skipped
      simp only [reduceCtorEq, if_false, deref, bind, Except.bind, tail_cons]
      split
      next => exact ih parsing (by omega)
      split
      next isHash =>
        obtain ⟨after, found, shorter⟩ := skipLine_ok rest
        rw [skipLine_cons (by rw [isHash]; decide), found]
        exact ih parsing (by omega)
      next =>
        have advances : Advances before initial (c :: rest) (parseItem m (c :: rest)) :=
          advances_parseItem parsing
        obtain ⟨cursor, after, parsed, kept, shorter⟩ := advances
        simp only [parsed]
        cases cursor with
        | none => exact ⟨false, after, rfl, kept⟩
        | some cursor =>
          have consumed := shorter cursor rfl
          obtain ⟨next, found, notLonger⟩ := skipLine_ok cursor
          simp only [found]
          rw [length_cons] at consumed
          exact ih kept (by omega)

omit parsing in
theorem freeAll_of_foldlM {blocks : List Nat} {heap after : Ledger}
    (freed : blocks.foldlM free heap = some after) : freeAll blocks heap = .ok after := by
  rw [freeAll]
  induction blocks generalizing heap with
  | nil =>
    cases freed
    rfl
  | cons block blocks ih =>
    obtain ⟨mid, first, others⟩ := bind_eq_some_iff.mp freed
    rw [foldlM_cons, kfree, first]
    exact ih others

theorem clearRecords_ok : ∃ after, clearRecords m = .ok after ∧ after.heap.live = before ∧
      after.conf.reset = initial ∧ after.conf.tasks = [] ∧ after.conf.directives = [] := by
  obtain ⟨tasksDistinct, directivesDistinct, disjoint⟩ := nodup_append'.mp parsing.distinct
  have isLive : ∀ block ∈ m.conf.blocks, block ∈ m.heap.live := by
    intro block member
    rw [parsing.live, Finset.mem_union, List.mem_toFinset]
    exact .inr member
  obtain ⟨mid, freedTasks, middleLive⟩ := foldlM_free tasksDistinct fun block member =>
    isLive block (mem_append_left _ member)
  have stillLive : ∀ block ∈ m.conf.directives.map Prod.fst, block ∈ mid.live := by
    intro block member
    rw [middleLive, Finset.mem_sdiff, List.mem_toFinset]
    exact ⟨isLive block (mem_append_right _ member), fun inTasks => disjoint inTasks member⟩
  obtain ⟨last, freedDirectives, lastLive⟩ := foldlM_free directivesDistinct stillLive
  refine ⟨⟨{ m.conf with tasks := [], directives := [] }, last⟩, ?_, ?_, parsing.reset, rfl,
    rfl⟩
  · rw [clearRecords, freeAll_of_foldlM freedTasks]
    simp only [bind, Except.bind, freeAll_of_foldlM freedDirectives]
  rw [lastLive, middleLive, parsing.live]
  ext block
  have apart := parsing.apart block
  simp only [Conf.blocks, mem_append] at apart
  simp only [Conf.blocks, toFinset_append, Finset.mem_sdiff, Finset.mem_union, List.mem_toFinset]
  tauto

omit parsing

/-- The contexts that have been initialized and not parsed; between attempts the heap may
change. -/
inductive Unparsed (files : Nat) (purpose : Purpose) : Machine → Prop
  | init {conf initialized : Conf} {heap : Ledger}
      (started : taskConfInitCtx conf files purpose = some initialized) :
      Unparsed files purpose ⟨initialized, heap⟩
  | failed {m after : Machine} {file : ConfigFile} {heap : Ledger}
      (unparsed : Unparsed files purpose m)
      (attempted : taskConfParseCtx m file = .ok (false, after)) :
      Unparsed files purpose ⟨after.conf, heap⟩

/-- An attempt to parse a file from the initial state fails and gives back what it allocated, or
keeps what the parser made of the file. -/
inductive ParseEffect (initial : Conf) (heap : Ledger) (file : ConfigFile) :
    Except Fault (Bool × Machine) → Prop
  | failed {after : Ledger} (live : after.live = heap.live) :
      ParseEffect initial heap file (.ok (false, ⟨initial, after⟩))
  | accepted {last : Machine} (source : file.source = initial.files)
      (looped : taskConfParseV1Ctx ⟨initial, heap⟩ file.contents.bytes = .ok (true, last))
      (kept : Parsing heap.live initial last) :
      ParseEffect initial heap file (.ok (true, { last with conf := { last.conf with
        configPath := file.path, parsed := true } }))

variable {files : Nat} {purpose : Purpose}

theorem taskConfParseCtx_effect (heap : Ledger) (file : ConfigFile) :
    ParseEffect (initialConf files purpose) heap file
      (taskConfParseCtx ⟨initialConf files purpose, heap⟩ file) := by
  rw [taskConfParseCtx]
  split
  next => exact .failed rfl
  next guards =>
    simp only [Bool.or_eq_true, not_or, decide_eq_true_eq, not_not] at guards
    have parsing : Parsing heap.live (initialConf files purpose)
        ⟨initialConf files purpose, heap⟩ := by
      refine ⟨rfl, .nil, ?_, nofun, fun some => absurd rfl some⟩
      simp [Conf.blocks, initialConf]
    obtain ⟨parsed, after, looped, kept⟩ :=
      parseLines_ok parsing (Nat.lt_succ_self file.contents.bytes.length)
    cases parsed with
    | true =>
      have accepted := ParseEffect.accepted guards.1.1.1.1.2 looped kept
      simpa only [taskConfParseV1Ctx, looped, bind, Except.bind, Bool.not_true,
        Bool.false_eq_true, if_false] using accepted
    | false =>
      obtain ⟨last, cleared, live, reset, noTasks, noDirectives⟩ := clearRecords_ok kept
      simp only [taskConfParseV1Ctx, looped, bind, Except.bind, cleared, Bool.not_false, if_true]
      have same : { last.conf with moduleMissingPanic := false } =
          initialConf files purpose := by
        simp only [← reset, Conf.reset, noTasks, noDirectives]
      rw [same]
      exact .failed live

theorem taskConfParseCtx_ok (heap : Ledger) (file : ConfigFile) :
    ∃ parsed after, taskConfParseCtx ⟨initialConf files purpose, heap⟩ file = .ok (parsed, after) ∧
      (parsed = true → after.conf.parsed = true) ∧
      (parsed = false → after.conf = initialConf files purpose ∧ after.heap.live = heap.live) := by
  have effect := @taskConfParseCtx_effect files purpose heap file
  generalize taskConfParseCtx ⟨initialConf files purpose, heap⟩ file = outcome at effect
  cases effect with
  | failed live => exact ⟨false, _, rfl, nofun, fun _ => ⟨rfl, live⟩⟩
  | accepted source looped kept => exact ⟨true, _, rfl, fun _ => rfl, nofun⟩

theorem Unparsed.conf_eq (unparsed : Unparsed files purpose m) :
    m.conf = initialConf files purpose := by
  induction unparsed with
  | init started =>
    obtain ⟨-, started⟩ := ite_none_left_eq_some.mp started
    exact (some.inj started).symm
  | @failed m after file heap unparsed attempted ih =>
    obtain ⟨conf, heap⟩ := m
    obtain rfl := ih
    obtain ⟨parsed, last, called, -, failed⟩ := @taskConfParseCtx_ok files purpose heap file
    cases attempted.symm.trans called
    exact (failed rfl).1

/-- Parsing succeeds, or leaves the context as it was initialized and gives back every block
once. It reads only the file. -/
theorem parse_atomic {files : Nat} {purpose : Purpose} (unparsed : Unparsed files purpose m)
    (file : ConfigFile) : ∃ parsed after, taskConfParseCtx m file = .ok (parsed, after) ∧
      (parsed = true → after.conf.parsed = true) ∧
      (parsed = false → after.conf = initialConf files purpose ∧
        after.heap.live = m.heap.live) := by
  obtain ⟨conf, heap⟩ := m
  obtain rfl := unparsed.conf_eq
  exact taskConfParseCtx_ok heap file

def freshMachine : Machine := ⟨initialConf 1 .compat, ⟨∅, 0, fun _ => true, 0, BlockLedger.fresh_empty⟩⟩

/-- A file with the lines `@module_missing panic`, `0 a:b 3 0xc` and `@version 2`. -/
def brokenFile : ConfigFile where
  contents := ⟨0x1000, moduleMissingText ++ [space] ++ panicText ++ [newline] ++
    [0x30, 0x20, 0x61, 0x3a, 0x62, 0x20, 0x33, 0x20, 0x30, 0x78, 0x63, 0x0a] ++
    versionText ++ [0x20, 0x32, 0x0a]⟩
  path := []
  source := 1

theorem unparsed_freshMachine : Unparsed 1 .compat freshMachine :=
  @Unparsed.init 1 .compat { initialConf 1 .compat with initialized := false } _ _ rfl

theorem parse_atomic_brokenFile : Unparsed 1 .compat freshMachine ∧
      ∃ after, taskConfParseCtx freshMachine brokenFile = .ok (false, after) ∧
        after.conf = initialConf 1 .compat ∧ after.heap.live = ∅ := by
  obtain ⟨parsed, after, called, -, failed⟩ := parse_atomic unparsed_freshMachine brokenFile
  have rejected : (taskConfParseCtx freshMachine brokenFile).toOption.map Prod.fst =
      some false := by
    decide +kernel
  rw [called] at rejected
  obtain rfl : parsed = false := some.inj rejected
  exact ⟨unparsed_freshMachine, after, called, failed rfl⟩

end LaOS.TaskConf
