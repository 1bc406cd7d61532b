import LaOS.BootFiles
import LaOS.CpioSafety
import LaOS.InitrdBuild

/-!
# Exact lookup of boot files

Whether the files come from modules or from an archive, `boot_file_lookup` depends
only on the normalized names and the contents of the regular files.
-/

namespace LaOS.BootFiles

open List WordBytes ByteBuffer Cpio

/-- The entries that are returned by at most the given number of calls. -/
def entriesFrom : Nat → Reader → List Entry
  | 0, _ => []
  | fuel + 1, reader =>
    match outcome reader with
    | (.entry entry, after) => entry :: entriesFrom fuel after
    | _ => []

def entries (archive : Archive) : List Entry :=
  entriesFrom (archive.size + 1) ⟨archive, 0, false⟩

/-- The name of an entry without the zero that ends it. -/
def spelling (archive : Archive) (entry : Entry) : List Byte :=
  (archive.bytes.drop entry.name).takeWhile (· ≠ 0)

/-- The reader returns these entries and then the given result. -/
inductive Enumerates (archive : Archive) : Reader → List Entry → Bool → Prop
  | done {reader after : Reader} (called : outcome reader = (.done, after)) :
      Enumerates archive reader [] true
  | bad {reader after : Reader} (called : outcome reader = (.bad, after)) :
      Enumerates archive reader [] false
  | entry {reader after : Reader} {entry : Entry} {entries : List Entry} {ends : Bool}
      (same : reader.archive = archive) (called : outcome reader = (.entry entry, after))
      (named : loadString (archive.bytes.drop entry.name) = .ok (spelling archive entry))
      (others : Enumerates archive after entries ends) :
      Enumerates archive reader (entry :: entries) ends

variable {archive : Archive} {reader : Reader} {fuel : Nat} {ends : Bool} {files : List Entry}

theorem loadString_of_isRecord {offset : Nat} {record : Record}
    (isRecord : IsRecord archive.bytes offset record) :
    loadString (archive.bytes.drop record.entry.name) = .ok (spelling archive record.entry) := by
  rw [spelling]
  simp only [Record.entry]
  rw [isRecord.name_eq, drop_eq_slice_append isRecord.fits.ends]
  exact loadString_append isRecord.fits.interior

theorem enumerates_entriesFrom (aligned : reader.offset % 4 = 0)
    (inside : reader.offset ≤ reader.archive.size)
    (enough : reader.archive.size < reader.offset + fuel) :
    (entriesFrom fuel reader).length < fuel ∧
      ∃ ends, Enumerates reader.archive reader (entriesFrom fuel reader) ends := by
  induction fuel generalizing reader with
  | zero => omega
  | succ fuel ih =>
    have effect := outcome_effect reader
    rw [entriesFrom]
    generalize called : outcome reader = result at effect
    cases effect with
    | @entry record isRecord =>
      have grows := isRecord.grows aligned
      obtain ⟨shorter, ends, others⟩ := @ih { reader with offset := record.next } (pad4_mod _)
        isRecord.fits.padded (by simp only; omega)
      exact ⟨Nat.succ_lt_succ shorter, ends,
        .entry rfl called (loadString_of_isRecord isRecord) others⟩
    | done => exact ⟨Nat.succ_pos fuel, true, .done called⟩
    | bad => exact ⟨Nat.succ_pos fuel, false, .bad called⟩

theorem Enumerates.entryName {entry : Entry} (same : reader.archive = archive)
    (named : loadString (archive.bytes.drop entry.name) = .ok (spelling archive entry)) :
    entryName reader.archive entry = .ok (bootFileNormalize (some (spelling archive entry))) := by
  rw [BootFiles.entryName, same, named]
  rfl

/-- An entry that `boot_files_from_cpio` accepts. -/
def acceptedEntry (archive : Archive) (entry : Entry) : Bool :=
  isDirectory entry.mode ||
    isRegular entry.mode && (bootFileNormalize (some (spelling archive entry))).isSome

theorem checkEntries_eq (enumerates : Enumerates archive reader files ends)
    (enough : files.length < fuel) :
    checkEntries fuel reader = .ok (ends && files.all (acceptedEntry archive)) := by
  induction enumerates generalizing fuel with
  | done called | bad called =>
    obtain ⟨fuel, rfl⟩ := Nat.exists_eq_add_of_lt enough
    rw [checkEntries, cpioReaderNext_eq, called]
    rfl
  | @entry reader after entry files ends same called named others ih =>
    cases fuel with
    | zero => omega
    | succ fuel =>
      have rest := @ih fuel (by simpa using enough)
      rw [checkEntries, cpioReaderNext_eq, called]
      simp only [bind, Except.bind, Enumerates.entryName same named, rest, all_cons, acceptedEntry]
      cases isDirectory entry.mode with
      | true => simp
      | false =>
        cases isRegular entry.mode with
        | false => simp
        | true => cases bootFileNormalize (some (spelling archive entry)) <;> simp

/-- The loops of `boot_file_lookup` over files with normalized names. -/
def lookupFiles (wanted : List Byte) : List (List Byte × View) → Option View → Lookup BootFile
  | [], found => conclude wanted found
  | (name, contents) :: files, found =>
    if wanted ≠ name then lookupFiles wanted files found
    else if found.isSome then .invalid
    else lookupFiles wanted files (some contents)

def moduleFiles (modules : List BootModule) : List (List Byte × View) :=
  modules.filterMap fun item => item.name.map (·, item.contents)

/-- The regular files of an archive with normalized names. -/
def entryFiles (archive : Archive) (entries : List Entry) : List (List Byte × View) :=
  entries.filterMap fun entry =>
    if isDirectory entry.mode then none
    else (bootFileNormalize (some (spelling archive entry))).map (·, entryContents archive entry)

variable {wanted : List Byte} {found : Option View} {modules : List BootModule}

theorem lookupModules_eq
    (accepted : modules.all (fun item => validView item.contents && item.name.isSome) = true) :
    lookupModules wanted modules found = lookupFiles wanted (moduleFiles modules) found := by
  induction modules generalizing found with
  | nil => rfl
  | cons item modules ih =>
    simp only [all_cons, Bool.and_eq_true, Option.isSome_iff_exists] at accepted
    obtain ⟨⟨valid, name, named⟩, others⟩ := accepted
    simp only [lookupModules, moduleFiles, filterMap_cons, named, Option.map_some,
      lookupFiles, valid, Bool.not_true, Bool.or_false]
    rw [ih others, ih others]
    rfl

theorem lookupEntries_eq (enumerates : Enumerates archive reader files true)
    (enough : files.length < fuel) (accepted : files.all (acceptedEntry archive) = true) :
    lookupEntries wanted fuel reader found =
      .ok (lookupFiles wanted (entryFiles archive files) found) := by
  generalize isDone : true = ends at enumerates
  induction enumerates generalizing fuel found with
  | done called =>
    obtain ⟨fuel, rfl⟩ := Nat.exists_eq_add_of_lt enough
    rw [lookupEntries, cpioReaderNext_eq, called]
    rfl
  | bad called => cases isDone
  | @entry reader after entry files ends same called named others ih =>
    cases fuel with
    | zero => omega
    | succ fuel =>
      simp only [all_cons, Bool.and_eq_true] at accepted
      have rest := fun found => @ih fuel found (by simpa using enough) accepted.2 isDone
      have suitable := accepted.1
      rw [acceptedEntry] at suitable
      rw [lookupEntries, cpioReaderNext_eq, called]
      simp only [bind, Except.bind, Enumerates.entryName same named, rest, entryFiles,
        filterMap_cons]
      cases directory : isDirectory entry.mode with
      | true => simp
      | false =>
        simp only [directory, Bool.false_or, Bool.and_eq_true, Option.isSome_iff_exists] at suitable
        obtain ⟨regular, name, normalized⟩ := suitable
        simp only [regular, normalized, Option.map_some, lookupFiles, same, Bool.not_true,
          Bool.false_eq_true, if_false]
        split
        · rfl
        split <;> rfl

/-- The result for the contents of the files with the wanted name. -/
def resolve (wanted : List Byte) : List View → Lookup BootFile
  | [] => .missing
  | [contents] => .found ⟨contents, wanted⟩
  | _ :: _ :: _ => .invalid

theorem lookupFiles_eq (files : List (List Byte × View)) : lookupFiles wanted files found =
      resolve wanted (found.toList ++ (files.filter (wanted = ·.1)).map Prod.snd) := by
  induction files generalizing found with
  | nil => cases found <;> rfl
  | cons file files ih =>
    obtain ⟨name, contents⟩ := file
    rw [lookupFiles, ih, ih]
    by_cases same : wanted = name
    · simp only [same, ne_eq, not_true_eq_false, if_false, decide_true,
        filter_cons_of_pos, map_cons]
      cases found with
      | none => rfl
      | some earlier => rfl
    · simp [same]

/-- Names, as they are spelled, and contents of the regular files of a set. -/
def regularFiles : FileSet → List (List Byte × List Byte)
  | .modules modules =>
    modules.filterMap fun item => item.path.map fun path => (path.bytes, item.contents.bytes)
  | .cpio archive =>
    ((entries archive).filter fun entry => isRegular entry.mode).map fun entry =>
      (spelling archive entry, (entryContents archive entry).bytes)

/-- Normalized names and contents of the regular files of a set. -/
def normalizedFiles (set : FileSet) : List (Option (List Byte) × List Byte) :=
  (regularFiles set).map fun (name, contents) => (bootFileNormalize (some name), contents)

/-- The sets that `boot_files_from_modules` and `boot_files_from_cpio` construct. -/
inductive Accepted : FileSet → Prop
  | modules {modules : List BootModule} {set : FileSet}
      (constructed : bootFilesFromModules modules = some set) : Accepted set
  | cpio {archive : Archive} {set : FileSet}
      (constructed : bootFilesFromCpio archive = .ok (some set)) : Accepted set

def Lookup.read : Lookup BootFile → Lookup (List Byte × List Byte)
  | .found file => .found (file.contents.bytes, file.path)
  | .missing => .missing
  | .invalid => .invalid

/-- What a lookup is to return: the only file whose normalized name is the
normalized path. -/
def exactLookup (files : List (Option (List Byte) × List Byte)) (path : Option CString) :
    Lookup (List Byte × List Byte) :=
  match bootFileNormalize (path.map CString.bytes) with
  | none => .invalid
  | some wanted =>
    match files.filter (·.1 = some wanted) with
    | [] => .missing
    | [file] => .found (file.2, wanted)
    | _ => .invalid

/-- The files with their contents in place of views of them. -/
def erase (files : List (List Byte × View)) : List (Option (List Byte) × List Byte) :=
  files.map fun (name, contents) => (some name, contents.bytes)

theorem read_lookupFiles (files : List (List Byte × View)) : (lookupFiles wanted files none).read =
      match (erase files).filter (·.1 = some wanted) with
      | [] => .missing
      | [file] => .found (file.2, wanted)
      | _ => .invalid := by
  have same : (erase files).filter (·.1 = some wanted) =
      erase (files.filter (wanted = ·.1)) := by
    rw [erase, filter_map]
    congr 1
    refine filter_congr fun file _ => ?_
    simp [eq_comm]
  rw [lookupFiles_eq, same]
  generalize files.filter (wanted = ·.1) = matching
  rcases matching with _ | ⟨first, _ | ⟨second, others⟩⟩
  all_goals rfl

theorem erase_moduleFiles
    (accepted : modules.all (fun item => validView item.contents && item.name.isSome) = true) :
    erase (moduleFiles modules) = normalizedFiles (.modules modules) := by
  induction modules with
  | nil => rfl
  | cons item modules ih =>
    simp only [all_cons, Bool.and_eq_true, Option.isSome_iff_exists] at accepted
    obtain ⟨⟨-, name, named⟩, others⟩ := accepted
    simp only [erase, moduleFiles, normalizedFiles, regularFiles] at ih ⊢
    cases spelled : item.path with
    | none => simp [BootModule.name, spelled, bootFileNormalize] at named
    | some path =>
      have normalized : bootFileNormalize (some path.bytes) = some name := by
        simpa [BootModule.name, spelled] using named
      simp only [filterMap_cons, named, spelled, Option.map_some, map_cons, normalized, ih others]

theorem not_regular_of_directory {mode : BitVec 32} (directory : isDirectory mode = true) :
    isRegular mode = false := by
  simp only [isDirectory, isRegular, decide_eq_true_eq, decide_eq_false_iff_not] at directory ⊢
  rw [directory]
  decide

theorem erase_entryFiles (accepted : files.all (acceptedEntry archive) = true) :
    erase (entryFiles archive files) =
      ((files.filter fun entry => isRegular entry.mode).map fun entry =>
        (bootFileNormalize (some (spelling archive entry)),
          (entryContents archive entry).bytes)) := by
  induction files with
  | nil => rfl
  | cons entry files ih =>
    simp only [all_cons, Bool.and_eq_true] at accepted
    have suitable := accepted.1
    rw [acceptedEntry] at suitable
    simp only [erase, entryFiles] at ih ⊢
    cases directory : isDirectory entry.mode with
    | true => simp [directory, not_regular_of_directory directory, ih accepted.2]
    | false =>
      simp only [directory, Bool.false_or, Bool.and_eq_true, Option.isSome_iff_exists] at suitable
      obtain ⟨regular, name, normalized⟩ := suitable
      simp [directory, regular, normalized, ih accepted.2]

theorem enumerates_of_bootFilesFromCpio {set : FileSet}
    (constructed : bootFilesFromCpio archive = .ok (some set)) :
    set = .cpio archive ∧ cpioReaderInit archive = .ok (some ⟨archive, 0, false⟩) ∧
      Enumerates archive ⟨archive, 0, false⟩ (entries archive) true ∧
      (entries archive).length < archive.size + 1 ∧
      (entries archive).all (acceptedEntry archive) = true := by
  obtain ⟨enough, ends, enumerates⟩ := @enumerates_entriesFrom ⟨archive, 0, false⟩
    (archive.size + 1) rfl (Nat.zero_le _) (by simp only; omega)
  rw [bootFilesFromCpio] at constructed
  split at constructed
  next => cases constructed
  next =>
    rcases cpioReaderInit_cases archive with rejected | ⟨-, accepted⟩
    · rw [rejected] at constructed
      cases constructed
    rw [accepted] at constructed
    simp only [bind, Except.bind] at constructed
    rw [checkEntries_eq enumerates enough] at constructed
    simp only [Except.ok.injEq] at constructed
    split at constructed
    next allAccepted =>
      simp only [Bool.and_eq_true] at allAccepted
      obtain ⟨rfl, acceptedAll⟩ := allAccepted
      exact ⟨(Option.some.inj constructed).symm, accepted, enumerates, enough, acceptedAll⟩
    next => cases constructed

theorem read_bootFileLookup {set : FileSet} (accepted : Accepted set) (path : Option CString) :
    (bootFileLookup set path).map Lookup.read = .ok (exactLookup (normalizedFiles set) path) := by
  rw [bootFileLookup, exactLookup]
  cases bootFileNormalize (path.map CString.bytes) with
  | none => rfl
  | some wanted =>
    cases accepted with
    | @modules modules _ constructed =>
      obtain ⟨allAccepted, ⟨⟩⟩ := Option.ite_none_right_eq_some.mp constructed
      simp only [lookupModules_eq allAccepted]
      rw [← erase_moduleFiles allAccepted, ← read_lookupFiles]
      rfl
    | @cpio archive _ constructed =>
      obtain ⟨rfl, opened, enumerates, enough, allAccepted⟩ :=
        enumerates_of_bootFilesFromCpio constructed
      simp only [opened, bind, Except.bind]
      rw [lookupEntries_eq enumerates enough allAccepted]
      have same : normalizedFiles (.cpio archive) = erase (entryFiles archive (entries archive)) := by
        rw [erase_entryFiles allAccepted, normalizedFiles, regularFiles, map_map]
        rfl
      rw [same, ← read_lookupFiles]
      rfl

theorem exactLookup_perm {first second : List (Option (List Byte) × List Byte)}
    (permuted : first.Perm second) (path : Option CString) :
    exactLookup first path = exactLookup second path := by
  rw [exactLookup, exactLookup]
  cases bootFileNormalize (path.map CString.bytes) with
  | none => rfl
  | some wanted =>
    have matching := permuted.filter (·.1 = some wanted)
    simp only
    generalize first.filter (·.1 = some wanted) = left at matching
    generalize second.filter (·.1 = some wanted) = right at matching
    have lengths := matching.length_eq
    rcases left with _ | ⟨file, _ | ⟨other, others⟩⟩
    · rw [nil_perm.mp matching]
    · rw [singleton_perm.mp matching]
    · rcases right with _ | ⟨_, _ | ⟨_, _⟩⟩
      · cases lengths
      · simp at lengths
      · rfl

/-- A lookup returns the only regular file with the normalized path, and sets with the same
files are not distinguished. -/
theorem lookup_exact {set : FileSet} (accepted : Accepted set) (path : Option CString) :
    (bootFileLookup set path).map Lookup.read = .ok (exactLookup (normalizedFiles set) path) ∧
      ∀ other, Accepted other → (normalizedFiles set).Perm (normalizedFiles other) →
        (bootFileLookup set path).map Lookup.read =
          (bootFileLookup other path).map Lookup.read := by
  refine ⟨read_bootFileLookup accepted path, fun other acceptedOther permuted => ?_⟩
  rw [read_bootFileLookup accepted, read_bootFileLookup acceptedOther, exactLookup_perm permuted]

/-- Two modules with the paths `./a//b` and `b`. -/
def twoModules : List BootModule :=
  [⟨⟨0x1000, [0x01, 0x02]⟩, some ⟨[0x2e, 0x2f, 0x61, 0x2f, 0x2f, 0x62], by decide⟩⟩,
    ⟨⟨0x2000, [0x03]⟩, some ⟨[0x62], by decide⟩⟩]

theorem accepted_twoModules : Accepted (.modules twoModules) :=
  @Accepted.modules twoModules _ (if_pos (by decide +kernel))

/-- An archive with one file, `/b`. -/
def oneFile : Archive where
  address := 0x1000
  bytes := (Initrd.build 0 [("/b".toList, [0x03])]).getD []
  fits := by decide +kernel

theorem accepted_oneFile : Accepted (.cpio oneFile) := by
  have opened : ((bootFilesFromCpio oneFile).toOption.bind id).isSome = true := by decide +kernel
  cases constructed : bootFilesFromCpio oneFile with
  | error _ => simp [constructed, Except.toOption] at opened
  | ok set =>
    cases set with
    | none => simp [constructed, Except.toOption] at opened
    | some set =>
      obtain ⟨rfl, -⟩ := enumerates_of_bootFilesFromCpio constructed
      exact .cpio constructed

/-- The path `a/b` finds the first module, and `b` the file of the archive. -/
theorem lookup_exact_twoModules :
    (Accepted (.modules twoModules) ∧
      (bootFileLookup (.modules twoModules) (some ⟨[0x61, 0x2f, 0x62], by decide⟩)).map
          Lookup.read = .ok (.found ([0x01, 0x02], [0x2f, 0x61, 0x2f, 0x62]))) ∧
    Accepted (.cpio oneFile) ∧
      (bootFileLookup (.cpio oneFile) (some ⟨[0x62], by decide⟩)).map Lookup.read =
          .ok (.found ([0x03], [0x2f, 0x62])) := by
  refine ⟨⟨accepted_twoModules, (lookup_exact accepted_twoModules _).1.trans (congrArg _ ?_)⟩,
    accepted_oneFile, (lookup_exact accepted_oneFile _).1.trans (congrArg _ ?_)⟩
  · decide +kernel
  · decide +kernel

end LaOS.BootFiles
