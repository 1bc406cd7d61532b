import LaOS.CpioReader

/-!
# Sets of boot files

An embedding of `kernel/boot_files.c`.  Strings are lists of bytes without the zero
that ends them; a null pointer in the place of a string is `none`.
-/

namespace LaOS.BootFiles

open List WordBytes ByteBuffer Cpio

structure CString where
  bytes : List Byte
  noZero : (0 : Byte) ∉ bytes

def slash : Byte := 0x2f

def dot : Byte := 0x2e

def colon : Byte := 0x3a

def bootFilePathMax : Nat := 256

def afterComponent (path : List Byte) : List Byte :=
  (path.dropWhile (· = slash)).dropWhile (· ≠ slash)

theorem length_afterComponent_lt (c : Byte) (path : List Byte) :
    (afterComponent (c :: path)).length < (c :: path).length := by
  by_cases isSlash : c = slash
  · have skipped := (path.dropWhile_suffix (· = slash)).length_le
    have ran := ((path.dropWhile (· = slash)).dropWhile_suffix (· ≠ slash)).length_le
    simp only [afterComponent, dropWhile_cons, isSlash, decide_true, if_true, length_cons]
    omega
  · have ran := (path.dropWhile_suffix (· ≠ slash)).length_le
    simp only [afterComponent, dropWhile_cons, isSlash, decide_false, Bool.false_eq_true,
      if_false, ne_eq, not_false_eq_true, decide_true, if_true, length_cons] at ran ⊢
    omega

/-- The loop of `boot_file_normalize`, with what has been written to `out`. -/
def normalizeLoop (path out : List Byte) : Option (List Byte) :=
  match path with
  | [] => if out = [] then none else some out
  | c :: path =>
    let name := ((c :: path).dropWhile (· = slash)).takeWhile (· ≠ slash)
    if colon ∈ name then none
    else if name = [] ∨ name = [dot] then normalizeLoop (afterComponent (c :: path)) out
    else if name = [dot, dot] then none
    else if name.length ≥ bootFilePathMax - out.length - 1 then none
    else normalizeLoop (afterComponent (c :: path)) (out ++ slash :: name)
termination_by path.length
decreasing_by all_goals exact length_afterComponent_lt c path

/-- `boot_file_normalize`.  Without a result it returns -2. -/
def bootFileNormalize (path : Option (List Byte)) : Option (List Byte) :=
  path.bind fun path => normalizeLoop path []

def validView (view : View) : Bool :=
  view.address ≠ 0 ∧ view.size ≤ 0x7fffffff ∧ view.address.toNat ≤ uintptrMax - view.size

structure BootModule where
  contents : View
  path : Option CString

def BootModule.name (item : BootModule) : Option (List Byte) :=
  bootFileNormalize (item.path.map CString.bytes)

inductive FileSet
  | modules (modules : List BootModule)
  | cpio (archive : Archive)

/-- `boot_files_from_modules`.  Without a result it returns -2. -/
def bootFilesFromModules (modules : List BootModule) : Option FileSet :=
  if modules.all fun item => validView item.contents && item.name.isSome then
    some (.modules modules)
  else none

def fileType (mode : BitVec 32) : BitVec 32 := mode &&& 0xf000

def isDirectory (mode : BitVec 32) : Bool := fileType mode = 0x4000

def isRegular (mode : BitVec 32) : Bool := fileType mode = 0x8000

/-- The name of an entry after `boot_file_normalize`. -/
def entryName (archive : Archive) (entry : Entry) : Except Fault (Option (List Byte)) :=
  (loadString (archive.bytes.drop entry.name)).map fun name => bootFileNormalize (some name)

/-- The loop of `boot_files_from_cpio`: whether all entries are accepted. -/
def checkEntries : Nat → Reader → Except Fault Bool
  | 0, _ => .error .outOfFuel
  | fuel + 1, reader => do
      match ← cpioReaderNext reader with
      | (.bad, _) => .ok false
      | (.done, _) => .ok true
      | (.entry entry, after) =>
        if isDirectory entry.mode then checkEntries fuel after
        else if !isRegular entry.mode then .ok false
        else
          match ← entryName reader.archive entry with
          | none => .ok false
          | some _ => checkEntries fuel after

/-- `boot_files_from_cpio`.  Without a result it returns -2. -/
def bootFilesFromCpio (archive : Archive) : Except Fault (Option FileSet) :=
  if !validView archive.toView then .ok none
  else do
    match ← cpioReaderInit archive with
    | none => .ok none
    | some reader =>
      let accepted ← checkEntries (archive.size + 1) reader
      .ok (if accepted then some (.cpio archive) else none)

/-- The results 0, -1 and -2 of `boot_file_lookup`. -/
inductive Lookup (File : Type)
  | found (file : File)
  | missing
  | invalid
  deriving DecidableEq

structure BootFile where
  contents : View
  path : List Byte

def conclude (wanted : List Byte) : Option View → Lookup BootFile
  | none => .missing
  | some contents => .found ⟨contents, wanted⟩

/-- The loop of `boot_file_lookup` over modules, with the file found so far. -/
def lookupModules (wanted : List Byte) : List BootModule → Option View → Lookup BootFile
  | [], found => conclude wanted found
  | item :: modules, found =>
    match item.name with
    | none => .invalid
    | some name =>
      if wanted ≠ name then lookupModules wanted modules found
      else if found.isSome || !validView item.contents then .invalid
      else lookupModules wanted modules (some item.contents)

def entryContents (archive : Archive) (entry : Entry) : View :=
  ⟨archive.address + BitVec.ofNat 64 entry.data, slice archive.bytes entry.data entry.size⟩

/-- The loop of `boot_file_lookup` over an archive, with the file found so far. -/
def lookupEntries (wanted : List Byte) : Nat → Reader → Option View → Except Fault (Lookup BootFile)
  | 0, _, _ => .error .outOfFuel
  | fuel + 1, reader, found => do
      match ← cpioReaderNext reader with
      | (.bad, _) => .ok .invalid
      | (.done, _) => .ok (conclude wanted found)
      | (.entry entry, after) =>
        if isDirectory entry.mode then lookupEntries wanted fuel after found
        else if !isRegular entry.mode then .ok .invalid
        else
          match ← entryName reader.archive entry with
          | none => .ok .invalid
          | some name =>
            if wanted ≠ name then lookupEntries wanted fuel after found
            else if found.isSome then .ok .invalid
            else lookupEntries wanted fuel after (some (entryContents reader.archive entry))

def bootFileLookup (set : FileSet) (path : Option CString) : Except Fault (Lookup BootFile) :=
  match bootFileNormalize (path.map CString.bytes) with
  | none => .ok .invalid
  | some wanted =>
    match set with
    | .modules modules => .ok (lookupModules wanted modules none)
    | .cpio archive => do
        match ← cpioReaderInit archive with
        | none => .ok .invalid
        | some reader => lookupEntries wanted (archive.size + 1) reader none

def bootFileLookupIn (set : FileSet) (directory name : CString) : Except Fault (Lookup BootFile) :=
  if slash ∈ name.bytes then bootFileLookup set (some name)
  else if directory.bytes.length + name.bytes.length + 2 > bootFilePathMax then .ok .invalid
  else
    bootFileLookup set (some ⟨directory.bytes ++ slash :: name.bytes, by
      have := directory.noZero
      have := name.noZero
      have : (0 : Byte) ≠ slash := by decide
      simp_all⟩)

end LaOS.BootFiles
