import LaOS.BootLookup
import LaOS.InitrdPaths

/-!
# Archives that are written are read back

The kernel reads from the archive that `build` has written exactly the files of
the dictionary.
-/

namespace LaOS.Initrd

open List WordBytes ByteBuffer Cpio Utf8 BootFiles

theorem digitOf_upperDigit : ∀ digit < 16,
    digitOf (upperDigit digit) = some (BitVec.ofNat 32 digit) := by
  decide

theorem shiftLeft_or_digit {digit : Nat} (small : digit < 16) (value : Nat) :
    BitVec.ofNat 32 value <<< 4 ||| BitVec.ofNat 32 digit =
      BitVec.ofNat 32 (digit + 16 * value) := by
  refine BitVec.eq_of_toNat_eq ?_
  have shifted : value % 2 ^ 32 * 16 % 2 ^ 32 = (value % 2 ^ 28) <<< 4 := by
    omega
  have joined := Nat.shiftLeft_add_eq_or_of_lt (show digit < 2 ^ 4 by omega) (value % 2 ^ 28)
  simp only [BitVec.toNat_or, BitVec.toNat_shiftLeft, BitVec.toNat_ofNat, Nat.shiftLeft_eq _ 4]
  rw [show 2 ^ 4 = 16 from rfl, shifted, Nat.mod_eq_of_lt (show digit < 2 ^ 32 by omega), ← joined,
    Nat.shiftLeft_eq]
  omega

theorem hexOf_digits {digits : List Nat} (small : ∀ digit ∈ digits, digit < 16) :
    hexOf (digits.reverse.map upperDigit) = some (BitVec.ofNat 32 (Nat.ofDigits 16 digits)) := by
  induction digits with
  | nil => rfl
  | cons digit digits ih =>
    have first := small digit mem_cons_self
    have others := ih fun other mem => small other (mem_cons_of_mem _ mem)
    rw [hexOf] at others ⊢
    simp only [reverse_cons, map_append, foldlM_append, others, map_cons,
      map_nil, foldlM_cons, foldlM_nil, hexStep, digitOf_upperDigit digit first,
      Nat.ofDigits_cons, Option.map_some]
    change some _ = some _
    rw [shiftLeft_or_digit first]

theorem hexOf_hexField (n : Nat) : hexOf (hexField n) = some (BitVec.ofNat 32 n) := by
  have padded : hexField n = ((Nat.digits 16 n ++
      replicate (8 - (Nat.digits 16 n).length) 0).reverse.map upperDigit) := by
    simp only [hexField, reverse_append, reverse_replicate, map_append, map_replicate]
  rw [padded, hexOf_digits, Nat.ofDigits_append_replicate_zero, Nat.ofDigits_digits]
  intro digit mem
  rcases mem_append.mp mem with mem | mem
  · exact Nat.digits_lt_base (by decide) mem
  · rw [eq_of_mem_replicate mem]
    decide

theorem length_hexField (n : Nat) : (hexField n).length = max 8 (Nat.digits 16 n).length := by
  simp only [hexField, length_append, length_replicate, length_map, length_reverse]
  omega

theorem lt_of_length_hexField {n : Nat} (short : (hexField n).length ≤ 8) : n < 2 ^ 32 := by
  rw [length_hexField] at short
  have small := (@Nat.digits_length_le_iff 16 8 (by decide) n).mp (le_of_max_le_right short)
  exact lt_of_lt_of_eq small (by norm_num)

structure HeaderFields (header : List Byte) (nameLength size : Nat) : Prop where
  length : header.length = 110
  magic : slice header 0 6 = magic
  mode : slice header 14 8 = hexField 0o100644
  fileSize : slice header 54 8 = hexField size
  nameSize : slice header 94 8 = hexField (nameLength + 1)
  size_lt : size < 2 ^ 32
  nameLength_lt : nameLength + 1 < 2 ^ 32

variable {nameLength size mtime ino : Nat} {header : List Byte}

theorem headerFields (written : newcHeader nameLength size mtime ino = some header) :
    HeaderFields header nameLength size := by
  simp only [newcHeader, append_assoc] at written
  obtain ⟨isLength, ⟨⟩⟩ := Option.ite_none_right_eq_some.mp written
  have atLeast := fun n => (length_hexField n).ge.trans' (le_max_left 8 _)
  have zero : (hexField 0).length = 8 := by decide
  have one : (hexField 1).length = 8 := by decide
  have mode : (hexField 0o100644).length = 8 := by decide
  have text : magic.length = 6 := rfl
  have inoLength := atLeast ino
  have mtimeLength := atLeast mtime
  have sizeLength := atLeast size
  have nameLengthLength := atLeast (nameLength + 1)
  have total := isLength
  simp only [length_append, zero, one, mode, text] at total
  have exactIno : (hexField ino).length = 8 := by omega
  have exactMtime : (hexField mtime).length = 8 := by omega
  have exactSize : (hexField size).length = 8 := by omega
  have exactName : (hexField (nameLength + 1)).length = 8 := by omega
  refine ⟨isLength, @slice_of_append [] _ _ _ _ rfl text, ?_, ?_, ?_,
    lt_of_length_hexField exactSize.le, lt_of_length_hexField exactName.le⟩
  · rw [← append_assoc]
    refine slice_of_append ?_ mode
    simp only [length_append, text, exactIno]
  · iterate 6 rw [← append_assoc]
    refine slice_of_append ?_ exactSize
    simp only [length_append, text, zero, one, mode, exactIno, exactMtime]
  · iterate 11 rw [← append_assoc]
    refine slice_of_append ?_ exactName
    simp only [length_append, text, zero, one, mode, exactIno, exactMtime, exactSize]

def regularMode : BitVec 32 := 0o100644

/-- The record that the reader finds for an entry at an offset. -/
def writtenRecord (offset nameLength size : Nat) : Record :=
  ⟨offset + cpioHdrLen, nameLength + 1, size, regularMode⟩

variable {name : List Char} {data record front rest : List Byte}

theorem writeEntry_eq (written : writeEntry name data mtime ino = some record) :
    ∃ header, HeaderFields header (encode name).length data.length ∧
      record = header ++ (encode name ++ ([0] ++
        (replicate (pad4 (111 + (encode name).length) - (111 + (encode name).length)) 0 ++
          (data ++ replicate (pad4 data.length - data.length) 0)))) := by
  simp only [writeEntry, bind, Option.bind_eq_some_iff, Option.some.injEq] at written
  obtain ⟨header, writtenHeader, rfl⟩ := written
  have fields := headerFields writtenHeader
  refine ⟨header, fields, ?_⟩
  have length : (header ++ encode name ++ [0]).length = 111 + (encode name).length := by
    simp only [length_append, fields.length, length_singleton]
    omega
  rw [length]
  simp only [append_assoc]

theorem length_writeEntry (written : writeEntry name data mtime ino = some record) :
    record.length = pad4 (111 + (encode name).length) + pad4 data.length := by
  obtain ⟨header, fields, rfl⟩ := writeEntry_eq written
  have namePad := le_pad4 (111 + (encode name).length)
  have dataPad := le_pad4 data.length
  simp only [length_append, length_replicate, fields.length, length_singleton]
  omega

theorem next_writtenRecord (aligned : front.length % 4 = 0)
    (written : writeEntry name data mtime ino = some record) :
    (writtenRecord front.length (encode name).length data.length).dataStart =
        front.length + pad4 (111 + (encode name).length) ∧
      (writtenRecord front.length (encode name).length data.length).next =
        front.length + record.length := by
  have start : (writtenRecord front.length (encode name).length data.length).dataStart =
      front.length + pad4 (111 + (encode name).length) := by
    have sum : front.length + cpioHdrLen + ((encode name).length + 1) =
        front.length + (111 + (encode name).length) := by
      simp only [cpioHdrLen]
      omega
    rw [← pad4_add aligned, ← sum]
    rfl
  have padded := pad4_mod (111 + (encode name).length)
  refine ⟨start, ?_⟩
  rw [Record.next, start, pad4_add (by omega), length_writeEntry written]
  simp only [writtenRecord]
  omega

section

variable (written : writeEntry name data mtime ino = some record)

include written

theorem headerAt_written : headerAt (front ++ (record ++ rest)) front.length =
      some (writtenRecord front.length (encode name).length data.length) := by
  obtain ⟨header, fields, rfl⟩ := writeEntry_eq written
  rw [append_assoc header]
  generalize (encode name ++ _) ++ rest = tail
  have inHeader : ∀ i count, i + count ≤ 110 →
      slice (front ++ (header ++ tail)) (front.length + i) count = slice header i count := by
    intro i count inside
    rw [slice_append, slice_append_left (by rw [fields.length]; exact inside)]
  have atStart := (inHeader 0 6 (by decide)).trans fields.magic
  have inside : front.length + cpioHdrLen ≤ (front ++ (header ++ tail)).length := by
    simp only [length_append, fields.length, cpioHdrLen]
    omega
  have nameSize : (BitVec.ofNat 32 ((encode name).length + 1)).toNat = (encode name).length + 1 := by
    rw [BitVec.toNat_ofNat, Nat.mod_eq_of_lt fields.nameLength_lt]
  have fileSize : (BitVec.ofNat 32 data.length).toNat = data.length := by
    rw [BitVec.toNat_ofNat, Nat.mod_eq_of_lt fields.size_lt]
  have positive : BitVec.ofNat 32 ((encode name).length + 1) ≠ 0 := by
    intro zero
    rw [zero] at nameSize
    cases nameSize
  rw [headerAt, if_pos ⟨inside, atStart⟩, inHeader 94 8 (by decide), inHeader 54 8 (by decide),
    inHeader 14 8 (by decide), fields.nameSize, fields.fileSize, fields.mode, hexOf_hexField,
    hexOf_hexField, hexOf_hexField]
  change (if BitVec.ofNat 32 ((encode name).length + 1) = 0 then none else some _) = _
  rw [if_neg positive, nameSize, fileSize]
  rfl

theorem slices_written (aligned : front.length % 4 = 0) : let bytes := front ++ (record ++ rest)
    let read := writtenRecord front.length (encode name).length data.length
    slice bytes read.nameStart (encode name).length = encode name ∧
      bytes[read.nameStart + (encode name).length]? = some 0 ∧
      slice bytes read.dataStart data.length = data := by
  obtain ⟨start, -⟩ := next_writtenRecord aligned written
  obtain ⟨header, fields, rfl⟩ := writeEntry_eq written
  have namePad := le_pad4 (111 + (encode name).length)
  simp only [start]
  simp only [writtenRecord, append_assoc, cpioHdrLen]
  refine ⟨?_, ?_, ?_⟩
  · rw [← append_assoc front]
    refine slice_of_append ?_ rfl
    rw [length_append, fields.length]
  · rw [← append_assoc front, ← append_assoc (front ++ header)]
    have length : (front ++ header ++ encode name).length =
        front.length + 110 + (encode name).length := by
      simp only [length_append, fields.length]
    rw [← length, getElem?_append_right le_rfl, Nat.sub_self]
    rfl
  · rw [← append_assoc front, ← append_assoc (front ++ header),
      ← append_assoc (front ++ header ++ encode name),
      ← append_assoc (front ++ header ++ encode name ++ [0])]
    refine slice_of_append ?_ rfl
    simp only [length_append, fields.length, length_singleton, length_replicate]
    omega

theorem recordAt_written (noZero : (0 : Byte) ∉ encode name) (aligned : front.length % 4 = 0) :
    recordAt (front ++ (record ++ rest)) front.length =
      some (writtenRecord front.length (encode name).length data.length) := by
  have length := length_writeEntry written
  have namePad := le_pad4 (111 + (encode name).length)
  have dataPad := le_pad4 data.length
  obtain ⟨start, next⟩ := next_writtenRecord aligned written
  obtain ⟨nameSlice, nameEnds, -⟩ := @slices_written mtime ino name data record front rest written
    aligned
  rw [recordAt, headerAt_written written, Option.filter_some, if_pos]
  refine decide_eq_true ⟨?_, nameEnds, ?_, ?_, ?_⟩
  · simp only [writtenRecord, cpioHdrLen, length_append]
    omega
  · rw [show (writtenRecord front.length (encode name).length data.length).nameSize - 1 =
      (encode name).length from rfl, nameSlice]
    exact noZero
  · rw [start]
    simp only [writtenRecord, length_append]
    omega
  · rw [next]
    simp only [length_append]
    omega

end

variable {archive : Archive} {files : List File} {written : List Byte}

def readerAt (archive : Archive) (offset : Nat) : Reader := ⟨archive, offset, false⟩

theorem archive_readerAt {off : Nat} : (readerAt archive off).archive = archive := rfl

theorem outcome_readerAt {off : Nat} {record : Record} (present : archive.address ≠ 0)
    (found : recordAt archive.bytes off = some record) :
    outcome (readerAt archive off) = record.outcome (readerAt archive off) := by
  simp only [outcome, readerAt, present, if_false, Bool.false_eq_true, found]

theorem isTrailer_iff (wrote : writeEntry name data mtime ino = some record)
    (aligned : front.length % 4 = 0) :
    (writtenRecord front.length (encode name).length data.length).IsTrailer
      (front ++ (record ++ rest)) ↔ encode name ++ [0] = trailerName := by
  obtain ⟨nameSlice, nameEnds, -⟩ := @slices_written mtime ino name data record front rest wrote
    aligned
  have whole := slice_concat nameEnds
  rw [nameSlice] at whole
  have size : (writtenRecord front.length (encode name).length data.length).nameSize =
    (encode name).length + 1 := rfl
  rw [Record.IsTrailer, size]
  constructor
  · rintro ⟨eleven, same⟩
    rw [← whole, eleven]
    exact same
  intro same
  have eleven : (encode name).length + 1 = 11 := by
    have := congrArg length same
    rwa [length_append] at this
  refine ⟨eleven, ?_⟩
  rw [← eleven, whole, same]

theorem encode_trailer : encode "TRAILER!!!".toList ++ [0] = trailerName := by
  decide +kernel

def fileOf (archive : Archive) (entry : Entry) : List Byte × List Byte :=
  (spelling archive entry, (entryContents archive entry).bytes)

structure Writable (files : List File) : Prop where
  canonical : ∀ file ∈ files, Canonical file.1
  notTrailer : ∀ file ∈ files, file.1 ≠ "/TRAILER!!!".toList

theorem outcome_trailer (present : archive.address ≠ 0)
    (wrote : writeTrailer mtime ino = some written) (isSuffix : archive.bytes = front ++ written)
    (aligned : front.length % 4 = 0) : outcome (readerAt archive front.length) =
      (.done, { readerAt archive front.length with finished := true }) := by
  have bytes : archive.bytes = front ++ (written ++ []) := by
    rw [isSuffix, append_nil]
  have found := @recordAt_written mtime ino _ _ written front [] wrote (by decide +kernel) aligned
  have isTrailer := (@isTrailer_iff mtime ino _ _ written front [] wrote aligned).mpr encode_trailer
  rw [← bytes] at found isTrailer
  rw [outcome_readerAt present found, Record.outcome, archive_readerAt, if_pos isTrailer]
  rfl

theorem outcome_entry (present : archive.address ≠ 0)
    (wrote : writeEntry name data mtime ino = some record) (noZero : (0 : Byte) ∉ encode name)
    (notTrailer : name ≠ "TRAILER!!!".toList) (bytes : archive.bytes = front ++ (record ++ rest))
    (aligned : front.length % 4 = 0) : outcome (readerAt archive front.length) =
      (.entry (writtenRecord front.length (encode name).length data.length).entry,
        readerAt archive (front ++ record).length) := by
  have found := @recordAt_written mtime ino _ _ record front rest wrote noZero aligned
  have ordinary : ¬ (writtenRecord front.length (encode name).length data.length).IsTrailer
      (front ++ (record ++ rest)) := by
    rw [isTrailer_iff wrote aligned, ← encode_trailer]
    exact fun same => notTrailer (encode_injective (append_cancel_right same))
  rw [← bytes] at found ordinary
  rw [outcome_readerAt present found, Record.outcome, archive_readerAt,
    if_neg ordinary, (next_writtenRecord aligned wrote).2, length_append]
  rfl

theorem fileOf_entry (wrote : writeEntry name data mtime ino = some record)
    (noZero : (0 : Byte) ∉ encode name) (bytes : archive.bytes = front ++ (record ++ rest))
    (aligned : front.length % 4 = 0) :
    fileOf archive (writtenRecord front.length (encode name).length data.length).entry =
      (encode name, data) := by
  have found := @recordAt_written mtime ino _ _ record front rest wrote noZero aligned
  obtain ⟨nameSlice, -, dataSlice⟩ := @slices_written mtime ino name data record front rest wrote
    aligned
  have isRecord := isRecord_of_recordAt found
  refine Prod.ext ?_ ?_
  · exact (congrArg (fun bytes : List Byte => (bytes.drop _).takeWhile (· ≠ 0)) bytes).trans
      (isRecord.name_eq.trans nameSlice)
  · exact (congrArg (slice · _ _) bytes).trans dataSlice

theorem enumerates_written (present : archive.address ≠ 0) (writable : Writable files)
    (wrote : writeFiles mtime ino files = some written) (isSuffix : archive.bytes = front ++ written)
    (aligned : front.length % 4 = 0) :
    ∃ entries, Enumerates archive (readerAt archive front.length) entries true ∧
      (∀ entry ∈ entries, entry.mode = regularMode ∧
        entry.size = (entryContents archive entry).bytes.length) ∧
      entries.map (fileOf archive) = files.map fun file => (encode (stripped file.1), file.2) := by
  induction files generalizing ino front written with
  | nil => exact ⟨[], .done (outcome_trailer present wrote isSuffix aligned), nofun, rfl⟩
  | cons file files ih =>
    obtain ⟨path, data⟩ := file
    simp only [writeFiles, bind, Option.bind_eq_some_iff, Option.some.injEq] at wrote
    obtain ⟨record, wroteFirst, others, wroteOthers, rfl⟩ := wrote
    have isCanonical := writable.canonical _ mem_cons_self
    have noZero := isCanonical.noZero_stripped
    have notTrailer : stripped path ≠ "TRAILER!!!".toList := by
      intro same
      refine writable.notTrailer _ mem_cons_self (isCanonical.eq_slash_stripped.trans ?_)
      rw [same]
      rfl
    have padded := length_writeEntry wroteFirst
    have alignedNext : (front ++ record).length % 4 = 0 := by
      have namePadded := pad4_mod (111 + (encode (path.dropWhile (· = '/'))).length)
      have dataPadded := pad4_mod data.length
      rw [length_append]
      omega
    obtain ⟨entries, enumerates, modes, sameFiles⟩ := ih
      ⟨fun file mem => writable.canonical file (mem_cons_of_mem _ mem),
        fun file mem => writable.notTrailer file (mem_cons_of_mem _ mem)⟩
      wroteOthers (by rw [isSuffix, append_assoc]) alignedNext
    have called := outcome_entry present wroteFirst noZero notTrailer isSuffix aligned
    have found := @recordAt_written mtime ino _ _ record front others wroteFirst noZero aligned
    have sameFile := fileOf_entry wroteFirst noZero isSuffix aligned
    rw [← isSuffix] at found
    refine ⟨_, .entry rfl called (loadString_of_isRecord (isRecord_of_recordAt found)) enumerates,
      ?_, ?_⟩
    · rintro entry (_ | ⟨_, mem⟩)
      · exact ⟨rfl, congrArg length (congrArg Prod.snd sameFile).symm⟩
      · exact modes entry mem
    · rw [map_cons, sameFiles, sameFile]
      rfl

variable {reader : Reader}

theorem calls_of_enumerates {entries : List Entry} {ends : Bool}
    (enumerates : Enumerates archive reader entries ends) (isDone : ends = true) :
    ∃ last, calls (entries.length + 1) reader = .ok (entries.map .entry ++ [.done], last) := by
  induction enumerates with
  | done called => exact ⟨_, calls_succ called rfl⟩
  | bad => cases isDone
  | entry _ called _ _ ih =>
    obtain ⟨last, others⟩ := ih isDone
    exact ⟨last, calls_succ called others⟩

theorem entriesFrom_of_enumerates {entries : List Entry} {ends : Bool}
    {fuel : Nat} (enumerates : Enumerates archive reader entries ends)
    (enough : (entriesFrom fuel reader).length < fuel) : entriesFrom fuel reader = entries := by
  induction enumerates generalizing fuel with
  | done called | bad called =>
    cases fuel with
    | zero => rfl
    | succ fuel => rw [entriesFrom, called]
  | entry _ called _ _ ih =>
    cases fuel with
    | zero => cases enough
    | succ fuel =>
      rw [entriesFrom, called] at enough ⊢
      exact congrArg _ (ih (Nat.lt_of_succ_lt_succ enough))

theorem cpioReaderInit_of_recordAt {record : Record} (present : archive.address ≠ 0)
    (placed : archive.address.toNat ≤ uintptrMax - archive.size)
    (found : recordAt archive.bytes 0 = some record) :
    cpioReaderInit archive = .ok (some (readerAt archive 0)) := by
  have isRecord := isRecord_of_recordAt found
  have inside := isRecord.fits.name
  have starts := isRecord.nameStart
  have positive := isRecord.positive
  obtain ⟨header, -⟩ := Option.filter_eq_some_iff.mp found
  have isMagic : slice archive.bytes 0 6 = magic := by
    obtain ⟨starts, header⟩ := Option.ite_none_right_eq_some.mp header
    exact starts.2
  have long : cpioHdrLen + 1 ≤ archive.bytes.length := by omega
  have textLength : 0 + magic.length ≤ archive.bytes.length := by
    exact (show 0 + magic.length ≤ 111 by decide).trans long
  rw [cpioReaderInit, if_neg, loadsText_eq textLength]
  · exact congrArg Except.ok (if_pos (decide_eq_true isMagic))
  simp only [View.size] at placed ⊢
  rintro (absent | outside)
  · exact present absent
  · omega

variable {entries : List File}

theorem filter_path {file : File} (distinct : (entries.map Prod.fst).Nodup)
    (mem : file ∈ entries) : entries.filter (fun other => other.1 = file.1) = [file] := by
  induction entries with
  | nil => cases mem
  | cons first entries ih =>
    rw [map_cons, nodup_cons] at distinct
    rcases mem_cons.mp mem with rfl | mem
    · rw [filter_cons_of_pos (by simp), filter_eq_nil_iff.mpr fun other inRest => ?_]
      rw [decide_eq_true_eq]
      exact fun same => distinct.1 (same ▸ mem_map_of_mem inRest)
    · rw [filter_cons_of_neg, ih distinct.2 mem]
      rw [decide_eq_true_eq]
      exact fun same => distinct.1 (same ▸ mem_map_of_mem mem)

structure Listed (archive : Archive) (files : List File) : Prop where
  opened : cpioReaderInit archive = .ok (some (readerAt archive 0))
  enumerates : Enumerates archive (readerAt archive 0) (BootFiles.entries archive) true
  enough : (BootFiles.entries archive).length < archive.size + 1
  regular : ∀ entry ∈ BootFiles.entries archive, entry.mode = regularMode ∧
    entry.size = (entryContents archive entry).bytes.length
  files : (BootFiles.entries archive).map (fileOf archive) =
    files.map fun file => (encode (stripped file.1), file.2)

theorem listed_of_writeFiles (present : archive.address ≠ 0)
    (placed : archive.address.toNat ≤ uintptrMax - archive.size) (writable : Writable files)
    (wrote : writeFiles mtime ino files = some archive.bytes) : Listed archive files := by
  obtain ⟨entries, enumerates, regular, sameFiles⟩ :=
    @enumerates_written mtime ino [] archive files archive.bytes present writable wrote rfl rfl
  obtain ⟨enough, -⟩ := @enumerates_entriesFrom (readerAt archive 0) (archive.size + 1) rfl
    (Nat.zero_le _) (Nat.lt_of_lt_of_eq (Nat.lt_succ_self archive.size) (Nat.zero_add _).symm)
  have same : BootFiles.entries archive = entries := entriesFrom_of_enumerates enumerates enough
  have opened : cpioReaderInit archive = .ok (some (readerAt archive 0)) := by
    cases found : recordAt archive.bytes 0 with
    | some record => exact cpioReaderInit_of_recordAt present placed found
    | none =>
      have called : outcome (readerAt archive 0) = (.bad, readerAt archive 0) := by
        simp only [outcome, readerAt, present, if_false, Bool.false_eq_true, found]
      cases enumerates with
      | done isDone => cases called.symm.trans isDone
      | entry _ isEntry => cases called.symm.trans isEntry
  exact ⟨opened, same ▸ enumerates, enough, same ▸ regular, same ▸ sameFiles⟩

namespace Listed

variable (listed : Listed archive files)

include listed

theorem bootFilesFromCpio_eq (small : archive.size ≤ 0x7fffffff) (present : archive.address ≠ 0)
    (placed : archive.address.toNat ≤ uintptrMax - archive.size) (writable : Writable files) :
    bootFilesFromCpio archive = .ok (some (.cpio archive)) := by
  have valid : validView archive.toView = true := decide_eq_true ⟨present, small, placed⟩
  have accepted : (BootFiles.entries archive).all (acceptedEntry archive) = true := by
    refine all_eq_true.mpr fun entry mem => ?_
    have isFile : fileOf archive entry ∈ _ := mem_map_of_mem mem
    rw [listed.files, mem_map] at isFile
    obtain ⟨file, inFiles, same⟩ := isFile
    have spelled : spelling archive entry = encode (stripped file.1) := (congrArg Prod.fst same).symm
    rw [acceptedEntry, (listed.regular entry mem).1, spelled,
      (writable.canonical file inFiles).normalize_stripped]
    rfl
  rw [bootFilesFromCpio, valid, listed.opened]
  change (checkEntries (archive.size + 1) (readerAt archive 0)).bind _ = _
  rw [checkEntries_eq listed.enumerates listed.enough, accepted]
  rfl

theorem normalizedFiles_eq (writable : Writable files) :
    normalizedFiles (.cpio archive) = files.map fun file => (some (encode file.1), file.2) := by
  have allRegular : (BootFiles.entries archive).filter (fun entry => isRegular entry.mode) =
      BootFiles.entries archive := by
    refine filter_eq_self.mpr fun entry mem => ?_
    rw [(listed.regular entry mem).1]
    decide
  have spelled : regularFiles (.cpio archive) =
      files.map fun file => (encode (stripped file.1), file.2) := by
    rw [regularFiles, allRegular, ← listed.files]
    rfl
  rw [normalizedFiles, spelled, map_map]
  refine map_congr_left fun file mem => ?_
  simp only [Function.comp_apply, (writable.canonical file mem).normalize_stripped]

end Listed

theorem exactLookup_files {path : CString} {wanted : List Byte}
    (isPath : bootFileNormalize (some path.bytes) = some wanted) :
    exactLookup (files.map fun file => (some (encode file.1), file.2)) (some path) =
      match files.filter (fun file => encode file.1 = wanted) with
      | [] => .missing
      | [file] => .found (file.2, wanted)
      | _ => .invalid := by
  have matching : (files.map fun file => (some (encode file.1), file.2)).filter
      (·.1 = some wanted) = (files.filter fun file => encode file.1 = wanted).map
        fun file => (some (encode file.1), file.2) := by
    rw [filter_map]
    refine congrArg _ (filter_congr fun file _ => ?_)
    simp
  rw [exactLookup, Option.map_some, isPath]
  simp only [matching]
  generalize files.filter (fun file => encode file.1 = wanted) = found
  rcases found with _ | ⟨first, _ | ⟨second, others⟩⟩
  all_goals rfl

/-- The kernel accepts the archive of a dictionary with canonical paths, and finds in it the
files of the dictionary and no others. -/
theorem archive_round_trip {epoch : Nat}
    (canonicalPaths : ∀ file ∈ entries, ∃ name, canonical name = some file.1)
    (notTrailer : ∀ file ∈ entries, file.1 ≠ "/TRAILER!!!".toList)
    (distinct : (entries.map Prod.fst).Nodup) (wrote : build epoch entries = some archive.bytes)
    (small : archive.size ≤ 0x7fffffff) (present : archive.address ≠ 0)
    (placed : archive.address.toNat ≤ uintptrMax - archive.size) :
    bootFilesFromCpio archive = .ok (some (.cpio archive)) ∧
      (∃ (reader last : Reader) (found : List Entry), cpioReaderInit archive = .ok (some reader) ∧
        calls (entries.length + 1) reader = .ok (found.map .entry ++ [.done], last) ∧
        found.map (fileOf archive) =
          (sortedFiles entries).map fun file => (encode (stripped file.1), file.2)) ∧
      (∀ file ∈ entries, bootFileNormalize (some (encode file.1)) = some (encode file.1) ∧
        ∀ path : CString, bootFileNormalize (some path.bytes) = some (encode file.1) →
          (bootFileLookup (.cpio archive) (some path)).map Lookup.read =
            .ok (.found (file.2, encode file.1))) ∧
      ∀ (path : CString) (wanted : List Byte), bootFileNormalize (some path.bytes) = some wanted →
        (∀ file ∈ entries, encode file.1 ≠ wanted) →
        (bootFileLookup (.cpio archive) (some path)).map Lookup.read = .ok .missing := by
  have permuted : (sortedFiles entries).Perm entries := perm_insertionSort _ _
  have writable : Writable (sortedFiles entries) := by
    refine ⟨fun file mem => ?_, fun file mem => notTrailer file (permuted.mem_iff.mp mem)⟩
    obtain ⟨name, accepted⟩ := canonicalPaths file (permuted.mem_iff.mp mem)
    exact canonical_of_some accepted
  have listed : Listed archive (sortedFiles entries) := by
    obtain ⟨-, wrote⟩ := Option.ite_none_right_eq_some.mp wrote
    exact listed_of_writeFiles present placed writable wrote
  have accepted := listed.bootFilesFromCpio_eq small present placed writable
  have normalized := listed.normalizedFiles_eq writable
  have distinctSorted := (permuted.map Prod.fst).nodup_iff.mpr distinct
  have lookup := fun path => read_bootFileLookup (.cpio accepted) path
  refine ⟨accepted, ?_, fun file mem => ⟨?_, fun path isPath => ?_⟩,
    fun path wanted isPath absent => ?_⟩
  · obtain ⟨last, called⟩ := calls_of_enumerates listed.enumerates rfl
    have count : (BootFiles.entries archive).length = entries.length := by
      rw [← length_map (fileOf archive), listed.files, length_map, permuted.length_eq]
    rw [count] at called
    exact ⟨_, last, _, listed.opened, called, listed.files⟩
  · obtain ⟨name, isCanonical⟩ := canonicalPaths file mem
    exact (canonical_of_some isCanonical).normalize_encode
  · have matching : (sortedFiles entries).filter (fun other => encode other.1 = encode file.1) =
        [file] := by
      rw [← filter_path distinctSorted (permuted.mem_iff.mpr mem)]
      refine filter_congr fun other _ => decide_eq_decide.mpr ?_
      exact ⟨fun same => encode_injective same, fun same => same ▸ rfl⟩
    rw [lookup, normalized, exactLookup_files isPath, matching]
  · have matching : (sortedFiles entries).filter (fun file => encode file.1 = wanted) = [] := by
      refine filter_eq_nil_iff.mpr fun file mem => ?_
      rw [decide_eq_true_eq]
      exact absent file (permuted.mem_iff.mp mem)
    rw [lookup, normalized, exactLookup_files isPath, matching]

def twoFiles : List File := [("/b".toList, [0x01, 0x02]), ("/a".toList, [0x03])]

def twoFilesBytes : List Byte := (build 0 twoFiles).getD []

theorem build_twoFiles : build 0 twoFiles = some twoFilesBytes := by
  have written : (build 0 twoFiles).isSome = true := by decide +kernel
  obtain ⟨bytes, same⟩ := Option.isSome_iff_exists.mp written
  rw [twoFilesBytes, same, Option.getD_some]

def twoFilesArchive : Archive where
  address := 0x1000
  bytes := twoFilesBytes
  fits := by decide +kernel

theorem archive_round_trip_twoFiles :
    bootFilesFromCpio twoFilesArchive = .ok (some (.cpio twoFilesArchive)) ∧
      (bootFileLookup (.cpio twoFilesArchive) (some ⟨[0x2f, 0x62], by decide⟩)).map
        Lookup.read = .ok (.found ([0x01, 0x02], [0x2f, 0x62])) := by
  have canonicalPaths : ∀ file ∈ twoFiles, canonical file.1 = some file.1 := by
    decide +kernel
  have wrote : build 0 twoFiles = some twoFilesArchive.bytes := by
    rw [build_twoFiles, twoFilesArchive]
  have roundTrip := archive_round_trip (fun file mem => ⟨_, canonicalPaths file mem⟩)
    (by decide +kernel) (by decide +kernel) wrote (by decide +kernel) (by decide)
    (by decide +kernel)
  refine ⟨roundTrip.1, (roundTrip.2.2.1 _ mem_cons_self).2 _ ?_⟩
  decide +kernel

end LaOS.Initrd
