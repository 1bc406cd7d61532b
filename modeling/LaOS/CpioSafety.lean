import LaOS.CpioReader

/-!
# Reading arbitrary archives

What `cpio_reader_next` returns is a function of the record at the offset of the
reader, and computing it reads only bytes of the archive.
-/

namespace LaOS.Cpio

open Option List WordBytes ByteBuffer

def hexStep (value : BitVec 32) (c : Byte) : Option (BitVec 32) :=
  (digitOf c).map (value <<< 4 ||| ·)

def hexOf (digits : List Byte) : Option (BitVec 32) := digits.foldlM hexStep 0

variable {bytes : List Byte} {i count : Nat}

theorem hexLoop_eq {value : BitVec 32} (inside : i + count ≤ bytes.length) :
    hexLoop bytes count i value = .ok ((slice bytes i count).foldlM hexStep value) := by
  induction count generalizing i value with
  | zero => simp [hexLoop]
  | succ count ih =>
    have first : i < bytes.length := by omega
    simp only [hexLoop, load_of_lt first, slice_succ first, foldlM_cons, hexStep, bind, Except.bind]
    cases digitOf bytes[i] with
    | none => rfl
    | some digit => exact ih (by omega)

theorem hex32_eq (inside : i + 8 ≤ bytes.length) :
    hex32 bytes i = .ok (hexOf (slice bytes i 8)) :=
  hexLoop_eq inside

structure Record where
  nameStart : Nat
  nameSize : Nat
  fileSize : Nat
  mode : BitVec 32

namespace Record

def dataStart (record : Record) : Nat := pad4 (record.nameStart + record.nameSize)

def next (record : Record) : Nat := pad4 (record.dataStart + record.fileSize)

/-- Name and data lie in the archive, and the name ends with its only zero. -/
structure Fits (record : Record) (bytes : List Byte) : Prop where
  name : record.nameStart + record.nameSize ≤ bytes.length
  ends : bytes[record.nameStart + (record.nameSize - 1)]? = some 0
  interior : (0 : Byte) ∉ slice bytes record.nameStart (record.nameSize - 1)
  data : record.dataStart + record.fileSize ≤ bytes.length
  padded : record.next ≤ bytes.length

instance (record : Record) : Decidable (record.Fits bytes) :=
  decidable_of_iff (record.nameStart + record.nameSize ≤ bytes.length ∧
    bytes[record.nameStart + (record.nameSize - 1)]? = some 0 ∧
    (0 : Byte) ∉ slice bytes record.nameStart (record.nameSize - 1) ∧
    record.dataStart + record.fileSize ≤ bytes.length ∧ record.next ≤ bytes.length)
    ⟨fun ⟨name, ends, interior, data, padded⟩ => ⟨name, ends, interior, data, padded⟩,
      fun ⟨name, ends, interior, data, padded⟩ => ⟨name, ends, interior, data, padded⟩⟩

/-- The name is `TRAILER!!!`. -/
def IsTrailer (record : Record) (bytes : List Byte) : Prop :=
  record.nameSize = 11 ∧ slice bytes record.nameStart 11 = trailerName

instance (record : Record) : Decidable (record.IsTrailer bytes) :=
  inferInstanceAs (Decidable (_ ∧ _))

def entry (record : Record) : Entry :=
  ⟨record.nameStart, record.dataStart, record.fileSize, record.mode⟩

def outcome (record : Record) (reader : Reader) : Next × Reader :=
  if record.IsTrailer reader.archive.bytes then
    if record.fileSize ≠ 0 then (.bad, reader) else (.done, { reader with finished := true })
  else (.entry record.entry, { reader with offset := record.next })

end Record

def headerAt (bytes : List Byte) (offset : Nat) : Option Record := do
  if offset + cpioHdrLen ≤ bytes.length ∧ slice bytes offset 6 = magic then
    let nameSize ← hexOf (slice bytes (offset + 94) 8)
    let fileSize ← hexOf (slice bytes (offset + 54) 8)
    let mode ← hexOf (slice bytes (offset + 14) 8)
    if nameSize = 0 then none
    else some ⟨offset + cpioHdrLen, nameSize.toNat, fileSize.toNat, mode⟩
  else none

def recordAt (bytes : List Byte) (offset : Nat) : Option Record :=
  (headerAt bytes offset).filter fun record => record.Fits bytes

def outcome (reader : Reader) : Next × Reader :=
  if reader.archive.address = 0 then (.bad, reader)
  else if reader.finished then (.done, reader)
  else
    match recordAt reader.archive.bytes reader.offset with
    | none => (.bad, reader)
    | some record => record.outcome reader

variable {reader : Reader} {off : Nat} {record : Record}

theorem le_pad4 (n : Nat) : n ≤ pad4 n := by
  rw [pad4]
  omega

theorem pad4_mod (n : Nat) : pad4 n % 4 = 0 := by
  rw [pad4]
  omega

theorem pad4_add {n m : Nat} (aligned : n % 4 = 0) : pad4 (n + m) = n + pad4 m := by
  rw [pad4, pad4]
  omega

theorem readRecord_eq {nameSize fileSize : Nat} {mode : BitVec 32} (positive : nameSize ≠ 0)
    (header : reader.offset + cpioHdrLen ≤ reader.archive.size) :
    readRecord reader nameSize fileSize mode = .ok
      (if Record.Fits ⟨reader.offset + cpioHdrLen, nameSize, fileSize, mode⟩ reader.archive.bytes
        then Record.outcome ⟨reader.offset + cpioHdrLen, nameSize, fileSize, mode⟩ reader
        else (.bad, reader)) := by
  have small := reader.archive.fits
  simp only [View.size] at header
  simp only [readRecord, View.size]
  split
  next tooLong =>
    rw [if_neg fun fits => ?_]
    have := fits.name
    simp only at this
    omega
  next nameFits =>
    have nameInside : reader.offset + cpioHdrLen + nameSize ≤ reader.archive.bytes.length := by
      omega
    have lastInside : reader.offset + cpioHdrLen + (nameSize - 1) < reader.archive.bytes.length := by
      omega
    simp only [load_of_lt lastInside, bind, Except.bind]
    split
    next notZero =>
      rw [if_neg fun fits => notZero ?_]
      have := fits.ends
      rw [getElem?_eq_getElem lastInside] at this
      exact some.inj this
    next isZero =>
      rw [loadsZero_eq (by omega)]
      simp only
      split
      next interior =>
        rw [if_neg fun fits => fits.interior (of_decide_eq_true interior)]
      next noInterior =>
        split
        next tooLarge =>
          rw [if_neg fun fits => ?_]
          have := fits.data
          simp only [Record.dataStart] at this
          omega
        next dataFits =>
          split
          next notPadded =>
            rw [if_neg fun fits => ?_]
            have := fits.padded
            simp only [Record.next, Record.dataStart] at this
            omega
          next padded =>
            have fits : Record.Fits ⟨reader.offset + cpioHdrLen, nameSize, fileSize, mode⟩
                reader.archive.bytes := by
              refine ⟨nameInside, ?_, fun interior => noInterior (decide_eq_true interior), ?_, ?_⟩
              · rw [getElem?_eq_getElem lastInside, not_not.mp isZero]
              · simp only [Record.dataStart]
                omega
              · simp only [Record.next, Record.dataStart]
                omega
            have wrapped : pad4 (pad4 (reader.offset + cpioHdrLen + nameSize) + fileSize) % 2 ^ 32 =
                pad4 (pad4 (reader.offset + cpioHdrLen + nameSize) + fileSize) :=
              Nat.mod_eq_of_lt (by omega)
            rw [if_pos fits, wrapped]
            simp only [Record.outcome, Record.IsTrailer]
            by_cases eleven : nameSize = 11
            · subst eleven
              have compared := @loadsText_eq reader.archive.bytes trailerName
                (reader.offset + cpioHdrLen) nameInside
              rw [if_pos rfl, compared]
              by_cases isTrailer : slice reader.archive.bytes (reader.offset + cpioHdrLen) 11 =
                  trailerName
              · simp only [true_and, if_pos isTrailer]
                exact if_pos (decide_eq_true isTrailer)
              · simp only [true_and, if_neg isTrailer]
                exact if_neg fun same => isTrailer (of_decide_eq_true same)
            · simp only [eleven, false_and, if_false]
              rfl

theorem cpioReaderNext_eq : cpioReaderNext reader = .ok (outcome reader) := by
  simp only [cpioReaderNext, outcome]
  split
  · rfl
  split
  · rfl
  split
  next outside =>
    have noHeader : headerAt reader.archive.bytes reader.offset = none := by
      rw [headerAt, if_neg fun inside => ?_]
      have := inside.1
      simp only [View.size] at outside
      omega
    simp only [recordAt, noHeader, filter_none]
  next inside =>
    have header : reader.offset + cpioHdrLen ≤ reader.archive.bytes.length := by
      simp only [View.size] at inside
      omega
    have read := fun i size (within : i + size ≤ cpioHdrLen) =>
      show reader.offset + i + size ≤ reader.archive.bytes.length by omega
    rw [loadsText_eq (show reader.offset + magic.length ≤ _ from read 0 6 (by decide)),
      hex32_eq (read 94 8 (by decide)), hex32_eq (read 54 8 (by decide)),
      hex32_eq (read 14 8 (by decide))]
    simp only [bind, Except.bind, recordAt, headerAt, header, true_and]
    by_cases isMagic : slice reader.archive.bytes reader.offset 6 = magic
    · have compared : slice reader.archive.bytes reader.offset magic.length = magic := isMagic
      simp only [isMagic, compared, decide_true, Bool.not_true, Bool.false_eq_true, if_false,
        if_true]
      cases hexOf (slice reader.archive.bytes (reader.offset + 94) 8) with
      | none => rfl
      | some nameSize =>
        cases hexOf (slice reader.archive.bytes (reader.offset + 54) 8) with
        | none => rfl
        | some fileSize =>
          cases hexOf (slice reader.archive.bytes (reader.offset + 14) 8) with
          | none => rfl
          | some mode =>
            simp only [bind_some]
            by_cases zero : nameSize = 0
            · simp only [zero, if_true, filter_none]
            have positive : nameSize.toNat ≠ 0 := fun same =>
              zero (BitVec.eq_of_toNat_eq same)
            rw [if_neg zero, if_neg zero, readRecord_eq positive header, filter_some]
            split
            next fits => simp only [fits, decide_true, if_true]
            next unfit => simp only [unfit, decide_false, Bool.false_eq_true, if_false]
    · have compared : slice reader.archive.bytes reader.offset magic.length ≠ magic := isMagic
      simp only [isMagic, compared, decide_false, Bool.not_false, if_true, if_false, filter_none]

namespace Entry

def nameEnd (entry : Entry) (bytes : List Byte) : Nat :=
  entry.name + ((bytes.drop entry.name).takeWhile (· ≠ 0)).length + 1

/-- The first zero of the name is the last byte of the size that the header gives for it, and
the data lies in the archive after the name. -/
structure Sound (entry : Entry) (bytes : List Byte) : Prop where
  name : (hexOf (slice bytes (entry.name - 16) 8)).map (entry.name + ·.toNat) =
    some (entry.nameEnd bytes)
  before : entry.nameEnd bytes ≤ entry.data
  data : entry.data + entry.size ≤ bytes.length

/-- The header of the second entry starts after the data of the first one. -/
def Before (first second : Entry) : Prop := first.data + first.size + cpioHdrLen ≤ second.name

end Entry

def entriesOf : List Next → List Entry
  | [] => []
  | .entry entry :: results => entry :: entriesOf results
  | .done :: results => entriesOf results
  | .bad :: results => entriesOf results

structure IsRecord (bytes : List Byte) (offset : Nat) (record : Record) : Prop where
  nameStart : record.nameStart = offset + cpioHdrLen
  nameSize : (hexOf (slice bytes (offset + 94) 8)).map BitVec.toNat = some record.nameSize
  positive : record.nameSize ≠ 0
  fits : record.Fits bytes

theorem isRecord_of_recordAt (found : recordAt bytes off = some record) :
    IsRecord bytes off record := by
  obtain ⟨header, fits⟩ := filter_eq_some_iff.mp found
  obtain ⟨-, header⟩ := ite_none_right_eq_some.mp header
  simp only [bind, bind_eq_some_iff] at header
  obtain ⟨nameSize, sizeEq, fileSize, -, mode, -, header⟩ := header
  obtain ⟨positive, ⟨⟩⟩ := ite_none_left_eq_some.mp header
  exact ⟨rfl, by rw [sizeEq, map_some], fun zero => positive (BitVec.eq_of_toNat_eq zero),
    of_decide_eq_true fits⟩

inductive NextEffect (reader : Reader) : Next × Reader → Prop
  | entry {record : Record} (isRecord : IsRecord reader.archive.bytes reader.offset record) :
      NextEffect reader (.entry record.entry, { reader with offset := record.next })
  | done : NextEffect reader (.done, { reader with finished := true })
  | bad : NextEffect reader (.bad, reader)

theorem outcome_effect (reader : Reader) : NextEffect reader (outcome reader) := by
  rw [outcome]
  split
  · exact .bad
  split
  next isFinished =>
    have same : reader = { reader with finished := true } := by
      rw [← isFinished]
    rw [same]
    exact .done
  split
  next => exact .bad
  next record found =>
    rw [Record.outcome]
    split
    · split
      · exact .bad
      · exact .done
    · exact .entry (isRecord_of_recordAt found)

namespace IsRecord

variable (isRecord : IsRecord bytes off record)

include isRecord

theorem name_eq : (bytes.drop record.nameStart).takeWhile (· ≠ 0) =
    slice bytes record.nameStart (record.nameSize - 1) := by
  rw [drop_eq_slice_append isRecord.fits.ends, takeWhile_append_of_pos fun byte mem => ?_]
  · simp
  · exact decide_eq_true fun zero => isRecord.fits.interior (zero ▸ mem)

theorem nameEnd_entry : record.entry.nameEnd bytes = record.nameStart + record.nameSize := by
  have positive := isRecord.positive
  have length := length_slice (show record.nameStart + (record.nameSize - 1) ≤ bytes.length by
    have := isRecord.fits.name
    omega)
  simp only [Entry.nameEnd, Record.entry]
  rw [isRecord.name_eq, length]
  omega

theorem sound : record.entry.Sound bytes where
  name := by
    have size := isRecord.nameSize
    have place : record.entry.name - 16 = off + 94 := by
      simp only [Record.entry, isRecord.nameStart, cpioHdrLen]
      omega
    rw [isRecord.nameEnd_entry, place]
    obtain ⟨value, found, valueEq⟩ := map_eq_some_iff.mp size
    rw [found, map_some, valueEq]
    rfl
  before := by
    rw [isRecord.nameEnd_entry]
    exact le_pad4 _
  data := isRecord.fits.data

theorem grows (aligned : off % 4 = 0) : off + 112 ≤ record.next := by
  have start := isRecord.nameStart
  have positive := isRecord.positive
  have header : cpioHdrLen = 110 := rfl
  have dataStart := le_pad4 (record.dataStart + record.fileSize)
  simp only [Record.next, Record.dataStart, pad4] at dataStart ⊢
  omega

end IsRecord

variable {result : Next} {results : List Next} {after last : Reader}

theorem calls_succ (called : outcome reader = (result, after))
    (others : calls count after = .ok (results, last)) :
    calls (count + 1) reader = .ok (result :: results, last) := by
  rw [calls, cpioReaderNext_eq, called]
  change (calls count after).bind _ = _
  rw [others]
  rfl

theorem calls_of_unchanged (settled : outcome reader = (result, reader)) :
    calls count reader = .ok (replicate count result, reader) := by
  induction count with
  | zero => rfl
  | succ count ih => exact calls_succ settled ih

/-- What holds of the results of a number of calls that start at an offset. -/
structure Reading (archive : Archive) (start : Nat) (results : List Next) (last : Reader) :
    Prop where
  same : last.archive = archive
  aligned : last.offset % 4 = 0
  inside : last.offset ≤ archive.size
  grows : start + 112 * (entriesOf results).length ≤ last.offset
  sound : ∀ entry ∈ entriesOf results, entry.Sound archive.bytes
  later : ∀ entry ∈ entriesOf results, start + cpioHdrLen ≤ entry.name
  apart : (entriesOf results).Pairwise Entry.Before

theorem Reading.entry {archive : Archive} (reading : Reading archive record.next results last)
    (isRecord : IsRecord archive.bytes off record) (aligned : off % 4 = 0) :
    Reading archive off (.entry record.entry :: results) last := by
  have grown := isRecord.grows aligned
  refine ⟨reading.same, reading.aligned, reading.inside, ?_, ?_, ?_, ?_⟩
  · have := reading.grows
    simp only [entriesOf, length_cons]
    omega
  · rintro entry (_ | ⟨_, mem⟩)
    · exact isRecord.sound
    · exact reading.sound entry mem
  · rintro entry (_ | ⟨_, mem⟩)
    · exact isRecord.nameStart.ge
    · have := reading.later entry mem
      omega
  · refine pairwise_cons.mpr ⟨fun entry mem => ?_, reading.apart⟩
    have dataEnd : record.dataStart + record.fileSize ≤ record.next := le_pad4 _
    have := reading.later entry mem
    simp only [Entry.Before, Record.entry]
    omega

theorem reading_calls (aligned : reader.offset % 4 = 0)
    (inside : reader.offset ≤ reader.archive.size) (count : Nat) :
    ∃ results last, calls count reader = .ok (results, last) ∧
      Reading reader.archive reader.offset results last := by
  induction count generalizing reader with
  | zero => exact ⟨[], reader, rfl, rfl, aligned, inside, by simp [entriesOf], nofun, nofun, .nil⟩
  | succ count ih =>
    have effect := outcome_effect reader
    generalize called : outcome reader = result at effect
    cases effect with
    | @entry record isRecord =>
      obtain ⟨results, last, others, reading⟩ :=
        @ih { reader with offset := record.next } (pad4_mod _) isRecord.fits.padded
      exact ⟨_, last, calls_succ called others, reading.entry isRecord aligned⟩
    | done =>
      obtain ⟨results, last, others, reading⟩ := @ih { reader with finished := true } aligned inside
      exact ⟨_, last, calls_succ called others, { reading with }⟩
    | bad =>
      obtain ⟨results, last, others, reading⟩ := ih aligned inside
      exact ⟨_, last, calls_succ called others, { reading with }⟩

def Progress (reader : Reader) : Next × Reader → Prop
  | (.entry _, after) => reader.offset + 112 ≤ after.offset ∧ after.offset % 4 = 0
  | (.done, after) => ∀ count, calls count after = .ok (List.replicate count .done, after)
  | (.bad, after) => after = reader ∧
      ∀ count, calls count reader = .ok (List.replicate count .bad, reader)

theorem outcome_finished (isFinished : reader.finished = true)
    (present : reader.archive.address ≠ 0) : outcome reader = (.done, reader) := by
  rw [outcome, if_neg present, if_pos isFinished]

theorem progress_outcome (aligned : reader.offset % 4 = 0)
    (present : reader.archive.address ≠ 0) : Progress reader (outcome reader) := by
  have effect := outcome_effect reader
  generalize called : outcome reader = result at effect
  cases effect with
  | entry isRecord => exact ⟨isRecord.grows aligned, pad4_mod _⟩
  | done => exact fun count => calls_of_unchanged (outcome_finished rfl present)
  | bad => exact ⟨rfl, fun count => calls_of_unchanged called⟩

theorem cpioReaderInit_cases (archive : Archive) : cpioReaderInit archive = .ok none ∨
      archive.address ≠ 0 ∧ cpioReaderInit archive = .ok (some ⟨archive, 0, false⟩) := by
  rw [cpioReaderInit]
  split
  next => exact .inl rfl
  next accepted =>
    have header : cpioHdrLen + 1 = 111 := rfl
    simp only [not_or, View.size] at accepted
    have textLength : magic.length = 6 := rfl
    rw [loadsText_eq (show 0 + magic.length ≤ archive.bytes.length by omega)]
    change Except.ok (if _ then _ else _) = _ ∨ _ ∧ Except.ok (if _ then _ else _) = _
    split
    · exact .inr ⟨accepted.1, rfl⟩
    · exact .inl rfl

/-- The reader reads only bytes of the archive, the entries lie in it without overlap, each call
makes progress, and the last result is final. -/
theorem hostile_archive (archive : Archive) : ∃ opened, cpioReaderInit archive = .ok opened ∧
      ∀ reader, opened = some reader → ∀ count, ∃ results last,
        calls count reader = .ok (results, last) ∧ Reading archive 0 results last ∧
        (entriesOf results).length ≤ archive.size / 112 ∧
        ∃ outcome, cpioReaderNext last = .ok outcome ∧ Progress last outcome := by
  rcases cpioReaderInit_cases archive with rejected | ⟨present, accepted⟩
  · exact ⟨none, rejected, nofun⟩
  refine ⟨_, accepted, ?_⟩
  rintro reader ⟨⟩ count
  obtain ⟨results, last, called, reading⟩ :=
    @reading_calls ⟨archive, 0, false⟩ rfl (Nat.zero_le _) count
  refine ⟨results, last, called, reading, ?_, _, cpioReaderNext_eq, ?_⟩
  · have grows : 0 + 112 * (entriesOf results).length ≤ last.offset := reading.grows
    have inside : last.offset ≤ archive.size := reading.inside
    rw [Nat.le_div_iff_mul_le (by decide)]
    omega
  · refine progress_outcome reading.aligned ?_
    rw [reading.same]
    exact present

end LaOS.Cpio
