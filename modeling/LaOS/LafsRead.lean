import LaOS.Lafs

/-!
# Reading files

`lafs_read` reads the data blocks into the buffer that holds the inode, so every block
pointer after the first is taken from the data read last.
-/

namespace LaOS.Lafs

open List

/-- The loop of `lafs_read`: the bytes it stores, and whether a sector could not be read. -/
def readLoop (disk : Disk) (place : Nat) : Nat → Sector → Nat → Nat → List Byte → List Byte × Bool
  | 0, _, _, _, stored => (stored, false)
  | fuel + 1, gSec, offset, len, stored =>
    if stored.length < len then
      let blkIdx := offset / 512
      let blkOff := offset % 512
      if blkIdx ≥ blocksMax then (stored, false)
      else
        let blkSec := pointerAt gSec place blkIdx
        if blkSec = 0 then (stored, false)
        else
          match disk blkSec with
          | none => (stored, true)
          | some sector =>
            let chunk := min (512 - blkOff) (len - stored.length)
            readLoop disk place fuel sector (offset + chunk) len
              (stored ++ ((bytes sector).drop blkOff).take chunk)
    else (stored, false)

/-- `lafs_read`: the result and the bytes stored in `buf`, in at most one round more than there
are block pointers. -/
def lafsRead (disk : Disk) (mounted : Option Fs) (ino offset len : BitVec 32) : Int × List Byte :=
  match mounted with
  | none => (-1, [])
  | some fs =>
    if len = 0 then (0, [])
    else
      match readInodeRaw disk fs ino with
      | none => (-1, [])
      | some (gSec, place) =>
        if typeAt gSec place ≠ 1 then (-1, [])
        else if offset.toNat ≥ sizeAt gSec place then (0, [])
        else
          let wanted :=
            if (offset + len).toNat > sizeAt gSec place then sizeAt gSec place - offset.toNat
            else len.toNat
          let (stored, failed) := readLoop disk place (blocksMax + 1) gSec offset.toNat wanted []
          if failed ∧ stored = [] then (-1, stored) else (stored.length, stored)

variable {img : Nat → Sector} {fs : Fs} {place : Nat} {gSec : Sector} {stored : List Byte}

theorem readLoop_full {disk : Disk} {fuel : Nat} {off len : Nat} (full : len ≤ stored.length) :
    readLoop disk place fuel gSec off len stored = (stored, false) := by
  cases fuel with
  | zero => rfl
  | succ fuel =>
    unfold readLoop
    rw [if_neg (by omega)]

theorem readLoop_eq {fuel : Nat} {off len : Nat} (enough : blocksMax < fuel + off / 512) :
    readLoop (readable img) place fuel gSec off len stored =
      (stored ++ ((((follow img place gSec (blocksMax - off / 512)).flatMap bytes).drop
        (off % 512)).take (len - stored.length)), false) := by
  induction fuel generalizing gSec off stored with
  | zero =>
    have none : blocksMax - off / 512 = 0 := by omega
    rw [none]
    simp only [readLoop, follow, flatMap_nil, drop_nil, take_nil, append_nil]
  | succ fuel ih =>
    unfold readLoop
    by_cases more : stored.length < len
    · rw [if_pos more]
      by_cases behind : off / 512 ≥ blocksMax
      · have none : blocksMax - off / 512 = 0 := by omega
        simp only [none, if_pos behind, follow, flatMap_nil, drop_nil, take_nil, append_nil]
      obtain ⟨left, leftEq⟩ : ∃ left, blocksMax - off / 512 = left + 1 :=
        ⟨blocksMax - off / 512 - 1, by omega⟩
      have block : blocksMax - (left + 1) = off / 512 := by omega
      simp only [if_neg behind, leftEq, follow, block]
      by_cases null : pointerAt gSec place (off / 512) = 0
      · simp only [if_pos null, flatMap_nil, drop_nil, take_nil, append_nil]
      simp only [if_neg null, readable, flatMap_cons]
      have tailLength : ∀ sector, ((bytes sector).drop (off % 512)).length =
          512 - off % 512 := by
        intro sector
        rw [length_drop, length_bytes]
      rw [drop_append_of_le_length (by rw [length_bytes]; omega)]
      by_cases last : len - stored.length ≤ 512 - off % 512
      · rw [Nat.min_eq_right last, take_append_of_le_length (by rwa [tailLength])]
        refine readLoop_full ?_
        rw [length_append, length_take, tailLength]
        omega
      have nextBlock : (off + (512 - off % 512)) / 512 = off / 512 + 1 := by omega
      have nextStart : (off + (512 - off % 512)) % 512 = 0 := by omega
      have leftNext : blocksMax - (off / 512 + 1) = left := by omega
      have whole : ∀ sector, ∀ count ≥ 512 - off % 512,
          ((bytes sector).drop (off % 512)).take count = (bytes sector).drop (off % 512) :=
        fun sector count enough => take_of_length_le (by rwa [tailLength])
      have copied : len - stored.length - (512 - off % 512) =
          len - (stored.length + (512 - off % 512)) := by omega
      rw [Nat.min_eq_left (by omega), whole _ _ (Nat.le_refl _), ih (by omega), nextBlock,
        nextStart, leftNext, drop_zero, length_append, tailLength,
        append_assoc, take_append, tailLength, copied, whole _ _ (by omega)]
    · rw [if_neg more, Nat.sub_eq_zero_of_le (by omega), take_zero, append_nil]

/-- The numbers of the sectors that are taken one after the other, were none of them null. -/
def reached (img : Nat → Sector) (place : Nat) (gSec : Sector) (first : Nat) : Nat → Nat
  | 0 => pointerAt gSec place first
  | step + 1 => pointerAt (img (reached img place gSec first step)) place (first + (step + 1))

theorem reached_succ {first step : Nat} : reached img place gSec first (step + 1) =
    reached img place (img (pointerAt gSec place first)) (first + 1) step := by
  induction step with
  | zero => rfl
  | succ step ih => rw [reached, ih, reached, Nat.add_assoc first 1, Nat.add_comm 1]

theorem getElem?_follow {left step : Nat} (bounded : left ≤ blocksMax) :
    (follow img place gSec left)[step]? =
      if step < left ∧ ∀ earlier ≤ step, reached img place gSec (blocksMax - left) earlier ≠ 0
      then some (img (reached img place gSec (blocksMax - left) step)) else none := by
  induction left generalizing gSec step with
  | zero => simp [follow]
  | succ left ih =>
    have next : blocksMax - left = blocksMax - (left + 1) + 1 := by omega
    simp only [follow]
    by_cases null : pointerAt gSec place (blocksMax - (left + 1)) = 0
    · rw [if_pos null, getElem?_nil, if_neg]
      rintro ⟨-, notNull⟩
      exact notNull 0 (Nat.zero_le step) null
    rw [if_neg null]
    cases step with
    | zero =>
      rw [if_pos]
      · rfl
      · refine ⟨Nat.succ_pos left, fun earlier isZero => ?_⟩
        rw [Nat.le_zero.mp isZero]
        exact null
    | succ step =>
      have sameCondition : (step < left ∧ ∀ earlier ≤ step,
          reached img place gSec (blocksMax - (left + 1)) (earlier + 1) ≠ 0) ↔
          (step + 1 < left + 1 ∧ ∀ earlier ≤ step + 1,
            reached img place gSec (blocksMax - (left + 1)) earlier ≠ 0) := by
        refine and_congr Nat.succ_lt_succ_iff.symm ⟨?_, ?_⟩
        · rintro notNull (_ | earlier) within
          · exact null
          · exact notNull earlier (Nat.le_of_succ_le_succ within)
        · exact fun notNull earlier within => notNull (earlier + 1) (Nat.succ_le_succ within)
      rw [getElem?_cons_succ, ih (by omega), next, ← if_congr sameCondition rfl rfl]
      simp only [reached_succ]

theorem getElem?_flatMap_bytes {sectors : List Sector} {pos : Nat} :
    (sectors.flatMap bytes)[pos]? = sectors[pos / 512]?.map (· (pos % 512)) := by
  induction sectors generalizing pos with
  | nil => simp
  | cons sector sectors ih =>
    rw [flatMap_cons]
    by_cases inside : pos < 512
    · rw [getElem?_append_left (by rwa [length_bytes]), Nat.div_eq_of_lt inside,
        Nat.mod_eq_of_lt inside]
      simp [bytes, inside]
    · obtain ⟨rest, rfl⟩ := Nat.exists_eq_add_of_le (Nat.not_lt.mp inside)
      rw [getElem?_append_right (by rw [length_bytes]; omega), length_bytes,
        Nat.add_sub_cancel_left, ih, Nat.add_div_left _ (by decide), Nat.add_mod_left]
      rfl

theorem pointerAt_congr {sector other : Sector} {block : Nat} (inSector : place ≤ 384)
    (isBlock : block < blocksMax) (same : ∀ i < 512, sector i = other i) :
    pointerAt sector place block = pointerAt other place block := by
  have small : block < 20 := isBlock
  simp only [pointerAt, rd32]
  rw [same _ (by omega), same _ (by omega), same _ (by omega), same _ (by omega)]

section Image

variable (img : Nat → Sector) (fs : Fs) (ino off len : BitVec 32)

def requestedBytes : List Byte :=
  ((blockBytes img fs ino.toNat).drop off.toNat).take
    (min len.toNat (inodeLength img fs ino.toNat - off.toNat))

/-- The number of bytes that the loop runs for; the sum of offset and length is taken in 32
bits. -/
def wantedCount (gSec : Sector) (place : Nat) : Nat :=
  if off.toNat ≥ sizeAt gSec place then 0
  else if (off + len).toNat > sizeAt gSec place then sizeAt gSec place - off.toNat
  else len.toNat

/-- The bytes of the sectors that are reached from the inode at a place of a sector. -/
def followedBytes (gSec : Sector) (place : Nat) : List Byte :=
  (((follow img place gSec (blocksMax - off.toNat / 512)).flatMap bytes).drop
    (off.toNat % 512)).take (wantedCount off len gSec place)

def requestedCount : Nat := min len.toNat (inodeLength img fs ino.toNat - off.toNat)

def requestEnd : Nat := off.toNat + requestedCount img fs ino off len

/-- Where the pointer to a block is taken from: the inode, whose number counts modulo `2 ^ 25`,
for the first block of the read, and the block before for the others. -/
def pointerSource (block : Nat) : Sector :=
  if block = off.toNat / 512 then inodeSector img fs (ino.toNat % 2 ^ 25)
  else img (blockPointer img fs
    (if block = off.toNat / 512 + 1 then ino.toNat % 2 ^ 25 else ino.toNat) (block - 1))

def takenPointer (block : Nat) : Nat :=
  pointerAt (pointerSource img fs ino off block) (inodePlace ino.toNat) block

/-- The bytes of the file between the offset and `stop` are found through the given pointers. -/
def Agrees (pointer : Nat → Nat) (stop : Nat) : Prop :=
  ∀ pos, off.toNat ≤ pos → pos < stop → pointer (pos / 512) ≠ 0 ∧
    img (pointer (pos / 512)) (pos % 512) =
      img (blockPointer img fs ino.toNat (pos / 512)) (pos % 512)

/-- A read that runs too far ends behind the file: in front of a block without a pointer. -/
@[mk_iff]
structure EndsAt (pointer : Nat → Nat) (stop : Nat) : Prop where
  boundary : stop = off.toNat ∨ stop % 512 = 0
  null : blocksMax ≤ stop / 512 ∨ pointer (stop / 512) = 0

/-- Every block before another one that is asked for holds, where the inode has it, a pointer to
the same data, and the read ends where it has to: by its count, or because there is no further
pointer. -/
structure Chained : Prop where
  regular : inodeType img fs (ino.toNat % 2 ^ 25) = 1
  agrees : Agrees img fs ino off (takenPointer img fs ino off)
    (requestEnd img fs ino off len)
  ends : (min len.toNat (inodeLength img fs (ino.toNat % 2 ^ 25) - off.toNat) =
        requestedCount img fs ino off len ∧
      (requestedCount img fs ino off len = 0 ∨ off.toNat + len.toNat < 2 ^ 32)) ∨
    (off.toNat < inodeLength img fs (ino.toNat % 2 ^ 25) ∧
      (requestedCount img fs ino off len <
          min len.toNat (inodeLength img fs (ino.toNat % 2 ^ 25) - off.toNat) ∨
        2 ^ 32 ≤ off.toNat + len.toNat)) ∧
      EndsAt off (takenPointer img fs ino off) (requestEnd img fs ino off len)

/-- The result and the buffer are those of the file. -/
def ReadsFile : Prop :=
  (lafsRead (readable img) (some fs) ino off len).1 =
      max 0 (min (len.toNat : Int) (inodeLength img fs ino.toNat - off.toNat)) ∧
    (lafsRead (readable img) (some fs) ino off len).2 =
      requestedBytes img fs ino off len

end Image

section Reads

variable {ino off len : BitVec 32}

theorem length_requestedBytes (off len : BitVec 32)
    (wellFormed : WellFormed img fs 1 ino.toNat) :
    ((requestedBytes img fs ino off len).length : Int) =
      max 0 (min (len.toNat : Int) (inodeLength img fs ino.toNat - off.toNat)) := by
  have length := wellFormed.length
  unfold requestedBytes
  rw [length_take, length_drop, length_blockBytes]
  omega

theorem lafsRead_eq (positive : len ≠ 0)
    (found : readInodeRaw (readable img) fs ino = some (gSec, place))
    (regular : typeAt gSec place = 1) : lafsRead (readable img) (some fs) ino off len =
      (((followedBytes img off len gSec place).length : Int),
        followedBytes img off len gSec place) := by
  unfold lafsRead followedBytes wantedCount
  simp only [if_neg positive, found, regular]
  rw [if_neg (not_not.mpr rfl)]
  by_cases behind : off.toNat ≥ sizeAt gSec place
  · rw [if_pos behind, if_pos behind]
    rfl
  · rw [if_neg behind, if_neg behind, readLoop_eq (by omega)]
    simp only [nil_append, length_nil, Nat.sub_zero]
    rw [if_neg fun both => Bool.false_ne_true both.1]

theorem lafsRead_not_regular (positive : len ≠ 0)
    (found : readInodeRaw (readable img) fs ino = some (gSec, place))
    (notRegular : typeAt gSec place ≠ 1) :
    lafsRead (readable img) (some fs) ino off len = (-1, []) := by
  unfold lafsRead
  simp only [if_neg positive, found, if_pos notRegular]

theorem getElem?_followedBytes {i : Nat} :
    (followedBytes img off len gSec place)[i]? =
      if i < wantedCount off len gSec place ∧ (off.toNat + i) / 512 < blocksMax ∧
        ∀ step ≤ (off.toNat + i) / 512 - off.toNat / 512,
          reached img place gSec (off.toNat / 512) step ≠ 0
      then some (img (reached img place gSec (off.toNat / 512)
        ((off.toNat + i) / 512 - off.toNat / 512)) ((off.toNat + i) % 512))
      else none := by
  have stepEq : (off.toNat % 512 + i) / 512 =
      (off.toNat + i) / 512 - off.toNat / 512 := by omega
  have placeEq : (off.toNat % 512 + i) % 512 = (off.toNat + i) % 512 := by omega
  rw [followedBytes, getElem?_take, getElem?_drop, getElem?_flatMap_bytes, stepEq, placeEq,
    getElem?_follow (Nat.sub_le _ _)]
  by_cases counted : i < wantedCount off len gSec place
  · simp only [counted, if_true, true_and]
    by_cases behind : blocksMax ≤ off.toNat / 512
    · rw [if_neg fun all => by have := all.1; omega, if_neg fun all => by have := all.1; omega]
      rfl
    · have firstEq : blocksMax - (blocksMax - off.toNat / 512) = off.toNat / 512 := by omega
      have blockIff : (off.toNat + i) / 512 - off.toNat / 512 <
          blocksMax - off.toNat / 512 ↔ (off.toNat + i) / 512 < blocksMax := by omega
      rw [firstEq, if_congr (and_congr_left' blockIff) rfl rfl]
      split <;> rfl
  · rw [if_neg counted, if_neg fun all => counted all.1]

theorem getElem?_requestedBytes {i : Nat} (wellFormed : WellFormed img fs 1 ino.toNat) :
    (requestedBytes img fs ino off len)[i]? =
      if i < requestedCount img fs ino off len then
        some (img (blockPointer img fs ino.toNat ((off.toNat + i) / 512))
          ((off.toNat + i) % 512))
      else none := by
  have asSectors : blockBytes img fs ino.toNat = ((range blocksMax).map fun block =>
      img (blockPointer img fs ino.toNat block)).flatMap bytes := by
    rfl
  rw [requestedBytes, ← requestedCount, getElem?_take, getElem?_drop, asSectors,
    getElem?_flatMap_bytes]
  split
  next within =>
    have bounded := wellFormed.length
    rw [requestedCount] at within
    rw [getElem?_map, getElem?_range (by omega)]
    rfl
  next => rfl

section Chain

variable (img fs ino off)

def loopPointer (block : Nat) : Nat :=
  reached img (inodePlace ino.toNat) (inodeSector img fs (ino.toNat % 2 ^ 25))
    (off.toNat / 512) (block - off.toNat / 512)

variable {img fs ino off} {stop : Nat}

/-- The loop takes the next pointer from the data read last, which is the file's so far. -/
theorem loopPointer_eq {block : Nat} (first : off.toNat / 512 ≤ block)
    (isBlock : block < blocksMax)
    (agree : Agrees img fs ino off (loopPointer img fs ino off) (block * 512)) :
    loopPointer img fs ino off block = takenPointer img fs ino off block := by
  have inSector : inodePlace ino.toNat ≤ 384 := by
    unfold inodePlace
    omega
  obtain ⟨step, rfl⟩ := Nat.exists_eq_add_of_le first
  rw [loopPointer, takenPointer, pointerSource, Nat.add_sub_cancel_left]
  rcases step with _ | _ | step
  · rw [Nat.add_zero, if_pos rfl]
    rfl
  · rw [if_neg (by omega), if_pos rfl, Nat.add_sub_cancel, blockPointer, inodePlace_mod]
    rfl
  · rw [if_neg (by omega), if_neg (by omega), reached]
    refine pointerAt_congr inSector isBlock fun i indexLt => ?_
    have whole := agree ((off.toNat / 512 + (step + 1)) * 512 + i) (by omega) (by omega)
    have blockEq : ((off.toNat / 512 + (step + 1)) * 512 + i) / 512 =
        off.toNat / 512 + (step + 1) := by omega
    have indexEq : ((off.toNat / 512 + (step + 1)) * 512 + i) % 512 = i := by omega
    rw [blockEq, indexEq, loopPointer, Nat.add_sub_cancel_left] at whole
    exact whole.2

theorem agrees_iff (inside : ∀ pos, off.toNat ≤ pos → pos < stop → pos / 512 < blocksMax) :
    Agrees img fs ino off (loopPointer img fs ino off) stop ↔
      Agrees img fs ino off (takenPointer img fs ino off) stop := by
  constructor
  · intro agree pos above below
    have found := agree pos above below
    rwa [loopPointer_eq (Nat.div_le_div_right above) (inside pos above below)
      fun other above' below' => agree other above' (by omega)] at found
  · intro agree pos
    induction pos using Nat.strong_induction_on with
    | h pos ih =>
      intro above below
      rw [loopPointer_eq (Nat.div_le_div_right above) (inside pos above below)
        fun other above' below' => ih other (by omega) above' (by omega)]
      exact agree pos above below

/-- The read has the file's bytes exactly when the pointers lead to them and it stops behind
them. -/
theorem followedBytes_eq_iff (wellFormed : WellFormed img fs 1 ino.toNat) {wanted : Nat}
    (wantedEq : wantedCount off len (inodeSector img fs (ino.toNat % 2 ^ 25))
      (inodePlace ino.toNat) = wanted)
    (stopEq : off.toNat + requestedCount img fs ino off len = stop) :
    followedBytes img off len (inodeSector img fs (ino.toNat % 2 ^ 25))
        (inodePlace ino.toNat) = requestedBytes img fs ino off len ↔
      Agrees img fs ino off (loopPointer img fs ino off) stop ∧
      (wanted = requestedCount img fs ino off len ∨
        requestedCount img fs ino off len < wanted ∧
          EndsAt off (loopPointer img fs ino off) stop) := by
  have bounded := wellFormed.length
  have countLe : requestedCount img fs ino off len ≤
      inodeLength img fs ino.toNat - off.toNat := Nat.min_le_right _ _
  constructor
  · intro sameBytes
    have same := fun i : Nat => congrArg (·[i]?) sameBytes
    simp only [getElem?_followedBytes, getElem?_requestedBytes wellFormed, wantedEq] at same
    have inside : ∀ i < requestedCount img fs ino off len, i < wanted ∧
        (off.toNat + i) / 512 < blocksMax ∧
        (∀ step ≤ (off.toNat + i) / 512 - off.toNat / 512,
          reached img (inodePlace ino.toNat) (inodeSector img fs (ino.toNat % 2 ^ 25))
            (off.toNat / 512) step ≠ 0) ∧
        img (loopPointer img fs ino off ((off.toNat + i) / 512))
            ((off.toNat + i) % 512) =
          img (blockPointer img fs ino.toNat ((off.toNat + i) / 512))
            ((off.toNat + i) % 512) := by
      intro i within
      have found := same i
      rw [if_pos within] at found
      split at found
      next reaches => exact ⟨reaches.1, reaches.2.1, reaches.2.2, Option.some.inj found⟩
      next => cases found
    have agree : Agrees img fs ino off (loopPointer img fs ino off) stop := by
      intro pos above below
      obtain ⟨i, rfl⟩ := Nat.exists_eq_add_of_le above
      obtain ⟨-, -, notNull, found⟩ := inside i (by omega)
      exact ⟨notNull _ le_rfl, found⟩
    refine ⟨agree, ?_⟩
    have enough : requestedCount img fs ino off len ≤ wanted := by
      by_contra tooFew
      exact absurd (inside wanted (by omega)).1 (lt_irrefl wanted)
    rcases enough.eq_or_lt with isWanted | more
    · exact .inl isWanted.symm
    have stopped := same (requestedCount img fs ino off len)
    rw [if_neg (lt_irrefl _), stopEq] at stopped
    split at stopped
    next => cases stopped
    next ended =>
      refine .inr ⟨more, ?_, ?_⟩
      · by_contra inBlock
        obtain ⟨notFirst, notEnd⟩ := not_or.mp inBlock
        have last := inside (requestedCount img fs ino off len - 1) (by omega)
        have sameBlock : (off.toNat + (requestedCount img fs ino off len - 1)) / 512 =
            stop / 512 := by omega
        rw [sameBlock] at last
        exact ended ⟨by omega, last.2.1, last.2.2.1⟩
      · by_contra continues
        obtain ⟨isBlock, notNull⟩ := not_or.mp continues
        refine ended ⟨by omega, Nat.not_le.mp isBlock, fun step within => ?_⟩
        rcases within.eq_or_lt with rfl | earlier
        · exact notNull
        · have before := (agree ((off.toNat / 512 + step) * 512 + 511) (by omega) (by omega)).1
          have blockEq : ((off.toNat / 512 + step) * 512 + 511) / 512 =
              off.toNat / 512 + step := by omega
          rwa [blockEq, loopPointer, Nat.add_sub_cancel_left] at before
  · rintro ⟨agree, ends⟩
    refine ext_getElem? fun i => ?_
    rw [getElem?_followedBytes, getElem?_requestedBytes wellFormed, wantedEq]
    by_cases within : i < requestedCount img fs ino off len
    · rw [if_pos within, if_pos]
      · exact congrArg some (agree (off.toNat + i) (by omega) (by omega)).2
      · refine ⟨by omega, by omega, fun step notBehind => ?_⟩
        have found := (agree (max off.toNat ((off.toNat / 512 + step) * 512)) (by omega)
          (by omega)).1
        have blockEq : max off.toNat ((off.toNat / 512 + step) * 512) / 512 =
            off.toNat / 512 + step := by omega
        rwa [blockEq, loopPointer, Nat.add_sub_cancel_left] at found
    · rw [if_neg within, if_neg]
      rintro ⟨wantsMore, isBlock, notNull⟩
      rcases ends with isWanted | ⟨-, boundary, behind | null⟩
      · omega
      · omega
      · exact notNull (stop / 512 - off.toNat / 512) (by omega) null

/-- The count is right unless the size of the other inode or the wrap of the sum changes it. -/
theorem wanted_iff (off : BitVec 32) (wellFormed : WellFormed img fs 1 ino.toNat)
    (positive : len ≠ 0) {size : Nat} (sizeEq : sizeAt gSec place = size) :
    (wantedCount off len gSec place = requestedCount img fs ino off len ↔
        min len.toNat (size - off.toNat) = requestedCount img fs ino off len ∧
          (requestedCount img fs ino off len = 0 ∨ off.toNat + len.toNat < 2 ^ 32)) ∧
      (requestedCount img fs ino off len < wantedCount off len gSec place ↔
        off.toNat < size ∧ (requestedCount img fs ino off len <
          min len.toNat (size - off.toNat) ∨ 2 ^ 32 ≤ off.toNat + len.toNat)) := by
  have bounded : inodeLength img fs ino.toNat ≤ 10240 := wellFormed.length
  have some : len.toNat ≠ 0 := fun isZero => positive (BitVec.eq_of_toNat_eq isZero)
  have small := len.isLt
  simp only [wantedCount, requestedCount, sizeEq, BitVec.toNat_add]
  split
  · omega
  · split <;> omega

end Chain

def FollowsFile (img : Nat → Sector) (fs : Fs) (ino off len : BitVec 32) : Prop :=
  len = 0 ∨ Chained img fs ino off len

theorem chained_iff (wellFormed : WellFormed img fs 1 ino.toNat) (positive : len ≠ 0)
    (regular : inodeType img fs (ino.toNat % 2 ^ 25) = 1) :
    followedBytes img off len (inodeSector img fs (ino.toNat % 2 ^ 25))
        (inodePlace ino.toNat) = requestedBytes img fs ino off len ↔
      Chained img fs ino off len := by
  have sizeEq : sizeAt (inodeSector img fs (ino.toNat % 2 ^ 25)) (inodePlace ino.toNat) =
      inodeLength img fs (ino.toNat % 2 ^ 25) := by
    rw [inodeLength, inodePlace_mod]
  obtain ⟨exact, more⟩ := wanted_iff off wellFormed positive sizeEq
  have inside : ∀ pos, off.toNat ≤ pos → pos < requestEnd img fs ino off len →
      pos / 512 < blocksMax := by
    intro pos above below
    have bounded := wellFormed.length
    rw [requestEnd, requestedCount] at below
    omega
  have last : Agrees img fs ino off (loopPointer img fs ino off)
        (requestEnd img fs ino off len) →
      (EndsAt off (loopPointer img fs ino off) (requestEnd img fs ino off len) ↔
        EndsAt off (takenPointer img fs ino off)
          (requestEnd img fs ino off len)) := by
    intro agree
    have first : off.toNat ≤ requestEnd img fs ino off len := Nat.le_add_right _ _
    rw [endsAt_iff, endsAt_iff]
    refine and_congr_right' (or_congr_right' fun isBlock => ?_)
    rw [loopPointer_eq (Nat.div_le_div_right first) (Nat.not_le.mp isBlock)
      fun other above below => agree other above (below.trans_le (Nat.div_mul_le_self _ 512))]
  rw [followedBytes_eq_iff wellFormed rfl rfl, exact, more, ← requestEnd]
  constructor
  · rintro ⟨agree, ends⟩
    rw [last agree] at ends
    exact ⟨regular, (agrees_iff inside).mp agree, ends⟩
  · rintro ⟨-, agree, ends⟩
    have agreeLoop := (agrees_iff inside).mpr agree
    rw [← last agreeLoop] at ends
    exact ⟨agreeLoop, ends⟩

/-- A read is correct exactly when it is empty or the data leads from each block to the next. -/
theorem lafsRead_correct_iff (img : Nat → Sector) (fs : Fs) (ino off len : BitVec 32)
    (wellFormed : WellFormed img fs 1 ino.toNat) :
    ReadsFile img fs ino off len ↔ FollowsFile img fs ino off len := by
  have length := length_requestedBytes off len wellFormed
  unfold ReadsFile FollowsFile
  by_cases nothing : len = 0
  · subst nothing
    refine ⟨fun _ => .inl rfl, fun _ => ?_⟩
    rw [← length]
    exact ⟨rfl, rfl⟩
  rw [or_iff_right nothing]
  have found := readInodeRaw_eq img wellFormed.counted wellFormed.addressable
  by_cases regular : inodeType img fs (ino.toNat % 2 ^ 25) = 1
  · rw [← chained_iff wellFormed nothing regular]
    rw [inodeType, inodePlace_mod] at regular
    rw [lafsRead_eq nothing found regular, ← length]
    exact ⟨fun both => both.2, fun same => ⟨by rw [same], same⟩⟩
  · have notChained : ¬ Chained img fs ino off len := fun chained => regular chained.regular
    rw [inodeType, inodePlace_mod] at regular
    rw [lafsRead_not_regular nothing found regular, iff_false_right notChained]
    rintro ⟨result, -⟩
    omega

theorem followsFile_of_oneBlock (wellFormed : WellFormed img fs 1 ino.toNat)
    (small : ino.toNat < 2 ^ 25) (noWrap : off.toNat + len.toNat < 2 ^ 32)
    (oneBlock : requestEnd img fs ino off len ≤ (off.toNat / 512 + 1) * 512) :
    FollowsFile img fs ino off len := by
  have same : ino.toNat % 2 ^ 25 = ino.toNat := Nat.mod_eq_of_lt small
  refine .inr ⟨?_, ?_, .inl ⟨?_, .inr noWrap⟩⟩
  · rw [same]
    exact wellFormed.typed
  · intro pos above below
    rw [requestEnd, requestedCount] at below oneBlock
    have blockEq : pos / 512 = off.toNat / 512 := by omega
    have taken : takenPointer img fs ino off (pos / 512) =
        blockPointer img fs ino.toNat (pos / 512) := by
      rw [takenPointer, pointerSource, if_pos blockEq, same]
      rfl
    exact ⟨taken ▸ wellFormed.pointers _ (by omega), by rw [taken]⟩
  · rw [same]
    rfl

end Reads

/-- An image with a directory and a file of 513 bytes in sectors 2 and 3; the data is all
zero except for the last byte. -/
def twoBlockImage : Nat → Sector
  | 0 => fun offset => match offset with
      | 0 => 0x4C | 1 => 0x61 | 2 => 0x46 | 3 => 0x53 | 4 => 1 | 5 => 2 | 9 => 1 | 13 => 2
      | _ => 0
  | 1 => fun offset => match offset with
      | 0 => 2 | 128 => 1 | 161 => 1 | 162 => 2 | 165 => 2 | 169 => 3
      | _ => 0
  | 3 => fun offset => if offset = 0 then 0x2A else 0
  | _ => fun _ => 0

theorem length_twoBlockImage : inodeLength twoBlockImage ⟨2, 1, 2⟩ 1 = 513 := by
  decide +kernel

theorem wellFormed_twoBlockImage : WellFormed twoBlockImage ⟨2, 1, 2⟩ 1 1 := by
  refine ⟨by decide, by decide, by decide +kernel, ?_, ?_⟩
  · rw [length_twoBlockImage]
    decide
  intro block inside
  rw [length_twoBlockImage] at inside
  have cases : block = 0 ∨ block = 1 := by omega
  rcases cases with rfl | rfl
  all_goals decide +kernel

theorem lafsRead_correct_twoBlockImage :
    WellFormed twoBlockImage ⟨2, 1, 2⟩ 1 1 ∧ ReadsFile twoBlockImage ⟨2, 1, 2⟩ 1 0 512 :=
  ⟨wellFormed_twoBlockImage,
    (lafsRead_correct_iff twoBlockImage ⟨2, 1, 2⟩ 1 0 512 wellFormed_twoBlockImage).mpr
      (followsFile_of_oneBlock wellFormed_twoBlockImage (by decide) (by decide)
        (by decide +kernel))⟩

/-- The last byte is not read: its block pointer is looked for in the first block. -/
theorem twoBlockImage_short : lafsMount (readable twoBlockImage) = some ⟨2, 1, 2⟩ ∧
      WellFormed twoBlockImage ⟨2, 1, 2⟩ 1 1 ∧ inodeLength twoBlockImage ⟨2, 1, 2⟩ 1 = 513 ∧
      (lafsRead (readable twoBlockImage) (some ⟨2, 1, 2⟩) 1 0 513).1 = 512 ∧
      ¬ ReadsFile twoBlockImage ⟨2, 1, 2⟩ 1 0 513 := by
  have result : (lafsRead (readable twoBlockImage) (some ⟨2, 1, 2⟩) 1 0 513).1 = 512 := by
    decide +kernel
  refine ⟨by decide +kernel, wellFormed_twoBlockImage, length_twoBlockImage, result, ?_⟩
  rintro ⟨count, -⟩
  rw [result] at count
  revert count
  decide

end LaOS.Lafs
