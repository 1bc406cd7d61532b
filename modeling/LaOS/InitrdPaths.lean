import LaOS.BootFiles
import LaOS.InitrdBuild
import LaOS.PathParts

/-!
# Canonical paths

The script and the kernel agree on paths: `boot_file_normalize` maps the name that
is written for a canonical path to the encoding of the path.
-/

namespace LaOS.Initrd

open List WordBytes Utf8 BootFiles PathParts

/-- A component that `boot_file_normalize` keeps. -/
structure Component (name : List Byte) : Prop where
  nonempty : name ≠ []
  notDot : name ≠ [dot]
  notDots : name ≠ [dot, dot]
  noSlash : slash ∉ name
  noColon : colon ∉ name

/-- A path with a slash before each of its components. -/
def joined (names : List (List Byte)) : List Byte := names.flatMap (slash :: ·)

/-- The components that `boot_file_normalize` copies to `out`. -/
def keptParts (path : List Byte) : List (List Byte) := (parts slash path).filter (· ≠ [dot])

variable {names : List (List Byte)} {name path out result : List Byte}

theorem joined_cons : joined (name :: names) = slash :: (name ++ joined names) := rfl

theorem parts_step (named : (path.dropWhile (· = slash)).takeWhile (· ≠ slash) = name) :
    parts slash path = (if name = [] then [] else [name]) ++ parts slash (afterComponent path) ∧
      (colon ∈ path ↔ colon ∈ name ∨ colon ∈ afterComponent path) := by
  have split : name ++ afterComponent path = path.dropWhile (· = slash) :=
    named ▸ takeWhile_append_dropWhile
  constructor
  · rw [← parts_dropWhile]
    by_cases empty : name = []
    · rw [if_pos empty, nil_append, ← split, empty, nil_append]
    · have step := parts_takeWhile (named.trans_ne empty)
      rw [named] at step
      rw [if_neg empty, step]
      rfl
  · rw [← mem_append, split]
    conv_lhs => rw [← @takeWhile_append_dropWhile _ (· = slash) path, mem_append]
    refine or_iff_right fun isIn => ?_
    have isSlash := all_eq_true.mp all_takeWhile colon isIn
    exact absurd isSlash (by decide)

/-- What `boot_file_normalize` accepts, and what it then appends to `out`. -/
theorem normalizeLoop_eq_some (short : out.length < bootFilePathMax) :
    normalizeLoop path out = some result ↔
      (colon ∉ path ∧ [dot, dot] ∉ parts slash path) ∧ out ++ joined (keptParts path) = result ∧
        result ≠ [] ∧ result.length < bootFilePathMax := by
  fun_induction normalizeLoop path out with
  | case1 =>
    refine iff_of_false nofun ?_
    rintro ⟨-, rfl, nonempty, -⟩
    exact nonempty rfl
  | case2 out nonempty =>
    have same : out ++ joined (keptParts []) = out := append_nil out
    rw [same, Option.some_inj]
    constructor
    · rintro rfl
      exact ⟨⟨not_mem_nil, not_mem_nil⟩, rfl, nonempty, short⟩
    · exact fun accepted => accepted.2.1
  | case3 out c path name isColon =>
    exact iff_of_false nofun fun accepted =>
      accepted.1.1 ((parts_step rfl).2.mpr (.inl isColon))
  | case4 out c path name noColon skipped ih =>
    obtain ⟨split, colons⟩ := parts_step (rfl : _ = name)
    rw [ih short, colons, or_iff_right noColon, keptParts, keptParts, split]
    rcases skipped with empty | isDot
    · rw [if_pos empty, nil_append]
    · rw [isDot]
      simp [dot]
  | case5 out c path name noColon notSkipped isDots =>
    obtain ⟨split, -⟩ := parts_step (rfl : _ = name)
    rw [not_or] at notSkipped
    refine iff_of_false nofun fun accepted => accepted.1.2 ?_
    rw [split, if_neg notSkipped.1, isDots]
    exact mem_append_left _ mem_cons_self
  | case6 out c path name noColon notSkipped notDots long =>
    obtain ⟨split, -⟩ := parts_step (rfl : _ = name)
    rw [not_or] at notSkipped
    refine iff_of_false nofun ?_
    rintro ⟨-, rfl, -, fits⟩
    rw [keptParts, split, if_neg notSkipped.1, cons_append, nil_append,
      filter_cons_of_pos (by simpa using notSkipped.2), joined_cons] at fits
    simp only [length_append, length_cons] at fits
    omega
  | case7 out c path name noColon notSkipped notDots fits ih =>
    obtain ⟨split, colons⟩ := parts_step (rfl : _ = name)
    rw [not_or] at notSkipped
    have shorter : (out ++ slash :: name).length < bootFilePathMax := by
      rw [length_append, length_cons]
      omega
    rw [ih shorter, colons, or_iff_right noColon, keptParts, keptParts, split,
      if_neg notSkipped.1, cons_append, nil_append,
      filter_cons_of_pos (by simpa using notSkipped.2), joined_cons, mem_cons,
      or_iff_right (Ne.symm notDots), append_assoc, cons_append]

theorem bootFileNormalize_eq_some : bootFileNormalize (some path) = some result ↔
      (colon ∉ path ∧ [dot, dot] ∉ parts slash path) ∧ joined (keptParts path) = result ∧
        result ≠ [] ∧ result.length < bootFilePathMax :=
  normalizeLoop_eq_some (by decide)

theorem parts_joined (components : ∀ name ∈ names, Component name) :
    parts slash (joined names) = names :=
  parts_flatMap fun name isIn => ⟨(components name isIn).nonempty, (components name isIn).noSlash⟩

theorem normalize_joined (components : ∀ name ∈ names, Component name) (nonempty : names ≠ [])
    (short : (joined names).length < bootFilePathMax) :
    bootFileNormalize (some (joined names)) = some (joined names) := by
  have same := parts_joined components
  have kept : keptParts (joined names) = names := by
    rw [keptParts, same]
    exact filter_eq_self.mpr fun name isIn => decide_eq_true (components name isIn).notDot
  rw [bootFileNormalize_eq_some, same, kept]
  refine ⟨⟨fun isIn => ?_, fun isIn => (components _ isIn).notDots rfl⟩, rfl, fun empty => ?_, short⟩
  · obtain ⟨name, inNames, inName⟩ := mem_flatMap.mp isIn
    rcases mem_cons.mp inName with isSlash | inName
    · exact absurd isSlash (by decide)
    · exact (components name inNames).noColon inName
  · cases names with
    | nil => exact nonempty rfl
    | cons name names => cases empty

variable {text part : List Char}

theorem canonical_eq_some {name : List Char} : canonical text = some name ↔
    (':' ∉ text ∧ ['.', '.'] ∉ parts '/' text ∧ Char.ofNat 0 ∉ text) ∧
      ((parts '/' text).filter (· ≠ ['.'])).flatMap ('/' :: ·) = name ∧
        name ≠ [] ∧ (encode name).length < 256 := by
  have kept : (text.splitOn '/').filter (fun part => part ≠ [] ∧ part ≠ ['.']) =
      (parts '/' text).filter (· ≠ ['.']) := by
    unfold parts
    rw [filter_filter]
    refine filter_congr fun part _ => ?_
    rw [← Bool.decide_and]
    exact decide_eq_decide.mpr and_comm
  have dots : ['.', '.'] ∈ parts '/' text ↔ ['.', '.'] ∈ text.splitOn '/' := by simp [parts]
  simp only [canonical, Option.ite_none_left_eq_some, not_or, kept, dots, Nat.not_le, ge_iff_le]
  have named : ∀ part ∈ (parts '/' text).filter (· ≠ ['.']), part ≠ [] := fun part isIn =>
    of_decide_eq_true (mem_filter.mp (mem_filter.mp isIn).1).2
  generalize (parts '/' text).filter (· ≠ ['.']) = names at named
  cases names with
  | nil =>
    refine and_congr Iff.rfl (iff_of_false (fun accepted => accepted.1.1 rfl) ?_)
    rintro ⟨rfl, nonempty, -⟩
    exact nonempty rfl
  | cons part names =>
    rw [cons_intercalate (cons_ne_nil part names), Option.some_inj]
    refine and_congr Iff.rfl ⟨?_, ?_⟩
    · rintro ⟨⟨-, short⟩, rfl⟩
      exact ⟨rfl, cons_ne_nil _ _, short⟩
    · rintro ⟨rfl, -, short⟩
      refine ⟨⟨fun isSlash => named part mem_cons_self ?_, short⟩, rfl⟩
      exact (append_eq_nil_iff.mp (cons.inj isSlash).2).1

/-- A path that `canonical` returns. -/
structure Canonical (path : List Char) : Prop where
  parts : ∃ parts : List (List Char), parts ≠ [] ∧ path = parts.flatMap ('/' :: ·) ∧
    ∀ part ∈ parts, part ≠ [] ∧ part ≠ ['.'] ∧ part ≠ ['.', '.'] ∧ '/' ∉ part ∧ ':' ∉ part ∧
      Char.ofNat 0 ∉ part
  short : (encode path).length < 256

theorem canonical_of_some {name path : List Char} (accepted : canonical name = some path) :
    Canonical path := by
  obtain ⟨⟨noColon, noDots, noNul⟩, rfl, nonempty, short⟩ := canonical_eq_some.mp accepted
  refine ⟨⟨_, fun empty => nonempty (by rw [empty]; rfl), rfl, fun part mem => ?_⟩, short⟩
  obtain ⟨inParts, notDot⟩ := mem_filter.mp mem
  obtain ⟨inSplit, partNonempty⟩ := mem_filter.mp inParts
  obtain ⟨noSlash, inName⟩ := mem_splitOn inSplit
  exact ⟨of_decide_eq_true partNonempty, of_decide_eq_true notDot,
    fun isDots => noDots (isDots ▸ inParts), noSlash,
    fun isColon => noColon (inName _ isColon), fun isNul => noNul (inName _ isNul)⟩

theorem encode_slash : encode ('/' :: text) = slash :: encode text := by
  rfl

theorem encode_flatMap (parts : List (List Char)) :
    encode (parts.flatMap ('/' :: ·)) = joined (parts.map encode) := by
  induction parts with
  | nil => rfl
  | cons part parts ih =>
    rw [flatMap_cons, encode_append, encode_slash, ih, map_cons, joined_cons, cons_append]

theorem encode_inj {first second : List Char} : encode first = encode second ↔ first = second :=
  ⟨encode_injective, congrArg encode⟩

theorem encode_intercalate {parts : List (List Char)} (nonempty : parts ≠ []) :
    encode (['/'].intercalate parts) = [slash].intercalate (parts.map encode) := by
  have whole := encode_flatMap parts
  rw [← cons_intercalate nonempty, encode_slash, joined,
    ← cons_intercalate (mt map_eq_nil_iff.mp nonempty)] at whole
  exact (cons.inj whole).2

theorem parts_encode (text : List Char) :
    parts slash (encode text) = (parts '/' text).map encode := by
  have noSlash : ∀ name ∈ (text.splitOn '/').map encode, slash ∉ name := by
    intro name isIn
    obtain ⟨part, inText, rfl⟩ := mem_map.mp isIn
    exact fun isSlash => (mem_splitOn inText).1 ((@mem_encode part '/' (by decide)).mp isSlash)
  have split : (encode text).splitOn slash = (text.splitOn '/').map encode := by
    have back := encode_intercalate (splitOn_ne_nil '/' text)
    rw [intercalate_splitOn] at back
    rw [back, splitOn_intercalate slash noSlash (mt map_eq_nil_iff.mp (splitOn_ne_nil _ _))]
  unfold parts
  rw [split, filter_map]
  refine congrArg (map encode) (filter_congr fun part _ => decide_eq_decide.mpr (not_congr ?_))
  exact @encode_inj part []

theorem keptParts_encode (text : List Char) :
    keptParts (encode text) = ((parts '/' text).filter (· ≠ ['.'])).map encode := by
  unfold keptParts
  rw [parts_encode, filter_map]
  refine congrArg (map encode) (filter_congr fun part _ => decide_eq_decide.mpr (not_congr ?_))
  exact @encode_inj part ['.']

theorem bootFileNormalize_encode (noNul : Char.ofNat 0 ∉ text) :
    bootFileNormalize (some (encode text)) = (canonical text).map encode := by
  ext result
  have colons : colon ∈ encode text ↔ ':' ∈ text := @mem_encode text ':' (by decide)
  have dots : [dot, dot] ∈ (parts '/' text).map encode ↔ ['.', '.'] ∈ parts '/' text := by
    rw [show [dot, dot] = encode ['.', '.'] by decide]
    exact mem_map_of_injective fun _ _ => encode_injective
  rw [bootFileNormalize_eq_some, Option.map_eq_some_iff, colons, parts_encode, dots,
    keptParts_encode, ← encode_flatMap]
  constructor
  · rintro ⟨⟨noColon, noDots⟩, rfl, nonempty, short⟩
    exact ⟨_, canonical_eq_some.mpr ⟨⟨noColon, noDots, noNul⟩, rfl,
      fun empty => nonempty (congrArg encode empty), short⟩, rfl⟩
  · rintro ⟨name, accepted, rfl⟩
    obtain ⟨⟨noColon, noDots, -⟩, rfl, nonempty, short⟩ := canonical_eq_some.mp accepted
    exact ⟨⟨noColon, noDots⟩, rfl, fun empty => nonempty (encode_injective empty), short⟩

variable {path : List Char}

def stripped (path : List Char) : List Char := path.dropWhile (· = '/')

namespace Canonical

variable (isCanonical : Canonical path)

include isCanonical

theorem eq_slash_stripped : path = '/' :: stripped path := by
  obtain ⟨parts, nonempty, rfl, good⟩ := isCanonical.parts
  cases parts with
  | nil => exact absurd rfl nonempty
  | cons part parts =>
    obtain ⟨partNonempty, -, -, noSlash, -⟩ := good part mem_cons_self
    cases part with
    | nil => exact absurd rfl partNonempty
    | cons c part =>
      have notSlash : c ≠ '/' := fun same => noSlash (same ▸ mem_cons_self)
      rw [stripped, flatMap_cons, cons_append, dropWhile_cons_of_pos (by simp),
        cons_append, dropWhile_cons_of_neg (by simpa using notSlash)]

theorem notMem {c : Char} (special : c = ':' ∨ c = Char.ofNat 0) : c ∉ path := by
  obtain ⟨parts, -, rfl, good⟩ := isCanonical.parts
  intro isIn
  obtain ⟨part, inParts, inPart⟩ := mem_flatMap.mp isIn
  obtain ⟨-, -, -, -, noColon, noNul⟩ := good part inParts
  rcases special with rfl | rfl
  · exact noColon (mem_of_ne_of_mem (by decide) inPart)
  · exact noNul (mem_of_ne_of_mem (by decide) inPart)

theorem canonical_eq : canonical path = some path := by
  refine canonical_eq_some.mpr
    ⟨⟨isCanonical.notMem (.inl rfl), ?_, isCanonical.notMem (.inr rfl)⟩, ?_⟩
  all_goals
    have short := isCanonical.short
    obtain ⟨names, nonempty, rfl, good⟩ := isCanonical.parts
    rw [parts_flatMap fun part isIn => ⟨(good part isIn).1, (good part isIn).2.2.2.1⟩]
  · exact fun isIn => (good _ isIn).2.2.1 rfl
  · rw [filter_eq_self.mpr fun part isIn => decide_eq_true (good part isIn).2.1]
    refine ⟨rfl, fun empty => ?_, short⟩
    cases names with
    | nil => exact nonempty rfl
    | cons part names => cases empty

theorem normalize_encode : bootFileNormalize (some (encode path)) = some (encode path) := by
  rw [bootFileNormalize_encode (isCanonical.notMem (.inr rfl)), isCanonical.canonical_eq]
  rfl

theorem encode_stripped : encode path = slash :: encode (stripped path) := by
  conv_lhs => rw [isCanonical.eq_slash_stripped, encode_slash]

theorem normalize_stripped :
    bootFileNormalize (some (encode (stripped path))) = some (encode path) := by
  have normalized := isCanonical.normalize_encode
  rw [isCanonical.encode_stripped, bootFileNormalize_eq_some, mem_cons,
    or_iff_right (by decide : colon ≠ slash), keptParts, parts_sep] at normalized
  rw [bootFileNormalize_eq_some, isCanonical.encode_stripped]
  exact normalized

theorem noZero : (0 : Byte) ∉ encode path :=
  fun isIn => isCanonical.notMem (.inr rfl) ((@mem_encode _ (Char.ofNat 0) (by decide)).mp isIn)

theorem noZero_stripped : (0 : Byte) ∉ encode (stripped path) := by
  have none := isCanonical.noZero
  rw [isCanonical.encode_stripped] at none
  exact fun mem => none (mem_cons_of_mem _ mem)

end Canonical

/-- The bytes that `boot_file_normalize` has stored in `out` when it returns. -/
def normalizeStores (path out : List Byte) : List Byte :=
  match path with
  | [] => out ++ [0]
  | c :: path =>
    let name := ((c :: path).dropWhile (· = slash)).takeWhile (· ≠ slash)
    if colon ∈ name then out
    else if name = [] ∨ name = [dot] then normalizeStores (afterComponent (c :: path)) out
    else if name = [dot, dot] then out
    else if name.length ≥ bootFilePathMax - out.length - 1 then out
    else normalizeStores (afterComponent (c :: path)) (out ++ slash :: name)
termination_by path.length
decreasing_by all_goals exact length_afterComponent_lt c path

theorem normalizeStores_spec {path : List Byte} (short : out.length < bootFilePathMax) :
    (normalizeStores path out).length ≤ bootFilePathMax ∧ ∀ result,
      normalizeLoop path out = some result → normalizeStores path out = result ++ [0] := by
  fun_induction normalizeStores path out with
  | case1 out =>
    rw [length_append]
    refine ⟨short, fun result done => ?_⟩
    rw [normalizeLoop, Option.ite_none_left_eq_some] at done
    rw [Option.some_inj.mp done.2]
  | case2 out c path name isColon =>
    refine ⟨short.le, fun result done => ?_⟩
    rw [normalizeLoop, if_pos isColon] at done
    cases done
  | case3 out c path name noColon skipped ih =>
    rw [normalizeLoop, if_neg noColon, if_pos skipped]
    exact ih short
  | case4 out c path name noColon notSkipped isDots =>
    refine ⟨short.le, fun result done => ?_⟩
    rw [normalizeLoop, if_neg noColon, if_neg notSkipped, if_pos isDots] at done
    cases done
  | case5 out c path name noColon notSkipped notDots long =>
    refine ⟨short.le, fun result done => ?_⟩
    rw [normalizeLoop, if_neg noColon, if_neg notSkipped, if_neg notDots, if_pos long] at done
    cases done
  | case6 out c path name noColon notSkipped notDots fits ih =>
    rw [normalizeLoop, if_neg noColon, if_neg notSkipped, if_neg notDots, if_neg fits]
    refine ih ?_
    rw [length_append, length_cons]
    omega

theorem component_of_mem_keptParts {path : List Byte} (noColon : colon ∉ path)
    (noDots : [dot, dot] ∉ parts slash path) (isIn : name ∈ keptParts path) : Component name := by
  obtain ⟨inParts, notDot⟩ := mem_filter.mp isIn
  obtain ⟨inSplit, nonempty⟩ := mem_filter.mp inParts
  obtain ⟨noSlash, inPath⟩ := mem_splitOn inSplit
  exact ⟨of_decide_eq_true nonempty, of_decide_eq_true notDot,
    fun isDots => noDots (isDots ▸ inParts), noSlash, fun isColon => noColon (inPath _ isColon)⟩

/-- `boot_file_normalize` and `canonical` agree on texts and results within 256 bytes, and
identify exactly the paths with the same components. -/
theorem normalize_agrees_with_canonical : (∀ text, Char.ofNat 0 ∉ text →
      bootFileNormalize (some (encode text)) = (canonical text).map encode) ∧
    (∀ path, (normalizeStores path []).length ≤ bootFilePathMax ∧ ∀ result,
      bootFileNormalize (some path) = some result → normalizeStores path [] = result ++ [0]) ∧
    (∀ path result, bootFileNormalize (some path) = some result →
      bootFileNormalize (some result) = some result) ∧
    ∀ path other result otherResult, bootFileNormalize (some path) = some result →
      bootFileNormalize (some other) = some otherResult →
        (result = otherResult ↔ keptParts path = keptParts other) := by
  refine ⟨fun _ => bootFileNormalize_encode, fun path => normalizeStores_spec (by decide),
    fun path result accepted => ?_, fun path other result otherResult accepted alsoAccepted => ?_⟩
  · obtain ⟨⟨noColon, noDots⟩, rfl, nonempty, short⟩ := bootFileNormalize_eq_some.mp accepted
    refine normalize_joined (fun name => component_of_mem_keptParts noColon noDots) ?_ short
    exact fun empty => nonempty (congrArg joined empty)
  · obtain ⟨⟨noColon, noDots⟩, rfl, -⟩ := bootFileNormalize_eq_some.mp accepted
    obtain ⟨⟨otherColon, otherDots⟩, rfl, -⟩ := bootFileNormalize_eq_some.mp alsoAccepted
    refine ⟨fun same => ?_, congrArg joined⟩
    have back := congrArg (parts slash) same
    rwa [parts_joined fun name => component_of_mem_keptParts noColon noDots,
      parts_joined fun name => component_of_mem_keptParts otherColon otherDots] at back

end LaOS.Initrd
