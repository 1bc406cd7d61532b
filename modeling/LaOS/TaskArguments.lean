import LaOS.TaskConfAtomic
import LaOS.TaskLaunch

/-!
# Which arguments reach a task

The tokens of a task line are stored in two buffers and split again when the task is
launched.
-/

namespace LaOS.TaskConf

open Option List WordBytes BootFiles BlockLedger

variable {p rest : List Byte} {c : Byte}

theorem length_rest_lt (start : skipSpaces p = c :: rest) (inLine : ¬ isLineEnd c = true) :
    (tokenAt c rest).2.length < p.length := by
  have skipped := length_skipSpaces_le p
  rw [start] at skipped
  exact (length_tokenAt (Bool.eq_false_iff.mpr inLine) (isBlank_of_skipSpaces start)).trans_le skipped

/-- The tokens of a line: they are separated by blanks, and a token between double
quotes may contain blanks. -/
def tokens (p : List Byte) : List (List Byte) :=
  match _ : skipSpaces p with
  | [] => []
  | c :: rest =>
    if _ : isLineEnd c = true then []
    else (tokenAt c rest).1 :: tokens (tokenAt c rest).2
termination_by p.length
decreasing_by exact length_rest_lt ‹_› ‹_›

variable {token text : List Byte} {words : List (List Byte)}

variable {argc : Nat}

variable {tokenList : List (List Byte)}

end LaOS.TaskConf
