import LaOS.TransitionSystem

/-!
# Spin locks

`spin_trylock`, `spin_lock_raw` and `spin_unlock_raw` of `kernel/lock.c`, one access
to the lock word at a time.
-/

namespace LaOS.SpinLock

open Function

/-- Where a caller is; the inner loop of `spin_lock_raw` loads the lock word and pauses. -/
inductive Pc
  | outside
  | exchange
  | load (backoff : Nat)
  | relax (left backoff : Nat)
  | inside
  deriving DecidableEq

structure State (Caller : Type) where
  locked : Bool
  pc : Caller → Pc

inductive Action (Caller : Type)
  | spinLockRaw (caller : Caller)
  | spinTrylock (caller : Caller)
  | spinUnlockRaw (caller : Caller)
  | exec (caller : Caller)

/-- The next access of `spin_lock_raw`, if it is under way. -/
def Pc.next (locked : Bool) : Pc → Option Pc
  | exchange => some (if locked then load 1 else inside)
  | load backoff => some (if locked then relax backoff backoff else exchange)
  | relax 0 backoff => some (load (if backoff < 64 then 2 * backoff else backoff))
  | relax (left + 1) backoff => some (relax left backoff)
  | _ => none

theorem Pc.next_eq_inside_iff {locked : Bool} {pc next : Pc} (ran : pc.next locked = some next) :
    pc ≠ .inside ∧ (next = .inside ↔ pc = .exchange ∧ locked = false) := by
  fun_cases Pc.next locked pc <;> grind [Pc.next]

variable {Caller : Type} [DecidableEq Caller]

def step (s : State Caller) : Action Caller → Option (State Caller)
  | .spinLockRaw caller =>
    if s.pc caller = .outside then some { s with pc := update s.pc caller .exchange }
    else none
  | .spinTrylock caller =>
    if s.pc caller = .outside then
      some ⟨true, update s.pc caller (if s.locked then .outside else .inside)⟩
    else none
  | .spinUnlockRaw caller =>
    if s.pc caller = .inside then some ⟨false, update s.pc caller .outside⟩ else none
  | .exec caller => ((s.pc caller).next s.locked).map fun pc =>
      ⟨s.locked || s.pc caller = .exchange, update s.pc caller pc⟩

def system : TransitionSystem (State Caller) (Action Caller) where
  initial s := s = ⟨false, fun _ => .outside⟩
  step := step

/-- The lock word is set exactly while a caller is inside, and then one caller is. -/
def Inv (s : State Caller) : Prop :=
  ∃ holder : Option Caller, s.locked = holder.isSome ∧
    ∀ caller, s.pc caller = .inside ↔ holder = some caller

variable {s after : State Caller}

theorem Inv.step {action : Action Caller} (inv : Inv s)
    (ran : step s action = some after) : Inv after := by
  obtain ⟨holder, word, insideIff⟩ := inv
  cases action with
  | spinLockRaw caller =>
    obtain ⟨isOutside, ⟨⟩⟩ := Option.ite_none_right_eq_some.mp ran
    exact ⟨holder, word, fun other => by grind⟩
  | spinTrylock caller =>
    obtain ⟨isOutside, ⟨⟩⟩ := Option.ite_none_right_eq_some.mp ran
    exact ⟨if s.locked then holder else some caller, by grind, fun other => by grind⟩
  | spinUnlockRaw caller =>
    obtain ⟨isInside, ⟨⟩⟩ := Option.ite_none_right_eq_some.mp ran
    exact ⟨none, rfl, fun other => by grind⟩
  | exec caller =>
    obtain ⟨pc, moved, ⟨⟩⟩ := Option.map_eq_some_iff.mp ran
    have entry := Pc.next_eq_inside_iff moved
    exact ⟨if pc = .inside then some caller else holder, by grind, fun other => by grind⟩

/-- In every interleaving at most one caller holds the lock, and the lock word is set exactly while
one does. -/
theorem spinlock_exclusive (reached : system.Reachable s) :
    (∀ first second, s.pc first = .inside → s.pc second = .inside → first = second) ∧
      (s.locked = true ↔ ∃ caller, s.pc caller = .inside) := by
  have inv : Inv s := reached.invariant
    (by rintro _ rfl; exact ⟨none, rfl, by simp⟩) fun _ _ _ _ inv ran => inv.step ran
  obtain ⟨holder, word, insideIff⟩ := inv
  simp only [insideIff, word, Option.isSome_iff_exists]
  exact ⟨fun _ _ isFirst isSecond => Option.some.inj (isFirst.symm.trans isSecond), trivial⟩

def contended : State (Fin 2) :=
  (system.run ⟨false, fun _ => .outside⟩
    [.spinLockRaw 0, .exec 0, .spinLockRaw 1, .exec 1]).getD ⟨false, fun _ => .outside⟩

theorem spinlock_exclusive_contended :
    contended.pc 1 = .load 1 ∧ ∃ caller, contended.pc caller = .inside :=
  ⟨by decide, (spinlock_exclusive (TransitionSystem.Reachable.getD_run (.start rfl) _)).2.mp
    (by decide)⟩

end LaOS.SpinLock
