import Mathlib

/-!
# Executable transition systems

A concurrent program is a partial step function: an action names the party that
moves together with its nondeterministic choices.
-/

namespace LaOS

open List

-- The parties and priorities of concrete runs are written as literals.
-- Named once, so that the runs in `Fin 2` or `Fin 64` do not each carry a proof of their own.
instance neZero_one : NeZero 1 := ⟨one_ne_zero⟩

instance neZero_two : NeZero 2 := ⟨two_ne_zero⟩

instance neZero_three : NeZero 3 := ⟨three_ne_zero⟩

instance neZero_four : NeZero 4 := ⟨four_ne_zero⟩

instance neZero_sixtyFour : NeZero 64 := ⟨by decide⟩

/-- Initial states together with an executable, partial step function. -/
structure TransitionSystem (State Action : Type*) where
  initial : State → Prop
  step : State → Action → Option State

namespace TransitionSystem

variable {State Action : Type*} (system : TransitionSystem State Action)

/-- States reached by steps that all satisfy `allowed`, a condition on the action and the state
it starts from. -/
inductive ReachableWhere (allowed : State → Action → Prop) : State → Prop
  | start {s : State} (starts : system.initial s) :
      ReachableWhere allowed s
  | next {s after : State} {action : Action}
      (reached : ReachableWhere allowed s)
      (permitted : allowed s action)
      (taken : system.step s action = some after) :
      ReachableWhere allowed after

def Reachable (s : State) : Prop :=
  system.ReachableWhere (fun _ _ => True) s

variable {system} {allowed : State → Action → Prop} {property : State → Prop} {s : State}

/-- Induction over runs: what holds initially and survives every permitted step from a reached
state holds in every state reached. -/
theorem ReachableWhere.invariant (starts : ∀ s, system.initial s → property s)
    (keeps : ∀ s action after, system.ReachableWhere allowed s → property s →
      allowed s action → system.step s action = some after → property after)
    (reached : system.ReachableWhere allowed s) :
    property s := by
  induction reached with
  | start initially => exact starts _ initially
  | next before permitted taken ih => exact keeps _ _ _ before ih permitted taken

theorem Reachable.invariant (starts : ∀ s, system.initial s → property s)
    (keeps : ∀ s action after, system.Reachable s → property s →
      system.step s action = some after → property after) (reached : system.Reachable s) :
    property s :=
  ReachableWhere.invariant starts
    (fun s action after before holds _ taken => keeps s action after before holds taken)
    reached

theorem ReachableWhere.mono {tolerated : State → Action → Prop}
    (reached : system.ReachableWhere allowed s)
    (weaker : ∀ s action, allowed s action → tolerated s action) :
    system.ReachableWhere tolerated s := by
  induction reached with
  | start initially => exact .start initially
  | next _ permitted taken ih => exact .next ih (weaker _ _ permitted) taken

theorem ReachableWhere.reachable (reached : system.ReachableWhere allowed s) :
    system.Reachable s :=
  reached.mono fun _ _ _ => trivial

variable (system)

/-- The state after a list of actions, when all of them are enabled in turn. -/
def run (s : State) : List Action → Option State
  | [] => some s
  | action :: actions => (system.step s action).bind fun after => run after actions

variable {system} {first : State} {actions : List Action}

theorem ReachableWhere.run {last : State} (reached : system.ReachableWhere allowed first)
    (permitted : ∀ s, ∀ action ∈ actions, allowed s action)
    (taken : system.run first actions = some last) : system.ReachableWhere allowed last := by
  induction actions generalizing first with
  | nil =>
    simp only [TransitionSystem.run, Option.some.injEq] at taken
    exact taken ▸ reached
  | cons action actions ih =>
    simp only [TransitionSystem.run, Option.bind_eq_some_iff] at taken
    obtain ⟨mid, stepped, rest⟩ := taken
    exact ih (reached.next (permitted _ action mem_cons_self) stepped)
      (fun s later mem => permitted s later (mem_cons_of_mem _ mem)) rest

theorem ReachableWhere.getD_run (reached : system.ReachableWhere allowed first)
    (permitted : ∀ s, ∀ action ∈ actions, allowed s action) :
    system.ReachableWhere allowed ((system.run first actions).getD first) := by
  cases taken : system.run first actions with
  | none => exact reached
  | some last => exact reached.run permitted taken

theorem Reachable.getD_run (reached : system.Reachable first)
    (actions : List Action) : system.Reachable ((system.run first actions).getD first) :=
  ReachableWhere.getD_run reached fun _ _ _ => trivial

variable (system)

/-- A finite execution, indexed by the number of steps; states with index above `length` are not
part of it. -/
structure Execution (length : Nat) where
  states : Nat → State
  actions : Nat → Action
  starts : system.initial (states 0)
  steps : ∀ i < length, system.step (states i) (actions i) = some (states (i + 1))

variable {system}

namespace Execution

variable {length : Nat}

theorem reachableWhere (execution : system.Execution length)
    (permitted : ∀ i < length, allowed (execution.states i) (execution.actions i))
    (i : Nat) (indexLe : i ≤ length) :
    system.ReachableWhere allowed (execution.states i) := by
  induction i with
  | zero => exact .start execution.starts
  | succ i ih =>
    exact .next (ih (by omega)) (permitted i indexLe) (execution.steps i indexLe)

theorem reachable (execution : system.Execution length) (i : Nat)
    (indexLe : i ≤ length) : system.Reachable (execution.states i) :=
  execution.reachableWhere (fun _ _ => trivial) i indexLe

/-- Induction along a segment of an execution: each step of the segment may
use that it starts from a reachable state. -/
theorem along (execution : system.Execution length) (property : State → Prop)
    {first last : Nat} (firstLe : first ≤ last) (lastLe : last ≤ length)
    (initially : property (execution.states first)) (keeps : ∀ i, first ≤ i → i < last →
      system.Reachable (execution.states i) → property (execution.states i) →
      system.step (execution.states i) (execution.actions i) =
        some (execution.states (i + 1)) → property (execution.states (i + 1))) :
    property (execution.states last) := by
  induction last, firstLe using Nat.le_induction with
  | base => exact initially
  | succ last firstLe ih =>
    have previous := ih (by omega) fun i above below => keeps i above (by omega)
    exact keeps last firstLe (by omega) (execution.reachable last (by omega)) previous
      (execution.steps last (by omega))

end Execution

theorem run_append (first : State) (actions later : List Action) :
    system.run first (actions ++ later) =
      (system.run first actions).bind fun mid => system.run mid later := by
  induction actions generalizing first with
  | nil => rfl
  | cons action actions ih =>
    simp only [cons_append, run, Option.bind_assoc]
    congr 1
    funext mid
    exact ih mid

theorem run_take_isSome (enabled : (system.run first actions).isSome = true) (count : Nat) :
    (system.run first (actions.take count)).isSome = true := by
  rw [← take_append_drop count actions, run_append] at enabled
  cases taken : system.run first (actions.take count) with
  | none => simp [taken] at enabled
  | some mid => rfl

theorem run_take_succ (first : State) {i : Nat} (indexLt : i < actions.length) :
    system.run first (actions.take (i + 1)) =
      (system.run first (actions.take i)).bind fun mid =>
        system.step mid actions[i] := by
  rw [take_succ_eq_append_getElem indexLt, run_append]
  simp [run]

def executionOf (first : State) (initially : system.initial first) (actions : List Action)
    (fallback : Action) (enabled : (system.run first actions).isSome = true) :
    system.Execution actions.length where
  states i := (system.run first (actions.take i)).getD first
  actions i := actions.getD i fallback
  starts := by simpa [run] using initially
  steps := by
    intro i indexLt
    obtain ⟨mid, taken⟩ := Option.isSome_iff_exists.mp (run_take_isSome enabled i)
    obtain ⟨after, takenNext⟩ := Option.isSome_iff_exists.mp (run_take_isSome enabled (i + 1))
    have stepped : system.run first (actions.take (i + 1)) = _ := run_take_succ first indexLt
    rw [taken, takenNext, Option.bind_some] at stepped
    simpa [taken, takenNext, indexLt] using stepped.symm

variable (system)

structure Run where
  states : Nat → State
  actions : Nat → Action
  starts : system.initial (states 0)
  steps : ∀ i, system.step (states i) (actions i) = some (states (i + 1))

variable {system}

namespace Run

/-- The state after the given number of actions, when all of them are enabled. -/
def stateAfter (system : TransitionSystem State Action) (first : State) (actions : Nat → Action) :
    Nat → State
  | 0 => first
  | i + 1 =>
    (system.step (stateAfter system first actions i) (actions i)).getD
      (stateAfter system first actions i)

def ofActions (first : State) (initially : system.initial first) (actions : Nat → Action)
    (enabled : ∀ i, (system.step (stateAfter system first actions i)
      (actions i)).isSome = true) : system.Run where
  states := stateAfter system first actions
  actions := actions
  starts := initially
  steps i := by
    obtain ⟨after, taken⟩ := Option.isSome_iff_exists.mp (enabled i)
    rw [stateAfter, taken, Option.getD_some]

end Run

end TransitionSystem

end LaOS
