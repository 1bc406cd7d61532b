import LaOS.TransitionSystem

/-!
# The module registry

`module.c` keeps descriptors in 32 slots that are reused, under ids that are not.  The
slots implement a partial map from ids to the descriptors given on reservation.
-/

namespace LaOS.Module

open BitVec List Function

abbrev Id := BitVec 32

/-- A descriptor: the bytes of its name, if it has one, its id, and the fields
that the registry only copies. -/
structure ModuleDesc (Fields : Type) where
  name : Option (List UInt8)
  fields : Fields
  id : Id

/-- The state of a slot, and of an id: a cancelled id is free again, for good. -/
inductive RegistryState
  | free
  | reserved
  | committed
  deriving DecidableEq

structure Entry (Fields : Type) where
  state : RegistryState
  desc : ModuleDesc Fields

structure Registry (Fields : Type) where
  entries : Fin 32 → Entry Fields
  nextId : Id

variable {Fields : Type}

section

variable (registry : Registry Fields)

/-- The first slot whose entry passes a test, as the loops over the slots find it. -/
def Registry.first (test : Entry Fields → Bool) : Option (Fin 32) :=
  (List.finRange 32).find? fun slot => test (registry.entries slot)

/-- `module_registry_reserve`, given whether there is memory for the copy of the name. -/
def moduleRegistryReserve (desc : ModuleDesc Fields) (memory : Bool) : Int × Registry Fields :=
  match registry.first fun entry => entry.state = .free with
  | none => (-1, registry)
  | some slot =>
    if desc.name.isSome ∧ memory = false then (-1, registry)
    else
      let id := registry.nextId
      (id.toInt, { entries := update registry.entries slot ⟨.reserved, { desc with id }⟩
                   nextId := id + 1 })

/-- The loop that `module_registry_commit` and `module_registry_cancel` share. -/
def Registry.settle (id : Id) (change : Entry Fields → Entry Fields) : Registry Fields :=
  match registry.first fun entry => entry.state = .reserved ∧ entry.desc.id = id with
  | none => registry
  | some slot =>
    { registry with
      entries := update registry.entries slot (change (registry.entries slot)) }

def moduleRegistryCommit (id : Id) : Registry Fields :=
  registry.settle id fun entry => { entry with state := .committed }

def moduleRegistryCancel (zero : Fields) (registry : Registry Fields) (id : Id) : Registry Fields :=
  registry.settle id fun _ => ⟨.free, ⟨none, zero, 0⟩⟩

def moduleRegistryFindById (id : Id) : Option (Fin 32) :=
  registry.first fun entry => entry.state = .committed ∧ entry.desc.id = id

def moduleRegistryCount : Nat :=
  (List.finRange 32).countP fun slot => (registry.entries slot).state = .committed

end

/-- For each id that was reserved, the descriptor given, under its id, and what
became of it. -/
abbrev History (Fields : Type) := Id → Option (ModuleDesc Fields × RegistryState)

def History.settle (history : History Fields) (id : Id) (fate : RegistryState) : History Fields :=
  match history id with
  | some (desc, .reserved) => update history id (some (desc, fate))
  | _ => history

def History.committed (history : History Fields) (id : Id) : Option (ModuleDesc Fields) :=
  match history id with
  | some (desc, .committed) => some desc
  | _ => none

/-- The registry with the map, and the values that successful reservations returned. -/
structure State (Fields : Type) where
  registry : Registry Fields
  history : History Fields
  results : List Int

inductive Action (Fields : Type)
  | reserve (desc : ModuleDesc Fields) (memory : Bool)
  | commit (id : Id)
  | cancel (id : Id)
  | findById (id : Id)
  | count

def step (zero : Fields) (state : State Fields) : Action Fields → State Fields
  | .reserve desc memory =>
    let (result, registry) := moduleRegistryReserve state.registry desc memory
    if result = -1 then { state with registry }
    else
      let id := BitVec.ofInt 32 result
      ⟨registry, update state.history id (some ({ desc with id }, .reserved)),
        result :: state.results⟩
  | .commit id => { state with
      registry := moduleRegistryCommit state.registry id
      history := state.history.settle id .committed }
  | .cancel id => { state with
      registry := moduleRegistryCancel zero state.registry id
      history := state.history.settle id .free }
  | .findById _ | .count => state

def bootState (zero : Fields) : State Fields :=
  ⟨⟨fun _ => ⟨.free, ⟨none, zero, 0⟩⟩, 0⟩, fun _ => none, []⟩

def system (zero : Fields) : TransitionSystem (State Fields) (Action Fields) where
  initial state := state = bootState zero
  step state action := some (step zero state action)

/-- Whether fewer than `2 ^ 31` reservations have succeeded after the call. -/
def Few (state : State Fields) : Action Fields → Prop
  | .reserve _ _ => state.results.length + 1 < 2 ^ 31
  | _ => True

/-- Slots that are not free hold the descriptors of the ids that are not, each just once. -/
structure Implements (entries : Fin 32 → Entry Fields) (history : History Fields) : Prop where
  sound : ∀ slot, (entries slot).state ≠ .free →
    history (entries slot).desc.id = some ((entries slot).desc, (entries slot).state)
  complete : ∀ id desc fate, history id = some (desc, fate) → fate ≠ .free →
    desc.id = id ∧ ∃ slot, entries slot = ⟨fate, desc⟩
  distinct : ∀ first second, (entries first).state ≠ .free → (entries second).state ≠ .free →
    (entries first).desc.id = (entries second).desc.id → first = second

structure Inv (state : State Fields) : Prop where
  implements : Implements state.registry.entries state.history
  next : state.registry.nextId.toNat = state.results.length
  few : state.results.length < 2 ^ 31
  unissued : ∀ id, state.results.length ≤ id.toNat → state.history id = none
  issued : ∀ result ∈ state.results, 0 ≤ result ∧ result < state.results.length
  nodup : state.results.Nodup

section Lemmas

variable {registry : Registry Fields} {state : State Fields} {entries : Fin 32 → Entry Fields}
  {history : History Fields} {slot : Fin 32} {id : Id} {desc : ModuleDesc Fields}
  {fate : RegistryState} {test : Entry Fields → Bool}

theorem first_eq_some (found : registry.first test = some slot) :
    test (registry.entries slot) = true := by
  have passes := find?_some found
  exact passes

theorem first_eq_none (absent : registry.first test = none) (slot : Fin 32) :
    test (registry.entries slot) ≠ true :=
  find?_eq_none.mp absent slot (mem_finRange slot)

/-- The one change the calls make: a slot that is free or has the id gets a new state for this
id, which no other slot has. -/
theorem Implements.store (ok : Implements entries history) {entry : Entry Fields}
    (own : (entries slot).state ≠ .free → (entries slot).desc.id = id)
    (alone : ∀ other, (entries other).state ≠ .free → (entries other).desc.id = id → other = slot)
    (idEq : desc.id = id) (stateEq : entry.state = fate) (descEq : fate ≠ .free → entry.desc = desc) :
    Implements (update entries slot entry) (update history id (some (desc, fate))) := by
  have here : update entries slot entry slot = entry := update_self ..
  have away : ∀ other, other ≠ slot → update entries slot entry other = entries other :=
    fun other isOther => update_of_ne isOther ..
  have entryId : entry.state ≠ .free → entry.desc.id = id := by
    intro ran
    rw [descEq (stateEq ▸ ran), idEq]
  constructor
  · intro other ran
    by_cases same : other = slot
    · subst same
      rw [here] at ran ⊢
      rw [entryId ran, update_self, stateEq, descEq (stateEq ▸ ran)]
    · rw [away other same] at ran ⊢
      rw [update_of_ne fun sameId => same (alone other ran sameId)]
      exact ok.sound other ran
  · intro found given state isGiven ran
    by_cases same : found = id
    · subst same
      rw [update_self] at isGiven
      cases isGiven
      refine ⟨idEq, slot, ?_⟩
      rw [here, ← stateEq, ← descEq ran]
    rw [update_of_ne same] at isGiven
    obtain ⟨foundId, other, otherEq⟩ := ok.complete found given state isGiven ran
    refine ⟨foundId, other, ?_⟩
    rw [away other, otherEq]
    rintro rfl
    rw [otherEq] at own
    exact same (foundId.symm.trans (own ran))
  · intro first second
    by_cases isFirst : first = slot
    · subst isFirst
      intro ran otherTaken sameId
      by_contra ne
      rw [here] at ran sameId
      rw [away second (Ne.symm ne)] at otherTaken sameId
      exact ne (alone second otherTaken (sameId.symm.trans (entryId ran))).symm
    rw [away first isFirst]
    intro ran otherTaken sameId
    by_cases isSecond : second = slot
    · subst isSecond
      rw [here] at otherTaken sameId
      exact alone first ran (sameId.trans (entryId otherTaken))
    · rw [away second isSecond] at otherTaken sameId
      exact ok.distinct first second ran otherTaken sameId

variable {change : Entry Fields → Entry Fields}

theorem Implements.settle (ok : Implements registry.entries history)
    (stateEq : ∀ entry, (change entry).state = fate)
    (descEq : fate ≠ .free → ∀ entry, (change entry).desc = entry.desc) :
    Implements (registry.settle id change).entries (history.settle id fate) := by
  unfold Registry.settle
  cases found : registry.first fun entry => entry.state = .reserved ∧ entry.desc.id = id with
  | none =>
    have same : history.settle id fate = history := by
      unfold History.settle
      split
      · next desc isGiven =>
        obtain ⟨descId, slot, slotEq⟩ := ok.complete id desc .reserved isGiven nofun
        exact absurd (by simp [slotEq, descId]) (first_eq_none found slot)
      · rfl
    rw [same]
    exact ok
  | some slot =>
    obtain ⟨isReserved, idEq⟩ := of_decide_eq_true (first_eq_some found)
    have ran : (registry.entries slot).state ≠ .free := by
      rw [isReserved]
      exact nofun
    have isGiven := ok.sound slot ran
    rw [idEq, isReserved] at isGiven
    simp only [History.settle, isGiven]
    apply ok.store
    · exact fun _ => idEq
    · exact fun other otherTaken sameId => ok.distinct other slot otherTaken ran
        (sameId.trans idEq.symm)
    · exact idEq
    · exact stateEq _
    · exact fun notFree => descEq notFree _

theorem Inv.settle (inv : Inv state) (stateEq : ∀ entry, (change entry).state = fate)
    (descEq : fate ≠ .free → ∀ entry, (change entry).desc = entry.desc) : Inv { state with
      registry := state.registry.settle id change, history := state.history.settle id fate } := by
  refine ⟨inv.implements.settle stateEq descEq, ?_, inv.few, ?_, inv.issued, inv.nodup⟩
  · rw [← inv.next]
    unfold Registry.settle
    split <;> rfl
  intro other unissued
  have absent := inv.unissued other unissued
  unfold History.settle
  split
  · next desc isGiven =>
    have isOther : other ≠ id := by
      rintro rfl
      cases absent.symm.trans isGiven
    exact (update_of_ne isOther ..).trans absent
  · exact absent

theorem reserve_cases (desc : ModuleDesc Fields) (memory : Bool)
    (small : registry.nextId.toNat < 2 ^ 31) :
    moduleRegistryReserve registry desc memory = (-1, registry) ∨
      ∃ slot, (registry.entries slot).state = .free ∧
        moduleRegistryReserve registry desc memory = ((registry.nextId.toNat : Int),
          { entries := update registry.entries slot ⟨.reserved, { desc with id := registry.nextId }⟩
            nextId := registry.nextId + 1 }) := by
  unfold moduleRegistryReserve
  split
  · exact .inl rfl
  next slot found =>
  split
  · exact .inl rfl
  have positive : registry.nextId.toInt = registry.nextId.toNat := toInt_eq_toNat_of_lt (by omega)
  refine .inr ⟨slot, of_decide_eq_true (first_eq_some found), ?_⟩
  rw [← positive]

theorem Inv.reserve {zero : Fields} (inv : Inv state) (memory : Bool)
    (few : state.results.length + 1 < 2 ^ 31) : Inv (step zero state (.reserve desc memory)) := by
  have next := inv.next
  have unissued := inv.unissued state.registry.nextId next.ge
  rcases reserve_cases desc memory (next ▸ inv.few) with failed | ⟨slot, isFree, reserved⟩
  · simp only [step, failed, if_true]
    exact inv
  have valid : (state.registry.nextId.toNat : Int) ≠ -1 := by omega
  have sameId : BitVec.ofInt 32 (state.registry.nextId.toNat : Int) = state.registry.nextId := by
    rw [ofInt_natCast, ofNat_toNat, setWidth_eq]
  simp only [step, reserved, if_neg valid, sameId]
  constructor
  · apply inv.implements.store
    · exact fun ran => absurd isFree ran
    · intro other ran sameId
      have isGiven := inv.implements.sound other ran
      cases (sameId ▸ isGiven).symm.trans unissued
    · rfl
    · rfl
    · exact fun _ => rfl
  · rw [toNat_add_of_lt (by rw [next]; exact few.trans (by decide)), next]
    rfl
  · exact few
  · intro other later
    rw [length_cons] at later
    have isOther : other ≠ state.registry.nextId := by
      rintro rfl
      omega
    exact (update_of_ne isOther ..).trans (inv.unissued other (by omega))
  · intro result mem
    rw [length_cons]
    rcases mem_cons.mp mem with rfl | earlier
    · omega
    · have := inv.issued result earlier
      omega
  · rw [nodup_cons]
    refine ⟨fun mem => ?_, inv.nodup⟩
    have := (inv.issued _ mem).2
    omega

theorem Implements.ncard_eq (ok : Implements entries history) (wanted : RegistryState → Bool)
    (notFree : wanted .free = false) :
    {id | ∃ desc fate, history id = some (desc, fate) ∧ wanted fate}.ncard =
      (finRange 32).countP fun slot => wanted (entries slot).state := by
  have ran : ∀ slot, wanted (entries slot).state → (entries slot).state ≠ .free := by
    intro slot isWanted isFree
    rw [isFree, notFree] at isWanted
    cases isWanted
  have ids : {id | ∃ desc fate, history id = some (desc, fate) ∧ wanted fate} =
      (fun slot => (entries slot).desc.id) ''
        ((finRange 32).filter fun slot => wanted (entries slot).state).toFinset := by
    ext id
    constructor
    · rintro ⟨desc, fate, isGiven, isWanted⟩
      have fateTaken : fate ≠ .free := by
        rintro rfl
        cases notFree.symm.trans isWanted
      obtain ⟨idEq, slot, slotEq⟩ := ok.complete id desc fate isGiven fateTaken
      exact ⟨slot, by simpa [slotEq] using isWanted, by simpa [slotEq] using idEq⟩
    · rintro ⟨slot, mem, rfl⟩
      have isWanted : wanted (entries slot).state := by simpa using mem
      exact ⟨_, _, ok.sound slot (ran slot isWanted), isWanted⟩
  rw [ids, Set.InjOn.ncard_image, Set.ncard_coe_finset]
  · rw [toFinset_card_of_nodup ((nodup_finRange 32).filter _), countP_eq_length_filter]
  intro first firstWanted second secondWanted sameId
  apply ok.distinct first second
  · exact ran first (by simpa using firstWanted)
  · exact ran second (by simpa using secondWanted)
  · exact sameId

theorem Implements.find (ok : Implements registry.entries history) :
    (moduleRegistryFindById registry id).map (fun slot => (registry.entries slot).desc) =
      history.committed id := by
  unfold moduleRegistryFindById
  cases found : registry.first fun entry => entry.state = .committed ∧ entry.desc.id = id with
  | none =>
    unfold History.committed
    split
    · next desc isGiven =>
      obtain ⟨descId, slot, slotEq⟩ := ok.complete id desc .committed isGiven nofun
      exact absurd (by simp [slotEq, descId]) (first_eq_none found slot)
    · rfl
  | some slot =>
    obtain ⟨isCommitted, idEq⟩ := of_decide_eq_true (first_eq_some found)
    have isGiven := ok.sound slot (by rw [isCommitted]; exact nofun)
    rw [idEq, isCommitted] at isGiven
    simp only [History.committed, isGiven, Option.map_some]

theorem settle_entries (change : Entry Fields → Entry Fields) (slot : Fin 32) :
    (registry.entries slot).state = .reserved ∧ (registry.entries slot).desc.id = id ∨
      (registry.settle id change).entries slot = registry.entries slot := by
  unfold Registry.settle
  split
  · exact .inr rfl
  next changed found =>
  by_cases same : slot = changed
  · subst same
    exact .inl (of_decide_eq_true (first_eq_some found))
  · exact .inr (update_of_ne same ..)

theorem step_committed (zero : Fields) (action : Action Fields)
    (isCommitted : (state.registry.entries slot).state = .committed) :
    (step zero state action).registry.entries slot = state.registry.entries slot := by
  cases action with
  | findById | count => rfl
  | commit id | cancel id =>
    apply (settle_entries _ slot).resolve_left
    rw [isCommitted]
    exact nofun
  | reserve desc memory =>
    have kept : (moduleRegistryReserve state.registry desc memory).2.entries slot =
        state.registry.entries slot := by
      unfold moduleRegistryReserve
      split
      · rfl
      next free found =>
      split
      · rfl
      · apply update_of_ne
        rintro rfl
        cases isCommitted.symm.trans (of_decide_eq_true (first_eq_some found))
    simp only [step]
    split <;> exact kept

theorem run_committed {zero : Fields} {later : State Fields} {actions : List (Action Fields)}
    (isCommitted : (state.registry.entries slot).state = .committed)
    (ran : (system zero).run state actions = some later) :
    later.registry.entries slot = state.registry.entries slot := by
  induction actions generalizing state with
  | nil =>
    cases ran
    rfl
  | cons action actions ih =>
    have kept := step_committed zero action isCommitted
    rw [← kept]
    exact ih (by rw [kept]; exact isCommitted) ran

end Lemmas

/-- How the answers of a state come from the map of ids, and what further calls can change. -/
structure PartialMap (zero : Fields) (state : State Fields) : Prop where
  distinct : state.results.Nodup
  found : ∀ id, (moduleRegistryFindById state.registry id).map
    (fun slot => (state.registry.entries slot).desc) = state.history.committed id
  stable : ∀ id slot, moduleRegistryFindById state.registry id = some slot →
    ∀ actions later, (system zero).run state actions = some later →
      later.registry.entries slot = state.registry.entries slot
  settled : ∀ id slot,
    (state.registry.entries slot).state = .reserved ∧ (state.registry.entries slot).desc.id = id ∨
      (moduleRegistryCommit state.registry id).entries slot = state.registry.entries slot ∧
      (moduleRegistryCancel zero state.registry id).entries slot = state.registry.entries slot
  counted : moduleRegistryCount state.registry =
    {id | ∃ desc fate, state.history id = some (desc, fate) ∧ fate = .committed}.ncard
  bounded : {id | ∃ desc fate, state.history id = some (desc, fate) ∧ fate ≠ .free}.ncard ≤ 32
  failed : ∀ desc memory, (moduleRegistryReserve state.registry desc memory).1 = -1 →
    (moduleRegistryReserve state.registry desc memory).2 = state.registry

/-- After any calls with fewer than `2 ^ 31` reservations the registry is a partial map. -/
theorem registry_partialMap {zero : Fields} {state : State Fields}
    (reached : (system zero).ReachableWhere Few state) : PartialMap zero state := by
  have inv : Inv state := by
    refine reached.invariant ?_ fun state action after _ inv few ran => ?_
    · rintro _ rfl
      exact ⟨⟨nofun, nofun, nofun⟩, rfl, Nat.two_pow_pos 31, fun _ _ => rfl, nofun, .nil⟩
    cases ran
    cases action with
    | findById | count => exact inv
    | commit id => exact inv.settle (fun _ => rfl) fun _ _ => rfl
    | cancel id => exact inv.settle (fun _ => rfl) fun notFree => absurd rfl notFree
    | reserve desc memory => exact inv.reserve memory few
  constructor
  · exact inv.nodup
  · exact fun id => inv.implements.find
  · intro id slot found actions later ran
    exact run_committed (of_decide_eq_true (first_eq_some found)).1 ran
  · intro id slot
    apply or_and_left.mpr
    exact ⟨settle_entries _ slot, settle_entries _ slot⟩
  · have counted := inv.implements.ncard_eq (fun fate => fate = .committed) rfl
    simp only [decide_eq_true_eq] at counted
    exact counted.symm
  · have counted := inv.implements.ncard_eq (fun fate => fate ≠ .free) rfl
    simp only [decide_eq_true_eq] at counted
    rw [counted]
    exact countP_le_length
  · intro desc memory isFailed
    rcases reserve_cases desc memory (inv.next ▸ inv.few) with failed | ⟨slot, -, reserved⟩
    · rw [failed]
    · rw [reserved] at isFailed
      omega

def oneModule : State Unit :=
  step () (step () (bootState ()) (.reserve ⟨some [97], (), 7⟩ true)) (.commit 0)

theorem registry_partialMap_oneModule : moduleRegistryFindById oneModule.registry 0 = some 0 ∧
      (oneModule.registry.entries 0).desc.name = some [97] ∧ PartialMap () oneModule := by
  have few : Few (bootState ()) (.reserve ⟨some [97], (), 7⟩ true) := by
    change 0 + 1 < 2 ^ 31
    decide
  have reached : (system ()).ReachableWhere Few oneModule :=
    @TransitionSystem.ReachableWhere.next _ _ _ _ _ _ (.commit 0) (.next (.start rfl) few rfl)
      trivial rfl
  exact ⟨by decide +kernel, by decide +kernel, registry_partialMap reached⟩

end LaOS.Module
