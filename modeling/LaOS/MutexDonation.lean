import LaOS.MutexCredit
import LaOS.Tally

/-!
# Donation accounting

The counters of a thread follow the credits of the mutexes exactly, and its effective
priority is the least of the own and the donated ones.
-/

namespace LaOS.Mutex

open List Function

variable {donations : Priority → Nat}

theorem find_donation {donated : Priority}
    (found : (finRange priorityCount).find? (fun prio => donations prio ≠ 0) =
      some donated) :
    donations donated ≠ 0 ∧ ∀ prio, donations prio ≠ 0 → donated ≤ prio := by
  obtain ⟨nonzero, i, inRange, atIndex, before⟩ := find?_eq_some_iff_getElem.mp found
  refine ⟨by simpa using nonzero, fun prio counted => ?_⟩
  by_contra notLe
  have less := not_le.mp notLe
  have below : prio.val < i := by
    rw [getElem_finRange] at atIndex
    rwa [← atIndex] at less
  have skipped := before prio.val below
  simp at skipped
  exact counted skipped

theorem isLeast_effectivePriority (base : Priority) (donations : Priority → Nat) :
    IsLeast { prio | prio = base ∨ donations prio ≠ 0 }
      (effectivePriority base donations) := by
  unfold effectivePriority
  split
  next nobody =>
    refine ⟨.inl rfl, ?_⟩
    rintro prio (rfl | counted)
    · exact le_refl _
    · have absent := find?_eq_none.mp nobody prio (mem_finRange prio)
      exact absurd counted (by simpa using absent)
  next donated found =>
    obtain ⟨counted, least⟩ := find_donation found
    split
    next less =>
      refine ⟨.inr counted, ?_⟩
      rintro prio (rfl | countedToo)
      · exact Nat.le_of_lt less
      · exact least prio countedToo
    next notLess =>
      refine ⟨.inl rfl, ?_⟩
      rintro prio (rfl | countedToo)
      · exact le_refl _
      · exact le_trans (not_lt.mp notLess) (least prio countedToo)

theorem effectivePriority_eq_base {base : Priority} (nothing : ∀ prio, donations prio = 0) :
    effectivePriority base donations = base := by
  rcases (isLeast_effectivePriority base donations).1 with isBase | counted
  · exact isBase
  · exact absurd (nothing _) counted

variable {old : Option Priority}

theorem withdrawDonation_ok {withdrawn : Priority → Nat}
    (succeeds : withdrawDonation donations old = .ok withdrawn) (prio : Priority) :
    withdrawn prio + (if old = some prio then 1 else 0) = donations prio := by
  cases old with
  | none =>
    cases succeeds
    simp
  | some removed =>
    simp only [withdrawDonation] at succeeds
    split at succeeds <;> cases succeeds
    by_cases same : prio = removed
    · subst same
      simp only [update_self, if_true]
      omega
    · simp [same, Ne.symm same]

variable {result : Priority → Nat} {new : Option Priority}

theorem depositDonation_ok (succeeds : depositDonation donations new = .ok result)
    (prio : Priority) :
    result prio = donations prio + (if new = some prio then 1 else 0) := by
  cases new with
  | none =>
    cases succeeds
    simp
  | some added =>
    simp only [depositDonation] at succeeds
    split at succeeds <;> cases succeeds
    by_cases same : prio = added
    · subst same
      simp
    · simp [same, Ne.symm same]

theorem updateDonation_ok (updated : updateDonation donations old new = .ok result)
    (prio : Priority) : result prio + (if old = some prio then 1 else 0) =
      donations prio + (if new = some prio then 1 else 0) := by
  unfold updateDonation at updated
  cases withdrawnEq : withdrawDonation donations old with
  | error =>
    rw [withdrawnEq] at updated
    cases updated
  | ok withdrawn =>
    rw [withdrawnEq] at updated
    rw [depositDonation_ok updated, ← withdrawDonation_ok withdrawnEq]
    omega

theorem updateDonation_ne_missing
    (counted : ∀ prio, old = some prio → donations prio ≠ 0) :
    updateDonation donations old new ≠ .error .missingDonation := by
  have deposits : ∀ withdrawn, depositDonation withdrawn new ≠ .error .missingDonation := by
    intro withdrawn
    cases new with
    | none => nofun
    | some added =>
      simp only [depositDonation]
      split <;> nofun
  unfold updateDonation
  cases old with
  | none => exact deposits donations
  | some removed =>
    simp only [withdrawDonation, counted removed rfl, if_false]
    exact deposits _

variable {Id Thread : Type}

def Share.Applied (share : Share Thread) : Prop :=
  share.priority = effectivePriority share.basePriority share.piDonations

def ShareInv (s : State Id Thread) : Prop :=
  Guarded Share.piLock (fun _ share => share.Applied)
    (fun _ _ share stage => stage = .release → share.Applied) s.piPosition s.share

structure AccountInv [Fintype Id] [DecidableEq Thread] (s : State Id Thread) : Prop where
  counted : ∀ t priority, s.piDonations t priority =
    tally (fun id => (s.mutex id).credit) (t, priority)
  unfailed : s.panic ≠ some .missingDonation

section Steps

variable {policy : Id → Policy} {s after : State Id Thread}

variable [DecidableEq Thread]

theorem AccountInv.same [Fintype Id] (inv : AccountInv s)
    (donationsEq : after.piDonations = s.piDonations)
    (accounts : SameAccounts s after) : AccountInv after := by
  have credits : (fun id => (after.mutex id).credit) = fun id => (s.mutex id).credit :=
    funext accounts.credit
  refine ⟨fun t prio => ?_, ?_⟩
  · rw [donationsEq, credits]
    exact inv.counted t prio
  · rw [accounts.panic]
    exact inv.unfailed

variable [DecidableEq Id]

theorem ShareInv.step (inv : ShareInv s) (ran : PiStep s after) : ShareInv after := by
  unfold ShareInv at inv ⊢
  have holds : ∀ {self target stage}, s.piPosition self = some (target, stage) →
      (s.share target).piLock = some self := fun {self target stage} =>
    inv.holds self target stage
  cases ran with
  | same positionEq shareEq =>
    rw [positionEq, shareEq]
    exact inv
  | acquire self target isFree positionEq shareEq =>
    rw [positionEq, shareEq]
    exact inv.acquire isFree rfl nofun
  | rebase self target prio selfAt positionEq shareEq =>
    rw [positionEq, shareEq]
    exact inv.step selfAt (holds selfAt) nofun
  | donate self id target donation donations selfAt updated afterEq =>
    subst afterEq
    have pos := State.piPosition_eq selfAt
    rw [State.piPosition_goto]
    change Guarded _ _ _ _ (s.storeDonations target donations).share
    rw [State.share_storeDonations]
    exact inv.step pos (holds pos) nofun
  | fail self id target donation panic selfAt failed afterEq =>
    subst afterEq
    exact inv
  | apply self target selfAt positionEq shareEq =>
    rw [positionEq, shareEq, State.share_applyEffectivePriority]
    exact inv.step selfAt (holds selfAt) fun _ => rfl
  | release self target selfAt positionEq shareEq =>
    rw [positionEq, shareEq]
    exact inv.release selfAt (inv.inside self target .release selfAt rfl)

theorem shareInv_of_reachable (reached : (system policy).Reachable s) : ShareInv s := by
  refine reached.invariant ?_ fun _ _ _ _ inv ran => inv.step (step_views ran).pi
  rintro first ⟨basePriority, rfl⟩
  refine ⟨fun t _ => ?_, nofun, nofun⟩
  exact (effectivePriority_eq_base fun _ => rfl).symm

variable [Fintype Id]

theorem AccountInv.donate (inv : AccountInv s) {id : Id} {target : Thread}
    (creditEq : (s.mutex id).credit = pledge (some target) old)
    (updated : updateDonation (s.piDonations target) old new = .ok donations)
    (donationsEq : after.piDonations = update s.piDonations target donations)
    (creditsEq : (fun id => (after.mutex id).credit) =
      update (fun id => (s.mutex id).credit) id (pledge (some target) new))
    (panicEq : after.panic = s.panic) : AccountInv after := by
  refine ⟨fun t prio => ?_, ?_⟩
  · have moved := tally_update (fun id => (s.mutex id).credit) id (pledge (some target) new)
      (t, prio)
    rw [← creditsEq, ← inv.counted, creditEq] at moved
    rw [donationsEq]
    by_cases same : t = target
    · subst same
      have balance := updateDonation_ok updated prio
      simp only [pledge_eq_some, true_and] at moved
      rw [update_self]
      omega
    · simp only [pledge_eq_some, Option.some.injEq, Ne.symm same, false_and, if_false] at moved
      rw [update_of_ne same]
      omega
  · rw [panicEq]
    exact inv.unfailed

theorem AccountInv.step (inv : AccountInv s) (credit : CreditInv s)
    (ran : PiStep s after) : AccountInv after := by
  cases ran with
  | same _ shareEq accounts =>
    exact inv.same (funext fun t => congrArg Share.piDonations (congrFun shareEq t))
      accounts
  | acquire self target isFree positionEq shareEq accounts
  | rebase self target prio selfAt positionEq shareEq accounts
  | release self target selfAt positionEq shareEq accounts =>
    exact inv.same (funext (share_field_of_update Share.piDonations shareEq rfl)) accounts
  | apply self target selfAt positionEq shareEq accounts =>
    rw [State.share_applyEffectivePriority] at shareEq
    exact inv.same (funext (share_field_of_update Share.piDonations shareEq rfl)) accounts
  | donate self id target donation donations selfAt updated afterEq =>
    obtain ⟨owned, -, donated, settled⟩ := credit.ok selfAt
    have creditEq : (s.mutex id).credit = pledge (some target) donation.old := by
      rw [settled, owned, donated]
    subst afterEq
    refine inv.donate creditEq updated rfl ?_ rfl
    exact comp_update Fields.credit s.mutex id _
  | fail self id target donation panic selfAt failed afterEq =>
    obtain ⟨owned, -, donated, settled⟩ := credit.ok selfAt
    have counted : ∀ prio, donation.old = some prio →
        s.piDonations target prio ≠ 0 := by
      intro prio oldEq
      have entry : (s.mutex id).credit = some (target, prio) := by
        rw [settled, owned, donated, oldEq]
        rfl
      rw [inv.counted]
      exact Nat.ne_of_gt (tally_pos entry)
    subst afterEq
    refine ⟨inv.counted, ?_⟩
    intro isMissing
    cases isMissing
    exact updateDonation_ne_missing counted failed

theorem accountInv_of_reachable (reached : (system policy).Reachable s) : AccountInv s := by
  refine reached.invariant ?_ fun _ _ _ before inv ran =>
    inv.step (creditInv_of_reachable before) (step_views ran).pi
  rintro first ⟨basePriority, rfl⟩
  exact ⟨fun _ _ => (tally_eq_zero nofun).symm, nofun⟩

/-- While no lock is held, the donation counters are exact and the effective priority is
the least of the own and the donated ones; no withdrawal finds its counter at zero. -/
theorem donation_accounting (reached : (system policy).Reachable s) :
    s.panic ≠ some .missingDonation ∧
      ((∀ id, (s.mutex id).waitersLock = none) → (∀ t, s.piLock t = none) →
        ∀ t, (∀ prio, s.piDonations t prio =
            (Finset.univ.filter fun id => (s.mutex id).owner = some t ∧
              (s.mutex id).donatedPriority = some prio).card) ∧
          IsLeast { prio | prio = s.basePriority t ∨
            s.piDonations t prio ≠ 0 } (s.priority t) ∧
          ((∀ id, (s.mutex id).owner = some t → (s.mutex id).waiters = []) →
            s.priority t = s.basePriority t)) := by
  have account := accountInv_of_reachable reached
  have credit := creditInv_of_reachable reached
  refine ⟨account.unfailed, fun mutexesFree threadsFree t => ?_⟩
  have settled : ∀ id, Settled (s.mutex id) := fun id =>
    (credit.free id (mutexesFree id)).1
  have effective : s.priority t =
      effectivePriority (s.basePriority t) (s.piDonations t) :=
    (shareInv_of_reachable reached).free t (threadsFree t)
  rw [effective]
  refine ⟨fun prio => ?_, isLeast_effectivePriority _ _, fun uncontended => ?_⟩
  · rw [account.counted, tally]
    congr 1
    refine Finset.filter_congr fun id _ => ?_
    rw [settled id, pledge_eq_some]
  refine effectivePriority_eq_base fun prio => ?_
  rw [account.counted]
  refine tally_eq_zero fun id counted => ?_
  have owned : (s.mutex id).owner = some t := by
    rw [settled id] at counted
    exact (pledge_eq_some.mp counted).1
  have uncounted := (credit.free id (mutexesFree id)).2 (uncontended id owned)
  rw [uncounted] at counted
  cases counted

end Steps

def lowHighHigh (t : Fin 3) : Priority :=
  if t = 0 then 32 else 10

/-- Thread 0 holds two raw mutexes, and threads 1 and 2, both of higher
priority, are queued on one of them each. -/
def twoDonations : State (Fin 2) (Fin 3) :=
  ((system fun _ => .raw).run (initialState lowHighHigh) (List.flatten
      [[.dispatch 0, .dispatch 1, .dispatch 2], .callLock 0 0 :: List.replicate 5 (.exec 0),
        .callLock 0 1 :: List.replicate 5 (.exec 0),
        .callLock 1 0 :: List.replicate 12 (.exec 1),
        .callLock 2 1 :: List.replicate 12 (.exec 2)])).getD (initialState lowHighHigh)

theorem donation_accounting_twoDonations :
    twoDonations.piDonations 0 10 = 2 ∧ twoDonations.priority 0 = 10 ∧
      IsLeast { prio | prio = twoDonations.basePriority 0 ∨
        twoDonations.piDonations 0 prio ≠ 0 } (twoDonations.priority 0) := by
  have reached : (system fun _ => .raw).Reachable twoDonations :=
    (reachable_initialState _).getD_run _
  have accounting := (donation_accounting reached).2 (by decide +kernel) (by decide +kernel) 0
  exact ⟨by decide +kernel, by decide +kernel, accounting.2.1⟩

end LaOS.Mutex
