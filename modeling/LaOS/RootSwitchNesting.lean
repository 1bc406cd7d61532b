import LaOS.RootSwitchMoves

/-!
# Interrupted activations

What happens to the choices when an activation of `__schedule` is interrupted by
another one of the same thread, and when it goes on.
-/

namespace LaOS.RootSwitch

open List Function
open Runqueue (Config Context Pc)

variable {Cpu Agent Thread : Type} {cfg : Config Cpu Thread}
  {sched : Runqueue.State Cpu Agent Thread} {notes : Notes Cpu Thread}
  {outer changed : Thread → List Thread} {cpu : Cpu} {next : Thread}

theorem CpuOk.of_outer {pc : Pc Thread} (ok : CpuOk cfg sched outer cpu pc)
    (unclaimed : ∀ t, cfg.home t = cpu → ∀ prev, t ∈ changed prev →
      t ∈ outer prev) : CpuOk cfg sched changed cpu pc := by
  have keeps : ∀ chosen, Claim cfg sched cpu chosen → Unclaimed cfg outer cpu chosen →
      Unclaimed cfg changed cpu chosen := by
    intro chosen claim isUnclaimed
    exact isUnclaimed.imp_right fun notIn prev isIn =>
      notIn prev (unclaimed chosen claim.home prev isIn)
  cases pc with
  | setPrev next =>
    exact ⟨ok.1, ok.2.imp_right fun both => ⟨both.1, keeps next both.1 both.2⟩⟩
  | setCurrent next => exact ⟨ok.1, ok.2.1, keeps next ok.2.1 ok.2.2.1, ok.2.2.2⟩
  | _ => exact ok

variable [DecidableEq Thread]

theorem Suspended.push (suspended : Suspended cfg sched outer) {prev : Thread}
    (claim : Claim cfg sched (cfg.home prev) next)
    (unclaimed : Unclaimed cfg outer (cfg.home prev) next) (ne : next ≠ prev)
    (exited : sched.status prev = .zombie → next = cfg.idle (cfg.home prev)) :
    Suspended cfg sched (update outer prev (next :: outer prev)) := by
  have stored : update outer prev (next :: outer prev) prev = next :: outer prev := update_self ..
  have kept : ∀ other, other ≠ prev →
      update outer prev (next :: outer prev) other = outer other :=
    fun other apart => update_of_ne apart ..
  have members : ∀ other chosen,
      chosen ∈ update outer prev (next :: outer prev) other →
        other = prev ∧ chosen = next ∨ chosen ∈ outer other := by
    intro other chosen isIn
    by_cases same : other = prev
    · subst same
      rw [stored, mem_cons] at isIn
      exact isIn.imp_left fun isNext => ⟨rfl, isNext⟩
    · rw [kept other same] at isIn
      exact .inr isIn
  have extended : ∀ property : Thread → Thread → Prop, property prev next →
      (∀ other, ∀ chosen ∈ outer other, property other chosen) →
      ∀ other, ∀ chosen ∈ update outer prev (next :: outer prev) other, property other chosen := by
    intro property ofNext before other chosen isIn
    rcases members other chosen isIn with ⟨rfl, rfl⟩ | wasIn
    · exact ofNext
    · exact before other chosen wasIn
  refine ⟨extended _ claim suspended.claim, extended _ ne suspended.different,
    extended _ exited suspended.exited, ?_, ?_⟩
  · intro other
    by_cases same : other = prev
    · subst same
      rw [stored]
      refine pairwise_cons.mpr ⟨fun later isIn equal => ?_, suspended.once other⟩
      exact unclaimed.resolve_right fun notIn => notIn other (equal ▸ isIn)
    · rw [kept other same]
      exact suspended.once other
  · intro first second chosen apart inFirst inSecond
    rcases members first chosen inFirst with ⟨rfl, rfl⟩ | beforeFirst
    · rcases members second chosen inSecond with ⟨rfl, -⟩ | beforeSecond
      · exact absurd rfl apart
      · exact unclaimed.resolve_right fun notIn => notIn second beforeSecond
    rcases members second chosen inSecond with ⟨rfl, rfl⟩ | beforeSecond
    · have isIdle := unclaimed.resolve_right fun notIn => notIn first beforeFirst
      rw [isIdle]
      exact suspended.unclaimed_idle first (isIdle ▸ beforeFirst)
    · exact suspended.apart first second chosen apart beforeFirst beforeSecond

variable {rest : List Thread}

theorem Suspended.pop (suspended : Suspended cfg sched outer) {prev : Thread}
    (isOuter : outer prev = next :: rest) : Suspended cfg sched (update outer prev rest) ∧
      Unclaimed cfg (update outer prev rest) (cfg.home prev) next := by
  have stored : update outer prev rest prev = rest := update_self ..
  have kept : ∀ other, other ≠ prev → update outer prev rest other = outer other :=
    fun other apart => update_of_ne apart ..
  have members : ∀ other chosen, chosen ∈ update outer prev rest other →
      chosen ∈ outer other := by
    intro other chosen isIn
    by_cases same : other = prev
    · subst same
      rw [stored] at isIn
      rw [isOuter]
      exact mem_cons_of_mem next isIn
    · rwa [kept other same] at isIn
  have isFirst : next ∈ outer prev := by
    rw [isOuter]
    exact mem_cons_self
  have ordered := suspended.once prev
  rw [isOuter, pairwise_cons] at ordered
  refine ⟨⟨?_, ?_, ?_, ?_, ?_⟩, ?_⟩
  · exact fun other chosen isIn => suspended.claim other chosen (members other chosen isIn)
  · exact fun other chosen isIn => suspended.different other chosen (members other chosen isIn)
  · exact fun other chosen isIn => suspended.exited other chosen (members other chosen isIn)
  · intro other
    by_cases same : other = prev
    · subst same
      rw [stored]
      exact ordered.2
    · rw [kept other same]
      exact suspended.once other
  · exact fun first second chosen apart inFirst inSecond => suspended.apart first second chosen
      apart (members first chosen inFirst) (members second chosen inSecond)
  · by_cases isIdle : next = cfg.idle (cfg.home prev)
    · exact .inl isIdle
    refine .inr fun other isIn => isIdle ?_
    by_cases same : other = prev
    · subst same
      rw [stored] at isIn
      exact ordered.1 next isIn rfl
    · exact suspended.apart prev other next (fun equal => same equal.symm) isFirst
        (members other next isIn)

variable [DecidableEq Cpu] [DecidableEq Agent]

omit [DecidableEq Thread] in
theorem Inv.reactivate (inv : Inv cfg sched notes) (unswitched : notes.switched cpu = false)
    {pc : Pc Thread} (suspended : Suspended cfg sched changed)
    (ok : CpuOk cfg sched changed cpu pc)
    (elsewhere : ∀ t, cfg.home t ≠ cpu → ∀ prev, t ∈ changed prev →
      t ∈ notes.outer prev) :
    Inv cfg (sched.goto (.cpu cpu) pc) { notes with outer := changed } := by
  have moved : Quiet cfg sched (sched.goto (.cpu cpu) pc) := .of_eq rfl rfl rfl rfl
  have pcOf : ∀ other, other ≠ cpu →
      (sched.goto (.cpu cpu) pc).pc (.cpu other) = sched.pc (.cpu other) :=
    fun other ne => pc_goto_of_ne (fun equal => ne (Context.cpu.inj equal)) pc
  refine ⟨moved.links inv.links, suspended.undisturbed moved.undisturbed, ?_, ?_, ?_, ?_, inv.gone⟩
  · intro other
    by_cases same : other = cpu
    · subst same
      rw [pc_goto_self]
      exact (moved.undisturbed other).cpuOk (inv.links.home other) (fun _ => id) ok
    rw [pcOf other same]
    refine (moved.undisturbed other).cpuOk (inv.links.home other) (fun _ => id) ?_
    refine (inv.cpus other).of_outer fun t home => elsewhere t ?_
    rwa [home]
  · intro agent
    have ne : (.agent agent : Context Cpu Agent) ≠ .cpu cpu := nofun
    rw [pc_goto_of_ne ne]
    exact inv.agents agent
  · exact fun other t isLoaded =>
      (moved.undisturbed other).loadedOk (inv.loaded other t isLoaded)
  · exact inv.switched_elsewhere unswitched pcOf

theorem Inv.interrupt (inv : Inv cfg sched notes) (unswitched : notes.switched cpu = false)
    (pcAt : sched.pc (.cpu cpu) = .setCurrent next) :
    Inv cfg (sched.goto (.cpu cpu) .zombieTest) { notes with
      outer := update notes.outer (sched.current cpu)
        (next :: notes.outer (sched.current cpu)) } := by
  obtain ⟨ne, claim, unclaimed, exited⟩ :
      CpuOk cfg sched notes.outer cpu (.setCurrent next) := pcAt ▸ inv.cpus cpu
  have home := inv.links.home cpu
  refine inv.reactivate unswitched ?_ trivial ?_
  · refine inv.suspended.push ?_ ?_ ne ?_
    all_goals rwa [home]
  intro t elsewhere prev isIn
  by_cases same : prev = sched.current cpu
  · subst same
    rw [update_self, mem_cons] at isIn
    refine isIn.resolve_left ?_
    rintro rfl
    exact elsewhere claim.home
  · rwa [update_of_ne same] at isIn

theorem Inv.resume (inv : Inv cfg sched notes) (pcAt : sched.pc (.cpu cpu) = .idle)
    (isOuter : notes.outer (sched.current cpu) = next :: rest) :
    Inv cfg (sched.goto (.cpu cpu) (.setCurrent next)) { notes with
      outer := update notes.outer (sched.current cpu) rest } := by
  have isFirst : next ∈ notes.outer (sched.current cpu) := by
    rw [isOuter]
    exact mem_cons_self
  have home := inv.links.home cpu
  obtain ⟨suspended, unclaimed⟩ := inv.suspended.pop isOuter
  have claim := inv.suspended.claim _ next isFirst
  have exited := inv.suspended.exited _ next isFirst
  rw [home] at unclaimed claim exited
  refine inv.reactivate (inv.unswitched fun next isAt => nomatch pcAt.symm.trans isAt) suspended
    ⟨inv.suspended.different _ next isFirst, claim, unclaimed, exited⟩ ?_
  intro t _ prev isIn
  by_cases same : prev = sched.current cpu
  · subst same
    rw [update_self] at isIn
    rw [isOuter]
    exact mem_cons_of_mem next isIn
  · rwa [update_of_ne same] at isIn

end LaOS.RootSwitch
