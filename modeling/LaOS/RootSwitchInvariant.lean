import LaOS.RootSwitch
import LaOS.RunqueueInvariant

/-!
# Which threads a CPU can switch to

No activation of `__schedule` chooses a thread that has exited.  This does not need the
agreement of lists, flags and counters, which `thread_set_priority` can spoil.
-/

namespace LaOS

namespace Runqueue

def Node.admitted {Cpu Agent : Type} : Node Cpu Agent → Bool
  | .fresh | .entering _ => false
  | _ => true

end Runqueue

namespace RootSwitch

open Runqueue (Config Context Kind Pc)
open Sched (Status)

variable {Cpu Agent Thread : Type} (cfg : Config Cpu Thread)

section

variable (s : Runqueue.State Cpu Agent Thread)

/-- The threads on the lists, those that have exited, and the current ones. -/
structure Links : Prop where
  home : ∀ cpu, cfg.home (s.current cpu) = cpu
  idle : ∀ cpu, s.status (cfg.idle cpu) ≠ .zombie
  admitted : ∀ t, s.status t = .zombie → (s.node t).admitted = true
  linked : ∀ kind cpu t, (s.queue (kind, cpu)).Linked t →
    cfg.home t = cpu ∧ (s.node t).admitted = true
  zombies : ∀ cpu t, (s.queue (.zombie, cpu)).Linked t → s.status t = .zombie

/-- The thread is on a list of the CPU, or was taken from one. -/
def Member (cpu : Cpu) (t : Thread) : Prop :=
  cfg.home t = cpu ∧ (s.node t).admitted = true

def Candidate (cpu : Cpu) (t : Thread) : Prop :=
  Member cfg s cpu t ∧ s.status t ≠ .zombie ∧ s.status t ≠ .running

def Promoted (cpu : Cpu) (t : Thread) : Prop :=
  Member cfg s cpu t ∧ s.status t = .running ∧ t ≠ s.current cpu

def Claim (cpu : Cpu) (next : Thread) : Prop :=
  next = cfg.idle cpu ∨ Promoted cfg s cpu next

variable (outer : Thread → List Thread)

/-- The choices of the interrupted activations.  No thread but an idle one is the
choice of two of them. -/
structure Suspended : Prop where
  claim : ∀ prev, ∀ next ∈ outer prev, Claim cfg s (cfg.home prev) next
  different : ∀ prev, ∀ next ∈ outer prev, next ≠ prev
  exited : ∀ prev, ∀ next ∈ outer prev, s.status prev = .zombie →
    next = cfg.idle (cfg.home prev)
  once : ∀ prev, (outer prev).Pairwise fun next later =>
    next = later → next = cfg.idle (cfg.home prev)
  apart : ∀ prev other next, prev ≠ other → next ∈ outer prev → next ∈ outer other →
    next = cfg.idle (cfg.home prev)

/-- No interrupted activation has chosen the thread, unless it is idle. -/
def Unclaimed (cpu : Cpu) (next : Thread) : Prop :=
  next = cfg.idle cpu ∨ ∀ prev, next ∉ outer prev

def CpuOk (cpu : Cpu) : Pc Thread → Prop
  | .unlink prev | .unlinkClear prev | .zombieLink prev | .zombieFlag prev =>
    prev = s.current cpu ∧ s.status prev = .zombie
  | .checkZombies =>
    s.status (s.current cpu) = .zombie → (s.queue (.zombie, cpu)).count ≠ 0
  | .readCount | .lockQueue | .scanRank _ => s.status (s.current cpu) ≠ .zombie
  | .scan _ _ rest =>
    s.status (s.current cpu) ≠ .zombie ∧ ∀ pos ∈ rest, Member cfg s cpu pos
  | .scanSleeper _ _ pos rest =>
    s.status (s.current cpu) ≠ .zombie ∧
      ∀ other ∈ pos :: rest, Member cfg s cpu other
  | .keepPrev found =>
    s.status (s.current cpu) ≠ .zombie ∧
      ∀ next ∈ found.map Prod.fst, Candidate cfg s cpu next
  | .rotate next _ | .rotateLink next _ =>
    s.status (s.current cpu) ≠ .zombie ∧ Candidate cfg s cpu next
  | .setNext next =>
    s.status (s.current cpu) ≠ .zombie ∧
      (next = cfg.idle cpu ∨ next = s.current cpu ∨ Candidate cfg s cpu next)
  | .setPrev next =>
    s.status (s.current cpu) ≠ .zombie ∧
      (next = s.current cpu ∨ Claim cfg s cpu next ∧ Unclaimed cfg outer cpu next)
  | .setCurrent next =>
    next ≠ s.current cpu ∧ Claim cfg s cpu next ∧ Unclaimed cfg outer cpu next ∧
      (s.status (s.current cpu) = .zombie → next = cfg.idle cpu)
  | _ => True

end

/-- What is remembered of a run: the choices of interrupted activations, whose root a CPU has
loaded, whether it has yet to store `current`, and for whom `thread_destroy` has begun. -/
structure Notes (Cpu Thread : Type) where
  outer : Thread → List Thread
  loaded : Cpu → Option Thread
  switched : Cpu → Bool
  destroying : Thread → Bool

/-- A CPU has loaded the root of a thread that has not exited, or of the exited
thread that it is about to leave. -/
def LoadedOk (s : Runqueue.State Cpu Agent Thread) (switched : Bool) (cpu : Cpu)
    (t : Thread) : Prop :=
  Member cfg s cpu t ∧
    (s.status t ≠ .zombie ∨ t = s.current cpu ∧ switched = false)

structure Inv (s : Runqueue.State Cpu Agent Thread) (notes : Notes Cpu Thread) : Prop where
  links : Links cfg s
  suspended : Suspended cfg s notes.outer
  cpus : ∀ cpu, CpuOk cfg s notes.outer cpu (s.pc (.cpu cpu))
  agents : ∀ agent, Runqueue.AgentOk s.node agent (s.pc (.agent agent))
  loaded : ∀ cpu, ∀ t ∈ notes.loaded cpu, LoadedOk cfg s (notes.switched cpu) cpu t
  switched : ∀ cpu, notes.switched cpu = true → ∃ next, s.pc (.cpu cpu) = .setCurrent next
  gone : ∀ t, notes.destroying t = true →
    s.status t = .zombie ∨ s.node t = .fresh

structure Undisturbed (cpu : Cpu) (s after : Runqueue.State Cpu Agent Thread) : Prop where
  current : after.current cpu = s.current cpu
  admitted : ∀ t, (s.node t).admitted = true → (after.node t).admitted = true
  zombie : ∀ t, cfg.home t = cpu →
    (after.status t = .zombie ↔ s.status t = .zombie)
  running : ∀ t, Member cfg s cpu t →
    (after.status t = .running ↔ s.status t = .running)

variable {cfg} {s after : Runqueue.State Cpu Agent Thread} {outer : Thread → List Thread}
  {notes : Notes Cpu Thread} {cpu : Cpu} {next : Thread}

theorem Inv.unswitched (inv : Inv cfg s notes)
    (notAt : ∀ next, s.pc (.cpu cpu) ≠ .setCurrent next) : notes.switched cpu = false := by
  cases isSwitched : notes.switched cpu with
  | false => rfl
  | true =>
    obtain ⟨next, pcAt⟩ := inv.switched cpu isSwitched
    exact absurd pcAt (notAt next)

theorem Inv.switched_elsewhere (inv : Inv cfg s notes)
    (unswitched : notes.switched cpu = false)
    (pcs : ∀ other, other ≠ cpu → after.pc (.cpu other) = s.pc (.cpu other)) (other : Cpu)
    (isSwitched : notes.switched other = true) :
    ∃ next, after.pc (.cpu other) = .setCurrent next := by
  have apart : other ≠ cpu := by
    rintro rfl
    cases unswitched.symm.trans isSwitched
  rw [pcs other apart]
  exact inv.switched other isSwitched

theorem Claim.home (claim : Claim cfg s cpu next) : cfg.home next = cpu := by
  rcases claim with rfl | promoted
  · exact cfg.home_idle cpu
  · exact promoted.1.1

namespace Undisturbed

variable (same : Undisturbed cfg cpu s after)

include same

theorem mem (mem : Member cfg s cpu next) : Member cfg after cpu next :=
  ⟨mem.1, same.admitted next mem.2⟩

theorem candidate (candidate : Candidate cfg s cpu next) :
    Candidate cfg after cpu next := by
  obtain ⟨mem, alive, notRunning⟩ := candidate
  refine ⟨same.mem mem, ?_, ?_⟩
  · rwa [ne_eq, same.zombie next mem.1]
  · rwa [ne_eq, same.running next mem]

theorem claim (claim : Claim cfg s cpu next) : Claim cfg after cpu next := by
  refine claim.imp_right fun promoted => ?_
  obtain ⟨mem, running, notCurrent⟩ := promoted
  refine ⟨same.mem mem, (same.running next mem).mpr running, ?_⟩
  rwa [same.current]

theorem cpuOk (home : cfg.home (s.current cpu) = cpu) {pc : Pc Thread}
    (count : pc = .checkZombies → (s.queue (.zombie, cpu)).count ≠ 0 →
      (after.queue (.zombie, cpu)).count ≠ 0)
    (ok : CpuOk cfg s outer cpu pc) : CpuOk cfg after outer cpu pc := by
  have dead := same.zombie _ home
  have alive : s.status (s.current cpu) ≠ .zombie →
      after.status (after.current cpu) ≠ .zombie := by
    rw [same.current, ne_eq, ne_eq, dead]
    exact id
  cases pc with
  | unlink prev | unlinkClear prev | zombieLink prev | zombieFlag prev =>
    obtain ⟨rfl, exited⟩ := ok
    exact ⟨same.current.symm, dead.mpr exited⟩
  | checkZombies =>
    intro exited
    rw [same.current, dead] at exited
    exact count rfl (ok exited)
  | readCount | lockQueue | scanRank _ => exact alive ok
  | scan _ _ rest | scanSleeper _ _ pos rest =>
    exact ⟨alive ok.1, fun t isIn => same.mem (ok.2 t isIn)⟩
  | keepPrev found => exact ⟨alive ok.1, fun t isIn => same.candidate (ok.2 t isIn)⟩
  | rotate next _ | rotateLink next _ => exact ⟨alive ok.1, same.candidate ok.2⟩
  | setNext next =>
    refine ⟨alive ok.1, ?_⟩
    rw [same.current]
    exact ok.2.imp_right (Or.imp_right same.candidate)
  | setPrev next =>
    refine ⟨alive ok.1, ?_⟩
    rw [same.current]
    exact ok.2.imp_right fun both => ⟨same.claim both.1, both.2⟩
  | setCurrent next =>
    obtain ⟨notCurrent, claim, unclaimed, exited⟩ := ok
    refine ⟨?_, same.claim claim, unclaimed, ?_⟩
    · rwa [same.current]
    · rwa [same.current, dead]
  | _ => trivial

theorem loadedOk {switched : Bool} (loaded : LoadedOk cfg s switched cpu next) :
    LoadedOk cfg after switched cpu next := by
  refine ⟨same.mem loaded.1, ?_⟩
  rw [same.current, ne_eq, same.zombie next loaded.1.1]
  exact loaded.2

end Undisturbed

theorem Suspended.undisturbed (suspended : Suspended cfg s outer)
    (same : ∀ cpu, Undisturbed cfg cpu s after) : Suspended cfg after outer where
  claim prev next isIn := (same _).claim (suspended.claim prev next isIn)
  different := suspended.different
  exited prev next isIn exited :=
    suspended.exited prev next isIn (((same _).zombie prev rfl).mp exited)
  once := suspended.once
  apart := suspended.apart

/-- A step that leaves `current` alone, and the statuses as far as they matter. -/
structure Quiet (cfg : Config Cpu Thread) (s after : Runqueue.State Cpu Agent Thread) :
    Prop where
  current : after.current = s.current
  count : ∀ cpu, s.pc (.cpu cpu) = .checkZombies → (s.queue (.zombie, cpu)).count ≠ 0 →
    (after.queue (.zombie, cpu)).count ≠ 0
  admitted : ∀ t, (s.node t).admitted = true → (after.node t).admitted = true
  zombie : ∀ t, after.status t = .zombie ↔ s.status t = .zombie
  running : ∀ t, (s.node t).admitted = true →
    (after.status t = .running ↔ s.status t = .running)
  linked : ∀ kind cpu t, (after.queue (kind, cpu)).Linked t →
    (s.queue (kind, cpu)).Linked t ∨
      Member cfg after cpu t ∧ (kind = .zombie → s.status t = .zombie)

namespace Quiet

variable (quiet : Quiet cfg s after)

include quiet

theorem undisturbed (cpu : Cpu) : Undisturbed cfg cpu s after where
  current := congrFun quiet.current cpu
  admitted := quiet.admitted
  zombie t _ := quiet.zombie t
  running t mem := quiet.running t mem.2

theorem links (links : Links cfg s) : Links cfg after where
  home cpu := by
    rw [quiet.current]
    exact links.home cpu
  idle cpu := by
    rw [ne_eq, quiet.zombie]
    exact links.idle cpu
  admitted t exited :=
    quiet.admitted t (links.admitted t ((quiet.zombie t).mp exited))
  linked kind cpu t isLinked := by
    rcases quiet.linked kind cpu t isLinked with wasLinked | ⟨mem, -⟩
    · obtain ⟨atHome, admitted⟩ := links.linked kind cpu t wasLinked
      exact ⟨atHome, quiet.admitted t admitted⟩
    · exact mem
  zombies cpu t isLinked := by
    rw [quiet.zombie]
    rcases quiet.linked .zombie cpu t isLinked with wasLinked | ⟨-, exited⟩
    · exact links.zombies cpu t wasLinked
    · exact exited rfl

theorem inv (inv : Inv cfg s notes) (mover : Option (Context Cpu Agent))
    (pcs : ∀ ctx, mover ≠ some ctx → after.pc ctx = s.pc ctx)
    (cpuOk : ∀ cpu, mover = some (.cpu cpu) →
      CpuOk cfg after notes.outer cpu (after.pc (.cpu cpu)))
    (unswitched : ∀ cpu, mover = some (.cpu cpu) → notes.switched cpu = false)
    (agents : ∀ agent, Runqueue.AgentOk after.node agent (after.pc (.agent agent)))
    (fresh : ∀ t, notes.destroying t = true → s.node t = .fresh →
      after.node t = .fresh) : Inv cfg after notes where
  links := quiet.links inv.links
  suspended := inv.suspended.undisturbed quiet.undisturbed
  cpus cpu := by
    by_cases moves : mover = some (.cpu cpu)
    · exact cpuOk cpu moves
    · rw [pcs (.cpu cpu) moves]
      exact (quiet.undisturbed cpu).cpuOk (inv.links.home cpu) (quiet.count cpu) (inv.cpus cpu)
  agents := agents
  loaded cpu t isLoaded := (quiet.undisturbed cpu).loadedOk (inv.loaded cpu t isLoaded)
  switched cpu isSwitched := by
    by_cases moves : mover = some (.cpu cpu)
    · rw [unswitched cpu moves] at isSwitched
      cases isSwitched
    · rw [pcs (.cpu cpu) moves]
      exact inv.switched cpu isSwitched
  gone t destroying :=
    (inv.gone t destroying).imp (quiet.zombie t).mpr (fresh t destroying)

end Quiet

end RootSwitch

end LaOS
