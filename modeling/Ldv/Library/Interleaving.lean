import Mathlib.Data.List.Induction
import Mathlib.Logic.Function.Iterate

/-!
# Interleaved processes

Processes with a local state each work on a shared state.  A schedule names
the process that takes the next step; a run follows a schedule.
-/

namespace Interleaving

variable
  {Process Local Shared : Type*}
  [DecidableEq Process]

structure World (Process Local Shared : Type*) where
  locals : Process → Local
  shared : Shared

/-- One process takes a step. -/
def World.step (program : Local → Shared → Local × Shared) (world : World Process Local Shared)
    (process : Process) :
    World Process Local Shared where
  locals := Function.update world.locals process (program (world.locals process) world.shared).1
  shared := (program (world.locals process) world.shared).2

/-- The processes take steps in the order of the schedule. -/
def World.run (program : Local → Shared → Local × Shared) (world : World Process Local Shared)
    (schedule : List Process) :
    World Process Local Shared :=
  schedule.foldl (World.step program) world

variable
  {program : Local → Shared → Local × Shared}
  {world : World Process Local Shared}

theorem World.step_self (process : Process) :
    (world.step program process).locals process = (program (world.locals process) world.shared).1 :=
  Function.update_self ..

theorem World.step_other {process other : Process} (different : other ≠ process) :
    (world.step program process).locals other = world.locals other :=
  Function.update_of_ne different ..

/-- What is kept by the process that takes a step holds of all processes. -/
theorem World.forall_step {P : Process → Local → Prop} {process : Process}
    (moved : P process (program (world.locals process) world.shared).1)
    (others : ∀ other, other ≠ process → P other (world.locals other)) (other : Process) :
    P other ((world.step program process).locals other) := by
  by_cases same : other = process
  · subst same
    rwa [World.step_self]
  · rw [World.step_other same]
    exact others other same

theorem World.run_concat (schedule : List Process) (process : Process) :
    world.run program (schedule ++ [process]) =
      (world.run program schedule).step program process := by
  rw [World.run, List.foldl_append]
  rfl

/-- The local states are equal, and the shared states are related. -/
def Alike {Shared' : Type*} (Related : Shared → Shared' → Prop) (left : Local × Shared)
    (right : Local × Shared') : Prop :=
  right.1 = left.1 ∧ Related left.2 right.2

/-- Two programs run alike, if their steps are alike at each moment. -/
theorem World.run_related {Shared' : Type*} {program' : Local → Shared' → Local × Shared'}
    {world' : World Process Local Shared'} (Related : Shared → Shared' → Prop)
    (locals : world'.locals = world.locals) (related : Related world.shared world'.shared)
    (kept :
      ∀ schedule process shared', Related (world.run program schedule).shared shared' →
        Alike Related
          (program ((world.run program schedule).locals process)
            (world.run program schedule).shared)
          (program' ((world.run program schedule).locals process) shared'))
    (schedule : List Process) :
    (world'.run program' schedule).locals = (world.run program schedule).locals ∧
      Related (world.run program schedule).shared (world'.run program' schedule).shared := by
  induction schedule using List.reverseRecOn with
  | nil => exact ⟨locals, related⟩
  | append_singleton schedule process ih =>
    rcases ih with ⟨same, related⟩
    rcases kept schedule process _ related with ⟨sameStep, relatedStep⟩
    rw [World.run_concat, World.run_concat, World.step, World.step, same, sameStep]
    exact ⟨rfl, relatedStep⟩

/-- What every step keeps holds after every run. -/
theorem World.run_invariant (Invariant : World Process Local Shared → Prop)
    (kept : ∀ world process, Invariant world → Invariant (world.step program process))
    (start : Invariant world) (schedule : List Process) :
    Invariant (world.run program schedule) := by
  induction schedule generalizing world with
  | nil => exact start
  | cons process schedule ih =>
    exact ih (kept world process start)

/-- A process that is scheduled alone repeats its step. -/
theorem World.run_alone (world : World Process Local Shared) (process : Process) (steps : Nat) :
    ((world.run program (List.replicate steps process)).locals process,
        (world.run program (List.replicate steps process)).shared) =
      (fun state => program state.1 state.2)^[steps] (world.locals process, world.shared) := by
  induction steps generalizing world with
  | zero => rfl
  | succ steps ih =>
    rw [Function.iterate_succ_apply]
    refine (ih (world.step program process)).trans ?_
    rw [World.step_self]
    rfl

/--
A process that is not at rest loses some of what it has left in each of its
steps, and keeps the rest in the steps of others.
-/
theorem World.run_rest (atRest : Local → Prop) (left : Local → Nat)
    (stays : ∀ state shared, atRest state → atRest (program state shared).1)
    (loses :
      ∀ state shared, atRest (program state shared).1 ∨ left (program state shared).1 < left state)
    {process : Process} {schedule : List Process}
    (enough : left (world.locals process) < schedule.count process) :
    atRest ((world.run program schedule).locals process) := by
  have rests :
      ∀ (schedule : List Process) (world : World Process Local Shared),
        atRest (world.locals process) → atRest ((world.run program schedule).locals process) := by
    intro schedule world resting
    refine World.run_invariant (fun world => atRest (world.locals process)) ?_ resting schedule
    intro world other resting
    by_cases same : process = other
    · subst same
      rw [World.step_self]
      exact stays _ _ resting
    · rwa [World.step_other same]
  induction schedule generalizing world with
  | nil => exact absurd enough (Nat.not_lt_zero _)
  | cons other schedule ih =>
    change atRest (((world.step program other).run program schedule).locals process)
    by_cases same : other = process
    · subst same
      rw [List.count_cons_self] at enough
      rcases loses (world.locals other) world.shared with
        resting | fewer
      · apply rests
        rwa [World.step_self]
      · apply ih
        rw [World.step_self]
        omega
    · rw [List.count_cons_of_ne same] at enough
      apply ih
      rwa [World.step_other (Ne.symm same)]

end Interleaving
