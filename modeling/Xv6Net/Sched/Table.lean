import Xv6Net.Kernel.Defs
import Mathlib.Data.List.FinRange

/-!
# The process table of `proc.c`

The fields of `struct proc` the receive path touches: the page table, the
state, the pid, the channel of a sleep and the `killed` flag.  `context`
stands for the saved `struct context`, where the kernel thread resumes when
the scheduler switches to it; its type `κ` is left to the caller.

`sleep`, `wakeup1`, `kill` and the switch of the scheduler each run under
`ptable.lock`, so each is one transition of the table here.  `sleep` is the
part before `sched()`; the channel is cleared when the process runs again.

**Results.**
* `Wakes`: a transition that only wakes processes or switches between them;
  `wakeup1`, `kill`, `schedule` and `yield` are such transitions.
* `wakeup1_chan_ne`: after `wakeup1(chan)` no process sleeps on `chan`.
-/

namespace Xv6Net
namespace Sched

/-- `NPROC`. -/
def NPROC : Nat := 64

instance : NeZero NPROC := ⟨by decide⟩

/-- `enum procstate`. -/
inductive ProcState
  | unused
  | embryo
  | sleeping
  | runnable
  | running
  | zombie
deriving DecidableEq, Repr

/-- The fields of `struct proc` read on the receive path. -/
structure Proc (κ : Type) where
  pgdir : Nat
  state : ProcState
  pid : Int
  chan : Addr
  killed : Bool
  context : κ

/-- `ptable.proc`. -/
abbrev PTable (κ : Type) := Fin NPROC → Proc κ

variable {κ : Type}

/-- `wakeup1(chan)`: every process sleeping on `chan` becomes runnable. -/
def wakeup1 (chan : Addr) (pt : PTable κ) : PTable κ := fun i =>
  if (pt i).state = .sleeping ∧ (pt i).chan = chan then { pt i with state := .runnable }
  else pt i

/-- `kill(pid)`: the first slot with that pid is marked killed, and made
runnable if it sleeps; `-1` when no slot has the pid. -/
def kill (pid : Int) (pt : PTable κ) : PTable κ × Int :=
  match (List.finRange NPROC).find? fun i => (pt i).pid == pid with
  | some i =>
      (Function.update pt i { pt i with
        killed := true, state := if (pt i).state = .sleeping then .runnable else (pt i).state }, 0)
  | none => (pt, -1)

/-- `sleep(chan, lk)` up to `sched()`: the process records the channel and
sleeps, to resume at `k`. -/
def sleep (i : Fin NPROC) (chan : Addr) (k : κ) (pt : PTable κ) : PTable κ :=
  Function.update pt i { pt i with chan := chan, state := .sleeping, context := k }

/-- The scheduler switches to a runnable process. -/
def schedule (i : Fin NPROC) (pt : PTable κ) : PTable κ :=
  if (pt i).state = .runnable then Function.update pt i { pt i with state := .running } else pt

/-- `yield()`: a running process gives up the CPU. -/
def yield (i : Fin NPROC) (pt : PTable κ) : PTable κ :=
  if (pt i).state = .running then Function.update pt i { pt i with state := .runnable } else pt

@[simp] theorem sleep_self (i : Fin NPROC) (chan : Addr) (k : κ) (pt : PTable κ) :
    sleep i chan k pt i = { pt i with chan := chan, state := .sleeping, context := k } := by
  simp [sleep]

@[simp] theorem sleep_ne {i j : Fin NPROC} (h : j ≠ i) (chan : Addr) (k : κ) (pt : PTable κ) :
    sleep i chan k pt j = pt j := by
  simp [sleep, Function.update_of_ne h]

/-- `pt'` puts no process to sleep, moves no channel and changes no saved
context. -/
structure Wakes (pt pt' : PTable κ) : Prop where
  sleeping : ∀ i, (pt' i).state = .sleeping → (pt i).state = .sleeping
  chan : ∀ i, (pt' i).chan = (pt i).chan
  context : ∀ i, (pt' i).context = (pt i).context

/-- A change of one slot that only wakes it. -/
theorem Wakes.update {pt : PTable κ} {i : Fin NPROC} {p : Proc κ}
    (hs : p.state = .sleeping → (pt i).state = .sleeping) (hc : p.chan = (pt i).chan)
    (hk : p.context = (pt i).context) : Wakes pt (Function.update pt i p) := by
  refine ⟨fun j => ?_, fun j => ?_, fun j => ?_⟩ <;> by_cases hj : j = i
  all_goals first
    | (subst hj; simpa using hs)
    | (subst hj; simpa using hc)
    | (subst hj; simpa using hk)
    | simp [Function.update_of_ne hj]

theorem wakeup1_wakes (chan : Addr) (pt : PTable κ) : Wakes pt (wakeup1 chan pt) := by
  refine ⟨fun i => ?_, fun i => ?_, fun i => ?_⟩ <;> by_cases h : (pt i).state = .sleeping ∧ (pt i).chan = chan
  all_goals simp [wakeup1, h]

/-- After `wakeup1(chan)` the processes still asleep sleep elsewhere. -/
theorem wakeup1_chan_ne {chan : Addr} {pt : PTable κ} {i : Fin NPROC}
    (h : (wakeup1 chan pt i).state = .sleeping) : (pt i).chan ≠ chan := by
  intro hc
  by_cases hs : (pt i).state = .sleeping
  · simp [wakeup1, hs, hc] at h
  · simp [wakeup1, hs] at h

theorem kill_wakes (pid : Int) (pt : PTable κ) : Wakes pt (kill pid pt).1 := by
  unfold kill
  split
  · exact Wakes.update (by split_ifs <;> simp_all) rfl rfl
  · exact ⟨fun _ h => h, fun _ => rfl, fun _ => rfl⟩

theorem schedule_wakes (i : Fin NPROC) (pt : PTable κ) : Wakes pt (schedule i pt) := by
  unfold schedule
  split
  · exact Wakes.update (by simp) rfl rfl
  · exact ⟨fun _ h => h, fun _ => rfl, fun _ => rfl⟩

theorem yield_wakes (i : Fin NPROC) (pt : PTable κ) : Wakes pt (yield i pt) := by
  unfold yield
  split
  · exact Wakes.update (by simp) rfl rfl
  · exact ⟨fun _ h => h, fun _ => rfl, fun _ => rfl⟩

end Sched
end Xv6Net
