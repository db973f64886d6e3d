import Mathlib.Data.List.Infix

/-!
# Runs of a labelled transition system with outputs

A system is a step function `step : σ → ι → σ × List ε`: from a state and the
label of the next step (the operation performed, or the choice the environment
makes) it computes the next state and the events the step emits.  A run
executes a list of labels and concatenates the emitted events.

**Results.**
* `run_invariant`: a property preserved by every step holds after every run;
  `run_invariant_of_forall` for runs of a restricted set of labels, and
  `run_invariant_of_events` for runs whose events pass a test.
* `run_conservation`: if every step keeps `view s ++ ins = outs ++ view s'`,
  so does every run.
* `run_simulation`: a relation kept in lock step by two systems relates their
  runs, which emit the same events.
* `run_stutter_simulation`: a system each of whose steps is seen as a step of
  another or as no step has its runs seen as runs of the other;
  `run_stutter_simulation_labels` also matches the labels of the two runs, and
  `run_map_events` moves a filter of the events between the steps and the run.
* `run_refines`: a system each of whose steps a relational specification
  allows has its runs as runs of the specification (`RunsAs`).
-/

namespace Xv6Net
namespace Lib

universe u v w x

variable {σ : Type u} {ι : Type v} {ε : Type w}

/-- Execute the labels in order, collecting the emitted events. -/
def run (step : σ → ι → σ × List ε) : σ → List ι → σ × List ε
  | s, [] => (s, [])
  | s, l :: ls =>
      ((run step (step s l).1 ls).1, (step s l).2 ++ (run step (step s l).1 ls).2)

/-- `s'` is reachable from `s` by some run. -/
def Reachable (step : σ → ι → σ × List ε) (s s' : σ) : Prop :=
  ∃ ls, (run step s ls).1 = s'

section Run

variable (step : σ → ι → σ × List ε)

@[simp] theorem run_nil (s : σ) : run step s [] = (s, []) := rfl

@[simp] theorem run_cons (s : σ) (l : ι) (ls : List ι) :
    run step s (l :: ls) =
      ((run step (step s l).1 ls).1, (step s l).2 ++ (run step (step s l).1 ls).2) := rfl

theorem run_append (s : σ) (ls₁ ls₂ : List ι) :
    run step s (ls₁ ++ ls₂) =
      ((run step (run step s ls₁).1 ls₂).1,
        (run step s ls₁).2 ++ (run step (run step s ls₁).1 ls₂).2) := by
  induction ls₁ generalizing s with
  | nil => simp
  | cons l ls ih => simp [ih]

/-- Invariant rule: preserved by every step, so preserved by every run. -/
theorem run_invariant (Inv : σ → Prop) (hstep : ∀ s l, Inv s → Inv (step s l).1) :
    ∀ (ls : List ι) (s : σ), Inv s → Inv (run step s ls).1
  | [], _, hs => hs
  | l :: ls, s, hs => run_invariant Inv hstep ls _ (hstep s l hs)

/-- Invariant rule for runs whose labels all satisfy `P`. -/
theorem run_invariant_of_forall (P : ι → Prop) (Inv : σ → Prop)
    (hstep : ∀ s l, P l → Inv s → Inv (step s l).1) :
    ∀ (ls : List ι) (s : σ), (∀ l ∈ ls, P l) → Inv s → Inv (run step s ls).1
  | [], _, _, hs => hs
  | l :: ls, s, hP, hs =>
      run_invariant_of_forall P Inv hstep ls _ (fun l' hl' => hP l' (List.mem_cons_of_mem _ hl'))
        (hstep s l (hP l (List.mem_cons_self ..)) hs)

theorem Reachable.next {s₀ s : σ} (hr : Reachable step s₀ s) (l : ι) :
    Reachable step s₀ (step s l).1 := by
  obtain ⟨ls, rfl⟩ := hr
  exact ⟨ls ++ [l], by rw [run_append]; rfl⟩

theorem Reachable.extend {s₀ s : σ} (hr : Reachable step s₀ s) (ls : List ι) :
    Reachable step s₀ (run step s ls).1 := by
  obtain ⟨ls₀, rfl⟩ := hr
  exact ⟨ls₀ ++ ls, by rw [run_append]⟩

/-- Invariant rule for a property that a step keeps when each of its events
passes `ok`: it holds after every run all of whose events pass. -/
theorem run_invariant_of_events (Inv P : σ → Prop) (ok : ε → Prop)
    (hinv : ∀ s l, Inv s → Inv (step s l).1)
    (hstep : ∀ s l, Inv s → P s → (∀ e ∈ (step s l).2, ok e) → P (step s l).1) :
    ∀ (ls : List ι) (s : σ), Inv s → P s → (∀ e ∈ (run step s ls).2, ok e) →
      P (run step s ls).1
  | [], _, _, hp, _ => hp
  | l :: ls, s, hs, hp, hok => by
      have hok' : ∀ e ∈ (step s l).2 ++ (run step (step s l).1 ls).2, ok e := hok
      exact run_invariant_of_events Inv P ok hinv hstep ls _ (hinv s l hs)
        (hstep s l hs hp fun e he => hok' e (List.mem_append_left _ he))
        fun e he => hok' e (List.mem_append_right _ he)

/-- Conservation along runs, for an invariant-guarded per-step conservation
law: what enters (`ins`) is what leaves (`outs`) followed by what is held
(`view`). -/
theorem run_conservation {α : Type x} (Inv : σ → Prop)
    (hinv : ∀ s l, Inv s → Inv (step s l).1)
    (view : σ → List α) (ins outs : ε → List α)
    (hstep : ∀ s l, Inv s →
      view s ++ (step s l).2.flatMap ins = (step s l).2.flatMap outs ++ view (step s l).1) :
    ∀ (ls : List ι) (s : σ), Inv s →
      view s ++ (run step s ls).2.flatMap ins =
        (run step s ls).2.flatMap outs ++ view (run step s ls).1
  | [], s, _ => by simp
  | l :: ls, s, hs => by
      have h₁ := hstep s l hs
      have h₂ := run_conservation Inv hinv view ins outs hstep ls _ (hinv s l hs)
      simp only [run_cons, List.flatMap_append]
      rw [← List.append_assoc, h₁, List.append_assoc, h₂, List.append_assoc]

/-- Two projections of the events that agree on every step agree on every
run. -/
theorem run_flatMap_eq {α : Type x} (Inv : σ → Prop)
    (hinv : ∀ s l, Inv s → Inv (step s l).1) (f g : ε → List α)
    (hstep : ∀ s l, Inv s → (step s l).2.flatMap f = (step s l).2.flatMap g) :
    ∀ (ls : List ι) (s : σ), Inv s → (run step s ls).2.flatMap f = (run step s ls).2.flatMap g
  | [], _, _ => rfl
  | l :: ls, s, hs => by
      simp only [run_cons, List.flatMap_append]
      rw [hstep s l hs, run_flatMap_eq Inv hinv f g hstep ls _ (hinv s l hs)]

/-- Filtering the events of every step filters the events of the run. -/
theorem run_map_events {α : Type x} (f : ε → List α) :
    ∀ (ls : List ι) (s : σ),
      run (fun s l => ((step s l).1, (step s l).2.flatMap f)) s ls =
        ((run step s ls).1, (run step s ls).2.flatMap f)
  | [], _ => rfl
  | l :: ls, s => by
      simp only [run_cons, run_map_events f ls, List.flatMap_append]

/-- Lock-step simulation: a relation kept by every pair of steps with the same
label, which emit the same events. -/
theorem run_simulation {α : Type x} (stepA : α → ι → α × List ε) (R : σ → α → Prop)
    (hsim : ∀ s a l, R s a →
      R (step s l).1 (stepA a l).1 ∧ (step s l).2 = (stepA a l).2) :
    ∀ (ls : List ι) (s : σ) (a : α), R s a →
      R (run step s ls).1 (run stepA a ls).1 ∧ (run step s ls).2 = (run stepA a ls).2
  | [], _, _, h => ⟨h, rfl⟩
  | l :: ls, s, a, h => by
      obtain ⟨h₁, he⟩ := hsim s a l h
      obtain ⟨h₂, he'⟩ := run_simulation stepA R hsim ls _ _ h₁
      exact ⟨h₂, by simp [he, he']⟩

/-- Stuttering refinement with labels: if every step of `step`, seen through
`abs` and with its events filtered by `obs`, is a step of `stepA` whose label
shows in `lab` what the step shows in `tag`, or changes nothing and shows
nothing, then every run of `step` is seen as a run of `stepA` whose labels show
what the run shows. -/
theorem run_stutter_simulation_labels {α : Type x} {ι' : Type*} {ε' : Type*} {γ : Type*}
    (stepA : α → ι' → α × List ε') (abs : σ → α) (obs : ε → List ε')
    (lab : ι' → List γ) (tag : ε → List γ) (Inv : σ → Prop)
    (hinv : ∀ s l, Inv s → Inv (step s l).1)
    (hstep : ∀ s l, Inv s →
      (∃ l', stepA (abs s) l' = (abs (step s l).1, (step s l).2.flatMap obs) ∧
          lab l' = (step s l).2.flatMap tag) ∨
        (abs (step s l).1 = abs s ∧ (step s l).2.flatMap obs = [] ∧
          (step s l).2.flatMap tag = [])) :
    ∀ (ls : List ι) (s : σ), Inv s →
      ∃ ls', run stepA (abs s) ls' = (abs (run step s ls).1, (run step s ls).2.flatMap obs) ∧
        ls'.flatMap lab = (run step s ls).2.flatMap tag
  | [], _, _ => ⟨[], rfl, rfl⟩
  | l :: ls, s, hs => by
      obtain ⟨ls', h', hlab⟩ :=
        run_stutter_simulation_labels stepA abs obs lab tag Inv hinv hstep ls _ (hinv s l hs)
      rcases hstep s l hs with ⟨l', hl', htag⟩ | ⟨habs, hobs, htag⟩
      · refine ⟨l' :: ls', ?_, ?_⟩
        · rw [run_cons, hl']
          dsimp only
          rw [h']
          simp [List.flatMap_append]
        · simp [List.flatMap_append, htag, hlab]
      · refine ⟨ls', ?_, ?_⟩
        · rw [← habs, h']
          simp [List.flatMap_append, hobs]
        · simp [List.flatMap_append, htag, hlab]

/-- Stuttering refinement: if every step of `step`, seen through `abs` and
with its events filtered by `obs`, is a step of `stepA` or changes nothing,
then every run of `step` is seen as a run of `stepA`. -/
theorem run_stutter_simulation {α : Type x} {ι' : Type*} {ε' : Type*}
    (stepA : α → ι' → α × List ε') (abs : σ → α) (obs : ε → List ε') (Inv : σ → Prop)
    (hinv : ∀ s l, Inv s → Inv (step s l).1)
    (hstep : ∀ s l, Inv s →
      (∃ l', stepA (abs s) l' = (abs (step s l).1, (step s l).2.flatMap obs)) ∨
        (abs (step s l).1 = abs s ∧ (step s l).2.flatMap obs = [])) :
    ∀ (ls : List ι) (s : σ), Inv s →
      ∃ ls', run stepA (abs s) ls' = (abs (run step s ls).1, (run step s ls).2.flatMap obs) := by
  intro ls s hs
  obtain ⟨ls', h', -⟩ := run_stutter_simulation_labels step stepA abs obs
    (fun _ => ([] : List Unit)) (fun _ => []) Inv hinv
    (fun s l hs => (hstep s l hs).imp (fun ⟨l', h⟩ => ⟨l', h, by simp⟩)
      (fun ⟨h₁, h₂⟩ => ⟨h₁, h₂, by simp⟩)) ls s hs
  exact ⟨ls', h'⟩

end Run

/-- `RunsAs spec a ls a' es`: the specification `spec`, which relates a state
and a label to the states and events a step may lead to, can go from `a`
through the labels `ls` to `a'`, emitting `es`. -/
inductive RunsAs {α : Type x} (spec : α → ι → α → List ε → Prop) : α → List ι → α → List ε → Prop
  | nil (a : α) : RunsAs spec a [] a []
  | cons {a a₁ a' : α} {l : ι} {ls : List ι} {es₁ es : List ε} :
      spec a l a₁ es₁ → RunsAs spec a₁ ls a' es → RunsAs spec a (l :: ls) a' (es₁ ++ es)

/-- Refinement rule: if every step of `step` from a state of the invariant is,
seen through `abs`, a step the specification allows with the same label and
events, then every run of `step` is a run of the specification. -/
theorem run_refines {α : Type x} (step : σ → ι → σ × List ε) (spec : α → ι → α → List ε → Prop)
    (abs : σ → α) (Inv : σ → Prop) (hinv : ∀ s l, Inv s → Inv (step s l).1)
    (hstep : ∀ s l, Inv s → spec (abs s) l (abs (step s l).1) (step s l).2) :
    ∀ (ls : List ι) (s : σ), Inv s → RunsAs spec (abs s) ls (abs (run step s ls).1) (run step s ls).2
  | [], _, _ => .nil _
  | l :: ls, s, hs => .cons (hstep s l hs) (run_refines step spec abs Inv hinv hstep ls _ (hinv s l hs))

end Lib
end Xv6Net
