import Mathlib.Data.List.Basic
import Mathlib.Logic.Relation

/-!
Runs of a deterministic labelled step function. A label carries every choice
the environment makes, so a step is a partial function of state and label. A
run restricted to steps that satisfy a guard gives the conditional results;
the guard `Lts.free` gives all runs.
-/

namespace Lts

variable {σ ε : Type*}

/-- The state after a list of labels, or `none` when one of them is not
enabled. -/
def exec (step : σ → ε → Option σ) (s : σ) (labels : List ε) : Option σ :=
  labels.foldlM step s

@[simp] theorem exec_nil (step : σ → ε → Option σ) (s : σ) :
    exec step s [] = some s := rfl

@[simp] theorem exec_cons (step : σ → ε → Option σ) (s : σ) (e : ε) (labels : List ε) :
    exec step s (e :: labels) = (step s e).bind (fun t => exec step t labels) := by
  simp [exec, List.foldlM_cons]

theorem exec_append (step : σ → ε → Option σ) (s : σ) (first second : List ε) :
    exec step s (first ++ second) =
      (exec step s first).bind (fun t => exec step t second) := by
  simp [exec, List.foldlM_append]

/-- A step function with outputs, run with the log of all outputs so far. -/
def logged {ο : Type*} (step : σ → ε → Option (σ × List ο)) (run : σ × List ο) (e : ε) :
    Option (σ × List ο) :=
  (step run.1 e).map (fun result => (result.1, run.2 ++ result.2))

/-- The guard that every step meets. -/
def free : σ → ε → Prop := fun _ _ => True

/-- States reached by steps that all meet the guard in the state they leave. -/
inductive Reaches (step : σ → ε → Option σ) (guard : σ → ε → Prop) (s : σ) : σ → Prop where
  | refl : Reaches step guard s s
  | tail {t u : σ} {e : ε} : Reaches step guard s t → guard t e →
      step t e = some u → Reaches step guard s u

abbrev Reachable (step : σ → ε → Option σ) (s t : σ) : Prop :=
  Reaches step free s t

variable {step : σ → ε → Option σ} {guard : σ → ε → Prop} {s t u : σ}

theorem Reaches.trans (first : Reaches step guard s t) (second : Reaches step guard t u) :
    Reaches step guard s u := by
  induction second with
  | refl => exact first
  | tail _ hguard hstep ih => exact ih.tail hguard hstep

theorem Reaches.head {e : ε} (hguard : guard s e) (hstep : step s e = some t)
    (rest : Reaches step guard t u) : Reaches step guard s u :=
  (Reaches.refl.tail hguard hstep).trans rest

theorem Reaches.weaken {guard' : σ → ε → Prop} (himp : ∀ x e, guard x e → guard' x e)
    (h : Reaches step guard s t) : Reaches step guard' s t := by
  induction h with
  | refl => exact .refl
  | tail _ hguard hstep ih => exact ih.tail (himp _ _ hguard) hstep

/-- Induction rule for safety: what holds at the start and is kept by every
step that meets the guard holds in every state reached. -/
theorem Reaches.invariant (h : Reaches step guard s t) (inv : σ → Prop) (hinit : inv s)
    (hkeep : ∀ x e y, inv x → guard x e → step x e = some y → inv y) : inv t := by
  induction h with
  | refl => exact hinit
  | tail _ hguard hstep ih => exact hkeep _ _ _ ih hguard hstep

/-- The same rule with reachability of the state before the step at hand, for
invariants that build on earlier ones. -/
theorem Reaches.invariant_on (h : Reaches step guard s t) (inv : σ → Prop) (hinit : inv s)
    (hkeep : ∀ x e y, Reaches step guard s x → inv x → guard x e →
      step x e = some y → inv y) : inv t := by
  induction h with
  | refl => exact hinit
  | tail hprev hguard hstep ih => exact hkeep _ _ _ hprev ih hguard hstep

/-- Induction rule for progress: while the goal is not reached, some step keeps
what holds and leaves less to do. -/
theorem exists_reaches_of_measure (work : σ → Nat) {inv goal : σ → Prop}
    (hprogress : ∀ x, inv x → ¬ goal x →
      ∃ e y, guard x e ∧ step x e = some y ∧ inv y ∧ work y < work x) (hinit : inv s) :
    ∃ t, Reaches step guard s t ∧ inv t ∧ goal t := by
  induction hwork : work s using Nat.strongRecOn generalizing s with
  | ind n ih =>
      by_cases hgoal : goal s
      · exact ⟨s, .refl, hinit, hgoal⟩
      · obtain ⟨e, y, hguard, hstep, hy, hless⟩ := hprogress s hinit hgoal
        obtain ⟨t, hreach, ht, hdone⟩ := ih (work y) (hwork ▸ hless) hy rfl
        exact ⟨t, Reaches.head hguard hstep hreach, ht, hdone⟩

section Simulation

variable {τ ο : Type*} {R : σ → τ → Prop}

/-- Two step functions that go on together from related states do so over
every list of labels. -/
theorem exec_rel {step' : τ → ε → Option τ}
    (hstep : ∀ x y e, R x y → Option.Rel R (step x e) (step' y e)) {x : σ} {y : τ} (h : R x y)
    (labels : List ε) : Option.Rel R (exec step x labels) (exec step' y labels) := by
  induction labels generalizing x y with
  | nil => exact .some h
  | cons e rest ih =>
      rw [exec_cons, exec_cons]
      have hfirst := hstep x y e h
      generalize step x e = after at hfirst ⊢
      generalize step' y e = after' at hfirst ⊢
      cases hfirst with
      | some hrel => exact ih hrel
      | none => exact .none

/-- The same for step functions with outputs, which are to be equal. -/
theorem logged_rel {step : σ → ε → Option (σ × List ο)} {step' : τ → ε → Option (τ × List ο)}
    (hstep : ∀ x y e, R x y →
      Option.Rel (fun next next' => R next.1 next'.1 ∧ next.2 = next'.2) (step x e) (step' y e))
    {x : σ} {y : τ} (h : R x y) (labels : List ε) :
    Option.Rel (fun run run' => R run.1 run'.1 ∧ run.2 = run'.2)
      (exec (logged step) (x, []) labels) (exec (logged step') (y, []) labels) := by
  apply exec_rel
  · rintro ⟨x, out⟩ ⟨y, out'⟩ e ⟨hrel, hout⟩
    have hnext := hstep x y e hrel
    unfold logged
    generalize step x e = after at hnext ⊢
    generalize step' y e = after' at hnext ⊢
    cases hnext with
    | some hboth => exact .some ⟨hboth.1, congrArg₂ (· ++ ·) hout hboth.2⟩
    | none => exact .none
  · exact ⟨h, rfl⟩

end Simulation

theorem reaches_of_exec {labels : List ε} (hguard : ∀ e ∈ labels, ∀ x, guard x e)
    (h : exec step s labels = some t) : Reaches step guard s t := by
  induction labels generalizing s with
  | nil =>
      obtain rfl : s = t := by simpa using h
      exact .refl
  | cons e rest ih =>
      rw [exec_cons] at h
      obtain ⟨x, hstep, hrest⟩ := Option.bind_eq_some_iff.mp h
      have hlater : Reaches step guard x t :=
        ih (fun f hf => hguard f (List.mem_cons_of_mem e hf)) hrest
      exact Reaches.head (hguard e List.mem_cons_self s) hstep hlater

theorem reachable_of_exec {labels : List ε} (h : exec step s labels = some t) :
    Reachable step s t :=
  reaches_of_exec (fun _ _ _ => trivial) h

/-- The step function that refuses the steps that fail a check. -/
def restrict (check : σ → ε → Bool) (step : σ → ε → Option σ) (s : σ) (e : ε) : Option σ :=
  if check s e then step s e else none

theorem reaches_of_exec_restrict {check : σ → ε → Bool}
    (hcheck : ∀ x e, check x e = true → guard x e) {labels : List ε}
    (h : exec (restrict check step) s labels = some t) : Reaches step guard s t := by
  have hreach : Reachable (restrict check step) s t := reachable_of_exec h
  refine hreach.invariant (Reaches step guard s) .refl ?_
  intro x e y hx _ hstep
  unfold restrict at hstep
  split at hstep
  · rename_i hgood
    exact hx.tail (hcheck x e hgood) hstep
  · cases hstep

end Lts
