import Mathlib.Logic.Relation
import Mathlib.Tactic.SplitIfs

/-!
# Runs of a step function under a guard

An action names the component that moves together with every choice its environment
makes there, so one step is a partial function. A guard is a condition on the state
before the step and on the action; a guarded run is a finite run all of whose steps
meet it. Runs over a list of actions are executable, so a concrete schedule is checked
by evaluation and then read as a run.
-/
namespace FieldNote.GuardedRuns

variable {σ α : Type*}

/-- One guarded step between two states. -/
def Move (step : σ → α → Option σ) (ok : σ → α → Prop) (s t : σ) : Prop :=
  ∃ a, ok s a ∧ step s a = some t

/-- Finitely many guarded steps, in any order the step function admits. -/
def Run (step : σ → α → Option σ) (ok : σ → α → Prop) : σ → σ → Prop :=
  Relation.ReflTransGen (Move step ok)

/-- The guard that every step meets. -/
def anyStep : σ → α → Prop := fun _ _ => True

instance : DecidableRel (anyStep (σ := σ) (α := α)) := fun _ _ => .isTrue trivial

variable {step : σ → α → Option σ} {ok ok' : σ → α → Prop} {s t u : σ} {a : α}

theorem Run.refl (s : σ) : Run step ok s s := Relation.ReflTransGen.refl

theorem Run.single (h : ok s a) (hs : step s a = some t) : Run step ok s t :=
  Relation.ReflTransGen.single ⟨a, h, hs⟩

theorem Run.tail (h : Run step ok s t) (ha : ok t a) (hs : step t a = some u) :
    Run step ok s u :=
  Relation.ReflTransGen.tail h ⟨a, ha, hs⟩

theorem Run.trans (h : Run step ok s t) (k : Run step ok t u) : Run step ok s u :=
  Relation.ReflTransGen.trans h k

/-- A weaker guard admits every run of a stronger one. -/
theorem Run.mono (himp : ∀ s a, ok s a → ok' s a) (h : Run step ok s t) :
    Run step ok' s t :=
  Relation.ReflTransGen.mono (fun _ _ ⟨a, ha, hs⟩ => ⟨a, himp _ _ ha, hs⟩) _ _ h

/-- What one guarded step keeps, a guarded run keeps. -/
theorem Run.invariant {I : σ → Prop} (h : Run step ok s t) (h₀ : I s)
    (hstep : ∀ s a t, I s → ok s a → step s a = some t → I t) : I t := by
  induction h with
  | refl => exact h₀
  | tail _ hmove ih =>
      obtain ⟨a, ha, hs⟩ := hmove
      exact hstep _ _ _ ih ha hs

/-- A reflexive and transitive relation between the ends of every guarded step from a
state with the invariant relates the ends of a run. -/
theorem Run.relate {I : σ → Prop} {R : σ → σ → Prop} (h : Run step ok s t) (h₀ : I s)
    (hstep : ∀ s a t, I s → ok s a → step s a = some t → I t)
    (hrefl : ∀ s, R s s) (htrans : ∀ s t u, R s t → R t u → R s u)
    (hrel : ∀ s a t, I s → ok s a → step s a = some t → R s t) : R s t := by
  have hboth : I t ∧ R s t := by
    induction h with
    | refl => exact ⟨h₀, hrefl _⟩
    | tail _ hmove ih =>
        obtain ⟨a, ha, hs⟩ := hmove
        exact ⟨hstep _ _ _ ih.1 ha hs, htrans _ _ _ ih.2 (hrel _ _ _ ih.1 ha hs)⟩
  exact hboth.2

/-- Execution of a schedule; it stops as soon as an action is disabled or its guard
fails. -/
def execWhere (step : σ → α → Option σ) (ok : σ → α → Prop) [DecidableRel ok] :
    List α → σ → Option σ
  | [], s => some s
  | a :: as, s => if ok s a then (step s a).bind (execWhere step ok as) else none

/-- Execution of a schedule with no guard. -/
def exec (step : σ → α → Option σ) : List α → σ → Option σ
  | [], s => some s
  | a :: as, s => (step s a).bind (exec step as)

theorem execWhere_run [DecidableRel ok] {as : List α}
    (h : execWhere step ok as s = some t) : Run step ok s t := by
  induction as generalizing s with
  | nil =>
      cases h
      exact Run.refl _
  | cons a as ih =>
      simp only [execWhere] at h
      split_ifs at h with ha
      obtain ⟨u, hs, hu⟩ := Option.bind_eq_some_iff.mp h
      exact (Run.single ha hs).trans (ih hu)

theorem exec_run {as : List α} (h : exec step as s = some t) : Run step anyStep s t := by
  induction as generalizing s with
  | nil =>
      cases h
      exact Run.refl _
  | cons a as ih =>
      obtain ⟨u, hs, hu⟩ := Option.bind_eq_some_iff.mp h
      exact (Run.single trivial hs).trans (ih hu)

/-- A guarded schedule whose final state passes a test gives a run to such a state. -/
theorem execWhere_any [DecidableRel ok] {as : List α} {p : σ → Bool}
    (h : (execWhere step ok as s).any p = true) : ∃ t, Run step ok s t ∧ p t = true := by
  obtain ⟨t, ht, hp⟩ := (Option.any_eq_true _ _).mp h
  exact ⟨t, execWhere_run ht, hp⟩

theorem exec_any {as : List α} {p : σ → Bool} (h : (exec step as s).any p = true) :
    ∃ t, Run step anyStep s t ∧ p t = true := by
  obtain ⟨t, ht, hp⟩ := (Option.any_eq_true _ _).mp h
  exact ⟨t, exec_run ht, hp⟩

end FieldNote.GuardedRuns
