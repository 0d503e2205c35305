import FieldNote.GuardedRuns

/-!
# Runs that an observer cannot tell apart

The actions of a run are the observer's or others', and a state has a view for the
observer. When every own action acts on the view as it does on the state, and every other
action leaves the view, the view after a run is that of the run of the own actions alone;
so two runs with the same own actions end in the same view.
-/
namespace FieldNote.Unwinding
open GuardedRuns

variable {σ α : Type*}

/-- The unwinding conditions, at the states with the invariant. -/
structure Separated (step : σ → α → Option σ) (ok : σ → α → Prop) (own : α → Bool)
    (view : σ → σ) (I : σ → Prop) : Prop where
  kept : ∀ s a t, I s → ok s a → step s a = some t → I t
  acts : ∀ s a t, I s → ok s a → own a = true → step s a = some t →
    step (view s) a = some (view t)
  silent : ∀ s a t, I s → ok s a → own a = false → step s a = some t → view t = view s

variable {step : σ → α → Option σ} {ok : σ → α → Prop} [DecidableRel ok] {own : α → Bool}
  {view : σ → σ} {I : σ → Prop} {s s' t t' : σ} {as bs : List α}

/-- The other actions can be purged from a run. -/
theorem Separated.purge (h : Separated step ok own view I) (hs : I s)
    (hrun : execWhere step ok as s = some t) :
    exec step (as.filter own) (view s) = some (view t) := by
  induction as generalizing s with
  | nil =>
      cases hrun
      rfl
  | cons a as ih =>
      simp only [execWhere] at hrun
      split_ifs at hrun with ha
      obtain ⟨u, hu, hrest⟩ := Option.bind_eq_some_iff.mp hrun
      have hrest := ih (h.kept s a u hs ha hu) hrest
      cases hown : own a with
      | true =>
          have hact := h.acts s a u hs ha hown hu
          simp only [List.filter_cons_of_pos hown, exec, hact, Option.bind_some, hrest]
      | false =>
          rw [List.filter_cons_of_neg (by simp [hown]), ← h.silent s a u hs ha hown hu]
          exact hrest

/-- Runs with the same own actions, from states with the same view, end in the same view. -/
theorem Separated.agree (h : Separated step ok own view I) (hs : I s) (hs' : I s')
    (hview : view s = view s') (hsame : as.filter own = bs.filter own)
    (hrun : execWhere step ok as s = some t) (hrun' : execWhere step ok bs s' = some t') :
    view t = view t' := by
  have hpurged := h.purge hs hrun
  rw [hsame, hview, h.purge hs' hrun'] at hpurged
  exact (Option.some.inj hpurged).symm

end FieldNote.Unwinding
