import FieldNote.CallPool
import Mathlib.Algebra.Ring.Nat

/-!
# Totals over a pool of calls

A weight of each call, summed over the pool. Budgets are kept by the potential method: what
the calls have spent, and a reserve that is still to be spent, stay within what was granted
to them. One step of call `i` replaces its entry and appends the calls it starts, so only the
weights of those entries enter the condition on a step.
-/
namespace FieldNote.CallPool

variable {α : Type*} {pool new : List α} {f cost grant : α → ℕ} {i : ℕ} {a b : α}

def total (f : α → ℕ) (pool : List α) : ℕ := (pool.map f).sum

@[simp] theorem total_nil : total f [] = 0 := rfl

@[simp] theorem total_cons : total f (a :: pool) = f a + total f pool := by
  simp [total]

@[simp] theorem total_append : total f (pool ++ new) = total f pool + total f new := by
  simp [total]

theorem total_map {β : Type*} (g : β → α) (calls : List β) :
    total f (calls.map g) = total (fun c => f (g c)) calls := by
  simp [total, Function.comp_def]

/-- Replacing an entry moves its weight. -/
theorem total_set (hi : pool[i]? = some a) : total f (pool.set i b) + f a = total f pool + f b := by
  induction pool generalizing i with
  | nil => cases hi
  | cons c pool ih =>
      cases i with
      | zero =>
          obtain rfl : c = a := by simpa using hi
          simp only [List.set_cons_zero, total_cons]
          omega
      | succ i =>
          have hset := ih (i := i) (by simpa using hi)
          simp only [List.set_cons_succ, total_cons]
          omega

theorem le_total (ha : a ∈ pool) : f a ≤ total f pool := by
  induction pool with
  | nil => cases ha
  | cons c pool ih =>
      rw [total_cons]
      rcases List.mem_cons.mp ha with rfl | htail
      · omega
      · have hle := ih htail
        omega

theorem total_eq_zero (h : ∀ a ∈ pool, f a = 0) : total f pool = 0 := by
  induction pool with
  | nil => rfl
  | cons c pool ih =>
      have hhead := h c List.mem_cons_self
      have htail := ih fun a ha => h a (List.mem_cons_of_mem c ha)
      rw [total_cons, hhead, htail]

/-- A count is the total of an indicator. -/
theorem total_indicator (p : α → Bool) :
    total (fun a => if p a then 1 else 0) pool = pool.countP p := by
  induction pool with
  | nil => rfl
  | cons c pool ih =>
      rw [total_cons, ih, List.countP_cons]
      omega

/-- A pool that spends at least the weight `f` of a call spends at least the total of `f`. -/
theorem total_le (h : ∀ a ∈ pool, f a ≤ cost a) : total f pool ≤ total cost pool := by
  induction pool with
  | nil => exact Nat.le_refl 0
  | cons c pool ih =>
      have hhead := h c List.mem_cons_self
      have htail := ih fun a ha => h a (List.mem_cons_of_mem c ha)
      simp only [total_cons]
      omega

theorem total_mul (k : ℕ) : total (fun a => k * f a) pool = k * total f pool := by
  induction pool with
  | nil => rfl
  | cons c pool ih => rw [total_cons, total_cons, ih, Nat.mul_add]

/-- What a pool has spent and still holds in reserve is within what it was granted. -/
def Within (cost grant : α → ℕ) (reserve : ℕ) (pool : List α) : Prop :=
  total cost pool + reserve ≤ total grant pool

/-- One step of call `i`: only the weights that change enter. -/
theorem Within.advance {reserve reserve' : ℕ} (h : Within cost grant reserve pool)
    (hi : pool[i]? = some a)
    (hstep : cost b + total cost new + reserve' + grant a ≤
      cost a + reserve + (grant b + total grant new)) :
    Within cost grant reserve' (pool.set i b ++ new) := by
  have hcost := total_set (f := cost) (b := b) hi
  have hgrant := total_set (f := grant) (b := b) hi
  unfold Within at h ⊢
  rw [total_append, total_append]
  omega

theorem Within.append {reserve reserve' : ℕ} (h : Within cost grant reserve pool)
    (hstep : total cost new + reserve' ≤ reserve + total grant new) :
    Within cost grant reserve' (pool ++ new) := by
  unfold Within at h ⊢
  rw [total_append, total_append]
  omega

end FieldNote.CallPool
