import Mathlib.Data.List.Forall2
import Mathlib.Algebra.BigOperators.Group.List.Basic
import Mathlib.Algebra.GroupWithZero.Nat
/-!
# Lists of tasks

A system keeps what its tasks wait for in a list: a task is appended when it
starts, and is replaced where it stands when it goes on.  This module says what
these two operations do to facts about every task, to facts about two lists that
describe the same tasks, and to a bound on the work that is left.
-/

namespace TaskList

variable {α β : Type*}

theorem forall₂_getElem? {R : α → β → Prop} {as : List α} {bs : List β} (h : List.Forall₂ R as bs)
    {k : Nat} {b : β} (hb : bs[k]? = some b) : ∃ a, as[k]? = some a ∧ R a b := by
  induction h generalizing k with
  | nil => cases hb
  | @cons a b' as bs hab _ ih =>
      cases k with
      | zero =>
          obtain rfl := Option.some.inj hb
          exact ⟨a, rfl, hab⟩
      | succ k => exact ih hb

theorem forall₂_getElem?_left {R : α → β → Prop} {as : List α} {bs : List β}
    (h : List.Forall₂ R as bs) {k : Nat} {a : α} (ha : as[k]? = some a) :
    ∃ b, bs[k]? = some b ∧ R a b :=
  forall₂_getElem? h.flip ha

theorem forall₂_set {R : α → β → Prop} {as : List α} {bs : List β} (h : List.Forall₂ R as bs)
    {a : α} {b : β} (hab : R a b) (k : Nat) : List.Forall₂ R (as.set k a) (bs.set k b) := by
  induction h generalizing k with
  | nil => exact .nil
  | cons hhead htail ih =>
      cases k with
      | zero => exact .cons hab htail
      | succ k => exact .cons hhead (ih k)

theorem forall₂_set_right {R : α → β → Prop} {as : List α} {bs : List β}
    (h : List.Forall₂ R as bs) {k : Nat} {a : α} {b : β} (ha : as[k]? = some a) (hab : R a b) :
    List.Forall₂ R as (bs.set k b) := by
  obtain ⟨hk, rfl⟩ := List.getElem?_eq_some_iff.mp ha
  have hset := forall₂_set h hab k
  rwa [List.set_getElem_self] at hset

theorem forall₂_append_singleton {R : α → β → Prop} {as : List α} {bs : List β}
    (h : List.Forall₂ R as bs) {a : α} {b : β} (hab : R a b) :
    List.Forall₂ R (as ++ [a]) (bs ++ [b]) :=
  List.rel_append h (.cons hab .nil)

theorem forall_mem_set {p : α → Prop} {as : List α} (h : ∀ a ∈ as, p a) {a : α} (ha : p a)
    (k : Nat) : ∀ b ∈ as.set k a, p b := by
  intro b hb
  rcases List.mem_or_eq_of_mem_set hb with hold | rfl
  · exact h b hold
  · exact ha

/-- Only the task that is replaced can take away that some task has `p`, and only
the new one can bring it. -/
theorem exists_mem_set_or {p : α → Prop} {as : List α} {k : Nat} {old : α}
    (h : as[k]? = some old) (new : α) :
    ((∃ a ∈ as.set k new, p a) ∨ p old) ↔ (∃ a ∈ as, p a) ∨ p new := by
  induction as generalizing k with
  | nil => cases h
  | cons a as ih =>
      cases k with
      | zero =>
          obtain rfl := Option.some.inj h
          rw [List.set_cons_zero, List.exists_mem_cons_iff, List.exists_mem_cons_iff,
            or_right_comm, or_comm (a := p new), or_right_comm]
      | succ k =>
          have hrest := ih h
          simp only [List.set_cons_succ, List.exists_mem_cons_iff, or_assoc, hrest]

theorem sum_map_set {M : Type*} [AddCommMonoid M] (f : α → M) {as : List α} {k : Nat} {old : α}
    (h : as[k]? = some old) (new : α) :
    ((as.set k new).map f).sum + f old = (as.map f).sum + f new := by
  induction as generalizing k with
  | nil => cases h
  | cons a as ih =>
      cases k with
      | zero =>
          obtain rfl := Option.some.inj h
          rw [List.set_cons_zero, List.map_cons, List.map_cons, List.sum_cons, List.sum_cons,
            add_right_comm, add_comm (f new), add_right_comm, add_comm (f a)]
      | succ k =>
          rw [List.set_cons_succ, List.map_cons, List.map_cons, List.sum_cons, List.sum_cons,
            add_assoc, ih h, add_assoc]

/-! ## Work -/

def work (rank : α → Nat) (tasks : List α) : Nat := (tasks.map rank).sum

variable {rank : α → Nat} {tasks : List α} {k : Nat} {old new : α}

theorem work_append (rank : α → Nat) (tasks : List α) (task : α) :
    work rank (tasks ++ [task]) = work rank tasks + rank task := by
  simp [work]

theorem work_set (rank : α → Nat) (h : tasks[k]? = some old) (new : α) :
    work rank (tasks.set k new) + rank old = work rank tasks + rank new :=
  sum_map_set rank h new

theorem work_eq_zero : work rank tasks = 0 ↔ ∀ task ∈ tasks, rank task = 0 := by
  induction tasks with
  | nil => simp [work]
  | cons task tasks ih =>
      rw [work, List.map_cons, List.sum_cons, ← work, Nat.add_eq_zero_iff, ih,
        List.forall_mem_cons]

theorem work_set_add_le {cost : Nat} (h : tasks[k]? = some old)
    (hrank : rank new + cost ≤ rank old) :
    work rank (tasks.set k new) + cost ≤ work rank tasks := by
  have hset := work_set rank h new
  omega

/-- The work that is left of one task, if a task that has not come yet is worth
`bound`. -/
def workAt (rank : α → Nat) (bound : Nat) (tasks : List α) (n : Nat) : Nat :=
  (tasks[n]?.map rank).getD bound

theorem workAt_append_le {bound : Nat} {task : α} (h : rank task ≤ bound) (n : Nat) :
    workAt rank bound (tasks ++ [task]) n ≤ workAt rank bound tasks n := by
  simp only [workAt]
  by_cases hn : n < tasks.length
  · exact Nat.le_of_eq (by rw [List.getElem?_append_left hn])
  · have hle : tasks.length ≤ n := Nat.not_lt.mp hn
    rw [List.getElem?_append_right hle, List.getElem?_eq_none hle, List.getElem?_singleton]
    split
    · exact h
    · exact Nat.le_refl _

theorem workAt_set_add_le {bound cost : Nat} (h : tasks[k]? = some old)
    (hrank : rank new + cost ≤ rank old) (n : Nat) :
    workAt rank bound (tasks.set k new) n + (if k = n then cost else 0) ≤
      workAt rank bound tasks n := by
  simp only [workAt]
  by_cases hn : k = n
  · subst hn
    rw [List.getElem?_set_self (List.getElem?_eq_some_iff.mp h).1, h, if_pos rfl]
    simpa using hrank
  · rw [List.getElem?_set_ne hn, if_neg hn]
    exact Nat.le_refl _

end TaskList
