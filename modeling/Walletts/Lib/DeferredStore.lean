import Mathlib.Algebra.Order.Sub.Unbundled.Basic
import Mathlib.Data.Multiset.OrderedMonoid
import Mathlib.Algebra.Order.BigOperators.Group.Multiset
import Walletts.Lib.Machine
/-!
# Stores that are written later

A store whose writes are announced first and carried out, or given up, at any
later time.  Only three things can happen to it: a batch is announced, a batch
that is waiting is committed, or a batch that is waiting is dropped.  Nothing
leaves the store.  The facts below hold for every order of these acts.
-/

/-- What is in the store, and what has been announced and still waits. -/
@[ext] structure DeferredStore (α : Type*) where
  stored : Multiset α
  pending : Multiset α

namespace DeferredStore

variable {α : Type*}

inductive Act (α : Type*)
  | announce (xs : Multiset α)
  | commit (xs : Multiset α)
  | drop (xs : Multiset α)

def Act.announced : Act α → Multiset α
  | .announce xs => xs
  | _ => 0

def Act.dropped : Act α → Multiset α
  | .drop xs => xs
  | _ => 0

@[simp] theorem Act.announced_announce (xs : Multiset α) : (announce xs).announced = xs := rfl
@[simp] theorem Act.announced_commit (xs : Multiset α) : (commit xs).announced = 0 := rfl
@[simp] theorem Act.announced_drop (xs : Multiset α) : (drop xs).announced = 0 := rfl
@[simp] theorem Act.dropped_announce (xs : Multiset α) : (announce xs).dropped = 0 := rfl
@[simp] theorem Act.dropped_commit (xs : Multiset α) : (commit xs).dropped = 0 := rfl
@[simp] theorem Act.dropped_drop (xs : Multiset α) : (drop xs).dropped = xs := rfl

def all (s : DeferredStore α) : Multiset α := s.stored + s.pending

variable [DecidableEq α]

/-- A batch can be committed or dropped only while it waits. -/
def machine (α : Type*) [DecidableEq α] : Machine (DeferredStore α) (Act α) where
  step s
    | .announce xs => some ⟨s.stored, s.pending + xs⟩
    | .commit xs => if xs ≤ s.pending then some ⟨s.stored + xs, s.pending - xs⟩ else none
    | .drop xs => if xs ≤ s.pending then some ⟨s.stored, s.pending - xs⟩ else none

variable {s t : DeferredStore α} {act : Act α} {acts : List (Act α)}

theorem step_cases (h : (machine α).step s act = some t) :
    (∃ xs, act = .announce xs ∧ t = ⟨s.stored, s.pending + xs⟩) ∨
    (∃ xs, act = .commit xs ∧ xs ≤ s.pending ∧ t = ⟨s.stored + xs, s.pending - xs⟩) ∨
    (∃ xs, act = .drop xs ∧ xs ≤ s.pending ∧ t = ⟨s.stored, s.pending - xs⟩) := by
  cases act with
  | announce xs => exact .inl ⟨xs, rfl, (Option.some.inj h).symm⟩
  | commit xs =>
      obtain ⟨hle, ht⟩ := Option.ite_none_right_eq_some.mp h
      exact .inr (.inl ⟨xs, rfl, hle, (Option.some.inj ht).symm⟩)
  | drop xs =>
      obtain ⟨hle, ht⟩ := Option.ite_none_right_eq_some.mp h
      exact .inr (.inr ⟨xs, rfl, hle, (Option.some.inj ht).symm⟩)

theorem step_commit_add (stored xs rest : Multiset α) :
    (machine α).step ⟨stored, xs + rest⟩ (.commit xs) = some ⟨stored + xs, rest⟩ := by
  simp [machine]

theorem step_drop_add (stored xs rest : Multiset α) :
    (machine α).step ⟨stored, xs + rest⟩ (.drop xs) = some ⟨stored, rest⟩ := by
  simp [machine]

theorem all_step_eq (h : (machine α).step s act = some t) :
    t.all + act.dropped = s.all + act.announced := by
  obtain ⟨xs, rfl, rfl⟩ | ⟨xs, rfl, hle, rfl⟩ | ⟨xs, rfl, hle, rfl⟩ := step_cases h
  · simp [all, add_assoc]
  · have hback : xs + (s.pending - xs) = s.pending := add_tsub_cancel_of_le hle
    simp [all, add_assoc, hback]
  · have hback : s.pending - xs + xs = s.pending := tsub_add_cancel_of_le hle
    simp [all, add_assoc, hback]

/-- Nothing is lost without having been dropped. -/
theorem all_run_eq (h : (machine α).run s acts = some t) :
    t.all + (acts.map Act.dropped).sum = s.all + (acts.map Act.announced).sum := by
  induction h using Machine.run_induction with
  | nil s => simp
  | @cons s u t act acts hu _ ih =>
      calc
        t.all + ((act :: acts).map Act.dropped).sum =
            t.all + (acts.map Act.dropped).sum + act.dropped := by
          rw [List.map_cons, List.sum_cons, add_comm act.dropped, add_assoc]
        _ = u.all + act.dropped + (acts.map Act.announced).sum := by
          rw [ih, add_right_comm]
        _ = s.all + ((act :: acts).map Act.announced).sum := by
          rw [all_step_eq hu, List.map_cons, List.sum_cons, add_assoc]

end DeferredStore
