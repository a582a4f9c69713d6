import Mathlib.Data.List.Find
import Mathlib.Data.List.Nodup
import Mathlib.Data.List.TakeWhile
/-!
# Observers of a stream

An event comes to the observers of a stream in the order in which they have
subscribed.  One that throws is unsubscribed, and those behind it miss the
event.  The main facts are about the part that some of the observers have in
this: which of them are reached depends on the others too, what then becomes of
these does not.
-/

namespace Observers

variable {α β : Type*} (throws : α → Bool)

/-- The observers that an event comes to. -/
def visited : List α → List α
  | [] => []
  | a :: as => a :: if throws a then [] else visited as

def takers (as : List α) : List α := as.takeWhile fun a => !throws a

def thrower (as : List α) : Option α := as.find? throws

/-- The observers of the next event. -/
def remaining (as : List α) : List α := as.eraseP throws

variable {throws}

theorem visited_isPrefix (as : List α) : visited throws as <+: as := by
  induction as with
  | nil => exact List.prefix_rfl
  | cons a as ih =>
      rw [visited, List.cons_prefix_cons]
      refine ⟨rfl, ?_⟩
      split
      · exact List.nil_prefix
      · exact ih

theorem remaining_subset {as : List α} : remaining throws as ⊆ as := List.eraseP_subset

theorem takers_subset {as : List α} : takers throws as ⊆ as := List.takeWhile_subset _

theorem throws_of_mem_takers {as : List α} {a : α} (h : a ∈ takers throws as) :
    throws a = false := by
  simpa using List.mem_takeWhile_imp h

theorem takers_congr {throws' : α → Bool} {as : List α} (h : ∀ a ∈ as, throws a = throws' a) :
    takers throws as = takers throws' as := by
  induction as with
  | nil => rfl
  | cons a as ih =>
      obtain ⟨ha, hrest⟩ := List.forall_mem_cons.mp h
      rw [takers, takers, List.takeWhile_cons, List.takeWhile_cons, ha]
      split
      · exact congrArg _ (ih hrest)
      · rfl

theorem thrower_congr {throws' : α → Bool} {as : List α} (h : ∀ a ∈ as, throws a = throws' a) :
    thrower throws as = thrower throws' as := List.find?_congr h

theorem remaining_eq_filter [DecidableEq α] {as : List α} (hnodup : as.Nodup) :
    remaining throws as = as.filter fun a => some a ≠ thrower throws as := by
  induction as with
  | nil => rfl
  | cons a as ih =>
      obtain ⟨hnew, hrest⟩ := List.nodup_cons.mp hnodup
      by_cases ha : throws a
      · rw [remaining, List.eraseP_cons_of_pos ha, thrower, List.find?_cons_of_pos ha,
          List.filter_cons_of_neg (by simp)]
        refine (List.filter_eq_self.mpr fun b hb => ?_).symm
        have hne : b ≠ a := fun h => hnew (h ▸ hb)
        simpa using hne
      · rw [remaining, List.eraseP_cons_of_neg ha, thrower, List.find?_cons_of_neg ha,
          List.filter_cons_of_pos, ← remaining, ← thrower, ih hrest]
        have hne : some a ≠ as.find? throws := fun h => ha (List.find?_some h.symm)
        simpa using hne

/-- An event that comes to the first observers only unsubscribes one of them at
most. -/
theorem remaining_take_append [DecidableEq α] {as : List α} (hnodup : as.Nodup) (n : Nat) :
    remaining throws (as.take n) ++ as.drop n =
      as.filter fun a => some a ≠ thrower throws (as.take n) := by
  have hkept : (as.drop n).filter (fun a => some a ≠ thrower throws (as.take n)) = as.drop n := by
    refine List.filter_eq_self.mpr fun a ha => ?_
    rw [← List.take_append_drop n as] at hnodup
    have hne : some a ≠ thrower throws (as.take n) := fun h =>
      List.disjoint_of_nodup_append hnodup (List.mem_of_find?_eq_some h.symm) ha
    simpa using hne
  rw [remaining_eq_filter (hnodup.sublist (List.take_sublist n as)), ← hkept,
    ← List.filter_append, List.take_append_drop]

/-! ## Some of the observers -/

section Filter

variable (throws) (p : α → Bool)

theorem visited_filter_eq_take (as : List α) :
    (visited throws as).filter p = (as.filter p).take ((visited throws as).filter p).length :=
  List.prefix_iff_eq_take.mp ((visited_isPrefix as).filter p)

/-- Among the observers that are reached, some take the event in as if they were
all. -/
theorem takers_filter (as : List α) :
    takers throws ((visited throws as).filter p) = (takers throws as).filter p := by
  induction as with
  | nil => rfl
  | cons a as ih =>
      by_cases ha : throws a
      · by_cases hp : p a <;> simp [visited, takers, ha, hp]
      · rw [takers] at ih
        by_cases hp : p a <;> simp [visited, takers, ha, hp, ih]

theorem remaining_filter (as : List α) :
    (remaining throws as).filter p = remaining throws ((visited throws as).filter p) ++
      (as.filter p).drop ((visited throws as).filter p).length := by
  induction as with
  | nil => rfl
  | cons a as ih =>
      by_cases ha : throws a
      · by_cases hp : p a <;> simp [visited, remaining, ha, hp]
      · rw [remaining] at ih
        by_cases hp : p a <;> simp [visited, remaining, ha, hp, ih]

/-- An event may be for some of the observers only. -/
theorem remaining_of_filter (as : List α) :
    remaining throws (as.filter p) = (remaining (fun a => throws a && p a) as).filter p :=
  List.eraseP_filter

theorem remaining_filter_of_not (as : List α) (h : ∀ a ∈ as, p a → throws a = false) :
    (remaining throws as).filter p = as.filter p := by
  induction as with
  | nil => rfl
  | cons a as ih =>
      obtain ⟨ha, hrest⟩ := List.forall_mem_cons.mp h
      by_cases hthrows : throws a
      · have hp : ¬p a := fun hp => by rw [ha hp] at hthrows; cases hthrows
        rw [remaining, List.eraseP_cons_of_pos hthrows, List.filter_cons_of_neg hp]
      · rw [remaining, List.eraseP_cons_of_neg hthrows, List.filter_cons, List.filter_cons,
          ← remaining, ih hrest]

end Filter

theorem takers_map (f : β → α) (bs : List β) :
    takers throws (bs.map f) = (takers (fun b => throws (f b)) bs).map f := by
  rw [takers, List.takeWhile_map]
  rfl

theorem remaining_map (f : β → α) (bs : List β) :
    remaining throws (bs.map f) = (remaining (fun b => throws (f b)) bs).map f :=
  List.eraseP_map

end Observers
