import Walletts.Lib.Machine
import Walletts.Lib.TaskList
/-!
# Waiting for a list of promises

`Promise.all` waits for a list of promises that settle in any order: it is
fulfilled with all the values, in the order of the list, when the last one is
there, and rejected as soon as one promise is.  Each promise settles once.  This
module says how such a join ends when each promise has an outcome of its own,
whatever the order is.
-/

inductive PromiseOutcome (ε α : Type*)
  | pending
  | fulfilled (values : List α)
  | rejected (e : ε)

/-- The promises, each with what it has settled to, and the join. -/
structure PromiseAll (ε α : Type*) where
  slots : List (Option (Except ε α))
  outcome : PromiseOutcome ε α

namespace PromiseAll

variable {ε α κ : Type*}

def value? : Option (Except ε α) → Option α
  | some (.ok a) => some a
  | _ => none

def outcomeOf (slots : List (Option (Except ε α))) : PromiseOutcome ε α :=
  match slots.mapM value? with
  | some values => .fulfilled values
  | none => .pending

/-- The list may be empty, and then nothing is waited for. -/
def start (n : Nat) : PromiseAll ε α :=
  ⟨List.replicate n none, outcomeOf (List.replicate n none)⟩

structure Settle (ε α : Type*) where
  slot : Nat
  result : Except ε α

def settle (s : PromiseAll ε α) (slot : Nat) (result : Except ε α) : PromiseAll ε α :=
  let slots := s.slots.set slot (some result)
  ⟨slots, match s.outcome, result with
    | .pending, .ok _ => outcomeOf slots
    | .pending, .error e => .rejected e
    | outcome, _ => outcome⟩

def machine (ε α : Type*) : Machine (PromiseAll ε α) (Settle ε α) where
  step s l :=
    match s.slots[l.slot]? with
    | some none => some (s.settle l.slot l.result)
    | _ => none

variable {s t : PromiseAll ε α} {l : Settle ε α} {ls : List (Settle ε α)}

theorem step_cases (h : (machine ε α).step s l = some t) :
    s.slots[l.slot]? = some none ∧ t = s.settle l.slot l.result := by
  simp only [machine] at h
  split at h
  · rename_i hslot
    exact ⟨hslot, (Option.some.inj h).symm⟩
  · cases h

/-! ## The join and its slots -/

theorem mapM_value?_eq_some {slots : List (Option (Except ε α))} {values : List α} :
    slots.mapM value? = some values ↔ slots = values.map fun a => some (.ok a) := by
  induction slots generalizing values with
  | nil => cases values <;> simp
  | cons slot slots ih =>
      rw [List.mapM_cons]
      match slot with
      | none => cases values <;> simp [value?]
      | some (.error e) => cases values <;> simp [value?]
      | some (.ok a) =>
          cases hrest : slots.mapM value? with
          | none =>
              refine iff_of_false (by simp [value?]) fun h => ?_
              cases values with
              | nil => cases h
              | cons b values =>
                  rw [List.map_cons, List.cons.injEq] at h
                  rw [ih.mpr h.2] at hrest
                  cases hrest
          | some rest =>
              obtain rfl := ih.mp hrest
              cases values with
              | nil => simp [value?]
              | cons b values =>
                  have hinj : Function.Injective fun a : α => some (Except.ok (ε := ε) a) :=
                    fun _ _ h => Except.ok.inj (Option.some.inj h)
                  simp [value?, (List.map_injective_iff.mpr hinj).eq_iff]

/-- How the join stands to its slots. -/
inductive Joined (slots : List (Option (Except ε α))) : PromiseOutcome ε α → Prop
  | pending (hwaits : slots.mapM value? = none) (hnone : ∀ e, some (.error e) ∉ slots) :
      Joined slots .pending
  | fulfilled {values : List α} (h : slots = values.map fun a => some (.ok a)) :
      Joined slots (.fulfilled values)
  | rejected {e : ε} (h : some (.error e) ∈ slots) : Joined slots (.rejected e)

theorem joined_outcomeOf {slots : List (Option (Except ε α))} (h : ∀ e, some (.error e) ∉ slots) :
    Joined slots (outcomeOf slots) := by
  unfold outcomeOf
  split
  · rename_i values hvalues
    exact .fulfilled (mapM_value?_eq_some.mp hvalues)
  · rename_i hwaits
    exact .pending hwaits h

theorem joined_start (n : Nat) : Joined (start n : PromiseAll ε α).slots (start n).outcome := by
  apply joined_outcomeOf
  intro e hmem
  cases List.eq_of_mem_replicate hmem

theorem Joined.step (h : Joined s.slots s.outcome) (hstep : (machine ε α).step s l = some t) :
    Joined t.slots t.outcome := by
  obtain ⟨hslot, rfl⟩ := step_cases hstep
  have hlt := (List.getElem?_eq_some_iff.mp hslot).1
  simp only [settle]
  cases houtcome : s.outcome with
  | pending =>
      rw [houtcome] at h
      cases h with
      | pending hwaits hnone =>
          cases hresult : l.result with
          | error e => exact .rejected (List.mem_set hlt (some (.error e)))
          | ok a =>
              apply joined_outcomeOf
              intro e hmem
              rcases List.mem_or_eq_of_mem_set hmem with hold | hnew
              · exact hnone e hold
              · cases hnew
  | fulfilled values =>
      rw [houtcome] at h
      cases h with
      | fulfilled hslots =>
          rw [hslots, List.getElem?_map] at hslot
          obtain ⟨a, -, ha⟩ := Option.map_eq_some_iff.mp hslot
          cases ha
  | rejected e =>
      rw [houtcome] at h
      cases h with
      | rejected hmem =>
          obtain ⟨j, hj⟩ := List.mem_iff_getElem?.mp hmem
          have hother : l.slot ≠ j := by
            intro heq
            rw [← heq, hslot] at hj
            cases hj
          apply Joined.rejected
          exact List.mem_of_getElem? ((List.getElem?_set_ne hother).trans hj)

/-! ## Promises with an outcome of their own -/

def Settle.Of (f : κ → Except ε α) (xs : List κ) (l : Settle ε α) : Prop :=
  ∀ x, xs[l.slot]? = some x → l.result = f x

def SettledOf (f : κ → Except ε α) (xs : List κ) (slots : List (Option (Except ε α))) : Prop :=
  List.Forall₂ (fun x slot => ∀ r, slot = some r → r = f x) xs slots

variable {f : κ → Except ε α} {xs : List κ}

theorem settledOf_start (f : κ → Except ε α) (xs : List κ) :
    SettledOf f xs (start xs.length : PromiseAll ε α).slots := by
  rw [SettledOf, start, ← List.map_const', List.forall₂_map_right_iff, List.forall₂_same]
  intro x _ r hr
  cases hr

theorem SettledOf.step (h : SettledOf f xs s.slots) (hl : l.Of f xs)
    (hstep : (machine ε α).step s l = some t) : SettledOf f xs t.slots := by
  obtain ⟨hslot, rfl⟩ := step_cases hstep
  obtain ⟨x, hx, -⟩ := TaskList.forall₂_getElem? h hslot
  apply TaskList.forall₂_set_right h hx
  intro r hr
  rw [← Option.some.inj hr]
  exact hl x hx

theorem exists_waiting {slots : List (Option (Except ε α))} (hwaits : slots.mapM value? = none)
    (hnone : ∀ e, some (.error e) ∉ slots) : ∃ k : Nat, slots[k]? = some none := by
  induction slots with
  | nil => cases hwaits
  | cons slot slots ih =>
      match slot with
      | none => exact ⟨0, rfl⟩
      | some (.error e) => exact absurd List.mem_cons_self (hnone e)
      | some (.ok a) =>
          have hrest : slots.mapM value? = none := by
            cases hvalues : slots.mapM value? with
            | none => rfl
            | some values =>
                rw [List.mapM_cons, hvalues] at hwaits
                cases hwaits
          obtain ⟨k, hk⟩ := ih hrest fun e hmem => hnone e (List.mem_cons_of_mem _ hmem)
          exact ⟨k + 1, hk⟩

theorem exists_settle (h : SettledOf f xs s.slots) {k : Nat} (hk : s.slots[k]? = some none) :
    ∃ l t, l.Of f xs ∧ (machine ε α).step s l = some t := by
  obtain ⟨x, hx, -⟩ := TaskList.forall₂_getElem? h hk
  refine ⟨⟨k, f x⟩, s.settle k (f x), fun y hy => ?_, by simp only [machine, hk]⟩
  rw [Option.some.inj (hx.symm.trans hy)]

theorem settledOf_run (hrun : (machine ε α).run (start xs.length) ls = some s)
    (hof : ∀ l ∈ ls, l.Of f xs) : SettledOf f xs s.slots :=
  Machine.run_invariant_within (I := fun s => SettledOf f xs s.slots)
    (fun _ _ _ hs hl hstep => hs.step hl hstep) hrun ((Machine.within_iff_forall hrun).mpr hof)
    (settledOf_start f xs)

def unsettled (slots : List (Option (Except ε α))) : Nat :=
  TaskList.work (fun slot => if slot.isNone then 1 else 0) slots

theorem unsettled_start (n : Nat) : unsettled (start n : PromiseAll ε α).slots = n := by
  simp [unsettled, TaskList.work, start]

theorem unsettled_step (hstep : (machine ε α).step s l = some t) :
    unsettled t.slots + 1 = unsettled s.slots := by
  obtain ⟨hslot, rfl⟩ := step_cases hstep
  exact TaskList.work_set _ hslot _

/-- In whatever order the promises settle: the join is fulfilled with the values
of all, in the order of the list; or it is rejected, for a promise that is; or a
promise has not settled yet. -/
theorem run_cases (hrun : (machine ε α).run (start xs.length) ls = some s)
    (hof : ∀ l ∈ ls, l.Of f xs) :
    (∃ values, s.outcome = .fulfilled values ∧ xs.map f = values.map .ok) ∨
      (∃ e, s.outcome = .rejected e ∧ .error e ∈ xs.map f) ∨
      (s.outcome = .pending ∧ ∃ k : Nat, s.slots[k]? = some none) := by
  have hjoined : Joined s.slots s.outcome := Machine.run_invariant
    (I := fun s => Joined s.slots s.outcome) (fun _ _ _ hs hstep => hs.step hstep) hrun
    (joined_start xs.length)
  have hsettled := settledOf_run hrun hof
  cases houtcome : s.outcome with
  | pending =>
      rw [houtcome] at hjoined
      cases hjoined with
      | pending hwaits hnone => exact .inr (.inr ⟨rfl, exists_waiting hwaits hnone⟩)
  | fulfilled values =>
      rw [houtcome] at hjoined
      cases hjoined with
      | fulfilled hslots =>
          refine .inl ⟨values, rfl, ?_⟩
          rw [SettledOf, hslots, List.forall₂_map_right_iff] at hsettled
          have heq : List.Forall₂ (fun x a => f x = .ok a) xs values :=
            hsettled.imp fun _ _ h => (h _ rfl).symm
          have hmap : List.Forall₂ (· = ·) (xs.map f) (values.map Except.ok) :=
            List.forall₂_map_left_iff.mpr (List.forall₂_map_right_iff.mpr heq)
          rwa [List.forall₂_eq_eq_eq] at hmap
  | rejected e =>
      rw [houtcome] at hjoined
      cases hjoined with
      | rejected hmem =>
          obtain ⟨k, hk⟩ := List.mem_iff_getElem?.mp hmem
          obtain ⟨x, hx, hfx⟩ := TaskList.forall₂_getElem? hsettled hk
          refine .inr (.inl ⟨e, rfl, ?_⟩)
          rw [hfx _ rfl]
          exact List.mem_map_of_mem (List.mem_of_getElem? hx)

end PromiseAll
