import Walletts.Primitives
import Walletts.Lib.Machine
/-!
# Debits and credits

`debit` and `credit` make a new balance or throw.  A sequence of calls goes on,
after each call that throws, with the balance there was before it.
-/

namespace Walletts

def maxSatoshi : Int := 21 * 10 ^ 14

namespace Balance

def debit (b : Balance) (delta : Int) : Except JsError Balance :=
  if b.amount < delta then .error ⟨.balanceError, "Balance can not be negative!"⟩
  else .ok ⟨b.amount - delta⟩

/-- The comparison is with `<`, whatever the text of the error says. -/
def credit (b : Balance) (delta : Int) : Except JsError Balance :=
  if b.amount + delta < maxSatoshi then
    .error ⟨.balanceError, "Balance could not exceed 2100000000000000 !"⟩
  else .ok ⟨b.amount + delta⟩

inductive Call
  | debit (delta : Nat)
  | credit (delta : Nat)

def Call.make (b : Balance) : Call → Except JsError Balance
  | .debit delta => b.debit delta
  | .credit delta => b.credit delta

def Call.change : Call → Int
  | .debit delta => -delta
  | .credit delta => delta

def machine : Machine Balance Call where
  step b call :=
    match call.make b with
    | .ok b' => some b'
    | .error _ => some b

def accepted (b : Balance) (call : Call) : List Int :=
  match call.make b with
  | .ok _ => [call.change]
  | .error _ => []

def InRange (b : Balance) : Prop := 0 ≤ b.amount ∧ b.amount ≤ maxSatoshi

def Call.Leaves (b : Balance) : Call → Prop
  | .debit delta => b.amount < delta
  | .credit delta => maxSatoshi < b.amount + delta

/-- The calls that would leave the range throw and no others do, no balance is
out of range, and the last one is the first and all that was accepted. -/
structure Bookkept (b : Balance) (calls : List Call) : Prop where
  throws_iff : ∀ earlier call u, earlier ++ [call] <+: calls → machine.run b earlier = some u →
    ((∃ e, call.make u = .error e) ↔ call.Leaves u)
  inRange : ∀ earlier u, earlier <+: calls → machine.run b earlier = some u → u.InRange
  amount_eq : ∀ u, machine.run b calls = some u →
    u.amount = b.amount + (machine.trace accepted b calls).sum

def Call.Fills (b : Balance) : Call → Prop
  | .debit _ => True
  | .credit delta => b.amount + delta = maxSatoshi

variable {b t : Balance} {call : Call} {calls : List Call}

theorem make_error_iff : (∃ e, call.make b = .error e) ↔ match call with
    | .debit delta => b.amount < delta
    | .credit delta => b.amount + delta < maxSatoshi := by
  cases call with
  | debit delta =>
      simp only [Call.make, Balance.debit]
      split <;> simp_all
  | credit delta =>
      simp only [Call.make, Balance.credit]
      split <;> simp_all

/-- A credit throws where it should not and goes through where it should not;
only at the limit itself does it do neither. -/
theorem throws_iff_leaves : ((∃ e, call.make b = .error e) ↔ call.Leaves b) ↔ call.Fills b := by
  rw [make_error_iff]
  cases call with
  | debit delta => exact iff_of_true Iff.rfl trivial
  | credit delta =>
      simp only [Call.Leaves, Call.Fills]
      omega

theorem step_amount (h : machine.step b call = some t) :
    t.amount = b.amount + (accepted b call).sum := by
  simp only [machine] at h
  unfold accepted
  cases hmake : call.make b with
  | error e =>
      rw [hmake] at h
      obtain rfl := Option.some.inj h
      simp
  | ok b' =>
      rw [hmake] at h
      obtain rfl := Option.some.inj h
      cases call with
      | debit delta =>
          simp only [Call.make, Balance.debit] at hmake
          split at hmake
          · cases hmake
          · cases hmake
            simp [Call.change, sub_eq_add_neg]
      | credit delta =>
          simp only [Call.make, Balance.credit] at hmake
          split at hmake
          · cases hmake
          · cases hmake
            simp [Call.change]

theorem InRange.step (hb : b.InRange) (hfills : call.Fills b)
    (h : machine.step b call = some t) : t.InRange := by
  have hthrows : (∃ e, call.make b = .error e) ↔ call.Leaves b := throws_iff_leaves.mpr hfills
  have hamount := step_amount h
  unfold accepted at hamount
  cases hmake : call.make b with
  | error e =>
      rw [hmake, List.sum_nil, add_zero] at hamount
      unfold InRange
      rwa [hamount]
  | ok b' =>
      have hstays : ¬ call.Leaves b := fun hleaves => by
        obtain ⟨e, he⟩ := hthrows.mpr hleaves
        rw [hmake] at he
        cases he
      rw [hmake, List.sum_singleton] at hamount
      unfold InRange at hb ⊢
      cases call with
      | debit delta =>
          simp only [Call.Leaves, Call.change] at hstays hamount
          omega
      | credit delta =>
          simp only [Call.Leaves, Call.change] at hstays hamount
          omega

/-- The books of a sequence of calls are in order exactly when each credit in it
fills the balance up to the limit. -/
theorem bookkept_iff (hb : b.InRange) :
    Bookkept b calls ↔ machine.Within (fun u call => call.Fills u) b calls := by
  constructor
  · intro h
    refine Machine.within_iff_forall_prefix.mpr fun earlier call u hpre hrun => ?_
    exact throws_iff_leaves.mp (h.throws_iff earlier call u hpre hrun)
  · intro h
    refine ⟨fun earlier call u hpre hrun => ?_, fun earlier u hpre hrun => ?_,
      fun u hrun => ?_⟩
    · exact throws_iff_leaves.mpr
        (Machine.within_iff_forall_prefix.mp h earlier call u hpre hrun)
    · obtain ⟨later, rfl⟩ := hpre
      exact Machine.run_invariant_within (fun _ _ _ hs hfills hstep => hs.step hfills hstep) hrun
        h.of_append hb
    · exact Machine.run_sum (f := Balance.amount) (fun _ _ _ hstep => step_amount hstep) hrun

theorem bookkept_debits : Bookkept ⟨10⟩ [.debit 4, .debit 7, .debit 6] :=
  (bookkept_iff ⟨by decide, by decide⟩).mpr ⟨trivial, fun _ _ => ⟨trivial, fun _ _ =>
    ⟨trivial, fun _ _ => trivial⟩⟩⟩

theorem bookkept_credit_refused : ¬ Bookkept ⟨0⟩ [.credit 1] := by
  intro h
  have hleaves := (h.throws_iff [] (.credit 1) ⟨0⟩ List.prefix_rfl rfl).mp ⟨_, rfl⟩
  simp [Call.Leaves, maxSatoshi] at hleaves

end Balance

end Walletts
