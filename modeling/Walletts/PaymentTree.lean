import Walletts.Payment
import Walletts.Lib.VersionTree
/-!
# Payments from the versions of one account

An account is immutable: a payment that resolves leaves it as it is and makes a
new version with a lower balance.  Payments may be made from any version there
is, at any time and also while others are under way, so the versions form a
tree.  The balance along each line of descent is accounted for; a version that
is paid from twice gives its balance away twice.
-/

namespace Walletts

open NormalAccount VersionTree

structure TreeCall where
  version : Nat
  account : NormalAccount
  amount : Int
  destinations : List OuterEntity
  env : PayEnvironment
  call : PayCall

def TreeCall.machine (c : TreeCall) : Machine PayCall PayLabel :=
  payMachine c.env c.account c.amount c.destinations

/-- The versions there are, the payments that were begun, and those that
resolved, with the version they were made from. -/
structure PaymentTree where
  versions : List NormalAccount
  calls : List TreeCall
  resolved : List (Nat × Int)

namespace PaymentTree

inductive Label
  | pay (version : Nat) (amount : Int) (destinations : List OuterEntity) (env : PayEnvironment)
  | advance (i : Nat) (l : PayLabel)

def start (a : NormalAccount) : PaymentTree := ⟨[a], [], []⟩

/-- The tree after a payment has taken a step.  If its promise resolves there,
the account it returns is a new version. -/
def advanced (s : PaymentTree) (i : Nat) (c : TreeCall) (call : PayCall) : PaymentTree :=
  let calls := s.calls.set i { c with call := call }
  match c.call.status, call.status with
  | .choosing, .resolved a =>
      ⟨s.versions ++ [a], calls, s.resolved ++ [(c.version, c.amount)]⟩
  | _, _ => { s with calls := calls }

def machine : Machine PaymentTree Label where
  step s
    | .pay version amount destinations env =>
        s.versions[version]?.map fun a =>
          { s with calls := s.calls ++
            [⟨version, a, amount, destinations, env, payStart a amount⟩] }
    | .advance i l =>
        s.calls[i]?.bind fun c =>
          (c.machine.step c.call l).map fun call => s.advanced i c call

theorem advanced_cases {s : PaymentTree} {i : Nat} {c : TreeCall} {call : PayCall} {l : PayLabel}
    (h : c.machine.step c.call l = some call) :
    s.advanced i c call = { s with calls := s.calls.set i { c with call := call } } ∨
      c.call.status = .choosing ∧ s.advanced i c call =
        ⟨s.versions ++ [lowered c.account c.amount], s.calls.set i { c with call := call },
          s.resolved ++ [(c.version, c.amount)]⟩ := by
  unfold advanced
  dsimp only
  split
  · rename_i a hchoosing hresolved
    rcases pay_step_cases h with ⟨-, -, rfl⟩ | ⟨-, -, rfl⟩
    · obtain rfl := payResume_resolved hresolved
      exact .inr ⟨hchoosing, rfl⟩
    · rw [(endBroadcast_spec _ _).1, hchoosing] at hresolved
      cases hresolved
  · exact .inl rfl

theorem step_cases {s t : PaymentTree} {l : Label} (h : machine.step s l = some t) :
    (∃ version amount destinations env a, s.versions[version]? = some a ∧
      t = { s with calls := s.calls ++
        [⟨version, a, amount, destinations, env, payStart a amount⟩] }) ∨
    (∃ i c call pl, s.calls[i]? = some c ∧ c.machine.step c.call pl = some call ∧
      (t = { s with calls := s.calls.set i { c with call := call } } ∨
        c.call.status = .choosing ∧
          t = ⟨s.versions ++ [lowered c.account c.amount], s.calls.set i { c with call := call },
            s.resolved ++ [(c.version, c.amount)]⟩)) := by
  cases l with
  | pay version amount destinations env =>
      obtain ⟨a, ha, rfl⟩ := Option.map_eq_some_iff.mp h
      exact .inl ⟨version, amount, destinations, env, a, ha, rfl⟩
  | advance i pl =>
      obtain ⟨c, hc, hstep⟩ := Option.bind_eq_some_iff.mp h
      obtain ⟨call, hcall, rfl⟩ := Option.map_eq_some_iff.mp hstep
      exact .inr ⟨i, c, call, pl, hc, hcall, advanced_cases hcall⟩

/-! ## The invariant -/

/-- A payment belongs to the version it names, and one that waits for its coins
was let through. -/
structure CallOk (versions : List NormalAccount) (c : TreeCall) : Prop where
  version_eq : versions[c.version]? = some c.account
  let_through : c.call.status = .choosing → c.amount ≤ c.account.balance.amount

/-- The balances are derived from each other by the payments that resolved, and
none that a payment made is below zero. -/
structure Inv (s : PaymentTree) : Prop where
  derived : Derivation (s.versions.map fun a => a.balance.amount) s.resolved
  nonneg : ∀ a ∈ s.versions.tail, 0 ≤ a.balance.amount
  calls : ∀ c ∈ s.calls, CallOk s.versions c

theorem balance_getElem? {versions : List NormalAccount} {k : Nat} {v : NormalAccount}
    (h : versions[k]? = some v) :
    (versions.map fun v => v.balance.amount)[k]? = some v.balance.amount := by
  rw [List.getElem?_map, h]
  rfl

theorem Inv.versions_ne_nil {s : PaymentTree} (h : Inv s) : s.versions ≠ [] := by
  have hlength := h.derived.length_eq
  rw [List.length_map] at hlength
  exact List.ne_nil_of_length_eq_add_one hlength

theorem CallOk.append {versions : List NormalAccount} {c : TreeCall} (h : CallOk versions c)
    (new : List NormalAccount) : CallOk (versions ++ new) c where
  version_eq := by
    have hlt := (List.getElem?_eq_some_iff.mp h.version_eq).1
    rw [List.getElem?_append_left hlt, h.version_eq]
  let_through := h.let_through

theorem CallOk.step {versions : List NormalAccount} {c : TreeCall} (h : CallOk versions c)
    {call : PayCall} {l : PayLabel} (hstep : c.machine.step c.call l = some call) :
    CallOk versions { c with call := call } where
  version_eq := h.version_eq
  let_through := by
    intro hchoosing
    rcases pay_step_cases hstep with ⟨-, -, rfl⟩ | ⟨-, -, rfl⟩
    · exact absurd hchoosing (payResume_status _ _ _ _)
    · exact h.let_through ((endBroadcast_spec _ _).1 ▸ hchoosing)

theorem callOk_payStart {versions : List NormalAccount} {version : Nat} {a : NormalAccount}
    (h : versions[version]? = some a) (amount : Int) (destinations : List OuterEntity)
    (env : PayEnvironment) :
    CallOk versions ⟨version, a, amount, destinations, env, payStart a amount⟩ where
  version_eq := h
  let_through := by
    intro hchoosing
    simp only [payStart] at hchoosing
    split at hchoosing
    · cases hchoosing
    · simp only
      omega

theorem inv_step {s t : PaymentTree} {l : Label} (h : Inv s) (hstep : machine.step s l = some t) :
    Inv t := by
  obtain ⟨version, amount, destinations, env, a, ha, rfl⟩ |
    ⟨i, c, call, pl, hc, hcall, rfl | ⟨hchoosing, rfl⟩⟩ := step_cases hstep
  · refine ⟨h.derived, h.nonneg, fun c hc => ?_⟩
    rcases List.mem_append.mp hc with hc | hc
    · exact h.calls c hc
    · rw [List.mem_singleton.mp hc]
      exact callOk_payStart ha amount destinations env
  · have hok := h.calls c (List.mem_of_getElem? hc)
    refine ⟨h.derived, h.nonneg, fun c' hc' => ?_⟩
    rcases List.mem_or_eq_of_mem_set hc' with hold | rfl
    · exact h.calls c' hold
    · exact hok.step hcall
  · have hok := h.calls c (List.mem_of_getElem? hc)
    have hamount := hok.let_through hchoosing
    refine ⟨?_, ?_, fun c' hc' => ?_⟩
    · have hparent : (s.versions.map fun a => a.balance.amount)[c.version]? =
          some c.account.balance.amount := balance_getElem? hok.version_eq
      simpa [lowered] using h.derived.derive c.amount hparent
    · intro a ha
      rw [List.tail_append_of_ne_nil h.versions_ne_nil] at ha
      rcases List.mem_append.mp ha with ha | ha
      · exact h.nonneg a ha
      · rw [List.mem_singleton.mp ha, lowered]
        exact sub_nonneg.mpr hamount
    · rcases List.mem_or_eq_of_mem_set hc' with hold | rfl
      · exact (h.calls c' hold).append _
      · exact (hok.step hcall).append _

theorem inv_start (a : NormalAccount) : Inv (start a) where
  derived := .root _
  nonneg := by simp [start]
  calls := by simp [start]

theorem inv_run {s t : PaymentTree} {ls : List Label} (hrun : machine.run s ls = some t)
    (h : Inv s) : Inv t :=
  Machine.run_invariant (fun _ _ _ hs hst => inv_step hs hst) hrun h

theorem versions_run {s t : PaymentTree} {ls : List Label} (hrun : machine.run s ls = some t) :
    s.versions <+: t.versions :=
  Machine.run_relation (R := fun s t : PaymentTree => s.versions <+: t.versions)
    (fun _ => List.prefix_rfl) (fun _ _ _ => List.IsPrefix.trans)
    (fun _ _ _ hstep => by
      obtain ⟨version, amount, destinations, env, a, -, rfl⟩ |
        ⟨i, c, call, pl, -, -, rfl | ⟨-, rfl⟩⟩ := step_cases hstep
      · exact List.prefix_rfl
      · exact List.prefix_rfl
      · exact List.prefix_append _ _) hrun

/-! ## What can be spent -/

theorem Inv.balance_nonneg {s : PaymentTree} (h : Inv s) {a v : NormalAccount} {k : Nat}
    (hfirst : s.versions[0]? = some a) (hk : s.versions[k]? = some v)
    (hor : 0 < k ∨ 0 ≤ a.balance.amount) : 0 ≤ v.balance.amount := by
  cases k with
  | zero =>
      obtain rfl : a = v := Option.some.inj (hfirst.symm.trans hk)
      exact hor.resolve_left (Nat.lt_irrefl 0)
  | succ k =>
      apply h.nonneg v
      rw [← List.getElem?_tail] at hk
      exact List.mem_of_getElem? hk

/-- Over any interleaving of payments from the versions of an account: no
version that a payment made is below zero; what was paid on the way to a version
is what it lacks of the first balance; all payments together stay within it when
no version is paid from twice; and no version is above it when no amount is
negative. -/
theorem spending_bounded {a : NormalAccount} {s : PaymentTree} {ls : List Label}
    (hrun : machine.run (start a) ls = some s) :
    (∀ k v, s.versions[k]? = some v → 0 < k ∨ 0 ≤ a.balance.amount →
        0 ≤ v.balance.amount ∧ (lineage s.resolved k).sum ≤ a.balance.amount) ∧
      (∀ k v, s.versions[k]? = some v →
        (lineage s.resolved k).sum = a.balance.amount - v.balance.amount) ∧
      ((s.resolved.map Prod.fst).Nodup → s.resolved ≠ [] ∨ 0 ≤ a.balance.amount →
        (s.resolved.map Prod.snd).sum ≤ a.balance.amount) ∧
      ((∀ d ∈ s.resolved, 0 ≤ d.2) → ∀ v ∈ s.versions, v.balance.amount ≤ a.balance.amount) := by
  have hinv := inv_run hrun (inv_start a)
  have hfirst : s.versions[0]? = some a := by
    obtain ⟨new, hnew⟩ := versions_run hrun
    rw [← hnew]
    rfl
  have hroot : (s.versions.map fun v => v.balance.amount)[0]? = some a.balance.amount :=
    balance_getElem? hfirst
  refine ⟨?_, ?_, ?_, ?_⟩
  · intro k v hk hor
    have hv := hinv.balance_nonneg hfirst hk hor
    exact ⟨hv, hinv.derived.lineage_sum_le hroot (balance_getElem? hk) hv⟩
  · intro k v hk
    have hvalue := hinv.derived.value_eq hroot (balance_getElem? hk)
    omega
  · intro hlinear hor
    have hlength := hinv.derived.length_eq
    rw [List.length_map] at hlength
    have hlast : s.resolved.length < s.versions.length := by omega
    have hget := List.getElem?_eq_getElem hlast
    have hv := hinv.balance_nonneg hfirst hget (hor.imp_left List.length_pos_of_ne_nil)
    exact hinv.derived.sum_le hroot hlinear (balance_getElem? hget) hv
  · intro hamounts v hv
    exact hinv.derived.le_root hroot hamounts _ (List.mem_map_of_mem hv)

def willing : PayEnvironment := sampleEnvironment (.ok ())

theorem spending_bounded_chain : ∃ s,
    machine.run (start samplePayer) [.pay 0 4 [] willing, .advance 0 .coinsSettle,
        .pay 1 6 [] willing, .advance 1 .coinsSettle] = some s ∧
      (s.resolved.map Prod.snd).sum = 10 ∧
      (s.resolved.map Prod.snd).sum ≤ samplePayer.balance.amount := by
  have hrun : machine.run (start samplePayer) [.pay 0 4 [] willing, .advance 0 .coinsSettle,
      .pay 1 6 [] willing, .advance 1 .coinsSettle] = some _ := rfl
  exact ⟨_, hrun, rfl, (spending_bounded hrun).2.2.1 (by decide) (.inr (by decide))⟩

/-- Two payments of the whole balance from one version both resolve, and a
negative amount raises the balance. -/
theorem spending_unbounded :
    (∃ s, machine.run (start samplePayer) [.pay 0 10 [] willing, .pay 0 10 [] willing,
        .advance 0 .coinsSettle, .advance 1 .coinsSettle] = some s ∧
      samplePayer.balance.amount < (s.resolved.map Prod.snd).sum) ∧
    ∃ s, machine.run (start samplePayer) [.pay 0 (-5) [] willing, .advance 0 .coinsSettle] =
        some s ∧ ∃ v ∈ s.versions, samplePayer.balance.amount < v.balance.amount := by
  refine ⟨⟨_, rfl, by decide⟩, _, rfl, lowered samplePayer (-5), ?_, by decide⟩
  exact List.mem_append_right _ (List.mem_singleton_self _)

end PaymentTree

end Walletts
