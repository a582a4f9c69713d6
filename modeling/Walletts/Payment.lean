import Walletts.Account
import Walletts.CrateTx
import Walletts.Lib.Machine
import Mathlib.Algebra.BigOperators.Group.List.Basic
import Mathlib.Tactic.Linarith
/-!
# Payments

`pay` checks the amount against the balance it sees, waits for the coins, hands
these and one output for each destination to `crateTx`, starts the broadcast
without waiting for it, and returns an account with the lowered balance.  The
coin manager is a parameter: it may choose any coins or reject, and building
and broadcasting may fail in each of their ways.
-/

namespace Walletts

/-- What the coin manager will do for one payment: the coins it chooses,
`crateTx`, which may throw or return a `Left`, and how the broadcast of a
transaction will end. -/
structure PayEnvironment where
  chooseCoinsFromAmount : Int → Except JsError (List MyWalletCoin)
  crateTx : List MyWalletCoin → List AddressAndAmount → Except JsError (Except JsError Transaction)
  broadCast : Transaction → Except JsError Unit

inductive PayStatus
  | choosing
  | resolved (a : NormalAccount)
  | rejected (e : JsError)

inductive BroadcastStatus
  | none
  | inFlight (tx : Transaction)
  | accepted (tx : Transaction)
  | refused (tx : Transaction) (e : JsError)

/-- A call of `pay`: its promise, the arguments of its call of `crateTx`, and
its broadcast. -/
structure PayCall where
  status : PayStatus
  handed : Option (List MyWalletCoin × List AddressAndAmount)
  broadcast : BroadcastStatus

inductive PayLabel
  | coinsSettle
  | broadcastSettle
  deriving DecidableEq

def CoinManager.broadCast (send : String → Except JsError Unit) (tx : Transaction) :
    Except JsError Unit :=
  send tx.toHex

/-- `send` over `client.sendRawTransaction`, which throws at once or returns a
promise that ends later. -/
def TrustedBitcoindRPC.send (sendRawTransaction : String → Except JsError (Except JsError String))
    (hexTx : String) : Except JsError Unit :=
  match sendRawTransaction hexTx with
  -- the promise is not awaited
  | .ok _promise => .ok ()
  -- what is thrown at once is caught and logged
  | .error _ => .ok ()

/-- The environment that the repository itself makes: `crateTx` over a builder,
and `broadCast` over a node.  The choice of coins stays open. -/
def managerEnvironment (chooseCoinsFromAmount : Int → Except JsError (List MyWalletCoin))
    (lib : TransactionBuilderLib)
    (sendRawTransaction : String → Except JsError (Except JsError String)) : PayEnvironment where
  chooseCoinsFromAmount := chooseCoinsFromAmount
  crateTx coins addressAndAmount := (CoinManager.crateTx lib coins addressAndAmount []).1
  broadCast := CoinManager.broadCast (TrustedBitcoindRPC.send sendRawTransaction)

namespace NormalAccount

def negativeBalance : JsError := ⟨.error, "Balance can not be negative!"⟩

def addressAndAmounts (amount : Int) (destinations : List OuterEntity) : List AddressAndAmount :=
  destinations.map fun d => ⟨d.nextAddressToPay, amount⟩

def payStart (a : NormalAccount) (amount : Int) : PayCall :=
  if a.balance.amount - amount < 0 then ⟨.rejected negativeBalance, none, .none⟩
  else ⟨.choosing, none, .none⟩

def lowered (a : NormalAccount) (amount : Int) : NormalAccount :=
  { a with balance := ⟨a.balance.amount - amount⟩ }

def payResume (env : PayEnvironment) (a : NormalAccount) (amount : Int)
    (destinations : List OuterEntity) : PayCall :=
  match env.chooseCoinsFromAmount amount with
  | .error e => ⟨.rejected e, none, .none⟩
  | .ok coins =>
      let outputs := addressAndAmounts amount destinations
      match env.crateTx coins outputs with
      | .error e => ⟨.rejected e, some (coins, outputs), .none⟩
      -- `map` does nothing with a `Left`
      | .ok (.error _) => ⟨.resolved (lowered a amount), some (coins, outputs), .none⟩
      | .ok (.ok tx) => ⟨.resolved (lowered a amount), some (coins, outputs), .inFlight tx⟩

def endBroadcast (env : PayEnvironment) (c : PayCall) : PayCall :=
  match c.broadcast with
  | .inFlight tx =>
      match env.broadCast tx with
      | .ok _ => { c with broadcast := .accepted tx }
      -- `catch` makes a text of the error, which nobody reads
      | .error e => { c with broadcast := .refused tx e }
  | _ => c

def payMachine (env : PayEnvironment) (a : NormalAccount) (amount : Int)
    (destinations : List OuterEntity) : Machine PayCall PayLabel where
  step c
    | .coinsSettle =>
        match c.status with
        | .choosing => some (payResume env a amount destinations)
        | _ => none
    | .broadcastSettle =>
        match c.broadcast with
        | .inFlight _ => some (endBroadcast env c)
        | _ => none

/-! ## What a payment can come to -/

section Outcome

variable {env : PayEnvironment} {a : NormalAccount} {amount : Int}
  {destinations : List OuterEntity}

theorem pay_step_cases {c d : PayCall} {l : PayLabel}
    (h : (payMachine env a amount destinations).step c l = some d) :
    (l = .coinsSettle ∧ c.status = .choosing ∧ d = payResume env a amount destinations) ∨
    (l = .broadcastSettle ∧ (∃ tx, c.broadcast = .inFlight tx) ∧ d = endBroadcast env c) := by
  cases l with
  | coinsSettle =>
      simp only [payMachine] at h
      split at h
      · rename_i hstatus
        exact .inl ⟨rfl, hstatus, (Option.some.inj h).symm⟩
      · cases h
  | broadcastSettle =>
      simp only [payMachine] at h
      split at h
      · rename_i tx hbroadcast
        exact .inr ⟨rfl, ⟨tx, hbroadcast⟩, (Option.some.inj h).symm⟩
      · cases h

theorem endBroadcast_spec (env : PayEnvironment) (c : PayCall) :
    (endBroadcast env c).status = c.status ∧ (endBroadcast env c).handed = c.handed ∧
      ∀ tx, (endBroadcast env c).broadcast ≠ .inFlight tx := by
  unfold endBroadcast
  split
  · split <;> simp
  · rename_i hnot
    exact ⟨rfl, rfl, hnot⟩

theorem payResume_status (env : PayEnvironment) (a : NormalAccount) (amount : Int)
    (destinations : List OuterEntity) :
    (payResume env a amount destinations).status ≠ .choosing := by
  unfold payResume
  split
  · simp
  · dsimp only
    split <;> simp

theorem payResume_resolved {a' : NormalAccount}
    (h : (payResume env a amount destinations).status = .resolved a') : a' = lowered a amount := by
  unfold payResume at h
  split at h
  · cases h
  · dsimp only at h
    split at h <;> cases h <;> rfl

theorem pay_run_cases {ls : List PayLabel} {c : PayCall}
    (hrun : (payMachine env a amount destinations).run (payStart a amount) ls = some c) :
    c = payStart a amount ∨
      amount ≤ a.balance.amount ∧ (c = payResume env a amount destinations ∨
        c = endBroadcast env (payResume env a amount destinations)) := by
  refine Machine.run_invariant (I := fun c => c = payStart a amount ∨
    amount ≤ a.balance.amount ∧ (c = payResume env a amount destinations ∨
      c = endBroadcast env (payResume env a amount destinations))) ?_ hrun (.inl rfl)
  intro c l d hc hstep
  rcases pay_step_cases hstep with ⟨-, hstatus, rfl⟩ | ⟨-, ⟨tx, hflight⟩, rfl⟩
  · rcases hc with rfl | ⟨hle, -⟩
    · refine .inr ⟨?_, .inl rfl⟩
      unfold payStart at hstatus
      split at hstatus
      · cases hstatus
      · omega
    · exact .inr ⟨hle, .inl rfl⟩
  · rcases hc with rfl | ⟨hle, rfl | rfl⟩
    · unfold payStart at hflight
      split at hflight <;> cases hflight
    · exact .inr ⟨hle, .inr rfl⟩
    · exact absurd hflight ((endBroadcast_spec _ _).2.2 tx)

def Settled (c : PayCall) : Prop :=
  c.status ≠ .choosing ∧ ∀ tx, c.broadcast ≠ .inFlight tx

theorem settled_endBroadcast (env : PayEnvironment) (a : NormalAccount) (amount : Int)
    (destinations : List OuterEntity) :
    Settled (endBroadcast env (payResume env a amount destinations)) := by
  obtain ⟨hstatus, -, hnone⟩ := endBroadcast_spec env
    (payResume env a amount destinations)
  exact ⟨hstatus ▸ payResume_status env a amount destinations, hnone⟩

theorem pay_settled_cases {ls : List PayLabel} {c : PayCall}
    (hrun : (payMachine env a amount destinations).run (payStart a amount) ls = some c)
    (hsettled : Settled c) :
    a.balance.amount < amount ∧ c = ⟨.rejected negativeBalance, none, .none⟩ ∨
      amount ≤ a.balance.amount ∧ c = endBroadcast env (payResume env a amount destinations) := by
  rcases pay_run_cases hrun with rfl | ⟨hle, rfl | rfl⟩
  · unfold payStart at hsettled ⊢
    split
    · exact .inl ⟨by omega, rfl⟩
    · rename_i hnot
      rw [if_neg hnot] at hsettled
      exact absurd rfl hsettled.1
  · refine .inr ⟨hle, ?_⟩
    unfold endBroadcast
    split
    · rename_i tx hflight
      exact absurd hflight (hsettled.2 tx)
    · rfl
  · exact .inr ⟨hle, rfl⟩

/-- Every payment settles: some run of no more than two steps ends it. -/
theorem pay_settles (env : PayEnvironment) (a : NormalAccount) (amount : Int)
    (destinations : List OuterEntity) : ∃ ls c, ls.length ≤ 2 ∧
      (payMachine env a amount destinations).run (payStart a amount) ls = some c ∧ Settled c := by
  by_cases hneg : a.balance.amount - amount < 0
  · exact ⟨[], _, by simp, rfl, by simp [payStart, hneg, Settled]⟩
  · have hfirst : (payMachine env a amount destinations).step (payStart a amount) .coinsSettle =
        some (payResume env a amount destinations) := by
      simp [payMachine, payStart, hneg]
    by_cases hflight : ∃ tx, (payResume env a amount destinations).broadcast = .inFlight tx
    · obtain ⟨tx, htx⟩ := hflight
      refine ⟨[.coinsSettle, .broadcastSettle],
        endBroadcast env (payResume env a amount destinations), by simp, ?_,
        settled_endBroadcast env a amount destinations⟩
      rw [Machine.run_cons, hfirst]
      simp [payMachine, htx]
    · refine ⟨[.coinsSettle], _, by simp, by rw [Machine.run_cons, hfirst]; rfl,
        payResume_status env a amount destinations, ?_⟩
      exact fun tx htx => hflight ⟨tx, htx⟩

/-! ## Payments that do not go out -/

/-- The payment ends before a broadcast: the amount is above the balance, the
coins are refused, or `crateTx` throws. -/
def RejectsEarly (env : PayEnvironment) (a : NormalAccount) (amount : Int)
    (destinations : List OuterEntity) : Prop :=
  a.balance.amount < amount ∨ (∃ e, env.chooseCoinsFromAmount amount = .error e) ∨
    ∃ coins e, env.chooseCoinsFromAmount amount = .ok coins ∧
      env.crateTx coins (addressAndAmounts amount destinations) = .error e

def GoesOut (env : PayEnvironment) (amount : Int) (destinations : List OuterEntity) : Prop :=
  ∃ coins tx, env.chooseCoinsFromAmount amount = .ok coins ∧
    env.crateTx coins (addressAndAmounts amount destinations) = .ok (.ok tx) ∧
    env.broadCast tx = .ok ()

def Accepted (c : PayCall) : Prop := ∃ tx, c.broadcast = .accepted tx

def Rejected (c : PayCall) : Prop := ∃ e, c.status = .rejected e

def ResolvedLower (a : NormalAccount) (c : PayCall) : Prop :=
  ∃ a', c.status = .resolved a' ∧ a'.balance.amount < a.balance.amount

section Settled

variable {ls : List PayLabel} {c : PayCall}

theorem rejected_iff
    (hrun : (payMachine env a amount destinations).run (payStart a amount) ls = some c)
    (hsettled : Settled c) : Rejected c ↔ RejectsEarly env a amount destinations := by
  rcases pay_settled_cases hrun hsettled with ⟨hlt, rfl⟩ | ⟨hle, rfl⟩
  · simp [Rejected, RejectsEarly, hlt]
  · rw [Rejected, (endBroadcast_spec _ _).1, RejectsEarly]
    have hnot : ¬ a.balance.amount < amount := by omega
    cases hchoose : env.chooseCoinsFromAmount amount with
    | error e => simp [payResume, hchoose]
    | ok coins =>
        cases hcrate : env.crateTx coins (addressAndAmounts amount destinations) with
        | error e => simp [payResume, hchoose, hcrate]
        | ok created => cases created <;> simp [payResume, hchoose, hcrate, hnot]

theorem accepted_iff
    (hrun : (payMachine env a amount destinations).run (payStart a amount) ls = some c)
    (hsettled : Settled c) :
    Accepted c ↔ amount ≤ a.balance.amount ∧ GoesOut env amount destinations := by
  rcases pay_settled_cases hrun hsettled with ⟨hlt, rfl⟩ | ⟨hle, rfl⟩
  · simp [Accepted, hlt]
  · rw [Accepted, GoesOut]
    cases hchoose : env.chooseCoinsFromAmount amount with
    | error e => simp [payResume, endBroadcast, hchoose]
    | ok coins =>
        cases hcrate : env.crateTx coins (addressAndAmounts amount destinations) with
        | error e => simp [payResume, endBroadcast, hchoose, hcrate]
        | ok created =>
            cases created with
            | error e => simp [payResume, endBroadcast, hchoose, hcrate]
            | ok tx => cases hend : env.broadCast tx <;>
                simp [payResume, endBroadcast, hchoose, hcrate, hend, hle]

theorem resolved_eq
    (hrun : (payMachine env a amount destinations).run (payStart a amount) ls = some c)
    {a' : NormalAccount} (hresolved : c.status = .resolved a') :
    amount ≤ a.balance.amount ∧ a' = lowered a amount := by
  rcases pay_run_cases hrun with rfl | ⟨hle, rfl | rfl⟩
  · unfold payStart at hresolved
    split at hresolved <;> cases hresolved
  · exact ⟨hle, payResume_resolved hresolved⟩
  · exact ⟨hle, payResume_resolved ((endBroadcast_spec _ _).1 ▸ hresolved)⟩

def NodeAccepts (sendRawTransaction : String → Except JsError (Except JsError String))
    (tx : Transaction) : Prop :=
  ∃ txid, sendRawTransaction tx.toHex = .ok (.ok txid)

theorem broadCast_send (sendRawTransaction : String → Except JsError (Except JsError String))
    (tx : Transaction) :
    CoinManager.broadCast (TrustedBitcoindRPC.send sendRawTransaction) tx = .ok () := by
  unfold CoinManager.broadCast TrustedBitcoindRPC.send
  split <;> rfl

theorem not_rejected_of_resolvedLower (h : ResolvedLower a c) : ¬ Rejected c := by
  rintro ⟨e, he⟩
  obtain ⟨a', hresolved, -⟩ := h
  rw [hresolved] at he
  cases he

theorem amount_pos_of_resolvedLower
    (hrun : (payMachine env a amount destinations).run (payStart a amount) ls = some c)
    (h : ResolvedLower a c) : 0 < amount := by
  obtain ⟨a', hresolved, hlt⟩ := h
  obtain ⟨-, rfl⟩ := resolved_eq hrun hresolved
  simp only [lowered] at hlt
  omega

theorem rejected_or_resolvedLower
    (hrun : (payMachine env a amount destinations).run (payStart a amount) ls = some c)
    (hsettled : Settled c) (hpos : 0 < amount) : Rejected c ∨ ResolvedLower a c := by
  cases hstatus : c.status with
  | choosing => exact absurd hstatus hsettled.1
  | rejected e => exact .inl ⟨e, hstatus⟩
  | resolved a' =>
      obtain ⟨-, rfl⟩ := resolved_eq hrun hstatus
      refine .inr ⟨lowered a amount, hstatus, ?_⟩
      simp only [lowered]
      omega

/-- The balance is lowered only for a payment that went out, and a payment that
did not go out rejects. -/
def LowersOnlyAccepted (a : NormalAccount) (c : PayCall) : Prop :=
  (ResolvedLower a c → Accepted c) ∧ (¬ Accepted c → Rejected c)

def LowersOrRejects (a : NormalAccount) (c : PayCall) : Prop :=
  (ResolvedLower a c → Accepted c) ∧ (¬ (ResolvedLower a c ∧ Accepted c) → Rejected c)

theorem lowersOnlyAccepted_iff
    (hrun : (payMachine env a amount destinations).run (payStart a amount) ls = some c)
    (hsettled : Settled c) : LowersOnlyAccepted a c ↔
      RejectsEarly env a amount destinations ∨ GoesOut env amount destinations := by
  have hrejected := rejected_iff hrun hsettled
  have haccepted := accepted_iff hrun hsettled
  constructor
  · rintro ⟨-, hreject⟩
    by_cases h : Accepted c
    · exact .inr (haccepted.mp h).2
    · exact .inl (hrejected.mp (hreject h))
  · intro h
    have hend : Rejected c ∨ Accepted c := by
      rcases h with hearly | hout
      · exact .inl (hrejected.mpr hearly)
      · rcases lt_or_ge a.balance.amount amount with hlt | hle
        · exact .inl (hrejected.mpr (.inl hlt))
        · exact .inr (haccepted.mpr ⟨hle, hout⟩)
    rcases hend with hrej | hacc
    · exact ⟨fun hlower => absurd hrej (not_rejected_of_resolvedLower hlower), fun _ => hrej⟩
    · exact ⟨fun _ => hacc, fun hnot => absurd hacc hnot⟩

theorem lowersOrRejects_iff
    (hrun : (payMachine env a amount destinations).run (payStart a amount) ls = some c)
    (hsettled : Settled c) : LowersOrRejects a c ↔
      RejectsEarly env a amount destinations ∨ 0 < amount ∧ GoesOut env amount destinations := by
  have hrejected := rejected_iff hrun hsettled
  have hweak := lowersOnlyAccepted_iff hrun hsettled
  constructor
  · rintro ⟨haccept, hreject⟩
    by_cases h : ResolvedLower a c ∧ Accepted c
    · exact .inr ⟨amount_pos_of_resolvedLower hrun h.1, ((accepted_iff hrun hsettled).mp h.2).2⟩
    · exact .inl (hrejected.mp (hreject h))
  · intro h
    have hlower : LowersOnlyAccepted a c := hweak.mpr (h.imp_right And.right)
    refine ⟨hlower.1, fun hnot => ?_⟩
    rcases h with hearly | ⟨hpos, -⟩
    · exact hrejected.mpr hearly
    · rcases rejected_or_resolvedLower hrun hsettled hpos with hrej | hres
      · exact hrej
      · exact absurd ⟨hres, hlower.1 hres⟩ hnot

def BroadCastReports (sendRawTransaction : String → Except JsError (Except JsError String))
    (tx : Transaction) : Prop :=
  let outcome := CoinManager.broadCast (TrustedBitcoindRPC.send sendRawTransaction) tx
  (outcome = .ok () → NodeAccepts sendRawTransaction tx) ∧
    (¬ NodeAccepts sendRawTransaction tx → ∃ e, outcome = .error e)

theorem broadCastReports_iff
    (sendRawTransaction : String → Except JsError (Except JsError String)) (tx : Transaction) :
    BroadCastReports sendRawTransaction tx ↔ NodeAccepts sendRawTransaction tx := by
  unfold BroadCastReports
  rw [broadCast_send]
  constructor
  · exact fun h => h.1 rfl
  · exact fun h => ⟨fun _ => h, fun hnot => absurd h hnot⟩

/-- When a settled payment tells the truth: if and only if it ends before the
broadcast or goes out; asked to reject also whenever it does not lower the
balance, it needs an amount above zero.  A broadcast over the node tells the
truth if and only if the node accepts. -/
theorem pay_reports_iff
    (hrun : (payMachine env a amount destinations).run (payStart a amount) ls = some c)
    (hsettled : Settled c) :
    (LowersOnlyAccepted a c ↔
        RejectsEarly env a amount destinations ∨ GoesOut env amount destinations) ∧
      (LowersOrRejects a c ↔
        RejectsEarly env a amount destinations ∨ 0 < amount ∧ GoesOut env amount destinations) ∧
      ∀ sendRawTransaction tx,
        BroadCastReports sendRawTransaction tx ↔ NodeAccepts sendRawTransaction tx :=
  ⟨lowersOnlyAccepted_iff hrun hsettled, lowersOrRejects_iff hrun hsettled,
    broadCastReports_iff⟩

theorem manager_accepted_or_rejected
    {chooseCoinsFromAmount : Int → Except JsError (List MyWalletCoin)}
    {lib : TransactionBuilderLib}
    {sendRawTransaction : String → Except JsError (Except JsError String)}
    (hrun : (payMachine (managerEnvironment chooseCoinsFromAmount lib sendRawTransaction) a amount
      destinations).run (payStart a amount) ls = some c)
    (hsettled : Settled c) : Accepted c ∨ Rejected c := by
  rcases pay_settled_cases hrun hsettled with ⟨-, rfl⟩ | ⟨hle, -⟩
  · exact .inr ⟨_, rfl⟩
  · cases hchoose : chooseCoinsFromAmount amount with
    | error e => exact .inr ((rejected_iff hrun hsettled).mpr (.inr (.inl ⟨e, hchoose⟩)))
    | ok coins =>
        cases hcrate : (CoinManager.crateTx lib coins
            (addressAndAmounts amount destinations) []).1 with
        | error e =>
            exact .inr ((rejected_iff hrun hsettled).mpr (.inr (.inr ⟨coins, e, hchoose, hcrate⟩)))
        | ok created =>
            cases created with
            | error e => exact absurd hcrate (CoinManager.crateTx_ne_left lib _ _ e)
            | ok tx =>
                have hsend := broadCast_send sendRawTransaction tx
                exact .inl ((accepted_iff hrun hsettled).mpr
                  ⟨hle, coins, tx, hchoose, hcrate, hsend⟩)

def samplePayer : NormalAccount := { sampleAccount none with balance := ⟨10⟩ }

def sampleEnvironment (broadCast : Except JsError Unit) : PayEnvironment where
  chooseCoinsFromAmount _ := .ok []
  crateTx _ _ := .ok (.ok sampleTx)
  broadCast _ := broadCast

theorem pay_reports_accepted : ∃ c,
    (payMachine (sampleEnvironment (.ok ())) samplePayer 4 []).run (payStart samplePayer 4)
        [.coinsSettle, .broadcastSettle] = some c ∧ LowersOrRejects samplePayer c := by
  have hrun : (payMachine (sampleEnvironment (.ok ())) samplePayer 4 []).run
      (payStart samplePayer 4) [.coinsSettle, .broadcastSettle] = some _ := rfl
  have hout : GoesOut (sampleEnvironment (.ok ())) 4 [] := ⟨[], sampleTx, rfl, rfl, rfl⟩
  exact ⟨_, hrun, (pay_reports_iff hrun (settled_endBroadcast _ _ _ _)).2.1.mpr
    (.inr ⟨by decide, hout⟩)⟩

/-- The broadcast is refused after the payment has resolved with less, and a
broadcast over a node that refuses resolves. -/
theorem pay_hides_refusal :
    (∃ c e, (payMachine (sampleEnvironment (.error e)) samplePayer 4 []).run
        (payStart samplePayer 4) [.coinsSettle, .broadcastSettle] = some c ∧
      Settled c ∧ ¬ LowersOnlyAccepted samplePayer c ∧ ¬ LowersOrRejects samplePayer c) ∧
    ¬ BroadCastReports (fun _ => .ok (.error ⟨.error, "bad-txns-inputs-spent"⟩)) sampleTx := by
  refine ⟨⟨_, ⟨.error, "bad-txns-inputs-spent"⟩, rfl, settled_endBroadcast _ _ _ _, ?_, ?_⟩,
    ?_⟩
  · intro h
    obtain ⟨tx, htx⟩ := h.1 ⟨lowered samplePayer 4, rfl, by decide⟩
    cases htx
  · intro h
    obtain ⟨tx, htx⟩ := h.1 ⟨lowered samplePayer 4, rfl, by decide⟩
    cases htx
  · intro h
    obtain ⟨txid, htxid⟩ := h.1 rfl
    cases htxid

end Settled

end Outcome

end NormalAccount

end Walletts
