import Walletts.Payment
/-!
# The value of a payment

What a payment hands to `crateTx`, compared with the coins it was given and the
balance it leaves.  The outputs are one for each destination, with the whole
amount each, and nothing else.
-/

namespace Walletts

namespace NormalAccount

def outputTotal (outputs : List AddressAndAmount) : Int :=
  (outputs.map AddressAndAmount.amount).sum

/-- Value is conserved by a payment over coins of this total: its outputs, in
some order, pay the destinations exactly the amount and return the excess of
the chosen coins to addresses of our own, and the balance it leaves is the
value of the other coins and of what came back. -/
def Conserved (ours : String → Prop) (total amount : Int) (destinations : List OuterEntity)
    (chosen : List MyWalletCoin) (outputs : List AddressAndAmount) (balance : Int) : Prop :=
  ∃ paid change, outputs.Perm (paid ++ change) ∧
    paid.map AddressAndAmount.address = destinations.map OuterEntity.nextAddressToPay ∧
    outputTotal paid = amount ∧
    (∀ o ∈ change, ours o.address) ∧
    outputTotal change = totalAmount chosen - amount ∧
    balance = total - totalAmount chosen + outputTotal change

theorem outputTotal_addressAndAmounts (amount : Int) (destinations : List OuterEntity) :
    outputTotal (addressAndAmounts amount destinations) = destinations.length * amount := by
  simp [outputTotal, addressAndAmounts, Function.comp_def]

theorem address_addressAndAmounts (amount : Int) (destinations : List OuterEntity) :
    (addressAndAmounts amount destinations).map AddressAndAmount.address =
      destinations.map OuterEntity.nextAddressToPay := by
  simp [addressAndAmounts, Function.comp_def]

theorem no_change {amount : Int} {destinations : List OuterEntity}
    {paid change : List AddressAndAmount}
    (hperm : (addressAndAmounts amount destinations).Perm (paid ++ change))
    (haddress : paid.map AddressAndAmount.address =
      destinations.map OuterEntity.nextAddressToPay) : change = [] := by
  have hlength := hperm.length_eq
  have hpaid := congrArg List.length haddress
  simp only [addressAndAmounts, List.length_map, List.length_append] at hlength hpaid
  apply List.eq_nil_of_length_eq_zero
  omega

theorem conserved_addressAndAmounts_iff {ours : String → Prop} {total amount : Int}
    {destinations : List OuterEntity} {chosen : List MyWalletCoin} :
    Conserved ours total amount destinations chosen (addressAndAmounts amount destinations)
        (total - amount) ↔
      (destinations.length = 1 ∨ amount = 0) ∧ totalAmount chosen = amount := by
  have hone : (destinations.length : Int) * amount = amount ↔
      destinations.length = 1 ∨ amount = 0 := by
    rw [mul_left_eq_self₀, Nat.cast_eq_one]
  constructor
  · rintro ⟨paid, change, hperm, haddress, hpaid, -, hchange, -⟩
    obtain rfl := no_change hperm haddress
    have hsame : outputTotal (addressAndAmounts amount destinations) = outputTotal paid := by
      simpa [outputTotal] using (hperm.map AddressAndAmount.amount).sum_eq
    constructor
    · apply hone.mp
      calc
        (destinations.length : Int) * amount =
            outputTotal (addressAndAmounts amount destinations) :=
          (outputTotal_addressAndAmounts amount destinations).symm
        _ = outputTotal paid := hsame
        _ = amount := hpaid
    · have hzero : outputTotal [] = 0 := rfl
      rw [hzero] at hchange
      omega
  · rintro ⟨hcount, hchosen⟩
    refine ⟨addressAndAmounts amount destinations, [], by simp, address_addressAndAmounts _ _,
      ?_, by simp, ?_, ?_⟩
    · rw [outputTotal_addressAndAmounts, hone.mpr hcount]
    · simp [outputTotal, hchosen]
    · simp [outputTotal, hchosen]

theorem handed_eq {env : PayEnvironment} {a : NormalAccount} {amount : Int}
    {destinations : List OuterEntity} {chosen : List MyWalletCoin} {tx : Transaction}
    {ls : List PayLabel} {c : PayCall} {a' : NormalAccount}
    (hchoose : env.chooseCoinsFromAmount amount = .ok chosen)
    (hcrate : env.crateTx chosen (addressAndAmounts amount destinations) = .ok (.ok tx))
    (hrun : (payMachine env a amount destinations).run (payStart a amount) ls = some c)
    (hresolved : c.status = .resolved a') :
    c.handed = some (chosen, addressAndAmounts amount destinations) := by
  have hresume : (payResume env a amount destinations).handed =
      some (chosen, addressAndAmounts amount destinations) := by
    simp [payResume, hchoose, hcrate]
  rcases pay_run_cases hrun with rfl | ⟨-, rfl | rfl⟩
  · unfold payStart at hresolved
    split at hresolved <;> cases hresolved
  · exact hresume
  · rw [(endBroadcast_spec _ _).2.1, hresume]

/-- A payment from an account whose balance is the total of its coins conserves
value if and only if it has one destination, or the amount is zero, and the
chosen coins match the amount. -/
theorem pay_conserves_iff {env : PayEnvironment} {m : CoinManager} {a a' : NormalAccount}
    {amount : Int} {destinations : List OuterEntity} {chosen : List MyWalletCoin}
    {tx : Transaction} {ls : List PayLabel} {c : PayCall}
    (hbalance : a.balance.amount = totalAmount m.coinList)
    (hchoose : env.chooseCoinsFromAmount amount = .ok chosen)
    (hcrate : env.crateTx chosen (addressAndAmounts amount destinations) = .ok (.ok tx))
    (hrun : (payMachine env a amount destinations).run (payStart a amount) ls = some c)
    (hresolved : c.status = .resolved a') (ours : String → Prop) :
    (∃ outputs, c.handed = some (chosen, outputs) ∧
        Conserved ours (totalAmount m.coinList) amount destinations chosen outputs
          a'.balance.amount) ↔
      (destinations.length = 1 ∨ amount = 0) ∧ totalAmount chosen = amount := by
  obtain ⟨-, rfl⟩ := resolved_eq hrun hresolved
  have hleft : (lowered a amount).balance.amount = totalAmount m.coinList - amount := by
    rw [lowered, hbalance]
  rw [handed_eq hchoose hcrate hrun hresolved, hleft, ← conserved_addressAndAmounts_iff]
  constructor
  · rintro ⟨outputs, heq, h⟩
    obtain rfl : addressAndAmounts amount destinations = outputs := by simpa using heq
    exact h
  · exact fun h => ⟨_, rfl, h⟩

def sampleCoin : MyWalletCoin where
  scriptPubKey := ScriptLib.p2pkh ScriptLib.genesisHash
  scriptType := "pubkeyhash"
  txid := sampleTx.getId
  label := none
  redeemScript := none
  amount := ⟨7⟩

def sampleManager : CoinManager :=
  (CoinManager.new 0).setCoin ⟨sampleTx.getId, 0, ScriptLib.p2pkh ScriptLib.genesisHash, 7⟩
    sampleCoin

def sampleOwner : NormalAccount := { sampleAccount none with balance := ⟨7⟩ }

def spendingEnvironment : PayEnvironment where
  chooseCoinsFromAmount _ := .ok [sampleCoin]
  crateTx _ _ := .ok (.ok sampleTx)
  broadCast _ := .ok ()

def sampleDestination : OuterEntity := ⟨.otherUser, "1BitcoinEaterAddressDontSendf59kuE"⟩

theorem pay_conserves_exact_coin : ∃ c a',
    (payMachine spendingEnvironment sampleOwner 7 [sampleDestination]).run
        (payStart sampleOwner 7) [.coinsSettle] = some c ∧ c.status = .resolved a' ∧
      ∃ outputs, c.handed = some ([sampleCoin], outputs) ∧
        Conserved (fun _ => False) 7 7 [sampleDestination] [sampleCoin] outputs
          a'.balance.amount := by
  have hchoose : spendingEnvironment.chooseCoinsFromAmount 7 = .ok [sampleCoin] := rfl
  have hcrate : spendingEnvironment.crateTx [sampleCoin]
      (addressAndAmounts 7 [sampleDestination]) = .ok (.ok sampleTx) := rfl
  have hbalance : sampleOwner.balance.amount = totalAmount sampleManager.coinList := rfl
  have hrun : (payMachine spendingEnvironment sampleOwner 7 [sampleDestination]).run
      (payStart sampleOwner 7) [.coinsSettle] = some _ := rfl
  exact ⟨_, _, hrun, rfl,
    (pay_conserves_iff hbalance hchoose hcrate hrun rfl fun _ => False).mpr (by decide)⟩

/-- Two destinations get the whole amount each, and the rest of the coin goes
nowhere. -/
theorem pay_loses_value : ∃ c a' outputs,
    (payMachine spendingEnvironment sampleOwner 4 [sampleDestination, sampleDestination]).run
        (payStart sampleOwner 4) [.coinsSettle] = some c ∧
      c.status = .resolved a' ∧ c.handed = some ([sampleCoin], outputs) ∧
      outputTotal outputs = 8 ∧ a'.balance.amount = 3 ∧
      ∀ ours, ¬ Conserved ours 7 4 [sampleDestination, sampleDestination] [sampleCoin] outputs
        a'.balance.amount := by
  refine ⟨_, _, _, rfl, rfl, rfl, by decide, by decide, fun ours h => ?_⟩
  exact absurd (conserved_addressAndAmounts_iff.mp h) (by decide)

end NormalAccount

end Walletts
