import Walletts.Conservation
import Mathlib.Data.List.Perm.Subperm
/-!
# The choice of coins

`pay` and `crateTx` rest on `chooseCoinsFromAmount` without checking: the coins
should be held by the manager, none of them twice, and cover the amount.  The
method asks the coin map for a key and names none, so what it resolves to is
not a list.  This module follows that value through `crateTx` into the promise
of `pay`.
-/

namespace Walletts

/-- What the promise of coins resolves to: the list that its type announces, or
what a `Map` gives, which is one value or `undefined`. -/
inductive ChosenCoins
  | list (coins : List MyWalletCoin)
  | single (coin : MyWalletCoin)
  | undefined
  deriving DecidableEq

def mapOfUndefined : JsError := ⟨.typeError, "Cannot read property 'map' of undefined"⟩

def mapNotAFunction : JsError := ⟨.typeError, "coins.map is not a function"⟩

namespace CoinManager

/-- `Map.get`.  A key that is left out is `undefined`, and the keys of this map
are all of them objects. -/
def getCoin (m : CoinManager) : Option CoinID → ChosenCoins
  | none => .undefined
  | some k =>
      match m.coins.get k with
      | none => .undefined
      | some coin => .single coin

/-- `chooseCoinsFromAmount`, which reads neither the amount nor the keys. -/
def chooseCoinsFromAmount (m : CoinManager) (_amount : Int) : ChosenCoins := m.getCoin none

/-- `crateTx` on whatever `pay` hands it.  Its first use of the coins is
`coins.map`. -/
def crateTxOf (lib : TransactionBuilderLib) (coins : ChosenCoins)
    (addressAndAmount : List AddressAndAmount) : Except JsError (Except JsError Transaction) :=
  match coins with
  | .list coins => (crateTx lib coins addressAndAmount []).1
  | .single _ => .error mapNotAFunction
  | .undefined => .error mapOfUndefined

/-- What a payment needs of the choice: a list of coins of the manager, each at
most as often as the manager holds it, worth the amount at least. -/
def Covers (m : CoinManager) (amount : Int) : ChosenCoins → Prop
  | .list coins => coins.Subperm m.coinList ∧ amount ≤ totalAmount coins
  | _ => False

theorem covers_coinList {m : CoinManager} {amount : Int} (h : amount ≤ totalAmount m.coinList) :
    m.Covers amount (.list m.coinList) :=
  ⟨List.Subperm.refl _, h⟩

end CoinManager

namespace NormalAccount

def payWith (lib : TransactionBuilderLib) (coins : ChosenCoins) (a : NormalAccount)
    (amount : Int) (destinations : List OuterEntity) : PayStatus :=
  if a.balance.amount - amount < 0 then .rejected negativeBalance
  else
    match CoinManager.crateTxOf lib coins (addressAndAmounts amount destinations) with
    | .error e => .rejected e
    -- a `Left` is not looked at either
    | .ok _ => .resolved (lowered a amount)

def pay (lib : TransactionBuilderLib) (m : CoinManager) (a : NormalAccount) (amount : Int)
    (destinations : List OuterEntity) : PayStatus :=
  payWith lib (m.chooseCoinsFromAmount amount) a amount destinations

theorem payWith_list {lib : TransactionBuilderLib} {coins : List MyWalletCoin}
    {send : String → Except JsError (Except JsError String)} {a : NormalAccount} {amount : Int}
    {destinations : List OuterEntity} {ls : List PayLabel} {c : PayCall}
    (hrun : (payMachine (managerEnvironment (fun _ => .ok coins) lib send) a amount
      destinations).run (payStart a amount) ls = some c)
    (hsettled : Settled c) : c.status = payWith lib (.list coins) a amount destinations := by
  rcases pay_settled_cases hrun hsettled with ⟨hlt, rfl⟩ | ⟨hle, rfl⟩
  · rw [payWith, if_pos (by omega)]
  · rw [payWith, if_neg (by omega), (endBroadcast_spec _ _).1]
    simp only [payResume, managerEnvironment, CoinManager.crateTxOf]
    cases (CoinManager.crateTx lib coins (addressAndAmounts amount destinations) []).1 with
    | error e => rfl
    | ok result => cases result <;> rfl

/-- Whatever the manager holds and whatever the amount, no coins are chosen, and
a payment that the balance allows fails before anything is built. -/
theorem chooseCoinsFromAmount_covers_never (m : CoinManager) (amount : Int) :
    ¬ m.Covers amount (m.chooseCoinsFromAmount amount) ∧
      ∀ (lib : TransactionBuilderLib) (a : NormalAccount) (destinations : List OuterEntity),
        pay lib m a amount destinations =
          .rejected (if amount ≤ a.balance.amount then mapOfUndefined else negativeBalance) := by
  refine ⟨fun h => h, fun lib a destinations => ?_⟩
  have hcoins : m.chooseCoinsFromAmount amount = .undefined := rfl
  rw [pay, payWith, hcoins]
  by_cases hle : amount ≤ a.balance.amount
  · rw [if_neg (by omega), if_pos hle]
    rfl
  · rw [if_pos (by omega), if_neg hle]

theorem chooseCoinsFromAmount_misses_coin :
    5 ≤ totalAmount sampleManager.coinList ∧
      sampleManager.Covers 5 (.list sampleManager.coinList) ∧
      ¬ sampleManager.Covers 5 (sampleManager.chooseCoinsFromAmount 5) ∧
      ∀ lib, pay lib sampleManager sampleOwner 5 [sampleDestination] =
        .rejected mapOfUndefined :=
  ⟨by decide, CoinManager.covers_coinList (by decide), fun h => h, fun _ => rfl⟩

end NormalAccount

end Walletts
