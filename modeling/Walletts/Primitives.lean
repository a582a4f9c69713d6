import Walletts.Lib.HexText
/-!
# Value objects

The primitive data of the wallet: identities, balances, the parties one pays
to, and the errors that carry a text.  Amounts are integers, in satoshi where
they stand for values of outputs.
-/

namespace Walletts

abbrev Buffer := List UInt8

abbrev AccountID := String

/-- The identity of a heap object, which is all that `===` and the keys of a
`Map` see of it. -/
abbrev ObjRef := Nat

inductive ErrorClass
  | error
  | typeError
  | walletError
  | balanceError
  deriving DecidableEq

structure JsError where
  kind : ErrorClass
  message : String
  deriving DecidableEq

/-- The constructor checks nothing. -/
structure Balance where
  amount : Int
  deriving DecidableEq

def purposeField : Nat := 100

inductive SupportedCoinType
  | btc
  | eth
  deriving DecidableEq

def SupportedCoinType.value : SupportedCoinType → Nat
  | btc => 0
  | eth => 60

inductive EntityKind
  | otherUser
  | community
  | publicDomain
  deriving DecidableEq

structure OuterEntity where
  kind : EntityKind
  nextAddressToPay : String
  deriving DecidableEq

structure AddressAndAmount where
  address : String
  amount : Int
  deriving DecidableEq

/-- The unspent output as the wallet keeps it.  The index of the output is not
among the fields. -/
structure MyWalletCoin where
  scriptPubKey : Buffer
  scriptType : String
  txid : String
  label : Option String
  redeemScript : Option Buffer
  amount : Balance := ⟨0⟩
  confirmation : Nat := 0
  isChange : Option Bool := none
  deriving DecidableEq

def totalAmount (coins : List MyWalletCoin) : Int :=
  (coins.map fun c => c.amount.amount).sum

end Walletts
