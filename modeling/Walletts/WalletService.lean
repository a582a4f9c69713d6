import Walletts.AccountService
/-!
# Wallets

A wallet is a list of accounts under the id of its master node.  The service
keeps the node in the key repository and the wallet in a repository of its own,
and adds accounts one at a time, each below a hardened path of its own.
-/

namespace Walletts

open NormalAccountService

variable {Node : Type}

structure BasicWallet (A : Type) where
  id : AccountID
  accounts : List A
  deriving DecidableEq

abbrev InMemoryWalletRepo := InsertionMap AccountID (BasicWallet NormalAccount)

structure Repositories (Node : Type) where
  keyRepo : InMemoryKeyRepository Node
  repo : InMemoryWalletRepo

namespace WalletService

/-- `_save`: the node and the wallet, both under the wallet's id. -/
def save (r : Repositories Node) (wallet : BasicWallet NormalAccount) (key : Node) :
    Repositories Node :=
  ⟨r.keyRepo.setHDNode wallet.id key, r.repo.set wallet.id wallet⟩

def createFromNode (lib : HDNodeLib Node) (r : Repositories Node) (node : Node) :
    Repositories Node × BasicWallet NormalAccount :=
  let wallet : BasicWallet NormalAccount := ⟨idOf lib node, []⟩
  (save r wallet node, wallet)

def accountPath (cointype : SupportedCoinType) (accountIndex : Nat) : HDPath :=
  [.hardened purposeField, .hardened cointype.value, .hardened accountIndex]

/-- `setNewAccountToWallet` over the in-memory repositories.  What is saved at
the end is the wallet as it was given.  `coinManager` is the manager of the new
account. -/
def setNewAccountToWallet (lib : HDNodeLib Node) (r : Repositories Node)
    (wallet : BasicWallet NormalAccount) (informationSource coinManager : ObjRef)
    (type : AccountType := .normal) (cointype : SupportedCoinType := .btc) :
    Except JsError (Repositories Node × Option (BasicWallet NormalAccount)) :=
  match type with
  | .normal =>
      match r.keyRepo.getHDNode wallet.id with
      | none => .ok (r, none)
      | some rootNode => do
          let accountMasterHD ←
            lib.derivePath rootNode (accountPath cointype wallet.accounts.length)
          let created ← createFromHD lib r.keyRepo accountMasterHD wallet.accounts.length
            informationSource coinManager
          let walletWithAccount : BasicWallet NormalAccount :=
            ⟨wallet.id, wallet.accounts ++ [created.2]⟩
          -- `wallet` is saved, not `walletWithAccount`
          return (save ⟨created.1, r.repo⟩ wallet rootNode, some walletWithAccount)

/-- What a new account is: its id is that of a hardened child of its own path,
and the node kept for it is the one at that path. -/
theorem setNewAccountToWallet_ok {lib : HDNodeLib Node} {r r' : Repositories Node}
    {wallet wallet' : BasicWallet NormalAccount} {informationSource coinManager : ObjRef}
    {type : AccountType} {cointype : SupportedCoinType}
    (h : setNewAccountToWallet lib r wallet informationSource coinManager type cointype =
      .ok (r', some wallet')) :
    ∃ rootNode accountMasterHD child,
      r.keyRepo.getHDNode wallet.id = some rootNode ∧
      lib.derivePath rootNode (accountPath cointype wallet.accounts.length) =
        .ok accountMasterHD ∧
      lib.deriveHardened accountMasterHD wallet.accounts.length = .ok child ∧
      wallet' = ⟨wallet.id, wallet.accounts ++ [newNormalAccount (idOf lib child)
        wallet.accounts.length coinManager informationSource]⟩ ∧
      r' = save ⟨r.keyRepo.setHDNode (idOf lib child) accountMasterHD, r.repo⟩ wallet
        rootNode := by
  cases type
  unfold setNewAccountToWallet at h
  cases hroot : r.keyRepo.getHDNode wallet.id with
  | none =>
      rw [hroot] at h
      cases h
  | some rootNode =>
      rw [hroot] at h
      obtain ⟨accountMasterHD, hmaster, h⟩ := Outcome.bind_eq_ok.mp h
      obtain ⟨created, hcreated, h⟩ := Outcome.bind_eq_ok.mp h
      obtain ⟨child, hchild, hkeys, haccount⟩ := createFromHD_ok hcreated
      obtain rfl : created = (_, _) := Prod.ext hkeys haccount
      cases Outcome.pure_eq_ok.mp h
      exact ⟨rootNode, accountMasterHD, child, rfl, hmaster, hchild, rfl, rfl⟩

end WalletService

end Walletts
