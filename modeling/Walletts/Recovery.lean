import Walletts.WalletService
import Walletts.SymbolicHD
import Walletts.Lib.Machine
import Mathlib.Algebra.BigOperators.Group.List.Basic
/-!
# Recovering the accounts of a wallet

`syncHDNode` starts `recoverAddress` for account after account in a loop that
only a callback could end, and makes a wallet of what the callbacks have
collected.  `recoverAddress` asks the proxy for the balances of twenty
addresses at a time.  This module compares the ids and addresses it looks for
with those a wallet creates, and says what the loop comes to.
-/

namespace Walletts

open NormalAccountService

structure SyncInfo where
  i : Nat
  addresses : InsertionMap String Int

/-- What `recoverAddress` makes: its last three arguments stand one place
further than those of the constructor. -/
abbrev RecoveredAccount := Account (Option (List String)) AccountType Balance

namespace WalletService

variable {Node : Type}

/-! ## Addresses and ids -/

section Addresses

variable (lib : HDNodeLib Node)

/-- The values that `for (const j of Array(20))` goes through: the array has a
length and no elements. -/
def loopValues : List JsNumber := List.replicate 20 .undefined

/-- The addresses of one round: `node.derive(i + j)`, or `node.derive(j)` when
`i` is zero. -/
def queryAddresses (node : Node) (i : Nat) : List JsNumber → Except JsError (List String)
  | [] => .ok []
  | j :: js => do
      let child ← lib.derive node (if i = 0 then j else JsNumber.add i j)
      let addresses ← queryAddresses node i js
      return lib.getAddress child :: addresses

def recoveredId (masternode : Node) (accountNumber : Nat) : Except JsError AccountID := do
  let node ← lib.derive masternode (.num accountNumber)
  return idOf lib node

def Scanned (masternode : Node) (accountNumber : Nat) (address : String) : Prop :=
  ∃ node i addresses, lib.derive masternode (.num accountNumber) = .ok node ∧
    queryAddresses lib node i loopValues = .ok addresses ∧ address ∈ addresses

end Addresses

variable {lib : HDNodeLib Node}

theorem mem_queryAddresses {node : Node} {i : Nat} {js : List JsNumber} {addresses : List String}
    (h : queryAddresses lib node i js = .ok addresses) {a : String} (ha : a ∈ addresses) :
    ∃ j child, lib.derive node j = .ok child ∧ lib.getAddress child = a := by
  induction js generalizing addresses with
  | nil =>
      cases h
      cases ha
  | cons j js ih =>
      obtain ⟨child, hchild, h⟩ := Outcome.bind_eq_ok.mp h
      obtain ⟨rest, hrest, h⟩ := Outcome.bind_eq_ok.mp h
      obtain rfl := Outcome.pure_eq_ok.mp h
      rcases List.mem_cons.mp ha with rfl | ha
      · exact ⟨_, child, hchild, rfl⟩
      · exact ih hrest ha

def ChildAddress (lib : HDNodeLib Node) (masternode : Node) (accountNumber : Nat)
    (address : String) : Prop :=
  ∃ k child, lib.descend masternode [accountNumber, k] = .ok child ∧
    lib.getAddress child = address

theorem Scanned.childAddress (hlaw : lib.Lawful) {masternode : Node} {n : Nat} {a : String}
    (h : Scanned lib masternode n a) : ChildAddress lib masternode n a := by
  obtain ⟨node, i, addresses, hnode, hquery, ha⟩ := h
  obtain ⟨j, child, hchild, rfl⟩ := mem_queryAddresses hquery ha
  cases j with
  | num k =>
      refine ⟨k, child, ?_, rfl⟩
      rw [HDNodeLib.descend, hnode]
      exact (HDNodeLib.descend_singleton node k).trans hchild
  | nan =>
      obtain ⟨e, he⟩ := hlaw.derive_nan node
      rw [he] at hchild
      cases hchild
  | undefined =>
      obtain ⟨e, he⟩ := hlaw.derive_undefined node
      rw [he] at hchild
      cases hchild

def accountNumbers (n : Nat) : List Nat := [100 + 2 ^ 31, 2 ^ 31, n + 2 ^ 31]

theorem descend_accountPath (hlaw : lib.Lawful) {masternode accountMasterHD : Node} {n : Nat}
    (h : lib.derivePath masternode (accountPath .btc n) = .ok accountMasterHD) :
    lib.descend masternode (accountNumbers n) = .ok accountMasterHD := by
  have hpath := hlaw.descend_of_derivePath h
  simpa [accountPath, PathStep.number, purposeField, SupportedCoinType.value, accountNumbers]
    using hpath

theorem descend_account (hlaw : lib.Lawful) {masternode accountMasterHD child : Node} {n : Nat}
    (hmaster : lib.derivePath masternode (accountPath .btc n) = .ok accountMasterHD)
    (hchild : lib.deriveHardened accountMasterHD n = .ok child) :
    lib.descend masternode (accountNumbers n ++ [n + 2 ^ 31]) = .ok child := by
  rw [HDNodeLib.descend_append, descend_accountPath hlaw hmaster]
  exact (HDNodeLib.descend_singleton _ _).trans (hlaw.derive_of_deriveHardened hchild)

/-- An address below the node of an account is not the address of a child that
is scanned: their paths have different lengths. -/
theorem not_childAddress (hlaw : lib.Lawful) (hdistinct : lib.DistinctAddresses)
    {masternode accountMasterHD node : Node} {n : Nat} {i j : Nat}
    (hmaster : lib.derivePath masternode (accountPath .btc n) = .ok accountMasterHD)
    (hnode : lib.derivePath accountMasterHD [.normal i, .normal j] = .ok node) :
    ¬ ChildAddress lib masternode n (lib.getAddress node) := by
  rintro ⟨k, child, hchild, hsame⟩
  have hlong : lib.descend masternode (accountNumbers n ++ [i, j]) = .ok node := by
    rw [HDNodeLib.descend_append, descend_accountPath hlaw hmaster]
    exact hlaw.descend_of_derivePath hnode
  have hpaths := congrArg List.length (hdistinct _ _ _ _ _ hchild hlong hsame)
  simp [accountNumbers] at hpaths

/-- Recovery gives the account the id it was created with and scans every
address it hands out. -/
def RecoveryAgrees (lib : HDNodeLib Node) (keyRepo : InMemoryKeyRepository Node)
    (masternode : Node) (accountNumber : Nat) (account : NormalAccount) : Prop :=
  recoveredId lib masternode accountNumber = .ok account.id ∧
    ∀ j a' addr change, getAddressForAccount lib keyRepo account j = .ok (a', addr, change) →
      Scanned lib masternode accountNumber addr ∧ Scanned lib masternode accountNumber change

theorem recoveredId_ne (hlaw : lib.Lawful) (hdistinct : lib.DistinctAddresses)
    {masternode accountMasterHD child : Node} {n : Nat}
    (hmaster : lib.derivePath masternode (accountPath .btc n) = .ok accountMasterHD)
    (hchild : lib.deriveHardened accountMasterHD n = .ok child) :
    recoveredId lib masternode n ≠ .ok (idOf lib child) := by
  intro h
  obtain ⟨node, hnode, h⟩ := Outcome.bind_eq_ok.mp h
  have hid : idOf lib node = idOf lib child := Outcome.pure_eq_ok.mp h
  have hshort : lib.descend masternode [n] = .ok node :=
    (HDNodeLib.descend_singleton _ _).trans hnode
  have hpaths := congrArg List.length (path_eq_of_idOf_eq hlaw hdistinct hshort
    (descend_account hlaw hmaster hchild) hid)
  simp [accountNumbers] at hpaths

theorem getHDNode_new_account (hlaw : lib.Lawful) (hdistinct : lib.DistinctAddresses)
    {masternode accountMasterHD child : Node} {n : Nat} (keyRepo : InMemoryKeyRepository Node)
    (hmaster : lib.derivePath masternode (accountPath .btc n) = .ok accountMasterHD)
    (hchild : lib.deriveHardened accountMasterHD n = .ok child) :
    ((keyRepo.setHDNode (idOf lib child) accountMasterHD).setHDNode (idOf lib masternode)
      masternode).getHDNode (idOf lib child) = some accountMasterHD := by
  have hne : idOf lib child ≠ idOf lib masternode := by
    intro h
    have hpaths := congrArg List.length (path_eq_of_idOf_eq hlaw hdistinct
      (descend_account hlaw hmaster hchild) (q := []) rfl h)
    simp [accountNumbers] at hpaths
  unfold InMemoryKeyRepository.getHDNode InMemoryKeyRepository.setHDNode
  rw [InsertionMap.get_set_of_ne _ hne, InsertionMap.get_set_self]

/-- Creation and recovery never agree: for every master node and every account
number the ids differ, and no address the account hands out is scanned, or is
that of any child of the node that is scanned below. -/
theorem recovery_disagrees (hlaw : lib.Lawful) (hdistinct : lib.DistinctAddresses)
    {r r' : Repositories Node} {wallet wallet' : BasicWallet NormalAccount} {masternode : Node}
    {informationSource coinManager : ObjRef} (hid : wallet.id = idOf lib masternode)
    (hroot : r.keyRepo.getHDNode wallet.id = some masternode)
    (hset : setNewAccountToWallet lib r wallet informationSource coinManager =
      .ok (r', some wallet')) :
    ∃ account, wallet'.accounts = wallet.accounts ++ [account] ∧
      ¬ RecoveryAgrees lib r'.keyRepo masternode wallet.accounts.length account ∧
      recoveredId lib masternode wallet.accounts.length ≠ .ok account.id ∧
      ∀ j a' addr change,
        getAddressForAccount lib r'.keyRepo account j = .ok (a', addr, change) →
          ∀ address ∈ [addr, change],
            ¬ Scanned lib masternode wallet.accounts.length address ∧
              ¬ ChildAddress lib masternode wallet.accounts.length address := by
  obtain ⟨rootNode, accountMasterHD, child, hroot', hmaster, hchild, rfl, rfl⟩ :=
    setNewAccountToWallet_ok hset
  obtain rfl : masternode = rootNode := Option.some.inj (hroot.symm.trans hroot')
  have hne := recoveredId_ne hlaw hdistinct hmaster hchild
  refine ⟨_, rfl, fun h => hne h.1, hne, fun j a' addr change hget => ?_⟩
  have hkept := getHDNode_new_account hlaw hdistinct r.keyRepo hmaster hchild
  rw [← hid] at hkept
  obtain ⟨external, internal, hext, hint, rfl, rfl, -⟩ := getAddressForAccount_ok hkept hget
  have hchildren : ∀ address ∈ [lib.getAddress external, lib.getAddress internal],
      ¬ ChildAddress lib masternode wallet.accounts.length address := by
    simpa using ⟨not_childAddress hlaw hdistinct hmaster hext,
      not_childAddress hlaw hdistinct hmaster hint⟩
  exact fun address hmem =>
    ⟨fun hscanned => hchildren address hmem (hscanned.childAddress hlaw), hchildren address hmem⟩

def sampleMaster : SymbolicNode := ⟨.bitcoin, []⟩

def sampleCreated : Repositories SymbolicNode × BasicWallet NormalAccount :=
  createFromNode SymbolicNode.lib ⟨.empty, .empty⟩ sampleMaster

theorem recovery_disagrees_symbolic : ∃ r' wallet' account,
    setNewAccountToWallet SymbolicNode.lib sampleCreated.1 sampleCreated.2 0 1 =
        .ok (r', some wallet') ∧ wallet'.accounts = [account] ∧
      ¬ RecoveryAgrees SymbolicNode.lib r'.keyRepo sampleMaster 0 account := by
  have hset : setNewAccountToWallet SymbolicNode.lib sampleCreated.1 sampleCreated.2 0 1 =
      .ok (_, some _) := rfl
  have hid : sampleCreated.2.id = idOf SymbolicNode.lib sampleMaster := rfl
  obtain ⟨account, haccounts, hdisagree, -⟩ := recovery_disagrees SymbolicNode.lib_lawful
    SymbolicNode.lib_distinctAddresses hid rfl hset
  exact ⟨_, _, account, hset, haccounts, hdisagree⟩

theorem recovery_misses_first_account : ∃ r' wallet' account id' a' addr change,
    setNewAccountToWallet SymbolicNode.lib sampleCreated.1 sampleCreated.2 0 1 =
        .ok (r', some wallet') ∧ wallet'.accounts = [account] ∧
      recoveredId SymbolicNode.lib sampleMaster 0 = .ok id' ∧ id' ≠ account.id ∧
      getAddressForAccount SymbolicNode.lib r'.keyRepo account 0 = .ok (a', addr, change) ∧
      ¬ Scanned SymbolicNode.lib sampleMaster 0 addr := by
  refine ⟨_, _, _, _, _, _, _, rfl, rfl, rfl, by decide, rfl, ?_⟩
  rintro ⟨node, i, addresses, -, hquery, -⟩
  cases i <;> cases hquery

end WalletService

end Walletts
