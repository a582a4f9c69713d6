import Walletts.Account
import Walletts.Lib.InsertionMap
/-!
# Key repository and account service

`InMemoryKeyRepository` keeps one `HDNode` under each id, and derives addresses
below it.  `NormalAccountService` creates accounts from a master node and hands
out addresses; handing out an address makes a new version of the account, which
watches that address too.
-/

namespace Walletts

variable {Node : Type}

/-! ## Key repository -/

abbrev InMemoryKeyRepository (Node : Type) := InsertionMap AccountID Node

namespace InMemoryKeyRepository

def getAddress (lib : HDNodeLib Node) (keyRepo : InMemoryKeyRepository Node) (id : AccountID)
    (hdpath : HDPath) : Except JsError (Option String) :=
  match InsertionMap.get keyRepo id with
  | none => .ok none
  | some hd => do return some (lib.getAddress (← lib.derivePath hd hdpath))

def getPubKey (lib : HDNodeLib Node) (keyRepo : InMemoryKeyRepository Node)
    (id : AccountID) : Option String :=
  (InsertionMap.get keyRepo id).map fun hd => HexText.ofBytes (lib.getPublicKeyBuffer hd)

def setHDNode (keyRepo : InMemoryKeyRepository Node) (id : AccountID) (node : Node) :
    InMemoryKeyRepository Node :=
  InsertionMap.set keyRepo id node

def getHDNode (keyRepo : InMemoryKeyRepository Node) (id : AccountID) : Option Node :=
  InsertionMap.get keyRepo id

theorem getAddress_eq {lib : HDNodeLib Node} {keyRepo : InMemoryKeyRepository Node}
    {id : AccountID} {hd : Node} (hhd : keyRepo.getHDNode id = some hd) (hdpath : HDPath) :
    keyRepo.getAddress lib id hdpath =
      (do return some (lib.getAddress (← lib.derivePath hd hdpath))) := by
  unfold getHDNode at hhd
  rw [getAddress, hhd]

end InMemoryKeyRepository

/-! ## Account service -/

namespace NormalAccountService

def notSaved : JsError :=
  ⟨.error, "could not retrieve address! This account is not saved to repo!"⟩

/-- The rest of `getAddressForAccount` when the repository has answered both
questions.  An empty text counts as no address. -/
def withAddresses (a : NormalAccount) (address changeAddress : Option String) :
    Except JsError (NormalAccount × String × String) :=
  match address, changeAddress with
  | some addr, some change =>
      if addr = "" ∨ change = "" then .error notSaved
      else .ok ({ a with
        watchingAddresses := some (a.watchingAddresses.getD [] ++ [addr, change]) }, addr, change)
  | _, _ => .error notSaved

/-- `getAddressForAccount` over the in-memory repository: the external address
`0/index` and the change address `1/index`. -/
def getAddressForAccount (lib : HDNodeLib Node) (keyRepo : InMemoryKeyRepository Node)
    (a : NormalAccount) (index : Nat) : Except JsError (NormalAccount × String × String) := do
  let address ← keyRepo.getAddress lib a.id [.normal 0, .normal index]
  let changeAddress ← keyRepo.getAddress lib a.id [.normal 1, .normal index]
  withAddresses a address changeAddress

def idOf (lib : HDNodeLib Node) (node : Node) : AccountID :=
  HexText.ofBytes (lib.hash160 (lib.getPublicKeyBuffer node))

/-- `createFromHD`: the id is that of a hardened child, and the node that is
saved under it is the master itself.  `coinManager` is the new manager. -/
def createFromHD (lib : HDNodeLib Node) (keyRepo : InMemoryKeyRepository Node) (masterHD : Node)
    (index : Nat) (observableBlockchain coinManager : ObjRef) :
    Except JsError (InMemoryKeyRepository Node × NormalAccount) := do
  let child ← lib.deriveHardened masterHD index
  let id := idOf lib child
  -- `_save(id, masterHD)`: not the child the id is made from
  return (keyRepo.setHDNode id masterHD,
    newNormalAccount id index coinManager observableBlockchain)

theorem createFromHD_ok {lib : HDNodeLib Node} {keyRepo made : InMemoryKeyRepository Node}
    {masterHD : Node} {index : Nat} {observableBlockchain coinManager : ObjRef}
    {account : NormalAccount}
    (h : createFromHD lib keyRepo masterHD index observableBlockchain coinManager =
      .ok (made, account)) :
    ∃ child, lib.deriveHardened masterHD index = .ok child ∧
      made = keyRepo.setHDNode (idOf lib child) masterHD ∧
      account = newNormalAccount (idOf lib child) index coinManager observableBlockchain := by
  obtain ⟨child, hchild, h⟩ := Outcome.bind_eq_ok.mp h
  cases Outcome.pure_eq_ok.mp h
  exact ⟨child, hchild, rfl, rfl⟩

theorem path_eq_of_idOf_eq {lib : HDNodeLib Node} (hlaw : lib.Lawful)
    (hdistinct : lib.DistinctAddresses) {master a b : Node} {p q : List Nat}
    (hp : lib.descend master p = .ok a) (hq : lib.descend master q = .ok b)
    (hid : idOf lib a = idOf lib b) : p = q := by
  have hhash := HexText.ofBytes_injective hid
  apply hdistinct master p q a b hp hq
  rw [hlaw.getAddress_eq, hlaw.getAddress_eq, hhash, hlaw.network_descend hp,
    hlaw.network_descend hq]

theorem withAddresses_ok {a a' : NormalAccount} {address changeAddress : Option String}
    {addr change : String} (h : withAddresses a address changeAddress = .ok (a', addr, change)) :
    address = some addr ∧ changeAddress = some change ∧
      a' = { a with
        watchingAddresses := some (a.watchingAddresses.getD [] ++ [addr, change]) } := by
  match address, changeAddress, h with
  | some x, some y, h =>
      rw [withAddresses] at h
      split at h
      · cases h
      · cases h
        exact ⟨rfl, rfl, rfl⟩

theorem getAddressForAccount_ok {lib : HDNodeLib Node} {keyRepo : InMemoryKeyRepository Node}
    {a a' : NormalAccount} {index : Nat} {addr change : String} {hd : Node}
    (hhd : keyRepo.getHDNode a.id = some hd)
    (h : getAddressForAccount lib keyRepo a index = .ok (a', addr, change)) :
    ∃ external internal,
      lib.derivePath hd [.normal 0, .normal index] = .ok external ∧
      lib.derivePath hd [.normal 1, .normal index] = .ok internal ∧
      addr = lib.getAddress external ∧ change = lib.getAddress internal ∧
      a' = { a with
        watchingAddresses := some (a.watchingAddresses.getD [] ++ [addr, change]) } := by
  obtain ⟨address, haddress, h⟩ := Outcome.bind_eq_ok.mp h
  obtain ⟨changeAddress, hchange, h⟩ := Outcome.bind_eq_ok.mp h
  obtain ⟨rfl, rfl, rfl⟩ := withAddresses_ok h
  rw [InMemoryKeyRepository.getAddress_eq hhd] at haddress hchange
  obtain ⟨external, hext, haddress⟩ := Outcome.bind_eq_ok.mp haddress
  obtain ⟨internal, hint, hchange⟩ := Outcome.bind_eq_ok.mp hchange
  have haddr := Option.some.inj (Outcome.pure_eq_ok.mp haddress)
  have hchg := Option.some.inj (Outcome.pure_eq_ok.mp hchange)
  exact ⟨external, internal, hext, hint, haddr.symm, hchg.symm, rfl⟩

end NormalAccountService

end Walletts
