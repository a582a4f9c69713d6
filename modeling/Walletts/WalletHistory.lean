import Walletts.WalletService
import Walletts.SymbolicHD
import Walletts.Lib.Machine
/-!
# The wallets of a service over its lifetime

A service creates wallets and adds accounts to them, in any order and for any
number of wallets, and keeps their nodes and the wallets in its repositories.
Two machines describe this: one of the whole service, whose state is what the
repositories hold, and one of a single wallet, where each account is added to
the wallet that the call before returned.  The second runs inside the first.
-/

namespace Walletts

open NormalAccountService

variable {Node : Type}

def InMemoryWalletRepo.load (repo : InMemoryWalletRepo) (id : AccountID) :
    Option (BasicWallet NormalAccount) :=
  InsertionMap.get repo id

namespace WalletService

/-! ## Creating wallets -/

section Create

variable (lib : HDNodeLib Node) (seeds : SeedLib Node) (r : Repositories Node)

def createNew (entropy : Buffer) (network : Option Network) :
    Except JsError (Repositories Node × BasicWallet NormalAccount) := do
  return createFromNode lib r (← seeds.fromSeedBuffer entropy (network.getD .bitcoin))

def createFromSeed (seed : List String) (network : Option Network) (passPhrase : Option String) :
    Except JsError (Repositories Node × BasicWallet NormalAccount) := do
  let seedBuffer := seeds.mnemonicToSeed (" ".intercalate seed) passPhrase
  return createFromNode lib r (← seeds.fromSeedBuffer seedBuffer (network.getD .bitcoin))

inductive Created (made : Repositories Node × BasicWallet NormalAccount) : Prop
  | createNew (entropy : Buffer) (network : Option Network)
      (h : createNew lib seeds r entropy network = .ok made)
  | createFromSeed (seed : List String) (network : Option Network) (passPhrase : Option String)
      (h : createFromSeed lib seeds r seed network passPhrase = .ok made)

end Create

variable {lib : HDNodeLib Node} {seeds : SeedLib Node} {r : Repositories Node}
  {made : Repositories Node × BasicWallet NormalAccount}

theorem createNew_ok {entropy : Buffer} {network : Option Network}
    (h : createNew lib seeds r entropy network = .ok made) :
    ∃ node, seeds.fromSeedBuffer entropy (network.getD .bitcoin) = .ok node ∧
      made = createFromNode lib r node := by
  obtain ⟨node, hnode, h⟩ := Outcome.bind_eq_ok.mp h
  exact ⟨node, hnode, (Outcome.pure_eq_ok.mp h).symm⟩

theorem createFromSeed_ok {seed : List String} {network : Option Network}
    {passPhrase : Option String}
    (h : createFromSeed lib seeds r seed network passPhrase = .ok made) :
    ∃ node, seeds.fromSeedBuffer (seeds.mnemonicToSeed (" ".intercalate seed) passPhrase)
        (network.getD .bitcoin) = .ok node ∧
      made = createFromNode lib r node := by
  obtain ⟨node, hnode, h⟩ := Outcome.bind_eq_ok.mp h
  exact ⟨node, hnode, (Outcome.pure_eq_ok.mp h).symm⟩

theorem Created.eq_createFromNode (h : Created lib seeds r made) :
    ∃ seed network node, seeds.fromSeedBuffer seed network = .ok node ∧
      made = createFromNode lib r node := by
  cases h with
  | createNew entropy network h =>
      obtain ⟨node, hnode, hmade⟩ := createNew_ok h
      exact ⟨_, _, node, hnode, hmade⟩
  | createFromSeed seed network passPhrase h =>
      obtain ⟨node, hnode, hmade⟩ := createFromSeed_ok h
      exact ⟨_, _, node, hnode, hmade⟩

/-! ## The service -/

inductive ServiceLabel (Node : Type)
  | createNew (entropy : Buffer) (network : Option Network)
  | createFromSeed (seed : List String) (network : Option Network) (passPhrase : Option String)
  | setNewAccountToWallet (wallet : BasicWallet NormalAccount)
      (informationSource coinManager : ObjRef) (cointype : SupportedCoinType)
  | createFromHD (masterHD : Node) (index : Nat) (observableBlockchain coinManager : ObjRef)

/-- What the repositories hold after a call.  A call that throws has saved
nothing before. -/
def savedBy {α : Type} (r : Repositories Node) :
    Except JsError (Repositories Node × α) → Repositories Node
  | .ok (r', _) => r'
  | .error _ => r

def serviceMachine (lib : HDNodeLib Node) (seeds : SeedLib Node) :
    Machine (Repositories Node) (ServiceLabel Node) where
  step r
    | .createNew entropy network => some (savedBy r (createNew lib seeds r entropy network))
    | .createFromSeed seed network passPhrase =>
        some (savedBy r (createFromSeed lib seeds r seed network passPhrase))
    | .setNewAccountToWallet wallet informationSource coinManager cointype =>
        some (savedBy r
          (setNewAccountToWallet lib r wallet informationSource coinManager .normal cointype))
    | .createFromHD masterHD index observableBlockchain coinManager =>
        some (match createFromHD lib r.keyRepo masterHD index observableBlockchain coinManager with
          | .ok (keyRepo, _) => ⟨keyRepo, r.repo⟩
          | .error _ => r)

/-! ## One wallet -/

structure AccountRequest where
  informationSource : ObjRef
  coinManager : ObjRef
  cointype : SupportedCoinType

/-- Accounts are added one after another, each to the wallet that the call
before returned.  A call that returns no wallet is no step. -/
def walletMachine (lib : HDNodeLib Node) :
    Machine (Repositories Node × BasicWallet NormalAccount) AccountRequest where
  step s request :=
    match setNewAccountToWallet lib s.1 s.2 request.informationSource request.coinManager .normal
        request.cointype with
    | .ok (r, some wallet) => some (r, wallet)
    | _ => none

def asServiceLabel (s : Repositories Node × BasicWallet NormalAccount) (request : AccountRequest) :
    List (ServiceLabel Node) :=
  [.setNewAccountToWallet s.2 request.informationSource request.coinManager request.cointype]

theorem walletMachine_step {s t : Repositories Node × BasicWallet NormalAccount}
    {request : AccountRequest} (h : (walletMachine lib).step s request = some t) :
    setNewAccountToWallet lib s.1 s.2 request.informationSource request.coinManager .normal
      request.cointype = .ok (t.1, some t.2) := by
  simp only [walletMachine] at h
  split at h
  · rename_i heq
    obtain rfl := Option.some.inj h
    exact heq
  · cases h

/-- The life of one wallet is part of the life of the service. -/
theorem walletMachine_refines (lib : HDNodeLib Node) (seeds : SeedLib Node) :
    Machine.Refines (walletMachine lib) (serviceMachine lib seeds) Prod.fst asServiceLabel where
  step := by
    intro s request t hstep
    simp [asServiceLabel, serviceMachine, walletMachine_step hstep, savedBy]

/-! ## The accounts of one wallet -/

def pathNumbers (cointype : SupportedCoinType) (k : Nat) : List Nat :=
  (accountPath cointype k).map PathStep.number

/-- What the account at position `k` of a wallet is: its id is that of a child
of its own node, and its own node is kept under the id. -/
structure AccountOk (lib : HDNodeLib Node) (master : Node) (keyRepo : InMemoryKeyRepository Node)
    (k : Nat) (a : NormalAccount) : Prop where
  hdIndex_eq : a.hdIndex = k
  key : ∃ cointype node child,
    lib.descend master (pathNumbers cointype k) = .ok node ∧
    lib.descend master (pathNumbers cointype k ++ [k + 2 ^ 31]) = .ok child ∧
    a.id = idOf lib child ∧ keyRepo.getHDNode a.id = some node

structure WalletOk (lib : HDNodeLib Node) (master : Node)
    (s : Repositories Node × BasicWallet NormalAccount) : Prop where
  id_eq : s.2.id = idOf lib master
  root : s.1.keyRepo.getHDNode s.2.id = some master
  account : ∀ k a, s.2.accounts[k]? = some a → AccountOk lib master s.1.keyRepo k a

theorem pathNumbers_inj {cointype cointype' : SupportedCoinType} {k l : Nat} {p q : List Nat}
    (h : pathNumbers cointype k ++ p = pathNumbers cointype' l ++ q) : k = l ∧ p = q := by
  simp only [pathNumbers, accountPath, List.map_cons, List.map_nil, List.cons_append,
    List.nil_append, List.cons.injEq, PathStep.number] at h
  exact ⟨by omega, h.2.2.2⟩

theorem accountPath_valid (cointype : SupportedCoinType) {k : Nat} (hk : k < 2 ^ 31) :
    ∀ s ∈ accountPath cointype k, s.number < 2 ^ 32 := by
  cases cointype <;>
    simp [accountPath, PathStep.number, purposeField, SupportedCoinType.value] <;> omega

theorem walletOk_created (h : Created lib seeds r made) :
    ∃ master, WalletOk lib master made ∧ made.2.accounts = [] := by
  obtain ⟨seed, network, node, -, rfl⟩ := h.eq_createFromNode
  refine ⟨node, ⟨rfl, InsertionMap.get_set_self _ _ _, ?_⟩, rfl⟩
  intro k a ha
  cases ha

section Accounts

variable {master : Node} {keyRepo keyRepo' : InMemoryKeyRepository Node} {k l : Nat}
  {a b : NormalAccount}

theorem AccountOk.set (h : AccountOk lib master keyRepo k a) {id : AccountID} (hid : a.id ≠ id)
    (node : Node) : AccountOk lib master (keyRepo.setHDNode id node) k a where
  hdIndex_eq := h.hdIndex_eq
  key := by
    obtain ⟨cointype, own, child, hown, hchild, heq, hkept⟩ := h.key
    exact ⟨cointype, own, child, hown, hchild, heq,
      (InsertionMap.get_set_of_ne keyRepo hid node).trans hkept⟩

theorem AccountOk.id_ne_master (hlaw : lib.Lawful) (hdistinct : lib.DistinctAddresses)
    (h : AccountOk lib master keyRepo k a) : a.id ≠ idOf lib master := by
  obtain ⟨cointype, own, child, -, hchild, heq, -⟩ := h.key
  intro hid
  rw [heq] at hid
  have hpath := path_eq_of_idOf_eq hlaw hdistinct hchild (q := []) rfl hid
  simp at hpath

theorem AccountOk.id_inj (hlaw : lib.Lawful) (hdistinct : lib.DistinctAddresses)
    (ha : AccountOk lib master keyRepo k a) (hb : AccountOk lib master keyRepo' l b)
    (hid : a.id = b.id) : k = l := by
  obtain ⟨cointype, own, child, -, hchild, heq, -⟩ := ha.key
  obtain ⟨cointype', own', child', -, hchild', heq', -⟩ := hb.key
  rw [heq, heq'] at hid
  exact (pathNumbers_inj (path_eq_of_idOf_eq hlaw hdistinct hchild hchild' hid)).1

theorem AccountOk.address (hlaw : lib.Lawful) (h : AccountOk lib master keyRepo k a) {j : Nat}
    {a' : NormalAccount} {addr change : String}
    (hget : getAddressForAccount lib keyRepo a j = .ok (a', addr, change)) :
    ∀ address ∈ [addr, change], ∃ cointype p node,
      lib.descend master (pathNumbers cointype k ++ p) = .ok node ∧
        address = lib.getAddress node := by
  obtain ⟨cointype, own, child, hown, -, -, hkept⟩ := h.key
  obtain ⟨external, internal, hext, hint, rfl, rfl, -⟩ := getAddressForAccount_ok hkept hget
  have hbelow : ∀ s path node, lib.derivePath own (s :: path) = .ok node →
      lib.descend master (pathNumbers cointype k ++ (s :: path).map PathStep.number) =
        .ok node := by
    intro s path node hnode
    rw [HDNodeLib.descend_append, hown]
    exact hlaw.descend_of_derivePath hnode
  intro address haddress
  rw [List.mem_cons, List.mem_singleton] at haddress
  rcases haddress with rfl | rfl
  · exact ⟨cointype, _, external, hbelow _ _ _ hext, rfl⟩
  · exact ⟨cointype, _, internal, hbelow _ _ _ hint, rfl⟩

theorem AccountOk.address_inj (hlaw : lib.Lawful) (hdistinct : lib.DistinctAddresses)
    (ha : AccountOk lib master keyRepo k a) (hb : AccountOk lib master keyRepo l b) {i j : Nat}
    {a' b' : NormalAccount} {addr change addr' change' address : String}
    (hgeta : getAddressForAccount lib keyRepo a i = .ok (a', addr, change))
    (hgetb : getAddressForAccount lib keyRepo b j = .ok (b', addr', change'))
    (hmem : address ∈ [addr, change]) (hmem' : address ∈ [addr', change']) : k = l := by
  obtain ⟨cointype, p, node, hnode, heq⟩ := ha.address hlaw hgeta address hmem
  obtain ⟨cointype', q, node', hnode', heq'⟩ := hb.address hlaw hgetb address hmem'
  have hsame : lib.getAddress node = lib.getAddress node' := heq.symm.trans heq'
  exact (pathNumbers_inj (hdistinct _ _ _ _ _ hnode hnode' hsame)).1

end Accounts

section Run

variable {master : Node} {s t : Repositories Node × BasicWallet NormalAccount}
  {request : AccountRequest} {requests : List AccountRequest}

theorem WalletOk.step (hlaw : lib.Lawful) (hdistinct : lib.DistinctAddresses)
    (h : WalletOk lib master s) (hstep : (walletMachine lib).step s request = some t) :
    WalletOk lib master t ∧ t.2.id = s.2.id ∧
      ∃ a, t.2.accounts = s.2.accounts ++ [a] := by
  obtain ⟨rootNode, accountMasterHD, child, hroot, hmaster, hchild, hwallet, hrepos⟩ :=
    setNewAccountToWallet_ok (walletMachine_step hstep)
  obtain rfl : master = rootNode := Option.some.inj (h.root.symm.trans hroot)
  have hown : lib.descend master (pathNumbers request.cointype s.2.accounts.length) =
      .ok accountMasterHD := hlaw.descend_of_derivePath hmaster
  have hbelow : lib.descend master (pathNumbers request.cointype s.2.accounts.length ++
      [s.2.accounts.length + 2 ^ 31]) = .ok child := by
    rw [HDNodeLib.descend_append, hown]
    exact (HDNodeLib.descend_singleton _ _).trans (hlaw.derive_of_deriveHardened hchild)
  have hnew : AccountOk lib master (s.1.keyRepo.setHDNode (idOf lib child) accountMasterHD)
      s.2.accounts.length (newNormalAccount (idOf lib child) s.2.accounts.length
        request.coinManager request.informationSource) :=
    ⟨rfl, request.cointype, accountMasterHD, child, hown, hbelow, rfl,
      InsertionMap.get_set_self _ _ _⟩
  obtain rfl : t = (_, _) := Prod.ext hrepos hwallet
  refine ⟨⟨h.id_eq, InsertionMap.get_set_self _ _ _, ?_⟩, rfl, _, rfl⟩
  intro k a ha
  suffices hok : AccountOk lib master
      (s.1.keyRepo.setHDNode (idOf lib child) accountMasterHD) k a by
    apply hok.set
    rw [h.id_eq]
    exact hok.id_ne_master hlaw hdistinct
  rcases Nat.lt_trichotomy k s.2.accounts.length with hlt | rfl | hgt
  · rw [List.getElem?_append_left hlt] at ha
    have hold := h.account k a ha
    apply hold.set
    intro hid
    exact Nat.ne_of_lt hlt (hold.id_inj hlaw hdistinct hnew hid)
  · rw [List.getElem?_concat_length] at ha
    exact Option.some.inj ha ▸ hnew
  · have hlength : (s.2.accounts ++ [newNormalAccount (idOf lib child) s.2.accounts.length
        request.coinManager request.informationSource]).length ≤ k := by
      rw [List.length_append, List.length_singleton]
      exact hgt
    rw [List.getElem?_eq_none hlength] at ha
    cases ha

theorem exists_account (hlaw : lib.Lawful) (rootNode : Node) (cointype : SupportedCoinType)
    {n : Nat} (hn : n < 2 ^ 31) : ∃ accountMasterHD child,
      lib.derivePath rootNode (accountPath cointype n) = .ok accountMasterHD ∧
        lib.deriveHardened accountMasterHD n = .ok child := by
  obtain ⟨accountMasterHD, hmaster⟩ :
      ∃ a, lib.derivePath rootNode (accountPath cointype n) = .ok a :=
    hlaw.derivePath_ok (accountPath_valid cointype hn) rootNode
  obtain ⟨child, hchild⟩ := hlaw.derive_num accountMasterHD (n + 2 ^ 31) (by omega)
  rw [← hlaw.deriveHardened_eq _ _ hn] at hchild
  exact ⟨accountMasterHD, child, hmaster, hchild⟩

theorem WalletOk.step_exists (hlaw : lib.Lawful) (h : WalletOk lib master s)
    (hlength : s.2.accounts.length < 2 ^ 31) (request : AccountRequest) :
    ∃ t, (walletMachine lib).step s request = some t := by
  obtain ⟨accountMasterHD, child, hmaster, hchild⟩ :=
    exists_account hlaw master request.cointype hlength
  simp only [walletMachine, setNewAccountToWallet, h.root, hmaster, createFromHD, bind,
    Except.bind, hchild]
  exact ⟨_, rfl⟩

theorem WalletOk.run (hlaw : lib.Lawful) (hdistinct : lib.DistinctAddresses)
    (h : WalletOk lib master s) (hrun : (walletMachine lib).run s requests = some t) :
    WalletOk lib master t ∧ t.2.id = s.2.id ∧ s.2.accounts <+: t.2.accounts ∧
      t.2.accounts.length = s.2.accounts.length + requests.length := by
  induction hrun using Machine.run_induction with
  | nil s => exact ⟨h, rfl, List.prefix_rfl, rfl⟩
  | cons hstep _ ih =>
      obtain ⟨hu, hid, a, haccounts⟩ := h.step hlaw hdistinct hstep
      obtain ⟨ht, hid', hpre, hlength⟩ := ih hu
      rw [haccounts] at hpre hlength
      refine ⟨ht, hid'.trans hid, (List.prefix_append _ _).trans hpre, ?_⟩
      simp only [List.length_append, List.length_cons, List.length_nil] at hlength ⊢
      omega

theorem WalletOk.run_exists (hlaw : lib.Lawful) (hdistinct : lib.DistinctAddresses)
    (h : WalletOk lib master s) (hlength : s.2.accounts.length + requests.length ≤ 2 ^ 31) :
    ∃ t, (walletMachine lib).run s requests = some t := by
  induction requests generalizing s with
  | nil => exact ⟨s, rfl⟩
  | cons request requests ih =>
      rw [List.length_cons] at hlength
      obtain ⟨u, hstep⟩ := h.step_exists hlaw (by omega) request
      obtain ⟨hu, -, a, haccounts⟩ := h.step hlaw hdistinct hstep
      obtain ⟨t, ht⟩ := ih hu (by rw [haccounts, List.length_append, List.length_singleton]; omega)
      exact ⟨t, by rw [Machine.run_cons, hstep]; exact ht⟩

theorem WalletOk.ids_nodup (hlaw : lib.Lawful) (hdistinct : lib.DistinctAddresses)
    (h : WalletOk lib master s) : (s.2.accounts.map Account.id).Nodup := by
  rw [List.nodup_iff_getElem?_ne_getElem?]
  intro i j hij hj heq
  rw [List.length_map] at hj
  have hi : i < s.2.accounts.length := by omega
  rw [List.getElem?_map, List.getElem?_map, List.getElem?_eq_getElem hi,
    List.getElem?_eq_getElem hj] at heq
  have ha := h.account i _ (List.getElem?_eq_getElem hi)
  have hb := h.account j _ (List.getElem?_eq_getElem hj)
  exact Nat.ne_of_lt hij (ha.id_inj hlaw hdistinct hb (Option.some.inj heq))

def sampleSeed : List String := List.replicate 11 "zoo" ++ ["wrong"]

def sampleRequest (cointype : SupportedCoinType) : AccountRequest := ⟨0, 1, cointype⟩

def seedMaster (network : Network) : SymbolicNode :=
  ⟨network, SymbolicNode.rootKey
    (SymbolicNode.mnemonicToSeed (" ".intercalate sampleSeed) none)⟩

theorem createFromSeed_sampleSeed (r : Repositories SymbolicNode) (network : Option Network) :
    createFromSeed SymbolicNode.lib SymbolicNode.seeds r sampleSeed network none =
      .ok (createFromNode SymbolicNode.lib r (seedMaster (network.getD .bitcoin))) := by
  rw [createFromSeed, SymbolicNode.fromSeedBuffer_mnemonicToSeed]
  rfl

theorem step_createFromSeed_sampleSeed (r : Repositories SymbolicNode) (network : Option Network) :
    (serviceMachine SymbolicNode.lib SymbolicNode.seeds).step r
        (.createFromSeed sampleSeed network none) =
      some (createFromNode SymbolicNode.lib r (seedMaster (network.getD .bitcoin))).1 := by
  simp only [serviceMachine, createFromSeed_sampleSeed, savedBy]

def seedWallet : Repositories SymbolicNode × BasicWallet NormalAccount :=
  createFromNode SymbolicNode.lib ⟨.empty, .empty⟩ (seedMaster .bitcoin)

theorem seedWallet_created :
    Created SymbolicNode.lib SymbolicNode.seeds ⟨.empty, .empty⟩ seedWallet :=
  .createFromSeed _ _ _ (createFromSeed_sampleSeed _ none)

theorem getAddressForAccount_first {keyRepo : InMemoryKeyRepository SymbolicNode}
    {a : NormalAccount} {hd : SymbolicNode} (hkept : keyRepo.getHDNode a.id = some hd) :
    ∃ a', getAddressForAccount SymbolicNode.lib keyRepo a 0 =
      .ok (a', SymbolicNode.lib.getAddress ((hd.child 0).child 0),
        SymbolicNode.lib.getAddress ((hd.child 1).child 0)) := by
  have hexternal : keyRepo.getAddress SymbolicNode.lib a.id [.normal 0, .normal 0] =
      .ok (some (SymbolicNode.lib.getAddress ((hd.child 0).child 0))) := by
    rw [InMemoryKeyRepository.getAddress_eq hkept]
    rfl
  have hinternal : keyRepo.getAddress SymbolicNode.lib a.id [.normal 1, .normal 0] =
      .ok (some (SymbolicNode.lib.getAddress ((hd.child 1).child 0))) := by
    rw [InMemoryKeyRepository.getAddress_eq hkept]
    rfl
  have hne : ∀ chain, SymbolicNode.lib.getAddress ((hd.child chain).child 0) ≠ "" := by
    intro chain h
    have hlength := congrArg String.length h
    cases hnetwork : hd.network <;>
      simp [SymbolicNode.lib, SymbolicNode.encodeAddress, SymbolicNode.child, hnetwork] at hlength
  simp [getAddressForAccount, hexternal, hinternal, bind, Except.bind, withAddresses, hne]

/-- Whatever coin types are asked for, adding accounts to a wallet that was
created always succeeds; the accounts are numbered in order, the earlier ones
stay, and no two of them share an id or an address. -/
theorem accounts_of_created_wallet (hlaw : lib.Lawful) (hdistinct : lib.DistinctAddresses)
    (hcreated : Created lib seeds r made) (hlength : requests.length < 2 ^ 31) :
    ∃ s, (walletMachine lib).run made requests = some s ∧
      s.2.id = made.2.id ∧ s.2.accounts.length = requests.length ∧
      (∀ (k : Nat) (a : NormalAccount), s.2.accounts[k]? = some a → a.hdIndex = k) ∧
      (∀ earlier u, earlier <+: requests → (walletMachine lib).run made earlier = some u →
        u.2.accounts <+: s.2.accounts) ∧
      (s.2.accounts.map Account.id).Nodup ∧
      ∀ (k l : Nat) (a b : NormalAccount), k ≠ l →
        s.2.accounts[k]? = some a → s.2.accounts[l]? = some b →
        ∀ i j a' b' addr change addr' change',
          getAddressForAccount lib s.1.keyRepo a i = .ok (a', addr, change) →
          getAddressForAccount lib s.1.keyRepo b j = .ok (b', addr', change') →
          [addr, change].Disjoint [addr', change'] := by
  obtain ⟨master, hmade, hnone⟩ := walletOk_created hcreated
  have hroom : made.2.accounts.length + requests.length ≤ 2 ^ 31 := by
    rw [hnone, List.length_nil]
    omega
  obtain ⟨s, hrun⟩ := hmade.run_exists hlaw hdistinct hroom
  obtain ⟨hs, hid, -, hcount⟩ := hmade.run hlaw hdistinct hrun
  refine ⟨s, hrun, hid, ?_, fun k a ha => (hs.account k a ha).hdIndex_eq, ?_,
    hs.ids_nodup hlaw hdistinct, ?_⟩
  · rw [hcount, hnone, List.length_nil, Nat.zero_add]
  · rintro earlier u ⟨later, rfl⟩ hearlier
    rw [Machine.run_append, hearlier] at hrun
    obtain ⟨hu, -⟩ := hmade.run hlaw hdistinct hearlier
    exact (hu.run hlaw hdistinct hrun).2.2.1
  · intro k l a b hne ha hb i j a' b' addr change addr' change' hgeta hgetb address hmem hmem'
    exact hne ((hs.account k a ha).address_inj hlaw hdistinct (hs.account l b hb) hgeta hgetb
      hmem hmem')

theorem accounts_of_created_wallet_two : ∃ s a b a' b' addr change addr' change',
    (walletMachine SymbolicNode.lib).run seedWallet [sampleRequest .btc, sampleRequest .eth] =
        some s ∧
      s.2.accounts = [a, b] ∧ (s.2.accounts.map Account.id).Nodup ∧
      getAddressForAccount SymbolicNode.lib s.1.keyRepo a 0 = .ok (a', addr, change) ∧
      getAddressForAccount SymbolicNode.lib s.1.keyRepo b 0 = .ok (b', addr', change') ∧
      [addr, change].Disjoint [addr', change'] := by
  have hroom : [sampleRequest .btc, sampleRequest .eth].length < 2 ^ 31 := by decide
  obtain ⟨s, hrun, -, hlength, -, -, hnodup, hdisjoint⟩ := accounts_of_created_wallet
    SymbolicNode.lib_lawful SymbolicNode.lib_distinctAddresses seedWallet_created hroom
  obtain ⟨a, b, haccounts⟩ := List.length_eq_two.mp hlength
  have ha : s.2.accounts[0]? = some a := by rw [haccounts]; rfl
  have hb : s.2.accounts[1]? = some b := by rw [haccounts]; rfl
  obtain ⟨master, hmade, -⟩ := walletOk_created seedWallet_created
  have hs := (hmade.run SymbolicNode.lib_lawful SymbolicNode.lib_distinctAddresses hrun).1
  obtain ⟨_, node, _, -, -, -, hkept⟩ := (hs.account 0 a ha).key
  obtain ⟨_, node', _, -, -, -, hkept'⟩ := (hs.account 1 b hb).key
  obtain ⟨a', hget⟩ := getAddressForAccount_first hkept
  obtain ⟨b', hget'⟩ := getAddressForAccount_first hkept'
  exact ⟨s, a, b, a', b', _, _, _, _, hrun, haccounts, hnodup, hget, hget',
    hdisjoint 0 1 a b Nat.zero_ne_one ha hb 0 0 _ _ _ _ _ _ hget hget'⟩

end Run

/-! ## What is saved -/

theorem createFromNode_load (lib : HDNodeLib Node) (r : Repositories Node) (node : Node) :
    (createFromNode lib r node).1.repo.load (idOf lib node) = some ⟨idOf lib node, []⟩ :=
  InsertionMap.get_set_self _ _ _

theorem walletMachine_step_load {s t : Repositories Node × BasicWallet NormalAccount}
    {request : AccountRequest} (h : (walletMachine lib).step s request = some t) :
    t.1.repo.load t.2.id = some s.2 ∧ t.2.accounts.length = s.2.accounts.length + 1 := by
  obtain ⟨rootNode, accountMasterHD, child, -, -, -, hwallet, hrepos⟩ :=
    setNewAccountToWallet_ok (walletMachine_step h)
  rw [hrepos, hwallet]
  exact ⟨InsertionMap.get_set_self _ _ _, by simp⟩

theorem run_two_accounts (hlaw : lib.Lawful) (hdistinct : lib.DistinctAddresses)
    (hcreated : Created lib seeds r made) (first second : AccountRequest) :
    ∃ s saved, (walletMachine lib).run made [first, second] = some s ∧
      s.1.repo.load s.2.id = some saved ∧ s.2.id = made.2.id ∧
      s.2.accounts.length = 2 ∧ saved.accounts.length = 1 := by
  obtain ⟨master, hok, hnone⟩ := walletOk_created hcreated
  have hroom : made.2.accounts.length + [first, second].length ≤ 2 ^ 31 := by
    rw [hnone, List.length_cons, List.length_cons, List.length_nil, List.length_nil]
    omega
  obtain ⟨s, hrun⟩ := hok.run_exists hlaw hdistinct hroom
  have hid := (hok.run hlaw hdistinct hrun).2.1
  obtain ⟨u, hfirst, hrest⟩ := (Machine.run_cons_eq_some _).mp hrun
  obtain ⟨t, hsecond, hend⟩ := (Machine.run_cons_eq_some _).mp hrest
  obtain rfl := Option.some.inj hend
  have hone := (walletMachine_step_load hfirst).2
  obtain ⟨hload, htwo⟩ := walletMachine_step_load hsecond
  rw [hnone] at hone
  rw [hone] at htwo
  exact ⟨t, u.2, hrun, hload, hid, htwo, hone⟩

/-- After each call the saved wallet is the one the call returned exactly when
the call was the creation: a wallet that an account was added to is saved
without it. -/
theorem load_returned_iff (hcreated : Created lib seeds r made) {requests : List AccountRequest}
    {s : Repositories Node × BasicWallet NormalAccount}
    (hrun : (walletMachine lib).run made requests = some s) :
    s.1.repo.load s.2.id = some s.2 ↔ requests = [] := by
  constructor
  · intro hload
    rcases List.eq_nil_or_concat' requests with rfl | ⟨earlier, last, rfl⟩
    · rfl
    · rw [Machine.run_append, Option.bind_eq_some_iff] at hrun
      obtain ⟨u, -, hlast⟩ := hrun
      obtain ⟨t, hstep, hend⟩ := (Machine.run_cons_eq_some _).mp hlast
      obtain rfl := Option.some.inj hend
      obtain ⟨hsaved, hlength⟩ := walletMachine_step_load hstep
      rw [hsaved] at hload
      rw [← Option.some.inj hload] at hlength
      omega
  · rintro rfl
    obtain rfl := Option.some.inj hrun
    obtain ⟨seed, network, node, -, rfl⟩ := hcreated.eq_createFromNode
    exact createFromNode_load lib r node

theorem load_returned_created : seedWallet.1.repo.load seedWallet.2.id = some seedWallet.2 :=
  (load_returned_iff seedWallet_created (Machine.run_nil _ seedWallet)).mpr rfl

/-- After two accounts have been added, the saved wallet has one. -/
theorem load_misses_account : ∃ s saved,
    (walletMachine SymbolicNode.lib).run seedWallet [sampleRequest .btc, sampleRequest .btc] =
        some s ∧
      s.1.repo.load s.2.id = some saved ∧ s.2.accounts.length = 2 ∧ saved.accounts.length = 1 := by
  obtain ⟨s, saved, hrun, hload, -, htwo, hone⟩ := run_two_accounts SymbolicNode.lib_lawful
    SymbolicNode.lib_distinctAddresses seedWallet_created (sampleRequest .btc) (sampleRequest .btc)
  exact ⟨s, saved, hrun, hload, htwo, hone⟩

/-! ## Creating a wallet again -/

def listedAccounts (repo : InMemoryWalletRepo) (id : AccountID) : List NormalAccount :=
  ((repo.load id).map BasicWallet.accounts).getD []

theorem listedAccounts_createFromNode (lib : HDNodeLib Node) (r : Repositories Node) (node : Node) :
    listedAccounts (createFromNode lib r node).1.repo (idOf lib node) = [] := by
  rw [listedAccounts, createFromNode_load]
  rfl

theorem createFromSeed_subset_iff {seed : List String} {network : Option Network}
    {passPhrase : Option String}
    (h : createFromSeed lib seeds r seed network passPhrase = .ok made) :
    listedAccounts r.repo made.2.id ⊆ listedAccounts made.1.repo made.2.id ↔
      listedAccounts r.repo made.2.id = [] := by
  obtain ⟨node, -, rfl⟩ := createFromSeed_ok h
  have hnone : listedAccounts (createFromNode lib r node).1.repo (createFromNode lib r node).2.id =
      [] := listedAccounts_createFromNode lib r node
  rw [hnone, List.subset_nil]

/-- If the call creates a wallet from a seed, then no accounts are listed under
the id of the seed. -/
def ServiceLabel.NothingListed (lib : HDNodeLib Node) (seeds : SeedLib Node)
    (r : Repositories Node) : ServiceLabel Node → Prop
  | .createFromSeed seed network passPhrase =>
      ∀ node, seeds.fromSeedBuffer (seeds.mnemonicToSeed (" ".intercalate seed) passPhrase)
          (network.getD .bitcoin) = .ok node →
        listedAccounts r.repo (idOf lib node) = []
  | _ => True

/-- In a run, creating wallets from their seeds once more keeps the accounts
that were listed for them exactly when there never were any. -/
theorem createFromSeed_keeps_iff (lib : HDNodeLib Node) (seeds : SeedLib Node)
    (r : Repositories Node) (ls : List (ServiceLabel Node)) :
    (∀ earlier u seed network passPhrase made,
      earlier ++ [.createFromSeed seed network passPhrase] <+: ls →
      (serviceMachine lib seeds).run r earlier = some u →
      createFromSeed lib seeds u seed network passPhrase = .ok made →
      listedAccounts u.repo made.2.id ⊆ listedAccounts made.1.repo made.2.id) ↔
    (serviceMachine lib seeds).Within (fun u l => l.NothingListed lib seeds u) r ls := by
  rw [Machine.within_iff_forall_prefix]
  constructor
  · intro hkeeps earlier l u hpre hrun
    cases l with
    | createFromSeed seed network passPhrase =>
        intro node hnode
        have hmade : createFromSeed lib seeds u seed network passPhrase =
            .ok (createFromNode lib u node) := by
          rw [createFromSeed, hnode]
          rfl
        exact (createFromSeed_subset_iff hmade).mp
          (hkeeps earlier u seed network passPhrase _ hpre hrun hmade)
    | createNew entropy network => trivial
    | setNewAccountToWallet wallet informationSource coinManager cointype => trivial
    | createFromHD masterHD index observableBlockchain coinManager => trivial
  · intro hnothing earlier u seed network passPhrase made hpre hrun hmade
    refine (createFromSeed_subset_iff hmade).mpr ?_
    obtain ⟨node, hnode, rfl⟩ := createFromSeed_ok hmade
    exact hnothing earlier _ u hpre hrun node hnode

/-- A wallet gets two accounts and is created again: the one account that was
listed for it is gone. -/
theorem createFromSeed_loses_account : ∃ ls r made account,
    (serviceMachine SymbolicNode.lib SymbolicNode.seeds).run ⟨.empty, .empty⟩ ls = some r ∧
      createFromSeed SymbolicNode.lib SymbolicNode.seeds r sampleSeed none none = .ok made ∧
      account ∈ listedAccounts r.repo made.2.id ∧
      account ∉ listedAccounts made.1.repo made.2.id := by
  obtain ⟨s, saved, hrun, hload, hid, -, hone⟩ := run_two_accounts SymbolicNode.lib_lawful
    SymbolicNode.lib_distinctAddresses seedWallet_created (sampleRequest .btc) (sampleRequest .btc)
  have hservice := (walletMachine_refines SymbolicNode.lib SymbolicNode.seeds).run hrun
  obtain ⟨account, haccount⟩ : ∃ account, account ∈ saved.accounts :=
    List.exists_mem_of_length_pos (by omega)
  refine ⟨_, s.1, createFromNode SymbolicNode.lib s.1 (seedMaster .bitcoin), account,
    (Machine.run_cons_eq_some _).mpr
      ⟨seedWallet.1, step_createFromSeed_sampleSeed _ none, hservice⟩,
    createFromSeed_sampleSeed s.1 none, ?_, ?_⟩
  · rw [hid] at hload
    have hlisted : listedAccounts s.1.repo seedWallet.2.id = saved.accounts := by
      rw [listedAccounts, hload]
      rfl
    exact hlisted ▸ haccount
  · have hnone := listedAccounts_createFromNode SymbolicNode.lib s.1 (seedMaster .bitcoin)
    intro hmem
    exact List.not_mem_nil (hnone ▸ hmem)

end WalletService

end Walletts
