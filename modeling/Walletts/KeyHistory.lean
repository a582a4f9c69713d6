import Walletts.WalletHistory
/-!
# The keys of a service over its lifetime

All wallets and accounts of a service keep their nodes in one repository, each
under the hash of a public key.  This module says what a call stores there, and
from it what the repository holds after any run: which public key belongs to an
id, and when the node under an id can change.
-/

namespace Walletts

open NormalAccountService

variable {Node : Type}

namespace WalletService

/-! ## What a call stores -/

/-- What is new in the key repository after a call: the master node of a
wallet, or the node an account was made from. -/
inductive Registered (Node : Type)
  | wallet (master : Node)
  | account (masterHD : Node) (index : Nat)

def Registered.node : Registered Node → Node
  | .wallet master => master
  | .account masterHD _ => masterHD

def Registered.IsWallet : Registered Node → Prop
  | .wallet _ => True
  | .account _ _ => False

def Registered.id? (lib : HDNodeLib Node) : Registered Node → Option AccountID
  | .wallet master => some (idOf lib master)
  | .account masterHD index => (lib.deriveHardened masterHD index).toOption.map (idOf lib)

def stored (lib : HDNodeLib Node) (seeds : SeedLib Node) (r : Repositories Node) :
    ServiceLabel Node → Option (Registered Node)
  | .createNew entropy network =>
      (seeds.fromSeedBuffer entropy (network.getD .bitcoin)).toOption.map .wallet
  | .createFromSeed seed network passPhrase =>
      (seeds.fromSeedBuffer (seeds.mnemonicToSeed (" ".intercalate seed) passPhrase)
        (network.getD .bitcoin)).toOption.map .wallet
  | .setNewAccountToWallet wallet _ _ cointype =>
      match r.keyRepo.getHDNode wallet.id with
      | none => none
      | some rootNode =>
          match lib.derivePath rootNode (accountPath cointype wallet.accounts.length) with
          | .error _ => none
          | .ok accountMasterHD =>
              (lib.deriveHardened accountMasterHD wallet.accounts.length).toOption.map fun _ =>
                .account accountMasterHD wallet.accounts.length
  | .createFromHD masterHD index _ _ =>
      (lib.deriveHardened masterHD index).toOption.map fun _ => .account masterHD index

/-- The node at `path` has the id, and the node at the path's parent (the
master node is its own) is kept under it. -/
structure EntryOk (lib : HDNodeLib Node) (seeds : SeedLib Node) (seed : Buffer)
    (network : Network) (path : List Nat) (id : AccountID) (node : Node) : Prop where
  owner : ∃ child, seeds.At lib seed network path child ∧ id = idOf lib child
  kept : seeds.At lib seed network path.dropLast node

/-- Every id in the repository belongs to a path below a seed, for a network that
goes with it in `P`. -/
def KeysOk (lib : HDNodeLib Node) (seeds : SeedLib Node) (P : Buffer → Network → Prop)
    (r : Repositories Node) : Prop :=
  ∀ id node, r.keyRepo.getHDNode id = some node →
    ∃ seed network path, P seed network ∧ EntryOk lib seeds seed network path id node

def ServiceLabel.creation? (seeds : SeedLib Node) : ServiceLabel Node → Option (Buffer × Network)
  | .createNew entropy network => some (entropy, network.getD .bitcoin)
  | .createFromSeed seed network passPhrase =>
      some (seeds.mnemonicToSeed (" ".intercalate seed) passPhrase, network.getD .bitcoin)
  | _ => none

def ServiceLabel.IsWalletCall : ServiceLabel Node → Prop
  | .createFromHD _ _ _ _ => False
  | _ => True

/-- The nodes a call brings in come from seeds and networks in `P`. -/
def Derived (lib : HDNodeLib Node) (seeds : SeedLib Node) (P : Buffer → Network → Prop)
    (l : ServiceLabel Node) : Prop :=
  (∀ seed network, l.creation? seeds = some (seed, network) → P seed network) ∧
  ∀ masterHD index observableBlockchain coinManager,
    l = .createFromHD masterHD index observableBlockchain coinManager →
    ∃ seed network path, P seed network ∧ seeds.At lib seed network path masterHD

section Entries

variable {lib : HDNodeLib Node} {seeds : SeedLib Node} {seed seed' : Buffer}
  {network network' : Network} {path path' : List Nat} {id : AccountID} {a b : Node}

theorem EntryOk.path_eq (hkeys : seeds.DistinctKeys lib)
    (ha : EntryOk lib seeds seed network path id a)
    (hb : EntryOk lib seeds seed' network' path' id b) : seed = seed' ∧ path = path' := by
  obtain ⟨child, hchild, hid⟩ := ha.owner
  obtain ⟨child', hchild', hid'⟩ := hb.owner
  apply hkeys _ _ _ _ _ _ _ _ hchild hchild'
  exact HexText.ofBytes_injective (hid.symm.trans hid')

theorem EntryOk.publicKey_eq (hseeds : seeds.Lawful lib) (hkeys : seeds.DistinctKeys lib)
    (ha : EntryOk lib seeds seed network path id a)
    (hb : EntryOk lib seeds seed' network' path' id b) :
    lib.getPublicKeyBuffer a = lib.getPublicKeyBuffer b := by
  obtain ⟨rfl, rfl⟩ := ha.path_eq hkeys hb
  exact hseeds.publicKey_eq _ _ _ _ _ _ ha.kept hb.kept

theorem EntryOk.idOf_eq_iff (hkeys : seeds.DistinctKeys lib)
    (ha : EntryOk lib seeds seed network path id a) : idOf lib a = id ↔ path = [] := by
  obtain ⟨child, hchild, rfl⟩ := ha.owner
  have hkept := ha.kept
  constructor
  · intro hid
    have hpath := (hkeys _ _ _ _ _ _ _ _ hkept hchild (HexText.ofBytes_injective hid)).2
    have hlength := congrArg List.length hpath
    rw [List.length_dropLast] at hlength
    exact List.length_eq_zero_iff.mp (by omega)
  · rintro rfl
    rw [hkept.unique hchild]

end Entries

section Step

variable {lib : HDNodeLib Node} {seeds : SeedLib Node} {P : Buffer → Network → Prop}
  {r t : Repositories Node} {l : ServiceLabel Node}

theorem entryOk_master {seed : Buffer} {network : Network} {master : Node}
    (h : seeds.fromSeedBuffer seed network = .ok master) :
    EntryOk lib seeds seed network [] (idOf lib master) master :=
  ⟨⟨master, SeedLib.at_root h, rfl⟩, SeedLib.at_root h⟩

theorem entryOk_account (hlaw : lib.Lawful) {seed : Buffer} {network : Network} {path : List Nat}
    {masterHD child : Node} {index : Nat} (h : seeds.At lib seed network path masterHD)
    (hchild : lib.deriveHardened masterHD index = .ok child) :
    EntryOk lib seeds seed network (path ++ [index + 2 ^ 31]) (idOf lib child) masterHD where
  owner := by
    refine ⟨child, h.append ?_, rfl⟩
    exact (HDNodeLib.descend_singleton _ _).trans (hlaw.derive_of_deriveHardened hchild)
  kept := by
    rw [List.dropLast_concat]
    exact h

theorem walletId_ne (hlaw : lib.Lawful) (hkeys : seeds.DistinctKeys lib) {seed : Buffer}
    {network : Network} {path : List Nat} {id : AccountID} {rootNode accountMasterHD child : Node}
    {cointype : SupportedCoinType} {n : Nat} (h : EntryOk lib seeds seed network path id rootNode)
    (hmaster : lib.derivePath rootNode (accountPath cointype n) = .ok accountMasterHD)
    (hchild : lib.deriveHardened accountMasterHD n = .ok child) : id ≠ idOf lib child := by
  intro hid
  have haccount := entryOk_account hlaw (h.kept.append (hlaw.descend_of_derivePath hmaster)) hchild
  have hpath := congrArg List.length (h.path_eq hkeys (hid ▸ haccount)).2
  simp at hpath
  omega

theorem setNewAccountToWallet_eq {wallet : BasicWallet NormalAccount} {rootNode : Node}
    (hroot : r.keyRepo.getHDNode wallet.id = some rootNode)
    (informationSource coinManager : ObjRef) (cointype : SupportedCoinType) :
    setNewAccountToWallet lib r wallet informationSource coinManager .normal cointype = (do
      let accountMasterHD ← lib.derivePath rootNode (accountPath cointype wallet.accounts.length)
      let child ← lib.deriveHardened accountMasterHD wallet.accounts.length
      return (save ⟨r.keyRepo.setHDNode (idOf lib child) accountMasterHD, r.repo⟩ wallet rootNode,
        some ⟨wallet.id, wallet.accounts ++ [newNormalAccount (idOf lib child)
          wallet.accounts.length coinManager informationSource]⟩)) := by
  simp only [setNewAccountToWallet, hroot, createFromHD, bind_assoc, pure_bind]

/-- A call stores at most one node, under an id that the repository may have
held before, and leaves what is under every other id. -/
inductive KeysStep (lib : HDNodeLib Node) (seeds : SeedLib Node) (r : Repositories Node)
    (l : ServiceLabel Node) (t : Repositories Node) : Prop
  | unchanged (hstored : stored lib seeds r l = none) (h : t.keyRepo = r.keyRepo)
  | registered (reg : Registered Node) (id : AccountID)
      (hstored : stored lib seeds r l = some reg) (hid : reg.id? lib = some id)
      (h : ∀ id', t.keyRepo.getHDNode id' =
        if id' = id then some reg.node else r.keyRepo.getHDNode id')

/-- What a call does to the repositories: nothing, when it throws or finds no
wallet, or the writes of a new wallet, of an account of a wallet, or of an
account alone. -/
inductive StoreStep (lib : HDNodeLib Node) (seeds : SeedLib Node) (r : Repositories Node)
    (l : ServiceLabel Node) : Repositories Node → Prop
  | unchanged (hstored : stored lib seeds r l = none) : StoreStep lib seeds r l r
  | wallet {master : Node} (hstored : stored lib seeds r l = some (.wallet master)) :
      StoreStep lib seeds r l (createFromNode lib r master).1
  | walletAccount {wallet : BasicWallet NormalAccount} {cointype : SupportedCoinType}
      {rootNode accountMasterHD child : Node}
      (hroot : r.keyRepo.getHDNode wallet.id = some rootNode)
      (hmaster : lib.derivePath rootNode (accountPath cointype wallet.accounts.length) =
        .ok accountMasterHD)
      (hchild : lib.deriveHardened accountMasterHD wallet.accounts.length = .ok child)
      (hstored : stored lib seeds r l = some (.account accountMasterHD wallet.accounts.length)) :
      StoreStep lib seeds r l
        (save ⟨r.keyRepo.setHDNode (idOf lib child) accountMasterHD, r.repo⟩ wallet rootNode)
  | account {masterHD child : Node} {index : Nat}
      (hchild : lib.deriveHardened masterHD index = .ok child)
      (hstored : stored lib seeds r l = some (.account masterHD index)) :
      StoreStep lib seeds r l ⟨r.keyRepo.setHDNode (idOf lib child) masterHD, r.repo⟩

theorem storeStep_creation {seed : Buffer} {network : Network}
    (hstored : stored lib seeds r l = (seeds.fromSeedBuffer seed network).toOption.map .wallet) :
    StoreStep lib seeds r l (savedBy r
      (do return createFromNode lib r (← seeds.fromSeedBuffer seed network))) := by
  cases hnode : seeds.fromSeedBuffer seed network with
  | error e =>
      rw [hnode] at hstored
      exact .unchanged hstored
  | ok master =>
      rw [hnode] at hstored
      exact .wallet hstored

theorem storeStep_setNewAccountToWallet (wallet : BasicWallet NormalAccount)
    (informationSource coinManager : ObjRef) (cointype : SupportedCoinType) :
    StoreStep lib seeds r (.setNewAccountToWallet wallet informationSource coinManager cointype)
      (savedBy r (setNewAccountToWallet lib r wallet informationSource coinManager .normal
        cointype)) := by
  cases hroot : r.keyRepo.getHDNode wallet.id with
  | none =>
      simp only [setNewAccountToWallet, hroot, savedBy]
      exact .unchanged (by simp only [stored, hroot])
  | some rootNode =>
      rw [setNewAccountToWallet_eq hroot]
      cases hmaster : lib.derivePath rootNode (accountPath cointype wallet.accounts.length) with
      | error e => exact .unchanged (by simp only [stored, hroot, hmaster])
      | ok accountMasterHD =>
          simp only [bind, Except.bind]
          cases hchild : lib.deriveHardened accountMasterHD wallet.accounts.length with
          | error e => exact .unchanged (by simp [stored, hroot, hmaster, hchild, Except.toOption])
          | ok child =>
              apply StoreStep.walletAccount hroot hmaster hchild
              simp [stored, hroot, hmaster, hchild, Except.toOption]

theorem service_step_cases (hstep : (serviceMachine lib seeds).step r l = some t) :
    StoreStep lib seeds r l t := by
  cases l with
  | createNew entropy network =>
      obtain rfl := Option.some.inj hstep
      exact storeStep_creation rfl
  | createFromSeed seed network passPhrase =>
      obtain rfl := Option.some.inj hstep
      exact storeStep_creation rfl
  | setNewAccountToWallet wallet informationSource coinManager cointype =>
      obtain rfl := Option.some.inj hstep
      exact storeStep_setNewAccountToWallet wallet informationSource coinManager cointype
  | createFromHD masterHD index observableBlockchain coinManager =>
      simp only [serviceMachine, createFromHD] at hstep
      cases hchild : lib.deriveHardened masterHD index with
      | error e =>
          rw [hchild] at hstep
          obtain rfl := Option.some.inj hstep
          exact .unchanged (by simp [stored, hchild, Except.toOption])
      | ok child =>
          rw [hchild] at hstep
          obtain rfl := Option.some.inj hstep
          exact .account hchild (by simp [stored, hchild, Except.toOption])

theorem keys_step (hlaw : lib.Lawful) (hkeys : seeds.DistinctKeys lib) (hok : KeysOk lib seeds P r)
    (hstep : (serviceMachine lib seeds).step r l = some t) : KeysStep lib seeds r l t := by
  cases service_step_cases hstep with
  | unchanged hstored => exact .unchanged hstored rfl
  | wallet hstored => exact .registered _ _ hstored rfl fun id' => InsertionMap.get_set _ _ id' _
  | @walletAccount wallet cointype rootNode accountMasterHD child hroot hmaster hchild hstored =>
      obtain ⟨seed, network, path, -, hentry⟩ := hok _ _ hroot
      have hne := walletId_ne hlaw hkeys hentry hmaster hchild
      apply KeysStep.registered _ (idOf lib child) hstored
      · simp [Registered.id?, hchild, Except.toOption]
      · intro id'
        -- the root is written once more, over itself
        by_cases hid : id' = wallet.id
        · subst hid
          rw [if_neg hne, hroot]
          exact InsertionMap.get_set_self _ _ _
        · exact (InsertionMap.get_set_of_ne _ hid _).trans (InsertionMap.get_set _ _ _ _)
  | @account masterHD child index hchild hstored =>
      apply KeysStep.registered _ (idOf lib child) hstored
      · simp [Registered.id?, hchild, Except.toOption]
      · exact fun id' => InsertionMap.get_set _ _ id' _

theorem stored_cases (hlaw : lib.Lawful) {reg : Registered Node}
    (h : stored lib seeds r l = some reg) :
    (∃ seed network master, l.creation? seeds = some (seed, network) ∧
      seeds.fromSeedBuffer seed network = .ok master ∧ reg = .wallet master) ∨
    ∃ masterHD index child, reg = .account masterHD index ∧
      lib.deriveHardened masterHD index = .ok child ∧
      ((∃ id rootNode path, r.keyRepo.getHDNode id = some rootNode ∧
          lib.descend rootNode path = .ok masterHD) ∨
        ∃ observableBlockchain coinManager,
          l = .createFromHD masterHD index observableBlockchain coinManager) := by
  have hok : ∀ {α : Type} {x : Except JsError α} {f : α → Registered Node},
      x.toOption.map f = some reg → ∃ a, x = .ok a ∧ reg = f a := by
    intro α x f hx
    cases x with
    | error e => cases hx
    | ok a => exact ⟨a, rfl, (Option.some.inj hx).symm⟩
  cases l with
  | createNew entropy network =>
      obtain ⟨master, hmaster, rfl⟩ := hok h
      exact .inl ⟨_, _, master, rfl, hmaster, rfl⟩
  | createFromSeed seed network passPhrase =>
      obtain ⟨master, hmaster, rfl⟩ := hok h
      exact .inl ⟨_, _, master, rfl, hmaster, rfl⟩
  | setNewAccountToWallet wallet informationSource coinManager cointype =>
      simp only [stored] at h
      split at h
      · cases h
      · rename_i rootNode hroot
        split at h
        · cases h
        · rename_i accountMasterHD hmaster
          obtain ⟨child, hchild, rfl⟩ := hok h
          exact .inr ⟨accountMasterHD, _, child, rfl, hchild,
            .inl ⟨_, rootNode, _, hroot, hlaw.descend_of_derivePath hmaster⟩⟩
  | createFromHD masterHD index observableBlockchain coinManager =>
      obtain ⟨child, hchild, rfl⟩ := hok h
      exact .inr ⟨masterHD, index, child, rfl, hchild, .inr ⟨_, _, rfl⟩⟩

theorem stored_entryOk (hlaw : lib.Lawful) (hok : KeysOk lib seeds P r)
    (hl : Derived lib seeds P l) {reg : Registered Node} (h : stored lib seeds r l = some reg) :
    ∃ seed network path id, P seed network ∧ reg.id? lib = some id ∧
      EntryOk lib seeds seed network path id reg.node ∧ (reg.IsWallet ↔ path = []) := by
  obtain ⟨seed, network, master, hcreation, hmaster, rfl⟩ |
    ⟨masterHD, index, child, rfl, hchild, horigin⟩ := stored_cases hlaw h
  · exact ⟨seed, network, [], _, hl.1 _ _ hcreation, rfl, entryOk_master hmaster, by
      simp [Registered.IsWallet]⟩
  · have hat : ∃ seed network path, P seed network ∧ seeds.At lib seed network path masterHD := by
      obtain ⟨id, rootNode, path, hroot, hbelow⟩ | ⟨observableBlockchain, coinManager, rfl⟩ :=
        horigin
      · obtain ⟨seed, network, rootPath, hP, hentry⟩ := hok id rootNode hroot
        exact ⟨seed, network, _, hP, hentry.kept.append hbelow⟩
      · exact hl.2 masterHD index observableBlockchain coinManager rfl
    obtain ⟨seed, network, path, hP, hat⟩ := hat
    exact ⟨seed, network, _, idOf lib child, hP, by simp [Registered.id?, hchild, Except.toOption],
      entryOk_account hlaw hat hchild, by simp [Registered.IsWallet]⟩

theorem KeysOk.step (hlaw : lib.Lawful) (hkeys : seeds.DistinctKeys lib)
    (hok : KeysOk lib seeds P r) (hl : Derived lib seeds P l)
    (hstep : (serviceMachine lib seeds).step r l = some t) : KeysOk lib seeds P t := by
  intro id node hnode
  cases keys_step hlaw hkeys hok hstep with
  | unchanged hstored hsame =>
      rw [hsame] at hnode
      exact hok id node hnode
  | registered reg id' hstored hid' hget =>
      rw [hget] at hnode
      by_cases h : id = id'
      · rw [if_pos h, Option.some.injEq] at hnode
        obtain ⟨seed, network, path, id'', hP, hid'', hentry, -⟩ :=
          stored_entryOk hlaw hok hl hstored
        rw [hid'] at hid''
        obtain rfl := Option.some.inj hid''
        subst h hnode
        exact ⟨seed, network, path, hP, hentry⟩
      · rw [if_neg h] at hnode
        exact hok id node hnode

end Step

/-! ## Runs -/

section Runs

variable {lib : HDNodeLib Node} {seeds : SeedLib Node} {P : Buffer → Network → Prop}
  {r s t : Repositories Node} {ls ms : List (ServiceLabel Node)}

def registered (lib : HDNodeLib Node) (seeds : SeedLib Node) :
    Repositories Node → List (ServiceLabel Node) → List (Registered Node) :=
  (serviceMachine lib seeds).trace fun r l => (stored lib seeds r l).toList

theorem registered_cons {l : ServiceLabel Node}
    (hstep : (serviceMachine lib seeds).step r l = some t) :
    registered lib seeds r (l :: ls) =
      (stored lib seeds r l).toList ++ registered lib seeds t ls := by
  simp only [registered, Machine.trace, hstep]

theorem keysOk_empty (lib : HDNodeLib Node) (seeds : SeedLib Node) (P : Buffer → Network → Prop) :
    KeysOk lib seeds P ⟨.empty, .empty⟩ := by
  intro id node hnode
  cases hnode

theorem KeysOk.run (hlaw : lib.Lawful) (hkeys : seeds.DistinctKeys lib)
    (hok : KeysOk lib seeds P r) (hls : ∀ l ∈ ls, Derived lib seeds P l)
    (hrun : (serviceMachine lib seeds).run r ls = some t) : KeysOk lib seeds P t :=
  Machine.run_invariant_within (fun _ _ _ hs hl hstep => hs.step hlaw hkeys hl hstep) hrun
    ((Machine.within_iff_forall hrun).mpr hls) hok

theorem run_holds_iff (hlaw : lib.Lawful) (hkeys : seeds.DistinctKeys lib)
    (hok : KeysOk lib seeds P r) (hls : ∀ l ∈ ls, Derived lib seeds P l)
    (hrun : (serviceMachine lib seeds).run r ls = some t) (id : AccountID) :
    (∃ node, t.keyRepo.getHDNode id = some node) ↔
      (∃ node, r.keyRepo.getHDNode id = some node) ∨
        ∃ reg ∈ registered lib seeds r ls, reg.id? lib = some id := by
  induction hrun using Machine.run_induction with
  | nil r => simp [registered, Machine.trace]
  | cons hstep _ ih =>
      obtain ⟨hl, hls⟩ := List.forall_mem_cons.mp hls
      rw [ih (hok.step hlaw hkeys hl hstep) hls, registered_cons hstep]
      cases keys_step hlaw hkeys hok hstep with
      | unchanged hstored hsame =>
          rw [hstored, hsame]
          rfl
      | registered reg id' hstored hid' hget =>
          rw [hstored, hget]
          simp only [Option.toList_some, List.singleton_append, List.exists_mem_cons_iff, hid',
            Option.some.injEq]
          by_cases h : id = id'
          · simp [h]
          · simp [h, Ne.symm h]

theorem run_registered (hlaw : lib.Lawful) (hkeys : seeds.DistinctKeys lib)
    (hok : KeysOk lib seeds P r) (hls : ∀ l ∈ ls, Derived lib seeds P l)
    (hrun : (serviceMachine lib seeds).run r ls = some t) :
    ∀ reg ∈ registered lib seeds r ls, ∃ seed network path id, P seed network ∧
      reg.id? lib = some id ∧ EntryOk lib seeds seed network path id reg.node ∧
      (reg.IsWallet ↔ path = []) := by
  induction hrun using Machine.run_induction with
  | nil r => simp [registered, Machine.trace]
  | cons hstep _ ih =>
      obtain ⟨hl, hls⟩ := List.forall_mem_cons.mp hls
      intro reg hreg
      rw [registered_cons hstep, List.mem_append, Option.mem_toList] at hreg
      rcases hreg with hreg | hreg
      · exact stored_entryOk hlaw hok hl hreg
      · exact ih (hok.step hlaw hkeys hl hstep) hls reg hreg

theorem derived_of_isWalletCall {l : ServiceLabel Node} (hl : l.IsWalletCall)
    (hP : ∀ seed network, l.creation? seeds = some (seed, network) → P seed network) :
    Derived lib seeds P l := by
  refine ⟨hP, ?_⟩
  rintro masterHD index observableBlockchain coinManager rfl
  exact hl.elim

/-- In every run the repository holds the ids that were registered in it, each
with the public key of the node it was registered with.  The hash of this key is
the id for wallets, and is not for accounts. -/
theorem getPubKey_of_run (hlaw : lib.Lawful) (hseeds : seeds.Lawful lib)
    (hkeys : seeds.DistinctKeys lib) (hls : ∀ l ∈ ls, Derived lib seeds (fun _ _ => True) l)
    (hrun : (serviceMachine lib seeds).run ⟨.empty, .empty⟩ ls = some t) :
    (∀ id, (∃ node, t.keyRepo.getHDNode id = some node) ↔
      ∃ reg ∈ registered lib seeds ⟨.empty, .empty⟩ ls, reg.id? lib = some id) ∧
    ∀ reg ∈ registered lib seeds ⟨.empty, .empty⟩ ls, ∃ id, reg.id? lib = some id ∧
      t.keyRepo.getPubKey lib id =
        some (HexText.ofBytes (lib.getPublicKeyBuffer reg.node)) ∧
      (HexText.ofBytes (lib.hash160 (lib.getPublicKeyBuffer reg.node)) = id ↔ reg.IsWallet) := by
  have hempty := keysOk_empty lib seeds fun _ _ => True
  have hholds : ∀ id, (∃ node, t.keyRepo.getHDNode id = some node) ↔
      ∃ reg ∈ registered lib seeds ⟨.empty, .empty⟩ ls, reg.id? lib = some id := by
    intro id
    rw [run_holds_iff hlaw hkeys hempty hls hrun id, or_iff_right]
    rintro ⟨node, hnode⟩
    cases hnode
  refine ⟨hholds, ?_⟩
  intro reg hreg
  obtain ⟨seed, network, path, id, -, hid, hentry, hwallet⟩ :=
    run_registered hlaw hkeys hempty hls hrun reg hreg
  obtain ⟨node, hnode⟩ := (hholds id).mpr ⟨reg, hreg, hid⟩
  obtain ⟨seed', network', path', -, hentry'⟩ := hempty.run hlaw hkeys hls hrun id node hnode
  refine ⟨id, hid, ?_, ?_⟩
  · rw [← hentry'.publicKey_eq hseeds hkeys hentry]
    exact congrArg (Option.map _) hnode
  · rw [hwallet]
    exact hentry.idOf_eq_iff hkeys

def CreatedIn (seeds : SeedLib Node) (calls : List (ServiceLabel Node)) (seed : Buffer)
    (network : Network) : Prop :=
  ∃ l ∈ calls, l.creation? seeds = some (seed, network)

def createAndAdd : List (ServiceLabel SymbolicNode) :=
  [.createFromSeed sampleSeed none none, .setNewAccountToWallet seedWallet.2 0 1 .btc]

theorem createAndAdd_isWalletCall : ∀ l ∈ createAndAdd, l.IsWalletCall := by
  simp [createAndAdd, ServiceLabel.IsWalletCall]

theorem run_createAndAdd : ∃ s a,
    (serviceMachine SymbolicNode.lib SymbolicNode.seeds).run ⟨.empty, .empty⟩ createAndAdd =
        some s ∧
      AccountOk SymbolicNode.lib (seedMaster .bitcoin) s.keyRepo 0 a := by
  have hok : WalletOk SymbolicNode.lib (seedMaster .bitcoin) seedWallet :=
    ⟨rfl, InsertionMap.get_set_self _ _ _, fun k a ha => by cases ha⟩
  obtain ⟨t, ht⟩ := hok.step_exists SymbolicNode.lib_lawful (by decide) (sampleRequest .btc)
  obtain ⟨hokt, -, a, haccounts⟩ :=
    hok.step SymbolicNode.lib_lawful SymbolicNode.lib_distinctAddresses ht
  refine ⟨t.1, a, ?_, hokt.account 0 a (by rw [haccounts]; rfl)⟩
  have hset : (serviceMachine SymbolicNode.lib SymbolicNode.seeds).step seedWallet.1
      (.setNewAccountToWallet seedWallet.2 0 1 .btc) = some t.1 := by
    have hstep := walletMachine_step ht
    simp only [sampleRequest] at hstep
    simp only [serviceMachine, hstep, savedBy]
  exact (Machine.run_cons_eq_some _).mpr ⟨seedWallet.1, step_createFromSeed_sampleSeed _ none,
    (Machine.run_cons_eq_some _).mpr ⟨t.1, hset, rfl⟩⟩

theorem getPubKey_of_run_registered : ∃ s,
    (serviceMachine SymbolicNode.lib SymbolicNode.seeds).run ⟨.empty, .empty⟩ createAndAdd =
        some s ∧
      ∀ reg ∈ registered SymbolicNode.lib SymbolicNode.seeds ⟨.empty, .empty⟩ createAndAdd, ∃ id,
        reg.id? SymbolicNode.lib = some id ∧ s.keyRepo.getPubKey SymbolicNode.lib id =
          some (HexText.ofBytes (SymbolicNode.lib.getPublicKeyBuffer reg.node)) := by
  obtain ⟨s, a, hrun, -⟩ := run_createAndAdd
  refine ⟨s, hrun, ?_⟩
  intro reg hreg
  obtain ⟨id, hid, hkey, -⟩ := (getPubKey_of_run SymbolicNode.lib_lawful SymbolicNode.seeds_lawful
    SymbolicNode.seeds_distinctKeys
    (fun l hl => derived_of_isWalletCall (createAndAdd_isWalletCall l hl) fun _ _ _ => trivial)
    hrun).2 reg hreg
  exact ⟨id, hid, hkey⟩

/-- The key kept for the account of the run does not hash to its id. -/
theorem getPubKey_not_preimage : ∃ s id pubkey,
    (serviceMachine SymbolicNode.lib SymbolicNode.seeds).run ⟨.empty, .empty⟩ createAndAdd =
        some s ∧
      s.keyRepo.getPubKey SymbolicNode.lib id = some (HexText.ofBytes pubkey) ∧
      HexText.ofBytes (SymbolicNode.lib.hash160 pubkey) ≠ id := by
  obtain ⟨s, a, hrun, ha⟩ := run_createAndAdd
  obtain ⟨cointype, node, child, hnode, hchild, hid, hkept⟩ := ha.key
  refine ⟨s, a.id, _, hrun, congrArg (Option.map _) hkept, ?_⟩
  rw [hid]
  intro heq
  have hpath := path_eq_of_idOf_eq SymbolicNode.lib_lawful SymbolicNode.lib_distinctAddresses hnode
    hchild heq
  simp at hpath

end Runs

end WalletService

end Walletts
