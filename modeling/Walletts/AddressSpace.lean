import Walletts.AddressTree
/-!
# The addresses of an account

The key repository encodes an address for the network of the node it keeps; the
account compares it with what `fromOutputScript` makes of an output, which is
not told any network.  And the node that is kept for an account is the one it
was made from, whatever its index.  This module says which outputs an account
recognises because of the first, and which accounts share their addresses
because of the second.
-/

namespace Walletts

open NormalAccountService WalletService

variable {Node : Type} {lib : HDNodeLib Node} {btc : ScriptLib}

namespace NormalAccountService

theorem getAddressForAccount_kept (hlaw : lib.Lawful) (hdecode : lib.AddressesDecode)
    {keyRepo : InMemoryKeyRepository Node} {a : NormalAccount} {hd : Node}
    (hkept : keyRepo.getHDNode a.id = some hd) {index : Nat} (hindex : index < 2 ^ 31) :
    ∃ external internal,
      lib.derivePath hd [.normal 0, .normal index] = .ok external ∧
      lib.derivePath hd [.normal 1, .normal index] = .ok internal ∧
      getAddressForAccount lib keyRepo a index =
        .ok (watchingToo a [lib.getAddress external, lib.getAddress internal],
          lib.getAddress external, lib.getAddress internal) := by
  have hholds : Holds keyRepo a.id := ⟨hd, hkept⟩
  obtain ⟨hd', external, hhd', hext, hget⟩ :=
    getAddress_of_holds hlaw hholds (by norm_num : 0 < 2 ^ 31) hindex
  obtain rfl := Option.some.inj (hkept.symm.trans hhd')
  obtain ⟨hd', internal, hhd', hint, hresume⟩ := resumeCall_eq hlaw hdecode
    (c := ⟨a, index, some (lib.getAddress external)⟩) hholds hindex rfl
    (hdecode.getAddress_ne hlaw external)
  obtain rfl := Option.some.inj (hkept.symm.trans hhd')
  refine ⟨external, internal, hext, hint, ?_⟩
  rw [getAddressForAccount_eq, externalAddress, hget]
  exact hresume

/-! ## Networks -/

/-- What is documented of `fromOutputScript` without a network argument: it
encodes the hash in a `p2pkh` script for the main network. -/
def EncodesForBitcoin (btc : ScriptLib) (lib : HDNodeLib Node) : Prop :=
  ∀ key, btc.fromOutputScript (ScriptLib.p2pkh (lib.hash160 key)) =
    .ok (lib.encodeAddress .bitcoin (lib.hash160 key))

def Recognises (btc : ScriptLib) (a : NormalAccount) (script : Buffer) : Prop :=
  someAddress btc script (a.watchingAddresses.getD []) = .ok true

/-- The accounts of a network: made from a node of the network, with all their
calls answered from such nodes. -/
inductive OnNetwork (lib : HDNodeLib Node) (network : Network) : NormalAccount → Prop
  | created {keyRepo made : InMemoryKeyRepository Node} {masterHD : Node} {index : Nat}
      {observableBlockchain coinManager : ObjRef} {a : NormalAccount}
      (hnetwork : lib.network masterHD = network)
      (hcreate : createFromHD lib keyRepo masterHD index observableBlockchain coinManager =
        .ok (made, a)) : OnNetwork lib network a
  | called {keyRepo : InMemoryKeyRepository Node} {hd : Node} {index : Nat}
      {a a' : NormalAccount} {addr change : String} (h : OnNetwork lib network a)
      (hnetwork : lib.network hd = network) (hkept : keyRepo.getHDNode a.id = some hd)
      (hget : getAddressForAccount lib keyRepo a index = .ok (a', addr, change)) :
      OnNetwork lib network a'

section Networks

variable {network : Network} {hd : Node} {a a' : NormalAccount}
  {keyRepo : InMemoryKeyRepository Node} {index : Nat} {addr change : String}

theorem getAddressForAccount_encodes (hlaw : lib.Lawful)
    (hkept : keyRepo.getHDNode a.id = some hd)
    (hget : getAddressForAccount lib keyRepo a index = .ok (a', addr, change)) :
    a' = watchingToo a [addr, change] ∧ ∀ address ∈ [addr, change], ∃ key,
      address = lib.encodeAddress (lib.network hd) (lib.hash160 key) := by
  obtain ⟨external, internal, hext, hint, rfl, rfl, ha'⟩ := getAddressForAccount_ok hkept hget
  have hencode : ∀ s path node, lib.derivePath hd (s :: path) = .ok node →
      ∃ key, lib.getAddress node = lib.encodeAddress (lib.network hd) (lib.hash160 key) := by
    intro s path node hnode
    refine ⟨lib.getPublicKeyBuffer node, ?_⟩
    rw [hlaw.getAddress_eq, hlaw.network_descend (hlaw.descend_of_derivePath hnode)]
  refine ⟨ha', ?_⟩
  simpa using ⟨hencode _ _ _ hext, hencode _ _ _ hint⟩

theorem OnNetwork.encodes (hlaw : lib.Lawful) (h : OnNetwork lib network a) :
    ∀ address ∈ a.watchingAddresses.getD [], ∃ hash, address = lib.encodeAddress network hash := by
  induction h with
  | created hnetwork hcreate =>
      obtain ⟨child, -, -, rfl⟩ := createFromHD_ok hcreate
      simp [newNormalAccount]
  | called h hnetwork hkept hget ih =>
      obtain ⟨rfl, hencodes⟩ := getAddressForAccount_encodes hlaw hkept hget
      intro address hmem
      rcases List.mem_append.mp hmem with hold | hnew
      · exact ih address hold
      · obtain ⟨key, hkey⟩ := hencodes address hnew
        exact ⟨_, hnetwork ▸ hkey⟩

theorem recognises_p2pkh_iff (hscripts : EncodesForBitcoin btc lib) (key : Buffer) :
    Recognises btc a (ScriptLib.p2pkh (lib.hash160 key)) ↔
      lib.encodeAddress .bitcoin (lib.hash160 key) ∈ a.watchingAddresses.getD [] := by
  rw [Recognises, someAddress_eq (hscripts key)]
  simp

theorem recognises_address_iff (hlaw : lib.Lawful) (hdecode : lib.AddressesDecode)
    (hscripts : EncodesForBitcoin btc lib) (hkept : keyRepo.getHDNode a.id = some hd)
    (hget : getAddressForAccount lib keyRepo a index = .ok (a', addr, change)) {address : String}
    (hmem : address ∈ [addr, change]) {key : Buffer}
    (hkey : address = lib.encodeAddress (lib.network hd) (lib.hash160 key)) :
    Recognises btc a' (ScriptLib.p2pkh (lib.hash160 key)) ↔ lib.network hd = .bitcoin ∨
      lib.encodeAddress .bitcoin (lib.hash160 key) ∈ a.watchingAddresses.getD [] := by
  obtain ⟨rfl, hencodes⟩ := getAddressForAccount_encodes hlaw hkept hget
  rw [recognises_p2pkh_iff hscripts]
  constructor
  · intro hwatched
    rcases List.mem_append.mp hwatched with hold | hnew
    · exact .inr hold
    · obtain ⟨key', hkey'⟩ := hencodes _ hnew
      exact .inl (hdecode.inj _ _ _ _ hkey').1.symm
  · rintro (hbitcoin | hold)
    · rw [← hbitcoin, ← hkey]
      exact List.mem_append_right _ hmem
    · exact List.mem_append_left _ hold

theorem OnNetwork.bitcoin_of_watched (hlaw : lib.Lawful) (hdecode : lib.AddressesDecode)
    (h : OnNetwork lib network a) {hash : Buffer}
    (hwatched : lib.encodeAddress .bitcoin hash ∈ a.watchingAddresses.getD []) :
    network = .bitcoin := by
  obtain ⟨hash', hsame⟩ := h.encodes hlaw _ hwatched
  exact (hdecode.inj _ _ _ _ hsame).1.symm

/-- Whether payments to the addresses that an account hands out are recognised
depends on the network: on the main network all of them are, and for an account
that has always been on the test network none is. -/
theorem handed_out_recognised_iff (hlaw : lib.Lawful) (hdecode : lib.AddressesDecode)
    (hscripts : EncodesForBitcoin btc lib) (hkept : keyRepo.getHDNode a.id = some hd)
    (hget : getAddressForAccount lib keyRepo a index = .ok (a', addr, change)) :
    ∀ address ∈ [addr, change], ∃ hash, lib.encodeAddress (lib.network hd) hash = address ∧
      (Recognises btc a' (ScriptLib.p2pkh hash) ↔ lib.network hd = .bitcoin ∨
        lib.encodeAddress .bitcoin hash ∈ a.watchingAddresses.getD []) ∧
      (OnNetwork lib (lib.network hd) a →
        (Recognises btc a' (ScriptLib.p2pkh hash) ↔ lib.network hd = .bitcoin)) := by
  intro address hmem
  obtain ⟨key, hkey⟩ := (getAddressForAccount_encodes hlaw hkept hget).2 address hmem
  have hiff := recognises_address_iff hlaw hdecode hscripts hkept hget hmem hkey
  refine ⟨_, hkey.symm, hiff, fun honly => ?_⟩
  rw [hiff, or_iff_left_of_imp (honly.bitcoin_of_watched hlaw hdecode)]

theorem scripts_encodesForBitcoin : EncodesForBitcoin SymbolicNode.scripts SymbolicNode.lib := by
  intro key
  have hhash : ((ScriptLib.p2pkh key).drop 3).dropLast.dropLast = key := by
    simp [ScriptLib.p2pkh]
  simp [SymbolicNode.scripts, SymbolicNode.lib, hhash]

theorem handed_out_recognised_bitcoin : ∃ a' addr change hash,
    getAddressForAccount SymbolicNode.lib seedKeys seedAccount 0 = .ok (a', addr, change) ∧
      SymbolicNode.lib.encodeAddress .bitcoin hash = addr ∧
      Recognises SymbolicNode.scripts a' (ScriptLib.p2pkh hash) := by
  obtain ⟨a', hget⟩ := seedAccount_addresses
  obtain ⟨hash, haddr, hiff, -⟩ := handed_out_recognised_iff SymbolicNode.lib_lawful
    SymbolicNode.lib_addressesDecode scripts_encodesForBitcoin
    (createFromHD_kept seedAccount_created) hget _ List.mem_cons_self
  exact ⟨a', _, _, hash, hget, haddr, hiff.mpr (.inl rfl)⟩

theorem testnetAccount_created : ∃ made account,
    createFromHD SymbolicNode.lib .empty (seedMaster .testnet) 0 0 1 = .ok (made, account) :=
  ⟨_, _, rfl⟩

/-- An output to the first address of an account on the test network. -/
theorem testnet_not_recognised : ∃ made account a' addr change hash,
    createFromHD SymbolicNode.lib .empty (seedMaster .testnet) 0 0 1 = .ok (made, account) ∧
      getAddressForAccount SymbolicNode.lib made account 0 = .ok (a', addr, change) ∧
      SymbolicNode.lib.encodeAddress .testnet hash = addr ∧
      ¬ Recognises SymbolicNode.scripts a' (ScriptLib.p2pkh hash) := by
  obtain ⟨made, account, hcreate⟩ := testnetAccount_created
  have hkept := createFromHD_kept hcreate
  have honly : OnNetwork SymbolicNode.lib .testnet account := .created rfl hcreate
  obtain ⟨external, internal, hext, -, hget⟩ := getAddressForAccount_kept SymbolicNode.lib_lawful
    SymbolicNode.lib_addressesDecode hkept (by norm_num : 0 < 2 ^ 31)
  obtain ⟨key, hkey⟩ := (getAddressForAccount_encodes SymbolicNode.lib_lawful hkept hget).2 _
    List.mem_cons_self
  refine ⟨made, account, _, _, _, _, hcreate, hget, hkey.symm, ?_⟩
  rw [recognises_address_iff SymbolicNode.lib_lawful SymbolicNode.lib_addressesDecode
    scripts_encodesForBitcoin hkept hget List.mem_cons_self hkey]
  rintro (hbitcoin | hwatched)
  · cases hbitcoin
  · cases honly.bitcoin_of_watched SymbolicNode.lib_lawful SymbolicNode.lib_addressesDecode hwatched

end Networks

/-! ## Accounts of one master node -/

section Masters

variable {masterHD : Node} {keyRepo made made' atRequest : InMemoryKeyRepository Node}
  {account account' : NormalAccount} {i j : Nat}
  {observableBlockchain observableBlockchain' coinManager coinManager' : ObjRef}

theorem created_id_ne (hlaw : lib.Lawful) (hdistinct : lib.DistinctAddresses)
    (hcreate : createFromHD lib keyRepo masterHD i observableBlockchain coinManager =
      .ok (made, account))
    (hcreate' : createFromHD lib made masterHD j observableBlockchain' coinManager' =
      .ok (made', account'))
    (hij : i ≠ j) : account.id ≠ account'.id := by
  obtain ⟨child, hchild, -, rfl⟩ := createFromHD_ok hcreate
  obtain ⟨child', hchild', -, rfl⟩ := createFromHD_ok hcreate'
  intro hid
  have hbelow : ∀ {n node}, lib.deriveHardened masterHD n = .ok node →
      lib.descend masterHD [n + 2 ^ 31] = .ok node := by
    intro n node hnode
    exact (HDNodeLib.descend_singleton _ _).trans (hlaw.derive_of_deriveHardened hnode)
  have hpath := path_eq_of_idOf_eq hlaw hdistinct (hbelow hchild) (hbelow hchild') hid
  simp only [List.cons.injEq, and_true] at hpath
  omega

theorem createFromHD_keeps
    (hcreate : createFromHD lib keyRepo masterHD i observableBlockchain coinManager =
      .ok (made, account))
    {id : AccountID} (hid : id ≠ account.id) : made.getHDNode id = keyRepo.getHDNode id := by
  obtain ⟨child, -, rfl, rfl⟩ := createFromHD_ok hcreate
  exact InsertionMap.get_set_of_ne _ hid _

theorem index_eq_of_shared (hlaw : lib.Lawful) (hdistinct : lib.DistinctAddresses)
    {keyRepo keyRepo' : InMemoryKeyRepository Node} {a b a' b' : NormalAccount} {k l : Nat}
    (ha : keyRepo.getHDNode a.id = some masterHD) (hb : keyRepo'.getHDNode b.id = some masterHD)
    {addr change addr' change' address : String}
    (hgeta : getAddressForAccount lib keyRepo a k = .ok (a', addr, change))
    (hgetb : getAddressForAccount lib keyRepo' b l = .ok (b', addr', change'))
    (hmem : address ∈ [addr, change]) (hmem' : address ∈ [addr', change']) : k = l := by
  have hpath : ∀ {keyRepo : InMemoryKeyRepository Node} {a a' : NormalAccount} {k : Nat}
      {addr change : String}, keyRepo.getHDNode a.id = some masterHD →
      getAddressForAccount lib keyRepo a k = .ok (a', addr, change) →
      address ∈ [addr, change] → ∃ chain node,
        lib.descend masterHD [chain, k] = .ok node ∧ lib.getAddress node = address := by
    intro keyRepo a a' k addr change hkept hget hmem
    obtain ⟨external, internal, hext, hint, rfl, rfl, -⟩ := getAddressForAccount_ok hkept hget
    rw [List.mem_cons, List.mem_singleton] at hmem
    rcases hmem with rfl | rfl
    · exact ⟨0, external, hlaw.descend_of_derivePath hext, rfl⟩
    · exact ⟨1, internal, hlaw.descend_of_derivePath hint, rfl⟩
  obtain ⟨chain, node, hnode, haddress⟩ := hpath ha hgeta hmem
  obtain ⟨chain', node', hnode', haddress'⟩ := hpath hb hgetb hmem'
  have heq := hdistinct _ _ _ _ _ hnode hnode' (haddress.trans haddress'.symm)
  rw [List.cons.injEq, List.cons.injEq] at heq
  exact heq.2.1

theorem same_addresses (hlaw : lib.Lawful) (hdecode : lib.AddressesDecode)
    (hkept : atRequest.getHDNode account.id = some masterHD)
    (hkept' : atRequest.getHDNode account'.id = some masterHD) {k : Nat} (hk : k < 2 ^ 31) :
    ∃ a a' addr change, getAddressForAccount lib atRequest account k = .ok (a, addr, change) ∧
      getAddressForAccount lib atRequest account' k = .ok (a', addr, change) := by
  obtain ⟨external, internal, hext, hint, hget⟩ :=
    getAddressForAccount_kept hlaw hdecode hkept hk
  obtain ⟨external', internal', hext', hint', hget'⟩ :=
    getAddressForAccount_kept hlaw hdecode hkept' hk
  obtain rfl := Except.ok.inj (hext.symm.trans hext')
  obtain rfl := Except.ok.inj (hint.symm.trans hint')
  exact ⟨_, _, _, _, hget, hget'⟩

/-- Two accounts that are made from one node with different indices have
different ids.  At each index they are handed the same two addresses, and at
different indices they have none in common. -/
theorem accounts_of_one_master (hlaw : lib.Lawful) (hdecode : lib.AddressesDecode)
    (hdistinct : lib.DistinctAddresses)
    (hcreate : createFromHD lib keyRepo masterHD i observableBlockchain coinManager =
      .ok (made, account))
    (hcreate' : createFromHD lib made masterHD j observableBlockchain' coinManager' =
      .ok (made', account'))
    (hij : i ≠ j) (hrequest : atRequest.getHDNode account.id = made'.getHDNode account.id)
    (hrequest' : atRequest.getHDNode account'.id = made'.getHDNode account'.id) :
    account.id ≠ account'.id ∧
    (∀ k < 2 ^ 31, ∃ a a' addr change,
      getAddressForAccount lib atRequest account k = .ok (a, addr, change) ∧
      getAddressForAccount lib atRequest account' k = .ok (a', addr, change)) ∧
    ∀ k l a a' addr change addr' change',
      getAddressForAccount lib atRequest account k = .ok (a, addr, change) →
      getAddressForAccount lib atRequest account' l = .ok (a', addr', change') → k ≠ l →
        ∀ address ∈ [addr, change], address ∉ [addr', change'] := by
  have hne := created_id_ne hlaw hdistinct hcreate hcreate' hij
  have hkept' := hrequest'.trans (createFromHD_kept hcreate')
  have hkept : atRequest.getHDNode account.id = some masterHD :=
    (hrequest.trans (createFromHD_keeps hcreate' hne)).trans (createFromHD_kept hcreate)
  refine ⟨hne, fun k hk => same_addresses hlaw hdecode hkept hkept' hk, ?_⟩
  intro k l a a' addr change addr' change' hget hget' hkl address hmem hmem'
  exact hkl (index_eq_of_shared hlaw hdistinct hkept hkept' hget hget' hmem hmem')

theorem secondAccount_created : ∃ made account,
    createFromHD SymbolicNode.lib seedKeys (seedMaster .bitcoin) 1 0 2 = .ok (made, account) :=
  ⟨_, _, rfl⟩

theorem accounts_of_one_master_second : ∃ made account,
    createFromHD SymbolicNode.lib seedKeys (seedMaster .bitcoin) 1 0 2 = .ok (made, account) ∧
      seedAccount.id ≠ account.id ∧ ∃ a a' addr change,
        getAddressForAccount SymbolicNode.lib made seedAccount 5 = .ok (a, addr, change) ∧
        getAddressForAccount SymbolicNode.lib made account 5 = .ok (a', addr, change) := by
  obtain ⟨made, account, hcreate⟩ := secondAccount_created
  obtain ⟨hne, hsame, -⟩ := accounts_of_one_master SymbolicNode.lib_lawful
    SymbolicNode.lib_addressesDecode SymbolicNode.lib_distinctAddresses seedAccount_created hcreate
    (by decide) rfl rfl
  exact ⟨made, account, hcreate, hne, hsame 5 (by norm_num)⟩

/-- The accounts 0 and 1 of a node are handed the same first address. -/
theorem accounts_share_address : ∃ made account a a' addr change change',
    createFromHD SymbolicNode.lib .empty (seedMaster .bitcoin) 0 0 1 = .ok (seedKeys, seedAccount) ∧
      createFromHD SymbolicNode.lib seedKeys (seedMaster .bitcoin) 1 0 2 = .ok (made, account) ∧
      getAddressForAccount SymbolicNode.lib made seedAccount 0 = .ok (a, addr, change) ∧
      getAddressForAccount SymbolicNode.lib made account 0 = .ok (a', addr, change') := by
  obtain ⟨made, account, hcreate⟩ := secondAccount_created
  have hne := created_id_ne SymbolicNode.lib_lawful SymbolicNode.lib_distinctAddresses
    seedAccount_created hcreate (by decide)
  have hkept : made.getHDNode seedAccount.id = some (seedMaster .bitcoin) :=
    (createFromHD_keeps hcreate hne).trans (createFromHD_kept seedAccount_created)
  obtain ⟨a, a', addr, change, hget, hget'⟩ := same_addresses SymbolicNode.lib_lawful
    SymbolicNode.lib_addressesDecode hkept (createFromHD_kept hcreate) (by norm_num : 0 < 2 ^ 31)
  exact ⟨made, account, a, a', addr, change, change, seedAccount_created, hcreate, hget, hget'⟩

end Masters

end NormalAccountService

end Walletts
