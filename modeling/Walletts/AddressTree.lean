import Walletts.RedeemScript
/-!
# The versions of an account

`getAddressForAccount` does not change the account it is called on.  It makes a
new version, which watches two addresses more, and like every account that is
constructed the new version subscribes to the blockchain.  The calls can be
made on any version there is; between the two questions that each of them asks
the key repository, other calls and the rest of the service may run.

The result is about all such runs.  No call throws, all versions are the
account but for what they watch, and every address handed out is watched.  For
calls in turn the watch list is known exactly.
-/

namespace Walletts

open NormalAccountService WalletService

variable {Node : Type}

/-- What is documented of addresses: they are texts with something in them, and
each tells its network and its hash. -/
structure HDNodeLib.AddressesDecode (lib : HDNodeLib Node) : Prop where
  nonempty : ∀ network hash, lib.encodeAddress network hash ≠ ""
  inj : ∀ network network' hash hash',
    lib.encodeAddress network hash = lib.encodeAddress network' hash' →
      network = network' ∧ hash = hash'

theorem HDNodeLib.AddressesDecode.getAddress_ne {lib : HDNodeLib Node}
    (h : lib.AddressesDecode) (hlaw : lib.Lawful) (node : Node) : lib.getAddress node ≠ "" := by
  rw [hlaw.getAddress_eq]
  exact h.nonempty _ _

theorem SymbolicNode.lib_addressesDecode : SymbolicNode.lib.AddressesDecode where
  nonempty network hash h := by
    have hlength := congrArg String.length h
    cases network <;> simp [SymbolicNode.lib, SymbolicNode.encodeAddress] at hlength
  inj network network' hash hash' h := by
    have hlist := congrArg String.toList h
    cases network <;> cases network' <;>
      simp [SymbolicNode.lib, SymbolicNode.encodeAddress] at hlist ⊢
    · exact HexText.ofBytes_injective (String.toList_inj.mp hlist)
    · exact HexText.ofBytes_injective (String.toList_inj.mp hlist)

/-! ## Entries of the key repository -/

namespace WalletService

variable {lib : HDNodeLib Node} {seeds : SeedLib Node}

def Holds (keyRepo : InMemoryKeyRepository Node) (id : AccountID) : Prop :=
  ∃ node, keyRepo.getHDNode id = some node

theorem Holds.set {keyRepo : InMemoryKeyRepository Node} {id : AccountID} (h : Holds keyRepo id)
    (id' : AccountID) (node : Node) : Holds (keyRepo.setHDNode id' node) id := by
  obtain ⟨old, hold⟩ := h
  by_cases hid : id = id'
  · subst hid
    exact ⟨node, InsertionMap.get_set_self _ _ _⟩
  · exact ⟨old, (InsertionMap.get_set_of_ne _ hid _).trans hold⟩

theorem Holds.step {r t : Repositories Node} {id : AccountID} {l : ServiceLabel Node}
    (h : Holds r.keyRepo id) (hstep : (serviceMachine lib seeds).step r l = some t) :
    Holds t.keyRepo id := by
  cases service_step_cases hstep with
  | unchanged hstored => exact h
  | wallet hstored => exact h.set _ _
  | walletAccount hroot hmaster hchild hstored => exact (h.set _ _).set _ _
  | account hchild hstored => exact h.set _ _

end WalletService

namespace NormalAccountService

/-! ## Calls on versions -/

/-- A call of `getAddressForAccount` that waits for the repository: the version
it was made on, the index, and the external address it has. -/
structure AddressCall where
  account : NormalAccount
  index : Nat
  address : Option String

structure HandedOut where
  index : Nat
  address : String
  changeAddress : String
  deriving DecidableEq

def HandedOut.addresses (h : HandedOut) : List String := [h.address, h.changeAddress]

/-- The repositories, the versions that have been constructed and so have
subscribed, the calls under way, what has been handed out and what has been
thrown. -/
structure AddressBook (Node : Type) where
  repos : Repositories Node
  versions : List NormalAccount
  calls : List AddressCall
  handed : List HandedOut
  thrown : List JsError

inductive AddressLabel (Node : Type)
  | service (l : ServiceLabel Node)
  | call (version index : Nat)
  | resume (k : Nat)

def AddressLabel.index? : AddressLabel Node → Option Nat
  | call _ index => some index
  | _ => none

section Machine

variable (lib : HDNodeLib Node) (seeds : SeedLib Node)

def externalAddress (keyRepo : InMemoryKeyRepository Node) (id : AccountID) (index : Nat) :
    Except JsError (Option String) :=
  keyRepo.getAddress lib id [.normal 0, .normal index]

/-- `getAddressForAccount` from its first `await` on.  What follows the second
does not depend on the repository. -/
def resumeCall (keyRepo : InMemoryKeyRepository Node) (c : AddressCall) :
    Except JsError (NormalAccount × String × String) := do
  let changeAddress ← keyRepo.getAddress lib c.account.id [.normal 1, .normal c.index]
  withAddresses c.account c.address changeAddress

theorem getAddressForAccount_eq (keyRepo : InMemoryKeyRepository Node) (a : NormalAccount)
    (index : Nat) :
    getAddressForAccount lib keyRepo a index = (do
      let address ← externalAddress lib keyRepo a.id index
      resumeCall lib keyRepo ⟨a, index, address⟩) := rfl

def bookStart (repos : Repositories Node) (account : NormalAccount) : AddressBook Node :=
  ⟨repos, [account], [], [], []⟩

def addressMachine : Machine (AddressBook Node) (AddressLabel Node) where
  step s
    | .service l => ((serviceMachine lib seeds).step s.repos l).map fun r => { s with repos := r }
    | .call version index =>
        match s.versions[version]? with
        | none => none
        | some a =>
            match externalAddress lib s.repos.keyRepo a.id index with
            | .error e => some { s with thrown := s.thrown ++ [e] }
            | .ok address => some { s with calls := s.calls ++ [⟨a, index, address⟩] }
    | .resume k =>
        match s.calls[k]? with
        | none => none
        | some c =>
            match resumeCall lib s.repos.keyRepo c with
            | .error e => some { s with
                calls := s.calls.eraseIdx k
                thrown := s.thrown ++ [e] }
            | .ok (a, address, changeAddress) => some { s with
                versions := s.versions ++ [a]
                calls := s.calls.eraseIdx k
                handed := s.handed ++ [⟨c.index, address, changeAddress⟩] }

end Machine

variable {lib : HDNodeLib Node} {seeds : SeedLib Node}

theorem address_step_cases {s t : AddressBook Node} {l : AddressLabel Node}
    (h : (addressMachine lib seeds).step s l = some t) :
    (∃ l' r, l = .service l' ∧ (serviceMachine lib seeds).step s.repos l' = some r ∧
      t = { s with repos := r }) ∨
    (∃ version index a, l = .call version index ∧ s.versions[version]? = some a ∧
      ((∃ e, externalAddress lib s.repos.keyRepo a.id index = .error e ∧
          t = { s with thrown := s.thrown ++ [e] }) ∨
        ∃ address, externalAddress lib s.repos.keyRepo a.id index = .ok address ∧
          t = { s with calls := s.calls ++ [⟨a, index, address⟩] })) ∨
    (∃ k c, l = .resume k ∧ s.calls[k]? = some c ∧
      ((∃ e, resumeCall lib s.repos.keyRepo c = .error e ∧
          t = { s with calls := s.calls.eraseIdx k, thrown := s.thrown ++ [e] }) ∨
        ∃ a address changeAddress,
          resumeCall lib s.repos.keyRepo c = .ok (a, address, changeAddress) ∧
          t = { s with
            versions := s.versions ++ [a]
            calls := s.calls.eraseIdx k
            handed := s.handed ++ [⟨c.index, address, changeAddress⟩] })) := by
  cases l with
  | service l =>
      obtain ⟨r, hr, rfl⟩ := Option.map_eq_some_iff.mp h
      exact .inl ⟨l, r, rfl, hr, rfl⟩
  | call version index =>
      simp only [addressMachine] at h
      split at h
      · cases h
      · rename_i a ha
        refine .inr (.inl ⟨version, index, a, rfl, ha, ?_⟩)
        split at h
        · rename_i e he
          exact .inl ⟨e, he, (Option.some.inj h).symm⟩
        · rename_i address haddress
          exact .inr ⟨address, haddress, (Option.some.inj h).symm⟩
  | resume k =>
      simp only [addressMachine] at h
      split at h
      · cases h
      · rename_i c hc
        refine .inr (.inr ⟨k, c, rfl, hc, ?_⟩)
        split at h
        · rename_i e he
          exact .inl ⟨e, he, (Option.some.inj h).symm⟩
        · rename_i a address changeAddress hok
          exact .inr ⟨a, address, changeAddress, hok, (Option.some.inj h).symm⟩

/-! ## What every run keeps -/

def IsVersion (account v : NormalAccount) : Prop :=
  v = { account with watchingAddresses := v.watchingAddresses }

theorem IsVersion.id_eq {account v : NormalAccount} (h : IsVersion account v) :
    v.id = account.id := by
  rw [h]

def watchingToo (a : NormalAccount) (addresses : List String) : NormalAccount :=
  { a with watchingAddresses := some (a.watchingAddresses.getD [] ++ addresses) }

theorem IsVersion.watchingToo {account v : NormalAccount} (h : IsVersion account v)
    (addresses : List String) : IsVersion account (watchingToo v addresses) := by
  rw [IsVersion, h]
  rfl

def AddressLabel.Valid : AddressLabel Node → Prop
  | call _ index => index < 2 ^ 31
  | _ => True

/-- The entry of the account is there, nothing has been thrown, versions and
calls are of the account, and what has been handed out is watched. -/
structure TreeOk (account : NormalAccount) (s : AddressBook Node) : Prop where
  holds : Holds s.repos.keyRepo account.id
  thrown : s.thrown = []
  versions : ∀ v ∈ s.versions, IsVersion account v
  calls : ∀ c ∈ s.calls, IsVersion account c.account ∧ c.index < 2 ^ 31 ∧
    ∃ address, c.address = some address ∧ address ≠ ""
  watched : ∀ h ∈ s.handed, ∃ v ∈ s.versions, h.addresses ⊆ v.watchingAddresses.getD []

theorem getAddress_of_holds (hlaw : lib.Lawful) {keyRepo : InMemoryKeyRepository Node}
    {id : AccountID} (h : Holds keyRepo id) {chain index : Nat} (hchain : chain < 2 ^ 31)
    (hindex : index < 2 ^ 31) :
    ∃ hd node, keyRepo.getHDNode id = some hd ∧
      lib.derivePath hd [.normal chain, .normal index] = .ok node ∧
      keyRepo.getAddress lib id [.normal chain, .normal index] =
        .ok (some (lib.getAddress node)) := by
  obtain ⟨hd, hhd⟩ := h
  have hpath : ∀ s ∈ [PathStep.normal chain, .normal index], s.number < 2 ^ 32 := by
    simp only [List.forall_mem_cons, PathStep.number, List.not_mem_nil, IsEmpty.forall_iff,
      implies_true, and_true]
    omega
  obtain ⟨node, hnode⟩ := hlaw.derivePath_ok hpath hd
  refine ⟨hd, node, hhd, hnode, ?_⟩
  rw [InMemoryKeyRepository.getAddress_eq hhd, hnode]
  rfl

section Quiet

variable {account : NormalAccount} {s t : AddressBook Node} {l : AddressLabel Node}

theorem resumeCall_eq (hlaw : lib.Lawful) (hdecode : lib.AddressesDecode)
    {keyRepo : InMemoryKeyRepository Node} {c : AddressCall} {address : String}
    (h : Holds keyRepo c.account.id) (hindex : c.index < 2 ^ 31)
    (haddress : c.address = some address) (hne : address ≠ "") :
    ∃ hd node, keyRepo.getHDNode c.account.id = some hd ∧
      lib.derivePath hd [.normal 1, .normal c.index] = .ok node ∧
      resumeCall lib keyRepo c = .ok (watchingToo c.account [address, lib.getAddress node],
        address, lib.getAddress node) := by
  obtain ⟨hd, node, hhd, hnode, hget⟩ :=
    getAddress_of_holds hlaw h (by norm_num : 1 < 2 ^ 31) hindex
  refine ⟨hd, node, hhd, hnode, ?_⟩
  rw [resumeCall, hget, haddress]
  simp only [bind, Except.bind, withAddresses]
  rw [if_neg (not_or.mpr ⟨hne, hdecode.getAddress_ne hlaw node⟩)]
  rfl

/-- Where nothing has gone wrong nothing does: a call asks for an address and
gets it, and a call that goes on returns. -/
theorem TreeOk.step_cases (hlaw : lib.Lawful) (hdecode : lib.AddressesDecode)
    (h : TreeOk account s) (hl : l.Valid)
    (hstep : (addressMachine lib seeds).step s l = some t) :
    (∃ l' r, l = .service l' ∧ (serviceMachine lib seeds).step s.repos l' = some r ∧
      t = { s with repos := r }) ∨
    (∃ version index a hd node, l = .call version index ∧ s.versions[version]? = some a ∧
      s.repos.keyRepo.getHDNode account.id = some hd ∧
      lib.derivePath hd [.normal 0, .normal index] = .ok node ∧
      t = { s with calls := s.calls ++ [⟨a, index, some (lib.getAddress node)⟩] }) ∨
    (∃ k c address hd node, l = .resume k ∧ s.calls[k]? = some c ∧ c.address = some address ∧
      s.repos.keyRepo.getHDNode account.id = some hd ∧
      lib.derivePath hd [.normal 1, .normal c.index] = .ok node ∧
      t = { s with
        versions := s.versions ++ [watchingToo c.account [address, lib.getAddress node]]
        calls := s.calls.eraseIdx k
        handed := s.handed ++ [⟨c.index, address, lib.getAddress node⟩] }) := by
  obtain hservice | ⟨version, index, a, rfl, ha, hcall⟩ | ⟨k, c, rfl, hc, hresume⟩ :=
    address_step_cases hstep
  · exact .inl hservice
  · have hid := (h.versions a (List.mem_of_getElem? ha)).id_eq
    obtain ⟨hd, node, hhd, hnode, hget⟩ :=
      getAddress_of_holds hlaw h.holds (by norm_num : 0 < 2 ^ 31) hl
    rw [hid, externalAddress, hget] at hcall
    obtain ⟨e, he, -⟩ | ⟨address, haddress, rfl⟩ := hcall
    · cases he
    · obtain rfl := Except.ok.inj haddress
      exact .inr (.inl ⟨version, index, a, hd, node, rfl, ha, hhd, hnode, rfl⟩)
  · obtain ⟨hversion, hindex, address, haddress, hne⟩ := h.calls c (List.mem_of_getElem? hc)
    have hholds : Holds s.repos.keyRepo c.account.id := hversion.id_eq ▸ h.holds
    obtain ⟨hd, node, hhd, hnode, hok⟩ := resumeCall_eq hlaw hdecode hholds hindex haddress hne
    rw [hok] at hresume
    obtain ⟨e, he, -⟩ | ⟨a, address', changeAddress, heq, rfl⟩ := hresume
    · cases he
    · cases heq
      exact .inr (.inr ⟨k, c, address, hd, node, rfl, hc, haddress, hversion.id_eq ▸ hhd, hnode,
        rfl⟩)

theorem TreeOk.step (hlaw : lib.Lawful) (hdecode : lib.AddressesDecode) (h : TreeOk account s)
    (hl : l.Valid) (hstep : (addressMachine lib seeds).step s l = some t) : TreeOk account t := by
  obtain ⟨l', r, rfl, hr, rfl⟩ | ⟨version, index, a, hd, node, rfl, ha, -, -, rfl⟩ |
    ⟨k, c, address, hd, node, rfl, hc, -, -, -, rfl⟩ := h.step_cases hlaw hdecode hl hstep
  · exact ⟨h.holds.step hr, h.thrown, h.versions, h.calls, h.watched⟩
  · refine ⟨h.holds, h.thrown, h.versions, ?_, h.watched⟩
    intro c hc
    rcases List.mem_append.mp hc with hold | hnew
    · exact h.calls c hold
    · rw [List.mem_singleton.mp hnew]
      exact ⟨h.versions a (List.mem_of_getElem? ha), hl, _, rfl, hdecode.getAddress_ne hlaw node⟩
  · have hversion := (h.calls c (List.mem_of_getElem? hc)).1
    refine ⟨h.holds, h.thrown, ?_, fun c' hc' => h.calls c' (List.mem_of_mem_eraseIdx hc'), ?_⟩
    · intro v hv
      rcases List.mem_append.mp hv with hold | hnew
      · exact h.versions v hold
      · rw [List.mem_singleton.mp hnew]
        exact hversion.watchingToo _
    · intro out hout
      rcases List.mem_append.mp hout with hold | hnew
      · obtain ⟨v, hv, hsub⟩ := h.watched out hold
        exact ⟨v, List.mem_append_left _ hv, hsub⟩
      · rw [List.mem_singleton.mp hnew]
        exact ⟨_, List.mem_append_right _ (List.mem_singleton_self _),
          List.subset_append_right _ _⟩

theorem treeOk_start {repos : Repositories Node} (h : Holds repos.keyRepo account.id) :
    TreeOk account (bookStart repos account) where
  holds := h
  thrown := rfl
  versions v hv := by
    rw [List.mem_singleton.mp hv]
    rfl
  calls c hc := by cases hc
  watched out hout := by cases hout

/-! ## Calls in turn -/

/-- A call is made on the version that the call before has returned. -/
def InTurn (s : AddressBook Node) : AddressLabel Node → Prop
  | .call version _ => s.calls = [] ∧ version + 1 = s.versions.length
  | _ => True

def watchedAfter (initial : Option (List String)) : List HandedOut → Option (List String)
  | [] => initial
  | handed => some (initial.getD [] ++ handed.flatMap HandedOut.addresses)

theorem watchedAfter_append (initial : Option (List String)) (handed : List HandedOut)
    (out : HandedOut) :
    watchedAfter initial (handed ++ [out]) =
      some ((watchedAfter initial handed).getD [] ++ out.addresses) := by
  cases handed <;> simp [watchedAfter]

/-- The last version watches what has been handed out, and only it has a call
under way. -/
structure ChainOk (account : NormalAccount) (s : AddressBook Node) : Prop where
  last : ∃ v, s.versions.getLast? = some v ∧
    v.watchingAddresses = watchedAfter account.watchingAddresses s.handed ∧
    (s.calls = [] ∨ ∃ index address, s.calls = [⟨v, index, address⟩])

def AddressBook.indices (s : AddressBook Node) : List Nat :=
  s.handed.map HandedOut.index ++ s.calls.map AddressCall.index

theorem ChainOk.step (hlaw : lib.Lawful) (hdecode : lib.AddressesDecode) (h : TreeOk account s)
    (hchain : ChainOk account s) (hl : l.Valid) (hturn : InTurn s l)
    (hstep : (addressMachine lib seeds).step s l = some t) :
    ChainOk account t ∧ t.indices = s.indices ++ l.index?.toList := by
  obtain ⟨last, hlast, hwatch, hcalls⟩ := hchain.last
  obtain ⟨l', r, rfl, -, rfl⟩ | ⟨version, index, a, hd, node, rfl, ha, -, -, rfl⟩ |
    ⟨k, c, address, hd, node, rfl, hc, haddress, -, -, rfl⟩ := h.step_cases hlaw hdecode hl hstep
  · exact ⟨⟨last, hlast, hwatch, hcalls⟩, (List.append_nil _).symm⟩
  · obtain ⟨hnone, hversion⟩ := hturn
    have hsame : a = last := by
      rw [List.getLast?_eq_getElem?, ← hversion, Nat.add_sub_cancel, ha] at hlast
      exact Option.some.inj hlast
    subst hsame
    refine ⟨⟨a, hlast, hwatch, .inr ⟨index, some (lib.getAddress node), ?_⟩⟩, ?_⟩
    · rw [hnone]
      rfl
    · simp [AddressBook.indices, hnone, AddressLabel.index?]
  · obtain hnone | ⟨index, address', hone⟩ := hcalls
    · rw [hnone] at hc
      cases hc
    · rw [hone] at hc
      obtain rfl : k = 0 := by
        have hlt := (List.getElem?_eq_some_iff.mp hc).1
        simpa using hlt
      obtain rfl : AddressCall.mk last index address' = c := by simpa using hc
      refine ⟨⟨watchingToo last [address, lib.getAddress node], by simp, ?_, .inl ?_⟩, ?_⟩
      · rw [watchedAfter_append, ← hwatch]
        rfl
      · rw [hone]
        rfl
      · simp [AddressBook.indices, hone, AddressLabel.index?]

theorem chainOk_start (repos : Repositories Node) (account : NormalAccount) :
    ChainOk account (bookStart repos account) :=
  ⟨account, rfl, rfl, .inl rfl⟩

/-! ## Which addresses are handed out -/

def Issued (lib : HDNodeLib Node) (seeds : SeedLib Node) (seed : Buffer) (path : List Nat)
    (address : String) : Prop :=
  ∃ network node, seeds.At lib seed network path node ∧ address = lib.getAddress node

theorem Issued.path_eq (hlaw : lib.Lawful) (hdecode : lib.AddressesDecode)
    (hkeys : seeds.DistinctKeys lib) {seed : Buffer} {p q : List Nat} {address : String}
    (hp : Issued lib seeds seed p address) (hq : Issued lib seeds seed q address) : p = q := by
  obtain ⟨network, a, ha, rfl⟩ := hp
  obtain ⟨network', b, hb, hsame⟩ := hq
  rw [hlaw.getAddress_eq, hlaw.getAddress_eq] at hsame
  exact (hkeys _ _ _ _ _ _ _ _ ha hb (hdecode.inj _ _ _ _ hsame).2).2

def ServiceCalls (Q : ServiceLabel Node → Prop) : AddressLabel Node → Prop
  | .service l => Q l
  | _ => True

def Owns (lib : HDNodeLib Node) (seeds : SeedLib Node) (seed : Buffer) (path : List Nat)
    (id : AccountID) : Prop :=
  ∃ network child, seeds.At lib seed network path child ∧ id = idOf lib child

/-- The addresses handed out, and those of the calls under way, stand below the
parent of the path the account's id belongs to. -/
structure IssuedOk (lib : HDNodeLib Node) (seeds : SeedLib Node) (seed : Buffer)
    (parent : List Nat) (s : AddressBook Node) : Prop where
  keys : KeysOk lib seeds (fun _ _ => True) s.repos
  calls : ∀ c ∈ s.calls, ∀ address, c.address = some address →
    Issued lib seeds seed (parent ++ [0, c.index]) address
  handed : ∀ h ∈ s.handed, Issued lib seeds seed (parent ++ [0, h.index]) h.address ∧
    Issued lib seeds seed (parent ++ [1, h.index]) h.changeAddress

theorem issued_below (hlaw : lib.Lawful) (hkeys : seeds.DistinctKeys lib)
    (hok : KeysOk lib seeds (fun _ _ => True) s.repos) {seed : Buffer} {path : List Nat}
    {id : AccountID} (howns : Owns lib seeds seed path id) {hd node : Node}
    (hhd : s.repos.keyRepo.getHDNode id = some hd) {chain index : Nat}
    (hnode : lib.derivePath hd [.normal chain, .normal index] = .ok node) :
    Issued lib seeds seed (path.dropLast ++ [chain, index]) (lib.getAddress node) := by
  obtain ⟨network, child, hchild, rfl⟩ := howns
  obtain ⟨seed', network', path', -, hentry⟩ := hok _ _ hhd
  obtain ⟨child', hchild', hid'⟩ := hentry.owner
  obtain ⟨rfl, rfl⟩ := hkeys _ _ _ _ _ _ _ _ hchild hchild' (HexText.ofBytes_injective hid')
  exact ⟨network', node, hentry.kept.append (hlaw.descend_of_derivePath hnode), rfl⟩

theorem IssuedOk.step (hlaw : lib.Lawful) (hdecode : lib.AddressesDecode)
    (hkeys : seeds.DistinctKeys lib) {seed : Buffer} {path : List Nat}
    (howns : Owns lib seeds seed path account.id) (h : TreeOk account s)
    (hissued : IssuedOk lib seeds seed path.dropLast s) (hl : l.Valid)
    (hderived : ServiceCalls (Derived lib seeds fun _ _ => True) l)
    (hstep : (addressMachine lib seeds).step s l = some t) :
    IssuedOk lib seeds seed path.dropLast t := by
  obtain ⟨l', r, rfl, hr, rfl⟩ | ⟨version, index, a, hd, node, rfl, -, hhd, hnode, rfl⟩ |
    ⟨k, c, address, hd, node, rfl, hc, haddress, hhd, hnode, rfl⟩ :=
      h.step_cases hlaw hdecode hl hstep
  · exact ⟨hissued.keys.step hlaw hkeys hderived hr, hissued.calls, hissued.handed⟩
  · refine ⟨hissued.keys, ?_, hissued.handed⟩
    intro c hc address haddress
    rcases List.mem_append.mp hc with hold | hnew
    · exact hissued.calls c hold address haddress
    · obtain rfl := List.mem_singleton.mp hnew
      obtain rfl := Option.some.inj haddress
      exact issued_below hlaw hkeys hissued.keys howns hhd hnode
  · refine ⟨hissued.keys, fun c' hc' => hissued.calls c' (List.mem_of_mem_eraseIdx hc'), ?_⟩
    intro out hout
    rcases List.mem_append.mp hout with hold | hnew
    · exact hissued.handed out hold
    · rw [List.mem_singleton.mp hnew]
      exact ⟨hissued.calls c (List.mem_of_getElem? hc) address haddress,
        issued_below hlaw hkeys hissued.keys howns hhd hnode⟩

theorem issuedOk_start {repos : Repositories Node} (h : KeysOk lib seeds (fun _ _ => True) repos)
    (seed : Buffer) (parent : List Nat) :
    IssuedOk lib seeds seed parent (bookStart repos account) where
  keys := h
  calls c hc := by cases hc
  handed out hout := by cases hout

theorem IssuedOk.index_eq (hlaw : lib.Lawful) (hdecode : lib.AddressesDecode)
    (hkeys : seeds.DistinctKeys lib) {seed : Buffer} {parent : List Nat}
    (h : IssuedOk lib seeds seed parent s) {out out' : HandedOut} (hout : out ∈ s.handed)
    (hout' : out' ∈ s.handed) {address : String} (hmem : address ∈ out.addresses)
    (hmem' : address ∈ out'.addresses) : out.index = out'.index := by
  have hpath : ∀ out ∈ s.handed, address ∈ out.addresses →
      ∃ chain, Issued lib seeds seed (parent ++ [chain, out.index]) address := by
    intro out hout hmem
    obtain ⟨hexternal, hchange⟩ := h.handed out hout
    rw [HandedOut.addresses, List.mem_cons, List.mem_singleton] at hmem
    rcases hmem with rfl | rfl
    · exact ⟨0, hexternal⟩
    · exact ⟨1, hchange⟩
  obtain ⟨chain, hissued⟩ := hpath out hout hmem
  obtain ⟨chain', hissued'⟩ := hpath out' hout' hmem'
  have heq := List.append_cancel_left (hissued.path_eq hlaw hdecode hkeys hissued')
  rw [List.cons.injEq, List.cons.injEq] at heq
  exact heq.2.1

end Quiet

/-! ## Runs -/

section Runs

variable {account : NormalAccount} {s t : AddressBook Node} {ls : List (AddressLabel Node)}

theorem TreeOk.run (hlaw : lib.Lawful) (hdecode : lib.AddressesDecode) (h : TreeOk account s)
    (hvalid : ∀ l ∈ ls, l.Valid) (hrun : (addressMachine lib seeds).run s ls = some t) :
    TreeOk account t :=
  Machine.run_invariant_within (fun _ _ _ hs hl hstep => hs.step hlaw hdecode hl hstep) hrun
    ((Machine.within_iff_forall hrun).mpr hvalid) h

theorem ChainOk.run (hlaw : lib.Lawful) (hdecode : lib.AddressesDecode) (h : TreeOk account s)
    (hchain : ChainOk account s) (hvalid : ∀ l ∈ ls, l.Valid)
    (hturn : (addressMachine lib seeds).Within InTurn s ls)
    (hrun : (addressMachine lib seeds).run s ls = some t) :
    ChainOk account t ∧ t.indices = s.indices ++ ls.filterMap AddressLabel.index? := by
  induction hrun using Machine.run_induction with
  | nil s => exact ⟨hchain, (List.append_nil _).symm⟩
  | @cons s u t l ls hstep _ ih =>
      obtain ⟨hl, hvalid⟩ := List.forall_mem_cons.mp hvalid
      obtain ⟨hu, hindices⟩ := hchain.step hlaw hdecode h hl hturn.1 hstep
      obtain ⟨ht, hindices'⟩ :=
        ih (h.step hlaw hdecode hl hstep) hu hvalid (hturn.2 u hstep)
      refine ⟨ht, ?_⟩
      rw [hindices', hindices, List.append_assoc]
      cases hl : l.index? <;> simp [hl]

theorem IssuedOk.run (hlaw : lib.Lawful) (hdecode : lib.AddressesDecode)
    (hkeys : seeds.DistinctKeys lib) {seed : Buffer} {path : List Nat}
    (howns : Owns lib seeds seed path account.id) (h : TreeOk account s)
    (hissued : IssuedOk lib seeds seed path.dropLast s) (hvalid : ∀ l ∈ ls, l.Valid)
    (hderived : ∀ l ∈ ls, ServiceCalls (Derived lib seeds fun _ _ => True) l)
    (hrun : (addressMachine lib seeds).run s ls = some t) :
    IssuedOk lib seeds seed path.dropLast t := by
  induction hrun using Machine.run_induction with
  | nil s => exact hissued
  | cons hstep _ ih =>
      obtain ⟨hl, hvalid⟩ := List.forall_mem_cons.mp hvalid
      obtain ⟨hd, hderived⟩ := List.forall_mem_cons.mp hderived
      exact ih (h.step hlaw hdecode hl hstep)
        (hissued.step hlaw hdecode hkeys howns h hl hd hstep) hvalid hderived

/-! ## Every list of calls -/

def callsInTurn : Nat → List Nat → List (AddressLabel Node)
  | _, [] => []
  | k, j :: js => .call k j :: .resume 0 :: callsInTurn (k + 1) js

theorem call_step_exists {version : Nat} (h : version < s.versions.length) (index : Nat) :
    ∃ t, (addressMachine lib seeds).step s (.call version index) = some t := by
  simp only [addressMachine, List.getElem?_eq_getElem h]
  split
  · exact ⟨_, rfl⟩
  · exact ⟨_, rfl⟩

theorem resume_step_exists {k : Nat} (h : k < s.calls.length) :
    ∃ t, (addressMachine lib seeds).step s (.resume k) = some t := by
  simp only [addressMachine, List.getElem?_eq_getElem h]
  split
  · exact ⟨_, rfl⟩
  · exact ⟨_, rfl⟩

theorem TreeOk.call (hlaw : lib.Lawful) (hdecode : lib.AddressesDecode) (h : TreeOk account s)
    (hcalls : s.calls = []) {k j : Nat} (hk : k + 1 = s.versions.length) (hj : j < 2 ^ 31) :
    ∃ u t, (addressMachine lib seeds).step s (.call k j) = some u ∧
      (addressMachine lib seeds).step u (.resume 0) = some t ∧ TreeOk account t ∧
      t.calls = [] ∧ k + 2 = t.versions.length := by
  obtain ⟨u, hu⟩ : ∃ u, (addressMachine lib seeds).step s (.call k j) = some u :=
    call_step_exists (by omega) j
  have hokU := h.step hlaw hdecode (l := .call k j) hj hu
  obtain ⟨l', r, hl, -⟩ | ⟨version, index, a, hd, node, -, -, -, -, rfl⟩ |
    ⟨k', c, address, hd, node, hl, -⟩ := h.step_cases hlaw hdecode (l := .call k j) hj hu
  · cases hl
  · obtain ⟨t, ht⟩ : ∃ t, (addressMachine lib seeds).step
        { s with calls := s.calls ++ [⟨a, index, some (lib.getAddress node)⟩] } (.resume 0) =
          some t := resume_step_exists (by simp)
    refine ⟨_, t, hu, ht, hokU.step hlaw hdecode (l := .resume 0) trivial ht, ?_⟩
    obtain ⟨l', r, hl, -⟩ | ⟨version, index, a, hd, node, hl, -⟩ |
      ⟨k', c, address, hd, node, hl, -, -, -, -, rfl⟩ :=
        hokU.step_cases hlaw hdecode (l := .resume 0) trivial ht
    · cases hl
    · cases hl
    · cases hl
      simp only [hcalls, List.nil_append, List.eraseIdx_cons_zero, List.length_append,
        List.length_singleton, true_and]
      omega
  · cases hl

theorem TreeOk.callsInTurn (hlaw : lib.Lawful) (hdecode : lib.AddressesDecode)
    (h : TreeOk account s) (hcalls : s.calls = []) {k : Nat} (hk : k + 1 = s.versions.length)
    {js : List Nat} (hjs : ∀ j ∈ js, j < 2 ^ 31) :
    ∃ t, (addressMachine lib seeds).run s (callsInTurn k js) = some t ∧ t.calls = [] ∧
      (addressMachine lib seeds).Within InTurn s (NormalAccountService.callsInTurn k js) := by
  induction js generalizing s k with
  | nil => exact ⟨s, rfl, hcalls, trivial⟩
  | cons j js ih =>
      obtain ⟨hj, hjs⟩ := List.forall_mem_cons.mp hjs
      obtain ⟨u, v, hu, hv, hokV, hcallsV, hkV⟩ := h.call hlaw hdecode hcalls hk hj
      obtain ⟨t, ht, hnone, hturn⟩ := ih hokV hcallsV hkV hjs
      refine ⟨t, ?_, hnone, ?_⟩
      · exact (Machine.run_cons_eq_some _).mpr ⟨u, hu, (Machine.run_cons_eq_some _).mpr ⟨v, hv, ht⟩⟩
      · exact (Machine.within_cons hu).mpr ⟨⟨hcalls, hk⟩,
          (Machine.within_cons hv).mpr ⟨trivial, hturn⟩⟩

theorem callsInTurn_valid {k : Nat} {js : List Nat} (hjs : ∀ j ∈ js, j < 2 ^ 31) :
    ∀ l ∈ (callsInTurn k js : List (AddressLabel Node)), l.Valid := by
  induction js generalizing k with
  | nil => simp [callsInTurn]
  | cons j js ih =>
      obtain ⟨hj, hjs⟩ := List.forall_mem_cons.mp hjs
      exact List.forall_mem_cons.mpr ⟨hj, List.forall_mem_cons.mpr ⟨trivial, ih hjs⟩⟩

theorem callsInTurn_index (k : Nat) (js : List Nat) :
    (callsInTurn k js : List (AddressLabel Node)).filterMap AddressLabel.index? = js := by
  induction js generalizing k with
  | nil => rfl
  | cons j js ih => exact congrArg (List.cons j) (ih (k + 1))

/-- The calls on the versions of a new account.  Whichever versions they are
made on, and whatever the service does in between, none throws, all versions
are the account but for what they watch, and each address handed out is watched
by one of them.  Calls in turn, which can be made for all valid indices, build
up the watch list in order.  If addresses tell their paths, an address is
handed out for one index only. -/
theorem addresses_of_new_account (hlaw : lib.Lawful) (hdecode : lib.AddressesDecode)
    {before : List (ServiceLabel Node)} {r : Repositories Node}
    (hbefore : (serviceMachine lib seeds).run ⟨.empty, .empty⟩ before = some r)
    {masterHD : Node} {index : Nat} {observableBlockchain coinManager : ObjRef}
    {keyRepo : InMemoryKeyRepository Node}
    (hcreate : createFromHD lib r.keyRepo masterHD index observableBlockchain coinManager =
      .ok (keyRepo, account))
    (hvalid : ∀ l ∈ ls, l.Valid)
    (hrun : (addressMachine lib seeds).run (bookStart ⟨keyRepo, r.repo⟩ account) ls = some s) :
    s.thrown = [] ∧ (∀ v ∈ s.versions, IsVersion account v) ∧
    (∀ out ∈ s.handed, ∃ v ∈ s.versions, v.coinManager = account.coinManager ∧
      out.addresses ⊆ v.watchingAddresses.getD []) ∧
    ((addressMachine lib seeds).Within InTurn (bookStart ⟨keyRepo, r.repo⟩ account) ls →
      s.calls = [] → ∃ last, s.versions.getLast? = some last ∧
        last.watchingAddresses = watchedAfter account.watchingAddresses s.handed ∧
        s.handed.map HandedOut.index = ls.filterMap AddressLabel.index?) ∧
    (∀ js, (∀ j ∈ js, j < 2 ^ 31) → ∃ t,
      (addressMachine lib seeds).run (bookStart ⟨keyRepo, r.repo⟩ account) (callsInTurn 0 js) =
          some t ∧ t.calls = [] ∧
        (addressMachine lib seeds).Within InTurn (bookStart ⟨keyRepo, r.repo⟩ account)
          (callsInTurn 0 js)) ∧
    (seeds.DistinctKeys lib →
      (∀ l ∈ before, Derived lib seeds (fun _ _ => True) l) →
      Derived lib seeds (fun _ _ => True)
        (.createFromHD masterHD index observableBlockchain coinManager) →
      (∀ l ∈ ls, ServiceCalls (Derived lib seeds fun _ _ => True) l) →
      ∀ out ∈ s.handed, ∀ out' ∈ s.handed, ∀ address ∈ out.addresses, address ∈ out'.addresses →
        out.index = out'.index) := by
  have hkept := createFromHD_kept hcreate
  have hstart : TreeOk account (bookStart ⟨keyRepo, r.repo⟩ account) := treeOk_start ⟨_, hkept⟩
  have hok := hstart.run hlaw hdecode hvalid hrun
  refine ⟨hok.thrown, hok.versions, ?_, ?_, ?_, ?_⟩
  · intro out hout
    obtain ⟨v, hv, hsub⟩ := hok.watched out hout
    refine ⟨v, hv, ?_, hsub⟩
    rw [hok.versions v hv]
  · intro hturn hcalls
    obtain ⟨⟨last, hlast, hwatch, -⟩, hindices⟩ :=
      (chainOk_start ⟨keyRepo, r.repo⟩ account).run hlaw hdecode hstart hvalid hturn hrun
    refine ⟨last, hlast, hwatch, ?_⟩
    simpa [AddressBook.indices, hcalls, bookStart] using hindices
  · intro js hjs
    exact hstart.callsInTurn hlaw hdecode rfl rfl hjs
  · intro hkeys hderivedBefore hderivedCreate hderived out hout out' hout' address hmem hmem'
    have hcreated : (serviceMachine lib seeds).step r
        (.createFromHD masterHD index observableBlockchain coinManager) =
          some ⟨keyRepo, r.repo⟩ := by
      simp only [serviceMachine, hcreate]
    have hkeysOk := ((keysOk_empty lib seeds _).run hlaw hkeys hderivedBefore hbefore).step hlaw
      hkeys hderivedCreate hcreated
    obtain ⟨seed, network, path, -, hentry⟩ := hkeysOk _ _ hkept
    obtain ⟨child, hchild, hid⟩ := hentry.owner
    have hissued : IssuedOk lib seeds seed path.dropLast (bookStart ⟨keyRepo, r.repo⟩ account) :=
      issuedOk_start hkeysOk seed path.dropLast
    exact (hissued.run hlaw hdecode hkeys ⟨network, child, hchild, hid⟩ hstart hvalid hderived
      hrun).index_eq hlaw hdecode hkeys hout hout' hmem hmem'

theorem addresses_of_repeated_index : ∃ s last,
    (addressMachine SymbolicNode.lib SymbolicNode.seeds).run
        (bookStart ⟨seedKeys, .empty⟩ seedAccount) (callsInTurn 0 [0, 0]) = some s ∧
      s.thrown = [] ∧ s.versions.getLast? = some last ∧
      last.watchingAddresses = watchedAfter none s.handed ∧
      s.handed.map HandedOut.index = [0, 0] ∧
      ∀ out ∈ s.handed, ∀ out' ∈ s.handed, ∀ address ∈ out.addresses,
        address ∈ out'.addresses → out.index = out'.index := by
  have hbefore : (serviceMachine SymbolicNode.lib SymbolicNode.seeds).run ⟨.empty, .empty⟩ [] =
      some ⟨.empty, .empty⟩ := rfl
  have hstart : TreeOk seedAccount (bookStart ⟨seedKeys, .empty⟩ seedAccount) :=
    treeOk_start ⟨_, createFromHD_kept seedAccount_created⟩
  have hjs : ∀ j ∈ [0, 0], j < 2 ^ 31 := by decide
  obtain ⟨s, hrun, hcalls, hturn⟩ : ∃ s,
      (addressMachine SymbolicNode.lib SymbolicNode.seeds).run
          (bookStart ⟨seedKeys, .empty⟩ seedAccount) (callsInTurn 0 [0, 0]) = some s ∧
        s.calls = [] ∧ (addressMachine SymbolicNode.lib SymbolicNode.seeds).Within InTurn
          (bookStart ⟨seedKeys, .empty⟩ seedAccount) (callsInTurn 0 [0, 0]) :=
    hstart.callsInTurn SymbolicNode.lib_lawful SymbolicNode.lib_addressesDecode rfl rfl hjs
  have hderived : Derived SymbolicNode.lib SymbolicNode.seeds (fun _ _ => True)
      (.createFromHD (seedMaster .bitcoin) 0 0 1) := by
    refine ⟨fun _ _ _ => trivial, ?_⟩
    intro masterHD index observableBlockchain coinManager hcall
    cases hcall
    exact ⟨_, _, [], trivial, SeedLib.at_root (SymbolicNode.fromSeedBuffer_mnemonicToSeed _ _ _)⟩
  obtain ⟨hthrown, -, -, hchain, -, hcommon⟩ := addresses_of_new_account SymbolicNode.lib_lawful
    SymbolicNode.lib_addressesDecode hbefore seedAccount_created (callsInTurn_valid hjs) hrun
  obtain ⟨last, hlast, hwatch, hindices⟩ := hchain hturn hcalls
  refine ⟨s, last, hrun, hthrown, hlast, hwatch, ?_, ?_⟩
  · rw [hindices, callsInTurn_index]
  · refine hcommon SymbolicNode.seeds_distinctKeys (by simp) hderived ?_
    simp [callsInTurn, ServiceCalls]

end Runs

end NormalAccountService

end Walletts
