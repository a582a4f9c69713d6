import Walletts.LateSave
import Walletts.Lib.TaskList
/-!
# The keys of a service whose writes are late

A write that settles late can land behind a newer one under the same id, and a
call may derive an account from a node that is read between the two.  This
module says why no public key depends on that order: every node that a call
holds on to, has asked to be written or has written belongs to its id by the
path below a seed, and two nodes with one id and path have one public key.
-/

namespace Walletts

open NormalAccountService

variable {Node : Type}

namespace WalletService

def ServiceEvent.creation? (seeds : SeedLib Node) : ServiceEvent Node → Option (Buffer × Network)
  | .createNew entropy network _ _ => some (entropy, network.getD .bitcoin)
  | .createFromSeed seed network passPhrase _ _ =>
      some (seeds.mnemonicToSeed (" ".intercalate seed) passPhrase, network.getD .bitcoin)
  | _ => none

/-- A read that finds a node finds the one that is in the repository. -/
def ReadsStored (s : ServiceState Node) : ServiceEvent Node → Prop
  | .rootReply call (.ok (some rootNode)) _ => ∀ wallet request,
      s.calls[call]? = some (.root wallet request) →
        s.repos.keyRepo.getHDNode wallet.id = some rootNode
  | _ => True

def Entry (lib : HDNodeLib Node) (seeds : SeedLib Node) (P : Buffer → Network → Prop)
    (id : AccountID) (node : Node) : Prop :=
  ∃ seed network path, P seed network ∧ EntryOk lib seeds seed network path id node

def Held (r : Repositories Node) (id : AccountID) : Prop :=
  ∃ node, r.keyRepo.getHDNode id = some node

/-- The last account of the wallet that is returned has been written, and so has
the wallet's own node once its write has ended well. -/
structure SaveOk (lib : HDNodeLib Node) (seeds : SeedLib Node) (P : Buffer → Network → Prop)
    (r : Repositories Node) (save : Save Node) : Prop where
  entry : Entry lib seeds P save.wallet.id save.key
  id_eq : save.returned.id = save.wallet.id
  added : save.returned = save.wallet ∨ ∃ account,
    save.returned.accounts = save.wallet.accounts ++ [account] ∧ Held r account.id
  held : save.keyWrite = .written → Held r save.wallet.id

/-- A call that waits for the node of its account knows where both its nodes
belong. -/
inductive CallOk (lib : HDNodeLib Node) (seeds : SeedLib Node) (P : Buffer → Network → Prop)
    (r : Repositories Node) : AccountCall Node → Prop
  | root (wallet : BasicWallet NormalAccount) (request : AccountRequest) :
      CallOk lib seeds P r (.root wallet request)
  | account {wallet : BasicWallet NormalAccount} {rootNode accountMasterHD : Node}
      {account : NormalAccount} {write : WriteStatus}
      (hroot : Entry lib seeds P wallet.id rootNode)
      (haccount : Entry lib seeds P account.id accountMasterHD)
      (hheld : write = .written → Held r account.id) :
      CallOk lib seeds P r (.account wallet rootNode accountMasterHD account write)
  | ended : CallOk lib seeds P r .ended

structure LateOk (lib : HDNodeLib Node) (seeds : SeedLib Node) (P : Buffer → Network → Prop)
    (s : ServiceState Node) : Prop where
  keys : KeysOk lib seeds P s.repos
  calls : ∀ call ∈ s.calls, CallOk lib seeds P s.repos call
  saves : ∀ save ∈ s.saves, SaveOk lib seeds P s.repos save

section Writes

variable {lib : HDNodeLib Node} {seeds : SeedLib Node} {P : Buffer → Network → Prop}
  {r r' : Repositories Node}

theorem SaveOk.grow {save : Save Node} (h : SaveOk lib seeds P r save) (hgrow : KeysGrow r r') :
    SaveOk lib seeds P r' save where
  entry := h.entry
  id_eq := h.id_eq
  added := h.added.imp_right fun ⟨account, haccounts, hheld⟩ =>
    ⟨account, haccounts, hgrow _ hheld⟩
  held := fun hwritten => hgrow _ (h.held hwritten)

theorem CallOk.grow {call : AccountCall Node} (h : CallOk lib seeds P r call)
    (hgrow : KeysGrow r r') : CallOk lib seeds P r' call := by
  cases h with
  | root wallet request => exact .root wallet request
  | account hroot haccount hheld =>
      exact .account hroot haccount fun hwritten => hgrow _ (hheld hwritten)
  | ended => exact .ended

theorem KeysOk.writeKey (h : KeysOk lib seeds P r) {id : AccountID} {key : Node}
    (hentry : Entry lib seeds P id key) (write : WriteStatus) :
    KeysOk lib seeds P (ServiceState.writeKey r write id key) := by
  unfold ServiceState.writeKey
  split
  · intro id' node hnode
    by_cases hid : id' = id
    · subst hid
      obtain rfl := Option.some.inj ((InsertionMap.get_set_self _ _ _).symm.trans hnode)
      exact hentry
    · exact h id' node ((InsertionMap.get_set_of_ne _ hid _).symm.trans hnode)
  · exact h

theorem keyRepo_writeWallet (r : Repositories Node) (write : WriteStatus)
    (wallet : BasicWallet NormalAccount) :
    (ServiceState.writeWallet r write wallet).keyRepo = r.keyRepo := by
  unfold ServiceState.writeWallet
  split <;> rfl

theorem KeysOk.writeWallet (h : KeysOk lib seeds P r) (write : WriteStatus)
    (wallet : BasicWallet NormalAccount) :
    KeysOk lib seeds P (ServiceState.writeWallet r write wallet) := by
  unfold KeysOk
  rw [keyRepo_writeWallet]
  exact h

theorem held_writeKey (r : Repositories Node) {write : WriteStatus} (id : AccountID) (key : Node)
    (h : write = .written) : Held (ServiceState.writeKey r write id key) id := by
  rw [ServiceState.writeKey, if_pos h]
  exact ⟨key, InsertionMap.get_set_self _ _ _⟩

end Writes

section Steps

variable {lib : HDNodeLib Node} {seeds : SeedLib Node} {P : Buffer → Network → Prop}
  {s t : ServiceState Node} {event : ServiceEvent Node}

theorem LateOk.withRepos (h : LateOk lib seeds P s) {r : Repositories Node}
    (hkeys : KeysOk lib seeds P r) (hgrow : KeysGrow s.repos r) :
    LateOk lib seeds P ⟨r, s.calls, s.saves⟩ where
  keys := hkeys
  calls := fun call hcall => (h.calls call hcall).grow hgrow
  saves := fun save hsave => (h.saves save hsave).grow hgrow

theorem LateOk.setCall (h : LateOk lib seeds P s) {state : AccountCall Node}
    (hstate : CallOk lib seeds P s.repos state) (call : Nat) :
    LateOk lib seeds P (s.setCall call state) where
  keys := h.keys
  calls := TaskList.forall_mem_set h.calls hstate call
  saves := h.saves

theorem LateOk.setSave (h : LateOk lib seeds P s) {save : Save Node}
    (hsave : SaveOk lib seeds P s.repos save) (i : Nat) :
    LateOk lib seeds P ⟨s.repos, s.calls, s.saves.set i save⟩ where
  keys := h.keys
  calls := h.calls
  saves := TaskList.forall_mem_set h.saves hsave i

theorem LateOk.saveAndReturn (h : LateOk lib seeds P s)
    {wallet returned : BasicWallet NormalAccount}
    {key : Node} (hentry : Entry lib seeds P wallet.id key) (hid : returned.id = wallet.id)
    (hadded : returned = wallet ∨ ∃ account,
      returned.accounts = wallet.accounts ++ [account] ∧ Held s.repos account.id)
    (keyStart walletStart : WriteStart) :
    LateOk lib seeds P (s.saveAndReturn wallet key returned keyStart walletStart) := by
  have hgrow := keysGrow_saveAndReturn s wallet key returned keyStart walletStart
  have hwritten := h.withRepos ((h.keys.writeKey hentry keyStart.status).writeWallet
    (keyStart.statusAfter walletStart) wallet) hgrow
  refine ⟨hwritten.keys, hwritten.calls, fun save hsave => ?_⟩
  rcases List.mem_append.mp hsave with hold | hnew
  · exact hwritten.saves save hold
  · rw [List.mem_singleton.mp hnew]
    have hsaved : SaveOk lib seeds P s.repos
        ⟨wallet, key, returned, .notStarted, keyStart.statusAfter walletStart⟩ :=
      ⟨hentry, hid, hadded, fun hwritten => nomatch hwritten⟩
    refine ⟨hentry, hid, (hsaved.grow hgrow).added, fun hwritten => ?_⟩
    exact keysGrow_writeWallet _ _ _ _ (held_writeKey s.repos wallet.id key hwritten)

theorem lateCreation_step (hcreation : event.IsCreation)
    (hstep : (lateMachine lib seeds).step s event = some t) :
    ∃ seed network keyStart walletStart, event.creation? seeds = some (seed, network) ∧
      t = s.create lib (seeds.fromSeedBuffer seed network) keyStart walletStart := by
  cases event with
  | createNew entropy network keyStart walletStart =>
      exact ⟨_, _, keyStart, walletStart, rfl, (Option.some.inj hstep).symm⟩
  | createFromSeed seed network passPhrase keyStart walletStart =>
      exact ⟨_, _, keyStart, walletStart, rfl, (Option.some.inj hstep).symm⟩
  | _ => exact hcreation.elim

theorem LateOk.create (h : LateOk lib seeds P s) {seed : Buffer} {network : Network}
    (hP : P seed network) (keyStart walletStart : WriteStart) :
    LateOk lib seeds P (s.create lib (seeds.fromSeedBuffer seed network) keyStart walletStart) := by
  cases hnode : seeds.fromSeedBuffer seed network with
  | error e => exact h
  | ok node =>
      have hentry : Entry lib seeds P (idOf lib node) node :=
        ⟨seed, network, [], hP, entryOk_master hnode⟩
      show LateOk lib seeds P
        (s.saveAndReturn ⟨idOf lib node, []⟩ node ⟨idOf lib node, []⟩ keyStart walletStart)
      exact h.saveAndReturn hentry rfl (.inl rfl) keyStart walletStart

theorem LateOk.answerRoot (hlaw : lib.Lawful) (h : LateOk lib seeds P s) (call : Nat)
    (wallet : BasicWallet NormalAccount) (request : AccountRequest)
    {reply : Except JsError (Option Node)}
    (hreads : ∀ rootNode, reply = .ok (some rootNode) →
      s.repos.keyRepo.getHDNode wallet.id = some rootNode) (start : WriteStart) :
    LateOk lib seeds P (s.answerRoot lib call wallet request reply start) := by
  have hended := h.setCall .ended call
  unfold ServiceState.answerRoot
  split
  · rename_i rootNode
    obtain ⟨seed, network, path, hP, hentry⟩ := h.keys _ _ (hreads rootNode rfl)
    split
    · exact hended
    · rename_i accountMasterHD hmaster
      split
      · exact hended
      · rename_i child hchild
        have hat := hentry.kept.append (hlaw.descend_of_derivePath hmaster)
        have haccount : Entry lib seeds P (idOf lib child) accountMasterHD :=
          ⟨seed, network, _, hP, entryOk_account hlaw hat hchild⟩
        have hwritten := h.withRepos (h.keys.writeKey haccount start.status)
          (keysGrow_writeKey _ _ _ _)
        refine hwritten.setCall (.account ⟨seed, network, path, hP, hentry⟩ haccount ?_) call
        exact held_writeKey s.repos (idOf lib child) accountMasterHD
  · exact hended

theorem LateOk.answerAccount (h : LateOk lib seeds P s) {call : Nat}
    {wallet : BasicWallet NormalAccount} {rootNode accountMasterHD : Node}
    {account : NormalAccount} {write : WriteStatus} {result : Except JsError Unit}
    {keyStart walletStart : WriteStart}
    (hcall : CallOk lib seeds P s.repos (.account wallet rootNode accountMasterHD account write))
    (hanswer : s.answerAccount call wallet rootNode accountMasterHD account write result keyStart
      walletStart = some t) : LateOk lib seeds P t := by
  obtain ⟨⟩ | ⟨hroot, haccount, hheld⟩ | ⟨⟩ := hcall
  simp only [ServiceState.answerAccount] at hanswer
  split at hanswer
  · rename_i hsettled
    obtain rfl := Option.some.inj hanswer
    let late : WriteStatus := if write = .pending then .written else .notStarted
    have hwritten := (h.setCall .ended call).withRepos (h.keys.writeKey haccount late)
      (keysGrow_writeKey s.repos late account.id accountMasterHD)
    have hafter : Held (ServiceState.writeKey s.repos late account.id accountMasterHD)
        account.id := by
      by_cases hpending : write = .pending
      · exact held_writeKey _ _ _ (if_pos hpending)
      · -- a write that does not wait was done when it was asked for
        have hdone : write = .written := by
          cases write <;> simp_all [WriteStatus.settle]
        exact keysGrow_writeKey s.repos late _ _ _ (hheld hdone)
    apply hwritten.saveAndReturn hroot
    · rfl
    · exact .inr ⟨account, rfl, hafter⟩
  · obtain rfl := Option.some.inj hanswer
    exact h.setCall .ended call
  · cases hanswer

theorem LateOk.step (hlaw : lib.Lawful) (h : LateOk lib seeds P s)
    (hP : ∀ seed network, event.creation? seeds = some (seed, network) → P seed network)
    (hreads : ReadsStored s event) (hstep : (lateMachine lib seeds).step s event = some t) :
    LateOk lib seeds P t := by
  cases late_step_cases hstep with
  | create hresolves hstarts hcreation =>
      obtain ⟨seed, network, keyStart, walletStart, hseed, ht⟩ := lateCreation_step hcreation hstep
      rw [ht]
      exact h.create (hP seed network hseed) keyStart walletStart
  | called wallet request =>
      refine ⟨h.keys, fun call hcall => ?_, h.saves⟩
      rcases List.mem_append.mp hcall with hold | hnew
      · exact h.calls call hold
      · rw [List.mem_singleton.mp hnew]
        exact .root wallet request
  | @rootReply call wallet request hcall reply start =>
      refine h.answerRoot hlaw call wallet request (fun rootNode hreply => ?_) start
      subst hreply
      exact hreads wallet request hcall
  | accountSaved hcall hanswer =>
      exact h.answerAccount (h.calls _ (List.mem_of_getElem? hcall)) hanswer
  | @keySettles i save hsave hpending result =>
      have hok := h.saves save (List.mem_of_getElem? hsave)
      have hgrow := keysGrow_writeKey s.repos (save.keyWrite.settle result) save.wallet.id save.key
      refine (h.withRepos (h.keys.writeKey hok.entry _) hgrow).setSave ?_ i
      exact ⟨hok.entry, hok.id_eq, (hok.grow hgrow).added, held_writeKey _ _ _⟩
  | @walletSettles i save hsave hpending result =>
      have hok := h.saves save (List.mem_of_getElem? hsave)
      have hgrow := keysGrow_writeWallet s.repos (save.walletWrite.settle result) save.wallet
      have hwritten := h.withRepos (h.keys.writeWallet _ save.wallet) hgrow
      refine hwritten.setSave ?_ i
      exact ⟨hok.entry, hok.id_eq, (hok.grow hgrow).added, (hok.grow hgrow).held⟩

end Steps

section Runs

variable {lib : HDNodeLib Node} {seeds : SeedLib Node} {s s' : ServiceState Node}
  {events events' : List (ServiceEvent Node)}

def SeededBy (seeds : SeedLib Node) (events : List (ServiceEvent Node)) (seed : Buffer)
    (network : Network) : Prop :=
  ∃ event ∈ events, event.creation? seeds = some (seed, network)

theorem lateOk_run (hlaw : lib.Lawful)
    (hrun : (lateMachine lib seeds).run (.start ⟨.empty, .empty⟩) events = some s)
    (hreads : (lateMachine lib seeds).Within ReadsStored (.start ⟨.empty, .empty⟩) events) :
    LateOk lib seeds (SeededBy seeds events) s := by
  have hstart : LateOk lib seeds (SeededBy seeds events)
      (.start ⟨.empty, .empty⟩ : ServiceState Node) :=
    ⟨keysOk_empty lib seeds _, fun _ h => absurd h List.not_mem_nil,
      fun _ h => absurd h List.not_mem_nil⟩
  have hevents : (lateMachine lib seeds).Within (fun _ event => event ∈ events)
      (.start ⟨.empty, .empty⟩) events :=
    (Machine.within_iff_forall hrun).mpr fun _ => id
  refine Machine.run_invariant_within (fun _ event _ h hevent hstep => ?_) hrun
    (hreads.and hevents) hstart
  exact h.step hlaw (fun seed network hseed => ⟨event, hevent.2, hseed⟩) hevent.1 hstep

/-- However slow the repositories are, whatever they refuse and in whatever
order their writes land, as long as a read finds what has been written: every id
that is held belongs to a path below a seed the run was given, a call that adds
an account resolves only when the account's node is held, and a wallet's own
node is held once its write has ended well.  What is held under an id may depend
on the order, but its public key does not: two runs of any kind agree on it. -/
theorem late_keys_agree (hlaw : lib.Lawful) (hseeds : seeds.Lawful lib)
    (hkeys : seeds.DistinctKeys lib)
    (hrun : (lateMachine lib seeds).run (.start ⟨.empty, .empty⟩) events = some s)
    (hreads : (lateMachine lib seeds).Within ReadsStored (.start ⟨.empty, .empty⟩) events)
    (hrun' : (lateMachine lib seeds).run (.start ⟨.empty, .empty⟩) events' = some s')
    (hreads' : (lateMachine lib seeds).Within ReadsStored (.start ⟨.empty, .empty⟩) events') :
    (∀ id node, s.repos.keyRepo.getHDNode id = some node →
      ∃ seed network path, SeededBy seeds events seed network ∧
        EntryOk lib seeds seed network path id node) ∧
    (∀ save ∈ s.saves,
      (save.keyWrite = .written → Held s.repos save.returned.id) ∧
      (save.returned = save.wallet ∨ ∃ account,
        save.returned.accounts = save.wallet.accounts ++ [account] ∧ Held s.repos account.id)) ∧
    ∀ id pubkey pubkey', s.repos.keyRepo.getPubKey lib id = some pubkey →
      s'.repos.keyRepo.getPubKey lib id = some pubkey' → pubkey = pubkey' := by
  have hok := lateOk_run hlaw hrun hreads
  have hok' := lateOk_run hlaw hrun' hreads'
  refine ⟨hok.keys, fun save hsave => ?_, fun id pubkey pubkey' hpubkey hpubkey' => ?_⟩
  · have hsaved := hok.saves save hsave
    exact ⟨fun hwritten => hsaved.id_eq ▸ hsaved.held hwritten, hsaved.added⟩
  · obtain ⟨node, hnode, rfl⟩ := Option.map_eq_some_iff.mp hpubkey
    obtain ⟨node', hnode', rfl⟩ := Option.map_eq_some_iff.mp hpubkey'
    obtain ⟨seed, network, path, -, hentry⟩ := hok.keys id node hnode
    obtain ⟨seed', network', path', -, hentry'⟩ := hok'.keys id node' hnode'
    rw [hentry.publicKey_eq hseeds hkeys hentry']

theorem create_testnet (s : ServiceState SymbolicNode) (keyStart walletStart : WriteStart) :
    (lateMachine SymbolicNode.lib SymbolicNode.seeds).step s
        (.createFromSeed sampleSeed (some .testnet) none keyStart walletStart) =
      some (s.saveAndReturn seedWallet.2 (seedMaster .testnet) seedWallet.2 keyStart
        walletStart) := by
  simp only [lateMachine, SymbolicNode.fromSeedBuffer_mnemonicToSeed]
  rfl

/-- One seed is used for two networks, and the writes of the nodes land in this
order. -/
def createdTwice (first second : Nat) : List (ServiceEvent SymbolicNode) :=
  [.createFromSeed sampleSeed none none .pending .pending,
    .createFromSeed sampleSeed (some .testnet) none .pending .pending,
    .keySettles first (.ok ()), .keySettles second (.ok ())]

theorem reads_createdTwice (first second : Nat) :
    (lateMachine SymbolicNode.lib SymbolicNode.seeds).Within ReadsStored
      (.start ⟨.empty, .empty⟩) (createdTwice first second) :=
  ⟨trivial, fun _ _ => ⟨trivial, fun _ _ => ⟨trivial, fun _ _ => ⟨trivial, fun _ _ => trivial⟩⟩⟩⟩

theorem run_createdTwice (first second : Nat) {s : ServiceState SymbolicNode}
    (hrun : (lateMachine SymbolicNode.lib SymbolicNode.seeds).run
      (((ServiceState.start ⟨.empty, .empty⟩).saveAndReturn seedWallet.2 (seedMaster .bitcoin)
        seedWallet.2 .pending .pending).saveAndReturn seedWallet.2 (seedMaster .testnet)
          seedWallet.2 .pending .pending)
      [.keySettles first (.ok ()), .keySettles second (.ok ())] = some s) :
    (lateMachine SymbolicNode.lib SymbolicNode.seeds).run (.start ⟨.empty, .empty⟩)
      (createdTwice first second) = some s :=
  (Machine.run_cons_eq_some _).mpr ⟨_, create_bitcoin _ .pending .pending,
    (Machine.run_cons_eq_some _).mpr ⟨_, create_testnet _ .pending .pending, hrun⟩⟩

theorem late_keys_agree_networks : ∃ s s' node node',
    (lateMachine SymbolicNode.lib SymbolicNode.seeds).run (.start ⟨.empty, .empty⟩)
        (createdTwice 0 1) = some s ∧
      (lateMachine SymbolicNode.lib SymbolicNode.seeds).run (.start ⟨.empty, .empty⟩)
        (createdTwice 1 0) = some s' ∧
      s.repos.keyRepo.getHDNode seedWallet.2.id = some node ∧
      s'.repos.keyRepo.getHDNode seedWallet.2.id = some node' ∧ node ≠ node' ∧
      SymbolicNode.lib.getPublicKeyBuffer node = SymbolicNode.lib.getPublicKeyBuffer node' := by
  have hrun := run_createdTwice 0 1 rfl
  have hrun' := run_createdTwice 1 0 rfl
  have hpubkey : ∀ (keyRepo : InMemoryKeyRepository SymbolicNode) node,
      (keyRepo.setHDNode seedWallet.2.id node).getPubKey SymbolicNode.lib seedWallet.2.id =
        some (HexText.ofBytes (SymbolicNode.lib.getPublicKeyBuffer node)) := fun _ _ =>
    congrArg (Option.map _) (InsertionMap.get_set_self _ _ _)
  have hagree := (late_keys_agree SymbolicNode.lib_lawful SymbolicNode.seeds_lawful
    SymbolicNode.seeds_distinctKeys hrun (reads_createdTwice 0 1) hrun'
    (reads_createdTwice 1 0)).2.2 seedWallet.2.id _ _ (hpubkey _ (seedMaster .testnet))
    (hpubkey _ (seedMaster .bitcoin))
  refine ⟨_, _, seedMaster .testnet, seedMaster .bitcoin, hrun, hrun',
    InsertionMap.get_set_self _ _ _, InsertionMap.get_set_self _ _ _, ?_,
    HexText.ofBytes_injective hagree⟩
  simp [seedMaster]

end Runs

end WalletService

end Walletts
