import Walletts.Overlap
import Walletts.LateKeys
import Walletts.Lib.Serial
/-!
# Calls in turn

A call of `setNewAccountToWallet` writes back the root node it has read before
it waited.  This module says when calls that overlap still end with what the same
calls end with one after another, and save the same: the order is that in which
they end.
-/

namespace Walletts

open NormalAccountService

variable {Node : Type}

namespace WalletService

/-! ## The calls one after another -/

def resultOf (lib : HDNodeLib Node) (seeds : SeedLib Node) (r : Repositories Node) :
    ServiceLabel Node → CallResult
  | .createNew entropy network =>
      (createNew lib seeds r entropy network).map fun made => some made.2
  | .createFromSeed seed network passPhrase =>
      (createFromSeed lib seeds r seed network passPhrase).map fun made => some made.2
  | .setNewAccountToWallet wallet informationSource coinManager cointype =>
      (setNewAccountToWallet lib r wallet informationSource coinManager .normal cointype).map
        Prod.snd
  -- a call of the account service
  | .createFromHD _ _ _ _ => .ok none

def turnMachine (lib : HDNodeLib Node) (seeds : SeedLib Node) :
    Machine (Repositories Node) (EndedCall Node) where
  step r ended := (serviceMachine lib seeds).step r ended.call

/-! ## What the repositories hold -/

section Repositories

variable {lib : HDNodeLib Node} {seeds : SeedLib Node} {P : Buffer → Network → Prop}
  {r r' : Repositories Node} {id : AccountID}

def OneNetworkEach (P : Buffer → Network → Prop) : Prop :=
  ∀ seed network network', P seed network → P seed network' → network = network'

theorem Entry.unique (hkeys : seeds.DistinctKeys lib) (hone : OneNetworkEach P) {a b : Node}
    (ha : Entry lib seeds P id a) (hb : Entry lib seeds P id b) : a = b := by
  obtain ⟨seed, network, path, hP, ha⟩ := ha
  obtain ⟨seed', network', path', hP', hb⟩ := hb
  obtain ⟨rfl, rfl⟩ := ha.path_eq hkeys hb
  obtain rfl := hone seed network network' hP hP'
  exact ha.kept.unique hb.kept

theorem KeysOk.getHDNode_eq (hkeys : seeds.DistinctKeys lib) (hone : OneNetworkEach P)
    (hok : KeysOk lib seeds P r) (hok' : KeysOk lib seeds P r') {node : Node}
    (hnode : r.keyRepo.getHDNode id = some node) (hheld : Held r' id) :
    r'.keyRepo.getHDNode id = some node := by
  obtain ⟨node', hnode'⟩ := hheld
  rw [hnode', Entry.unique hkeys hone (hok' id node' hnode') (hok id node hnode)]

theorem KeysOk.setHDNode (h : KeysOk lib seeds P r) {key : Node}
    (hentry : Entry lib seeds P id key) (repo : InMemoryWalletRepo) :
    KeysOk lib seeds P ⟨r.keyRepo.setHDNode id key, repo⟩ :=
  h.writeKey hentry .written

theorem Entry.account (hlaw : lib.Lawful) {wallet : BasicWallet NormalAccount}
    {cointype : SupportedCoinType} {rootNode accountMasterHD child : Node}
    (h : Entry lib seeds P wallet.id rootNode)
    (hmaster : lib.derivePath rootNode (accountPath cointype wallet.accounts.length) =
      .ok accountMasterHD)
    (hchild : lib.deriveHardened accountMasterHD wallet.accounts.length = .ok child) :
    Entry lib seeds P (idOf lib child) accountMasterHD := by
  obtain ⟨seed, network, path, hP, hroot⟩ := h
  have hbelow := hroot.kept.append (hlaw.descend_of_derivePath hmaster)
  exact ⟨seed, network, _, hP, entryOk_account hlaw hbelow hchild⟩

theorem held_setHDNode (r : Repositories Node) (id : AccountID) (key : Node)
    (repo : InMemoryWalletRepo) (id' : AccountID) :
    Held ⟨r.keyRepo.setHDNode id key, repo⟩ id' ↔ Held r id' ∨ id' = id := by
  have hget : (r.keyRepo.setHDNode id key).getHDNode id' =
      if id' = id then some key else r.keyRepo.getHDNode id' := InsertionMap.get_set _ _ _ _
  unfold Held
  rw [hget]
  by_cases h : id' = id
  · simp [h]
  · simp [h]

theorem held_save (r : Repositories Node) (wallet : BasicWallet NormalAccount) (key : Node)
    (id : AccountID) : Held (save r wallet key) id ↔ Held r id ∨ id = wallet.id :=
  held_setHDNode r wallet.id key _ id

theorem load_save (r : Repositories Node) (wallet : BasicWallet NormalAccount) (key : Node)
    (id : AccountID) : (save r wallet key).repo.load id =
      if id = wallet.id then some wallet else r.repo.load id :=
  InsertionMap.get_set _ _ _ _

theorem setNewAccountToWallet_refused {wallet : BasicWallet NormalAccount}
    {request : AccountRequest} {rootNode : Node} {e : JsError}
    (hroot : r.keyRepo.getHDNode wallet.id = some rootNode)
    (hrefused : (do
      let accountMasterHD ←
        lib.derivePath rootNode (accountPath request.cointype wallet.accounts.length)
      lib.deriveHardened accountMasterHD wallet.accounts.length) = .error e) :
    setNewAccountToWallet lib r wallet request.informationSource request.coinManager .normal
      request.cointype = .error e := by
  rw [setNewAccountToWallet_eq hroot]
  cases hmaster : lib.derivePath rootNode (accountPath request.cointype wallet.accounts.length) with
  | error e' =>
      rw [hmaster] at hrefused
      obtain rfl := Except.error.inj hrefused
      rfl
  | ok accountMasterHD =>
      simp only [hmaster, bind, Except.bind] at hrefused ⊢
      rw [hrefused]

theorem setNewAccountToWallet_saved {wallet : BasicWallet NormalAccount}
    {request : AccountRequest} {rootNode accountMasterHD child : Node}
    (hroot : r.keyRepo.getHDNode wallet.id = some rootNode)
    (hmaster : lib.derivePath rootNode (accountPath request.cointype wallet.accounts.length) =
      .ok accountMasterHD)
    (hchild : lib.deriveHardened accountMasterHD wallet.accounts.length = .ok child) :
    setNewAccountToWallet lib r wallet request.informationSource request.coinManager .normal
      request.cointype =
        .ok (save ⟨r.keyRepo.setHDNode (idOf lib child) accountMasterHD, r.repo⟩ wallet rootNode,
          some ⟨wallet.id, wallet.accounts ++ [newNormalAccount (idOf lib child)
            wallet.accounts.length request.coinManager request.informationSource]⟩) := by
  rw [setNewAccountToWallet_eq hroot, hmaster]
  simp only [bind, Except.bind, hchild]
  rfl

theorem turn_created (lib : HDNodeLib Node) (r : Repositories Node) {l : ServiceLabel Node}
    {seed : Buffer} {network : Network} (hcreation : l.creation? seeds = some (seed, network)) :
    (serviceMachine lib seeds).step r l = some (savedBy r
        (do return createFromNode lib r (← seeds.fromSeedBuffer seed network))) ∧
      resultOf lib seeds r l =
        (seeds.fromSeedBuffer seed network).map fun node => some ⟨idOf lib node, []⟩ := by
  have hresult : ((do return createFromNode lib r (← seeds.fromSeedBuffer seed network) :
      Except JsError (Repositories Node × BasicWallet NormalAccount)).map fun made =>
        some made.2) = (seeds.fromSeedBuffer seed network).map fun node =>
          some (⟨idOf lib node, []⟩ : BasicWallet NormalAccount) := by
    cases seeds.fromSeedBuffer seed network <;> rfl
  cases l with
  | createNew entropy network =>
      cases hcreation
      exact ⟨rfl, hresult⟩
  | createFromSeed words network passPhrase =>
      cases hcreation
      exact ⟨rfl, hresult⟩
  | setNewAccountToWallet => cases hcreation
  | createFromHD => cases hcreation

end Repositories

/-! ## In turn -/

/-- A call that waits goes on in the state of the calls in turn as it would in
its own: the root node is there. -/
inductive OpenOk (lib : HDNodeLib Node) (r : Repositories Node) : OpenCall Node → Prop
  | reading {wallet : BasicWallet NormalAccount} {request : AccountRequest} {rootNode : Node}
      (hroot : r.keyRepo.getHDNode wallet.id = some rootNode) :
      OpenOk lib r (.reading wallet request (some rootNode))
  | saving {wallet : BasicWallet NormalAccount} {request : AccountRequest}
      {rootNode accountMasterHD child : Node}
      (hroot : r.keyRepo.getHDNode wallet.id = some rootNode)
      (hmaster : lib.derivePath rootNode (accountPath request.cointype wallet.accounts.length) =
        .ok accountMasterHD)
      (hchild : lib.deriveHardened accountMasterHD wallet.accounts.length = .ok child) :
      OpenOk lib r (.saving wallet request rootNode accountMasterHD
        (newNormalAccount (idOf lib child) wallet.accounts.length request.coinManager
          request.informationSource))
  | ended : OpenOk lib r .ended

/-- The calls that overlap have left what those that have ended leave in turn,
apart from the accounts of the calls that wait. -/
structure Serial (lib : HDNodeLib Node) (seeds : SeedLib Node) (P : Buffer → Network → Prop)
    (s : MemoryService Node) (r : Repositories Node) : Prop where
  keys : KeysOk lib seeds P s.repos
  turnKeys : KeysOk lib seeds P r
  load : ∀ id, s.repos.repo.load id = r.repo.load id
  held : ∀ id, Held s.repos id ↔ Held r id ∨ Awaited s.calls id
  calls : ∀ call ∈ s.calls, OpenOk lib r call
  returned : ∀ c ∈ s.ended, ∀ wallet, c.result = .ok (some wallet) → Held r wallet.id

/-- The wallet an account is added to has the id of one that a call has
returned. -/
def ReturnedWallet (s : MemoryService Node) : MemoryEvent Node → Prop
  | .call (.setNewAccountToWallet wallet _ _ _) =>
      ∃ c ∈ s.ended, ∃ returned, c.result = .ok (some returned) ∧ returned.id = wallet.id
  | _ => True

def MemoryEvent.CreatesIn (seeds : SeedLib Node) (P : Buffer → Network → Prop) :
    MemoryEvent Node → Prop
  | .call l => ∀ seed network, l.creation? seeds = some (seed, network) → P seed network
  | .resume _ => True

/-- The call ends with this in turn as well, and in a state whose keys belong to
the seeds. -/
structure TurnOk (lib : HDNodeLib Node) (seeds : SeedLib Node) (P : Buffer → Network → Prop)
    (r : Repositories Node) (ended : EndedCall Node) : Prop where
  keys : KeysOk lib seeds P r
  result : resultOf lib seeds r ended.call = ended.result

section Turns

variable {lib : HDNodeLib Node} {seeds : SeedLib Node} {P : Buffer → Network → Prop}
  {s t : MemoryService Node} {r r' : Repositories Node}

theorem OpenOk.grow {call : OpenCall Node} (h : OpenOk lib r call)
    (hgrow : ∀ id node, r.keyRepo.getHDNode id = some node →
      r'.keyRepo.getHDNode id = some node) : OpenOk lib r' call := by
  cases h with
  | reading hroot => exact .reading (hgrow _ _ hroot)
  | saving hroot hmaster hchild => exact .saving (hgrow _ _ hroot) hmaster hchild
  | ended => exact .ended

theorem serial_start (lib : HDNodeLib Node) (seeds : SeedLib Node)
    (P : Buffer → Network → Prop) : Serial lib seeds P .start ⟨.empty, .empty⟩ where
  keys := keysOk_empty lib seeds P
  turnKeys := keysOk_empty lib seeds P
  load := fun _ => rfl
  held := fun id => by simp [MemoryService.start, Awaited]
  calls := fun _ hcall => absurd hcall List.not_mem_nil
  returned := fun _ hc => absurd hc List.not_mem_nil

theorem awaited_set {calls : List (OpenCall Node)} {call : Nat} {old : OpenCall Node}
    (h : calls[call]? = some old) (new : OpenCall Node) (id : AccountID) :
    Awaited (calls.set call new) id ∨ old.account? = some id ↔
      Awaited calls id ∨ new.account? = some id :=
  TaskList.exists_mem_set_or h new

theorem Serial.thrown (h : Serial lib seeds P s r) (l : ServiceLabel Node) (e : JsError) :
    Serial lib seeds P ⟨s.repos, s.calls, s.ended ++ [⟨l, .error e⟩]⟩ r where
  keys := h.keys
  turnKeys := h.turnKeys
  load := h.load
  held := h.held
  calls := h.calls
  returned := by
    intro c hc wallet hresult
    rcases List.mem_append.mp hc with hold | hnew
    · exact h.returned c hold wallet hresult
    · rw [List.mem_singleton.mp hnew] at hresult
      cases hresult

theorem Serial.refused (h : Serial lib seeds P s r) {call : Nat}
    {wallet : BasicWallet NormalAccount} {request : AccountRequest} {rootNode : Option Node}
    (hcall : s.calls[call]? = some (.reading wallet request rootNode)) (e : JsError) :
    Serial lib seeds P (s.endCall call wallet request (.error e)) r where
  keys := h.keys
  turnKeys := h.turnKeys
  load := h.load
  held := by
    intro id
    have hset := awaited_set hcall .ended id
    simp only [OpenCall.account?, reduceCtorEq, or_false] at hset
    exact (h.held id).trans (or_congr_right hset.symm)
  calls := TaskList.forall_mem_set h.calls .ended call
  returned := (h.thrown (request.call wallet) e).returned

theorem OpenOk.setHDNode (hkeys : seeds.DistinctKeys lib) (hone : OneNetworkEach P)
    {call : OpenCall Node} (h : OpenOk lib r call) (hok : KeysOk lib seeds P r) {id : AccountID}
    {key : Node} (hentry : Entry lib seeds P id key) (repo : InMemoryWalletRepo) :
    OpenOk lib ⟨r.keyRepo.setHDNode id key, repo⟩ call :=
  h.grow fun id' _ hnode => hok.getHDNode_eq hkeys hone (hok.setHDNode hentry repo) hnode
    ((held_setHDNode r id key repo id').mpr (.inl ⟨_, hnode⟩))

theorem Serial.begun (hkeys : seeds.DistinctKeys lib) (hone : OneNetworkEach P)
    (h : Serial lib seeds P s r) {wallet : BasicWallet NormalAccount} {request : AccountRequest}
    (hreturned : ReturnedWallet s (.call (request.call wallet))) :
    Serial lib seeds P ⟨s.repos,
      s.calls ++ [.reading wallet request (s.repos.keyRepo.getHDNode wallet.id)], s.ended⟩ r where
  keys := h.keys
  turnKeys := h.turnKeys
  load := h.load
  held := by
    intro id
    simpa [Awaited, or_and_right, exists_or, OpenCall.account?] using h.held id
  calls := by
    intro call hcall
    rcases List.mem_append.mp hcall with hold | hnew
    · exact h.calls call hold
    · obtain ⟨c, hc, returned, hresult, hid⟩ := hreturned
      obtain ⟨rootNode, hroot⟩ : Held r wallet.id := hid ▸ h.returned c hc returned hresult
      have hstored : s.repos.keyRepo.getHDNode wallet.id = some rootNode :=
        h.turnKeys.getHDNode_eq hkeys hone h.keys hroot ((h.held _).mpr (.inl ⟨_, hroot⟩))
      rw [List.mem_singleton.mp hnew, hstored]
      exact .reading hroot
  returned := h.returned

theorem Serial.written (hlaw : lib.Lawful) (h : Serial lib seeds P s r) {call : Nat}
    {wallet : BasicWallet NormalAccount} {request : AccountRequest}
    {rootNode accountMasterHD child : Node}
    (hcall : s.calls[call]? = some (.reading wallet request (some rootNode)))
    (hmaster : lib.derivePath rootNode (accountPath request.cointype wallet.accounts.length) =
      .ok accountMasterHD)
    (hchild : lib.deriveHardened accountMasterHD wallet.accounts.length = .ok child) :
    Serial lib seeds P
      ⟨⟨s.repos.keyRepo.setHDNode (idOf lib child) accountMasterHD, s.repos.repo⟩,
        s.calls.set call (.saving wallet request rootNode accountMasterHD
          (newNormalAccount (idOf lib child) wallet.accounts.length request.coinManager
            request.informationSource)),
        s.ended⟩ r := by
  cases h.calls _ (List.mem_of_getElem? hcall) with
  | reading hroot =>
      have hentry := Entry.account hlaw (h.turnKeys _ _ hroot) hmaster hchild
      refine ⟨h.keys.setHDNode hentry _, h.turnKeys, h.load, fun id => ?_,
        TaskList.forall_mem_set h.calls (.saving hroot hmaster hchild) call, h.returned⟩
      have hset := awaited_set hcall (.saving wallet request rootNode accountMasterHD
        (newNormalAccount (idOf lib child) wallet.accounts.length request.coinManager
          request.informationSource)) id
      simp only [OpenCall.account?, newNormalAccount, reduceCtorEq, or_false,
        Option.some.injEq] at hset
      rw [held_setHDNode, h.held id, or_assoc, eq_comm (a := id)]
      exact or_congr_right hset.symm

theorem Serial.account (hkeys : seeds.DistinctKeys lib) (hone : OneNetworkEach P)
    (h : Serial lib seeds P s r) {call : Nat} {wallet : BasicWallet NormalAccount}
    {request : AccountRequest} {rootNode accountMasterHD : Node} {account : NormalAccount}
    (hcall : s.calls[call]? = some (.saving wallet request rootNode accountMasterHD account))
    (hentry : Entry lib seeds P account.id accountMasterHD) :
    Serial lib seeds P ⟨s.repos, s.calls.set call .ended, s.ended⟩
      ⟨r.keyRepo.setHDNode account.id accountMasterHD, r.repo⟩ where
  keys := h.keys
  turnKeys := h.turnKeys.setHDNode hentry r.repo
  load := h.load
  held := by
    intro id
    have hset := awaited_set hcall .ended id
    simp only [OpenCall.account?, reduceCtorEq, or_false, Option.some.injEq] at hset
    rw [h.held id, ← hset, held_setHDNode, or_assoc, eq_comm (a := id), or_comm (b := _ = _)]
  calls := TaskList.forall_mem_set
    (fun c hc => (h.calls c hc).setHDNode hkeys hone h.turnKeys hentry r.repo) .ended call
  returned := fun c hc wallet hresult =>
    (held_setHDNode r account.id accountMasterHD r.repo wallet.id).mpr
      (.inl (h.returned c hc wallet hresult))

theorem Serial.save (hkeys : seeds.DistinctKeys lib) (hone : OneNetworkEach P)
    (h : Serial lib seeds P s r) (wallet : BasicWallet NormalAccount) {key : Node}
    (hentry : Entry lib seeds P wallet.id key) (accounts : List NormalAccount)
    (l : ServiceLabel Node) :
    Serial lib seeds P
      ⟨WalletService.save s.repos wallet key, s.calls,
        s.ended ++ [⟨l, .ok (some ⟨wallet.id, accounts⟩)⟩]⟩
      (WalletService.save r wallet key) where
  keys := h.keys.setHDNode hentry _
  turnKeys := h.turnKeys.setHDNode hentry _
  load := fun id => by rw [load_save, load_save, h.load id]
  held := fun id => by rw [held_save, held_save, h.held id, or_right_comm]
  calls := fun c hc => (h.calls c hc).setHDNode hkeys hone h.turnKeys hentry _
  returned := by
    intro c hc wallet' hresult
    rw [held_save]
    rcases List.mem_append.mp hc with hold | hnew
    · exact .inl (h.returned c hold wallet' hresult)
    · rw [List.mem_singleton.mp hnew] at hresult
      cases hresult
      exact .inr rfl

theorem Serial.created (hkeys : seeds.DistinctKeys lib) (hone : OneNetworkEach P)
    (h : Serial lib seeds P s r) {seed : Buffer} {network : Network} (hP : P seed network)
    (l : ServiceLabel Node) :
    Serial lib seeds P
      (s.created l (do return createFromNode lib s.repos (← seeds.fromSeedBuffer seed network)))
      (savedBy r (do return createFromNode lib r (← seeds.fromSeedBuffer seed network))) := by
  cases hnode : seeds.fromSeedBuffer seed network with
  | error e => exact h.thrown l e
  | ok node =>
      exact h.save hkeys hone ⟨idOf lib node, []⟩
        ⟨seed, network, [], hP, entryOk_master hnode⟩ [] l

/-- The calls in the order in which they end, each with what it resolves with or
throws, are calls in turn. -/
theorem memory_serializes (hlaw : lib.Lawful) (hkeys : seeds.DistinctKeys lib)
    (hone : OneNetworkEach P) :
    Machine.Serializes (memoryMachine lib seeds) (turnMachine lib seeds) MemoryService.ended
      (Serial lib seeds P) (fun s event => ReturnedWallet s event ∧ event.CreatesIn seeds P)
      (TurnOk lib seeds P) where
  step := by
    intro s event t r h hevent hstep
    cases memory_step_cases hstep with
    | @created l seed network hcreation =>
        obtain ⟨hturn, hresult⟩ := turn_created lib r hcreation
        refine .inr ⟨_, _, rfl, hturn, ⟨h.turnKeys, hresult.trans ?_⟩,
          h.created hkeys hone (hevent.2 _ _ hcreation) l⟩
        cases seeds.fromSeedBuffer seed network <;> rfl
    | begun wallet request => exact .inl ⟨rfl, h.begun hkeys hone hevent.1⟩
    | notFound hcall => nomatch h.calls _ (List.mem_of_getElem? hcall)
    | @refused call wallet request rootNode e hcall hrefused =>
        cases h.calls _ (List.mem_of_getElem? hcall) with
        | reading hroot =>
            have hturn := setNewAccountToWallet_refused hroot hrefused
            exact .inr ⟨_, r, rfl, congrArg (fun made => some (savedBy r made)) hturn,
              ⟨h.turnKeys, congrArg (Except.map Prod.snd) hturn⟩, h.refused hcall e⟩
    | written hcall hmaster hchild => exact .inl ⟨rfl, h.written hlaw hcall hmaster hchild⟩
    | @saved call wallet request rootNode accountMasterHD account hcall =>
        cases h.calls _ (List.mem_of_getElem? hcall) with
        | saving hroot hmaster hchild =>
            have hturn := setNewAccountToWallet_saved hroot hmaster hchild
            have hentry := h.turnKeys _ _ hroot
            have haccount := h.account hkeys hone hcall
              (Entry.account hlaw hentry hmaster hchild)
            exact .inr ⟨_, _, rfl, congrArg (fun made => some (savedBy r made)) hturn,
              ⟨h.turnKeys, congrArg (Except.map Prod.snd) hturn⟩,
              haccount.save hkeys hone wallet hentry _ _⟩

end Turns

/-! ## Runs -/

section Runs

variable {lib : HDNodeLib Node} {seeds : SeedLib Node} {s t : MemoryService Node}
  {event : MemoryEvent Node} {events : List (MemoryEvent Node)}

theorem createsIn_callsOf (hrun : (memoryMachine lib seeds).run s events = some t) :
    (memoryMachine lib seeds).Within
      (fun _ event => event.CreatesIn seeds (CreatedIn seeds (callsOf events))) s events := by
  rw [Machine.within_iff_forall hrun]
  intro event hevent
  cases event with
  | call l => exact fun seed network hl => ⟨l, List.mem_filterMap.mpr ⟨_, hevent, rfl⟩, hl⟩
  | resume call => trivial

theorem turn_run (hlaw : lib.Lawful) (hkeys : seeds.DistinctKeys lib)
    (hrun : (memoryMachine lib seeds).run .start events = some s)
    (hreturned : (memoryMachine lib seeds).Within ReturnedWallet .start events)
    (hone : OneNetworkEach (CreatedIn seeds (callsOf events))) :
    ∃ r, (turnMachine lib seeds).run ⟨.empty, .empty⟩ s.ended = some r ∧
      (turnMachine lib seeds).Within (TurnOk lib seeds (CreatedIn seeds (callsOf events)))
        ⟨.empty, .empty⟩ s.ended ∧
      Serial lib seeds (CreatedIn seeds (callsOf events)) s r := by
  obtain ⟨ks, r, hended, hturns, hresults, h⟩ := (memory_serializes hlaw hkeys hone).run hrun
    (hreturned.and (createsIn_callsOf hrun)) (serial_start lib seeds _)
  obtain rfl : s.ended = ks := hended
  exact ⟨r, hturns, hresults, h⟩

/-- However the calls of a service overlap, over the repositories in memory, none
is lost, those that have ended stay in the order in which they did, and what
they have ended with is what the same calls end with one after another in that
order.  What has been saved is the same as well, but for the nodes of accounts
that a call which waits has written.  The accounts are added to wallets that were
returned, and no seed is used for two networks. -/
theorem overlapping_calls_in_turn (hlaw : lib.Lawful) (hkeys : seeds.DistinctKeys lib)
    (hrun : (memoryMachine lib seeds).run .start events = some s)
    (hreturned : (memoryMachine lib seeds).Within ReturnedWallet .start events)
    (hone : OneNetworkEach (CreatedIn seeds (callsOf events))) :
    s.made = (callsOf events : Multiset (ServiceLabel Node)) ∧
    (∀ earlier u, earlier <+: events → (memoryMachine lib seeds).run .start earlier = some u →
      u.ended <+: s.ended) ∧
    ∃ r, (turnMachine lib seeds).run ⟨.empty, .empty⟩ s.ended = some r ∧
      (turnMachine lib seeds).Within
        (fun r ended => resultOf lib seeds r ended.call = ended.result) ⟨.empty, .empty⟩ s.ended ∧
      (∀ id, s.repos.repo.load id = r.repo.load id) ∧
      (∀ id node, r.keyRepo.getHDNode id = some node →
        s.repos.keyRepo.getHDNode id = some node) ∧
      ∀ id, Held s.repos id → Held r id ∨ Awaited s.calls id := by
  refine ⟨(made_run hrun).trans (zero_add _), ?_, ?_⟩
  · rintro earlier u ⟨later, rfl⟩ hearlier
    rw [Machine.run_append, hearlier] at hrun
    exact ended_run hrun
  · obtain ⟨r, hturns, hresults, h⟩ := turn_run hlaw hkeys hrun hreturned hone
    refine ⟨r, hturns, hresults.mono fun _ _ h => h.result, h.load, fun id node hnode => ?_,
      fun id => (h.held id).mp⟩
    exact h.turnKeys.getHDNode_eq hkeys hone h.keys hnode ((h.held id).mpr (.inl ⟨node, hnode⟩))

/-! ## A wallet whose accounts are added at the same time -/

theorem resume_reading {call : Nat} {wallet : BasicWallet NormalAccount}
    {request : AccountRequest} {rootNode accountMasterHD child : Node}
    (hcall : s.calls[call]? = some (.reading wallet request (some rootNode)))
    (hmaster : lib.derivePath rootNode (accountPath request.cointype wallet.accounts.length) =
      .ok accountMasterHD)
    (hchild : lib.deriveHardened accountMasterHD wallet.accounts.length = .ok child) :
    (memoryMachine lib seeds).step s (.resume call) = some
      ⟨⟨s.repos.keyRepo.setHDNode (idOf lib child) accountMasterHD, s.repos.repo⟩,
        s.calls.set call (.saving wallet request rootNode accountMasterHD
          (newNormalAccount (idOf lib child) wallet.accounts.length request.coinManager
            request.informationSource)),
        s.ended⟩ := by
  simp only [memoryMachine, hcall, MemoryService.afterRead, hmaster, createFromHD, bind,
    Except.bind, hchild]
  rfl

theorem resume_saving {call : Nat} {wallet : BasicWallet NormalAccount} {request : AccountRequest}
    {rootNode accountMasterHD : Node} {account : NormalAccount}
    (hcall : s.calls[call]? = some (.saving wallet request rootNode accountMasterHD account)) :
    (memoryMachine lib seeds).step s (.resume call) =
      some (s.afterSave call wallet request rootNode account) := by
  simp only [memoryMachine, hcall]

theorem begin_reading {wallet : BasicWallet NormalAccount} {request : AccountRequest}
    {rootNode : Node} (hroot : s.repos.keyRepo.getHDNode wallet.id = some rootNode) :
    (memoryMachine lib seeds).step s (.call (request.call wallet)) =
      some ⟨s.repos, s.calls ++ [.reading wallet request (some rootNode)], s.ended⟩ := by
  simp only [memoryMachine, AccountRequest.call, hroot]

theorem call_createFromSeed_sampleSeed (s : MemoryService SymbolicNode) (network : Option Network) :
    (memoryMachine SymbolicNode.lib SymbolicNode.seeds).step s
        (.call (.createFromSeed sampleSeed network none)) =
      some ⟨save s.repos seedWallet.2 (seedMaster (network.getD .bitcoin)), s.calls,
        s.ended ++ [⟨.createFromSeed sampleSeed network none, .ok (some seedWallet.2)⟩]⟩ := by
  simp only [memoryMachine, createFromSeed_sampleSeed]
  rfl

/-- Two calls add an account to the same wallet, and the second one ends first. -/
def overlappingAdds : List (MemoryEvent SymbolicNode) :=
  [.call (.createFromSeed sampleSeed none none),
    .call ((sampleRequest .btc).call seedWallet.2), .call ((sampleRequest .eth).call seedWallet.2),
    .resume 0, .resume 1, .resume 1, .resume 0]

theorem overlappingAdds_oneNetwork :
    OneNetworkEach (CreatedIn SymbolicNode.seeds (callsOf overlappingAdds)) := by
  simp +contextual [OneNetworkEach, CreatedIn, callsOf, overlappingAdds, MemoryEvent.call?,
    AccountRequest.call, ServiceLabel.creation?]

theorem run_overlappingAdds : ∃ s,
    ((memoryMachine SymbolicNode.lib SymbolicNode.seeds).run .start overlappingAdds = some s ∧
      (memoryMachine SymbolicNode.lib SymbolicNode.seeds).Within ReturnedWallet .start
        overlappingAdds) ∧
    s.calls = [.ended, .ended] ∧ ∃ btc eth,
      s.ended = [⟨.createFromSeed sampleSeed none none, .ok (some seedWallet.2)⟩,
        ⟨(sampleRequest .eth).call seedWallet.2, .ok (some ⟨seedWallet.2.id, [eth]⟩)⟩,
        ⟨(sampleRequest .btc).call seedWallet.2, .ok (some ⟨seedWallet.2.id, [btc]⟩)⟩] := by
  have hroot : seedWallet.1.keyRepo.getHDNode seedWallet.2.id = some (seedMaster .bitcoin) :=
    InsertionMap.get_set_self _ _ _
  obtain ⟨btc, btcChild, hbtc, hbtcChild⟩ := exists_account SymbolicNode.lib_lawful
    (seedMaster .bitcoin) .btc (by decide : 0 < 2 ^ 31)
  obtain ⟨eth, ethChild, heth, hethChild⟩ := exists_account SymbolicNode.lib_lawful
    (seedMaster .bitcoin) .eth (by decide : 0 < 2 ^ 31)
  exact ⟨_, Machine.run_within_cons (call_createFromSeed_sampleSeed _ none) trivial <|
    Machine.run_within_cons (begin_reading hroot)
      ⟨_, List.mem_singleton_self _, _, rfl, rfl⟩ <|
    Machine.run_within_cons (begin_reading hroot)
      ⟨_, List.mem_singleton_self _, _, rfl, rfl⟩ <|
    Machine.run_within_cons (resume_reading rfl hbtc hbtcChild) trivial <|
    Machine.run_within_cons (resume_reading rfl heth hethChild) trivial <|
    Machine.run_within_cons (resume_saving rfl) trivial <|
    Machine.run_within_cons (resume_saving rfl) trivial ⟨rfl, trivial⟩, rfl, _, _, rfl⟩

theorem overlapping_calls_in_turn_adds : ∃ s r,
    (memoryMachine SymbolicNode.lib SymbolicNode.seeds).run .start overlappingAdds = some s ∧
      (turnMachine SymbolicNode.lib SymbolicNode.seeds).run ⟨.empty, .empty⟩ s.ended = some r ∧
      ∀ id, Held s.repos id ↔ Held r id := by
  obtain ⟨s, ⟨hrun, hreturned⟩, hcalls, -⟩ := run_overlappingAdds
  obtain ⟨-, -, r, hturns, -, -, hkept, hheld⟩ := overlapping_calls_in_turn
    SymbolicNode.lib_lawful SymbolicNode.seeds_distinctKeys hrun hreturned
    overlappingAdds_oneNetwork
  refine ⟨s, r, hrun, hturns, fun id => ⟨fun h => (hheld id h).resolve_right ?_, ?_⟩⟩
  · simp [Awaited, hcalls, OpenCall.account?]
  · rintro ⟨node, hnode⟩
    exact ⟨node, hkept id node hnode⟩

/-- The seed is used for another network while a call waits. -/
def networkBetween : List (MemoryEvent SymbolicNode) :=
  [.call (.createFromSeed sampleSeed none none),
    .call ((sampleRequest .btc).call seedWallet.2),
    .call (.createFromSeed sampleSeed (some .testnet) none), .resume 0, .resume 0]

/-- Then the call puts the node back that it has read, and the one in between is
lost; in turn it would have found that one, and kept it. -/
theorem networkBetween_loses_node : ∃ s r,
    (memoryMachine SymbolicNode.lib SymbolicNode.seeds).run .start networkBetween = some s ∧
      (turnMachine SymbolicNode.lib SymbolicNode.seeds).run ⟨.empty, .empty⟩ s.ended = some r ∧
      s.repos.keyRepo.getHDNode seedWallet.2.id = some (seedMaster .bitcoin) ∧
      r.keyRepo.getHDNode seedWallet.2.id = some (seedMaster .testnet) := by
  have hroot (r : Repositories SymbolicNode) (network : Network) :
      (save r seedWallet.2 (seedMaster network)).keyRepo.getHDNode seedWallet.2.id =
        some (seedMaster network) := InsertionMap.get_set_self _ _ _
  obtain ⟨main, mainChild, hmain, hmainChild⟩ := exists_account SymbolicNode.lib_lawful
    (seedMaster .bitcoin) .btc (by decide : 0 < 2 ^ 31)
  obtain ⟨test, testChild, htest, htestChild⟩ := exists_account SymbolicNode.lib_lawful
    (seedMaster .testnet) (sampleRequest .btc).cointype
    (by decide : seedWallet.2.accounts.length < 2 ^ 31)
  have hturn (r : Repositories SymbolicNode) :=
    setNewAccountToWallet_saved (hroot r .testnet) htest htestChild
  refine ⟨_, _, (Machine.run_cons_eq_some _).mpr ⟨_, call_createFromSeed_sampleSeed _ none,
    (Machine.run_cons_eq_some _).mpr ⟨_, begin_reading (hroot _ .bitcoin),
    (Machine.run_cons_eq_some _).mpr ⟨_, call_createFromSeed_sampleSeed _ (some .testnet),
    (Machine.run_cons_eq_some _).mpr ⟨_, resume_reading rfl hmain hmainChild,
    (Machine.run_cons_eq_some _).mpr ⟨_, resume_saving rfl, rfl⟩⟩⟩⟩⟩,
    (Machine.run_cons_eq_some _).mpr ⟨_, step_createFromSeed_sampleSeed _ none,
    (Machine.run_cons_eq_some _).mpr ⟨_, step_createFromSeed_sampleSeed _ (some .testnet),
    (Machine.run_cons_eq_some _).mpr
      ⟨_, congrArg (fun made => some (savedBy _ made)) (hturn _), rfl⟩⟩⟩,
    hroot _ .bitcoin, hroot _ .testnet⟩

end Runs

end WalletService

end Walletts
