import Walletts.CallsInTurn
/-!
# Accounts of calls that overlap

The number of a new account is the number of accounts in the wallet that the
call was given, which may be an old one.  This module says when two calls, in
whatever order they overlap, make accounts with one id.
-/

namespace Walletts

open NormalAccountService

variable {Node : Type}

namespace WalletService

def WalletId (lib : HDNodeLib Node) (seeds : SeedLib Node) (P : Buffer → Network → Prop)
    (id : AccountID) : Prop :=
  ∃ seed network master, P seed network ∧ seeds.fromSeedBuffer seed network = .ok master ∧
    id = idOf lib master

def OpenCall.wallet? : OpenCall Node → Option (BasicWallet NormalAccount)
  | .reading wallet _ _ => some wallet
  | .saving wallet _ _ _ _ => some wallet
  | .ended => none

/-- The wallets that calls return and are given were made from the seeds. -/
structure WalletsOk (lib : HDNodeLib Node) (seeds : SeedLib Node) (P : Buffer → Network → Prop)
    (s : MemoryService Node) : Prop where
  returned : ∀ c ∈ s.ended, ∀ wallet, c.result = .ok (some wallet) →
    WalletId lib seeds P wallet.id
  given : ∀ c ∈ s.ended, ∀ wallet (request : AccountRequest), c.call = request.call wallet →
    WalletId lib seeds P wallet.id
  calls : ∀ call ∈ s.calls, ∀ wallet, call.wallet? = some wallet → WalletId lib seeds P wallet.id

/-- What a call that has added an account has derived from the wallet's master
node. -/
structure Added (lib : HDNodeLib Node) (seeds : SeedLib Node) (seed : Buffer) (network : Network)
    (wallet : BasicWallet NormalAccount) (request : AccountRequest)
    (master accountMasterHD child : Node) (made : BasicWallet NormalAccount) : Prop where
  master_eq : seeds.fromSeedBuffer seed network = .ok master
  id_eq : wallet.id = idOf lib master
  derived : lib.derivePath master (accountPath request.cointype wallet.accounts.length) =
    .ok accountMasterHD
  child_eq : lib.deriveHardened accountMasterHD wallet.accounts.length = .ok child
  made_eq : made = ⟨wallet.id, wallet.accounts ++ [newNormalAccount (idOf lib child)
    wallet.accounts.length request.coinManager request.informationSource]⟩

section Steps

variable {lib : HDNodeLib Node} {seeds : SeedLib Node} {P : Buffer → Network → Prop}
  {s t : MemoryService Node} {event : MemoryEvent Node}

theorem call_inj {wallet wallet' : BasicWallet NormalAccount} {request request' : AccountRequest}
    (h : (request.call wallet : ServiceLabel Node) = request'.call wallet') :
    wallet = wallet' ∧ request = request' := by
  cases request
  cases request'
  simp only [AccountRequest.call, ServiceLabel.setNewAccountToWallet.injEq] at h
  obtain ⟨rfl, rfl, rfl, rfl⟩ := h
  exact ⟨rfl, rfl⟩

theorem WalletsOk.ended (h : WalletsOk lib seeds P s) {call : Nat} {old : OpenCall Node}
    {wallet : BasicWallet NormalAccount} (hcall : s.calls[call]? = some old)
    (hwallet : old.wallet? = some wallet) (request : AccountRequest) {result : CallResult}
    (hresult : ∀ made, result = .ok (some made) → made.id = wallet.id) (repos : Repositories Node) :
    WalletsOk lib seeds P
      ⟨repos, s.calls.set call .ended, s.ended ++ [⟨request.call wallet, result⟩]⟩ := by
  have hid := h.calls old (List.mem_of_getElem? hcall) wallet hwallet
  refine ⟨fun c hc made hmade => ?_, fun c hc given request' hgiven => ?_,
    TaskList.forall_mem_set h.calls (by simp [OpenCall.wallet?]) call⟩
  · rcases List.mem_append.mp hc with hold | hnew
    · exact h.returned c hold made hmade
    · rw [List.mem_singleton.mp hnew] at hmade
      exact hresult made hmade ▸ hid
  · rcases List.mem_append.mp hc with hold | hnew
    · exact h.given c hold given request' hgiven
    · rw [List.mem_singleton.mp hnew] at hgiven
      exact (call_inj hgiven).1 ▸ hid

theorem WalletsOk.created (h : WalletsOk lib seeds P s) {l : ServiceLabel Node} {seed : Buffer}
    {network : Network} (hcreation : l.creation? seeds = some (seed, network))
    (hP : P seed network) : WalletsOk lib seeds P (s.created l
      (do return createFromNode lib s.repos (← seeds.fromSeedBuffer seed network))) := by
  refine ⟨fun c hc made hmade => ?_, fun c hc given request hgiven => ?_, h.calls⟩
  · rcases List.mem_append.mp hc with hold | hnew
    · exact h.returned c hold made hmade
    · rw [List.mem_singleton.mp hnew] at hmade
      cases hmaster : seeds.fromSeedBuffer seed network with
      | error e =>
          rw [hmaster] at hmade
          cases hmade
      | ok master =>
          rw [hmaster] at hmade
          cases hmade
          exact ⟨seed, network, master, hP, hmaster, rfl⟩
  · rcases List.mem_append.mp hc with hold | hnew
    · exact h.given c hold given request hgiven
    · rw [List.mem_singleton.mp hnew] at hgiven
      rw [show l = request.call given from hgiven] at hcreation
      cases hcreation

theorem WalletsOk.step (h : WalletsOk lib seeds P s) (hreturned : ReturnedWallet s event)
    (hcreates : event.CreatesIn seeds P) (hstep : (memoryMachine lib seeds).step s event = some t) :
    WalletsOk lib seeds P t := by
  cases memory_step_cases hstep with
  | created hcreation => exact h.created hcreation (hcreates _ _ hcreation)
  | begun wallet request =>
      refine ⟨h.returned, h.given, fun call hcall given hgiven => ?_⟩
      rcases List.mem_append.mp hcall with hold | hnew
      · exact h.calls call hold given hgiven
      · rw [List.mem_singleton.mp hnew] at hgiven
        obtain rfl := Option.some.inj hgiven
        obtain ⟨c, hc, returned, hresult, hid⟩ := hreturned
        exact hid ▸ h.returned c hc returned hresult
  | notFound hcall => exact h.ended hcall rfl _ (by simp) _
  | refused hcall hrefused => exact h.ended hcall rfl _ (by simp) _
  | @written call wallet request rootNode accountMasterHD child hcall hmaster hchild =>
      have hid := h.calls _ (List.mem_of_getElem? hcall) wallet rfl
      refine ⟨h.returned, h.given, TaskList.forall_mem_set h.calls (fun given hgiven => ?_) call⟩
      obtain rfl := Option.some.inj hgiven
      exact hid
  | @saved call wallet request rootNode accountMasterHD account hcall =>
      refine h.ended hcall rfl _ (fun made hmade => ?_) _
      cases hmade
      rfl

theorem added_of_turn (hkeys : seeds.DistinctKeys lib) (hone : OneNetworkEach P)
    {r : Repositories Node} {c : EndedCall Node} (hturn : TurnOk lib seeds P r c)
    {wallet made : BasicWallet NormalAccount} {request : AccountRequest}
    (hcall : c.call = request.call wallet) (hmade : c.result = .ok (some made))
    (hid : WalletId lib seeds P wallet.id) : ∃ seed network master accountMasterHD child,
      P seed network ∧ Added lib seeds seed network wallet request master accountMasterHD child
        made := by
  have hresult := hturn.result.trans hmade
  rw [hcall] at hresult
  obtain ⟨seed, network, master, hP, hmaster, hid⟩ := hid
  cases hset : setNewAccountToWallet lib r wallet request.informationSource request.coinManager
      .normal request.cointype with
  | error e =>
      simp [AccountRequest.call, resultOf, hset, Except.map] at hresult
  | ok saved =>
      obtain ⟨r', returned⟩ := saved
      simp only [AccountRequest.call, resultOf, hset, Except.map, Except.ok.injEq] at hresult
      subst hresult
      obtain ⟨rootNode, accountMasterHD, child, hroot, hderived, hchild, hmade, -⟩ :=
        setNewAccountToWallet_ok hset
      have hentry : Entry lib seeds P wallet.id master :=
        ⟨seed, network, [], hP, hid ▸ entryOk_master hmaster⟩
      obtain rfl := Entry.unique hkeys hone (hturn.keys _ _ hroot) hentry
      exact ⟨seed, network, rootNode, accountMasterHD, child, hP, hmaster, hid, hderived, hchild,
        hmade⟩

theorem Added.at_child (hlaw : lib.Lawful) {seed : Buffer} {network : Network}
    {wallet made : BasicWallet NormalAccount} {request : AccountRequest}
    {master accountMasterHD child : Node}
    (h : Added lib seeds seed network wallet request master accountMasterHD child made) :
    seeds.At lib seed network (pathNumbers request.cointype wallet.accounts.length ++
      [wallet.accounts.length + 2 ^ 31]) child := by
  have hmaster := (SeedLib.at_root h.master_eq).append (hlaw.descend_of_derivePath h.derived)
  apply hmaster.append
  exact (HDNodeLib.descend_singleton _ _).trans (hlaw.derive_of_deriveHardened h.child_eq)

theorem pathNumbers_cointype {cointype cointype' : SupportedCoinType} {k l : Nat} {p q : List Nat}
    (h : pathNumbers cointype k ++ p = pathNumbers cointype' l ++ q) : cointype = cointype' := by
  cases cointype <;> cases cointype' <;>
    simp [pathNumbers, accountPath, PathStep.number, SupportedCoinType.value] at h ⊢

/-- Two accounts have one id exactly if they are derived from one master node for
the same number and coin type. -/
theorem Added.id_eq_iff (hlaw : lib.Lawful) (hkeys : seeds.DistinctKeys lib)
    (hone : OneNetworkEach P) {seed seed' : Buffer} {network network' : Network}
    {wallet wallet' made made' : BasicWallet NormalAccount} {request request' : AccountRequest}
    {master master' accountMasterHD accountMasterHD' child child' : Node}
    (hP : P seed network) (hP' : P seed' network')
    (h : Added lib seeds seed network wallet request master accountMasterHD child made)
    (h' : Added lib seeds seed' network' wallet' request' master' accountMasterHD' child' made') :
    idOf lib child = idOf lib child' ↔ wallet.id = wallet'.id ∧
      wallet.accounts.length = wallet'.accounts.length ∧ request.cointype = request'.cointype := by
  constructor
  · intro hid
    obtain ⟨rfl, hpath⟩ := hkeys _ _ _ _ _ _ _ _ (h.at_child hlaw) (h'.at_child hlaw)
      (HexText.ofBytes_injective hid)
    obtain rfl := hone seed network network' hP hP'
    obtain rfl := Except.ok.inj (h.master_eq.symm.trans h'.master_eq)
    exact ⟨h.id_eq.trans h'.id_eq.symm, (pathNumbers_inj hpath).1, pathNumbers_cointype hpath⟩
  · rintro ⟨hid, hlength, hcointype⟩
    have hroot : Entry lib seeds P wallet.id master :=
      ⟨seed, network, [], hP, h.id_eq ▸ entryOk_master h.master_eq⟩
    have hroot' : Entry lib seeds P wallet.id master' :=
      ⟨seed', network', [], hP', hid ▸ h'.id_eq ▸ entryOk_master h'.master_eq⟩
    obtain rfl := Entry.unique hkeys hone hroot hroot'
    have hderived := h.derived
    rw [hlength, hcointype, h'.derived] at hderived
    obtain rfl := Except.ok.inj hderived
    have hchild := h.child_eq
    rw [hlength, h'.child_eq] at hchild
    rw [Except.ok.inj hchild]

end Steps

section Runs

variable {lib : HDNodeLib Node} {seeds : SeedLib Node} {s : MemoryService Node}
  {events : List (MemoryEvent Node)}

theorem walletsOk_run (hrun : (memoryMachine lib seeds).run .start events = some s)
    (hreturned : (memoryMachine lib seeds).Within ReturnedWallet .start events) :
    WalletsOk lib seeds (CreatedIn seeds (callsOf events)) s := by
  have hstart : WalletsOk lib seeds (CreatedIn seeds (callsOf events)) .start :=
    ⟨fun _ hc => absurd hc List.not_mem_nil, fun _ hc => absurd hc List.not_mem_nil,
      fun _ hcall => absurd hcall List.not_mem_nil⟩
  exact Machine.run_invariant_within (fun _ _ _ h hevent hstep => h.step hevent.1 hevent.2 hstep)
    hrun (hreturned.and (createsIn_callsOf hrun)) hstart

/-- However the calls overlap, two of them that have added an account have made
accounts with one id exactly if they were given wallets with the same id and as
many accounts, and the same coin type. -/
theorem overlapping_accounts (hlaw : lib.Lawful) (hkeys : seeds.DistinctKeys lib)
    (hrun : (memoryMachine lib seeds).run .start events = some s)
    (hreturned : (memoryMachine lib seeds).Within ReturnedWallet .start events)
    (hone : OneNetworkEach (CreatedIn seeds (callsOf events))) {c c' : EndedCall Node}
    (hc : c ∈ s.ended) (hc' : c' ∈ s.ended) {wallet wallet' made made' : BasicWallet NormalAccount}
    {request request' : AccountRequest} (hcall : c.call = request.call wallet)
    (hmade : c.result = .ok (some made)) (hcall' : c'.call = request'.call wallet')
    (hmade' : c'.result = .ok (some made')) :
    ∃ account account', made = ⟨wallet.id, wallet.accounts ++ [account]⟩ ∧
      made' = ⟨wallet'.id, wallet'.accounts ++ [account']⟩ ∧
      (account.id = account'.id ↔ wallet.id = wallet'.id ∧
        wallet.accounts.length = wallet'.accounts.length ∧
          request.cointype = request'.cointype) := by
  obtain ⟨r, hturns, hwithin, -⟩ := turn_run hlaw hkeys hrun hreturned hone
  have hwallets := walletsOk_run hrun hreturned
  obtain ⟨u, hturn⟩ := hwithin.exists_of_mem hturns hc
  obtain ⟨u', hturn'⟩ := hwithin.exists_of_mem hturns hc'
  obtain ⟨seed, network, master, accountMasterHD, child, hP, h⟩ := added_of_turn hkeys hone hturn
    hcall hmade (hwallets.given c hc wallet request hcall)
  obtain ⟨seed', network', master', accountMasterHD', child', hP', h'⟩ := added_of_turn hkeys
    hone hturn' hcall' hmade' (hwallets.given c' hc' wallet' request' hcall')
  exact ⟨_, _, h.made_eq, h'.made_eq, h.id_eq_iff hlaw hkeys hone hP hP' h'⟩

theorem overlapping_accounts_coin_types : ∃ s btc eth,
    (memoryMachine SymbolicNode.lib SymbolicNode.seeds).run .start overlappingAdds = some s ∧
      (s.ended.map EndedCall.result).tail = [.ok (some ⟨seedWallet.2.id, [eth]⟩),
        .ok (some ⟨seedWallet.2.id, [btc]⟩)] ∧ eth.id ≠ btc.id := by
  obtain ⟨s, ⟨hrun, hreturned⟩, -, btc, eth, hended⟩ := run_overlappingAdds
  have hmem := fun c => congrArg (c ∈ ·) hended
  simp only [List.mem_cons, List.not_mem_nil, or_false, eq_iff_iff] at hmem
  obtain ⟨account, account', hmade, hmade', hids⟩ := overlapping_accounts SymbolicNode.lib_lawful
    SymbolicNode.seeds_distinctKeys hrun hreturned overlappingAdds_oneNetwork
    ((hmem _).mpr (.inr (.inl rfl))) ((hmem _).mpr (.inr (.inr rfl))) rfl rfl rfl rfl
  have heth : eth = account := (List.cons.inj (congrArg BasicWallet.accounts hmade)).1
  have hbtc : btc = account' := (List.cons.inj (congrArg BasicWallet.accounts hmade')).1
  refine ⟨s, btc, eth, hrun, by rw [hended]; rfl, fun hid => ?_⟩
  rw [heth, hbtc] at hid
  exact absurd (hids.mp hid).2.2 (by decide)

end Runs

end WalletService

end Walletts
