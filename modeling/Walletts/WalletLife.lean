import Walletts.AccountLife
import Walletts.AddressTree
import Walletts.Lib.Components
import Walletts.Lib.TaskList
/-!
# A wallet among its accounts

A wallet that a service has created, and all that can happen to it after that
over the repositories in memory: accounts are added, one after another, each
hands out addresses and pays, and the observables they are subscribed to bring
events of the blockchain.  The accounts share the key repository, which also
answers the imports.  On one observable they also share the delivery of an
event: it goes to their versions in the order in which these have subscribed,
and ends at the first one that throws.
-/

namespace Walletts

open NormalAccountService WalletService VersionTree
open CoinManager (CoinRecord outpointRecord Classified)

variable {Node : Type}

/-- The repositories, the wallet as the last call returned it, what has become
of each of its accounts, and all that is subscribed, each subscriber with the
number of its account. -/
structure WalletLife (Node : Type) where
  repos : Repositories Node
  wallet : BasicWallet NormalAccount
  lives : List AccountLife
  subscribers : List (Nat × SubscribedVersion)

inductive WalletEvent
  | addAccount (request : AccountRequest) (nextRef : ObjRef)
  | blockchain (source : ObjRef) (event : BlockchainEvent)
  | getAddress (account version index : Nat)
  | settle (account k : Nat)
  | pay (account : Nat) (l : PaymentTree.Label)

def WalletEvent.blockchain? : WalletEvent → Option (ObjRef × BlockchainEvent)
  | .blockchain source event => some (source, event)
  | _ => none

theorem WalletEvent.blockchain?_eq_some {event : WalletEvent} {source : ObjRef}
    {arrived : BlockchainEvent} :
    event.blockchain? = some (source, arrived) ↔ event = .blockchain source arrived := by
  cases event <;> simp [WalletEvent.blockchain?]

namespace WalletLife

def start (made : Repositories Node × BasicWallet NormalAccount) : WalletLife Node :=
  ⟨made.1, made.2, [], []⟩

section Machine

variable (lib : HDNodeLib Node) (btc : ScriptLib)

/-- `setNewAccountToWallet` for the wallet that the call before returned. -/
def addAccount (s : WalletLife Node) (request : AccountRequest) (nextRef : ObjRef) :
    WalletLife Node :=
  match (walletMachine lib).step (s.repos, s.wallet) request with
  | some (repos, wallet) =>
      let new := wallet.accounts.drop s.lives.length
      ⟨repos, wallet, s.lives ++ new.map (.start nextRef),
        s.subscribers ++ new.mapIdx fun j a => (s.lives.length + j, ⟨0, a⟩)⟩
  | none => s

def addresses (keyRepo : InMemoryKeyRepository Node) (id : AccountID) (index : Nat) :
    Except JsError (Option String × Option String) := do
  let address ← keyRepo.getAddress lib id [.normal 0, .normal index]
  let changeAddress ← keyRepo.getAddress lib id [.normal 1, .normal index]
  return (address, changeAddress)

def asked (s : WalletLife Node) : WalletEvent → Option (Nat × LifeEvent)
  | .getAddress account version index => do
      let life ← s.lives[account]?
      let a ← life.versions[version]?
      match addresses lib s.repos.keyRepo a.id index with
      | .ok (address, changeAddress) => some (account, .getAddress version address changeAddress)
      -- a derivation that throws ends the call as a missing address does
      | .error _ => some (account, .getAddress version none none)
  | .settle account k => do
      let life ← s.lives[account]?
      let request ← life.imports[k]?
      some (account, .settle k (.ok (s.repos.keyRepo.getPubKey lib request.id)))
  | .pay account l => some (account, .pay l)
  | _ => none

def oneAccount (s : WalletLife Node) (event : WalletEvent) : Option (WalletLife Node) :=
  (s.asked lib event).bind fun ask =>
    s.lives[ask.1]?.bind fun life =>
      ((AccountLife.machine btc).step life ask.2).map fun life' =>
        { s with
          lives := s.lives.set ask.1 life'
          subscribers := s.subscribers ++
            (life'.subscribers.drop life.subscribers.length).map fun l => (ask.1, l) }

def listening (s : WalletLife Node) (source : ObjRef) : List (Nat × SubscribedVersion) :=
  s.subscribers.filter fun p => p.2.account.observableBlockchain = source

def reached (s : WalletLife Node) (source : ObjRef) (event : BlockchainEvent) (i : Nat) : Nat :=
  (Observers.visited (fun p => p.2.throws btc event) (s.listening source)).countP fun p => p.1 = i

def arrives (s : WalletLife Node) (source : ObjRef) (event : BlockchainEvent) : WalletLife Node :=
  { s with
    lives := s.lives.mapIdx fun i life => life.arrives btc event (s.reached btc source event i)
    subscribers := Observers.remaining
      (fun p => p.2.throws btc event && p.2.account.observableBlockchain = source) s.subscribers }

def machine : Machine (WalletLife Node) WalletEvent where
  step s
    | .addAccount request nextRef => some (s.addAccount lib request nextRef)
    | .blockchain source event => some (s.arrives btc source event)
    | event => s.oneAccount lib btc event

/-- What an event of the wallet is for its `i`-th account. -/
def told (i : Nat) (s : WalletLife Node) (event : WalletEvent) : List LifeEvent :=
  if i < s.lives.length then
    (event.blockchain?.toList.map fun e => .blockchain e.2 (s.reached btc e.1 e.2 i)) ++
      ((s.asked lib event).toList.filter fun ask => ask.1 = i).map Prod.snd
  else []

def toldIn (i : Nat) : WalletLife Node → List WalletEvent → List LifeEvent :=
  (machine lib btc).trace (told lib btc i)

end Machine

variable {lib : HDNodeLib Node} {btc : ScriptLib} {s t : WalletLife Node} {event : WalletEvent}
  {events : List WalletEvent}

inductive Step (lib : HDNodeLib Node) (btc : ScriptLib) (s : WalletLife Node) :
    WalletEvent → WalletLife Node → Prop
  | noAccount (request : AccountRequest) (nextRef : ObjRef) :
      Step lib btc s (.addAccount request nextRef) s
  | added {request : AccountRequest} {repos : Repositories Node}
      {wallet : BasicWallet NormalAccount}
      (hadded : (walletMachine lib).step (s.repos, s.wallet) request = some (repos, wallet))
      (nextRef : ObjRef) :
      Step lib btc s (.addAccount request nextRef)
        ⟨repos, wallet, s.lives ++ (wallet.accounts.drop s.lives.length).map (.start nextRef),
          s.subscribers ++ (wallet.accounts.drop s.lives.length).mapIdx
            fun j a => (s.lives.length + j, ⟨0, a⟩)⟩
  | blockchain (source : ObjRef) (event : BlockchainEvent) :
      Step lib btc s (.blockchain source event) (s.arrives btc source event)
  | account {event : WalletEvent} {account : Nat} {own : LifeEvent} {life life' : AccountLife}
      (hevent : event.blockchain? = none) (hasked : s.asked lib event = some (account, own))
      (hlife : s.lives[account]? = some life)
      (hstep : (AccountLife.machine btc).step life own = some life') :
      Step lib btc s event
        { s with
          lives := s.lives.set account life'
          subscribers := s.subscribers ++
            (life'.subscribers.drop life.subscribers.length).map fun l => (account, l) }

theorem step_oneAccount (hevent : event.blockchain? = none)
    (h : s.oneAccount lib btc event = some t) : Step lib btc s event t := by
  obtain ⟨⟨account, own⟩, hasked, h⟩ := Option.bind_eq_some_iff.mp h
  obtain ⟨life, hlife, h⟩ := Option.bind_eq_some_iff.mp h
  obtain ⟨life', hstep, rfl⟩ := Option.map_eq_some_iff.mp h
  exact .account hevent hasked hlife hstep

theorem step_cases (h : (machine lib btc).step s event = some t) : Step lib btc s event t := by
  cases event with
  | addAccount request nextRef =>
      obtain rfl := Option.some.inj h
      cases hadded : (walletMachine lib).step (s.repos, s.wallet) request with
      | none =>
          rw [addAccount, hadded]
          exact .noAccount request nextRef
      | some made =>
          rw [addAccount, hadded]
          exact .added hadded nextRef
  | blockchain source event =>
      obtain rfl := Option.some.inj h
      exact .blockchain source event
  | getAddress account version index => exact step_oneAccount rfl h
  | settle account k => exact step_oneAccount rfl h
  | pay account l => exact step_oneAccount rfl h

/-! ## The accounts run on their own -/

def Fresh (a : NormalAccount) : Prop := a.watchingAddresses = none ∧ a.balance = ⟨0⟩

theorem accounts_added {repos : Repositories Node} {wallet : BasicWallet NormalAccount}
    {request : AccountRequest}
    (h : (walletMachine lib).step (s.repos, s.wallet) request = some (repos, wallet)) :
    ∃ a, wallet.accounts = s.wallet.accounts ++ [a] ∧ Fresh a ∧
      a.observableBlockchain = request.informationSource := by
  obtain ⟨rootNode, accountMasterHD, child, -, -, -, hwallet, -⟩ :=
    setNewAccountToWallet_ok (walletMachine_step h)
  exact ⟨_, congrArg BasicWallet.accounts hwallet, ⟨rfl, rfl⟩, rfl⟩

def Born (s : WalletLife Node) (i : Nat) (life : AccountLife) : Prop :=
  ∃ nextRef a, s.wallet.accounts[i]? = some a ∧ life = .start nextRef a

/-- No account sees the others. -/
theorem composed (lib : HDNodeLib Node) (btc : ScriptLib) :
    Machine.Composed (machine lib btc) (AccountLife.machine btc) lives (told lib btc) Born where
  goes_on := by
    intro s event t i life hstep hlife
    have hlt := (List.getElem?_eq_some_iff.mp hlife).1
    cases step_cases hstep with
    | noAccount request nextRef =>
        rw [told, if_pos hlt]
        exact ⟨life, hlife, rfl⟩
    | added hadded nextRef =>
        rw [told, if_pos hlt]
        exact ⟨life, (List.getElem?_append_left hlt).trans hlife, rfl⟩
    | blockchain source event =>
        rw [told, if_pos hlt]
        refine ⟨life.arrives btc event (s.reached btc source event i), ?_, rfl⟩
        dsimp only [arrives]
        rw [List.getElem?_mapIdx, hlife]
        rfl
    | @account event account own life' life'' hevent hasked hlife' hown =>
        rw [told, if_pos hlt, hevent, hasked]
        by_cases hi : account = i
        · subst hi
          obtain rfl := Option.some.inj (hlife'.symm.trans hlife)
          refine ⟨life'', List.getElem?_set_self hlt, ?_⟩
          simp [hown]
        · refine ⟨life, (List.getElem?_set_ne hi).trans hlife, ?_⟩
          simp [hi]
  born := by
    intro s event t i life hstep hnone hlife
    have hge := List.getElem?_eq_none_iff.mp hnone
    cases step_cases hstep with
    | noAccount request nextRef =>
        rw [hnone] at hlife
        cases hlife
    | added hadded nextRef =>
        rw [List.getElem?_append_right hge, List.getElem?_map, List.getElem?_drop,
          Nat.add_sub_cancel' hge] at hlife
        obtain ⟨a, ha, rfl⟩ := Option.map_eq_some_iff.mp hlife
        exact ⟨nextRef, a, ha, rfl⟩
    | blockchain source event =>
        dsimp only [arrives] at hlife
        rw [List.getElem?_mapIdx, hnone] at hlife
        cases hlife
    | account hevent hasked hlife' hown =>
        rw [List.getElem?_eq_none (by simpa using hge)] at hlife
        cases hlife
  unborn := by
    intro s event i hnone
    exact if_neg (Nat.not_lt.mpr (List.getElem?_eq_none_iff.mp hnone))
  stays_born := by
    rintro s event t i life hstep ⟨nextRef, a, ha, rfl⟩
    refine ⟨nextRef, a, ?_, rfl⟩
    cases step_cases hstep with
    | added hadded nextRef =>
        obtain ⟨new, hnew, -⟩ := accounts_added hadded
        dsimp only
        rw [hnew, List.getElem?_append_left (List.getElem?_eq_some_iff.mp ha).1, ha]
    | noAccount request nextRef => exact ha
    | blockchain source event => exact ha
    | account hevent hasked hlife hown => exact ha

/-! ## The versions of an account among all subscribers -/

/-- The subscribers of the wallet are those of its accounts. -/
structure Listening (s : WalletLife Node) : Prop where
  length_eq : s.lives.length = s.wallet.accounts.length
  inv : ∀ (i : Nat) (life : AccountLife), s.lives[i]? = some life → ∃ a, life.Inv a
  own : ∀ i life, s.lives[i]? = some life →
    (s.subscribers.filter fun p => p.1 = i).map Prod.snd = life.subscribers
  lt : ∀ p ∈ s.subscribers, p.1 < s.lives.length

variable {i : Nat} {life : AccountLife}

theorem Listening.mem_own (h : Listening s) (hlife : s.lives[i]? = some life)
    {p : Nat × SubscribedVersion} (hp : p ∈ s.subscribers) (hi : p.1 = i) :
    p.2 ∈ life.subscribers := by
  rw [← h.own i life hlife]
  exact List.mem_map_of_mem (List.mem_filter.mpr ⟨hp, by simpa using hi⟩)

theorem Listening.listening_cases (h : Listening s) (hlife : s.lives[i]? = some life)
    (source : ObjRef) :
    ((∀ p ∈ s.subscribers, p.1 = i → p.2.account.observableBlockchain = source) ∧
      (s.listening source).filter (fun p => p.1 = i) =
        s.subscribers.filter fun p => p.1 = i) ∨
    ((∀ p ∈ s.subscribers, p.1 = i → p.2.account.observableBlockchain ≠ source) ∧
      (s.listening source).filter (fun p => p.1 = i) = []) := by
  obtain ⟨a, hinv⟩ := h.inv i life hlife
  have hsource : ∀ p ∈ s.subscribers, p.1 = i →
      p.2.account.observableBlockchain = a.observableBlockchain := fun p hp hi =>
    hinv.observableBlockchain_eq (h.mem_own hlife hp hi)
  rw [listening, List.filter_filter]
  by_cases hlistens : a.observableBlockchain = source
  · refine .inl ⟨fun p hp hi => (hsource p hp hi).trans hlistens, ?_⟩
    refine List.filter_congr fun p hp => ?_
    by_cases hi : p.1 = i
    · simp [hi, hsource p hp hi, hlistens]
    · simp [hi]
  · refine .inr ⟨fun p hp hi heq => hlistens ((hsource p hp hi).symm.trans heq), ?_⟩
    refine List.filter_eq_nil_iff.mpr fun p hp => ?_
    by_cases hi : p.1 = i
    · simp [hi, hsource p hp hi, hlistens]
    · simp [hi]

theorem reached_eq_length (btc : ScriptLib) (s : WalletLife Node) (source : ObjRef)
    (event : BlockchainEvent) (i : Nat) : s.reached btc source event i =
      ((Observers.visited (fun p => p.2.throws btc event) (s.listening source)).filter
        fun p => p.1 = i).length :=
  List.countP_eq_length_filter

/-- An event comes to the first versions of an account, in the order in which
they have subscribed. -/
theorem Listening.visited_eq (h : Listening s) (hlife : s.lives[i]? = some life)
    (source : ObjRef) (event : BlockchainEvent) :
    ((Observers.visited (fun p => p.2.throws btc event) (s.listening source)).filter
        fun p => p.1 = i).map Prod.snd =
      life.subscribers.take (s.reached btc source event i) := by
  have htake := Observers.visited_filter_eq_take (fun p => p.2.throws btc event)
    (fun p : Nat × SubscribedVersion => p.1 = i) (s.listening source)
  rw [← reached_eq_length] at htake
  rcases h.listening_cases hlife source with ⟨-, hown⟩ | ⟨-, hnone⟩
  · rw [htake, hown, List.map_take, h.own i life hlife]
  · rw [reached_eq_length, htake, hnone]
    simp

theorem Listening.takers_eq (h : Listening s) (hlife : s.lives[i]? = some life)
    (source : ObjRef) (event : BlockchainEvent) :
    life.takers btc event (s.reached btc source event i) =
      ((Observers.takers (fun p => p.2.throws btc event) (s.listening source)).filter
        fun p => p.1 = i).map Prod.snd := by
  rw [AccountLife.takers, ← h.visited_eq hlife, Observers.takers_map, Observers.takers_filter]

theorem Listening.remaining_eq (h : Listening s) (hlife : s.lives[i]? = some life)
    (source : ObjRef) (event : BlockchainEvent) :
    ((s.arrives btc source event).subscribers.filter fun p => p.1 = i).map Prod.snd =
      (life.arrives btc event (s.reached btc source event i)).subscribers := by
  have hlisteners := Observers.remaining_filter (fun p => p.2.throws btc event)
    (fun p : Nat × SubscribedVersion => p.1 = i) (s.listening source)
  dsimp only [arrives, AccountLife.arrives]
  rw [← h.visited_eq hlife, Observers.remaining_map]
  rcases h.listening_cases hlife source with ⟨hsource, hown⟩ | ⟨hsource, hnone⟩
  · have hsame : ∀ ps : List (Nat × SubscribedVersion), ps ⊆ s.subscribers →
        (ps.filter fun p => p.2.account.observableBlockchain = source).filter (fun p => p.1 = i) =
          ps.filter fun p => p.1 = i := by
      intro ps hps
      rw [List.filter_filter]
      refine List.filter_congr fun p hp => ?_
      by_cases hi : p.1 = i
      · simp [hi, hsource p (hps hp) hi]
      · simp [hi]
    rw [listening, Observers.remaining_of_filter, ← listening,
      hsame _ Observers.remaining_subset] at hlisteners
    rw [hlisteners, hown, List.map_append, List.map_drop, h.own i life hlife, ← reached_eq_length]
  · have hkept := Observers.remaining_filter_of_not
      (fun p => p.2.throws btc event && p.2.account.observableBlockchain = source)
      (fun p : Nat × SubscribedVersion => p.1 = i) s.subscribers
      (fun p hp hi => by simp [hsource p hp (by simpa using hi)])
    have hvisited : (Observers.visited (fun p => p.2.throws btc event)
        (s.listening source)).filter (fun p => p.1 = i) = [] := by
      rw [Observers.visited_filter_eq_take, hnone, List.take_nil]
    rw [hkept, h.own i life hlife, reached_eq_length, hvisited]
    rfl

theorem filter_append_of_ne {ps qs : List (Nat × SubscribedVersion)} (h : ∀ p ∈ qs, p.1 ≠ i) :
    (ps ++ qs).filter (fun p => p.1 = i) = ps.filter fun p => p.1 = i := by
  have hnone : qs.filter (fun p => p.1 = i) = [] :=
    List.filter_eq_nil_iff.mpr fun p hp => by simpa using h p hp
  rw [List.filter_append, hnone, List.append_nil]

theorem asked_ne_blockchain {account : Nat} {own : LifeEvent}
    (hasked : s.asked lib event = some (account, own)) (arrived : BlockchainEvent)
    (reached : Nat) : own ≠ .blockchain arrived reached := by
  cases event with
  | addAccount request nextRef => cases hasked
  | blockchain source event => cases hasked
  | pay account l =>
      cases hasked
      exact nofun
  | settle account k =>
      obtain ⟨life, -, hasked⟩ := Option.bind_eq_some_iff.mp hasked
      obtain ⟨request, -, hasked⟩ := Option.bind_eq_some_iff.mp hasked
      cases hasked
      exact nofun
  | getAddress account version index =>
      obtain ⟨life, -, hasked⟩ := Option.bind_eq_some_iff.mp hasked
      obtain ⟨v, -, hasked⟩ := Option.bind_eq_some_iff.mp hasked
      split at hasked
      · cases hasked
        exact nofun
      · cases hasked
        exact nofun

theorem Listening.added (h : Listening s) {repos : Repositories Node}
    {wallet : BasicWallet NormalAccount} {a : NormalAccount}
    (haccounts : wallet.accounts = s.wallet.accounts ++ [a]) (nextRef : ObjRef) :
    Listening (⟨repos, wallet, s.lives ++ [.start nextRef a],
      s.subscribers ++ [(s.lives.length, ⟨0, a⟩)]⟩ : WalletLife Node) where
  length_eq := by simp [haccounts, h.length_eq]
  inv := by
    intro i life hlife
    rcases Nat.lt_or_ge i s.lives.length with hi | hi
    · exact h.inv i life ((List.getElem?_append_left hi).symm.trans hlife)
    · obtain rfl := List.mem_singleton.mp
        (List.mem_of_getElem? ((List.getElem?_append_right hi).symm.trans hlife))
      exact ⟨a, AccountLife.inv_start nextRef a⟩
  own := by
    intro i life hlife
    rcases Nat.lt_or_ge i s.lives.length with hi | hi
    · rw [filter_append_of_ne (List.forall_mem_singleton.mpr (Nat.ne_of_gt hi))]
      exact h.own i life ((List.getElem?_append_left hi).symm.trans hlife)
    · have hlt := (List.getElem?_eq_some_iff.mp hlife).1
      rw [List.length_append, List.length_singleton] at hlt
      obtain rfl : i = s.lives.length := by omega
      rw [List.getElem?_concat_length] at hlife
      obtain rfl := Option.some.inj hlife
      have hnone : s.subscribers.filter (fun p => p.1 = s.lives.length) = [] :=
        List.filter_eq_nil_iff.mpr fun p hp => by simpa using Nat.ne_of_lt (h.lt p hp)
      rw [List.filter_append, hnone]
      simp [AccountLife.start]
  lt := by
    intro p hp
    rw [List.length_append, List.length_singleton]
    rcases List.mem_append.mp hp with hp | hp
    · exact Nat.lt_succ_of_lt (h.lt p hp)
    · rw [List.mem_singleton.mp hp]
      exact Nat.lt_succ_self _

theorem Listening.account (h : Listening s) {account : Nat} {life' : AccountLife}
    (hlife : s.lives[account]? = some life) (hpre : life.subscribers <+: life'.subscribers)
    {a : NormalAccount} (hinv : life'.Inv a) :
    Listening { s with
      lives := s.lives.set account life'
      subscribers := s.subscribers ++
        (life'.subscribers.drop life.subscribers.length).map fun l => (account, l) } where
  length_eq := by rw [List.length_set, h.length_eq]
  inv := by
    intro i other hother
    by_cases hi : account = i
    · subst hi
      rw [List.getElem?_set_self (List.getElem?_eq_some_iff.mp hlife).1] at hother
      exact Option.some.inj hother ▸ ⟨a, hinv⟩
    · rw [List.getElem?_set_ne hi] at hother
      exact h.inv i other hother
  own := by
    intro i other hother
    by_cases hi : account = i
    · subst hi
      rw [List.getElem?_set_self (List.getElem?_eq_some_iff.mp hlife).1] at hother
      obtain rfl := Option.some.inj hother
      have hall : ∀ ls : List SubscribedVersion, (ls.map fun l => (account, l)).filter
          (fun p => p.1 = account) = ls.map fun l => (account, l) :=
        fun ls => List.filter_eq_self.mpr (by simp)
      rw [List.filter_append, List.map_append, h.own account life hlife, hall, List.map_map]
      obtain ⟨new, hnew⟩ := hpre
      simp [← hnew, Function.comp_def]
    · rw [List.getElem?_set_ne hi] at hother
      have hne : ∀ p ∈ (life'.subscribers.drop life.subscribers.length).map
          (fun l => (account, l)), p.1 ≠ i := by
        intro p hp
        obtain ⟨l, -, rfl⟩ := List.mem_map.mp hp
        exact hi
      rw [filter_append_of_ne hne]
      exact h.own i other hother
  lt := by
    intro p hp
    rw [List.length_set]
    rcases List.mem_append.mp hp with hp | hp
    · exact h.lt p hp
    · obtain ⟨l, -, rfl⟩ := List.mem_map.mp hp
      exact (List.getElem?_eq_some_iff.mp hlife).1

theorem Listening.step (h : Listening s) (hstep : (machine lib btc).step s event = some t) :
    Listening t := by
  cases step_cases hstep with
  | noAccount request nextRef => exact h
  | @added request repos wallet hadded nextRef =>
      obtain ⟨a, haccounts, -⟩ := accounts_added hadded
      have hnew : wallet.accounts.drop s.lives.length = [a] := by
        rw [haccounts, h.length_eq, List.drop_left]
      rw [hnew]
      exact h.added haccounts nextRef
  | blockchain source event =>
      refine ⟨?_, fun i life hlife => ?_, fun i life hlife => ?_, fun p hp => ?_⟩
      · exact List.length_mapIdx.trans h.length_eq
      · obtain ⟨old, hold, rfl⟩ := Option.map_eq_some_iff.mp (List.getElem?_mapIdx ▸ hlife)
        obtain ⟨a, hinv⟩ := h.inv i old hold
        have harrives : (AccountLife.machine btc).step old
            (.blockchain event (s.reached btc source event i)) = some _ := rfl
        exact ⟨a, AccountLife.inv_step hinv harrives⟩
      · obtain ⟨old, hold, rfl⟩ := Option.map_eq_some_iff.mp (List.getElem?_mapIdx ▸ hlife)
        exact h.remaining_eq hold source event
      · exact List.length_mapIdx.symm ▸ h.lt p (Observers.remaining_subset hp)
  | account hevent hasked hlife hown =>
      obtain ⟨a, hinv⟩ := h.inv _ _ hlife
      exact h.account hlife
        (AccountLife.subscribers_prefix (asked_ne_blockchain hasked) hown)
        (AccountLife.inv_step hinv hown)

theorem Listening.run (h : Listening s) (hrun : (machine lib btc).run s events = some t) :
    Listening t :=
  Machine.run_invariant (fun _ _ _ hs hst => hs.step hst) hrun h

theorem listening_start {seeds : SeedLib Node} {r : Repositories Node}
    {made : Repositories Node × BasicWallet NormalAccount} (h : Created lib seeds r made) :
    Listening (start made) := by
  obtain ⟨master, -, haccounts⟩ := walletOk_created h
  refine ⟨?_, fun i life hlife => ?_, fun i life hlife => ?_, fun p hp => ?_⟩
  · rw [start, haccounts]
    rfl
  · cases hlife
  · cases hlife
  · cases hp

end WalletLife

end Walletts
