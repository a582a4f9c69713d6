import Walletts.Ledger
import Walletts.PaymentTree
import Walletts.Lib.DeferredStore
import Walletts.Lib.Observers
/-!
# An account among payments, addresses and blocks

`Session` lets an account hand out addresses while transactions arrive, and
`PaymentTree` lets it pay.  Here both happen to one account in any order, next
to the blocks and reorgs that its subscription also brings.  A payment that
resolves makes a version that listens to the blockchain like every other, so
the payments of an account decide how often later outputs are taken in.  A
version that throws on an event does not listen any more, and those that have
subscribed after it miss the event.
-/

namespace Walletts

open NormalAccount NormalAccountService VersionTree
open CoinManager (CoinRecord outpointRecord Classified)

inductive VersionChange
  | issued (address changeAddress : String)
  | paid (amount : Int)

namespace VersionChange

def apply (a : NormalAccount) : VersionChange → NormalAccount
  | .issued address changeAddress =>
      { a with
        watchingAddresses := some (a.watchingAddresses.getD [] ++ [address, changeAddress]) }
  | .paid amount => lowered a amount

def addresses : VersionChange → List String
  | .issued address changeAddress => [address, changeAddress]
  | .paid _ => []

def spent : VersionChange → Int
  | .issued _ _ => 0
  | .paid amount => amount

theorem balance_apply (a : NormalAccount) (d : VersionChange) :
    (apply a d).balance.amount = a.balance.amount - d.spent := by
  cases d with
  | issued address changeAddress => exact (sub_zero _).symm
  | paid amount => rfl

theorem watching_apply (a : NormalAccount) (d : VersionChange) :
    (apply a d).watchingAddresses.getD [] = a.watchingAddresses.getD [] ++ d.addresses := by
  cases d with
  | issued address changeAddress => rfl
  | paid amount => exact (List.append_nil _).symm

theorem watching_foldl (a : NormalAccount) (line : List VersionChange) :
    (line.foldl apply a).watchingAddresses.getD [] =
      a.watchingAddresses.getD [] ++ line.flatMap addresses := by
  induction line generalizing a with
  | nil => simp
  | cons d line ih => rw [List.foldl_cons, ih, watching_apply, List.flatMap_cons, List.append_assoc]

theorem coinManager_foldl (a : NormalAccount) (line : List VersionChange) :
    (line.foldl apply a).coinManager = a.coinManager ∧ (line.foldl apply a).id = a.id := by
  induction line generalizing a with
  | nil => exact ⟨rfl, rfl⟩
  | cons d line ih =>
      rw [List.foldl_cons, (ih _).1, (ih _).2]
      cases d <;> exact ⟨rfl, rfl⟩

theorem observableBlockchain_foldl (a : NormalAccount) (line : List VersionChange) :
    (line.foldl apply a).observableBlockchain = a.observableBlockchain := by
  induction line generalizing a with
  | nil => rfl
  | cons d line ih =>
      rw [List.foldl_cons, ih]
      cases d <;> rfl

end VersionChange

structure SubscribedVersion where
  version : Nat
  account : NormalAccount
  deriving DecidableEq

def SubscribedVersion.throws (btc : ScriptLib) (event : BlockchainEvent)
    (l : SubscribedVersion) : Bool :=
  match handleUpdate btc l.account event with
  | .ok _ => false
  | .error _ => true

theorem SubscribedVersion.throws_transaction {btc : ScriptLib} {tx : Transaction}
    {l : SubscribedVersion} :
    l.throws btc (.transaction tx) = true ↔ ¬ Decodes btc l.account.watchingAddresses tx.outs := by
  unfold SubscribedVersion.throws
  by_cases h : Decodes btc l.account.watchingAddresses tx.outs
  · rw [handleUpdate_transaction h]
    exact iff_of_false Bool.false_ne_true (not_not_intro h)
  · obtain ⟨e, he⟩ := handleUpdate_error h
    rw [he]
    exact iff_of_true rfl h

/-- The coins and the imports that wait for their key, the versions of the
account and which of them are subscribed, the payments begun from them, and how
each version after the first was made. -/
structure AccountLife where
  manager : CoinManager
  versions : List NormalAccount
  subscribers : List SubscribedVersion
  imports : List ImportRequest
  payments : List TreeCall
  made : List (Nat × VersionChange)

/-- An event of the blockchain comes to the first `reached` of the versions that
are subscribed, unless one of them throws.  It may end before, at a subscriber
that is not of this account. -/
inductive LifeEvent
  | getAddress (version : Nat) (address changeAddress : Option String)
  | blockchain (event : BlockchainEvent) (reached : Nat)
  | settle (k : Nat) (reply : Except JsError (Option String))
  | pay (l : PaymentTree.Label)

def LifeEvent.offered : LifeEvent → List String
  | .getAddress _ address changeAddress => address.toList ++ changeAddress.toList
  | _ => []

namespace AccountLife

def start (ref : ObjRef) (a : NormalAccount) : AccountLife :=
  ⟨.new ref, [a], [⟨0, a⟩], [], [], []⟩

def session (s : AccountLife) : Session := ⟨s.manager, s.versions, s.imports⟩

/-- The payments, as far as those that have resolved are already in `made`. -/
def tree (s : AccountLife) : PaymentTree := ⟨s.versions, s.payments, []⟩

section Machine

variable (btc : ScriptLib)

def takers (s : AccountLife) (event : BlockchainEvent) (reached : Nat) : List SubscribedVersion :=
  Observers.takers (SubscribedVersion.throws btc event) (s.subscribers.take reached)

def thrower (s : AccountLife) (event : BlockchainEvent) (reached : Nat) :
    Option SubscribedVersion :=
  Observers.thrower (SubscribedVersion.throws btc event) (s.subscribers.take reached)

def requests (s : AccountLife) (event : BlockchainEvent) (reached : Nat) : List ImportRequest :=
  Session.requests btc ((s.takers btc event reached).map SubscribedVersion.account) event

def arrives (s : AccountLife) (event : BlockchainEvent) (reached : Nat) : AccountLife :=
  { s with
    subscribers :=
      Observers.remaining (SubscribedVersion.throws btc event) (s.subscribers.take reached) ++
        s.subscribers.drop reached
    imports := s.imports ++ s.requests btc event reached }

def machine : Machine AccountLife LifeEvent where
  step s
    | .getAddress version address changeAddress =>
        s.versions[version]?.map fun a =>
          match withAddresses a address changeAddress with
          | .ok (a', addr, change) =>
              { s with
                versions := s.versions ++ [a']
                subscribers := s.subscribers ++ [⟨s.versions.length, a'⟩]
                made := s.made ++ [(version, .issued addr change)] }
          | .error _ => s
    | .blockchain event reached => some (s.arrives btc event reached)
    | .settle k reply =>
        ((Session.machine btc).step s.session (.settle k reply)).map fun t =>
          { s with manager := t.manager, imports := t.pending }
    | .pay l =>
        (PaymentTree.machine.step s.tree l).map fun t =>
          { s with
            versions := t.versions
            subscribers :=
              s.subscribers ++ (t.versions.mapIdx SubscribedVersion.mk).drop s.versions.length
            payments := t.calls
            made := s.made ++ t.resolved.map fun d => (d.1, .paid d.2) }

end Machine

variable {btc : ScriptLib} {s t : AccountLife} {event : LifeEvent} {events : List LifeEvent}

inductive Step (btc : ScriptLib) (s : AccountLife) : LifeEvent → AccountLife → Prop
  | refused (version : Nat) (address changeAddress : Option String) :
      Step btc s (.getAddress version address changeAddress) s
  | issued {version : Nat} {a : NormalAccount} (addr change : String)
      (ha : s.versions[version]? = some a) :
      Step btc s (.getAddress version (some addr) (some change))
        { s with
          versions := s.versions ++ [VersionChange.apply a (.issued addr change)]
          subscribers := s.subscribers ++
            [⟨s.versions.length, VersionChange.apply a (.issued addr change)⟩]
          made := s.made ++ [(version, .issued addr change)] }
  | blockchain (event : BlockchainEvent) (reached : Nat) :
      Step btc s (.blockchain event reached) (s.arrives btc event reached)
  | settle {k : Nat} {request : ImportRequest} (reply : Except JsError (Option String))
      (hrequest : s.imports[k]? = some request) :
      Step btc s (.settle k reply)
        { s with
          manager := Session.settleManager btc s.manager request reply
          imports := s.imports.eraseIdx k }
  | began {version : Nat} {a : NormalAccount} (amount : Int) (destinations : List OuterEntity)
      (env : PayEnvironment) (ha : s.versions[version]? = some a) :
      Step btc s (.pay (.pay version amount destinations env))
        { s with payments := s.payments ++
          [⟨version, a, amount, destinations, env, payStart a amount⟩] }
  | advanced {i : Nat} {c : TreeCall} {call : PayCall} {l : PayLabel}
      (hc : s.payments[i]? = some c) (hcall : c.machine.step c.call l = some call) :
      Step btc s (.pay (.advance i l))
        { s with payments := s.payments.set i { c with call := call } }
  | paid {i : Nat} {c : TreeCall} {call : PayCall} {l : PayLabel}
      (hc : s.payments[i]? = some c) (hcall : c.machine.step c.call l = some call)
      (hchoosing : c.call.status = .choosing) :
      Step btc s (.pay (.advance i l))
        { s with
          versions := s.versions ++ [VersionChange.apply c.account (.paid c.amount)]
          subscribers := s.subscribers ++
            [⟨s.versions.length, VersionChange.apply c.account (.paid c.amount)⟩]
          payments := s.payments.set i { c with call := call }
          made := s.made ++ [(c.version, .paid c.amount)] }

theorem subscribers_none (versions : List NormalAccount) :
    (versions.mapIdx SubscribedVersion.mk).drop versions.length = [] :=
  List.drop_of_length_le (by simp)

theorem step_cases (h : (machine btc).step s event = some t) : Step btc s event t := by
  cases event with
  | getAddress version address changeAddress =>
      obtain ⟨a, ha, rfl⟩ := Option.map_eq_some_iff.mp h
      cases hmade : withAddresses a address changeAddress with
      | error e => exact .refused version address changeAddress
      | ok made =>
          obtain ⟨rfl, rfl, haccount⟩ := withAddresses_ok hmade
          dsimp only
          rw [haccount]
          exact .issued made.2.1 made.2.2 ha
  | blockchain event reached =>
      obtain rfl := Option.some.inj h
      exact .blockchain event reached
  | settle k reply =>
      obtain ⟨u, hu, rfl⟩ := Option.map_eq_some_iff.mp h
      obtain ⟨request, hrequest, rfl⟩ := Option.map_eq_some_iff.mp hu
      exact .settle reply hrequest
  | pay l =>
      obtain ⟨u, hu, rfl⟩ := Option.map_eq_some_iff.mp h
      cases l with
      | pay version amount destinations env =>
          obtain ⟨a, ha, rfl⟩ := Option.map_eq_some_iff.mp hu
          simpa [tree, subscribers_none] using Step.began amount destinations env ha
      | advance i l =>
          obtain ⟨c, hc, hu⟩ := Option.bind_eq_some_iff.mp hu
          obtain ⟨call, hcall, rfl⟩ := Option.map_eq_some_iff.mp hu
          rcases PaymentTree.advanced_cases (s := s.tree) (i := i) hcall with heq | ⟨hchoosing, heq⟩
          · rw [heq]
            simpa [tree, subscribers_none] using Step.advanced hc hcall
          · rw [heq]
            simpa [tree, VersionChange.apply] using Step.paid hc hcall hchoosing

theorem subscribers_prefix (hevent : ∀ arrived reached, event ≠ .blockchain arrived reached)
    (hstep : (machine btc).step s event = some t) : s.subscribers <+: t.subscribers := by
  cases step_cases hstep with
  | blockchain arrived reached => exact absurd rfl (hevent arrived reached)
  | issued addr change ha => exact List.prefix_append _ _
  | paid hc hcall hchoosing => exact List.prefix_append _ _
  | refused => exact List.prefix_rfl
  | settle reply hrequest => exact List.prefix_rfl
  | began amount destinations env ha => exact List.prefix_rfl
  | advanced hc hcall => exact List.prefix_rfl

theorem settle_step (btc : ScriptLib) {k : Nat} {request : ImportRequest}
    (hrequest : s.imports[k]? = some request) (reply : Except JsError (Option String)) :
    ∃ t, (machine btc).step s (.settle k reply) = some t ∧ t.imports = s.imports.eraseIdx k := by
  simp [machine, Session.machine, session, hrequest]

/-! ## The versions -/

/-- The versions descend from the first account, no payment has left one below
zero, each payment belongs to the version it was begun from, and what waits is
for this account.  What is subscribed are versions of it. -/
structure Inv (a : NormalAccount) (s : AccountLife) : Prop where
  first : s.versions[0]? = some a
  descent : Descent VersionChange.apply s.versions s.made
  nonneg : 0 ≤ a.balance.amount → ∀ v ∈ s.versions, 0 ≤ v.balance.amount
  calls : ∀ c ∈ s.payments, PaymentTree.CallOk s.versions c
  imports : ∀ request ∈ s.imports, request.id = a.id
  subscribers : ∀ l ∈ s.subscribers, s.versions[l.version]? = some l.account

theorem inv_start (ref : ObjRef) (a : NormalAccount) : Inv a (start ref a) where
  first := rfl
  descent := .root a
  nonneg := by
    intro h v hv
    obtain rfl := List.mem_singleton.mp hv
    exact h
  calls := fun _ hc => absurd hc List.not_mem_nil
  imports := fun _ hrequest => absurd hrequest List.not_mem_nil
  subscribers := List.forall_mem_singleton.mpr rfl

theorem Inv.derive {a : NormalAccount} (h : Inv a s) {p : Nat} {v : NormalAccount}
    (hp : s.versions[p]? = some v) (d : VersionChange)
    (hnonneg : 0 ≤ v.balance.amount → 0 ≤ (VersionChange.apply v d).balance.amount) :
    Inv a { s with
      versions := s.versions ++ [VersionChange.apply v d]
      subscribers := s.subscribers ++ [⟨s.versions.length, VersionChange.apply v d⟩]
      made := s.made ++ [(p, d)] } where
  first := by
    have hpos := (List.getElem?_eq_some_iff.mp h.first).1
    rw [List.getElem?_append_left hpos, h.first]
  descent := h.descent.derive d hp
  nonneg := by
    intro hfirst u hu
    rcases List.mem_append.mp hu with hu | hu
    · exact h.nonneg hfirst u hu
    · rw [List.mem_singleton.mp hu]
      exact hnonneg (h.nonneg hfirst v (List.mem_of_getElem? hp))
  calls := fun c hc => (h.calls c hc).append _
  imports := h.imports
  subscribers := by
    intro l hl
    rcases List.mem_append.mp hl with hl | hl
    · have hold := h.subscribers l hl
      exact (List.getElem?_append_left (List.getElem?_eq_some_iff.mp hold).1).trans hold
    · rw [List.mem_singleton.mp hl]
      exact List.getElem?_concat_length

theorem Inv.withCall {a : NormalAccount} (h : Inv a s) (payments : List TreeCall)
    {c : TreeCall} (hc : PaymentTree.CallOk s.versions c)
    (hmem : ∀ c' ∈ payments, c' ∈ s.payments ∨ c' = c) :
    Inv a { s with payments := payments } where
  first := h.first
  descent := h.descent
  nonneg := h.nonneg
  calls := by
    intro c' hc'
    rcases hmem c' hc' with hold | rfl
    · exact h.calls c' hold
    · exact hc
  imports := h.imports
  subscribers := h.subscribers

theorem Inv.id_eq {a : NormalAccount} (h : Inv a s) {v : NormalAccount} (hv : v ∈ s.versions) :
    v.id = a.id := by
  obtain ⟨k, hk⟩ := List.getElem?_of_mem hv
  rw [h.descent.value_eq h.first hk]
  exact (VersionChange.coinManager_foldl a _).2

theorem Inv.observableBlockchain_eq {a : NormalAccount} (h : Inv a s) {l : SubscribedVersion}
    (hl : l ∈ s.subscribers) : l.account.observableBlockchain = a.observableBlockchain := by
  rw [h.descent.value_eq h.first (h.subscribers l hl)]
  exact VersionChange.observableBlockchain_foldl a _

theorem requests_transaction (btc : ScriptLib) (s : AccountLife) (tx : Transaction)
    (reached : Nat) : s.requests btc (.transaction tx) reached =
      (s.takers btc (.transaction tx) reached).map fun l => ⟨l.account.id, tx.outpoints⟩ := by
  have hdecode : ∀ v ∈ (s.takers btc (.transaction tx) reached).map SubscribedVersion.account,
      Decodes btc v.watchingAddresses tx.outs := by
    intro v hv
    obtain ⟨l, hl, rfl⟩ := List.mem_map.mp hv
    by_contra hnot
    have hthrows := Observers.throws_of_mem_takers hl
    rw [SubscribedVersion.throws_transaction.mpr hnot] at hthrows
    cases hthrows
  rw [requests, Session.requests_eq, List.filter_eq_self.mpr (by simpa using hdecode),
    List.map_map]
  rfl

theorem requests_eq_nil {event : BlockchainEvent} (h : ∀ tx, event ≠ .transaction tx)
    (reached : Nat) : s.requests btc event reached = [] := by
  rw [requests, Session.requests, List.filterMap_eq_nil_iff]
  intro a _
  cases event with
  | transaction tx => exact absurd rfl (h tx)
  | block => rfl
  | reorg height => rfl

theorem mem_requests {event : BlockchainEvent} {reached : Nat} {request : ImportRequest}
    (h : request ∈ s.requests btc event reached) : ∃ tx, event = .transaction tx ∧
      ∃ l ∈ s.subscribers, request = ⟨l.account.id, tx.outpoints⟩ := by
  cases event with
  | transaction tx =>
      rw [requests_transaction] at h
      obtain ⟨l, hl, rfl⟩ := List.mem_map.mp h
      exact ⟨tx, rfl, l, List.mem_of_mem_take (Observers.takers_subset hl), rfl⟩
  | block =>
      rw [requests_eq_nil (by simp)] at h
      cases h
  | reorg height =>
      rw [requests_eq_nil (by simp)] at h
      cases h

theorem subscribers_arrives_subset (btc : ScriptLib) (s : AccountLife) (event : BlockchainEvent)
    (reached : Nat) : (s.arrives btc event reached).subscribers ⊆ s.subscribers := by
  intro l hl
  rcases List.mem_append.mp hl with hl | hl
  · exact List.mem_of_mem_take (Observers.remaining_subset hl)
  · exact List.mem_of_mem_drop hl

theorem inv_step {a : NormalAccount} (h : Inv a s) (hstep : (machine btc).step s event = some t) :
    Inv a t := by
  cases step_cases hstep with
  | refused => exact h
  | issued addr change ha =>
      refine h.derive ha (.issued addr change) fun hv => ?_
      rw [VersionChange.balance_apply, VersionChange.spent, sub_zero]
      exact hv
  | blockchain event reached =>
      refine ⟨h.first, h.descent, h.nonneg, h.calls, fun request hrequest => ?_, fun l hl =>
        h.subscribers l (subscribers_arrives_subset btc s event reached hl)⟩
      rcases List.mem_append.mp hrequest with hold | hnew
      · exact h.imports request hold
      · obtain ⟨tx, -, l, hl, rfl⟩ := mem_requests hnew
        exact h.id_eq (List.mem_of_getElem? (h.subscribers l hl))
  | settle reply hrequest =>
      exact ⟨h.first, h.descent, h.nonneg, h.calls, fun request hmem =>
        h.imports request (List.mem_of_mem_eraseIdx hmem), h.subscribers⟩
  | began amount destinations env ha =>
      refine h.withCall _ (PaymentTree.callOk_payStart ha amount destinations env) fun c hc => ?_
      exact (List.mem_append.mp hc).imp_right List.mem_singleton.mp
  | advanced hc hcall =>
      have hok := (h.calls _ (List.mem_of_getElem? hc)).step hcall
      exact h.withCall _ hok fun _ => List.mem_or_eq_of_mem_set
  | @paid i c call l hc hcall hchoosing =>
      have hok := h.calls c (List.mem_of_getElem? hc)
      have hpaid := h.withCall (s.payments.set i { c with call := call }) (hok.step hcall)
        fun _ => List.mem_or_eq_of_mem_set
      exact hpaid.derive hok.version_eq (.paid c.amount) fun _ => by
        rw [VersionChange.balance_apply]
        exact sub_nonneg.mpr (hok.let_through hchoosing)

theorem inv_run {a : NormalAccount} (hrun : (machine btc).run s events = some t) (h : Inv a s) :
    Inv a t :=
  Machine.run_invariant (fun _ _ _ hs hst => inv_step hs hst) hrun h

theorem Inv.watched_step {a : NormalAccount} (h : Inv a s)
    (hstep : (machine btc).step s event = some t) {v : NormalAccount} (hv : v ∈ t.versions)
    {address : String} (haddress : address ∈ v.watchingAddresses.getD []) :
    (∃ u ∈ s.versions, address ∈ u.watchingAddresses.getD []) ∨ address ∈ event.offered := by
  cases step_cases hstep with
  | issued addr change ha =>
      rcases List.mem_append.mp hv with hold | hnew
      · exact .inl ⟨v, hold, haddress⟩
      · rw [List.mem_singleton.mp hnew, VersionChange.watching_apply] at haddress
        refine (List.mem_append.mp haddress).imp_left fun hu => ?_
        exact ⟨_, List.mem_of_getElem? ha, hu⟩
  | paid hc hcall hchoosing =>
      rcases List.mem_append.mp hv with hold | hnew
      · exact .inl ⟨v, hold, haddress⟩
      · have hparent := (h.calls _ (List.mem_of_getElem? hc)).version_eq
        rw [List.mem_singleton.mp hnew] at haddress
        exact .inl ⟨_, List.mem_of_getElem? hparent, haddress⟩
  | refused => exact .inl ⟨v, hv, haddress⟩
  | blockchain event reached => exact .inl ⟨v, hv, haddress⟩
  | settle reply hrequest => exact .inl ⟨v, hv, haddress⟩
  | began amount destinations env ha => exact .inl ⟨v, hv, haddress⟩
  | advanced hc hcall => exact .inl ⟨v, hv, haddress⟩

theorem Inv.balances {a : NormalAccount} (h : Inv a s) :
    Derivation (s.versions.map fun v => v.balance.amount)
      (s.made.map fun d => (d.1, d.2.spent)) :=
  h.descent.derivation VersionChange.balance_apply

theorem Inv.balance_eq {a : NormalAccount} (h : Inv a s) {k : Nat} {v : NormalAccount}
    (hk : s.versions[k]? = some v) :
    v.balance.amount = a.balance.amount - ((lineage s.made k).map VersionChange.spent).sum := by
  have hbalance := h.balances.value_eq (PaymentTree.balance_getElem? h.first)
    (PaymentTree.balance_getElem? hk)
  rwa [lineage_map] at hbalance

theorem Inv.spent_le {a : NormalAccount} (h : Inv a s) (hnonneg : 0 ≤ a.balance.amount) {k : Nat}
    {v : NormalAccount} (hk : s.versions[k]? = some v) :
    ((lineage s.made k).map VersionChange.spent).sum ≤ a.balance.amount := by
  have hv := h.nonneg hnonneg v (List.mem_of_getElem? hk)
  have hbalance := h.balance_eq hk
  omega

theorem Inv.all_spent_le {a : NormalAccount} (h : Inv a s) (hnonneg : 0 ≤ a.balance.amount)
    (hlinear : (s.made.map Prod.fst).Nodup) :
    (s.made.map fun d => d.2.spent).sum ≤ a.balance.amount := by
  have hlast : s.made.length < s.versions.length := by
    rw [h.descent.length_eq]
    exact Nat.lt_succ_self _
  have hget := PaymentTree.balance_getElem? (List.getElem?_eq_getElem hlast)
  have hparents : ((s.made.map fun d => (d.1, d.2.spent)).map Prod.fst).Nodup := by
    simpa only [List.map_map, Function.comp_def] using hlinear
  have hsum := h.balances.sum_le (PaymentTree.balance_getElem? h.first) hparents
    (by simpa only [List.length_map] using hget)
    (h.nonneg hnonneg _ (List.getElem_mem hlast))
  simpa only [List.map_map, Function.comp_def] using hsum

/-- Whatever is delivered, issued and paid, and in whatever order, a version is
what its own line of descent has made of the first account: its balance lacks
what was paid on that line and its watch list has what was issued on it.  Unless
the first balance is below zero, no version is, no line has paid more than that
balance, and all payments together have not when no version has been used
twice. -/
theorem versions_by_descent {ref : ObjRef} {a : NormalAccount}
    (hrun : (machine btc).run (start ref a) events = some s) {k : Nat} {v : NormalAccount}
    (hk : s.versions[k]? = some v) :
    v = (lineage s.made k).foldl VersionChange.apply a ∧
      (v.id = a.id ∧ v.coinManager = a.coinManager) ∧
      v.watchingAddresses.getD [] =
        a.watchingAddresses.getD [] ++ (lineage s.made k).flatMap VersionChange.addresses ∧
      v.balance.amount = a.balance.amount - ((lineage s.made k).map VersionChange.spent).sum ∧
      (0 ≤ a.balance.amount → 0 ≤ v.balance.amount ∧
        ((lineage s.made k).map VersionChange.spent).sum ≤ a.balance.amount ∧
        ((s.made.map Prod.fst).Nodup →
          (s.made.map fun d => d.2.spent).sum ≤ a.balance.amount)) := by
  have hinv := inv_run hrun (inv_start ref a)
  have hvalue := hinv.descent.value_eq hinv.first hk
  refine ⟨hvalue, ?_, ?_, hinv.balance_eq hk, fun hnonneg => ⟨?_, ?_, ?_⟩⟩
  · rw [hvalue]
    exact (VersionChange.coinManager_foldl a _).symm
  · rw [hvalue, VersionChange.watching_foldl]
  · exact hinv.nonneg hnonneg v (List.mem_of_getElem? hk)
  · exact hinv.spent_le hnonneg hk
  · exact hinv.all_spent_le hnonneg

/-- Two versions are made from the first: one watches two addresses more, and
the other has paid. -/
def sampleEvents : List LifeEvent :=
  [.getAddress 0 (some "1A1zP1eP5QGefi2DMPTfTL5SLmv7DivfNa")
      (some "1BitcoinEaterAddressDontSendf59kuE"),
    .pay (.pay 0 4 [] PaymentTree.willing), .pay (.advance 0 .coinsSettle)]

theorem versions_by_descent_sample : ∃ s v,
    (machine .knownScripts).run (start 2 samplePayer) sampleEvents = some s ∧
      s.versions[2]? = some v ∧ v = [.paid 4].foldl VersionChange.apply samplePayer ∧
      v.balance.amount = samplePayer.balance.amount - 4 := by
  have hrun : (machine .knownScripts).run (start 2 samplePayer) sampleEvents = some _ := rfl
  have hdescent := versions_by_descent hrun (k := 2) rfl
  exact ⟨_, _, hrun, rfl, hdescent.1, hdescent.2.2.2.1⟩

/-! ## Who is subscribed -/

def throwing (btc : ScriptLib) (s : AccountLife) : LifeEvent → List Nat
  | .blockchain event reached => (s.thrower btc event reached).toList.map SubscribedVersion.version
  | _ => []

def thrown (btc : ScriptLib) : AccountLife → List LifeEvent → List Nat :=
  (machine btc).trace (throwing btc)

/-- All versions are subscribed, in the order in which they were made, but those
that are `gone`. -/
structure SubscribedBut (gone : List Nat) (s : AccountLife) : Prop where
  subscribers_eq : s.subscribers =
    (s.versions.mapIdx SubscribedVersion.mk).filter fun l => l.version ∉ gone
  gone_lt : ∀ k ∈ gone, k < s.versions.length

theorem mapIdx_version_inj {versions : List NormalAccount} {l l' : SubscribedVersion}
    (hl : l ∈ versions.mapIdx SubscribedVersion.mk)
    (hl' : l' ∈ versions.mapIdx SubscribedVersion.mk)
    (h : l.version = l'.version) : l = l' := by
  obtain ⟨k, hk, rfl⟩ := List.mem_mapIdx.mp hl
  obtain ⟨k', hk', rfl⟩ := List.mem_mapIdx.mp hl'
  obtain rfl : k = k' := h
  rfl

theorem nodup_mapIdx (versions : List NormalAccount) :
    (versions.mapIdx SubscribedVersion.mk).Nodup := by
  have hversions : (versions.mapIdx SubscribedVersion.mk).map SubscribedVersion.version =
      List.range versions.length := by
    apply List.ext_getElem <;> simp
  exact .of_map SubscribedVersion.version (hversions ▸ List.nodup_range)

variable {gone : List Nat}

theorem SubscribedBut.concat (h : SubscribedBut gone s) (a : NormalAccount) :
    s.subscribers ++ [⟨s.versions.length, a⟩] =
      ((s.versions ++ [a]).mapIdx SubscribedVersion.mk).filter fun l => l.version ∉ gone := by
  have hnew : s.versions.length ∉ gone := fun hmem => Nat.lt_irrefl _ (h.gone_lt _ hmem)
  rw [List.mapIdx_concat, List.filter_append, ← h.subscribers_eq,
    List.filter_cons_of_pos (by simpa using hnew), List.filter_nil]

theorem SubscribedBut.arrives (h : SubscribedBut gone s) (btc : ScriptLib)
    (event : BlockchainEvent) (reached : Nat) :
    SubscribedBut (gone ++ throwing btc s (.blockchain event reached))
      (s.arrives btc event reached) := by
  have hmem : ∀ l ∈ s.subscribers, l ∈ s.versions.mapIdx SubscribedVersion.mk := fun l hl =>
    List.mem_of_mem_filter (h.subscribers_eq ▸ hl)
  have hnodup : s.subscribers.Nodup := h.subscribers_eq ▸ (nodup_mapIdx _).filter _
  have hthrower : ∀ l, s.thrower btc event reached = some l → l ∈ s.subscribers := fun l hl =>
    List.mem_of_mem_take (List.mem_of_find?_eq_some hl)
  constructor
  · rw [AccountLife.arrives, Observers.remaining_take_append hnodup, ← thrower, h.subscribers_eq,
      List.filter_filter]
    refine List.filter_congr fun l hl => ?_
    cases hthrows : s.thrower btc event reached with
    | none => simp [throwing, hthrows]
    | some l' =>
        have hiff : l.version = l'.version ↔ l = l' :=
          ⟨mapIdx_version_inj hl (hmem l' (hthrower l' hthrows)), fun heq => heq ▸ rfl⟩
        simp [throwing, hthrows, hiff, and_comm]
  · intro k hk
    rcases List.mem_append.mp hk with hk | hk
    · exact h.gone_lt k hk
    · obtain ⟨l, hl, rfl⟩ := List.mem_map.mp hk
      have hl := hmem l (hthrower l (Option.mem_toList.mp hl))
      obtain ⟨k, hlt, rfl⟩ := List.mem_mapIdx.mp hl
      exact hlt

theorem SubscribedBut.step (h : SubscribedBut gone s)
    (hstep : (machine btc).step s event = some t) :
    SubscribedBut (gone ++ throwing btc s event) t := by
  have hgrown : ∀ a, ∀ k ∈ gone, k < (s.versions ++ [a]).length := by
    intro a k hk
    rw [List.length_append]
    exact Nat.lt_add_right _ (h.gone_lt k hk)
  have hnone : ∀ {t}, SubscribedBut gone t → SubscribedBut (gone ++ []) t := by
    intro t ht
    rwa [List.append_nil]
  cases step_cases hstep with
  | blockchain event reached => exact h.arrives btc event reached
  | issued addr change ha => exact hnone ⟨h.concat _, hgrown _⟩
  | paid hc hcall hchoosing => exact hnone ⟨h.concat _, hgrown _⟩
  | refused => exact hnone h
  | settle reply hrequest => exact hnone ⟨h.subscribers_eq, h.gone_lt⟩
  | began amount destinations env ha => exact hnone ⟨h.subscribers_eq, h.gone_lt⟩
  | advanced hc hcall => exact hnone ⟨h.subscribers_eq, h.gone_lt⟩

theorem SubscribedBut.run (h : SubscribedBut gone s)
    (hrun : (machine btc).run s events = some t) :
    SubscribedBut (gone ++ thrown btc s events) t := by
  induction hrun using Machine.run_induction generalizing gone with
  | nil s =>
      rw [thrown, Machine.trace, List.append_nil]
      exact h
  | cons hstep _ ih =>
      rw [thrown, Machine.trace, hstep, ← List.append_assoc]
      exact ih (h.step hstep)

theorem subscribedBut_start (ref : ObjRef) (a : NormalAccount) :
    SubscribedBut [] (start ref a) :=
  ⟨rfl, fun _ hk => absurd hk List.not_mem_nil⟩

/-- A version takes a transaction in if each of the outputs has an address, or
if it watches nothing: the first account did not, and on its line no address was
issued. -/
def TakesIn (btc : ScriptLib) (a : NormalAccount) (s : AccountLife) (tx : Transaction)
    (version : Nat) : Prop :=
  a.watchingAddresses.getD [] ++ (lineage s.made version).flatMap VersionChange.addresses = [] ∨
    ∀ o ∈ tx.outs, btc.HasAddress o.script

instance (btc : ScriptLib) (a : NormalAccount) (s : AccountLife) (tx : Transaction)
    (version : Nat) : Decidable (TakesIn btc a s tx version) :=
  inferInstanceAs (Decidable (_ ∨ _))

theorem Inv.throws_eq {a : NormalAccount} (h : Inv a s) {l : SubscribedVersion}
    (hl : l ∈ s.subscribers) (tx : Transaction) :
    l.throws btc (.transaction tx) = !decide (TakesIn btc a s tx l.version) := by
  rw [Bool.eq_iff_iff, SubscribedVersion.throws_transaction, Bool.not_eq_true',
    decide_eq_false_iff_not, TakesIn, h.descent.value_eq h.first (h.subscribers l hl), Decodes,
    VersionChange.watching_foldl]

/-- Of the versions that a transaction reaches, those before the first that does
not take it in. -/
theorem Inv.takers_eq {a : NormalAccount} (h : Inv a s) (tx : Transaction) (reached : Nat) :
    s.takers btc (.transaction tx) reached =
      Observers.takers (fun l => !decide (TakesIn btc a s tx l.version))
        (s.subscribers.take reached) :=
  Observers.takers_congr fun _ hl => h.throws_eq (List.mem_of_mem_take hl) tx

theorem Inv.thrower_eq {a : NormalAccount} (h : Inv a s) (tx : Transaction) (reached : Nat) :
    s.thrower btc (.transaction tx) reached =
      Observers.thrower (fun l => !decide (TakesIn btc a s tx l.version))
        (s.subscribers.take reached) :=
  Observers.thrower_congr fun _ hl => h.throws_eq (List.mem_of_mem_take hl) tx

/-! ## The coins -/

structure Delivery where
  tx : Transaction
  takers : List Nat

def delivery (btc : ScriptLib) (s : AccountLife) : LifeEvent → List Delivery
  | .blockchain (.transaction tx) reached =>
      [⟨tx, (s.takers btc (.transaction tx) reached).map SubscribedVersion.version⟩]
  | _ => []

def deliveries (btc : ScriptLib) : AccountLife → List LifeEvent → List Delivery :=
  (machine btc).trace (delivery btc)

theorem deliveries_eq_nil (s : AccountLife)
    (h : ∀ event ∈ events, ∀ tx reached, event ≠ .blockchain (.transaction tx) reached) :
    deliveries btc s events = [] := by
  unfold deliveries
  induction events generalizing s with
  | nil => rfl
  | cons event events ih =>
      obtain ⟨hevent, hrest⟩ := List.forall_mem_cons.mp h
      have hnone : delivery btc s event = [] := by
        unfold delivery
        split
        · rename_i tx reached
          exact absurd rfl (hevent tx reached)
        · rfl
      rw [Machine.trace, hnone, List.nil_append]
      cases (machine btc).step s event with
      | none => rfl
      | some t => exact ih t hrest

def requestRecords (request : ImportRequest) : List CoinRecord :=
  request.outpoints.map outpointRecord

def waiting (s : AccountLife) : Multiset CoinRecord := s.imports.flatMap requestRecords

/-- The coins that are recorded, and those an import still waits to record. -/
def book (s : AccountLife) : DeferredStore CoinRecord := ⟨s.manager.records, s.waiting⟩

def acts (btc : ScriptLib) (s : AccountLife) : LifeEvent → List (DeferredStore.Act CoinRecord)
  | .blockchain event reached =>
      [.announce ((s.requests btc event reached).flatMap requestRecords)]
  | .settle k reply =>
      match s.imports[k]? with
      | none => []
      | some request =>
          match s.manager.importOurOutPoints btc request.outpoints reply with
          | .ok _ => [.commit (requestRecords request)]
          | .error _ => [.drop (requestRecords request)]
  | _ => []

def refused (btc : ScriptLib) (s : AccountLife) (events : List LifeEvent) : Multiset CoinRecord :=
  (((machine btc).trace (acts btc) s events).map DeferredStore.Act.dropped).sum

theorem flatMap_eraseIdx {imports : List ImportRequest} {k : Nat} {request : ImportRequest}
    (h : imports[k]? = some request) :
    (imports.flatMap requestRecords : Multiset CoinRecord) =
      requestRecords request + (imports.eraseIdx k).flatMap requestRecords := by
  obtain ⟨hk, rfl⟩ := List.getElem?_eq_some_iff.mp h
  rw [Multiset.coe_add, ← List.flatMap_cons, Multiset.coe_eq_coe]
  exact (List.getElem_cons_eraseIdx_perm hk).symm.flatMap_right _

/-- The account refines a store that is written later.  Payments and addresses
leave its books alone. -/
theorem book_refines (btc : ScriptLib) :
    Machine.Refines (machine btc) (DeferredStore.machine CoinRecord) book (acts btc) where
  step := by
    intro s event t hstep
    cases step_cases hstep with
    | blockchain event reached =>
        simp [acts, book, waiting, arrives, DeferredStore.machine]
    | @settle k request reply hrequest =>
        simp only [acts, hrequest, book, waiting, flatMap_eraseIdx hrequest, Session.settleManager]
        cases himport : s.manager.importOurOutPoints btc request.outpoints reply with
        | error e =>
            rw [Machine.run_cons, DeferredStore.step_drop_add]
            rfl
        | ok m =>
            have hrecords : (m.records : Multiset CoinRecord) =
                s.manager.records + requestRecords request := by
              rw [CoinManager.records_importOurOutPoints himport, ← Multiset.coe_add]
              rfl
            rw [Machine.run_cons, DeferredStore.step_commit_add, ← hrecords]
            rfl
    | refused => rfl
    | issued addr change ha => rfl
    | began amount destinations env ha => rfl
    | advanced hc hcall => rfl
    | paid hc hcall hchoosing => rfl

theorem flatMap_const {α β : Type*} (xs : List β) (as : List α) :
    ((as.flatMap fun _ => xs : List β) : Multiset β) = as.length • (xs : Multiset β) := by
  induction as with
  | nil => exact (zero_nsmul _).symm
  | cons a as ih =>
      rw [List.flatMap_cons, ← Multiset.coe_add, ih, List.length_cons, succ_nsmul, add_comm]

/-- A transaction is announced once for each version that takes it in. -/
theorem announced_eq (btc : ScriptLib) (s : AccountLife) (event : LifeEvent) :
    ((acts btc s event).map DeferredStore.Act.announced).sum =
      ((delivery btc s event).map fun d =>
        d.takers.length • (d.tx.outpoints.map outpointRecord : Multiset CoinRecord)).sum := by
  cases event with
  | getAddress version address changeAddress => rfl
  | pay l => rfl
  | settle k reply =>
      simp only [acts]
      split
      · rfl
      · split <;> rfl
  | blockchain event reached =>
      cases event with
      | block => simp [acts, delivery, requests_eq_nil]
      | reorg height => simp [acts, delivery, requests_eq_nil]
      | transaction tx =>
          have hrequests : (s.requests btc (.transaction tx) reached).flatMap requestRecords =
              (s.takers btc (.transaction tx) reached).flatMap
                fun _ => tx.outpoints.map outpointRecord := by
            rw [requests_transaction, List.flatMap_map]
            rfl
          simp only [acts, delivery, List.map_singleton, List.sum_singleton,
            DeferredStore.Act.announced_announce, hrequests, flatMap_const, List.length_map]

theorem entries_step (hstep : (machine btc).step s event = some t) :
    s.manager.coins.entries <+: t.manager.coins.entries := by
  cases step_cases hstep with
  | settle reply hrequest => exact Session.entries_settleManager _ _ _
  | refused => exact List.prefix_rfl
  | issued addr change ha => exact List.prefix_rfl
  | blockchain event reached => exact List.prefix_rfl
  | began amount destinations env ha => exact List.prefix_rfl
  | advanced hc hcall => exact List.prefix_rfl
  | paid hc hcall hchoosing => exact List.prefix_rfl

theorem entries_run (hrun : (machine btc).run s events = some t) :
    s.manager.coins.entries <+: t.manager.coins.entries :=
  Machine.run_relation (R := fun s t : AccountLife =>
      s.manager.coins.entries <+: t.manager.coins.entries)
    (fun _ => List.prefix_rfl) (fun _ _ _ => List.IsPrefix.trans)
    (fun _ _ _ hstep => entries_step hstep) hrun

theorem books_run (hrun : (machine btc).run s events = some t) :
    (t.manager.records : Multiset CoinRecord) + waiting t + refused btc s events =
      s.manager.records + waiting s + ((deliveries btc s events).map fun d =>
        d.takers.length • (d.tx.outpoints.map outpointRecord : Multiset CoinRecord)).sum := by
  have hbooks := DeferredStore.all_run_eq ((book_refines btc).run hrun)
  rw [Machine.sum_trace_congr (announced_eq btc)] at hbooks
  exact hbooks

/-- From any state an account can reach, however events are mixed: the coins
that are recorded, wait for their key or were refused are those that were there
or waited before and, for each transaction, every output once for each version
that took it in.  Subscribed are all versions made so far, in that order, but
those that have thrown; of the versions that a transaction reaches, the first
that does not take it in throws, and those before it take it in.  Nothing
removes a coin. -/
theorem coins_accounted {ref : ObjRef} {a : NormalAccount} {earlier : List LifeEvent}
    (hreached : (machine btc).run (start ref a) earlier = some s)
    (hrun : (machine btc).run s events = some t) :
    (t.manager.records : Multiset CoinRecord) + waiting t + refused btc s events =
        s.manager.records + waiting s + ((deliveries btc s events).map fun d =>
          d.takers.length • (d.tx.outpoints.map outpointRecord : Multiset CoinRecord)).sum ∧
      (s.subscribers = (s.versions.mapIdx SubscribedVersion.mk).filter fun l =>
        l.version ∉ thrown btc (start ref a) earlier) ∧
      (∀ tx reached, s.takers btc (.transaction tx) reached =
          Observers.takers (fun l => !decide (TakesIn btc a s tx l.version))
            (s.subscribers.take reached) ∧
        s.thrower btc (.transaction tx) reached =
          Observers.thrower (fun l => !decide (TakesIn btc a s tx l.version))
            (s.subscribers.take reached)) ∧
      s.manager.coins.entries <+: t.manager.coins.entries := by
  have hinv := inv_run hreached (inv_start ref a)
  have hsubscribed := (subscribedBut_start ref a).run hreached
  exact ⟨books_run hrun, hsubscribed.subscribers_eq,
    fun tx reached => ⟨hinv.takers_eq tx reached, hinv.thrower_eq tx reached⟩, entries_run hrun⟩

def dataTx : Transaction :=
  { sampleTx with
    outs := [⟨0, ScriptLib.p2pkh ScriptLib.eaterHash, 1000000000⟩, ⟨1, [0x6a], 0⟩]
    outs_nodup := by decide }

/-- The version that watches addresses throws on the first transaction, and the
one that has paid misses it.  The second comes to the two that are left; one of
its imports is refused. -/
def sampleDelivery : List LifeEvent :=
  [.blockchain (.transaction dataTx) 3, .blockchain (.transaction sampleTx) 3,
    .blockchain (.reorg 7) 2, .settle 0 Session.sampleReply, .settle 0 (.ok none)]

theorem coins_accounted_sample : ∃ t,
    (machine .knownScripts).run (start 2 samplePayer) (sampleEvents ++ sampleDelivery) = some t ∧
      t.manager.records = dataTx.outpoints.map outpointRecord ∧ t.imports.length = 1 ∧
      t.subscribers.map SubscribedVersion.version = [0, 2] ∧
      (t.manager.records : Multiset CoinRecord) + waiting t +
          refused .knownScripts (start 2 samplePayer) (sampleEvents ++ sampleDelivery) =
        1 • (dataTx.outpoints.map outpointRecord : Multiset CoinRecord) +
          2 • (sampleTx.outpoints.map outpointRecord : Multiset CoinRecord) := by
  have hrun : (machine .knownScripts).run (start 2 samplePayer) (sampleEvents ++ sampleDelivery) =
      some _ := rfl
  have hreached : (machine .knownScripts).run (start 2 samplePayer) [] = some _ := rfl
  refine ⟨_, hrun, rfl, rfl, rfl, (coins_accounted hreached hrun).1.trans ?_⟩
  rfl

/-! ## Imports that are not refused -/

/-- The repository answers with a key, and the scripts of a transaction have a
type. -/
def Importable (btc : ScriptLib) : LifeEvent → Prop
  | .settle _ reply => ∃ pubkey, reply = .ok (some pubkey) ∧ pubkey ≠ ""
  | .blockchain (.transaction tx) _ => Classified btc tx.outpoints
  | _ => True

def WaitsClassified (btc : ScriptLib) (s : AccountLife) : Prop :=
  ∀ request ∈ s.imports, Classified btc request.outpoints

theorem waitsClassified_step (h : WaitsClassified btc s) (hevent : Importable btc event)
    (hstep : (machine btc).step s event = some t) : WaitsClassified btc t := by
  cases step_cases hstep with
  | blockchain event reached =>
      intro request hrequest
      rcases List.mem_append.mp hrequest with hold | hnew
      · exact h request hold
      · obtain ⟨tx, rfl, l, -, rfl⟩ := mem_requests hnew
        exact hevent
  | settle reply hrequest =>
      exact fun request hmem => h request (List.mem_of_mem_eraseIdx hmem)
  | refused => exact h
  | issued addr change ha => exact h
  | began amount destinations env ha => exact h
  | advanced hc hcall => exact h
  | paid hc hcall hchoosing => exact h

theorem dropped_acts (h : WaitsClassified btc s) (hevent : Importable btc event) :
    ((acts btc s event).map DeferredStore.Act.dropped).sum = 0 := by
  cases event with
  | getAddress version address changeAddress => rfl
  | pay l => rfl
  | blockchain event reached => rfl
  | settle k reply =>
      obtain ⟨pubkey, rfl, hne⟩ := hevent
      simp only [acts]
      split
      · rfl
      · rename_i request hrequest
        obtain ⟨m', hm'⟩ : ∃ m', s.manager.importOurOutPoints btc request.outpoints
            (.ok (some pubkey)) = .ok m' :=
          CoinManager.importOurOutPoints_ok_iff.mpr
            ⟨pubkey, rfl, hne, h request (List.mem_of_getElem? hrequest)⟩
        rw [hm']
        rfl

theorem refused_eq_zero (h : WaitsClassified btc s)
    (hevents : ∀ event ∈ events, Importable btc event) : refused btc s events = 0 := by
  unfold refused
  induction events generalizing s with
  | nil => rfl
  | cons event events ih =>
      obtain ⟨hevent, hrest⟩ := List.forall_mem_cons.mp hevents
      rw [Machine.trace, List.map_append, List.sum_append, dropped_acts h hevent, zero_add]
      cases hstep : (machine btc).step s event with
      | none => rfl
      | some t => exact ih (waitsClassified_step h hevent hstep) hrest

end AccountLife

end Walletts
