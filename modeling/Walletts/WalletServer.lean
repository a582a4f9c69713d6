import Walletts.Launcher
import Walletts.SyncLoop
import Walletts.Lib.TaskList
/-!
# The server over its wallet service

`GRPCServer` leaves the answers of the wallet service open.  Here its handlers
call the service over the in-memory repositories: `createFromSeed` and
`createNew` have saved what they make when they are left, `discoverAccounts`
asks the proxy and the key repository before it starts `syncHDNode`, and
while that runs nothing else does.
-/

namespace Walletts

open NormalAccountService GrpcServer WalletService

variable {Node : Type}

/-- What stands in the server's variable: a wallet that was created, or one that
`syncHDNode` has returned. -/
inductive ServerWallet
  | created (wallet : BasicWallet NormalAccount)
  | recovered (wallet : BasicWallet RecoveredAccount)

/-- The call that a handler awaits.  A promise of the service that is settled
already comes with its result. -/
inductive AwaitedCall (Node : Type)
  | createFromSeed (result : Except JsError (BasicWallet NormalAccount))
  | createNew (result : Except JsError (BasicWallet NormalAccount))
  | isPruned (wallet : BasicWallet NormalAccount) (source : ObservableBlockchain)
  | getHDNode (wallet : BasicWallet NormalAccount) (source : ObservableBlockchain)
      (reply : Option Node)
  | syncHDNode
  | ping
  | nothing

def AwaitedCall.wallet? : AwaitedCall Node → Option (BasicWallet NormalAccount)
  | .createFromSeed (.ok wallet) => some wallet
  | .createNew (.ok wallet) => some wallet
  | .isPruned wallet _ => some wallet
  | .getHDNode wallet _ _ => some wallet
  | _ => none

/-- How many steps a handler has before it at most, when it awaits this. -/
def AwaitedCall.rank : AwaitedCall Node → Nat
  | .createFromSeed _ => 3
  | .createNew _ => 1
  | .isPruned _ _ => 2
  | .getHDNode _ _ _ => 1
  | .ping => 1
  | .syncHDNode => 0
  | .nothing => 0

structure Syncing (Node : Type) where
  request : Nat
  masternode : Node
  walletId : AccountID
  bch : ObjRef
  state : SyncState Node

structure WalletServer (Node : Type) where
  state : ServerState ServerWallet
  repos : Repositories Node
  calls : List (AwaitedCall Node)
  syncing : Option (Syncing Node)

/-- A request arrives, a handler goes on with what it has awaited, or a step of
`syncHDNode` is taken. -/
inductive WalletServerEvent
  | createWallet (req : CreateWalletRequest) (entropy : Buffer)
  | created (request : Nat)
  | setupBlockchainProxy (req : SetupBlockchainRequest) (client observable : Except JsError Unit)
  | pinged (request : Nat) (result : Except JsError Unit)
  | isPruned (request : Nat) (reply : Except JsError Bool)
  | rootNode (request : Nat) (nextRef : ObjRef)
  | sync (l : SyncLabel)

def WalletServerEvent.arrives : WalletServerEvent → Bool
  | .createWallet _ _ => true
  | .setupBlockchainProxy _ _ _ => true
  | _ => false

def WalletServerEvent.turn : WalletServerEvent → Option Nat
  | .created request => some request
  | .pinged request _ => some request
  | .isPruned request _ => some request
  | .rootNode request _ => some request
  | _ => none

def WalletServerEvent.goesOn (event : WalletServerEvent) : Bool := event.turn.isSome

/-! ## The wallets and the handlers of the server -/

namespace GrpcServer

section Wallets

variable {W : Type} {P Q : W → Prop} {s t : ServerState W} {event : ServerEvent W}

def Handler.ended : Handler → Bool
  | .answered _ => true
  | .threw _ => true
  | _ => false

def ServerEvent.wallet? : ServerEvent W → Option W
  | .created _ (.ok wallet) => some wallet
  | .discovered _ (.ok wallet) => some wallet
  | _ => none

structure ServerState.WalletsIn (P : W → Prop) (s : ServerState W) : Prop where
  writes : ∀ write ∈ s.walletWrites, P write.wallet
  wallet : ∀ w, s.server.wallet = some w → P w

theorem ServerState.WalletsIn.mono (h : ∀ w, P w → Q w) (hs : s.WalletsIn P) : s.WalletsIn Q :=
  ⟨fun write hwrite => h _ (hs.writes write hwrite), fun w hw => h w (hs.wallet w hw)⟩

theorem ServerState.WalletsIn.setWallet (hs : s.WalletsIn P) {wallet : W} (hwallet : P wallet)
    (request : Nat) (handler : Handler) : (s.setWallet request wallet handler).WalletsIn P where
  writes := List.forall_mem_cons.mpr ⟨hwallet, hs.writes⟩
  wallet := by
    intro w hw
    rw [← Option.some.inj hw]
    exact hwallet

theorem ServerState.WalletsIn.step (hs : s.WalletsIn P)
    (hevent : ∀ w, event.wallet? = some w → P w)
    (hstep : (serverMachine W).step s event = some t) : t.WalletsIn P := by
  cases step_cases hstep with
  | createWallet req => exact ⟨hs.writes, hs.wallet⟩
  | createdFromSeed hhandler result =>
      cases result with
      | error e => exact ⟨hs.writes, hs.wallet⟩
      | ok wallet =>
          unfold ServerState.createdFromSeed
          dsimp only
          split <;> exact hs.setWallet (hevent wallet rfl) _ _
  | createdNew hhandler result =>
      cases result with
      | error e => exact ⟨hs.writes, hs.wallet⟩
      | ok wallet => exact hs.setWallet (hevent wallet rfl) _ _
  | discovered hhandler result =>
      cases result with
      | error e => exact ⟨hs.writes, hs.wallet⟩
      | ok wallet => exact hs.setWallet (hevent wallet rfl) _ _
  | setupBlockchainProxy req client observable =>
      obtain ⟨hwallet, hwrites, -⟩ := setupBlockchainProxy_frame s req client observable
      exact ⟨hwrites ▸ hs.writes, hwallet ▸ hs.wallet⟩
  | pinged hhandler result success hsuccess => exact ⟨hs.writes, hs.wallet⟩

end Wallets

end GrpcServer

namespace WalletServer

def start : WalletServer Node := ⟨.start none, ⟨.empty, .empty⟩, [], none⟩

section Machine

variable (lib : HDNodeLib Node) (seeds : SeedLib Node)

def seedOf (req : CreateWalletRequest) (entropy : Buffer) : Buffer :=
  match req.seed with
  | some (word :: words) =>
      seeds.mnemonicToSeed (" ".intercalate (word :: words)) req.passPhrase
  | _ => entropy

def creation (r : Repositories Node) (req : CreateWalletRequest) (entropy : Buffer) :
    Except JsError (Repositories Node × BasicWallet NormalAccount) :=
  match req.seed with
  | some (word :: words) =>
      createFromSeed lib seeds r (word :: words) (networkOf req.network) req.passPhrase
  | _ => createNew lib seeds r entropy (networkOf req.network)

/-- `createWallet` up to its first `await`.  The service saves before the
handler waits. -/
def createWallet (s : WalletServer Node) (req : CreateWalletRequest) (entropy : Buffer) :
    WalletServer Node :=
  let made := creation lib seeds s.repos req entropy
  let call : AwaitedCall Node := match req.seed with
    | some (_ :: _) => .createFromSeed (made.map Prod.snd)
    | _ => .createNew (made.map Prod.snd)
  { s with
    state := s.state.createWallet req
    repos := savedBy s.repos made
    calls := s.calls ++ [call] }

def serverStep (s : WalletServer Node) (request : Nat) (event : ServerEvent ServerWallet)
    (call : AwaitedCall Node) : Option (WalletServer Node) :=
  ((serverMachine ServerWallet).step s.state event).map fun state =>
    { s with state := state, calls := s.calls.set request call }

/-- What a handler calls after `createFromSeed`: `discoverAccounts`, if there
are a proxy and a stream. -/
def afterCreateFromSeed (server : GRPCServer ServerWallet) :
    Except JsError (BasicWallet NormalAccount) → AwaitedCall Node
  | .ok wallet =>
      match server.bchproxy, server.observableBlockchain with
      | some _, some source => .isPruned wallet source
      | _, _ => .nothing
  | .error _ => .nothing

def pings (req : SetupBlockchainRequest) : Except JsError Unit → Except JsError Unit → Bool
  | .ok _, .ok _ => supported req.type
  | _, _ => false

def discovered (s : WalletServer Node) (request : Nat) (result : Except JsError ServerWallet) :
    Option (WalletServer Node) :=
  s.serverStep request (.discovered request result) .nothing

def afterSync (s : WalletServer Node) (syncing : Syncing Node) (state : SyncState Node) :
    Option (WalletServer Node) :=
  match state.main with
  | .looping => some { s with syncing := some { syncing with state := state } }
  | .returned wallet =>
      { s with syncing := none }.discovered syncing.request (.ok (.recovered wallet))
  | .threw e => { s with syncing := none }.discovered syncing.request (.error e)

def idleStep (s : WalletServer Node) : WalletServerEvent → Option (WalletServer Node)
  | .createWallet req entropy => some (s.createWallet lib seeds req entropy)
  | .created request =>
      match s.calls[request]? with
      | some (.createFromSeed result) =>
          s.serverStep request (.created request (result.map .created))
            (afterCreateFromSeed s.state.server result)
      | some (.createNew result) =>
          s.serverStep request (.created request (result.map .created)) .nothing
      | _ => none
  | .setupBlockchainProxy req client observable =>
      some { s with
        state := s.state.setupBlockchainProxy req client observable
        calls := s.calls ++ [if pings req client observable then .ping else .nothing] }
  | .pinged request result =>
      match s.calls[request]? with
      | some .ping => s.serverStep request (.pinged request result) .nothing
      | _ => none
  | .isPruned request reply =>
      match s.calls[request]? with
      | some (.isPruned wallet source) =>
          match reply with
          | .error e => s.discovered request (.error e)
          | .ok true => s.discovered request (.ok (.created wallet))
          | .ok false => some { s with
              calls := s.calls.set request
                (.getHDNode wallet source (s.repos.keyRepo.getHDNode wallet.id)) }
      | _ => none
  | .rootNode request nextRef =>
      match s.calls[request]? with
      | some (.getHDNode wallet source (some master)) =>
          some { s with
            calls := s.calls.set request .syncHDNode
            syncing := some ⟨request, master, wallet.id, source.request, syncStart nextRef⟩ }
      | some (.getHDNode wallet _ none) => s.discovered request (.ok (.created wallet))
      | _ => none
  | .sync _ => none

end Machine

def machine (lib : HDNodeLib Node) (seeds : SeedLib Node) :
    Machine (WalletServer Node) WalletServerEvent where
  step s event :=
    match s.syncing with
    | none => s.idleStep lib seeds event
    | some syncing =>
        match event with
        | .sync l =>
            ((syncMachine lib false syncing.masternode syncing.walletId syncing.bch).step
              syncing.state l).bind (s.afterSync syncing)
        | _ => none

/-! ## Steps -/

section Steps

variable {lib : HDNodeLib Node} {seeds : SeedLib Node} {s t : WalletServer Node}
  {event : WalletServerEvent}

/-- The answers with which a handler of the server goes on: what it has called,
what happens to the server, and what it calls next. -/
inductive Answer (s : WalletServer Node) (request : Nat) :
    AwaitedCall Node → ServerEvent ServerWallet → AwaitedCall Node → Prop
  | createFromSeed (result : Except JsError (BasicWallet NormalAccount)) :
      Answer s request (.createFromSeed result) (.created request (result.map .created))
        (afterCreateFromSeed s.state.server result)
  | createNew (result : Except JsError (BasicWallet NormalAccount)) :
      Answer s request (.createNew result) (.created request (result.map .created)) .nothing
  | pruned (wallet : BasicWallet NormalAccount) (source : ObservableBlockchain) :
      Answer s request (.isPruned wallet source) (.discovered request (.ok (.created wallet)))
        .nothing
  | unreachable (wallet : BasicWallet NormalAccount) (source : ObservableBlockchain)
      (e : JsError) :
      Answer s request (.isPruned wallet source) (.discovered request (.error e)) .nothing
  | notFound (wallet : BasicWallet NormalAccount) (source : ObservableBlockchain) :
      Answer s request (.getHDNode wallet source none)
        (.discovered request (.ok (.created wallet))) .nothing
  | pinged (result : Except JsError Unit) :
      Answer s request .ping (.pinged request result) .nothing

inductive Step (lib : HDNodeLib Node) (seeds : SeedLib Node) (s : WalletServer Node) :
    WalletServerEvent → WalletServer Node → Prop
  | createWallet (req : CreateWalletRequest) (entropy : Buffer) (hidle : s.syncing = none) :
      Step lib seeds s (.createWallet req entropy) (s.createWallet lib seeds req entropy)
  | setupBlockchainProxy (req : SetupBlockchainRequest) (client observable : Except JsError Unit)
      (hidle : s.syncing = none) :
      Step lib seeds s (.setupBlockchainProxy req client observable) { s with
        state := s.state.setupBlockchainProxy req client observable
        calls := s.calls ++ [if pings req client observable then .ping else .nothing] }
  | answered {event : WalletServerEvent} {request : Nat} {call next : AwaitedCall Node}
      {serverEvent : ServerEvent ServerWallet} {state : ServerState ServerWallet}
      (hturn : event.turn = some request) (hidle : s.syncing = none)
      (hcall : s.calls[request]? = some call) (hanswer : Answer s request call serverEvent next)
      (hstep : (serverMachine ServerWallet).step s.state serverEvent = some state) :
      Step lib seeds s event { s with state := state, calls := s.calls.set request next }
  | notPruned {request : Nat} {wallet : BasicWallet NormalAccount} {source : ObservableBlockchain}
      (hidle : s.syncing = none) (hcall : s.calls[request]? = some (.isPruned wallet source)) :
      Step lib seeds s (.isPruned request (.ok false)) { s with
        calls := s.calls.set request
          (.getHDNode wallet source (s.repos.keyRepo.getHDNode wallet.id)) }
  | found {request : Nat} {wallet : BasicWallet NormalAccount} {source : ObservableBlockchain}
      {master : Node} (hidle : s.syncing = none)
      (hcall : s.calls[request]? = some (.getHDNode wallet source (some master)))
      (nextRef : ObjRef) :
      Step lib seeds s (.rootNode request nextRef) { s with
        calls := s.calls.set request .syncHDNode
        syncing := some ⟨request, master, wallet.id, source.request, syncStart nextRef⟩ }
  | synced {syncing : Syncing Node} {l : SyncLabel} {state : SyncState Node}
      {u : WalletServer Node}
      (hsyncing : s.syncing = some syncing)
      (hsync : (syncMachine lib false syncing.masternode syncing.walletId syncing.bch).step
        syncing.state l = some state) (h : s.afterSync syncing state = some u) :
      Step lib seeds s (.sync l) u

theorem step_answered {event : WalletServerEvent} {request : Nat} {call next : AwaitedCall Node}
    {serverEvent : ServerEvent ServerWallet} (hturn : event.turn = some request)
    (hidle : s.syncing = none) (hcall : s.calls[request]? = some call)
    (hanswer : Answer s request call serverEvent next)
    (h : s.serverStep request serverEvent next = some t) : Step lib seeds s event t := by
  obtain ⟨state, hstep, rfl⟩ := Option.map_eq_some_iff.mp h
  exact .answered hturn hidle hcall hanswer hstep

theorem step_cases (h : (machine lib seeds).step s event = some t) : Step lib seeds s event t := by
  cases hsyncing : s.syncing with
  | some syncing =>
      simp only [machine, hsyncing] at h
      split at h
      · obtain ⟨state, hsync, hafter⟩ := Option.bind_eq_some_iff.mp h
        exact .synced hsyncing hsync hafter
      · cases h
  | none =>
      simp only [machine, hsyncing] at h
      cases event with
      | createWallet req entropy =>
          obtain rfl := Option.some.inj h
          exact .createWallet req entropy hsyncing
      | setupBlockchainProxy req client observable =>
          obtain rfl := Option.some.inj h
          exact .setupBlockchainProxy req client observable hsyncing
      | created request =>
          simp only [idleStep] at h
          split at h
          · rename_i result hcall
            exact step_answered rfl hsyncing hcall (.createFromSeed result) h
          · rename_i result hcall
            exact step_answered rfl hsyncing hcall (.createNew result) h
          · cases h
      | pinged request result =>
          simp only [idleStep] at h
          split at h
          · rename_i hcall
            exact step_answered rfl hsyncing hcall (.pinged result) h
          · cases h
      | isPruned request reply =>
          simp only [idleStep] at h
          split at h
          · rename_i wallet source hcall
            match reply, h with
            | .error e, h => exact step_answered rfl hsyncing hcall (.unreachable wallet source e) h
            | .ok true, h => exact step_answered rfl hsyncing hcall (.pruned wallet source) h
            | .ok false, h =>
                obtain rfl := Option.some.inj h
                exact .notPruned hsyncing hcall
          · cases h
      | rootNode request nextRef =>
          simp only [idleStep] at h
          split at h
          · rename_i wallet source master hcall
            obtain rfl := Option.some.inj h
            exact .found hsyncing hcall nextRef
          · rename_i wallet source hcall
            exact step_answered rfl hsyncing hcall (.notFound wallet source) h
          · cases h
      | sync l => cases h

end Steps

/-! ## What is kept of the wallets -/

/-- Both repositories hold the same ids.  Under each stands a node that has the
id, and the wallet of that id without accounts. -/
structure StoredOk (lib : HDNodeLib Node) (r : Repositories Node) : Prop where
  keys_eq : r.keyRepo.keys = r.repo.keys
  node : ∀ id node, r.keyRepo.getHDNode id = some node → idOf lib node = id
  wallet : ∀ id wallet, r.repo.load id = some wallet → wallet = ⟨id, []⟩

structure Kept (r : Repositories Node) (wallet : BasicWallet NormalAccount) : Prop where
  node : ∃ node, r.keyRepo.getHDNode wallet.id = some node
  wallet : r.repo.load wallet.id = some wallet

section Stored

variable {lib : HDNodeLib Node} {r : Repositories Node} {wallet : BasicWallet NormalAccount}

theorem storedOk_createFromNode (h : StoredOk lib r) (node : Node) :
    StoredOk lib (createFromNode lib r node).1 where
  keys_eq := by
    have hkeys : r.keyRepo.entries.map Prod.fst = r.repo.entries.map Prod.fst := h.keys_eq
    simp only [createFromNode, save, InsertionMap.keys, InMemoryKeyRepository.setHDNode,
      InsertionMap.set, InsertionMap.keys_setEntries, hkeys]
  node := by
    intro id node' hnode
    by_cases hid : id = idOf lib node
    · subst hid
      have hself := (InsertionMap.get_set_self r.keyRepo (idOf lib node) node).symm.trans hnode
      rw [Option.some.inj hself]
    · exact h.node id node' ((InsertionMap.get_set_of_ne r.keyRepo hid node).symm.trans hnode)
  wallet := by
    intro id wallet hwallet
    by_cases hid : id = idOf lib node
    · subst hid
      have hself := (InsertionMap.get_set_self r.repo (idOf lib node) _).symm.trans hwallet
      exact (Option.some.inj hself).symm
    · exact h.wallet id wallet ((InsertionMap.get_set_of_ne r.repo hid _).symm.trans hwallet)

theorem kept_createFromNode (lib : HDNodeLib Node) (r : Repositories Node) (node : Node) :
    Kept (createFromNode lib r node).1 (createFromNode lib r node).2 where
  node := ⟨node, InsertionMap.get_set_self _ _ _⟩
  wallet := InsertionMap.get_set_self _ _ _

theorem Kept.createFromNode (hstored : StoredOk lib r) (h : Kept r wallet) (node : Node) :
    Kept (createFromNode lib r node).1 wallet := by
  by_cases hid : wallet.id = idOf lib node
  · have hsame : wallet = ⟨idOf lib node, []⟩ := by
      have hwallet := hstored.wallet wallet.id wallet h.wallet
      rwa [hid] at hwallet
    rw [hsame]
    exact kept_createFromNode lib r node
  · obtain ⟨node', hnode⟩ := h.node
    exact ⟨⟨node', (InsertionMap.get_set_of_ne r.keyRepo hid node).trans hnode⟩,
      (InsertionMap.get_set_of_ne r.repo hid _).trans h.wallet⟩

theorem Kept.cases (hstored : StoredOk lib r) (h : Kept r wallet) :
    wallet.accounts = [] ∧
      ∃ node, r.keyRepo.getHDNode wallet.id = some node ∧ idOf lib node = wallet.id := by
  obtain ⟨node, hnode⟩ := h.node
  refine ⟨?_, node, hnode, hstored.node _ _ hnode⟩
  rw [hstored.wallet _ _ h.wallet]

end Stored

theorem creation_eq_serviceCall (lib : HDNodeLib Node) (seeds : SeedLib Node)
    (r : Repositories Node) (s : ServerState ServerWallet) (req : CreateWalletRequest)
    (entropy : Buffer) : ∃ handler, (s.createWallet req).handlers = s.handlers ++ [handler] ∧
      serviceCall lib seeds entropy r handler = some (creation lib seeds r req entropy) := by
  unfold ServerState.createWallet creation
  refine ⟨_, rfl, ?_⟩
  match req.seed with
  | none => rfl
  | some [] => rfl
  | some (word :: words) => rfl

theorem creation_eq (lib : HDNodeLib Node) (seeds : SeedLib Node) (r : Repositories Node)
    (req : CreateWalletRequest) (entropy : Buffer) :
    creation lib seeds r req entropy = (seeds.fromSeedBuffer (seedOf seeds req entropy)
      ((networkOf req.network).getD .bitcoin)).map (createFromNode lib r) := by
  have hbind : ∀ x : Except JsError Node,
      (do return createFromNode lib r (← x)) = x.map (createFromNode lib r) := by
    intro x
    cases x <;> rfl
  unfold creation seedOf
  match req.seed with
  | none => exact hbind _
  | some [] => exact hbind _
  | some (word :: words) => exact hbind _

/-! ## The invariant -/

/-- What a handler awaits goes with the state it is in, and the wallet it is
about is kept. -/
inductive CallOk (r : Repositories Node) : Handler → AwaitedCall Node → Prop
  | createFromSeed {nameSpace : String} {seed : List String} {network : Option Network}
      {passPhrase : Option String} {result : Except JsError (BasicWallet NormalAccount)}
      (hkept : ∀ wallet, result = .ok wallet → Kept r wallet) :
      CallOk r (.creatingFromSeed nameSpace seed network passPhrase) (.createFromSeed result)
  | createNew {nameSpace : String} {network : Option Network} {passPhrase : Option String}
      {result : Except JsError (BasicWallet NormalAccount)}
      (hkept : ∀ wallet, result = .ok wallet → Kept r wallet) :
      CallOk r (.creatingNew nameSpace network passPhrase) (.createNew result)
  | isPruned {wallet : BasicWallet NormalAccount} {source : ObservableBlockchain}
      (hkept : Kept r wallet) : CallOk r .discovering (.isPruned wallet source)
  | getHDNode {wallet : BasicWallet NormalAccount} {source : ObservableBlockchain} {master : Node}
      (hkept : Kept r wallet) : CallOk r .discovering (.getHDNode wallet source (some master))
  | syncHDNode : CallOk r .discovering .syncHDNode
  | ping : CallOk r .pinging .ping
  | nothing {handler : Handler} (hended : handler.ended = true) : CallOk r handler .nothing

def KeptWallet (r : Repositories Node) (w : ServerWallet) : Prop :=
  ∃ wallet, w = .created wallet ∧ Kept r wallet

structure ServerOk (lib : HDNodeLib Node) (s : WalletServer Node) : Prop where
  stored : StoredOk lib s.repos
  calls : List.Forall₂ (CallOk s.repos) s.state.handlers s.calls
  wallets : s.state.WalletsIn (KeptWallet s.repos)
  idle : s.syncing = none → ∀ call ∈ s.calls, call ≠ .syncHDNode
  looping : ∀ syncing, s.syncing = some syncing → Looping syncing.state

section Invariant

variable {lib : HDNodeLib Node} {seeds : SeedLib Node} {s t : WalletServer Node}
  {r r' : Repositories Node} {event : WalletServerEvent}

theorem CallOk.mono (hr : ∀ wallet, Kept r wallet → Kept r' wallet) {handler : Handler}
    {call : AwaitedCall Node} (h : CallOk r handler call) : CallOk r' handler call := by
  cases h with
  | createFromSeed hkept => exact .createFromSeed fun wallet hw => hr wallet (hkept wallet hw)
  | createNew hkept => exact .createNew fun wallet hw => hr wallet (hkept wallet hw)
  | isPruned hkept => exact .isPruned (hr _ hkept)
  | getHDNode hkept => exact .getHDNode (hr _ hkept)
  | syncHDNode => exact .syncHDNode
  | ping => exact .ping
  | nothing hended => exact .nothing hended

theorem CallOk.kept {handler : Handler} {call : AwaitedCall Node} (h : CallOk r handler call)
    {wallet : BasicWallet NormalAccount} (hwallet : call.wallet? = some wallet) :
    Kept r wallet := by
  cases h with
  | @createFromSeed _ _ _ _ result hkept =>
      cases result with
      | error e => cases hwallet
      | ok made => exact hkept wallet (congrArg Except.ok (Option.some.inj hwallet))
  | @createNew _ _ _ result hkept =>
      cases result with
      | error e => cases hwallet
      | ok made => exact hkept wallet (congrArg Except.ok (Option.some.inj hwallet))
  | isPruned hkept => exact Option.some.inj hwallet ▸ hkept
  | getHDNode hkept => exact Option.some.inj hwallet ▸ hkept
  | syncHDNode => cases hwallet
  | ping => cases hwallet
  | nothing hended => cases hwallet

theorem serverOk_start (lib : HDNodeLib Node) : ServerOk lib (start : WalletServer Node) where
  stored := ⟨rfl, fun _ _ h => (Option.some_ne_none _ h.symm).elim,
    fun _ _ h => (Option.some_ne_none _ h.symm).elim⟩
  calls := .nil
  wallets := ⟨fun _ h => absurd h List.not_mem_nil, fun _ h => (Option.some_ne_none _ h.symm).elim⟩
  idle := fun _ _ h => absurd h List.not_mem_nil
  looping := fun _ h => (Option.some_ne_none _ h.symm).elim

theorem CallOk.answer {request : Nat} {handler : Handler} {call next : AwaitedCall Node}
    {serverEvent : ServerEvent ServerWallet} {state : ServerState ServerWallet}
    (h : CallOk s.repos handler call) (hhandler : s.state.handlers[request]? = some handler)
    (hanswer : Answer s request call serverEvent next)
    (hstep : (serverMachine ServerWallet).step s.state serverEvent = some state) :
    (∃ handler', state.handlers = s.state.handlers.set request handler' ∧
      CallOk s.repos handler' next) ∧
      ∀ w, serverEvent.wallet? = some w → KeptWallet s.repos w := by
  cases hanswer with
  | createFromSeed result =>
      cases h with
      | createFromSeed hkept =>
          simp only [serverMachine, hhandler] at hstep
          obtain rfl := Option.some.inj hstep
          cases result with
          | error e => exact ⟨⟨_, rfl, .nothing rfl⟩, fun w hw => by cases hw⟩
          | ok wallet =>
              refine ⟨?_, fun w hw => ⟨wallet, (Option.some.inj hw).symm, hkept wallet rfl⟩⟩
              simp only [Except.map, ServerState.createdFromSeed, afterCreateFromSeed]
              cases hproxy : s.state.server.bchproxy with
              | none => exact ⟨.answered true, by simp [ServerState.setWallet,
                  ServerState.setHandler], .nothing rfl⟩
              | some bch =>
                  cases hsource : s.state.server.observableBlockchain with
                  | none => exact ⟨.answered true, by simp [ServerState.setWallet,
                      ServerState.setHandler], .nothing rfl⟩
                  | some source => exact ⟨.discovering, by simp [ServerState.setWallet,
                      ServerState.setHandler], .isPruned (hkept wallet rfl)⟩
  | createNew result =>
      cases h with
      | createNew hkept =>
          simp only [serverMachine, hhandler] at hstep
          obtain rfl := Option.some.inj hstep
          cases result with
          | error e => exact ⟨⟨_, rfl, .nothing rfl⟩, fun w hw => by cases hw⟩
          | ok wallet =>
              exact ⟨⟨_, rfl, .nothing rfl⟩,
                fun w hw => ⟨wallet, (Option.some.inj hw).symm, hkept wallet rfl⟩⟩
  | pruned wallet source =>
      cases h with
      | isPruned hkept =>
          simp only [serverMachine, hhandler] at hstep
          obtain rfl := Option.some.inj hstep
          exact ⟨⟨_, rfl, .nothing rfl⟩, fun w hw => ⟨wallet, (Option.some.inj hw).symm, hkept⟩⟩
  | unreachable wallet source e =>
      cases h with
      | isPruned hkept =>
          simp only [serverMachine, hhandler] at hstep
          obtain rfl := Option.some.inj hstep
          exact ⟨⟨_, rfl, .nothing rfl⟩, fun w hw => by cases hw⟩
  -- the key repository has every wallet that is asked for
  | notFound wallet source => cases h
  | pinged result =>
      cases h with
      | ping =>
          simp only [serverMachine, hhandler] at hstep
          obtain rfl := Option.some.inj hstep
          exact ⟨⟨_, rfl, .nothing rfl⟩, fun w hw => by cases hw⟩

theorem Answer.next_ne {request : Nat} {call next : AwaitedCall Node}
    {serverEvent : ServerEvent ServerWallet} (h : Answer s request call serverEvent next) :
    next ≠ .syncHDNode := by
  cases h with
  | createFromSeed result =>
      unfold afterCreateFromSeed
      split
      · split <;> simp
      · simp
  | _ => simp

theorem Answer.rank_lt {request : Nat} {call next : AwaitedCall Node}
    {serverEvent : ServerEvent ServerWallet} (h : Answer s request call serverEvent next) :
    next.rank + 1 ≤ call.rank := by
  cases h with
  | createFromSeed result =>
      unfold afterCreateFromSeed
      split
      · split <;> simp [AwaitedCall.rank]
      · simp [AwaitedCall.rank]
  | _ => simp [AwaitedCall.rank]

theorem setupBlockchainProxy_handler (r : Repositories Node) (state : ServerState ServerWallet)
    (req : SetupBlockchainRequest) (client observable : Except JsError Unit) :
    ∃ handler, (state.setupBlockchainProxy req client observable).handlers =
        state.handlers ++ [handler] ∧
      CallOk r handler (if pings req client observable then .ping else .nothing) := by
  unfold ServerState.setupBlockchainProxy
  dsimp only
  by_cases htype : supported req.type = true
  · rw [if_pos htype]
    cases client with
    | error e => exact ⟨_, rfl, .nothing rfl⟩
    | ok _ =>
        cases observable with
        | error e => exact ⟨_, rfl, .nothing rfl⟩
        | ok _ =>
            refine ⟨_, rfl, ?_⟩
            rw [pings, if_pos htype]
            exact .ping
  · rw [if_neg htype]
    refine ⟨_, rfl, ?_⟩
    cases client with
    | error e => exact .nothing rfl
    | ok _ =>
        cases observable with
        | error e => exact .nothing rfl
        | ok _ =>
            rw [pings, if_neg htype]
            exact .nothing rfl

theorem creation_kept (seeds : SeedLib Node) (hstored : StoredOk lib r)
    (req : CreateWalletRequest) (entropy : Buffer) :
    StoredOk lib (savedBy r (creation lib seeds r req entropy)) ∧
      (∀ wallet, Kept r wallet → Kept (savedBy r (creation lib seeds r req entropy)) wallet) ∧
      ∀ wallet, (creation lib seeds r req entropy).map Prod.snd = .ok wallet →
        Kept (savedBy r (creation lib seeds r req entropy)) wallet := by
  rw [creation_eq]
  cases seeds.fromSeedBuffer (seedOf seeds req entropy) ((networkOf req.network).getD .bitcoin) with
  | error e => exact ⟨hstored, fun _ h => h, fun _ h => by cases h⟩
  | ok node =>
      refine ⟨storedOk_createFromNode hstored node, fun _ h => h.createFromNode hstored node, ?_⟩
      intro wallet hwallet
      rw [← Except.ok.inj hwallet]
      exact kept_createFromNode lib r node

theorem ServerOk.createWallet (hs : ServerOk lib s) (hidle : s.syncing = none)
    (req : CreateWalletRequest) (entropy : Buffer) :
    ServerOk lib (s.createWallet lib seeds req entropy) := by
  obtain ⟨hstored, hmono, hmade⟩ := creation_kept seeds hs.stored req entropy
  have hcalls := hs.calls.imp fun _ _ h => h.mono hmono
  refine ⟨hstored, ?_, ?_, ?_, hs.looping⟩
  · simp only [WalletServer.createWallet, ServerState.createWallet]
    apply TaskList.forall₂_append_singleton hcalls
    match req.seed with
    | none => exact .createNew hmade
    | some [] => exact .createNew hmade
    | some (word :: words) => exact .createFromSeed hmade
  · refine ServerState.WalletsIn.mono (P := KeptWallet s.repos) ?_ ⟨hs.wallets.writes,
      hs.wallets.wallet⟩
    rintro w ⟨wallet, rfl, hkept⟩
    exact ⟨wallet, rfl, hmono wallet hkept⟩
  · intro _ call hcall
    simp only [WalletServer.createWallet, List.mem_append, List.mem_singleton] at hcall
    rcases hcall with hold | rfl
    · exact hs.idle hidle call hold
    · split <;> simp

/-- Nothing but the loop of `syncHDNode` goes on while it runs. -/
theorem ServerOk.synced (hs : ServerOk lib s) (hlaw : lib.Lawful) {syncing : Syncing Node}
    {l : SyncLabel} {state : SyncState Node} (hsyncing : s.syncing = some syncing)
    (hsync : (syncMachine lib false syncing.masternode syncing.walletId syncing.bch).step
      syncing.state l = some state) :
    l = .iterate ∧ Looping state ∧
      s.afterSync syncing state =
        some { s with syncing := some { syncing with state := state } } := by
  have hloop := hs.looping syncing hsyncing
  have hnext := hloop.step hlaw hsync
  refine ⟨hloop.step_eq_iterate hsync, hnext, ?_⟩
  rw [afterSync, hnext.main]

theorem ServerOk.step (hs : ServerOk lib s) (hlaw : lib.Lawful)
    (hstep : (machine lib seeds).step s event = some t) : ServerOk lib t := by
  cases step_cases hstep with
  | createWallet req entropy hidle => exact hs.createWallet hidle req entropy
  | setupBlockchainProxy req client observable hidle =>
      obtain ⟨handler, hhandlers, hcall⟩ :=
        setupBlockchainProxy_handler s.repos s.state req client observable
      refine ⟨hs.stored, ?_, ?_, ?_, hs.looping⟩
      · dsimp only
        rw [hhandlers]
        exact TaskList.forall₂_append_singleton hs.calls hcall
      · have hserver : (serverMachine ServerWallet).step s.state
            (.setupBlockchainProxy req client observable) = some _ := rfl
        exact hs.wallets.step (fun w hw => by cases hw) hserver
      · intro _ call hcall'
        rcases List.mem_append.mp hcall' with hold | hnew
        · exact hs.idle hidle call hold
        · rw [List.mem_singleton.mp hnew]
          split <;> simp
  | answered hturn hidle hcall hanswer hserver =>
      obtain ⟨handler, hhandler, hok⟩ := TaskList.forall₂_getElem? hs.calls hcall
      obtain ⟨⟨handler', hhandlers, hnext⟩, hwallet⟩ := hok.answer hhandler hanswer hserver
      refine ⟨hs.stored, ?_, hs.wallets.step hwallet hserver, ?_, hs.looping⟩
      · dsimp only
        rw [hhandlers]
        exact TaskList.forall₂_set hs.calls hnext _
      · intro _ call hmem
        rcases List.mem_or_eq_of_mem_set hmem with hold | rfl
        · exact hs.idle hidle call hold
        · exact hanswer.next_ne
  | notPruned hidle hcall =>
      obtain ⟨handler, hhandler, hok⟩ := TaskList.forall₂_getElem? hs.calls hcall
      cases hok with
      | isPruned hkept =>
          obtain ⟨master, hmaster⟩ := hkept.node
          refine ⟨hs.stored, ?_, hs.wallets, ?_, hs.looping⟩
          · rw [hmaster]
            exact TaskList.forall₂_set_right hs.calls hhandler (.getHDNode hkept)
          · intro _ call hmem
            rcases List.mem_or_eq_of_mem_set hmem with hold | rfl
            · exact hs.idle hidle call hold
            · simp
  | found hidle hcall nextRef =>
      obtain ⟨handler, hhandler, hok⟩ := TaskList.forall₂_getElem? hs.calls hcall
      cases hok with
      | getHDNode hkept =>
          refine ⟨hs.stored, ?_, hs.wallets, fun h => (Option.some_ne_none _ h).elim, ?_⟩
          · exact TaskList.forall₂_set_right hs.calls hhandler .syncHDNode
          · intro syncing h
            rw [← Option.some.inj h]
            exact ⟨rfl, rfl, rfl⟩
  | synced hsyncing hsync hafter =>
      obtain ⟨-, hloop, heq⟩ := hs.synced hlaw hsyncing hsync
      obtain rfl := Option.some.inj (heq.symm.trans hafter)
      refine ⟨hs.stored, hs.calls, hs.wallets, fun h => (Option.some_ne_none _ h).elim, ?_⟩
      intro syncing' h
      rw [← Option.some.inj h]
      exact hloop

end Invariant

end WalletServer

end Walletts
