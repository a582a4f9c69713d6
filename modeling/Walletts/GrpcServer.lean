import Walletts.WalletService
import Walletts.Lib.Machine
/-!
# The server

`GRPCServer` keeps one wallet, one proxy of a blockchain and one stream of its
events.  Its requests are handled concurrently: each handler runs up to its next
`await`, and goes on when what it waits for has been answered, after any number
of steps of the others.
-/

namespace Walletts

namespace GrpcServer

/-! ## Requests -/

inductive GrpcValue
  | number (n : Nat)
  | name (s : String)
  deriving DecidableEq

def GrpcValue.truthy : GrpcValue → Bool
  | .number n => n ≠ 0
  | .name s => s ≠ ""

namespace GrpcNetworkInfo

def btcmain : GrpcValue := .number 0

def btctest : GrpcValue := .number 1

def names : List String := ["btcmain", "btctest"]

end GrpcNetworkInfo

namespace BchInfoSource

def trustedRpc : GrpcValue := .number 0

def names : List String := ["trusted_rpc", "blockchain_info"]

end BchInfoSource

structure CreateWalletRequest where
  nameSpace : String
  passPhrase : Option String
  network : Option GrpcValue
  seed : Option (List String)

structure SetupBlockchainRequest where
  type : Option GrpcValue
  confPath : String
  rpcusername : String
  rpcpass : String
  rpcip : String
  rpcport : String
  zmqurl : String

/-- The network a request asks for.  No network counts as none, and so does the
main network, whose number is zero. -/
def networkOf (network : Option GrpcValue) : Option Network :=
  match network with
  | none => none
  | some value =>
      if value.truthy ∧ value = GrpcNetworkInfo.btcmain then some .bitcoin
      else if value.truthy ∧ value = GrpcNetworkInfo.btctest then some .testnet
      else none

def supported (type : Option GrpcValue) : Bool :=
  type = some BchInfoSource.trustedRpc ∨ type = some (.name "trusted_rpc")

/-! ## The state of the server -/

structure TrustedBitcoindRPC where
  request : Nat
  confPath : String
  rpcusername : String
  rpcpass : String
  rpcip : String
  rpcport : String

structure ObservableBlockchain where
  request : Nat
  zmqurl : String

structure GRPCServer (W : Type) where
  wallet : Option W
  bchproxy : Option TrustedBitcoindRPC
  observableBlockchain : Option ObservableBlockchain

/-- What a handler waits for, or how it has ended. -/
inductive Handler
  | creatingFromSeed (nameSpace : String) (seed : List String) (network : Option Network)
      (passPhrase : Option String)
  | creatingNew (nameSpace : String) (network : Option Network) (passPhrase : Option String)
  | discovering
  | pinging
  | answered (success : Bool)
  | threw (e : JsError)

/-- An assignment to the wallet.  It is final if the request was answered with
it. -/
structure WalletWrite (W : Type) where
  request : Nat
  wallet : W
  final : Bool

/-- The server, its handlers in the order of their requests, and what has been
assigned so far: the wallets, the last one first, and the requests that have set
up a proxy. -/
structure ServerState (W : Type) where
  server : GRPCServer W
  handlers : List Handler
  walletWrites : List (WalletWrite W)
  pairWrites : List Nat

/-- A request arrives, or what a handler waits for is answered.  Making the
client and opening the stream are part of the first step of their request. -/
inductive ServerEvent (W : Type)
  | createWallet (req : CreateWalletRequest)
  | created (request : Nat) (result : Except JsError W)
  | discovered (request : Nat) (result : Except JsError W)
  | setupBlockchainProxy (req : SetupBlockchainRequest) (client observable : Except JsError Unit)
  | pinged (request : Nat) (result : Except JsError Unit)

namespace ServerState

variable {W : Type}

def start (wallet : Option W) : ServerState W := ⟨⟨wallet, none, none⟩, [], [], []⟩

def setHandler (s : ServerState W) (request : Nat) (handler : Handler) : ServerState W :=
  { s with handlers := s.handlers.set request handler }

def setWallet (s : ServerState W) (request : Nat) (wallet : W) (handler : Handler) :
    ServerState W :=
  let final := match handler with
    | .answered true => true
    | _ => false
  { s.setHandler request handler with
    server := { s.server with wallet := some wallet }
    walletWrites := ⟨request, wallet, final⟩ :: s.walletWrites }

def createWallet (s : ServerState W) (req : CreateWalletRequest) : ServerState W :=
  let network := networkOf req.network
  let handler : Handler := match req.seed with
    | some (word :: words) => .creatingFromSeed req.nameSpace (word :: words) network req.passPhrase
    | _ => .creatingNew req.nameSpace network req.passPhrase
  { s with handlers := s.handlers ++ [handler] }

def createdFromSeed (s : ServerState W) (request : Nat) : Except JsError W → ServerState W
  | .error e => s.setHandler request (.threw e)
  | .ok wallet =>
      if s.server.bchproxy.isSome ∧ s.server.observableBlockchain.isSome then
        s.setWallet request wallet .discovering
      else s.setWallet request wallet (.answered true)

def finish (s : ServerState W) (request : Nat) : Except JsError W → ServerState W
  | .error e => s.setHandler request (.threw e)
  | .ok wallet => s.setWallet request wallet (.answered true)

def setupBlockchainProxy (s : ServerState W) (req : SetupBlockchainRequest)
    (client observable : Except JsError Unit) : ServerState W :=
  let request := s.handlers.length
  if supported req.type then
    match client with
    | .error e => { s with handlers := s.handlers ++ [.threw e] }
    | .ok _ =>
        let bchproxy : TrustedBitcoindRPC :=
          ⟨request, req.confPath, req.rpcusername, req.rpcpass, req.rpcip, req.rpcport⟩
        match observable with
        | .error e =>
            ⟨{ s.server with bchproxy := some bchproxy }, s.handlers ++ [.threw e],
              s.walletWrites, request :: s.pairWrites⟩
        | .ok _ =>
            ⟨⟨s.server.wallet, some bchproxy, some ⟨request, req.zmqurl⟩⟩,
              s.handlers ++ [.pinging], s.walletWrites, request :: s.pairWrites⟩
  else { s with handlers := s.handlers ++ [.answered false] }

end ServerState

def serverMachine (W : Type) : Machine (ServerState W) (ServerEvent W) where
  step s
    | .createWallet req => some (s.createWallet req)
    | .created request result =>
        match s.handlers[request]? with
        | some (.creatingFromSeed _ _ _ _) => some (s.createdFromSeed request result)
        | some (.creatingNew _ _ _) => some (s.finish request result)
        | _ => none
    | .discovered request result =>
        match s.handlers[request]? with
        | some .discovering => some (s.finish request result)
        | _ => none
    | .setupBlockchainProxy req client observable =>
        some (s.setupBlockchainProxy req client observable)
    | .pinged request result =>
        match s.handlers[request]? with
        | some .pinging =>
            some (s.setHandler request (.answered (match result with
              | .ok _ => true
              | .error _ => false)))
        | _ => none

inductive ServerStep {W : Type} (s : ServerState W) : ServerEvent W → ServerState W → Prop
  | createWallet (req : CreateWalletRequest) :
      ServerStep s (.createWallet req) (s.createWallet req)
  | createdFromSeed {request : Nat} {nameSpace : String} {seed : List String}
      {network : Option Network} {passPhrase : Option String}
      (hhandler : s.handlers[request]? = some (.creatingFromSeed nameSpace seed network passPhrase))
      (result : Except JsError W) :
      ServerStep s (.created request result) (s.createdFromSeed request result)
  | createdNew {request : Nat} {nameSpace : String} {network : Option Network}
      {passPhrase : Option String}
      (hhandler : s.handlers[request]? = some (.creatingNew nameSpace network passPhrase))
      (result : Except JsError W) :
      ServerStep s (.created request result) (s.finish request result)
  | discovered {request : Nat} (hhandler : s.handlers[request]? = some .discovering)
      (result : Except JsError W) :
      ServerStep s (.discovered request result) (s.finish request result)
  | setupBlockchainProxy (req : SetupBlockchainRequest) (client observable : Except JsError Unit) :
      ServerStep s (.setupBlockchainProxy req client observable)
        (s.setupBlockchainProxy req client observable)
  | pinged {request : Nat} (hhandler : s.handlers[request]? = some .pinging)
      (result : Except JsError Unit) (success : Bool)
      (hsuccess : success = true ↔ result = .ok ()) :
      ServerStep s (.pinged request result) (s.setHandler request (.answered success))

theorem step_cases {W : Type} {s t : ServerState W} {event : ServerEvent W}
    (hstep : (serverMachine W).step s event = some t) : ServerStep s event t := by
  cases event with
  | createWallet req =>
      obtain rfl := Option.some.inj hstep
      exact .createWallet req
  | created request result =>
      simp only [serverMachine] at hstep
      split at hstep
      · rename_i hhandler
        obtain rfl := Option.some.inj hstep
        exact .createdFromSeed hhandler result
      · rename_i hhandler
        obtain rfl := Option.some.inj hstep
        exact .createdNew hhandler result
      · cases hstep
  | discovered request result =>
      simp only [serverMachine] at hstep
      split at hstep
      · rename_i hhandler
        obtain rfl := Option.some.inj hstep
        exact .discovered hhandler result
      · cases hstep
  | setupBlockchainProxy req client observable =>
      obtain rfl := Option.some.inj hstep
      exact .setupBlockchainProxy req client observable
  | pinged request result =>
      simp only [serverMachine] at hstep
      split at hstep
      · rename_i hhandler
        obtain rfl := Option.some.inj hstep
        exact .pinged hhandler result _ (by cases result <;> simp)
      · cases hstep

/-! ## The wallet of the server -/

section Wallet

variable {W : Type} {initial : Option W} {s t : ServerState W} {event : ServerEvent W}

def Handler.createsWallet : Handler → Bool
  | .creatingFromSeed _ _ _ _ => true
  | .creatingNew _ _ _ => true
  | .discovering => true
  | _ => false

def ServerState.Quiet (s : ServerState W) : Prop :=
  ∀ handler ∈ s.handlers, handler.createsWallet = false

instance (s : ServerState W) : Decidable s.Quiet :=
  inferInstanceAs (Decidable (∀ handler ∈ s.handlers, handler.createsWallet = false))

def ServerState.lastAnswered (s : ServerState W) : Option W :=
  (s.walletWrites.find? WalletWrite.final).map WalletWrite.wallet

def ServerState.walletFrom (s : ServerState W) : Option Nat :=
  s.walletWrites.head?.map WalletWrite.request

/-- The server has the wallet that was assigned last.  It is the final one of
the request answered last while no request for a wallet is in flight, and never
one that a failed request has assigned. -/
structure WalletKept (initial : Option W) (s : ServerState W) : Prop where
  wallet_eq : s.server.wallet = (s.walletWrites.head?.map WalletWrite.wallet).or initial
  quiet : s.Quiet → s.server.wallet = s.lastAnswered.or initial
  noTrace : ∀ request e, s.handlers[request]? = some (.threw e) → s.walletFrom ≠ some request

/-- The accounts of a new wallet are looked for in vain only if another request
has assigned a wallet since. -/
def ServerEvent.Overtaken (s : ServerState W) : ServerEvent W → Prop
  | .discovered request (.error _) => s.walletFrom ≠ some request
  | _ => True

/-- How far a request can be that has assigned the wallet last. -/
def WalletWrite.By (write : WalletWrite W) (handler : Handler) : Prop :=
  if write.final then handler = .answered true
  else handler = .discovering ∨ ∃ e, handler = .threw e

structure WalletBooks (initial : Option W) (s : ServerState W) : Prop where
  wallet_eq : s.server.wallet = (s.walletWrites.head?.map WalletWrite.wallet).or initial
  last : ∀ write, s.walletWrites.head? = some write →
    ∃ handler, s.handlers[write.request]? = some handler ∧ write.By handler

inductive WalletStep (s : ServerState W) (event : ServerEvent W) (t : ServerState W) : Prop
  | frame (hwallet : t.server.wallet = s.server.wallet) (hwrites : t.walletWrites = s.walletWrites)
      (hhandler : ∀ request, s.walletFrom = some request →
        t.handlers[request]? = s.handlers[request]?)
      (hovertaken : event.Overtaken s)
  | assigned (write : WalletWrite W) (handler : Handler)
      (hwallet : t.server.wallet = some write.wallet)
      (hwrites : t.walletWrites = write :: s.walletWrites)
      (hhandler : t.handlers[write.request]? = some handler) (hby : write.By handler)
      (hended : ∀ e, handler ≠ .threw e) (hovertaken : event.Overtaken s)
  | failed (request : Nat) (e : JsError) (hfrom : s.walletFrom = some request)
      (hdiscovering : s.handlers[request]? = some .discovering)
      (hwallet : t.server.wallet = s.server.wallet) (hwrites : t.walletWrites = s.walletWrites)
      (hhandler : t.handlers[request]? = some (.threw e)) (hevent : ¬event.Overtaken s)

theorem WalletBooks.of_walletFrom (hs : WalletBooks initial s) {request : Nat}
    (h : s.walletFrom = some request) : ∃ write handler,
      s.walletWrites.head? = some write ∧ write.request = request ∧
        s.handlers[request]? = some handler ∧ write.By handler := by
  obtain ⟨write, hwrite, rfl⟩ := Option.map_eq_some_iff.mp h
  obtain ⟨handler, hhandler, hby⟩ := hs.last write hwrite
  exact ⟨write, handler, hwrite, rfl, hhandler, hby⟩

theorem WalletWrite.By.ended {write : WalletWrite W} {handler : Handler} (h : write.By handler) :
    handler = .answered true ∨ handler = .discovering ∨ ∃ e, handler = .threw e := by
  unfold WalletWrite.By at h
  split at h
  · exact .inl h
  · exact .inr h

theorem walletStep_append (hs : WalletBooks initial s) {handler : Handler}
    (hwallet : t.server.wallet = s.server.wallet) (hwrites : t.walletWrites = s.walletWrites)
    (hhandlers : t.handlers = s.handlers ++ [handler]) (hovertaken : event.Overtaken s) :
    WalletStep s event t := by
  refine .frame hwallet hwrites (fun request hfrom => ?_) hovertaken
  obtain ⟨write, kept, -, -, hkept, -⟩ := hs.of_walletFrom hfrom
  rw [hhandlers, List.getElem?_append_left (List.getElem?_eq_some_iff.mp hkept).1]

theorem walletStep_setHandler {request : Nat} (hrequest : s.walletFrom ≠ some request)
    (handler : Handler) (hovertaken : event.Overtaken s) :
    WalletStep s event (s.setHandler request handler) := by
  refine .frame rfl rfl (fun n hfrom => ?_) hovertaken
  have hne : request ≠ n := fun h => hrequest (h ▸ hfrom)
  exact List.getElem?_set_ne hne

theorem WalletBooks.walletFrom_ne (hs : WalletBooks initial s) {request : Nat} {handler : Handler}
    (hhandler : s.handlers[request]? = some handler) (hanswered : handler ≠ .answered true)
    (hdiscovering : handler ≠ .discovering) (hthrew : ∀ e, handler ≠ .threw e) :
    s.walletFrom ≠ some request := by
  intro hfrom
  obtain ⟨write, kept, -, -, hkept, hby⟩ := hs.of_walletFrom hfrom
  obtain rfl := Option.some.inj (hhandler.symm.trans hkept)
  rcases hby.ended with h | h | ⟨e, h⟩
  · exact hanswered h
  · exact hdiscovering h
  · exact hthrew e h

theorem walletStep_answered {request : Nat} (hlt : request < s.handlers.length) (wallet : W)
    (hovertaken : event.Overtaken s) :
    WalletStep s event (s.setWallet request wallet (.answered true)) :=
  .assigned ⟨request, wallet, true⟩ (.answered true) rfl rfl (List.getElem?_set_self hlt) rfl
    (fun _ h => nomatch h) hovertaken

theorem setupBlockchainProxy_frame (s : ServerState W) (req : SetupBlockchainRequest)
    (client observable : Except JsError Unit) :
    (s.setupBlockchainProxy req client observable).server.wallet = s.server.wallet ∧
      (s.setupBlockchainProxy req client observable).walletWrites = s.walletWrites ∧
      ∃ handler, (s.setupBlockchainProxy req client observable).handlers =
        s.handlers ++ [handler] := by
  unfold ServerState.setupBlockchainProxy
  dsimp only
  split
  · cases client with
    | error e => exact ⟨rfl, rfl, _, rfl⟩
    | ok _ => cases observable <;> exact ⟨rfl, rfl, _, rfl⟩
  · exact ⟨rfl, rfl, _, rfl⟩

theorem walletStep_createdFromSeed {request : Nat} (hlt : request < s.handlers.length)
    (hfrom : s.walletFrom ≠ some request) (result : Except JsError W)
    (hovertaken : event.Overtaken s) :
    WalletStep s event (s.createdFromSeed request result) := by
  cases result with
  | error e => exact walletStep_setHandler hfrom _ hovertaken
  | ok wallet =>
      unfold ServerState.createdFromSeed
      dsimp only
      split
      · exact .assigned ⟨request, wallet, false⟩ .discovering rfl rfl (List.getElem?_set_self hlt)
          (.inl rfl) (fun _ h => nomatch h) hovertaken
      · exact walletStep_answered hlt wallet hovertaken

theorem step_wallet (hs : WalletBooks initial s) (hstep : (serverMachine W).step s event = some t) :
    WalletStep s event t := by
  cases step_cases hstep with
  | createWallet req => exact walletStep_append hs rfl rfl rfl trivial
  | createdFromSeed hhandler result =>
      exact walletStep_createdFromSeed (List.getElem?_eq_some_iff.mp hhandler).1
        (hs.walletFrom_ne hhandler (by simp) (by simp) (by simp)) result trivial
  | createdNew hhandler result =>
      cases result with
      | error e =>
          exact walletStep_setHandler (hs.walletFrom_ne hhandler (by simp) (by simp) (by simp)) _
            trivial
      | ok wallet =>
          exact walletStep_answered (List.getElem?_eq_some_iff.mp hhandler).1 wallet trivial
  | @discovered request hhandler result =>
      have hlt := (List.getElem?_eq_some_iff.mp hhandler).1
      cases result with
      | error e =>
          by_cases hfrom : s.walletFrom = some request
          · exact .failed request e hfrom hhandler rfl rfl (List.getElem?_set_self hlt)
              fun hne => hne hfrom
          · exact walletStep_setHandler hfrom _ hfrom
      | ok wallet => exact walletStep_answered hlt wallet trivial
  | setupBlockchainProxy req client observable =>
      obtain ⟨hwallet, hwrites, handler, hhandlers⟩ :=
        setupBlockchainProxy_frame s req client observable
      exact walletStep_append hs hwallet hwrites hhandlers trivial
  | pinged hhandler result success hsuccess =>
      exact walletStep_setHandler (hs.walletFrom_ne hhandler (by simp) (by simp) (by simp)) _
        trivial

theorem WalletBooks.step (hs : WalletBooks initial s)
    (hstep : (serverMachine W).step s event = some t) : WalletBooks initial t := by
  cases step_wallet hs hstep with
  | frame hwallet hwrites hhandler hovertaken =>
      refine ⟨by rw [hwallet, hwrites, hs.wallet_eq], fun write hwrite => ?_⟩
      rw [hwrites] at hwrite
      rw [hhandler _ (Option.map_eq_some_iff.mpr ⟨write, hwrite, rfl⟩)]
      exact hs.last write hwrite
  | assigned write handler hwallet hwrites hhandler hby hended hovertaken =>
      refine ⟨by rw [hwallet, hwrites]; rfl, fun write' hwrite => ?_⟩
      rw [hwrites, List.head?_cons, Option.some.injEq] at hwrite
      exact hwrite ▸ ⟨handler, hhandler, hby⟩
  | failed request e hfrom hdiscovering hwallet hwrites hhandler hevent =>
      refine ⟨by rw [hwallet, hwrites, hs.wallet_eq], fun write hwrite => ?_⟩
      rw [hwrites] at hwrite
      obtain ⟨write', kept, hwrite', rfl, hkept, hby⟩ := hs.of_walletFrom hfrom
      obtain rfl := Option.some.inj (hwrite.symm.trans hwrite')
      obtain rfl := Option.some.inj (hdiscovering.symm.trans hkept)
      refine ⟨_, hhandler, ?_⟩
      -- the handler was still looking for accounts, so its wallet is not final
      unfold WalletWrite.By at hby ⊢
      split at hby
      · cases hby
      · rename_i hfinal
        rw [if_neg hfinal]
        exact .inr ⟨e, rfl⟩

theorem WalletBooks.kept (hs : WalletBooks initial s)
    (h : ∀ request e, s.handlers[request]? = some (.threw e) → s.walletFrom ≠ some request) :
    WalletKept initial s where
  wallet_eq := hs.wallet_eq
  quiet := by
    intro hquiet
    rw [hs.wallet_eq, ServerState.lastAnswered]
    cases hwrites : s.walletWrites with
    | nil => rfl
    | cons write writes =>
        have hhead : s.walletWrites.head? = some write := by rw [hwrites, List.head?_cons]
        obtain ⟨handler, hhandler, hby⟩ := hs.last write hhead
        cases hfinal : write.final with
        | true => simp [hfinal]
        | false =>
            simp only [WalletWrite.By, hfinal, Bool.false_eq_true, if_false] at hby
            rcases hby with rfl | ⟨e, rfl⟩
            · cases hquiet _ (List.mem_of_getElem? hhandler)
            · exact absurd (Option.map_eq_some_iff.mpr ⟨write, hhead, rfl⟩) (h _ e hhandler)
  noTrace := h

/-- A step leaves a trace exactly when the accounts of the wallet that was
assigned last are looked for in vain. -/
theorem WalletKept.step_iff (hs : WalletKept initial s) (hbooks : WalletBooks initial s)
    (hstep : (serverMachine W).step s event = some t) :
    WalletKept initial t ↔ event.Overtaken s := by
  have ht := hbooks.step hstep
  cases step_wallet hbooks hstep with
  | frame hwallet hwrites hhandler hovertaken =>
      refine iff_of_true (ht.kept fun request e hthrew hfrom => ?_) hovertaken
      have hold : s.walletFrom = some request := by rwa [ServerState.walletFrom, ← hwrites]
      exact hs.noTrace request e ((hhandler request hold).symm.trans hthrew) hold
  | assigned write handler hwallet hwrites hhandler hby hended hovertaken =>
      refine iff_of_true (ht.kept fun request e hthrew hfrom => ?_) hovertaken
      rw [ServerState.walletFrom, hwrites] at hfrom
      obtain rfl := Option.some.inj hfrom
      exact hended e (Option.some.inj (hhandler.symm.trans hthrew))
  | failed request e hfrom hdiscovering hwallet hwrites hhandler hevent =>
      refine iff_of_false (fun hkept => hkept.noTrace request e hhandler ?_) hevent
      rwa [ServerState.walletFrom, hwrites]

theorem walletBooks_start (initial : Option W) :
    WalletBooks initial (ServerState.start initial) where
  wallet_eq := (Option.none_or).symm
  last := fun _ hwrite => nomatch hwrite

/-- In every state of a run the wallet is the final one of the request answered
last, if no request for a wallet is in flight, and bears no trace of the requests
that have failed, exactly when the accounts of a wallet are looked for in vain
only after another request has assigned one. -/
theorem walletKept_iff {events : List (ServerEvent W)}
    (hrun : (serverMachine W).run (.start initial) events = some t) :
    (∀ earlier u, earlier <+: events → (serverMachine W).run (.start initial) earlier = some u →
      WalletKept initial u) ↔
      (serverMachine W).Within (fun s event => event.Overtaken s) (.start initial) events := by
  have hbooks : ∀ earlier u, (serverMachine W).run (.start initial) earlier = some u →
      WalletBooks initial u := fun earlier u hu =>
    Machine.run_invariant (fun _ _ _ hs hstep => hs.step hstep) hu (walletBooks_start initial)
  have hstart : WalletKept initial (ServerState.start initial) :=
    (walletBooks_start initial).kept fun _ _ h => nomatch h
  have hpre := Machine.forall_prefix_iff_within (M := serverMachine W)
    (P := fun s => WalletKept initial s ∧ WalletBooks initial s)
    (G := fun s event => event.Overtaken s)
    (fun s event u hs hstep => by
      rw [← hs.1.step_iff hs.2 hstep, and_iff_left (hs.2.step hstep)])
    hrun ⟨hstart, walletBooks_start initial⟩
  rw [← hpre]
  constructor
  · exact fun h earlier u hearlier hu => ⟨h earlier u hearlier hu, hbooks earlier u hu⟩
  · exact fun h earlier u hearlier hu => (h earlier u hearlier hu).1

end Wallet

/-! ## The proxy and the stream -/

section Pair

variable {W : Type} {s t : ServerState W} {event : ServerEvent W}

def Handler.failed : Handler → Bool
  | .answered success => !success
  | .threw _ => true
  | _ => false

/-- The proxy and the stream are from one request, and no request that has
failed has set either of them. -/
structure PairConsistent (s : ServerState W) : Prop where
  same : s.server.bchproxy.map TrustedBitcoindRPC.request =
    s.server.observableBlockchain.map ObservableBlockchain.request
  untouched : ∀ request ∈ s.pairWrites, ∀ handler, s.handlers[request]? = some handler →
    handler.failed = false

structure PairBooks (s : ServerState W) : Prop where
  kept : ∀ request ∈ s.pairWrites, ∃ handler, s.handlers[request]? = some handler ∧
    handler.createsWallet = false
  pinging : ∀ request, s.handlers[request]? = some .pinging → request ∈ s.pairWrites

/-- No request fails once it has set the proxy: the stream can be opened, and
the ping is answered. -/
def ServerEvent.Connects : ServerEvent W → Prop
  | .setupBlockchainProxy req (.ok _) (.error _) => supported req.type = false
  | .pinged _ (.error _) => False
  | _ => True

structure PairFrame (s t : ServerState W) : Prop where
  bchproxy : t.server.bchproxy = s.server.bchproxy
  observable : t.server.observableBlockchain = s.server.observableBlockchain
  pairWrites : t.pairWrites = s.pairWrites
  handlers : ∀ request ∈ s.pairWrites, t.handlers[request]? = s.handlers[request]?
  pinging : ∀ request : Nat, t.handlers[request]? = some Handler.pinging →
    s.handlers[request]? = some Handler.pinging

theorem PairFrame.consistent (h : PairFrame s t) (hs : PairConsistent s) : PairConsistent t where
  same := by
    rw [h.bchproxy, h.observable]
    exact hs.same
  untouched := by
    intro request hmem handler hhandler
    rw [h.pairWrites] at hmem
    rw [h.handlers request hmem] at hhandler
    exact hs.untouched request hmem handler hhandler

theorem PairFrame.books (h : PairFrame s t) (hs : PairBooks s) : PairBooks t where
  kept := by
    intro request hmem
    rw [h.pairWrites] at hmem
    rw [h.handlers request hmem]
    exact hs.kept request hmem
  pinging := by
    intro request hhandler
    rw [h.pairWrites]
    exact hs.pinging request (h.pinging request hhandler)

theorem pairFrame_append (hs : PairBooks s) {handler : Handler} (hne : handler ≠ .pinging)
    (hserver : t.server = s.server) (hwrites : t.pairWrites = s.pairWrites)
    (hhandlers : t.handlers = s.handlers ++ [handler]) : PairFrame s t where
  bchproxy := by rw [hserver]
  observable := by rw [hserver]
  pairWrites := hwrites
  handlers := by
    intro request hmem
    obtain ⟨handler', hhandler, -⟩ := hs.kept request hmem
    rw [hhandlers, List.getElem?_append_left (List.getElem?_eq_some_iff.mp hhandler).1]
  pinging := by
    intro request hpinging
    rw [hhandlers, List.getElem?_append] at hpinging
    split at hpinging
    · exact hpinging
    · rw [List.getElem?_singleton] at hpinging
      split at hpinging
      · exact absurd (Option.some.inj hpinging) hne
      · cases hpinging

theorem pairFrame_set (hs : PairBooks s) {request : Nat} {handler handler' : Handler}
    (hhandler : s.handlers[request]? = some handler) (hcreates : handler.createsWallet = true)
    (hne : handler' ≠ .pinging) (hbchproxy : t.server.bchproxy = s.server.bchproxy)
    (hobservable : t.server.observableBlockchain = s.server.observableBlockchain)
    (hwrites : t.pairWrites = s.pairWrites)
    (hhandlers : t.handlers = s.handlers.set request handler') : PairFrame s t where
  bchproxy := hbchproxy
  observable := hobservable
  pairWrites := hwrites
  handlers := by
    intro n hmem
    obtain ⟨kept, hkept, hwaits⟩ := hs.kept n hmem
    have hother : request ≠ n := by
      rintro rfl
      rw [hhandler, Option.some.injEq] at hkept
      rw [hkept, hwaits] at hcreates
      cases hcreates
    rw [hhandlers, List.getElem?_set_ne hother]
  pinging := by
    intro n hpinging
    rw [hhandlers] at hpinging
    by_cases hother : request = n
    · subst hother
      rw [List.getElem?_set_self (List.getElem?_eq_some_iff.mp hhandler).1] at hpinging
      exact absurd (Option.some.inj hpinging) hne
    · rwa [List.getElem?_set_ne hother] at hpinging

/-- What a step does to the pair.  A request sets the proxy as it arrives, and
the stream with it unless that cannot be opened. -/
inductive PairStep (s : ServerState W) (event : ServerEvent W) (t : ServerState W) : Prop
  | frame (h : PairFrame s t) (hconnects : event.Connects)
  | opened (handler : Handler) (hcreates : handler.createsWallet = false)
      (hhandlers : t.handlers = s.handlers ++ [handler])
      (hwrites : t.pairWrites = s.handlers.length :: s.pairWrites)
      (hproxy : t.server.bchproxy.map TrustedBitcoindRPC.request = some s.handlers.length)
      (hconnects : event.Connects → handler.failed = false ∧
        t.server.observableBlockchain.map ObservableBlockchain.request = some s.handlers.length)
      (hfailed : handler.failed = false → event.Connects)
  | pinged (request : Nat) (success : Bool) (hpinging : s.handlers[request]? = some .pinging)
      (hserver : t.server = s.server) (hwrites : t.pairWrites = s.pairWrites)
      (hhandlers : t.handlers = s.handlers.set request (.answered success))
      (hconnects : event.Connects ↔ success = true)

theorem pairStep_setup (hs : PairBooks s) (req : SetupBlockchainRequest)
    (client observable : Except JsError Unit) :
    PairStep s (.setupBlockchainProxy req client observable)
      (s.setupBlockchainProxy req client observable) := by
  unfold ServerState.setupBlockchainProxy
  dsimp only
  by_cases htype : supported req.type = true
  · rw [if_pos htype]
    cases client with
    | error e => exact .frame (pairFrame_append hs (by simp) rfl rfl rfl) trivial
    | ok _ =>
        cases observable with
        | error e =>
            refine .opened (.threw e) rfl rfl rfl rfl ?_ ?_
            · intro hconnects
              rw [ServerEvent.Connects, htype] at hconnects
              cases hconnects
            · intro hfailed
              cases hfailed
        | ok _ => exact .opened .pinging rfl rfl rfl rfl (fun _ => ⟨rfl, rfl⟩) fun _ => trivial
  · rw [if_neg htype]
    refine .frame (pairFrame_append hs (by simp) rfl rfl rfl) ?_
    cases client with
    | error e => trivial
    | ok _ =>
        cases observable with
        | error e => exact Bool.eq_false_of_not_eq_true htype
        | ok _ => trivial

theorem pairStep_finish (hs : PairBooks s) {request : Nat} {handler : Handler}
    (hhandler : s.handlers[request]? = some handler) (hcreates : handler.createsWallet = true)
    (hconnects : event.Connects) (result : Except JsError W) :
    PairStep s event (s.finish request result) := by
  cases result <;>
    exact .frame (pairFrame_set hs hhandler hcreates (by simp) rfl rfl rfl rfl) hconnects

theorem pairStep_createdFromSeed (hs : PairBooks s) {request : Nat} {handler : Handler}
    (hhandler : s.handlers[request]? = some handler) (hcreates : handler.createsWallet = true)
    (hconnects : event.Connects) (result : Except JsError W) :
    PairStep s event (s.createdFromSeed request result) := by
  cases result with
  | error e => exact .frame (pairFrame_set hs hhandler hcreates (by simp) rfl rfl rfl rfl) hconnects
  | ok wallet =>
      unfold ServerState.createdFromSeed
      dsimp only
      split <;>
        exact .frame (pairFrame_set hs hhandler hcreates (by simp) rfl rfl rfl rfl) hconnects

theorem step_pair (hs : PairBooks s) (hstep : (serverMachine W).step s event = some t) :
    PairStep s event t := by
  cases step_cases hstep with
  | createWallet req =>
      refine .frame (pairFrame_append hs ?_ rfl rfl rfl) trivial
      cases req.seed with
      | none => simp
      | some words => cases words <;> simp
  | createdFromSeed hhandler result =>
      exact pairStep_createdFromSeed hs hhandler rfl (by trivial) result
  | createdNew hhandler result => exact pairStep_finish hs hhandler rfl (by trivial) result
  | discovered hhandler result => exact pairStep_finish hs hhandler rfl (by trivial) result
  | setupBlockchainProxy req client observable => exact pairStep_setup hs req client observable
  | pinged hhandler result success hsuccess =>
      refine .pinged _ success hhandler rfl rfl rfl ?_
      rw [hsuccess]
      cases result <;> simp [ServerEvent.Connects]

theorem PairBooks.step (hs : PairBooks s) (hstep : (serverMachine W).step s event = some t) :
    PairBooks t := by
  cases step_pair hs hstep with
  | frame h hconnects => exact h.books hs
  | opened handler hcreates hhandlers hwrites hproxy hconnects hfailed =>
      refine ⟨?_, ?_⟩
      · intro request hmem
        rw [hwrites, List.mem_cons] at hmem
        rcases hmem with rfl | hmem
        · exact ⟨handler, by rw [hhandlers, List.getElem?_concat_length], hcreates⟩
        · obtain ⟨kept, hkept, hwaits⟩ := hs.kept request hmem
          refine ⟨kept, ?_, hwaits⟩
          rw [hhandlers, List.getElem?_append_left (List.getElem?_eq_some_iff.mp hkept).1, hkept]
      · intro request hpinging
        have hlt := (List.getElem?_eq_some_iff.mp hpinging).1
        rw [hhandlers, List.length_append, List.length_singleton] at hlt
        rw [hwrites, List.mem_cons]
        rcases Nat.lt_or_eq_of_le (Nat.le_of_lt_succ hlt) with hold | hnew
        · rw [hhandlers, List.getElem?_append_left hold] at hpinging
          exact .inr (hs.pinging request hpinging)
        · exact .inl hnew
  | pinged request success hpinging hserver hwrites hhandlers hconnects =>
      have hlt := (List.getElem?_eq_some_iff.mp hpinging).1
      refine ⟨?_, ?_⟩
      · intro n hmem
        rw [hwrites] at hmem
        rw [hhandlers]
        by_cases hn : request = n
        · subst hn
          exact ⟨_, List.getElem?_set_self hlt, rfl⟩
        · rw [List.getElem?_set_ne hn]
          exact hs.kept n hmem
      · intro n hn
        rw [hwrites]
        rw [hhandlers] at hn
        by_cases hother : request = n
        · exact hs.pinging n (hother ▸ hpinging)
        · rw [List.getElem?_set_ne hother] at hn
          exact hs.pinging n hn

theorem PairConsistent.step_iff (hs : PairConsistent s) (hbooks : PairBooks s)
    (hstep : (serverMachine W).step s event = some t) : PairConsistent t ↔ event.Connects := by
  cases step_pair hbooks hstep with
  | frame h hconnects => exact iff_of_true (h.consistent hs) hconnects
  | opened handler hcreates hhandlers hwrites hproxy hconnects hfailed =>
      have hnew : t.handlers[s.handlers.length]? = some handler := by
        rw [hhandlers, List.getElem?_concat_length]
      refine ⟨fun ht => hfailed (ht.untouched _ (hwrites ▸ List.mem_cons_self) handler hnew), ?_⟩
      intro hc
      obtain ⟨hok, hobservable⟩ := hconnects hc
      refine ⟨hproxy.trans hobservable.symm, ?_⟩
      intro request hmem handler' hhandler
      rw [hwrites, List.mem_cons] at hmem
      rcases hmem with rfl | hmem
      · rw [hnew] at hhandler
        rwa [← Option.some.inj hhandler]
      · obtain ⟨kept, hkept, -⟩ := hbooks.kept request hmem
        rw [hhandlers, List.getElem?_append_left (List.getElem?_eq_some_iff.mp hkept).1] at hhandler
        exact hs.untouched request hmem handler' hhandler
  | pinged request success hpinging hserver hwrites hhandlers hconnects =>
      have hanswered : t.handlers[request]? = some (.answered success) := by
        rw [hhandlers]
        exact List.getElem?_set_self (List.getElem?_eq_some_iff.mp hpinging).1
      rw [hconnects]
      constructor
      · intro ht
        have hmem := hwrites ▸ hbooks.pinging request hpinging
        have hfailed := ht.untouched request hmem _ hanswered
        simpa [Handler.failed] using hfailed
      · rintro rfl
        refine ⟨by rw [hserver]; exact hs.same, ?_⟩
        intro n hmem handler hhandler
        by_cases hn : request = n
        · subst hn
          rw [hanswered] at hhandler
          rw [← Option.some.inj hhandler]
          rfl
        · rw [hhandlers, List.getElem?_set_ne hn] at hhandler
          exact hs.untouched n (hwrites ▸ hmem) handler hhandler

theorem pairBooks_start (initial : Option W) : PairBooks (ServerState.start initial) where
  kept := fun _ hmem => absurd hmem List.not_mem_nil
  pinging := fun _ hhandler => by cases hhandler

theorem pairConsistent_start (initial : Option W) : PairConsistent (ServerState.start initial) where
  same := rfl
  untouched := fun _ hmem => absurd hmem List.not_mem_nil

/-- In every state of a run the proxy and the stream are from one request and
untouched by the requests that have failed, exactly when no request of the run
fails once it has set the proxy. -/
theorem pairConsistent_iff {initial : Option W} {events : List (ServerEvent W)}
    (hrun : (serverMachine W).run (.start initial) events = some t) :
    (∀ earlier u, earlier <+: events → (serverMachine W).run (.start initial) earlier = some u →
      PairConsistent u) ↔ ∀ event ∈ events, event.Connects := by
  have hbooks : ∀ earlier u, (serverMachine W).run (.start initial) earlier = some u →
      PairBooks u := fun earlier u hu =>
    Machine.run_invariant (fun _ _ _ hs hstep => hs.step hstep) hu (pairBooks_start initial)
  have hpre := Machine.forall_prefix_iff_within (M := serverMachine W)
    (P := fun s => PairConsistent s ∧ PairBooks s) (G := fun _ event => event.Connects)
    (fun s event u hs hstep => by
      rw [← hs.1.step_iff hs.2 hstep, and_iff_left (hs.2.step hstep)])
    hrun ⟨pairConsistent_start initial, pairBooks_start initial⟩
  rw [Machine.within_iff_forall hrun] at hpre
  rw [← hpre]
  constructor
  · exact fun h earlier u hearlier hu => ⟨h earlier u hearlier hu, hbooks earlier u hu⟩
  · exact fun h earlier u hearlier hu => (h earlier u hearlier hu).1

end Pair

/-! ## Runs of the server -/

def trustedRpc : SetupBlockchainRequest :=
  ⟨some BchInfoSource.trustedRpc, "", "user", "password", "127.0.0.1", "18332",
    "tcp://127.0.0.1:28332"⟩

def fromSeed : CreateWalletRequest := ⟨"wallet", none, some GrpcNetworkInfo.btctest, some ["zoo"]⟩

def notImplemented : JsError := ⟨.error, "Not implemented !"⟩

/-- Two wallets are created from seeds; the accounts of the first are looked for
in vain after the second has been assigned. -/
def overtaken : List (ServerEvent String) :=
  [.setupBlockchainProxy trustedRpc (.ok ()) (.ok ()), .createWallet fromSeed,
    .createWallet fromSeed, .created 1 (.ok "first"), .created 2 (.ok "second"),
    .discovered 1 (.error notImplemented), .discovered 2 (.ok "second, found")]

theorem walletKept_overtaken : ∃ t,
    (serverMachine String).run (.start none) overtaken = some t ∧ WalletKept none t := by
  have hrun : (serverMachine String).run (.start none) overtaken = some _ := rfl
  have hwithin : (serverMachine String).Within (fun s event => event.Overtaken s) (.start none)
      overtaken := by
    iterate 5 refine (Machine.within_cons rfl).mpr ⟨trivial, ?_⟩
    have hother : (some 2 : Option Nat) ≠ some 1 := by decide
    refine (Machine.within_cons rfl).mpr ⟨hother, ?_⟩
    exact (Machine.within_cons rfl).mpr ⟨trivial, trivial⟩
  exact ⟨_, hrun, (walletKept_iff hrun).mpr hwithin _ _ List.prefix_rfl hrun⟩

/-- A wallet is created from its seed while a proxy is set up, and its accounts
are looked for in vain: it stays, though its request has failed and no request
has been answered. -/
theorem wallet_keeps_trace : ∃ t,
    (serverMachine String).run (.start none)
        [.setupBlockchainProxy trustedRpc (.ok ()) (.ok ()), .createWallet fromSeed,
          .created 1 (.ok "from seed"), .discovered 1 (.error notImplemented)] = some t ∧
      t.Quiet ∧ t.server.wallet = some "from seed" ∧ t.lastAnswered = none ∧
      t.handlers[1]? = some (.threw notImplemented) ∧ t.walletFrom = some 1 := by
  refine ⟨_, rfl, ?_, rfl, rfl, rfl, rfl⟩
  decide

def unreachable : JsError := ⟨.error, "connect ECONNREFUSED"⟩

def invalidEndpoint : JsError := ⟨.error, "Invalid argument"⟩

/-- Two requests that fail before they set the proxy, between two that succeed. -/
def connected : List (ServerEvent String) :=
  [.setupBlockchainProxy trustedRpc (.ok ()) (.ok ()), .pinged 0 (.ok ()),
    .setupBlockchainProxy { trustedRpc with type := some (.number 1) } (.ok ()) (.ok ()),
    .setupBlockchainProxy trustedRpc (.error unreachable) (.ok ()),
    .setupBlockchainProxy trustedRpc (.ok ()) (.ok ()), .pinged 3 (.ok ())]

theorem pairConsistent_connected : ∃ t,
    (serverMachine String).run (.start none) connected = some t ∧ PairConsistent t := by
  have hrun : (serverMachine String).run (.start none) connected = some _ := rfl
  have hconnects : ∀ event ∈ connected, event.Connects := by
    simp [connected, ServerEvent.Connects]
  exact ⟨_, hrun, (pairConsistent_iff hrun).mpr hconnects _ _ List.prefix_rfl hrun⟩

/-- The second request cannot open its stream: the server is left with its proxy
and the stream of the first. -/
theorem pair_of_two_requests : ∃ t,
    (serverMachine String).run (.start none)
        [.setupBlockchainProxy trustedRpc (.ok ()) (.ok ()), .pinged 0 (.ok ()),
          .setupBlockchainProxy { trustedRpc with zmqurl := "localhost" } (.ok ())
            (.error invalidEndpoint)] = some t ∧
      t.server.bchproxy.map TrustedBitcoindRPC.request = some 1 ∧
      t.server.observableBlockchain.map ObservableBlockchain.request = some 0 :=
  ⟨_, rfl, rfl, rfl⟩

end GrpcServer

end Walletts
