import Walletts.WalletServer
import Walletts.Mnemonic
/-!
# The wallet from the command line

`WalletLauncher` runs a server, a client of it and the prompts in one process.
What the user answers is to be sent to the server as requests, which arrive
there at any time later; what `run` rejects with ends the process.  This module
follows the launcher, its requests and the server together, where no other
client talks to the server.
-/

namespace Walletts

open GrpcServer NormalAccountService

/-! ## The second prompt -/

inductive BchType
  | bitcoind
  | blockchainInfo
  deriving DecidableEq

def BchType.answer : BchType → String
  | bitcoind => "Bitcoind you trust"
  | blockchainInfo => "blockchain.info"

/-- What the user enters.  All but the first are asked for a bitcoind only. -/
structure SetupBlockchainProxyAnswers where
  bchtype : BchType
  path : String
  rpcusername : String
  rpcpass : String
  rpcip : String
  rpcport : String
  zmqurl : String

inductive BlockchainAction
  | trustedRPC (rpcusername rpcpass rpcip rpcport zmqurl : String)
  | blockchainInfo

def CliUIProxy.chooseBlockchainProxy (answers : SetupBlockchainProxyAnswers) : BlockchainAction :=
  if answers.bchtype.answer = "Bitcoind you trust" then
    -- `path` is not among the fields
    .trustedRPC answers.rpcusername answers.rpcpass answers.rpcip answers.rpcport answers.zmqurl
  else .blockchainInfo

structure SetupBlockchainArg where
  type : GrpcValue
  rpcusername : String
  rpcpass : String
  rpcip : String
  rpcport : String
  zmqurl : String

def WalletLauncher.runSetup : BlockchainAction → Option SetupBlockchainArg × Except JsError Unit
  | .trustedRPC rpcusername rpcpass rpcip rpcport zmqurl =>
      (some ⟨BchInfoSource.trustedRpc, rpcusername, rpcpass, rpcip, rpcport, zmqurl⟩, .ok ())
  | .blockchainInfo => (none, .error WalletLauncher.notSupported)

def SetupBlockchainArg.received (arg : SetupBlockchainArg) (asName : Bool) :
    SetupBlockchainRequest where
  type := some (arg.type.received BchInfoSource.names asName)
  -- a text that was not set is empty
  confPath := ""
  rpcusername := arg.rpcusername
  rpcpass := arg.rpcpass
  rpcip := arg.rpcip
  rpcport := arg.rpcport
  zmqurl := arg.zmqurl

/-! ## The process -/

/-- What the launcher uses of grpc: whether an enumeration arrives as its name,
and what the client throws for a request that cannot be encoded.  It encodes a
request in the call that sends it. -/
structure GrpcClient where
  asName : Bool
  throws : CreateWalletArg → JsError

inductive LauncherPhase
  | settingUp
  | askingMnemonic (input : UserInput)
  | choosing
  | returned
  | exited (e : JsError)

inductive ClientRequest
  | createWallet (req : CreateWalletRequest)
  | setupBlockchainProxy (req : SetupBlockchainRequest)

structure CliSession (Node : Type) where
  phase : LauncherPhase
  inFlight : List ClientRequest
  server : WalletServer Node

/-- The user answers a prompt, a request arrives at the server, or a handler of
the server goes on. -/
inductive CliEvent
  | setUp (input : UserInput)
  | word (m : String)
  | choose (answers : SetupBlockchainProxyAnswers)
  | arrive (k : Nat) (entropy : Buffer) (client observable : Except JsError Unit)
  | serve (event : WalletServerEvent)

namespace CliSession

variable {Node : Type}

def start : CliSession Node := ⟨.settingUp, [], .start⟩

section Machine

variable (grpc : GrpcClient)

def act (s : CliSession Node) (action : WalletAction) : CliSession Node :=
  match WalletLauncher.run action with
  | (none, result) => { s with phase := phaseOf result }
  | (some arg, result) =>
      match arg.received grpc.asName with
      | some req =>
          { s with phase := phaseOf result, inFlight := s.inFlight ++ [.createWallet req] }
      | none => { s with phase := .exited (grpc.throws arg) }
where
  phaseOf : Except JsError Unit → LauncherPhase
    | .ok _ => .choosing
    | .error e => .exited e

def actSetup (s : CliSession Node) (answers : SetupBlockchainProxyAnswers) : CliSession Node :=
  match WalletLauncher.runSetup (CliUIProxy.chooseBlockchainProxy answers) with
  | (arg, result) =>
      { s with
        phase := match result with
          | .ok _ => .returned
          | .error e => .exited e
        inFlight := s.inFlight ++
          (arg.map fun arg => .setupBlockchainProxy (arg.received grpc.asName)).toList }

def arrival (request : ClientRequest) (entropy : Buffer) (client observable : Except JsError Unit) :
    WalletServerEvent :=
  match request with
  | .createWallet req => .createWallet req entropy
  | .setupBlockchainProxy req => .setupBlockchainProxy req client observable

/-- The prompts are answered while no synchronous code runs, and a process that
has exited does nothing. -/
def machine (ui : CliUIProxy) (lib : HDNodeLib Node) (seeds : SeedLib Node) :
    Machine (CliSession Node) CliEvent where
  step s event :=
    match event with
    | .setUp input =>
        match s.phase, s.server.syncing with
        | .settingUp, none =>
            if input.createNew = false ∧ input.importSeed = true then
              some { s with phase := .askingMnemonic input }
            else some (s.act grpc (CliUIProxy.setupWalletInteractive input))
        | _, _ => none
    | .word m =>
        match s.phase, s.server.syncing with
        | .askingMnemonic input, none =>
            let mnemonics := [] ++ [CliUIProxy.promptMnemonic m]
            if mnemonics.length = ui.mnemonicLength then
              let input := { input with mnemonic := mnemonics.filterMap PromptValue.word }
              some (s.act grpc (CliUIProxy.setupWalletInteractive input))
            else some s
        | _, _ => none
    | .choose answers =>
        match s.phase, s.server.syncing with
        | .choosing, none => some (s.actSetup grpc answers)
        | _, _ => none
    | .arrive k entropy client observable =>
        match s.phase, s.inFlight[k]? with
        | .exited _, _ => none
        | _, none => none
        | _, some request =>
            ((WalletServer.machine lib seeds).step s.server
              (arrival request entropy client observable)).map fun server =>
                { s with inFlight := s.inFlight.eraseIdx k, server := server }
    | .serve event =>
        match s.phase, event.arrives with
        | .exited _, _ => none
        | _, true => none
        | _, false =>
            ((WalletServer.machine lib seeds).step s.server event).map fun server =>
              { s with server := server }

end Machine

/-! ## Steps -/

section Steps

variable {grpc : GrpcClient} {ui : CliUIProxy} {lib : HDNodeLib Node} {seeds : SeedLib Node}
  {s t : CliSession Node} {event : CliEvent}

/-- The steps of the process.  The words of a mnemonic are never complete, so no
action to import a wallet is ever taken. -/
inductive Step (grpc : GrpcClient) (lib : HDNodeLib Node) (seeds : SeedLib Node)
    (s : CliSession Node) : CliEvent → CliSession Node → Prop
  | setUp {input : UserInput} (hphase : s.phase = .settingUp)
      (hnoImport : ¬(input.createNew = false ∧ input.importSeed = true)) :
      Step grpc lib seeds s (.setUp input) (s.act grpc (CliUIProxy.setupWalletInteractive input))
  | asks {input : UserInput} (hphase : s.phase = .settingUp)
      (himport : input.createNew = false ∧ input.importSeed = true) :
      Step grpc lib seeds s (.setUp input) { s with phase := .askingMnemonic input }
  | asksAgain {input : UserInput} (m : String) (hphase : s.phase = .askingMnemonic input) :
      Step grpc lib seeds s (.word m) s
  | choose (answers : SetupBlockchainProxyAnswers) (hphase : s.phase = .choosing) :
      Step grpc lib seeds s (.choose answers) (s.actSetup grpc answers)
  | arrive {k : Nat} {entropy : Buffer} {client observable : Except JsError Unit}
      {request : ClientRequest} {server : WalletServer Node}
      (hrequest : s.inFlight[k]? = some request)
      (hstep : (WalletServer.machine lib seeds).step s.server
        (arrival request entropy client observable) = some server) :
      Step grpc lib seeds s (.arrive k entropy client observable)
        { s with inFlight := s.inFlight.eraseIdx k, server := server }
  | serve {event : WalletServerEvent} {server : WalletServer Node}
      (hrunning : ∀ e, s.phase ≠ .exited e) (hevent : event.arrives = false)
      (hstep : (WalletServer.machine lib seeds).step s.server event = some server) :
      Step grpc lib seeds s (.serve event) { s with server := server }

theorem step_cases (h : (machine grpc ui lib seeds).step s event = some t) :
    Step grpc lib seeds s event t := by
  cases event with
  | setUp input =>
      simp only [machine] at h
      split at h
      · rename_i hphase hidle
        split at h
        · rename_i himport
          obtain rfl := Option.some.inj h
          exact .asks hphase himport
        · rename_i hnoImport
          obtain rfl := Option.some.inj h
          exact .setUp hphase hnoImport
      · cases h
  | word m =>
      simp only [machine] at h
      split at h
      · rename_i input hphase hidle
        have hlength :
            ¬((([] ++ [CliUIProxy.promptMnemonic m]).length : Int) = ui.mnemonicLength) :=
          fun heq => ui.mnemonicLength_ne_one heq.symm
        rw [if_neg hlength] at h
        obtain rfl := Option.some.inj h
        exact .asksAgain m hphase
      · cases h
  | choose answers =>
      simp only [machine] at h
      split at h
      · rename_i hphase hidle
        obtain rfl := Option.some.inj h
        exact .choose answers hphase
      · cases h
  | arrive k entropy client observable =>
      simp only [machine] at h
      split at h
      · cases h
      · cases h
      · rename_i request hrequest hrunning
        obtain ⟨server, hstep, rfl⟩ := Option.map_eq_some_iff.mp h
        exact .arrive hrequest hstep
  | serve event =>
      simp only [machine] at h
      split at h
      · cases h
      · cases h
      · rename_i hevent hrunning
        obtain ⟨server, hstep, rfl⟩ := Option.map_eq_some_iff.mp h
        exact .serve hrunning hevent hstep

theorem serve_start {event : WalletServerEvent} {server : WalletServer Node}
    (hevent : event.arrives = false) :
    (WalletServer.machine lib seeds).step .start event ≠ some server := by
  intro hstep
  cases WalletServer.step_cases hstep with
  | createWallet req entropy hidle => cases hevent
  | setupBlockchainProxy req client observable hidle => cases hevent
  | answered hgoes hidle hcall hanswer hserver => cases hcall
  | notPruned hidle hcall => cases hcall
  | found hidle hcall nextRef => cases hcall
  | synced hsyncing hsync hafter => cases hsyncing

/-! ## What the first prompts lead to -/

/-- What `run` rejects with when nothing is imported.  For a new wallet the name
that the client is to encode is an object. -/
def rejection (grpc : GrpcClient) (input : UserInput) : JsError :=
  if input.createNew then
    grpc.throws ⟨CliUIProxy.promptNameSpace input, input.passPhrase, GrpcNetworkInfo.btcmain, none⟩
  else WalletLauncher.notSupported

theorem act_eq (grpc : GrpcClient) (s : CliSession Node) {input : UserInput}
    (hnoImport : ¬(input.createNew = false ∧ input.importSeed = true)) :
    s.act grpc (CliUIProxy.setupWalletInteractive input) =
      { s with phase := .exited (rejection grpc input) } := by
  unfold CliUIProxy.setupWalletInteractive rejection
  by_cases hnew : input.createNew = true
  · have hnetwork : input.network.answer ≠ "testnet?" := by cases input.network <;> decide
    rw [if_pos hnew, if_pos hnew, if_neg hnetwork]
    rfl
  · have himport : input.importSeed = false := by simpa [hnew] using hnoImport
    rw [if_neg hnew, if_neg hnew, if_neg (by simp [himport])]
    rfl

/-- As long as no request has been sent, all that can happen is the answer to a
prompt. -/
theorem unsent_cases (h : (machine grpc ui lib seeds).step s event = some t)
    (hinFlight : s.inFlight = []) (hserver : s.server = .start) :
    (∃ input, s.phase = .settingUp ∧ event = .setUp input ∧
      ((¬(input.createNew = false ∧ input.importSeed = true) ∧
          t = { s with phase := .exited (rejection grpc input) }) ∨
        (input.createNew = false ∧ input.importSeed = true) ∧
          t = { s with phase := .askingMnemonic input })) ∨
    (∃ input m, s.phase = .askingMnemonic input ∧ event = .word m ∧ t = s) ∨
    s.phase = .choosing := by
  cases step_cases h with
  | @setUp input hphase hnoImport =>
      exact .inl ⟨input, hphase, rfl, .inl ⟨hnoImport, act_eq grpc s hnoImport⟩⟩
  | @asks input hphase himport => exact .inl ⟨input, hphase, rfl, .inr ⟨himport, rfl⟩⟩
  | @asksAgain input m hphase => exact .inr (.inl ⟨input, m, hphase, rfl, rfl⟩)
  | choose answers hphase => exact .inr (.inr hphase)
  | arrive hrequest hstep =>
      rw [hinFlight] at hrequest
      cases hrequest
  | serve hrunning hevent hstep =>
      rw [hserver] at hstep
      exact absurd hstep (serve_start hevent)

theorem step_start (h : (machine grpc ui lib seeds).step start event = some t) :
    ∃ input, event = .setUp input ∧
      ((¬(input.createNew = false ∧ input.importSeed = true) ∧
          t = { start with phase := .exited (rejection grpc input) }) ∨
        (input.createNew = false ∧ input.importSeed = true) ∧
          t = { start with phase := .askingMnemonic input }) := by
  obtain ⟨input, -, hevent, ht⟩ | ⟨input, m, hphase, -⟩ | hphase := unsent_cases h rfl rfl
  · exact ⟨input, hevent, ht⟩
  · cases hphase
  · cases hphase

theorem step_asking {input : UserInput}
    (h : (machine grpc ui lib seeds).step { start with phase := .askingMnemonic input } event =
      some t) :
    ∃ m, event = .word m ∧ t = { start with phase := .askingMnemonic input } := by
  obtain ⟨input', hphase, -⟩ | ⟨input', m, -, hevent, ht⟩ | hphase := unsent_cases h rfl rfl
  · cases hphase
  · exact ⟨m, hevent, ht⟩
  · cases hphase

theorem step_exited {e : JsError} :
    (machine grpc ui lib seeds).step { start with phase := .exited e } event ≠ some t := by
  intro h
  obtain ⟨input, hphase, -⟩ | ⟨input, m, hphase, -⟩ | hphase := unsent_cases h rfl rfl <;>
    cases hphase

end Steps

/-! ## Runs -/

section Runs

variable {grpc : GrpcClient} {ui : CliUIProxy} {lib : HDNodeLib Node} {seeds : SeedLib Node}
  {s : CliSession Node} {events : List CliEvent}

theorem run_asking {input : UserInput}
    (hrun : (machine grpc ui lib seeds).run { start with phase := .askingMnemonic input } events =
      some s) :
    s = { start with phase := .askingMnemonic input } ∧
      ∃ words : List String, events = words.map .word := by
  induction events with
  | nil => exact ⟨(Option.some.inj hrun).symm, [], rfl⟩
  | cons event events ih =>
      obtain ⟨t, hstep, hrest⟩ := (Machine.run_cons_eq_some _).mp hrun
      obtain ⟨m, rfl, rfl⟩ := step_asking hstep
      obtain ⟨hs, words, rfl⟩ := ih hrest
      exact ⟨hs, m :: words, rfl⟩

/-- Whatever the user answers, no request ever reaches the server that is run
from the command line, and `run` never returns.  The process exits at the first
prompts, before the one for the blockchain, unless a wallet is to be imported:
then it asks for another word of the mnemonic for ever. -/
theorem command_line_session (hrun : (machine grpc ui lib seeds).run start events = some s) :
    s.inFlight = [] ∧ s.server = .start ∧
      (events = [] ∧ s.phase = .settingUp ∨
        (∃ input, events = [.setUp input] ∧
          ¬(input.createNew = false ∧ input.importSeed = true) ∧
          s.phase = .exited (rejection grpc input)) ∨
        ∃ (input : UserInput) (words : List String), events = .setUp input :: words.map .word ∧
          (input.createNew = false ∧ input.importSeed = true) ∧
          s.phase = .askingMnemonic input) := by
  cases events with
  | nil =>
      obtain rfl := Option.some.inj hrun
      exact ⟨rfl, rfl, .inl ⟨rfl, rfl⟩⟩
  | cons event events =>
      obtain ⟨t, hstep, hrest⟩ := (Machine.run_cons_eq_some _).mp hrun
      obtain ⟨input, rfl, ⟨hnoImport, rfl⟩ | ⟨himport, rfl⟩⟩ := step_start hstep
      · cases events with
        | nil =>
            obtain rfl := Option.some.inj hrest
            exact ⟨rfl, rfl, .inr (.inl ⟨input, rfl, hnoImport, rfl⟩)⟩
        | cons event events =>
            obtain ⟨u, hstep, -⟩ := (Machine.run_cons_eq_some _).mp hrest
            exact absurd hstep step_exited
      · obtain ⟨rfl, words, rfl⟩ := run_asking hrest
        exact ⟨rfl, rfl, .inr (.inr ⟨input, words, rfl, himport, rfl⟩)⟩

def sampleClient : GrpcClient where
  asName := true
  throws _ := ⟨.error, "Illegal value for Message.Field " ++
    ".lighthouse.CreateWalletRequest.nameSpace of type string: object (not a string)"⟩

theorem command_line_session_create : ∃ s : CliSession SymbolicNode,
    (machine sampleClient ⟨12, rfl, by decide⟩ SymbolicNode.lib SymbolicNode.seeds).run start
        [.setUp sampleCreate] = some s ∧
      s.phase = .exited (rejection sampleClient sampleCreate) ∧ s.server = .start := by
  have hrun : (machine sampleClient ⟨12, rfl, by decide⟩ SymbolicNode.lib SymbolicNode.seeds).run
      start [.setUp sampleCreate] = some _ := rfl
  exact ⟨_, hrun, rfl, (command_line_session hrun).2.1⟩

end Runs

end CliSession

end Walletts
