import Walletts.GrpcServer
import Walletts.WalletHistory
/-!
# From the prompts to the wallet

What the user answers becomes an action of `CliUIProxy`, the action becomes a
request of `WalletLauncher`, and the request becomes a call of the wallet
service.  Each of the three builds its record anew.  This module follows the
answers through all of them.
-/

namespace Walletts

open GrpcServer NormalAccountService

/-! ## Prompts -/

inductive NetworkChoice
  | testnet
  | mainnet
  deriving DecidableEq

def NetworkChoice.answer : NetworkChoice → String
  | testnet => "testnet"
  | mainnet => "mainnet"

def NetworkChoice.network : NetworkChoice → Network
  | testnet => .testnet
  | mainnet => .bitcoin

def NetworkChoice.grpcNetwork : NetworkChoice → GrpcValue
  | testnet => GrpcNetworkInfo.btctest
  | mainnet => GrpcNetworkInfo.btcmain

/-- What the user enters: the two confirmations, the network, the passphrase and
the name, and the words that `_askMnemonic` has returned. -/
structure UserInput where
  createNew : Bool
  importSeed : Bool
  network : NetworkChoice
  passPhrase : String
  nameSpace : String
  mnemonic : List String
  deriving DecidableEq

/-- A value where a text is expected: `inquirer.prompt` gives an object that has
the answers under the names of their questions. -/
inductive PromptValue
  | text (s : String)
  | answers (fields : List (String × String))
  deriving DecidableEq

inductive WalletAction
  | createWallet (nameSpace : PromptValue) (network : GrpcValue) (passPhrase : String)
  | importWallet (nameSpace : PromptValue) (network : GrpcValue) (passPhrase : String)
      (seed : List String)
  | doNothing
  deriving DecidableEq

namespace CliUIProxy

def promptNameSpace (input : UserInput) : PromptValue := .answers [("nameSpace", input.nameSpace)]

def setupWalletInteractive (input : UserInput) : WalletAction :=
  if input.createNew then
    .createWallet (promptNameSpace input)
      -- no choice of the prompt is 'testnet?'
      (if input.network.answer = "testnet?" then GrpcNetworkInfo.btctest
        else GrpcNetworkInfo.btcmain)
      input.passPhrase
  else if input.importSeed then
    .importWallet (.text "hogeWallet")
      (if input.network.answer = "testnet" then GrpcNetworkInfo.btctest
        else GrpcNetworkInfo.btcmain)
      "passPhrase" input.mnemonic
  else .doNothing

end CliUIProxy

/-! ## Requests -/

structure CreateWalletArg where
  nameSpace : PromptValue
  passPhrase : String
  network : GrpcValue
  seed : Option (List String)
  deriving DecidableEq

namespace WalletLauncher

def notSupported : JsError := ⟨.error, "not supported yet!"⟩

/-- `run` up to the setup of the blockchain: the request it sends, and what it
throws. -/
def run : WalletAction → Option CreateWalletArg × Except JsError Unit
  | .createWallet nameSpace network passPhrase =>
      (some ⟨nameSpace, passPhrase, network, none⟩, .ok ())
  -- the request is sent before
  | .importWallet nameSpace network passPhrase seed =>
      (some ⟨nameSpace, passPhrase, network, some seed⟩, .error notSupported)
  | .doNothing => (none, .error notSupported)

end WalletLauncher

/-- An enumeration as the server receives it: its number, or the name of that. -/
def GrpcServer.GrpcValue.received (names : List String) (asName : Bool) : GrpcValue → GrpcValue
  | .number n => if asName then (names[n]?.map GrpcValue.name).getD (.number n) else .number n
  | .name s => .name s

/-- The request as the server receives it.  Only a text can be sent as a name. -/
def CreateWalletArg.received (arg : CreateWalletArg) (asName : Bool) :
    Option CreateWalletRequest :=
  match arg.nameSpace with
  | .text nameSpace => some
      ⟨nameSpace, some arg.passPhrase,
        some (arg.network.received GrpcNetworkInfo.names asName), arg.seed⟩
  | .answers _ => none

variable {Node : Type}

/-- The call of the wallet service that a handler waits for.  The service does
not use the name. -/
def serviceCall (lib : HDNodeLib Node) (seeds : SeedLib Node) (entropy : Buffer)
    (r : Repositories Node) :
    Handler → Option (Except JsError (Repositories Node × BasicWallet NormalAccount))
  | .creatingFromSeed _ seed network passPhrase =>
      some (WalletService.createFromSeed lib seeds r seed network passPhrase)
  | .creatingNew _ network _ => some (WalletService.createNew lib seeds r entropy network)
  | _ => none

/-! ## What should arrive -/

def Carries (input : UserInput) (arg : CreateWalletArg) : Prop :=
  arg.nameSpace = .text input.nameSpace ∧ arg.passPhrase = input.passPhrase ∧
    arg.network = input.network.grpcNetwork

/-- Handled by a server in any state, over any repositories, the request makes
the service keep the master node of the words and the passphrase.  The network
arrives as its number. -/
def StoresMaster (lib : HDNodeLib Node) (seeds : SeedLib Node) (input : UserInput)
    (arg : CreateWalletArg) : Prop :=
  ∃ req, arg.received false = some req ∧
    ∀ (s : ServerState (BasicWallet NormalAccount)) (entropy : Buffer) (r : Repositories Node)
      (master : Node),
      seeds.fromSeedBuffer
          (seeds.mnemonicToSeed (" ".intercalate input.mnemonic) (some input.passPhrase))
          input.network.network = .ok master →
      ∃ handler made, (s.createWallet req).handlers = s.handlers ++ [handler] ∧
        serviceCall lib seeds entropy r handler = some (.ok made) ∧
        made.1.keyRepo.getHDNode made.2.id = some master

def MadeFromInput (lib : HDNodeLib Node) (seeds : SeedLib Node) (input : UserInput) : Prop :=
  (input.createNew ∨ input.importSeed → ∃ arg,
    (WalletLauncher.run (CliUIProxy.setupWalletInteractive input)).1 = some arg ∧
      Carries input arg) ∧
  (input.createNew = false → input.importSeed → ∃ arg,
    (WalletLauncher.run (CliUIProxy.setupWalletInteractive input)).1 = some arg ∧
      StoresMaster lib seeds input arg)

variable {lib : HDNodeLib Node} {seeds : SeedLib Node} {input : UserInput}

/-- The number of a network comes back as that network, and the number of the
main network as none, which stands for it too. -/
theorem networkOf_grpcNetwork (choice : NetworkChoice) :
    (networkOf (some choice.grpcNetwork)).getD .bitcoin = choice.network := by
  cases choice <;> decide

theorem received_grpcNetwork (choice : NetworkChoice) :
    choice.grpcNetwork.received GrpcNetworkInfo.names false = choice.grpcNetwork := by
  cases choice <;> rfl

theorem importNetwork_eq (choice : NetworkChoice) :
    (if choice.answer = "testnet" then GrpcNetworkInfo.btctest else GrpcNetworkInfo.btcmain) =
      choice.grpcNetwork := by
  cases choice <;> decide

theorem sent_createNew (h : input.createNew = true) :
    ∃ network, (WalletLauncher.run (CliUIProxy.setupWalletInteractive input)).1 =
      some ⟨CliUIProxy.promptNameSpace input, input.passPhrase, network, none⟩ := by
  rw [CliUIProxy.setupWalletInteractive, if_pos h]
  exact ⟨_, rfl⟩

theorem sent_import (hnew : input.createNew = false) (himport : input.importSeed = true) :
    (WalletLauncher.run (CliUIProxy.setupWalletInteractive input)).1 =
      some ⟨.text "hogeWallet", "passPhrase", input.network.grpcNetwork, some input.mnemonic⟩ := by
  rw [CliUIProxy.setupWalletInteractive, if_neg (by simp [hnew]), if_pos himport,
    importNetwork_eq]
  rfl

theorem storesMaster_of_passPhrase {arg : CreateWalletArg} {name : String}
    (hname : arg.nameSpace = .text name) (hpass : arg.passPhrase = input.passPhrase)
    (hnetwork : arg.network = input.network.grpcNetwork) (hseed : arg.seed = some input.mnemonic)
    (hwords : input.mnemonic ≠ []) : StoresMaster lib seeds input arg := by
  refine ⟨⟨name, some arg.passPhrase, some arg.network, arg.seed⟩, ?_, ?_⟩
  · rw [CreateWalletArg.received, hname, hnetwork, received_grpcNetwork]
  · intro s entropy r master hmaster
    rw [hpass, hnetwork, hseed]
    obtain ⟨word, words, hcons⟩ := List.exists_cons_of_ne_nil hwords
    refine ⟨.creatingFromSeed name input.mnemonic (networkOf (some input.network.grpcNetwork))
      (some input.passPhrase), WalletService.createFromNode lib r master, ?_, ?_, ?_⟩
    · simp only [ServerState.createWallet, hcons]
    · rw [serviceCall, WalletService.createFromSeed, networkOf_grpcNetwork, hmaster]
      rfl
    · exact InsertionMap.get_set_self _ _ _

/-- What the user enters reaches the wallet exactly when nothing is created and
what is imported has the name and the passphrase that are sent anyway.  The
words are what `_askMnemonic` returns, which is not empty. -/
theorem madeFromInput_iff (hwords : input.mnemonic ≠ []) :
    MadeFromInput lib seeds input ↔ input.createNew = false ∧
      (input.importSeed = true →
        input.nameSpace = "hogeWallet" ∧ input.passPhrase = "passPhrase") := by
  constructor
  · rintro ⟨hcarries, -⟩
    have hnew : input.createNew = false := by
      cases hcreate : input.createNew with
      | false => rfl
      | true =>
          obtain ⟨arg, harg, hname, -⟩ := hcarries (.inl hcreate)
          obtain ⟨network, hsent⟩ := sent_createNew hcreate
          obtain rfl := Option.some.inj (hsent.symm.trans harg)
          cases hname
    refine ⟨hnew, fun himport => ?_⟩
    obtain ⟨arg, harg, hname, hpass, -⟩ := hcarries (.inr himport)
    obtain rfl := Option.some.inj ((sent_import hnew himport).symm.trans harg)
    exact ⟨(PromptValue.text.inj hname).symm, hpass.symm⟩
  · rintro ⟨hnew, hconstants⟩
    refine ⟨?_, ?_⟩
    · rintro (hcreate | himport)
      · rw [hnew] at hcreate
        cases hcreate
      · obtain ⟨hname, hpass⟩ := hconstants himport
        exact ⟨_, sent_import hnew himport, congrArg _ hname.symm, hpass.symm, rfl⟩
    · intro _ himport
      exact ⟨_, sent_import hnew himport,
        storesMaster_of_passPhrase rfl (hconstants himport).2.symm rfl rfl hwords⟩

def sampleImport (network : NetworkChoice) (passPhrase nameSpace : String) : UserInput :=
  ⟨false, true, network, passPhrase, nameSpace, WalletService.sampleSeed⟩

theorem madeFromInput_constants : MadeFromInput SymbolicNode.lib SymbolicNode.seeds
    (sampleImport .testnet "passPhrase" "hogeWallet") :=
  (madeFromInput_iff (by simp [sampleImport, WalletService.sampleSeed])).mpr
    ⟨rfl, fun _ => ⟨rfl, rfl⟩⟩

def sampleCreate : UserInput :=
  ⟨true, false, .testnet, "correct horse", "savings", WalletService.sampleSeed⟩

/-- An import with a name and a passphrase of its own, and a new wallet. -/
theorem input_replaced :
    ¬ MadeFromInput SymbolicNode.lib SymbolicNode.seeds
        (sampleImport .testnet "correct horse" "savings") ∧
      ¬ MadeFromInput SymbolicNode.lib SymbolicNode.seeds sampleCreate := by
  constructor
  · rintro ⟨hcarries, -⟩
    obtain ⟨arg, harg, hname, -⟩ := hcarries (.inr rfl)
    obtain rfl := Option.some.inj ((sent_import rfl rfl).symm.trans harg)
    simp [sampleImport] at hname
  · rintro ⟨hcarries, -⟩
    obtain ⟨arg, harg, hname, -⟩ := hcarries (.inl rfl)
    have hcreate : sampleCreate.createNew = true := rfl
    obtain ⟨network, hsent⟩ := sent_createNew hcreate
    obtain rfl := Option.some.inj (hsent.symm.trans harg)
    cases hname

end Walletts
