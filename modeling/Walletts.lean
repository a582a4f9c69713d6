import Walletts.Lib.Outcome
import Walletts.Lib.Machine
import Walletts.Lib.InsertionMap
import Walletts.Lib.HexText
import Walletts.Lib.DeferredStore
import Walletts.Lib.VersionTree
import Walletts.Lib.TaskList
import Walletts.Lib.PromiseAll
import Walletts.Lib.Components
import Walletts.Lib.Serial
import Walletts.Lib.Observers
import Walletts.Primitives
import Walletts.Balances
import Walletts.BitcoinJs
import Walletts.CoinManager
import Walletts.CrateTx
import Walletts.Account
import Walletts.Imports
import Walletts.AccountService
import Walletts.Session
import Walletts.Ledger
import Walletts.Payment
import Walletts.Conservation
import Walletts.CoinSelection
import Walletts.PaymentTree
import Walletts.AccountLife
import Walletts.Seeds
import Walletts.SymbolicHD
import Walletts.WalletService
import Walletts.WalletHistory
import Walletts.KeyHistory
import Walletts.Recovery
import Walletts.SyncLoop
import Walletts.AddressScan
import Walletts.RedeemScript
import Walletts.AddressTree
import Walletts.AddressSpace
import Walletts.LateSave
import Walletts.LateKeys
import Walletts.Overlap
import Walletts.CallsInTurn
import Walletts.OverlapAccounts
import Walletts.WalletLife
import Walletts.WalletAccounts
import Walletts.GrpcServer
import Walletts.Launcher
import Walletts.BlockchainStream
import Walletts.Config
import Walletts.Mnemonic
import Walletts.WalletServer
import Walletts.ServerRuns
import Walletts.TrustedRpc
import Walletts.CliSession
