import Walletts.Lib.Outcome
import Walletts.Primitives
import Mathlib.Logic.Function.Basic
/-!
# The configuration

`loadConfig` takes each field of the configuration from the options, from a
configuration file or from a table of defaults.  The file system, `path.join`,
`ini.decode` and `url.parse` are parameters.
-/

namespace Walletts

inductive ConfigKey
  | debugLevel
  | datadir
  | debugFile
  | walletDBPath
  | configFile
  | port
  | ip
  | url
  | network
  deriving DecidableEq

def ConfigKey.name : ConfigKey → String
  | debugLevel => "debugLevel"
  | datadir => "datadir"
  | debugFile => "debugFile"
  | walletDBPath => "walletDBPath"
  | configFile => "configFile"
  | port => "port"
  | ip => "ip"
  | url => "url"
  | network => "network"

/-- What an option or a line of the file may hold.  A section or an array of the
file is an `object`, with the text it becomes as a part of a longer one. -/
inductive ConfigValue
  | text (s : String)
  | number (n : Int)
  | boolean (b : Bool)
  | null
  | object (asText : String)
  deriving DecidableEq

namespace ConfigValue

def truthy : ConfigValue → Bool
  | text s => s != ""
  | number n => n != 0
  | boolean b => b
  | null => false
  | object _ => true

def toText : ConfigValue → String
  | text s => s
  | number n => toString n
  | boolean b => toString b
  | null => "null"
  | object asText => asText

/-- The value if there is one and it is not empty, as `v ? v : ..` sees it. -/
def given (v : Option ConfigValue) : Option ConfigValue := v.filter truthy

end ConfigValue

open ConfigValue (given)

abbrev PartialConfig := ConfigKey → Option ConfigValue

def PartialConfig.withConfigFile (opts : PartialConfig) (path : String) : PartialConfig :=
  Function.update opts .configFile (some (.text path))

structure Config where
  datadir : ConfigValue
  configFile : String
  debugFile : ConfigValue
  debugLevel : ConfigValue
  walletDBPath : ConfigValue
  network : ConfigValue
  port : ConfigValue
  ip : ConfigValue
  url : String
  deriving DecidableEq

def Config.get (cfg : Config) : ConfigKey → ConfigValue
  | .debugLevel => cfg.debugLevel
  | .datadir => cfg.datadir
  | .debugFile => cfg.debugFile
  | .walletDBPath => cfg.walletDBPath
  | .configFile => .text cfg.configFile
  | .port => cfg.port
  | .ip => cfg.ip
  | .url => .text cfg.url
  | .network => cfg.network

inductive FileEntry
  | file (contents : String)
  | directory
  deriving DecidableEq

inductive LoadConfigError
  | configError (message : String)
  | thrown (e : JsError)
  deriving DecidableEq

/-- Where the wallet runs.  `decode` gives the value that a text in the ini
format has for a key, and `parseUrl` whether `url.parse` gives an object. -/
structure ConfigEnv where
  appHome : String
  join : String → String → String
  files : String → Option FileEntry
  decode : String → String → Option ConfigValue
  parseUrl : String → Except JsError Bool
  files_empty : files "" = none

namespace ConfigEnv

variable (env : ConfigEnv)

def existsSync (path : String) : Bool := (env.files path).isSome

def defaultDataDir : String := env.join env.appHome ".walletts"

def defaultConfigFile : String := env.join env.defaultDataDir "wallet.conf"

def defaultPort : String := "58011"

def defaultMap : ConfigKey → ConfigValue
  | .datadir => .text env.defaultDataDir
  | .debugFile => .text (env.join env.defaultDataDir "debug.log")
  | .debugLevel => .text "info"
  | .configFile => .text env.defaultConfigFile
  | .walletDBPath => .text (env.join env.defaultDataDir "walletdb")
  | .port => .text defaultPort
  | .ip => .text "localhost"
  | .url => .text ("locahost:" ++ defaultPort)
  | .network => .text "testnet3"

def takeWithPriority (opts : PartialConfig) (fileConf : String → Option ConfigValue)
    (k : ConfigKey) : ConfigValue :=
  match given (opts k) with
  | some v => v
  | none =>
      match given (fileConf k.name) with
      | some v => v
      | none => env.defaultMap k

def chooseConfigFile (opts : PartialConfig) : String :=
  match opts .configFile with
  | some (.text path) =>
      if path ≠ "" ∧ env.existsSync path then path else env.defaultConfigFile
  | _ => env.defaultConfigFile

def mergeConfig (opts : PartialConfig) : Config :=
  let configFile := env.chooseConfigFile opts
  -- what is decoded is the path itself
  let fileConf := env.decode configFile
  let port := env.takeWithPriority opts fileConf .port
  let ip := env.takeWithPriority opts fileConf .ip
  { datadir := (given (opts .datadir)).getD (.text env.defaultDataDir)
    configFile := configFile
    debugFile := env.takeWithPriority opts fileConf .debugFile
    debugLevel := env.takeWithPriority opts fileConf .debugLevel
    walletDBPath := env.takeWithPriority opts fileConf .walletDBPath
    network := env.takeWithPriority opts fileConf .network
    port := port
    ip := ip
    url := ip.toText ++ ":" ++ port.toText }

def loadConfig (opts : PartialConfig) : Except LoadConfigError Config := do
  let cfg := env.mergeConfig opts
  let parsed ← (env.parseUrl cfg.url).mapError .thrown
  if parsed then return cfg
  else throw (.configError ("Invalid URL " ++ cfg.url ++ " !"))

variable {env}

theorem loadConfig_eq_ok {opts : PartialConfig} {cfg : Config} :
    env.loadConfig opts = .ok cfg ↔
      cfg = env.mergeConfig opts ∧ env.parseUrl cfg.url = .ok true := by
  constructor
  · intro h
    obtain ⟨parsed, hparse, hrest⟩ := Outcome.bind_eq_ok.mp h
    rw [Outcome.mapError_eq_ok] at hparse
    cases parsed with
    | false => cases hrest
    | true =>
        obtain rfl := Outcome.pure_eq_ok.mp hrest
        exact ⟨rfl, hparse⟩
  · rintro ⟨rfl, hparse⟩
    exact Outcome.bind_eq_ok.mpr ⟨true, Outcome.mapError_eq_ok.mpr hparse, rfl⟩

/-! ## The order of the sources -/

def mergedKeys : List ConfigKey :=
  [.debugFile, .debugLevel, .walletDBPath, .network, .port, .ip]

theorem get_mergeConfig (opts : PartialConfig) :
    ∀ k ∈ mergedKeys, (env.mergeConfig opts).get k =
      env.takeWithPriority opts (env.decode (env.chooseConfigFile opts)) k := by
  intro k hk
  simp only [mergedKeys, List.mem_cons, List.not_mem_nil, or_false] at hk
  rcases hk with rfl | rfl | rfl | rfl | rfl | rfl <;> rfl

theorem withConfigFile_apply (opts : PartialConfig) (path : String) :
    ∀ k ∈ mergedKeys, opts.withConfigFile path k = opts k := by
  intro k hk
  apply Function.update_of_ne
  rintro rfl
  exact absurd hk (by decide)

theorem chooseConfigFile_withConfigFile (opts : PartialConfig) {path contents : String}
    (hfile : env.files path = some (.file contents)) :
    env.chooseConfigFile (opts.withConfigFile path) = path := by
  have hopt : opts.withConfigFile path .configFile = some (.text path) := Function.update_self ..
  have hne : path ≠ "" := by
    rintro rfl
    rw [env.files_empty] at hfile
    cases hfile
  have hexists : env.existsSync path = true := by rw [existsSync, hfile]; rfl
  rw [chooseConfigFile, hopt]
  exact if_pos ⟨hne, hexists⟩

def fromText (env : ConfigEnv) (text : String) (k : ConfigKey) : ConfigValue :=
  (given (env.decode text k.name)).getD (env.defaultMap k)

/-- The documented value: that of the options, then that of the contents of the
file, then the default. -/
def documented (env : ConfigEnv) (opts : PartialConfig) (contents : String) (k : ConfigKey) :
    ConfigValue :=
  (given (opts k)).getD (env.fromText contents k)

/-- With this file, `loadConfig` returns the documented values and the url made
of two of them. -/
def FollowsPriority (env : ConfigEnv) (opts : PartialConfig) (path contents : String) : Prop :=
  ∃ cfg, env.loadConfig (opts.withConfigFile path) = .ok cfg ∧
    (∀ k ∈ mergedKeys, cfg.get k = env.documented opts contents k) ∧
    cfg.url = cfg.ip.toText ++ ":" ++ cfg.port.toText

theorem takeWithPriority_decode (opts : PartialConfig) (text : String) (k : ConfigKey) :
    env.takeWithPriority opts (env.decode text) k = env.documented opts text k := by
  unfold takeWithPriority documented fromText
  cases given (opts k) with
  | some v => rfl
  | none => cases given (env.decode text k.name) <;> rfl

theorem documented_congr {opts opts' : PartialConfig} {k : ConfigKey} (h : opts k = opts' k)
    (text : String) : env.documented opts text k = env.documented opts' text k := by
  rw [documented, documented, h]

theorem get_mergeConfig_withConfigFile (opts : PartialConfig) {path contents : String}
    (hfile : env.files path = some (.file contents)) :
    ∀ k ∈ mergedKeys, (env.mergeConfig (opts.withConfigFile path)).get k =
      env.documented opts path k := by
  intro k hk
  rw [get_mergeConfig _ k hk, chooseConfigFile_withConfigFile opts hfile,
    takeWithPriority_decode]
  exact documented_congr (withConfigFile_apply opts path k hk) path

theorem documented_eq_iff {opts : PartialConfig} {s t : String} {k : ConfigKey} :
    env.documented opts s k = env.documented opts t k ↔
      (given (opts k) = none → env.fromText s k = env.fromText t k) := by
  unfold documented
  cases given (opts k) with
  | some v => exact iff_of_true rfl fun h => nomatch h
  | none => exact ⟨fun h _ => h, fun h => h rfl⟩

/-- The documented order holds where it makes no difference that the path of the
file is decoded and not its contents, and where the url is parsed. -/
theorem followsPriority_iff (opts : PartialConfig) {path contents : String}
    (hfile : env.files path = some (.file contents)) :
    env.FollowsPriority opts path contents ↔
      (∀ k ∈ mergedKeys, given (opts k) = none →
        env.fromText path k = env.fromText contents k) ∧
      env.parseUrl ((env.documented opts contents .ip).toText ++ ":" ++
        (env.documented opts contents .port).toText) = .ok true := by
  have hget := get_mergeConfig_withConfigFile opts hfile
  constructor
  · rintro ⟨cfg, hload, hkeys, hurl⟩
    obtain ⟨rfl, hparse⟩ := loadConfig_eq_ok.mp hload
    refine ⟨fun k hk => documented_eq_iff.mp ((hget k hk).symm.trans (hkeys k hk)), ?_⟩
    have hip := hkeys .ip (by decide)
    have hport := hkeys .port (by decide)
    rwa [← hip, ← hport, Config.get, Config.get, ← hurl]
  · rintro ⟨hsame, hparse⟩
    have hkeys : ∀ k ∈ mergedKeys, (env.mergeConfig (opts.withConfigFile path)).get k =
        env.documented opts contents k := fun k hk =>
      (hget k hk).trans (documented_eq_iff.mpr (hsame k hk))
    have hurl : (env.mergeConfig (opts.withConfigFile path)).url =
        (env.documented opts contents .ip).toText ++ ":" ++
          (env.documented opts contents .port).toText := by
      rw [← hkeys .ip (by decide), ← hkeys .port (by decide)]
      rfl
    exact ⟨_, loadConfig_eq_ok.mpr ⟨rfl, by rw [hurl]; exact hparse⟩, hkeys, rfl⟩

def sampleEnv : ConfigEnv where
  appHome := "/root"
  join dir name := dir ++ "/" ++ name
  files path := if path = "/etc/wallet.conf" then some (.file "port=9735") else none
  decode text key :=
    if text = "port=9735" then
      if key = "port" then some (.text "9735") else none
    -- a text that is one line without `=` has itself as its only key
    else if key = text then some (.boolean true) else none
  parseUrl _ := .ok true
  files_empty := by decide

theorem followsPriority_port_given :
    sampleEnv.FollowsPriority (fun k => if k = .port then some (.number 8333) else none)
      "/etc/wallet.conf" "port=9735" :=
  (followsPriority_iff _ rfl).mpr ⟨by decide, rfl⟩

/-- The port is written in the file alone, and the default is taken. -/
theorem loadConfig_ignores_file :
    ¬sampleEnv.FollowsPriority (fun _ => none) "/etc/wallet.conf" "port=9735" := by
  rintro ⟨cfg, hload, hkeys, -⟩
  have hrun : (sampleEnv.loadConfig
      (PartialConfig.withConfigFile (fun _ => none) "/etc/wallet.conf")).map Config.port =
    .ok (.text "58011") := rfl
  rw [hload] at hrun
  have hport : cfg.port = .text "58011" := Except.ok.inj hrun
  have hdoc : cfg.port = .text "9735" := hkeys .port (by decide)
  rw [hport] at hdoc
  exact absurd hdoc (by decide)

end ConfigEnv

end Walletts
