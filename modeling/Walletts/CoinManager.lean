import Walletts.BitcoinJs
import Walletts.Lib.InsertionMap
/-!
# The coin manager

`CoinManager` keeps the coins of an account in a `Map` whose keys are `CoinID`
objects.  A `Map` compares such keys by identity, and every import makes new
ones; the structure below carries the fact that all keys in use are older than
the next object.

`importOurOutPoints` turns outpoints into coins once the key repository has
answered, and `crateTx` turns coins into inputs of a transaction.  Their main
result here is how the two fit together.
-/

namespace Walletts

structure OutpointWithScriptAndAmount where
  id : String
  index : Nat
  scriptPubKey : Buffer
  amount : Int
  deriving DecidableEq

structure CoinID where
  ref : ObjRef
  id : String
  deriving DecidableEq

/-- The text of `CoinID.fromOutpoint`: the transaction id, then the index in
hexadecimal without padding. -/
def coinIdText (txid : String) (index : Nat) : String := txid ++ HexText.ofNat index

theorem coinIdText_inj {s t : String} {m n : Nat} (hlen : s.length = t.length)
    (h : coinIdText s m = coinIdText t n) : s = t ∧ m = n :=
  HexText.append_ofNat_inj hlen h

namespace CoinID

def fromOutpoint (ref : ObjRef) (o : OutpointWithScriptAndAmount) : CoinID :=
  ⟨ref, coinIdText o.id o.index⟩

/-- No separator stands between the two parts, and the index has no fixed
width; transaction ids of one length keep the parts apart all the same. -/
theorem fromOutpoint_id_inj {o o' : OutpointWithScriptAndAmount} (ref ref' : ObjRef)
    (hlen : o.id.length = o'.id.length)
    (h : (fromOutpoint ref o).id = (fromOutpoint ref' o').id) :
    o.id = o'.id ∧ o.index = o'.index :=
  coinIdText_inj hlen h

theorem fromOutpoint_id_inj_same_output :
    let txid := "f4184fc596403b9d638783cf57adfe4c75c605f6356fbc91338530e9831e9e16"
    let o : OutpointWithScriptAndAmount := ⟨txid, 26, ScriptLib.p2pkh ScriptLib.eaterHash, 7⟩
    let o' : OutpointWithScriptAndAmount := ⟨txid, 0x1a, ScriptLib.p2pkh ScriptLib.genesisHash, 9⟩
    o.id = o'.id ∧ o.index = o'.index :=
  fromOutpoint_id_inj 0 1 rfl rfl

end CoinID

/-- The coin map, and the identity the next object will get. -/
structure CoinManager where
  coins : InsertionMap CoinID MyWalletCoin
  nextRef : ObjRef
  ref_lt : ∀ k ∈ coins.keys, k.ref < nextRef

namespace CoinManager

def new (nextRef : ObjRef) : CoinManager := ⟨.empty, nextRef, by simp⟩

def coinList (m : CoinManager) : List MyWalletCoin := m.coins.values

theorem fromOutpoint_notMem (m : CoinManager) (o : OutpointWithScriptAndAmount) :
    CoinID.fromOutpoint m.nextRef o ∉ m.coins.keys := fun h =>
  Nat.lt_irrefl _ (m.ref_lt _ h)

def setCoin (m : CoinManager) (o : OutpointWithScriptAndAmount) (coin : MyWalletCoin) :
    CoinManager where
  coins := m.coins.set (CoinID.fromOutpoint m.nextRef o) coin
  nextRef := m.nextRef + 1
  ref_lt := by
    intro k hk
    rw [InsertionMap.keys, InsertionMap.entries_set_of_notMem _ (m.fromOutpoint_notMem o),
      List.map_append, List.mem_append] at hk
    rcases hk with hk | hk
    · exact (m.ref_lt k hk).trans (Nat.lt_succ_self _)
    · rw [List.mem_singleton.mp hk]
      exact Nat.lt_succ_self _

/-- A key made for the occasion is never there yet, so every `set` appends. -/
theorem entries_setCoin (m : CoinManager) (o : OutpointWithScriptAndAmount)
    (coin : MyWalletCoin) :
    (m.setCoin o coin).coins.entries =
      m.coins.entries ++ [(CoinID.fromOutpoint m.nextRef o, coin)] :=
  InsertionMap.entries_set_of_notMem coin (m.fromOutpoint_notMem o)

/-! ## Importing outpoints -/

def fromOutpointAndPubKey (btc : ScriptLib) (out : OutpointWithScriptAndAmount)
    (scriptPubKey pubKey : Buffer) (amount : Int) : Except JsError MyWalletCoin := do
  let scriptType ← btc.classifyOutput scriptPubKey
  return {
    scriptPubKey := scriptPubKey
    scriptType := scriptType
    txid := out.id
    label := none
    redeemScript := some pubKey
    amount := ⟨amount⟩ }

def notOurselves : JsError :=
  ⟨.error, "Tried to pick output into account which is not ourselves"⟩

def convertOutpoints (btc : ScriptLib) (pubkey : Buffer) :
    List OutpointWithScriptAndAmount → Except JsError (List MyWalletCoin)
  | [] => .ok []
  | o :: os => do
      let coin ← fromOutpointAndPubKey btc o o.scriptPubKey pubkey o.amount
      let coins ← convertOutpoints btc pubkey os
      return coin :: coins

/-- `importOurOutPoints` from the moment the key repository has answered its
`getPubKey(id)`: with a rejection, with nothing, or with a key in hexadecimal.
From there on it does not wait again. -/
def importOurOutPoints (btc : ScriptLib) (m : CoinManager)
    (outpoints : List OutpointWithScriptAndAmount)
    (reply : Except JsError (Option String)) : Except JsError CoinManager := do
  match ← reply with
  | none => throw notOurselves
  | some pubkey =>
      -- `!pubkey` holds of the empty text too
      if pubkey = "" then throw notOurselves
      let coins ← convertOutpoints btc (HexText.toBytes pubkey) outpoints
      return (outpoints.zip coins).foldl (fun m pair => m.setCoin pair.1 pair.2) m

def samplePubKey : String :=
  "0279be667ef9dcbbac55a06295ce870b07029bfcdb2dce28d959f2815b16f81798"

/-- What the books say about a coin: under which text it is kept, where it came
from, its script and its amount. -/
structure CoinRecord where
  coinId : String
  txid : String
  scriptPubKey : Buffer
  amount : Int
  deriving DecidableEq

def entryRecord (e : CoinID × MyWalletCoin) : CoinRecord :=
  ⟨e.1.id, e.2.txid, e.2.scriptPubKey, e.2.amount.amount⟩

def outpointRecord (o : OutpointWithScriptAndAmount) : CoinRecord :=
  ⟨coinIdText o.id o.index, o.id, o.scriptPubKey, o.amount⟩

def records (m : CoinManager) : List CoinRecord := m.coins.entries.map entryRecord

theorem entryRecord_fromOutpointAndPubKey {btc : ScriptLib} {o : OutpointWithScriptAndAmount}
    {pubkey : Buffer} {coin : MyWalletCoin} (ref : ObjRef)
    (h : fromOutpointAndPubKey btc o o.scriptPubKey pubkey o.amount = .ok coin) :
    entryRecord (CoinID.fromOutpoint ref o, coin) = outpointRecord o := by
  obtain ⟨scriptType, -, hcoin⟩ := Outcome.bind_eq_ok.mp h
  rw [← Outcome.pure_eq_ok.mp hcoin]
  rfl

theorem records_foldl_setCoin {btc : ScriptLib} {pubkey : Buffer}
    {outpoints : List OutpointWithScriptAndAmount} {coins : List MyWalletCoin}
    (h : convertOutpoints btc pubkey outpoints = .ok coins) (m : CoinManager) :
    ∃ new, ((outpoints.zip coins).foldl (fun m pair => m.setCoin pair.1 pair.2) m).coins.entries =
        m.coins.entries ++ new ∧
      new.map entryRecord = outpoints.map outpointRecord := by
  induction outpoints generalizing coins m with
  | nil => exact ⟨[], by simp⟩
  | cons o os ih =>
      obtain ⟨coin, hcoin, h⟩ := Outcome.bind_eq_ok.mp h
      obtain ⟨rest, hrest, h⟩ := Outcome.bind_eq_ok.mp h
      obtain rfl : coin :: rest = coins := Outcome.pure_eq_ok.mp h
      obtain ⟨new, hentries, hnew⟩ := ih hrest (m.setCoin o coin)
      refine ⟨(CoinID.fromOutpoint m.nextRef o, coin) :: new, ?_, ?_⟩
      · rw [List.zip_cons_cons, List.foldl_cons, hentries, entries_setCoin, List.append_assoc,
          List.singleton_append]
      · rw [List.map_cons, List.map_cons, hnew, entryRecord_fromOutpointAndPubKey m.nextRef hcoin]

theorem importOurOutPoints_ok {btc : ScriptLib} {m m' : CoinManager}
    {outpoints : List OutpointWithScriptAndAmount} {reply : Except JsError (Option String)}
    (h : m.importOurOutPoints btc outpoints reply = .ok m') :
    ∃ new, m'.coins.entries = m.coins.entries ++ new ∧
      new.map entryRecord = outpoints.map outpointRecord := by
  obtain ⟨key, -, hrun⟩ := Outcome.bind_eq_ok.mp h
  cases key with
  | none => cases hrun
  | some pubkey =>
      dsimp only at hrun
      by_cases hempty : pubkey = ""
      · rw [if_pos hempty] at hrun
        cases hrun
      · rw [if_neg hempty] at hrun
        obtain ⟨coins, hcoins, hrun⟩ := Outcome.bind_eq_ok.mp hrun
        rw [← Outcome.pure_eq_ok.mp hrun]
        exact records_foldl_setCoin hcoins m

def Classified (btc : ScriptLib) (outpoints : List OutpointWithScriptAndAmount) : Prop :=
  ∀ o ∈ outpoints, ∃ type, btc.classifyOutput o.scriptPubKey = .ok type

theorem convertOutpoints_ok_iff {btc : ScriptLib} {pubkey : Buffer}
    {outpoints : List OutpointWithScriptAndAmount} :
    (∃ coins, convertOutpoints btc pubkey outpoints = .ok coins) ↔ Classified btc outpoints := by
  induction outpoints with
  | nil => exact iff_of_true ⟨[], rfl⟩ fun _ ho => absurd ho List.not_mem_nil
  | cons o os ih =>
      rw [Classified, List.forall_mem_cons, ← Classified, ← ih]
      constructor
      · rintro ⟨coins, hcoins⟩
        obtain ⟨coin, hcoin, hcoins⟩ := Outcome.bind_eq_ok.mp hcoins
        obtain ⟨type, htype, -⟩ := Outcome.bind_eq_ok.mp hcoin
        obtain ⟨rest, hrest, -⟩ := Outcome.bind_eq_ok.mp hcoins
        exact ⟨⟨type, htype⟩, rest, hrest⟩
      · rintro ⟨⟨type, htype⟩, rest, hrest⟩
        exact ⟨_, Outcome.bind_eq_ok.mpr ⟨_, Outcome.bind_eq_ok.mpr ⟨type, htype, rfl⟩,
          Outcome.bind_eq_ok.mpr ⟨rest, hrest, rfl⟩⟩⟩

theorem importOurOutPoints_ok_iff {btc : ScriptLib} {m : CoinManager}
    {outpoints : List OutpointWithScriptAndAmount} {reply : Except JsError (Option String)} :
    (∃ m', m.importOurOutPoints btc outpoints reply = .ok m') ↔
      ∃ pubkey, reply = .ok (some pubkey) ∧ pubkey ≠ "" ∧ Classified btc outpoints := by
  constructor
  · rintro ⟨m', h⟩
    obtain ⟨key, rfl, hrun⟩ := Outcome.bind_eq_ok.mp h
    cases key with
    | none => cases hrun
    | some pubkey =>
        dsimp only at hrun
        by_cases hempty : pubkey = ""
        · rw [if_pos hempty] at hrun
          cases hrun
        · rw [if_neg hempty] at hrun
          obtain ⟨coins, hcoins, -⟩ := Outcome.bind_eq_ok.mp hrun
          exact ⟨pubkey, rfl, hempty, convertOutpoints_ok_iff.mp ⟨coins, hcoins⟩⟩
  · rintro ⟨pubkey, rfl, hempty, hclassified⟩
    obtain ⟨coins, hcoins⟩ : ∃ coins,
        convertOutpoints btc (HexText.toBytes pubkey) outpoints = .ok coins :=
      convertOutpoints_ok_iff.mpr hclassified
    simp [importOurOutPoints, bind, Except.bind, hempty, hcoins, pure, Except.pure]

theorem records_importOurOutPoints {btc : ScriptLib} {m m' : CoinManager}
    {outpoints : List OutpointWithScriptAndAmount} {reply : Except JsError (Option String)}
    (h : m.importOurOutPoints btc outpoints reply = .ok m') :
    m'.records = m.records ++ outpoints.map outpointRecord := by
  obtain ⟨new, hentries, hnew⟩ := importOurOutPoints_ok h
  rw [records, hentries, List.map_append, hnew, records]

end CoinManager

end Walletts
