import Walletts.KeyHistory
/-!
# The keys of imported coins

A coin is recorded with the public key that is to unlock it.  The key comes
from the key repository under the id of the account, and the addresses of the
account are derived from the same entry.  This module follows both from the
creation of the account to the coin, and compares the two keys.
-/

namespace Walletts

open NormalAccountService

open WalletService (seedMaster)

variable {Node : Type} {lib : HDNodeLib Node} {btc : ScriptLib}

/-! ## What an import appends -/

namespace CoinManager

variable {m m' : CoinManager} {pubkey : Buffer} {outpoints : List OutpointWithScriptAndAmount}
  {coins : List MyWalletCoin}

theorem convertOutpoints_redeemScript (h : convertOutpoints btc pubkey outpoints = .ok coins) :
    coins.length = outpoints.length ∧ ∀ coin ∈ coins, coin.redeemScript = some pubkey := by
  induction outpoints generalizing coins with
  | nil =>
      cases h
      simp
  | cons o os ih =>
      obtain ⟨coin, hcoin, h⟩ := Outcome.bind_eq_ok.mp h
      obtain ⟨rest, hrest, h⟩ := Outcome.bind_eq_ok.mp h
      obtain rfl : coin :: rest = coins := Outcome.pure_eq_ok.mp h
      obtain ⟨scriptType, -, hcoin⟩ := Outcome.bind_eq_ok.mp hcoin
      obtain ⟨hlength, hkeys⟩ := ih hrest
      refine ⟨congrArg (· + 1) hlength, List.forall_mem_cons.mpr ⟨?_, hkeys⟩⟩
      rw [← Outcome.pure_eq_ok.mp hcoin]

theorem coinList_foldl_setCoin (hlength : coins.length = outpoints.length) (m : CoinManager) :
    ((outpoints.zip coins).foldl (fun m pair => m.setCoin pair.1 pair.2) m).coinList =
      m.coinList ++ coins := by
  induction outpoints generalizing coins m with
  | nil => simp [List.length_eq_zero_iff.mp hlength]
  | cons o os ih =>
      cases coins with
      | nil => cases hlength
      | cons coin coins =>
          rw [List.zip_cons_cons, List.foldl_cons, ih (Nat.succ.inj hlength)]
          simp [coinList, InsertionMap.values, entries_setCoin]

theorem importOurOutPoints_redeemScript
    (h : m.importOurOutPoints btc outpoints (.ok (some (HexText.ofBytes pubkey))) = .ok m') :
    ∃ coins, m'.coinList = m.coinList ++ coins ∧ coins.length = outpoints.length ∧
      ∀ coin ∈ coins, coin.redeemScript = some pubkey := by
  obtain ⟨key, hkey, hrun⟩ := Outcome.bind_eq_ok.mp h
  cases hkey
  dsimp only at hrun
  by_cases hempty : HexText.ofBytes pubkey = ""
  · rw [if_pos hempty] at hrun
    cases hrun
  · rw [if_neg hempty] at hrun
    obtain ⟨coins, hcoins, hrun⟩ := Outcome.bind_eq_ok.mp hrun
    rw [HexText.toBytes_ofBytes] at hcoins
    obtain ⟨hlength, hkeys⟩ := convertOutpoints_redeemScript hcoins
    rw [← Outcome.pure_eq_ok.mp hrun]
    exact ⟨coins, coinList_foldl_setCoin hlength m, hlength, hkeys⟩

end CoinManager

/-! ## The key of a coin and the key of its address -/

theorem createFromHD_kept {keyRepo keyRepo' : InMemoryKeyRepository Node} {masterHD : Node}
    {index : Nat} {observableBlockchain coinManager : ObjRef} {account : NormalAccount}
    (h : createFromHD lib keyRepo masterHD index observableBlockchain coinManager =
      .ok (keyRepo', account)) : keyRepo'.getHDNode account.id = some masterHD := by
  obtain ⟨child, -, rfl, rfl⟩ := createFromHD_ok h
  exact InsertionMap.get_set_self _ _ _

theorem getAddress_ne_kept (hlaw : lib.Lawful) (hdistinct : lib.DistinctAddresses)
    {keyRepo : InMemoryKeyRepository Node} {account account' : NormalAccount} {masterHD : Node}
    (hkept : keyRepo.getHDNode account.id = some masterHD) {j : Nat} {addr change : String}
    (h : getAddressForAccount lib keyRepo account j = .ok (account', addr, change)) :
    lib.getAddress masterHD ∉ [addr, change] := by
  obtain ⟨external, internal, hext, hint, rfl, rfl, -⟩ := getAddressForAccount_ok hkept h
  have hbelow : ∀ s path node, lib.derivePath masterHD (s :: path) = .ok node →
      lib.getAddress masterHD ≠ lib.getAddress node := by
    intro s path node hnode heq
    have hnil := hdistinct masterHD [] ((s :: path).map PathStep.number) masterHD node rfl
      (hlaw.descend_of_derivePath hnode) heq
    cases hnil
  rw [List.mem_cons, List.mem_singleton, not_or]
  exact ⟨hbelow _ _ _ hext, hbelow _ _ _ hint⟩

def Unlocks (lib : HDNodeLib Node) (hash : Buffer) (coin : MyWalletCoin) : Prop :=
  ∃ pubkey, coin.redeemScript = some pubkey ∧ lib.hash160 pubkey = hash

/-- Coins are recorded with the key of the node that is kept for the account,
so an output is only unlocked if it pays to the address of that node. -/
theorem import_unlocks (hlaw : lib.Lawful) {keyRepo : InMemoryKeyRepository Node} {id : AccountID}
    {masterHD : Node} (hkept : keyRepo.getHDNode id = some masterHD) {m m' : CoinManager}
    {outpoints : List OutpointWithScriptAndAmount}
    (hrun : m.importOurOutPoints btc outpoints (.ok (keyRepo.getPubKey lib id)) = .ok m') :
    ∃ coins, m'.coinList = m.coinList ++ coins ∧ coins.length = outpoints.length ∧
      ∀ coin ∈ coins, ∀ hash, Unlocks lib hash coin →
        lib.encodeAddress (lib.network masterHD) hash = lib.getAddress masterHD := by
  have hpubkey : keyRepo.getPubKey lib id =
      some (HexText.ofBytes (lib.getPublicKeyBuffer masterHD)) := congrArg (Option.map _) hkept
  rw [hpubkey] at hrun
  obtain ⟨coins, hcoins, hlength, hkeys⟩ := CoinManager.importOurOutPoints_redeemScript hrun
  refine ⟨coins, hcoins, hlength, ?_⟩
  rintro coin hcoin hash ⟨pubkey, hscript, rfl⟩
  rw [hkeys coin hcoin] at hscript
  obtain rfl := Option.some.inj hscript
  exact (hlaw.getAddress_eq masterHD).symm

/-- Of the outputs that pay to an address of an account, none is recorded with
the key of that address.  The repositories may change between the creation of
the account, the request of the address and the import, as long as they keep
the entry of the account. -/
theorem redeemScript_never (hlaw : lib.Lawful) (hdistinct : lib.DistinctAddresses)
    {keyRepo made atRequest atImport : InMemoryKeyRepository Node} {masterHD : Node}
    {index j : Nat} {observableBlockchain coinManager : ObjRef}
    {account a a' : NormalAccount} {addr change : String} {m m' : CoinManager}
    {outpoints : List OutpointWithScriptAndAmount}
    (hcreate : createFromHD lib keyRepo masterHD index observableBlockchain coinManager =
      .ok (made, account))
    (hrequest : atRequest.getHDNode account.id = made.getHDNode account.id)
    (himport : atImport.getHDNode account.id = made.getHDNode account.id)
    (ha : a.id = account.id)
    (hget : getAddressForAccount lib atRequest a j = .ok (a', addr, change))
    (hrun : m.importOurOutPoints btc outpoints (.ok (atImport.getPubKey lib account.id)) =
      .ok m') :
    ∃ coins, m'.coinList = m.coinList ++ coins ∧ coins.length = outpoints.length ∧
      ∀ pair ∈ outpoints.zip coins, ∀ hash, pair.1.scriptPubKey = ScriptLib.p2pkh hash →
        lib.encodeAddress (lib.network masterHD) hash ∈ [addr, change] →
        ¬ Unlocks lib hash pair.2 := by
  have hkept := createFromHD_kept hcreate
  obtain ⟨coins, hcoins, hlength, hunlocks⟩ := import_unlocks hlaw (himport.trans hkept) hrun
  refine ⟨coins, hcoins, hlength, ?_⟩
  intro pair hpair hash _ haddress hunlock
  rw [hunlocks _ (List.of_mem_zip hpair).2 hash hunlock] at haddress
  exact getAddress_ne_kept hlaw hdistinct ((ha ▸ hrequest).trans (ha ▸ hkept)) hget haddress

/-- A `ScriptLib` beside the symbolic keys, which knows one kind of script. -/
def SymbolicNode.scripts : ScriptLib where
  fromOutputScript script :=
    let hash := (script.drop 3).dropLast.dropLast
    if script = ScriptLib.p2pkh hash then .ok (SymbolicNode.encodeAddress .bitcoin hash)
    else .error ⟨.error, "has no matching Address"⟩
  classifyOutput script :=
    .ok (if script = ScriptLib.p2pkh (script.drop 3).dropLast.dropLast then "pubkeyhash"
      else "nonstandard")

def seedAccount : NormalAccount :=
  newNormalAccount (idOf SymbolicNode.lib ((seedMaster .bitcoin).child (2 ^ 31))) 0 1 0

def seedKeys : InMemoryKeyRepository SymbolicNode :=
  InMemoryKeyRepository.setHDNode .empty seedAccount.id (seedMaster .bitcoin)

def addressNode (chain : Nat) : SymbolicNode := ((seedMaster .bitcoin).child chain).child 0

def receivedOutpoint : OutpointWithScriptAndAmount :=
  ⟨"f4184fc596403b9d638783cf57adfe4c75c605f6356fbc91338530e9831e9e16", 0,
    ScriptLib.p2pkh (SymbolicNode.lib.hash160 (addressNode 0).key), 1⟩

theorem seedAccount_created :
    createFromHD SymbolicNode.lib .empty (seedMaster .bitcoin) 0 0 1 =
      .ok (seedKeys, seedAccount) := rfl

theorem seedAccount_addresses : ∃ a',
    getAddressForAccount SymbolicNode.lib seedKeys seedAccount 0 =
      .ok (a', SymbolicNode.lib.getAddress (addressNode 0),
        SymbolicNode.lib.getAddress (addressNode 1)) :=
  WalletService.getAddressForAccount_first (createFromHD_kept seedAccount_created)

theorem receivedOutpoint_import : ∃ m', (CoinManager.new 0).importOurOutPoints SymbolicNode.scripts
    [receivedOutpoint] (.ok (seedKeys.getPubKey SymbolicNode.lib seedAccount.id)) = .ok m' := by
  have hpubkey : seedKeys.getPubKey SymbolicNode.lib seedAccount.id =
      some (HexText.ofBytes (seedMaster .bitcoin).key) :=
    congrArg (Option.map _) (createFromHD_kept seedAccount_created)
  have hne : HexText.ofBytes (seedMaster .bitcoin).key ≠ "" := by
    intro h
    have hkey := HexText.ofBytes_injective ((h.trans rfl : _ = HexText.ofBytes []))
    simp [seedMaster, SymbolicNode.rootKey] at hkey
  rw [hpubkey]
  simp [CoinManager.importOurOutPoints, hne, bind, Except.bind, CoinManager.convertOutpoints,
    CoinManager.fromOutpointAndPubKey, SymbolicNode.scripts, pure, Except.pure]

theorem redeemScript_never_received : ∃ m' coin,
    (CoinManager.new 0).importOurOutPoints SymbolicNode.scripts [receivedOutpoint]
        (.ok (seedKeys.getPubKey SymbolicNode.lib seedAccount.id)) = .ok m' ∧
      m'.coinList = [coin] ∧
      ¬ Unlocks SymbolicNode.lib (SymbolicNode.lib.hash160 (addressNode 0).key) coin := by
  obtain ⟨a', hget⟩ := seedAccount_addresses
  obtain ⟨m', hrun⟩ := receivedOutpoint_import
  obtain ⟨coins, hcoins, hlength, hnever⟩ := redeemScript_never SymbolicNode.lib_lawful
    SymbolicNode.lib_distinctAddresses seedAccount_created rfl rfl rfl hget hrun
  obtain ⟨coin, rfl⟩ := List.length_eq_one_iff.mp hlength
  exact ⟨m', coin, hrun, hcoins,
    hnever (receivedOutpoint, coin) (List.mem_singleton_self _) _ rfl List.mem_cons_self⟩

/-- The coin of an output that pays to the first address of the account has a
key that does not hash to it. -/
theorem redeemScript_other_key : ∃ keyRepo account a' addr change m' coin hash,
    createFromHD SymbolicNode.lib .empty (seedMaster .bitcoin) 0 0 1 = .ok (keyRepo, account) ∧
      getAddressForAccount SymbolicNode.lib keyRepo account 0 = .ok (a', addr, change) ∧
      receivedOutpoint.scriptPubKey = ScriptLib.p2pkh hash ∧
      SymbolicNode.lib.encodeAddress .bitcoin hash = addr ∧
      (CoinManager.new 0).importOurOutPoints SymbolicNode.scripts [receivedOutpoint]
        (.ok (keyRepo.getPubKey SymbolicNode.lib account.id)) = .ok m' ∧
      m'.coinList = [coin] ∧ ¬ Unlocks SymbolicNode.lib hash coin := by
  obtain ⟨a', hget⟩ := seedAccount_addresses
  obtain ⟨m', hrun⟩ := receivedOutpoint_import
  have hkept := createFromHD_kept seedAccount_created
  obtain ⟨coins, hcoins, hlength, hunlocks⟩ := import_unlocks SymbolicNode.lib_lawful hkept hrun
  obtain ⟨coin, rfl⟩ := List.length_eq_one_iff.mp hlength
  refine ⟨seedKeys, seedAccount, a', _, _, m', coin, _, seedAccount_created, hget, rfl, rfl, hrun,
    hcoins, ?_⟩
  intro hunlock
  have hsame := hunlocks coin (List.mem_singleton_self coin) _ hunlock
  apply getAddress_ne_kept SymbolicNode.lib_lawful SymbolicNode.lib_distinctAddresses hkept hget
  rw [← hsame]
  exact List.mem_cons_self

end Walletts
