import Walletts.Session
import Mathlib.Algebra.Order.BigOperators.Group.List
import Mathlib.Data.Rat.Cast.Defs
import Mathlib.Tactic.Linarith
/-!
# The coins of an account against the blockchain

What the coins of a session are over any run: when an outpoint has one coin,
which coins are there, and how the coins and the balance compare.
-/

namespace Walletts

namespace Session

open CoinManager (CoinRecord outpointRecord entryRecord Classified)

variable {btc : ScriptLib}

/-! ## One coin for each outpoint -/

/-- Every record is kept under the text of an outpoint of its transaction.  The
first output of that transaction is recorded with it. -/
structure WellKept (rs : List CoinRecord) : Prop where
  coinId_eq : ∀ r ∈ rs, r.txid.length = 64 ∧ ∃ index, r.coinId = coinIdText r.txid index
  first : ∀ r ∈ rs, coinIdText r.txid 0 ∈ rs.map CoinRecord.coinId

theorem exists_first {tx : Transaction} {o : OutpointWithScriptAndAmount}
    (h : o ∈ tx.outpoints) : ∃ o' ∈ tx.outpoints, o'.index = 0 := by
  have hindex : o.index ∈ List.range tx.outs.length := by
    rw [← tx.index_outpoints]
    exact List.mem_map_of_mem h
  have hzero : 0 ∈ List.range tx.outs.length := by
    rw [List.mem_range] at hindex ⊢
    exact Nat.zero_lt_of_lt hindex
  rw [← tx.index_outpoints] at hzero
  exact List.mem_map.mp hzero

theorem coinId_outpointRecord {tx : Transaction} {o : OutpointWithScriptAndAmount}
    (h : o ∈ tx.outpoints) : (outpointRecord o).coinId = coinIdText tx.getId o.index := by
  rw [outpointRecord, Transaction.id_of_mem_outpoints h]

theorem WellKept.add_outpoints {rs : List CoinRecord} (h : WellKept rs) (tx : Transaction) :
    WellKept (rs ++ tx.outpoints.map outpointRecord) where
  coinId_eq := by
    intro r hr
    rcases List.mem_append.mp hr with hr | hr
    · exact h.coinId_eq r hr
    · obtain ⟨o, ho, rfl⟩ := List.mem_map.mp hr
      refine ⟨?_, o.index, rfl⟩
      rw [outpointRecord, Transaction.id_of_mem_outpoints ho]
      exact tx.getId_length
  first := by
    intro r hr
    rw [List.map_append, List.mem_append]
    rcases List.mem_append.mp hr with hr | hr
    · exact .inl (h.first r hr)
    · obtain ⟨o, ho, rfl⟩ := List.mem_map.mp hr
      obtain ⟨o', ho', hzero⟩ := exists_first ho
      refine .inr (List.mem_map.mpr ⟨_, List.mem_map_of_mem ho', ?_⟩)
      rw [coinId_outpointRecord ho', hzero, outpointRecord, Transaction.id_of_mem_outpoints ho]

theorem nodup_outpoints (tx : Transaction) :
    ((tx.outpoints.map outpointRecord).map CoinRecord.coinId).Nodup := by
  have hindices : (tx.outpoints.map OutpointWithScriptAndAmount.index).Nodup :=
    tx.index_outpoints ▸ List.nodup_range
  rw [List.map_map]
  apply hindices.of_map.map_on
  intro o ho o' ho' heq
  rw [Function.comp_apply, Function.comp_apply, coinId_outpointRecord ho,
    coinId_outpointRecord ho'] at heq
  exact List.inj_on_of_nodup_map hindices ho ho' (coinIdText_inj rfl heq).2

/-- The outputs of a transaction get texts of their own exactly when nothing of
the transaction is recorded yet. -/
theorem WellKept.nodup_add_outpoints_iff {rs : List CoinRecord} (h : WellKept rs)
    (hnodup : (rs.map CoinRecord.coinId).Nodup) (tx : Transaction) :
    ((rs ++ tx.outpoints.map outpointRecord).map CoinRecord.coinId).Nodup ↔
      ∀ o ∈ tx.outpoints, ∀ r ∈ rs, r.txid ≠ o.id := by
  rw [List.map_append, List.nodup_append']
  constructor
  · rintro ⟨-, -, hdisjoint⟩ o ho r hr heq
    obtain ⟨o', ho', hzero⟩ := exists_first ho
    have hfirst := h.first r hr
    rw [heq, Transaction.id_of_mem_outpoints ho, ← hzero, ← coinId_outpointRecord ho'] at hfirst
    exact hdisjoint hfirst (List.mem_map_of_mem (List.mem_map_of_mem ho'))
  · refine fun hnew => ⟨hnodup, nodup_outpoints tx, ?_⟩
    intro text hold hadded
    obtain ⟨r, hr, rfl⟩ := List.mem_map.mp hold
    obtain ⟨r', hr', heq⟩ := List.mem_map.mp hadded
    obtain ⟨o, ho, rfl⟩ := List.mem_map.mp hr'
    obtain ⟨hlength, index, hindex⟩ := h.coinId_eq r hr
    rw [coinId_outpointRecord ho, hindex] at heq
    have hsame := (coinIdText_inj (tx.getId_length.trans hlength.symm) heq).1
    exact hnew o ho r hr (hsame.symm.trans (Transaction.id_of_mem_outpoints ho).symm)

def AtMostOneCoin (m : CoinManager) : Prop :=
  ∀ txid index, txid.length = 64 →
    m.coins.entries.countP (fun e => e.1.id == coinIdText txid index) ≤ 1

theorem WellKept.nodup_iff {m : CoinManager} (h : WellKept m.records) :
    AtMostOneCoin m ↔ (m.records.map CoinRecord.coinId).Nodup := by
  have hcount : ∀ text, (m.records.map CoinRecord.coinId).count text =
      m.coins.entries.countP fun e => e.1.id == text := by
    intro text
    simp [CoinManager.records, List.count, List.countP_map, Function.comp_def, entryRecord]
  rw [List.nodup_iff_count_le_one]
  constructor
  · intro hone text
    by_cases hmem : text ∈ m.records.map CoinRecord.coinId
    · obtain ⟨r, hr, rfl⟩ := List.mem_map.mp hmem
      obtain ⟨hlength, index, hindex⟩ := h.coinId_eq r hr
      rw [hindex, hcount]
      exact hone r.txid index hlength
    · rw [List.count_eq_zero_of_not_mem hmem]
      exact Nat.zero_le 1
  · intro hone txid index _
    rw [← hcount]
    exact hone _

/-- An import that resolves, because the repository has answered with a key and
every script has a type, is the first of its transaction. -/
def ImportedOnce (btc : ScriptLib) (s : Session) : Label → Prop
  | .settle k (.ok (some pubkey)) => ∀ request, s.pending[k]? = some request → pubkey ≠ "" →
      Classified btc request.outpoints →
        ∀ o ∈ request.outpoints, ∀ r ∈ s.manager.records, r.txid ≠ o.id
  | _ => True

/-- The records are those of whole transactions, and so are those that wait. -/
structure WholeTransactions (s : Session) : Prop where
  wellKept : WellKept s.manager.records
  pending : ∀ request ∈ s.pending, ∃ tx : Transaction, request.outpoints = tx.outpoints

theorem WholeTransactions.step {s t : Session} {l : Label} (h : WholeTransactions s)
    (hstep : (machine btc).step s l = some t) : WholeTransactions t where
  wellKept := by
    rw [records_step hstep]
    cases l with
    | getAddress v address changeAddress => simpa [resolved] using h.wellKept
    | deliver tx => simpa [resolved] using h.wellKept
    | settle k reply =>
        simp only [resolved]
        split
        · simpa using h.wellKept
        · rename_i request hrequest
          obtain ⟨tx, htx⟩ := h.pending request (List.mem_of_getElem? hrequest)
          split
          · rw [htx]
            exact h.wellKept.add_outpoints tx
          · simpa using h.wellKept
  pending := by
    intro request hrequest
    rcases pending_step hstep hrequest with hold | ⟨tx, -, htx⟩
    · exact h.pending request hold
    · exact ⟨tx, htx⟩

theorem importedOnce_settle {s : Session} {k : Nat} {request : ImportRequest}
    (hrequest : s.pending[k]? = some request) (reply : Except JsError (Option String)) :
    ImportedOnce btc s (.settle k reply) ↔
      ((∃ m', s.manager.importOurOutPoints btc request.outpoints reply = .ok m') →
        ∀ o ∈ request.outpoints, ∀ r ∈ s.manager.records, r.txid ≠ o.id) := by
  rw [CoinManager.importOurOutPoints_ok_iff]
  constructor
  · rintro honce ⟨pubkey, rfl, hne, hclassified⟩
    exact honce request hrequest hne hclassified
  · intro honce
    unfold ImportedOnce
    split
    · rename_i heq
      cases heq
      intro request' hrequest' hne hclassified
      obtain rfl := Option.some.inj (hrequest.symm.trans hrequest')
      exact honce ⟨_, rfl, hne, hclassified⟩
    · trivial

theorem WholeTransactions.step_iff {s t : Session} {l : Label} (h : WholeTransactions s)
    (hone : AtMostOneCoin s.manager) (hstep : (machine btc).step s l = some t) :
    AtMostOneCoin t.manager ↔ ImportedOnce btc s l := by
  obtain ⟨v, address, changeAddress, new, rfl, rfl⟩ | ⟨tx, rfl, rfl⟩ |
    ⟨k, reply, request, rfl, hrequest, rfl⟩ := step_cases hstep
  · exact iff_of_true hone trivial
  · exact iff_of_true hone trivial
  · rw [importedOnce_settle hrequest, settleManager]
    cases himport : s.manager.importOurOutPoints btc request.outpoints reply with
    | error e =>
        refine iff_of_true hone ?_
        rintro ⟨m', hresolves⟩
        cases hresolves
    | ok m' =>
        obtain ⟨tx, htx⟩ := h.pending request (List.mem_of_getElem? hrequest)
        have hrecords := CoinManager.records_importOurOutPoints himport
        have hkept : WellKept m'.records := by
          rw [hrecords, htx]
          exact h.wellKept.add_outpoints tx
        have hnodup := h.wellKept.nodup_iff.mp hone
        rw [hkept.nodup_iff, hrecords, htx, h.wellKept.nodup_add_outpoints_iff hnodup tx]
        exact ⟨fun hnew _ => hnew, fun hnew => hnew ⟨m', rfl⟩⟩

theorem wholeTransactions_start (ref : ObjRef) (a : NormalAccount) :
    WholeTransactions (start ref a) where
  wellKept := ⟨fun _ hr => absurd hr List.not_mem_nil, fun _ hr => absurd hr List.not_mem_nil⟩
  pending := fun _ hrequest => absurd hrequest List.not_mem_nil

def spendingTx : Transaction where
  getId := "a16f3ce4dd5deb92d98ef5cf8afeaf0775ebca408f708b2146c4fb42b41e14be"
  toHex := ""
  ins := [⟨sampleTx.getId, 0⟩]
  outs := [⟨0, ScriptLib.p2pkh ScriptLib.genesisHash, 1000000000⟩]
  getId_length := by decide
  outs_nodup := by decide

def sampleReply : Except JsError (Option String) :=
  .ok (some CoinManager.samplePubKey)

def sampleWatcher : NormalAccount :=
  sampleAccount (some ["1A1zP1eP5QGefi2DMPTfTL5SLmv7DivfNa",
    "1BitcoinEaterAddressDontSendf59kuE"])

/-- No outpoint has two coins in any state of a run, exactly when no import of
the run resolves for a transaction that is recorded already. -/
theorem atMostOneCoin_iff {ref : ObjRef} {a : NormalAccount} {ls : List Label} {t : Session}
    (hrun : (machine btc).run (start ref a) ls = some t) :
    (∀ earlier u, earlier <+: ls → (machine btc).run (start ref a) earlier = some u →
      AtMostOneCoin u.manager) ↔
      (machine btc).Within (ImportedOnce btc) (start ref a) ls := by
  have hwhole : ∀ earlier u, (machine btc).run (start ref a) earlier = some u →
      WholeTransactions u := fun earlier u hu =>
    Machine.run_invariant (fun _ _ _ hs hstep => hs.step hstep) hu (wholeTransactions_start ref a)
  have hstart : AtMostOneCoin (start ref a).manager := fun _ _ _ => Nat.zero_le 1
  have hpre := Machine.forall_prefix_iff_within (M := machine btc)
    (P := fun s => AtMostOneCoin s.manager ∧ WholeTransactions s) (G := ImportedOnce btc)
    (fun s l u hs hstep => by
      rw [← hs.2.step_iff hs.1 hstep, and_iff_left (hs.2.step hstep)])
    hrun ⟨hstart, wholeTransactions_start ref a⟩
  rw [← hpre]
  constructor
  · exact fun h earlier u hearlier hu => ⟨h earlier u hearlier hu, hwhole earlier u hu⟩
  · exact fun h earlier u hearlier hu => (h earlier u hearlier hu).1

/-- A transaction is delivered a second time, when the account is no longer
found. -/
theorem atMostOneCoin_iff_rejected : ∃ s,
    (machine .knownScripts).run (start 2 (sampleAccount none))
        [.deliver sampleTx, .settle 0 sampleReply, .deliver sampleTx, .settle 0 (.ok none)] =
      some s ∧ s.manager.coinList.length = 2 ∧ AtMostOneCoin s.manager := by
  have hrun : (machine .knownScripts).run (start 2 (sampleAccount none))
      [.deliver sampleTx, .settle 0 sampleReply, .deliver sampleTx, .settle 0 (.ok none)] =
    some _ := rfl
  have honce : (machine .knownScripts).Within (ImportedOnce .knownScripts)
      (start 2 (sampleAccount none))
      [.deliver sampleTx, .settle 0 sampleReply, .deliver sampleTx, .settle 0 (.ok none)] := by
    refine (Machine.within_cons rfl).mpr ⟨trivial, ?_⟩
    refine (Machine.within_cons rfl).mpr
      ⟨fun _ _ _ _ _ _ r hr => absurd hr List.not_mem_nil, ?_⟩
    refine (Machine.within_cons rfl).mpr ⟨trivial, ?_⟩
    exact (Machine.within_cons rfl).mpr ⟨trivial, trivial⟩
  exact ⟨_, hrun, rfl, (atMostOneCoin_iff hrun).mpr honce _ _ List.prefix_rfl hrun⟩

/-- After one request for an address two versions listen, and each output of
one transaction gets two coins. -/
theorem atMostOneCoin_two_subscribers : ∃ s,
    (machine .knownScripts).run (start 2 (sampleAccount none))
        [.getAddress 0 (some "1A1zP1eP5QGefi2DMPTfTL5SLmv7DivfNa")
            (some "1BitcoinEaterAddressDontSendf59kuE"),
          .deliver sampleTx, .settle 0 sampleReply, .settle 0 sampleReply] = some s ∧
      ¬ AtMostOneCoin s.manager := by
  refine ⟨_, rfl, fun h => ?_⟩
  have hone := h sampleTx.getId 0 sampleTx.getId_length
  exact absurd hone (by decide)

/-! ## Spent outputs -/

def SpentAreGone (m : CoinManager) (txs : List Transaction) : Prop :=
  ∀ tx ∈ txs, ∀ i ∈ tx.ins, ∀ e ∈ m.coins.entries, e.1.id ≠ coinIdText i.id i.index

/-- The coins only grow: a run keeps every entry in its place and appends a
coin for each outpoint of the imports that resolve.  These are outputs of the
transactions delivered, or were waiting before. -/
theorem coins_only_grow {s t : Session} {ls : List Label}
    (hrun : (machine btc).run s ls = some t) :
    s.manager.coins.entries <+: t.manager.coins.entries ∧
      t.manager.records = s.manager.records ++ (resolvedIn btc s ls).map outpointRecord ∧
      ∀ o ∈ resolvedIn btc s ls, (∃ request ∈ s.pending, o ∈ request.outpoints) ∨
        ∃ tx ∈ delivered ls, o ∈ tx.outpoints :=
  ⟨entries_prefix_run hrun, records_run hrun, fun _ => mem_resolvedIn⟩

theorem coins_only_grow_sample : ∃ t,
    (machine .knownScripts).run (start 2 (sampleAccount none))
        [.deliver sampleTx, .settle 0 sampleReply] = some t ∧
      t.manager.records = sampleTx.outpoints.map outpointRecord := by
  have hrun : (machine .knownScripts).run (start 2 (sampleAccount none))
      [.deliver sampleTx, .settle 0 sampleReply] = some _ := rfl
  exact ⟨_, hrun, (coins_only_grow hrun).2.1⟩

/-- The coin of the sample's first output is still there when the transaction
that spends it has been processed. -/
theorem coins_keep_spent_output : ∃ t,
    (machine .knownScripts).run (start 2 sampleWatcher)
        [.deliver sampleTx, .settle 0 sampleReply, .deliver spendingTx, .settle 0 sampleReply] =
      some t ∧ t.pending = [] ∧
      ¬ SpentAreGone t.manager (delivered [.deliver sampleTx, .settle 0 sampleReply,
        .deliver spendingTx, .settle 0 sampleReply]) := by
  refine ⟨_, rfl, rfl, fun h => ?_⟩
  have hgone := h spendingTx (by simp [delivered, Label.delivered?]) ⟨sampleTx.getId, 0⟩
    (by simp [spendingTx])
  exact absurd hgone (by decide)

/-! ## Coins and balance -/

def watchedTotal (btc : ScriptLib) (watching : Option (List String)) (txs : List Transaction) :
    Int :=
  ((txs.flatMap (watchedOutpoints btc watching)).map OutpointWithScriptAndAmount.amount).sum

theorem totalAmount_coinList (m : CoinManager) :
    totalAmount m.coinList = (m.records.map CoinRecord.amount).sum := by
  simp [totalAmount, CoinManager.coinList, InsertionMap.values, CoinManager.records, entryRecord,
    Function.comp_def]

theorem amount_nonneg_of_mem_outpoints {tx : Transaction} {o : OutpointWithScriptAndAmount}
    (h : o ∈ tx.outpoints) : 0 ≤ o.amount := by
  obtain ⟨i, hi, rfl⟩ := List.getElem_of_mem h
  simp [Transaction.outpoints]

theorem amount_eq_zero_of_watchedTotal {watching : Option (List String)} {txs : List Transaction}
    (h : watchedTotal btc watching txs = 0) {tx : Transaction} (htx : tx ∈ txs)
    {o : OutpointWithScriptAndAmount} (ho : o ∈ watchedOutpoints btc watching tx) :
    o.amount = 0 := by
  have hnonneg : ∀ x ∈ (txs.flatMap (watchedOutpoints btc watching)).map
      OutpointWithScriptAndAmount.amount, 0 ≤ x := by
    intro x hx
    obtain ⟨o', ho', rfl⟩ := List.mem_map.mp hx
    obtain ⟨tx', -, ho'⟩ := List.mem_flatMap.mp ho'
    exact amount_nonneg_of_mem_outpoints (List.mem_of_mem_filter ho')
  apply List.all_zero_of_le_zero_le_of_sum_eq_zero hnonneg h
  exact List.mem_map_of_mem (List.mem_flatMap.mpr ⟨tx, htx, ho⟩)

theorem totalAmount_of_watchedTotal {s t : Session} {ls : List Label}
    (hrun : (machine btc).run s ls = some t) (hpending : s.pending = [])
    {watching : Option (List String)}
    (hwatched : ∀ tx ∈ delivered ls, ∀ o ∈ tx.outs, PaysToWatched btc watching o.script)
    (hzero : watchedTotal btc watching (delivered ls) = 0) :
    totalAmount t.manager.coinList = totalAmount s.manager.coinList := by
  have hnone : ∀ x ∈ (resolvedIn btc s ls).map (CoinRecord.amount ∘ outpointRecord), x = 0 := by
    intro x hx
    obtain ⟨o, ho, rfl⟩ := List.mem_map.mp hx
    rcases mem_resolvedIn ho with ⟨request, hrequest, -⟩ | ⟨tx, htx, ho⟩
    · rw [hpending] at hrequest
      cases hrequest
    · rw [← watchedOutpoints_eq_iff.mpr (hwatched tx htx)] at ho
      exact amount_eq_zero_of_watchedTotal hzero htx ho
  calc
    totalAmount t.manager.coinList = (t.manager.records.map CoinRecord.amount).sum :=
      totalAmount_coinList t.manager
    _ = (s.manager.records.map CoinRecord.amount).sum +
        ((resolvedIn btc s ls).map (CoinRecord.amount ∘ outpointRecord)).sum := by
      rw [records_run hrun, List.map_append, List.sum_append, List.map_map]
    _ = (s.manager.records.map CoinRecord.amount).sum := by
      rw [List.sum_eq_zero hnone, add_zero]
    _ = totalAmount s.manager.coinList := (totalAmount_coinList s.manager).symm

/-- The balance of an account follows the watched outputs that are delivered,
and the coins recorded for them, exactly when these outputs are worth nothing:
no version's balance ever changes. -/
theorem balance_agrees_iff {s t : Session} {ls : List Label}
    (hrun : (machine btc).run s ls = some t) (hpending : s.pending = [])
    {v : Nat} {a a' : NormalAccount} (ha : s.versions[v]? = some a)
    (ha' : t.versions[v]? = some a')
    (hwatched : ∀ tx ∈ delivered ls, ∀ o ∈ tx.outs,
      PaysToWatched btc a.watchingAddresses o.script)
    {unit : ℚ} (hunit : unit ≠ 0) :
    ((a'.balance.amount : ℚ) =
          a.balance.amount + unit * watchedTotal btc a.watchingAddresses (delivered ls) ∧
        (a'.balance.amount : ℚ) = a.balance.amount +
          unit * (totalAmount t.manager.coinList - totalAmount s.manager.coinList : Int)) ↔
      watchedTotal btc a.watchingAddresses (delivered ls) = 0 := by
  have hsame : a' = a := by
    obtain ⟨new, hnew⟩ := versions_run hrun
    have hv := (List.getElem?_eq_some_iff.mp ha).1
    rw [← hnew, List.getElem?_append_left hv, ha] at ha'
    exact (Option.some.inj ha').symm
  subst hsame
  constructor
  · rintro ⟨hbalance, -⟩
    have hproduct : unit * (watchedTotal btc a'.watchingAddresses (delivered ls) : ℚ) = 0 := by
      linarith only [hbalance]
    exact Int.cast_eq_zero.mp ((mul_eq_zero.mp hproduct).resolve_left hunit)
  · intro hzero
    rw [totalAmount_of_watchedTotal hrun hpending hwatched hzero, hzero]
    simp

def worthlessTx : Transaction :=
  { spendingTx with
    ins := []
    outs := [⟨0, ScriptLib.p2pkh ScriptLib.genesisHash, 0⟩]
    outs_nodup := by decide }

theorem balance_agrees_worthless : ∃ t,
    (machine .knownScripts).run (start 2 sampleWatcher)
        [.deliver worthlessTx, .settle 0 sampleReply] = some t ∧
      t.manager.coinList.length = 1 ∧
      (sampleWatcher.balance.amount : ℚ) = sampleWatcher.balance.amount +
        1 * watchedTotal .knownScripts sampleWatcher.watchingAddresses [worthlessTx] := by
  have hrun : (machine .knownScripts).run (start 2 sampleWatcher)
      [.deliver worthlessTx, .settle 0 sampleReply] = some _ := rfl
  have hfirst : (start 2 sampleWatcher).versions[0]? = some sampleWatcher := rfl
  exact ⟨_, hrun, rfl,
    ((balance_agrees_iff hrun rfl hfirst rfl (by decide) one_ne_zero).mpr (by decide)).1⟩

/-- Two outputs to watched addresses arrive and are recorded, and the balance
is what it was. -/
theorem balance_ignores_payment : ∃ t,
    (machine .knownScripts).run (start 2 sampleWatcher)
        [.deliver sampleTx, .settle 0 sampleReply] = some t ∧
      t.pending = [] ∧ t.versions = [sampleWatcher] ∧
      totalAmount t.manager.coinList = 5000000000 ∧
      watchedTotal .knownScripts sampleWatcher.watchingAddresses [sampleTx] = 5000000000 ∧
      ∀ unit : ℚ, unit ≠ 0 → (sampleWatcher.balance.amount : ℚ) ≠
        sampleWatcher.balance.amount +
          unit * watchedTotal .knownScripts sampleWatcher.watchingAddresses [sampleTx] := by
  have htotal : watchedTotal .knownScripts sampleWatcher.watchingAddresses [sampleTx] =
      5000000000 := by decide
  refine ⟨_, rfl, rfl, rfl, by decide, htotal, fun unit hunit h => ?_⟩
  rw [htotal] at h
  have hproduct : unit * ((5000000000 : Int) : ℚ) = 0 := by
    linarith only [h]
  exact absurd hproduct (mul_ne_zero hunit (by norm_num))

end Session

end Walletts
