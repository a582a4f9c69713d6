import Walletts.CoinManager
/-!
# Building a transaction from coins

`crateTx` adds one input for each coin it is given and one output for each
address, and builds.  A coin does not know the index of its output; the index
`crateTx` passes on is the position of the coin in the list.
-/

namespace Walletts

open TransactionBuilderLib

namespace TransactionBuilderLib

variable {lib : TransactionBuilderLib} {α : Type}

def Accepts (lib : TransactionBuilderLib) : List BuilderCall → List BuilderCall → Prop
  | _, [] => True
  | history, c :: cs => lib.refuse history c = none ∧ lib.Accepts (history ++ [c]) cs

/-- Adding these calls one after another, the builder refuses one of them, and
with this error. -/
def RefusesWith (lib : TransactionBuilderLib) (e : JsError) :
    List BuilderCall → List BuilderCall → Prop
  | _, [] => False
  | history, c :: cs =>
      lib.refuse history c = some e ∨
        lib.refuse history c = none ∧ lib.RefusesWith e (history ++ [c]) cs

theorem Accepts.not_refusesWith {history calls : List BuilderCall}
    (h : lib.Accepts history calls) (e : JsError) : ¬lib.RefusesWith e history calls := by
  induction calls generalizing history with
  | nil => exact id
  | cons c cs ih =>
      rintro (hrefuse | ⟨-, hrest⟩)
      · rw [h.1] at hrefuse
        cases hrefuse
      · exact ih h.2 hrest

def Builds (lib : TransactionBuilderLib) (tx : Transaction) (calls : List BuilderCall) : Prop :=
  lib.Accepts [] calls ∧ lib.build calls = .ok tx

def Fails (lib : TransactionBuilderLib) (e : JsError) (calls : List BuilderCall) : Prop :=
  lib.RefusesWith e [] calls ∨ lib.Accepts [] calls ∧ lib.build calls = .error e

theorem Builds.unique {calls : List BuilderCall} {tx tx' : Transaction}
    (h : lib.Builds tx calls) (h' : lib.Builds tx' calls) : tx = tx' :=
  Except.ok.inj (h.2.symm.trans h'.2)

theorem Builds.not_fails {calls : List BuilderCall} {tx : Transaction}
    (h : lib.Builds tx calls) (e : JsError) : ¬lib.Fails e calls := by
  rintro (hrefuses | ⟨-, herror⟩)
  · exact h.1.not_refusesWith e hrefuses
  · rw [h.2] at herror
    cases herror

theorem accepts_append {history cs ds : List BuilderCall} :
    lib.Accepts history (cs ++ ds) ↔
      lib.Accepts history cs ∧ lib.Accepts (history ++ cs) ds := by
  induction cs generalizing history with
  | nil => simp [Accepts]
  | cons c cs ih => simp [Accepts, ih, and_assoc]

theorem refusesWith_append {history cs ds : List BuilderCall} {e : JsError} :
    lib.RefusesWith e history (cs ++ ds) ↔
      lib.RefusesWith e history cs ∨
        lib.Accepts history cs ∧ lib.RefusesWith e (history ++ cs) ds := by
  induction cs generalizing history with
  | nil => simp [Accepts, RefusesWith]
  | cons c cs ih => simp [Accepts, RefusesWith, ih, and_or_left, and_assoc, or_assoc]

theorem forEach_call (f : α → BuilderCall) {xs : List α} {history : List BuilderCall}
    (h : lib.Accepts history (xs.map f)) :
    BuilderM.forEach (fun x => lib.call (f x)) xs history = (.ok (), history ++ xs.map f) := by
  induction xs generalizing history with
  | nil => simp [BuilderM.forEach, pure]
  | cons x xs ih =>
      have hcall : lib.call (f x) history = (.ok (), history ++ [f x]) := by
        simp [call, h.1]
      rw [BuilderM.forEach, BuilderM.bind_apply, hcall]
      simp only [ih h.2, List.map_cons, List.append_assoc, List.singleton_append]

theorem forEach_call_cases (lib : TransactionBuilderLib) (f : α → BuilderCall) (xs : List α)
    (history : List BuilderCall) :
    lib.Accepts history (xs.map f) ∧
        BuilderM.forEach (fun x => lib.call (f x)) xs history = (.ok (), history ++ xs.map f) ∨
      ∃ e history', lib.RefusesWith e history (xs.map f) ∧
        BuilderM.forEach (fun x => lib.call (f x)) xs history = (.error e, history') := by
  induction xs generalizing history with
  | nil =>
      have hnil : lib.Accepts history (List.map f []) := trivial
      exact .inl ⟨hnil, forEach_call f hnil⟩
  | cons x xs ih =>
      cases hrefuse : lib.refuse history (f x) with
      | some e =>
          refine .inr ⟨e, history, .inl hrefuse, ?_⟩
          simp [BuilderM.forEach, BuilderM.bind_apply, call, hrefuse]
      | none =>
          rcases ih (history ++ [f x]) with ⟨haccepts, -⟩ | ⟨e, history', hrefuses, hrun⟩
          · have hall : lib.Accepts history ((x :: xs).map f) := ⟨hrefuse, haccepts⟩
            exact .inl ⟨hall, forEach_call f hall⟩
          · refine .inr ⟨e, history', .inr ⟨hrefuse, hrefuses⟩, ?_⟩
            simp [BuilderM.forEach, BuilderM.bind_apply, call, hrefuse, hrun]

theorem inputsOf_forEach_call (f : α → BuilderCall) (hf : ∀ x, (f x).input? = none)
    (xs : List α) (history : List BuilderCall) :
    inputsOf (BuilderM.forEach (fun x => lib.call (f x)) xs history).2 = inputsOf history := by
  induction xs generalizing history with
  | nil => rfl
  | cons x xs ih =>
      rw [BuilderM.forEach, BuilderM.bind_apply]
      cases hrefuse : lib.refuse history (f x) with
      | some e => simp [call, hrefuse]
      | none =>
          have hsame : inputsOf (history ++ [f x]) = inputsOf history := by
            simp [inputsOf, hf]
          simpa [call, hrefuse, hsame] using ih (history ++ [f x])

end TransactionBuilderLib

namespace CoinManager

/-- `crateTx`: an error of the builder is thrown; the returned `Either` is
always a `right`. -/
def crateTx (lib : TransactionBuilderLib) (coins : List MyWalletCoin)
    (addressAndAmount : List AddressAndAmount) : BuilderM (Except JsError Transaction) := do
  BuilderM.forEach (fun c => lib.call (.addInput c.1.txid c.2)) coins.zipIdx
  BuilderM.forEach (fun a => lib.call (.addOutput a.address a.amount)) addressAndAmount
  return .ok (← lib.finish)

def inputsAdded (lib : TransactionBuilderLib) (coins : List MyWalletCoin)
    (addressAndAmount : List AddressAndAmount) : List (String × Nat) :=
  inputsOf (crateTx lib coins addressAndAmount []).2

def inputCalls (coins : List MyWalletCoin) : List BuilderCall :=
  coins.zipIdx.map fun c => .addInput c.1.txid c.2

def outputCalls (addressAndAmount : List AddressAndAmount) : List BuilderCall :=
  addressAndAmount.map fun a => .addOutput a.address a.amount

def crateCalls (coins : List MyWalletCoin) (addressAndAmount : List AddressAndAmount) :
    List BuilderCall :=
  inputCalls coins ++ outputCalls addressAndAmount

theorem finish_right (lib : TransactionBuilderLib) (history : List BuilderCall) :
    ((do return .ok (← lib.finish) : BuilderM (Except JsError Transaction)) history).1 =
      (lib.build history).map .ok := by
  rw [BuilderM.bind_apply, finish]
  cases lib.build history <;> rfl

theorem crateTx_cases (lib : TransactionBuilderLib) (coins : List MyWalletCoin)
    (addressAndAmount : List AddressAndAmount) :
    (∃ tx, lib.Builds tx (crateCalls coins addressAndAmount) ∧
        (crateTx lib coins addressAndAmount []).1 = .ok (.ok tx)) ∨
      ∃ e, lib.Fails e (crateCalls coins addressAndAmount) ∧
        (crateTx lib coins addressAndAmount []).1 = .error e := by
  have hinputs := forEach_call_cases lib
    (fun c : MyWalletCoin × Nat => .addInput c.1.txid c.2) coins.zipIdx []
  have houtputs := forEach_call_cases lib
    (fun a : AddressAndAmount => .addOutput a.address a.amount) addressAndAmount (inputCalls coins)
  rw [← inputCalls, List.nil_append] at hinputs
  rw [← outputCalls] at houtputs
  unfold crateTx
  rw [BuilderM.bind_apply]
  rcases hinputs with ⟨haccepts, hrun⟩ | ⟨e, history', hrefuses, hrun⟩
  · rw [hrun]
    dsimp only
    rw [BuilderM.bind_apply]
    rcases houtputs with ⟨haccepts', hrun⟩ | ⟨e, history', hrefuses, hrun⟩
    · rw [hrun]
      dsimp only
      rw [finish_right, ← crateCalls]
      have hall : lib.Accepts [] (crateCalls coins addressAndAmount) :=
        accepts_append.mpr ⟨haccepts, haccepts'⟩
      cases hbuild : lib.build (crateCalls coins addressAndAmount) with
      | ok tx => exact .inl ⟨tx, ⟨hall, hbuild⟩, rfl⟩
      | error e => exact .inr ⟨e, .inr ⟨hall, hbuild⟩, rfl⟩
    · rw [hrun]
      exact .inr ⟨e, .inl (refusesWith_append.mpr (.inr ⟨haccepts, hrefuses⟩)), rfl⟩
  · rw [hrun]
    exact .inr ⟨e, .inl (refusesWith_append.mpr (.inl hrefuses)), rfl⟩

theorem crateTx_ne_left (lib : TransactionBuilderLib) (coins : List MyWalletCoin)
    (addressAndAmount : List AddressAndAmount) (e : JsError) :
    (crateTx lib coins addressAndAmount []).1 ≠ .ok (.error e) := by
  intro hleft
  rcases crateTx_cases lib coins addressAndAmount with ⟨tx, -, hrun⟩ | ⟨e', -, hrun⟩
  · rw [hrun] at hleft
    cases hleft
  · rw [hrun] at hleft
    cases hleft

theorem inputsOf_inputCalls (coins : List MyWalletCoin) :
    inputsOf (inputCalls coins) = coins.zipIdx.map fun c => (c.1.txid, c.2) := by
  simp [inputsOf, inputCalls, List.filterMap_map, Function.comp_def, BuilderCall.input?]

theorem inputsAdded_eq {lib : TransactionBuilderLib} {coins : List MyWalletCoin}
    (addressAndAmount : List AddressAndAmount) (h : lib.Accepts [] (inputCalls coins)) :
    inputsAdded lib coins addressAndAmount = coins.zipIdx.map fun c => (c.1.txid, c.2) := by
  have hloop := forEach_call (fun c : MyWalletCoin × Nat => BuilderCall.addInput c.1.txid c.2) h
  unfold inputsAdded crateTx
  rw [BuilderM.observe_bind inputsOf, hloop]
  · exact inputsOf_inputCalls coins
  · intro _ history
    rw [BuilderM.observe_bind inputsOf]
    · exact inputsOf_forEach_call _ (fun _ => rfl) addressAndAmount history
    · intro _ history
      rw [BuilderM.observe_bind inputsOf _ fun _ _ => rfl]
      rfl

/-! ## Importing and then spending -/

def importedCoins (m m' : CoinManager) : List MyWalletCoin :=
  m'.coinList.drop m.coinList.length

theorem txid_importedCoins {btc : ScriptLib} {m m' : CoinManager}
    {outpoints : List OutpointWithScriptAndAmount} {reply : Except JsError (Option String)}
    (h : m.importOurOutPoints btc outpoints reply = .ok m') :
    (importedCoins m m').map MyWalletCoin.txid =
      outpoints.map OutpointWithScriptAndAmount.id := by
  obtain ⟨new, hentries, hnew⟩ := importOurOutPoints_ok h
  have htxid : new.map (fun e => e.2.txid) = outpoints.map OutpointWithScriptAndAmount.id := by
    simpa [Function.comp_def, entryRecord, outpointRecord] using
      congrArg (List.map CoinRecord.txid) hnew
  simpa [importedCoins, coinList, InsertionMap.values, hentries, Function.comp_def] using htxid

theorem txid_of_mem_zip {os : List OutpointWithScriptAndAmount} {coins : List MyWalletCoin}
    (h : coins.map MyWalletCoin.txid = os.map OutpointWithScriptAndAmount.id) :
    ∀ pair ∈ os.zip coins, pair.2.txid = pair.1.id := by
  induction os generalizing coins with
  | nil => simp
  | cons o os ih =>
      cases coins with
      | nil => simp
      | cons c coins =>
          rw [List.map_cons, List.map_cons, List.cons.injEq] at h
          intro pair hpair
          rcases List.mem_cons.mp hpair with rfl | hpair
          · exact h.1
          · exact ih h.2 pair hpair

def fundingId : String := "f4184fc596403b9d638783cf57adfe4c75c605f6356fbc91338530e9831e9e16"

def firstOutput : OutpointWithScriptAndAmount :=
  ⟨fundingId, 0, ScriptLib.p2pkh ScriptLib.eaterHash, 1000000000⟩

def secondOutput : OutpointWithScriptAndAmount :=
  ⟨fundingId, 1, ScriptLib.p2pkh ScriptLib.genesisHash, 4000000000⟩

/-- Where the builder takes the inputs, spending imported coins refers back to
the outpoints they were imported from exactly when the coin at each position of
the list is the output of that index. -/
theorem crateTx_inputs_iff {btc : ScriptLib} {lib : TransactionBuilderLib}
    {m m' : CoinManager} {outpoints : List OutpointWithScriptAndAmount}
    {reply : Except JsError (Option String)}
    (himport : m.importOurOutPoints btc outpoints reply = .ok m')
    {chosen : List (OutpointWithScriptAndAmount × MyWalletCoin)}
    (hchosen : chosen.Sublist (outpoints.zip (importedCoins m m')))
    (haccepts : lib.Accepts [] (inputCalls (chosen.map Prod.snd)))
    (addressAndAmount : List AddressAndAmount) :
    inputsAdded lib (chosen.map Prod.snd) addressAndAmount =
        chosen.map (fun pair => (pair.1.id, pair.1.index)) ↔
      ∀ k (h : k < chosen.length), (chosen[k]).1.index = k := by
  have htxid := txid_of_mem_zip (txid_importedCoins himport)
  rw [inputsAdded_eq addressAndAmount haccepts, List.ext_getElem_iff]
  simp only [List.length_map, List.length_zipIdx, List.getElem_map, List.getElem_zipIdx,
    Nat.zero_add, Prod.mk.injEq, true_and]
  constructor
  · intro h k hk
    exact (h k hk hk).2.symm
  · intro h k hk _
    exact ⟨htxid _ (hchosen.subset (List.getElem_mem hk)), (h k hk).symm⟩

theorem crateTx_inputs_both_outputs :
    ∃ m', (CoinManager.new 0).importOurOutPoints .knownScripts [firstOutput, secondOutput]
        (.ok (some samplePubKey)) = .ok m' ∧
      inputsAdded unsignedBuilder
          (([firstOutput, secondOutput].zip (importedCoins (CoinManager.new 0) m')).map Prod.snd)
          [] = [(fundingId, 0), (fundingId, 1)] := by
  have himport : (CoinManager.new 0).importOurOutPoints .knownScripts
      [firstOutput, secondOutput] (.ok (some samplePubKey)) = .ok _ := rfl
  have haccepts : unsignedBuilder.Accepts []
      [.addInput fundingId 0, .addInput fundingId 1] := ⟨rfl, rfl, trivial⟩
  refine ⟨_, himport, (crateTx_inputs_iff himport (List.Sublist.refl _) haccepts []).mpr ?_⟩
  decide

/-- The coin of output 1, spent alone, becomes an input for output 0. -/
theorem crateTx_inputs_second_output :
    ∃ m', (CoinManager.new 0).importOurOutPoints .knownScripts [secondOutput]
        (.ok (some samplePubKey)) = .ok m' ∧
      inputsAdded unsignedBuilder (importedCoins (CoinManager.new 0) m') [] ≠
        [(secondOutput.id, secondOutput.index)] :=
  ⟨_, rfl, by
    intro h
    have hindex := congrArg (List.map Prod.snd) h
    exact absurd hindex (by decide)⟩

/-! ## Errors of the builder -/

/-- `crateTx` answers by its `Either`: a `left` with the error by which the
builder refused a call or the build, and a `right` with the transaction if it
refused nothing. -/
def ReturnsEither (lib : TransactionBuilderLib) (coins : List MyWalletCoin)
    (addressAndAmount : List AddressAndAmount) : Prop :=
  ∃ result, (crateTx lib coins addressAndAmount []).1 = .ok result ∧
    (∀ e, result = .error e ↔ lib.Fails e (crateCalls coins addressAndAmount)) ∧
    ∀ tx, result = .ok tx ↔ lib.Builds tx (crateCalls coins addressAndAmount)

/-- The errors of the builder are thrown through `crateTx`, so its `Either` is
right only where there is no error to report. -/
theorem crateTx_returnsEither_iff (lib : TransactionBuilderLib) (coins : List MyWalletCoin)
    (addressAndAmount : List AddressAndAmount) :
    ReturnsEither lib coins addressAndAmount ↔
      lib.Accepts [] (crateCalls coins addressAndAmount) ∧
        ∃ tx, lib.build (crateCalls coins addressAndAmount) = .ok tx := by
  constructor
  · rintro ⟨result, hresult, -, -⟩
    rcases crateTx_cases lib coins addressAndAmount with ⟨tx, hbuilds, -⟩ | ⟨e, -, hrun⟩
    · exact ⟨hbuilds.1, tx, hbuilds.2⟩
    · rw [hrun] at hresult
      cases hresult
  · rintro ⟨haccepts, tx, hbuild⟩
    have hbuilds : lib.Builds tx (crateCalls coins addressAndAmount) := ⟨haccepts, hbuild⟩
    rcases crateTx_cases lib coins addressAndAmount with ⟨tx', hbuilds', hrun⟩ | ⟨e, hfails, -⟩
    · refine ⟨.ok tx', hrun, fun e => ?_, fun tx'' => ?_⟩
      · exact iff_of_false (fun h => nomatch h) (hbuilds'.not_fails e)
      · constructor
        · intro h
          rwa [← Except.ok.inj h]
        · intro h
          rw [hbuilds'.unique h]
    · exact absurd hfails (hbuilds.not_fails e)

def fundedCoin : MyWalletCoin where
  scriptPubKey := ScriptLib.p2pkh ScriptLib.genesisHash
  scriptType := "pubkeyhash"
  txid := fundingId
  label := none
  redeemScript := none
  amount := ⟨1000000000⟩

/-- An unsigned transaction is not complete, and the caller gets that as an
exception. -/
theorem crateTx_throws_incomplete :
    ¬ReturnsEither unsignedBuilder [fundedCoin]
      [⟨"1BitcoinEaterAddressDontSendf59kuE", 600000000⟩] := by
  rintro ⟨result, hresult, -, -⟩
  have hthrown : (crateTx unsignedBuilder [fundedCoin]
      [⟨"1BitcoinEaterAddressDontSendf59kuE", 600000000⟩] []).1 =
    .error ⟨.error, "Transaction is not complete"⟩ := rfl
  rw [hthrown] at hresult
  cases hresult

end CoinManager

end Walletts
