import Walletts.CoinManager
import Mathlib.Data.List.Nodup
/-!
# Accounts and the events of the blockchain

An account is an immutable value that listens to the blockchain.  This module
models what its `_handleUpdate` does with one event: which outputs of a
transaction it picks and which outpoints it makes of them.  What is done with
these, and when, belongs to the coin manager.
-/

namespace Walletts

inductive AccountType
  | normal
  deriving DecidableEq

/-- The fields of `NormalAccount` in the order of its constructor.  The types
of the last three are parameters, because not every call of the constructor
passes them in that order. -/
structure Account (τ β ω : Type) where
  id : AccountID
  hdIndex : Nat
  coinManager : ObjRef
  observableBlockchain : ObjRef
  type : τ
  balance : β
  watchingAddresses : ω
  deriving DecidableEq

abbrev NormalAccount := Account AccountType Balance (Option (List String))

def newNormalAccount (id : AccountID) (hdIndex : Nat)
    (coinManager observableBlockchain : ObjRef) : NormalAccount :=
  ⟨id, hdIndex, coinManager, observableBlockchain, .normal, ⟨0⟩, none⟩

inductive BlockchainEvent
  | transaction (tx : Transaction)
  | block
  | reorg (height : Nat)

structure ImportRequest where
  id : AccountID
  outpoints : List OutpointWithScriptAndAmount
  deriving DecidableEq

/-! ## `_handleUpdate` -/

section HandleUpdate

variable (btc : ScriptLib)

def someAddress (script : Buffer) : List String → Except JsError Bool
  | [] => .ok false
  | a :: rest => do
      if a = (← btc.fromOutputScript script) then return true
      someAddress script rest

def watchedBy (watching : Option (List String)) (o : Out) : Except JsError (Option Bool) :=
  match watching with
  | none => .ok none
  | some ourAddresses => do return some (← someAddress btc o.script ourAddresses)

/-- An `Option` of fp-ts is an object, `none` as well as `some false`, and every
object is true where a condition is asked for. -/
def truthy (_ : Option Bool) : Bool := true

def matchedOuts (watching : Option (List String)) : List Out → Except JsError (List Out)
  | [] => .ok []
  | o :: rest => do
      let matched ← watchedBy btc watching o
      let others ← matchedOuts watching rest
      return if truthy matched then o :: others else others

/-- `outs.indexOf(o)` compares objects by identity.  The length stands for the
`-1` of an object that is not there: there is no output at either. -/
def indexOf (outs : List Out) (o : Out) : Nat := outs.findIdx fun out => out.ref == o.ref

def outpointOf (tx : Transaction) (o : Out) : Except JsError OutpointWithScriptAndAmount :=
  let index := indexOf tx.outs o
  match tx.outs[index]? with
  | some out => .ok ⟨tx.getId, index, out.script, out.value⟩
  | none => .error ⟨.typeError, "Cannot read property 'script' of undefined"⟩

def outpointsOf (tx : Transaction) : List Out → Except JsError (List OutpointWithScriptAndAmount)
  | [] => .ok []
  | o :: rest => do return (← outpointOf tx o) :: (← outpointsOf tx rest)

/-- `_handleUpdate`, up to the call of `importOurOutPoints`.  The guard on
`watchingAddresses` passes always, since an `Option` is an object, and so does
the one on `matchedOuts`. -/
def handleUpdate (a : NormalAccount) : BlockchainEvent → Except JsError (Option ImportRequest)
  | .transaction tx => do
      let matched ← matchedOuts btc a.watchingAddresses tx.outs
      let outpoints ← outpointsOf tx matched
      return some ⟨a.id, outpoints⟩
  | _ => .ok none

end HandleUpdate

/-! ## Outputs and their indices -/

def Transaction.outpoints (tx : Transaction) : List OutpointWithScriptAndAmount :=
  tx.outs.mapIdx fun i o => ⟨tx.getId, i, o.script, o.value⟩

@[simp] theorem Transaction.length_outpoints (tx : Transaction) :
    tx.outpoints.length = tx.outs.length := by
  simp [Transaction.outpoints]

theorem indexOf_getElem (tx : Transaction) {i : Nat} (hi : i < tx.outs.length) :
    indexOf tx.outs tx.outs[i] = i := by
  have hfind := tx.outs_nodup.idxOf_getElem i (by simpa using hi)
  simpa [indexOf, List.idxOf, List.findIdx_map, Function.comp_def] using hfind

theorem outpointOf_getElem (tx : Transaction) {i : Nat} (hi : i < tx.outs.length) :
    outpointOf tx tx.outs[i] = .ok ⟨tx.getId, i, tx.outs[i].script, tx.outs[i].value⟩ := by
  simp [outpointOf, indexOf_getElem tx hi, List.getElem?_eq_getElem hi]

theorem outpointsOf_eq (tx : Transaction) {outs : List Out} (h : ∀ o ∈ outs, o ∈ tx.outs) :
    ∃ outpoints, outpointsOf tx outs = .ok outpoints ∧
      outpoints = outs.map fun o => ⟨tx.getId, indexOf tx.outs o, o.script, o.value⟩ := by
  induction outs with
  | nil => exact ⟨[], rfl, rfl⟩
  | cons o rest ih =>
      obtain ⟨outpoints, hok, heq⟩ := ih fun o' ho' => h o' (List.mem_cons_of_mem _ ho')
      obtain ⟨i, hi, rfl⟩ := List.getElem_of_mem (h o List.mem_cons_self)
      refine ⟨_, by rw [outpointsOf, outpointOf_getElem tx hi, hok]; rfl, ?_⟩
      rw [heq, List.map_cons, indexOf_getElem tx hi]

theorem outpointsOf_outs (tx : Transaction) : outpointsOf tx tx.outs = .ok tx.outpoints := by
  obtain ⟨outpoints, hok, rfl⟩ := outpointsOf_eq tx fun o ho => ho
  rw [hok]
  congr 1
  apply List.ext_getElem
  · simp
  · intro i hi _
    have hi' : i < tx.outs.length := by simpa using hi
    simp [Transaction.outpoints, indexOf_getElem tx hi']

theorem Transaction.index_outpoints (tx : Transaction) :
    tx.outpoints.map OutpointWithScriptAndAmount.index = List.range tx.outs.length := by
  apply List.ext_getElem
  · simp
  · intro i _ _
    simp [Transaction.outpoints]

theorem Transaction.id_of_mem_outpoints {tx : Transaction} {o : OutpointWithScriptAndAmount}
    (h : o ∈ tx.outpoints) : o.id = tx.getId := by
  obtain ⟨i, hi, rfl⟩ := List.getElem_of_mem h
  simp [Transaction.outpoints]

/-! ## When decoding throws -/

/-- The account looks at a transaction without an error: it has no address to
compare with, or every output has an address. -/
def Decodes (btc : ScriptLib) (watching : Option (List String)) (outs : List Out) : Prop :=
  watching.getD [] = [] ∨ ∀ o ∈ outs, btc.HasAddress o.script

instance (btc : ScriptLib) (watching : Option (List String)) (outs : List Out) :
    Decidable (Decodes btc watching outs) :=
  inferInstanceAs (Decidable (_ ∨ ∀ o ∈ outs, btc.HasAddress o.script))

theorem someAddress_eq {btc : ScriptLib} {script : Buffer} {a : String}
    (h : btc.fromOutputScript script = .ok a) (ours : List String) :
    someAddress btc script ours = .ok (decide (a ∈ ours)) := by
  induction ours with
  | nil => simp [someAddress]
  | cons b rest ih =>
      rw [someAddress, h]
      by_cases hab : b = a
      · subst hab
        simp [bind, Except.bind, pure, Except.pure]
      · have hba : a ≠ b := fun h' => hab h'.symm
        simp [bind, Except.bind, hab, hba, ih]

theorem watchedBy_ok {btc : ScriptLib} {watching : Option (List String)} {o : Out}
    (h : watching.getD [] = [] ∨ btc.HasAddress o.script) :
    ∃ answer, watchedBy btc watching o = .ok answer := by
  cases watching with
  | none => exact ⟨none, rfl⟩
  | some ours =>
      rcases h with hempty | ⟨a, ha⟩
      · obtain rfl : ours = [] := hempty
        exact ⟨some false, rfl⟩
      · exact ⟨some (decide (a ∈ ours)), by rw [watchedBy, someAddress_eq ha]; rfl⟩

theorem watchedBy_error {btc : ScriptLib} {watching : Option (List String)} {o : Out}
    (hours : watching.getD [] ≠ []) (h : ¬ btc.HasAddress o.script) :
    ∃ e, watchedBy btc watching o = .error e := by
  match watching, hours with
  | some (a :: rest), _ =>
      cases hdec : btc.fromOutputScript o.script with
      | ok b => exact absurd ⟨b, hdec⟩ h
      | error e => exact ⟨e, by rw [watchedBy, someAddress, hdec]; rfl⟩

theorem matchedOuts_eq {btc : ScriptLib} {watching : Option (List String)} {outs : List Out}
    (h : Decodes btc watching outs) : matchedOuts btc watching outs = .ok outs := by
  induction outs with
  | nil => rfl
  | cons o rest ih =>
      have hrest : Decodes btc watching rest :=
        h.imp_right fun hall o' ho' => hall o' (List.mem_cons_of_mem _ ho')
      obtain ⟨answer, hanswer⟩ := watchedBy_ok (h.imp_right fun hall => hall o List.mem_cons_self)
      rw [matchedOuts, hanswer, ih hrest]
      rfl

theorem matchedOuts_error {btc : ScriptLib} {watching : Option (List String)} {outs : List Out}
    (h : ¬ Decodes btc watching outs) : ∃ e, matchedOuts btc watching outs = .error e := by
  rw [Decodes, not_or] at h
  obtain ⟨hours, hall⟩ := h
  induction outs with
  | nil => exact absurd (by simp) hall
  | cons o rest ih =>
      by_cases ho : btc.HasAddress o.script
      · have hrest : ¬ ∀ o' ∈ rest, btc.HasAddress o'.script := fun hrest =>
          hall (List.forall_mem_cons.mpr ⟨ho, hrest⟩)
        obtain ⟨e, he⟩ := ih hrest
        have hhead : watching.getD [] = [] ∨ btc.HasAddress o.script := .inr ho
        obtain ⟨answer, hanswer⟩ := watchedBy_ok hhead
        exact ⟨e, by rw [matchedOuts, hanswer, he]; rfl⟩
      · obtain ⟨e, he⟩ := watchedBy_error hours ho
        exact ⟨e, by rw [matchedOuts, he]; rfl⟩

theorem handleUpdate_transaction {btc : ScriptLib} {a : NormalAccount} {tx : Transaction}
    (h : Decodes btc a.watchingAddresses tx.outs) :
    handleUpdate btc a (.transaction tx) = .ok (some ⟨a.id, tx.outpoints⟩) := by
  rw [handleUpdate, matchedOuts_eq h]
  simp only [bind, Except.bind, outpointsOf_outs]
  rfl

theorem handleUpdate_error {btc : ScriptLib} {a : NormalAccount} {tx : Transaction}
    (h : ¬ Decodes btc a.watchingAddresses tx.outs) :
    ∃ e, handleUpdate btc a (.transaction tx) = .error e := by
  obtain ⟨e, he⟩ := matchedOuts_error h
  exact ⟨e, by rw [handleUpdate, he]; rfl⟩

/-! ## Exactly the watched outputs -/

def PaysToWatched (btc : ScriptLib) (watching : Option (List String)) (script : Buffer) : Prop :=
  ∃ a ∈ watching.getD [], btc.PaysTo script a

instance (btc : ScriptLib) (watching : Option (List String)) (script : Buffer) :
    Decidable (PaysToWatched btc watching script) :=
  inferInstanceAs (Decidable (∃ a ∈ watching.getD [], btc.PaysTo script a))

def watchedOutpoints (btc : ScriptLib) (watching : Option (List String)) (tx : Transaction) :
    List OutpointWithScriptAndAmount :=
  tx.outpoints.filter fun o => PaysToWatched btc watching o.scriptPubKey

theorem watchedOutpoints_eq_iff {btc : ScriptLib} {watching : Option (List String)}
    {tx : Transaction} : watchedOutpoints btc watching tx = tx.outpoints ↔
      ∀ o ∈ tx.outs, PaysToWatched btc watching o.script := by
  rw [watchedOutpoints, List.filter_eq_self]
  simp only [decide_eq_true_eq]
  constructor
  · intro h o ho
    obtain ⟨i, hi, rfl⟩ := List.getElem_of_mem ho
    have hmem := List.getElem_mem (l := tx.outpoints) (n := i) (by simpa using hi)
    simpa [Transaction.outpoints] using h _ hmem
  · intro h o ho
    obtain ⟨i, hi, rfl⟩ := List.getElem_of_mem ho
    have hi' : i < tx.outs.length := by simpa using hi
    simpa [Transaction.outpoints] using h _ (List.getElem_mem hi')

def sampleTx : Transaction where
  getId := "f4184fc596403b9d638783cf57adfe4c75c605f6356fbc91338530e9831e9e16"
  toHex := ""
  ins := [⟨"0437cd7f8525ceed2324359c2d0ba26006d92d856a9c20fa0241106ee5a597c9", 0⟩]
  outs := [⟨0, ScriptLib.p2pkh ScriptLib.eaterHash, 1000000000⟩,
    ⟨1, ScriptLib.p2pkh ScriptLib.genesisHash, 4000000000⟩]
  getId_length := by decide
  outs_nodup := by decide

def sampleAccount (watching : Option (List String)) : NormalAccount :=
  { newNormalAccount "751e76e8199196d454941c45d1b3a323f1433bd6" 0 0 1 with
    watchingAddresses := watching }

/-- Over any sequence of transactions of standard outputs, an account hands on
exactly the outputs to its watched addresses if and only if there are no
others. -/
theorem handleUpdate_exact_iff (btc : ScriptLib) (a : NormalAccount) (txs : List Transaction)
    (hstandard : ∀ tx ∈ txs, ∀ o ∈ tx.outs, btc.HasAddress o.script) :
    txs.map (fun tx => handleUpdate btc a (.transaction tx)) =
        txs.map (fun tx => .ok (some ⟨a.id, watchedOutpoints btc a.watchingAddresses tx⟩)) ↔
      ∀ tx ∈ txs, ∀ o ∈ tx.outs, PaysToWatched btc a.watchingAddresses o.script := by
  rw [List.map_inj_left]
  refine forall₂_congr fun tx htx => ?_
  rw [handleUpdate_transaction (.inr (hstandard tx htx)), ← watchedOutpoints_eq_iff]
  constructor
  · intro h
    simpa using h.symm
  · intro h
    rw [h]

theorem handleUpdate_exact_sample :
    [sampleTx].map (fun tx => handleUpdate .knownScripts
        (sampleAccount (some ["1A1zP1eP5QGefi2DMPTfTL5SLmv7DivfNa",
          "1BitcoinEaterAddressDontSendf59kuE"])) (.transaction tx)) =
      [sampleTx].map (fun tx => .ok (some ⟨"751e76e8199196d454941c45d1b3a323f1433bd6",
        watchedOutpoints .knownScripts (some ["1A1zP1eP5QGefi2DMPTfTL5SLmv7DivfNa",
          "1BitcoinEaterAddressDontSendf59kuE"]) tx⟩)) :=
  (handleUpdate_exact_iff .knownScripts (sampleAccount (some
    ["1A1zP1eP5QGefi2DMPTfTL5SLmv7DivfNa", "1BitcoinEaterAddressDontSendf59kuE"])) [sampleTx]
    (by decide)).mpr (by decide)

/-- Watching one of the two addresses, the account hands on both outputs. -/
theorem handleUpdate_takes_foreign_output :
    handleUpdate .knownScripts (sampleAccount (some ["1A1zP1eP5QGefi2DMPTfTL5SLmv7DivfNa"]))
        (.transaction sampleTx) =
      .ok (some ⟨"751e76e8199196d454941c45d1b3a323f1433bd6", sampleTx.outpoints⟩) ∧
    watchedOutpoints .knownScripts (some ["1A1zP1eP5QGefi2DMPTfTL5SLmv7DivfNa"]) sampleTx ≠
      sampleTx.outpoints := by
  refine ⟨rfl, ?_⟩
  decide

/-! ## Outputs without an address -/

/-- An account that watches addresses takes in what is paid to them exactly when
every output of the transaction has an address: the first one without throws. -/
theorem handleUpdate_takes_watched_iff {btc : ScriptLib} {a : NormalAccount} {tx : Transaction}
    (hwatch : a.watchingAddresses.getD [] ≠ []) :
    (∃ request, handleUpdate btc a (.transaction tx) = .ok (some request) ∧ request.id = a.id ∧
        ∀ o ∈ watchedOutpoints btc a.watchingAddresses tx, o ∈ request.outpoints) ↔
      ∀ o ∈ tx.outs, btc.HasAddress o.script := by
  constructor
  · rintro ⟨request, hok, -⟩
    by_contra hnone
    obtain ⟨e, he⟩ := handleUpdate_error (a := a) (not_or.mpr ⟨hwatch, hnone⟩)
    rw [he] at hok
    cases hok
  · intro hall
    refine ⟨_, handleUpdate_transaction (.inr hall), rfl, fun o ho => ?_⟩
    exact List.mem_of_mem_filter ho

theorem handleUpdate_takes_watched_sample : ∃ request,
    handleUpdate .knownScripts (sampleAccount (some ["1A1zP1eP5QGefi2DMPTfTL5SLmv7DivfNa"]))
        (.transaction sampleTx) = .ok (some request) ∧
      ∀ o ∈ watchedOutpoints .knownScripts (some ["1A1zP1eP5QGefi2DMPTfTL5SLmv7DivfNa"]) sampleTx,
        o ∈ request.outpoints := by
  have hwatch : (sampleAccount (some ["1A1zP1eP5QGefi2DMPTfTL5SLmv7DivfNa"])).watchingAddresses.getD
      [] ≠ [] := by decide
  have hall : ∀ o ∈ sampleTx.outs, ScriptLib.knownScripts.HasAddress o.script := by decide
  obtain ⟨request, hok, -, htakes⟩ := (handleUpdate_takes_watched_iff hwatch).mpr hall
  exact ⟨request, hok, htakes⟩

/-- A payment to a watched address beside an `OP_RETURN` output. -/
def taggedTx : Transaction :=
  { sampleTx with
    outs := [⟨0, [0x6a, 0x02, 0x68, 0x69], 0⟩,
      ⟨1, ScriptLib.p2pkh ScriptLib.genesisHash, 4000000000⟩]
    outs_nodup := by decide }

theorem handleUpdate_throws_on_tag : ∃ e,
    handleUpdate .knownScripts (sampleAccount (some ["1A1zP1eP5QGefi2DMPTfTL5SLmv7DivfNa"]))
        (.transaction taggedTx) = .error e ∧
      (watchedOutpoints .knownScripts (some ["1A1zP1eP5QGefi2DMPTfTL5SLmv7DivfNa"])
        taggedTx).map OutpointWithScriptAndAmount.index = [1] :=
  ⟨_, rfl, by decide⟩

/-! ## The outpoints of selected outputs -/

theorem getElem?_indexOf (tx : Transaction) {o : Out} (ho : o ∈ tx.outs) :
    tx.outs[indexOf tx.outs o]? = some o := by
  obtain ⟨i, hi, rfl⟩ := List.getElem_of_mem ho
  rw [indexOf_getElem tx hi, List.getElem?_eq_getElem hi]

theorem pairwise_indexOf (tx : Transaction) :
    tx.outs.Pairwise fun o o' => indexOf tx.outs o < indexOf tx.outs o' := by
  rw [List.pairwise_iff_getElem]
  intro i j hi hj hlt
  rwa [indexOf_getElem tx hi, indexOf_getElem tx hj]

theorem matchedOuts_sublist {btc : ScriptLib} {watching : Option (List String)}
    {outs selected : List Out} (h : matchedOuts btc watching outs = .ok selected) :
    selected.Sublist outs := by
  induction outs generalizing selected with
  | nil =>
      cases h
      exact .slnil
  | cons o rest ih =>
      obtain ⟨matched, -, h⟩ := Outcome.bind_eq_ok.mp h
      obtain ⟨others, hothers, h⟩ := Outcome.bind_eq_ok.mp h
      obtain rfl := Outcome.pure_eq_ok.mp h
      split
      · exact (ih hothers).cons_cons o
      · exact (ih hothers).cons o

structure PointsTo (tx : Transaction) (o : Out) (p : OutpointWithScriptAndAmount) : Prop where
  id_eq : p.id = tx.getId
  output : tx.outs[p.index]? = some o
  script_eq : p.scriptPubKey = o.script
  amount_eq : p.amount = o.value

theorem outpointsOf_sublist (tx : Transaction) {selected : List Out}
    (h : selected.Sublist tx.outs) :
    ∃ outpoints, outpointsOf tx selected = .ok outpoints ∧
      outpoints.Pairwise (fun p q => p.index < q.index) ∧
      List.Forall₂ (PointsTo tx) selected outpoints := by
  obtain ⟨outpoints, hok, rfl⟩ := outpointsOf_eq tx h.subset
  refine ⟨_, hok, ?_, ?_⟩
  · rw [List.pairwise_map]
    exact (pairwise_indexOf tx).sublist h
  · rw [List.forall₂_map_right_iff, List.forall₂_same]
    intro o ho
    exact ⟨rfl, getElem?_indexOf tx (h.subset ho), rfl, rfl⟩

/-- The outpoints an account hands on are distinct, stand in the order of the
outputs, and each is that of the output it was made from, also where outputs are
equal. -/
theorem outpoints_of_selected {btc : ScriptLib} {a : NormalAccount} {tx : Transaction}
    {selected : List Out} (h : matchedOuts btc a.watchingAddresses tx.outs = .ok selected) :
    ∃ outpoints, handleUpdate btc a (.transaction tx) = .ok (some ⟨a.id, outpoints⟩) ∧
      outpoints.Nodup ∧ outpoints.Pairwise (fun p q => p.index < q.index) ∧
      List.Forall₂ (PointsTo tx) selected outpoints := by
  obtain ⟨outpoints, hok, hordered, hpoints⟩ := outpointsOf_sublist tx (matchedOuts_sublist h)
  refine ⟨outpoints, ?_, ?_, hordered, hpoints⟩
  · rw [handleUpdate, h]
    simp only [bind, Except.bind, hok]
    rfl
  · refine hordered.imp fun hlt heq => ?_
    rw [heq] at hlt
    exact Nat.lt_irrefl _ hlt

def twinTx : Transaction :=
  { sampleTx with
    outs := [⟨0, ScriptLib.p2pkh ScriptLib.genesisHash, 1000000000⟩,
      ⟨1, ScriptLib.p2pkh ScriptLib.genesisHash, 1000000000⟩]
    outs_nodup := by decide }

theorem outpoints_of_twins : ∃ outpoints,
    handleUpdate .knownScripts (sampleAccount (some ["1A1zP1eP5QGefi2DMPTfTL5SLmv7DivfNa"]))
        (.transaction twinTx) =
      .ok (some ⟨"751e76e8199196d454941c45d1b3a323f1433bd6", outpoints⟩) ∧
      outpoints.Nodup ∧ List.Forall₂ (PointsTo twinTx) twinTx.outs outpoints := by
  have hselected : matchedOuts .knownScripts
      (sampleAccount (some ["1A1zP1eP5QGefi2DMPTfTL5SLmv7DivfNa"])).watchingAddresses twinTx.outs =
        .ok twinTx.outs := rfl
  obtain ⟨outpoints, hok, hnodup, -, hpoints⟩ := outpoints_of_selected hselected
  exact ⟨outpoints, hok, hnodup, hpoints⟩

end Walletts
