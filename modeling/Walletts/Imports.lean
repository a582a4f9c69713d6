import Walletts.Account
import Walletts.Lib.Machine
import Mathlib.Data.List.Perm.Basic
/-!
# Imports that overlap

Any number of imports may be under way on one coin manager.  Each waits for the
key repository once, and is carried out in one piece when the answer is there.
This module says what becomes of each of them and of the coins, in whatever
order the answers come.
-/

namespace Walletts

namespace CoinManager

inductive ImportStatus
  | waiting
  | resolved
  | rejected (e : JsError)

structure ImportCall where
  request : ImportRequest
  status : ImportStatus

structure ImportState where
  manager : CoinManager
  calls : List ImportCall

inductive ImportLabel
  | call (request : ImportRequest)
  | lookup (k : Nat) (reply : Except JsError (Option String))

def importStart (m : CoinManager) : ImportState := ⟨m, []⟩

def importMachine (btc : ScriptLib) : Machine ImportState ImportLabel where
  step s
    | .call request => some ⟨s.manager, s.calls ++ [⟨request, .waiting⟩]⟩
    | .lookup k reply =>
        match s.calls[k]? with
        | some ⟨request, .waiting⟩ =>
            match s.manager.importOurOutPoints btc request.outpoints reply with
            | .ok m => some ⟨m, s.calls.set k ⟨request, .resolved⟩⟩
            | .error e => some ⟨s.manager, s.calls.set k ⟨request, .rejected e⟩⟩
        | _ => none

/-- The steps of overlapping imports.  A call that is answered ends there: it
resolves with all its coins, or rejects with none. -/
inductive ImportStep (btc : ScriptLib) (s : ImportState) : ImportLabel → ImportState → Prop
  | call (request : ImportRequest) :
      ImportStep btc s (.call request) ⟨s.manager, s.calls ++ [⟨request, .waiting⟩]⟩
  | resolved {k : Nat} {request : ImportRequest} {reply : Except JsError (Option String)}
      {m : CoinManager} {new : List (CoinID × MyWalletCoin)}
      (hcall : s.calls[k]? = some ⟨request, .waiting⟩)
      (hentries : m.coins.entries = s.manager.coins.entries ++ new)
      (hnew : new.map entryRecord = request.outpoints.map outpointRecord) :
      ImportStep btc s (.lookup k reply) ⟨m, s.calls.set k ⟨request, .resolved⟩⟩
  | rejected {k : Nat} {request : ImportRequest} {reply : Except JsError (Option String)}
      {e : JsError} (hcall : s.calls[k]? = some ⟨request, .waiting⟩) :
      ImportStep btc s (.lookup k reply) ⟨s.manager, s.calls.set k ⟨request, .rejected e⟩⟩

def ImportCall.records (c : ImportCall) : List CoinRecord :=
  match c.status with
  | .resolved => c.request.outpoints.map outpointRecord
  | _ => []

variable {btc : ScriptLib} {m : CoinManager} {s t : ImportState} {l : ImportLabel}
  {ls : List ImportLabel}

theorem import_step_cases (h : (importMachine btc).step s l = some t) : ImportStep btc s l t := by
  cases l with
  | call request =>
      obtain rfl := Option.some.inj h
      exact .call request
  | lookup k reply =>
      simp only [importMachine] at h
      split at h
      · rename_i request hcall
        cases himport : s.manager.importOurOutPoints btc request.outpoints reply with
        | error e =>
            rw [himport] at h
            obtain rfl := Option.some.inj h
            exact .rejected hcall
        | ok m =>
            rw [himport] at h
            obtain rfl := Option.some.inj h
            obtain ⟨new, hentries, hnew⟩ := importOurOutPoints_ok himport
            exact .resolved hcall hentries hnew
      · cases h

/-- A call that waits has no records yet, so what it ends with is all it adds. -/
theorem records_set {calls : List ImportCall} {k : Nat} {request : ImportRequest}
    (hcall : calls[k]? = some ⟨request, .waiting⟩) (c : ImportCall) :
    ((calls.set k c).flatMap ImportCall.records).Perm
      (calls.flatMap ImportCall.records ++ c.records) := by
  obtain ⟨hk, hget⟩ := List.getElem?_eq_some_iff.mp hcall
  have hset : (c :: calls.eraseIdx k).Perm (calls.set k c) := by
    have hk' : k < (calls.set k c).length := by simpa using hk
    have hperm := List.getElem_cons_eraseIdx_perm hk'
    rwa [List.getElem_set_self, List.eraseIdx_set_eq] at hperm
  have hold := List.getElem_cons_eraseIdx_perm hk
  rw [hget] at hold
  calc
    ((calls.set k c).flatMap ImportCall.records).Perm
        ((c :: calls.eraseIdx k).flatMap ImportCall.records) :=
      hset.symm.flatMap_right _
    List.Perm _ ((calls.eraseIdx k).flatMap ImportCall.records ++ c.records) := by
      rw [List.flatMap_cons]
      exact List.perm_append_comm
    List.Perm _ (calls.flatMap ImportCall.records ++ c.records) :=
      (hold.flatMap_right ImportCall.records).append_right _

/-- The manager has the coins it had at first, and behind them those of the
calls that have resolved. -/
def Imported (m : CoinManager) (s : ImportState) : Prop :=
  ∃ new, s.manager.coins.entries = m.coins.entries ++ new ∧
    (new.map entryRecord).Perm (s.calls.flatMap ImportCall.records)

theorem Imported.step (hs : Imported m s) (h : (importMachine btc).step s l = some t) :
    Imported m t := by
  obtain ⟨old, hold, hrecords⟩ := hs
  cases import_step_cases h with
  | call request =>
      refine ⟨old, hold, ?_⟩
      simpa [ImportCall.records] using hrecords
  | @resolved k request reply m' new hcall hentries hnew =>
      refine ⟨old ++ new, by rw [hentries, hold, List.append_assoc], ?_⟩
      rw [List.map_append, hnew]
      exact (hrecords.append_right _).trans (records_set hcall ⟨request, .resolved⟩).symm
  | rejected hcall =>
      refine ⟨old, hold, hrecords.trans ?_⟩
      simpa [ImportCall.records] using (records_set hcall ⟨_, .rejected _⟩).symm

/-- However the calls overlap, each ends in one step, with all of its coins or
with none of them, and the coins are those there were and one for each outpoint
of the calls that have resolved. -/
theorem imports_run (hrun : (importMachine btc).run (importStart m) ls = some s) :
    Imported m s ∧ ∀ l t, (importMachine btc).step s l = some t → ImportStep btc s l t := by
  have hstart : Imported m (importStart m) := ⟨[], by simp [importStart], .refl _⟩
  exact ⟨Machine.run_invariant (fun _ _ _ hs hstep => hs.step hstep) hrun hstart,
    fun _ _ => import_step_cases⟩

def overlappingImports : List ImportLabel :=
  [.call ⟨"751e76e8199196d454941c45d1b3a323f1433bd6", sampleTx.outpoints⟩,
    .call ⟨"751e76e8199196d454941c45d1b3a323f1433bd6", twinTx.outpoints⟩,
    .lookup 1 (.ok (some samplePubKey)), .lookup 0 (.ok none)]

theorem imports_run_overlapping : ∃ s,
    (importMachine .knownScripts).run (importStart (.new 0)) overlappingImports = some s ∧
      (s.manager.coins.entries.map entryRecord).Perm (twinTx.outpoints.map outpointRecord) := by
  have hrun : (importMachine .knownScripts).run (importStart (.new 0)) overlappingImports =
      some _ := rfl
  obtain ⟨⟨new, hentries, hrecords⟩, -⟩ := imports_run hrun
  refine ⟨_, hrun, ?_⟩
  rw [hentries]
  exact hrecords

end CoinManager

end Walletts
