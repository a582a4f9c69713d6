import Walletts.AccountService
import Walletts.Lib.Machine
/-!
# An account over its lifetime

One account is created; later versions of it are made by asking for addresses.
All versions share one coin manager, and each of them stays subscribed to the
blockchain.  A transaction that is delivered makes every version ask to import
its outputs, which waits for the key repository before it touches the coins.
The order in which these things happen is that of the labels of a run.
-/

namespace Walletts

open NormalAccountService
open CoinManager (outpointRecord entryRecord)

/-- The coin manager, the versions of the account, and the imports that wait
for their key. -/
structure Session where
  manager : CoinManager
  versions : List NormalAccount
  pending : List ImportRequest

namespace Session

inductive Label
  | getAddress (version : Nat) (address changeAddress : Option String)
  | deliver (tx : Transaction)
  | settle (k : Nat) (reply : Except JsError (Option String))

def start (ref : ObjRef) (a : NormalAccount) : Session := ⟨.new ref, [a], []⟩

section Machine

variable (btc : ScriptLib)

/-- The imports that the subscribers ask for, in the order of subscription.  A
subscriber that throws asks for none. -/
def requests (versions : List NormalAccount) (event : BlockchainEvent) : List ImportRequest :=
  versions.filterMap fun a =>
    match handleUpdate btc a event with
    | .ok request => request
    | .error _ => none

/-- The manager after an import has ended.  A rejection changes nothing. -/
def settleManager (m : CoinManager) (request : ImportRequest)
    (reply : Except JsError (Option String)) : CoinManager :=
  match m.importOurOutPoints btc request.outpoints reply with
  | .ok m' => m'
  | .error _ => m

def machine : Machine Session Label where
  step s
    | .getAddress version address changeAddress =>
        s.versions[version]?.map fun a =>
          match withAddresses a address changeAddress with
          -- the constructor of the new version subscribes it; nobody unsubscribes
          | .ok (a', _, _) => { s with versions := s.versions ++ [a'] }
          | .error _ => s
    | .deliver tx =>
        some { s with pending := s.pending ++ requests btc s.versions (.transaction tx) }
    | .settle k reply =>
        s.pending[k]?.map fun request =>
          { s with
            manager := settleManager btc s.manager request reply
            pending := s.pending.eraseIdx k }

end Machine

variable {btc : ScriptLib}

theorem requests_eq (versions : List NormalAccount) (tx : Transaction) :
    requests btc versions (.transaction tx) =
      (versions.filter fun a => Decodes btc a.watchingAddresses tx.outs).map
        fun a => ⟨a.id, tx.outpoints⟩ := by
  induction versions with
  | nil => rfl
  | cons a rest ih =>
      rw [requests, List.filterMap_cons, ← requests, ih]
      by_cases h : Decodes btc a.watchingAddresses tx.outs
      · rw [handleUpdate_transaction h, List.filter_cons_of_pos (by simpa using h),
          List.map_cons]
      · obtain ⟨e, he⟩ := handleUpdate_error h
        rw [he, List.filter_cons_of_neg (by simpa using h)]

theorem step_cases {s t : Session} {l : Label} (h : (machine btc).step s l = some t) :
    (∃ v address changeAddress new, l = .getAddress v address changeAddress ∧
      t = { s with versions := s.versions ++ new }) ∨
    (∃ tx, l = .deliver tx ∧
      t = { s with pending := s.pending ++ requests btc s.versions (.transaction tx) }) ∨
    (∃ k reply request, l = .settle k reply ∧ s.pending[k]? = some request ∧
      t = { s with
        manager := settleManager btc s.manager request reply
        pending := s.pending.eraseIdx k }) := by
  cases l with
  | getAddress v address changeAddress =>
      obtain ⟨a, -, rfl⟩ := Option.map_eq_some_iff.mp h
      refine .inl ⟨v, address, changeAddress, ?_⟩
      cases withAddresses a address changeAddress with
      | ok made => exact ⟨[made.1], rfl, rfl⟩
      | error e => exact ⟨[], rfl, by simp⟩
  | deliver tx => exact .inr (.inl ⟨tx, rfl, (Option.some.inj h).symm⟩)
  | settle k reply =>
      obtain ⟨request, hrequest, rfl⟩ := Option.map_eq_some_iff.mp h
      exact .inr (.inr ⟨k, reply, request, rfl, hrequest, rfl⟩)

/-! ## What a run leaves among the coins -/

def Label.delivered? : Label → Option Transaction
  | .deliver tx => some tx
  | _ => none

def delivered (ls : List Label) : List Transaction := ls.filterMap Label.delivered?

def resolved (btc : ScriptLib) (s : Session) : Label → List OutpointWithScriptAndAmount
  | .settle k reply =>
      match s.pending[k]? with
      | none => []
      | some request =>
          match s.manager.importOurOutPoints btc request.outpoints reply with
          | .ok _ => request.outpoints
          | .error _ => []
  | _ => []

def resolvedIn (btc : ScriptLib) (s : Session) (ls : List Label) :
    List OutpointWithScriptAndAmount :=
  (machine btc).trace (resolved btc) s ls

theorem entries_settleManager (m : CoinManager) (request : ImportRequest)
    (reply : Except JsError (Option String)) :
    m.coins.entries <+: (settleManager btc m request reply).coins.entries := by
  unfold settleManager
  split
  · rename_i m' himport
    obtain ⟨new, hentries, -⟩ := CoinManager.importOurOutPoints_ok himport
    exact ⟨new, hentries.symm⟩
  · exact List.prefix_rfl

theorem entries_step {s t : Session} {l : Label} (h : (machine btc).step s l = some t) :
    ∃ new, t.manager.coins.entries = s.manager.coins.entries ++ new ∧
      new.map entryRecord = (resolved btc s l).map outpointRecord := by
  obtain ⟨v, address, changeAddress, new, rfl, rfl⟩ | ⟨tx, rfl, rfl⟩ |
    ⟨k, reply, request, rfl, hrequest, rfl⟩ := step_cases h
  · exact ⟨[], by simp, rfl⟩
  · exact ⟨[], by simp, rfl⟩
  · simp only [resolved, hrequest, settleManager]
    cases himport : s.manager.importOurOutPoints btc request.outpoints reply with
    | error e => exact ⟨[], by simp, rfl⟩
    | ok m => exact CoinManager.importOurOutPoints_ok himport

theorem records_step {s t : Session} {l : Label} (h : (machine btc).step s l = some t) :
    t.manager.records = s.manager.records ++ (resolved btc s l).map outpointRecord := by
  obtain ⟨new, hentries, hnew⟩ := entries_step h
  rw [CoinManager.records, hentries, List.map_append, hnew, CoinManager.records]

theorem entries_prefix_run {s t : Session} {ls : List Label}
    (h : (machine btc).run s ls = some t) :
    s.manager.coins.entries <+: t.manager.coins.entries :=
  Machine.run_relation (R := fun s t : Session =>
      s.manager.coins.entries <+: t.manager.coins.entries)
    (fun _ => List.prefix_rfl) (fun _ _ _ => List.IsPrefix.trans)
    (fun _ _ _ hstep => by
      obtain ⟨v, address, changeAddress, new, rfl, rfl⟩ | ⟨tx, rfl, rfl⟩ |
        ⟨k, reply, request, rfl, -, rfl⟩ := step_cases hstep
      · exact List.prefix_rfl
      · exact List.prefix_rfl
      · exact entries_settleManager _ _ _) h

theorem records_run {s t : Session} {ls : List Label} (h : (machine btc).run s ls = some t) :
    t.manager.records = s.manager.records ++ (resolvedIn btc s ls).map outpointRecord :=
  Machine.run_log (f := fun s : Session => s.manager.records)
    (fun _ _ _ hstep => records_step hstep) h

theorem pending_step {s t : Session} {l : Label} (h : (machine btc).step s l = some t)
    {request : ImportRequest} (hrequest : request ∈ t.pending) :
    request ∈ s.pending ∨ ∃ tx, l = .deliver tx ∧ request.outpoints = tx.outpoints := by
  obtain ⟨v, address, changeAddress, new, rfl, rfl⟩ | ⟨tx, rfl, rfl⟩ |
    ⟨k, reply, settled, rfl, -, rfl⟩ := step_cases h
  · exact .inl hrequest
  · refine (List.mem_append.mp hrequest).imp_right fun hnew => ⟨tx, rfl, ?_⟩
    rw [requests_eq] at hnew
    obtain ⟨a, -, rfl⟩ := List.mem_map.mp hnew
    rfl
  · exact .inl (List.mem_of_mem_eraseIdx hrequest)

theorem mem_resolved {s : Session} {l : Label} {o : OutpointWithScriptAndAmount}
    (h : o ∈ resolved btc s l) : ∃ request ∈ s.pending, o ∈ request.outpoints := by
  unfold resolved at h
  split at h
  · split at h
    · cases h
    · rename_i request hrequest
      split at h
      · exact ⟨request, List.mem_of_getElem? hrequest, h⟩
      · cases h
  · cases h

theorem mem_resolvedIn {s : Session} {ls : List Label} {o : OutpointWithScriptAndAmount}
    (h : o ∈ resolvedIn btc s ls) :
    (∃ request ∈ s.pending, o ∈ request.outpoints) ∨ ∃ tx ∈ delivered ls, o ∈ tx.outpoints := by
  induction ls generalizing s with
  | nil => cases h
  | cons l ls ih =>
      rcases List.mem_append.mp h with hhead | htail
      · exact .inl (mem_resolved hhead)
      · cases hstep : (machine btc).step s l with
        | none =>
            rw [hstep] at htail
            cases htail
        | some u =>
            rw [hstep] at htail
            rcases ih htail with ⟨request, hrequest, ho⟩ | ⟨tx, htx, ho⟩
            · rcases pending_step hstep hrequest with hold | ⟨tx, rfl, hout⟩
              · exact .inl ⟨request, hold, ho⟩
              · exact .inr ⟨tx, by simp [delivered, Label.delivered?], hout ▸ ho⟩
            · refine .inr ⟨tx, ?_, ho⟩
              obtain ⟨l', hl', htx'⟩ := List.mem_filterMap.mp htx
              exact List.mem_filterMap.mpr ⟨l', List.mem_cons_of_mem _ hl', htx'⟩

theorem versions_run {s t : Session} {ls : List Label} (h : (machine btc).run s ls = some t) :
    s.versions <+: t.versions :=
  Machine.run_relation (R := fun s t : Session => s.versions <+: t.versions)
    (fun _ => List.prefix_rfl) (fun _ _ _ => List.IsPrefix.trans)
    (fun _ _ _ hstep => by
      obtain ⟨v, address, changeAddress, new, rfl, rfl⟩ | ⟨tx, rfl, rfl⟩ |
        ⟨k, reply, request, rfl, -, rfl⟩ := step_cases hstep
      · exact List.prefix_append _ _
      · exact List.prefix_rfl
      · exact List.prefix_rfl) h

end Session

end Walletts
