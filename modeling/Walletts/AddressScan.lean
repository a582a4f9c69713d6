import Walletts.SyncLoop
import Mathlib.Data.Nat.Find
/-!
# The recovery of one account

Each recovery should ask for the addresses of the account twenty at a time
until a round finds nothing, and then make an account of what was found.  Here
one recovery is run alone, with fresh counters, against a proxy that answers
from a fixed set of used addresses, and compared with a statement of what such
a scan is for.
-/

namespace Walletts

open NormalAccountService

/-- What a field of an account holds, whichever argument of the constructor it
came from. -/
inductive FieldValue
  | accountType (t : AccountType)
  | balance (b : Balance)
  | watching (ws : Option (List String))
  deriving DecidableEq

/-- `balance.amount`; other values have no such property. -/
def FieldValue.amount? : FieldValue → Option Int
  | balance b => some b.amount
  | _ => none

def RecoveredAccount.fields (a : RecoveredAccount) : Account FieldValue FieldValue FieldValue where
  id := a.id
  hdIndex := a.hdIndex
  coinManager := a.coinManager
  observableBlockchain := a.observableBlockchain
  type := .watching a.type
  balance := .accountType a.balance
  watchingAddresses := .balance a.watchingAddresses

abbrev GetAddressesWithBalance := List String → Except JsError (Option SyncInfo)

/-- The proxy answers each batch from this set of used addresses: nothing when
it contains none of them, and otherwise the index of the last one that is used
and the balances of all that are. -/
def AnswersFrom (used : InsertionMap String Int) (proxy : GetAddressesWithBalance) : Prop :=
  ∀ batch, ((∀ a ∈ batch, a ∉ used.keys) → proxy batch = .ok none) ∧
    ((∃ a ∈ batch, a ∈ used.keys) → ∃ info, proxy batch = .ok (some info) ∧
      (∃ a, batch[info.i]? = some a ∧ a ∈ used.keys) ∧
      (∀ k a, info.i < k → batch[k]? = some a → a ∉ used.keys) ∧
      ∀ a, info.addresses.get a = if a ∈ batch then used.get a else none)

namespace WalletService

variable {Node : Type}

/-! ## One recovery -/

structure Scan (Node : Type) where
  queries : List (List String)
  sync : SyncState Node

section Scan

variable (lib : HDNodeLib Node)

def scanStart (node : Node) (accountNumber : Nat) (nextRef : ObjRef) : Scan Node where
  queries := []
  sync :=
    let fresh : SyncState Node := syncStart nextRef
    { fresh with tasks := [⟨node, accountNumber, recoverAddress lib node 0⟩] }

/-- One step is a query and what `recoverAddress` makes of its answer. -/
def scanMachine (proxy : GetAddressesWithBalance) (bch : ObjRef) : Machine (Scan Node) Unit where
  step s _ :=
    match s.sync.tasks with
    | task :: _ =>
        match task.status with
        | .waiting addresses => some
            ⟨s.queries ++ [addresses], resumeRecovery lib bch s.sync 0 task (proxy addresses)⟩
        | _ => none
    | [] => none

def Scan.Ended (s : Scan Node) (status : TaskStatus) : Prop :=
  ∃ task, s.sync.tasks = [task] ∧ task.status = status

/-! ## What a scan is for -/

def Consecutive (node : Node) (batch : List String) : Prop :=
  ∃ start, List.Forall₂ (fun k a => ∃ child, lib.derive node (.num k) = .ok child ∧
    lib.getAddress child = a) (List.range' start 20) batch

def UsedAt (used : InsertionMap String Int) (node : Node) (k : Nat) (a : String) : Prop :=
  ∃ child, lib.derive node (.num k) = .ok child ∧ lib.getAddress child = a ∧ a ∈ used.keys

/-- A used address that is reached without a gap of twenty unused ones. -/
inductive Found (used : InsertionMap String Int) (node : Node) : Nat → String → Prop
  | first {k : Nat} {a : String} (hk : k < 20) (hused : UsedAt lib used node k a) :
      Found used node k a
  | next {j k : Nat} {a b : String} (hfound : Found used node j a) (hjk : j < k)
      (hgap : k ≤ j + 20) (hused : UsedAt lib used node k b) : Found used node k b

def FoundTotal (used : InsertionMap String Int) (node : Node) (total : Int) : Prop :=
  ∃ found : List String, found.Nodup ∧ (∀ a, a ∈ found ↔ ∃ k, Found lib used node k a) ∧
    total = (found.map fun a => (used.get a).getD 0).sum

/-- The scan ends after finitely many queries, each of them for twenty
consecutive children, with an account of this number, of type `Normal`, whose
balance is the total found. -/
def ScanRecovers (used : InsertionMap String Int) (proxy : GetAddressesWithBalance)
    (bch nextRef : ObjRef) (node : Node) (accountNumber : Nat) : Prop :=
  ∃ ls s account total,
    (scanMachine lib proxy bch).run (scanStart lib node accountNumber nextRef) ls = some s ∧
    s.Ended (.resolved (some account)) ∧ (∀ batch ∈ s.queries, Consecutive lib node batch) ∧
    account.hdIndex = accountNumber ∧ account.fields.type = .accountType .normal ∧
    account.fields.balance.amount? = some total ∧ FoundTotal lib used node total

end Scan

variable {lib : HDNodeLib Node}

/-- The first child is asked for with `undefined`, whatever the counter is. -/
theorem queryAddresses_loopValues (hlaw : lib.Lawful) (node : Node) (i : Nat) :
    ∃ e, queryAddresses lib node i loopValues = .error e := by
  have hderive : ∃ e, lib.derive node
      (if i = 0 then JsNumber.undefined else JsNumber.add i .undefined) = .error e := by
    by_cases hi : i = 0
    · rw [if_pos hi]
      exact hlaw.derive_undefined node
    · -- a number and `undefined` add up to `NaN`
      rw [if_neg hi]
      exact hlaw.derive_nan node
  obtain ⟨e, he⟩ := hderive
  refine ⟨e, ?_⟩
  rw [loopValues, List.replicate_succ, queryAddresses, he]
  rfl

theorem recoverAddress_rejected (hlaw : lib.Lawful) (node : Node) (i : Nat) :
    ∃ e, recoverAddress lib node i = .rejected e := by
  obtain ⟨e, he⟩ := queryAddresses_loopValues hlaw node i
  exact ⟨e, by rw [recoverAddress, he]⟩

theorem scan_stuck {proxy : GetAddressesWithBalance} {bch : ObjRef} {s : Scan Node} {e : JsError}
    (h : s.Ended (.rejected e)) (l : Unit) : (scanMachine lib proxy bch).step s l = none := by
  obtain ⟨task, htasks, hstatus⟩ := h
  simp [scanMachine, htasks, hstatus]

theorem scan_run_rejected {proxy : GetAddressesWithBalance} {bch : ObjRef} {s t : Scan Node}
    {e : JsError} {ls : List Unit} (h : s.Ended (.rejected e))
    (hrun : (scanMachine lib proxy bch).run s ls = some t) : t = s := by
  cases ls with
  | nil => exact (Option.some.inj hrun).symm
  | cons l ls =>
      rw [Machine.run_cons, scan_stuck h] at hrun
      cases hrun

theorem Scan.Ended.eq {s : Scan Node} {status status' : TaskStatus} (h : s.Ended status)
    (h' : s.Ended status') : status = status' := by
  obtain ⟨task, htasks, rfl⟩ := h
  obtain ⟨task', htasks', rfl⟩ := h'
  obtain rfl : task = task' := by simpa using htasks.symm.trans htasks'
  rfl

theorem not_scanRecovers {used : InsertionMap String Int} {proxy : GetAddressesWithBalance}
    {bch nextRef : ObjRef} {node : Node} {accountNumber : Nat} {e : JsError}
    (hstart : (scanStart lib node accountNumber nextRef).Ended (.rejected e)) :
    ¬ ScanRecovers lib used proxy bch nextRef node accountNumber := by
  rintro ⟨ls, s, account, total, hrun, hresolved, -⟩
  obtain rfl := scan_run_rejected hstart hrun
  cases hstart.eq hresolved

/-- Whatever the proxy answers and whichever addresses are used, the recovery
of an account is rejected before its first query. -/
theorem recovery_never_scans (hlaw : lib.Lawful) (used : InsertionMap String Int)
    (proxy : GetAddressesWithBalance) (bch nextRef : ObjRef) (node : Node) (accountNumber : Nat) :
    ¬ ScanRecovers lib used proxy bch nextRef node accountNumber ∧
      ∃ e, ∀ ls s,
        (scanMachine lib proxy bch).run (scanStart lib node accountNumber nextRef) ls = some s →
          s.queries = [] ∧ s.Ended (.rejected e) := by
  obtain ⟨e, he⟩ := recoverAddress_rejected hlaw node 0
  have hstart : (scanStart lib node accountNumber nextRef).Ended (.rejected e) :=
    ⟨⟨node, accountNumber, recoverAddress lib node 0⟩, rfl, he⟩
  refine ⟨not_scanRecovers hstart, e, fun ls s hrun => ?_⟩
  rw [scan_run_rejected hstart hrun]
  exact ⟨rfl, hstart⟩

theorem recovery_never_scans_symbolic :
    ¬ ScanRecovers SymbolicNode.lib .empty (fun _ => .ok none) 0 1 sampleMaster 0 ∧
      ∃ e, ∀ ls s, (scanMachine SymbolicNode.lib (fun _ => .ok none) 0).run
        (scanStart SymbolicNode.lib sampleMaster 0 1) ls = some s →
          s.queries = [] ∧ s.Ended (.rejected e) :=
  recovery_never_scans SymbolicNode.lib_lawful .empty (fun _ => .ok none) 0 1 sampleMaster 0

/-! ## A proxy with one used address -/

def oneUsed (address : String) (balance : Int) : InsertionMap String Int :=
  InsertionMap.empty.set address balance

def oneUsedProxy (address : String) (balance : Int) : GetAddressesWithBalance := fun batch =>
  if address ∈ batch then
    let last := Nat.findGreatest (fun k => batch[k]? = some address) batch.length
    .ok (some ⟨last, oneUsed address balance⟩)
  else .ok none

theorem mem_keys_oneUsed {address a : String} {balance : Int} :
    a ∈ (oneUsed address balance).keys ↔ a = address := by
  simp [oneUsed, InsertionMap.keys, InsertionMap.set, InsertionMap.setEntries]

theorem get_oneUsed (address a : String) (balance : Int) :
    (oneUsed address balance).get a = if a = address then some balance else none := by
  rw [oneUsed, InsertionMap.get_set]
  rfl

theorem oneUsedProxy_answersFrom (address : String) (balance : Int) :
    AnswersFrom (oneUsed address balance) (oneUsedProxy address balance) := by
  intro batch
  constructor
  · intro hnone
    have hnot : address ∉ batch := fun hmem => hnone address hmem (mem_keys_oneUsed.mpr rfl)
    rw [oneUsedProxy, if_neg hnot]
  · rintro ⟨a, ha, hused⟩
    obtain rfl := mem_keys_oneUsed.mp hused
    obtain ⟨k, hk⟩ := List.mem_iff_getElem?.mp ha
    have hlength : k ≤ batch.length := by
      have hlt := (List.getElem?_eq_some_iff.mp hk).1
      omega
    refine ⟨_, by rw [oneUsedProxy, if_pos ha], ⟨a, ?_, hused⟩, ?_, ?_⟩
    · exact Nat.findGreatest_spec (P := fun k => batch[k]? = some a) hlength hk
    · intro j b hj hb hb'
      obtain rfl := mem_keys_oneUsed.mp hb'
      have hjlength := (List.getElem?_eq_some_iff.mp hb).1
      exact Nat.findGreatest_is_greatest hj hjlength.le hb
    · intro b
      rw [get_oneUsed]
      by_cases hb : b = a
      · subst hb
        rw [if_pos rfl, if_pos ha]
      · rw [if_neg hb, ite_self]

def firstAddress : String := SymbolicNode.lib.getAddress (sampleMaster.child 0)

/-- An account whose first address has a balance of 5 is not recovered. -/
theorem recovery_misses_used_address :
    AnswersFrom (oneUsed firstAddress 5) (oneUsedProxy firstAddress 5) ∧
      Found SymbolicNode.lib (oneUsed firstAddress 5) sampleMaster 0 firstAddress ∧
      ¬ ScanRecovers SymbolicNode.lib (oneUsed firstAddress 5) (oneUsedProxy firstAddress 5) 0 1
        sampleMaster 0 := by
  refine ⟨oneUsedProxy_answersFrom _ _, ?_, ?_⟩
  · exact .first (by norm_num)
      ⟨_, SymbolicNode.lib_derive_of_lt sampleMaster (by norm_num), rfl, mem_keys_oneUsed.mpr rfl⟩
  · have hstart : (scanStart SymbolicNode.lib sampleMaster 0 1).Ended
        (.rejected SymbolicNode.indexError) := ⟨_, rfl, rfl⟩
    exact not_scanRecovers hstart

end WalletService

end Walletts
