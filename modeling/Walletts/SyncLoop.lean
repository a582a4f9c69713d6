import Walletts.Recovery
/-!
# The loop of `syncHDNode`

The loop starts a recovery in each round and looks at `endSync`.  The callbacks
of the recoveries, which count the accounts and could set `endSync`, are run by
the event loop, and only when no synchronous code is running.  The machine
below has both rules for callbacks, the one of JavaScript and one that lets
them run between rounds, so that what follows from the rule can be told from
what does not.
-/

namespace Walletts

open NormalAccountService

namespace WalletService

variable {Node : Type}

inductive TaskStatus
  | waiting (addresses : List String)
  | resolved (account : Option RecoveredAccount)
  | rejected (e : JsError)

structure Task (Node : Type) where
  node : Node
  accountNumber : Nat
  status : TaskStatus

inductive Main
  | looping
  | returned (wallet : BasicWallet RecoveredAccount)
  | threw (e : JsError)

/-- The variables of `syncHDNode`, its promises, and the identity the next
coin manager will get. -/
structure SyncState (Node : Type) where
  main : Main
  accountIndex : Nat
  accounts : List RecoveredAccount
  endSync : Bool
  i : Nat
  balanceSoFar : Int
  tasks : List (Task Node)
  nextRef : ObjRef

inductive SyncLabel
  | iterate
  | exit
  | reply (k : Nat) (res : Except JsError (Option SyncInfo))
  | callback (k : Nat)

def syncStart (nextRef : ObjRef) : SyncState Node :=
  ⟨.looping, 0, [], false, 0, 0, [], nextRef⟩

def SyncState.mayCallBack (preempt : Bool) (s : SyncState Node) : Bool :=
  preempt || match s.main with
    | .looping => false
    | _ => true

section Machine

variable (lib : HDNodeLib Node)

/-- `recoverAddress` up to its `await`.  What is thrown there rejects its
promise. -/
def recoverAddress (node : Node) (i : Nat) : TaskStatus :=
  match queryAddresses lib node i loopValues with
  | .ok addresses => .waiting addresses
  | .error e => .rejected e

/-- `recoverAddress` from its `await` on: an account when the proxy knows
nothing, another round otherwise. -/
def resumeRecovery (bch : ObjRef) (s : SyncState Node) (k : Nat) (task : Task Node) :
    Except JsError (Option SyncInfo) → SyncState Node
  | .error e => { s with tasks := s.tasks.set k { task with status := .rejected e } }
  | .ok none =>
      -- `new NormalAccount(id, accountNumber, manager, bch, none, AccountType.Normal, ..)`
      let account : RecoveredAccount :=
        ⟨idOf lib task.node, task.accountNumber, s.nextRef, bch, none, .normal, ⟨s.balanceSoFar⟩⟩
      { s with
        tasks := s.tasks.set k { task with status := .resolved (some account) }
        nextRef := s.nextRef + 1 }
  | .ok (some res) =>
      -- `i` and `balanceSoFar` are shared by all recoveries
      let i := s.i + res.i
      { s with
        i := i
        balanceSoFar := s.balanceSoFar + res.addresses.values.sum
        tasks := s.tasks.set k { task with status := recoverAddress lib task.node i } }

def handleAccount (s : SyncState Node) (k : Nat) : Option RecoveredAccount → SyncState Node
  | some account =>
      { s with
        accountIndex := s.accountIndex + 1
        accounts := s.accounts ++ [account]
        tasks := s.tasks.eraseIdx k }
  | none => { s with endSync := true, tasks := s.tasks.eraseIdx k }

/-- `syncHDNode` for a wallet.  With `preempt` the callbacks may also run
between the rounds of the loop. -/
def syncMachine (preempt : Bool) (masternode : Node) (walletId : AccountID) (bch : ObjRef) :
    Machine (SyncState Node) SyncLabel where
  step s
    | .iterate =>
        match s.main, s.endSync with
        | .looping, false =>
            -- the promise is started and not awaited
            match lib.derive masternode (.num s.accountIndex) with
            | .error e => some { s with main := .threw e }
            | .ok node => some { s with
                tasks := s.tasks ++ [⟨node, s.accountIndex, recoverAddress lib node s.i⟩] }
        | _, _ => none
    | .exit =>
        match s.main, s.endSync with
        | .looping, true => some { s with main := .returned ⟨walletId, s.accounts⟩ }
        | _, _ => none
    | .reply k res =>
        match s.mayCallBack preempt, s.tasks[k]? with
        | true, some task =>
            match task.status with
            | .waiting _ => some (resumeRecovery lib bch s k task res)
            | _ => none
        | _, _ => none
    | .callback k =>
        match s.mayCallBack preempt, s.tasks[k]? with
        | true, some task =>
            match task.status with
            | .resolved account => some (handleAccount s k account)
            | _ => none
        | _, _ => none

end Machine

variable {lib : HDNodeLib Node} {preempt : Bool} {masternode : Node} {walletId : AccountID}
  {bch : ObjRef}

theorem sync_step_cases {s t : SyncState Node} {l : SyncLabel}
    (h : (syncMachine lib preempt masternode walletId bch).step s l = some t) :
    (l = .iterate ∧ s.main = .looping ∧ s.endSync = false ∧
      ((∃ e, lib.derive masternode (.num s.accountIndex) = .error e ∧
          t = { s with main := .threw e }) ∨
        ∃ node, lib.derive masternode (.num s.accountIndex) = .ok node ∧ t = { s with
          tasks := s.tasks ++ [⟨node, s.accountIndex, recoverAddress lib node s.i⟩] })) ∨
    (l = .exit ∧ s.endSync = true ∧ t = { s with main := .returned ⟨walletId, s.accounts⟩ }) ∨
    (∃ k task res, l = .reply k res ∧ s.mayCallBack preempt = true ∧ s.tasks[k]? = some task ∧
      t = resumeRecovery lib bch s k task res) ∨
    (∃ k task account, l = .callback k ∧ s.mayCallBack preempt = true ∧
      s.tasks[k]? = some task ∧ task.status = .resolved account ∧
      t = handleAccount s k account) := by
  cases l with
  | iterate =>
      simp only [syncMachine] at h
      split at h
      · rename_i hmain hend
        cases hderive : lib.derive masternode (.num s.accountIndex) with
        | error e =>
            rw [hderive] at h
            exact .inl ⟨rfl, hmain, hend, .inl ⟨e, rfl, (Option.some.inj h).symm⟩⟩
        | ok node =>
            rw [hderive] at h
            exact .inl ⟨rfl, hmain, hend, .inr ⟨node, rfl, (Option.some.inj h).symm⟩⟩
      · cases h
  | exit =>
      simp only [syncMachine] at h
      split at h
      · rename_i hend
        exact .inr (.inl ⟨rfl, hend, (Option.some.inj h).symm⟩)
      · cases h
  | reply k res =>
      simp only [syncMachine] at h
      split at h
      · rename_i task hmay htask
        split at h
        · exact .inr (.inr (.inl ⟨k, task, res, rfl, hmay, htask, (Option.some.inj h).symm⟩))
        · cases h
      · cases h
  | callback k =>
      simp only [syncMachine] at h
      split at h
      · rename_i task hmay htask
        split at h
        · rename_i account hstatus
          exact .inr (.inr (.inr ⟨k, task, account, rfl, hmay, htask, hstatus,
            (Option.some.inj h).symm⟩))
        · cases h
      · cases h

theorem forall_task_set {P : Task Node → Prop} {tasks : List (Task Node)}
    (h : ∀ task ∈ tasks, P task) {new : Task Node} (hnew : P new) (k : Nat) :
    ∀ task ∈ tasks.set k new, P task := by
  intro task htask
  rcases List.mem_or_eq_of_mem_set htask with hold | rfl
  · exact h task hold
  · exact hnew

/-! ## What the recoveries ask for and find -/

/-- A recovery works on the node of its account number: what it asks for is
scanned for that number, and what it finds has the recovered id. -/
structure TaskOk (lib : HDNodeLib Node) (masternode : Node) (task : Task Node) : Prop where
  derive_eq : lib.derive masternode (.num task.accountNumber) = .ok task.node
  scanned : ∀ addresses, task.status = .waiting addresses →
    ∀ a ∈ addresses, Scanned lib masternode task.accountNumber a
  recovered : ∀ account, task.status = .resolved (some account) →
    recoveredId lib masternode account.hdIndex = .ok account.id

structure Recovering (lib : HDNodeLib Node) (masternode : Node) (s : SyncState Node) : Prop where
  tasks : ∀ task ∈ s.tasks, TaskOk lib masternode task
  accounts : ∀ account ∈ s.accounts,
    recoveredId lib masternode account.hdIndex = .ok account.id

theorem taskOk_recoverAddress {node : Node} {accountNumber : Nat}
    (h : lib.derive masternode (.num accountNumber) = .ok node) (i : Nat) :
    TaskOk lib masternode ⟨node, accountNumber, recoverAddress lib node i⟩ where
  derive_eq := h
  scanned := by
    intro addresses hwaiting a ha
    simp only [recoverAddress] at hwaiting
    split at hwaiting
    · rename_i asked hquery
      cases hwaiting
      exact ⟨node, i, addresses, h, hquery, ha⟩
    · cases hwaiting
  recovered := by
    intro account hresolved
    simp only [recoverAddress] at hresolved
    split at hresolved <;> cases hresolved

theorem recovering_resumeRecovery {s : SyncState Node} (h : Recovering lib masternode s)
    {task : Task Node} (htask : TaskOk lib masternode task) (k : Nat)
    (res : Except JsError (Option SyncInfo)) :
    Recovering lib masternode (resumeRecovery lib bch s k task res) := by
  match res with
  | .error e =>
      have hrejected : TaskOk lib masternode { task with status := .rejected e } :=
        ⟨htask.derive_eq, by simp, by simp⟩
      exact ⟨forall_task_set h.tasks hrejected k, h.accounts⟩
  | .ok none =>
      have hid : recoveredId lib masternode task.accountNumber = .ok (idOf lib task.node) := by
        rw [recoveredId, htask.derive_eq]
        rfl
      have hresolved : TaskOk lib masternode { task with status := .resolved (some
          ⟨idOf lib task.node, task.accountNumber, s.nextRef, bch, none, .normal,
            ⟨s.balanceSoFar⟩⟩) } := by
        refine ⟨htask.derive_eq, by simp, fun account haccount => ?_⟩
        cases haccount
        exact hid
      exact ⟨forall_task_set h.tasks hresolved k, h.accounts⟩
  | .ok (some res) =>
      exact ⟨forall_task_set h.tasks (taskOk_recoverAddress htask.derive_eq _) k, h.accounts⟩

theorem recovering_step {s t : SyncState Node} {l : SyncLabel} (h : Recovering lib masternode s)
    (hstep : (syncMachine lib preempt masternode walletId bch).step s l = some t) :
    Recovering lib masternode t := by
  obtain ⟨-, -, -, ⟨e, -, rfl⟩ | ⟨node, hnode, rfl⟩⟩ | ⟨-, -, rfl⟩ |
    ⟨k, task, res, -, -, htask, rfl⟩ |
    ⟨k, task, account, -, -, htask, hstatus, rfl⟩ := sync_step_cases hstep
  · exact ⟨h.tasks, h.accounts⟩
  · refine ⟨fun task htask => ?_, h.accounts⟩
    rcases List.mem_append.mp htask with hold | hnew
    · exact h.tasks task hold
    · rw [List.mem_singleton.mp hnew]
      exact taskOk_recoverAddress hnode s.i
  · exact ⟨h.tasks, h.accounts⟩
  · exact recovering_resumeRecovery h (h.tasks task (List.mem_of_getElem? htask)) k res
  · have hleft : ∀ task' ∈ s.tasks.eraseIdx k, TaskOk lib masternode task' := fun task' htask' =>
      h.tasks task' (List.mem_of_mem_eraseIdx htask')
    cases account with
    | none => exact ⟨hleft, h.accounts⟩
    | some account =>
        refine ⟨hleft, fun account' haccount' => ?_⟩
        rcases List.mem_append.mp haccount' with hold | hnew
        · exact h.accounts account' hold
        · rw [List.mem_singleton.mp hnew]
          exact (h.tasks task (List.mem_of_getElem? htask)).recovered account hstatus

theorem recovering_run {nextRef : ObjRef} {ls : List SyncLabel} {s : SyncState Node}
    (hrun : (syncMachine lib preempt masternode walletId bch).run (syncStart nextRef) ls = some s) :
    Recovering lib masternode s :=
  Machine.run_invariant (fun _ _ _ hs hst => recovering_step hs hst) hrun
    ⟨by simp [syncStart], by simp [syncStart]⟩

/-! ## Nobody ends the loop -/

structure NotEnding (s : SyncState Node) : Prop where
  endSync : s.endSync = false
  no_null : ∀ task ∈ s.tasks, task.status ≠ .resolved none
  not_returned : ∀ wallet, s.main ≠ .returned wallet

theorem recoverAddress_ne_null (node : Node) (i : Nat) :
    recoverAddress lib node i ≠ .resolved none := by
  unfold recoverAddress
  split <;> simp

theorem notEnding_resumeRecovery {s : SyncState Node} (h : NotEnding s) (k : Nat)
    (task : Task Node) (res : Except JsError (Option SyncInfo)) :
    NotEnding (resumeRecovery lib bch s k task res) := by
  match res with
  | .error e => exact ⟨h.endSync, forall_task_set h.no_null (by simp) k, h.not_returned⟩
  | .ok none => exact ⟨h.endSync, forall_task_set h.no_null (by simp) k, h.not_returned⟩
  | .ok (some res) =>
      exact ⟨h.endSync, forall_task_set h.no_null (recoverAddress_ne_null _ _) k, h.not_returned⟩

theorem notEnding_step {s t : SyncState Node} {l : SyncLabel} (h : NotEnding s)
    (hstep : (syncMachine lib preempt masternode walletId bch).step s l = some t) :
    NotEnding t := by
  obtain ⟨-, -, -, ⟨e, -, rfl⟩ | ⟨node, -, rfl⟩⟩ | ⟨-, hend, -⟩ | ⟨k, task, res, -, -, -, rfl⟩ |
    ⟨k, task, account, -, -, htask, hstatus, rfl⟩ := sync_step_cases hstep
  · exact ⟨h.endSync, h.no_null, by simp⟩
  · refine ⟨h.endSync, fun task htask => ?_, h.not_returned⟩
    rcases List.mem_append.mp htask with hold | hnew
    · exact h.no_null task hold
    · rw [List.mem_singleton.mp hnew]
      exact recoverAddress_ne_null _ _
  · rw [h.endSync] at hend
    cases hend
  · exact notEnding_resumeRecovery h k task res
  · cases account with
    | none => exact absurd hstatus (h.no_null task (List.mem_of_getElem? htask))
    | some account =>
        exact ⟨h.endSync, fun task' htask' => h.no_null task' (List.mem_of_mem_eraseIdx htask'),
          h.not_returned⟩

theorem notEnding_start (nextRef : ObjRef) : NotEnding (syncStart nextRef : SyncState Node) where
  endSync := rfl
  no_null := by simp [syncStart]
  not_returned := by simp [syncStart]

theorem notEnding_run {nextRef : ObjRef} {ls : List SyncLabel} {s : SyncState Node}
    (hrun : (syncMachine lib preempt masternode walletId bch).run (syncStart nextRef) ls = some s) :
    NotEnding s :=
  Machine.run_invariant (fun _ _ _ hs hst => notEnding_step hs hst) hrun (notEnding_start nextRef)

/-! ## Under the rule of JavaScript -/

structure Looping (s : SyncState Node) : Prop where
  main : s.main = .looping
  endSync : s.endSync = false
  accountIndex : s.accountIndex = 0

theorem Looping.no_callback {s : SyncState Node} (h : Looping s) :
    s.mayCallBack false = false := by
  simp [SyncState.mayCallBack, h.main]

theorem Looping.step_eq_iterate {s t : SyncState Node} {l : SyncLabel} (h : Looping s)
    (hstep : (syncMachine lib false masternode walletId bch).step s l = some t) : l = .iterate := by
  obtain ⟨hl, -⟩ | ⟨-, hend, -⟩ | ⟨k, task, res, -, hmay, -⟩ | ⟨k, task, account, -, hmay, -⟩ :=
    sync_step_cases hstep
  · exact hl
  · rw [h.endSync] at hend
    cases hend
  · rw [h.no_callback] at hmay
    cases hmay
  · rw [h.no_callback] at hmay
    cases hmay

theorem Looping.step {s t : SyncState Node} {l : SyncLabel} (hlaw : lib.Lawful) (h : Looping s)
    (hstep : (syncMachine lib false masternode walletId bch).step s l = some t) : Looping t := by
  obtain rfl := h.step_eq_iterate hstep
  obtain ⟨child, hchild⟩ := hlaw.derive_num masternode 0 (by norm_num)
  rw [← h.accountIndex] at hchild
  simp only [syncMachine, h.main, h.endSync, hchild] at hstep
  obtain rfl := Option.some.inj hstep
  exact ⟨rfl, rfl, h.accountIndex⟩

theorem Looping.iterate (hlaw : lib.Lawful) {s : SyncState Node} (h : Looping s) :
    ∃ t, (syncMachine lib false masternode walletId bch).step s .iterate = some t := by
  obtain ⟨child, hchild⟩ := hlaw.derive_num masternode 0 (by norm_num)
  rw [← h.accountIndex] at hchild
  simp [syncMachine, h.main, h.endSync, hchild]

theorem looping_run {nextRef : ObjRef} {ls : List SyncLabel} {s : SyncState Node}
    (hlaw : lib.Lawful)
    (hrun : (syncMachine lib false masternode walletId bch).run (syncStart nextRef) ls = some s) :
    Looping s :=
  Machine.run_invariant (fun _ _ _ hs hst => hs.step hlaw hst) hrun ⟨rfl, rfl, rfl⟩

def Recovers (k : Nat) (s : SyncState Node) : Prop :=
  ∃ wallet, s.main = .returned wallet ∧
    wallet.accounts.map Account.hdIndex = List.range k

/-- `syncHDNode` never ends: for every master node, and whatever the proxy
answers, each state it reaches allows another round and nothing else, so it
recovers no wallet, for no number of used accounts.  The last holds also when
callbacks may run between the rounds. -/
theorem sync_loops_forever {nextRef : ObjRef} {ls : List SyncLabel} {s : SyncState Node}
    (hlaw : lib.Lawful)
    (hrun : (syncMachine lib false masternode walletId bch).run (syncStart nextRef) ls = some s) :
    (∃ t, (syncMachine lib false masternode walletId bch).step s .iterate = some t) ∧
      (∀ l t, (syncMachine lib false masternode walletId bch).step s l = some t → l = .iterate) ∧
      (∀ k, ¬ Recovers k s) ∧
      ∀ ls' s', (syncMachine lib true masternode walletId bch).run (syncStart nextRef) ls' =
        some s' → ∀ k, ¬ Recovers k s' := by
  have hloop := looping_run hlaw hrun
  refine ⟨hloop.iterate hlaw, fun _ _ => hloop.step_eq_iterate, ?_, ?_⟩
  · rintro k ⟨wallet, hreturned, -⟩
    exact (notEnding_run hrun).not_returned wallet hreturned
  · rintro ls' s' hrun' k ⟨wallet, hreturned, -⟩
    exact (notEnding_run hrun').not_returned wallet hreturned

theorem sync_loops_forever_symbolic : ∃ s,
    (syncMachine SymbolicNode.lib false sampleMaster sampleCreated.2.id 0).run (syncStart 1)
        [.iterate, .iterate] = some s ∧ s.tasks.length = 2 ∧ ¬ Recovers 0 s := by
  have hrun : (syncMachine SymbolicNode.lib false sampleMaster sampleCreated.2.id 0).run
      (syncStart 1) [.iterate, .iterate] = some _ := rfl
  exact ⟨_, hrun, rfl, (sync_loops_forever SymbolicNode.lib_lawful hrun).2.2.1 0⟩

theorem sync_never_returns_empty_wallet :
    ¬ ∃ ls s, (syncMachine SymbolicNode.lib false sampleMaster sampleCreated.2.id 0).run
      (syncStart 1) ls = some s ∧ Recovers 0 s := by
  rintro ⟨ls, s, hrun, wallet, hreturned, -⟩
  exact (notEnding_run hrun).not_returned wallet hreturned

end WalletService

end Walletts
