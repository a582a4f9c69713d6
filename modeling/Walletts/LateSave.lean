import Walletts.KeyHistory
/-!
# Saving without waiting

Both repositories are interfaces: a write that was asked for may be done at
once, may be done or refused at any later time, and the call itself may throw.
`createNew`, `createFromSeed` and `setNewAccountToWallet` start the two writes
of `_save` and resolve without waiting for them.  This module models the calls
over such repositories, and says what has been written when they resolve.
-/

namespace Walletts

open NormalAccountService

variable {Node : Type}

namespace WalletService

/-! ## Writes -/

/-- How a repository answers the call of a write: with a promise that is
fulfilled already, one that waits or one that is rejected, or by throwing. -/
inductive WriteStart
  | written
  | pending
  | rejected (e : JsError)
  | thrown (e : JsError)
  deriving DecidableEq

inductive WriteStatus
  | notStarted
  | pending
  | written
  | rejected (e : JsError)
  deriving DecidableEq

def WriteStart.status : WriteStart → WriteStatus
  | .written => .written
  | .pending => .pending
  | .rejected e => .rejected e
  | .thrown e => .rejected e

/-- The second call in the list for `Promise.all` is not made if the first one
throws. -/
def WriteStart.statusAfter (first second : WriteStart) : WriteStatus :=
  match first with
  | .thrown _ => .notStarted
  | _ => second.status

def WriteStatus.settle : WriteStatus → Except JsError Unit → WriteStatus
  | .pending, .ok _ => .written
  | .pending, .error e => .rejected e
  | status, _ => status

/-! ## The service over slow repositories -/

/-- A `_save` of a call that has resolved: what it was given, the wallet the
call resolved with, and how the two writes stand. -/
structure Save (Node : Type) where
  wallet : BasicWallet NormalAccount
  key : Node
  returned : BasicWallet NormalAccount
  keyWrite : WriteStatus
  walletWrite : WriteStatus

/-- Where a call of `setNewAccountToWallet` waits: for the root node, or for
the node of the new account to be written. -/
inductive AccountCall (Node : Type)
  | root (wallet : BasicWallet NormalAccount) (request : AccountRequest)
  | account (wallet : BasicWallet NormalAccount) (rootNode accountMasterHD : Node)
      (account : NormalAccount) (write : WriteStatus)
  | ended

/-- `repos` holds what has been written so far. -/
structure ServiceState (Node : Type) where
  repos : Repositories Node
  calls : List (AccountCall Node)
  saves : List (Save Node)

inductive ServiceEvent (Node : Type)
  | createNew (entropy : Buffer) (network : Option Network) (key wallet : WriteStart)
  | createFromSeed (seed : List String) (network : Option Network) (passPhrase : Option String)
      (key wallet : WriteStart)
  | setNewAccountToWallet (wallet : BasicWallet NormalAccount) (request : AccountRequest)
  | rootReply (call : Nat) (reply : Except JsError (Option Node)) (account : WriteStart)
  | accountSaved (call : Nat) (result : Except JsError Unit) (key wallet : WriteStart)
  | keySettles (save : Nat) (result : Except JsError Unit)
  | walletSettles (save : Nat) (result : Except JsError Unit)

namespace ServiceState

def start (repos : Repositories Node) : ServiceState Node := ⟨repos, [], []⟩

def writeKey (repos : Repositories Node) (write : WriteStatus) (id : AccountID) (key : Node) :
    Repositories Node :=
  if write = .written then ⟨repos.keyRepo.setHDNode id key, repos.repo⟩ else repos

def writeWallet (repos : Repositories Node) (write : WriteStatus)
    (wallet : BasicWallet NormalAccount) : Repositories Node :=
  if write = .written then ⟨repos.keyRepo, repos.repo.set wallet.id wallet⟩ else repos

/-- `this._save(wallet, key)`, not awaited, and `return returned`. -/
def saveAndReturn (s : ServiceState Node) (wallet : BasicWallet NormalAccount) (key : Node)
    (returned : BasicWallet NormalAccount) (keyStart walletStart : WriteStart) :
    ServiceState Node :=
  let keyWrite := keyStart.status
  let walletWrite := keyStart.statusAfter walletStart
  ⟨writeWallet (writeKey s.repos keyWrite wallet.id key) walletWrite wallet, s.calls,
    s.saves ++ [⟨wallet, key, returned, keyWrite, walletWrite⟩]⟩

def create (lib : HDNodeLib Node) (s : ServiceState Node) (made : Except JsError Node)
    (keyStart walletStart : WriteStart) : ServiceState Node :=
  match made with
  | .error _ => s
  | .ok node =>
      let wallet : BasicWallet NormalAccount := ⟨idOf lib node, []⟩
      s.saveAndReturn wallet node wallet keyStart walletStart

def setCall (s : ServiceState Node) (call : Nat) (state : AccountCall Node) : ServiceState Node :=
  ⟨s.repos, s.calls.set call state, s.saves⟩

/-- The call goes on with the root node.  A rejection is caught, and taken for
no node. -/
def answerRoot (lib : HDNodeLib Node) (s : ServiceState Node) (call : Nat)
    (wallet : BasicWallet NormalAccount) (request : AccountRequest)
    (reply : Except JsError (Option Node)) (start : WriteStart) : ServiceState Node :=
  match reply with
  | .ok (some rootNode) =>
      match lib.derivePath rootNode (accountPath request.cointype wallet.accounts.length) with
      | .error _ => s.setCall call .ended
      | .ok accountMasterHD =>
          match lib.deriveHardened accountMasterHD wallet.accounts.length with
          | .error _ => s.setCall call .ended
          | .ok child =>
              let account := newNormalAccount (idOf lib child) wallet.accounts.length
                request.coinManager request.informationSource
              { s.setCall call (.account wallet rootNode accountMasterHD account start.status) with
                repos := writeKey s.repos start.status account.id accountMasterHD }
  | _ => s.setCall call .ended

def answerAccount (s : ServiceState Node) (call : Nat) (wallet : BasicWallet NormalAccount)
    (rootNode accountMasterHD : Node) (account : NormalAccount) (write : WriteStatus)
    (result : Except JsError Unit) (keyStart walletStart : WriteStart) :
    Option (ServiceState Node) :=
  match write.settle result with
  | .written =>
      let late : WriteStatus := if write = .pending then .written else .notStarted
      let s' := { s.setCall call .ended with
        repos := writeKey s.repos late account.id accountMasterHD }
      some (s'.saveAndReturn wallet rootNode ⟨wallet.id, wallet.accounts ++ [account]⟩ keyStart
        walletStart)
  | .rejected _ => some (s.setCall call .ended)
  | _ => none

end ServiceState

def lateMachine (lib : HDNodeLib Node) (seeds : SeedLib Node) :
    Machine (ServiceState Node) (ServiceEvent Node) where
  step s
    | .createNew entropy network keyStart walletStart =>
        some (s.create lib (seeds.fromSeedBuffer entropy (network.getD .bitcoin)) keyStart
          walletStart)
    | .createFromSeed seed network passPhrase keyStart walletStart =>
        some (s.create lib (seeds.fromSeedBuffer
          (seeds.mnemonicToSeed (" ".intercalate seed) passPhrase) (network.getD .bitcoin))
          keyStart walletStart)
    | .setNewAccountToWallet wallet request =>
        some ⟨s.repos, s.calls ++ [.root wallet request], s.saves⟩
    | .rootReply call reply start =>
        match s.calls[call]? with
        | some (.root wallet request) => some (s.answerRoot lib call wallet request reply start)
        | _ => none
    | .accountSaved call result keyStart walletStart =>
        match s.calls[call]? with
        | some (.account wallet rootNode accountMasterHD account write) =>
            s.answerAccount call wallet rootNode accountMasterHD account write result keyStart
              walletStart
        | _ => none
    | .keySettles i result =>
        match s.saves[i]? with
        | some save =>
            if save.keyWrite = .pending then
              let write := save.keyWrite.settle result
              some ⟨ServiceState.writeKey s.repos write save.wallet.id save.key, s.calls,
                s.saves.set i { save with keyWrite := write }⟩
            else none
        | none => none
    | .walletSettles i result =>
        match s.saves[i]? with
        | some save =>
            if save.walletWrite = .pending then
              let write := save.walletWrite.settle result
              some ⟨ServiceState.writeWallet s.repos write save.wallet, s.calls,
                s.saves.set i { save with walletWrite := write }⟩
            else none
        | none => none

/-! ## What has been written when a call resolves -/

namespace Save

def Done (save : Save Node) : Prop := save.keyWrite = .written ∧ save.walletWrite = .written

def DoneAsReturned (save : Save Node) : Prop := save.Done ∧ save.wallet = save.returned

end Save

namespace ServiceEvent

def starts : ServiceEvent Node → Option (WriteStart × WriteStart)
  | .createNew _ _ keyStart walletStart => some (keyStart, walletStart)
  | .createFromSeed _ _ _ keyStart walletStart => some (keyStart, walletStart)
  | .accountSaved _ _ keyStart walletStart => some (keyStart, walletStart)
  | _ => none

def Resolves (seeds : SeedLib Node) (s : ServiceState Node) : ServiceEvent Node → Prop
  | .createNew entropy network _ _ =>
      ∃ node, seeds.fromSeedBuffer entropy (network.getD .bitcoin) = .ok node
  | .createFromSeed seed network passPhrase _ _ =>
      ∃ node, seeds.fromSeedBuffer (seeds.mnemonicToSeed (" ".intercalate seed) passPhrase)
        (network.getD .bitcoin) = .ok node
  | .accountSaved call result _ _ => ∃ wallet rootNode accountMasterHD account write,
      s.calls[call]? = some (.account wallet rootNode accountMasterHD account write) ∧
        write.settle result = .written
  | _ => False

/-- A call that resolves with a wallet has its two writes done at once. -/
def AtOnce (seeds : SeedLib Node) (s : ServiceState Node) (event : ServiceEvent Node) : Prop :=
  event.Resolves seeds s → event.starts = some (.written, .written)

def IsCreation : ServiceEvent Node → Prop
  | .createNew _ _ _ _ => True
  | .createFromSeed _ _ _ _ _ => True
  | _ => False

end ServiceEvent

section Steps

variable {lib : HDNodeLib Node} {seeds : SeedLib Node} {s t : ServiceState Node}
  {event : ServiceEvent Node}

theorem status_eq_written_iff {keyStart walletStart : WriteStart} :
    keyStart.status = .written ∧ keyStart.statusAfter walletStart = .written ↔
      keyStart = .written ∧ walletStart = .written := by
  cases keyStart <;> cases walletStart <;> simp [WriteStart.status, WriteStart.statusAfter]

/-- What a step does to the saves: it adds one when a call resolves; otherwise
it leaves them, or settles a write that was waiting. -/
inductive SavesStep (seeds : SeedLib Node) (s : ServiceState Node) (event : ServiceEvent Node)
    (t : ServiceState Node) : Prop
  | same (hresolves : ¬ event.Resolves seeds s) (h : t.saves = s.saves)
  | settled (hresolves : ¬ event.Resolves seeds s) (save : Save Node) (hmem : save ∈ s.saves)
      (h : ¬ save.Done)
  | added (hresolves : event.Resolves seeds s) (wallet returned : BasicWallet NormalAccount)
      (key : Node) (keyStart walletStart : WriteStart)
      (hstarts : event.starts = some (keyStart, walletStart))
      (hreturned : wallet = returned ↔ event.IsCreation)
      (hkept : keyStart = .written → ∃ node, t.repos.keyRepo.getHDNode returned.id = some node)
      (h : t.saves = s.saves ++
        [⟨wallet, key, returned, keyStart.status, keyStart.statusAfter walletStart⟩])

theorem saveAndReturn_kept (s : ServiceState Node) (wallet : BasicWallet NormalAccount) (key : Node)
    (returned : BasicWallet NormalAccount) {keyStart : WriteStart} (walletStart : WriteStart)
    (h : keyStart = .written) :
    ∃ node, (s.saveAndReturn wallet key returned keyStart walletStart).repos.keyRepo.getHDNode
      wallet.id = some node := by
  subst h
  refine ⟨key, ?_⟩
  simp only [ServiceState.saveAndReturn, ServiceState.writeWallet, ServiceState.writeKey,
    WriteStart.status]
  split <;> exact InsertionMap.get_set_self _ _ _

theorem savesStep_create {made : Except JsError Node} {keyStart walletStart : WriteStart}
    (hresolves : event.Resolves seeds s ↔ ∃ node, made = .ok node)
    (hstarts : event.starts = some (keyStart, walletStart)) (hcreation : event.IsCreation) :
    SavesStep seeds s event (s.create lib made keyStart walletStart) := by
  cases made with
  | error e =>
      refine .same ?_ rfl
      rw [hresolves]
      rintro ⟨node, hnode⟩
      cases hnode
  | ok node =>
      exact .added (hresolves.mpr ⟨node, rfl⟩) _ _ node keyStart walletStart hstarts
        (iff_of_true rfl hcreation) (saveAndReturn_kept s _ node _ walletStart) rfl

theorem saves_answerRoot (lib : HDNodeLib Node) (s : ServiceState Node) (call : Nat)
    (wallet : BasicWallet NormalAccount) (request : AccountRequest)
    (reply : Except JsError (Option Node)) (start : WriteStart) :
    (s.answerRoot lib call wallet request reply start).saves = s.saves := by
  unfold ServiceState.answerRoot
  split
  · split
    · rfl
    · split <;> rfl
  · rfl

theorem savesStep_answerAccount {call : Nat} {wallet : BasicWallet NormalAccount}
    {rootNode accountMasterHD : Node} {account : NormalAccount} {write : WriteStatus}
    {result : Except JsError Unit} {keyStart walletStart : WriteStart}
    (hcall : s.calls[call]? = some (.account wallet rootNode accountMasterHD account write))
    (h : s.answerAccount call wallet rootNode accountMasterHD account write result keyStart
      walletStart = some t) :
    SavesStep seeds s (.accountSaved call result keyStart walletStart) t := by
  simp only [ServiceState.answerAccount] at h
  split at h
  · rename_i hwrite
    obtain rfl := Option.some.inj h
    refine .added ⟨wallet, rootNode, accountMasterHD, account, write, hcall, hwrite⟩ wallet
      ⟨wallet.id, wallet.accounts ++ [account]⟩ rootNode keyStart walletStart rfl ?_
      (saveAndReturn_kept _ wallet rootNode _ walletStart) rfl
    refine iff_of_false ?_ id
    intro hsame
    have hlength := congrArg (fun w : BasicWallet NormalAccount => w.accounts.length) hsame
    simp at hlength
  · rename_i e hwrite
    obtain rfl := Option.some.inj h
    refine .same ?_ rfl
    rintro ⟨_, _, _, _, _, hcall', hwrite'⟩
    rw [hcall] at hcall'
    cases hcall'
    rw [hwrite] at hwrite'
    cases hwrite'
  · cases h

inductive LateStep (lib : HDNodeLib Node) (seeds : SeedLib Node) (s : ServiceState Node) :
    ServiceEvent Node → ServiceState Node → Prop
  | create {event : ServiceEvent Node} {made : Except JsError Node}
      {keyStart walletStart : WriteStart}
      (hresolves : event.Resolves seeds s ↔ ∃ node, made = .ok node)
      (hstarts : event.starts = some (keyStart, walletStart)) (hcreation : event.IsCreation) :
      LateStep lib seeds s event (s.create lib made keyStart walletStart)
  | called (wallet : BasicWallet NormalAccount) (request : AccountRequest) :
      LateStep lib seeds s (.setNewAccountToWallet wallet request)
        ⟨s.repos, s.calls ++ [.root wallet request], s.saves⟩
  | rootReply {call : Nat} {wallet : BasicWallet NormalAccount} {request : AccountRequest}
      (hcall : s.calls[call]? = some (.root wallet request)) (reply : Except JsError (Option Node))
      (start : WriteStart) :
      LateStep lib seeds s (.rootReply call reply start)
        (s.answerRoot lib call wallet request reply start)
  | accountSaved {call : Nat} {wallet : BasicWallet NormalAccount}
      {rootNode accountMasterHD : Node} {account : NormalAccount} {write : WriteStatus}
      {result : Except JsError Unit} {keyStart walletStart : WriteStart} {t : ServiceState Node}
      (hcall : s.calls[call]? = some (.account wallet rootNode accountMasterHD account write))
      (h : s.answerAccount call wallet rootNode accountMasterHD account write result keyStart
        walletStart = some t) :
      LateStep lib seeds s (.accountSaved call result keyStart walletStart) t
  | keySettles {i : Nat} {save : Save Node} (hsave : s.saves[i]? = some save)
      (hpending : save.keyWrite = .pending) (result : Except JsError Unit) :
      LateStep lib seeds s (.keySettles i result)
        ⟨ServiceState.writeKey s.repos (save.keyWrite.settle result) save.wallet.id save.key,
          s.calls, s.saves.set i { save with keyWrite := save.keyWrite.settle result }⟩
  | walletSettles {i : Nat} {save : Save Node} (hsave : s.saves[i]? = some save)
      (hpending : save.walletWrite = .pending) (result : Except JsError Unit) :
      LateStep lib seeds s (.walletSettles i result)
        ⟨ServiceState.writeWallet s.repos (save.walletWrite.settle result) save.wallet,
          s.calls, s.saves.set i { save with walletWrite := save.walletWrite.settle result }⟩

theorem late_step_cases (hstep : (lateMachine lib seeds).step s event = some t) :
    LateStep lib seeds s event t := by
  cases event with
  | createNew entropy network keyStart walletStart =>
      obtain rfl := Option.some.inj hstep
      exact .create Iff.rfl rfl True.intro
  | createFromSeed seed network passPhrase keyStart walletStart =>
      obtain rfl := Option.some.inj hstep
      exact .create Iff.rfl rfl True.intro
  | setNewAccountToWallet wallet request =>
      obtain rfl := Option.some.inj hstep
      exact .called wallet request
  | rootReply call reply start =>
      simp only [lateMachine] at hstep
      split at hstep
      · rename_i hcall
        obtain rfl := Option.some.inj hstep
        exact .rootReply hcall reply start
      · cases hstep
  | accountSaved call result keyStart walletStart =>
      simp only [lateMachine] at hstep
      split at hstep
      · rename_i hcall
        exact .accountSaved hcall hstep
      · cases hstep
  | keySettles i result =>
      simp only [lateMachine] at hstep
      split at hstep
      · rename_i save hsave
        obtain ⟨hpending, ht⟩ := Option.ite_none_right_eq_some.mp hstep
        obtain rfl := Option.some.inj ht
        exact .keySettles hsave hpending result
      · cases hstep
  | walletSettles i result =>
      simp only [lateMachine] at hstep
      split at hstep
      · rename_i save hsave
        obtain ⟨hpending, ht⟩ := Option.ite_none_right_eq_some.mp hstep
        obtain rfl := Option.some.inj ht
        exact .walletSettles hsave hpending result
      · cases hstep

theorem step_saves (hstep : (lateMachine lib seeds).step s event = some t) :
    SavesStep seeds s event t := by
  cases late_step_cases hstep with
  | create hresolves hstarts hcreation => exact savesStep_create hresolves hstarts hcreation
  | called wallet request => exact .same id rfl
  | rootReply hcall reply start => exact .same id (saves_answerRoot lib s _ _ _ reply start)
  | accountSaved hcall h => exact savesStep_answerAccount hcall h
  | keySettles hsave hpending result =>
      refine .settled id _ (List.mem_of_getElem? hsave) ?_
      rintro ⟨hwritten, -⟩
      rw [hpending] at hwritten
      cases hwritten
  | walletSettles hsave hpending result =>
      refine .settled id _ (List.mem_of_getElem? hsave) ?_
      rintro ⟨-, hwritten⟩
      rw [hpending] at hwritten
      cases hwritten

/-- As long as all saves are done, a step keeps them so exactly when it does not
resolve a call whose writes are still to be done. -/
theorem step_done_iff (hs : ∀ save ∈ s.saves, save.Done)
    (hstep : (lateMachine lib seeds).step s event = some t) :
    (∀ save ∈ t.saves, save.Done) ↔ event.AtOnce seeds s := by
  cases step_saves hstep with
  | same hresolves h =>
      rw [h]
      exact iff_of_true hs fun hr => absurd hr hresolves
  | settled hresolves save hmem h => exact absurd (hs save hmem) h
  | added hresolves wallet returned key keyStart walletStart hstarts hreturned hkept h =>
      rw [h, List.forall_mem_append, and_iff_right hs, List.forall_mem_singleton, Save.Done,
        status_eq_written_iff, ServiceEvent.AtOnce, imp_iff_right hresolves, hstarts,
        Option.some.injEq, Prod.mk.injEq]

theorem step_doneAsReturned_iff (hs : ∀ save ∈ s.saves, save.DoneAsReturned)
    (hstep : (lateMachine lib seeds).step s event = some t) :
    (∀ save ∈ t.saves, save.DoneAsReturned) ↔
      event.AtOnce seeds s ∧ (event.Resolves seeds s → event.IsCreation) := by
  have hdone := step_done_iff (fun save hmem => (hs save hmem).1) hstep
  cases step_saves hstep with
  | same hresolves h =>
      rw [h]
      exact iff_of_true hs ⟨fun hr => absurd hr hresolves, fun hr => absurd hr hresolves⟩
  | settled hresolves save hmem h => exact absurd (hs save hmem).1 h
  | added hresolves wallet returned key keyStart walletStart hstarts hreturned hkept h =>
      rw [← hdone, h, List.forall_mem_append, and_iff_right hs, List.forall_mem_append,
        and_iff_right fun save hmem => (hs save hmem).1, List.forall_mem_singleton,
        List.forall_mem_singleton, imp_iff_right hresolves, ← hreturned]
      rfl

def KeysGrow (r r' : Repositories Node) : Prop :=
  ∀ id, (∃ node, r.keyRepo.getHDNode id = some node) → ∃ node, r'.keyRepo.getHDNode id = some node

theorem KeysGrow.refl (r : Repositories Node) : KeysGrow r r := fun _ => id

theorem KeysGrow.trans {r r' r'' : Repositories Node} (h : KeysGrow r r') (h' : KeysGrow r' r'') :
    KeysGrow r r'' := fun id hid => h' id (h id hid)

theorem keysGrow_writeKey (r : Repositories Node) (write : WriteStatus) (id : AccountID)
    (key : Node) : KeysGrow r (ServiceState.writeKey r write id key) := by
  unfold ServiceState.writeKey
  split
  · rintro id' ⟨node, hnode⟩
    by_cases hid : id' = id
    · exact ⟨key, hid ▸ InsertionMap.get_set_self _ _ _⟩
    · exact ⟨node, (InsertionMap.get_set_of_ne _ hid _).trans hnode⟩
  · exact .refl r

theorem keysGrow_writeWallet (r : Repositories Node) (write : WriteStatus)
    (wallet : BasicWallet NormalAccount) :
    KeysGrow r (ServiceState.writeWallet r write wallet) := by
  unfold ServiceState.writeWallet
  split <;> exact .refl r

theorem keysGrow_saveAndReturn (s : ServiceState Node) (wallet : BasicWallet NormalAccount)
    (key : Node) (returned : BasicWallet NormalAccount) (keyStart walletStart : WriteStart) :
    KeysGrow s.repos (s.saveAndReturn wallet key returned keyStart walletStart).repos :=
  (keysGrow_writeKey _ _ _ _).trans (keysGrow_writeWallet _ _ _)

theorem keysGrow_create (s : ServiceState Node) (made : Except JsError Node)
    (keyStart walletStart : WriteStart) :
    KeysGrow s.repos (s.create lib made keyStart walletStart).repos := by
  cases made with
  | error e => exact .refl _
  | ok node => exact keysGrow_saveAndReturn _ _ _ _ _ _

theorem keysGrow_answerRoot (s : ServiceState Node) (call : Nat)
    (wallet : BasicWallet NormalAccount) (request : AccountRequest)
    (reply : Except JsError (Option Node)) (start : WriteStart) :
    KeysGrow s.repos (s.answerRoot lib call wallet request reply start).repos := by
  unfold ServiceState.answerRoot
  split
  · split
    · exact .refl _
    · split
      · exact .refl _
      · exact keysGrow_writeKey _ _ _ _
  · exact .refl _

theorem keysGrow_answerAccount {call : Nat} {wallet : BasicWallet NormalAccount}
    {rootNode accountMasterHD : Node} {account : NormalAccount} {write : WriteStatus}
    {result : Except JsError Unit} {keyStart walletStart : WriteStart}
    (h : s.answerAccount call wallet rootNode accountMasterHD account write result keyStart
      walletStart = some t) : KeysGrow s.repos t.repos := by
  simp only [ServiceState.answerAccount] at h
  split at h
  · obtain rfl := Option.some.inj h
    exact KeysGrow.trans (keysGrow_writeKey s.repos _ _ _)
      (keysGrow_saveAndReturn ⟨_, _, _⟩ _ _ _ _ _)
  · obtain rfl := Option.some.inj h
    exact .refl _
  · cases h

theorem keysGrow_step (hstep : (lateMachine lib seeds).step s event = some t) :
    KeysGrow s.repos t.repos := by
  cases late_step_cases hstep with
  | create hresolves hstarts hcreation => exact keysGrow_create _ _ _ _
  | called wallet request => exact .refl _
  | rootReply hcall reply start => exact keysGrow_answerRoot _ _ _ _ _ _
  | accountSaved hcall h => exact keysGrow_answerAccount h
  | keySettles hsave hpending result => exact keysGrow_writeKey _ _ _ _
  | walletSettles hsave hpending result => exact keysGrow_writeWallet _ _ _

/-- What is saved is done, and the root node is found under the id of the wallet
that was returned. -/
def RootsFound (s : ServiceState Node) : Prop :=
  ∀ save ∈ s.saves, save.Done ∧ ∃ node, s.repos.keyRepo.getHDNode save.returned.id = some node

theorem RootsFound.step (hs : RootsFound s) (hevent : event.AtOnce seeds s)
    (hstep : (lateMachine lib seeds).step s event = some t) : RootsFound t := by
  have hdone := (step_done_iff (fun save hmem => (hs save hmem).1) hstep).mpr hevent
  intro save hmem
  refine ⟨hdone save hmem, ?_⟩
  have hold : save ∈ s.saves → ∃ node, t.repos.keyRepo.getHDNode save.returned.id = some node :=
    fun h => keysGrow_step hstep _ (hs save h).2
  cases step_saves hstep with
  | same hresolves h => exact hold (h ▸ hmem)
  | settled hresolves save' hmem' h => exact absurd (hs save' hmem').1 h
  | added hresolves wallet returned key keyStart walletStart hstarts hreturned hkept h =>
      rw [h, List.mem_append, List.mem_singleton] at hmem
      rcases hmem with hmem | rfl
      · exact hold hmem
      · have hwritten := Option.some.inj (hstarts.symm.trans (hevent hresolves))
        exact hkept (congrArg Prod.fst hwritten)

end Steps

/-! ## The repositories in memory -/

section InMemory

variable {lib : HDNodeLib Node} {seeds : SeedLib Node}

theorem repos_create (s : ServiceState Node) (made : Except JsError Node) :
    (s.create lib made .written .written).repos =
      savedBy s.repos (do return createFromNode lib s.repos (← made)) := by
  cases made <;> rfl

/-- The events of a call over the in-memory repositories, where every write is
done at once.  A call that ends early stops before the last one. -/
def inMemoryEvents (s : ServiceState Node) : ServiceLabel Node → List (ServiceEvent Node)
  | .createNew entropy network => [.createNew entropy network .written .written]
  | .createFromSeed seed network passPhrase =>
      [.createFromSeed seed network passPhrase .written .written]
  | .setNewAccountToWallet wallet informationSource coinManager cointype =>
      [.setNewAccountToWallet wallet ⟨informationSource, coinManager, cointype⟩,
        .rootReply s.calls.length (.ok (s.repos.keyRepo.getHDNode wallet.id)) .written,
        .accountSaved s.calls.length (.ok ()) .written .written]
  | .createFromHD _ _ _ _ => []

theorem run_setNewAccountToWallet (lib : HDNodeLib Node) (seeds : SeedLib Node)
    (s : ServiceState Node) (wallet : BasicWallet NormalAccount) (request : AccountRequest)
    (reply : Except JsError (Option Node)) (start : WriteStart) :
    (lateMachine lib seeds).run s
        [.setNewAccountToWallet wallet request, .rootReply s.calls.length reply start] =
      some (ServiceState.answerRoot lib ⟨s.repos, s.calls ++ [.root wallet request], s.saves⟩
        s.calls.length wallet request reply start) := by
  simp [lateMachine]

theorem calls_setCall (calls : List (AccountCall Node)) (first second : AccountCall Node) :
    ((calls ++ [first]).set calls.length second)[calls.length]? = some second := by
  simp

theorem step_accountSaved {s : ServiceState Node} {call : Nat} {wallet : BasicWallet NormalAccount}
    {rootNode accountMasterHD : Node} {account : NormalAccount} {write : WriteStatus}
    (hcall : s.calls[call]? = some (.account wallet rootNode accountMasterHD account write))
    (result : Except JsError Unit) (keyStart walletStart : WriteStart) :
    (lateMachine lib seeds).step s (.accountSaved call result keyStart walletStart) =
      s.answerAccount call wallet rootNode accountMasterHD account write result keyStart
        walletStart := by
  simp only [lateMachine, hcall]

/-- Each call of the service is such a run. -/
theorem serviceMachine_inMemory {l : ServiceLabel Node} (hl : l.IsWalletCall)
    (s : ServiceState Node) :
    ∃ events t, events <+: inMemoryEvents s l ∧ (lateMachine lib seeds).run s events = some t ∧
      (serviceMachine lib seeds).step s.repos l = some t.repos := by
  cases l with
  | createNew entropy network =>
      exact ⟨_, _, List.prefix_rfl, rfl, congrArg some (repos_create s _).symm⟩
  | createFromSeed seed network passPhrase =>
      exact ⟨_, _, List.prefix_rfl, rfl, congrArg some (repos_create s _).symm⟩
  | setNewAccountToWallet wallet informationSource coinManager cointype =>
      have htwo := run_setNewAccountToWallet lib seeds s wallet
        ⟨informationSource, coinManager, cointype⟩
        (.ok (s.repos.keyRepo.getHDNode wallet.id)) .written
      cases hroot : s.repos.keyRepo.getHDNode wallet.id with
      | none =>
          refine ⟨_, _, List.prefix_append _ [_], htwo, ?_⟩
          simp [serviceMachine, setNewAccountToWallet, hroot, savedBy, ServiceState.answerRoot,
            ServiceState.setCall]
      | some rootNode =>
          simp only [serviceMachine, setNewAccountToWallet_eq hroot]
          cases hmaster : lib.derivePath rootNode (accountPath cointype wallet.accounts.length) with
          | error e =>
              refine ⟨_, _, List.prefix_append _ [_], htwo, ?_⟩
              simp [hroot, hmaster, savedBy, ServiceState.answerRoot, ServiceState.setCall, bind,
                Except.bind]
          | ok accountMasterHD =>
              cases hchild : lib.deriveHardened accountMasterHD wallet.accounts.length with
              | error e =>
                  refine ⟨_, _, List.prefix_append _ [_], htwo, ?_⟩
                  simp [hroot, hmaster, hchild, savedBy, ServiceState.answerRoot,
                    ServiceState.setCall, bind, Except.bind]
              | ok child =>
                  rw [hroot, ServiceState.answerRoot, hmaster] at htwo
                  simp only [hchild] at htwo
                  apply Exists.intro (inMemoryEvents s _)
                  apply Exists.intro
                  refine ⟨List.prefix_rfl, ?_, ?_⟩
                  · rw [inMemoryEvents, hroot]
                    refine (Machine.run_append _ s [_, _] [_]).trans ?_
                    rw [htwo, Option.bind_some, Machine.run_cons,
                      step_accountSaved (calls_setCall _ _ _), ServiceState.answerAccount]
                    rfl
                  · simp only [bind, Except.bind, hchild]
                    rfl
  | createFromHD masterHD index observableBlockchain coinManager => exact hl.elim

end InMemory

/-- In every state of a run the calls that have resolved with a wallet have
written it and its node, and no such write fails, exactly when all these writes
are done at once.  It is the returned wallet that has been written only as long
as no account is added.  Then, too, a wallet that was returned has its root node
in the key repository. -/
theorem saves_done_iff {lib : HDNodeLib Node} {seeds : SeedLib Node} {repos : Repositories Node}
    {events : List (ServiceEvent Node)} {t : ServiceState Node}
    (hrun : (lateMachine lib seeds).run (.start repos) events = some t) :
    ((∀ earlier u, earlier <+: events →
        (lateMachine lib seeds).run (.start repos) earlier = some u →
        ∀ save ∈ u.saves, save.Done) ↔
      (lateMachine lib seeds).Within (fun s event => event.AtOnce seeds s) (.start repos) events) ∧
    ((∀ earlier u, earlier <+: events →
        (lateMachine lib seeds).run (.start repos) earlier = some u →
        ∀ save ∈ u.saves, save.DoneAsReturned) ↔
      (lateMachine lib seeds).Within
        (fun s event => event.AtOnce seeds s ∧ (event.Resolves seeds s → event.IsCreation))
        (.start repos) events) ∧
    ((lateMachine lib seeds).Within (fun s event => event.AtOnce seeds s) (.start repos) events →
      ∀ save ∈ t.saves, ∃ node, t.repos.keyRepo.getHDNode save.returned.id = some node) := by
  have hnone : ∀ save : Save Node, save ∉ (ServiceState.start repos).saves := fun save =>
    List.not_mem_nil
  refine ⟨Machine.forall_prefix_iff_within (fun _ _ _ => step_done_iff) hrun ?_,
    Machine.forall_prefix_iff_within (fun _ _ _ => step_doneAsReturned_iff) hrun ?_, ?_⟩
  · exact fun save hmem => absurd hmem (hnone save)
  · exact fun save hmem => absurd hmem (hnone save)
  · intro hwithin save hmem
    have hstart : RootsFound (ServiceState.start repos) := fun save hmem => absurd hmem (hnone save)
    exact (Machine.run_invariant_within (fun _ _ _ hs hevent hstep => hs.step hevent hstep) hrun
      hwithin hstart save hmem).2

theorem create_bitcoin (s : ServiceState SymbolicNode) (keyStart walletStart : WriteStart) :
    (lateMachine SymbolicNode.lib SymbolicNode.seeds).step s
        (.createFromSeed sampleSeed none none keyStart walletStart) =
      some (s.saveAndReturn seedWallet.2 (seedMaster .bitcoin) seedWallet.2 keyStart
        walletStart) := by
  simp only [lateMachine, SymbolicNode.fromSeedBuffer_mnemonicToSeed]
  rfl

theorem saves_done_atOnce : ∃ t,
    (lateMachine SymbolicNode.lib SymbolicNode.seeds).run (.start ⟨.empty, .empty⟩)
        [.createFromSeed sampleSeed none none .written .written] = some t ∧
      ∀ save ∈ t.saves, save.Done ∧
        ∃ node, t.repos.keyRepo.getHDNode save.returned.id = some node := by
  have hrun := (Machine.run_cons_eq_some _).mpr
    ⟨_, create_bitcoin (.start ⟨.empty, .empty⟩) .written .written, Machine.run_nil _ _⟩
  obtain ⟨hdone, -, hroots⟩ := saves_done_iff hrun
  refine ⟨_, hrun, fun save hmem => ⟨?_, ?_⟩⟩
  · exact hdone.mpr ⟨fun _ => rfl, fun _ _ => trivial⟩ _ _ List.prefix_rfl hrun save hmem
  · exact hroots ⟨fun _ => rfl, fun _ _ => trivial⟩ save hmem

/-- A wallet is created while both repositories are slow: the call has resolved,
nothing is written, and the key is never written. -/
theorem resolved_before_written : ∃ t u save save' e,
    (lateMachine SymbolicNode.lib SymbolicNode.seeds).run (.start ⟨.empty, .empty⟩)
        [.createFromSeed sampleSeed none none .pending .pending] = some t ∧
      t.saves = [save] ∧ ¬ save.Done ∧ t.repos.keyRepo.getHDNode save.returned.id = none ∧
      (lateMachine SymbolicNode.lib SymbolicNode.seeds).run t [.keySettles 0 (.error e)] = some u ∧
      u.saves = [save'] ∧ save'.keyWrite = .rejected e := by
  refine ⟨_, _, _, _, ⟨.error, "could not write"⟩, (Machine.run_cons_eq_some _).mpr
    ⟨_, create_bitcoin (.start ⟨.empty, .empty⟩) .pending .pending, rfl⟩, rfl, ?_, rfl, rfl, rfl,
    rfl⟩
  simp [Save.Done, WriteStart.status]

end WalletService

end Walletts
