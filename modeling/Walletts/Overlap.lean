import Mathlib.Algebra.Order.Group.Multiset
import Walletts.LateSave
import Walletts.Lib.TaskList
/-!
# Calls that overlap

Over the repositories in memory a read or a write is done when it is asked for,
but a call of `setNewAccountToWallet` still waits twice, and other calls go on
in between.  It reads the root node first and writes it back last, so it can
undo what another call has written.  This module lets the calls of a service
overlap in every order: none is lost, and they are calls over repositories that
could be slow, and are not.
-/

namespace Walletts

open NormalAccountService

variable {Node : Type}

namespace WalletService

abbrev CallResult := Except JsError (Option (BasicWallet NormalAccount))

/-- Where a call of `setNewAccountToWallet` waits: for the root node, which was
read when the call was made, or for the node of the account, which is written. -/
inductive OpenCall (Node : Type)
  | reading (wallet : BasicWallet NormalAccount) (request : AccountRequest)
      (rootNode : Option Node)
  | saving (wallet : BasicWallet NormalAccount) (request : AccountRequest)
      (rootNode accountMasterHD : Node) (account : NormalAccount)
  | ended

structure EndedCall (Node : Type) where
  call : ServiceLabel Node
  result : CallResult

/-- The calls that wait, and those that have ended, in the order in which they
did. -/
structure MemoryService (Node : Type) where
  repos : Repositories Node
  calls : List (OpenCall Node)
  ended : List (EndedCall Node)

inductive MemoryEvent (Node : Type)
  | call (l : ServiceLabel Node)
  | resume (call : Nat)

def AccountRequest.call (request : AccountRequest) (wallet : BasicWallet NormalAccount) :
    ServiceLabel Node :=
  .setNewAccountToWallet wallet request.informationSource request.coinManager request.cointype

def OpenCall.account? : OpenCall Node → Option AccountID
  | .saving _ _ _ _ account => some account.id
  | _ => none

def Awaited (calls : List (OpenCall Node)) (id : AccountID) : Prop :=
  ∃ call ∈ calls, call.account? = some id

def OpenCall.labels : OpenCall Node → Multiset (ServiceLabel Node)
  | .reading wallet request _ => {request.call wallet}
  | .saving wallet request _ _ _ => {request.call wallet}
  | .ended => 0

def MemoryEvent.call? : MemoryEvent Node → Option (ServiceLabel Node)
  | .call l => some l
  | .resume _ => none

def callsOf (events : List (MemoryEvent Node)) : List (ServiceLabel Node) :=
  events.filterMap MemoryEvent.call?

namespace MemoryService

def made (s : MemoryService Node) : Multiset (ServiceLabel Node) :=
  ((s.ended.map EndedCall.call : List (ServiceLabel Node)) : Multiset (ServiceLabel Node)) +
    (s.calls.map OpenCall.labels).sum

def start : MemoryService Node := ⟨⟨.empty, .empty⟩, [], []⟩

/-- `createNew` and `createFromSeed` do not wait. -/
def created (s : MemoryService Node) (l : ServiceLabel Node)
    (made : Except JsError (Repositories Node × BasicWallet NormalAccount)) :
    MemoryService Node :=
  ⟨savedBy s.repos made, s.calls, s.ended ++ [⟨l, made.map fun made => some made.2⟩]⟩

def endCall (s : MemoryService Node) (call : Nat) (wallet : BasicWallet NormalAccount)
    (request : AccountRequest) (result : CallResult) : MemoryService Node :=
  ⟨s.repos, s.calls.set call .ended, s.ended ++ [⟨request.call wallet, result⟩]⟩

def afterRead (lib : HDNodeLib Node) (s : MemoryService Node) (call : Nat)
    (wallet : BasicWallet NormalAccount) (request : AccountRequest) :
    Option Node → MemoryService Node
  | none => s.endCall call wallet request (.ok none)
  | some rootNode =>
      match lib.derivePath rootNode (accountPath request.cointype wallet.accounts.length) with
      | .error e => s.endCall call wallet request (.error e)
      | .ok accountMasterHD =>
          match createFromHD lib s.repos.keyRepo accountMasterHD wallet.accounts.length
              request.informationSource request.coinManager with
          | .error e => s.endCall call wallet request (.error e)
          | .ok (keyRepo, account) =>
              ⟨⟨keyRepo, s.repos.repo⟩,
                s.calls.set call (.saving wallet request rootNode accountMasterHD account),
                s.ended⟩

def afterSave (s : MemoryService Node) (call : Nat) (wallet : BasicWallet NormalAccount)
    (request : AccountRequest) (rootNode : Node) (account : NormalAccount) :
    MemoryService Node :=
  ⟨save s.repos wallet rootNode, s.calls.set call .ended,
    s.ended ++ [⟨request.call wallet, .ok (some ⟨wallet.id, wallet.accounts ++ [account]⟩)⟩]⟩

end MemoryService

def memoryMachine (lib : HDNodeLib Node) (seeds : SeedLib Node) :
    Machine (MemoryService Node) (MemoryEvent Node) where
  step s
    | .call l =>
        match l with
        | .createNew entropy network =>
            some (s.created l (createNew lib seeds s.repos entropy network))
        | .createFromSeed seed network passPhrase =>
            some (s.created l (createFromSeed lib seeds s.repos seed network passPhrase))
        | .setNewAccountToWallet wallet informationSource coinManager cointype =>
            some ⟨s.repos, s.calls ++ [.reading wallet ⟨informationSource, coinManager, cointype⟩
              (s.repos.keyRepo.getHDNode wallet.id)], s.ended⟩
        -- a call of the account service
        | .createFromHD _ _ _ _ => none
    | .resume call =>
        match s.calls[call]? with
        | some (.reading wallet request rootNode) =>
            some (s.afterRead lib call wallet request rootNode)
        | some (.saving wallet request rootNode _ account) =>
            some (s.afterSave call wallet request rootNode account)
        | _ => none

section Steps

variable {lib : HDNodeLib Node} {seeds : SeedLib Node}
  {s t : MemoryService Node} {event : MemoryEvent Node}

inductive MemoryStep (lib : HDNodeLib Node) (seeds : SeedLib Node) (s : MemoryService Node) :
    MemoryEvent Node → MemoryService Node → Prop
  | created {l : ServiceLabel Node} {seed : Buffer} {network : Network}
      (hcreation : l.creation? seeds = some (seed, network)) :
      MemoryStep lib seeds s (.call l) (s.created l
        (do return createFromNode lib s.repos (← seeds.fromSeedBuffer seed network)))
  | begun (wallet : BasicWallet NormalAccount) (request : AccountRequest) :
      MemoryStep lib seeds s (.call (request.call wallet))
        ⟨s.repos, s.calls ++ [.reading wallet request (s.repos.keyRepo.getHDNode wallet.id)],
          s.ended⟩
  | notFound {call : Nat} {wallet : BasicWallet NormalAccount} {request : AccountRequest}
      (hcall : s.calls[call]? = some (.reading wallet request none)) :
      MemoryStep lib seeds s (.resume call) (s.endCall call wallet request (.ok none))
  | refused {call : Nat} {wallet : BasicWallet NormalAccount} {request : AccountRequest}
      {rootNode : Node} {e : JsError}
      (hcall : s.calls[call]? = some (.reading wallet request (some rootNode)))
      (hrefused : (do
        let accountMasterHD ←
          lib.derivePath rootNode (accountPath request.cointype wallet.accounts.length)
        lib.deriveHardened accountMasterHD wallet.accounts.length) = .error e) :
      MemoryStep lib seeds s (.resume call) (s.endCall call wallet request (.error e))
  | written {call : Nat} {wallet : BasicWallet NormalAccount} {request : AccountRequest}
      {rootNode accountMasterHD child : Node}
      (hcall : s.calls[call]? = some (.reading wallet request (some rootNode)))
      (hmaster : lib.derivePath rootNode (accountPath request.cointype wallet.accounts.length) =
        .ok accountMasterHD)
      (hchild : lib.deriveHardened accountMasterHD wallet.accounts.length = .ok child) :
      MemoryStep lib seeds s (.resume call)
        ⟨⟨s.repos.keyRepo.setHDNode (idOf lib child) accountMasterHD, s.repos.repo⟩,
          s.calls.set call (.saving wallet request rootNode accountMasterHD
            (newNormalAccount (idOf lib child) wallet.accounts.length request.coinManager
              request.informationSource)),
          s.ended⟩
  | saved {call : Nat} {wallet : BasicWallet NormalAccount} {request : AccountRequest}
      {rootNode accountMasterHD : Node} {account : NormalAccount}
      (hcall : s.calls[call]? =
        some (.saving wallet request rootNode accountMasterHD account)) :
      MemoryStep lib seeds s (.resume call) (s.afterSave call wallet request rootNode account)

theorem memoryStep_afterRead {call : Nat} {wallet : BasicWallet NormalAccount}
    {request : AccountRequest} {rootNode : Option Node}
    (hcall : s.calls[call]? = some (.reading wallet request rootNode)) :
    MemoryStep lib seeds s (.resume call) (s.afterRead lib call wallet request rootNode) := by
  cases rootNode with
  | none => exact .notFound hcall
  | some rootNode =>
      rw [MemoryService.afterRead]
      cases hmaster : lib.derivePath rootNode
          (accountPath request.cointype wallet.accounts.length) with
      | error e =>
          apply MemoryStep.refused hcall
          rw [hmaster]
          rfl
      | ok accountMasterHD =>
          dsimp only [createFromHD]
          cases hchild : lib.deriveHardened accountMasterHD wallet.accounts.length with
          | error e =>
              apply MemoryStep.refused hcall
              rw [hmaster]
              exact hchild
          | ok child => exact .written hcall hmaster hchild

theorem memory_step_cases (h : (memoryMachine lib seeds).step s event = some t) :
    MemoryStep lib seeds s event t := by
  cases event with
  | call l =>
      cases l with
      | createNew entropy network =>
          obtain rfl := Option.some.inj h
          exact .created rfl
      | createFromSeed seed network passPhrase =>
          obtain rfl := Option.some.inj h
          exact .created rfl
      | setNewAccountToWallet wallet informationSource coinManager cointype =>
          obtain rfl := Option.some.inj h
          exact .begun wallet ⟨informationSource, coinManager, cointype⟩
      | createFromHD masterHD index observableBlockchain coinManager => cases h
  | resume call =>
      simp only [memoryMachine] at h
      split at h
      · rename_i wallet request rootNode hcall
        obtain rfl := Option.some.inj h
        exact memoryStep_afterRead hcall
      · rename_i wallet request rootNode accountMasterHD account hcall
        obtain rfl := Option.some.inj h
        exact .saved hcall
      · cases h

end Steps

/-! ## No call is lost -/

section Made

variable {lib : HDNodeLib Node} {seeds : SeedLib Node} {s t : MemoryService Node}
  {event : MemoryEvent Node} {events : List (MemoryEvent Node)}

theorem made_end {call : Nat} {old : OpenCall Node} {l : ServiceLabel Node}
    (hcall : s.calls[call]? = some old) (hlabels : old.labels = {l}) (repos : Repositories Node)
    (result : CallResult) :
    (⟨repos, s.calls.set call .ended, s.ended ++ [⟨l, result⟩]⟩ : MemoryService Node).made =
      s.made := by
  have hset := TaskList.sum_map_set OpenCall.labels hcall .ended
  rw [hlabels, OpenCall.labels, add_zero] at hset
  simp only [MemoryService.made, List.map_append, List.map_cons, List.map_nil]
  rw [← Multiset.coe_add, Multiset.coe_singleton, add_assoc,
    add_comm ({l} : Multiset (ServiceLabel Node)), hset]

theorem made_step (h : (memoryMachine lib seeds).step s event = some t) :
    t.made = s.made + (event.call?.toList : Multiset (ServiceLabel Node)) := by
  cases memory_step_cases h with
  | created hcreation =>
      simp [MemoryService.made, MemoryService.created, MemoryEvent.call?, ← Multiset.coe_add,
        add_right_comm]
  | begun wallet request =>
      simp [MemoryService.made, MemoryEvent.call?, OpenCall.labels, add_assoc]
  | notFound hcall => exact (made_end hcall rfl _ _).trans (add_zero _).symm
  | refused hcall hrefused => exact (made_end hcall rfl _ _).trans (add_zero _).symm
  | @written call wallet request rootNode accountMasterHD child hcall hmaster hchild =>
      have hset := TaskList.sum_map_set OpenCall.labels hcall (.saving wallet request rootNode
        accountMasterHD (newNormalAccount (idOf lib child) wallet.accounts.length
          request.coinManager request.informationSource))
      exact (congrArg _ (add_right_cancel hset)).trans (add_zero _).symm
  | saved hcall => exact (made_end hcall rfl _ _).trans (add_zero _).symm

theorem made_run (hrun : (memoryMachine lib seeds).run s events = some t) :
    t.made = s.made + (callsOf events : Multiset (ServiceLabel Node)) := by
  induction hrun using Machine.run_induction with
  | nil s => exact (add_zero _).symm
  | @cons s u t event events hstep _ ih =>
      rw [ih, made_step hstep, add_assoc, Multiset.coe_add]
      cases event <;> rfl

theorem ended_step (h : (memoryMachine lib seeds).step s event = some t) :
    s.ended <+: t.ended := by
  cases memory_step_cases h with
  | created hcreation => exact List.prefix_append _ _
  | begun wallet request => exact List.prefix_rfl
  | notFound hcall => exact List.prefix_append _ _
  | refused hcall hrefused => exact List.prefix_append _ _
  | written hcall hmaster hchild => exact List.prefix_rfl
  | saved hcall => exact List.prefix_append _ _

theorem ended_run (hrun : (memoryMachine lib seeds).run s events = some t) :
    s.ended <+: t.ended := by
  apply Machine.run_relation (R := fun s t => s.ended <+: t.ended) _ _ _ hrun
  · exact fun _ => List.prefix_rfl
  · exact fun _ _ _ => List.IsPrefix.trans
  · exact fun _ _ _ => ended_step

end Made

/-! ## Repositories that answer at once -/

/-- The call, over repositories that could be slow. -/
def OpenCall.late : OpenCall Node → AccountCall Node
  | .reading wallet request _ => .root wallet request
  | .saving wallet _ rootNode accountMasterHD account =>
      .account wallet rootNode accountMasterHD account .written
  | .ended => .ended

structure LateAs (s : MemoryService Node) (late : ServiceState Node) : Prop where
  repos : late.repos = s.repos
  calls : late.calls = s.calls.map OpenCall.late

section Late

variable {lib : HDNodeLib Node} {seeds : SeedLib Node} {s t : MemoryService Node}
  {event : MemoryEvent Node} {events : List (MemoryEvent Node)} {late : ServiceState Node}

theorem LateAs.getElem? (h : LateAs s late) {call : Nat} {state : OpenCall Node}
    (hcall : s.calls[call]? = some state) : late.calls[call]? = some state.late := by
  rw [h.calls, List.getElem?_map, hcall, Option.map_some]

theorem LateAs.set (h : LateAs s late) (call : Nat) (state : OpenCall Node) :
    late.calls.set call state.late = (s.calls.set call state).map OpenCall.late := by
  rw [h.calls, List.map_set]

theorem LateAs.endCall (h : LateAs s late) (call : Nat) (wallet : BasicWallet NormalAccount)
    (request : AccountRequest) (result : CallResult) :
    LateAs (s.endCall call wallet request result) (late.setCall call .ended) :=
  ⟨h.repos, h.set call .ended⟩

theorem LateAs.rootReply (h : LateAs s late) {call : Nat} {wallet : BasicWallet NormalAccount}
    {request : AccountRequest} {rootNode : Option Node}
    (hcall : s.calls[call]? = some (.reading wallet request rootNode)) :
    (lateMachine lib seeds).step late (.rootReply call (.ok rootNode) .written) =
      some (late.answerRoot lib call wallet request (.ok rootNode) .written) := by
  simp only [lateMachine, h.getElem? hcall, OpenCall.late]

theorem LateAs.created (h : LateAs s late) (l : ServiceLabel Node)
    (made : Except JsError Node) :
    LateAs (s.created l (do return createFromNode lib s.repos (← made)))
      (late.create lib made .written .written) := by
  obtain ⟨hrepos, hcalls⟩ := h
  cases made with
  | error e => exact ⟨hrepos, hcalls⟩
  | ok node =>
      refine ⟨?_, hcalls⟩
      show save late.repos ⟨idOf lib node, []⟩ node = save s.repos ⟨idOf lib node, []⟩ node
      rw [hrepos]

theorem LateAs.step (h : LateAs s late) (hstep : (memoryMachine lib seeds).step s event = some t) :
    ∃ event' late', (lateMachine lib seeds).step late event' = some late' ∧ LateAs t late' := by
  cases memory_step_cases hstep with
  | @created l seed network hcreation =>
      cases l with
      | createNew entropy given =>
          cases hcreation
          exact ⟨.createNew seed given .written .written, _, rfl, h.created _ _⟩
      | createFromSeed words given passPhrase =>
          cases hcreation
          exact ⟨.createFromSeed words given passPhrase .written .written, _, rfl,
            h.created _ _⟩
      | setNewAccountToWallet => cases hcreation
      | createFromHD => cases hcreation
  | begun wallet request =>
      refine ⟨.setNewAccountToWallet wallet request, _, rfl, h.repos, ?_⟩
      simp [h.calls, OpenCall.late]
  | notFound hcall => exact ⟨_, _, h.rootReply hcall, h.endCall _ _ _ _⟩
  | @refused call wallet request rootNode e hcall hrefused =>
      refine ⟨_, _, h.rootReply hcall, ?_⟩
      simp only [ServiceState.answerRoot]
      cases hmaster : lib.derivePath rootNode
          (accountPath request.cointype wallet.accounts.length) with
      | error e' => exact h.endCall _ _ _ _
      | ok accountMasterHD =>
          simp only [hmaster, bind, Except.bind] at hrefused
          simp only [hrefused]
          exact h.endCall _ _ _ _
  | @written call wallet request rootNode accountMasterHD child hcall hmaster hchild =>
      refine ⟨_, _, h.rootReply hcall, ?_⟩
      simp only [ServiceState.answerRoot, hmaster, hchild]
      refine ⟨?_, h.set call (.saving wallet request rootNode accountMasterHD _)⟩
      simp [ServiceState.writeKey, WriteStart.status, h.repos, newNormalAccount]
  | @saved call wallet request rootNode accountMasterHD account hcall =>
      have hsaved : (lateMachine lib seeds).step late
          (.accountSaved call (.ok ()) .written .written) =
            some ((late.setCall call .ended).saveAndReturn wallet rootNode
              ⟨wallet.id, wallet.accounts ++ [account]⟩ .written .written) := by
        simp only [lateMachine, h.getElem? hcall]
        rfl
      refine ⟨_, _, hsaved, ?_, h.set call .ended⟩
      show save late.repos wallet rootNode = save s.repos wallet rootNode
      rw [h.repos]

/-- The calls over the repositories in memory are those over slow ones, with every
write done at once. -/
theorem memory_run_late (hrun : (memoryMachine lib seeds).run s events = some t)
    (h : LateAs s late) :
    ∃ events' late', (lateMachine lib seeds).run late events' = some late' ∧ LateAs t late' := by
  induction hrun using Machine.run_induction generalizing late with
  | nil s => exact ⟨[], late, rfl, h⟩
  | cons hstep _ ih =>
      obtain ⟨event', late', hlate, hnext⟩ := h.step hstep
      obtain ⟨events', late'', hrest, hend⟩ := ih hnext
      exact ⟨event' :: events', late'', (Machine.run_cons_eq_some _).mpr ⟨late', hlate, hrest⟩,
        hend⟩

end Late

end WalletService

end Walletts
