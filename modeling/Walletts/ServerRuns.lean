import Walletts.WalletServer
/-!
# Runs of the server

What holds however the requests to the server, the steps of its handlers and
the answers of the proxy are mixed: what the repositories keep, what becomes of
the server once it recovers a wallet, and that no request is left waiting
before that.
-/

namespace Walletts

open NormalAccountService GrpcServer WalletService

variable {Node : Type}

namespace WalletServer

section Runs

variable {lib : HDNodeLib Node} {seeds : SeedLib Node} {s t u : WalletServer Node}
  {event : WalletServerEvent} {events : List WalletServerEvent}

theorem serverOk_run (hlaw : lib.Lawful)
    (hrun : (machine lib seeds).run start events = some s) : ServerOk lib s :=
  Machine.run_invariant (fun _ _ _ hs hstep => hs.step hlaw hstep) hrun (serverOk_start lib)

/-! ## The repositories -/

def Makes (lib : HDNodeLib Node) (seeds : SeedLib Node) (id : AccountID) :
    WalletServerEvent → Prop
  | .createWallet req entropy => ∃ node, seeds.fromSeedBuffer (seedOf seeds req entropy)
      ((networkOf req.network).getD .bitcoin) = .ok node ∧ idOf lib node = id
  | _ => False

theorem repos_step (hs : ServerOk lib s) (hlaw : lib.Lawful)
    (hstep : (machine lib seeds).step s event = some t) :
    (∃ req entropy, event = .createWallet req entropy ∧
      t.repos = savedBy s.repos (creation lib seeds s.repos req entropy)) ∨
    (∀ id, ¬ Makes lib seeds id event) ∧ t.repos = s.repos := by
  cases step_cases hstep with
  | createWallet req entropy hidle => exact .inl ⟨req, entropy, rfl, rfl⟩
  | setupBlockchainProxy req client observable hidle => exact .inr ⟨fun _ h => h, rfl⟩
  | answered hturn hidle hcall hanswer hserver =>
      refine .inr ⟨fun _ h => ?_, rfl⟩
      cases event <;> first | exact h | cases hturn
  | notPruned hidle hcall => exact .inr ⟨fun _ h => h, rfl⟩
  | found hidle hcall nextRef => exact .inr ⟨fun _ h => h, rfl⟩
  | synced hsyncing hsync hafter =>
      obtain ⟨-, -, heq⟩ := hs.synced hlaw hsyncing hsync
      obtain rfl := Option.some.inj (heq.symm.trans hafter)
      exact .inr ⟨fun _ h => h, rfl⟩

theorem holds_step (hs : ServerOk lib s) (hlaw : lib.Lawful)
    (hstep : (machine lib seeds).step s event = some t) (id : AccountID) :
    (∃ node, t.repos.keyRepo.getHDNode id = some node) ↔
      (∃ node, s.repos.keyRepo.getHDNode id = some node) ∨ Makes lib seeds id event := by
  obtain ⟨req, entropy, rfl, hrepos⟩ | ⟨hmakes, hrepos⟩ := repos_step hs hlaw hstep
  · rw [hrepos, creation_eq, Makes]
    cases seeds.fromSeedBuffer (seedOf seeds req entropy)
        ((networkOf req.network).getD .bitcoin) with
    | error e => simp [savedBy, Except.map]
    | ok node =>
        have hget : (createFromNode lib s.repos node).1.keyRepo.getHDNode id =
            if id = idOf lib node then some node else s.repos.keyRepo.getHDNode id :=
          InsertionMap.get_set _ _ _ _
        simp only [savedBy, Except.map, hget, Except.ok.injEq]
        by_cases hid : id = idOf lib node
        · simp [hid]
        · simp [hid, Ne.symm hid]
  · rw [hrepos, or_iff_left (hmakes id)]

/-- In every run, whatever the order in which requests are handled, both
repositories hold the wallets of all requests so far and no others, and each
wallet that the server has had, or that a call is about which a handler waits
for, is one of them.  None of them ever has an account. -/
theorem server_keeps_wallets (hlaw : lib.Lawful)
    (hrun : (machine lib seeds).run start events = some s) :
    StoredOk lib s.repos ∧
      (∀ id, (∃ node, s.repos.keyRepo.getHDNode id = some node) ↔
        ∃ event ∈ events, Makes lib seeds id event) ∧
      (s.state.WalletsIn fun w =>
        ∃ wallet, w = .created wallet ∧ wallet.accounts = [] ∧ Kept s.repos wallet) ∧
      ∀ call ∈ s.calls, ∀ wallet, call.wallet? = some wallet →
        wallet.accounts = [] ∧ Kept s.repos wallet := by
  have hok := serverOk_run hlaw hrun
  refine ⟨hok.stored, fun id => ?_, hok.wallets.mono ?_, fun call hcall wallet hwallet => ?_⟩
  · have hholds := Machine.run_gather (P := fun s : WalletServer Node =>
        ∃ node, s.repos.keyRepo.getHDNode id = some node)
      (fun _ _ _ hs hstep => hs.step hlaw hstep)
      (fun _ _ _ hs hstep => holds_step hs hlaw hstep id) hrun (serverOk_start lib)
    rw [hholds, or_iff_right]
    rintro ⟨node, hnode⟩
    cases hnode
  · rintro w ⟨wallet, rfl, hkept⟩
    exact ⟨wallet, rfl, (hkept.cases hok.stored).1, hkept⟩
  · obtain ⟨request, hrequest⟩ := List.mem_iff_getElem?.mp hcall
    obtain ⟨handler, -, hcallOk⟩ := TaskList.forall₂_getElem? hok.calls hrequest
    have hkept := hcallOk.kept hwallet
    exact ⟨(hkept.cases hok.stored).1, hkept⟩

def seedRequest : CreateWalletRequest := ⟨"wallet", none, none, some sampleSeed⟩

theorem createWallet_seedRequest {s : WalletServer SymbolicNode} (hidle : s.syncing = none) :
    (machine SymbolicNode.lib SymbolicNode.seeds).step s (.createWallet seedRequest []) = some
      ⟨s.state.createWallet seedRequest,
        (createFromNode SymbolicNode.lib s.repos (seedMaster .bitcoin)).1,
        s.calls ++ [.createFromSeed (.ok seedWallet.2)], s.syncing⟩ := by
  have hmade : creation SymbolicNode.lib SymbolicNode.seeds s.repos seedRequest [] =
      .ok (createFromNode SymbolicNode.lib s.repos (seedMaster .bitcoin)) :=
    createFromSeed_sampleSeed s.repos none
  simp only [machine, hidle, idleStep, createWallet, hmade, savedBy, Except.map]
  rfl

/-- A wallet is created and looked for in a pruned blockchain. -/
theorem server_keeps_wallets_pruned : ∃ s,
    (machine SymbolicNode.lib SymbolicNode.seeds).run start
        [.setupBlockchainProxy trustedRpc (.ok ()) (.ok ()), .createWallet seedRequest [],
          .created 1, .isPruned 1 (.ok true)] = some s ∧
      s.state.handlers[1]? = some (.answered true) ∧ StoredOk SymbolicNode.lib s.repos := by
  have hrun : (machine SymbolicNode.lib SymbolicNode.seeds).run start
      [.setupBlockchainProxy trustedRpc (.ok ()) (.ok ()), .createWallet seedRequest [], .created 1,
        .isPruned 1 (.ok true)] = some _ :=
    (Machine.run_cons_eq_some _).mpr
      ⟨_, rfl, (Machine.run_cons_eq_some _).mpr ⟨_, createWallet_seedRequest rfl, rfl⟩⟩
  exact ⟨_, hrun, rfl, (server_keeps_wallets SymbolicNode.lib_lawful hrun).1⟩

/-! ## A recovery -/

/-- The server has not changed, and `syncHDNode` is running. -/
structure Stalled (s t : WalletServer Node) : Prop where
  state : t.state = s.state
  repos : t.repos = s.repos
  syncing : ∃ syncing, t.syncing = some syncing

theorem Stalled.step (hok : ServerOk lib t) (hlaw : lib.Lawful) (h : Stalled s t)
    (hstep : (machine lib seeds).step t event = some u) :
    event = .sync .iterate ∧ Stalled s u := by
  obtain ⟨syncing, hsyncing⟩ := h.syncing
  cases step_cases hstep with
  | synced hsyncing' hsync hafter =>
      obtain ⟨rfl, -, heq⟩ := hok.synced hlaw hsyncing' hsync
      obtain rfl := Option.some.inj (heq.symm.trans hafter)
      exact ⟨rfl, h.state, h.repos, _, rfl⟩
  | createWallet _ _ hidle => rw [hsyncing] at hidle; cases hidle
  | setupBlockchainProxy _ _ _ hidle => rw [hsyncing] at hidle; cases hidle
  | answered _ hidle => rw [hsyncing] at hidle; cases hidle
  | notPruned hidle => rw [hsyncing] at hidle; cases hidle
  | found hidle => rw [hsyncing] at hidle; cases hidle

theorem Stalled.run (hok : ServerOk lib t) (hlaw : lib.Lawful) (h : Stalled s t)
    (hrun : (machine lib seeds).run t events = some u) :
    (∀ event ∈ events, event = .sync .iterate) ∧ Stalled s u := by
  induction hrun using Machine.run_induction with
  | nil t => exact ⟨fun _ hmem => absurd hmem List.not_mem_nil, h⟩
  | cons hstep _ ih =>
      obtain ⟨rfl, hnext⟩ := h.step hok hlaw hstep
      obtain ⟨hevents, hend⟩ := ih (hok.step hlaw hstep) hnext
      exact ⟨List.forall_mem_cons.mpr ⟨rfl, hevents⟩, hend⟩

theorem Stalled.iterate (hok : ServerOk lib t) (hlaw : lib.Lawful) (h : Stalled s t) :
    ∃ u, (machine lib seeds).step t (.sync .iterate) = some u := by
  obtain ⟨syncing, hsyncing⟩ := h.syncing
  obtain ⟨state, hsync⟩ := (hok.looping syncing hsyncing).iterate hlaw
  obtain ⟨-, -, heq⟩ := hok.synced hlaw hsyncing hsync
  simp only [machine, hsyncing]
  exact ⟨_, by rw [hsync]; exact heq⟩

theorem rootNode_stalls (hidle : s.syncing = none) {request : Nat}
    {wallet : BasicWallet NormalAccount} {source : ObservableBlockchain} {master : Node}
    (hcall : s.calls[request]? = some (.getHDNode wallet source (some master)))
    (nextRef : ObjRef) :
    ∃ t, (machine lib seeds).step s (.rootNode request nextRef) = some t ∧ Stalled s t := by
  have hstep : (machine lib seeds).step s (.rootNode request nextRef) = some { s with
      calls := s.calls.set request .syncHDNode
      syncing := some ⟨request, master, wallet.id, source.request, syncStart nextRef⟩ } := by
    simp only [machine, hidle, idleStep, hcall]
  exact ⟨_, hstep, rfl, rfl, _, rfl⟩

/-- Once the proxy has said that it keeps the whole blockchain, the key of the
wallet is found, and the recovery that starts is the end of the server: the
request is never answered, no other one is taken up or goes on, and nothing is
stored any more, however long the server runs. -/
theorem recovery_stops_server (hlaw : lib.Lawful)
    (hrun : (machine lib seeds).run start events = some s) (hidle : s.syncing = none)
    (request : Nat) {wallet : BasicWallet NormalAccount} {source : ObservableBlockchain}
    {reply : Option Node} (hcall : s.calls[request]? = some (.getHDNode wallet source reply))
    (nextRef : ObjRef) :
    ∃ t, (machine lib seeds).step s (.rootNode request nextRef) = some t ∧
      t.state.handlers[request]? = some .discovering ∧
      ∀ later u, (machine lib seeds).run t later = some u →
        u.state = s.state ∧ u.repos = s.repos ∧ (∀ event ∈ later, event = .sync .iterate) ∧
          ∃ v, (machine lib seeds).step u (.sync .iterate) = some v := by
  have hok := serverOk_run hlaw hrun
  obtain ⟨handler, hhandler, hcallOk⟩ := TaskList.forall₂_getElem? hok.calls hcall
  cases hcallOk with
  | getHDNode hkept =>
      obtain ⟨t, hstep, hstalled⟩ := rootNode_stalls hidle hcall nextRef
      have hnext : ServerOk lib t := hok.step hlaw hstep
      have hsame : t.state.handlers[request]? = some .discovering := by
        rw [hstalled.state]
        exact hhandler
      refine ⟨t, hstep, hsame, fun later u hlater => ?_⟩
      obtain ⟨hevents, hend⟩ := hstalled.run hnext hlaw hlater
      have hokEnd : ServerOk lib u :=
        Machine.run_invariant (fun _ _ _ hs hst => hs.step hlaw hst) hlater hnext
      exact ⟨hend.state, hend.repos, hevents, hend.iterate hokEnd hlaw⟩

/-- The wallet is looked for in a whole blockchain, while a second request has
arrived. -/
theorem recovery_stops_server_pinging : ∃ s t,
    (machine SymbolicNode.lib SymbolicNode.seeds).run start
        [.setupBlockchainProxy trustedRpc (.ok ()) (.ok ()), .createWallet seedRequest [],
          .created 1, .isPruned 1 (.ok false)] = some s ∧
      (machine SymbolicNode.lib SymbolicNode.seeds).step s (.rootNode 1 7) = some t ∧
      ∀ later u, (machine SymbolicNode.lib SymbolicNode.seeds).run t later = some u →
        u.state.handlers[0]? = some .pinging := by
  have hrun : (machine SymbolicNode.lib SymbolicNode.seeds).run start
      [.setupBlockchainProxy trustedRpc (.ok ()) (.ok ()), .createWallet seedRequest [], .created 1,
        .isPruned 1 (.ok false)] = some _ :=
    (Machine.run_cons_eq_some _).mpr
      ⟨_, rfl, (Machine.run_cons_eq_some _).mpr ⟨_, createWallet_seedRequest rfl, rfl⟩⟩
  obtain ⟨t, hstep, -, hlater⟩ :=
    recovery_stops_server SymbolicNode.lib_lawful hrun rfl 1 rfl 7
  refine ⟨_, t, hrun, hstep, fun later u hu => ?_⟩
  rw [(hlater later u hu).1]
  rfl

/-! ## Progress -/

theorem AwaitedCall.rank_le (call : AwaitedCall Node) : call.rank ≤ 3 := by
  cases call <;> simp [AwaitedCall.rank]

theorem work_step (hs : ServerOk lib s) (hlaw : lib.Lawful)
    (hstep : (machine lib seeds).step s event = some t) :
    TaskList.work AwaitedCall.rank t.calls + (if event.goesOn then 1 else 0) ≤
      TaskList.work AwaitedCall.rank s.calls + if event.arrives then 3 else 0 := by
  cases step_cases hstep with
  | createWallet req entropy hidle =>
      simp only [createWallet, TaskList.work_append]
      exact Nat.add_le_add_left (AwaitedCall.rank_le _) _
  | setupBlockchainProxy req client observable hidle =>
      simp only [TaskList.work_append]
      exact Nat.add_le_add_left (AwaitedCall.rank_le _) _
  | answered hturn hidle hcall hanswer hserver =>
      have hrank := TaskList.work_set_add_le hcall hanswer.rank_lt
      rw [WalletServerEvent.goesOn, hturn]
      exact Nat.le_add_right_of_le hrank
  | notPruned hidle hcall =>
      exact TaskList.work_set_add_le hcall (Nat.le_refl 2)
  | found hidle hcall nextRef =>
      exact TaskList.work_set_add_le hcall (Nat.le_refl 1)
  | synced hsyncing hsync hafter =>
      obtain ⟨-, -, heq⟩ := hs.synced hlaw hsyncing hsync
      obtain rfl := Option.some.inj (heq.symm.trans hafter)
      exact Nat.le_refl _

theorem turn_step (hs : ServerOk lib s) (hlaw : lib.Lawful)
    (hstep : (machine lib seeds).step s event = some t) (n : Nat) :
    TaskList.workAt AwaitedCall.rank 3 t.calls n + (if event.turn = some n then 1 else 0) ≤
      TaskList.workAt AwaitedCall.rank 3 s.calls n := by
  have hset : ∀ {request : Nat} {call next : AwaitedCall Node}, event.turn = some request →
      s.calls[request]? = some call → next.rank + 1 ≤ call.rank →
      TaskList.workAt AwaitedCall.rank 3 (s.calls.set request next) n +
        (if event.turn = some n then 1 else 0) ≤ TaskList.workAt AwaitedCall.rank 3 s.calls n := by
    intro request call next hturn hcall hrank
    simp only [hturn, Option.some.injEq]
    exact TaskList.workAt_set_add_le hcall hrank n
  cases step_cases hstep with
  | createWallet req entropy hidle => exact TaskList.workAt_append_le (AwaitedCall.rank_le _) n
  | setupBlockchainProxy req client observable hidle =>
      exact TaskList.workAt_append_le (AwaitedCall.rank_le _) n
  | answered hturn hidle hcall hanswer hserver => exact hset hturn hcall hanswer.rank_lt
  | notPruned hidle hcall => exact hset rfl hcall (Nat.le_refl 2)
  | found hidle hcall nextRef => exact hset rfl hcall (Nat.le_refl 1)
  | synced hsyncing hsync hafter =>
      obtain ⟨-, -, heq⟩ := hs.synced hlaw hsyncing hsync
      obtain rfl := Option.some.inj (heq.symm.trans hafter)
      exact Nat.le_refl _

structure Environment where
  ping : Except JsError Unit
  isPruned : Except JsError Bool
  nextRef : ObjRef

/-- The step of the handler of a request, with an answer of the environment. -/
def Answers (request : Nat) (environment : Environment) : WalletServerEvent → Prop
  | .created r => r = request
  | .pinged r result => r = request ∧ result = environment.ping
  | .isPruned r reply => r = request ∧ reply = environment.isPruned
  | .rootNode r nextRef => r = request ∧ nextRef = environment.nextRef
  | _ => False

theorem serverStep_isSome {request : Nat} {serverEvent : ServerEvent ServerWallet}
    (call : AwaitedCall Node)
    (h : ((serverMachine ServerWallet).step s.state serverEvent).isSome = true) :
    ∃ t, s.serverStep request serverEvent call = some t := by
  obtain ⟨state, hstate⟩ := Option.isSome_iff_exists.mp h
  exact ⟨_, by rw [serverStep, hstate, Option.map_some]⟩

theorem ServerOk.goesOn (hs : ServerOk lib s) (hidle : s.syncing = none) {request : Nat}
    {handler : Handler} (hhandler : s.state.handlers[request]? = some handler)
    (hwaits : handler.ended = false) (environment : Environment) :
    ∃ event t, Answers request environment event ∧
      (machine lib seeds).step s event = some t := by
  obtain ⟨call, hcall, hok⟩ := TaskList.forall₂_getElem?_left hs.calls hhandler
  have hdiscovered : ∀ result, handler = .discovering → ∃ t, s.discovered request result = some t :=
    fun result h => serverStep_isSome .nothing (by simp [serverMachine, hhandler, h])
  simp only [machine, hidle]
  cases hok with
  | createFromSeed hkept =>
      refine ⟨.created request, ?_⟩
      simp only [idleStep, hcall, Answers, true_and]
      exact serverStep_isSome _ (by simp [serverMachine, hhandler])
  | createNew hkept =>
      refine ⟨.created request, ?_⟩
      simp only [idleStep, hcall, Answers, true_and]
      exact serverStep_isSome _ (by simp [serverMachine, hhandler])
  | isPruned hkept =>
      refine ⟨.isPruned request environment.isPruned, ?_⟩
      simp only [idleStep, hcall, Answers, and_self, true_and]
      cases environment.isPruned with
      | error e => exact hdiscovered (.error e) rfl
      | ok pruned =>
          cases pruned with
          | true => exact hdiscovered (.ok (.created _)) rfl
          | false => exact ⟨_, rfl⟩
  | getHDNode hkept =>
      exact ⟨.rootNode request environment.nextRef, _, ⟨rfl, rfl⟩, by rw [idleStep, hcall]⟩
  | syncHDNode => exact absurd rfl (hs.idle hidle _ (List.mem_of_getElem? hcall))
  | ping =>
      refine ⟨.pinged request environment.ping, ?_⟩
      simp only [idleStep, hcall, Answers, true_and]
      exact serverStep_isSome _ (by simp [serverMachine, hhandler])
  | nothing hended =>
      rw [hended] at hwaits
      cases hwaits

/-- The server itself keeps no request waiting.  However requests and answers
are mixed, the handler of each request takes at most three steps, all handlers
together at most three for each request that has arrived, and as long as no
recovery runs every handler that waits can go on with whatever it is answered. -/
theorem requests_progress (hlaw : lib.Lawful)
    (hrun : (machine lib seeds).run start events = some s) :
    (∀ request, events.countP (fun event => event.turn = some request) ≤ 3) ∧
      events.countP WalletServerEvent.goesOn ≤ 3 * events.countP WalletServerEvent.arrives ∧
      (s.syncing = none → ∀ request handler, s.state.handlers[request]? = some handler →
        handler.ended = false → ∀ environment, ∃ event t, Answers request environment event ∧
          (machine lib seeds).step s event = some t) := by
  refine ⟨fun request => ?_, ?_, ?_⟩
  · have hbudget := Machine.run_budget (f := fun s : WalletServer Node =>
        TaskList.workAt AwaitedCall.rank 3 s.calls request)
      (p := fun event => event.turn = some request) (q := fun _ => false) (k := 0)
      (fun _ _ _ hs _ hstep => hs.step hlaw hstep)
      (fun _ _ _ hs _ hstep => by simpa using turn_step hs hlaw hstep request) hrun
      (Machine.within_true _ _) (serverOk_start lib)
    have hstart : TaskList.workAt AwaitedCall.rank 3 (start : WalletServer Node).calls request =
        3 := rfl
    omega
  · have hbudget := Machine.run_budget (p := WalletServerEvent.goesOn)
      (q := WalletServerEvent.arrives) (fun _ _ _ hs _ hstep => hs.step hlaw hstep)
      (fun _ _ _ hs _ hstep => work_step hs hlaw hstep) hrun (Machine.within_true _ _)
      (serverOk_start lib)
    have hstart : TaskList.work AwaitedCall.rank (start : WalletServer Node).calls = 0 := rfl
    omega
  · exact fun hidle _ _ hhandler hwaits => (serverOk_run hlaw hrun).goesOn hidle hhandler hwaits

theorem requests_progress_discovering : ∃ s,
    (machine SymbolicNode.lib SymbolicNode.seeds).run start
        [.createWallet seedRequest [], .setupBlockchainProxy trustedRpc (.ok ()) (.ok ()),
          .created 0] = some s ∧
      ∃ event t, Answers 0 ⟨.ok (), .ok true, 7⟩ event ∧
        (machine SymbolicNode.lib SymbolicNode.seeds).step s event = some t := by
  have hrun : (machine SymbolicNode.lib SymbolicNode.seeds).run start
      [.createWallet seedRequest [], .setupBlockchainProxy trustedRpc (.ok ()) (.ok ()),
        .created 0] = some _ :=
    (Machine.run_cons_eq_some _).mpr ⟨_, createWallet_seedRequest rfl, rfl⟩
  have hgoes := (requests_progress SymbolicNode.lib_lawful hrun).2.2 rfl 0 .discovering rfl rfl
  exact ⟨_, hrun, hgoes _⟩

end Runs

end WalletServer

end Walletts
