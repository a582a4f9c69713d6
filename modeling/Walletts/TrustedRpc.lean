import Walletts.Account
import Walletts.Lib.PromiseAll
/-!
# The trusted node

`TrustedBitcoindRPC` talks to a node over the client of `bitcoin-core`.  This
module models `getPrevHash`, which asks the node for a transaction and then for
all the transactions its inputs spend at once.
-/

namespace Walletts

namespace TrustedBitcoindRPC

/-! ## `getPrevHash` -/

/-- What the node answers.  An input of a coinbase has no id. -/
structure NodeClient where
  getRawTransaction : Option String → Except JsError String
  decodeRawTransaction : String → Except JsError (List (Option String))

inductive PrevHashCall
  | rawTransaction
  | decoded (rawTx : String)
  | inputs (vin : List (Option String)) (join : PromiseAll JsError String)
  | ended (result : Except JsError (List String))

inductive PrevHashLabel
  | rawTransaction (reply : Except JsError String)
  | decoded (reply : Except JsError (List (Option String)))
  | input (l : PromiseAll.Settle JsError String)

section Machine

variable (fromHex : String → Except JsError Transaction)

def idsOf (prevTxRaw : List String) : Except JsError (List String) := do
  return (← prevTxRaw.mapM fromHex).map Transaction.getId

def awaitAll (vin : List (Option String)) (join : PromiseAll JsError String) : PrevHashCall :=
  match join.outcome with
  | .pending => .inputs vin join
  | .fulfilled prevTxRaw => .ended (idsOf fromHex prevTxRaw)
  | .rejected e => .ended (.error e)

def prevHashMachine : Machine PrevHashCall PrevHashLabel where
  step c l :=
    match c, l with
    | .rawTransaction, .rawTransaction (.ok rawTx) => some (.decoded rawTx)
    | .rawTransaction, .rawTransaction (.error e) => some (.ended (.error e))
    | .decoded _, .decoded (.ok vin) => some (awaitAll fromHex vin (.start vin.length))
    | .decoded _, .decoded (.error e) => some (.ended (.error e))
    | .inputs vin join, .input l =>
        ((PromiseAll.machine JsError String).step join l).map (awaitAll fromHex vin)
    | _, _ => none

end Machine

def Replies (client : NodeClient) (tx : Transaction) : PrevHashCall → PrevHashLabel → Prop
  | .rawTransaction, .rawTransaction reply => reply = client.getRawTransaction (some tx.getId)
  | .decoded rawTx, .decoded reply => reply = client.decodeRawTransaction rawTx
  | .inputs vin _, .input l => l.Of client.getRawTransaction vin
  | _, _ => False

def prevHash (client : NodeClient) (fromHex : String → Except JsError Transaction)
    (tx : Transaction) : Except JsError (List String) := do
  let rawTx ← client.getRawTransaction (some tx.getId)
  let vin ← client.decodeRawTransaction rawTx
  let prevTxRaw ← vin.mapM client.getRawTransaction
  idsOf fromHex prevTxRaw

section Replies

variable {client : NodeClient} {fromHex : String → Except JsError Transaction} {tx : Transaction}
  {c d : PrevHashCall} {l : PrevHashLabel} {ls : List PrevHashLabel}

/-- Where a call stands that has had the replies of the node: it has ended as if
it had asked one question after another, up to the error, or its join is one of
a run of replies. -/
inductive PrevHashOk (client : NodeClient) (fromHex : String → Except JsError Transaction)
    (tx : Transaction) : PrevHashCall → Prop
  | rawTransaction : PrevHashOk client fromHex tx .rawTransaction
  | decoded {rawTx : String} (hraw : client.getRawTransaction (some tx.getId) = .ok rawTx) :
      PrevHashOk client fromHex tx (.decoded rawTx)
  | inputs {rawTx : String} {vin : List (Option String)} {join : PromiseAll JsError String}
      {settled : List (PromiseAll.Settle JsError String)}
      (hraw : client.getRawTransaction (some tx.getId) = .ok rawTx)
      (hvin : client.decodeRawTransaction rawTx = .ok vin)
      (hrun : (PromiseAll.machine JsError String).run (.start vin.length) settled = some join)
      (hof : ∀ l ∈ settled, l.Of client.getRawTransaction vin)
      (hpending : join.outcome = .pending) : PrevHashOk client fromHex tx (.inputs vin join)
  | ended {result : Except JsError (List String)}
      (h : result.toOption = (prevHash client fromHex tx).toOption) :
      PrevHashOk client fromHex tx (.ended result)

theorem prevHash_eq {rawTx : String} {vin : List (Option String)}
    (hraw : client.getRawTransaction (some tx.getId) = .ok rawTx)
    (hvin : client.decodeRawTransaction rawTx = .ok vin) :
    prevHash client fromHex tx = vin.mapM client.getRawTransaction >>= idsOf fromHex := by
  rw [prevHash, hraw]
  simp only [bind, Except.bind, hvin]

theorem prevHashOk_awaitAll {rawTx : String} {vin : List (Option String)}
    {join : PromiseAll JsError String} {settled : List (PromiseAll.Settle JsError String)}
    (hraw : client.getRawTransaction (some tx.getId) = .ok rawTx)
    (hvin : client.decodeRawTransaction rawTx = .ok vin)
    (hrun : (PromiseAll.machine JsError String).run (.start vin.length) settled = some join)
    (hof : ∀ l ∈ settled, l.Of client.getRawTransaction vin) :
    PrevHashOk client fromHex tx (awaitAll fromHex vin join) := by
  unfold awaitAll
  obtain ⟨values, houtcome, hvalues⟩ | ⟨e, houtcome, hmem⟩ | ⟨houtcome, -⟩ :=
    PromiseAll.run_cases hrun hof
  · rw [houtcome]
    apply PrevHashOk.ended
    rw [prevHash_eq hraw hvin, Outcome.mapM_eq_ok.mpr hvalues]
    rfl
  · rw [houtcome]
    apply PrevHashOk.ended
    obtain ⟨e', he'⟩ := Outcome.mapM_error_of_mem hmem
    rw [prevHash_eq hraw hvin, he']
    rfl
  · rw [houtcome]
    exact .inputs hraw hvin hrun hof houtcome

theorem PrevHashOk.step (h : PrevHashOk client fromHex tx c) (hl : Replies client tx c l)
    (hstep : (prevHashMachine fromHex).step c l = some d) : PrevHashOk client fromHex tx d := by
  cases h with
  | rawTransaction =>
      match l, hl, hstep with
      | .rawTransaction (.ok rawTx), hl, hstep =>
          obtain rfl := Option.some.inj hstep
          exact .decoded hl.symm
      | .rawTransaction (.error e), hl, hstep =>
          obtain rfl := Option.some.inj hstep
          have hraw : client.getRawTransaction (some tx.getId) = .error e := hl.symm
          apply PrevHashOk.ended
          rw [prevHash, hraw]
          rfl
  | @decoded rawTx hraw =>
      match l, hl, hstep with
      | .decoded (.ok vin), hl, hstep =>
          obtain rfl := Option.some.inj hstep
          exact prevHashOk_awaitAll hraw hl.symm (Machine.run_nil _ _)
            fun _ hmem => absurd hmem List.not_mem_nil
      | .decoded (.error e), hl, hstep =>
          obtain rfl := Option.some.inj hstep
          have hvin : client.decodeRawTransaction rawTx = .error e := hl.symm
          apply PrevHashOk.ended
          rw [prevHash, hraw]
          simp only [bind, Except.bind, hvin]
  | @inputs rawTx vin join settled hraw hvin hrun hof hpending =>
      match l, hl, hstep with
      | .input l, hl, hstep =>
          obtain ⟨join', hjoin, rfl⟩ := Option.map_eq_some_iff.mp hstep
          have hlonger : (PromiseAll.machine JsError String).run (.start vin.length)
              (settled ++ [l]) = some join' := by
            rw [Machine.run_append, hrun, Option.bind_some, Machine.run_cons, hjoin]
            rfl
          apply prevHashOk_awaitAll hraw hvin hlonger
          intro l' hmem
          rcases List.mem_append.mp hmem with hold | hnew
          · exact hof l' hold
          · rw [List.mem_singleton.mp hnew]
            exact hl
  | ended h =>
      cases l <;> cases hl

theorem PrevHashOk.goesOn (h : PrevHashOk client fromHex tx c) (hc : ∀ result, c ≠ .ended result) :
    ∃ l d, Replies client tx c l ∧ (prevHashMachine fromHex).step c l = some d := by
  cases h with
  | rawTransaction =>
      refine ⟨.rawTransaction (client.getRawTransaction (some tx.getId)), ?_⟩
      simp only [Replies, true_and]
      cases client.getRawTransaction (some tx.getId) <;> exact ⟨_, rfl⟩
  | @decoded rawTx hraw =>
      refine ⟨.decoded (client.decodeRawTransaction rawTx), ?_⟩
      simp only [Replies, true_and]
      cases client.decodeRawTransaction rawTx <;> exact ⟨_, rfl⟩
  | @inputs rawTx vin join settled hraw hvin hrun hof hpending =>
      obtain ⟨values, houtcome, -⟩ | ⟨e, houtcome, -⟩ | ⟨-, k, hk⟩ := PromiseAll.run_cases hrun hof
      · rw [hpending] at houtcome
        cases houtcome
      · rw [hpending] at houtcome
        cases houtcome
      · obtain ⟨l, join', hl, hjoin⟩ :=
          PromiseAll.exists_settle (PromiseAll.settledOf_run hrun hof) hk
        refine ⟨.input l, awaitAll fromHex vin join', hl, ?_⟩
        simp only [prevHashMachine, hjoin, Option.map_some]
  | @ended result h => exact absurd rfl (hc result)

def inputCount (client : NodeClient) (tx : Transaction) : Nat :=
  match client.getRawTransaction (some tx.getId) >>= client.decodeRawTransaction with
  | .ok vin => vin.length
  | .error _ => 0

def remaining (n : Nat) : PrevHashCall → Nat
  | .rawTransaction => n + 2
  | .decoded _ => n + 1
  | .inputs _ join => PromiseAll.unsettled join.slots
  | .ended _ => 0

theorem remaining_awaitAll (fromHex : String → Except JsError Transaction) (n : Nat)
    (vin : List (Option String)) (join : PromiseAll JsError String) :
    remaining n (awaitAll fromHex vin join) ≤ PromiseAll.unsettled join.slots := by
  unfold awaitAll
  split <;> simp [remaining]

theorem remaining_step (h : PrevHashOk client fromHex tx c) (hl : Replies client tx c l)
    (hstep : (prevHashMachine fromHex).step c l = some d) :
    remaining (inputCount client tx) d + 1 ≤ remaining (inputCount client tx) c := by
  cases h with
  | rawTransaction =>
      match l, hl, hstep with
      | .rawTransaction (.ok rawTx), hl, hstep =>
          obtain rfl := Option.some.inj hstep
          simp [remaining]
      | .rawTransaction (.error e), hl, hstep =>
          obtain rfl := Option.some.inj hstep
          simp [remaining]
  | @decoded rawTx hraw =>
      match l, hl, hstep with
      | .decoded (.ok vin), hl, hstep =>
          obtain rfl := Option.some.inj hstep
          have hvin : client.decodeRawTransaction rawTx = .ok vin := hl.symm
          have hcount : inputCount client tx = vin.length := by
            simp only [inputCount, hraw, bind, Except.bind, hvin]
          have hawait := remaining_awaitAll fromHex (inputCount client tx) vin (.start vin.length)
          rw [PromiseAll.unsettled_start] at hawait
          change _ + 1 ≤ inputCount client tx + 1
          omega
      | .decoded (.error e), hl, hstep =>
          obtain rfl := Option.some.inj hstep
          simp [remaining]
  | @inputs rawTx vin join settled hraw hvin hrun hof hpending =>
      match l, hl, hstep with
      | .input l, hl, hstep =>
          obtain ⟨join', hjoin, rfl⟩ := Option.map_eq_some_iff.mp hstep
          have hawait := remaining_awaitAll fromHex (inputCount client tx) vin join'
          have hunsettled := PromiseAll.unsettled_step hjoin
          change _ + 1 ≤ PromiseAll.unsettled join.slots
          omega
  | ended h => cases l <;> cases hl

/-- However the replies of the node come in, `getPrevHash` ends as if it had asked
one question after another, up to which error it is; it waits for no more than
two replies and one for each input, and as long as it has not ended the node's
next reply takes it on. -/
theorem getPrevHash_run (hrun : (prevHashMachine fromHex).run .rawTransaction ls = some c)
    (hreplies : (prevHashMachine fromHex).Within (Replies client tx) .rawTransaction ls) :
    (∀ result, c = .ended result → result.toOption = (prevHash client fromHex tx).toOption) ∧
      ls.length ≤ inputCount client tx + 2 ∧
      ((∀ result, c ≠ .ended result) →
        ∃ l d, Replies client tx c l ∧ (prevHashMachine fromHex).step c l = some d) := by
  have hok : PrevHashOk client fromHex tx c := Machine.run_invariant_within
    (fun _ _ _ hs hl hstep => hs.step hl hstep) hrun hreplies .rawTransaction
  refine ⟨?_, ?_, hok.goesOn⟩
  · rintro result rfl
    cases hok with
    | ended h => exact h
  · have hbudget := Machine.run_budget (p := fun _ => true) (q := fun _ => false) (k := 0)
      (f := remaining (inputCount client tx)) (fun _ _ _ hs hl hstep => hs.step hl hstep)
      (fun _ _ _ hs hl hstep => remaining_step hs hl hstep) hrun hreplies .rawTransaction
    simp only [List.countP_true, remaining] at hbudget
    omega

end Replies

/-! ### An honest node -/

def coinbaseId : String := "".pushn '0' 64

def vinTxid (i : OutpointRef) : Option String := if i.id = coinbaseId then none else some i.id

/-- The node and the parser tell the truth about the transactions of a chain,
and the node knows no others. -/
structure Honest (client : NodeClient) (fromHex : String → Except JsError Transaction)
    (chain : List Transaction) : Prop where
  raw : ∀ t ∈ chain, client.getRawTransaction (some t.getId) = .ok t.toHex
  unknown : ∀ id, (∀ t ∈ chain, t.getId ≠ id) → ∃ e, client.getRawTransaction (some id) = .error e
  coinbase : ∃ e, client.getRawTransaction none = .error e
  decode : ∀ t ∈ chain, client.decodeRawTransaction t.toHex = .ok (t.ins.map vinTxid)
  parse : ∀ t ∈ chain, fromHex t.toHex = .ok t

def Known (chain : List Transaction) (i : OutpointRef) : Prop :=
  i.id ≠ coinbaseId ∧ ∃ t ∈ chain, t.getId = i.id

section Honest

variable {client : NodeClient} {fromHex : String → Except JsError Transaction}
  {chain : List Transaction} {tx : Transaction}

theorem Honest.known (h : Honest client fromHex chain) {i : OutpointRef} (hi : Known chain i) :
    ∃ t, client.getRawTransaction (vinTxid i) = .ok t.toHex ∧ fromHex t.toHex = .ok t ∧
      t.getId = i.id := by
  obtain ⟨hcoinbase, t, ht, hid⟩ := hi
  refine ⟨t, ?_, h.parse t ht, hid⟩
  rw [vinTxid, if_neg hcoinbase, ← hid]
  exact h.raw t ht

theorem Honest.notKnown (h : Honest client fromHex chain) {i : OutpointRef}
    (hi : ¬ Known chain i) : ∃ e, client.getRawTransaction (vinTxid i) = .error e := by
  unfold vinTxid
  split
  · exact h.coinbase
  · rename_i hcoinbase
    exact h.unknown i.id fun t ht hid => hi ⟨hcoinbase, t, ht, hid⟩

theorem Honest.all_known (h : Honest client fromHex chain) {ins : List OutpointRef}
    (hins : ∀ i ∈ ins, Known chain i) :
    ∃ txs : List Transaction, (ins.map vinTxid).mapM client.getRawTransaction =
        .ok (txs.map Transaction.toHex) ∧
      (txs.map Transaction.toHex).mapM fromHex = .ok txs ∧
      txs.map Transaction.getId = ins.map OutpointRef.id := by
  simp only [Outcome.mapM_eq_ok]
  induction ins with
  | nil => exact ⟨[], rfl, rfl, rfl⟩
  | cons i ins ih =>
      obtain ⟨hi, hins⟩ := List.forall_mem_cons.mp hins
      obtain ⟨t, hraw, hparse, hid⟩ := h.known hi
      obtain ⟨txs, hraws, hparses, hids⟩ := ih hins
      refine ⟨t :: txs, ?_, ?_, ?_⟩
      · rw [List.map_cons, List.map_cons, List.map_cons, List.map_cons, hraw, hraws]
      · rw [List.map_cons, List.map_cons, List.map_cons, hparse, hparses]
      · rw [List.map_cons, List.map_cons, hid, hids]

theorem Honest.prevHash_eq_ok (h : Honest client fromHex chain) (htx : tx ∈ chain)
    (ids : List String) : prevHash client fromHex tx = .ok ids ↔
      (∀ i ∈ tx.ins, Known chain i) ∧ ids = tx.ins.map OutpointRef.id := by
  rw [prevHash_eq (h.raw tx htx) (h.decode tx htx)]
  by_cases hins : ∀ i ∈ tx.ins, Known chain i
  · obtain ⟨txs, hraws, hparses, hids⟩ := h.all_known hins
    rw [hraws, and_iff_right hins]
    simp only [bind, Except.bind, idsOf, hparses, hids, pure, Except.pure, Except.ok.injEq]
    exact eq_comm
  · have hmissing : ∃ i ∈ tx.ins, ¬ Known chain i := by
      by_contra hnone
      exact hins fun i hi => by_contra fun hnot => hnone ⟨i, hi, hnot⟩
    obtain ⟨i, hi, hnot⟩ := hmissing
    obtain ⟨e, he⟩ := h.notKnown hnot
    have hmem : .error e ∈ (tx.ins.map vinTxid).map client.getRawTransaction :=
      he ▸ List.mem_map_of_mem (List.mem_map_of_mem hi)
    obtain ⟨e', he'⟩ := Outcome.mapM_error_of_mem hmem
    rw [he']
    exact iff_of_false (fun hok => by cases hok) fun hok => hins hok.1

/-- With an honest node, and however its replies come in, `getPrevHash` for a
transaction of the chain comes to an end: with the ids in its own inputs, in
their order, if the chain has all the transactions it spends from, and with an
error otherwise, as for every coinbase. -/
theorem getPrevHash_honest {ls : List PrevHashLabel} {c : PrevHashCall}
    (h : Honest client fromHex chain) (htx : tx ∈ chain)
    (hrun : (prevHashMachine fromHex).run .rawTransaction ls = some c)
    (hreplies : (prevHashMachine fromHex).Within (Replies client tx) .rawTransaction ls) :
    (∀ result, c = .ended result → ∀ ids, result = .ok ids ↔
        (∀ i ∈ tx.ins, Known chain i) ∧ ids = tx.ins.map OutpointRef.id) ∧
      ls.length ≤ tx.ins.length + 2 ∧
      ((∀ result, c ≠ .ended result) →
        ∃ l d, Replies client tx c l ∧ (prevHashMachine fromHex).step c l = some d) := by
  obtain ⟨hresult, hlength, hgoes⟩ := getPrevHash_run hrun hreplies
  refine ⟨fun result hc ids => ?_, ?_, hgoes⟩
  · rw [← h.prevHash_eq_ok htx]
    have hsame := hresult result hc
    cases result with
    | error e =>
        cases hprev : prevHash client fromHex tx with
        | error e' => exact iff_of_false (fun hok => by cases hok) fun hok => by cases hok
        | ok ids' =>
            rw [hprev] at hsame
            cases hsame
    | ok ids' =>
        cases hprev : prevHash client fromHex tx with
        | error e' =>
            rw [hprev] at hsame
            cases hsame
        | ok ids'' =>
            rw [hprev] at hsame
            rw [Option.some.inj hsame]
  · have hcount : inputCount client tx = tx.ins.length := by
      simp only [inputCount, h.raw tx htx, bind, Except.bind, h.decode tx htx, List.length_map]
    rwa [← hcount]

end Honest

/-! ### The node of a chain -/

def chainClient (chain : List Transaction) : NodeClient where
  getRawTransaction id :=
    match chain.find? fun t => some t.getId = id with
    | some t => .ok t.toHex
    | none => .error ⟨.error, "No such mempool or blockchain transaction"⟩
  decodeRawTransaction rawTx :=
    match chain.find? fun t => t.toHex = rawTx with
    | some t => .ok (t.ins.map vinTxid)
    | none => .error ⟨.error, "TX decode failed"⟩

def chainFromHex (chain : List Transaction) (rawTx : String) : Except JsError Transaction :=
  match chain.find? fun t => t.toHex = rawTx with
  | some t => .ok t
  | none => .error ⟨.error, "superfluous data"⟩

theorem find?_of_nodup {α β : Type} [DecidableEq β] {key : α → β} {xs : List α}
    (h : (xs.map key).Nodup) {x : α} (hx : x ∈ xs) :
    (xs.find? fun y => key y = key x) = some x := by
  induction xs with
  | nil => cases hx
  | cons y ys ih =>
      rw [List.map_cons, List.nodup_cons] at h
      by_cases hkey : key y = key x
      · have heq : y = x := by
          rcases List.mem_cons.mp hx with rfl | hmem
          · rfl
          · exact absurd (hkey ▸ List.mem_map_of_mem hmem) h.1
        simp [heq]
      · have hmem : x ∈ ys := (List.mem_cons.mp hx).resolve_left fun heq => hkey (heq ▸ rfl)
        rw [List.find?_cons_of_neg (by simpa using hkey), ih h.2 hmem]

theorem honest_chainClient {chain : List Transaction} (hids : (chain.map Transaction.getId).Nodup)
    (hhexes : (chain.map Transaction.toHex).Nodup) :
    Honest (chainClient chain) (chainFromHex chain) chain where
  raw t ht := by
    simp only [chainClient, Option.some.injEq, find?_of_nodup hids ht]
  unknown id hid := by
    have hnone : (chain.find? fun t => some t.getId = some id) = none := by
      rw [List.find?_eq_none]
      intro t ht
      simpa using hid t ht
    simp only [chainClient, hnone]
    exact ⟨_, rfl⟩
  coinbase := by
    have hnone : (chain.find? fun t => some t.getId = none) = none := by
      rw [List.find?_eq_none]
      simp
    simp only [chainClient, hnone]
    exact ⟨_, rfl⟩
  decode t ht := by
    simp only [chainClient, find?_of_nodup hhexes ht]
  parse t ht := by
    simp only [chainFromHex, find?_of_nodup hhexes ht]

def firstParent : Transaction := { sampleTx with toHex := "01", ins := [] }

def secondParent : Transaction :=
  { sampleTx with
    getId := "0437cd7f8525ceed2324359c2d0ba26006d92d856a9c20fa0241106ee5a597c9"
    getId_length := by decide
    toHex := "02"
    ins := [] }

def sampleChain : List Transaction := [firstParent, secondParent]

def sampleChild : Transaction :=
  { sampleTx with
    getId := "0e3e2357e806b6cdb1f70b54c3a3a17b6714ee1f0e68bebb44a74b1efd512098"
    getId_length := by decide
    toHex := "03"
    ins := sampleChain.map fun t => ⟨t.getId, 0⟩ }

def sampleReplies : List PrevHashLabel :=
  [.rawTransaction (.ok sampleChild.toHex), .decoded (.ok (sampleChild.ins.map vinTxid)),
    .input ⟨1, .ok "02"⟩, .input ⟨0, .ok "01"⟩]

theorem getPrevHash_honest_swapped : ∃ result,
    (prevHashMachine (chainFromHex (sampleChild :: sampleChain))).run .rawTransaction
        sampleReplies = some (.ended result) ∧
      result = .ok (sampleChild.ins.map OutpointRef.id) := by
  have h : Honest (chainClient (sampleChild :: sampleChain))
      (chainFromHex (sampleChild :: sampleChain)) (sampleChild :: sampleChain) :=
    honest_chainClient (by decide) (by decide)
  have hraw : ∀ t ∈ sampleChain, t.getId ≠ coinbaseId →
      (chainClient (sampleChild :: sampleChain)).getRawTransaction (vinTxid ⟨t.getId, 0⟩) =
        .ok t.toHex := by
    intro t ht hcoinbase
    rw [vinTxid, if_neg hcoinbase]
    exact h.raw t (List.mem_cons_of_mem _ ht)
  have hcoinbase : ∀ t ∈ sampleChain, t.getId ≠ coinbaseId := by decide
  have hrun : (prevHashMachine (chainFromHex (sampleChild :: sampleChain))).run .rawTransaction
      sampleReplies = some (.ended _) := rfl
  refine ⟨_, hrun, ((getPrevHash_honest h List.mem_cons_self hrun ?_).1 _ rfl _).mpr ⟨?_, rfl⟩⟩
  · refine (Machine.within_cons rfl).mpr ⟨(h.raw sampleChild List.mem_cons_self).symm, ?_⟩
    refine (Machine.within_cons rfl).mpr ⟨(h.decode sampleChild List.mem_cons_self).symm, ?_⟩
    refine (Machine.within_cons rfl).mpr ⟨fun x hx => ?_, ?_⟩
    · obtain rfl := Option.some.inj hx
      have hmem : secondParent ∈ sampleChain := List.mem_cons_of_mem _ List.mem_cons_self
      exact (hraw secondParent hmem (hcoinbase _ hmem)).symm
    · refine (Machine.within_cons rfl).mpr ⟨fun x hx => ?_, trivial⟩
      obtain rfl := Option.some.inj hx
      exact (hraw firstParent List.mem_cons_self (hcoinbase _ List.mem_cons_self)).symm
  · intro i hi
    obtain ⟨t, ht, rfl⟩ := List.mem_map.mp hi
    exact ⟨hcoinbase t ht, t, List.mem_cons_of_mem _ ht, rfl⟩

end TrustedBitcoindRPC

end Walletts
