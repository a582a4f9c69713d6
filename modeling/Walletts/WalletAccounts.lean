import Walletts.WalletLife
/-!
# The accounts of a wallet

The results about a wallet among its accounts: each of these runs on its own,
but for the subscribers that are in front of its own, no two of them ever watch
one address, and what is imported can always be settled.
-/

namespace Walletts

open NormalAccountService WalletService VersionTree
open CoinManager (CoinRecord outpointRecord Classified)

variable {Node : Type}

namespace WalletLife

variable {lib : HDNodeLib Node} {btc : ScriptLib} {s t : WalletLife Node} {event : WalletEvent}
  {events : List WalletEvent}

/-! ## The accounts and the key repository -/

def BelowAccount (lib : HDNodeLib Node) (master : Node) (k : Nat) (address : String) : Prop :=
  ∃ cointype p node, lib.descend master (pathNumbers cointype k ++ p) = .ok node ∧
    address = lib.getAddress node

theorem AccountOk.below (hlaw : lib.Lawful) {master : Node} {keyRepo : InMemoryKeyRepository Node}
    {k : Nat} {a : NormalAccount} (h : AccountOk lib master keyRepo k a) {s : PathStep}
    {path : HDPath} {address : String}
    (hget : keyRepo.getAddress lib a.id (s :: path) = .ok (some address)) :
    BelowAccount lib master k address := by
  obtain ⟨cointype, own, child, hown, -, -, hkept⟩ := h.key
  rw [InMemoryKeyRepository.getAddress_eq hkept] at hget
  obtain ⟨node, hnode, hget⟩ := Outcome.bind_eq_ok.mp hget
  obtain rfl := Option.some.inj (Outcome.pure_eq_ok.mp hget)
  refine ⟨cointype, (s :: path).map PathStep.number, node, ?_, rfl⟩
  rw [HDNodeLib.descend_append, hown]
  exact hlaw.descend_of_derivePath hnode

theorem below_inj (hdistinct : lib.DistinctAddresses) {master : Node} {k l : Nat} {address : String}
    (h : BelowAccount lib master k address) (h' : BelowAccount lib master l address) : k = l := by
  obtain ⟨cointype, p, node, hnode, rfl⟩ := h
  obtain ⟨cointype', p', node', hnode', heq⟩ := h'
  exact (pathNumbers_inj (hdistinct _ _ _ _ _ hnode hnode' heq)).1

structure LifeOk (lib : HDNodeLib Node) (master : Node) (wallet : BasicWallet NormalAccount)
    (i : Nat) (life : AccountLife) : Prop where
  inv : ∃ a, wallet.accounts[i]? = some a ∧ life.Inv a
  below : ∀ v ∈ life.versions, ∀ address ∈ v.watchingAddresses.getD [],
    BelowAccount lib master i address

structure Ok (lib : HDNodeLib Node) (master : Node) (s : WalletLife Node) : Prop where
  wallet : WalletOk lib master (s.repos, s.wallet)
  fresh : ∀ a ∈ s.wallet.accounts, Fresh a
  lives : ∀ i life, s.lives[i]? = some life → LifeOk lib master s.wallet i life

variable {master : Node}

theorem Ok.asked_cases (h : Ok lib master s) {account : Nat} {own : LifeEvent}
    (hasked : s.asked lib event = some (account, own)) :
    (∃ l, own = .pay l) ∨ ∃ a, s.wallet.accounts[account]? = some a ∧
      ((∃ k, own = .settle k (.ok (s.repos.keyRepo.getPubKey lib a.id))) ∨
        ∃ version address changeAddress, own = .getAddress version address changeAddress ∧
          ∀ x ∈ own.offered, ∃ first path,
            s.repos.keyRepo.getAddress lib a.id (first :: path) = .ok (some x)) := by
  cases event with
  | addAccount request nextRef => cases hasked
  | blockchain source event => cases hasked
  | pay account l =>
      cases hasked
      exact .inl ⟨l, rfl⟩
  | settle account k =>
      obtain ⟨life, hlife, hasked⟩ := Option.bind_eq_some_iff.mp hasked
      obtain ⟨request, hrequest, hasked⟩ := Option.bind_eq_some_iff.mp hasked
      cases hasked
      obtain ⟨a, ha, hinv⟩ := (h.lives _ life hlife).inv
      refine .inr ⟨a, ha, .inl ⟨k, ?_⟩⟩
      rw [hinv.imports request (List.mem_of_getElem? hrequest)]
  | getAddress account version index =>
      obtain ⟨life, hlife, hasked⟩ := Option.bind_eq_some_iff.mp hasked
      obtain ⟨v, hv, hasked⟩ := Option.bind_eq_some_iff.mp hasked
      split at hasked
      · rename_i address changeAddress hanswers
        cases hasked
        obtain ⟨a, ha, hinv⟩ := (h.lives _ life hlife).inv
        refine .inr ⟨a, ha, .inr ⟨version, address, changeAddress, rfl, fun x hx => ?_⟩⟩
        obtain ⟨first, hfirst, hanswers⟩ := Outcome.bind_eq_ok.mp hanswers
        obtain ⟨second, hsecond, hanswers⟩ := Outcome.bind_eq_ok.mp hanswers
        cases Outcome.pure_eq_ok.mp hanswers
        rw [hinv.id_eq (List.mem_of_getElem? hv)] at hfirst hsecond
        rcases List.mem_append.mp hx with hx | hx
        · exact ⟨_, _, (Option.mem_toList.mp hx) ▸ hfirst⟩
        · exact ⟨_, _, (Option.mem_toList.mp hx) ▸ hsecond⟩
      · cases hasked
        obtain ⟨a, ha, -⟩ := (h.lives _ life hlife).inv
        exact .inr ⟨a, ha, .inr ⟨version, none, none, rfl, fun x hx => absurd hx List.not_mem_nil⟩⟩

theorem Ok.lifeOk_step (hlaw : lib.Lawful) (h : Ok lib master s) {account : Nat} {own : LifeEvent}
    (hasked : s.asked lib event = some (account, own)) {life life' : AccountLife}
    (hlife : s.lives[account]? = some life)
    (hown : (AccountLife.machine btc).step life own = some life') :
    LifeOk lib master s.wallet account life' := by
  obtain ⟨⟨a, ha, hinv⟩, hbelow⟩ := h.lives account life hlife
  refine ⟨⟨a, ha, AccountLife.inv_step hinv hown⟩, fun v hv address haddress => ?_⟩
  rcases hinv.watched_step hown hv haddress with ⟨u, hu, hold⟩ | hoffered
  · exact hbelow u hu address hold
  · obtain ⟨l, rfl⟩ | ⟨a', ha', ⟨k, rfl⟩ | ⟨version, first, second, rfl, haddresses⟩⟩ :=
      h.asked_cases hasked
    · exact absurd hoffered List.not_mem_nil
    · exact absurd hoffered List.not_mem_nil
    · obtain ⟨_, path, hpath⟩ := haddresses address hoffered
      exact AccountOk.below hlaw (h.wallet.account account a' ha') hpath

theorem Ok.step (hlaw : lib.Lawful) (hdistinct : lib.DistinctAddresses) (h : Ok lib master s)
    (hstep : (machine lib btc).step s event = some t) : Ok lib master t := by
  cases step_cases hstep with
  | noAccount request nextRef => exact h
  | @added request repos wallet hadded nextRef =>
      obtain ⟨hwallet, -, -⟩ := h.wallet.step hlaw hdistinct hadded
      obtain ⟨new, haccounts, hnew, -⟩ := accounts_added hadded
      have hfresh : ∀ a ∈ wallet.accounts, Fresh a := by
        rw [haccounts]
        exact List.forall_mem_append.mpr ⟨h.fresh, List.forall_mem_singleton.mpr hnew⟩
      refine ⟨hwallet, hfresh, fun i life hlife => ?_⟩
      by_cases hi : i < s.lives.length
      · rw [List.getElem?_append_left hi] at hlife
        obtain ⟨⟨a, ha, hinv⟩, hbelow⟩ := h.lives i life hlife
        refine ⟨⟨a, ?_, hinv⟩, hbelow⟩
        rw [haccounts, List.getElem?_append_left (List.getElem?_eq_some_iff.mp ha).1, ha]
      · have hge := Nat.not_lt.mp hi
        rw [List.getElem?_append_right hge, List.getElem?_map, List.getElem?_drop,
          Nat.add_sub_cancel' hge] at hlife
        obtain ⟨a, ha, rfl⟩ := Option.map_eq_some_iff.mp hlife
        refine ⟨⟨a, ha, AccountLife.inv_start nextRef a⟩, fun v hv address haddress => ?_⟩
        obtain rfl := List.mem_singleton.mp hv
        rw [(hfresh v (List.mem_of_getElem? ha)).1] at haddress
        cases haddress
  | blockchain source event =>
      refine ⟨h.wallet, h.fresh, fun i life hlife => ?_⟩
      dsimp only [arrives] at hlife
      rw [List.getElem?_mapIdx] at hlife
      obtain ⟨life, hlife', rfl⟩ := Option.map_eq_some_iff.mp hlife
      obtain ⟨⟨a, ha, hinv⟩, hbelow⟩ := h.lives i life hlife'
      have harrives : (AccountLife.machine btc).step life
          (.blockchain event (s.reached btc source event i)) = some _ := rfl
      exact ⟨⟨a, ha, AccountLife.inv_step hinv harrives⟩, hbelow⟩
  | @account _ account own life life' hevent hasked hlife hown =>
      refine ⟨h.wallet, h.fresh, fun i life'' hlife'' => ?_⟩
      by_cases hi : account = i
      · subst hi
        rw [List.getElem?_set_self (List.getElem?_eq_some_iff.mp hlife).1] at hlife''
        obtain rfl := Option.some.inj hlife''
        exact h.lifeOk_step hlaw hasked hlife hown
      · rw [List.getElem?_set_ne hi] at hlife''
        exact h.lives i life'' hlife''

theorem ok_start {seeds : SeedLib Node} {r : Repositories Node}
    {made : Repositories Node × BasicWallet NormalAccount} (h : Created lib seeds r made) :
    ∃ master, Ok lib master (start made) := by
  obtain ⟨master, hwallet, haccounts⟩ := walletOk_created h
  refine ⟨master, hwallet, fun a ha => ?_, fun i life hlife => ?_⟩
  · rw [start, haccounts] at ha
    cases ha
  · cases hlife

theorem ok_run (hlaw : lib.Lawful) (hdistinct : lib.DistinctAddresses) (h : Ok lib master s)
    (hrun : (machine lib btc).run s events = some t) : Ok lib master t :=
  Machine.run_invariant (fun _ _ _ hs hst => hs.step hlaw hdistinct hst) hrun h

theorem AccountOk.hasKey
    (hpubkey : ∀ node i child, lib.derive node (.num i) = .ok child →
      lib.getPublicKeyBuffer child ≠ [])
    {keyRepo : InMemoryKeyRepository Node} {k : Nat} {a : NormalAccount}
    (h : AccountOk lib master keyRepo k a) :
    ∃ pubkey, keyRepo.getPubKey lib a.id = some pubkey ∧ pubkey ≠ "" := by
  obtain ⟨cointype, own, child, hown, -, -, hkept⟩ := h.key
  refine ⟨HexText.ofBytes (lib.getPublicKeyBuffer own), congrArg (Option.map _) hkept, ?_⟩
  obtain ⟨purpose, -, hown⟩ := Outcome.bind_eq_ok.mp hown
  obtain ⟨coin, -, hown⟩ := Outcome.bind_eq_ok.mp hown
  obtain ⟨account, haccount, hown⟩ := Outcome.bind_eq_ok.mp hown
  obtain rfl : account = own := Except.ok.inj hown
  intro hempty
  exact hpubkey _ _ _ haccount (HexText.ofBytes_injective hempty)

theorem Ok.told_importable
    (hpubkey : ∀ node i child, lib.derive node (.num i) = .ok child →
      lib.getPublicKeyBuffer child ≠ [])
    (h : Ok lib master s) (i : Nat)
    (hclassified : ∀ source tx, event = .blockchain source (.transaction tx) →
      Classified btc tx.outpoints) :
    ∀ own ∈ told lib btc i s event, AccountLife.Importable btc own := by
  intro own hown
  unfold told at hown
  split at hown
  · rcases List.mem_append.mp hown with hown | hown
    · obtain ⟨⟨source, arrived⟩, harrived, rfl⟩ := List.mem_map.mp hown
      have harrived := Option.mem_toList.mp harrived
      cases arrived with
      | transaction tx =>
          exact hclassified source tx (WalletEvent.blockchain?_eq_some.mp harrived)
      | block => trivial
      | reorg height => trivial
    · obtain ⟨⟨account, own'⟩, hasked, rfl⟩ := List.mem_map.mp hown
      have hasked := Option.mem_toList.mp (List.mem_filter.mp hasked).1
      obtain ⟨l, rfl⟩ | ⟨a, ha, ⟨k, rfl⟩ | ⟨version, first, second, rfl, -⟩⟩ :=
        h.asked_cases hasked
      · trivial
      · obtain ⟨pubkey, hkey, hne⟩ := AccountOk.hasKey hpubkey (h.wallet.account account a ha)
        exact ⟨pubkey, congrArg Except.ok hkey, hne⟩
      · trivial
  · cases hown

/-! ## A run with two accounts -/

theorem AccountOk.holds {keyRepo : InMemoryKeyRepository Node} {k : Nat} {a : NormalAccount}
    (h : AccountOk lib master keyRepo k a) : Holds keyRepo a.id := by
  obtain ⟨cointype, own, child, -, -, -, hkept⟩ := h.key
  exact ⟨own, hkept⟩

theorem addAccount_step (btc : ScriptLib) {request : AccountRequest}
    {added : Repositories Node × BasicWallet NormalAccount}
    (h : (walletMachine lib).step (s.repos, s.wallet) request = some added) (nextRef : ObjRef) :
    (machine lib btc).step s (.addAccount request nextRef) = some ⟨added.1, added.2,
      s.lives ++ (added.2.accounts.drop s.lives.length).map (.start nextRef),
      s.subscribers ++ (added.2.accounts.drop s.lives.length).mapIdx
        fun j a => (s.lives.length + j, ⟨0, a⟩)⟩ := by
  refine congrArg some ?_
  rw [addAccount, h]

theorem getAddress_step (btc : ScriptLib) (hlaw : lib.Lawful) (hdecode : lib.AddressesDecode)
    {i k index : Nat} {life : AccountLife} {v : NormalAccount} (hlife : s.lives[i]? = some life)
    (hv : life.versions[k]? = some v) (hholds : Holds s.repos.keyRepo v.id)
    (hindex : index < 2 ^ 31) :
    ∃ address changeAddress, (machine lib btc).step s (.getAddress i k index) =
      some { s with
        lives := s.lives.set i { life with
          versions := life.versions ++ [VersionChange.apply v (.issued address changeAddress)]
          subscribers := life.subscribers ++
            [⟨life.versions.length, VersionChange.apply v (.issued address changeAddress)⟩]
          made := life.made ++ [(k, .issued address changeAddress)] }
        subscribers := s.subscribers ++
          [(i, ⟨life.versions.length,
            VersionChange.apply v (.issued address changeAddress)⟩)] } := by
  obtain ⟨hd, node, -, -, hfirst⟩ :=
    getAddress_of_holds hlaw hholds (show 0 < 2 ^ 31 by decide) hindex
  obtain ⟨hd', node', -, -, hsecond⟩ :=
    getAddress_of_holds hlaw hholds (show 1 < 2 ^ 31 by decide) hindex
  have hanswers : addresses lib s.repos.keyRepo v.id index =
      .ok (some (lib.getAddress node), some (lib.getAddress node')) := by
    rw [addresses, hfirst, hsecond]
    rfl
  refine ⟨lib.getAddress node, lib.getAddress node', ?_⟩
  have hasked : s.asked lib (.getAddress i k index) = some (i, .getAddress k
      (some (lib.getAddress node)) (some (lib.getAddress node'))) := by
    simp [asked, hlife, hv, hanswers]
  have hne : ¬ (lib.getAddress node = "" ∨ lib.getAddress node' = "") := by
    simp [hdecode.getAddress_ne hlaw]
  simp [machine, oneAccount, hasked, hlife, AccountLife.machine, hv, withAddresses, hne,
    VersionChange.apply]

/-- Two accounts are added, and each hands out its first address.  A transaction
with an output that has no address comes to the first version of each, and ends
at the second version of the first account.  The next transaction comes to the
three versions that are left. -/
def sampleEvents : List WalletEvent :=
  [.addAccount (sampleRequest .btc) 2, .addAccount (sampleRequest .eth) 4,
    .getAddress 0 0 0, .getAddress 1 0 0, .blockchain 0 (.transaction AccountLife.dataTx),
    .blockchain 0 (.transaction sampleTx)]

def issuedLife (ref : ObjRef) (a : NormalAccount) (address changeAddress : String) :
    AccountLife where
  manager := .new ref
  versions := [a, VersionChange.apply a (.issued address changeAddress)]
  subscribers := [⟨0, a⟩, ⟨1, VersionChange.apply a (.issued address changeAddress)⟩]
  imports := []
  payments := []
  made := [(0, .issued address changeAddress)]

def firstLife (a : NormalAccount) (address changeAddress : String) : AccountLife :=
  { issuedLife 2 a address changeAddress with
    subscribers := [⟨0, a⟩]
    imports := [⟨a.id, AccountLife.dataTx.outpoints⟩, ⟨a.id, sampleTx.outpoints⟩] }

def secondLife (a : NormalAccount) (address changeAddress : String) : AccountLife :=
  { issuedLife 4 a address changeAddress with
    imports := [⟨a.id, AccountLife.dataTx.outpoints⟩, ⟨a.id, sampleTx.outpoints⟩,
      ⟨a.id, sampleTx.outpoints⟩] }

theorem throws_dataTx (l : SubscribedVersion) :
    l.throws .knownScripts (.transaction AccountLife.dataTx) =
      decide (l.account.watchingAddresses.getD [] ≠ []) := by
  rw [Bool.eq_iff_iff, SubscribedVersion.throws_transaction, decide_eq_true_eq, Decodes, not_or,
    and_iff_left (by decide)]

theorem throws_sampleTx (l : SubscribedVersion) :
    l.throws .knownScripts (.transaction sampleTx) = false := by
  rw [← Bool.not_eq_true, SubscribedVersion.throws_transaction, not_not]
  exact .inr (by decide)

theorem arrives_sample (repos : Repositories SymbolicNode) (wallet : BasicWallet NormalAccount)
    {a b : NormalAccount} (ha : Fresh a) (hb : Fresh b) (hsource : a.observableBlockchain = 0)
    (hsource' : b.observableBlockchain = 0) (address change address' change' : String) :
    ((⟨repos, wallet, [issuedLife 2 a address change, issuedLife 4 b address' change'],
      [(0, ⟨0, a⟩), (1, ⟨0, b⟩), (0, ⟨1, VersionChange.apply a (.issued address change)⟩),
        (1, ⟨1, VersionChange.apply b (.issued address' change')⟩)]⟩ :
        WalletLife SymbolicNode).arrives .knownScripts 0 (.transaction AccountLife.dataTx)).arrives
          .knownScripts 0 (.transaction sampleTx) =
      ⟨repos, wallet, [firstLife a address change, secondLife b address' change'],
        [(0, ⟨0, a⟩), (1, ⟨0, b⟩),
          (1, ⟨1, VersionChange.apply b (.issued address' change')⟩)]⟩ := by
  simp [arrives, reached, listening, AccountLife.arrives, AccountLife.requests_transaction,
    AccountLife.takers, Observers.visited, Observers.takers, Observers.remaining, throws_dataTx,
    throws_sampleTx, VersionChange.apply, ha.1, hb.1, hsource, hsource', issuedLife, firstLife,
    secondLife]

theorem run_sampleEvents {r : Repositories SymbolicNode}
    {made : Repositories SymbolicNode × BasicWallet NormalAccount}
    (hcreated : Created SymbolicNode.lib SymbolicNode.seeds r made) :
    ∃ s a b address change address' change',
      (machine SymbolicNode.lib .knownScripts).run (start made) sampleEvents = some s ∧
        s.lives = [firstLife a address change, secondLife b address' change'] := by
  obtain ⟨master, hok, hnone⟩ := walletOk_created hcreated
  obtain ⟨one, hone⟩ := hok.step_exists SymbolicNode.lib_lawful (by rw [hnone]; decide)
    (sampleRequest .btc)
  obtain ⟨hok', -⟩ := hok.step SymbolicNode.lib_lawful SymbolicNode.lib_distinctAddresses hone
  obtain ⟨a, ha, hfresh, hsource⟩ := accounts_added (s := start made) hone
  dsimp only [start] at ha
  rw [hnone, List.nil_append] at ha
  obtain ⟨two, htwo⟩ := hok'.step_exists SymbolicNode.lib_lawful (by rw [ha]; simp)
    (sampleRequest .eth)
  obtain ⟨hok'', -⟩ := hok'.step SymbolicNode.lib_lawful SymbolicNode.lib_distinctAddresses htwo
  obtain ⟨b, hb, hfresh', hsource'⟩ := accounts_added
    (s := ⟨one.1, one.2, [.start 2 a], [(0, ⟨0, a⟩)]⟩) htwo
  rw [ha, List.singleton_append] at hb
  have hadd := addAccount_step .knownScripts (s := start made) hone 2
  have hadd' := addAccount_step .knownScripts
    (s := ⟨one.1, one.2, [.start 2 a], [(0, ⟨0, a⟩)]⟩) htwo 4
  simp only [ha, start, List.length_nil, List.drop_zero, List.map_singleton, List.mapIdx_singleton,
    List.nil_append, Nat.add_zero] at hadd
  simp only [hb, List.length_singleton, List.drop_succ_cons, List.drop_zero, List.map_singleton,
    List.mapIdx_singleton, List.singleton_append, Nat.add_zero] at hadd'
  obtain ⟨address, change, hfirst⟩ := getAddress_step .knownScripts
    SymbolicNode.lib_lawful SymbolicNode.lib_addressesDecode
    (s := ⟨two.1, two.2, [.start 2 a, .start 4 b], [(0, ⟨0, a⟩), (1, ⟨0, b⟩)]⟩)
    (i := 0) (k := 0) rfl rfl
    (AccountOk.holds (hok''.account 0 a (by rw [hb]; rfl))) (show 0 < 2 ^ 31 by decide)
  obtain ⟨address', change', hsecond⟩ := getAddress_step .knownScripts
    SymbolicNode.lib_lawful SymbolicNode.lib_addressesDecode
    (s := ⟨two.1, two.2, [issuedLife 2 a address change, .start 4 b],
      [(0, ⟨0, a⟩), (1, ⟨0, b⟩), (0, ⟨1, VersionChange.apply a (.issued address change)⟩)]⟩)
    (i := 1) (k := 0) rfl rfl
    (AccountOk.holds (hok''.account 1 b (by rw [hb]; rfl))) (show 0 < 2 ^ 31 by decide)
  refine ⟨⟨two.1, two.2, [firstLife a address change, secondLife b address' change'],
    [(0, ⟨0, a⟩), (1, ⟨0, b⟩), (1, ⟨1, VersionChange.apply b (.issued address' change')⟩)]⟩,
    a, b, address, change, address', change', ?_, rfl⟩
  refine (Machine.run_cons_eq_some _).mpr ⟨_, hadd, ?_⟩
  refine (Machine.run_cons_eq_some _).mpr ⟨_, hadd', ?_⟩
  refine (Machine.run_cons_eq_some _).mpr ⟨_, hfirst, ?_⟩
  refine (Machine.run_cons_eq_some _).mpr ⟨_, hsecond, ?_⟩
  refine (Machine.run_cons_eq_some _).mpr ⟨_, rfl, ?_⟩
  refine (Machine.run_cons_eq_some _).mpr ⟨_, rfl, ?_⟩
  exact congrArg some
    (arrives_sample two.1 two.2 hfresh hfresh' hsource hsource' address change address' change')

theorem knownScripts_classified (outpoints : List OutpointWithScriptAndAmount) :
    Classified .knownScripts outpoints := by
  intro o ho
  unfold ScriptLib.knownScripts
  dsimp only
  split
  · exact ⟨_, rfl⟩
  · exact ⟨_, rfl⟩

theorem symbolic_pubkey_ne (node : SymbolicNode) (i : Nat) (child : SymbolicNode)
    (h : SymbolicNode.lib.derive node (.num i) = .ok child) :
    SymbolicNode.lib.getPublicKeyBuffer child ≠ [] := by
  have hchild := SymbolicNode.descend_eq ((HDNodeLib.descend_singleton node i).trans h)
  rw [hchild.2]
  simp [SymbolicNode.lib, SymbolicNode.uint32]

/-! ## The wallet as a whole -/

section Wallet

variable {seeds : SeedLib Node} {r : Repositories Node}
  {made : Repositories Node × BasicWallet NormalAccount}

theorem run_alone (hrun : (machine lib btc).run (start made) events = some s) {i : Nat}
    {life : AccountLife} (hlife : s.lives[i]? = some life) :
    ∃ nextRef a, s.wallet.accounts[i]? = some a ∧
      (AccountLife.machine btc).run (.start nextRef a) (toldIn lib btc i (start made) events) =
        some life := by
  obtain ⟨c, hnone | ⟨-, nextRef, a, ha, rfl⟩, hown⟩ := (composed lib btc).run hrun hlife
  · cases hnone
  · exact ⟨nextRef, a, ha, hown⟩

theorem books_alone (hlaw : lib.Lawful) (hdistinct : lib.DistinctAddresses)
    (hpubkey : ∀ node i child, lib.derive node (.num i) = .ok child →
      lib.getPublicKeyBuffer child ≠ [])
    (hclassified : ∀ source tx, .blockchain source (.transaction tx) ∈ events →
      Classified btc tx.outpoints)
    (hstart : Ok lib master (start made)) {i : Nat} {life : AccountLife} {nextRef : ObjRef}
    {a : NormalAccount} (hown : (AccountLife.machine btc).run (.start nextRef a)
      (toldIn lib btc i (start made) events) = some life) :
    (life.manager.records : Multiset CoinRecord) + life.waiting =
      ((AccountLife.deliveries btc (.start nextRef a)
        (toldIn lib btc i (start made) events)).map fun d =>
          d.takers.length • (d.tx.outpoints.map outpointRecord : Multiset CoinRecord)).sum := by
  have himportable : ∀ own ∈ toldIn lib btc i (start made) events,
      AccountLife.Importable btc own :=
    Machine.forall_mem_trace (fun _ _ _ hs hst => Ok.step hlaw hdistinct hs hst) hstart events
      fun _ event hs hevent => Ok.told_importable hpubkey hs i fun source tx heq =>
        hclassified source tx (heq ▸ hevent)
  have hfirst : AccountLife.WaitsClassified btc (.start nextRef a) :=
    fun _ hrequest => absurd hrequest List.not_mem_nil
  calc
    (life.manager.records : Multiset CoinRecord) + life.waiting =
        life.manager.records + life.waiting + AccountLife.refused btc (.start nextRef a)
          (toldIn lib btc i (start made) events) := by
      rw [AccountLife.refused_eq_zero hfirst himportable, add_zero]
    _ = 0 + ((AccountLife.deliveries btc (.start nextRef a)
        (toldIn lib btc i (start made) events)).map fun d =>
          d.takers.length • (d.tx.outpoints.map outpointRecord : Multiset CoinRecord)).sum :=
      AccountLife.books_run hown
    _ = _ := zero_add _

/-- However the accounts of a wallet are mixed, each is in a state it comes to
alone, from its creation on and by what was meant for it and, of each event of
the blockchain since, the part that reached it.  Its versions that take an event
in are those which take it in among all that listen to the observable.  When the
scripts that arrive have a type, no import is refused: its coins, and those that
wait, are all outputs of the transactions since, once for each version that took
them in.  And no line of versions has paid more than nothing in total. -/
theorem accounts_run_alone (hlaw : lib.Lawful) (hdistinct : lib.DistinctAddresses)
    (hcreated : Created lib seeds r made)
    (hrun : (machine lib btc).run (start made) events = some s) {i : Nat} {life : AccountLife}
    (hlife : s.lives[i]? = some life) :
    ∃ nextRef a, s.wallet.accounts[i]? = some a ∧
      (AccountLife.machine btc).run (.start nextRef a) (toldIn lib btc i (start made) events) =
        some life ∧
      life.subscribers = (s.subscribers.filter fun p => p.1 = i).map Prod.snd ∧
      (∀ source event, life.takers btc event (s.reached btc source event i) =
        ((Observers.takers (fun p => p.2.throws btc event) (s.listening source)).filter
          fun p => p.1 = i).map Prod.snd) ∧
      ((∀ node i child, lib.derive node (.num i) = .ok child →
          lib.getPublicKeyBuffer child ≠ []) →
        (∀ source tx, .blockchain source (.transaction tx) ∈ events →
          Classified btc tx.outpoints) →
        (life.manager.records : Multiset CoinRecord) + life.waiting =
          ((AccountLife.deliveries btc (.start nextRef a)
            (toldIn lib btc i (start made) events)).map fun d =>
              d.takers.length • (d.tx.outpoints.map outpointRecord : Multiset CoinRecord)).sum) ∧
      ∀ k < life.versions.length, ((lineage life.made k).map VersionChange.spent).sum ≤ 0 := by
  obtain ⟨master, hstart⟩ := ok_start hcreated
  obtain ⟨nextRef, a, ha, hown⟩ := run_alone hrun hlife
  have hlistening := (listening_start hcreated).run hrun
  refine ⟨nextRef, a, ha, hown, (hlistening.own i life hlife).symm, hlistening.takers_eq hlife,
    fun hpubkey hclassified => books_alone hlaw hdistinct hpubkey hclassified hstart hown,
    fun k hk => ?_⟩
  have hok := ok_run hlaw hdistinct hstart hrun
  have hinv := AccountLife.inv_run hown (AccountLife.inv_start nextRef a)
  have hzero : a.balance.amount = 0 :=
    congrArg Balance.amount (hok.fresh a (List.mem_of_getElem? ha)).2
  have hspent := hinv.spent_le (Int.le_of_eq hzero.symm) (List.getElem?_eq_getElem hk)
  rwa [hzero] at hspent

theorem accounts_run_alone_sample : ∃ s life,
    (machine SymbolicNode.lib .knownScripts).run (start seedWallet) sampleEvents = some s ∧
      s.lives[1]? = some life ∧ life.versions.length = 2 ∧ life.imports.length = 3 ∧
      ∃ nextRef a, s.wallet.accounts[1]? = some a ∧
        (life.manager.records : Multiset CoinRecord) + life.waiting =
          ((AccountLife.deliveries .knownScripts (.start nextRef a)
            (toldIn SymbolicNode.lib .knownScripts 1 (start seedWallet) sampleEvents)).map fun d =>
              d.takers.length •
                (d.tx.outpoints.map outpointRecord : Multiset CoinRecord)).sum := by
  obtain ⟨s, a, b, address, change, address', change', hrun, hlives⟩ :=
    run_sampleEvents seedWallet_created
  have hlife : s.lives[1]? = some (secondLife b address' change') := by rw [hlives]; rfl
  obtain ⟨nextRef, own, hown, -, -, -, hbooks, -⟩ := accounts_run_alone SymbolicNode.lib_lawful
    SymbolicNode.lib_distinctAddresses seedWallet_created hrun hlife
  exact ⟨s, _, hrun, hlife, rfl, rfl, nextRef, own, hown,
    hbooks symbolic_pubkey_ne fun _ tx _ => knownScripts_classified tx.outpoints⟩

/-- No address is watched for two accounts of a wallet, in whatever versions. -/
theorem watched_for_one_account (hlaw : lib.Lawful) (hdistinct : lib.DistinctAddresses)
    (hcreated : Created lib seeds r made)
    (hrun : (machine lib btc).run (start made) events = some s) {i j : Nat} (hne : i ≠ j)
    {life life' : AccountLife} (hlife : s.lives[i]? = some life) (hlife' : s.lives[j]? = some life')
    {v v' : NormalAccount} (hv : v ∈ life.versions) (hv' : v' ∈ life'.versions) :
    (v.watchingAddresses.getD []).Disjoint (v'.watchingAddresses.getD []) := by
  obtain ⟨master, hstart⟩ := ok_start hcreated
  have hok := ok_run hlaw hdistinct hstart hrun
  intro address hwatched hwatched'
  exact hne (below_inj hdistinct ((hok.lives i life hlife).below v hv address hwatched)
    ((hok.lives j life' hlife').below v' hv' address hwatched'))

theorem watched_for_one_account_sample : ∃ s a b address change address' change',
    (machine SymbolicNode.lib .knownScripts).run (start seedWallet) sampleEvents = some s ∧
      s.lives = [firstLife a address change, secondLife b address' change'] ∧
      ((VersionChange.apply a (.issued address change)).watchingAddresses.getD []).Disjoint
        ((VersionChange.apply b (.issued address' change')).watchingAddresses.getD []) := by
  obtain ⟨s, a, b, address, change, address', change', hrun, hlives⟩ :=
    run_sampleEvents seedWallet_created
  have hlife : s.lives[0]? = some (firstLife a address change) := by rw [hlives]; rfl
  have hlife' : s.lives[1]? = some (secondLife b address' change') := by rw [hlives]; rfl
  have hmem : ∀ (ref : ObjRef) (a : NormalAccount) (address change : String),
      VersionChange.apply a (.issued address change) ∈ (issuedLife ref a address change).versions :=
    fun _ _ _ _ => List.mem_cons_of_mem _ List.mem_cons_self
  exact ⟨s, a, b, address, change, address', change', hrun, hlives,
    watched_for_one_account SymbolicNode.lib_lawful SymbolicNode.lib_distinctAddresses
      seedWallet_created hrun Nat.zero_ne_one hlife hlife' (hmem 2 _ _ _) (hmem 4 _ _ _)⟩

/-! ## Imports that wait -/

def waitingImports (s : WalletLife Node) : Nat :=
  TaskList.work (fun life : AccountLife => life.imports.length) s.lives

def IsSettle (event : WalletEvent) : Prop := ∃ account k, event = .settle account k

theorem settle_step {i : Nat} {life : AccountLife} (hlife : s.lives[i]? = some life)
    (hwaits : life.imports ≠ []) :
    ∃ t, (machine lib btc).step s (.settle i 0) = some t ∧
      waitingImports t + 1 = waitingImports s := by
  obtain ⟨request, rest, hrest⟩ := List.exists_cons_of_ne_nil hwaits
  have hrequest : life.imports[0]? = some request := by rw [hrest]; rfl
  have hasked : s.asked lib (.settle i 0) =
      some (i, .settle 0 (.ok (s.repos.keyRepo.getPubKey lib request.id))) := by
    simp [asked, hlife, hrequest]
  obtain ⟨life', hstep, himports⟩ := AccountLife.settle_step btc hrequest
    (.ok (s.repos.keyRepo.getPubKey lib request.id))
  rw [hrest, List.eraseIdx_cons_zero] at himports
  refine ⟨{ s with
    lives := s.lives.set i life'
    subscribers := s.subscribers ++
      (life'.subscribers.drop life.subscribers.length).map fun l => (i, l) }, ?_, ?_⟩
  · simp only [machine, oneAccount, hasked, Option.bind_some, hlife, hstep, Option.map_some]
  · have hset := TaskList.work_set (fun life : AccountLife => life.imports.length) hlife life'
    simp only [himports, hrest, List.length_cons] at hset
    show TaskList.work _ (s.lives.set i life') + 1 = TaskList.work _ s.lives
    omega

theorem exists_settles (lib : HDNodeLib Node) (btc : ScriptLib) (s : WalletLife Node) :
    ∃ settles t, (∀ event ∈ settles, IsSettle event) ∧ settles.length = waitingImports s ∧
      (machine lib btc).run s settles = some t ∧ ∀ life ∈ t.lives, life.imports = [] := by
  have hstep : ∀ s : WalletLife Node, True → waitingImports s ≠ 0 → ∃ event t, IsSettle event ∧
      (machine lib btc).step s event = some t ∧ True ∧ waitingImports t + 1 = waitingImports s := by
    intro s _ hwaiting
    have hsome : ∃ life ∈ s.lives, life.imports ≠ [] := by
      by_contra hnone
      push Not at hnone
      exact hwaiting (TaskList.work_eq_zero.mpr fun life hlife => by rw [hnone life hlife]; rfl)
    obtain ⟨life, hlife, hwaits⟩ := hsome
    obtain ⟨i, hi⟩ := List.getElem?_of_mem hlife
    obtain ⟨t, ht, hmeasure⟩ := settle_step hi hwaits
    exact ⟨.settle i 0, t, ⟨i, 0, rfl⟩, ht, trivial, hmeasure⟩
  obtain ⟨settles, t, hsettles, hlength, hrun, -, hzero⟩ :=
    Machine.exists_run_of_measure hstep (s := s) trivial
  refine ⟨settles, t, hsettles, hlength, hrun, fun life hlife => ?_⟩
  exact List.eq_nil_of_length_eq_zero (TaskList.work_eq_zero.mp hzero life hlife)

theorem told_settle {i : Nat} (hevent : IsSettle event) :
    ∀ own ∈ told lib btc i s event, ∀ tx reached, own ≠ .blockchain (.transaction tx) reached := by
  obtain ⟨account, k, rfl⟩ := hevent
  intro own hown tx reached
  unfold told at hown
  split at hown
  · rcases List.mem_append.mp hown with hown | hown
    · cases hown
    · obtain ⟨⟨account', own'⟩, hasked, rfl⟩ := List.mem_map.mp hown
      exact asked_ne_blockchain (Option.mem_toList.mp (List.mem_filter.mp hasked).1) _ reached
  · cases hown

/-- To settle imports is to deliver nothing. -/
theorem deliveries_settles {settles : List WalletEvent}
    (hsettles : ∀ event ∈ settles, IsSettle event)
    {start u : WalletLife Node} (hrun : (machine lib btc).run start events = some u) {i : Nat}
    {first life : AccountLife}
    (hown : (AccountLife.machine btc).run first (toldIn lib btc i start (events ++ settles)) =
      some life) :
    AccountLife.deliveries btc first (toldIn lib btc i start (events ++ settles)) =
      AccountLife.deliveries btc first (toldIn lib btc i start events) := by
  have htold : toldIn lib btc i start (events ++ settles) =
      toldIn lib btc i start events ++ toldIn lib btc i u settles :=
    Machine.trace_append hrun settles
  have hquiet : ∀ own ∈ toldIn lib btc i u settles, ∀ tx reached,
      own ≠ .blockchain (.transaction tx) reached :=
    Machine.forall_mem_trace (I := fun _ => True) (fun _ _ _ _ _ => trivial) trivial settles
      fun _ event _ hevent => told_settle (hsettles event hevent)
  rw [htold, Machine.run_append] at hown
  obtain ⟨mid, hmid, -⟩ := Option.bind_eq_some_iff.mp hown
  calc
    AccountLife.deliveries btc first (toldIn lib btc i start (events ++ settles)) =
        AccountLife.deliveries btc first (toldIn lib btc i start events) ++
          AccountLife.deliveries btc mid (toldIn lib btc i u settles) := by
      rw [htold]
      exact Machine.trace_append hmid _
    _ = AccountLife.deliveries btc first (toldIn lib btc i start events) := by
      rw [AccountLife.deliveries_eq_nil mid hquiet, List.append_nil]

/-- Whatever has happened to a wallet, the imports that wait can all be settled,
each in one step.  Then each account holds the outputs of all transactions since
its creation, once for each version that took them in, and nothing else: the
order in which the imports were settled has left no trace. -/
theorem imports_settle (hlaw : lib.Lawful) (hdistinct : lib.DistinctAddresses)
    (hpubkey : ∀ node i child, lib.derive node (.num i) = .ok child →
      lib.getPublicKeyBuffer child ≠ [])
    (hclassified : ∀ source tx, .blockchain source (.transaction tx) ∈ events →
      Classified btc tx.outpoints)
    (hcreated : Created lib seeds r made)
    (hrun : (machine lib btc).run (start made) events = some s) :
    ∃ settles t, (∀ event ∈ settles, IsSettle event) ∧ settles.length = waitingImports s ∧
      (machine lib btc).run s settles = some t ∧
      ∀ i life, t.lives[i]? = some life → life.imports = [] ∧
        ∃ nextRef a, t.wallet.accounts[i]? = some a ∧
          (life.manager.records : Multiset CoinRecord) =
            ((AccountLife.deliveries btc (.start nextRef a)
              (toldIn lib btc i (start made) events)).map fun d =>
                d.takers.length •
                  (d.tx.outpoints.map outpointRecord : Multiset CoinRecord)).sum := by
  obtain ⟨master, hstart⟩ := ok_start hcreated
  obtain ⟨settles, t, hsettles, hlength, hsettle, hnone⟩ := exists_settles lib btc s
  refine ⟨settles, t, hsettles, hlength, hsettle, fun i life hlife => ?_⟩
  have himports := hnone life (List.mem_of_getElem? hlife)
  have hall : (machine lib btc).run (start made) (events ++ settles) = some t := by
    rw [Machine.run_append, hrun]
    exact hsettle
  have hall_classified : ∀ source tx,
      .blockchain source (.transaction tx) ∈ events ++ settles → Classified btc tx.outpoints := by
    intro source tx htx
    rcases List.mem_append.mp htx with htx | htx
    · exact hclassified source tx htx
    · obtain ⟨account, k, hsettle⟩ := hsettles _ htx
      cases hsettle
  obtain ⟨nextRef, a, ha, hown⟩ := run_alone hall hlife
  have hbooks := books_alone hlaw hdistinct hpubkey hall_classified hstart hown
  have hwaiting : life.waiting = 0 := by rw [AccountLife.waiting, himports]; rfl
  rw [hwaiting, add_zero, deliveries_settles hsettles hrun hown] at hbooks
  exact ⟨himports, nextRef, a, ha, hbooks⟩

theorem imports_settle_sample : ∃ (s : WalletLife SymbolicNode) (settles : List WalletEvent)
    (t : WalletLife SymbolicNode),
    (machine SymbolicNode.lib .knownScripts).run (start seedWallet) sampleEvents = some s ∧
      settles.length = 5 ∧
      (machine SymbolicNode.lib .knownScripts).run s settles = some t ∧
      ∀ (i : Nat) (life : AccountLife), t.lives[i]? = some life → life.imports = [] := by
  obtain ⟨s, a, b, address, change, address', change', hrun, hlives⟩ :=
    run_sampleEvents seedWallet_created
  obtain ⟨settles, t, -, hlength, hsettle, hall⟩ := imports_settle SymbolicNode.lib_lawful
    SymbolicNode.lib_distinctAddresses symbolic_pubkey_ne
    (fun _ tx _ => knownScripts_classified tx.outpoints) seedWallet_created hrun
  refine ⟨s, settles, t, hrun, ?_, hsettle, fun i life hlife => (hall i life hlife).1⟩
  rw [hlength, waitingImports, hlives]
  rfl

end Wallet

end WalletLife

end Walletts
