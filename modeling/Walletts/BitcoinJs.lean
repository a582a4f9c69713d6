import Walletts.Primitives
import Walletts.Lib.Outcome
import Mathlib.Data.List.Nodup
/-!
# What the wallet uses of bitcoinjs-lib

The library is not part of the repository, so its functions are parameters:
`ScriptLib` for scripts and addresses, `TransactionBuilderLib` for building
transactions, `HDNodeLib` for hierarchical keys.  What is documented of them is
stated beside each, as a property that a theorem asks for by name.
-/

namespace Walletts

/-! ## Transactions -/

/-- A transaction output.  Two outputs with equal script and value are still
two objects, which `ref` tells apart. -/
structure Out where
  ref : ObjRef
  script : Buffer
  value : Nat
  deriving DecidableEq

structure OutpointRef where
  id : String
  index : Nat
  deriving DecidableEq

/-- A parsed transaction.  An id has sixty-four hexadecimal digits, and the
parser makes one object for each output. -/
structure Transaction where
  getId : String
  toHex : String
  ins : List OutpointRef
  outs : List Out
  getId_length : getId.length = 64
  outs_nodup : (outs.map Out.ref).Nodup

/-! ## Scripts and addresses -/

/-- `address.fromOutputScript`, without a network argument, and
`script.classifyOutput`.  Either may throw. -/
structure ScriptLib where
  fromOutputScript : Buffer → Except JsError String
  classifyOutput : Buffer → Except JsError String

namespace ScriptLib

def HasAddress (lib : ScriptLib) (script : Buffer) : Prop :=
  ∃ a, lib.fromOutputScript script = .ok a

instance (lib : ScriptLib) (script : Buffer) : Decidable (lib.HasAddress script) :=
  match h : lib.fromOutputScript script with
  | .ok a => .isTrue ⟨a, h⟩
  | .error _ => .isFalse fun ⟨_, ha⟩ => nomatch h.symm.trans ha

def PaysTo (lib : ScriptLib) (script : Buffer) (a : String) : Prop :=
  lib.fromOutputScript script = .ok a

instance (lib : ScriptLib) (script : Buffer) (a : String) : Decidable (lib.PaysTo script a) :=
  match h : lib.fromOutputScript script with
  | .ok b =>
      if hb : b = a then .isTrue (by rw [PaysTo, h, hb])
      else .isFalse fun hp => hb (Except.ok.inj (h.symm.trans hp))
  | .error _ => .isFalse fun hp => nomatch h.symm.trans hp

def p2pkh (hash : Buffer) : Buffer := [0x76, 0xa9, 0x14] ++ hash ++ [0x88, 0xac]

def genesisHash : Buffer :=
  [0x62, 0xe9, 0x07, 0xb1, 0x5c, 0xbf, 0x27, 0xd5, 0x42, 0x53,
   0x99, 0xeb, 0xf6, 0xf0, 0xfb, 0x50, 0xeb, 0xb8, 0x8f, 0x18]

def eaterHash : Buffer :=
  [0x75, 0x9d, 0x66, 0x77, 0x09, 0x1e, 0x97, 0x3b, 0x9e, 0x9d,
   0x99, 0xf1, 0x9c, 0x68, 0xfb, 0xf4, 0x3e, 0x3f, 0x05, 0xf9]

def knownScripts : ScriptLib where
  fromOutputScript script :=
    if script = p2pkh genesisHash then .ok "1A1zP1eP5QGefi2DMPTfTL5SLmv7DivfNa"
    else if script = p2pkh eaterHash then .ok "1BitcoinEaterAddressDontSendf59kuE"
    else .error ⟨.error, "has no matching Address"⟩
  classifyOutput script :=
    if script = p2pkh genesisHash ∨ script = p2pkh eaterHash then .ok "pubkeyhash"
    else .ok "nonstandard"

end ScriptLib

/-! ## The transaction builder -/

inductive BuilderCall
  | addInput (txHash : String) (vout : Nat)
  | addOutput (address : String) (value : Int)
  deriving DecidableEq

def BuilderCall.input? : BuilderCall → Option (String × Nat)
  | addInput txHash vout => some (txHash, vout)
  | addOutput _ _ => none

/-- A builder answers by the calls it has accepted so far: it refuses a call by
throwing, and `build` throws or returns a transaction. -/
structure TransactionBuilderLib where
  refuse : List BuilderCall → BuilderCall → Option JsError
  build : List BuilderCall → Except JsError Transaction

/-- Code that talks to one builder: from the calls accepted before it to its
outcome and the calls accepted after it.  What was accepted before an error is
thrown stays in the builder. -/
def BuilderM (α : Type) : Type := List BuilderCall → Except JsError α × List BuilderCall

namespace BuilderM

instance : Monad BuilderM where
  pure a := fun history => (.ok a, history)
  bind x f := fun history => match x history with
    | (.ok a, history') => f a history'
    | (.error e, history') => (.error e, history')

theorem bind_apply {α β : Type} (x : BuilderM α) (f : α → BuilderM β)
    (history : List BuilderCall) :
    (x >>= f) history = match x history with
      | (.ok a, history') => f a history'
      | (.error e, history') => (.error e, history') := rfl

theorem observe_bind {α β γ : Type} (observe : List BuilderCall → γ) (x : BuilderM α)
    {f : α → BuilderM β} (hf : ∀ a history, observe (f a history).2 = observe history)
    (history : List BuilderCall) : observe ((x >>= f) history).2 = observe (x history).2 := by
  rw [bind_apply]
  rcases x history with ⟨_ | a, history'⟩
  · rfl
  · exact hf a history'

def forEach {α : Type} (f : α → BuilderM Unit) : List α → BuilderM Unit
  | [] => pure ()
  | x :: xs => do
      f x
      forEach f xs

end BuilderM

namespace TransactionBuilderLib

def call (lib : TransactionBuilderLib) (c : BuilderCall) : BuilderM Unit := fun history =>
  match lib.refuse history c with
  | some e => (.error e, history)
  | none => (.ok (), history ++ [c])

def finish (lib : TransactionBuilderLib) : BuilderM Transaction := fun history =>
  (lib.build history, history)

def inputsOf (history : List BuilderCall) : List (String × Nat) :=
  history.filterMap BuilderCall.input?

def unsignedBuilder : TransactionBuilderLib where
  refuse history c := if c ∈ history then some ⟨.error, "Duplicate TxOut"⟩ else none
  build _ := .error ⟨.error, "Transaction is not complete"⟩

end TransactionBuilderLib

/-! ## Hierarchical keys -/

inductive Network
  | bitcoin
  | testnet
  deriving DecidableEq

/-- A value in the place of a number: JavaScript also passes `undefined` and
`NaN` there. -/
inductive JsNumber
  | num (n : Nat)
  | nan
  | undefined
  deriving DecidableEq

def JsNumber.add (n : Nat) : JsNumber → JsNumber
  | num m => num (n + m)
  | _ => nan

inductive PathStep
  | normal (index : Nat)
  | hardened (index : Nat)
  deriving DecidableEq

def PathStep.number : PathStep → Nat
  | normal index => index
  | hardened index => index + 2 ^ 31

/-- A derivation path; `[normal 0, normal 5]` is the text `0/5`. -/
abbrev HDPath := List PathStep

structure HDNodeLib (Node : Type) where
  derive : Node → JsNumber → Except JsError Node
  deriveHardened : Node → Nat → Except JsError Node
  derivePath : Node → HDPath → Except JsError Node
  network : Node → Network
  getPublicKeyBuffer : Node → Buffer
  getAddress : Node → String
  hash160 : Buffer → Buffer
  encodeAddress : Network → Buffer → String

namespace HDNodeLib

variable {Node : Type} (lib : HDNodeLib Node)

def deriveStep (node : Node) : PathStep → Except JsError Node
  | .normal index => lib.derive node (.num index)
  | .hardened index => lib.deriveHardened node index

def deriveSteps (node : Node) : HDPath → Except JsError Node
  | [] => .ok node
  | s :: path => do deriveSteps (← lib.deriveStep node s) path

def descend (node : Node) : List Nat → Except JsError Node
  | [] => .ok node
  | i :: is => do descend (← lib.derive node (.num i)) is

/-- What is documented of the operations: an index is an unsigned 32-bit
integer, the upper half of which is hardened; a path with a step in it is taken
step by step; a child belongs to the network of its parent; an address encodes
the hash of the public key for the network of the node. -/
structure Lawful : Prop where
  derive_undefined : ∀ node, ∃ e, lib.derive node .undefined = .error e
  derive_nan : ∀ node, ∃ e, lib.derive node .nan = .error e
  derive_num : ∀ node i, i < 2 ^ 32 → ∃ child, lib.derive node (.num i) = .ok child
  derive_large : ∀ node i, 2 ^ 32 ≤ i → ∃ e, lib.derive node (.num i) = .error e
  deriveHardened_eq : ∀ node i, i < 2 ^ 31 →
    lib.deriveHardened node i = lib.derive node (.num (i + 2 ^ 31))
  deriveHardened_large : ∀ node i, 2 ^ 31 ≤ i → ∃ e, lib.deriveHardened node i = .error e
  derivePath_eq : ∀ node s path,
    lib.derivePath node (s :: path) = lib.deriveSteps node (s :: path)
  derive_network : ∀ node index child, lib.derive node index = .ok child →
    lib.network child = lib.network node
  getAddress_eq : ∀ node, lib.getAddress node =
    lib.encodeAddress (lib.network node) (lib.hash160 (lib.getPublicKeyBuffer node))

/-- Different paths from one node lead to different addresses. -/
def DistinctAddresses : Prop :=
  ∀ node p q a b, lib.descend node p = .ok a → lib.descend node q = .ok b →
    lib.getAddress a = lib.getAddress b → p = q

variable {lib}

theorem descend_append (node : Node) (p q : List Nat) :
    lib.descend node (p ++ q) = (lib.descend node p).bind fun a => lib.descend a q := by
  induction p generalizing node with
  | nil => rfl
  | cons i p ih =>
      rw [List.cons_append, descend, descend]
      cases lib.derive node (.num i) with
      | error e => rfl
      | ok child => exact ih child

theorem descend_singleton (node : Node) (i : Nat) :
    lib.descend node [i] = lib.derive node (.num i) := by
  rw [descend]
  cases lib.derive node (.num i) <;> rfl

theorem Lawful.derive_of_deriveHardened (hlaw : lib.Lawful) {node child : Node} {i : Nat}
    (h : lib.deriveHardened node i = .ok child) :
    lib.derive node (.num (i + 2 ^ 31)) = .ok child := by
  rcases lt_or_ge i (2 ^ 31) with hi | hi
  · rw [← hlaw.deriveHardened_eq node i hi, h]
  · obtain ⟨e, he⟩ := hlaw.deriveHardened_large node i hi
    rw [he] at h
    cases h

theorem Lawful.descend_of_deriveSteps (hlaw : lib.Lawful) {node a : Node} {path : HDPath}
    (h : lib.deriveSteps node path = .ok a) :
    lib.descend node (path.map PathStep.number) = .ok a := by
  induction path generalizing node with
  | nil => exact h
  | cons s path ih =>
      obtain ⟨child, hstep, hrest⟩ := Outcome.bind_eq_ok.mp h
      have hchild : lib.derive node (.num s.number) = .ok child := by
        cases s with
        | normal i => exact hstep
        | hardened i => exact hlaw.derive_of_deriveHardened hstep
      rw [List.map_cons, descend, hchild]
      exact ih hrest

theorem Lawful.descend_of_derivePath (hlaw : lib.Lawful) {node a : Node} {s : PathStep}
    {path : HDPath} (h : lib.derivePath node (s :: path) = .ok a) :
    lib.descend node ((s :: path).map PathStep.number) = .ok a :=
  hlaw.descend_of_deriveSteps (hlaw.derivePath_eq node s path ▸ h)

theorem Lawful.deriveSteps_ok (hlaw : lib.Lawful) {path : HDPath}
    (hpath : ∀ s ∈ path, s.number < 2 ^ 32) (node : Node) :
    ∃ a, lib.deriveSteps node path = .ok a := by
  induction path generalizing node with
  | nil => exact ⟨node, rfl⟩
  | cons s path ih =>
      obtain ⟨child, hchild⟩ := hlaw.derive_num node s.number (hpath s List.mem_cons_self)
      have hstep : lib.deriveStep node s = .ok child := by
        cases s with
        | normal i => exact hchild
        | hardened i =>
            have hi : i + 2 ^ 31 < 2 ^ 32 := hpath (.hardened i) List.mem_cons_self
            exact (hlaw.deriveHardened_eq node i (by omega)).trans hchild
      obtain ⟨a, ha⟩ := ih (fun s' hs' => hpath s' (List.mem_cons_of_mem _ hs')) child
      exact ⟨a, by rw [deriveSteps, hstep]; exact ha⟩

theorem Lawful.derivePath_ok (hlaw : lib.Lawful) {s : PathStep} {path : HDPath}
    (hpath : ∀ s' ∈ s :: path, s'.number < 2 ^ 32) (node : Node) :
    ∃ a, lib.derivePath node (s :: path) = .ok a := by
  rw [hlaw.derivePath_eq]
  exact hlaw.deriveSteps_ok hpath node

theorem Lawful.network_descend (hlaw : lib.Lawful) {node a : Node} {p : List Nat}
    (h : lib.descend node p = .ok a) : lib.network a = lib.network node := by
  induction p generalizing node with
  | nil => cases h; rfl
  | cons i p ih =>
      obtain ⟨child, hchild, hrest⟩ := Outcome.bind_eq_ok.mp h
      rw [ih hrest, hlaw.derive_network node _ child hchild]

end HDNodeLib

end Walletts
