import Walletts.Seeds
import Walletts.Lib.HexText
/-!
# Symbolic keys

An instance of `HDNodeLib` that has the documented properties: the public key
of a node is the text of its path, each index in four bytes, so different paths
have different keys.
-/

namespace Walletts

structure SymbolicNode where
  network : Network
  key : Buffer
  deriving DecidableEq

namespace SymbolicNode

def uint32 (i : Nat) : Buffer :=
  [.ofNat (i / 2 ^ 24), .ofNat (i / 2 ^ 16), .ofNat (i / 2 ^ 8), .ofNat i]

theorem uint32_inj {i j : Nat} (hi : i < 2 ^ 32) (hj : j < 2 ^ 32) (h : uint32 i = uint32 j) :
    i = j := by
  simp only [uint32, List.cons.injEq, and_true] at h
  obtain ⟨h3, h2, h1, h0⟩ := h
  have hbyte : ∀ {m n : Nat}, UInt8.ofNat m = UInt8.ofNat n → m % 2 ^ 8 = n % 2 ^ 8 := by
    intro m n hmn
    simpa [UInt8.toNat_ofNat'] using congrArg UInt8.toNat hmn
  have e3 := hbyte h3
  have e2 := hbyte h2
  have e1 := hbyte h1
  have e0 := hbyte h0
  omega

def child (node : SymbolicNode) (i : Nat) : SymbolicNode := ⟨node.network, node.key ++ uint32 i⟩

def indexError : JsError := ⟨.typeError, "Expected UInt32"⟩

def derive (node : SymbolicNode) : JsNumber → Except JsError SymbolicNode
  | .num i => if i < 2 ^ 32 then .ok (node.child i) else .error indexError
  | _ => .error indexError

def deriveHardened (node : SymbolicNode) (i : Nat) : Except JsError SymbolicNode :=
  if i < 2 ^ 31 then node.derive (.num (i + 2 ^ 31)) else .error indexError

def deriveSteps : SymbolicNode → HDPath → Except JsError SymbolicNode
  | node, [] => .ok node
  | node, .normal i :: path => (node.derive (.num i)).bind fun child => deriveSteps child path
  | node, .hardened i :: path => (node.deriveHardened i).bind fun child => deriveSteps child path

def derivePath (node : SymbolicNode) : HDPath → Except JsError SymbolicNode
  | [] => .error ⟨.typeError, "Expected BIP32Path, got String \"\""⟩
  | s :: path => node.deriveSteps (s :: path)

def encodeAddress (network : Network) (hash : Buffer) : String :=
  match network with
  | .bitcoin => "1" ++ HexText.ofBytes hash
  | .testnet => "m" ++ HexText.ofBytes hash

/-- The instance; a key is its own hash. -/
def lib : HDNodeLib SymbolicNode where
  derive := derive
  deriveHardened := deriveHardened
  derivePath := derivePath
  network := SymbolicNode.network
  getPublicKeyBuffer := SymbolicNode.key
  getAddress node := encodeAddress node.network node.key
  hash160 := id
  encodeAddress := encodeAddress

theorem lib_derive_of_lt (node : SymbolicNode) {i : Nat} (h : i < 2 ^ 32) :
    lib.derive node (.num i) = .ok (node.child i) := by
  simp only [lib, derive, if_pos h]

theorem lib_derive_of_ge (node : SymbolicNode) {i : Nat} (h : 2 ^ 32 ≤ i) :
    lib.derive node (.num i) = .error indexError := by
  simp only [lib, derive, if_neg (Nat.not_lt.mpr h)]

theorem lib_deriveSteps (node : SymbolicNode) (path : HDPath) :
    node.deriveSteps path = lib.deriveSteps node path := by
  induction path generalizing node with
  | nil => rfl
  | cons s path ih =>
      cases s with
      | normal i => exact congrArg (node.derive (.num i)).bind (funext fun child => ih child)
      | hardened i => exact congrArg (node.deriveHardened i).bind (funext fun child => ih child)

theorem lib_lawful : lib.Lawful where
  derive_undefined _ := ⟨_, rfl⟩
  derive_nan _ := ⟨_, rfl⟩
  derive_num node i hi := ⟨node.child i, lib_derive_of_lt node hi⟩
  derive_large node _ hi := ⟨indexError, lib_derive_of_ge node hi⟩
  deriveHardened_eq _ _ hi := by simp only [lib, deriveHardened, if_pos hi]
  deriveHardened_large _ _ hi :=
    ⟨indexError, by simp only [lib, deriveHardened, if_neg (Nat.not_lt.mpr hi)]⟩
  derivePath_eq node s path := lib_deriveSteps node (s :: path)
  derive_network node index child h := by
    cases index with
    | num i =>
        simp only [lib, derive] at h
        split at h
        · cases h
          rfl
        · cases h
    | nan => cases h
    | undefined => cases h
  getAddress_eq _ := rfl

theorem flatMap_uint32_inj {p q : List Nat} (hp : ∀ i ∈ p, i < 2 ^ 32)
    (hq : ∀ i ∈ q, i < 2 ^ 32) (h : p.flatMap uint32 = q.flatMap uint32) : p = q := by
  induction p generalizing q with
  | nil =>
      cases q with
      | nil => rfl
      | cons j q => simp [uint32] at h
  | cons i p ih =>
      cases q with
      | nil => simp [uint32] at h
      | cons j q =>
          rw [List.flatMap_cons, List.flatMap_cons] at h
          obtain ⟨hhead, htail⟩ := List.append_inj h rfl
          rw [uint32_inj (hp i List.mem_cons_self) (hq j List.mem_cons_self) hhead,
            ih (fun i' hi' => hp i' (List.mem_cons_of_mem _ hi'))
              (fun j' hj' => hq j' (List.mem_cons_of_mem _ hj')) htail]

theorem descend_eq {node a : SymbolicNode} {p : List Nat} (h : lib.descend node p = .ok a) :
    (∀ i ∈ p, i < 2 ^ 32) ∧ a = ⟨node.network, node.key ++ p.flatMap uint32⟩ := by
  induction p generalizing node with
  | nil =>
      cases h
      simp
  | cons i p ih =>
      rw [HDNodeLib.descend] at h
      rcases lt_or_ge i (2 ^ 32) with hi | hi
      · rw [lib_derive_of_lt node hi] at h
        obtain ⟨hp, rfl⟩ := ih h
        exact ⟨List.forall_mem_cons.mpr ⟨hi, hp⟩, by simp [child]⟩
      · rw [lib_derive_of_ge node hi] at h
        cases h

theorem lib_distinctAddresses : lib.DistinctAddresses := by
  intro node p q a b hp hq haddress
  obtain ⟨hpsmall, rfl⟩ := descend_eq hp
  obtain ⟨hqsmall, rfl⟩ := descend_eq hq
  have hhex : HexText.ofBytes (node.key ++ p.flatMap uint32) =
      HexText.ofBytes (node.key ++ q.flatMap uint32) := by
    simp only [lib, encodeAddress] at haddress
    cases hnetwork : node.network <;> simpa [hnetwork] using haddress
  exact flatMap_uint32_inj hpsmall hqsmall
    (List.append_cancel_left (HexText.ofBytes_injective hhex))

/-! ## Seeds -/

def rootKey (seed : Buffer) : Buffer := UInt8.ofNat seed.length :: seed

/-- A mnemonic and its password in sixty-four bytes. -/
def mnemonicToSeed (mnemonic : String) (password : Option String) : Buffer :=
  let text := (mnemonic ++ password.getD "").toList.map fun c : Char => UInt8.ofNat c.toNat
  (text ++ List.replicate 64 0).take 64

def fromSeedBuffer (seed : Buffer) (network : Network) : Except JsError SymbolicNode :=
  if seed.length < 16 then .error ⟨.typeError, "Seed should be at least 128 bits"⟩
  else if 64 < seed.length then .error ⟨.typeError, "Seed should be at most 512 bits"⟩
  else .ok ⟨network, rootKey seed⟩

def seeds : SeedLib SymbolicNode where
  mnemonicToSeed := mnemonicToSeed
  fromSeedBuffer := fromSeedBuffer

theorem length_mnemonicToSeed (mnemonic : String) (password : Option String) :
    (mnemonicToSeed mnemonic password).length = 64 := by
  simp only [mnemonicToSeed, List.length_take, List.length_append, List.length_replicate]
  omega

theorem fromSeedBuffer_mnemonicToSeed (mnemonic : String) (password : Option String)
    (network : Network) :
    seeds.fromSeedBuffer (seeds.mnemonicToSeed mnemonic password) network =
      .ok ⟨network, rootKey (mnemonicToSeed mnemonic password)⟩ := by
  simp [seeds, fromSeedBuffer, length_mnemonicToSeed]

theorem fromSeedBuffer_ok {seed : Buffer} {network : Network} {root : SymbolicNode}
    (h : fromSeedBuffer seed network = .ok root) :
    seed.length ≤ 64 ∧ root = ⟨network, rootKey seed⟩ := by
  unfold fromSeedBuffer at h
  split at h
  · cases h
  · split at h
    · cases h
    · cases h
      exact ⟨by omega, rfl⟩

theorem at_eq {seed : Buffer} {network : Network} {path : List Nat} {a : SymbolicNode}
    (h : seeds.At lib seed network path a) :
    seed.length ≤ 64 ∧ (∀ i ∈ path, i < 2 ^ 32) ∧
      a = ⟨network, rootKey seed ++ path.flatMap uint32⟩ := by
  obtain ⟨root, hroot, ha⟩ := h
  obtain ⟨hlength, rfl⟩ := fromSeedBuffer_ok hroot
  obtain ⟨hpath, rfl⟩ := descend_eq ha
  exact ⟨hlength, hpath, rfl⟩

theorem seeds_lawful : seeds.Lawful lib where
  network_eq _ _ _ h := by
    rw [(fromSeedBuffer_ok h).2]
    rfl
  publicKey_eq _ _ _ _ _ _ ha hb := by
    rw [(at_eq ha).2.2, (at_eq hb).2.2]
    rfl

theorem rootKey_append_inj {s t : Buffer} (hs : s.length ≤ 64) (ht : t.length ≤ 64) {u v : Buffer}
    (h : rootKey s ++ u = rootKey t ++ v) : s = t ∧ u = v := by
  simp only [rootKey, List.cons_append, List.cons.injEq] at h
  have hlength : s.length = t.length := by
    have hbyte := congrArg UInt8.toNat h.1
    simp only [UInt8.toNat_ofNat'] at hbyte
    omega
  exact List.append_inj h.2 hlength

theorem seeds_distinctKeys : seeds.DistinctKeys lib := by
  intro s t _ _ p q a b ha hb hhash
  obtain ⟨hs, hp, rfl⟩ := at_eq ha
  obtain ⟨ht, hq, rfl⟩ := at_eq hb
  obtain ⟨hseed, hpath⟩ := rootKey_append_inj hs ht hhash
  exact ⟨hseed, flatMap_uint32_inj hp hq hpath⟩

end SymbolicNode

end Walletts
