import Walletts.BitcoinJs
/-!
# Master nodes

A wallet begins with a seed: the words of a mnemonic, or random bytes.  What
turns these into a master node is not part of the repository and is a
parameter, with what is documented of it: a node carries its network, its keys
do not depend on the network, and different seeds or paths have different keys.
-/

namespace Walletts

/-- `bip39.mnemonicToSeed`, of the words joined by blanks, and
`HDNode.fromSeedBuffer`. -/
structure SeedLib (Node : Type) where
  mnemonicToSeed : String → Option String → Buffer
  fromSeedBuffer : Buffer → Network → Except JsError Node

namespace SeedLib

variable {Node : Type} (seeds : SeedLib Node) (lib : HDNodeLib Node)

def At (seed : Buffer) (network : Network) (path : List Nat) (node : Node) : Prop :=
  ∃ root, seeds.fromSeedBuffer seed network = .ok root ∧ lib.descend root path = .ok node

structure Lawful : Prop where
  network_eq : ∀ seed network root, seeds.fromSeedBuffer seed network = .ok root →
    lib.network root = network
  publicKey_eq : ∀ seed network network' path a b, seeds.At lib seed network path a →
    seeds.At lib seed network' path b → lib.getPublicKeyBuffer a = lib.getPublicKeyBuffer b

/-- The hash of a public key tells the seed and the path it belongs to. -/
def DistinctKeys : Prop :=
  ∀ seed seed' network network' p q a b, seeds.At lib seed network p a →
    seeds.At lib seed' network' q b →
    lib.hash160 (lib.getPublicKeyBuffer a) = lib.hash160 (lib.getPublicKeyBuffer b) →
    seed = seed' ∧ p = q

variable {seeds lib} {seed : Buffer} {network : Network} {path : List Nat} {a b : Node}

theorem at_root (h : seeds.fromSeedBuffer seed network = .ok a) : seeds.At lib seed network [] a :=
  ⟨a, h, rfl⟩

theorem At.append (h : seeds.At lib seed network path a) {q : List Nat}
    (hq : lib.descend a q = .ok b) : seeds.At lib seed network (path ++ q) b := by
  obtain ⟨root, hroot, ha⟩ := h
  refine ⟨root, hroot, ?_⟩
  rw [HDNodeLib.descend_append, ha]
  exact hq

theorem At.unique (ha : seeds.At lib seed network path a) (hb : seeds.At lib seed network path b) :
    a = b := by
  obtain ⟨root, hroot, ha⟩ := ha
  obtain ⟨root', hroot', hb⟩ := hb
  rw [hroot] at hroot'
  obtain rfl := Except.ok.inj hroot'
  rw [ha] at hb
  exact Except.ok.inj hb

theorem At.network_eq (hlaw : lib.Lawful) (hseeds : seeds.Lawful lib)
    (h : seeds.At lib seed network path a) : lib.network a = network := by
  obtain ⟨root, hroot, ha⟩ := h
  rw [hlaw.network_descend ha, hseeds.network_eq seed network root hroot]

end SeedLib

end Walletts
