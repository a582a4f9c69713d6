import Mathlib.Data.List.Basic
import Mathlib.Tactic.IntervalCases
/-!
# Hexadecimal text

Numbers written in base sixteen without padding, and byte strings written with
two digits a byte.  Both renderings are injective.  Numbers have no fixed
width, so the text of a number can be found behind another text only when the
length of that text is known.
-/

namespace HexText

def ofNat (n : Nat) : String := String.ofList (Nat.toDigits 16 n)

theorem digitChar_injOn {a b : Nat} (ha : a < 16) (hb : b < 16)
    (h : a.digitChar = b.digitChar) : a = b := by
  interval_cases a <;> interval_cases b <;> first | rfl | exact absurd h (by decide)

theorem toDigits_injective : Function.Injective (Nat.toDigits 16) := by
  intro m
  induction m using Nat.strong_induction_on with
  | h m ih =>
      intro n h
      rw [Nat.toDigits_eq_if (n := m) (by omega), Nat.toDigits_eq_if (n := n) (by omega)] at h
      split at h <;> split at h
      · rename_i hm hn
        apply digitChar_injOn hm hn
        simpa using h
      · -- one digit against the digits of a larger number
        have hlen := congrArg List.length h
        have hpos := Nat.length_toDigits_pos (b := 16) (n := n / 16)
        simp only [List.length_append, List.length_singleton] at hlen
        omega
      · have hlen := congrArg List.length h
        have hpos := Nat.length_toDigits_pos (b := 16) (n := m / 16)
        simp only [List.length_append, List.length_singleton] at hlen
        omega
      · obtain ⟨hdiv, hmod⟩ := List.append_inj' h rfl
        have hq : m / 16 = n / 16 := ih (m / 16) (by omega) hdiv
        have hr : m % 16 = n % 16 :=
          digitChar_injOn (Nat.mod_lt _ (by omega)) (Nat.mod_lt _ (by omega)) (by simpa using hmod)
        omega

theorem ofNat_injective : Function.Injective ofNat := fun _ _ h =>
  toDigits_injective (String.ofList_injective h)

/-- Behind texts of one length, the text and the number can be read back. -/
theorem append_ofNat_inj {s t : String} {m n : Nat} (hlen : s.length = t.length)
    (h : s ++ ofNat m = t ++ ofNat n) : s = t ∧ m = n := by
  have hlist : s.toList ++ (ofNat m).toList = t.toList ++ (ofNat n).toList := by
    rw [← String.toList_append, ← String.toList_append, h]
  have hsplit := List.append_inj hlist (by rwa [String.length_toList, String.length_toList])
  exact ⟨String.toList_inj.mp hsplit.1, ofNat_injective (String.toList_inj.mp hsplit.2)⟩

/-! ## Byte strings -/

def byteDigits (b : UInt8) : List Char :=
  [(b.toNat / 16).digitChar, (b.toNat % 16).digitChar]

def ofBytes (bytes : List UInt8) : String := String.ofList (bytes.flatMap byteDigits)

def digitValue (c : Char) : Option Nat :=
  if '0' ≤ c ∧ c ≤ '9' then some (c.toNat - '0'.toNat)
  else if 'a' ≤ c ∧ c ≤ 'f' then some (c.toNat - 'a'.toNat + 10)
  else if 'A' ≤ c ∧ c ≤ 'F' then some (c.toNat - 'A'.toNat + 10)
  else none

/-- Read digits two by two, up to the first pair that is not one byte. -/
def readDigits : List Char → List UInt8
  | a :: b :: rest =>
      match digitValue a, digitValue b with
      | some x, some y => UInt8.ofNat (16 * x + y) :: readDigits rest
      | _, _ => []
  | _ => []

def toBytes (text : String) : List UInt8 := readDigits text.toList

theorem digitValue_digitChar {n : Nat} (h : n < 16) : digitValue n.digitChar = some n := by
  interval_cases n <;> rfl

theorem readDigits_byteDigits (bytes : List UInt8) :
    readDigits (bytes.flatMap byteDigits) = bytes := by
  induction bytes with
  | nil => rfl
  | cons b bytes ih =>
      have hb := b.toNat_lt
      have hhigh : digitValue (b.toNat / 16).digitChar = some (b.toNat / 16) :=
        digitValue_digitChar (by omega)
      have hlow : digitValue (b.toNat % 16).digitChar = some (b.toNat % 16) :=
        digitValue_digitChar (Nat.mod_lt _ (by omega))
      have hbyte : 16 * (b.toNat / 16) + b.toNat % 16 = b.toNat := Nat.div_add_mod _ _
      simp [byteDigits, readDigits, hhigh, hlow, hbyte, ih]

@[simp] theorem toBytes_ofBytes (bytes : List UInt8) : toBytes (ofBytes bytes) = bytes := by
  simp [toBytes, ofBytes, readDigits_byteDigits]

theorem ofBytes_injective : Function.Injective ofBytes :=
  Function.LeftInverse.injective toBytes_ofBytes

end HexText
