import Walletts.Launcher
/-!
# Asking for the words of a mnemonic

`_askMnemonic` asks for one word and calls itself until it has as many words as
the mnemonic is long.  The words it has are in an array of its own, which every
call makes anew.
-/

namespace Walletts

def PromptValue.word : PromptValue → Option String
  | text s => some s
  | answers fields => fields.lookup "mnemonic"

structure CliUIProxy where
  mnemonicLength : Int
  length_mod : mnemonicLength.tmod 12 = 0
  length_le : mnemonicLength ≤ 36

namespace CliUIProxy

def new (mnemonicLength : Int) : Except JsError CliUIProxy :=
  if h : mnemonicLength.tmod 12 ≠ 0 ∨ mnemonicLength > 36 then
    .error ⟨.walletError, "length of mnemonic must be either of 12, 24, 36!"⟩
  else
    .ok ⟨mnemonicLength, not_ne_iff.mp (not_or.mp h).1, not_lt.mp (not_or.mp h).2⟩

theorem mnemonicLength_of_new {n : Int} {ui : CliUIProxy} (h : new n = .ok ui) :
    ui.mnemonicLength = n := by
  unfold new at h
  split at h
  · cases h
  · cases h
    rfl

/-- Zero and the negative multiples of twelve pass the check, too. -/
theorem exists_new_iff (n : Int) : (∃ ui, new n = .ok ui) ↔ 12 ∣ n ∧ n ≤ 36 := by
  constructor
  · rintro ⟨ui, h⟩
    rw [← mnemonicLength_of_new h]
    exact ⟨Int.dvd_of_tmod_eq_zero ui.length_mod, ui.length_le⟩
  · rintro ⟨hdvd, hle⟩
    have hmod : n.tmod 12 = 0 := Int.tmod_eq_zero_of_dvd hdvd
    have hpass : ¬(n.tmod 12 ≠ 0 ∨ n > 36) := by
      rw [not_or]
      exact ⟨not_not.mpr hmod, not_lt.mpr hle⟩
    exact ⟨⟨n, hmod, hle⟩, dif_neg hpass⟩

/-! ## The prompt loop -/

def mnemonicQuestion (mnemonics : List PromptValue) : String :=
  "Please enter your BIP39 mnemonic seed No." ++ toString (mnemonics.length + 1)

def promptMnemonic (m : String) : PromptValue := .answers [("mnemonic", m)]

/-- `_askMnemonic` while the user has typed these words: the questions so far,
the last of which may be open, and the words that are returned. -/
def askMnemonic (ui : CliUIProxy) : List String → List String × Option (List PromptValue)
  | [] => ([mnemonicQuestion []], none)
  | m :: typed =>
      let mnemonics := [] ++ [promptMnemonic m]
      if mnemonics.length = ui.mnemonicLength then
        ([mnemonicQuestion []], some mnemonics)
      else
        -- the call that follows does not get `mnemonics`
        let (questions, returned) := ui.askMnemonic typed
        (mnemonicQuestion [] :: questions, returned)

theorem mnemonicLength_ne_one (ui : CliUIProxy) : ui.mnemonicLength ≠ 1 := by
  intro h
  have hmod := ui.length_mod
  rw [h] at hmod
  exact absurd hmod (by decide)

theorem askMnemonic_eq (ui : CliUIProxy) (typed : List String) :
    ui.askMnemonic typed = (List.replicate (typed.length + 1) (mnemonicQuestion []), none) := by
  induction typed with
  | nil => rfl
  | cons m typed ih =>
      have hlen : ¬(([] ++ [promptMnemonic m]).length : Int) = ui.mnemonicLength := fun h =>
        ui.mnemonicLength_ne_one h.symm
      rw [askMnemonic, if_neg hlen, ih]
      rfl

def firstWords (k : Nat) (words : Nat → String) : List String := (List.range k).map words

/-- The loop ends with the word that completes the mnemonic and returns the words
in their order, each as a text or in the object of its prompt. -/
def ReturnsMnemonic (ui : CliUIProxy) (words : Nat → String) : Prop :=
  ∃ (k : Nat) (questions : List String) (returned : List PromptValue),
    (k : Int) = ui.mnemonicLength ∧
    ui.askMnemonic (firstWords k words) = (questions, some returned) ∧
    questions.length = k ∧
    returned.map PromptValue.word = (firstWords k words).map some

/-- The constructor lets every multiple of twelve up to 36 through, and for none
of them does the loop ever end. -/
theorem askMnemonic_never_returns (n : Int) :
    ((∃ ui, new n = .ok ui) ↔ 12 ∣ n ∧ n ≤ 36) ∧
      ∀ ui, new n = .ok ui → ∀ words,
        (∀ k, (ui.askMnemonic (firstWords k words)).2 = none) ∧ ¬ui.ReturnsMnemonic words := by
  refine ⟨exists_new_iff n, fun ui _ words => ⟨fun k => ?_, ?_⟩⟩
  · rw [askMnemonic_eq]
  · rintro ⟨k, questions, returned, -, hrun, -, -⟩
    rw [askMnemonic_eq] at hrun
    cases hrun

theorem askMnemonic_twelve :
    (∃ ui, new 12 = .ok ui ∧ ¬ui.ReturnsMnemonic fun _ => "zoo") ∧ ∃ ui, new 0 = .ok ui := by
  refine ⟨⟨⟨12, rfl, by decide⟩, rfl, ?_⟩, ⟨0, rfl, by decide⟩, rfl⟩
  rintro ⟨k, questions, returned, hk, hrun, -⟩
  obtain rfl : k = 12 := Int.ofNat.inj hk
  cases congrArg Prod.snd hrun

end CliUIProxy

end Walletts
