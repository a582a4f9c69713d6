import Walletts.Lib.Machine
/-!
# Systems made of components

A system whose state holds a list of components of one kind.  Each step of the
system makes a component take some steps of its own, and may add components at
the end of the list.  A component never sees the others: from its birth on it
runs as it would alone, over the steps that were made for it.
-/

namespace Machine

variable {S L C K : Type*}

/-- `M` is a system of components that run as `A`: `own i s l` are the steps that
the `i`-th component takes in a step of the system, and `Born s i c` says that
`c` may be what the `i`-th component was born as. -/
structure Composed (M : Machine S L) (A : Machine C K) (parts : S → List C)
    (own : Nat → S → L → List K) (Born : S → Nat → C → Prop) : Prop where
  goes_on : ∀ {s l t i c}, M.step s l = some t → (parts s)[i]? = some c →
    ∃ c', (parts t)[i]? = some c' ∧ A.run c (own i s l) = some c'
  born : ∀ {s l t i c}, M.step s l = some t → (parts s)[i]? = none → (parts t)[i]? = some c →
    Born t i c
  unborn : ∀ {s l i}, (parts s)[i]? = none → own i s l = []
  stays_born : ∀ {s l t i c}, M.step s l = some t → Born s i c → Born t i c

namespace Composed

variable {M : Machine S L} {A : Machine C K} {parts : S → List C} {own : Nat → S → L → List K}
  {Born : S → Nat → C → Prop}

theorem run_goes_on (h : Composed M A parts own Born) {s t : S} {ls : List L}
    (hrun : M.run s ls = some t) {i : Nat} {c : C} (hc : (parts s)[i]? = some c) :
    ∃ c', (parts t)[i]? = some c' ∧ A.run c (M.trace (own i) s ls) = some c' := by
  induction hrun using run_induction generalizing c with
  | nil s => exact ⟨c, hc, rfl⟩
  | cons hstep _ ih =>
      obtain ⟨d, hd, hown⟩ := h.goes_on hstep hc
      obtain ⟨c', hc', hrest⟩ := ih hd
      refine ⟨c', hc', ?_⟩
      rw [trace, hstep, A.run_append, hown]
      exact hrest

/-- A component at the end of a run was there at its start or was born in it,
and has run on its own since. -/
theorem run (h : Composed M A parts own Born) {s t : S} {ls : List L}
    (hrun : M.run s ls = some t) {i : Nat} {c' : C} (hc' : (parts t)[i]? = some c') :
    ∃ c, ((parts s)[i]? = some c ∨ (parts s)[i]? = none ∧ Born t i c) ∧
      A.run c (M.trace (own i) s ls) = some c' := by
  cases hi : (parts s)[i]? with
  | some c =>
      obtain ⟨d, hd, hown⟩ := h.run_goes_on hrun hi
      obtain rfl := Option.some.inj (hd.symm.trans hc')
      exact ⟨c, .inl rfl, hown⟩
  | none =>
      induction hrun using run_induction with
      | nil s =>
          rw [hi] at hc'
          cases hc'
      | @cons s u t l ls hstep hrest ih =>
          rw [trace, hstep, h.unborn hi, List.nil_append]
          cases hu : (parts u)[i]? with
          | none =>
              obtain ⟨c, hborn | ⟨-, hborn⟩, hown⟩ := ih hc' hu
              · cases hborn
              · exact ⟨c, .inr ⟨rfl, hborn⟩, hown⟩
          | some c =>
              obtain ⟨d, hd, hown⟩ := h.run_goes_on hrest hu
              obtain rfl := Option.some.inj (hd.symm.trans hc')
              refine ⟨c, .inr ⟨rfl, ?_⟩, hown⟩
              exact run_invariant (I := fun s => Born s i c)
                (fun _ _ _ hs hst => h.stays_born hst hs) hrest (h.born hstep hi hu)

end Composed

end Machine
