import Walletts.Lib.Machine
/-!
# Serial order

A machine whose calls overlap may still do what a simpler one does that takes
each call in one step.  It is enough that every step either ends no call and is
invisible to the simpler machine, or ends one call, which the simpler machine
can then take: the calls come in the order in which they end.
-/

namespace Machine

variable {S L C K : Type*}

/-- The calls of `M` that have ended, in the order in which they did, are a run
of `A` whose states stay related to those of `M`.  `G` limits the steps of `M`,
and `P` is what is known of a call in the state in which `A` takes it. -/
structure Serializes (M : Machine S L) (A : Machine C K) (ended : S → List K)
    (R : S → C → Prop) (G : S → L → Prop) (P : C → K → Prop) : Prop where
  step : ∀ {s l t c}, R s c → G s l → M.step s l = some t →
    (ended t = ended s ∧ R t c) ∨
      ∃ k c', ended t = ended s ++ [k] ∧ A.step c k = some c' ∧ P c k ∧ R t c'

theorem Serializes.run {M : Machine S L} {A : Machine C K} {ended : S → List K}
    {R : S → C → Prop} {G : S → L → Prop} {P : C → K → Prop}
    (h : Serializes M A ended R G P) {s t : S} {ls : List L} (hrun : M.run s ls = some t)
    (hwithin : M.Within G s ls) {c : C} (hR : R s c) :
    ∃ ks c', ended t = ended s ++ ks ∧ A.run c ks = some c' ∧ A.Within P c ks ∧ R t c' := by
  induction hrun using run_induction generalizing c with
  | nil s => exact ⟨[], c, (List.append_nil _).symm, rfl, trivial, hR⟩
  | cons hstep _ ih =>
      rcases h.step hR hwithin.1 hstep with ⟨hsame, hnext⟩ | ⟨k, d, hmore, hcall, hP, hnext⟩
      · obtain ⟨ks, c', hended, hruns, hall, hend⟩ := ih (hwithin.2 _ hstep) hnext
        rw [hsame] at hended
        exact ⟨ks, c', hended, hruns, hall, hend⟩
      · obtain ⟨ks, c', hended, hruns, hall, hend⟩ := ih (hwithin.2 _ hstep) hnext
        rw [hmore, List.append_assoc, List.singleton_append] at hended
        refine ⟨k :: ks, c', hended, A.run_cons_eq_some.mpr ⟨d, hcall, hruns⟩, ?_, hend⟩
        exact (within_cons hcall).mpr ⟨hP, hall⟩

end Machine
