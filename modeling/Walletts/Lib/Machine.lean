import Mathlib.Algebra.BigOperators.Group.List.Basic
/-!
# Labelled machines and their runs

A system that takes one step after another is a partial step function: a label
(the choice of the environment or of the scheduler) either is not enabled in a
state or leads to exactly one next state.  A run is the list of the labels
taken.  This module gives the rules by which facts about one step become facts
about every run; it names no particular system.
-/

structure Machine (S : Type*) (L : Type*) where
  step : S → L → Option S

namespace Machine

variable {S L : Type*} (M : Machine S L)

def run : S → List L → Option S
  | s, [] => some s
  | s, l :: ls => (M.step s l).bind fun t => run t ls

@[simp] theorem run_nil (s : S) : M.run s [] = some s := rfl

@[simp] theorem run_cons (s : S) (l : L) (ls : List L) :
    M.run s (l :: ls) = (M.step s l).bind fun t => M.run t ls := rfl

theorem run_cons_eq_some {s u : S} {l : L} {ls : List L} :
    M.run s (l :: ls) = some u ↔ ∃ t, M.step s l = some t ∧ M.run t ls = some u := by
  rw [run_cons, Option.bind_eq_some_iff]

theorem run_append (s : S) (ls ks : List L) :
    M.run s (ls ++ ks) = (M.run s ls).bind fun t => M.run t ks := by
  induction ls generalizing s with
  | nil => rfl
  | cons l ls ih =>
      simp only [List.cons_append, run_cons, Option.bind_assoc]
      congr 1
      funext t
      exact ih t

variable {M}

@[elab_as_elim]
theorem run_induction {motive : ∀ (s : S) (ls : List L) (t : S), M.run s ls = some t → Prop}
    (nil : ∀ s, motive s [] s rfl)
    (cons : ∀ {s u t l ls} (hstep : M.step s l = some u) (hrest : M.run u ls = some t),
      motive u ls t hrest → motive s (l :: ls) t (M.run_cons_eq_some.mpr ⟨u, hstep, hrest⟩))
    {s : S} {ls : List L} {t : S} (hrun : M.run s ls = some t) : motive s ls t hrun := by
  induction ls generalizing s with
  | nil =>
      obtain rfl : s = t := Option.some.inj hrun
      exact nil s
  | cons l ls ih =>
      obtain ⟨u, hstep, hrest⟩ := M.run_cons_eq_some.mp hrun
      exact cons hstep hrest (ih hrest)

/-- What every step keeps, every run keeps. -/
theorem run_invariant {I : S → Prop}
    (hstep : ∀ s l t, I s → M.step s l = some t → I t)
    {s t : S} {ls : List L} (hrun : M.run s ls = some t) (hs : I s) : I t := by
  induction hrun using run_induction with
  | nil s => exact hs
  | cons hu _ ih => exact ih (hstep _ _ _ hs hu)

theorem run_relation {R : S → S → Prop} (hrefl : ∀ s, R s s)
    (htrans : ∀ s t u, R s t → R t u → R s u)
    (hstep : ∀ s l t, M.step s l = some t → R s t)
    {s t : S} {ls : List L} (hrun : M.run s ls = some t) : R s t := by
  induction hrun using run_induction with
  | nil s => exact hrefl s
  | cons hu _ ih => exact htrans _ _ _ (hstep _ _ _ hu) ih

/-- What only the labels in `G` bring about holds at the end of a run if it held
at its start, or the run has such a label. -/
theorem run_gather {I P : S → Prop} {G : L → Prop}
    (hinv : ∀ s l t, I s → M.step s l = some t → I t)
    (hstep : ∀ s l t, I s → M.step s l = some t → (P t ↔ P s ∨ G l))
    {s t : S} {ls : List L} (hrun : M.run s ls = some t) (hs : I s) :
    P t ↔ P s ∨ ∃ l ∈ ls, G l := by
  induction hrun using run_induction with
  | nil s => simp
  | cons hu _ ih =>
      rw [ih (hinv _ _ _ hs hu), hstep _ _ _ hs hu, List.exists_mem_cons_iff, or_assoc]

/-! ## Runs whose steps meet a condition -/

variable (M) in
/-- Every step of the schedule is taken from a state that, with the label,
meets the condition `G`. -/
def Within (G : S → L → Prop) : S → List L → Prop
  | _, [] => True
  | s, l :: ls => G s l ∧ ∀ t, M.step s l = some t → Within G t ls

/-- The condition holds along every first part of a run that meets it, so a
fact about the last state of such runs is a fact about every state they
reach. -/
theorem Within.of_append {G : S → L → Prop} {s : S} {ls ks : List L}
    (h : M.Within G s (ls ++ ks)) : M.Within G s ls := by
  induction ls generalizing s with
  | nil => trivial
  | cons l ls ih => exact ⟨h.1, fun t ht => ih (h.2 t ht)⟩

theorem Within.and {G H : S → L → Prop} {s : S} {ls : List L} (h : M.Within G s ls)
    (h' : M.Within H s ls) : M.Within (fun s l => G s l ∧ H s l) s ls := by
  induction ls generalizing s with
  | nil => trivial
  | cons l ls ih => exact ⟨⟨h.1, h'.1⟩, fun t ht => ih (h.2 t ht) (h'.2 t ht)⟩

theorem Within.mono {G H : S → L → Prop} {s : S} {ls : List L} (h : M.Within G s ls)
    (hGH : ∀ s l, G s l → H s l) : M.Within H s ls := by
  induction ls generalizing s with
  | nil => trivial
  | cons l ls ih => exact ⟨hGH s l h.1, fun t ht => ih (h.2 t ht)⟩

theorem within_cons {G : S → L → Prop} {s t : S} {l : L} {ls : List L}
    (h : M.step s l = some t) : M.Within G s (l :: ls) ↔ G s l ∧ M.Within G t ls := by
  rw [Within, h]
  simp only [Option.some.injEq, forall_eq']

theorem run_within_cons {G : S → L → Prop} {s t u : S} {l : L} {ls : List L}
    (hstep : M.step s l = some t) (hl : G s l) (h : M.run t ls = some u ∧ M.Within G t ls) :
    M.run s (l :: ls) = some u ∧ M.Within G s (l :: ls) :=
  ⟨M.run_cons_eq_some.mpr ⟨t, hstep, h.1⟩, (within_cons hstep).mpr ⟨hl, h.2⟩⟩

theorem Within.exists_of_mem {G : S → L → Prop} {s t : S} {ls : List L}
    (h : M.Within G s ls) (hrun : M.run s ls = some t) {l : L} (hl : l ∈ ls) : ∃ u, G u l := by
  induction hrun using run_induction with
  | nil s => cases hl
  | @cons s u t k ls hu _ ih =>
      rcases List.mem_cons.mp hl with rfl | hlater
      · exact ⟨s, h.1⟩
      · exact ih (h.2 _ hu) hlater

theorem within_iff_forall {G : L → Prop} {s t : S} {ls : List L} (hrun : M.run s ls = some t) :
    M.Within (fun _ => G) s ls ↔ ∀ l ∈ ls, G l := by
  induction hrun using run_induction with
  | nil s => exact iff_of_true trivial fun _ hl => absurd hl List.not_mem_nil
  | cons hu _ ih => rw [within_cons hu, ih, List.forall_mem_cons]

theorem within_iff_forall_prefix {G : S → L → Prop} {s : S} {ls : List L} :
    M.Within G s ls ↔ ∀ ks l u, ks ++ [l] <+: ls → M.run s ks = some u → G u l := by
  induction ls generalizing s with
  | nil =>
      refine iff_of_true trivial fun ks l u hpre => ?_
      exact absurd (List.prefix_nil.mp hpre) (List.append_ne_nil_of_right_ne_nil _ (by simp))
  | cons k ls ih =>
      constructor
      · rintro ⟨hk, hrest⟩ ks l u hpre hrun
        cases ks with
        | nil =>
            obtain ⟨rfl, -⟩ := List.cons_prefix_cons.mp hpre
            rw [run_nil, Option.some.injEq] at hrun
            exact hrun ▸ hk
        | cons k' ks =>
            obtain ⟨rfl, htail⟩ := List.cons_prefix_cons.mp hpre
            obtain ⟨t, ht, hrun⟩ := M.run_cons_eq_some.mp hrun
            exact ih.mp (hrest t ht) ks l u htail hrun
      · intro hall
        refine ⟨hall [] k s (List.prefix_append [k] ls) rfl, fun t ht => ih.mpr ?_⟩
        intro ks l u hpre hrun
        exact hall (k :: ks) l u (List.cons_prefix_cons.mpr ⟨rfl, hpre⟩)
          (M.run_cons_eq_some.mpr ⟨t, ht, hrun⟩)

theorem within_true (s : S) (ls : List L) : M.Within (fun _ _ => True) s ls := by
  induction ls generalizing s with
  | nil => trivial
  | cons l ls ih => exact ⟨trivial, fun t _ => ih t⟩

theorem run_invariant_within {I : S → Prop} {G : S → L → Prop}
    (hstep : ∀ s l t, I s → G s l → M.step s l = some t → I t)
    {s t : S} {ls : List L} (hrun : M.run s ls = some t)
    (hwithin : M.Within G s ls) (hs : I s) : I t := by
  induction hrun using run_induction with
  | nil s => exact hs
  | cons hu _ ih => exact ih (hwithin.2 _ hu) (hstep _ _ _ hs hwithin.1 hu)

/-- If the labels in `p` each use up a unit of `f`, and only those in `q` bring
some, `k` units each, then a run has no more of the first than it has been
given. -/
theorem run_budget {I : S → Prop} {G : S → L → Prop} {f : S → Nat} {p q : L → Bool} {k : Nat}
    (hinv : ∀ s l t, I s → G s l → M.step s l = some t → I t)
    (hstep : ∀ s l t, I s → G s l → M.step s l = some t →
      f t + (if p l then 1 else 0) ≤ f s + if q l then k else 0)
    {s t : S} {ls : List L} (hrun : M.run s ls = some t) (hwithin : M.Within G s ls) (hs : I s) :
    f t + ls.countP p ≤ f s + k * ls.countP q := by
  induction hrun using run_induction with
  | nil s => simp
  | @cons s u t l ls hu _ ih =>
      have hone := hstep _ _ _ hs hwithin.1 hu
      have hrest := ih (hwithin.2 _ hu) (hinv _ _ _ hs hwithin.1 hu)
      have hgain : k * (if q l then 1 else 0) = if q l then k else 0 := by split <;> simp
      rw [List.countP_cons, List.countP_cons, Nat.mul_add, hgain]
      omega

/-- If some step in `G` takes one away from `f` as long as there is anything left,
then a run of as many such steps leaves nothing. -/
theorem exists_run_of_measure {I : S → Prop} {G : L → Prop} {f : S → Nat}
    (hstep : ∀ s, I s → f s ≠ 0 → ∃ l t, G l ∧ M.step s l = some t ∧ I t ∧ f t + 1 = f s)
    {s : S} (hs : I s) :
    ∃ ls t, (∀ l ∈ ls, G l) ∧ ls.length = f s ∧ M.run s ls = some t ∧ I t ∧ f t = 0 := by
  induction hn : f s generalizing s with
  | zero => exact ⟨[], s, fun _ hl => absurd hl List.not_mem_nil, rfl, rfl, hs, hn⟩
  | succ n ih =>
      obtain ⟨l, u, hl, hu, hI, hmeasure⟩ := hstep s hs (by omega)
      obtain ⟨ls, t, hls, hlength, hrun, ht, hzero⟩ := ih hI (by omega)
      exact ⟨l :: ls, t, List.forall_mem_cons.mpr ⟨hl, hls⟩, congrArg Nat.succ hlength,
        M.run_cons_eq_some.mpr ⟨u, hu, hrun⟩, ht, hzero⟩

/-- If a step keeps `P` exactly where `G` allows it, then the runs all of whose
states have `P` are the runs within `G`. -/
theorem forall_prefix_iff_within {P : S → Prop} {G : S → L → Prop}
    (hstep : ∀ s l t, P s → M.step s l = some t → (P t ↔ G s l))
    {s t : S} {ls : List L} (hrun : M.run s ls = some t) (hs : P s) :
    (∀ ks u, ks <+: ls → M.run s ks = some u → P u) ↔ M.Within G s ls := by
  induction ls generalizing s with
  | nil =>
      refine ⟨fun _ => trivial, ?_⟩
      intro _ ks u hpre hks
      rw [List.prefix_nil.mp hpre, run_nil, Option.some.injEq] at hks
      exact hks ▸ hs
  | cons l ls ih =>
      obtain ⟨v, hv, hrest⟩ := M.run_cons_eq_some.mp hrun
      constructor
      · intro hall
        have hone : M.run s [l] = some v := M.run_cons_eq_some.mpr ⟨v, hv, rfl⟩
        have hPv : P v := hall [l] v (List.prefix_append [l] ls) hone
        refine ⟨(hstep s l v hs hv).mp hPv, ?_⟩
        intro w hw
        obtain rfl := Option.some.inj (hv.symm.trans hw)
        refine (ih hrest hPv).mp fun ks u hpre hks => ?_
        exact hall (l :: ks) u (List.cons_prefix_cons.mpr ⟨rfl, hpre⟩)
          (M.run_cons_eq_some.mpr ⟨v, hv, hks⟩)
      · intro hwithin ks u hpre hks
        have hPv : P v := (hstep s l v hs hv).mpr hwithin.1
        cases ks with
        | nil =>
            rw [run_nil, Option.some.injEq] at hks
            exact hks ▸ hs
        | cons k ks =>
            obtain ⟨rfl, htail⟩ := List.cons_prefix_cons.mp hpre
            obtain ⟨w, hw, hks⟩ := M.run_cons_eq_some.mp hks
            obtain rfl := Option.some.inj (hv.symm.trans hw)
            exact (ih hrest hPv).mpr (hwithin.2 v hv) ks u htail hks

/-! ## Refinement -/

/-- `M` refines `A` along `abs`: each step of `M` is answered by a run of `A`
over the labels that `read` gives for it. -/
structure Refines {T K : Type*} (M : Machine S L) (A : Machine T K)
    (abs : S → T) (read : S → L → List K) : Prop where
  step : ∀ s l t, M.step s l = some t → A.run (abs s) (read s l) = some (abs t)

/-- The labels of the abstract run that answers a schedule. -/
def trace {K : Type*} (M : Machine S L) (read : S → L → List K) : S → List L → List K
  | _, [] => []
  | s, l :: ls =>
      read s l ++ match M.step s l with
        | some t => trace M read t ls
        | none => []

theorem trace_append {K : Type*} {read : S → L → List K} {s t : S} {ls : List L}
    (hrun : M.run s ls = some t) (ks : List L) :
    M.trace read s (ls ++ ks) = M.trace read s ls ++ M.trace read t ks := by
  induction hrun using run_induction with
  | nil s => rfl
  | cons hstep _ ih => simp only [List.cons_append, trace, hstep, ih, List.append_assoc]

theorem forall_mem_trace {K : Type*} {I : S → Prop} {P : K → Prop} {read : S → L → List K}
    (hinv : ∀ s l t, I s → M.step s l = some t → I t) {s : S} (hs : I s) (ls : List L)
    (hread : ∀ s l, I s → l ∈ ls → ∀ k ∈ read s l, P k) :
    ∀ k ∈ M.trace read s ls, P k := by
  induction ls generalizing s with
  | nil => exact fun _ hk => absurd hk List.not_mem_nil
  | cons l ls ih =>
      intro k hk
      rcases List.mem_append.mp hk with hhead | htail
      · exact hread s l hs List.mem_cons_self k hhead
      · cases hstep : M.step s l with
        | none =>
            rw [hstep] at htail
            cases htail
        | some t =>
            rw [hstep] at htail
            refine ih (hinv s l t hs hstep) (fun s l' hs hl' => ?_) k htail
            exact hread s l' hs (List.mem_cons_of_mem _ hl')

theorem run_log {A K : Type*} {f : S → List A} {read : S → L → List K} {g : K → A}
    (hstep : ∀ s l t, M.step s l = some t → f t = f s ++ (read s l).map g)
    {s t : S} {ls : List L} (hrun : M.run s ls = some t) :
    f t = f s ++ (M.trace read s ls).map g := by
  induction hrun using run_induction with
  | nil s => simp [trace]
  | cons hu _ ih => rw [trace, hu, ih, hstep _ _ _ hu, List.map_append, List.append_assoc]

theorem run_sum {G : Type*} [AddMonoid G] {f : S → G} {read : S → L → List G}
    (hstep : ∀ s l t, M.step s l = some t → f t = f s + (read s l).sum)
    {s t : S} {ls : List L} (hrun : M.run s ls = some t) :
    f t = f s + (M.trace read s ls).sum := by
  induction hrun using run_induction with
  | nil s => simp [trace]
  | cons hu _ ih => rw [trace, hu, ih, hstep _ _ _ hu, List.sum_append, add_assoc]

theorem sum_trace_congr {G J K : Type*} [AddMonoid G] {f : J → G} {g : K → G}
    {read : S → L → List J} {read' : S → L → List K}
    (h : ∀ s l, ((read s l).map f).sum = ((read' s l).map g).sum) (s : S) (ls : List L) :
    ((M.trace read s ls).map f).sum = ((M.trace read' s ls).map g).sum := by
  induction ls generalizing s with
  | nil => rfl
  | cons l ls ih =>
      rw [trace, trace, List.map_append, List.map_append, List.sum_append, List.sum_append, h]
      cases M.step s l with
      | none => rfl
      | some t => exact congrArg _ (ih t)

theorem Refines.run {T K : Type*} {A : Machine T K} {abs : S → T}
    {read : S → L → List K} (h : Refines M A abs read)
    {s t : S} {ls : List L} (hrun : M.run s ls = some t) :
    A.run (abs s) (M.trace read s ls) = some (abs t) := by
  induction hrun using run_induction with
  | nil s => rfl
  | cons hu _ ih =>
      rw [trace, hu, A.run_append, h.step _ _ _ hu]
      exact ih

end Machine
