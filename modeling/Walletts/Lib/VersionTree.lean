import Mathlib.Algebra.Order.Group.Defs
import Mathlib.Algebra.BigOperators.Group.List.Basic
import Mathlib.Data.List.Nodup
import Mathlib.Data.List.Perm.Subperm
import Mathlib.Tactic.Abel
/-!
# Versions derived from versions

A value is never changed; a new version is derived from any version there
already is, by taking a weight away from its value, and is appended to the
list.  The versions so form a tree.  What was taken away is accounted for along
each line of descent; over the whole tree only when no version has two
descendants.
-/

namespace VersionTree

variable {G : Type*}

/-- `Derivation vs ds`: the values `vs` were derived from the first of them.
The `k`-th of `ds` names the version that version `k + 1` was derived from and
the weight taken away. -/
inductive Derivation [Sub G] : List G → List (Nat × G) → Prop
  | root (b : G) : Derivation [b] []
  | derive {vs : List G} {ds : List (Nat × G)} {p : Nat} {v : G} (w : G) :
      Derivation vs ds → vs[p]? = some v → Derivation (vs ++ [v - w]) (ds ++ [(p, w)])

def lineageRev : List (Nat × G) → Nat → List G
  | [], _ => []
  | (p, w) :: rest, k =>
      if k = rest.length + 1 then lineageRev rest p ++ [w] else lineageRev rest k

/-- The weights taken away on the way from the root to version `k`. -/
def lineage (ds : List (Nat × G)) (k : Nat) : List G := lineageRev ds.reverse k

@[simp] theorem lineage_nil (k : Nat) : lineage ([] : List (Nat × G)) k = [] := rfl

theorem lineage_append (ds : List (Nat × G)) (p : Nat) (w : G) (k : Nat) :
    lineage (ds ++ [(p, w)]) k =
      if k = ds.length + 1 then lineage ds p ++ [w] else lineage ds k := by
  simp [lineage, lineageRev]

namespace Derivation

section Structure

variable [Sub G] {vs : List G} {ds : List (Nat × G)}

theorem length_eq (h : Derivation vs ds) : vs.length = ds.length + 1 := by
  induction h with
  | root b => rfl
  | derive w _ _ ih => simp [ih]

theorem parent_lt (h : Derivation vs ds) : ∀ d ∈ ds, d.1 < ds.length := by
  induction h with
  | root b => simp
  | @derive vs ds p v w h hp ih =>
      have hlt : p < vs.length := (List.getElem?_eq_some_iff.mp hp).1
      rw [h.length_eq] at hlt
      intro d hd
      rw [List.length_append, List.length_singleton]
      rcases List.mem_append.mp hd with hd | hd
      · exact (ih d hd).trans (Nat.lt_succ_self _)
      · rw [List.mem_singleton.mp hd]
        exact hlt

/-- When no version has two descendants, the next one can only be derived from
the latest. -/
theorem parent_eq_last (h : Derivation vs ds) {p : Nat} (hp : p < vs.length)
    (hnodup : ((ds.map Prod.fst) ++ [p]).Nodup) : p = ds.length := by
  have hds : (ds.map Prod.fst).Nodup := hnodup.of_append_left
  have hnew : p ∉ ds.map Prod.fst := fun hmem =>
    (List.disjoint_of_nodup_append hnodup) hmem (List.mem_singleton_self p)
  have hsub : ds.map Prod.fst ⊆ List.range ds.length := by
    intro q hq
    obtain ⟨d, hd, rfl⟩ := List.mem_map.mp hq
    exact List.mem_range.mpr (h.parent_lt d hd)
  have hperm : (ds.map Prod.fst).Perm (List.range ds.length) :=
    (List.subperm_of_subset hds hsub).perm_of_length_le (by simp)
  have hge : ¬ p < ds.length := fun hlt =>
    hnew (hperm.mem_iff.mpr (List.mem_range.mpr hlt))
  rw [h.length_eq] at hp
  omega

end Structure

section Accounting

variable [AddCommGroup G] {vs : List G} {ds : List (Nat × G)} {b : G}

theorem value_eq (h : Derivation vs ds) (hb : vs[0]? = some b) {k : Nat} {v : G}
    (hk : vs[k]? = some v) : v = b - (lineage ds k).sum := by
  induction h generalizing k v with
  | root b' =>
      obtain rfl : b' = b := by simpa using hb
      have hlt := (List.getElem?_eq_some_iff.mp hk).1
      obtain rfl : k = 0 := by simpa using hlt
      simpa using hk.symm
  | @derive vs ds p u w h hp ih =>
      have hpos : 0 < vs.length := by rw [h.length_eq]; omega
      rw [List.getElem?_append_left hpos] at hb
      rw [lineage_append, ← h.length_eq]
      by_cases hlast : k = vs.length
      · subst hlast
        obtain rfl : u - w = v := by simpa using hk
        rw [if_pos rfl, List.sum_append, List.sum_singleton, ih hb hp]
        abel
      · have hlt : k < vs.length := by
          have hlt := (List.getElem?_eq_some_iff.mp hk).1
          simp only [List.length_append, List.length_singleton] at hlt
          omega
        rw [List.getElem?_append_left hlt] at hk
        rw [if_neg hlast]
        exact ih hb hk

theorem last_eq (h : Derivation vs ds) (hb : vs[0]? = some b)
    (hlinear : (ds.map Prod.fst).Nodup) :
    vs[ds.length]? = some (b - (ds.map Prod.snd).sum) := by
  induction h with
  | root b' => simpa using hb
  | @derive vs ds p u w h hp ih =>
      have hpos : 0 < vs.length := by rw [h.length_eq]; omega
      rw [List.getElem?_append_left hpos] at hb
      rw [List.map_append] at hlinear
      have hlt : p < vs.length := (List.getElem?_eq_some_iff.mp hp).1
      have hplast : p = ds.length := h.parent_eq_last hlt hlinear
      have hu := ih hb hlinear.of_append_left
      rw [← hplast, hp, Option.some.injEq] at hu
      have hlen : (ds ++ [(p, w)]).length = vs.length := by
        rw [h.length_eq, List.length_append, List.length_singleton]
      rw [hlen, List.getElem?_concat_length, hu, List.map_append, List.sum_append]
      congr 1
      simp only [List.map_cons, List.map_nil, List.sum_singleton]
      abel

end Accounting

section Order

variable [AddCommGroup G] [PartialOrder G] [IsOrderedAddMonoid G]
variable {vs : List G} {ds : List (Nat × G)} {b : G}

/-- On the way to a version that is not below zero, no more is taken away than
the root held. -/
theorem lineage_sum_le (h : Derivation vs ds) (hb : vs[0]? = some b) {k : Nat} {v : G}
    (hk : vs[k]? = some v) (hv : 0 ≤ v) : (lineage ds k).sum ≤ b := by
  rw [h.value_eq hb hk] at hv
  exact sub_nonneg.mp hv

/-- When no version has two descendants and the latest is not below zero, no
more is taken away in all than the root held. -/
theorem sum_le (h : Derivation vs ds) (hb : vs[0]? = some b)
    (hlinear : (ds.map Prod.fst).Nodup) {v : G} (hlast : vs[ds.length]? = some v)
    (hv : 0 ≤ v) : (ds.map Prod.snd).sum ≤ b := by
  rw [h.last_eq hb hlinear] at hlast
  obtain rfl := Option.some.inj hlast
  exact sub_nonneg.mp hv

theorem le_root (h : Derivation vs ds) (hb : vs[0]? = some b)
    (hweights : ∀ d ∈ ds, 0 ≤ d.2) : ∀ v ∈ vs, v ≤ b := by
  induction h with
  | root b' =>
      intro v hv
      obtain rfl : b' = b := by simpa using hb
      exact (List.mem_singleton.mp hv).le
  | @derive vs ds p u w h hp ih =>
      have hpos : 0 < vs.length := by rw [h.length_eq]; omega
      rw [List.getElem?_append_left hpos] at hb
      have hold := ih hb fun d hd => hweights d (List.mem_append_left _ hd)
      have hw : 0 ≤ w := hweights (p, w) (List.mem_append_right _ (List.mem_singleton_self _))
      intro v hv
      rcases List.mem_append.mp hv with hv | hv
      · exact hold v hv
      · rw [List.mem_singleton.mp hv]
        exact (sub_le_self u hw).trans (hold u (List.mem_of_getElem? hp))

end Order

end Derivation

/-! ## Versions made by operations of any kind -/

variable {V D : Type*}

/-- The versions `vs` were made from the first of them.  The `k`-th of `ds`
names the version that version `k + 1` was made from and what was done to it. -/
inductive Descent (apply : V → D → V) : List V → List (Nat × D) → Prop
  | root (v : V) : Descent apply [v] []
  | derive {vs : List V} {ds : List (Nat × D)} {p : Nat} {v : V} (d : D) :
      Descent apply vs ds → vs[p]? = some v →
        Descent apply (vs ++ [apply v d]) (ds ++ [(p, d)])

theorem lineageRev_map (w : D → G) (ds : List (Nat × D)) (k : Nat) :
    lineageRev (ds.map fun d => (d.1, w d.2)) k = (lineageRev ds k).map w := by
  induction ds generalizing k with
  | nil => rfl
  | cons d rest ih =>
      simp only [List.map_cons, lineageRev, List.length_map]
      split
      · rw [ih, List.map_append, List.map_singleton]
      · exact ih k

theorem lineage_map (w : D → G) (ds : List (Nat × D)) (k : Nat) :
    lineage (ds.map fun d => (d.1, w d.2)) k = (lineage ds k).map w := by
  rw [lineage, ← List.map_reverse, lineageRev_map, lineage]

namespace Descent

variable {apply : V → D → V} {vs : List V} {ds : List (Nat × D)}

theorem length_eq (h : Descent apply vs ds) : vs.length = ds.length + 1 := by
  induction h with
  | root v => rfl
  | derive d _ _ ih => simp [ih]

theorem value_eq (h : Descent apply vs ds) {root : V} (hroot : vs[0]? = some root) {k : Nat}
    {v : V} (hk : vs[k]? = some v) : v = (lineage ds k).foldl apply root := by
  induction h generalizing k v with
  | root v' =>
      obtain rfl : v' = root := by simpa using hroot
      have hlt := (List.getElem?_eq_some_iff.mp hk).1
      obtain rfl : k = 0 := by simpa using hlt
      simpa using hk.symm
  | @derive vs ds p u d h hp ih =>
      have hpos : 0 < vs.length := by rw [h.length_eq]; omega
      rw [List.getElem?_append_left hpos] at hroot
      rw [lineage_append, ← h.length_eq]
      by_cases hlast : k = vs.length
      · subst hlast
        obtain rfl : apply u d = v := by simpa using hk
        rw [if_pos rfl, List.foldl_append, ← ih hroot hp]
        rfl
      · have hlt : k < vs.length := by
          have hlt := (List.getElem?_eq_some_iff.mp hk).1
          simp only [List.length_append, List.length_singleton] at hlt
          omega
        rw [List.getElem?_append_left hlt] at hk
        rw [if_neg hlast]
        exact ih hroot hk

theorem derivation [Sub G] {measure : V → G} {weight : D → G}
    (hmeasure : ∀ v d, measure (apply v d) = measure v - weight d) (h : Descent apply vs ds) :
    Derivation (vs.map measure) (ds.map fun d => (d.1, weight d.2)) := by
  induction h with
  | root v => exact .root _
  | @derive vs ds p v d _ hp ih =>
      have hparent : (vs.map measure)[p]? = some (measure v) := by rw [List.getElem?_map, hp]; rfl
      simpa [hmeasure] using ih.derive (weight d) hparent

end Descent

end VersionTree
