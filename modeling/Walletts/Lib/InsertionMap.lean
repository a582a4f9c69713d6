import Mathlib.Data.List.Nodup
/-!
# Insertion-ordered maps

A map that remembers the order in which its keys first came in: writing a new
key appends it, writing a known key replaces its value where it stands.  No key
stands twice, and the structure carries that fact.
-/

/-- A finite map whose entries stand in the order their keys were first set. -/
structure InsertionMap (κ : Type*) (ν : Type*) where
  entries : List (κ × ν)
  nodup_keys : (entries.map Prod.fst).Nodup

namespace InsertionMap

variable {κ ν : Type*}

def empty : InsertionMap κ ν := ⟨[], List.nodup_nil⟩

def keys (m : InsertionMap κ ν) : List κ := m.entries.map Prod.fst

def values (m : InsertionMap κ ν) : List ν := m.entries.map Prod.snd

@[simp] theorem entries_empty : (empty : InsertionMap κ ν).entries = [] := rfl

@[simp] theorem keys_empty : (empty : InsertionMap κ ν).keys = [] := rfl

variable [DecidableEq κ]

def get (m : InsertionMap κ ν) (k : κ) : Option ν :=
  (m.entries.find? fun e => e.1 = k).map Prod.snd

def setEntries (k : κ) (v : ν) : List (κ × ν) → List (κ × ν)
  | [] => [(k, v)]
  | e :: es => if e.1 = k then (k, v) :: es else e :: setEntries k v es

theorem keys_setEntries (k : κ) (v : ν) (es : List (κ × ν)) :
    (setEntries k v es).map Prod.fst =
      if k ∈ es.map Prod.fst then es.map Prod.fst else es.map Prod.fst ++ [k] := by
  induction es with
  | nil => simp [setEntries]
  | cons e es ih =>
      by_cases he : e.1 = k
      · simp [setEntries, he]
      · have hk : k ≠ e.1 := fun h => he h.symm
        simp only [setEntries, if_neg he, List.map_cons, ih, List.mem_cons, hk, false_or]
        split <;> simp

def set (m : InsertionMap κ ν) (k : κ) (v : ν) : InsertionMap κ ν where
  entries := setEntries k v m.entries
  nodup_keys := by
    rw [keys_setEntries]
    split
    · exact m.nodup_keys
    · rename_i hk
      exact List.nodup_append.mpr ⟨m.nodup_keys, List.nodup_singleton k, by
        rintro a ha b hb rfl
        exact hk (List.mem_singleton.mp hb ▸ ha)⟩

theorem setEntries_of_notMem {k : κ} (v : ν) {es : List (κ × ν)}
    (h : k ∉ es.map Prod.fst) : setEntries k v es = es ++ [(k, v)] := by
  induction es with
  | nil => rfl
  | cons e es ih =>
      rw [List.map_cons, List.mem_cons, not_or] at h
      rw [setEntries, if_neg fun he => h.1 he.symm, ih h.2, List.cons_append]

theorem entries_set_of_notMem {m : InsertionMap κ ν} {k : κ} (v : ν)
    (h : k ∉ m.keys) : (m.set k v).entries = m.entries ++ [(k, v)] :=
  setEntries_of_notMem v h

theorem find_setEntries_self (k : κ) (v : ν) (es : List (κ × ν)) :
    (setEntries k v es).find? (fun e => e.1 = k) = some (k, v) := by
  induction es with
  | nil => simp [setEntries]
  | cons e es ih =>
      by_cases he : e.1 = k
      · simp [setEntries, he]
      · simp [setEntries, he, ih]

@[simp] theorem get_set_self (m : InsertionMap κ ν) (k : κ) (v : ν) :
    (m.set k v).get k = some v := by
  simp [get, set, find_setEntries_self]

theorem find_setEntries_of_ne {k k' : κ} (h : k' ≠ k) (v : ν) (es : List (κ × ν)) :
    (setEntries k v es).find? (fun e => e.1 = k') = es.find? fun e => e.1 = k' := by
  induction es with
  | nil => simp [setEntries, h.symm]
  | cons e es ih =>
      by_cases he : e.1 = k
      · simp [setEntries, he, h.symm]
      · by_cases he' : e.1 = k'
        · simp [setEntries, he', h]
        · simp [setEntries, he, he', ih]

theorem get_set_of_ne (m : InsertionMap κ ν) {k k' : κ} (h : k' ≠ k) (v : ν) :
    (m.set k v).get k' = m.get k' := by
  simp [get, set, find_setEntries_of_ne h]

theorem get_set (m : InsertionMap κ ν) (k k' : κ) (v : ν) :
    (m.set k v).get k' = if k' = k then some v else m.get k' := by
  by_cases h : k' = k
  · subst h
    rw [get_set_self, if_pos rfl]
  · rw [get_set_of_ne m h, if_neg h]

end InsertionMap
