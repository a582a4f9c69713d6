/-!
# Computations that may fail

A chain of computations that ends well has ended well at each of its links.
With this rule a successful run is taken apart link by link, and none of the
ways to fail has to be looked at.
-/

namespace Outcome

variable {ε ε' α β : Type}

theorem bind_eq_ok {x : Except ε α} {f : α → Except ε β} {b : β} :
    x >>= f = .ok b ↔ ∃ a, x = .ok a ∧ f a = .ok b := by
  cases x with
  | error e =>
      constructor
      · intro h
        cases h
      · intro h
        obtain ⟨a, ha, _⟩ := h
        cases ha
  | ok a =>
      constructor
      · intro h
        exact ⟨a, rfl, h⟩
      · intro h
        obtain ⟨a', ha, hf⟩ := h
        cases ha
        exact hf

theorem pure_eq_ok {a b : α} : (pure a : Except ε α) = .ok b ↔ a = b :=
  ⟨Except.ok.inj, congrArg Except.ok⟩

theorem mapError_eq_ok {x : Except ε α} {f : ε → ε'} {a : α} :
    x.mapError f = .ok a ↔ x = .ok a := by
  cases x with
  | error e => exact iff_of_false (fun h => nomatch h) (fun h => nomatch h)
  | ok b => exact ⟨fun h => congrArg Except.ok (Except.ok.inj h), fun h => by rw [h]; rfl⟩

theorem mapM_eq_ok {f : α → Except ε β} {xs : List α} {ys : List β} :
    xs.mapM f = .ok ys ↔ xs.map f = ys.map .ok := by
  induction xs generalizing ys with
  | nil =>
      rw [List.mapM_nil, pure_eq_ok]
      cases ys <;> simp
  | cons x xs ih =>
      rw [List.mapM_cons, bind_eq_ok, List.map_cons]
      constructor
      · rintro ⟨y, hy, hall⟩
        obtain ⟨rest, hrest, hys⟩ := bind_eq_ok.mp hall
        obtain rfl := pure_eq_ok.mp hys
        rw [hy, ih.mp hrest, List.map_cons]
      · intro h
        cases ys with
        | nil => cases h
        | cons y ys =>
            rw [List.map_cons, List.cons.injEq] at h
            exact ⟨y, h.1, bind_eq_ok.mpr ⟨ys, ih.mpr h.2, rfl⟩⟩

theorem mapM_error_of_mem {f : α → Except ε β} {xs : List α} {e : ε} (h : .error e ∈ xs.map f) :
    ∃ e', xs.mapM f = .error e' := by
  cases hall : xs.mapM f with
  | error e' => exact ⟨e', rfl⟩
  | ok ys =>
      rw [mapM_eq_ok.mp hall] at h
      obtain ⟨y, -, hy⟩ := List.mem_map.mp h
      cases hy

end Outcome
