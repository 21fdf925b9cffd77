import GuardedRegions.Fault
import Mathlib.Data.List.Basic

/-!
# Operations that meet no fault

The walks of the library are loops in `Except`. Where no step of a loop fails, the loop is its pure counterpart
(`allM_eq_ok`, `anyM_eq_ok`, `mapM_eq_ok`, `findM?_eq_ok`); where the steps change a state, `foldlM_eq_ok` finds the last
state from an invariant that may speak of what is still to be done. Where steps may fail, `foldlM_keeps` says what a loop that
ends has kept, and `allM_eq_true_iff` and `anyM_answer` what its answer means.
-/

namespace GuardedRegions

variable {ε α β : Type}

theorem ok_bind (a : α) (f : α → Except ε β) : (Except.ok a >>= f) = f a := rfl

theorem bind_eq_ok_iff {x : Except ε α} {f : α → Except ε β} {b : β} :
    (x >>= f) = .ok b ↔ ∃ a, x = .ok a ∧ f a = .ok b := by
  cases x with
  | error e => simp [bind, Except.bind]
  | ok a => simp [ok_bind]

theorem toOption_eq_some_iff {x : Except ε α} {a : α} : x.toOption = some a ↔ x = .ok a := by
  cases x <;> simp [Except.toOption]

theorem mapM_eq_ok {f : α → Except ε β} {g : α → β} {xs : List α} (h : ∀ x ∈ xs, f x = .ok (g x)) :
    xs.mapM f = .ok (xs.map g) := by
  induction xs with
  | nil => rfl
  | cons x xs ih =>
    rw [List.mapM_cons, h x (by simp), ok_bind, ih fun y hy => h y (by simp [hy])]
    rfl

theorem allM_eq_ok {p : α → Except ε Bool} {q : α → Bool} {xs : List α} (h : ∀ x ∈ xs, p x = .ok (q x)) :
    xs.allM p = .ok (xs.all q) := by
  induction xs with
  | nil => rfl
  | cons x xs ih =>
    rw [List.allM, h x (by simp), ok_bind, ih fun y hy => h y (by simp [hy]), List.all_cons]
    cases q x <;> rfl

theorem anyM_eq_ok {p : α → Except ε Bool} {q : α → Bool} {xs : List α} (h : ∀ x ∈ xs, p x = .ok (q x)) :
    xs.anyM p = .ok (xs.any q) := by
  induction xs with
  | nil => rfl
  | cons x xs ih =>
    rw [List.anyM, h x (by simp), ok_bind, ih fun y hy => h y (by simp [hy]), List.any_cons]
    cases q x <;> rfl

theorem allM_singleton (p : α → Except ε Bool) (x : α) : [x].allM p = p x := by
  rw [List.allM]
  cases p x with
  | error e => rfl
  | ok answer => cases answer <;> rfl

theorem allM_flatMap {p : α → Except ε Bool} {q : β → Except ε Bool} {f : β → List α} {xs : List β}
    (h : ∀ x ∈ xs, q x = (f x).allM p) : xs.allM q = (xs.flatMap f).allM p := by
  induction xs with
  | nil => rfl
  | cons x xs ih =>
    rw [List.allM, h x (by simp), ih fun y hy => h y (by simp [hy]), List.flatMap_cons]
    generalize xs.flatMap f = bs
    induction f x with
    | nil => rfl
    | cons a as ihas =>
      rw [List.cons_append, List.allM, List.allM]
      cases p a with
      | error e => rfl
      | ok answer =>
        cases answer with
        | false => rfl
        | true => exact ihas

theorem allM_eq_true_iff {p : α → Except ε Bool} {xs : List α} : xs.allM p = .ok true ↔ ∀ x ∈ xs, p x = .ok true := by
  induction xs with
  | nil => exact iff_of_true rfl fun _ hx => absurd hx List.not_mem_nil
  | cons x xs ih =>
    rw [List.allM, bind_eq_ok_iff, List.forall_mem_cons, ← ih]
    constructor
    · rintro ⟨_ | _, hx, hxs⟩
      · cases hxs
      · exact ⟨hx, hxs⟩
    · rintro ⟨hx, hxs⟩
      exact ⟨true, hx, hxs⟩

theorem anyM_answer {p : α → Except ε Bool} {xs : List α} {answer : Bool} (h : xs.anyM p = .ok answer) :
    answer = true ↔ ∃ x ∈ xs, p x = .ok true := by
  induction xs with
  | nil =>
    cases h
    simp
  | cons x xs ih =>
    rw [List.anyM, bind_eq_ok_iff] at h
    obtain ⟨_ | _, hx, h⟩ := h
    · rw [ih h, List.exists_mem_cons_iff, hx]
      simp
    · cases h
      exact iff_of_true rfl ⟨x, List.mem_cons_self, hx⟩

theorem findM?_eq_ok {p : α → Except ε Bool} {q : α → Bool} {xs : List α} (h : ∀ x ∈ xs, p x = .ok (q x)) :
    xs.findM? p = .ok (xs.find? q) := by
  induction xs with
  | nil => rfl
  | cons x xs ih =>
    rw [List.findM?, h x (by simp), ok_bind, ih fun y hy => h y (by simp [hy]), List.find?_cons]
    cases q x <;> rfl

theorem forM_eq_ok_iff {f : α → Except ε Unit} {xs : List α} : xs.forM f = .ok () ↔ ∀ x ∈ xs, f x = .ok () := by
  induction xs with
  | nil => exact iff_of_true rfl fun _ hx => absurd hx List.not_mem_nil
  | cons x xs ih =>
    rw [List.forM, bind_eq_ok_iff, List.forall_mem_cons, ← ih]
    exact ⟨fun ⟨_, hx, hxs⟩ => ⟨hx, hxs⟩, fun ⟨hx, hxs⟩ => ⟨(), hx, hxs⟩⟩

/-- A loop ends if each step, from a state that fits what is to be done, leads to one that fits the rest. -/
theorem foldlM_eq_ok {f : β → α → Except ε β} (I : List α → β → Prop)
    (step : ∀ x xs b, I (x :: xs) b → ∃ b', f b x = .ok b' ∧ I xs b') {xs : List α} {b : β} (h : I xs b) :
    ∃ b', xs.foldlM f b = .ok b' ∧ I [] b' := by
  induction xs generalizing b with
  | nil => exact ⟨b, rfl, h⟩
  | cons x xs ih =>
    obtain ⟨b', hb, h'⟩ := step x xs b h
    rw [List.foldlM_cons, hb, ok_bind]
    exact ih h'

theorem foldlM_keeps {f : β → α → Except ε β} {P : β → Prop} (step : ∀ b x b', P b → f b x = .ok b' → P b') {xs : List α}
    {b b' : β} (h : P b) (hok : xs.foldlM f b = .ok b') : P b' := by
  induction xs generalizing b with
  | nil => exact Except.ok.inj hok ▸ h
  | cons x xs ih =>
    rw [List.foldlM_cons, bind_eq_ok_iff] at hok
    obtain ⟨c, hc, hok⟩ := hok
    exact ih (step b x c h hc) hok

end GuardedRegions
