import GuardedRegions.Wrapping.Pending
import Mathlib.Data.List.Nodup
import Mathlib.Data.List.Perm.Basic

/-!
# The entries of pending try-blocks

There is one entry under a dominator (`Pending.eq_of_fst_eq`), so that looking it up and finding it in the list are the same
(`Pending.get?_eq_some_iff`). Entries are counted by permutations: one is added (`Pending.perm_insert`) or removed
(`Pending.perm_remove`), and the others stay.
-/

namespace GuardedRegions.Pending

variable {p : Pending} {e e' : Nat × Nat}

theorem get?_eq_some_iff {d i : Nat} : p.get? d = some i ↔ (d, i) ∈ p.entries := by
  obtain ⟨es, hes⟩ := p
  unfold get?
  dsimp only
  induction es with
  | nil => simp
  | cons x xs ih =>
    obtain ⟨hx, hxs⟩ := List.pairwise_cons.1 hes
    rw [lookup_cons_eq_ite, List.mem_cons]
    by_cases hd : d = x.1
    · subst hd
      have hno : (x.1, i) ∉ xs := fun hm => Nat.lt_irrefl _ (hx (x.1, i) hm)
      rw [if_pos rfl, Option.some.injEq]
      simp [hno, Prod.ext_iff, eq_comm]
    · have hno : (d, i) ≠ x := fun he => hd (congrArg Prod.fst he)
      rw [if_neg hd, ih hxs]
      simp [hno]

theorem eq_of_fst_eq (he : e ∈ p.entries) (he' : e' ∈ p.entries) (h : e.1 = e'.1) : e = e' := by
  have hd : p.get? e.1 = some e.2 := get?_eq_some_iff.2 he
  have hd' : p.get? e.1 = some e'.2 := by
    rw [h]
    exact get?_eq_some_iff.2 he'
  exact Prod.ext h (Option.some.inj (hd.symm.trans hd'))

theorem nodup_entries (p : Pending) : p.entries.Nodup := by
  refine p.ascending.imp ?_
  rintro a b hlt rfl
  exact Nat.lt_irrefl _ hlt

theorem perm_remove (he : e ∈ p.entries) : (e :: (p.remove e.1).entries).Perm p.entries := by
  have hremove : (p.remove e.1).entries = p.entries.erase e := by
    rw [p.nodup_entries.erase_eq_filter]
    refine List.filter_congr fun e' he' => ?_
    by_cases h : e' = e
    · subst h
      simp
    · have hne : e'.1 ≠ e.1 := fun hf => h (eq_of_fst_eq he' he hf)
      exact (bne_iff_ne.2 hne).trans (bne_iff_ne.2 h).symm
  rw [hremove]
  exact (List.perm_cons_erase he).symm

theorem perm_insert {d : Nat} (id : Nat) (h : p.get? d = none) :
    (p.insert d id).entries.Perm ((d, id) :: p.entries) := by
  have hlist : ∀ es : List (Nat × Nat), es.lookup d = none → (insertList d id es).Perm ((d, id) :: es) := by
    intro es hes
    induction es with
    | nil => exact .refl _
    | cons x xs ih =>
      rw [lookup_cons_eq_ite] at hes
      have hd : d ≠ x.1 := by
        rintro rfl
        simp at hes
      rw [if_neg hd] at hes
      rw [insertList, if_neg hd]
      split
      · exact .refl _
      · exact ((ih hes).cons x).trans (.swap _ _ _)
  exact hlist p.entries h

end GuardedRegions.Pending
