import GuardedRegions.Proofs.Region.Tags
import GuardedRegions.Proofs.Wrapping.Run

/-!
# The books of a run

Every entry that was pending at the start of a run has a region, was given up, or is still pending. `Progress.Ledger` lists
the entries that have a region in the order in which the regions were made. The tags of the tree are those that it had at
the start, and after them the try-blocks of this list (`RegionTree.tags`); so the list says how many regions there are for
a try-block, and which number each of them has.
-/

namespace GuardedRegions

/-! ## Tags -/

namespace RegionTree

variable {t u : RegionTree} {r id n : Nat} {moved : List Container}

/-- The second tree has a region of a number that the first one does not have, and it is the body of a try-block. -/
def Gained (t u : RegionTree) (id n : Nat) : Prop :=
  t.size ≤ n ∧ ∃ region, u.get? n = some region ∧ region.tryBlock = some id

theorem Regrouped.tags_eq (h : Regrouped t r moved id u) : u.tags = t.tags ++ [some id] := by
  refine List.ext_getElem? fun i => ?_
  rw [List.getElem?_append, length_tags, getElem?_tags, getElem?_tags]
  rcases Nat.lt_trichotomy i t.size with hi | rfl | hi
  · rw [if_pos hi, h.get?_old i hi, Option.map_map]
    rfl
  · rw [if_neg (Nat.lt_irrefl _), h.get?_new, Nat.sub_self]
    rfl
  · have hu : u.get? i = none := get?_eq_none_iff.2 (by rw [h.size]; omega)
    rw [if_neg (by omega), hu, List.getElem?_eq_none (by simp; omega)]
    rfl

end RegionTree

/-! ## The books -/

namespace Progress

variable {t u : RegionTree} {g : Graph} {doms : Dominance} {tryBlocks : List TryBlock} {pending : Pending}
  {made : List (Nat × Nat)} {x y : Progress} {e : Nat × Nat} {r id n : Nat} {moved : List Container}

/-- What has become of the entries that were pending at the start of a run on a tree. -/
structure Ledger (t : RegionTree) (pending : Pending) (made : List (Nat × Nat)) (x : Progress) : Prop where
  wellFormed : x.tree.WellFormed
  wrapped : x.wrapped = made.length
  tags : x.tree.tags = t.tags ++ made.map fun e => some e.2
  entries : (made ++ x.failures ++ x.pending.entries).Perm pending.entries

namespace Ledger

theorem start (hw : t.WellFormed) : Ledger t pending [] { tree := t, pending } where
  wellFormed := hw
  wrapped := rfl
  tags := (List.append_nil _).symm
  entries := List.Perm.refl _

theorem gaveUp (h : Ledger t pending made x) (he : e ∈ x.pending.entries) :
    Ledger t pending made { x with pending := x.pending.remove e.1, failures := x.failures ++ [e] } where
  wellFormed := h.wellFormed
  wrapped := h.wrapped
  tags := h.tags
  entries := by
    have hleft := (Pending.perm_remove he).append_left (made ++ x.failures)
    simp only [List.append_assoc, List.singleton_append] at hleft ⊢
    exact hleft.trans (by simpa using h.entries)

theorem carved (h : Ledger t pending made x) (he : e ∈ x.pending.entries)
    (hre : RegionTree.Regrouped x.tree r moved e.2 u) :
    Ledger t pending (made ++ [e])
      { x with tree := u, pending := x.pending.remove e.1, wrapped := x.wrapped + 1 } where
  wellFormed := hre.wellFormed h.wellFormed
  wrapped := by rw [h.wrapped, List.length_append, List.length_singleton]
  tags := by
    rw [hre.tags_eq, h.tags, List.map_append, List.append_assoc]
    rfl
  entries := by
    have hleft := (Pending.perm_remove he).append_left (made ++ x.failures)
    refine List.Perm.trans ?_ (hleft.trans h.entries)
    simp only [List.append_assoc, List.singleton_append]
    exact List.perm_middle.symm.append_left made

/-- **A step keeps the books.** -/
theorem step (h : Ledger t pending made x) (hxy : Step g doms tryBlocks r x y) : ∃ made', Ledger t pending made' y := by
  cases hxy with
  | idle => exact ⟨made, h⟩
  | gaveUp hfirst => exact ⟨made, h.gaveUp (Pending.mem_of_first? hfirst)⟩
  | @wrapped e tb u hfirst htb hre =>
    have hid : tb.id = e.2 := by simpa using List.find?_some htb
    exact ⟨made ++ [e], h.carved (Pending.mem_of_first? hfirst) (hid ▸ hre)⟩

theorem size (h : Ledger t pending made x) : x.tree.size = t.size + made.length := by
  have := congrArg List.length h.tags
  simpa using this

theorem mem_of_made (h : Ledger t pending made x) (he : e ∈ made) : e ∈ pending.entries :=
  h.entries.subset (by simp [he])

theorem mem_of_failed (h : Ledger t pending made x) (he : e ∈ x.failures) : e ∈ pending.entries :=
  h.entries.subset (by simp [he])

theorem mem_of_pending (h : Ledger t pending made x) (he : e ∈ x.pending.entries) : e ∈ pending.entries :=
  h.entries.subset (by simp [he])

theorem tag_iff (h : Ledger t pending made x) :
    (∃ region, x.tree.get? n = some region ∧ region.tryBlock = some id) ↔
      (∃ region, t.get? n = some region ∧ region.tryBlock = some id) ∨
        ∃ k e, made[k]? = some e ∧ n = t.size + k ∧ e.2 = id := by
  rw [← RegionTree.getElem?_tags_eq_some_iff, ← RegionTree.getElem?_tags_eq_some_iff, h.tags, List.getElem?_append,
    RegionTree.length_tags]
  split
  · rename_i hn
    refine ⟨Or.inl, ?_⟩
    rintro (hold | ⟨k, e, -, rfl, -⟩)
    · exact hold
    · omega
  · rename_i hn
    have hnone : t.tags[n]? = none := List.getElem?_eq_none (by simpa using hn)
    simp only [hnone, List.getElem?_map, Option.map_eq_some_iff, Option.some.injEq, reduceCtorEq, false_or]
    constructor
    · rintro ⟨e, hk, hid⟩
      exact ⟨n - t.size, e, hk, by omega, hid⟩
    · rintro ⟨k, e, hk, rfl, hid⟩
      exact ⟨e, by rwa [Nat.add_sub_cancel_left], hid⟩

theorem gained_iff (h : Ledger t pending made x) :
    t.Gained x.tree id n ↔ t.size ≤ n ∧ ∃ e, made[n - t.size]? = some e ∧ e.2 = id := by
  refine and_congr_right fun hn => ?_
  rw [h.tag_iff]
  constructor
  · rintro (⟨region, hr, -⟩ | ⟨k, e, hk, rfl, hid⟩)
    · exact absurd (RegionTree.lt_size_of_get? hr) (Nat.not_lt.2 hn)
    · exact ⟨e, by rwa [Nat.add_sub_cancel_left], hid⟩
  · rintro ⟨e, hk, hid⟩
    exact Or.inr ⟨n - t.size, e, hk, by omega, hid⟩

/-- Where no try-block is pending twice, the region of an entry has the number of its line. -/
theorem gained_iff_of_nodup (h : Ledger t pending made x) (hids : (pending.entries.map (·.2)).Nodup)
    (he : e ∈ pending.entries) : t.Gained x.tree e.2 n ↔ t.size ≤ n ∧ made[n - t.size]? = some e := by
  rw [h.gained_iff]
  refine and_congr_right fun _ => ⟨?_, fun hk => ⟨e, hk, rfl⟩⟩
  rintro ⟨e', hk, hid⟩
  rwa [List.inj_on_of_nodup_map hids he (h.mem_of_made (List.mem_of_getElem? hk)) hid.symm]

theorem exists_gained_iff (h : Ledger t pending made x) (hids : (pending.entries.map (·.2)).Nodup)
    (he : e ∈ pending.entries) : (∃ n, t.Gained x.tree e.2 n) ↔ e ∈ made := by
  simp only [h.gained_iff_of_nodup hids he]
  constructor
  · rintro ⟨n, -, hk⟩
    exact List.mem_of_getElem? hk
  · intro hm
    obtain ⟨k, hk⟩ := List.mem_iff_getElem?.1 hm
    exact ⟨t.size + k, Nat.le_add_right _ _, by rwa [Nat.add_sub_cancel_left]⟩

theorem nodup_made (h : Ledger t pending made x) : made.Nodup := by
  have hall := h.entries.nodup_iff.2 pending.nodup_entries
  exact (List.nodup_append.1 (List.nodup_append.1 hall).1).1

theorem eq_of_gained (h : Ledger t pending made x) (hids : (pending.entries.map (·.2)).Nodup) (he : e ∈ pending.entries)
    {n' : Nat} (hn : t.Gained x.tree e.2 n) (hn' : t.Gained x.tree e.2 n') : n = n' := by
  obtain ⟨hle, hk⟩ := (h.gained_iff_of_nodup hids he).1 hn
  obtain ⟨hle', hk'⟩ := (h.gained_iff_of_nodup hids he).1 hn'
  have hlt := (List.getElem?_eq_some_iff.1 hk).1
  have := (List.getElem?_inj hlt h.nodup_made).1 (hk.trans hk'.symm)
  omega

/-- What has its region is not pending, and nothing else is under its dominator. -/
theorem fst_ne_of_made (h : Ledger t pending made x) (he : e ∈ x.pending.entries) {e' : Nat × Nat} (he' : e' ∈ made) :
    e.1 ≠ e'.1 := by
  intro heq
  obtain rfl := Pending.eq_of_fst_eq (h.mem_of_pending he) (h.mem_of_made he') heq
  have hnd := h.entries.nodup_iff.2 pending.nodup_entries
  exact (List.nodup_append.1 hnd).2.2 e (List.mem_append_left _ he') e he rfl

/-- At the end of a run each entry has a region or was given up. -/
theorem perm_of_isEmpty (h : Ledger t pending made x) (hempty : x.pending.isEmpty = true) :
    (made ++ x.failures).Perm pending.entries := by
  have hnil : x.pending.entries = [] := List.isEmpty_iff.1 hempty
  simpa [hnil] using h.entries

end Ledger

theorem Steps.ledger (h : Steps g doms tryBlocks { tree := t, pending } y) (hw : t.WellFormed) :
    ∃ made, Ledger t pending made y :=
  h.preserve (P := fun a => ∃ made, Ledger t pending made a) (fun _ _ _ ⟨_, ha⟩ hab => ha.step hab) ⟨[], Ledger.start hw⟩

end Progress

end GuardedRegions
