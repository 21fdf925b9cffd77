import GuardedRegions.Proofs.Document.Lists
import GuardedRegions.Proofs.Region.Append
import GuardedRegions.Proofs.Region.Outline

/-!
# Placing described regions

What a description says of the children of a region is placed in a tree child by child, each at the end of its region. This
succeeds if all that is referred to is in the lists, and only then (`Description.place_ok`, `Description.of_place_eq_ok`).
The tags of the new regions come behind those of the tree, the blocks are added to those that it has, and the regions still
form a tree (`Description.Placed`); so the arena stays a tree if no block is there twice (`Placed.wellFormed`).
-/

namespace GuardedRegions

namespace Description

variable {d : Description} {c : Contents} {t u : RegionTree} {r : Nat}

/-- All blocks and try-blocks that are referred to are in the lists. -/
structure Admits (d : Description) (c : Contents) : Prop where
  blocks : ∀ b ∈ c.blocks, b < d.blocks.length
  tags : ∀ id, some id ∈ c.tags → id < d.tryBlocks.length

theorem admits_block_iff {b : Nat} {rest : Contents} :
    d.Admits (.block b rest) ↔ b < d.blocks.length ∧ d.Admits rest := by
  constructor
  · rintro ⟨hb, ht⟩
    obtain ⟨hfirst, hrest⟩ := List.forall_mem_cons.1 hb
    exact ⟨hfirst, hrest, ht⟩
  · rintro ⟨hfirst, hb, ht⟩
    exact ⟨List.forall_mem_cons.2 ⟨hfirst, hb⟩, ht⟩

theorem admits_region_iff {kind : RegionKind} {tag : Option Nat} {inner rest : Contents} :
    d.Admits (.region kind tag inner rest) ↔
      (∀ id, tag = some id → id < d.tryBlocks.length) ∧ d.Admits inner ∧ d.Admits rest := by
  constructor
  · rintro ⟨hb, ht⟩
    obtain ⟨hb₁, hb₂⟩ := List.forall_mem_append.1 hb
    refine ⟨fun id hid => ht id (by simp [Contents.tags, hid]), ⟨hb₁, fun id hid => ht id ?_⟩, hb₂, fun id hid => ht id ?_⟩
    · simp [Contents.tags, hid]
    · simp [Contents.tags, hid]
  · rintro ⟨htag, ⟨hb₁, ht₁⟩, hb₂, ht₂⟩
    refine ⟨List.forall_mem_append.2 ⟨hb₁, hb₂⟩, fun id hid => ?_⟩
    rcases List.mem_cons.1 hid with hid | hid
    · exact htag id hid.symm
    · exact (List.mem_append.1 hid).elim (ht₁ id) (ht₂ id)

structure Placed (c : Contents) (t u : RegionTree) : Prop where
  root : u.root = t.root
  size_le : t.size ≤ u.size
  tags : u.tags = t.tags ++ c.tags
  blocks : (u.listed.filterMap Container.block?).Perm (t.listed.filterMap Container.block? ++ c.blocks)
  framed : t.Framed → u.Framed

namespace Placed

theorem nil (t : RegionTree) : Placed .nil t t where
  root := rfl
  size_le := Nat.le_refl _
  tags := (List.append_nil _).symm
  blocks := by
    rw [Contents.blocks, List.append_nil]
  framed := id

theorem block {b : Nat} {rest : Contents} (hr : r < t.size) (h : Placed rest (t.modify r (·.add (.block b))) u) :
    Placed (.block b rest) t u where
  root := h.root
  size_le := Nat.le_trans (RegionTree.appended_block hr b).size_le h.size_le
  tags := by
    rw [h.tags, RegionTree.tags_modify_add]
    rfl
  blocks := by
    have happ := (RegionTree.appended_block hr b).listed.filterMap Container.block?
    rw [List.filterMap_append] at happ
    refine (h.blocks.trans (happ.append_right _)).trans ?_
    rw [List.append_assoc]
    exact .refl _
  framed ht := h.framed ((RegionTree.appended_block hr b).framed ht (by simp))

theorem region {kind : RegionKind} {tag : Option Nat} {inner rest : Contents} {v : RegionTree} (hr : r < t.size)
    (h : Placed inner
      ((t.create { kind, parent := some r, tryBlock := tag }).modify r (·.add (.region t.size))) v)
    (h' : Placed rest v u) : Placed (.region kind tag inner rest) t u := by
  have happ := RegionTree.appended_region hr kind tag
  refine ⟨h'.root.trans h.root, Nat.le_trans happ.size_le (Nat.le_trans h.size_le h'.size_le), ?_, ?_, fun ht => ?_⟩
  · rw [h'.tags, h.tags, RegionTree.tags_modify_add, RegionTree.tags_create, List.append_assoc, List.append_assoc]
    rfl
  · have hlisted := happ.listed.filterMap Container.block?
    rw [List.filterMap_append] at hlisted
    refine h'.blocks.trans (((h.blocks.trans (hlisted.append_right _)).append_right _).trans ?_)
    rw [List.append_assoc, List.append_assoc]
    exact .refl _
  · refine h'.framed (h.framed (happ.framed ht fun q hq => ?_))
    exact Nat.le_of_eq (Container.region.inj hq)

theorem holds_iff (h : Placed c t u) (b : Nat) : u.Holds b ↔ t.Holds b ∨ b ∈ c.blocks := by
  rw [RegionTree.holds_iff_mem, RegionTree.holds_iff_mem, h.blocks.mem_iff, List.mem_append]

/-- **The arena stays a tree** if no block is placed twice, and none that it has. -/
theorem wellFormed (h : Placed c t u) (hw : t.WellFormed) (hnd : c.blocks.Nodup) (hfresh : ∀ b ∈ c.blocks, ¬ t.Holds b) :
    u.WellFormed := by
  obtain ⟨hf, hb⟩ := RegionTree.wellFormed_iff_framed.1 hw
  refine RegionTree.wellFormed_iff_framed.2 ⟨h.framed hf, h.blocks.nodup_iff.2 (List.nodup_append.2 ⟨hb, hnd, ?_⟩)⟩
  rintro b hold _ hnew rfl
  exact hfresh b hnew (RegionTree.holds_iff_mem.2 hold)

end Placed

theorem place_block_eq_ok_iff {b : Nat} {rest : Contents} :
    d.place r (.block b rest) t = .ok u ↔
      b < d.blocks.length ∧ d.place r rest (t.modify r (·.add (.block b))) = .ok u := by
  have hcheck : d.checkBlock .region b = .ok () ↔ b < d.blocks.length := checkBlock_eq_ok_iff
  rw [place, bind_eq_ok_iff, ← hcheck]
  exact ⟨fun ⟨_, hb, hu⟩ => ⟨hb, hu⟩, fun ⟨hb, hu⟩ => ⟨(), hb, hu⟩⟩

theorem place_region_eq_ok_iff {kind : RegionKind} {tag : Option Nat} {inner rest : Contents} :
    d.place r (.region kind tag inner rest) t = .ok u ↔
      (∀ id, tag = some id → id < d.tryBlocks.length) ∧
        ∃ v, d.place t.size inner ((t.create { kind, parent := some r, tryBlock := tag }).modify r (·.add (.region t.size))) =
          .ok v ∧ d.place r rest v = .ok u := by
  rw [place, bind_eq_ok_iff, ← checkTryBlock_eq_ok_iff]
  simp only [bind_eq_ok_iff]
  exact ⟨fun ⟨_, htag, hu⟩ => ⟨htag, hu⟩, fun ⟨htag, hu⟩ => ⟨(), htag, hu⟩⟩

/-- **What is placed is in the lists**, and it is added to the tree. -/
theorem of_place_eq_ok (hr : r < t.size) (h : d.place r c t = .ok u) : d.Admits c ∧ Placed c t u := by
  induction c generalizing r t u with
  | nil =>
    obtain rfl := Except.ok.inj h
    exact ⟨⟨by simp [Contents.blocks], by simp [Contents.tags]⟩, Placed.nil t⟩
  | block b rest ih =>
    obtain ⟨hb, hrest⟩ := place_block_eq_ok_iff.1 h
    obtain ⟨hadmits, hplaced⟩ := ih (by rwa [RegionTree.size_modify]) hrest
    exact ⟨admits_block_iff.2 ⟨hb, hadmits⟩, hplaced.block hr⟩
  | region kind tag inner rest ihinner ihrest =>
    obtain ⟨htag, v, hinner, hrest⟩ := place_region_eq_ok_iff.1 h
    have happ := RegionTree.appended_region hr kind tag
    obtain ⟨hadmits, hplaced⟩ := ihinner (by rw [RegionTree.size_modify, RegionTree.size_create]; omega) hinner
    obtain ⟨hadmits', hplaced'⟩ := ihrest (Nat.lt_of_lt_of_le hr (Nat.le_trans happ.size_le hplaced.size_le)) hrest
    exact ⟨admits_region_iff.2 ⟨htag, hadmits, hadmits'⟩, hplaced.region hr hplaced'⟩

/-- **What is in the lists can be placed.** -/
theorem place_ok (hr : r < t.size) (ha : d.Admits c) : ∃ u, d.place r c t = .ok u := by
  induction c generalizing r t with
  | nil => exact ⟨t, rfl⟩
  | block b rest ih =>
    obtain ⟨hb, hrest⟩ := admits_block_iff.1 ha
    obtain ⟨u, hu⟩ := ih (t := t.modify r (·.add (.block b))) (by rwa [RegionTree.size_modify]) hrest
    exact ⟨u, place_block_eq_ok_iff.2 ⟨hb, hu⟩⟩
  | region kind tag inner rest ihinner ihrest =>
    obtain ⟨htag, hinner, hrest⟩ := admits_region_iff.1 ha
    have happ := RegionTree.appended_region hr kind tag
    have hnew : t.size <
        ((t.create { kind, parent := some r, tryBlock := tag }).modify r (·.add (.region t.size))).size := by
      rw [RegionTree.size_modify, RegionTree.size_create]
      exact Nat.lt_succ_self _
    obtain ⟨v, hv⟩ := ihinner hnew hinner
    have hplaced := (of_place_eq_ok hnew hv).2
    obtain ⟨u, hu⟩ := ihrest (Nat.lt_of_lt_of_le hr (Nat.le_trans happ.size_le hplaced.size_le)) hrest
    exact ⟨u, place_region_eq_ok_iff.2 ⟨htag, v, hv, hu⟩⟩

end Description

end GuardedRegions
