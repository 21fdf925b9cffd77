import GuardedRegions.Proofs.Document.Place
import GuardedRegions.Proofs.Method
import GuardedRegions.Proofs.Region.Valid

/-!
# What is built from a description

A method that is built from a description is in order: its tree is a tree, its entry and the entries of its handlers are
blocks of it, and all blocks and try-blocks of the tree are in the lists (`Description.Built`). Its graph and its try-blocks do
not depend on the regions that are described. So from the outline of any tree on the same blocks and try-blocks the method can
be built again (`Description.rebuild_ok`), with the same tags, though the regions may have other numbers.
-/

namespace GuardedRegions

namespace Description

variable {d : Description} {m : Method} {t : RegionTree}

theorem toMethod_eq_ok_iff : d.toMethod = .ok m ↔ ∃ graph tryBlocks tree, d.buildGraph = .ok graph ∧
    d.buildTryBlocks = .ok tryBlocks ∧ d.buildTree = .ok tree ∧ m = { name := d.name, graph, tryBlocks, tree } := by
  have hbuild : d.toMethod = .ok m ↔ d.build = .ok m := by
    unfold toMethod
    cases d.build <;> simp [Except.mapError]
  simp only [hbuild, build, bind_eq_ok_iff]
  constructor
  · rintro ⟨graph, hg, tryBlocks, htries, tree, ht, hm⟩
    exact ⟨graph, tryBlocks, tree, hg, htries, ht, (Except.ok.inj hm).symm⟩
  · rintro ⟨graph, tryBlocks, tree, hg, htries, ht, rfl⟩
    exact ⟨graph, hg, tryBlocks, htries, tree, ht, rfl⟩

/-! ## The tree -/

theorem wellFormed_singleton {region : Region} (hp : region.parent = none) (hcs : region.children = []) :
    ({ regions := #[region] } : RegionTree).WellFormed := by
  have hnone : ∀ r, ({ regions := #[region] } : RegionTree).childrenOf r = [] := by
    intro r
    cases r with
    | zero => exact hcs
    | succ r => rfl
  constructor
  · exact ⟨region, rfl, hp⟩
  · intro r c hc
    rw [hnone] at hc
    cases hc
  · intro r
    rw [hnone]
    exact .nil
  · rintro (b | p) q c hpc hqc
    · exact absurd hpc RegionTree.child_block
    · rw [RegionTree.child_region, hnone] at hpc
      cases hpc
  · intro r hr
    obtain rfl : r = 0 := Nat.lt_one_iff.1 hr
    exact .refl

/-- The tree of the outermost region alone, in which the others are placed. -/
def outermost (o : Outline) : RegionTree where
  regions := #[{ kind := o.kind, parent := none, tryBlock := o.tryBlock }]

theorem not_holds_outermost (o : Outline) (b : Nat) : ¬ (outermost o).Holds b := by
  rintro ⟨r, hr⟩
  cases r with
  | zero => cases hr
  | succ r => cases hr

theorem buildTree_eq_ok_iff : d.buildTree = .ok t ↔
    (∀ id, d.regions.tryBlock = some id → id < d.tryBlocks.length) ∧
      d.place 0 d.regions.contents (outermost d.regions) = .ok t ∧ t.WellFormed := by
  rw [← checkTryBlock_eq_ok_iff, ← RegionTree.validate_eq_ok_iff]
  unfold buildTree
  constructor
  · intro h
    obtain ⟨_, htag, h⟩ := bind_eq_ok_iff.1 h
    obtain ⟨u, hu, h⟩ := bind_eq_ok_iff.1 h
    cases hv : u.validate with
    | ok =>
      rw [hv] at h
      obtain rfl := Except.ok.inj h
      exact ⟨htag, hu, hv⟩
    | error flaw =>
      rw [hv] at h
      cases h
  · rintro ⟨htag, hplace, hv⟩
    refine bind_eq_ok_iff.2 ⟨(), htag, bind_eq_ok_iff.2 ⟨t, hplace, ?_⟩⟩
    rw [hv]
    rfl

/-- The tree that is built has the tags and the blocks that are described, and they are in the lists. -/
theorem of_buildTree_eq_ok (h : d.buildTree = .ok t) :
    t.WellFormed ∧ t.tags = d.regions.tryBlock :: d.regions.contents.tags ∧
      (∀ b, t.Holds b ↔ b ∈ d.regions.contents.blocks) ∧ d.Admits d.regions.contents ∧
      ∀ id, d.regions.tryBlock = some id → id < d.tryBlocks.length := by
  obtain ⟨htag, hplace, hw⟩ := buildTree_eq_ok_iff.1 h
  obtain ⟨hadmits, hplaced⟩ := of_place_eq_ok (Nat.zero_lt_one : 0 < (outermost d.regions).size) hplace
  refine ⟨hw, hplaced.tags, fun b => ?_, hadmits, htag⟩
  rw [hplaced.holds_iff]
  exact or_iff_right (not_holds_outermost _ b)

theorem buildTree_ok (ha : d.Admits d.regions.contents) (htag : ∀ id, d.regions.tryBlock = some id → id < d.tryBlocks.length)
    (hnd : d.regions.contents.blocks.Nodup) : ∃ t, d.buildTree = .ok t := by
  have hr : 0 < (outermost d.regions).size := Nat.zero_lt_one
  obtain ⟨t, ht⟩ := place_ok hr ha
  have hw := (of_place_eq_ok hr ht).2.wellFormed (wellFormed_singleton rfl rfl) hnd fun b _ => not_holds_outermost _ b
  exact ⟨t, buildTree_eq_ok_iff.2 ⟨htag, ht, hw⟩⟩

/-! ## The method -/

/-- **A method that is built has the name and the try-blocks that are described**, each with its place as its number, and
nothing is said of its quality yet. -/
theorem name_and_tryBlocks_of_toMethod (h : d.toMethod = .ok m) :
    m.name = d.name ∧ m.tryBlocks = d.tryBlocks.mapIdx (fun id handlers => { id, handlers }) ∧ m.flags = [] ∧
      m.warnings = [] := by
  obtain ⟨graph, tryBlocks, tree, -, htries, -, rfl⟩ := toMethod_eq_ok_iff.1 h
  obtain ⟨-, rfl⟩ := buildTryBlocks_eq_ok_iff.1 htries
  exact ⟨rfl, rfl, rfl, rfl⟩

/-- What is known of a method that was built. -/
structure Built (d : Description) (m : Method) : Prop where
  wellFormed : m.tree.WellFormed
  handlersExist : m.HandlersExist
  entry : ∀ entry, m.graph.entry = some entry → entry < m.graph.blockCount
  ids : ∀ id, m.tryBlock? id ≠ none ↔ id < d.tryBlocks.length
  guards : ∀ b id, m.graph.guardOf b = some id → id < d.tryBlocks.length
  tags : ∀ id, some id ∈ m.tree.tags → id < d.tryBlocks.length
  holds : ∀ b, m.tree.Holds b → b < d.blocks.length

theorem built_of_toMethod (h : d.toMethod = .ok m) : d.Built m := by
  obtain ⟨graph, tryBlocks, tree, hgraph, htries, htree, rfl⟩ := toMethod_eq_ok_iff.1 h
  obtain ⟨hw, htags, hholds, hadmits, htag⟩ := of_buildTree_eq_ok htree
  refine ⟨hw, handlersIn_of_buildTryBlocks htries (blockCount_of_buildGraph hgraph), entry_lt_of_buildGraph hgraph,
    fun id => ?_, fun b id => guard_lt_of_buildGraph hgraph, fun id hid => ?_, fun b hb => ?_⟩
  · show tryBlocks.find? (·.id == id) ≠ none ↔ id < d.tryBlocks.length
    rw [find?_of_buildTryBlocks htries]
    simp
  · rw [htags] at hid
    rcases List.mem_cons.1 hid with hid | hid
    · exact htag id hid.symm
    · exact hadmits.tags id hid
  · exact hadmits.blocks b ((hholds b).1 hb)

/-- **From the outline of a tree the method is built again**, with the tags of the tree. -/
theorem rebuild_ok (h : d.toMethod = .ok m) (hw : t.WellFormed) (htags : ∀ id, some id ∈ t.tags → id < d.tryBlocks.length)
    (hholds : ∀ b, t.Holds b → b < d.blocks.length) :
    ∃ o m', t.outline = .ok o ∧ { d with regions := o }.toMethod = .ok m' ∧ m'.graph = m.graph ∧
      m'.tryBlocks = m.tryBlocks ∧ ∀ tag, tag ∈ m'.tree.tags ↔ tag ∈ t.tags := by
  obtain ⟨graph, tryBlocks, tree, hgraph, htries, -, rfl⟩ := toMethod_eq_ok_iff.1 h
  obtain ⟨o, ho, hblocks, hshown⟩ := hw.outline_ok
  have hadmits : Admits { d with regions := o } o.contents := by
    refine ⟨fun b hb => ?_, fun id hid => ?_⟩
    · rw [hblocks, hw.mem_blockList_root] at hb
      exact hholds b hb
    · exact htags id ((hshown _).1 (List.mem_cons_of_mem _ hid))
  have htag : ∀ id, o.tryBlock = some id → id < d.tryBlocks.length := by
    intro id hid
    exact htags id ((hshown _).1 (hid ▸ List.mem_cons_self))
  have hnd : o.contents.blocks.Nodup := by
    rw [hblocks]
    exact hw.nodup_blockList hw.has_root
  obtain ⟨tree', htree'⟩ := buildTree_ok (d := { d with regions := o }) hadmits htag hnd
  refine ⟨o, _, ho, toMethod_eq_ok_iff.2 ⟨graph, tryBlocks, tree', hgraph, htries, htree', rfl⟩, rfl, rfl, fun tag => ?_⟩
  rw [← hshown tag, (of_buildTree_eq_ok htree').2.1]

end Description

end GuardedRegions
