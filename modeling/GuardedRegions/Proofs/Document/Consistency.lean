import GuardedRegions.Proofs.Document.Build

/-!
# Which descriptions are consistent

What a description refers to is checked in five places while its graph, its try-blocks and its tree are built.
`Description.InRange` says what these checks ask for together (`inRange_iff`), and none of them fails for anything but an index
(`ByIndex`). What has passed them gives a tree whose regions are in order whatever their nesting, so that the examination can
only find a block that is described twice (`build_of_inRange`).
-/

namespace GuardedRegions

namespace Description

variable {d : Description} {t : RegionTree} {flaw : TreeFlaw} {α β : Type}

/-- Every block and every try-block that the description refers to is in its lists. -/
structure InRange (d : Description) : Prop where
  guards : ∀ b ∈ d.blocks, ∀ id, b.guard = some id → id < d.tryBlocks.length
  tags : ∀ id, some id ∈ d.regions.tryBlock :: d.regions.contents.tags → id < d.tryBlocks.length
  entry : ∀ entry, d.entry = some entry → entry < d.blocks.length
  edges : ∀ e ∈ d.edges, e.source < d.blocks.length ∧ e.target < d.blocks.length
  handlers : ∀ handlers ∈ d.tryBlocks, ∀ h ∈ handlers, h.entry < d.blocks.length
  blocks : ∀ b ∈ d.regions.contents.blocks, b < d.blocks.length

/-! ## What passes the checks -/

theorem exists_buildGraph_iff :
    (∃ g, d.buildGraph = .ok g) ↔
      (∀ b ∈ d.blocks, ∀ id, b.guard = some id → id < d.tryBlocks.length) ∧
        (∀ entry, d.entry = some entry → entry < d.blocks.length) ∧
        ∀ e ∈ d.edges, e.source < d.blocks.length ∧ e.target < d.blocks.length := by
  constructor
  · rintro ⟨g, hg⟩
    obtain ⟨hguards, hentry, -, hedges, -⟩ := buildGraph_eq_ok_iff.1 hg
    refine ⟨hguards, hentry, fun e he => ?_⟩
    rw [← blockCount_of_buildGraph hg]
    exact g.edges_inside e (Array.mem_toList_iff.1 (hedges ▸ he))
  · rintro ⟨hguards, hentry, hedges⟩
    let g : Graph := {
      blocks := d.blocks.toArray
      edges := d.edges.toArray
      entry := d.entry.or (if d.blocks = [] then none else some 0)
      edges_inside := fun e he => hedges e (by simpa using he) }
    exact ⟨g, buildGraph_eq_ok_iff.2 ⟨hguards, hentry, rfl, rfl, rfl⟩⟩

theorem exists_buildTryBlocks_iff :
    (∃ tryBlocks, d.buildTryBlocks = .ok tryBlocks) ↔
      ∀ handlers ∈ d.tryBlocks, ∀ h ∈ handlers, h.entry < d.blocks.length := by
  simp only [buildTryBlocks_eq_ok_iff, exists_and_left, exists_eq, and_true]

theorem exists_place_iff :
    (∃ t, d.place 0 d.regions.contents (outermost d.regions) = .ok t) ↔ d.Admits d.regions.contents := by
  have hr : 0 < (outermost d.regions).size := Nat.zero_lt_one
  exact ⟨fun ⟨_, ht⟩ => (of_place_eq_ok hr ht).1, place_ok hr⟩

theorem inRange_iff :
    d.InRange ↔ (∃ g, d.buildGraph = .ok g) ∧ (∃ tryBlocks, d.buildTryBlocks = .ok tryBlocks) ∧
      d.checkTryBlock d.regions.tryBlock = .ok () ∧ ∃ t, d.place 0 d.regions.contents (outermost d.regions) = .ok t := by
  rw [exists_buildGraph_iff, exists_buildTryBlocks_iff, checkTryBlock_eq_ok_iff, exists_place_iff]
  constructor
  · intro h
    refine ⟨⟨h.guards, h.entry, h.edges⟩, h.handlers, fun id hid => h.tags id (hid ▸ List.mem_cons_self), h.blocks, ?_⟩
    exact fun id hid => h.tags id (List.mem_cons_of_mem _ hid)
  · rintro ⟨⟨hguards, hentry, hedges⟩, hhandlers, htag, hadmits⟩
    refine ⟨hguards, fun id hid => ?_, hentry, hedges, hhandlers, hadmits.blocks⟩
    rcases List.mem_cons.1 hid with hid | hid
    · exact htag id hid.symm
    · exact hadmits.tags id hid

/-- The regions that are placed form a tree, and what they list are the described blocks. -/
theorem of_place_outermost (h : d.place 0 d.regions.contents (outermost d.regions) = .ok t) :
    t.Framed ∧ (t.listed.filterMap Container.block?).Perm d.regions.contents.blocks := by
  have hplaced := (of_place_eq_ok (Nat.zero_lt_one : 0 < (outermost d.regions).size) h).2
  have hfirst : (outermost d.regions).WellFormed := wellFormed_singleton rfl rfl
  exact ⟨hplaced.framed (RegionTree.wellFormed_iff_framed.1 hfirst).1, hplaced.blocks⟩

/-! ## What the checks fail for -/

/-- If the operation fails, it is for an index. -/
def ByIndex (x : Except Inconsistency α) : Prop := ∀ flaw, x ≠ .error (.tree flaw)

namespace ByIndex

theorem ok (a : α) : ByIndex (.ok a) := fun _ h => nomatch h

theorem bind_eq_error {x : Except Inconsistency α} {f : α → Except Inconsistency β} (hx : ByIndex x)
    (h : (x >>= f) = .error (.tree flaw)) : ∃ a, x = .ok a ∧ f a = .error (.tree flaw) := by
  cases x with
  | error i =>
    obtain rfl := Except.error.inj h
    exact absurd rfl (hx flaw)
  | ok a => exact ⟨a, rfl, h⟩

theorem bind {x : Except Inconsistency α} {f : α → Except Inconsistency β} (hx : ByIndex x) (hf : ∀ a, ByIndex (f a)) :
    ByIndex (x >>= f) := by
  intro flaw h
  obtain ⟨a, -, ha⟩ := hx.bind_eq_error h
  exact hf a flaw ha

theorem forM {f : α → Except Inconsistency Unit} (h : ∀ a, ByIndex (f a)) (as : List α) : ByIndex (as.forM f) := by
  induction as with
  | nil => exact .ok ()
  | cons a as ih => exact (h a).bind fun _ => ih

theorem foldlM {f : β → α → Except Inconsistency β} (h : ∀ b a, ByIndex (f b a)) (as : List α) (b : β) :
    ByIndex (as.foldlM f b) := by
  induction as generalizing b with
  | nil => exact .ok b
  | cons a as ih =>
    rw [List.foldlM_cons]
    exact (h b a).bind ih

theorem checkBlock (d : Description) (role : Role) (b : Nat) : ByIndex (d.checkBlock role b) := by
  intro flaw h
  unfold Description.checkBlock at h
  split at h <;> cases h

theorem checkTryBlock (d : Description) (tag : Option Nat) : ByIndex (d.checkTryBlock tag) := by
  intro flaw h
  unfold Description.checkTryBlock at h
  split at h
  · cases h
  · split at h <;> cases h

theorem addEdge (g : Graph) (e : Edge) : ByIndex (addEdge g e) := by
  intro flaw h
  unfold Description.addEdge at h
  split at h
  · split at h <;> cases h
  · cases h

theorem buildGraph (d : Description) : ByIndex d.buildGraph := by
  unfold Description.buildGraph
  refine (forM (fun b => checkTryBlock d b.guard) d.blocks).bind fun _ => ?_
  cases d.entry with
  | none => exact foldlM addEdge d.edges _
  | some entry =>
    exact (checkBlock d .entry entry).bind fun _ => foldlM addEdge d.edges _

theorem buildTryBlocks (d : Description) : ByIndex d.buildTryBlocks := by
  unfold Description.buildTryBlocks
  refine (forM (fun handlers => ?_) d.tryBlocks).bind fun _ => .ok _
  exact forM (fun h => checkBlock d .handler h.entry) handlers

theorem place (d : Description) (r : Nat) (c : Contents) (t : RegionTree) : ByIndex (d.place r c t) := by
  induction c generalizing r t with
  | nil => exact .ok t
  | block b rest ih => exact (checkBlock d .region b).bind fun _ => ih _ _
  | region kind tag inner rest ihinner ihrest =>
    exact (checkTryBlock d tag).bind fun _ => (ihinner _ _).bind fun u => ihrest _ u

end ByIndex

theorem inRange_of_build_eq_error (h : d.build = .error (.tree flaw)) : d.InRange := by
  obtain ⟨g, hg, h⟩ := (ByIndex.buildGraph d).bind_eq_error h
  obtain ⟨tryBlocks, htries, h⟩ := (ByIndex.buildTryBlocks d).bind_eq_error h
  have htree : d.buildTree = .error (.tree flaw) := by
    cases hbuild : d.buildTree with
    | ok t =>
      rw [hbuild] at h
      cases h
    | error i =>
      rw [hbuild] at h
      exact congrArg _ (Except.error.inj h)
  obtain ⟨_, htag, h⟩ := (ByIndex.checkTryBlock d _).bind_eq_error htree
  obtain ⟨t, ht, -⟩ := (ByIndex.place d 0 _ _).bind_eq_error h
  exact inRange_iff.2 ⟨⟨g, hg⟩, ⟨tryBlocks, htries⟩, htag, t, ht⟩

theorem inRange_of_build_eq_ok {m : Method} (h : d.build = .ok m) : d.InRange := by
  obtain ⟨g, hg, h⟩ := bind_eq_ok_iff.1 h
  obtain ⟨tryBlocks, htries, h⟩ := bind_eq_ok_iff.1 h
  obtain ⟨t, ht, -⟩ := bind_eq_ok_iff.1 h
  obtain ⟨htag, ht, -⟩ := buildTree_eq_ok_iff.1 ht
  exact inRange_iff.2 ⟨⟨g, hg⟩, ⟨tryBlocks, htries⟩, checkTryBlock_eq_ok_iff.2 htag, t, ht⟩

/-! ## What is built -/

theorem build_of_inRange (h : d.InRange) :
    (∃ m, d.build = .ok m) ∧ d.regions.contents.blocks.Nodup ∨
      ∃ b, d.build = .error (.tree (.repeatedBlock b)) ∧ 2 ≤ d.regions.contents.blocks.count b := by
  obtain ⟨⟨g, hg⟩, ⟨tryBlocks, htries⟩, htag, t, ht⟩ := inRange_iff.1 h
  obtain ⟨hframed, hperm⟩ := of_place_outermost ht
  have hbuild : d.build =
      (t.validate.mapError .tree).map fun _ => { name := d.name, graph := g, tryBlocks, tree := t } := by
    unfold outermost at ht
    simp only [build, buildTree, hg, htries, htag, ht, ok_bind]
    cases t.validate <;> rfl
  rw [hbuild]
  rcases hframed.validate with hv | ⟨b, hv, hcount⟩
  · rw [hv]
    refine .inl ⟨⟨_, rfl⟩, hperm.nodup_iff.1 ?_⟩
    exact (RegionTree.wellFormed_iff_framed.1 (RegionTree.validate_eq_ok_iff.1 hv)).2
  · rw [hv]
    exact .inr ⟨b, rfl, hperm.count_eq b ▸ hcount⟩

theorem build_of_not_inRange (h : ¬ d.InRange) : ∃ i, d.build = .error i ∧ ∀ flaw, i ≠ .tree flaw := by
  cases hbuild : d.build with
  | ok m => exact absurd (inRange_of_build_eq_ok hbuild) h
  | error i =>
    refine ⟨i, rfl, fun flaw hi => h ?_⟩
    exact inRange_of_build_eq_error (hi ▸ hbuild)

/-- The three ways in which the building of a method can end. -/
theorem toMethod_cases (d : Description) :
    (∃ m, d.toMethod = .ok m ∧ d.InRange ∧ d.regions.contents.blocks.Nodup) ∨
      (∃ b, d.toMethod = .error (.ofFlaw (.repeatedBlock b)) ∧ d.InRange ∧ 2 ≤ d.regions.contents.blocks.count b) ∨
      ∃ message, d.toMethod = .error (.invalidInput message) ∧ ¬ d.InRange := by
  by_cases h : d.InRange
  · rcases build_of_inRange h with ⟨⟨m, hm⟩, hnd⟩ | ⟨b, hb, hcount⟩
    · exact .inl ⟨m, by rw [toMethod, hm]; rfl, h, hnd⟩
    · exact .inr (.inl ⟨b, by rw [toMethod, hb]; rfl, h, hcount⟩)
  · obtain ⟨i, hi, hindex⟩ := build_of_not_inRange h
    right
    right
    rw [toMethod, hi]
    cases i with
    | missingBlock role index count => exact ⟨_, rfl, h⟩
    | unknownTryBlock index count => exact ⟨_, rfl, h⟩
    | tree flaw => exact absurd rfl (hindex flaw)

/-- **A method is built from the consistent descriptions, and from no others.** A description is consistent if every block and
every try-block that it refers to is in its lists, and no block is twice in its regions. It is refused for its regions if and
only if all is in the lists and some block is there twice, and the text names such a block; whatever else is wrong makes the
input invalid. A method that is built has the described blocks and edges, in their order, it is entered at the entry that is
named or else at the first block, if there is one, and its tree is in order. -/
theorem building_is_exact (d : Description) :
    ((∃ m, d.toMethod = .ok m) ↔ d.InRange ∧ d.regions.contents.blocks.Nodup) ∧
      ((∃ message, d.toMethod = .error (.regionTree message)) ↔ d.InRange ∧ ¬ d.regions.contents.blocks.Nodup) ∧
      (∀ message, d.toMethod = .error (.regionTree message) →
        ∃ b, message = (TreeFlaw.repeatedBlock b).message ∧ 2 ≤ d.regions.contents.blocks.count b) ∧
      ((∃ message, d.toMethod = .error (.invalidInput message)) ↔ ¬ d.InRange) ∧
      ∀ m, d.toMethod = .ok m → m.graph.blocks.toList = d.blocks ∧ m.graph.edges.toList = d.edges ∧
        m.graph.entry = d.entry.or (if d.blocks = [] then none else some 0) ∧ m.tree.validate = .ok () := by
  have hbuilt : ∀ m, d.toMethod = .ok m → m.graph.blocks.toList = d.blocks ∧ m.graph.edges.toList = d.edges ∧
      m.graph.entry = d.entry.or (if d.blocks = [] then none else some 0) ∧ m.tree.validate = .ok () := by
    intro m hm
    obtain ⟨graph, tryBlocks, tree, hgraph, -, htree, rfl⟩ := toMethod_eq_ok_iff.1 hm
    obtain ⟨-, -, hblocks, hedges, hentry⟩ := buildGraph_eq_ok_iff.1 hgraph
    exact ⟨hblocks, hedges, hentry, RegionTree.validate_eq_ok_iff.2 (of_buildTree_eq_ok htree).1⟩
  rcases d.toMethod_cases with ⟨m, hm, hrange, hnd⟩ | ⟨b, hb, hrange, hcount⟩ | ⟨message, hmessage, hrange⟩
  · refine ⟨by simp [hm, hrange, hnd], by simp [hm, hnd], by simp [hm], by simp [hm, hrange], hbuilt⟩
  · have hnd : ¬ d.regions.contents.blocks.Nodup := by
      intro hnd
      have := List.nodup_iff_count_le_one.1 hnd b
      omega
    refine ⟨by simp [hb, hnd], by simp [hb, Error.ofFlaw, hrange, hnd], fun message hmessage => ⟨b, ?_, hcount⟩,
      by simp [hb, Error.ofFlaw, hrange], hbuilt⟩
    rw [hb] at hmessage
    exact (Error.regionTree.inj (Except.error.inj hmessage)).symm
  · refine ⟨by simp [hmessage, hrange], by simp [hmessage, hrange], by simp [hmessage], by simp [hmessage, hrange], hbuilt⟩

/-- A method with one try-block, which guards the middle one of its blocks. -/
def oneTry : Description where
  name := "one"
  blocks := [{}, { guard := some 0 }, {}]
  edges := [⟨0, 1, .fall⟩, ⟨1, 2, .exception⟩]
  tryBlocks := [[⟨none, 2⟩]]
  regions := { contents := .block 0 (.region .sequence none (.block 1 .nil) (.block 2 .nil)) }

/-- The method is built; it is refused for its regions when one block is in two of them, and as invalid when its handler starts
behind its blocks. -/
theorem building_is_exact_oneTry :
    (∃ m, oneTry.toMethod = .ok m ∧ m.graph.edges.toList = oneTry.edges ∧ m.graph.entry = some 0 ∧ m.tree.validate = .ok ()) ∧
      { oneTry with regions.contents := .block 0 (.region .sequence none (.block 0 .nil) .nil) }.toMethod =
        .error (.regionTree "block 0 appears more than once") ∧
      ∃ message, { oneTry with tryBlocks := [[⟨none, 3⟩]] }.toMethod = .error (.invalidInput message) := by
  have hrange : oneTry.InRange := by
    constructor <;> simp [oneTry, Contents.blocks, Contents.tags]
  refine ⟨?_, ?_, ?_⟩
  · obtain ⟨hok, -, -, -, hbuilt⟩ := building_is_exact oneTry
    obtain ⟨m, hm⟩ := hok.2 ⟨hrange, by decide⟩
    obtain ⟨-, hedges, hentry, hv⟩ := hbuilt m hm
    exact ⟨m, hm, hedges, hentry, hv⟩
  · obtain ⟨-, hrefused, hnamed, -⟩ :=
      building_is_exact { oneTry with regions.contents := .block 0 (.region .sequence none (.block 0 .nil) .nil) }
    have hrange' : InRange { oneTry with regions.contents := .block 0 (.region .sequence none (.block 0 .nil) .nil) } := by
      constructor <;> simp [oneTry, Contents.blocks, Contents.tags]
    obtain ⟨message, hmessage⟩ := hrefused.2 ⟨hrange', by decide⟩
    obtain ⟨b, rfl, hcount⟩ := hnamed message hmessage
    have hb : b ∈ [0, 0] := List.count_pos_iff.1 (Nat.lt_of_lt_of_le Nat.zero_lt_two hcount)
    obtain rfl : b = 0 := by simpa using hb
    exact hmessage
  · obtain ⟨-, -, -, hinvalid, -⟩ := building_is_exact { oneTry with tryBlocks := [[⟨none, 3⟩]] }
    refine hinvalid.2 fun h => ?_
    exact absurd (h.handlers [⟨none, 3⟩] List.mem_cons_self ⟨none, 3⟩ List.mem_cons_self) (by decide)

end Description

end GuardedRegions
