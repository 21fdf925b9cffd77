import GuardedRegions.Document.Build
import GuardedRegions.Proofs.Except
import GuardedRegions.Proofs.Method
import Mathlib.Data.List.Basic

/-!
# What is built from the lists of a description

The graph of a description has the blocks and the edges that are listed, in their order, and it is entered at the block that is
named or else at the first one (`Description.buildGraph_eq_ok_iff`). The try-blocks are those that are listed, numbered by
their places (`Description.buildTryBlocks_eq_ok_iff`). Both are built if all blocks and try-blocks that the lists refer to are
in the lists, and only then.
-/

namespace GuardedRegions

namespace Description

variable {d : Description} {g g' : Graph} {tryBlocks : List TryBlock}

theorem checkBlock_eq_ok_iff {role : Role} {b : Nat} : d.checkBlock role b = .ok () ↔ b < d.blocks.length := by
  unfold checkBlock
  split <;> rename_i h <;> simp [h]

theorem checkTryBlock_eq_ok_iff {tag : Option Nat} :
    d.checkTryBlock tag = .ok () ↔ ∀ id, tag = some id → id < d.tryBlocks.length := by
  cases tag with
  | none => simp [checkTryBlock]
  | some id =>
    unfold checkTryBlock
    split <;> rename_i h <;> simp [h]

/-! ## The graph -/

theorem foldl_addBlock (bs : List Block) (g : Graph) :
    (bs.foldl Graph.addBlock g).blocks.toList = g.blocks.toList ++ bs ∧ (bs.foldl Graph.addBlock g).edges = g.edges ∧
      (bs.foldl Graph.addBlock g).entry = g.entry.or (if bs = [] then none else some g.blockCount) := by
  induction bs generalizing g with
  | nil => simp
  | cons b bs ih =>
    obtain ⟨hblocks, hedges, hentry⟩ := ih (g.addBlock b)
    rw [List.foldl_cons]
    refine ⟨?_, hedges, ?_⟩
    · rw [hblocks]
      simp [Graph.addBlock]
    · rw [hentry, if_neg (List.cons_ne_nil b bs)]
      show (g.entry.or (some g.blockCount)).or _ = g.entry.or (some g.blockCount)
      cases g.entry <;> rfl

theorem addEdge_eq_ok_iff {e : Edge} :
    addEdge g e = .ok g' ↔
      g'.blocks = g.blocks ∧ g'.entry = g.entry ∧ g'.edges.toList = g.edges.toList ++ [e] := by
  unfold addEdge
  constructor
  · intro h
    split at h
    · split at h
      · obtain rfl := Except.ok.inj h
        exact ⟨rfl, rfl, Array.toList_push⟩
      · cases h
    · cases h
  · rintro ⟨hblocks, hentry, hedges⟩
    have hmem : e ∈ g'.edges := by
      rw [Array.mem_def, hedges]
      exact List.mem_append_right _ List.mem_cons_self
    have hends : e.source < g.blockCount ∧ e.target < g.blockCount := by
      unfold Graph.blockCount
      rw [← hblocks]
      exact g'.edges_inside e hmem
    rw [dif_pos hends.1, dif_pos hends.2]
    refine congrArg Except.ok (Graph.ext hblocks.symm ?_ hentry.symm)
    apply Array.ext'
    rw [hedges]
    exact Array.toList_push

theorem foldlM_addEdge_eq_ok_iff {es : List Edge} :
    es.foldlM addEdge g = .ok g' ↔
      g'.blocks = g.blocks ∧ g'.entry = g.entry ∧ g'.edges.toList = g.edges.toList ++ es := by
  induction es generalizing g with
  | nil =>
    rw [List.foldlM_nil, List.append_nil]
    constructor
    · intro h
      obtain rfl := Except.ok.inj h
      exact ⟨rfl, rfl, rfl⟩
    · rintro ⟨hblocks, hentry, hedges⟩
      exact congrArg Except.ok (Graph.ext hblocks.symm (Array.ext' hedges.symm) hentry.symm)
  | cons e es ih =>
    rw [List.foldlM_cons, bind_eq_ok_iff]
    simp only [ih, addEdge_eq_ok_iff]
    constructor
    · rintro ⟨g₁, ⟨hblocks₁, hentry₁, hedges₁⟩, hblocks, hentry, hedges⟩
      refine ⟨hblocks.trans hblocks₁, hentry.trans hentry₁, ?_⟩
      rw [hedges, hedges₁, List.append_assoc, List.singleton_append]
    · rintro ⟨hblocks, hentry, hedges⟩
      have hsub : ∀ e' ∈ (g.edges.push e), e' ∈ g'.edges := by
        intro e' he'
        rw [Array.mem_def, hedges]
        rw [Array.mem_def, Array.toList_push] at he'
        rw [← List.singleton_append, ← List.append_assoc]
        exact List.mem_append_left _ he'
      refine ⟨⟨g.blocks, g.edges.push e, g.entry, fun e' he' => hblocks ▸ g'.edges_inside e' (hsub e' he')⟩,
        ⟨rfl, rfl, Array.toList_push⟩, hblocks, hentry, ?_⟩
      rw [hedges, Array.toList_push, List.append_assoc, List.singleton_append]

/-- **The graph of a description** has the blocks and the edges that are listed, and the entry that is named or the first
block. -/
theorem buildGraph_eq_ok_iff :
    d.buildGraph = .ok g ↔
      (∀ b ∈ d.blocks, ∀ id, b.guard = some id → id < d.tryBlocks.length) ∧
        (∀ entry, d.entry = some entry → entry < d.blocks.length) ∧ g.blocks.toList = d.blocks ∧ g.edges.toList = d.edges ∧
        g.entry = d.entry.or (if d.blocks = [] then none else some 0) := by
  obtain ⟨hblocks, hedges, hentry⟩ := foldl_addBlock d.blocks ∅
  have hcount : (∅ : Graph).blockCount = 0 := rfl
  have hnoEntry : (∅ : Graph).entry = none := rfl
  have hnoEdge : (∅ : Graph).edges.toList = [] := rfl
  have hnoBlock : (∅ : Graph).blocks.toList = [] := rfl
  rw [hcount, hnoEntry, Option.none_or] at hentry
  rw [hnoBlock, List.nil_append] at hblocks
  have hlists : ∀ {bs : Array Block}, bs = (d.blocks.foldl Graph.addBlock ∅).blocks ↔ bs.toList = d.blocks := by
    intro bs
    exact ⟨fun h => h ▸ hblocks, fun h => Array.toList_inj.1 (h.trans hblocks.symm)⟩
  unfold buildGraph
  rw [bind_eq_ok_iff]
  simp only [← forM_eq_ok_iff, ← checkTryBlock_eq_ok_iff]
  cases hd : d.entry with
  | none =>
    simp only [pure_bind, foldlM_addEdge_eq_ok_iff, hlists, hedges, hnoEdge, List.nil_append, hentry, Option.none_or]
    constructor
    · rintro ⟨_, hguards, hb, he, hs⟩
      exact ⟨hguards, fun entry h => (Option.some_ne_none entry h.symm).elim, hb, hs, he⟩
    · rintro ⟨hguards, -, hb, hs, he⟩
      exact ⟨(), hguards, hb, he, hs⟩
  | some entry =>
    simp only [pure_bind, bind_eq_ok_iff, foldlM_addEdge_eq_ok_iff, Graph.setEntry, hlists, hedges, hnoEdge,
      List.nil_append, Option.some_or]
    constructor
    · rintro ⟨_, hguards, _, hcheck, hb, he, hs⟩
      exact ⟨hguards, fun other h => Option.some.inj h ▸ checkBlock_eq_ok_iff.1 hcheck, hb, hs, he⟩
    · rintro ⟨hguards, hin, hb, hs, he⟩
      exact ⟨(), hguards, (), checkBlock_eq_ok_iff.2 (hin entry rfl), hb, he, hs⟩

theorem blockCount_of_buildGraph (h : d.buildGraph = .ok g) : g.blockCount = d.blocks.length := by
  obtain ⟨-, -, hblocks, -⟩ := buildGraph_eq_ok_iff.1 h
  rw [← hblocks]
  exact Array.length_toList.symm

theorem entry_lt_of_buildGraph (h : d.buildGraph = .ok g) : ∀ entry, g.entry = some entry → entry < g.blockCount := by
  rw [blockCount_of_buildGraph h]
  obtain ⟨-, hin, -, -, hentry⟩ := buildGraph_eq_ok_iff.1 h
  rw [hentry]
  cases hd : d.entry with
  | some first => exact fun entry he => hin entry (hd.trans he)
  | none =>
    intro entry he
    rw [Option.none_or] at he
    split at he
    · cases he
    · rename_i hblocks
      obtain rfl := Option.some.inj he
      exact List.length_pos_iff.2 hblocks

theorem exists_entry_of_buildGraph (h : d.buildGraph = .ok g) (hcode : g.isEmpty = false) :
    ∃ entry, g.entry = some entry := by
  obtain ⟨-, -, hblocks, -, hentry⟩ := buildGraph_eq_ok_iff.1 h
  have hne : d.blocks ≠ [] := by
    rw [← hblocks]
    simpa [Graph.isEmpty] using hcode
  rw [hentry, if_neg hne]
  cases d.entry with
  | none => exact ⟨0, rfl⟩
  | some entry => exact ⟨entry, rfl⟩

theorem guardOf_of_buildGraph (h : d.buildGraph = .ok g) (b : Nat) : g.guardOf b = d.blocks[b]?.bind (·.guard) := by
  obtain ⟨-, -, hblocks, -⟩ := buildGraph_eq_ok_iff.1 h
  rw [← hblocks, Array.getElem?_toList]
  rfl

theorem guard_lt_of_buildGraph (h : d.buildGraph = .ok g) {b id : Nat} (hb : g.guardOf b = some id) :
    id < d.tryBlocks.length := by
  rw [guardOf_of_buildGraph h, Option.bind_eq_some_iff] at hb
  obtain ⟨block, hblock, hguard⟩ := hb
  exact (buildGraph_eq_ok_iff.1 h).1 block (List.mem_of_getElem? hblock) id hguard

/-! ## The try-blocks -/

/-- **The try-blocks of a description** are those that are listed, each with its place as its number. -/
theorem buildTryBlocks_eq_ok_iff :
    d.buildTryBlocks = .ok tryBlocks ↔
      (∀ handlers ∈ d.tryBlocks, ∀ h ∈ handlers, h.entry < d.blocks.length) ∧
        tryBlocks = d.tryBlocks.mapIdx fun id handlers => { id, handlers } := by
  have hchecks : (d.tryBlocks.forM fun handlers => handlers.forM fun h => d.checkBlock .handler h.entry) = .ok () ↔
      ∀ handlers ∈ d.tryBlocks, ∀ h ∈ handlers, h.entry < d.blocks.length := by
    simp only [forM_eq_ok_iff, checkBlock_eq_ok_iff]
  rw [← hchecks]
  unfold buildTryBlocks
  rw [bind_eq_ok_iff]
  exact ⟨fun ⟨_, hall, h⟩ => ⟨hall, (Except.ok.inj h).symm⟩, fun ⟨hall, h⟩ => ⟨(), hall, congrArg Except.ok h.symm⟩⟩

theorem find?_of_buildTryBlocks (h : d.buildTryBlocks = .ok tryBlocks) (id : Nat) :
    tryBlocks.find? (·.id == id) = d.tryBlocks[id]?.map fun handlers => { id, handlers } := by
  obtain ⟨-, rfl⟩ := buildTryBlocks_eq_ok_iff.1 h
  cases hid : d.tryBlocks[id]? with
  | none =>
    rw [Option.map_none, List.find?_eq_none]
    intro tb htb
    obtain ⟨i, hi, rfl⟩ := List.mem_mapIdx.1 htb
    have := List.getElem?_eq_none_iff.1 hid
    simp only [beq_iff_eq]
    omega
  | some handlers =>
    obtain ⟨hlt, rfl⟩ := List.getElem?_eq_some_iff.1 hid
    rw [Option.map_some, List.find?_eq_some_iff_getElem]
    refine ⟨beq_self_eq_true id, id, by rwa [List.length_mapIdx], by simp, fun j hj => ?_⟩
    simpa using Nat.ne_of_lt hj

theorem handlersIn_of_buildTryBlocks (h : d.buildTryBlocks = .ok tryBlocks) (hg : g.blockCount = d.blocks.length) :
    ∀ tb ∈ tryBlocks, tb.HandlersIn g := by
  obtain ⟨hall, rfl⟩ := buildTryBlocks_eq_ok_iff.1 h
  intro tb htb handler hmem
  obtain ⟨id, hid, rfl⟩ := List.mem_mapIdx.1 htb
  rw [hg]
  exact hall _ (List.getElem_mem hid) handler hmem

end Description

end GuardedRegions
