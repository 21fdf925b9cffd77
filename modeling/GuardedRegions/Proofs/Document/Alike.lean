import GuardedRegions.Proofs.Document.Sequence
import GuardedRegions.Proofs.Wrapping.Alike

/-!
# What a reconstruction reads of a description

Which edge comes first, how often it is listed and why control passes along it, where the code of a block starts, what a handler
catches: none of this is read by a reconstruction. It depends on which distinct blocks are connected, on the guards, and on
the sets of blocks where the handlers of each try-block start.
-/

namespace GuardedRegions.Description

variable {d d' : Description} {m m' : Method} {g g' : Graph} {tbs tbs' : List TryBlock}

/-- The second description differs from the first one at most in offsets, catch types and kinds of edges, in the order and the
number of its edges, in edges from a block to itself, and in the order and the repetition of handlers in a try-block. -/
structure Alike (d d' : Description) : Prop where
  name : d'.name = d.name
  entry : d'.entry = d.entry
  guards : d'.blocks.map (·.guard) = d.blocks.map (·.guard)
  connected : ∀ a b, a ≠ b →
    ((∃ e ∈ d'.edges, e.source = a ∧ e.target = b) ↔ ∃ e ∈ d.edges, e.source = a ∧ e.target = b)
  entries : List.Forall₂ (fun hs hs' => ∀ b, b ∈ hs'.map Handler.entry ↔ b ∈ hs.map Handler.entry) d.tryBlocks d'.tryBlocks
  regions : d'.regions = d.regions

namespace Alike

theorem length_blocks (h : d.Alike d') : d'.blocks.length = d.blocks.length := by
  simpa using congrArg List.length h.guards

theorem length_tryBlocks (h : d.Alike d') : d'.tryBlocks.length = d.tryBlocks.length := h.entries.length_eq.symm

theorem graph (h : d.Alike d') (hg : d.buildGraph = .ok g) (hg' : d'.buildGraph = .ok g') : g.Alike g' := by
  have hguardOf : ∀ {d : Description} {g : Graph}, d.buildGraph = .ok g → ∀ b,
      g.guardOf b = (d.blocks.map (·.guard))[b]?.join := by
    intro d g hg b
    rw [guardOf_of_buildGraph hg, List.getElem?_map]
    cases d.blocks[b]? <;> rfl
  have hempty : d'.blocks = [] ↔ d.blocks = [] := by
    rw [← List.length_eq_zero_iff, ← List.length_eq_zero_iff, h.length_blocks]
  obtain ⟨-, -, -, hedges, hentry⟩ := buildGraph_eq_ok_iff.1 hg
  obtain ⟨-, -, -, hedges', hentry'⟩ := buildGraph_eq_ok_iff.1 hg'
  refine ⟨?_, ?_, fun b => ?_, fun a b hab => ?_⟩
  · rw [blockCount_of_buildGraph hg, blockCount_of_buildGraph hg', h.length_blocks]
  · rw [hentry, hentry', h.entry]
    simp only [hempty]
  · rw [hguardOf hg, hguardOf hg', h.guards]
  · simp only [Graph.mem_successors, Array.mem_def, hedges, hedges']
    exact h.connected a b hab

theorem tryBlocks (h : d.Alike d') (htbs : d.buildTryBlocks = .ok tbs) (htbs' : d'.buildTryBlocks = .ok tbs') :
    List.Forall₂ TryBlock.Alike tbs tbs' := by
  obtain ⟨-, rfl⟩ := buildTryBlocks_eq_ok_iff.1 htbs
  obtain ⟨-, rfl⟩ := buildTryBlocks_eq_ok_iff.1 htbs'
  have hentries := (List.forall₂_iff_get.1 h.entries).2
  refine List.forall₂_iff_get.2 ⟨by simp [h.length_tryBlocks], fun i hi hi' => ?_⟩
  rw [List.length_mapIdx] at hi hi'
  simp only [List.get_eq_getElem, List.getElem_mapIdx]
  exact ⟨rfl, hentries i hi hi'⟩

theorem checkTryBlock (h : d.Alike d') (tag : Option Nat) : d'.checkTryBlock tag = d.checkTryBlock tag := by
  cases tag with
  | none => rfl
  | some id => simp only [Description.checkTryBlock, h.length_tryBlocks]

theorem place (h : d.Alike d') (c : Contents) (r : Nat) (t : RegionTree) : d'.place r c t = d.place r c t := by
  induction c generalizing r t with
  | nil => rfl
  | block b rest ih =>
    simp only [Description.place, checkBlock, h.length_blocks, ih]
  | region kind tag inner rest ihinner ihrest =>
    simp only [Description.place, h.checkTryBlock, ihinner, ihrest]

theorem tree (h : d.Alike d') : d'.buildTree = d.buildTree := by
  unfold buildTree
  simp only [h.regions, h.checkTryBlock, h.place]

/-- The method of the second description is that of the first one with other code. -/
theorem method (h : d.Alike d') (hm : d.toMethod = .ok m) (hm' : d'.toMethod = .ok m') :
    m.CodeAlike m'.graph m'.tryBlocks ∧ m' = m.recode m'.graph m'.tryBlocks := by
  obtain ⟨g, tbs, t, hg, htbs, ht, rfl⟩ := toMethod_eq_ok_iff.1 hm
  obtain ⟨g', tbs', t', hg', htbs', ht', rfl⟩ := toMethod_eq_ok_iff.1 hm'
  obtain rfl : t' = t := Except.ok.inj (ht'.symm.trans (h.tree.trans ht))
  refine ⟨⟨h.graph hg hg', h.tryBlocks htbs htbs'⟩, ?_⟩
  rw [h.name]
  rfl

end Alike

/-- **A reconstruction reads which distinct blocks are connected, and no more of the edges.** On two methods whose descriptions
are alike it has the same result and the same trace, and leaves the same tree, flags and warnings. -/
theorem reconstruction_reads_connections (h : d.toMethod = .ok m) (h' : d'.toMethod = .ok m') (hd : d.Alike d')
    (options : Options) :
    ∃ done done', m.reconstruct options = .ok done ∧ m'.reconstruct options = .ok done' ∧ done'.result = done.result ∧
      done'.method = { done.method with graph := m'.graph, tryBlocks := m'.tryBlocks } ∧ done'.events = done.events := by
  have hbuilt := built_of_toMethod h
  have hbuilt' := built_of_toMethod h'
  obtain ⟨halike, hm'⟩ := hd.method h h'
  obtain ⟨done, hok, hok'⟩ := Method.reconstruct_recode halike hbuilt.wellFormed hbuilt.handlersExist hbuilt'.handlersExist
    hbuilt.entry options
  rw [← hm'] at hok'
  exact ⟨done, _, hok, hok', rfl, rfl, rfl⟩

/-- A description of the method whose try-block protects blocks 1 and 2, with other offsets. Its edges are listed backwards and
are of other kinds; one is there twice, and block 2 leads to itself. The handler is listed for one type and for all. -/
def joinBetweenBackwards : Description where
  name := "join"
  blocks := [{}, { offset := 4, guard := some 0 }, { offset := 8, guard := some 0 }, { offset := 12 }, { offset := 16 }]
  edges := [⟨2, 3, .jump⟩, ⟨2, 2, .whenTrue⟩, ⟨1, 4, .exception⟩, ⟨1, 2, .jump⟩, ⟨0, 3, .switchCase 1⟩, ⟨0, 3, .switchDefault⟩,
    ⟨0, 1, .switchCase 0⟩]
  tryBlocks := [[⟨some "E", 4⟩, ⟨none, 4⟩]]
  regions := { contents := .block 0 (.block 1 (.block 3 (.block 2 (.block 4 .nil)))) }

theorem alike_joinBetween : joinBetween.Alike joinBetweenBackwards where
  name := rfl
  entry := rfl
  guards := rfl
  connected a b hab := by
    simp only [joinBetween, joinBetweenBackwards, List.exists_mem_cons_iff, List.not_mem_nil, false_and, exists_false, or_false]
    omega
  entries := .cons (by simp) .nil
  regions := rfl

theorem reconstruction_reads_connections_joinBetween :
    ∃ m m' done', joinBetween.toMethod = .ok m ∧ joinBetweenBackwards.toMethod = .ok m' ∧
      m'.reconstruct {} = .ok done' ∧ done'.result = .ok { wrapped := 1, failed := 0, dropped := 0, passes := 1 } ∧
      done'.method.tree.blocksOf (.region m.tree.root) = .ok [0, 1, 2, 3, 4] := by
  obtain ⟨m, done, hm, hdone, hresult, -, hafter⟩ := runs_joinBetween
  have hbuilds : joinBetweenBackwards.toMethod.toOption.isSome = true := by decide +kernel
  obtain ⟨m', hm'⟩ := Option.isSome_iff_exists.1 hbuilds
  have hm' := toOption_eq_some_iff.1 hm'
  obtain ⟨done₁, done', hok, hok', hsame, hmethod, -⟩ := reconstruction_reads_connections hm hm' alike_joinBetween {}
  obtain rfl : done₁ = done := Except.ok.inj (hok.symm.trans hdone)
  refine ⟨m, m', done', hm, hm', hok', hsame.trans hresult, ?_⟩
  rw [hmethod]
  exact hafter

end GuardedRegions.Description
