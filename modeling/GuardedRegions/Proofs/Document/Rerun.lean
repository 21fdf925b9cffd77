import GuardedRegions.Proofs.Document.Build
import GuardedRegions.Proofs.Wrapping.Retry
import GuardedRegions.Proofs.Wrapping.Traced

/-!
# Reconstructing a second time

A reconstruction that gives up no try-block leaves nothing for a second one to do. This is so on the method that it leaves, and
also on the method that is built from the outline of its tree, where the regions have other numbers but the same tags.

What is given up is tried again, and it is not always given up again. A second reconstruction therefore changes the trees of
some methods, but of none where no try-block is misplaced.
-/

namespace GuardedRegions

/-! ## Where no try-block was given up -/

namespace Method

variable {m : Method} {options : Options} {done : Reconstruction} {summary : Summary}

theorem idle_or_outcome (hw : m.tree.WellFormed) (hh : m.HandlersExist)
    (he : ∀ entry, m.graph.entry = some entry → entry < m.graph.blockCount)
    (h : m.reconstruct options = .ok done) (hs : done.result = .ok summary) :
    (m.hasNoCode || !m.hasTryBlocks) = true ∧ done = { method := m, result := .ok {} } ∨
      ∃ doms found texts made x, m.graph.dominance = .ok doms ∧ (m.hasNoCode || !m.hasTryBlocks) = false ∧
        m.Outcome doms found texts made x done.method summary ∧
        ∀ q, x.tree.countIn x.failures q ≤ options.passLimit + 1 := by
  cases hidle : m.hasNoCode || !m.hasTryBlocks with
  | true =>
    rw [reconstruct_of_idle hidle] at h
    exact Or.inl ⟨rfl, (Except.ok.inj h).symm⟩
  | false =>
    obtain ⟨doms, hdoms⟩ := Graph.dominance_ok he
    obtain ⟨found, texts, made, x, hout, hcount⟩ := exists_outcome hw hh hidle hdoms h hs
    exact Or.inr ⟨doms, found, texts, made, x, hdoms, rfl, hout, hcount⟩

/-- The second reconstruction, on any method that has the code, the try-blocks and the tags that the first one leaves. -/
theorem reconstruct_again (hw : m.tree.WellFormed) (hh : m.HandlersExist)
    (he : ∀ entry, m.graph.entry = some entry → entry < m.graph.blockCount) (h : m.reconstruct options = .ok done)
    (hs : done.result = .ok summary) (hfailed : summary.failed = 0) {m' : Method} (hw' : m'.tree.WellFormed)
    (hgraph : m'.graph = m.graph) (htries : m'.tryBlocks = m.tryBlocks)
    (htags : ∀ id, some id ∈ m'.tree.tags ↔ some id ∈ done.method.tree.tags) :
    ∃ events, m'.reconstruct options = .ok { method := m', result := .ok {}, events } := by
  rcases idle_or_outcome hw hh he h hs with ⟨hidle, -⟩ | ⟨doms, found, texts, made, x, hdoms, -, hout, -⟩
  · refine ⟨[], reconstruct_of_idle ?_ options⟩
    rwa [hasNoCode, hasTryBlocks, hgraph, htries]
  · have hh' : m'.HandlersExist := by
      unfold HandlersExist
      rw [hgraph, htries]
      exact hh
    have hsame : m'.graph = done.method.graph ∧ m'.tryBlocks = done.method.tryBlocks := by
      rw [hout.method]
      exact ⟨hgraph, htries⟩
    have hsettled := (hout.settled hfailed).of_tags hsame.1 hsame.2 htags
    exact hsettled.reconstruct_eq hw' hh' (hgraph ▸ hdoms) options

end Method

namespace Description

variable {d : Description} {m : Method} {options : Options} {done : Reconstruction} {summary : Summary}

/-- Whatever a reconstruction comes to, it leaves a tree whose blocks and tags are in the lists. -/
theorem tree_of_reconstruct (h : d.toMethod = .ok m) (hok : m.reconstruct options = .ok done) :
    done.method.tree.WellFormed ∧ (∀ id, some id ∈ done.method.tree.tags → id < d.tryBlocks.length) ∧
      ∀ b, done.method.tree.Holds b → b < d.blocks.length := by
  have hbuilt := built_of_toMethod h
  obtain ⟨done', doms, pending, x, htraced⟩ :=
    Method.exists_traced hbuilt.wellFormed hbuilt.handlersExist hbuilt.entry options
  obtain rfl : done' = done := Except.ok.inj (htraced.run.symm.trans hok)
  have hext := htraced.steps.extends hbuilt.wellFormed
  rw [htraced.tree]
  refine ⟨hext.wellFormed, fun id hid => ?_, fun b hb => hbuilt.holds b ((hext.holds_iff hbuilt.wellFormed).1 hb)⟩
  obtain ⟨n, hn⟩ := List.mem_iff_getElem?.1 hid
  obtain ⟨region, hr, htag⟩ := RegionTree.getElem?_tags_eq_some_iff.1 hn
  rcases Nat.lt_or_ge n m.tree.size with hold | hnew
  · obtain ⟨before, hbefore⟩ := RegionTree.lt_size_iff.1 hold
    obtain ⟨after, hafter, -, hkept⟩ := hext.kept n before hbefore
    obtain rfl : after = region := Option.some.inj (hafter.symm.trans hr)
    refine hbuilt.tags id (List.mem_of_getElem? (RegionTree.getElem?_tags_eq_some_iff.2 ⟨before, hbefore, ?_⟩))
    rw [← hkept, htag]
  · obtain ⟨_, tb, -, htb, -, hbody⟩ := htraced.exists_body hbuilt.wellFormed hnew (RegionTree.lt_size_of_get? hr)
    obtain ⟨body, hget, -, hid⟩ := hbody.region
    obtain rfl : body = region := Option.some.inj (hget.symm.trans hr)
    obtain rfl : tb.id = id := Option.some.inj (hid.symm.trans htag)
    exact (hbuilt.ids tb.id).1 (by rw [htb]; exact Option.some_ne_none _)

/-- What a reconstruction leaves can be built from the description with its outline. -/
theorem rebuild_reconstructed (h : d.toMethod = .ok m) (hok : m.reconstruct options = .ok done) :
    ∃ o m', done.method.tree.outline = .ok o ∧ { d with regions := o }.toMethod = .ok m' ∧ m'.graph = m.graph ∧
      m'.tryBlocks = m.tryBlocks ∧ ∀ tag, tag ∈ m'.tree.tags ↔ tag ∈ done.method.tree.tags := by
  obtain ⟨hw, htags, hholds⟩ := tree_of_reconstruct h hok
  exact rebuild_ok h hw htags hholds

/-- **Where no try-block was given up, a second reconstruction changes nothing**: it ends without error and with nothing to
count, and leaves the method as it is, with all its regions, flags and warnings. The same holds of a method that is built from
a description, if it is built again from the outline of the tree that the first reconstruction left. -/
theorem second_run_changes_nothing (options : Options) :
    (∀ (m : Method) (done : Reconstruction) (summary : Summary), m.tree.validate = .ok () → m.HandlersExist →
      (∀ entry, m.graph.entry = some entry → entry < m.graph.blockCount) →
      m.reconstruct options = .ok done → done.result = .ok summary → summary.failed = 0 →
      ∃ events, done.method.reconstruct options = .ok { method := done.method, result := .ok {}, events }) ∧
    ∀ (d : Description) (m : Method) (done : Reconstruction) (summary : Summary), d.toMethod = .ok m →
      m.reconstruct options = .ok done → done.result = .ok summary → summary.failed = 0 →
      ∃ outline m' events, done.method.tree.outline = .ok outline ∧ { d with regions := outline }.toMethod = .ok m' ∧
        m'.reconstruct options = .ok { method := m', result := .ok {}, events } := by
  constructor
  · intro m done summary hv hh he hok hs hfailed
    have hw := RegionTree.validate_eq_ok_iff.1 hv
    obtain ⟨done', hok', -, hw'⟩ := Method.reconstruct_ok hw hh he options options rfl
    obtain rfl : done' = done := Except.ok.inj (hok'.symm.trans hok)
    have hsame : done'.method.graph = m.graph ∧ done'.method.tryBlocks = m.tryBlocks := by
      rcases Method.idle_or_outcome hw hh he hok hs with ⟨-, rfl⟩ | ⟨doms, found, texts, made, x, -, -, hout, -⟩
      · exact ⟨rfl, rfl⟩
      · rw [hout.method]
        exact ⟨rfl, rfl⟩
    exact Method.reconstruct_again hw hh he hok hs hfailed hw' hsame.1 hsame.2 fun _ => Iff.rfl
  · intro d m done summary hd hok hs hfailed
    have hbuilt := built_of_toMethod hd
    obtain ⟨outline, m', houtline, hd', hgraph, htries, htags⟩ := rebuild_reconstructed hd hok
    obtain ⟨events, hagain⟩ := Method.reconstruct_again hbuilt.wellFormed hbuilt.handlersExist hbuilt.entry hok hs hfailed
      (built_of_toMethod hd').wellFormed hgraph htries fun id => htags (some id)
    exact ⟨outline, m', events, houtline, hd', hagain⟩

/-- A method with two nested try-blocks and a third one that begins where the first does. -/
def threeTries : Description where
  name := "three"
  blocks := [{}, { guard := some 0 }, { guard := some 1 }, {}, { guard := some 2 }, { guard := some 2 }]
  edges := [⟨0, 1, .fall⟩, ⟨1, 2, .whenTrue⟩, ⟨1, 5, .whenFalse⟩, ⟨1, 3, .exception⟩, ⟨2, 3, .exception⟩, ⟨2, 4, .jump⟩]
  tryBlocks := [[⟨none, 3⟩], [⟨none, 3⟩], [⟨none, 3⟩]]
  regions := { contents := .block 0 (.region .sequence none (.block 1 (.block 2 (.block 4 (.block 5 .nil)))) (.block 3 .nil)) }

/-- Two of them get a region and one is dropped; the second reconstruction finds nothing to do. -/
theorem second_run_changes_nothing_threeTries :
    ∃ m done outline m' events events', threeTries.toMethod = .ok m ∧ m.reconstruct {} = .ok done ∧
      done.result = .ok { wrapped := 2, failed := 0, dropped := 1, passes := 2 } ∧
      done.method.reconstruct {} = .ok { method := done.method, result := .ok {}, events } ∧
      done.method.tree.outline = .ok outline ∧ { threeTries with regions := outline }.toMethod = .ok m' ∧
      m'.reconstruct {} = .ok { method := m', result := .ok {}, events := events' } := by
  obtain ⟨hsame, hrebuilt⟩ := second_run_changes_nothing {}
  have hrun : (threeTries.toMethod.map fun m => (m.reconstruct {}).map (·.result)) =
      .ok (.ok (.ok { wrapped := 2, failed := 0, dropped := 1, passes := 2 })) := by decide +kernel
  obtain ⟨m, hm⟩ : ∃ m, threeTries.toMethod = .ok m := by
    cases h : threeTries.toMethod with
    | ok m => exact ⟨m, rfl⟩
    | error e => rw [h] at hrun; cases hrun
  have hbuilt := built_of_toMethod hm
  obtain ⟨done, hok, -, -⟩ := Method.reconstruct_ok hbuilt.wellFormed hbuilt.handlersExist hbuilt.entry {} {} rfl
  rw [hm, Except.map, hok, Except.ok.injEq] at hrun
  have hresult := Except.ok.inj hrun
  obtain ⟨events, hagain⟩ := hsame m done _ (RegionTree.validate_eq_ok_iff.2 hbuilt.wellFormed) hbuilt.handlersExist
    hbuilt.entry hok hresult rfl
  obtain ⟨outline, m', events', houtline, hm', hagain'⟩ := hrebuilt threeTries m done _ hm hok hresult rfl
  exact ⟨m, done, outline, m', events, events', hm, hok, hresult, hagain, houtline, hm', hagain'⟩

end Description

/-! ## Where try-blocks were given up -/

namespace Method

variable {m : Method} {options : Options} {done : Reconstruction} {summary : Summary}

/-- **A second reconstruction only tries again what the first one gave up.** It ends without error, gives up again what gets no
region, and leaves the tree as it is if nothing gets one. The regions that it makes are bodies of try-blocks that were
misplaced in the tree at the start. -/
theorem second_run_only_retries (hv : m.tree.validate = .ok ()) (hh : m.HandlersExist)
    (he : ∀ entry, m.graph.entry = some entry → entry < m.graph.blockCount) (h : m.reconstruct options = .ok done)
    (hs : done.result = .ok summary) :
    ∃ doms again summary', m.graph.dominance = .ok doms ∧ done.method.reconstruct options = .ok again ∧
      again.result = .ok summary' ∧ summary'.wrapped + summary'.failed = summary.failed ∧
      again.method.tree.size = done.method.tree.size + summary'.wrapped ∧
      (summary'.wrapped = 0 → again.method.tree = done.method.tree) ∧
      ∀ n, done.method.tree.size ≤ n → n < again.method.tree.size →
        ∃ id, done.method.tree.Gained again.method.tree id n ∧ m.Misplaced doms id := by
  have hw := RegionTree.validate_eq_ok_iff.1 hv
  rcases idle_or_outcome hw hh he h hs with ⟨hidle, rfl⟩ | ⟨doms, found, texts, made, x, hdoms, hidle, hout, hcount⟩
  · obtain ⟨doms, hdoms⟩ := Graph.dominance_ok he
    obtain rfl := Except.ok.inj hs
    exact ⟨doms, _, {}, hdoms, h, rfl, rfl, rfl, fun _ => rfl, fun n hn hlt => absurd hlt (Nat.not_lt.2 hn)⟩
  · have hidle' : (done.method.hasNoCode || !done.method.hasTryBlocks) = false := by
      rw [hout.method]
      exact hidle
    have hdoms' : done.method.graph.dominance = .ok doms := by
      rw [hout.method]
      exact hdoms
    obtain ⟨again, summary', hagain, hs'⟩ := hout.second_ok hw hh hidle' hdoms' hcount
    obtain ⟨found', texts', made', y, hout', -⟩ :=
      exists_outcome hout.wellFormed (hout.handlersExist hh) hidle' hdoms' hagain hs'
    refine ⟨doms, again, summary', hdoms, hagain, hs', hout.retried hout', hout'.size, hout'.tree_eq, ?_⟩
    intro n hn hlt
    obtain ⟨id, hgained⟩ := hout'.exists_gained hn hlt
    exact ⟨id, hgained, hout.misplaced_of_gained hout' hw hh hgained⟩

end Method

namespace Description

/-- A method whose first try-block begins at block 1, behind block 3, which block 1 dominates and where a handler comes. The
second try-block begins at block 2 and takes block 3 away with it. -/
def refusedTry : Description where
  name := "refused"
  blocks := [{}, { guard := some 0 }, { guard := some 1 }, {}, {}]
  edges := [⟨0, 1, .fall⟩, ⟨1, 2, .fall⟩, ⟨2, 3, .exception⟩, ⟨2, 4, .exception⟩]
  tryBlocks := [[⟨none, 3⟩], [⟨none, 4⟩]]
  regions := { contents := .block 0 (.block 3 (.block 1 (.block 2 (.block 4 .nil)))) }

/-- What a first and a second reconstruction count on the method, and how many regions they leave. -/
theorem runs_refusedTry :
    ∃ m done again, refusedTry.toMethod = .ok m ∧ m.reconstruct {} = .ok done ∧
      done.method.reconstruct {} = .ok again ∧
      done.result = .ok { wrapped := 1, failed := 1, dropped := 0, passes := 2 } ∧
      again.result = .ok { wrapped := 1, failed := 0, dropped := 0, passes := 1 } ∧
      done.method.tree.size = 2 ∧ again.method.tree.size = 3 := by
  have hrun : (refusedTry.toMethod.toOption.bind fun m => (m.reconstruct {}).toOption.bind fun done =>
      (done.method.reconstruct {}).toOption.bind fun again => done.result.toOption.bind fun first =>
        again.result.toOption.map fun second => (first, second, done.method.tree.size, again.method.tree.size)) =
      some (⟨1, 1, 0, 2⟩, ⟨1, 0, 0, 1⟩, 2, 3) := by decide +kernel
  simp only [Option.bind_eq_some_iff, Option.map_eq_some_iff, toOption_eq_some_iff, Prod.mk.injEq] at hrun
  obtain ⟨m, hm, done, hdone, again, hagain, first, hfirst, second, hsecond, rfl, rfl, hsize, hsize'⟩ := hrun
  exact ⟨m, done, again, hm, hdone, hagain, hfirst, hsecond, hsize, hsize'⟩

/-- **What was given up may succeed when it is tried again**: it is not so that a second reconstruction never makes a region
and leaves every tree as it is. -/
theorem second_run_may_restructure :
    ¬ ∀ (d : Description) (m : Method) (options : Options) (done : Reconstruction) (summary : Summary),
      d.toMethod = .ok m → m.reconstruct options = .ok done → done.result = .ok summary → 0 < summary.failed →
      ∃ again summary', done.method.reconstruct options = .ok again ∧ again.result = .ok summary' ∧ summary'.wrapped = 0 ∧
        again.method.tree = done.method.tree := by
  intro hall
  obtain ⟨m, done, again, hm, hdone, hagain, hfirst, -, hsize, hsize'⟩ := runs_refusedTry
  obtain ⟨again', -, hagain', -, -, htree⟩ := hall refusedTry m {} done _ hm hdone hfirst (by decide)
  obtain rfl : again' = again := Except.ok.inj (hagain'.symm.trans hagain)
  have := congrArg RegionTree.size htree
  rw [hsize, hsize'] at this
  exact absurd this (by decide)

/-- The one region of the second reconstruction is the body of the try-block that was refused. -/
theorem second_run_only_retries_refusedTry :
    ∃ m done doms again summary' id, refusedTry.toMethod = .ok m ∧ m.reconstruct {} = .ok done ∧
      m.graph.dominance = .ok doms ∧ done.method.reconstruct {} = .ok again ∧ again.result = .ok summary' ∧
      summary'.wrapped + summary'.failed = 1 ∧ done.method.tree.size = 2 ∧ again.method.tree.size = 2 + summary'.wrapped ∧
      done.method.tree.Gained again.method.tree id 2 ∧ m.Misplaced doms id := by
  obtain ⟨m, done, again, hm, hdone, hagain, hfirst, -, hsize, hsize'⟩ := runs_refusedTry
  have hbuilt := built_of_toMethod hm
  obtain ⟨doms, again', summary', hdoms, hagain', hs', hcount, hgrown, -, hgained⟩ :=
    Method.second_run_only_retries (RegionTree.validate_eq_ok_iff.2 hbuilt.wellFormed) hbuilt.handlersExist hbuilt.entry
      hdone hfirst
  obtain rfl : again' = again := Except.ok.inj (hagain'.symm.trans hagain)
  obtain ⟨id, hid, hmisplaced⟩ := hgained 2 (by rw [hsize]) (by rw [hsize']; decide)
  exact ⟨m, done, doms, again', summary', id, hm, hdone, hdoms, hagain, hs', hcount, hsize, hsize ▸ hgrown, hid, hmisplaced⟩

end Description

end GuardedRegions
