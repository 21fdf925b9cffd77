import GuardedRegions.Proofs.Region.Valid
import GuardedRegions.Proofs.Wrapping.Search

/-!
# Where the open try-blocks begin

A try-block in use is tagged if a region that the root leads to is its body, and open otherwise. If all open ones begin
somewhere, the search keeps, for each block where open ones begin and no tagged one does, the lowest of them, drops the others
in ascending order and warns of each (`Search.Complete`). If not, it ends with what is left of the dominators for the lowest
that begins nowhere (`Method.search_finds_beginnings`).
-/

namespace GuardedRegions

namespace Method

variable {m : Method} {doms : Dominance} {id d : Nat}

/-- A region that the root leads to is the body of the try-block. -/
def Tagged (m : Method) (id : Nat) : Prop :=
  ∃ r region, m.tree.Covers (.region m.tree.root) (.region r) ∧ m.tree.get? r = some region ∧ region.tryBlock = some id

/-- The try-block guards a block, and no region that the root leads to is its body. -/
def Open (m : Method) (id : Nat) : Prop := id ∈ m.graph.tryBlocksInUse ∧ ¬ m.Tagged id

theorem tagged_iff (hw : m.tree.WellFormed) : m.Tagged id ↔ some id ∈ m.tree.tags := by
  rw [List.mem_iff_getElem?]
  constructor
  · rintro ⟨r, region, -, hr, htag⟩
    exact ⟨r, RegionTree.getElem?_tags_eq_some_iff.2 ⟨region, hr, htag⟩⟩
  · rintro ⟨r, hr⟩
    obtain ⟨region, hr, htag⟩ := RegionTree.getElem?_tags_eq_some_iff.1 hr
    exact ⟨r, region, hw.reached r (RegionTree.lt_size_of_get? hr), hr, htag⟩

theorem claims_eq_false_iff (hw : m.tree.WellFormed) :
    m.claims doms d = false ↔ ∀ id ∈ m.graph.tryBlocksInUse, m.Tagged id → m.beginning? doms id ≠ some d := by
  simp only [← Bool.not_eq_true, claims_iff, tagged_iff hw, not_exists, not_and, ne_eq]

/-- Of the try-blocks that begin at a block, all open ones are contenders or none is. -/
theorem mem_contenders_of_begins (hw : m.tree.WellFormed) (hd : m.beginning? doms id = some d) :
    id ∈ m.contenders doms ↔ m.Open id ∧ m.claims doms d = false := by
  rw [mem_contenders_iff, Open, tagged_iff hw, hd, and_assoc]
  simp

end Method

namespace Search

variable {m : Method} {doms : Dominance} {found : Search} {texts : List String} {id d kept : Nat}

/-- What there is to find: the lowest open try-block for each block where open ones begin and no tagged one does, and the other
open ones that begin at such blocks, with a warning for each. -/
structure Complete (m : Method) (doms : Dominance) (found : Search) (texts : List String) : Prop where
  /-- There is something under a block if an open try-block begins there and no tagged one does. -/
  key : ∀ d, found.pending.get? d ≠ none ↔ (∃ id, m.Open id ∧ m.beginning? doms id = some d) ∧
    ∀ id ∈ m.graph.tryBlocksInUse, m.Tagged id → m.beginning? doms id ≠ some d
  /-- It is the lowest open try-block that begins there. -/
  kept : ∀ d kept, found.pending.get? d = some kept → m.Open kept ∧ m.beginning? doms kept = some d ∧
    ∀ id, m.Open id → m.beginning? doms id = some d → kept ≤ id
  ascending : found.dropped.Pairwise (· < ·)
  /-- The other open ones that begin there are dropped, and nothing else is. -/
  dropped : ∀ id, id ∈ found.dropped ↔ m.Open id ∧
    ∃ d kept, m.beginning? doms id = some d ∧ found.pending.get? d = some kept ∧ id ≠ kept
  warns : List.Forall₂ (WarnsOf m doms found.pending) found.dropped texts

namespace Placed

theorem mem_dropped_iff (h : Placed m doms (m.contenders doms).toList found texts) (hd : m.beginning? doms id = some d) :
    id ∈ found.dropped ↔ id ∈ m.contenders doms ∧ found.pending.get? d ≠ some id := by
  have hpending : id ∈ found.pending.entries.map (·.2) ↔ found.pending.get? d = some id := by
    constructor
    · intro hid
      obtain ⟨e, he, rfl⟩ := List.mem_map.1 hid
      have hget := Pending.get?_eq_some_iff.2 he
      have hbegins := (h.get?_eq_some_iff.1 hget).2.1
      rw [hd, Option.some.injEq] at hbegins
      rwa [hbegins]
    · exact fun hget => List.mem_map.2 ⟨(d, id), Pending.get?_eq_some_iff.1 hget, rfl⟩
  have hnodup : (found.pending.entries.map (·.2) ++ found.dropped).Nodup :=
    h.perm.nodup_iff.2 ((m.contenders doms).ascending.imp Nat.ne_of_lt)
  have hapart : id ∈ found.pending.entries.map (·.2) → id ∉ found.dropped := fun hid hid' =>
    (List.nodup_append.1 hnodup).2.2 id hid id hid' rfl
  rw [← IdSet.mem_toList, ← h.perm.mem_iff, List.mem_append, ne_eq, ← hpending]
  tauto

theorem complete (h : Placed m doms (m.contenders doms).toList found texts) (hw : m.tree.WellFormed)
    (hl : m.Locatable doms) : Complete m doms found texts where
  key d := by
    rw [h.get?_ne_none_iff, ← Method.claims_eq_false_iff hw]
    constructor
    · rintro ⟨id, hid, hd⟩
      obtain ⟨hopen, hfree⟩ := (Method.mem_contenders_of_begins hw hd).1 hid
      exact ⟨⟨id, hopen, hd⟩, hfree⟩
    · rintro ⟨⟨id, hopen, hd⟩, hfree⟩
      exact ⟨id, (Method.mem_contenders_of_begins hw hd).2 ⟨hopen, hfree⟩, hd⟩
  kept d kept hget := by
    obtain ⟨hkept, hd, hleast⟩ := h.get?_eq_some_iff.1 hget
    obtain ⟨hopen, hfree⟩ := (Method.mem_contenders_of_begins hw hd).1 hkept
    exact ⟨hopen, hd, fun id hid hbegins =>
      hleast id ((Method.mem_contenders_of_begins hw hbegins).2 ⟨hid, hfree⟩) hbegins⟩
  ascending := (m.contenders doms).ascending.sublist h.sublist
  dropped id := by
    constructor
    · intro hid
      have hcontender : id ∈ m.contenders doms := h.sublist.subset hid
      obtain ⟨huse, htag, -⟩ := Method.mem_contenders_iff.1 hcontender
      obtain ⟨d, hd⟩ := Option.ne_none_iff_exists'.1 (hl.located id huse htag)
      obtain ⟨kept, hget⟩ := Option.ne_none_iff_exists'.1 (h.get?_ne_none_iff.2 ⟨id, hcontender, hd⟩)
      refine ⟨((Method.mem_contenders_of_begins hw hd).1 hcontender).1, d, kept, hd, hget, ?_⟩
      rintro rfl
      exact ((h.mem_dropped_iff hd).1 hid).2 hget
    · rintro ⟨hopen, d, kept, hd, hget, hne⟩
      obtain ⟨hkept, hbegins, -⟩ := h.get?_eq_some_iff.1 hget
      have hfree := ((Method.mem_contenders_of_begins hw hbegins).1 hkept).2
      refine (h.mem_dropped_iff hd).2 ⟨(Method.mem_contenders_of_begins hw hd).2 ⟨hopen, hfree⟩, ?_⟩
      rw [hget, ne_eq, Option.some.injEq]
      exact hne.symm
  warns := h.warns

end Placed

end Search

namespace Method

/-- **What the search finds is decided by where the open try-blocks begin.** On a tree, and if the method has all try-blocks in
use, it finds all that there is to find if each open one begins somewhere. Otherwise it ends with what is left of the dominators
for the lowest open one that begins nowhere. All that it does to the method is to warn. -/
theorem search_finds_beginnings {m : Method} (hv : m.tree.validate = .ok ())
    (hknown : ∀ id ∈ m.graph.tryBlocksInUse, m.tryBlock? id ≠ none) (doms : Dominance) :
    ∃ run texts, m.search doms = .ok run ∧ run.method = { m with warnings := m.warnings ++ texts } ∧
      ((∀ id, m.Open id → m.beginning? doms id ≠ none) →
        ∃ found, run.found = .ok found ∧ Search.Complete m doms found texts) ∧
      ((∃ id, m.Open id ∧ m.beginning? doms id = none) → ∃ id residual, m.Open id ∧
        doms.nearest (m.graph.guardedBy id).toList = .error residual ∧
        (∀ i, m.Open i → m.beginning? doms i = none → id ≤ i) ∧
        run.found = .error (.structuralInconsistency m.name residual.toList)) := by
  have hw := RegionTree.validate_eq_ok_iff.1 hv
  obtain ⟨run, texts, hok, hmethod, hend⟩ := search_ok hw doms
  refine ⟨run, texts, hok, hmethod, fun hall => ?_, ?_⟩
  · have hl : m.Locatable doms := ⟨hknown, fun id huse htag => hall id ⟨huse, (tagged_iff hw).not.2 htag⟩⟩
    obtain ⟨-, found, hfound, hplaced⟩ | ⟨hno, -⟩ := hend
    · exact ⟨found, hfound, hplaced.complete hw hl⟩
    · exact absurd hl hno
  · rintro ⟨id, ⟨huse, htag⟩, hnowhere⟩
    obtain ⟨hl, -⟩ | ⟨-, e, he, hunlocatable, -⟩ := hend
    · exact absurd hnowhere (hl.located id huse ((tagged_iff hw).not.1 htag))
    · cases hunlocatable with
      | unknown hid hnone => exact absurd hnone (hknown _ hid)
      | nowhere hid hopen hnearest hfirst =>
        exact ⟨_, _, ⟨hid, (tagged_iff hw).not.2 hopen⟩, hnearest,
          fun i hi hnone => hfirst i hi.1 ((tagged_iff hw).not.1 hi.2) hnone, he⟩

/-- A method of four try-blocks. The first has its region; it begins at block 1, and so does the last, which guards the branches
from there. The others begin at block 4: one guards it, one guards the branches from it. -/
def sharedBeginnings : Method where
  name := "shared"
  graph := {
    blocks := #[{}, { guard := some 7 }, { guard := some 10 }, { guard := some 10 }, { guard := some 8 },
      { guard := some 9 }, { guard := some 9 }, {}]
    edges := #[⟨0, 1, .fall⟩, ⟨1, 2, .whenTrue⟩, ⟨1, 3, .whenFalse⟩, ⟨2, 4, .jump⟩, ⟨3, 4, .fall⟩, ⟨4, 5, .whenTrue⟩,
      ⟨4, 6, .whenFalse⟩, ⟨1, 7, .exception⟩, ⟨4, 7, .exception⟩]
    entry := some 0
    edges_inside := by decide }
  tryBlocks := [⟨7, [⟨none, 7⟩]⟩, ⟨8, [⟨none, 7⟩]⟩, ⟨9, [⟨none, 7⟩]⟩, ⟨10, [⟨none, 7⟩]⟩]
  tree := {
    regions := #[
      { kind := .sequence, parent := none,
        children := [.block 0, .region 1, .block 4, .block 5, .block 6, .block 7] },
      { kind := .sequence, parent := some 0, children := [.block 1, .block 2, .block 3], tryBlock := some 7 }] }

def sharedDominance : Dominance :=
  .ofSets [(0, [0]), (1, [0, 1]), (2, [0, 1, 2]), (3, [0, 1, 3]), (4, [0, 1, 4]), (5, [0, 1, 4, 5]), (6, [0, 1, 4, 6]),
    (7, [0, 1, 7])]

/-- The second try-block is kept and the third one dropped, and the last one is left alone. Where block 4 has two dominators of
which none dominates the other, both are what is left for the second try-block. -/
theorem search_finds_beginnings_sharedBeginnings :
    (∃ run found, sharedBeginnings.search sharedDominance = .ok run ∧ run.found = .ok found ∧
      found.pending.get? 1 = none ∧ found.pending.get? 4 = some 8 ∧ 9 ∈ found.dropped ∧ 10 ∉ found.dropped) ∧
    ∃ run, sharedBeginnings.search (.ofSets [(4, [5, 6])]) = .ok run ∧
      run.found = .error (.structuralInconsistency "shared" [5, 6]) ∧ run.method.tree = sharedBeginnings.tree := by
  have hfinds := search_finds_beginnings (m := sharedBeginnings) (by decide) (by decide)
  have htagged : ∀ id, sharedBeginnings.Tagged id ↔ some id ∈ sharedBeginnings.tree.tags := fun id =>
    tagged_iff (RegionTree.validate_eq_ok_iff.1 (by decide))
  have h7 : sharedBeginnings.Tagged 7 := (htagged 7).2 (by decide)
  have h8 : sharedBeginnings.Open 8 := ⟨by decide, (htagged 8).not.2 (by decide)⟩
  have h9 : sharedBeginnings.Open 9 := ⟨by decide, (htagged 9).not.2 (by decide)⟩
  have huse : ∀ id ∈ sharedBeginnings.graph.tryBlocksInUse, id = 7 ∨ 8 ≤ id := by decide
  have hlow : ∀ id, sharedBeginnings.Open id → 8 ≤ id := by
    rintro id ⟨hid, htag⟩
    refine (huse id hid).resolve_left ?_
    rintro rfl
    exact htag h7
  constructor
  · obtain ⟨run, texts, hok, -, hfound, -⟩ := hfinds sharedDominance
    have hall : ∀ id ∈ sharedBeginnings.graph.tryBlocksInUse, sharedBeginnings.beginning? sharedDominance id ≠ none := by
      decide
    obtain ⟨found, hfound, hcomplete⟩ := hfound fun id hid => hall id hid.1
    have hone : found.pending.get? 1 = none := by
      by_contra hkey
      exact ((hcomplete.key 1).1 hkey).2 7 (by decide) h7 (by decide)
    have hfree : ∀ id ∈ sharedBeginnings.graph.tryBlocksInUse, sharedBeginnings.Tagged id →
        sharedBeginnings.beginning? sharedDominance id ≠ some 4 := by
      simp only [htagged]
      decide
    have hfour : found.pending.get? 4 = some 8 := by
      obtain ⟨kept, hkept⟩ := Option.ne_none_iff_exists'.1 ((hcomplete.key 4).2 ⟨⟨8, h8, by decide⟩, hfree⟩)
      obtain ⟨hopen, -, hleast⟩ := hcomplete.kept 4 kept hkept
      rw [hkept, Nat.le_antisymm (hleast 8 h8 (by decide)) (hlow kept hopen)]
    refine ⟨run, found, hok, hfound, hone, hfour, (hcomplete.dropped 9).2 ⟨h9, 4, 8, by decide, hfour, by decide⟩, ?_⟩
    intro hten
    obtain ⟨-, d, kept, hd, hget, -⟩ := (hcomplete.dropped 10).1 hten
    obtain rfl : 1 = d := Option.some.inj hd
    rw [hone] at hget
    cases hget
  · obtain ⟨run, texts, hok, hmethod, -, herror⟩ := hfinds (.ofSets [(4, [5, 6])])
    obtain ⟨id, residual, hopen, hnearest, hleast, hfound⟩ := herror ⟨8, h8, by decide⟩
    obtain rfl : id = 8 := Nat.le_antisymm (hleast 8 h8 (by decide)) (hlow id hopen)
    obtain rfl : IdSet.ofList [5, 6] = residual := Except.error.inj hnearest
    exact ⟨run, hok, hfound, by rw [hmethod]⟩

end Method

end GuardedRegions
