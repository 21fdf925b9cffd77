import GuardedRegions.Proofs.Region.Tags
import GuardedRegions.Region.Outline

/-!
# What an outline shows

In a tree the outline of a region ends, and it shows what the region covers: its blocks in their order, and the tags of its
regions (`WellFormed.outline_ok`).
-/

namespace GuardedRegions

namespace Contents

def blocks : Contents → List Nat
  | nil => []
  | block b rest => b :: rest.blocks
  | region _ _ inner rest => inner.blocks ++ rest.blocks

/-- The tags of the regions that are described, each before those of what it holds. -/
def tags : Contents → List (Option Nat)
  | nil => []
  | block _ rest => rest.tags
  | region _ tag inner rest => tag :: (inner.tags ++ rest.tags)

end Contents

namespace RegionTree

open Relation

variable {t : RegionTree} {r : Nat}

/-- Some region that a container covers has the tag. -/
def ShowsTag (t : RegionTree) (c : Container) (tag : Option Nat) : Prop :=
  ∃ q, t.Covers c (.region q) ∧ t.tags[q]? = some tag

theorem not_showsTag_block {b : Nat} {tag : Option Nat} : ¬ t.ShowsTag (.block b) tag := by
  rintro ⟨q, hq, -⟩
  cases covers_block_iff.1 hq

theorem showsTag_region_iff {tag : Option Nat} :
    t.ShowsTag (.region r) tag ↔ t.tags[r]? = some tag ∨ ∃ c ∈ t.childrenOf r, t.ShowsTag c tag := by
  unfold ShowsTag
  simp only [covers_iff (c := .region r), encloses_iff, child_region, Container.region.injEq, or_and_right, exists_or,
    exists_eq_left]
  refine or_congr_right ⟨?_, ?_⟩
  · rintro ⟨q, ⟨c, hc, hq⟩, htag⟩
    exact ⟨c, hc, q, hq, htag⟩
  · rintro ⟨c, hc, q, hq, htag⟩
    exact ⟨q, ⟨c, hc, hq⟩, htag⟩

def outlineChild (t : RegionTree) (depth : Nat) : Container → Contents → Except Fault Contents
  | .block b, rest => .ok (.block b rest)
  | .region q, rest => do return (← t.outlineWithin depth q).before rest

theorem outlineWithin_succ (t : RegionTree) (depth r : Nat) :
    t.outlineWithin (depth + 1) r = t.region r >>= fun region =>
      region.children.foldrM (t.outlineChild depth) .nil >>= fun contents =>
        .ok { kind := region.kind, tryBlock := region.tryBlock, contents } := by
  rw [outlineWithin]
  refine congrArg (t.region r >>= ·) (funext fun region => ?_)
  refine congrArg (fun f => region.children.foldrM f Contents.nil >>= _) ?_
  funext c rest
  cases c <;> rfl

namespace WellFormed

theorem outlineWithin_ok (h : t.WellFormed) {depth r : Nat} (hr : r < t.size) (hd : t.level (.region r) ≤ depth) :
    ∃ o, t.outlineWithin depth r = .ok o ∧ o.contents.blocks = t.blockList (.region r) ∧
      ∀ tag, tag ∈ o.tryBlock :: o.contents.tags ↔ t.ShowsTag (.region r) tag := by
  induction depth generalizing r with
  | zero => exact absurd hd (Nat.not_le.2 level_region_pos)
  | succ depth ih =>
    obtain ⟨region, hg, hok⟩ := region_eq_ok hr
    have hloop : ∀ cs : List Container, (∀ c ∈ cs, c ∈ t.childrenOf r) →
        ∃ contents, cs.foldrM (t.outlineChild depth) .nil = .ok contents ∧ contents.blocks = cs.flatMap t.blockList ∧
          ∀ tag, tag ∈ contents.tags ↔ ∃ c ∈ cs, t.ShowsTag c tag := by
      intro cs hcs
      induction cs with
      | nil => exact ⟨.nil, rfl, rfl, fun tag => by simp [Contents.tags]⟩
      | cons c cs ihcs =>
        obtain ⟨rest, hrest, hblocks, htags⟩ := ihcs fun d hd => hcs d (List.mem_cons_of_mem _ hd)
        have hc := hcs c List.mem_cons_self
        rw [List.foldrM_cons, hrest, ok_bind, List.flatMap_cons, ← hblocks]
        simp only [List.exists_mem_cons_iff, ← htags]
        cases c with
        | block b =>
          refine ⟨.block b rest, rfl, by rw [blockList_block]; rfl, fun tag => ?_⟩
          rw [or_iff_right not_showsTag_block]
          rfl
        | region q =>
          have := h.level_lt (p := .region r) hc
          obtain ⟨o, ho, hoblocks, hotags⟩ := ih (h.has_of_mem hc) (by omega)
          refine ⟨o.before rest, by rw [outlineChild, ho]; rfl, by rw [← hoblocks]; rfl, fun tag => ?_⟩
          rw [← hotags, List.mem_cons, or_assoc, ← List.mem_append, ← List.mem_cons]
          rfl
    obtain ⟨contents, hcontents, hblocks, htags⟩ := hloop _ fun c hc => hc
    rw [childrenOf_eq hg] at hcontents
    refine ⟨{ kind := region.kind, tryBlock := region.tryBlock, contents }, ?_, ?_, fun tag => ?_⟩
    · rw [outlineWithin_succ, hok, ok_bind, hcontents, ok_bind]
    · rw [hblocks, h.blockList_region hr]
    · rw [List.mem_cons, htags, showsTag_region_iff, getElem?_tags, hg, Option.map_some, Option.some.injEq, eq_comm]

/-- **The outline of a tree shows its blocks and its tags.** -/
theorem outline_ok (h : t.WellFormed) :
    ∃ o, t.outline = .ok o ∧ o.contents.blocks = t.blockList (.region t.root) ∧
      ∀ tag, tag ∈ o.tryBlock :: o.contents.tags ↔ tag ∈ t.tags := by
  obtain ⟨o, ho, hblocks, htags⟩ := h.outlineWithin_ok h.root_lt (h.level_le h.root_lt)
  refine ⟨o, ho, hblocks, fun tag => ?_⟩
  rw [htags, List.mem_iff_getElem?]
  refine exists_congr fun q => and_iff_right_of_imp fun hq => h.reached q ?_
  have := (List.getElem?_eq_some_iff.1 hq).1
  rwa [length_tags] at this

end WellFormed

end RegionTree

end GuardedRegions
