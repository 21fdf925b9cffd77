import GuardedRegions.Proofs.Wrapping.Outcome

/-!
# Methods on which nothing is left to do

A method is settled if nothing keeps the search from its end and there is no contender (`Method.Settled`). Its reconstruction
changes nothing (`Settled.reconstruct_eq`). Whether a method is settled depends on which try-blocks are tags of its tree, and
not on their regions (`Settled.of_tags`). A reconstruction that gives up no try-block leaves its method settled
(`Outcome.settled`): of each contender that begins at a block the first has a region, which claims the block for the others.
-/

namespace GuardedRegions

theorem Search.Placed.eq_of_nil {m : Method} {doms : Dominance} {found : Search} {texts : List String}
    (h : Search.Placed m doms [] found texts) : found.pending.entries = [] ∧ found.dropped = [] ∧ texts = [] := by
  have hnil := List.append_eq_nil_iff.1 h.perm.eq_nil
  have htexts := h.texts
  rw [hnil.2] at htexts
  exact ⟨List.map_eq_nil_iff.1 hnil.1, hnil.2, List.forall₂_nil_left_iff.1 htexts⟩

namespace Method

variable {m m' : Method} {doms : Dominance} {options : Options} {found : Search} {texts : List String}
  {made : List (Nat × Nat)} {x : Progress} {summary : Summary} {id d : Nat}

/-- The search comes to its end on the method, and finds nothing. -/
structure Settled (m : Method) (doms : Dominance) : Prop where
  locatable : m.Locatable doms
  no_contender : ∀ id, id ∉ m.contenders doms

theorem Settled.of_tags (h : m.Settled doms) (hgraph : m'.graph = m.graph) (htries : m'.tryBlocks = m.tryBlocks)
    (htags : ∀ id, some id ∈ m'.tree.tags ↔ some id ∈ m.tree.tags) : m'.Settled doms := by
  have hbegins : ∀ id, m'.beginning? doms id = m.beginning? doms id := by
    intro id
    rw [beginning?, hgraph]
    rfl
  have hclaims : ∀ d, m'.claims doms d = m.claims doms d := by
    intro d
    rw [Bool.eq_iff_iff, claims_iff, claims_iff, hgraph]
    simp only [htags, hbegins]
  refine ⟨⟨fun id hid => ?_, fun id hid htag => ?_⟩, fun id hid => h.no_contender id ?_⟩
  · rw [tryBlock?, htries]
    exact h.locatable.known id (hgraph ▸ hid)
  · rw [hbegins]
    exact h.locatable.located id (hgraph ▸ hid) (mt (htags id).2 htag)
  · rw [mem_contenders_iff, hgraph, htags, hbegins] at hid
    simpa only [mem_contenders_iff, hclaims] using hid

theorem reconstruct_of_idle (h : (m.hasNoCode || !m.hasTryBlocks) = true) (options : Options) :
    m.reconstruct options = .ok { method := m, result := .ok {} } := by
  unfold reconstruct
  rw [if_pos h]
  rfl

/-- **The reconstruction of a settled method changes nothing.** -/
theorem Settled.reconstruct_eq (h : m.Settled doms) (hw : m.tree.WellFormed) (hh : m.HandlersExist)
    (hdoms : m.graph.dominance = .ok doms) (options : Options) :
    ∃ events, m.reconstruct options = .ok { method := m, result := .ok {}, events } := by
  cases hidle : m.hasNoCode || !m.hasTryBlocks with
  | true => exact ⟨[], reconstruct_of_idle hidle options⟩
  | false =>
    obtain ⟨searched, texts, hsearch, hmethod, ⟨-, found, hfound, hplaced⟩ | ⟨hno, -⟩⟩ := search_ok hw doms
    · have hnil : (m.contenders doms).toList = [] := List.eq_nil_iff_forall_not_mem.2 h.no_contender
      rw [hnil] at hplaced
      obtain ⟨hentries, hdropped, rfl⟩ := hplaced.eq_of_nil
      have hsearched : searched.method = m := by rw [hmethod, List.append_nil]
      have hrun : searched.method.resolve doms found.pending options.passLimit =
          .ok ({ method := searched.method, pending := found.pending }, .ok {}) :=
        Resolution.run_of_isEmpty (List.isEmpty_iff.2 hentries) _
      obtain ⟨events, hok⟩ := reconstruct_of_found hw hh hidle hdoms hsearch hmethod hfound hrun
      rw [hsearched, hdropped] at hok
      exact ⟨events, hok⟩
    · exact absurd h.locatable hno

namespace Outcome

theorem beginning?_eq (h : m.Outcome doms found texts made x m' summary) (id : Nat) :
    m'.beginning? doms id = m.beginning? doms id := by
  rw [h.method]
  rfl

theorem contender_of_entry (h : m.Outcome doms found texts made x m' summary) {e : Nat × Nat}
    (he : e ∈ found.pending.entries) : e.2 ∈ m.contenders doms ∧ m.beginning? doms e.2 = some e.1 := by
  obtain ⟨hcontender, hbegins, -⟩ := h.placed.get?_eq_some_iff.1 (Pending.get?_eq_some_iff.2 he)
  exact ⟨hcontender, hbegins⟩

theorem mem_tags_iff (h : m.Outcome doms found texts made x m' summary) :
    some id ∈ m'.tree.tags ↔ some id ∈ m.tree.tags ∨ ∃ e ∈ made, e.2 = id := by
  simp [h.tags]

theorem locatable' (h : m.Outcome doms found texts made x m' summary) : m'.Locatable doms where
  known := by
    rw [h.method]
    exact h.locatable.known
  located id hid htag := by
    rw [h.beginning?_eq]
    refine h.locatable.located id (by rwa [h.method] at hid) fun hold => htag (h.mem_tags_iff.2 (Or.inl hold))

theorem claims_of_claims (h : m.Outcome doms found texts made x m' summary) (hd : m.claims doms d = true) :
    m'.claims doms d = true := by
  obtain ⟨id, hid, htag, hbegins⟩ := claims_iff.1 hd
  refine claims_iff.2 ⟨id, by rwa [h.method], h.mem_tags_iff.2 (Or.inl htag), ?_⟩
  rw [h.beginning?_eq, hbegins]

theorem claims_of_made (h : m.Outcome doms found texts made x m' summary) {e : Nat × Nat} (he : e ∈ made) :
    m'.claims doms e.1 = true := by
  obtain ⟨hcontender, hbegins⟩ := h.contender_of_entry (h.ledger.mem_of_made he)
  refine claims_iff.2 ⟨e.2, ?_, h.mem_tags_iff.2 (Or.inr ⟨e, he, rfl⟩), ?_⟩
  · rw [h.method]
    exact (mem_contenders_iff.1 hcontender).1
  · rw [h.beginning?_eq, hbegins]

theorem contender_of_contender (h : m.Outcome doms found texts made x m' summary) (hid : id ∈ m'.contenders doms) :
    id ∈ m.contenders doms := by
  obtain ⟨huse, htag, hfree⟩ := mem_contenders_iff.1 hid
  refine mem_contenders_iff.2 ⟨by rwa [h.method] at huse, fun hold => htag (h.mem_tags_iff.2 (Or.inl hold)), fun d hd => ?_⟩
  rw [← Bool.not_eq_true]
  intro hclaims
  have := hfree d (by rw [h.beginning?_eq, hd])
  rw [h.claims_of_claims hclaims] at this
  cases this

/-- **A contender that is left begins where a try-block begins that was given up**: the first one that begins there has no
region. -/
theorem exists_failure_of_contender (h : m.Outcome doms found texts made x m' summary) (hid : id ∈ m'.contenders doms) :
    ∃ e ∈ x.failures, m.beginning? doms id = some e.1 := by
  have hold := h.contender_of_contender hid
  obtain ⟨d, hd⟩ : ∃ d, m.beginning? doms id = some d := by
    obtain ⟨huse, htag, -⟩ := mem_contenders_iff.1 hold
    exact Option.ne_none_iff_exists'.1 (h.locatable.located id huse htag)
  obtain ⟨first, hfirst⟩ := Option.ne_none_iff_exists'.1 (h.placed.get?_ne_none_iff.2 ⟨id, hold, hd⟩)
  rcases List.mem_append.1 (h.entries.mem_iff.2 (Pending.get?_eq_some_iff.1 hfirst)) with hmade | hfailed
  · have := (mem_contenders_iff.1 hid).2.2 d (by rw [h.beginning?_eq, hd])
    rw [h.claims_of_made hmade] at this
    cases this
  · exact ⟨_, hfailed, hd⟩

/-- **Where no try-block was given up, the method is settled.** -/
theorem settled (h : m.Outcome doms found texts made x m' summary) (hfailed : summary.failed = 0) : m'.Settled doms where
  locatable := h.locatable'
  no_contender id hid := by
    obtain ⟨e, he, -⟩ := h.exists_failure_of_contender hid
    have hnil : x.failures = [] := List.length_eq_zero_iff.1 (h.failed ▸ hfailed)
    rw [hnil] at he
    cases he

end Outcome

end Method

end GuardedRegions
