import GuardedRegions.Proofs.Method
import GuardedRegions.Proofs.Region.Tags
import GuardedRegions.Proofs.Warning
import GuardedRegions.Proofs.Wrapping.Pending
import GuardedRegions.Wrapping.Search

/-!
# What the search finds

A try-block in use that has no region is a contender if no try-block with a region begins at the same block
(`Method.contenders`). Among the contenders that begin at one block the search keeps the first and drops the others, each with
a warning (`Search.Placed`); so every contender is pending or dropped. The search succeeds if the method has all try-blocks in
use and those without a region begin somewhere (`Method.Locatable`), and otherwise ends with what is wrong with one of them
(`Method.Unlocatable`). All that it does to the method is to warn.
-/

namespace GuardedRegions

theorem IdSet.find?_eq_some_iff {s : IdSet} {p : Nat → Bool} {i : Nat} :
    s.toList.find? p = some i ↔ i ∈ s ∧ p i = true ∧ ∀ j ∈ s, p j = true → i ≤ j := by
  obtain ⟨xs, hxs⟩ := s
  show xs.find? p = some i ↔ i ∈ xs ∧ p i = true ∧ ∀ j ∈ xs, p j = true → i ≤ j
  constructor
  · intro h
    obtain ⟨hp, front, behind, rfl, hfront⟩ := List.find?_eq_some_iff_append.1 h
    refine ⟨by simp, hp, fun j hj hpj => ?_⟩
    rcases List.mem_append.1 hj with hj | hj
    · exact absurd hpj (by simpa using hfront j hj)
    · rcases List.mem_cons.1 hj with rfl | hj
      · exact Nat.le_refl _
      · exact Nat.le_of_lt ((List.pairwise_cons.1 (List.pairwise_append.1 hxs).2.1).1 j hj)
  · rintro ⟨hi, hp, hleast⟩
    obtain ⟨front, behind, rfl⟩ := List.append_of_mem hi
    refine List.find?_eq_some_iff_append.2 ⟨hp, front, behind, rfl, fun j hj => ?_⟩
    have hlt : j < i := (List.pairwise_append.1 hxs).2.2 j hj i List.mem_cons_self
    have := mt (hleast j (List.mem_append_left _ hj)) (Nat.not_le.2 hlt)
    simpa using this

namespace Method

variable {m : Method} {doms : Dominance} {id : Nat} {residual : IdSet}

/-- The block where a try-block begins: the nearest common dominator of the blocks that it guards. -/
def beginning? (m : Method) (doms : Dominance) (id : Nat) : Option Nat :=
  (doms.nearest (m.graph.guardedBy id).toList).toOption

/-- Whether some try-block in use has a region and begins at a block. -/
def claims (m : Method) (doms : Dominance) (d : Nat) : Bool :=
  m.graph.tryBlocksInUse.toList.any fun id => m.tree.tags.contains (some id) && m.beginning? doms id == some d

/-- The try-blocks in use without a region that do not begin where one with a region begins. -/
def contenders (m : Method) (doms : Dominance) : IdSet :=
  m.graph.tryBlocksInUse.filter fun id => !m.tree.tags.contains (some id) && !(m.beginning? doms id).any (m.claims doms)

/-- The method has all try-blocks in use, and those without a region begin somewhere. -/
structure Locatable (m : Method) (doms : Dominance) : Prop where
  known : ∀ id ∈ m.graph.tryBlocksInUse, m.tryBlock? id ≠ none
  located : ∀ id ∈ m.graph.tryBlocksInUse, some id ∉ m.tree.tags → m.beginning? doms id ≠ none

/-- Why a search ends without result: the method does not have a try-block in use, or one without a region begins nowhere, the
first of them that does. -/
inductive Unlocatable (m : Method) (doms : Dominance) : Error → Prop
  | unknown {id : Nat} (hid : id ∈ m.graph.tryBlocksInUse) (hnone : m.tryBlock? id = none) :
      Unlocatable m doms (.unknownGuard id m.name)
  | nowhere {id : Nat} {residual : IdSet} (hid : id ∈ m.graph.tryBlocksInUse) (htag : some id ∉ m.tree.tags)
      (hnearest : doms.nearest (m.graph.guardedBy id).toList = .error residual)
      (hfirst : ∀ i ∈ m.graph.tryBlocksInUse, some i ∉ m.tree.tags → m.beginning? doms i = none → id ≤ i) :
      Unlocatable m doms (.structuralInconsistency m.name residual.toList)

theorem beginning?_eq_none (h : doms.nearest (m.graph.guardedBy id).toList = .error residual) :
    m.beginning? doms id = none := by
  rw [beginning?, h]
  rfl

theorem Unlocatable.not_locatable {e : Error} (h : m.Unlocatable doms e) : ¬ m.Locatable doms := by
  intro hl
  cases h with
  | unknown hid hnone => exact hl.known _ hid hnone
  | nowhere hid htag hnearest _ => exact hl.located _ hid htag (beginning?_eq_none hnearest)

theorem claims_iff {d : Nat} :
    m.claims doms d = true ↔
      ∃ id ∈ m.graph.tryBlocksInUse, some id ∈ m.tree.tags ∧ m.beginning? doms id = some d := by
  simp [claims]

theorem mem_contenders_iff :
    id ∈ m.contenders doms ↔ id ∈ m.graph.tryBlocksInUse ∧ some id ∉ m.tree.tags ∧
      ∀ d, m.beginning? doms id = some d → m.claims doms d = false := by
  simp only [contenders, IdSet.mem_filter, Bool.and_eq_true, Bool.not_eq_true', List.contains_eq_mem, decide_eq_false_iff_not]
  refine and_congr_right fun _ => and_congr_right fun _ => ?_
  cases m.beginning? doms id <;> simp

end Method

namespace Search

variable {m : Method} {doms : Dominance} {done ids : List Nat} {news : List String}

/-! ## Telling apart -/

/-- The try-blocks of a list, told apart by whether they have a region. -/
structure Sorted (m : Method) (doms : Dominance) (ids : List Nat) (s : Triage) : Prop where
  known : ∀ id ∈ ids, m.tryBlock? id ≠ none
  opened : s.opened = ids.filter fun id => !m.tree.tags.contains (some id)
  claimed : ∀ d, (s.claimed.get? d).isSome =
    ids.any fun id => m.tree.tags.contains (some id) && m.beginning? doms id == some d

theorem Sorted.opened_step {s : Triage} (h : Sorted m doms done s) {id : Nat} (hid : m.tryBlock? id ≠ none)
    (htag : some id ∉ m.tree.tags) : Sorted m doms (done ++ [id]) { s with opened := s.opened ++ [id] } where
  known := List.forall_mem_append.2 ⟨h.known, by simpa using hid⟩
  opened := by simp [h.opened, htag]
  claimed d := by simp [h.claimed, htag]

theorem Sorted.claimed_step {s : Triage} (h : Sorted m doms done s) {id : Nat} (hid : m.tryBlock? id ≠ none)
    (htag : some id ∈ m.tree.tags) (events : List Event) :
    Sorted m doms (done ++ [id]) { s with
      claimed := match doms.nearest (m.graph.guardedBy id).toList with
        | .ok dominator => s.claimed.insert dominator id
        | .error _ => s.claimed
      events } where
  known := List.forall_mem_append.2 ⟨h.known, by simpa using hid⟩
  opened := by simp [h.opened, htag]
  claimed d := by
    have hold := h.claimed d
    have hbegins : m.beginning? doms id = (doms.nearest (m.graph.guardedBy id).toList).toOption := rfl
    rw [List.any_append, ← hold, List.any_cons, List.any_nil, hbegins]
    cases doms.nearest (m.graph.guardedBy id).toList with
    | error residual => simp [Except.toOption]
    | ok dominator =>
      by_cases hd : d = dominator
      · simp [Except.toOption, htag, hd]
      · have hd' : dominator ≠ d := Ne.symm hd
        simp [Except.toOption, htag, hd, hd']

theorem triage_ok (hw : m.tree.WellFormed) {s : Triage} (h : Sorted m doms done s) (ids : List Nat) :
    ∃ triaged verdict, triage m doms ids s = .ok (triaged, verdict) ∧
      (verdict = .ok () ∧ Sorted m doms (done ++ ids) triaged ∨
        ∃ id ∈ ids, m.tryBlock? id = none ∧ verdict = .error (.unknownGuard id m.name)) := by
  induction ids generalizing done s with
  | nil => exact ⟨s, .ok (), rfl, Or.inl ⟨rfl, by rwa [List.append_nil]⟩⟩
  | cons id ids ih =>
    unfold triage
    split
    · rename_i hnone
      exact ⟨s, _, rfl, Or.inr ⟨id, List.mem_cons_self, by simpa using hnone, rfl⟩⟩
    · rename_i hsome
      have hid : m.tryBlock? id ≠ none := by simpa using hsome
      obtain ⟨bodies, hb, -, hmem⟩ := hw.mem_bodies_iff id
      have hnil : m.tree.bodiesOf id = .ok [] ↔ some id ∉ m.tree.tags := hw.bodiesOf_eq_nil_iff
      rw [hb, Except.ok.injEq] at hnil
      rw [hb, ok_bind]
      have hgrown : ∀ {s'}, Sorted m doms (done ++ [id]) s' → ∃ triaged verdict, triage m doms ids s' = .ok (triaged, verdict) ∧
          (verdict = .ok () ∧ Sorted m doms (done ++ id :: ids) triaged ∨
            ∃ i ∈ id :: ids, m.tryBlock? i = none ∧ verdict = .error (.unknownGuard i m.name)) := by
        intro s' hs'
        obtain ⟨triaged, verdict, hok, hend⟩ := ih hs'
        rw [List.append_assoc, List.singleton_append] at hend
        refine ⟨triaged, verdict, hok, hend.imp_right ?_⟩
        rintro ⟨i, hi, hnone⟩
        exact ⟨i, List.mem_cons_of_mem _ hi, hnone⟩
      split
      · rename_i hempty
        exact hgrown (h.opened_step hid (hnil.1 (List.isEmpty_iff.1 hempty)))
      · rename_i hempty
        have htag : some id ∈ m.tree.tags := not_not.1 (mt hnil.2 (by simpa using hempty))
        exact hgrown (h.claimed_step hid htag _)

/-! ## Finding the beginnings -/

/-- A text warns that a try-block is dropped, as another one is pending where it begins. -/
def WarnsOf (m : Method) (doms : Dominance) (pending : Pending) (id : Nat) (text : String) : Prop :=
  ∃ d kept, m.beginning? doms id = some d ∧ pending.get? d = some kept ∧ text = Warning.dropped id d kept

/-- Contenders, of which the first that begins at a block is pending, and the others are dropped with a warning, in their
order. -/
structure Placed (m : Method) (doms : Dominance) (ids : List Nat) (found : Search) (texts : List String) : Prop where
  pending : ∀ d, found.pending.get? d = ids.find? fun id => m.beginning? doms id == some d
  perm : (found.pending.entries.map (·.2) ++ found.dropped).Perm ids
  sublist : found.dropped.Sublist ids
  warns : List.Forall₂ (WarnsOf m doms found.pending) found.dropped texts

theorem Placed.texts {found : Search} (h : Placed m doms ids found news) :
    List.Forall₂ Warning.SaysDropped found.dropped news :=
  h.warns.imp fun _ _ ⟨d, kept, _, _, htext⟩ => ⟨d, kept, htext⟩

namespace Placed

variable {found : Search}

theorem start (m : Method) (doms : Dominance) : Placed m doms [] {} [] where
  pending _ := rfl
  perm := .nil
  sublist := .slnil
  warns := .nil

theorem kept (h : Placed m doms done found news) {id d : Nat} (hd : m.beginning? doms id = some d)
    (hnone : found.pending.get? d = none) :
    Placed m doms (done ++ [id]) { found with pending := found.pending.insert d id } news where
  pending i := by
    rw [List.find?_append, ← h.pending i, Pending.get?_insert]
    by_cases hi : i = d
    · subst hi
      simp [hnone, hd]
    · have hdi : d ≠ i := Ne.symm hi
      simp [hi, hd, hdi]
  perm := by
    have hinsert := (Pending.perm_insert id hnone).map (·.2)
    rw [List.map_cons] at hinsert
    refine (hinsert.append_right found.dropped).trans ?_
    exact (h.perm.cons id).trans (List.perm_append_singleton id done).symm
  sublist := h.sublist.trans (List.sublist_append_left done [id])
  warns := by
    refine h.warns.imp fun i text ⟨di, kept, hdi, hkept, htext⟩ => ⟨di, kept, hdi, ?_, htext⟩
    have hne : di ≠ d := by
      rintro rfl
      rw [hnone] at hkept
      cases hkept
    rw [Pending.get?_insert, if_neg hne, hkept]

theorem dropped (h : Placed m doms done found news) {id d kept : Nat} (hd : m.beginning? doms id = some d)
    (hkept : found.pending.get? d = some kept) :
    Placed m doms (done ++ [id]) { found with dropped := found.dropped ++ [id] }
      (news ++ [Warning.dropped id d kept]) where
  pending i := by
    rw [List.find?_append, ← h.pending i]
    by_cases hi : d = i
    · subst hi
      simp [hkept]
    · simp [hd, hi]
  perm := by
    rw [← List.append_assoc]
    exact h.perm.append_right [id]
  sublist := h.sublist.append_right [id]
  warns := List.rel_append h.warns (.cons ⟨d, kept, hd, hkept, rfl⟩ .nil)

/-- What is pending under a block is the first contender that begins there. -/
theorem get?_eq_some_iff {d kept : Nat} (h : Placed m doms (m.contenders doms).toList found news) :
    found.pending.get? d = some kept ↔ kept ∈ m.contenders doms ∧ m.beginning? doms kept = some d ∧
      ∀ id ∈ m.contenders doms, m.beginning? doms id = some d → kept ≤ id := by
  rw [h.pending, IdSet.find?_eq_some_iff]
  simp only [beq_iff_eq]

theorem get?_ne_none_iff {d : Nat} (h : Placed m doms (m.contenders doms).toList found news) :
    found.pending.get? d ≠ none ↔ ∃ id ∈ m.contenders doms, m.beginning? doms id = some d := by
  rw [h.pending, ne_eq, List.find?_eq_none]
  simp

end Placed

def unclaimed (m : Method) (doms : Dominance) (claimed : Pending) (id : Nat) : Bool :=
  !(m.beginning? doms id).any fun d => (claimed.get? d).isSome

/-- What a search that has placed some contenders comes to on further try-blocks: it warns, and it places those of them that
are not claimed if all of them begin somewhere; the first that begins nowhere is an error. -/
def Ends (m : Method) (doms : Dominance) (claimed : Pending) (done ids : List Nat)
    (ended : Run (Except Error Search)) : Prop :=
  ∃ texts, ended.method = { m with warnings := m.warnings ++ texts } ∧
    ((∀ id ∈ ids, m.beginning? doms id ≠ none) ∧ (∃ found, ended.found = .ok found ∧
        Placed m doms (done ++ ids.filter (unclaimed m doms claimed)) found texts) ∨
      (∀ text ∈ texts, ∃ id, Warning.SaysDropped id text) ∧
        ∃ id residual, ids.find? (fun i => (m.beginning? doms i).isNone) = some id ∧
          doms.nearest (m.graph.guardedBy id).toList = .error residual ∧
          ended.found = .error (.structuralInconsistency m.name residual.toList))

theorem Ends.cons {claimed : Pending} {id d : Nat} {ended : Run (Except Error Search)}
    (hd : m.beginning? doms id = some d)
    (h : Ends m doms claimed (done ++ [id].filter (unclaimed m doms claimed)) ids ended) :
    Ends m doms claimed done (id :: ids) ended := by
  obtain ⟨texts, hmethod, ⟨hall, found, hfound, hplaced⟩ | ⟨htexts, i, residual, hi, hfails⟩⟩ := h
  · rw [List.append_assoc, ← List.filter_append, List.singleton_append] at hplaced
    refine ⟨texts, hmethod, Or.inl ⟨List.forall_mem_cons.2 ⟨?_, hall⟩, found, hfound, hplaced⟩⟩
    rw [hd]
    exact Option.some_ne_none d
  · refine ⟨texts, hmethod, Or.inr ⟨htexts, i, residual, ?_, hfails⟩⟩
    rwa [List.find?_cons_of_neg (by simp [hd])]

theorem place_ends (claimed : Pending) {s : Run Search} (h : Placed m doms done s.found news)
    (hm : s.method = { m with warnings := m.warnings ++ news }) (ids : List Nat) :
    Ends m doms claimed done ids (place doms claimed ids s) := by
  induction ids generalizing done s news with
  | nil =>
    refine ⟨news, hm, Or.inl ⟨fun _ hid => absurd hid List.not_mem_nil, s.found, rfl, ?_⟩⟩
    rwa [List.filter_nil, List.append_nil]
  | cons id ids ih =>
    have hgraph : s.method.graph = m.graph := by rw [hm]
    have hname : s.method.name = m.name := by rw [hm]
    unfold place
    dsimp only
    rw [hgraph, hname]
    cases hnearest : doms.nearest (m.graph.guardedBy id).toList with
    | error residual =>
      have hnone : (m.beginning? doms id).isNone = true := by rw [Method.beginning?_eq_none hnearest, Option.isNone_none]
      exact ⟨news, hm, Or.inr ⟨Warning.exists_saysDropped h.texts, id, residual, List.find?_cons_of_pos hnone, hnearest, rfl⟩⟩
    | ok d =>
      have hd : m.beginning? doms id = some d := by
        rw [Method.beginning?, hnearest]
        rfl
      refine Ends.cons hd ?_
      dsimp only
      cases hclaimed : claimed.get? d with
      | some wrapped =>
        have hskip : [id].filter (unclaimed m doms claimed) = [] := by simp [unclaimed, hd, hclaimed]
        rw [hskip, List.append_nil]
        exact ih h hm
      | none =>
        have hnext : [id].filter (unclaimed m doms claimed) = [id] := by simp [unclaimed, hd, hclaimed]
        rw [hnext]
        dsimp only
        cases hget : s.found.pending.get? d with
        | none => exact ih (h.kept hd hget) hm
        | some kept =>
          refine ih (h.dropped hd hget) ?_
          rw [hm, ← List.append_assoc]
          rfl

end Search

/-- **What the search finds** on a tree: the beginnings of all contenders if there are any, and an error otherwise, which says
what is wrong. -/
theorem Method.search_ok {m : Method} (hw : m.tree.WellFormed) (doms : Dominance) :
    ∃ searched texts, m.search doms = .ok searched ∧ searched.method = { m with warnings := m.warnings ++ texts } ∧
      (m.Locatable doms ∧ (∃ found, searched.found = .ok found ∧
          Search.Placed m doms (m.contenders doms).toList found texts) ∨
        ¬ m.Locatable doms ∧ ∃ e, searched.found = .error e ∧ m.Unlocatable doms e ∧
          ∀ text ∈ texts, ∃ id, Warning.SaysDropped id text) := by
  have hstart : Search.Sorted m doms [] {} := ⟨fun _ h => absurd h List.not_mem_nil, rfl, fun _ => rfl⟩
  obtain ⟨triaged, verdict, htriage, hverdict⟩ := Search.triage_ok hw hstart m.graph.tryBlocksInUse.toList
  rw [search, htriage, ok_bind]
  rcases hverdict with ⟨rfl, hsorted⟩ | ⟨id, hid, hnone, rfl⟩
  · rw [List.nil_append] at hsorted
    obtain ⟨texts, hmethod, hend⟩ := Search.place_ends (s := { method := m, found := {}, events := triaged.events })
      triaged.claimed (Search.Placed.start m doms) (by rw [List.append_nil]) triaged.opened
    have hopened : ∀ id, id ∈ triaged.opened ↔ id ∈ m.graph.tryBlocksInUse ∧ some id ∉ m.tree.tags := by
      simp [hsorted.opened]
    refine ⟨_, texts, rfl, hmethod, ?_⟩
    rcases hend with ⟨hall, found, hfound, hplaced⟩ | ⟨htexts, id, residual, hid, hnearest, he⟩
    · refine Or.inl ⟨⟨hsorted.known, fun id hid htag => hall id ((hopened id).2 ⟨hid, htag⟩)⟩, found, hfound, ?_⟩
      have hclaimed : Search.unclaimed m doms triaged.claimed = fun id => !(m.beginning? doms id).any (m.claims doms) := by
        funext id
        exact congrArg (fun p => !(m.beginning? doms id).any p) (funext hsorted.claimed)
      have hcontenders : (m.contenders doms).toList = triaged.opened.filter (Search.unclaimed m doms triaged.claimed) := by
        rw [hclaimed, hsorted.opened, List.filter_filter]
        exact List.filter_congr fun id _ => Bool.and_comm _ _
      rwa [hcontenders]
    · rw [hsorted.opened, List.find?_filter, IdSet.find?_eq_some_iff] at hid
      obtain ⟨huse, ⟨htag, -⟩, hfirst⟩ : id ∈ m.graph.tryBlocksInUse ∧
          (some id ∉ m.tree.tags ∧ m.beginning? doms id = none) ∧
          ∀ i ∈ m.graph.tryBlocksInUse, some i ∉ m.tree.tags → m.beginning? doms i = none → id ≤ i := by
        simpa using hid
      have hfails : m.Unlocatable doms _ := .nowhere huse htag hnearest hfirst
      exact Or.inr ⟨hfails.not_locatable, _, he, hfails, htexts⟩
  · have hfails : m.Unlocatable doms _ := .unknown hid hnone
    exact ⟨_, [], rfl, by rw [List.append_nil], Or.inr ⟨hfails.not_locatable, _, rfl, hfails, by simp⟩⟩

end GuardedRegions
