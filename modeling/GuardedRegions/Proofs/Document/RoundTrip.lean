import GuardedRegions.Document.Read
import GuardedRegions.Document.Write
import GuardedRegions.Error
import GuardedRegions.Proofs.Json.Decode

/-!
# Documents are read back

A document whose numbers fit their types (`Document.Fits`) is read back from its text as long as no region is nested more than
40 levels below the root region of its method. The empty lists of children that are written count as well: the list of a region
41 levels below the root is the 128th thing that would have to be open at once, so the text of a deeper document is refused.

Each type has one lemma, by its reader. Only regions can be nested too deep, and for them the budget is `3 * n + 1` where `n`
levels of regions may still be entered (`region_decodes`).
-/

namespace GuardedRegions

open Json Json.Reader

/-! ## Numbers that fit -/

/-- Blocks, try-blocks and the cases of a switch have numbers of 64 bits. -/
def IsIndex (n : Nat) : Prop := n < Nat.pow 2 64

/-- The offset of a block has 32 bits. -/
def Block.Fits (b : Block) : Prop := b.offset < Nat.pow 2 32 ∧ ∀ n ∈ b.guard, IsIndex n

def EdgeKind.Fits : EdgeKind → Prop
  | switchCase index => IsIndex index
  | _ => True

def Edge.Fits (e : Edge) : Prop := IsIndex e.source ∧ IsIndex e.target ∧ e.kind.Fits

def Handler.Fits (h : Handler) : Prop := IsIndex h.entry

namespace Contents

def Fits : Contents → Prop
  | nil => True
  | block id rest => IsIndex id ∧ rest.Fits
  | region _ tryBlock inner rest => (∀ n ∈ tryBlock, IsIndex n) ∧ inner.Fits ∧ rest.Fits

/-- How many levels of regions there are. -/
def depth : Contents → Nat
  | nil => 0
  | block _ rest => rest.depth
  | region _ _ inner rest => max (inner.depth + 1) rest.depth

end Contents

def Outline.Fits (o : Outline) : Prop := (∀ n ∈ o.tryBlock, IsIndex n) ∧ o.contents.Fits

structure Description.Fits (d : Description) : Prop where
  entry : ∀ n ∈ d.entry, IsIndex n
  blocks : ∀ b ∈ d.blocks, b.Fits
  edges : ∀ e ∈ d.edges, e.Fits
  tryBlocks : ∀ handlers ∈ d.tryBlocks, ∀ h ∈ handlers, h.Fits
  regions : d.regions.Fits

def Document.Fits (f : Document) : Prop := ∀ d ∈ f.methods, d.Fits

namespace Document.Reading

/-! ## Graphs and try-blocks -/

theorem index_decodes {n : Nat} (h : IsIndex n) : Decodes index (.number n) (.ok n) :=
  natural_decodes h (Nat.le_refl _) "usize"

theorem index?_decodes {i : Option Nat} (h : ∀ n ∈ i, IsIndex n) : Decodes (optional index) (.ofNat? i) (.ok i) := by
  cases i with
  | none => exact optional_null index
  | some n => exact optional_decodes (index_decodes (h n rfl)) nofun

theorem string?_decodes (s : Option String) : Decodes (optional string) (s.elim .null .string) (.ok s) := by
  cases s with
  | none => exact optional_null string
  | some s => exact optional_decodes (string_decodes s "a string") nofun

theorem block_decodes {b : Block} (h : b.Fits) (budget : Nat) : Decodes (block (budget + 1)) b.toJson (.ok b) := by
  have hoffset : Decodes (natural (Nat.pow 2 32) "u32") (.number b.offset) (.ok b.offset) :=
    natural_decodes h.1 (by decide) "u32"
  refine record_decodes (.cons ⟨_, rfl, hoffset.map _⟩ (.cons ⟨_, rfl, (index?_decodes h.2).map _⟩ .nil)) ?_ ?_ rfl
  · simp
  · simp [Field.of]

theorem edgeKind_decodes {kind : EdgeKind} (h : kind.Fits) (budget : Nat) :
    Decodes (edgeKind (budget + 1)) kind.toJson (.ok kind) := by
  cases kind with
  | switchCase n => exact choice_carrying rfl ((index_decodes h).map EdgeKind.switchCase)
  | fall => exact choice_bare rfl
  | jump => exact choice_bare rfl
  | whenTrue => exact choice_bare rfl
  | whenFalse => exact choice_bare rfl
  | switchDefault => exact choice_bare rfl
  | exception => exact choice_bare rfl

theorem edge_decodes {e : Edge} (h : e.Fits) (budget : Nat) : Decodes (edge (budget + 2)) e.toJson (.ok e) := by
  refine record_decodes (.cons ⟨_, rfl, (index_decodes h.1).map _⟩ (.cons ⟨_, rfl, (index_decodes h.2.1).map _⟩
    (.cons ⟨_, rfl, (edgeKind_decodes h.2.2 budget).map _⟩ .nil))) ?_ ?_ rfl
  · simp
  · simp [Field.of]

theorem handler_decodes {h : Handler} (hfits : h.Fits) (budget : Nat) : Decodes (handler (budget + 1)) h.toJson (.ok h) := by
  refine record_decodes (.cons ⟨_, rfl, (string?_decodes h.catchType).map _⟩
    (.cons ⟨_, rfl, (index_decodes hfits).map _⟩ .nil)) ?_ ?_ rfl
  · simp
  · simp [Field.of]

theorem tryBlock_decodes {handlers : List Handler} (h : ∀ x ∈ handlers, x.Fits) (budget : Nat) :
    Decodes (tryBlock (budget + 3)) (.record [("handlers", .list (handlers.map Handler.toJson))]) (.ok handlers) := by
  have hlist : Decodes (list handler (budget + 2)) (.list (handlers.map Handler.toJson)) (.ok handlers) :=
    list_map_decodes fun x hx => handler_decodes (h x hx) budget
  refine record_decodes (.cons ⟨_, rfl, hlist.map _⟩ .nil) ?_ ?_ rfl
  · simp
  · simp [Field.of]

/-! ## Regions -/

theorem regionKind_decodes (kind : RegionKind) (budget : Nat) :
    Decodes (regionKind budget) (.string kind.key) (.ok kind) := by
  cases kind <;> exact choice_bare rfl

/-- What the children that are read put in front of each other. -/
def stack (children : List (Contents → Contents)) : Contents := children.foldr (fun put rest => put rest) .nil

theorem regionOf_decodes {nested : Reader Outline} {o : Outline} {budget : Nat} {fits : Bool}
    {children : Except ReadError (List (Contents → Contents))} (htag : ∀ n ∈ o.tryBlock, IsIndex n)
    (hchildren : Decodes (list (child nested) budget) (.list o.contents.toJson) children)
    (hcontents : children.map stack = within fits o.contents) : Decodes (regionOf nested (budget + 1)) o.toJson (within fits o) := by
  obtain ⟨kind, tag, contents⟩ := o
  have hfield : Decodes ((fun children (o : Outline) => { o with contents := stack children }) <$> list (child nested) budget)
      (.list contents.toJson) ((within fits contents).map fun contents o => { o with contents }) := by
    have := hchildren.map fun children (o : Outline) => { o with contents := stack children }
    rw [← hcontents]
    cases children <;> exact this
  cases tag with
  | none =>
    refine record_decodes (.cons ⟨_, rfl, (regionKind_decodes kind budget).map _⟩ (.cons ⟨_, rfl, hfield⟩ .nil)) ?_ ?_ ?_
    · simp
    · simp [Field.of]
    · cases fits <;> rfl
  | some n =>
    have hn : Decodes (optional index) (.number n) (.ok (some n)) := index?_decodes (i := some n) htag
    refine record_decodes (.cons ⟨_, rfl, (regionKind_decodes kind budget).map _⟩ (.cons ⟨_, rfl, hn.map _⟩
      (.cons ⟨_, rfl, hfield⟩ .nil))) ?_ ?_ ?_
    · simp
    · simp [Field.of]
    · cases fits <;> rfl

/-- One more child in front: it is read if it is within the limit, and so are those behind it. -/
theorem stack_cons {first others : Bool} {put : Contents → Contents} {results : List (Except ReadError (Contents → Contents))}
    {rest : Contents} (h : (results.mapM id).map stack = within others rest) :
    ((within first put :: results).mapM id).map stack = within (first && others) (put rest) := by
  rw [List.mapM_cons]
  cases first with
  | false => rfl
  | true =>
    rw [Bool.true_and]
    have hput : within others (put rest) = (within others rest).map put := by cases others <;> rfl
    rw [hput, ← h]
    cases results.mapM id <;> rfl

theorem children_decodes {nested : Reader Outline} {n : Nat}
    (hnested : ∀ o : Outline, o.Fits → Decodes nested o.toJson (within (o.contents.depth < n) o)) {c : Contents} (h : c.Fits)
    (budget : Nat) : ∃ children, Decodes (list (child nested) (budget + 2)) (.list c.toJson) children ∧
      children.map stack = within (c.depth ≤ n) c := by
  obtain ⟨results, hparts, hresults⟩ : ∃ results, List.Forall₂ (Decodes (child nested (budget + 1))) c.toJson results ∧
      (results.mapM id).map stack = within (c.depth ≤ n) c := by
    induction c with
    | nil => exact ⟨[], .nil, rfl⟩
    | block id rest ih =>
      obtain ⟨results, hparts, hresults⟩ := ih h.2
      have hfirst : Decodes (child nested (budget + 1)) (.record [("block", .number id)]) (within true (Contents.block id)) :=
        choice_carrying rfl ((index_decodes h.1).map Contents.block)
      exact ⟨_, .cons hfirst hparts, stack_cons hresults⟩
    | region kind tag inner rest _ ih =>
      obtain ⟨results, hparts, hresults⟩ := ih h.2.2
      have hfirst : Decodes (child nested (budget + 1)) (.record [("region", kind.toJson tag inner.toJson)])
          (within (inner.depth < n) (Contents.region kind tag inner)) := by
        have hinner := (hnested ⟨kind, tag, inner⟩ ⟨h.1, h.2.1⟩).map Outline.before
        refine choice_carrying rfl ?_
        cases hfits : decide (inner.depth < n) <;> rw [hfits] at hinner <;> exact hinner
      have hdepth : decide (max (inner.depth + 1) rest.depth ≤ n) = (decide (inner.depth < n) && decide (rest.depth ≤ n)) := by
        rw [← Bool.decide_and]
        exact decide_eq_decide.2 Nat.max_le
      refine ⟨_, .cons hfirst hparts, ?_⟩
      rw [Contents.depth, hdepth]
      exact stack_cons hresults
  exact ⟨_, list_decodes hparts, hresults⟩

/-- **A region is read back** if no level of regions below it is too much; otherwise it is nested too deep. -/
theorem region_decodes (n : Nat) {o : Outline} (h : o.Fits) :
    Decodes (region (3 * n + 1)) o.toJson (within (o.contents.depth < n) o) := by
  induction n generalizing o with
  | zero => exact regionOf_decodes h.1 (list_nestingLimit _ _) rfl
  | succ n ih =>
    obtain ⟨children, hchildren, hcontents⟩ := children_decodes (fun o ho => ih ho) h.2 (3 * n + 1)
    have hdepth : decide (o.contents.depth ≤ n) = decide (o.contents.depth < n + 1) := decide_eq_decide.2 Nat.lt_succ_iff.symm
    exact regionOf_decodes h.1 hchildren (hdepth ▸ hcontents)

/-! ## Methods -/

theorem description_decodes {d : Description} (h : d.Fits) (n : Nat) :
    Decodes (description (3 * n + 5)) d.toJson (within (d.regions.contents.depth < n + 1) d) := by
  have hblocks : Decodes (list block (3 * n + 4)) (.list (d.blocks.map Block.toJson)) (.ok d.blocks) :=
    list_map_decodes fun b hb => block_decodes (h.blocks b hb) (3 * n + 2)
  have hedges : Decodes (list edge (3 * n + 4)) (.list (d.edges.map Edge.toJson)) (.ok d.edges) :=
    list_map_decodes fun e he => edge_decodes (h.edges e he) (3 * n + 1)
  have htryBlocks : Decodes (list tryBlock (3 * n + 4))
      (.list (d.tryBlocks.map fun handlers => .record [("handlers", .list (handlers.map Handler.toJson))])) (.ok d.tryBlocks) :=
    list_map_decodes fun handlers hh => tryBlock_decodes (h.tryBlocks handlers hh) (3 * n)
  refine record_decodes (.cons ⟨_, rfl, (string_decodes d.name "a string").map _⟩
    (.cons ⟨_, rfl, (index?_decodes h.entry).map _⟩
    (.cons ⟨_, rfl, hblocks.map _⟩
    (.cons ⟨_, rfl, hedges.map _⟩
    (.cons ⟨_, rfl, htryBlocks.map _⟩
    (.cons ⟨_, rfl, (region_decodes (n + 1) h.regions).map _⟩ .nil)))))) ?_ ?_ ?_
  · simp
  · simp [Field.of]
  · cases decide (d.regions.contents.depth < n + 1) <;> rfl

theorem document_decodes {f : Document} (h : f.Fits) (n : Nat) :
    Decodes (document (3 * n + 7)) f.toJson (within (f.methods.all fun d => d.regions.contents.depth < n + 1) f) := by
  have hlist : Decodes (list description (3 * n + 6)) (.list (f.methods.map Description.toJson))
      (within (f.methods.all fun d => d.regions.contents.depth < n + 1) f.methods) :=
    list_within fun d hd => description_decodes (h d hd) n
  refine record_decodes (.cons ⟨_, rfl, hlist.map _⟩ .nil) ?_ ?_ ?_
  · simp
  · simp [Field.of]
  · cases f.methods.all fun d => d.regions.contents.depth < n + 1 <;> rfl

end Document.Reading

namespace Document

/-- What is read from the text of a document: the document, unless some region of it is nested too deep. -/
theorem read_text {f : Document} (h : f.Fits) :
    read f.text = within (f.methods.all fun d => d.regions.contents.depth ≤ 40) f := by
  have hdepth : (fun d : Description => decide (d.regions.contents.depth ≤ 40)) =
      fun d => decide (d.regions.contents.depth < 40 + 1) :=
    funext fun _ => decide_eq_decide.2 Nat.lt_succ_iff.symm
  rw [hdepth]
  exact (Reading.document_decodes h 40).readAll

/-- **A document is read back from its text if and only if no region is nested more than 40 levels below the root region of its
method**; otherwise its text is refused, because it is nested too deep. -/
theorem read_back_iff_nesting_le (f : Document) (h : f.Fits) :
    (read f.text = .ok f ↔ ∀ d ∈ f.methods, d.regions.contents.depth ≤ 40) ∧
      ((∃ d ∈ f.methods, 40 < d.regions.contents.depth) →
        (read f.text).mapError (fun e => Error.json e.message) = .error (.json "recursion limit exceeded")) := by
  rw [read_text h]
  constructor
  · simp [within]
  · rintro ⟨d, hd, hdeep⟩
    have hall : (f.methods.all fun d => d.regions.contents.depth ≤ 40) = false := by
      simpa using ⟨d, hd, hdeep⟩
    rw [hall]
    rfl

/-! ## At the limit -/

def rungs : Nat → Contents
  | 0 => .block 0 .nil
  | n + 1 => .region .sequence (some 0) (rungs n) .nil

/-- A method with every kind of field, its regions so many levels deep. -/
def ladder (n : Nat) : Document where
  methods := [{
    name := "\"up\tdown\""
    entry := some 0
    blocks := [{ offset := 4294967295, guard := some 0 }]
    edges := [{ source := 0, target := 0, kind := .switchCase 18446744073709551615 }]
    tryBlocks := [[{ catchType := some "T", entry := 0 }, { catchType := none, entry := 0 }]]
    regions := { kind := .loop, contents := rungs n } }]

theorem depth_rungs (n : Nat) : (rungs n).depth = n := by
  induction n with
  | zero => rfl
  | succ n ih => rw [rungs, Contents.depth, ih, Contents.depth, Nat.max_zero]

theorem fits_rungs (n : Nat) : (rungs n).Fits := by
  induction n with
  | zero => exact ⟨by simp [IsIndex], trivial⟩
  | succ n ih => exact ⟨by simp [IsIndex], ih, trivial⟩

theorem fits_ladder (n : Nat) : (ladder n).Fits := by
  have hregions : ({ kind := .loop, contents := rungs n } : Outline).Fits := ⟨nofun, fits_rungs n⟩
  refine List.forall_mem_singleton.2 ⟨?_, ?_, ?_, ?_, hregions⟩
  · simp [IsIndex]
  · simp [Block.Fits, IsIndex]
  · simp [Edge.Fits, EdgeKind.Fits, IsIndex]
  · simp [Handler.Fits, IsIndex]

theorem ladder_read_back :
    ((ladder 40).Fits ∧ read (ladder 40).text = .ok (ladder 40)) ∧
      (ladder 41).Fits ∧
        (read (ladder 41).text).mapError (fun e => Error.json e.message) = .error (.json "recursion limit exceeded") := by
  refine ⟨⟨fits_ladder 40, (read_back_iff_nesting_le _ (fits_ladder 40)).1.2 ?_⟩,
    fits_ladder 41, (read_back_iff_nesting_le _ (fits_ladder 41)).2 ?_⟩
  · exact List.forall_mem_singleton.2 (Nat.le_of_eq (depth_rungs 40))
  · exact ⟨_, List.mem_singleton_self _, Nat.lt_of_succ_le (Nat.le_of_eq (depth_rungs 41).symm)⟩

end Document

end GuardedRegions
