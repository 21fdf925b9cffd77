import GuardedRegions.Flow.Drawing
import GuardedRegions.Proofs.Text.Lines
import Mathlib.Data.List.Flatten
import Mathlib.Data.List.Nodup

/-!
# A drawing shows its graph

A drawing is read line by line (`Drawing.Statement.ofLine`). A line opens the cluster of a try-block or closes what is open, it
declares a block or an edge, or it says nothing of the graph; a block stands in the cluster that is open where its line is.

Each block is declared once, in the cluster of its guard (`nodes_draw_perm`), and each edge once, in order (`arrows_draw`). What is
written of a block or an edge can be told from it: numbers end where a quote or a blank follows, and the marks of handlers, of
the entry and of the kinds of edges are all different (`nodeAttributes_inj`, `edgeText_injective`). So a drawing shows
everything (`drawing_is_faithful`).
-/

namespace GuardedRegions

open Text

namespace Drawing

/-! ## What is written of blocks and edges -/

/-- The end of the line of a block, which tells whether a handler or the method starts there. -/
def marks : Bool → Bool → String
  | false, false => "\"];"
  | true, false => "\", peripheries=2];"
  | false, true => "\", style=bold];"
  | true, true => "\", peripheries=2, style=bold];"

/-- What is written of a block behind the bracket: its number, its offset, and whether a handler or the method starts there. -/
def nodeAttributes (b offset : Nat) (handler entry : Bool) : List Char :=
  "label=\"Block ".toList ++ (Nat.toDigits 10 b ++ (" @".toList ++ (Nat.toDigits 10 offset ++ (marks handler entry).toList)))

def edgeText : EdgeKind → String
  | .whenTrue => " [label=\"T\", color=\"green\"];"
  | .whenFalse => " [label=\"F\", color=\"red\"];"
  | .switchCase index => " [label=\"Sw" ++ index.repr ++ "\", color=\"blue\"];"
  | .switchDefault => " [label=\"Def\", color=\"orange\"];"
  | .fall => " [label=\"Fall\", color=\"gray\"];"
  | .exception => " [label=\"Exc\", color=\"purple\", style=dashed];"
  | .jump => " [color=\"black\"];"

theorem endsNumber_marks (handler entry : Bool) : EndsNumber (marks handler entry).toList := by
  cases handler <;> cases entry <;> simp [marks, EndsNumber]

theorem marks_inj {handler entry handler' entry' : Bool} (h : marks handler entry = marks handler' entry') :
    handler = handler' ∧ entry = entry' := by
  cases handler <;> cases entry <;> cases handler' <;> cases entry' <;> simp [marks] at h ⊢

/-- **The line of a block tells its offset and its marks.** -/
theorem nodeAttributes_inj {b offset offset' : Nat} {handler entry handler' entry' : Bool}
    (h : nodeAttributes b offset handler entry = nodeAttributes b offset' handler' entry') :
    offset = offset' ∧ handler = handler' ∧ entry = entry' := by
  have hoffset := List.append_cancel_left (List.append_cancel_left (List.append_cancel_left h))
  obtain ⟨rfl, hmarks⟩ := eq_of_toDigits_append (endsNumber_marks _ _) (endsNumber_marks _ _) hoffset
  exact ⟨rfl, marks_inj (String.toList_inj.1 hmarks)⟩

theorem toList_edgeText_switchCase (index : Nat) :
    (edgeText (.switchCase index)).toList =
      " [label=\"Sw".toList ++ (Nat.toDigits 10 index ++ "\", color=\"blue\"];".toList) := by
  rw [edgeText, String.toList_append, String.toList_append, Nat.toList_repr, List.append_assoc]

theorem endsNumber_edgeText (kind : EdgeKind) : EndsNumber (edgeText kind).toList := by
  cases kind <;> simp [edgeText, EndsNumber]

/-- **The line of an edge tells its kind.** -/
theorem edgeText_injective : Function.Injective edgeText := by
  intro kind kind' h
  replace h := congrArg String.toList h
  cases kind with
  | switchCase index =>
    rw [toList_edgeText_switchCase] at h
    cases kind' with
    | switchCase index' =>
      rw [toList_edgeText_switchCase] at h
      have hend : EndsNumber "\", color=\"blue\"];".toList := by simp [EndsNumber]
      rw [(eq_of_toDigits_append hend hend (List.append_cancel_left h)).1]
    | _ => simp [edgeText] at h
  | _ =>
    cases kind' with
    | switchCase index' =>
      rw [toList_edgeText_switchCase] at h
      simp [edgeText] at h
    | _ => simp [edgeText] at h ⊢

/-! ## Reading a line -/

/-- What a line of a drawing says. -/
inductive Statement where
  /-- The cluster of a try-block begins. -/
  | opens (tryBlock : Nat)
  | closes
  | node (b : Nat) (attributes : List Char)
  | edge (source target : Nat) (attributes : List Char)
  /-- Nothing about the graph. -/
  | other
deriving DecidableEq

namespace Statement

/-- Reads a line without the blanks at its front. -/
def ofBare (line : List Char) : Statement :=
  match line.dropPrefix? "subgraph cluster_try_".toList with
  | some rest => .opens (number rest).1
  | none =>
    match (number line).2.dropPrefix? " [".toList with
    | some attributes => .node (number line).1 attributes
    | none =>
      match (number line).2.dropPrefix? " -> ".toList with
      | some rest => .edge (number line).1 (number rest).1 (number rest).2
      | none => if line = ['\x7d'] then .closes else .other

def ofLine (line : List Char) : Statement := ofBare (bare line)

variable {rest : List Char}

theorem dropPrefix?_toDigits (b : Nat) : (Nat.toDigits 10 b ++ rest).dropPrefix? "subgraph cluster_try_".toList = none := by
  obtain ⟨d, ds, hds, hdigit⟩ := exists_toDigits_eq b
  have hd : (d == 's') = false := by
    apply beq_false_of_ne
    rintro rfl
    exact absurd hdigit (by decide)
  rw [hds]
  simp [List.dropPrefix?, hd]

theorem ofBare_opens (id : Nat) :
    ofBare ("subgraph cluster_try_".toList ++ (Nat.toDigits 10 id ++ " \x7b".toList)) = .opens id := by
  have hend : EndsNumber " \x7b".toList := by simp [EndsNumber]
  rw [ofBare, List.dropPrefix?_append_of_beq _ (BEq.refl _)]
  show Statement.opens (number (Nat.toDigits 10 id ++ " \x7b".toList)).1 = .opens id
  rw [number_toDigits id hend]

theorem ofBare_node (b : Nat) (attributes : List Char) :
    ofBare (Nat.toDigits 10 b ++ (" [".toList ++ attributes)) = .node b attributes := by
  have hend : EndsNumber (" [".toList ++ attributes) := by simp [EndsNumber]
  rw [ofBare, dropPrefix?_toDigits, number_toDigits b hend, List.dropPrefix?_append_of_beq _ (BEq.refl _)]

theorem ofBare_edge (source target : Nat) (h : EndsNumber rest) :
    ofBare (Nat.toDigits 10 source ++ (" -> ".toList ++ (Nat.toDigits 10 target ++ rest))) = .edge source target rest := by
  have hend : EndsNumber (" -> ".toList ++ (Nat.toDigits 10 target ++ rest)) := by simp [EndsNumber]
  have hnode : List.dropPrefix? (" -> ".toList ++ (Nat.toDigits 10 target ++ rest)) " [".toList = none := by
    simp [List.dropPrefix?]
  rw [ofBare, dropPrefix?_toDigits, number_toDigits source hend, hnode, List.dropPrefix?_append_of_beq _ (BEq.refl _)]
  show Statement.edge source (number (Nat.toDigits 10 target ++ rest)).1 (number (Nat.toDigits 10 target ++ rest)).2 = _
  rw [number_toDigits target h]

/-- A line without line feed that says something. -/
def Reads (l : String) (s : Statement) : Prop := '\n' ∉ l.toList ∧ ofLine l.toList = s

instance (l : String) (s : Statement) : Decidable (Reads l s) :=
  inferInstanceAs (Decidable ('\n' ∉ l.toList ∧ ofLine l.toList = s))

theorem reads_indent {l : String} {cs : List Char} {s : Statement} (hl : l.toList = cs) (hline : '\n' ∉ cs)
    (hhead : cs.head? ≠ some ' ') (hs : ofBare cs = s) (steps : Nat) : Reads (indent steps l) s := by
  subst hl
  refine ⟨newline_notMem_indent hline steps, ?_⟩
  rw [ofLine, (blanks_indent hhead steps).2, hs]

theorem reads_map {α : Type} {xs : List α} {f : α → String} {s : α → Statement} (h : ∀ x ∈ xs, Reads (f x) (s x)) :
    List.Forall₂ Reads (xs.map f) (xs.map s) :=
  List.forall₂_map_left_iff.2 (List.forall₂_map_right_iff.2 (List.forall₂_same.2 h))

end Statement

def statements (text : String) : List Statement := (lines text).map Statement.ofLine

theorem statements_ofLines {ls : List String} {ss : List Statement} (h : List.Forall₂ Statement.Reads ls ss) :
    statements (ofLines ls) = ss := by
  have hlines : ∀ l ∈ ls, '\n' ∉ l.toList := by
    induction h with
    | nil => exact fun l hl => absurd hl List.not_mem_nil
    | cons hl _ ih => exact List.forall_mem_cons.2 ⟨hl.1, ih⟩
  rw [statements, lines_ofLines hlines, List.map_map]
  induction h with
  | nil => rfl
  | cons hl _ ih =>
    rw [List.map_cons, ih fun l hl => hlines l (List.mem_cons_of_mem _ hl)]
    exact congrArg (· :: _) hl.2

/-! ## What is declared -/

/-- A block that is declared: the cluster in which it stands, its number, and what is written of it. -/
structure Node where
  cluster : Option Nat
  block : Nat
  attributes : List Char
deriving DecidableEq

/-- An edge that is declared: its ends, and what is written of it. -/
structure Arrow where
  source : Nat
  target : Nat
  attributes : List Char
deriving DecidableEq

/-- The blocks that are declared from a place on where some cluster, or none, is open. -/
def nodesFrom : Option Nat → List Statement → List Node
  | _, [] => []
  | _, .opens id :: ss => nodesFrom (some id) ss
  | _, .closes :: ss => nodesFrom none ss
  | cluster, .node block attributes :: ss => { cluster, block, attributes } :: nodesFrom cluster ss
  | cluster, .edge .. :: ss => nodesFrom cluster ss
  | cluster, .other :: ss => nodesFrom cluster ss

def Statement.arrow? : Statement → Option Arrow
  | .edge source target attributes => some { source, target, attributes }
  | _ => none

/-- The blocks that a drawing declares, in the order of the lines. -/
def nodes (text : String) : List Node := nodesFrom none (statements text)

/-- The edges that a drawing declares, in the order of the lines. -/
def arrows (text : String) : List Arrow := (statements text).filterMap Statement.arrow?

theorem nodesFrom_nodes (cluster : Option Nat) (bs : List Nat) (a : Nat → List Char) (ss : List Statement) :
    nodesFrom cluster (bs.map (fun b => .node b (a b)) ++ ss) = bs.map (fun b => ⟨cluster, b, a b⟩) ++ nodesFrom cluster ss := by
  induction bs with
  | nil => rfl
  | cons b bs ih => exact congrArg (_ :: ·) ih

theorem nodesFrom_arrows (cluster : Option Nat) (es : List Edge) (a : Edge → List Char) (ss : List Statement) :
    nodesFrom cluster (es.map (fun e => .edge e.source e.target (a e)) ++ ss) = nodesFrom cluster ss := by
  induction es with
  | nil => rfl
  | cons e es ih => exact ih

theorem filterMap_arrow?_nodes (bs : List Nat) (a : Nat → List Char) :
    (bs.map fun b => Statement.node b (a b)).filterMap Statement.arrow? = [] := by
  rw [List.filterMap_map]
  exact List.filterMap_eq_nil_iff.2 fun _ _ => rfl

theorem filterMap_arrow?_arrows (es : List Edge) (a : Edge → List Char) :
    (es.map fun e => Statement.edge e.source e.target (a e)).filterMap Statement.arrow? =
      es.map fun e => ⟨e.source, e.target, a e⟩ := by
  rw [List.filterMap_map]
  exact congrFun (List.filterMap_eq_map' ..) es

end Drawing

namespace Graph

open Drawing Statement

variable {g : Graph} {hs : List Nat} {b : Nat}

/-! ## The lines of a drawing -/

theorem toList_nodeLine (g : Graph) (hs : List Nat) (b : Nat) (block : Block) :
    (g.nodeLine hs b block).toList =
      Nat.toDigits 10 b ++ (" [".toList ++ nodeAttributes b block.offset (hs.contains b) (g.entry == some b)) := by
  unfold nodeLine nodeAttributes
  generalize hs.contains b = handler
  generalize (g.entry == some b) = entry
  cases handler <;> cases entry <;> simp [marks, toString, Nat.toList_repr]

theorem toList_edgeLine (e : Edge) : (edgeLine {} e).toList =
    Nat.toDigits 10 e.source ++ (" -> ".toList ++ (Nat.toDigits 10 e.target ++ (edgeText e.kind).toList)) := by
  obtain ⟨source, target, kind⟩ := e
  cases kind <;> simp [edgeLine, edgeText, EdgeKind.label, EdgeKind.color, toString, Nat.toList_repr]

theorem reads_nodeLine (g : Graph) (hs : List Nat) (b : Nat) (block : Block) (steps : Nat) :
    Reads (indent steps (g.nodeLine hs b block))
      (.node b (nodeAttributes b block.offset (hs.contains b) (g.entry == some b))) := by
  have hmarks : ∀ handler entry : Bool, '\n' ∉ (marks handler entry).toList := by
    intro handler entry
    cases handler <;> cases entry <;> simp [marks]
  refine reads_indent (toList_nodeLine g hs b block) ?_ head?_toDigits_ne_blank (ofBare_node b _) steps
  unfold nodeAttributes
  simp [newline_notMem_toDigits, hmarks]

theorem reads_edgeLine (e : Edge) (steps : Nat) :
    Reads (indent steps (edgeLine {} e)) (.edge e.source e.target (edgeText e.kind).toList) := by
  have hkind : '\n' ∉ (edgeText e.kind).toList := by
    cases e.kind <;> simp [edgeText, Nat.toList_repr, newline_notMem_toDigits]
  refine reads_indent (toList_edgeLine e) ?_ head?_toDigits_ne_blank (ofBare_edge _ _ (endsNumber_edgeText e.kind)) steps
  simp [newline_notMem_toDigits, hkind]

def offsetOf (g : Graph) (b : Nat) : Nat := (g.blocks[b]?.map (·.offset)).getD 0

theorem getElem?_blocks (hb : b < g.blockCount) : g.blocks[b]? = some { offset := g.offsetOf b, guard := g.guardOf b } := by
  obtain ⟨block, hblock⟩ : ∃ block, g.blocks[b]? = some block := ⟨_, Array.getElem?_eq_getElem hb⟩
  rw [offsetOf, guardOf, hblock]
  rfl

def blocksIn (g : Graph) (guard : Option Nat) : List Nat := (List.range g.blockCount).filter (g.guardOf · == guard)

def attributesOf (g : Graph) (hs : List Nat) (b : Nat) : List Char :=
  nodeAttributes b (g.offsetOf b) (hs.contains b) (g.entry == some b)

theorem reads_nodeLines (g : Graph) (hs : List Nat) {guards : Option Nat → Bool} {guard : Option Nat}
    (hguards : ∀ guard', guards guard' = (guard' == guard)) (steps : Nat) :
    List.Forall₂ Reads ((g.nodeLines hs guards).map (indent steps))
      ((g.blocksIn guard).map fun b => .node b (g.attributesOf hs b)) := by
  have hall : ∀ bs : List Nat, (∀ b ∈ bs, b < g.blockCount) →
      List.Forall₂ Reads
        ((bs.filterMap fun b => g.blocks[b]?.bind fun block =>
          if guards block.guard then some (g.nodeLine hs b block) else none).map (indent steps))
        ((bs.filter (g.guardOf · == guard)).map fun b => .node b (g.attributesOf hs b)) := by
    intro bs
    induction bs with
    | nil => exact fun _ => .nil
    | cons b bs ih =>
      intro hbs
      have hrest := ih fun b hb => hbs b (List.mem_cons_of_mem _ hb)
      rw [List.filterMap_cons, getElem?_blocks (hbs b List.mem_cons_self), Option.bind_some, hguards, List.filter_cons]
      by_cases hb : (g.guardOf b == guard) = true
      · rw [if_pos hb, if_pos hb]
        exact .cons (reads_nodeLine g hs b _ steps) hrest
      · rw [if_neg hb, if_neg hb]
        exact hrest
  exact hall _ fun b hb => List.mem_range.1 hb

def clusterStatements (g : Graph) (hs : List Nat) (id : Nat) : List Statement :=
  opens id :: other :: other :: ((g.blocksIn (some id)).map (fun b => Statement.node b (g.attributesOf hs b)) ++ [closes])

theorem reads_clusterLines (g : Graph) (hs : List Nat) (id : Nat) :
    List.Forall₂ Reads (g.clusterLines hs id) (g.clusterStatements hs id) := by
  have hopens : (s!"subgraph cluster_try_{id} \x7b").toList =
      "subgraph cluster_try_".toList ++ (Nat.toDigits 10 id ++ " \x7b".toList) := by
    simp [toString, Nat.toList_repr]
  have hlabel : (s!"label=\"try #{id}\";").toList = "label=\"try #".toList ++ (Nat.toDigits 10 id ++ "\";".toList) := by
    simp [toString, Nat.toList_repr]
  refine .cons ?_ (.cons ?_ (.cons ?_ (List.rel_append (reads_nodeLines g hs (fun _ => rfl) 2) (.cons ?_ .nil))))
  · exact reads_indent hopens (by simp [newline_notMem_toDigits]) (by simp) (ofBare_opens id) 1
  · exact reads_indent hlabel (by simp [newline_notMem_toDigits]) (by simp) (by simp [ofBare, List.dropPrefix?, number]) 2
  · exact reads_indent rfl (by decide) (by decide) (by decide) 2
  · exact reads_indent rfl (by decide) (by decide) (by decide) 1

/-- **What the lines of a drawing say.** -/
theorem statements_draw (g : Graph) (hs : List Nat) : statements (g.draw hs) =
    [other, other, other, other] ++ g.tryBlocksInUse.toList.flatMap (g.clusterStatements hs) ++
      (g.blocksIn none).map (fun b => Statement.node b (g.attributesOf hs b)) ++ [other] ++
      g.edges.toList.map (fun e => edge e.source e.target (edgeText e.kind).toList) ++ [closes] := by
  apply statements_ofLines
  have hbegin : List.Forall₂ Reads ["digraph CFG \x7b", "  rankdir=TB;", "  node [shape=box];", ""]
      [other, other, other, other] :=
    .cons (by decide) (.cons (by decide) (.cons (by decide) (.cons (by decide) .nil)))
  have hclusters : List.Forall₂ Reads (g.tryBlocksInUse.toList.flatMap (g.clusterLines hs))
      (g.tryBlocksInUse.toList.flatMap (g.clusterStatements hs)) := by
    induction g.tryBlocksInUse.toList with
    | nil => exact .nil
    | cons id ids ih => exact List.rel_append (reads_clusterLines g hs id) ih
  have hloose : ∀ guard : Option Nat, (!true || guard.isNone) = (guard == none) := by
    intro guard
    cases guard <;> rfl
  have hedges := reads_map fun (e : Edge) (_ : e ∈ g.edges.toList) => reads_edgeLine e 1
  have hblank : List.Forall₂ Reads [""] [other] := .cons (by decide) .nil
  have hend : List.Forall₂ Reads ["\x7d"] [closes] := .cons (by decide) .nil
  exact List.rel_append (List.rel_append (List.rel_append (List.rel_append (List.rel_append hbegin hclusters)
    (reads_nodeLines g hs hloose 1)) hblank) hedges) hend

/-! ## What a drawing declares -/

def node (g : Graph) (hs : List Nat) (b : Nat) : Node where
  cluster := g.guardOf b
  block := b
  attributes := g.attributesOf hs b

theorem mem_blocksIn {guard : Option Nat} : b ∈ g.blocksIn guard ↔ b < g.blockCount ∧ g.guardOf b = guard := by
  rw [blocksIn, List.mem_filter, List.mem_range, beq_iff_eq]

theorem map_blocksIn (hs : List Nat) (guard : Option Nat) :
    (g.blocksIn guard).map (fun b => (⟨guard, b, g.attributesOf hs b⟩ : Node)) = (g.blocksIn guard).map (g.node hs) := by
  refine List.map_congr_left fun b hb => ?_
  rw [node, (mem_blocksIn.1 hb).2]

theorem nodesFrom_clusters (g : Graph) (hs : List Nat) (ids : List Nat) (ss : List Statement) :
    nodesFrom none (ids.flatMap (g.clusterStatements hs) ++ ss) =
      (ids.flatMap fun id => (g.blocksIn (some id)).map (g.node hs)) ++ nodesFrom none ss := by
  induction ids with
  | nil => rfl
  | cons id ids ih =>
    rw [List.flatMap_cons, List.flatMap_cons, List.append_assoc, List.append_assoc, ← ih, ← map_blocksIn]
    show nodesFrom (some id)
      (((g.blocksIn (some id)).map (fun b => Statement.node b (g.attributesOf hs b)) ++ [closes]) ++ _) = _
    rw [List.append_assoc, nodesFrom_nodes]
    rfl

/-- The clusters and what is in none of them hold every block once. -/
theorem perm_blocksIn (g : Graph) :
    (g.tryBlocksInUse.toList.flatMap (fun id => g.blocksIn (some id)) ++ g.blocksIn none).Perm (List.range g.blockCount) := by
  have hnodup (guard : Option Nat) : (g.blocksIn guard).Nodup := List.nodup_range.filter _
  have hdisjoint {guard guard' : Option Nat} (h : guard ≠ guard') : (g.blocksIn guard).Disjoint (g.blocksIn guard') := by
    intro b hb hb'
    exact h ((mem_blocksIn.1 hb).2.symm.trans (mem_blocksIn.1 hb').2)
  have hclusters : (g.tryBlocksInUse.toList.flatMap fun id => g.blocksIn (some id)).Nodup := by
    refine List.nodup_flatMap.2 ⟨fun id _ => hnodup _, g.tryBlocksInUse.ascending.imp fun {i j} hij => hdisjoint ?_⟩
    simpa using Nat.ne_of_lt hij
  refine (List.perm_ext_iff_of_nodup (List.nodup_append'.2 ⟨hclusters, hnodup none, ?_⟩) List.nodup_range).2 fun b => ?_
  · intro b hb hb'
    obtain ⟨id, -, hid⟩ := List.mem_flatMap.1 hb
    exact hdisjoint (Option.some_ne_none id) hid hb'
  · rw [List.mem_append, List.mem_flatMap, List.mem_range, mem_blocksIn]
    constructor
    · rintro (⟨id, -, hid⟩ | hb)
      · exact (mem_blocksIn.1 hid).1
      · exact hb.1
    · intro hb
      cases hguard : g.guardOf b with
      | none => exact Or.inr ⟨hb, rfl⟩
      | some id => exact Or.inl ⟨id, mem_tryBlocksInUse.2 ⟨b, hguard⟩, mem_blocksIn.2 ⟨hb, hguard⟩⟩

/-- **Every block is declared once**, in the cluster of its guard. -/
theorem nodes_draw_perm (g : Graph) (hs : List Nat) :
    (nodes (g.draw hs)).Perm ((List.range g.blockCount).map (g.node hs)) := by
  have hnodes : nodes (g.draw hs) =
      (g.tryBlocksInUse.toList.flatMap (fun id => g.blocksIn (some id)) ++ g.blocksIn none).map (g.node hs) := by
    rw [nodes, statements_draw]
    simp only [List.append_assoc]
    show nodesFrom none (g.tryBlocksInUse.toList.flatMap (g.clusterStatements hs) ++ _) = _
    rw [nodesFrom_clusters, nodesFrom_nodes, map_blocksIn, List.map_append, List.map_flatMap]
    show _ ++ (_ ++ nodesFrom none (g.edges.toList.map _ ++ [closes])) = _
    rw [nodesFrom_arrows]
    exact congrArg (_ ++ ·) (List.append_nil _)
  rw [hnodes]
  exact g.perm_blocksIn.map _

/-- **Every edge is declared once**, in the order of the edges. -/
theorem arrows_draw (g : Graph) (hs : List Nat) :
    arrows (g.draw hs) = g.edges.toList.map fun e => ⟨e.source, e.target, (edgeText e.kind).toList⟩ := by
  have hclusters : (g.tryBlocksInUse.toList.flatMap (g.clusterStatements hs)).filterMap arrow? = [] := by
    rw [List.filterMap_flatMap, List.flatMap_eq_nil_iff]
    intro id _
    show ((g.blocksIn (some id)).map (fun b => Statement.node b (g.attributesOf hs b)) ++ [closes]).filterMap arrow? = []
    rw [List.filterMap_append, filterMap_arrow?_nodes]
    rfl
  rw [arrows, statements_draw]
  simp only [List.filterMap_append, hclusters, filterMap_arrow?_nodes, filterMap_arrow?_arrows]
  exact List.append_nil _

/-! ## Two drawings -/

variable {g' : Graph} {hs' : List Nat}

theorem node_inj (hb : b < g.blockCount) (hb' : b < g'.blockCount) (h : g.node hs b = g'.node hs' b) :
    g.blocks[b]? = g'.blocks[b]? ∧ (b ∈ hs ↔ b ∈ hs') ∧ (g.entry = some b ↔ g'.entry = some b) := by
  obtain ⟨hguard, -, hattributes⟩ := Node.mk.inj h
  obtain ⟨hoffset, hhandler, hentry⟩ := nodeAttributes_inj hattributes
  refine ⟨?_, ?_, ?_⟩
  · rw [getElem?_blocks hb, getElem?_blocks hb', hoffset, hguard]
  · rw [← List.contains_iff_mem, ← List.contains_iff_mem, hhandler]
  · rw [← beq_iff_eq, hentry, beq_iff_eq]

theorem eq_of_map_arrows {es es' : List Edge}
    (h : es.map (fun e => (⟨e.source, e.target, (edgeText e.kind).toList⟩ : Arrow)) =
      es'.map fun e => ⟨e.source, e.target, (edgeText e.kind).toList⟩) : es = es' := by
  refine List.map_injective_iff.2 ?_ h
  rintro ⟨source, target, kind⟩ ⟨source', target', kind'⟩ he
  obtain ⟨hsource, htarget, htext⟩ := Arrow.mk.inj he
  obtain rfl : source = source' := hsource
  obtain rfl : target = target' := htarget
  obtain rfl : kind = kind' := edgeText_injective (String.toList_inj.1 htext)
  rfl

/-- **A drawing shows its graph.** -/
theorem eq_of_draw_eq (he : ∀ b, g.entry = some b → b < g.blockCount) (hhs : ∀ b ∈ hs, b < g.blockCount)
    (he' : ∀ b, g'.entry = some b → b < g'.blockCount) (hhs' : ∀ b ∈ hs', b < g'.blockCount) (h : g.draw hs = g'.draw hs') :
    g.blocks = g'.blocks ∧ g.edges = g'.edges ∧ g.entry = g'.entry ∧ ∀ b, b ∈ hs ↔ b ∈ hs' := by
  have hperm := (g.nodes_draw_perm hs).symm.trans (h ▸ g'.nodes_draw_perm hs')
  have hcount : g.blockCount = g'.blockCount := by simpa using hperm.length_eq
  have hnode : ∀ b < g.blockCount, g.node hs b = g'.node hs' b := by
    intro b hb
    obtain ⟨b', -, hb'⟩ := List.mem_map.1 (hperm.mem_iff.1 (List.mem_map_of_mem (List.mem_range.2 hb)))
    obtain rfl : b' = b := congrArg Node.block hb'
    exact hb'.symm
  have hblock (b : Nat) (hb : b < g.blockCount) := node_inj hb (hcount ▸ hb) (hnode b hb)
  refine ⟨Array.ext_getElem? fun b => ?_, ?_, ?_, fun b => ?_⟩
  · rcases Nat.lt_or_ge b g.blockCount with hb | hb
    · exact (hblock b hb).1
    · have hb' : g'.blockCount ≤ b := hcount ▸ hb
      rw [Array.getElem?_eq_none hb, Array.getElem?_eq_none hb']
  · have harrows : arrows (g.draw hs) = arrows (g'.draw hs') := by rw [h]
    rw [arrows_draw, arrows_draw] at harrows
    exact Array.toList_inj.1 (eq_of_map_arrows harrows)
  · refine Option.ext fun b => ⟨fun hb => ?_, fun hb => ?_⟩
    · exact (hblock b (he b hb)).2.2.1 hb
    · exact (hblock b (hcount ▸ he' b hb)).2.2.2 hb
  · constructor
    · intro hb
      exact (hblock b (hhs b hb)).2.1.1 hb
    · intro hb
      exact (hblock b (hcount ▸ hhs' b hb)).2.1.2 hb

theorem draw_congr (h : ∀ b, b ∈ hs ↔ b ∈ hs') : g.draw hs = g.draw hs' := by
  have hcontains : ∀ b, hs.contains b = hs'.contains b := by
    intro b
    rw [Bool.eq_iff_iff, List.contains_iff_mem, List.contains_iff_mem, h]
  have hlines : ∀ guards, g.nodeLines hs guards = g.nodeLines hs' guards := by
    intro guards
    simp only [nodeLines, nodeLine, hcontains]
  have hclusters : g.clusterLines hs = g.clusterLines hs' := by
    funext id
    rw [clusterLines, clusterLines, hlines]
  rw [draw, draw, drawingLines, drawingLines, hlines, hclusters]

/-- **A drawing loses nothing and repeats nothing.** Where the entry and the handlers are blocks of the graph, its drawing
declares each block once, in the cluster of its guard or in none, and each edge once, in order. Two such drawings are equal if
and only if their graphs have the same blocks, edges and entry and the same blocks are handlers. -/
theorem drawing_is_faithful (he : ∀ b, g.entry = some b → b < g.blockCount) (hhs : ∀ b ∈ hs, b < g.blockCount)
    (he' : ∀ b, g'.entry = some b → b < g'.blockCount) (hhs' : ∀ b ∈ hs', b < g'.blockCount) :
    ((nodes (g.draw hs)).map fun n => (n.cluster, n.block)).Perm ((List.range g.blockCount).map fun b => (g.guardOf b, b)) ∧
    (arrows (g.draw hs)).map (fun a => (a.source, a.target)) = g.edges.toList.map (fun e => (e.source, e.target)) ∧
    (g.draw hs = g'.draw hs' ↔
      g.blocks = g'.blocks ∧ g.edges = g'.edges ∧ g.entry = g'.entry ∧ ∀ b, b ∈ hs ↔ b ∈ hs') := by
  refine ⟨?_, ?_, eq_of_draw_eq he hhs he' hhs', ?_⟩
  · have hnodes := (g.nodes_draw_perm hs).map fun n => (n.cluster, n.block)
    rwa [List.map_map] at hnodes
  · rw [arrows_draw, List.map_map]
    rfl
  · rintro ⟨hblocks, hedges, hentry, hhandlers⟩
    rw [Graph.ext hblocks hedges hentry]
    exact draw_congr hhandlers

/-- A switch whose cases two try-blocks guard, the later one first. -/
def switchInTries : Graph where
  blocks := #[{}, { offset := 4, guard := some 1 }, { offset := 8, guard := some 0 }, { offset := 12, guard := some 1 }, {}]
  edges := #[⟨0, 1, .switchCase 1⟩, ⟨0, 2, .switchCase 11⟩, ⟨0, 3, .switchDefault⟩, ⟨3, 4, .exception⟩, ⟨3, 4, .jump⟩]
  entry := some 0
  edges_inside := by decide

/-- Blocks 1 and 3 stand in one cluster, behind block 2 in the other one. That block 4 is named twice as a handler does not
show; that it is one does. -/
theorem drawing_is_faithful_switchInTries :
    ((nodes (switchInTries.draw [4])).map fun n => (n.cluster, n.block)).Perm
      [(none, 0), (some 1, 1), (some 0, 2), (some 1, 3), (none, 4)] ∧
    (arrows (switchInTries.draw [4])).map (fun a => (a.source, a.target)) = [(0, 1), (0, 2), (0, 3), (3, 4), (3, 4)] ∧
    switchInTries.draw [4] = switchInTries.draw [4, 4] ∧ switchInTries.draw [4] ≠ switchInTries.draw [] := by
  have hentry : ∀ b, switchInTries.entry = some b → b < switchInTries.blockCount := by
    rintro _ ⟨⟩
    decide
  have hnone : ∀ b ∈ ([] : List Nat), b < switchInTries.blockCount := by decide
  have honce : ∀ b ∈ [4], b < switchInTries.blockCount := by decide
  have htwice : ∀ b ∈ [4, 4], b < switchInTries.blockCount := by decide
  obtain ⟨hnodes, harrows, hsame⟩ := drawing_is_faithful hentry honce hentry htwice
  obtain ⟨-, -, hother⟩ := drawing_is_faithful hentry honce hentry hnone
  refine ⟨hnodes, harrows, hsame.2 ⟨rfl, rfl, rfl, by simp⟩, fun h => ?_⟩
  have hhandler := (hother.1 h).2.2.2 4
  exact absurd hhandler (by decide)

end Graph

end GuardedRegions
