import GuardedRegions.Proofs.Region.Outline
import GuardedRegions.Proofs.Region.Valid
import GuardedRegions.Proofs.Text.Lines

/-!
# The text of a tree shows its outline

The indented text of a tree is what a walk over its regions writes (`linesWithin_ok`), and it can be read back in one way only.
A line tells how deep something lies and what it is (`Row.line_injective`). What a region holds ends at the first line that is
less deep, so it is known from its lines (`Contents.eq_of_rows_append`). Two trees have the same text if and only if they have
the same outline (`texts_eq_iff_outlines_eq`): the numbers of their regions do not show, and all else does.
-/

namespace GuardedRegions

open Text

/-! ## Lines -/

/-- What a line of the text of a tree names. -/
inductive Label where
  | block (id : Nat)
  | region (kind : RegionKind) (tryBlock : Option Nat)
deriving DecidableEq

/-- Some characters, none of which is a blank or ends a line. -/
abbrev IsWord (w : List Char) : Prop := w ≠ [] ∧ ' ' ∉ w ∧ '\n' ∉ w

theorem RegionKind.isWord_name (kind : RegionKind) : IsWord kind.name.toList := by
  cases kind <;> decide

theorem RegionKind.name_ne_block (kind : RegionKind) : kind.name ≠ "Block" := by
  cases kind <;> decide

theorem RegionKind.name_injective : Function.Injective RegionKind.name := by
  intro kind kind' h
  cases kind <;> cases kind' <;> first | rfl | exact absurd h (by decide)

namespace Label

def text : Label → String
  | block id => s!"Block {id}"
  | region kind tryBlock => Outline.heading kind tryBlock

def word : Label → String
  | block _ => "Block"
  | region kind _ => kind.name

def tail : Label → List Char
  | block id => ' ' :: Nat.toDigits 10 id
  | region _ none => []
  | region _ (some id) => " [try #".toList ++ (Nat.toDigits 10 id ++ [']'])

theorem toList_text (l : Label) : l.text.toList = l.word.toList ++ l.tail := by
  rcases l with id | ⟨kind, _ | id⟩
  · have htext : s!"Block {id}" = "Block " ++ id.repr := rfl
    have hword : "Block ".toList = "Block".toList ++ [' '] := by decide
    rw [text, htext, String.toList_append, Nat.toList_repr, hword, List.append_assoc]
    rfl
  · exact (List.append_nil _).symm
  · have htext : Outline.heading kind (some id) = kind.name ++ " [try #" ++ id.repr ++ "]" := rfl
    rw [text, htext, String.toList_append, String.toList_append, String.toList_append, Nat.toList_repr, List.append_assoc,
      List.append_assoc]
    rfl

theorem isWord_word (l : Label) : IsWord l.word.toList := by
  cases l with
  | block => exact (by decide : IsWord "Block".toList)
  | region kind => exact kind.isWord_name

theorem ne_blank_of_mem_word {l : Label} {c : Char} (hc : c ∈ l.word.toList) : (c != ' ') = true :=
  bne_iff_ne.2 (ne_of_mem_of_not_mem hc l.isWord_word.2.1)

theorem eq_blank_of_mem_head_tail {l : Label} {c : Char} (hc : c ∈ l.tail.head?) : (c != ' ') = false := by
  rcases l with _ | ⟨_, _ | _⟩ <;> cases hc <;> rfl

theorem newline_notMem_text (l : Label) : '\n' ∉ l.text.toList := by
  rw [toList_text, List.mem_append]
  rintro (hword | htail)
  · exact l.isWord_word.2.2 hword
  · rcases l with id | ⟨_, _ | id⟩
    · exact newline_notMem_toDigits id ((List.mem_cons.1 htail).resolve_left (by decide))
    · cases htail
    · refine newline_notMem_toDigits id ?_
      rcases List.mem_append.1 htail with h | h
      · exact absurd h (by decide)
      · exact (List.mem_append.1 h).resolve_right (by decide)

theorem head?_text_ne_blank (l : Label) : l.text.toList.head? ≠ some ' ' := by
  rw [toList_text, List.head?_append_of_ne_nil _ l.isWord_word.1]
  intro h
  exact l.isWord_word.2.1 (List.mem_of_mem_head? h)

/-- **A line names one thing only.** -/
theorem text_injective : Function.Injective text := by
  intro l m h
  have hsplit (n : Label) := span_append (fun c hc => n.ne_blank_of_mem_word hc) fun c hc => n.eq_blank_of_mem_head_tail hc
  have hword : l.word = m.word := by
    rw [← String.toList_inj, ← (hsplit l).1, ← (hsplit m).1, ← toList_text, ← toList_text, h]
  have htail : l.tail = m.tail := by rw [← (hsplit l).2, ← (hsplit m).2, ← toList_text, ← toList_text, h]
  rcases l with id | ⟨kind, tag⟩ <;> rcases m with id' | ⟨kind', tag'⟩
  · have hid := eq_of_toDigits_append endsNumber_nil endsNumber_nil (congrArg (· ++ []) (List.cons.inj htail).2)
    rw [hid.1]
  · exact absurd hword.symm kind'.name_ne_block
  · exact absurd hword kind.name_ne_block
  · obtain rfl := RegionKind.name_injective hword
    cases tag with
    | none =>
      cases tag' with
      | none => rfl
      | some id' => cases htail
    | some id =>
      cases tag' with
      | none => cases htail
      | some id' =>
        have hend : EndsNumber [']'] := endsNumber_cons (by decide)
        rw [(eq_of_toDigits_append hend hend (List.append_cancel_left htail)).1]

end Label

/-- A line of the text of a tree: how many steps it is moved to the right, and what it names. -/
structure Row where
  steps : Nat
  label : Label
deriving DecidableEq

namespace Row

def line (row : Row) : String := indent row.steps row.label.text

theorem newline_notMem_line (row : Row) : '\n' ∉ row.line.toList :=
  newline_notMem_indent row.label.newline_notMem_text row.steps

theorem line_injective : Function.Injective line := by
  rintro ⟨k, l⟩ ⟨k', l'⟩ h
  obtain ⟨hk, hl⟩ := blanks_indent l.head?_text_ne_blank k
  obtain ⟨hk', hl'⟩ := blanks_indent l'.head?_text_ne_blank k'
  have hlines : (indent k l.text).toList = (indent k' l'.text).toList := congrArg String.toList h
  have hsteps : 2 * k = 2 * k' := by rw [← hk, ← hk', hlines]
  have htext : l.text = l'.text := by rw [← String.toList_inj, ← hl, ← hl', hlines]
  rw [Label.text_injective htext, Nat.eq_of_mul_eq_mul_left (by decide) hsteps]

end Row

/-! ## Contents -/

namespace Contents

/-- The lines of the children of a region and of all below them. -/
def rows (steps : Nat) : Contents → List Row
  | nil => []
  | block id rest => ⟨steps, .block id⟩ :: rest.rows steps
  | region kind tryBlock inner rest => ⟨steps, .region kind tryBlock⟩ :: (inner.rows (steps + 1) ++ rest.rows steps)

theorem lines_eq (c : Contents) (steps : Nat) : c.lines steps = (c.rows steps).map Row.line := by
  induction c generalizing steps with
  | nil => rfl
  | block id rest ih => rw [lines, rows, List.map_cons, ih]; rfl
  | region kind tryBlock inner rest ihInner ihRest =>
    rw [lines, rows, List.map_cons, List.map_append, ihInner, ihRest]
    rfl

/-- What follows the lines of some children is less deep than they are. -/
def EndsRows (steps : Nat) (rows : List Row) : Prop := ∀ row ∈ rows.head?, row.steps < steps

theorem EndsRows.not_cons {steps : Nat} {l : Label} {xs : List Row} : ¬ EndsRows steps (⟨steps, l⟩ :: xs) :=
  fun h => Nat.lt_irrefl _ (h _ rfl)

theorem EndsRows.succ {steps : Nat} {xs : List Row} (h : EndsRows steps xs) (c : Contents) :
    EndsRows (steps + 1) (c.rows steps ++ xs) := by
  cases c with
  | nil => exact fun row hrow => Nat.lt_succ_of_lt (h row hrow)
  | block id rest =>
    rintro _ ⟨⟩
    exact Nat.lt_succ_self steps
  | region kind tryBlock inner rest =>
    rintro _ ⟨⟩
    exact Nat.lt_succ_self steps

/-- **Contents are known from their lines**, and so is where these end. -/
theorem eq_of_rows_append {c d : Contents} {steps : Nat} {xs ys : List Row} (hx : EndsRows steps xs) (hy : EndsRows steps ys)
    (h : c.rows steps ++ xs = d.rows steps ++ ys) : c = d ∧ xs = ys := by
  induction c generalizing steps d xs ys with
  | nil =>
    subst h
    cases d with
    | nil => exact ⟨rfl, rfl⟩
    | block id rest => exact absurd hx EndsRows.not_cons
    | region kind tryBlock inner rest => exact absurd hx EndsRows.not_cons
  | block id rest ih =>
    cases d with
    | nil =>
      rw [rows, List.nil_append] at h
      exact absurd (h ▸ hy) EndsRows.not_cons
    | block id' rest' =>
      obtain ⟨hrow, hrest⟩ := List.cons.inj h
      obtain ⟨rfl, hxy⟩ := ih hx hy hrest
      cases hrow
      exact ⟨rfl, hxy⟩
    | region kind tryBlock inner rest' => cases (List.cons.inj h).1
  | region kind tryBlock inner rest ihInner ihRest =>
    cases d with
    | nil =>
      rw [rows, List.nil_append] at h
      exact absurd (h ▸ hy) EndsRows.not_cons
    | block id rest' => cases (List.cons.inj h).1
    | region kind' tryBlock' inner' rest' =>
      rw [rows, rows, List.cons_append, List.cons_append, List.append_assoc, List.append_assoc] at h
      obtain ⟨hrow, hbelow⟩ := List.cons.inj h
      obtain ⟨rfl, hsiblings⟩ := ihInner (hx.succ rest) (hy.succ rest') hbelow
      obtain ⟨rfl, hxy⟩ := ihRest hx hy hsiblings
      cases hrow
      exact ⟨rfl, hxy⟩

end Contents

namespace Outline

def rows (o : Outline) : List Row := ⟨0, .region o.kind o.tryBlock⟩ :: o.contents.rows 1

theorem lines_eq (o : Outline) : o.lines = o.rows.map Row.line := by
  rw [lines, rows, List.map_cons, Contents.lines_eq]
  exact congrArg (· :: _) (indent_zero _).symm

theorem rows_injective : Function.Injective rows := by
  rintro ⟨kind, tryBlock, contents⟩ ⟨kind', tryBlock', contents'⟩ h
  obtain ⟨hrow, hbelow⟩ := List.cons.inj h
  have hends : Contents.EndsRows 1 [] := fun _ hrow => nomatch hrow
  obtain ⟨hcontents, -⟩ := Contents.eq_of_rows_append hends hends (congrArg (· ++ []) hbelow)
  cases hrow
  cases hcontents
  rfl

/-- **An outline is known from its text.** -/
theorem text_injective : Function.Injective fun o : Outline => ofLines o.lines := by
  intro o o' h
  have hlines (o : Outline) : Text.lines (ofLines o.lines) = o.rows.map (String.toList ∘ Row.line) := by
    rw [lines_eq, lines_ofLines, List.map_map]
    exact List.forall_mem_map.2 fun row _ => row.newline_notMem_line
  have hrows : o.rows.map (String.toList ∘ Row.line) = o'.rows.map (String.toList ∘ Row.line) := by
    rw [← hlines, ← hlines]
    exact congrArg Text.lines h
  have hchars : Function.Injective String.toList := fun _ _ => String.toList_inj.1
  exact rows_injective (List.map_injective_iff.2 (hchars.comp Row.line_injective) hrows)

end Outline

/-! ## Trees -/

namespace RegionTree

variable {t : RegionTree}

/-- The lines of a child, where those of the regions are known. -/
def childLines (below : Nat → Except Fault (List String)) (steps : Nat) : Container → Except Fault (List String)
  | .block b => .ok [indent steps s!"Block {b}"]
  | .region child => below child

/-- The lines of a region that is not nested deeper than a bound, as a walk over the regions writes them. -/
def linesWithin (t : RegionTree) : Nat → Nat → Nat → Except Fault (List String)
  | 0, _, _ => .error .endlessNesting
  | depth + 1, steps, r => do
    let region ← t.region r
    let below ← region.children.mapM (childLines (t.linesWithin depth (steps + 1)) (steps + 1))
    return indent steps (Outline.heading region.kind region.tryBlock) :: below.flatten

/-- The text of a tree, as a walk over its regions writes it. -/
def written (t : RegionTree) : Except Fault String := do return ofLines (← t.linesWithin t.size 0 t.root)

theorem mapM_childLines_ok {below : Nat → Except Fault (List String)} {depth steps : Nat}
    (hbelow : ∀ q o, t.outlineWithin depth q = .ok o →
      below q = .ok (indent steps (Outline.heading o.kind o.tryBlock) :: o.contents.lines (steps + 1)))
    {cs : List Container} {contents : Contents} (h : cs.foldrM (t.outlineChild depth) .nil = .ok contents) :
    ∃ parts, cs.mapM (childLines below steps) = .ok parts ∧ parts.flatten = contents.lines steps := by
  induction cs generalizing contents with
  | nil =>
    obtain rfl := Except.ok.inj h
    exact ⟨[], rfl, rfl⟩
  | cons c cs ih =>
    rw [List.foldrM_cons] at h
    obtain ⟨rest, hrest, hc⟩ := bind_eq_ok_iff.1 h
    obtain ⟨parts, hparts, hlines⟩ := ih hrest
    have hadd {first : List String} (hfirst : childLines below steps c = .ok first)
        (heq : contents.lines steps = first ++ rest.lines steps) :
        ∃ parts, (c :: cs).mapM (childLines below steps) = .ok parts ∧ parts.flatten = contents.lines steps := by
      refine ⟨first :: parts, ?_, by rw [List.flatten_cons, hlines, heq]⟩
      rw [List.mapM_cons, hfirst, ok_bind, hparts]
      rfl
    cases c with
    | block b =>
      obtain rfl := Except.ok.inj hc
      exact hadd rfl rfl
    | region q =>
      obtain ⟨o, ho, hcontents⟩ := bind_eq_ok_iff.1 hc
      obtain rfl := Except.ok.inj hcontents
      exact hadd (hbelow q o ho) rfl

theorem linesWithin_ok {depth r : Nat} {o : Outline} (h : t.outlineWithin depth r = .ok o) (steps : Nat) :
    t.linesWithin depth steps r = .ok (indent steps (Outline.heading o.kind o.tryBlock) :: o.contents.lines (steps + 1)) := by
  induction depth generalizing r o steps with
  | zero => cases h
  | succ depth ih =>
    rw [outlineWithin_succ] at h
    obtain ⟨region, hregion, h⟩ := bind_eq_ok_iff.1 h
    obtain ⟨contents, hcontents, ho⟩ := bind_eq_ok_iff.1 h
    obtain rfl := Except.ok.inj ho
    obtain ⟨below, hbelow, hlines⟩ := mapM_childLines_ok (fun _ _ ho => ih ho (steps + 1)) hcontents
    rw [linesWithin, hregion, ok_bind, hbelow, ok_bind, hlines]
    rfl

theorem WellFormed.text_ok (h : t.WellFormed) :
    ∃ o, t.outline = .ok o ∧ t.text = .ok (ofLines o.lines) ∧ t.written = .ok (ofLines o.lines) := by
  obtain ⟨o, ho, -⟩ := h.outline_ok
  refine ⟨o, ho, by rw [text, ho]; rfl, ?_⟩
  rw [written, linesWithin_ok ho 0, indent_zero]
  rfl

/-- **The text of a tree shows its outline and nothing else.** Every tree has a text, which is the one that a walk over its
regions writes, and two trees have the same text if and only if they have the same outline. -/
theorem texts_eq_iff_outlines_eq {t u : RegionTree} (ht : t.validate = .ok ()) (hu : u.validate = .ok ()) :
    ∃ o p s w, t.outline = .ok o ∧ u.outline = .ok p ∧ (t.text = .ok s ∧ t.written = .ok s) ∧
      (u.text = .ok w ∧ u.written = .ok w) ∧ (s = w ↔ o = p) := by
  obtain ⟨o, ho, hs⟩ := (validate_eq_ok_iff.1 ht).text_ok
  obtain ⟨p, hp, hw⟩ := (validate_eq_ok_iff.1 hu).text_ok
  exact ⟨o, p, _, _, ho, hp, hs, hw, Outline.text_injective.eq_iff⟩

def emptyBeforeBlock : RegionTree where
  regions := #[
    { kind := .sequence, parent := none, children := [.region 1, .block 0] },
    { kind := .loop, parent := some 0, children := [.region 2, .block 11], tryBlock := some 1 },
    { kind := .sequence, parent := some 1 }]

/-- The same tree, its regions numbered from the deepest one. -/
def numberedFromBelow : RegionTree where
  regions := #[
    { kind := .sequence, parent := some 1 },
    { kind := .loop, parent := some 2, children := [.region 0, .block 11], tryBlock := some 1 },
    { kind := .sequence, parent := none, children := [.region 1, .block 0] }]
  root := 2

def blockInRegion : RegionTree where
  regions := #[
    { kind := .sequence, parent := none, children := [.region 1, .block 0] },
    { kind := .loop, parent := some 0, children := [.region 2], tryBlock := some 1 },
    { kind := .sequence, parent := some 1, children := [.block 11] }]

/-- Other numbers do not change the text; a block that stands one step further to the right does. -/
theorem texts_eq_iff_outlines_eq_emptyBeforeBlock :
    emptyBeforeBlock.validate = .ok () ∧ numberedFromBelow.validate = .ok () ∧ blockInRegion.validate = .ok () ∧
      ∃ s w, emptyBeforeBlock.text = .ok s ∧ numberedFromBelow.text = .ok s ∧ blockInRegion.text = .ok w ∧ s ≠ w := by
  have ht : emptyBeforeBlock.validate = .ok () := by decide
  have hu : numberedFromBelow.validate = .ok () := by decide
  have hv : blockInRegion.validate = .ok () := by decide
  obtain ⟨o, p, s, s', ho, hp, ⟨hs, -⟩, ⟨hs', -⟩, hiff⟩ := texts_eq_iff_outlines_eq ht hu
  obtain ⟨o', q, s'', w, ho', hq, ⟨hs'', -⟩, ⟨hw, -⟩, hiff'⟩ := texts_eq_iff_outlines_eq ht hv
  have hsame : emptyBeforeBlock.outline = numberedFromBelow.outline := by decide
  have hother : emptyBeforeBlock.outline ≠ blockInRegion.outline := by decide
  obtain rfl : s = s'' := Except.ok.inj (hs.symm.trans hs'')
  have hop : o = p := Except.ok.inj (by rw [← ho, ← hp, hsame])
  obtain rfl := hiff.2 hop
  refine ⟨ht, hu, hv, s, w, hs, hs', hw, fun hsw => hother ?_⟩
  rw [ho', hq, hiff'.1 hsw]

end RegionTree

end GuardedRegions
