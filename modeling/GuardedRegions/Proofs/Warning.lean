import GuardedRegions.Proofs.Text.Lines
import GuardedRegions.TryBlock
import Mathlib.Data.List.Forall2

/-!
# Which try-block a warning is about

A reconstruction warns of every try-block that it gives up (`Warning.givenUp`) and of every one that it drops
(`Warning.dropped`). In both texts the number of the try-block stands between words that are the same in all of them, and
the digits end where a blank follows; so a text is about one try-block, and it tells what has become of it.
-/

namespace GuardedRegions.Warning

def givenUp (id dominator : Nat) : String :=
  s!"can't wrap {TryBlock.name id} at dominator block {dominator}"

/-- The warning of a try-block that is dropped, as another one begins at the same block. -/
def dropped (id dominator kept : Nat) : String :=
  s!"{TryBlock.name id} dropped: shares dominator block " ++ s!"{dominator} with {TryBlock.name kept}"

def SaysGivenUp (id : Nat) (text : String) : Prop := ∃ dominator, text = givenUp id dominator

def SaysDropped (id : Nat) (text : String) : Prop := ∃ dominator kept, text = dropped id dominator kept

theorem eq_of_digits_append {i j : Nat} {xs ys : List Char}
    (h : Nat.toDigits 10 i ++ ' ' :: xs = Nat.toDigits 10 j ++ ' ' :: ys) : i = j :=
  (Text.eq_of_toDigits_append (Text.endsNumber_cons (by decide)) (Text.endsNumber_cons (by decide)) h).1

theorem toList_givenUp (id dominator : Nat) : ∃ rest, (givenUp id dominator).toList =
    "can't wrap try #".toList ++ (Nat.toDigits 10 id ++ ' ' :: rest) := by
  refine ⟨"at dominator block ".toList ++ Nat.toDigits 10 dominator, ?_⟩
  simp [givenUp, TryBlock.name, toString, Nat.toList_repr]

theorem toList_dropped (id dominator kept : Nat) : ∃ rest, (dropped id dominator kept).toList =
    "try #".toList ++ (Nat.toDigits 10 id ++ ' ' :: rest) := by
  refine ⟨"dropped: shares dominator block ".toList ++ (Nat.toDigits 10 dominator ++
    (" with try #".toList ++ Nat.toDigits 10 kept)), ?_⟩
  simp [dropped, TryBlock.name, toString, Nat.toList_repr]

theorem saysGivenUp_givenUp {id id' dominator : Nat} : SaysGivenUp id (givenUp id' dominator) ↔ id' = id := by
  constructor
  · rintro ⟨other, h⟩
    obtain ⟨xs, hx⟩ := toList_givenUp id' dominator
    obtain ⟨ys, hy⟩ := toList_givenUp id other
    rw [h, hy] at hx
    exact (eq_of_digits_append (List.append_cancel_left hx)).symm
  · rintro rfl
    exact ⟨dominator, rfl⟩

theorem saysDropped_dropped {id id' dominator kept : Nat} : SaysDropped id (dropped id' dominator kept) ↔ id' = id := by
  constructor
  · rintro ⟨other, other', h⟩
    obtain ⟨xs, hx⟩ := toList_dropped id' dominator kept
    obtain ⟨ys, hy⟩ := toList_dropped id other other'
    rw [h, hy] at hx
    exact (eq_of_digits_append (List.append_cancel_left hx)).symm
  · rintro rfl
    exact ⟨dominator, kept, rfl⟩

theorem givenUp_ne_dropped (id dominator id' dominator' kept : Nat) :
    givenUp id dominator ≠ dropped id' dominator' kept := by
  intro h
  obtain ⟨xs, hx⟩ := toList_givenUp id dominator
  obtain ⟨ys, hy⟩ := toList_dropped id' dominator' kept
  rw [h, hy] at hx
  have hhead := congrArg List.head? hx
  simp at hhead

theorem not_saysDropped_givenUp (id id' dominator : Nat) : ¬ SaysDropped id (givenUp id' dominator) := by
  rintro ⟨other, kept, h⟩
  exact givenUp_ne_dropped _ _ _ _ _ h

theorem not_saysGivenUp_dropped (id id' dominator kept : Nat) : ¬ SaysGivenUp id (dropped id' dominator kept) := by
  rintro ⟨other, h⟩
  exact givenUp_ne_dropped _ _ _ _ _ h.symm

theorem exists_saysDropped {ids : List Nat} {texts : List String} (h : List.Forall₂ SaysDropped ids texts) :
    ∀ text ∈ texts, ∃ id, SaysDropped id text := by
  induction h with
  | nil => exact fun text htext => absurd htext List.not_mem_nil
  | cons hfirst _ ih => exact List.forall_mem_cons.2 ⟨⟨_, hfirst⟩, ih⟩

/-! ## Counting warnings -/

open Classical in
theorem countP_saysGivenUp_map (es : List (Nat × Nat)) (id : Nat) :
    (es.map fun e => givenUp e.2 e.1).countP (fun text => decide (SaysGivenUp id text)) = (es.map (·.2)).count id := by
  rw [List.countP_map, List.count_eq_countP, List.countP_map]
  refine List.countP_congr fun e _ => ?_
  simp [saysGivenUp_givenUp]

open Classical in
theorem countP_saysDropped_map (es : List (Nat × Nat)) (id : Nat) :
    (es.map fun e => givenUp e.2 e.1).countP (fun text => decide (SaysDropped id text)) = 0 := by
  rw [List.countP_map, List.countP_eq_zero]
  intro e _
  simpa using not_saysDropped_givenUp id e.2 e.1

open Classical in
theorem countP_of_forall₂ {ids : List Nat} {texts : List String} (h : List.Forall₂ SaysDropped ids texts) (id : Nat) :
    texts.countP (fun text => decide (SaysDropped id text)) = ids.count id ∧
      texts.countP (fun text => decide (SaysGivenUp id text)) = 0 := by
  induction h with
  | nil => exact ⟨rfl, rfl⟩
  | @cons id' text ids texts hfirst _ ih =>
    obtain ⟨dominator, kept, rfl⟩ := hfirst
    rw [List.countP_cons, List.countP_cons, List.count_cons, ih.1, ih.2]
    simp [saysDropped_dropped, not_saysGivenUp_dropped]

end GuardedRegions.Warning
