import GuardedRegions.Json.Decode
import GuardedRegions.Proofs.Except
import GuardedRegions.Proofs.Json.Characters
import GuardedRegions.Proofs.Json.Value
import Mathlib.Data.List.Forall2

/-!
# What is read where a value is written

`Reader.Decodes` says what a reader comes to where a value is written on one line, whatever comes after the value: a result, or
an error. What a reader of lists, records or choices comes to follows from what its parts come to, the first error of a part
being that of the whole. The only error of its own that a list can have there is that no level of nesting is left.
-/

namespace GuardedRegions.Json.Reader

open Value

variable {α β : Type} {x : Reader α} {v : Value} {result : Except ReadError α} {rest : List Char} {name : String} {budget : Nat}

/-- Where a value is written, a reader comes to a result; if that is no error, it stops behind the value. -/
def Decodes (x : Reader α) (v : Value) (result : Except ReadError α) : Prop :=
  ∀ rest, EndsValue rest → x (v.chars ++ rest) = result.map (·, rest)

theorem Decodes.map (h : Decodes x v result) (f : α → β) : Decodes (f <$> x) v (result.map f) := by
  intro rest hrest
  show (x (v.chars ++ rest) >>= fun p => Except.ok (f p.1, p.2)) = _
  rw [h rest hrest]
  cases result <;> rfl

theorem look_chars (v : Value) (rest : List Char) :
    ∃ c, look (v.chars ++ rest) = .ok (some c, v.chars ++ rest) ∧ c ≠ ']' ∧ (c = 'n' → v = .null) := by
  obtain ⟨c, cs, hcs, hblank, hclose, hnull⟩ := v.exists_chars_eq
  rw [hcs]
  exact ⟨c, look_cons hblank _, hclose, hnull⟩

theorem Decodes.readAll (h : Decodes x v result) : readAll x v.compact = result := by
  have hread : x v.compact.toList = result.map (·, []) := by
    have := h [] endsValue_nil
    rwa [List.append_nil] at this
  unfold Reader.readAll
  rw [hread]
  cases result <;> rfl

/-! ## Values without parts -/

theorem natural_decodes {n limit : Nat} (hn : n < limit) (hlimit : limit ≤ Nat.pow 2 64) (name : String) :
    Decodes (natural limit name) (.number n) (.ok n) := by
  intro rest hrest
  rw [chars_number]
  obtain ⟨d, ds, hds, hd⟩ := Text.exists_toDigits_eq n
  have hlook : look (Nat.toDigits 10 n ++ rest) = .ok (some d, Nat.toDigits 10 n ++ rest) := by
    rw [hds]
    exact look_cons (isBlank_of_isDigit hd) _
  have hbegins : beginsNumber d = true := by
    rw [beginsNumber, hd, Bool.or_true]
  have hrange : (decide ((0 : Int) ≤ n) && decide ((n : Int) < limit)) = true := by
    simpa using hn
  unfold natural
  rw [bind_of_ok hlook]
  dsimp only
  rw [if_pos hbegins, bind_of_ok (number_toDigits (Nat.lt_of_lt_of_le hn hlimit) hrest)]
  dsimp only
  rw [if_pos hrange]
  rfl

theorem quoted_chars (s : String) (rest : List Char) :
    quoted ('"' :: (Characters.escape s.toList ++ '"' :: rest)) = .ok (s, rest) := by
  show (Characters.read (Characters.escape s.toList ++ '"' :: rest)).map _ = _
  rw [Characters.read_escape]
  show Except.ok (String.ofList s.toList, rest) = _
  rw [String.ofList_toList]

theorem string_chars (s name : String) (rest : List Char) : string name ((Value.string s).chars ++ rest) = .ok (s, rest) := by
  rw [chars_string, List.cons_append, List.append_assoc, List.singleton_append]
  unfold string
  rw [bind_of_ok (look_cons (by decide) _)]
  exact quoted_chars s rest

theorem string_decodes (s name : String) : Decodes (string name) (.string s) (.ok s) :=
  fun rest _ => string_chars s name rest

theorem optional_null (x : Reader α) : Decodes (optional x) .null (.ok none) := by
  intro rest _
  rw [chars_null]
  unfold optional
  rw [List.cons_append, bind_of_ok (look_cons (by decide) _)]
  rfl

theorem optional_decodes (h : Decodes x v result) (hv : v ≠ .null) : Decodes (optional x) v (result.map some) := by
  intro rest hrest
  obtain ⟨c, hlook, -, hnull⟩ := look_chars v rest
  unfold optional
  rw [bind_of_ok hlook]
  show _ = (result.map some).map (·, rest)
  rw [← h.map some rest hrest]
  -- the match is a reader that is applied to the text: it can be split once the text is gone
  refine congrFun ?_ (v.chars ++ rest)
  split
  · rename_i heq
    exact absurd (hnull (Option.some.inj heq)) hv
  · rfl

/-! ## Lists -/

variable {item : Nat → Reader α} {vs : List Value} {results : List (Except ReadError α)}

theorem hasElement_end (first : Bool) (rest : List Char) : hasElement first (']' :: rest) = .ok (false, ']' :: rest) := by
  unfold hasElement
  rw [bind_of_ok (look_cons (by decide) _)]
  rfl

theorem hasElement_first (v : Value) (rest : List Char) : hasElement true (v.chars ++ rest) = .ok (true, v.chars ++ rest) := by
  obtain ⟨c, hlook, hclose, -⟩ := look_chars v rest
  unfold hasElement
  rw [bind_of_ok hlook]
  dsimp only
  rw [if_neg hclose]
  rfl

theorem hasElement_more (v : Value) (rest : List Char) :
    hasElement false (',' :: (v.chars ++ rest)) = .ok (true, v.chars ++ rest) := by
  obtain ⟨c, hlook, hclose, -⟩ := look_chars v rest
  have hskip : skip (',' :: (v.chars ++ rest)) = .ok ((), v.chars ++ rest) := rfl
  unfold hasElement
  rw [bind_of_ok (look_cons (by decide) _)]
  dsimp only
  rw [if_neg (by decide), if_neg (by decide), if_pos rfl, bind_of_ok hskip, bind_of_ok hlook]
  show _ = (pure true : Reader Bool) (v.chars ++ rest)
  refine congrFun ?_ (v.chars ++ rest)
  split
  · rename_i heq
    exact absurd (Option.some.inj heq) hclose
  · rfl
  · rename_i heq
    cases heq

theorem elements_step {first : Bool} {s s' tail : List Char} {bound : Nat} {others : Except ReadError (List α)}
    (hmore : hasElement first s = .ok (true, v.chars ++ tail)) (hv : Decodes x v result) (htail : EndsValue tail)
    (hothers : elements x bound false tail = others.map (·, s')) :
    elements x (bound + 1) first s = (result >>= fun a => others >>= fun as => pure (a :: as)).map (·, s') := by
  rw [elements, bind_of_ok hmore, if_pos rfl, bind_of_map (hv tail htail)]
  cases result with
  | error e => rfl
  | ok a =>
    rw [ok_bind, bind_of_map hothers]
    cases others <;> rfl

theorem elements_end (first : Bool) (bound : Nat) (rest : List Char) :
    elements x (bound + 1) first (']' :: rest) = .ok ([], ']' :: rest) := by
  unfold elements
  rw [bind_of_ok (hasElement_end first rest)]
  rfl

theorem elements_more (h : List.Forall₂ (Decodes x) vs results) {bound : Nat} (hbound : vs.length ≤ bound) (rest : List Char) :
    elements x (bound + 1) false ((compactMoreItems vs).toList ++ ']' :: rest) = (results.mapM id).map (·, ']' :: rest) := by
  induction h generalizing bound with
  | nil => exact elements_end false bound rest
  | @cons v result vs results hv hvs ih =>
    cases bound with
    | zero => cases hbound
    | succ bound =>
      rw [toList_compactMoreItems_cons, List.cons_append, List.append_assoc, List.mapM_cons]
      exact elements_step (hasElement_more v _) hv (endsValue_moreItems vs rest) (ih (Nat.le_of_succ_le_succ hbound))

theorem elements_items (h : List.Forall₂ (Decodes x) vs results) {bound : Nat} (hbound : vs.length ≤ bound) (rest : List Char) :
    elements x (bound + 1) true ((compactItems vs).toList ++ ']' :: rest) = (results.mapM id).map (·, ']' :: rest) := by
  cases h with
  | nil => exact elements_end true bound rest
  | @cons v result vs results hv hvs =>
    cases bound with
    | zero => cases hbound
    | succ bound =>
      rw [toList_compactItems_cons, List.append_assoc, List.mapM_cons]
      exact elements_step (hasElement_first v _) hv (endsValue_moreItems vs rest)
        (elements_more hvs (Nat.le_of_succ_le_succ hbound) rest)

/-- **A list is read element by element**, if a level of nesting is left: the first error of an element is that of the list. -/
theorem list_decodes (h : List.Forall₂ (Decodes (item budget)) vs results) :
    Decodes (list item (budget + 1)) (.list vs) (results.mapM id) := by
  intro rest _
  have hbound : vs.length ≤ ((compactItems vs).toList ++ ']' :: rest).length := by
    have := length_le_items vs
    rw [List.length_append]
    omega
  have hread := elements_items h hbound rest
  rw [chars_list, List.cons_append, List.append_assoc, List.singleton_append]
  unfold list
  rw [bind_of_ok (look_cons (by decide) _)]
  show ((fun s => elements (item budget) (s.length + 1) true s) >>= fun xs => listEnd >>= fun _ => pure xs : Reader (List α))
    ((compactItems vs).toList ++ ']' :: rest) = _
  rw [bind_of_map (x := fun s => elements (item budget) (s.length + 1) true s) hread]
  exact bind_pure_comp (·, rest) _

def within (fits : Bool) (a : α) : Except ReadError α := if fits then .ok a else .error .nestingLimit

theorem list_within {toJson : α → Value} {fits : α → Bool} {items : List α}
    (h : ∀ a ∈ items, Decodes (item budget) (toJson a) (within (fits a) a)) :
    Decodes (list item (budget + 1)) (.list (items.map toJson)) (within (items.all fits) items) := by
  have hparts : List.Forall₂ (Decodes (item budget)) (items.map toJson) (items.map fun a => within (fits a) a) := by
    rw [List.forall₂_map_left_iff, List.forall₂_map_right_iff]
    exact List.forall₂_same.2 h
  have hresult : (items.map fun a => within (fits a) a).mapM id = within (items.all fits) items := by
    clear h hparts
    induction items with
    | nil => rfl
    | cons a items ih =>
      rw [List.map_cons, List.mapM_cons, ih, List.all_cons]
      cases fits a <;> cases items.all fits <;> rfl
  exact hresult ▸ list_decodes hparts

theorem list_map_decodes {toJson : α → Value} {items : List α} (h : ∀ a ∈ items, Decodes (item budget) (toJson a) (.ok a)) :
    Decodes (list item (budget + 1)) (.list (items.map toJson)) (.ok items) := by
  have hitems : Decodes (list item (budget + 1)) (.list (items.map toJson)) (within (items.all fun _ => true) items) :=
    list_within h
  rwa [List.all_eq_true.2 fun _ _ => rfl] at hitems

theorem list_nestingLimit (item : Nat → Reader α) (vs : List Value) :
    Decodes (list item 0) (.list vs) (.error .nestingLimit) := by
  intro rest _
  rw [chars_list]
  unfold list
  rw [List.cons_append, bind_of_ok (look_cons (by decide) _)]
  rfl

/-! ## Records -/

variable {fields : List (Field α)} {ws : List (String × Value)} {puts : List (Except ReadError (α → α))} {seen : List String}
  {r : α}

theorem hasMember_end (first : Bool) (rest : List Char) : hasMember first ('\x7d' :: rest) = .ok (false, '\x7d' :: rest) := by
  unfold hasMember
  rw [bind_of_ok (look_cons (by decide) _)]
  rfl

theorem hasMember_first (name : String) (v : Value) (rest : List Char) :
    hasMember true (fieldChars name v ++ rest) = .ok (true, fieldChars name v ++ rest) := by
  unfold hasMember fieldChars
  rw [List.cons_append, bind_of_ok (look_cons (by decide) _)]
  rfl

theorem hasMember_more (name : String) (v : Value) (rest : List Char) :
    hasMember false (',' :: (fieldChars name v ++ rest)) = .ok (true, fieldChars name v ++ rest) := by
  have hskip : skip (',' :: (fieldChars name v ++ rest)) = .ok ((), fieldChars name v ++ rest) := rfl
  unfold hasMember
  rw [bind_of_ok (look_cons (by decide) _)]
  dsimp only
  rw [if_neg (by decide), if_neg (by decide), if_pos rfl, bind_of_ok hskip, fieldChars, List.cons_append,
    bind_of_ok (look_cons (by decide) _)]
  rfl

theorem colon_cons (s : List Char) : colon (':' :: s) = .ok ((), s) := by
  unfold colon
  rw [bind_of_ok (look_cons (by decide) _)]
  rfl

/-- Where a field is written, the record has a field of that name, and what is put into the record is read there. -/
def DecodesField (fields : List (Field α)) (w : String × Value) (put : Except ReadError (α → α)) : Prop :=
  ∃ field, fields.find? (·.name == w.1) = some field ∧ Decodes field.read w.2 put

/-- What is read into a record: each field in turn, up to the first error. -/
def putAll (puts : List (Except ReadError (α → α))) (start : α) : Except ReadError α :=
  puts.foldlM (fun r put => put.map (· r)) start

theorem members_step {first : Bool} {s s' tail : List Char} {bound : Nat} {seen' : List String} {w : String × Value}
    {put : Except ReadError (α → α)} (hmore : hasMember first s = .ok (true, fieldChars w.1 w.2 ++ tail))
    (hw : DecodesField fields w put) (hseen : w.1 ∉ seen) (htail : EndsValue tail)
    (hothers : ∀ r, members fields bound false (w.1 :: seen) r tail = ((putAll puts r).map (seen', ·)).map (·, s')) :
    members fields (bound + 1) first seen r s = ((putAll (put :: puts) r).map (seen', ·)).map (·, s') := by
  obtain ⟨field, hfind, hread⟩ := hw
  have hkey : quoted (fieldChars w.1 w.2 ++ tail) = .ok (w.1, ':' :: (w.2.chars ++ tail)) := by
    rw [fieldChars, List.cons_append, List.append_assoc]
    exact quoted_chars w.1 _
  rw [members, bind_of_ok hmore, if_pos rfl, bind_of_ok hkey, hfind]
  dsimp only
  rw [if_neg (by simpa using hseen), bind_of_ok (colon_cons _), bind_of_map (hread tail htail)]
  cases put with
  | error e => rfl
  | ok f => exact hothers (f r)

theorem members_end (first : Bool) (bound : Nat) (rest : List Char) :
    members fields (bound + 1) first seen r ('\x7d' :: rest) = .ok ((seen, r), '\x7d' :: rest) := by
  unfold members
  rw [bind_of_ok (hasMember_end first rest)]
  rfl

theorem members_more (h : List.Forall₂ (DecodesField fields) ws puts) (hnew : (seen.reverse ++ ws.map (·.1)).Nodup) {bound : Nat}
    (hbound : ws.length ≤ bound) (rest : List Char) :
    members fields (bound + 1) false seen r ((compactMoreFields ws).toList ++ '\x7d' :: rest) =
      ((putAll puts r).map ((ws.map (·.1)).reverse ++ seen, ·)).map (·, '\x7d' :: rest) := by
  -- over the fields that are left; the names of those before them are seen and do not come again
  induction h generalizing bound seen r with
  | nil => exact members_end false bound rest
  | @cons w put ws puts hw hws ih =>
    have hseen : w.1 ∉ seen := by
      intro hmem
      exact (List.nodup_append.1 hnew).2.2 w.1 (List.mem_reverse.2 hmem) w.1 List.mem_cons_self rfl
    cases bound with
    | zero => cases hbound
    | succ bound =>
      rw [toList_compactMoreFields_cons, List.cons_append, List.append_assoc, List.map_cons, List.reverse_cons, List.append_assoc]
      exact members_step (hasMember_more w.1 w.2 _) hw hseen (endsValue_moreFields ws rest)
        fun r => ih (by simpa using hnew) (Nat.le_of_succ_le_succ hbound)

theorem members_fields (h : List.Forall₂ (DecodesField fields) ws puts) (hnew : (ws.map (·.1)).Nodup) {bound : Nat}
    (hbound : ws.length ≤ bound) (rest : List Char) :
    members fields (bound + 1) true [] r ((compactFields ws).toList ++ '\x7d' :: rest) =
      ((putAll puts r).map ((ws.map (·.1)).reverse, ·)).map (·, '\x7d' :: rest) := by
  cases h with
  | nil => exact members_end true bound rest
  | @cons w put ws puts hw hws =>
    cases bound with
    | zero => cases hbound
    | succ bound =>
      rw [toList_compactFields_cons, List.append_assoc, List.map_cons, List.reverse_cons]
      exact members_step (hasMember_first w.1 w.2 _) hw List.not_mem_nil (endsValue_moreFields ws rest)
        fun r => members_more hws (by simpa using hnew) (Nat.le_of_succ_le_succ hbound) rest

/-- **A record is read field by field**, if a level of nesting is left and no field that is required is left out. -/
theorem record_decodes {fields : Nat → List (Field α)} {start : α} (h : List.Forall₂ (DecodesField (fields budget)) ws puts)
    (hnew : (ws.map (·.1)).Nodup) (hrequired : ∀ f ∈ fields budget, f.required = true → f.name ∈ ws.map (·.1))
    (hresult : putAll puts start = result) : Decodes (record name fields start (budget + 1)) (.record ws) result := by
  subst hresult
  intro rest _
  have hbound : ws.length ≤ ((compactFields ws).toList ++ '\x7d' :: rest).length := by
    have := length_le_fields ws
    rw [List.length_append]
    omega
  have hmissing : ((fields budget).find? fun f => f.required && !(ws.map (·.1)).reverse.contains f.name) = none := by
    simpa using hrequired
  have hbyName : byName (fields budget) start ((compactFields ws).toList ++ '\x7d' :: rest) =
      (putAll puts start).map (·, '\x7d' :: rest) := by
    unfold byName
    rw [bind_of_map (x := fun s => members (fields budget) (s.length + 1) true [] start s) (members_fields h hnew hbound rest)]
    cases putAll puts start with
    | error e => rfl
    | ok r =>
      rw [Except.map, ok_bind]
      dsimp only
      rw [hmissing]
      rfl
  rw [chars_record, List.cons_append, List.append_assoc, List.singleton_append]
  unfold record
  rw [bind_of_ok (look_cons (by decide) _)]
  show (byName (fields budget) start >>= fun r => objectEnd >>= fun _ => pure r : Reader α)
    ((compactFields ws).toList ++ '\x7d' :: rest) = _
  rw [bind_of_map hbyName]
  exact bind_pure_comp (·, rest) _

/-! ## Choices -/

variable {choices : Nat → List (String × Choice α)}

theorem choiceName_chars {choices : List (String × Choice α)} {chosen : Choice α} (h : choices.lookup name = some chosen)
    (rest : List Char) : choiceName choices ((Value.string name).chars ++ rest) = .ok (chosen, rest) := by
  unfold choiceName
  rw [bind_of_ok (string_chars name _ rest), h]
  rfl

/-- A choice that is a value by itself is read from its name, whether or not a level of nesting is left. -/
theorem choice_bare {value : α} (h : (choices budget).lookup name = some (.bare value)) :
    Decodes (choice choices budget) (.string name) (.ok value) := by
  intro rest _
  have hlook : look ((Value.string name).chars ++ rest) = .ok (some '"', (Value.string name).chars ++ rest) := by
    rw [chars_string]
    exact look_cons (by decide) _
  unfold choice
  rw [bind_of_ok hlook]
  exact bind_of_ok (choiceName_chars h rest)

theorem choice_carrying {reader : Reader α} (h : (choices budget).lookup name = some (.carrying reader))
    (hread : Decodes reader v result) : Decodes (choice choices (budget + 1)) (.record [(name, v)]) result := by
  intro rest _
  have hchars : (Value.record [(name, v)]).chars ++ rest =
      '\x7b' :: ((Value.string name).chars ++ ':' :: (v.chars ++ '\x7d' :: rest)) := by
    rw [chars_record, toList_compactFields_cons, chars_string]
    simp [fieldChars, compactMoreFields]
  have hskip : ∀ s, skip ('\x7b' :: s) = .ok ((), s) := fun _ => rfl
  have hvalue : (Choice.carrying reader).read (v.chars ++ '\x7d' :: rest) = result.map (·, '\x7d' :: rest) :=
    hread _ (endsValue_cons.2 (by simp))
  rw [hchars]
  unfold choice
  rw [bind_of_ok (look_cons (by decide) _)]
  refine Eq.trans (bind_of_ok (hskip _)) ?_
  rw [bind_of_ok (choiceName_chars h _), bind_of_ok (colon_cons _), bind_of_map hvalue]
  cases result <;> rfl

end GuardedRegions.Json.Reader
