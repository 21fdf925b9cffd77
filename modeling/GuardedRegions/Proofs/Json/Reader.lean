import GuardedRegions.Json.Reader

/-!
# Readers, one step after the other

Where a reader stops, the next one goes on; an error ends both. What a reader of values may meet behind a value is a comma or
the end of what the value is a part of (`EndsValue`): this is all that it has to know of the text after it.
-/

namespace GuardedRegions.Json

/-- What follows a value: nothing, a comma, or the end of a list or an object. -/
def EndsValue (rest : List Char) : Prop := ∀ c ∈ rest.head?, c = ',' ∨ c = ']' ∨ c = '\x7d'

theorem endsValue_nil : EndsValue [] := fun _ hc => absurd hc (Option.not_mem_none _)

theorem endsValue_cons {c : Char} {rest : List Char} : EndsValue (c :: rest) ↔ c = ',' ∨ c = ']' ∨ c = '\x7d' := by
  simp [EndsValue]

namespace Reader

variable {α β : Type} {x : Reader α} {f : α → Reader β} {a : α} {s s' : List Char} {e : ReadError}

theorem bind_of_ok (h : x s = .ok (a, s')) : (x >>= f) s = f a s' := by
  show (x s >>= fun p => f p.1 p.2) = f a s'
  rw [h]
  rfl

theorem bind_of_error (h : x s = .error e) : (x >>= f) s = .error e := by
  show (x s >>= fun p => f p.1 p.2) = .error e
  rw [h]
  rfl

/-- A reader that stops at a known place, if it comes to a value at all. -/
theorem bind_of_map {result : Except ReadError α} (h : x s = result.map (·, s')) : (x >>= f) s = result >>= fun a => f a s' := by
  cases result with
  | error e => exact bind_of_error h
  | ok a => exact bind_of_ok h

theorem look_cons {c : Char} (hc : isBlank c = false) (s : List Char) : look (c :: s) = .ok (some c, c :: s) := by
  unfold look
  simp [hc]

end Reader

end GuardedRegions.Json
