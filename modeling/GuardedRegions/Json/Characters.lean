import GuardedRegions.Json.Reader

/-!
# Strings in JSON

A string stands between double quotes. Quotes, backslashes and control characters inside it are
escaped; any other character may be escaped as well. A character beyond the 16-bit ones is escaped
as a pair of surrogates, and half a pair stands for nothing.

`Characters.read` reads what `Characters.escape` writes. A string that nobody asks for is stepped
over with `Characters.skip`, which does not look at what an escape stands for.
-/

namespace GuardedRegions.Json.Characters

/-! ## Writing -/

def escapeChar (c : Char) : List Char :=
  if c = '"' then ['\\', '"']
  else if c = '\\' then ['\\', '\\']
  else if c = '\x08' then ['\\', 'b']
  else if c = '\x0c' then ['\\', 'f']
  else if c = '\n' then ['\\', 'n']
  else if c = '\r' then ['\\', 'r']
  else if c = '\t' then ['\\', 't']
  else if c.toNat < 0x20 then
    ['\\', 'u', '0', '0', Nat.digitChar (c.toNat / 16), Nat.digitChar (c.toNat % 16)]
  else [c]

/-- What stands between the quotes of a string. -/
def escape (cs : List Char) : List Char := cs.flatMap escapeChar

/-! ## Reading -/

def hexValue? (c : Char) : Option Nat :=
  if c.isDigit then some (c.toNat - '0'.toNat)
  else if 'a' ≤ c && c ≤ 'f' then some (c.toNat - 'a'.toNat + 10)
  else if 'A' ≤ c && c ≤ 'F' then some (c.toNat - 'A'.toNat + 10)
  else none

/-- Reads four hexadecimal digits. A text of less than four bytes ends too soon. -/
def codeUnit : List Char → Except ReadError (Nat × List Char)
  | a :: b :: c :: d :: rest =>
    match hexValue? a, hexValue? b, hexValue? c, hexValue? d with
    | some a, some b, some c, some d => .ok (((a * 16 + b) * 16 + c) * 16 + d, rest)
    | _, _, _, _ => .error .invalidEscape
  | short =>
    if (String.ofList short).utf8ByteSize < 4 then .error .endInString else .error .invalidEscape

theorem length_codeUnit {s rest : List Char} {n : Nat} (h : codeUnit s = .ok (n, rest)) :
    rest.length < s.length := by
  unfold codeUnit at h
  split at h
  · split at h
    · cases h
      simp only [List.length_cons]
      omega
    · cases h
  · split at h <;> cases h

/-- Whether a code unit is the first half of a pair. -/
def isLeading (n : Nat) : Bool := 0xD800 ≤ n && n ≤ 0xDBFF

def isTrailing (n : Nat) : Bool := 0xDC00 ≤ n && n ≤ 0xDFFF

def secondHalf (first : Nat) : List Char → Except ReadError (Char × List Char)
  | [] => .error .endInString
  | c :: s =>
    if c ≠ '\\' then .error .cutSurrogate
    else match s with
      | [] => .error .endInString
      | c :: s =>
        if c ≠ 'u' then .error .cutSurrogate
        else match codeUnit s with
          | .error e => .error e
          | .ok (second, rest) =>
            if isTrailing second then
              .ok (Char.ofNat ((first - 0xD800) * 0x400 + (second - 0xDC00) + 0x10000), rest)
            else .error .loneSurrogate

theorem length_secondHalf {first : Nat} {s rest : List Char} {c : Char}
    (h : secondHalf first s = .ok (c, rest)) : rest.length < s.length := by
  unfold secondHalf at h
  split at h
  · cases h
  · split at h
    · cases h
    · split at h
      · cases h
      · split at h
        · cases h
        · split at h
          · cases h
          · next hu =>
            split at h
            · obtain ⟨-, rfl⟩ := Prod.mk.inj (Except.ok.inj h)
              have := length_codeUnit hu
              simp only [List.length_cons]
              omega
            · cases h

def shortEscape? (c : Char) : Option Char :=
  if c = '"' || c = '\\' || c = '/' then some c
  else if c = 'b' then some '\x08'
  else if c = 'f' then some '\x0c'
  else if c = 'n' then some '\n'
  else if c = 'r' then some '\r'
  else if c = 't' then some '\t'
  else none

/-- Reads what stands after a backslash. -/
def escaped : List Char → Except ReadError (Char × List Char)
  | [] => .error .endInString
  | c :: s =>
    match shortEscape? c with
    | some c => .ok (c, s)
    | none =>
      if c ≠ 'u' then .error .invalidEscape
      else match codeUnit s with
        | .error e => .error e
        | .ok (n, rest) =>
          if isTrailing n then .error .loneSurrogate
          else if isLeading n then secondHalf n rest
          else .ok (Char.ofNat n, rest)

theorem length_escaped {s rest : List Char} {c : Char} (h : escaped s = .ok (c, rest)) :
    rest.length < s.length := by
  unfold escaped at h
  split at h
  · cases h
  · split at h
    · cases h
      simp
    · split at h
      · cases h
      · split at h
        · cases h
        · next hu =>
          have hlt := length_codeUnit hu
          split at h
          · cases h
          · split at h
            · have := length_secondHalf h
              simp only [List.length_cons]
              omega
            · obtain ⟨-, rfl⟩ := Prod.mk.inj (Except.ok.inj h)
              simp only [List.length_cons]
              omega

/-- Reads the characters of a string and the quote at its end. -/
def read : List Char → Except ReadError (List Char × List Char)
  | [] => .error .endInString
  | c :: s =>
    if c = '"' then .ok ([], s)
    else if c = '\\' then
      match h : escaped s with
      | .error e => .error e
      | .ok (c, rest) =>
        have := length_escaped h
        (read rest).map fun (cs, rest) => (c :: cs, rest)
    else if c.toNat < 0x20 then .error .controlCharacter
    else (read s).map fun (cs, rest) => (c :: cs, rest)
termination_by s => s.length
decreasing_by all_goals simp only [List.length_cons]; omega

def skipEscaped : List Char → Except ReadError (List Char)
  | [] => .error .endInString
  | c :: s =>
    if (shortEscape? c).isSome then .ok s
    else if c ≠ 'u' then .error .invalidEscape
    else (codeUnit s).map (·.2)

theorem length_skipEscaped {s rest : List Char} (h : skipEscaped s = .ok rest) :
    rest.length < s.length := by
  unfold skipEscaped at h
  split at h
  · cases h
  · split at h
    · cases h
      simp
    · split at h
      · cases h
      · next s _ _ =>
        cases hu : codeUnit s with
        | error e => simp [hu, Except.map] at h
        | ok p =>
          obtain ⟨n, r⟩ := p
          simp only [hu, Except.map, Except.ok.injEq] at h
          have := length_codeUnit hu
          subst h
          simp only [List.length_cons]
          omega

/-- Steps over the characters of a string and the quote at its end. -/
def skip : List Char → Except ReadError (List Char)
  | [] => .error .endInString
  | c :: s =>
    if c = '"' then .ok s
    else if c = '\\' then
      match h : skipEscaped s with
      | .error e => .error e
      | .ok rest =>
        have := length_skipEscaped h
        skip rest
    else if c.toNat < 0x20 then .error .controlCharacter
    else skip s
termination_by s => s.length
decreasing_by all_goals simp only [List.length_cons]; omega

end GuardedRegions.Json.Characters

namespace GuardedRegions.Json.Reader

/-- Reads a string whose opening quote comes next. -/
def quoted : Reader String := do
  skip
  fun s => (Characters.read s).map fun (cs, rest) => (String.ofList cs, rest)

def skipQuoted : Reader Unit := do
  skip
  fun s => (Characters.skip s).map fun rest => ((), rest)

end GuardedRegions.Json.Reader
