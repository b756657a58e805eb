import Bibliography.Text

/-!
# Bibliography.Json.Token

The tokens of a JSON text.  A fault in the text ends the list of tokens with a
`broken` one, so that a reader meets it only when it gets there, and a mistake
of another kind before it is found first.

A text that is passed over is held to less than one that is read: its escapes
need not make characters and its numbers may be out of range.  Where the two
differ, a token says what it is in both cases.
-/

namespace Bibliography.Json

/-- Why a JSON text is refused. -/
inductive Fault where
  /-- The text is not JSON. -/
  | malformed
  /-- The text ends too early. -/
  | ended
  /-- A value is of the wrong kind. -/
  | mismatch
deriving DecidableEq, Inhabited

/-- A number that is read: a natural number that fits 64 bits, or another
number, which no option has. -/
abbrev Number := Option Nat

/-- A token. -/
inductive Token where
  | openObject
  | closeObject
  | openArray
  | closeArray
  | comma
  | colon
  | null
  | bool (b : Bool)
  /-- A string, with its characters if its escapes make characters. -/
  | text (content : Except Fault Text)
  /-- A number, if it is in range. -/
  | number (content : Except Fault Number)
  /-- The fault that ends the text, for a reader and for one who passes over;
  `inText` says that it is in a string. -/
  | broken (inText : Bool) (read passed : Fault)

/-! ## strings -/

/-- The value of a hexadecimal digit. -/
def hexDigit? (c : Char) : Option Nat :=
  if c.isDigit then some (c.toNat - '0'.toNat)
  else if 'a' ≤ c ∧ c ≤ 'f' then some (c.toNat - 'a'.toNat + 10)
  else if 'A' ≤ c ∧ c ≤ 'F' then some (c.toNat - 'A'.toNat + 10)
  else none

/-- The value of four hexadecimal digits, and the text after them.  With fewer
than four octets left the text has ended too early, whatever they are. -/
def hex4 : Text → Except Fault (Nat × Text)
  | a :: b :: c :: d :: s =>
    match hexDigit? a, hexDigit? b, hexDigit? c, hexDigit? d with
    | some w, some x, some y, some z => .ok (((w * 16 + x) * 16 + y) * 16 + z, s)
    | _, _, _, _ => .error .malformed
  | s => .error (if Text.utf8Size s < 4 then .ended else .malformed)

theorem length_of_hex4 {s r : Text} {n : Nat} (h : hex4 s = .ok (n, r)) :
    r.length < s.length := by
  unfold hex4 at h
  split at h
  · split at h
    · cases h
      simp only [List.length_cons]
      omega
    · cases h
  · cases h

/-- The surrogate half that must follow a leading one, with the text after it. -/
def trailing (s : Text) : Except Fault (Nat × Text) :=
  match s with
  | [] | ['\\'] => .error .ended
  | '\\' :: 'u' :: t =>
    match hex4 t with
    | .ok (n, r) => if 0xDC00 ≤ n ∧ n ≤ 0xDFFF then .ok (n, r) else .error .malformed
    | .error f => .error f
  | _ => .error .malformed

theorem length_of_trailing {s r : Text} {n : Nat} (h : trailing s = .ok (n, r)) :
    r.length < s.length := by
  unfold trailing at h
  split at h
  · cases h
  · cases h
  · split at h
    · next hx =>
      split at h
      · cases h
        have := length_of_hex4 hx
        simp only [List.length_cons]
        omega
      · cases h
    · cases h
  · cases h

/-- The character that a backslash and a letter stand for. -/
def escaped? : Char → Option Char
  | '"' => some '"'
  | '\\' => some '\\'
  | '/' => some '/'
  | 'b' => some '\x08'
  | 'f' => some '\x0c'
  | 'n' => some '\n'
  | 'r' => some '\x0d'
  | 't' => some '\t'
  | _ => none

/-- A string that is scanned to its closing mark, or to a fault. -/
inductive StringRead where
  | closed (content : Except Fault Text) (rest : Text)
  | broken (read passed : Fault)

namespace StringRead

/-- A scan with one character more in front. -/
def cons (c : Char) : StringRead → StringRead
  | closed content rest => closed (content.map (c :: ·)) rest
  | broken r p => broken r p

/-- A scan with a fault in front that only a reader minds. -/
def refuse (f : Fault) : StringRead → StringRead
  | closed _ rest => closed (.error f) rest
  | broken _ p => broken f p

end StringRead

/-- Scan a string after its opening mark. -/
def scanString (s : Text) : StringRead :=
  match s with
  | [] => .broken .ended .ended
  | '"' :: s => .closed (.ok []) s
  | ['\\'] => .broken .ended .ended
  | '\\' :: 'u' :: s =>
    match _ : hex4 s with
    | .error f => .broken f f
    | .ok (n, r) =>
      if 0xDC00 ≤ n ∧ n ≤ 0xDFFF then (scanString r).refuse .malformed
      else if 0xD800 ≤ n ∧ n ≤ 0xDBFF then
        match _ : trailing r with
        | .ok (m, t) =>
          (scanString t).cons (Char.ofNat ((n - 0xD800) * 0x400 + (m - 0xDC00) + 0x10000))
        | .error f => (scanString r).refuse f
      else (scanString r).cons (Char.ofNat n)
  | '\\' :: c :: s =>
    match escaped? c with
    | some d => (scanString s).cons d
    | none => .broken .malformed .malformed
  | c :: s =>
    if c.toNat < 0x20 then .broken .malformed .malformed
    else (scanString s).cons c
termination_by s.length
decreasing_by
  · have := length_of_hex4 ‹_›
    simp only [List.length_cons]
    omega
  · have := length_of_hex4 ‹_›
    have := length_of_trailing ‹_›
    simp only [List.length_cons]
    omega
  · have := length_of_hex4 ‹_›
    simp only [List.length_cons]
    omega
  · have := length_of_hex4 ‹_›
    simp only [List.length_cons]
    omega
  · simp only [List.length_cons]
    omega
  · simp only [List.length_cons]
    omega

theorem length_of_scanString {s r : Text} {content : Except Fault Text}
    (h : scanString s = .closed content r) : r.length < s.length := by
  fun_induction scanString s generalizing content with
  | case2 =>
    cases h
    simp
  | case5 _ _ _ hx _ ih | case7 _ _ _ hx _ _ _ _ ih =>
    have hl := length_of_hex4 hx
    revert h
    cases hs : scanString _ <;> simp only [StringRead.refuse]
    · rintro ⟨⟩
      have := ih hs
      simp only [List.length_cons]
      omega
    · nofun
  | case6 _ _ _ hx _ _ _ _ ht ih =>
    have hl := length_of_hex4 hx
    have hm := length_of_trailing ht
    revert h
    cases hs : scanString _ <;> simp only [StringRead.cons]
    · rintro ⟨⟩
      have := ih hs
      simp only [List.length_cons]
      omega
    · nofun
  | case8 _ _ _ hx _ _ ih =>
    have hl := length_of_hex4 hx
    revert h
    cases hs : scanString _ <;> simp only [StringRead.cons]
    · rintro ⟨⟩
      have := ih hs
      simp only [List.length_cons]
      omega
    · nofun
  | case9 _ _ _ _ _ ih | case12 _ _ _ _ _ _ _ ih =>
    revert h
    cases hs : scanString _ <;> simp only [StringRead.cons]
    · rintro ⟨⟩
      have := ih hs
      simp only [List.length_cons]
      omega
    · nofun
  | _ => cases h

end Bibliography.Json
