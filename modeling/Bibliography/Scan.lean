import Bibliography.Block

/-!
# Bibliography.Scan

The scanners: the classes of characters of commands, names and bare tokens,
and the search for the bracket or quotation mark that closes what an opening
one has begun.  A scanner is given the text after the opening character, and
splits it into what lies inside and what follows the closing one.

* `eq_of_balanced_closed`, `eq_of_quoted_closed`, `eq_of_payload_closed` — the
  two parts and the closing character between them are the text.
-/

namespace Bibliography.Scan

/-! ## classes of characters -/

/-- The characters of a command such as `article`. -/
def isCommandChar (c : Char) : Bool := Text.isAlnum c || c ∈ ['_', '-', ':', '.']

/-- The characters of a citation key or a field name. -/
def isKeyChar (c : Char) : Bool :=
  !Text.isBlank c && c ∉ [',', '{', '}', '(', ')', '=', '"', '#', '%']

/-- The characters of a bare token such as `jan` or `1998`. -/
def isLiteralChar (c : Char) : Bool :=
  !Text.isBlank c && c ∉ [',', '#', '{', '}', '"', '(', ')', '=']

/-! ## closing characters -/

/-- What a scan for a closing character finds. -/
inductive Closing where
  /-- The closing character stands between `inside` and `rest`. -/
  | closed (inside rest : Text)
  /-- The brace at the start of `rest` closes nothing. -/
  | stray (inside rest : Text)
  /-- The text ends with `depth` brackets open, the outer one not counted. -/
  | unclosed (depth : Nat)
deriving DecidableEq, Inhabited

/-- A scan that has passed one character more. -/
def Closing.cons (c : Char) : Closing → Closing
  | closed i r => closed (c :: i) r
  | stray i r => stray (c :: i) r
  | unclosed n => unclosed n

/-- Look for the first closing bracket that has no opening one, `depth`
brackets being open. -/
def balancedFrom (opening closing : Char) (depth : Nat) : Text → Closing
  | [] => .unclosed depth
  | c :: s =>
    if c = opening then (balancedFrom opening closing (depth + 1) s).cons c
    else if c = closing then
      match depth with
      | 0 => .closed [] s
      | d + 1 => (balancedFrom opening closing d s).cons c
    else (balancedFrom opening closing depth s).cons c

/-- The end of a text in brackets. -/
def balanced (opening closing : Char) (s : Text) : Closing := balancedFrom opening closing 0 s

/-- Look for a closing quotation mark with `depth` braces open; `escaped` says
that an odd run of backslashes comes just before. -/
def quotedFrom (depth : Nat) (escaped : Bool) : Text → Closing
  | [] => .unclosed depth
  | c :: s =>
    if c = '"' ∧ depth = 0 ∧ escaped = false then .closed [] s
    else if c = '{' then (quotedFrom (depth + 1) false s).cons c
    else if c = '}' then
      match depth with
      | 0 => .stray [] (c :: s)
      | d + 1 => (quotedFrom d false s).cons c
    else (quotedFrom depth (c = '\\' && !escaped) s).cons c

/-- The end of a text in quotation marks.  A mark in braces or after an odd run
of backslashes does not count. -/
def quoted (s : Text) : Closing := quotedFrom 0 false s

/-! ## payloads -/

/-- What a scan of the payload of a comment, preamble or string definition
finds. -/
inductive PayloadEnd where
  | closed (inside rest : Text)
  /-- The text ends with these brackets open, the outer one counted. -/
  | unclosed (braces parens : Nat)
deriving DecidableEq, Inhabited

/-- A scan that has passed one character more. -/
def PayloadEnd.cons (c : Char) : PayloadEnd → PayloadEnd
  | closed i r => closed (c :: i) r
  | unclosed b p => unclosed b p

/-- Look for the closing bracket of a payload with `braces` braces open.  In
parentheses a closing brace too many is passed over, and nested parentheses are
not counted. -/
def payloadFrom (d : Delimiter) (braces : Nat) : Text → PayloadEnd
  | [] =>
    match d with
    | .brace => .unclosed (braces + 1) 0
    | .paren => .unclosed braces 1
  | c :: s =>
    if c = '{' then (payloadFrom d (braces + 1) s).cons c
    else if c = d.closing ∧ braces = 0 then .closed [] s
    else if c = '}' then (payloadFrom d (braces - 1) s).cons c
    else (payloadFrom d braces s).cons c

/-- The end of a payload. -/
def payload (d : Delimiter) (s : Text) : PayloadEnd := payloadFrom d 0 s

/-! ## blocks at the start of a line -/

/-- The text before the next `@` at the start of a line, or all of it. -/
def untilLineBlock : Text → Text
  | [] => []
  | '\n' :: '@' :: _ => ['\n']
  | c :: s => c :: untilLineBlock s

/-! ## laws -/

theorem eq_of_cons_closed {c : Char} {r : Closing} {i t : Text} (h : r.cons c = .closed i t) :
    ∃ j, i = c :: j ∧ r = .closed j t := by
  cases r <;> simp_all [Closing.cons]

theorem eq_of_cons_stray {c : Char} {r : Closing} {i t : Text} (h : r.cons c = .stray i t) :
    ∃ j, i = c :: j ∧ r = .stray j t := by
  cases r <;> simp_all [Closing.cons]

theorem eq_of_cons_payload {c : Char} {r : PayloadEnd} {i t : Text} (h : r.cons c = .closed i t) :
    ∃ j, i = c :: j ∧ r = .closed j t := by
  cases r <;> simp_all [PayloadEnd.cons]

theorem eq_of_balancedFrom_closed {o c : Char} {n : Nat} {s i r : Text}
    (h : balancedFrom o c n s = .closed i r) : s = i ++ c :: r := by
  fun_induction balancedFrom o c n s generalizing i with
  | case1 => simp at h
  | case2 _ _ ih | case4 _ _ _ ih | case5 _ _ _ _ _ ih =>
    obtain ⟨j, rfl, hj⟩ := eq_of_cons_closed h
    simp [ih hj]
  | case3 => simp_all

/-- A balanced text, its closing bracket and the rest are the whole text. -/
theorem eq_of_balanced_closed {o c : Char} {s i r : Text} (h : balanced o c s = .closed i r) :
    s = i ++ c :: r :=
  eq_of_balancedFrom_closed h

theorem eq_of_quotedFrom_closed {n : Nat} {e : Bool} {s i r : Text}
    (h : quotedFrom n e s = .closed i r) : s = i ++ '"' :: r := by
  fun_induction quotedFrom n e s generalizing i with
  | case1 | case4 => cases h
  | case2 _ _ _ _ hc =>
    cases h
    rw [hc.1, List.nil_append]
  | case3 _ _ _ _ ih | case5 _ _ _ _ _ ih | case6 _ _ _ _ _ _ _ ih =>
    obtain ⟨j, rfl, hj⟩ := eq_of_cons_closed h
    rw [ih hj, List.cons_append]

/-- A quoted text, its closing mark and the rest are the whole text. -/
theorem eq_of_quoted_closed {s i r : Text} (h : quoted s = .closed i r) : s = i ++ '"' :: r :=
  eq_of_quotedFrom_closed h

theorem eq_of_quotedFrom_stray {n : Nat} {e : Bool} {s i r : Text}
    (h : quotedFrom n e s = .stray i r) : s = i ++ r := by
  fun_induction quotedFrom n e s generalizing i with
  | case1 | case2 => cases h
  | case3 _ _ _ _ ih | case5 _ _ _ _ _ ih | case6 _ _ _ _ _ _ _ ih =>
    obtain ⟨j, rfl, hj⟩ := eq_of_cons_stray h
    rw [ih hj, List.cons_append]
  | case4 =>
    cases h
    rw [List.nil_append]

theorem eq_of_payloadFrom_closed {d : Delimiter} {n : Nat} {s i r : Text}
    (h : payloadFrom d n s = .closed i r) : s = i ++ d.closing :: r := by
  fun_induction payloadFrom d n s generalizing i with
  | case1 | case2 => cases h
  | case3 _ _ ih | case5 _ _ _ _ ih | case6 _ _ _ _ _ _ ih =>
    obtain ⟨j, rfl, hj⟩ := eq_of_cons_payload h
    rw [ih hj, List.cons_append]
  | case4 _ _ _ _ hc =>
    cases h
    rw [hc.1, List.nil_append]

/-- A payload, its closing bracket and the rest are the whole text. -/
theorem eq_of_payload_closed {d : Delimiter} {s i r : Text} (h : payload d s = .closed i r) :
    s = i ++ d.closing :: r :=
  eq_of_payloadFrom_closed h

end Bibliography.Scan
