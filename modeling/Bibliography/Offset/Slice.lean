import Bibliography.Text.Octets

/-!
# Bibliography.Offset.Slice

Places in a text as offsets into its octets.  Octets are read and sliced at any
offsets in range, but a text is cut only at the boundaries between its
characters.  Where there is no such octet or slice, the result is `none`, and so it
is where a loop would not come to an end.
-/

namespace Bibliography.Offset

/-! ## slices -/

/-- An offset between two characters of a text, or at an end of it. -/
def IsBoundary (s : Text) (i : Nat) : Prop := ∃ t u : Text, s = t ++ u ∧ i = t.utf8Size

/-- The parts of a text before and after an offset, which must be a boundary. -/
def cut? : Nat → Text → Option (Text × Text)
  | 0, s => some ([], s)
  | _ + 1, [] => none
  | i + 1, c :: s =>
    if c.utf8Size ≤ i + 1 then (cut? (i + 1 - c.utf8Size) s).map fun (t, u) => (c :: t, u)
    else none

/-- The text from an offset on. -/
def sliceFrom? (s : Text) (i : Nat) : Option Text := (cut? i s).map Prod.snd

/-- The text between two offsets. -/
def slice? (s : Text) (i j : Nat) : Option Text :=
  if i ≤ j then do
    let t ← sliceFrom? s i
    (cut? (j - i) t).map Prod.fst
  else none

/-- The octets between two offsets. -/
def octets? (b : Text) (i j : Nat) : Option Text :=
  if i ≤ j ∧ j ≤ b.length then some ((b.take j).drop i) else none

/-- The octets from an offset on. -/
def octetsFrom? (b : Text) (i : Nat) : Option Text := octets? b i b.length

/-- A part of a text that begins after its first octet is shorter. -/
theorem length_lt_of_cut? {i : Nat} {s t u : Text} (h : cut? i s = some (t, u)) (hi : 0 < i) :
    u.length < s.length := by
  fun_induction cut? i s generalizing t u with
  | case1 => cases hi
  | case2 | case4 => cases h
  | case3 i c s hle ih =>
    obtain ⟨⟨t', u'⟩, hcut, heq⟩ := Option.map_eq_some_iff.1 h
    obtain ⟨rfl, rfl⟩ := Prod.mk.inj heq
    by_cases hrest : i + 1 - c.utf8Size = 0
    · rw [hrest, cut?] at hcut
      cases hcut
      exact Nat.lt_succ_self _
    · exact Nat.lt_succ_of_lt (ih hcut (Nat.pos_of_ne_zero hrest))

theorem length_lt_of_sliceFrom? {i : Nat} {s t : Text} (h : sliceFrom? s (i + 1) = some t) :
    t.length < s.length := by
  obtain ⟨⟨u, t'⟩, hcut, rfl⟩ := Option.map_eq_some_iff.1 h
  exact length_lt_of_cut? hcut (Nat.succ_pos i)

/-! ## loops -/

/-- An offset further on in so many octets.  A loop that is carried on from offset to offset goes on
at such an offset only: at any other, it might not end. -/
def IsOnward (length pos next : Nat) : Prop := pos < next ∧ next ≤ length

instance (length pos next : Nat) : Decidable (IsOnward length pos next) :=
  inferInstanceAs (Decidable (_ ∧ _))

/-- There is less to pass from an offset further on. -/
theorem IsOnward.sub_lt {length pos next : Nat} (h : IsOnward length pos next) :
    length - next < length - pos := by
  obtain ⟨hlt, hle⟩ := h
  omega

/-! ## searches -/

/-- The offsets of all octets of a class, the first octet being at `i`. -/
def allFrom (p : Char → Bool) (i : Nat) : Text → List Nat
  | [] => []
  | x :: b => if p x then i :: allFrom p (i + 1) b else allFrom p (i + 1) b

/-- The offset of the first place where some octets stand. -/
def findOctets? (w : Text) : Text → Option Nat
  | [] => if w = [] then some 0 else none
  | x :: b => if w.isPrefixOf (x :: b) then some 0 else (findOctets? w b).map (· + 1)

/-- The offset of the first character of a class. -/
def find? (p : Char → Bool) : Text → Option Nat
  | [] => none
  | c :: s => if p c then some 0 else (find? p s).map (· + c.utf8Size)

/-- The offset of the last character of a class. -/
def findLast? (p : Char → Bool) : Text → Option Nat
  | [] => none
  | c :: s =>
    match findLast? p s with
    | some i => some (i + c.utf8Size)
    | none => if p c then some 0 else none

end Bibliography.Offset
