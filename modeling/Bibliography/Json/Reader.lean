import Bibliography.Json.Value

/-!
# Bibliography.Json.Reader

Readers of values of a known type.  A reader takes tokens from the front and
stops at the first fault.  It carries the proof that it takes at least one, so
a loop over readers ends.
-/

namespace Bibliography.Json

namespace Token

/-- The fault of a token where a value of another kind should begin. -/
def mismatch : Token → Fault
  | null | bool _ | openObject | openArray => .mismatch
  | text (.ok _) | number (.ok _) => .mismatch
  | text (.error f) | number (.error f) => f
  | broken _ read _ => read
  | comma | colon | closeObject | closeArray => .malformed

end Token

/-- What reading gives: a value and the tokens after it. -/
abbrev ReadResult (α : Type) := Except Fault (α × List Token)

/-- A reader of values of a type. -/
structure Reader (α : Type) where
  run : List Token → ReadResult α
  /-- A value takes at least one token. -/
  consumes : ∀ {ts rest : List Token} {a : α}, run ts = .ok (a, rest) → rest.length < ts.length

namespace Reader

/-- Read what is decided by one token. -/
def ofToken {α : Type} (f : Token → Except Fault α) : Reader α where
  run
    | [] => .error .ended
    | t :: ts => (f t).map (·, ts)
  consumes {ts rest a} h := by
    cases ts with
    | nil => cases h
    | cons t ts =>
      dsimp only at h
      cases hf : f t <;> rw [hf] at h
      · cases h
      · cases h
        exact Nat.lt_succ_self _

/-- A truth value. -/
def bool : Reader Bool := ofToken fun
  | .bool b => .ok b
  | t => .error t.mismatch

/-- A natural number that fits 64 bits. -/
def count : Reader Nat := ofToken fun
  | .number (.ok (some n)) => .ok n
  | t => .error t.mismatch

/-- Apply a function to what is read. -/
def map {α β : Type} (f : α → β) (r : Reader α) : Reader β where
  run ts := (r.run ts).map fun (a, rest) => (f a, rest)
  consumes {ts rest b} h := by
    cases hr : r.run ts <;> rw [hr] at h
    · cases h
    · cases h
      exact r.consumes hr

/-- A value or `null`. -/
def optional {α : Type} (r : Reader α) : Reader (Option α) where
  run
    | .null :: ts => .ok (none, ts)
    | ts => (r.map some).run ts
  consumes {ts rest a} h := by
    split at h
    · cases h
      exact Nat.lt_succ_self _
    · exact (r.map some).consumes h

/-- Any value with arrays and objects nested so deep, decoded afterwards. -/
def decoded {α : Type} (depth : Nat) (decode : Json → Option α) : Reader α where
  run ts :=
    match readValue ⟨true, depth⟩ [] (.value false) ts with
    | .error f => .error f
    | .ok (v, rest) =>
      match decode v with
      | some a => .ok (a, rest)
      | none => .error .mismatch
  consumes {ts rest a} h := by
    split at h
    · cases h
    · next hv =>
      split at h
      · cases h
        exact length_of_readValue hv
      · cases h

/-- Pass over a value. -/
def skip : Reader Json where
  run ts := readValue ⟨false, 0⟩ [] (.value false) ts
  consumes := length_of_readValue

/-- Read the texts of an array after its opening bracket; `separated` says that
a comma or the end must come next. -/
def textItems (separated : Bool) : List Token → ReadResult (List Text)
  | [] => .error .ended
  | t :: ts =>
    match separated, t with
    | true, .comma => textItems false ts
    | true, .closeArray => .ok ([], ts)
    | true, _ => .error .malformed
    | false, .text (.ok s) => (textItems true ts).map fun (ss, rest) => (s :: ss, rest)
    | false, t => .error t.mismatch

theorem length_of_textItems {separated : Bool} {ts rest : List Token} {ss : List Text}
    (h : textItems separated ts = .ok (ss, rest)) : rest.length < ts.length := by
  fun_induction textItems separated ts generalizing ss with
  | case1 | case4 | case6 => cases h
  | case2 _ ih => exact Nat.lt_succ_of_lt (ih h)
  | case3 =>
    cases h
    exact Nat.lt_succ_self _
  | case5 ts s ih =>
    cases hr : textItems true ts <;> rw [hr] at h
    · cases h
    · cases h
      exact Nat.lt_succ_of_lt (ih hr)

/-- An array of texts. -/
def texts : Reader (List Text) where
  run
    | .openArray :: .closeArray :: ts => .ok ([], ts)
    | .openArray :: ts => textItems false ts
    | [] => .error .ended
    | t :: _ => .error t.mismatch
  consumes {ts rest ss} h := by
    split at h
    · cases h
      simp only [List.length_cons]
      omega
    · exact Nat.lt_succ_of_lt (length_of_textItems h)
    · cases h
    · cases h

/-- A value after a colon. -/
def afterColon {α : Type} (r : Reader α) : Reader α where
  run
    | [] => .error .ended
    | .colon :: ts => r.run ts
    | _ => .error .malformed
  consumes {ts rest a} h := by
    split at h
    · cases h
    · exact Nat.lt_succ_of_lt (r.consumes h)
    · cases h

end Reader

end Bibliography.Json
