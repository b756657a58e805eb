import Bibliography.Json.Reader

/-!
# Bibliography.Json.Record

Reading records.  A record is written as an object, whose members are known by
their names and may be left out, or as an array, whose items are the members in
their fixed order and which may stop early.  Members of other names are passed
over; a member must not be given twice.
-/

namespace Bibliography.Json

/-- A member of the records of a type: reading it gives an update. -/
structure Member (σ : Type) where
  name : String
  /-- Another name that is accepted. -/
  otherName : Option String
  read : Reader (σ → σ)

namespace Member

/-- Whether the member has a name. -/
def isNamed {σ : Type} (m : Member σ) (name : Text) : Bool :=
  m.name.toList = name || m.otherName.any fun a => a.toList = name

end Member

namespace Record

/-- A key of an object, which a token begins. -/
def key (t : Token) (ts : List Token) : ReadResult (Option Text) :=
  match t with
  | .text content => content.map fun s => (some s, ts)
  | .broken true read _ => .error read
  | _ => .error .malformed

/-- The next key of an object, or none at its end. -/
def nextKey (isFirst : Bool) : List Token → ReadResult (Option Text)
  | [] => .error .ended
  | .closeObject :: ts => .ok (none, ts)
  | t :: ts =>
    if isFirst then key t ts
    else match t, ts with
      | .comma, [] => .error .ended
      | .comma, t :: ts => key t ts
      | _, _ => .error .malformed

/-- Whether an array has a next item, which then begins the tokens. -/
def nextItem (isFirst : Bool) : List Token → ReadResult Bool
  | [] => .error .ended
  | .closeArray :: ts => .ok (false, ts)
  | t :: ts =>
    if isFirst then .ok (true, t :: ts)
    else match t, ts with
      | .comma, [] => .error .ended
      | .comma, .closeArray :: _ => .error .malformed
      | .comma, ts => .ok (true, ts)
      | _, _ => .error .malformed

/-- The end of an array with all its items. -/
def endArray : List Token → Except Fault (List Token)
  | [] => .error .ended
  | .closeArray :: ts => .ok ts
  | _ :: _ => .error .malformed

theorem length_of_key {t : Token} {ts rest : List Token} {k : Option Text}
    (h : key t ts = .ok (k, rest)) : rest = ts := by
  unfold key at h
  split at h
  · next content =>
    cases content with
    | error => cases h
    | ok => cases h; rfl
  · cases h
  · cases h

theorem length_of_nextKey {isFirst : Bool} {ts rest : List Token} {k : Option Text}
    (h : nextKey isFirst ts = .ok (k, rest)) : rest.length < ts.length := by
  unfold nextKey at h
  split at h
  · cases h
  · cases h
    exact Nat.lt_succ_self _
  · split at h
    · cases length_of_key h
      exact Nat.lt_succ_self _
    · split at h
      · cases h
      · cases length_of_key h
        simp only [List.length_cons]
        omega
      · cases h

variable {σ : Type}

/-- How the member of a name is read, and the names that are used up then. -/
def memberNamed (ms : List (Member σ)) (seen : List String) (name : Text) :
    Except Fault (Reader (σ → σ) × List String) :=
  match ms.find? (·.isNamed name) with
  | none => .ok (Reader.skip.map fun _ => id, seen)
  | some m => if m.name ∈ seen then .error .mismatch else .ok (m.read, m.name :: seen)

/-- Read the members of an object; `seen` has the names of those before. -/
def readMembers (ms : List (Member σ)) (seen : List String) (isFirst : Bool) (s : σ)
    (ts : List Token) : ReadResult σ :=
  match _ : nextKey isFirst ts with
  | .error f => .error f
  | .ok (none, rest) => .ok (s, rest)
  | .ok (some name, rest) =>
    match memberNamed ms seen name with
    | .error f => .error f
    | .ok (r, seen) =>
      match _ : r.afterColon.run rest with
      | .error f => .error f
      | .ok (update, rest) => readMembers ms seen false (update s) rest
termination_by ts.length
decreasing_by exact Nat.lt_trans (Reader.consumes _ ‹_›) (length_of_nextKey ‹_›)

/-- Read the items of an array. -/
def readItems (isFirst : Bool) (s : σ) (ts : List Token) : List (Member σ) → ReadResult σ
  | [] => (endArray ts).map (s, ·)
  | m :: ms =>
    match nextItem isFirst ts with
    | .error f => .error f
    | .ok (false, rest) => .ok (s, rest)
    | .ok (true, rest) =>
      match m.read.run rest with
      | .error f => .error f
      | .ok (update, rest) => readItems false (update s) rest ms

/-- Read a record; members that are not given are as in `default`. -/
def read (ms : List (Member σ)) (default : σ) : List Token → ReadResult σ
  | [] => .error .ended
  | .openObject :: ts => readMembers ms [] true default ts
  | .openArray :: ts => readItems true default ts ms
  | t :: _ => .error t.mismatch

/-- Read a text that holds one record and no more. -/
def parse (ms : List (Member σ)) (default : σ) (s : Text) : Except Fault σ :=
  match read ms default (tokens s) with
  | .error f => .error f
  | .ok (a, []) => .ok a
  | .ok (_, _ :: _) => .error .malformed

end Record

end Bibliography.Json
