import Bibliography.Parse.Entry

/-!
# Bibliography.Parse.Block

Reading one block from its `@`.  A block that could not be understood is kept
from the `@` to its balanced closing bracket, if that comes after the failure
and before the next `@` at the start of a line, else to that `@`, else to the
end of the input; so nothing that was read is given back.
-/

namespace Bibliography

/-- A block that was read, what was found about it, and the text after it. -/
structure BlockRead where
  block : Block
  causes : List Cause
  rest : Text

namespace Cursor

/-- The end of a block that failed at a place, its body beginning at `c`. -/
def verbatimEnd (d : Delimiter) (c failed : Cursor) : Cursor :=
  let limit := if failed.atLineBlock then failed else failed.toLineBlock
  let body := c.after.take (limit.before.length - c.before.length)
  match Scan.balanced d.opening d.closing body with
  | .closed t _ =>
    if failed.before.length ≤ c.before.length + t.length then
      c.past (c.after.take (t.length + 1)) (c.after.drop (t.length + 1))
    else limit
  | _ => limit

/-- The block that ends here, the cursor having begun at its `@`. -/
def blockRead (command : Text) (d : Delimiter) (body : Body) (causes : List Cause) (c : Cursor) :
    BlockRead :=
  ⟨{ command, delimiter := d, body, source := some c.before.reverse }, causes, c.after⟩

/-- Read the payload of a comment, preamble or string definition. -/
def payloadBlock (kind : BlockKind) (command : Text) (d : Delimiter) (c : Cursor) : BlockRead :=
  match Scan.payload d c.after with
  | .closed t rest =>
    (c.past (t ++ [d.closing]) rest).blockRead command d (.ofPayload kind { text := t }) []
  | .unclosed braces parens =>
    c.atEnd.blockRead command d (.ofPayload kind ⟨c.after, braces, parens⟩)
      [.unclosedPayload command]

/-- The finding about an entry without a citation key. -/
def keyCauses (command : Text) (e : Entry) : List Cause :=
  if e.key = none ∧ e.fields ≠ [] then [.missingKey command] else []

/-- Read the body of an entry. -/
def entryBlock (command : Text) (d : Delimiter) (c : Cursor) : BlockRead :=
  match c.entry d.closing with
  | .closed e stop => stop.blockRead command d (.entry e) (keyCauses command e)
  | .unclosed e place =>
    place.blockRead command d (.entry e)
      (keyCauses command e ++ [.unclosedEntry (place.after = [])])
  | .malformed reason place =>
    let stop := c.verbatimEnd d place
    stop.blockRead command d (.verbatim stop.before.reverse) [.malformed command reason]

end Cursor

/-- Read the block that follows an `@`; an `@` without a command and an opening
bracket after it begins none. -/
def Block.read? (s : Text) : Option BlockRead :=
  let command := s.takeWhile Scan.isCommandChar
  let c := ((⟨['@'], s⟩ : Cursor).skip Scan.isCommandChar).skipBlank
  if command = [] then none
  else match c.after with
    | [] => none
    | x :: r => (Delimiter.ofOpening? x).map fun d =>
      match BlockKind.ofCommand command with
      | .entry => (c.past [x] r).entryBlock command d
      | kind => (c.past [x] r).payloadBlock kind command d

/-! ## the source and the rest are the text -/

namespace Cursor

theorem leads_toLineBlock (c : Cursor) : c.Leads c.toLineBlock := by
  refine leads_past ?_
  suffices h : ∀ s : Text, s = Scan.untilLineBlock s ++ s.drop (Scan.untilLineBlock s).length from
    h c.after
  intro s
  fun_induction Scan.untilLineBlock s with
  | case1 => rfl
  | case2 => rfl
  | case3 x s _ ih => simpa using ih

theorem leads_verbatimEnd {d : Delimiter} {c failed : Cursor} (h : c.Leads failed) :
    c.Leads (c.verbatimEnd d failed) := by
  have hl : c.Leads (if failed.atLineBlock then failed else failed.toLineBlock) := by
    split
    · exact h
    · exact h.trans (leads_toLineBlock _)
  unfold verbatimEnd
  dsimp only
  split
  · split
    · exact leads_past (by simp)
    · exact hl
  · exact hl

theorem leads_payloadBlock (kind : BlockKind) (command : Text) (d : Delimiter) (c : Cursor) :
    ∃ p : Cursor, c.Leads p ∧ (c.payloadBlock kind command d).block.source = some p.before.reverse ∧
      (c.payloadBlock kind command d).rest = p.after := by
  unfold payloadBlock
  split
  · next t rest h =>
    exact ⟨_, leads_past (by simp [Scan.eq_of_payload_closed h]), rfl, rfl⟩
  · exact ⟨_, leads_atEnd c, rfl, rfl⟩

theorem leads_entryBlock (command : Text) (d : Delimiter) (c : Cursor) :
    ∃ p : Cursor, c.Leads p ∧ (c.entryBlock command d).block.source = some p.before.reverse ∧
      (c.entryBlock command d).rest = p.after := by
  have hc := leads_entry d.closing c
  unfold entryBlock
  split
  · next h =>
    rw [h] at hc
    exact ⟨_, hc, rfl, rfl⟩
  · next h =>
    rw [h] at hc
    exact ⟨_, hc, rfl, rfl⟩
  · next h =>
    rw [h] at hc
    exact ⟨_, leads_verbatimEnd hc, rfl, rfl⟩

end Cursor

/-- The source of a block and the text after it are the text from the `@` on. -/
theorem Block.source_append_rest {s : Text} {b : BlockRead} (h : Block.read? s = some b) :
    ∃ t, b.block.source = some ('@' :: t) ∧ t ++ b.rest = s := by
  unfold Block.read? at h
  dsimp only at h
  split at h
  · cases h
  · split at h
    · cases h
    · next x r hx =>
      obtain ⟨d, -, hb⟩ := Option.map_eq_some_iff.1 h
      let c : Cursor := ⟨['@'], s⟩
      have hlead : c.Leads (((c.skip Scan.isCommandChar).skipBlank).past [x] r) :=
        (Cursor.leads_skip _ _).trans ((Cursor.leads_skipBlank _).trans
          (Cursor.leads_past (by simp [c, hx])))
      have key : ∃ p : Cursor, c.Leads p ∧ b.block.source = some p.before.reverse ∧
          b.rest = p.after := by
        rw [← hb]
        split
        · obtain ⟨p, h1, h2, h3⟩ := Cursor.leads_entryBlock (s.takeWhile Scan.isCommandChar) d
            (((c.skip Scan.isCommandChar).skipBlank).past [x] r)
          exact ⟨p, hlead.trans h1, h2, h3⟩
        · obtain ⟨p, h1, h2, h3⟩ := Cursor.leads_payloadBlock
            (BlockKind.ofCommand (s.takeWhile Scan.isCommandChar)) (s.takeWhile Scan.isCommandChar) d
            (((c.skip Scan.isCommandChar).skipBlank).past [x] r)
          exact ⟨p, hlead.trans h1, h2, h3⟩
      obtain ⟨p, ⟨t, ht, hp⟩, hsource, hrest⟩ := key
      exact ⟨t, by simp [hsource, hp, c], by rw [hrest]; exact ht.symm⟩

/-- The text after a block is no longer than the text after its `@`. -/
theorem Block.length_rest_le {s : Text} {b : BlockRead} (h : Block.read? s = some b) :
    b.rest.length ≤ s.length := by
  obtain ⟨t, -, rfl⟩ := Block.source_append_rest h
  simp

end Bibliography
