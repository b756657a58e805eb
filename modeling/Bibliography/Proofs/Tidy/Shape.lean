import Bibliography.Proofs.Parse.Lookahead
import Bibliography.Proofs.Render.Relayout
import Bibliography.Proofs.Text.Split
import Bibliography.Proofs.Tidy.Changes

/-!
# Bibliography.Proofs.Tidy.Shape

Commentary in shape stays in shape.  The lines of free text are trimmed at their
ends, and trimmed lines that are joined are the lines that they are split into;
so there is nothing more to trim.  A comment has no white space at the ends of
its payload any more.  What is written for it is read again, also if it has no
closing bracket, provided that it ends the text.

* `Node.tidyText_tidyText`, `Node.tidy_tidy` — a node in shape;
* `Node.endsLine_iff` — the question whether a node ends a line is put to its
  text;
* `Block.exists_reads_tidied` — a comment in shape is read again.
-/

namespace Bibliography

/-! ## lines -/

namespace Text

variable {p : Char → Bool} {c d : Char} {ws : List Text}

theorem joinWith_eq_intercalate (sep : Text) (ws : List Text) :
    joinWith sep ws = sep.intercalate ws := by
  induction ws with
  | nil => rfl
  | cons w ws ih =>
      cases ws with
      | nil => simp [joinWith, List.intercalate]
      | cons v ws => simp [joinWith, ih, List.intercalate]

/-- Lines that are joined are split into the lines. -/
theorem lines_joinWith (hne : ws ≠ []) (h : ∀ w ∈ ws, '\n' ∉ w) :
    lines (joinWith ['\n'] ws) = ws := by
  rw [lines, splitWhere_eq_splitOnP, joinWith_eq_intercalate]
  exact List.splitOn_intercalate '\n' h hne

/-- The first character of lines that are trimmed at their ends is the first before, if it is not
trimmed. -/
theorem head?_joinWith_trimEnd (hc : p c = false) (hd : p d = true)
    (h : (joinWith [d] ws).head? = some c) :
    (joinWith [d] (ws.map (trimEnd p))).head? = some c := by
  have hcd : d ≠ c := by
    rintro rfl
    simp [hc] at hd
  have hhead (w : Text) (h : w.head? = some c) : (trimEnd p w).head? = some c := by
    obtain ⟨w, rfl⟩ := List.head?_eq_some_iff.1 h
    rw [trimEnd_cons hc]
    rfl
  cases ws with
  | nil => cases h
  | cons w ws =>
      cases ws with
      | nil => exact hhead w h
      | cons v ws =>
          cases w with
          | nil => simp [joinWith, hcd] at h
          | cons x w =>
              have hx := hhead (x :: w) (by simpa [joinWith] using h)
              simp [joinWith, hx]

/-- So is the last. -/
theorem getLast?_joinWith_trimEnd (hc : p c = false) (hd : p d = true)
    (h : (joinWith [d] ws).getLast? = some c) :
    (joinWith [d] (ws.map (trimEnd p))).getLast? = some c := by
  have hcd : d ≠ c := by
    rintro rfl
    simp [hc] at hd
  induction ws with
  | nil => cases h
  | cons w ws ih =>
      cases ws with
      | nil =>
          have hw : Stops p w.reverse := by
            intro x hx
            have hxc : w.reverse.head? = some c := by rw [List.head?_reverse]; exact h
            rw [hxc] at hx
            cases hx
            exact hc
          rw [List.map_singleton, joinWith, trimEnd_eq_self hw]
          exact h
      | cons v ws =>
          rw [joinWith, List.getLast?_append] at h
          rw [List.map_cons, List.map_cons, joinWith, List.getLast?_append, ← List.map_cons]
          cases hr : (joinWith [d] (v :: ws)).getLast? with
          | none => simp [hr, hcd] at h
          | some y =>
              rw [hr, Option.some_or] at h
              rw [ih (hr.trans h), Option.some_or]

end Text

/-! ## free text -/

namespace Node

variable {t : Text}

/-- The lines of free text in shape. -/
def shaped (t : Text) : Text :=
  Text.joinWith ['\n'] ((Text.lines (Text.trim Text.isBlank t)).map (Text.trimEnd Text.isBlank))

theorem tidyText_eq (onNewLine : Bool) (t : Text) :
    tidyText onNewLine t = (if onNewLine then [] else ['\n']) ++ shaped t ++ ['\n'] := rfl

theorem head?_shaped {c : Char} (hc : Text.isBlank c = false)
    (h : (Text.trim Text.isBlank t).head? = some c) : (shaped t).head? = some c := by
  refine Text.head?_joinWith_trimEnd hc rfl ?_
  rw [Text.lines, Text.joinWith_splitWhere, h]

theorem getLast?_shaped {c : Char} (hc : Text.isBlank c = false)
    (h : (Text.trim Text.isBlank t).getLast? = some c) : (shaped t).getLast? = some c := by
  refine Text.getLast?_joinWith_trimEnd hc rfl ?_
  rw [Text.lines, Text.joinWith_splitWhere, h]

/-- Text in shape is found again between the ends of lines. -/
theorem trim_tidyText (onNewLine : Bool) (h : Text.trim Text.isBlank t ≠ []) :
    Text.trim Text.isBlank (tidyText onNewLine t) = shaped t := by
  obtain ⟨c, hc⟩ := Option.ne_none_iff_exists'.1 (mt List.head?_eq_none_iff.1 h)
  obtain ⟨e, he⟩ := Option.ne_none_iff_exists'.1 (mt List.getLast?_eq_none_iff.1 h)
  have hcblank : Text.isBlank c = false := Text.stops_trim _ t c hc
  have heblank : Text.isBlank e = false :=
    Text.stops_reverse_trimEnd Text.isBlank _ e (by rw [List.head?_reverse]; exact he)
  have hfirst := head?_shaped hcblank hc
  have hlast := getLast?_shaped heblank he
  have hline : ∀ x ∈ ['\n'], Text.isBlank x = true := by simp [Text.isBlank]
  rw [tidyText_eq]
  refine Text.trim_append ?_ hline (fun hnil => by simp [hnil] at hfirst) ?_ ?_
  · split
    · exact List.forall_mem_nil _
    · exact hline
  · intro x hx
    rw [hfirst] at hx
    cases hx
    exact hcblank
  · intro x hx
    rw [List.head?_reverse, hlast] at hx
    cases hx
    exact heblank

/-- **Text in shape stays in shape.** -/
theorem tidyText_tidyText (onNewLine : Bool) (h : Text.trim Text.isBlank t ≠ []) :
    tidyText onNewLine (tidyText onNewLine t) = tidyText onNewLine t := by
  have hlines : Text.lines (shaped t) =
      (Text.lines (Text.trim Text.isBlank t)).map (Text.trimEnd Text.isBlank) := by
    refine Text.lines_joinWith (by simp [Text.lines, Text.splitWhere_ne_nil]) fun w hw hmem => ?_
    obtain ⟨v, hv, rfl⟩ := List.mem_map.1 hw
    obtain ⟨u, hu, -⟩ := Text.exists_trimEnd Text.isBlank v
    have hfalse := Text.eq_false_of_mem_splitWhere hv '\n' (hu ▸ List.mem_append_left u hmem)
    simp at hfalse
  have hshaped : shaped (tidyText onNewLine t) = shaped t := by
    rw [shaped, trim_tidyText onNewLine h, hlines, List.map_map]
    unfold shaped
    congr 2
    funext w
    exact Text.trimEnd_eq_self (Text.stops_reverse_trimEnd _ w)
  rw [tidyText_eq onNewLine (tidyText onNewLine t), hshaped, ← tidyText_eq]

/-- An `@` at the start of a line stays there. -/
theorem head?_tidyText (h : t.head? = some '@') : (tidyText true t).head? = some '@' := by
  obtain ⟨t, rfl⟩ := List.head?_eq_some_iff.1 h
  have hat : Text.isBlank '@' = false := rfl
  have htrim : (Text.trim Text.isBlank ('@' :: t)).head? = some '@' := by
    rw [Text.trim, Text.trimStart_eq_self hat, Text.trimEnd_cons hat]
    rfl
  simp [tidyText_eq, List.head?_append, head?_shaped hat htrim]

end Node

/-! ## comments -/

/-- White space at the ends of a payload makes no difference to what is open at its end. -/
theorem Scan.payload_strip {d : Delimiter} {t : Text} {braces parens : Nat}
    (h : payload d t = .unclosed braces parens) : payload d t.strip = .unclosed braces parens := by
  obtain ⟨u, w, ht, hu, hw⟩ := Text.exists_trim Unicode.isWhiteSpace t
  rw [payload, ht, List.append_assoc, payloadFrom_of_white hu] at h
  have hstrip := payloadFrom_unclosed hw (List.forall_mem_nil _) h
  rwa [List.append_nil] at hstrip

theorem Body.ofPayload_eq_comment_iff {kind : BlockKind} {p q : Payload} :
    Body.ofPayload kind p = .comment q ↔ kind = .comment ∧ p = q := by
  cases kind <;> simp [Body.ofPayload]

namespace Block

variable {b : Block} {p : Payload} {s : Text}

/-- A comment without white space at the ends of its payload. -/
def tidied (b : Block) (p : Payload) : Block :=
  { b with body := .comment { p with text := p.text.strip }, source := none }

theorem IsWellFormed.tidied (h : b.IsWellFormed) (hbody : b.body = .comment p) :
    (b.tidied p).IsWellFormed := by
  obtain ⟨hcommand, hkind, hclosed⟩ := h
  rw [hbody] at hkind hclosed
  exact ⟨hcommand, hkind, Payload.IsWellFormed.strip hclosed⟩

theorem IsUnfinished.tidied (h : b.IsUnfinished) (hbody : b.body = .comment p) :
    (b.tidied p).IsUnfinished := by
  obtain ⟨hcommand, kind, q, hkind, hne, hq, hopen⟩ := h
  obtain ⟨rfl, rfl⟩ := Body.ofPayload_eq_comment_iff.1 (hq.symm.trans hbody)
  exact ⟨hcommand, .comment, { q with text := q.text.strip }, hkind, hne, rfl,
    Scan.payload_strip hopen⟩

/-- A comment that was read has its closing bracket, or lacks it. -/
theorem isWellFormed_or_isUnfinished {r : BlockRead} (hread : read? s = some r)
    (hbody : r.block.body = .comment p) : r.block.IsWellFormed ∨ r.block.IsUnfinished := by
  by_cases hclean : r.IsClean
  · exact .inl (isWellFormed_of_read? hread hclean)
  obtain ⟨hne, d, c, -, rfl⟩ := read?_eq_some_iff.1 hread
  refine .inr ⟨?_, ?_⟩
  · rw [(Cursor.command_blockBody _ d c).1]
    exact Text.isRun_takeWhile hne
  rw [(Cursor.command_blockBody _ d c).1, (Cursor.command_blockBody _ d c).2]
  generalize s.takeWhile Scan.isCommandChar = command at hbody hclean
  by_cases hkind : BlockKind.ofCommand command = .entry
  · rw [Cursor.blockBody_of_entry hkind, Cursor.entryBlock] at hbody
    split at hbody <;> cases hbody
  · refine ⟨_, p, rfl, hkind, ?_⟩
    rw [Cursor.blockBody_of_ne_entry rfl hkind, Cursor.payloadBlock] at hbody hclean ⊢
    cases hp : Scan.payload d c.after with
    | closed t rest =>
        rw [hp] at hclean
        exact absurd (List.forall_mem_nil _) hclean
    | unclosed n m =>
        rw [hp] at hbody
        obtain ⟨-, rfl⟩ := Body.ofPayload_eq_comment_iff.1 hbody
        exact ⟨rfl, hp⟩

end Block

/-! ## nodes -/

namespace Node

/-- A node that has its text as its source. -/
def sourced : Node → Node
  | text t => text t
  | block b => block { b with source := some (block b).preserved }

@[simp] theorem preserved_sourced (n : Node) : n.sourced.preserved = n.preserved := by
  cases n <;> rfl

@[simp] theorem isText_sourced (n : Node) : n.sourced.isText = n.isText := by
  cases n <;> rfl

@[simp] theorem isDropped_sourced (afterDropped : Bool) (n : Node) :
    n.sourced.isDropped afterDropped = n.isDropped afterDropped := by
  cases n <;> rfl

/-- A node that has a source has its text as its source. -/
theorem sourced_of_source {b : Block} {t : Text} (h : b.source = some t) :
    (block b).sourced = block b := by
  obtain ⟨command, d, body, source⟩ := b
  obtain rfl : source = some t := h
  rfl

theorem getLast?_append_opening {d : Delimiter} {a t : Text} (h : t.getLast? ≠ some '\n') :
    (a ++ d.opening :: t).getLast? ≠ some '\n' := by
  have hopening : d.opening ≠ '\n' := by cases d <;> decide
  rw [List.getLast?_append, List.getLast?_cons, Option.some_or]
  cases ht : t.getLast? with
  | none => simpa using hopening
  | some x => simpa [ht] using h

/-- **A node ends a line** exactly if its text does: what is laid out for a block ends with its
closing bracket, or without white space. -/
theorem endsLine_iff (n : Node) : n.endsLine = true ↔ n.preserved.getLast? = some '\n' := by
  cases n with
  | text t => simp [endsLine, preserved]
  | block b =>
      obtain ⟨command, d, body, source⟩ := b
      cases source with
      | some s => simp [endsLine, preserved]
      | none =>
          have hclosing : d.closing ≠ '\n' := by cases d <;> decide
          have hstrip (t : Text) : t.stripEnd.getLast? ≠ some '\n' := by
            intro ht
            rw [← List.head?_reverse] at ht
            have hwhite := Text.stops_reverse_trimEnd Unicode.isWhiteSpace t _ ht
            exact absurd (Unicode.isWhiteSpace_of_isBlank (c := '\n') rfl) (by simp [hwhite])
          have hpayload (p : Payload) :
              (({} : Layout).payload command d p).getLast? ≠ some '\n' := by
            refine getLast?_append_opening ?_
            split
            · simpa using hclosing
            · exact hstrip p.text
          cases body with
          | verbatim t => simp [endsLine, preserved, Layout.block]
          | entry e =>
              have hentry : (({} : Layout).entry command d e).getLast? = some d.closing := by
                rw [Layout.entry]
                exact List.getLast?_concat
              simp [endsLine, preserved, Layout.block, hentry, hclosing]
          | comment p | preamble p | stringDef p =>
              simpa [endsLine, preserved, Layout.block] using hpayload p

/-- What was written is on a line as before. -/
@[simp] theorem endsLine_sourced (n : Node) : n.sourced.endsLine = n.endsLine := by
  rw [Bool.eq_iff_iff, endsLine_iff, endsLine_iff, preserved_sourced]

theorem tidy_of_snd_eq_false {b : Block} (h : (tidyComment b).2 = false) (onNewLine : Bool) :
    ((block b).tidy onNewLine).1 = block b :=
  congrArg block (Block.edit_eq_self keeps_tidyComment.isHonest h)

/-- A block that is in shape, or a comment that is not. -/
theorem tidy_block (onNewLine : Bool) (b : Block) :
    (tidyComment b).2 = false ∨
      ∃ p, b.body = .comment p ∧ ((block b).tidy onNewLine).1 = block (b.tidied p) := by
  obtain ⟨command, d, body, source⟩ := b
  cases body with
  | comment p =>
      by_cases hstrip : p.text.strip = p.text
      · exact .inl (by simp [tidyComment, hstrip])
      · refine .inr ⟨p, rfl, ?_⟩
        simp [tidy, editBlock, Block.edit, tidyComment, hstrip, Block.tidied]
  | _ => exact .inl rfl

/-- **A node in shape stays in shape** where it is read again. -/
theorem tidy_tidy (onNewLine : Bool) (n : Node) :
    ((n.tidy onNewLine).1.sourced.tidy onNewLine).1 = (n.tidy onNewLine).1.sourced := by
  cases n with
  | text t =>
      rw [tidy]
      split
      · next hblank => rw [sourced, tidy, if_pos hblank]
      · next hne =>
        rw [sourced, tidy]
        split
        · rfl
        · rw [tidyText_tidyText onNewLine hne]
  | block b =>
      obtain hsame | ⟨p, -, htidied⟩ := tidy_block onNewLine b
      · rw [tidy_of_snd_eq_false hsame]
        refine tidy_of_snd_eq_false ?_ onNewLine
        obtain ⟨command, d, body, source⟩ := b
        cases body <;> exact hsame
      · rw [htidied]
        exact tidy_of_snd_eq_false (by simp [tidyComment, Block.tidied, Text.strip]) onNewLine

/-- What stays when commentary is removed is in shape. -/
theorem tidy_of_not_isDropped {n : Node} (h : n.isDropped false = false) (onNewLine : Bool) :
    (n.tidy onNewLine).1 = n := by
  cases n with
  | text t =>
      have hblank : Text.trim Text.isBlank t = [] := by simpa [isDropped] using h
      rw [tidy, if_pos hblank]
  | block b =>
      refine tidy_of_snd_eq_false ?_ onNewLine
      obtain ⟨command, d, body, source⟩ := b
      cases body with
      | comment p => cases h
      | _ => rfl

/-- The block in a node, unless it is a comment. -/
def solid? (n : Node) : Option Block := n.block?.filter fun b => !b.isComment

theorem solid?_of_isComment {b : Block} (h : b.isComment = true) : (block b).solid? = none := by
  simp [solid?, block?, h]

/-- A block that is no comment stays as it is. -/
theorem solid?_tidy {n : Node} (h : n.sourced = n) (onNewLine : Bool) :
    (n.tidy onNewLine).1.sourced.solid? = n.solid? := by
  cases n with
  | text t =>
      rw [tidy]
      split <;> rfl
  | block b =>
      obtain hsame | ⟨p, hp, htidied⟩ := tidy_block onNewLine b
      · rw [tidy_of_snd_eq_false hsame, h]
      · have hcomment : b.isComment = true := by simp [Block.isComment, hp]
        rw [htidied, sourced, solid?_of_isComment rfl, solid?_of_isComment hcomment]

end Node

/-- **A comment in shape is read from what is written for it**, at the end of the text if it has no
closing bracket. -/
theorem Block.exists_reads_tidied {s rest : Text} {r : BlockRead} {p : Payload}
    (hread : read? s = some r) (hbody : r.block.body = .comment p)
    (hrest : r.rest = [] → rest = []) :
    ∃ t, (Node.block (r.block.tidied p)).preserved = '@' :: t ∧
      { r.block.tidied p with source := some ('@' :: t) }.ReadsAs t rest := by
  obtain hwf | hopen := isWellFormed_or_isUnfinished hread hbody
  · obtain ⟨t, ht, hread⟩ := read?_default (hwf.tidied hbody) rest
    exact ⟨t, ht, _, hread⟩
  · obtain rfl : rest = [] := hrest (rest_eq_nil_of_isUnfinished hread hopen)
    obtain ⟨t, kind, q, ht, -, hq, -, hread⟩ :=
      read?_unfinished {} (hopen.tidied hbody) (List.forall_mem_nil _)
    obtain ⟨rfl, rfl⟩ := Body.ofPayload_eq_comment_iff.1 (Eq.symm hq)
    have hstrip : p.text.strip.stripEnd ++ [] = p.text.strip := by
      rw [List.append_nil]
      exact Text.trimEnd_eq_self (Text.stops_reverse_trimEnd _ _)
    simp only [hstrip, List.append_nil] at hread
    exact ⟨t, ht, _, by rw [List.append_nil]; exact hread⟩

end Bibliography
