import Bibliography.Proofs.Parse.Verbatim
import Bibliography.Proofs.Render.FreeText
import Bibliography.Proofs.Render.RoundTrip
import Bibliography.Proofs.Tidy.Passes

/-!
# Bibliography.Proofs.Render.Relayout

Reading what a layout has written for a document.  A layout writes a block anew,
or, if it could not be understood, without the white space at its end.  It trims
free text, and puts a blank line between what is left.  So the text between two
blocks of the output is a trimmed text of the document between line feeds, or
line feeds alone; either is inert, and no block is lost to it or gained from it.

`Layout.Rereads` says which nodes are read as which pieces, where white space
counts for nothing, and `Layout.Recut` that the output is cut into such pieces,
at its start and after a text that waits for the next block.  There is a lemma
for each kind of node, and `Layout.recut_of_cut` puts them together, by induction
over the pieces of the input.
-/

namespace Bibliography

/-! ## payloads without an end -/

/-- White space at the end of a text is replaced. -/
theorem Text.stripEnd_append {w : Text} (hw : ∀ x ∈ w, Unicode.isWhiteSpace x = true) (s : Text) :
    (s.stripEnd ++ w).stripEnd = s.stripEnd := by
  unfold stripEnd
  rw [trimEnd_append hw, trimEnd_eq_self (stops_reverse_trimEnd _ _)]

namespace Scan

variable {d : Delimiter} {n braces parens : Nat} {s w v : Text}

/-- White space at the start of a text makes no difference to what is open at its end. -/
theorem payloadFrom_of_white (hw : ∀ x ∈ w, Unicode.isWhiteSpace x = true) :
    payloadFrom d n (w ++ s) = .unclosed braces parens ↔
      payloadFrom d n s = .unclosed braces parens := by
  induction w with
  | nil => rfl
  | cons c w ih =>
      obtain ⟨hc, hw⟩ := List.forall_mem_cons.1 hw
      rw [List.cons_append, payloadFrom_cons _ (payload?_of_isWhiteSpace hc d n),
        cons_eq_unclosed_iff, ih hw]

/-- Nor does it at the end. -/
theorem payloadFrom_unclosed (hw : ∀ x ∈ w, Unicode.isWhiteSpace x = true)
    (hv : ∀ x ∈ v, Unicode.isWhiteSpace x = true)
    (h : payloadFrom d n (s ++ w) = .unclosed braces parens) :
    payloadFrom d n (s ++ v) = .unclosed braces parens := by
  induction s generalizing n with
  | nil =>
      rw [List.nil_append, ← List.append_nil w, payloadFrom_of_white hw] at h
      rw [List.nil_append, ← List.append_nil v, payloadFrom_of_white hv, h]
  | cons c s ih =>
      rw [List.cons_append] at h ⊢
      cases hc : payload? d n c with
      | none =>
          obtain ⟨rfl, rfl⟩ := payload?_eq_none_iff.1 hc
          have hclosed : payloadFrom d 0 (d.closing :: (s ++ w)) = .closed [] (s ++ w) :=
            payloadFrom_eq_closed_iff.2 ⟨rfl, rfl⟩
          rw [hclosed] at h
          cases h
      | some m =>
          rw [payloadFrom_cons _ hc, cons_eq_unclosed_iff] at h ⊢
          exact ih h

end Scan

/-! ## blocks -/

/-- A comment, preamble or definition that has no closing bracket. -/
structure Block.IsUnfinished (b : Block) : Prop where
  command : Text.IsRun Scan.isCommandChar b.command
  body : ∃ kind p, BlockKind.ofCommand b.command = kind ∧ kind ≠ .entry ∧
    b.body = .ofPayload kind p ∧ Scan.payload b.delimiter p.text = .unclosed p.braces p.parens

/-- A block that could not be understood, kept verbatim up to its last blanks. -/
def Block.IsKept (b : Block) : Prop :=
  ∃ t, b.body = .verbatim t ∧ Text.trimEnd Text.isBlank t = t.stripEnd

/-- **A block without a closing bracket is read again** at the end of a text, and with white space
after it: the white space at the end of its payload is replaced. -/
theorem Block.read?_unfinished (l : Layout) {b : Block} (h : b.IsUnfinished) {v : Text}
    (hv : ∀ x ∈ v, Unicode.isWhiteSpace x = true) :
    ∃ s kind p, l.block b = '@' :: s ∧ kind ≠ .entry ∧ b.body = .ofPayload kind p ∧
      p.isClosed = false ∧ read? (s ++ v) = some
        ⟨⟨l.spelling b.command, b.delimiter,
            .ofPayload kind { p with text := p.text.stripEnd ++ v }, some ('@' :: (s ++ v))⟩,
          [.unclosedPayload (l.spelling b.command)], []⟩ := by
  obtain ⟨hcommand, kind, p, hkind, hne, hbody, hopen⟩ := h
  obtain ⟨command, d, body, source⟩ := b
  dsimp only at hcommand hkind hbody hopen
  subst hbody
  have hclosed : p.isClosed = false := by
    have hne := Scan.ne_zero_of_unclosed hopen
    unfold Payload.isClosed
    grind
  have hblock : l.block ⟨command, d, .ofPayload kind p, source⟩ =
      '@' :: (l.spelling command ++ d.opening :: p.text.stripEnd) := by
    have hpayload : l.payload command d p =
        '@' :: (l.spelling command ++ d.opening :: p.text.stripEnd) := by
      rw [Layout.payload, if_neg (by simp [hclosed])]
      rfl
    rw [← hpayload]
    cases kind with
    | entry => exact absurd rfl hne
    | comment | preamble | stringDef => rfl
  obtain ⟨w, htext, hw⟩ := Text.exists_trimEnd Unicode.isWhiteSpace p.text
  have hend : Scan.payload d (p.text.stripEnd ++ v) = .unclosed p.braces p.parens := by
    unfold Scan.payload at hopen ⊢
    rw [htext] at hopen
    exact Scan.payloadFrom_unclosed hw hv hopen
  obtain ⟨c, hafter, -, hread⟩ :=
    exists_blockBody (l.isRun_command hcommand) d (p.text.stripEnd ++ v)
  have hbody : c.blockBody (l.spelling command) d =
      c.payloadBlock kind (l.spelling command) d :=
    Cursor.blockBody_of_ne_entry ((l.ofCommand_spelling command).trans hkind) hne
  have hpayload : c.payloadBlock kind (l.spelling command) d = c.atEnd.blockRead
      (l.spelling command) d (.ofPayload kind { p with text := p.text.stripEnd ++ v })
      [.unclosedPayload (l.spelling command)] := by
    rw [Cursor.payloadBlock, hafter, hend]
  rw [hbody, hpayload, Cursor.blockRead, Cursor.atEnd, Cursor.after_past, ← List.cons_append,
    ← List.append_assoc] at hread
  refine ⟨_, kind, p, hblock, hne, rfl, hclosed, ?_⟩
  -- Nothing is left, so that the source is all that was read.
  obtain ⟨t, hsource, ht⟩ := source_append_rest hread
  rw [List.append_nil] at ht
  rw [hread, ← ht]
  exact congrArg (fun s => some (BlockRead.mk ⟨_, _, _, s⟩ _ _)) hsource

/-- A block without a closing bracket is read up to the end of the text. -/
theorem Block.rest_eq_nil_of_isUnfinished {s : Text} {r : BlockRead} (h : read? s = some r)
    (hb : r.block.IsUnfinished) : r.rest = [] := by
  obtain ⟨-, d, c, -, rfl⟩ := read?_eq_some_iff.1 h
  generalize s.takeWhile Scan.isCommandChar = command at hb ⊢
  obtain ⟨-, kind, p, hkind, hne, hbody, hopen⟩ := hb
  obtain ⟨hcommand, hdelimiter⟩ := Cursor.command_blockBody command d c
  rw [hcommand] at hkind
  rw [hdelimiter] at hopen
  rw [Cursor.blockBody_of_ne_entry hkind hne, Cursor.payloadBlock] at hbody ⊢
  cases hp : Scan.payload d c.after with
  | unclosed n m => rfl
  | closed t rest =>
      rw [hp] at hbody
      have hbody : Body.ofPayload kind { text := t } = Body.ofPayload kind p := hbody
      obtain rfl : { text := t } = p := by
        cases kind with
        | entry => exact absurd rfl hne
        | comment | preamble | stringDef => simpa [Body.ofPayload] using hbody
      have hzero := Scan.ne_zero_of_unclosed hopen
      simp at hzero

namespace Layout

/-- A block and what is read where a layout has written it, with what is found about that. -/
inductive RereadsBlock (l : Layout) : Block → Block → List Cause → Prop where
  | written {b : Block} {body : Body} (source : Option Text) : b.IsWellFormed →
      l.SetsBody b.body body →
      RereadsBlock l b ⟨l.spelling b.command, b.delimiter, body, source⟩ (Block.writtenCauses l b)
  | unfinished {command : Text} {d : Delimiter} {kind : BlockKind} {p : Payload} {t : Text}
      (source source' : Option Text) (causes : List Cause) : kind ≠ .entry → p.isClosed = false →
      t.stripEnd = p.text.stripEnd →
      RereadsBlock l ⟨command, d, .ofPayload kind p, source⟩
        ⟨l.spelling command, d, .ofPayload kind { p with text := t }, source'⟩ causes
  | kept {b : Block} {t u : Text} (causes : List Cause) : b.body = .verbatim t →
      u.stripEnd = t.stripEnd → RereadsBlock l b (b.keep u) causes

/-- Nodes and the pieces that are read where a layout has written them.  Texts that are nothing but
white space are left out on both sides. -/
inductive Rereads (l : Layout) (tidyComments : Bool) : List Node → List Piece → Prop where
  | nil : Rereads l tidyComments [] []
  | text {t u : Text} {ns : List Node} {ps : List Piece} :
      trimText tidyComments t = trimText tidyComments u → Rereads l tidyComments ns ps →
      Rereads l tidyComments (.text t :: ns) (.text u :: ps)
  | dropped {t : Text} {ns : List Node} {ps : List Piece} :
      trimText tidyComments t = [] → Rereads l tidyComments ns ps →
      Rereads l tidyComments (.text t :: ns) ps
  | added {u : Text} {ns : List Node} {ps : List Piece} :
      trimText tidyComments u = [] → Rereads l tidyComments ns ps →
      Rereads l tidyComments ns (.text u :: ps)
  | block {b b' : Block} {causes : List Cause} {ns : List Node} {ps : List Piece} :
      RereadsBlock l b b' causes → Rereads l tidyComments ns ps →
      Rereads l tidyComments (.block b :: ns) (.block b' causes :: ps)

namespace Rereads

variable {l : Layout} {tidyComments : Bool} {t u : Text} {ns : List Node} {ps : List Piece}

/-- A text can be replaced by one that is trimmed to the same. -/
theorem retext (h : Rereads l tidyComments (.text t :: ns) ps)
    (htu : trimText tidyComments t = trimText tidyComments u) :
    Rereads l tidyComments (.text u :: ns) ps := by
  generalize hms : Node.text t :: ns = ms at h
  induction h with
  | nil => cases hms
  | text heq h =>
      cases hms
      exact .text (htu.symm.trans heq) h
  | dropped hnil h =>
      cases hms
      exact .dropped (htu.symm.trans hnil) h
  | added hnil _ ih => exact .added hnil (ih hms)
  | block _ _ => cases hms

/-- White space can be left out. -/
theorem untext (h : Rereads l tidyComments (.text t :: ns) ps) (ht : trimText tidyComments t = []) :
    Rereads l tidyComments ns ps := by
  generalize hms : Node.text t :: ns = ms at h
  induction h with
  | nil => cases hms
  | text heq h =>
      cases hms
      exact .added (heq.symm.trans ht) h
  | dropped hnil h =>
      cases hms
      exact h
  | added hnil _ ih => exact .added hnil (ih hms)
  | block _ _ => cases hms

end Rereads

/-! ## nodes -/

variable {l : Layout} {tidyComments : Bool}

/-- A layout sets a field so that it is read as a field: no bare token with white space is wrapped,
and no name that begins with an `@` begins a line. -/
structure Sets (l : Layout) (width : Nat) (f : Field) : Prop where
  value : l.value (l.valueColumn width f.name) f.value = f.value.written ∨ f.value.IsSolid
  line : l.indent ≠ .spaces 0 ∨ (l.spelling f.name).head? ≠ some '@'

instance (l : Layout) (width : Nat) (f : Field) : Decidable (l.Sets width f) :=
  decidable_of_iff
    ((l.value (l.valueColumn width f.name) f.value = f.value.written ∨ f.value.IsSolid) ∧
      (l.indent ≠ .spaces 0 ∨ (l.spelling f.name).head? ≠ some '@'))
    ⟨fun h => ⟨h.1, h.2⟩, fun h => ⟨h.value, h.line⟩⟩

/-- A layout sets the fields of a block so that they are read as its fields. -/
def SetsBlock (l : Layout) (b : Block) : Prop :=
  ∀ e, b.body = .entry e → ∀ f ∈ e.fields, l.Sets (l.nameWidth (e.fields.map Field.name)) f

theorem setsBlock_of_wrap (hwrap : l.wrap = none) (hindent : l.indent ≠ .spaces 0) (b : Block) :
    l.SetsBlock b := fun _ _ _ _ => ⟨.inl (by rw [Layout.value, hwrap]), .inl hindent⟩

theorem valueColumn_pos (l : Layout) (width : Nat) (name : Text) :
    0 < l.valueColumn width name := by
  simp [valueColumn, equals]

theorem exists_setsAs {width : Nat} {fs : List Field} (hfs : ∀ f ∈ fs, f.IsWellFormed)
    (h : ∀ f ∈ fs, l.Sets width f) : ∃ gs, List.Forall₂ (l.SetsAs width) fs gs := by
  induction fs with
  | nil => exact ⟨[], .nil⟩
  | cons f fs ih =>
      obtain ⟨hf, hfs⟩ := List.forall_mem_cons.1 hfs
      obtain ⟨hsets, h⟩ := List.forall_mem_cons.1 h
      obtain ⟨v, hv, -⟩ :=
        l.exists_spelled_value (l.valueColumn_pos width f.name) hf.value hsets.value
      obtain ⟨gs, hgs⟩ := ih hfs h
      exact ⟨⟨l.spelling f.name, v⟩ :: gs, .cons ⟨rfl, hv, hsets.line⟩ hgs⟩

/-- What a layout sets is read as something. -/
theorem exists_setsBody {b : Block} (hb : b.IsWellFormed) (h : l.SetsBlock b) :
    ∃ body, l.SetsBody b.body body := by
  obtain ⟨command, d, body, source⟩ := b
  have hbody := hb.body
  cases body with
  | comment p => exact ⟨_, .comment p⟩
  | preamble p => exact ⟨_, .preamble p⟩
  | stringDef p => exact ⟨_, .stringDef p⟩
  | verbatim t => exact absurd hbody id
  | entry e =>
      obtain ⟨gs, hgs⟩ := exists_setsAs (Entry.IsWellFormed.fields hbody) (h e rfl)
      exact ⟨_, .entry hgs⟩

/-- A node that a layout writes so that it is read again. -/
def SetsNode (l : Layout) : Node → Prop
  | .text t => Inert t
  | .block b => b.IsWellFormed ∧ l.SetsBlock b ∨ b.IsUnfinished ∨ b.IsKept

/-- The pieces after the first, each after a blank line, and the end of the last line. -/
def more (ps : List Text) : Text := ps.flatMap (blockSeparator ++ ·) ++ ['\n']

/-- Pieces as they are written. -/
def written : List Text → Text
  | [] => []
  | p :: ps => p ++ more ps

theorem document_eq (l : Layout) (tidyComments : Bool) (d : Document) :
    l.document tidyComments d = written (d.present.filterMap (l.piece tidyComments)) := by
  have hpieces : (d.items.filterMap fun p => l.piece tidyComments p.2) =
      d.present.filterMap (l.piece tidyComments) := by
    rw [← Document.map_snd_items, List.filterMap_map]
    rfl
  have hjoin (p : Text) (ps : List Text) :
      Text.joinWith blockSeparator (p :: ps) ++ ['\n'] = p ++ more ps := by
    induction ps generalizing p with
    | nil => rfl
    | cons q ps ih =>
      rw [Text.joinWith, List.append_assoc, ih]
      simp [more]
  unfold document
  rw [← hpieces]
  cases d.items.filterMap fun p => l.piece tidyComments p.2 with
  | nil => rfl
  | cons p ps => exact hjoin p ps

/-- A well-formed block becomes a piece of its own. -/
theorem piece_block {b : Block} (h : b.IsWellFormed) :
    l.piece tidyComments (.block b) = some (l.block b) := by
  have hbody := h.body
  unfold piece
  dsimp only
  split
  · next t hb =>
    rw [hb] at hbody
    exact absurd hbody id
  · rfl

/-- A block that is kept verbatim becomes its text, without the white space at its end. -/
theorem piece_verbatim {b : Block} {t : Text} (h : b.body = .verbatim t) :
    l.piece tidyComments (.block b) = if t.stripEnd = [] then none else some t.stripEnd := by
  obtain ⟨command, d, body, source⟩ := b
  cases h
  rfl

/-- A block without a closing bracket is read again where the output ends with it. -/
theorem exists_unfinished (l : Layout) (tidyComments : Bool) {b : Block} (h : b.IsUnfinished) :
    ∃ s b' causes, l.piece tidyComments (.block b) = some ('@' :: s) ∧
      Block.read? (s ++ ['\n']) = some ⟨b', causes, []⟩ ∧ l.RereadsBlock b b' causes := by
  have hline : ∀ x ∈ ['\n'], Unicode.isWhiteSpace x = true := by
    simp only [List.mem_singleton, forall_eq]
    decide
  obtain ⟨s, kind, p, hs, hne, hbody, hclosed, hread⟩ := Block.read?_unfinished l h hline
  obtain ⟨command, d, body, source⟩ := b
  dsimp only at hbody
  subst hbody
  have hpiece : l.piece tidyComments (.block ⟨command, d, .ofPayload kind p, source⟩) =
      some (l.block ⟨command, d, .ofPayload kind p, source⟩) := by
    cases kind with
    | entry => exact absurd rfl hne
    | comment | preamble | stringDef => rfl
  exact ⟨s, _, _, hpiece.trans (congrArg some hs), hread,
    .unfinished source _ _ hne hclosed (Text.stripEnd_append hline p.text)⟩

/-! ## cutting the output -/

theorem eq_line_separator : ∀ x ∈ blockSeparator, x = '\n' := by
  simp [blockSeparator]

theorem isBlank_separator : ∀ x ∈ blockSeparator, Text.isBlank x = true := by
  intro x hx
  rw [eq_line_separator x hx]
  decide

theorem isBlank_line : ∀ x ∈ ['\n'], Text.isBlank x = true := by
  intro x hx
  rw [List.mem_singleton.1 hx]
  decide

theorem isWhiteSpace_of_blanks {w : Text} (hw : ∀ x ∈ w, Text.isBlank x = true) :
    ∀ x ∈ w, Unicode.isWhiteSpace x = true :=
  fun x hx => Unicode.isWhiteSpace_of_isBlank (hw x hx)

/-- Line feeds after free text do not matter. -/
theorem inert_append_lines {t w : Text} (ht : Inert t) (hw : ∀ x ∈ w, Text.isBlank x = true) :
    Inert (t ++ w) := by
  unfold Inert at ht ⊢
  rw [Opening.run_append]
  generalize Opening.outside.run t = q at ht
  induction w generalizing q with
  | nil => exact ht
  | cons x w ih =>
      obtain ⟨hx, hw⟩ := List.forall_mem_cons.1 hw
      rw [Opening.run_cons, Opening.after_of_isBlank hx]
      exact ih hw _ (mt Opening.afterBlank_eq_opened_iff.1 ht)

theorem cut_text {t rest : Text} {ps : List Piece} (hne : t ≠ []) (ht : Inert t)
    (hfollows : Follows rest) (hhead : ∀ p ∈ ps.head?, p.isText = false)
    (h : Piece.Cut rest ps) : Piece.Cut (t ++ rest) (.text t :: ps) :=
  .text hne ((isFree_iff_inert hfollows t).2 ht) hhead h

/-- What was written for nodes is cut into them, at the start of the output and after a text that
waits for the next block.  That text is empty, or the next node is no text. -/
structure Recut (l : Layout) (tidyComments : Bool) (ns : List Node) : Prop where
  first : ∃ ps, Piece.Cut (written (ns.filterMap (l.piece tidyComments))) ps ∧
    Rereads l tidyComments ns ps
  next : ∀ t, Inert t → (t = [] ∨ ∀ n ∈ ns.head?, n.isText = false) →
    ∃ ps, Piece.Cut (t ++ more (ns.filterMap (l.piece tidyComments))) ps ∧
      Rereads l tidyComments (.text t :: ns) ps

theorem recut_nil : Recut l tidyComments [] where
  first := ⟨[], .nil, .nil⟩
  next t ht _ := by
    have hcut := cut_text (t := t ++ ['\n']) (by simp) (inert_append_lines ht isBlank_line)
      (.inl rfl) (by simp) .nil
    rw [List.append_nil] at hcut
    exact ⟨_, hcut, .text (trimText_append (isWhiteSpace_of_blanks isBlank_line)).symm .nil⟩

/-- A text is found again, after a blank line if another piece stands before it. -/
theorem Recut.text {u : Text} {ns : List Node} (h : Recut l tidyComments ns) (hu : Inert u)
    (hhead : ∀ n ∈ ns.head?, n.isText = false) : Recut l tidyComments (.text u :: ns) := by
  have hempty : trimText tidyComments [] = [] :=
    trimText_of_white tidyComments (List.forall_mem_nil _)
  by_cases hnil : trimText tidyComments u = []
  · have hpieces : (Node.text u :: ns).filterMap (l.piece tidyComments) =
        ns.filterMap (l.piece tidyComments) :=
      List.filterMap_cons_none (by rw [piece_text, if_pos hnil])
    refine ⟨?_, fun t ht hnext => ?_⟩
    · obtain ⟨ps, hcut, hps⟩ := h.first
      exact ⟨ps, by rwa [hpieces], .dropped hnil hps⟩
    · -- Nothing waits in front of a text.
      obtain rfl : t = [] := hnext.resolve_right fun h => by simpa [Node.isText] using h _ rfl
      obtain ⟨ps, hcut, hps⟩ := h.next [] ht (.inl rfl)
      exact ⟨ps, by rwa [hpieces], .dropped hempty (hps.retext (hempty.trans hnil.symm))⟩
  · have hpieces : (Node.text u :: ns).filterMap (l.piece tidyComments) =
        trimText tidyComments u :: ns.filterMap (l.piece tidyComments) :=
      List.filterMap_cons_some (by rw [piece_text, if_neg hnil])
    refine ⟨?_, fun t ht hnext => ?_⟩
    · obtain ⟨ps, hcut, hps⟩ := h.next _ (inert_trimText tidyComments hu) (.inr hhead)
      rw [hpieces]
      exact ⟨ps, hcut, hps.retext (trimText_trimText (a := []) (List.forall_mem_nil _))⟩
    · obtain rfl : t = [] := hnext.resolve_right fun h => by simpa [Node.isText] using h _ rfl
      -- The text waits in turn, after a blank line.
      have hinert : Inert (blockSeparator ++ trimText tidyComments u) := by
        unfold Inert
        rw [Opening.run_append, Opening.run_outside_blanks isBlank_separator]
        exact inert_trimText tidyComments hu
      obtain ⟨ps, hcut, hps⟩ := h.next _ hinert (.inr hhead)
      refine ⟨ps, ?_, .dropped hempty (hps.retext (trimText_trimText eq_line_separator))⟩
      rw [hpieces]
      simpa [more] using hcut

/-- A block that is read in front of what was written for the nodes after it is found again. -/
theorem Recut.block {b b' : Block} {causes : List Cause} {s rest : Text} {ns : List Node}
    {ps : List Piece} (hpiece : l.piece tidyComments (.block b) = some ('@' :: s))
    (hread : Block.read? (s ++ more (ns.filterMap (l.piece tidyComments))) =
      some ⟨b', causes, rest⟩)
    (hb : l.RereadsBlock b b' causes) (hcut : Piece.Cut rest ps)
    (hps : Rereads l tidyComments ns ps) : Recut l tidyComments (.block b :: ns) := by
  have hcut' := Piece.Cut.block hread hcut
  have hpieces : (Node.block b :: ns).filterMap (l.piece tidyComments) =
      ('@' :: s) :: ns.filterMap (l.piece tidyComments) := List.filterMap_cons_some hpiece
  refine ⟨⟨_, by rwa [hpieces], .block hb hps⟩, fun t ht _ => ?_⟩
  -- The text that waits ends in front of the block, the blank line with it.
  have hseparated := cut_text (t := t ++ blockSeparator) (by simp [blockSeparator])
    (inert_append_lines ht isBlank_separator) (.inr rfl) (by simp [Piece.isText]) hcut'
  have hwhite := isWhiteSpace_of_blanks isBlank_separator
  refine ⟨_, ?_, .text (trimText_append hwhite).symm (.block hb hps)⟩
  rw [hpieces]
  simpa [more] using hseparated

/-- After a block, nothing waits. -/
theorem Recut.exists_cut_more {ns : List Node} (h : Recut l tidyComments ns) :
    ∃ ps, Piece.Cut (more (ns.filterMap (l.piece tidyComments))) ps ∧
      Rereads l tidyComments ns ps := by
  obtain ⟨ps, hcut, hps⟩ := h.next [] Opening.noConfusion (.inl rfl)
  exact ⟨ps, hcut, hps.untext (trimText_of_white tidyComments (List.forall_mem_nil _))⟩

/-- What is written after a piece is a gap and what is written without the piece. -/
theorem exists_more (ps : List Text) : ∃ v, more ps = v ++ written ps ∧
    (∀ x ∈ v, Text.isBlank x = true) ∧ v.reverse.head? = some '\n' := by
  cases ps with
  | nil => exact ⟨['\n'], rfl, isBlank_line, rfl⟩
  | cons p ps => exact ⟨blockSeparator, by simp [more, written], isBlank_separator, rfl⟩

/-- A block that was read is written with its `@` first. -/
theorem exists_piece (l : Layout) (tidyComments : Bool) {s : Text} {r : BlockRead}
    (hread : Block.read? s = some r) :
    ∃ t, l.piece tidyComments (.block r.block) = some ('@' :: t) := by
  cases hbody : r.block.body with
  | comment p | preamble p | stringDef p | entry e =>
      simp [piece, Layout.block, Layout.payload, Layout.entry, Layout.command, hbody]
  | verbatim t =>
      obtain ⟨t', hsource, -⟩ := Block.source_append_rest hread
      obtain rfl : t = '@' :: t' :=
        Option.some.inj ((Block.source_of_verbatim hread hbody).symm.trans hsource)
      have hstrip : Text.stripEnd ('@' :: t') = '@' :: Text.stripEnd t' :=
        Text.trimEnd_cons (by decide) t'
      exact ⟨Text.stripEnd t', by rw [piece_verbatim hbody, hstrip, if_neg (List.cons_ne_nil _ _)]⟩

/-- What was read at an `@` is written with an `@` first. -/
theorem head?_written {s : Text} {ps : List Piece} (h : Piece.Cut s ps) (hs : s.head? = some '@') :
    (written ((ps.map Piece.node).filterMap (l.piece tidyComments))).head? = some '@' := by
  cases h with
  | nil => cases hs
  | block hread _ =>
      obtain ⟨t, ht⟩ := exists_piece l tidyComments hread
      rw [List.map_cons, Piece.node, List.filterMap_cons_some ht]
      rfl
  | @text t _ _ hne _ _ _ =>
      rw [List.head?_append_of_ne_nil _ hne] at hs
      have hhead := head?_trimText tidyComments (by decide) hs
      have hnil : trimText tidyComments t ≠ [] := fun hnil => by simp [hnil] at hhead
      rw [List.map_cons, Piece.node, List.filterMap_cons_some (by rw [piece_text, if_neg hnil]),
        written, List.head?_append_of_ne_nil _ hnil, hhead]

/-- A block that is kept verbatim is what a layout writes for it, and blanks. -/
theorem exists_kept {s : Text} {r : BlockRead} (hread : Block.read? s = some r)
    (hkept : r.block.IsKept) :
    ∃ t w, s = t ++ (w ++ r.rest) ∧ r.block.body = .verbatim ('@' :: (t ++ w)) ∧
      (∀ x ∈ w, Text.isBlank x = true) ∧
      ∀ v, (∀ x ∈ v, Text.isBlank x = true) → Text.stripEnd ('@' :: (t ++ v)) = '@' :: t := by
  obtain ⟨u, hbody, htrim⟩ := hkept
  obtain ⟨u', hsource, rfl⟩ := Block.source_append_rest hread
  obtain rfl : u = '@' :: u' :=
    Option.some.inj ((Block.source_of_verbatim hread hbody).symm.trans hsource)
  obtain ⟨w, hu', hw⟩ := Text.exists_trimEnd Text.isBlank u'
  rw [Text.trimEnd_cons rfl] at htrim
  refine ⟨Text.trimEnd Text.isBlank u', w, ?_, ?_, hw, fun v hv => ?_⟩
  · rw [← List.append_assoc, ← hu']
  · rw [← hu', hbody]
  · rw [← List.cons_append, Text.stripEnd, Text.trimEnd_append (isWhiteSpace_of_blanks hv), htrim]
    exact Text.trimEnd_eq_self (Text.stops_reverse_trimEnd _ _)

/-- **A block that was kept verbatim is found again.** -/
theorem recut_of_isKept {s : Text} {r : BlockRead} {ps : List Piece}
    (hread : Block.read? s = some r) (hcut : Piece.Cut r.rest ps) (hkept : r.block.IsKept)
    (h : Recut l tidyComments (ps.map Piece.node)) :
    Recut l tidyComments (.block r.block :: ps.map Piece.node) := by
  obtain ⟨t, w, rfl, hbody, hw, hstrip⟩ := exists_kept hread hkept
  have hpiece : l.piece tidyComments (.block r.block) = some ('@' :: t) := by
    rw [piece_verbatim hbody, hstrip w hw, if_neg (List.cons_ne_nil _ _)]
  obtain ⟨rfl, hkeep⟩ | ⟨hrest, hkeep⟩ := Block.read?_kept hread hbody rfl hw
  · obtain ⟨qs, hcut', hqs⟩ := h.exists_cut_more
    exact .block hpiece (hkeep _) (.kept _ hbody (by simp)) hcut' hqs
  · obtain ⟨v, hmore, hv, hline⟩ :=
      exists_more ((ps.map Piece.node).filterMap (l.piece tidyComments))
    have hends : EndsLine v (written ((ps.map Piece.node).filterMap (l.piece tidyComments))) := by
      refine ⟨hv, hrest.imp (fun hnil => ?_) fun hat => ⟨head?_written hcut hat.1, hline⟩⟩
      rw [hnil] at hcut
      rw [hcut.eq_nil]
      rfl
    have hread' := hkeep v _ hends
    rw [← hmore] at hread'
    obtain ⟨qs, hcut', hqs⟩ := h.first
    have hkept' := (hstrip v hv).trans (hstrip w hw).symm
    exact .block hpiece hread' (.kept _ hbody hkept') hcut' hqs

/-- **The output of a layout is cut** into the nodes that it was written for. -/
theorem recut_of_cut {s : Text} {ps : List Piece} (h : Piece.Cut s ps)
    (hps : ∀ p ∈ ps, l.SetsNode p.node) : Recut l tidyComments (ps.map Piece.node) := by
  induction h with
  | nil => exact recut_nil
  | @text t rest ps _ _ hhead _ ih =>
      obtain ⟨ht, hps⟩ := List.forall_mem_cons.1 hps
      refine (ih hps).text ht fun n hn => ?_
      rw [List.head?_map] at hn
      obtain ⟨p, hp, rfl⟩ := Option.map_eq_some_iff.1 hn
      rw [Piece.isText_node]
      exact hhead p hp
  | @block s r ps hread hcut ih =>
      obtain ⟨hb, hps⟩ := List.forall_mem_cons.1 hps
      have hrecut := ih hps
      obtain ⟨hwf, hsets⟩ | hunfinished | hkept := hb
      · obtain ⟨body, hbody⟩ := exists_setsBody hwf hsets
        obtain ⟨s, hs, hread⟩ := Block.read?_written hwf hbody
          (more ((ps.map Piece.node).filterMap (l.piece tidyComments)))
        obtain ⟨qs, hcut, hqs⟩ := hrecut.exists_cut_more
        exact .block (by rw [piece_block hwf, hs]) hread (.written _ hwf hbody) hcut hqs
      · -- Nothing follows it.
        rw [Block.rest_eq_nil_of_isUnfinished hread hunfinished] at hcut
        obtain rfl := hcut.eq_nil
        obtain ⟨s, b', causes, hpiece, hread, hb⟩ :=
          exists_unfinished l tidyComments hunfinished
        exact .block hpiece hread hb .nil .nil
      · exact recut_of_isKept hread hcut hkept hrecut

/-! ## documents -/

/-- **What a layout has written for a document** is cut into the nodes of the document. -/
theorem rereads_parse (l : Layout) (tidyComments : Bool) {s : Text}
    (hs : ∀ n ∈ (Document.parse s).1.present, l.SetsNode n) :
    Rereads l tidyComments (Document.parse s).1.present
      (Piece.ofText (l.document tidyComments (Document.parse s).1)) := by
  rw [Document.present_parse] at hs
  have hrecut : Recut l tidyComments ((Piece.ofText s).map Piece.node) :=
    recut_of_cut (Piece.cut_ofText s) fun p hp => hs _ (List.mem_map_of_mem hp)
  obtain ⟨ps, hcut, hps⟩ := hrecut.first
  rw [document_eq, Document.present_parse, Piece.ofText_eq_of_cut hcut]
  exact hps

/-- A well-formed block has its closing bracket. -/
theorem isClosed_of_isWellFormed {command : Text} {d : Delimiter} {kind : BlockKind} {p : Payload}
    {source : Option Text} (h : Block.IsWellFormed ⟨command, d, .ofPayload kind p, source⟩)
    (hne : kind ≠ .entry) : p.isClosed = true := by
  have hbody := h.body
  cases kind with
  | entry => exact absurd rfl hne
  | comment | preamble | stringDef => exact (Payload.isWellFormed_iff.1 hbody).1

/-- A layout that wraps nothing sets each field as it is, with its name spelled. -/
theorem eq_respellField {width : Nat} {fs gs : List Field} (hwrap : l.wrap = none)
    (hfs : ∀ f ∈ fs, f.IsWellFormed) (h : List.Forall₂ (l.SetsAs width) fs gs) :
    gs = fs.map l.respellField := by
  induction h with
  | nil => rfl
  | @cons f g fs gs hfg _ ih =>
      obtain ⟨hf, hfs⟩ := List.forall_mem_cons.1 hfs
      obtain ⟨name, value⟩ := g
      obtain ⟨rfl, hvalue, -⟩ := hfg
      rw [Layout.value, hwrap] at hvalue
      rw [List.map_cons, ih hfs, respellField,
        Cursor.eq_of_spelled (Value.spelled_written hf.value) hvalue]

theorem SetsBody.eq_respell {b : Block} {body : Body} (hwrap : l.wrap = none)
    (hb : b.IsWellFormed) (h : l.SetsBody b.body body) : body = (l.respell b).body.unmarked := by
  obtain ⟨command, d, body₀, source⟩ := b
  have hbody := hb.body
  cases h with
  | comment p | preamble p | stringDef p => rfl
  | entry hgs =>
      rw [eq_respellField hwrap (Entry.IsWellFormed.fields hbody) hgs]
      rfl

/-- Well-formed blocks are read again as a layout spells them. -/
theorem Rereads.content {ns : List Node} {ps : List Piece} (hwrap : l.wrap = none)
    (h : Rereads l tidyComments ns ps) (hns : ∀ b, .block b ∈ ns → b.IsWellFormed) :
    (ps.filterMap fun p => p.node.block?.map Block.content) =
        (ns.filterMap fun n => n.block?.map fun b => (l.respell b).content) ∧
      ∀ b causes, .block b causes ∈ ps → ∀ cause ∈ causes, cause.isRecovery = false := by
  induction h with
  | nil => simp
  | text _ _ ih | dropped _ _ ih | added _ _ ih =>
      simpa [Piece.node, Node.block?] using ih fun b hb => hns b (by simp [hb])
  | @block b b' causes ns ps hb _ ih =>
      obtain ⟨hblocks, hclean⟩ := ih fun c hc => hns c (List.mem_cons_of_mem _ hc)
      have hwf := hns b List.mem_cons_self
      cases hb with
      | unfinished _ _ _ hne hopen _ => simp [isClosed_of_isWellFormed hwf hne] at hopen
      | kept _ hbody _ =>
          have hwf' := hwf.body
          rw [hbody] at hwf'
          exact absurd hwf' id
      | @written _ body source _ hbody =>
          refine ⟨?_, fun c causes hc => ?_⟩
          · have hcontent : Block.content ⟨l.spelling b.command, b.delimiter, body, source⟩ =
                (l.respell b).content := by
              rw [hbody.eq_respell hwrap hwf]
              exact Block.content_unmarked (l.respell b) source
            simpa [Piece.node, Node.block?, hcontent] using hblocks
          · obtain hc | hc := List.mem_cons.1 hc
            · cases hc
              simp [Block.writtenCauses, Cause.isRecovery, Cause.code]
            · exact hclean c causes hc

/-- The nodes of a faithful document are written so that they are read again. -/
theorem setsNode_of_isFaithful (hwrap : l.wrap = none) (hindent : l.indent ≠ .spaces 0) {n : Node}
    (h : n.IsFaithful) : l.SetsNode n := by
  cases n with
  | text t => exact h.2
  | block b => exact .inl ⟨h.wellFormed, setsBlock_of_wrap hwrap hindent b⟩

end Layout

/-- **A layout keeps the content.**  If nothing in the input had to be recovered, the layout wraps
nothing and indents by a tab or some spaces, then what it writes is read as the blocks of the input,
in order, with their commands and names as the layout spells them, and again without recovery.
Sources do not count. -/
theorem reparse_layout {s : Text} {l : Layout} (tidyComments : Bool) (hclean : s.ReadsCleanly)
    (hwrap : l.wrap = none) (hindent : l.indent ≠ .spaces 0) :
    let out := (Document.parse s).1.render { layout := some l, tidyComments }
    (Document.parse out).1.blocks.map Block.content =
        (Document.parse s).1.blocks.map (fun b => (l.respell b).content) ∧
      out.ReadsCleanly := by
  intro out
  have hfaithful := Document.isFaithful_parse (Text.readsCleanly_iff.1 hclean)
  have hnodes : ∀ n ∈ (Document.parse s).1.present, n.IsFaithful :=
    fun n hn => hfaithful.nodes n (Document.mem_nodes_of_mem_present hn)
  have hwf : ∀ b, .block b ∈ (Document.parse s).1.present → b.IsWellFormed :=
    fun b hb => (hnodes _ hb).wellFormed
  have hrereads : l.Rereads tidyComments (Document.parse s).1.present (Piece.ofText out) :=
    Layout.rereads_parse l tidyComments fun n hn =>
      Layout.setsNode_of_isFaithful hwrap hindent (hnodes n hn)
  obtain ⟨hblocks, hcauses⟩ := hrereads.content hwrap hwf
  constructor
  · unfold Document.blocks
    rw [Document.present_parse out, List.map_filterMap, List.map_filterMap, List.filterMap_map]
    exact hblocks
  · rw [Text.readsCleanly_iff]
    exact Document.isRecovery_of_mem_parse hcauses

/-- Text that ends with a command, and a lone `@`, around two kinds of blocks. -/
theorem reparse_layout_aligned :
    let s : Text :=
      ("\n\u00a0 at @ 5 \n\n@MISC\x7bb, Title = \x7bA \x7bB\x7d\x7d,YEAR=1999 # \"x\",,\x7d " ++
        "see @misc\n@comment(a b)").toList
    let l : Layout :=
      { indent := .tab, align := some .auto, trailingCommas := true, lowercase := true }
    let out := (Document.parse s).1.render { layout := some l, tidyComments := true }
    s.ReadsCleanly ∧ l.wrap = none ∧ l.indent ≠ .spaces 0 ∧
      (Document.parse out).1.blocks.map Block.content =
        (Document.parse s).1.blocks.map (fun b => (l.respell b).content) ∧
      out.ReadsCleanly := by
  intro s l out
  have hclean : s.ReadsCleanly := by decide +kernel
  exact ⟨hclean, rfl, by decide, reparse_layout true hclean rfl (by decide)⟩

end Bibliography
