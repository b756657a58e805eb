import Bibliography.Proofs.Render.Relayout
import Bibliography.Proofs.Unicode.LowerCase

/-!
# Bibliography.Proofs.Render.FixedPoint

What a layout has written, read and laid out again.  Names that a layout has
spelled it spells the same again, and values that it has wrapped it wraps the
same again, so the fields, the blocks and the pieces of a document come out as
they were, and the output is a fixed point (`render_fixed`).

`Layout.Settles` says what is needed of a block.  A block that is kept verbatim
has nothing but blanks in the white space at its end.  Any other has values that
are understood up to their ends, the fields are set so that they are read as
fields, and lower case does not change the width to which names are padded.
Each condition is needed (`render_unclosed` and the examples after it).
-/

namespace Bibliography

namespace Layout

variable {l : Layout} {tidyComments : Bool}

/-! ## names and fields -/

@[simp] theorem spelling_spelling (l : Layout) (name : Text) :
    l.spelling (l.spelling name) = l.spelling name := by
  unfold spelling
  split
  · exact Text.toLower_toLower name
  · rfl

/-- A layout that has set a value sets it again where it is read. -/
theorem value_of_spelled {column : Nat} {v v' : Value} (hcolumn : 0 < column) (hv : v.IsClosed)
    (hl : l.value column v = v.written ∨ v.IsSolid) (h : v'.Spelled (l.value column v)) :
    l.value column v' = l.value column v := by
  obtain ⟨u, hu, hvalue⟩ := l.exists_spelled_value hcolumn hv hl
  rw [Cursor.eq_of_spelled h hu, hvalue]

/-- A field that is read where a layout has set one is set as that one. -/
theorem field_of_setsAs {width : Nat} {f g : Field} (hf : f.IsWellFormed) (hl : l.Sets width f)
    (h : l.SetsAs width f g) (last : Bool) : l.field width last g = l.field width last f := by
  have hname : l.fieldName width g.name = l.fieldName width f.name := by
    simp [fieldName, h.name]
  have hcolumn : l.valueColumn width g.name = l.valueColumn width f.name := by
    rw [valueColumn, hname, valueColumn]
  have hvalue := value_of_spelled (l.valueColumn_pos width f.name) hf.value hl.value h.value
  rw [field, hname, hcolumn, hvalue, field]

theorem fields_of_setsAs {width : Nat} {fs gs : List Field} (hfs : ∀ f ∈ fs, f.IsWellFormed)
    (hl : ∀ f ∈ fs, l.Sets width f) (h : List.Forall₂ (l.SetsAs width) fs gs) :
    l.fields width gs = l.fields width fs := by
  induction h with
  | nil => rfl
  | @cons f g fs gs hfg hrest ih =>
      obtain ⟨hf, hfs⟩ := List.forall_mem_cons.1 hfs
      obtain ⟨hsets, hl⟩ := List.forall_mem_cons.1 hl
      have htail := ih hfs hl
      cases hrest with
      | nil => exact field_of_setsAs hf hsets hfg true
      | cons _ _ => rw [fields, fields, field_of_setsAs hf hsets hfg, htail]

theorem names_of_setsAs {width : Nat} {fs gs : List Field}
    (h : List.Forall₂ (l.SetsAs width) fs gs) :
    gs.map Field.name = (fs.map Field.name).map l.spelling := by
  induction h with
  | nil => rfl
  | cons hfg _ ih => rw [List.map_cons, hfg.name, ih, List.map_cons, List.map_cons]

/-! ## blocks -/

/-- The names of a block are padded to the same width once the layout has spelled them. -/
def KeepsWidth (l : Layout) (b : Block) : Prop :=
  ∀ e, b.body = .entry e →
    l.nameWidth ((e.fields.map Field.name).map l.spelling) = l.nameWidth (e.fields.map Field.name)

/-- Without lower case every width is kept. -/
theorem keepsWidth_of_keeps (h : l.lowercase = false) (b : Block) : l.KeepsWidth b := by
  intro e _
  have hspelling (name : Text) : l.spelling name = name := by simp [spelling, h]
  rw [List.map_id'' hspelling]

/-- Unless names are padded to the longest, every width is kept. -/
theorem keepsWidth_of_align (h : l.align ≠ some .auto) (b : Block) : l.KeepsWidth b := by
  intro e _
  unfold nameWidth
  split
  · rfl
  · contradiction
  · rfl

/-- A block that a layout writes so that it is read again, and written the same again. -/
structure Settles (l : Layout) (b : Block) : Prop where
  node : l.SetsNode (.block b)
  width : l.KeepsWidth b

/-- An entry that is read where a layout has set one is set as that one. -/
theorem entry_of_setsAs {e : Entry} {gs : List Field} (command : Text) (d : Delimiter)
    (he : e.IsWellFormed) (hl : ∀ f ∈ e.fields, l.Sets (l.nameWidth (e.fields.map Field.name)) f)
    (h : List.Forall₂ (l.SetsAs (l.nameWidth (e.fields.map Field.name))) e.fields gs)
    (hwidth : l.nameWidth ((e.fields.map Field.name).map l.spelling) =
      l.nameWidth (e.fields.map Field.name)) :
    l.entry (l.spelling command) d { e with fields := gs, duplicateOf := none } =
      l.entry command d e := by
  have hnil : gs = [] ↔ e.fields = [] := by
    rw [← List.length_eq_zero_iff, ← h.length_eq, List.length_eq_zero_iff]
  unfold entry
  dsimp only
  rw [names_of_setsAs h, hwidth, fields_of_setsAs he.fields hl h, Layout.command,
    spelling_spelling, ← Layout.command]
  simp only [hnil]

/-- A well-formed block settles because its fields are set. -/
theorem Settles.setsBlock {b : Block} (h : l.Settles b) (hb : b.IsWellFormed) : l.SetsBlock b := by
  obtain ⟨-, hsets⟩ | hunfinished | ⟨t, hbody, -⟩ := h.node
  · exact hsets
  · obtain ⟨-, kind, p, -, hne, hbody, -⟩ := hunfinished
    intro e he
    rw [hbody] at he
    cases kind <;> cases he
  · have hwf := hb.body
    rw [hbody] at hwf
    exact absurd hwf id

/-- **A block that was read again is written as before.** -/
theorem RereadsBlock.piece_eq {b b' : Block} {causes : List Cause}
    (h : l.RereadsBlock b b' causes) (tidyComments : Bool) (hb : l.Settles b) :
    l.piece tidyComments (.block b') = l.piece tidyComments (.block b) := by
  cases h with
  | written source hwf hbody =>
      have hsets := hb.setsBlock hwf
      obtain ⟨command, d, body, source'⟩ := b
      have hpayload (p : Payload) : l.payload (l.spelling command) d p = l.payload command d p := by
        rw [payload, Layout.command, spelling_spelling, payload, Layout.command]
      cases hbody with
      | comment p | preamble p | stringDef p => exact congrArg some (hpayload p)
      | @entry e gs hgs =>
          have hwidth := hb.width e rfl
          exact congrArg some (entry_of_setsAs command d hwf.body (hsets e rfl) hgs hwidth)
  | @unfinished command d kind p t source source' causes hne hopen ht =>
      have hclosed : ¬ Payload.isClosed { p with text := t } = true := by
        simpa [Payload.isClosed] using hopen
      have hpayload : l.payload (l.spelling command) d { p with text := t } =
          l.payload command d p := by
        rw [payload, payload, if_neg hclosed, if_neg (by simp [hopen]), ht, Layout.command,
          spelling_spelling, Layout.command]
      cases kind with
      | entry => contradiction
      | comment | preamble | stringDef => exact congrArg some hpayload
  | @kept _ t u _ hbody hstrip =>
      have hkeep : (b.keep u).body = .verbatim u := rfl
      rw [piece_verbatim hkeep, piece_verbatim hbody, hstrip]

/-! ## documents -/

/-- The pieces that were read are written as the nodes were. -/
theorem Rereads.filterMap_piece {ns : List Node} {ps : List Piece}
    (h : Rereads l tidyComments ns ps) (hns : ∀ b, .block b ∈ ns → l.Settles b) :
    (ps.map Piece.node).filterMap (l.piece tidyComments) =
      ns.filterMap (l.piece tidyComments) := by
  induction h with
  | nil => rfl
  | @text t u ns ps htu _ ih =>
      have hpiece : l.piece tidyComments (.text u) = l.piece tidyComments (.text t) := by
        rw [piece_text, piece_text, htu]
      have hps := ih fun b hb => hns b (List.mem_cons_of_mem _ hb)
      rw [List.map_cons, Piece.node, List.filterMap_cons, List.filterMap_cons, hpiece, hps]
  | dropped hnil _ ih =>
      rw [List.filterMap_cons_none (by rw [piece_text, if_pos hnil])]
      exact ih fun b hb => hns b (List.mem_cons_of_mem _ hb)
  | added hnil _ ih =>
      rw [List.map_cons, Piece.node, List.filterMap_cons_none (by rw [piece_text, if_pos hnil])]
      exact ih hns
  | block hb _ ih =>
      have hpiece := hb.piece_eq tidyComments (hns _ List.mem_cons_self)
      have hps := ih fun b hb => hns b (List.mem_cons_of_mem _ hb)
      rw [List.map_cons, Piece.node, List.filterMap_cons, List.filterMap_cons, hpiece, hps]

/-- **What a layout has written for a document** it writes again. -/
theorem document_reparse {s : Text} (hs : ∀ n ∈ (Document.parse s).1.present, l.SetsNode n)
    (hwidth : ∀ b, .block b ∈ (Document.parse s).1.present → l.KeepsWidth b) :
    let out := l.document tidyComments (Document.parse s).1
    l.document tidyComments (Document.parse out).1 = out := by
  intro out
  have hpieces := (rereads_parse l tidyComments hs).filterMap_piece fun b hb =>
    ⟨hs _ hb, hwidth b hb⟩
  calc
    l.document tidyComments (Document.parse out).1 =
        written ((Document.parse out).1.present.filterMap (l.piece tidyComments)) :=
      document_eq l tidyComments _
    _ = written ((Document.parse s).1.present.filterMap (l.piece tidyComments)) := by
      rw [Document.present_parse out, hpieces]
    _ = out := (document_eq l tidyComments _).symm

end Layout

/-- **A layout is settled after one run** on input that nothing had to be recovered of, if it wraps
nothing and indents by a tab or some spaces, and if lower case does not change the alignment. -/
theorem render_fixed_of_readsCleanly {s : Text} {l : Layout} (tidyComments : Bool)
    (hclean : s.ReadsCleanly) (hwrap : l.wrap = none) (hindent : l.indent ≠ .spaces 0)
    (hwidth : l.lowercase = false ∨ l.align ≠ some .auto) :
    let r := fun t => (Document.parse t).1.render { layout := some l, tidyComments }
    r (r s) = r s := by
  have hfaithful := Document.isFaithful_parse (Text.readsCleanly_iff.1 hclean)
  have hnodes : ∀ n ∈ (Document.parse s).1.present, l.SetsNode n := fun n hn =>
    Layout.setsNode_of_isFaithful hwrap hindent
      (hfaithful.nodes n (Document.mem_nodes_of_mem_present hn))
  exact Layout.document_reparse hnodes fun b _ =>
    hwidth.elim (Layout.keepsWidth_of_keeps · b) (Layout.keepsWidth_of_align · b)

/-- **The output of a layout is a fixed point**, if the layout settles all blocks of the input. -/
theorem render_fixed {s : Text} {l : Layout} (tidyComments : Bool)
    (hs : ∀ b, .block b ∈ (Document.parse s).1.nodes → l.Settles b) :
    let r := fun t => (Document.parse t).1.render { layout := some l, tidyComments }
    r (r s) = r s := by
  have hblocks : ∀ b, .block b ∈ (Document.parse s).1.present → l.Settles b :=
    fun b hb => hs b (Document.mem_nodes_of_mem_present hb)
  have hnodes : ∀ n ∈ (Document.parse s).1.present, l.SetsNode n := by
    intro n hn
    cases n with
    | text t =>
        have ht := Piece.text_mem_of_mem_map (Document.mem_nodes_of_mem_present hn)
        exact (Piece.cut_ofText s).inert ht
    | block b => exact (hblocks b hn).node
  exact Layout.document_reparse hnodes fun b hb => (hblocks b hb).width

/-- A block that is kept verbatim, an entry that ends before the next block, and a definition that
has no closing bracket. -/
theorem render_fixed_open :
    let s : Text := ("@misc\x7bk, = 1 \n@MISC\x7bk, A = \x7bx y  z\x7d, bc = 1 \n" ++
      "@String(s = \x7by \n\n").toList
    let l : Layout := { align := some .auto, lowercase := true, wrap := some 11 }
    let r := fun t => (Document.parse t).1.render { layout := some l }
    (∀ b, .block b ∈ (Document.parse s).1.nodes → l.Settles b) ∧ r (r s) = r s := by
  intro s l r
  let kept : Block :=
    ⟨"misc".toList, .brace, .verbatim "@misc\x7bk, = 1 \n".toList,
      some "@misc\x7bk, = 1 \n".toList⟩
  let entry : Entry :=
    { key := some ['k']
      fields := [⟨['A'], [.braced "x y  z".toList]⟩, ⟨"bc".toList, [.literal ['1']]⟩] }
  let definition : Payload := ⟨"s = \x7by \n\n".toList, 1, 1⟩
  have hnodes : (Document.parse s).1.nodes =
      [.block kept,
        .block ⟨"MISC".toList, .brace, .entry entry,
          some "@MISC\x7bk, A = \x7bx y  z\x7d, bc = 1 \n".toList⟩,
        .block ⟨"String".toList, .paren, .stringDef definition,
          some "@String(s = \x7by \n\n".toList⟩] := by
    decide +kernel
  have hs : ∀ b, .block b ∈ (Document.parse s).1.nodes → l.Settles b := by
    rw [hnodes]
    intro b hb
    simp only [List.mem_cons, Node.block.injEq, List.not_mem_nil, or_false] at hb
    obtain rfl | rfl | rfl := hb
    · refine ⟨.inr (.inr ⟨_, rfl, by decide +kernel⟩), ?_⟩
      intro e he
      cases he
    · refine ⟨.inl ⟨by decide +kernel, ?_⟩, ?_⟩
      · intro e he
        cases he
        decide +kernel
      · intro e he
        cases he
        decide +kernel
    · refine ⟨.inr (.inl ⟨by decide, .stringDef, definition, by decide +kernel⟩), ?_⟩
      intro e he
      cases he
  exact ⟨hs, render_fixed false hs⟩

/-- **A value without an end** is closed with one bracket.  If it has more brackets open, the output
is read with one bracket too few, and the next output has one more. -/
theorem render_unclosed :
    let s : Text := "@misc\x7bk, a = \x7bx \x7by".toList
    let r := fun t => (Document.parse t).1.render { layout := some {} }
    r s = "@misc\x7bk,\n  a = \x7bx \x7by\x7d\n\x7d\n".toList ∧ r (r s) ≠ r s := by
  decide +kernel

-- A name at the start of a line that begins with an `@` begins a block.
example :
    let l : Layout := { indent := .spaces 0 }
    let r := fun t => (Document.parse t).1.render { layout := some l }
    r (r "@misc\x7bk, @a = 1\x7d".toList) ≠ r "@misc\x7bk, @a = 1\x7d".toList := by
  decide +kernel

-- The lower case of `İ` is two characters long.
example :
    let l : Layout := { align := some .auto, lowercase := true }
    let r := fun t => (Document.parse t).1.render { layout := some l }
    r (r "@misc\x7bk, İİ = 1, a = 2\x7d".toList) ≠ r "@misc\x7bk, İİ = 1, a = 2\x7d".toList := by
  decide +kernel

-- A bare token that is broken at its white space is not read as one token.
example :
    let l : Layout := { wrap := some 8 }
    let r := fun t => (Document.parse t).1.render { layout := some l }
    r (r "@misc(k, a = x\u00a0y, b = \x7b)\x7d)".toList) ≠
      r "@misc(k, a = x\u00a0y, b = \x7b)\x7d)".toList := by
  decide +kernel

-- Without the white space at its end, a block may be understood.
example :
    let r := fun t => (Document.parse t).1.render { layout := some {} }
    r (r "@misc\x7bk, a = 1 \u00a0".toList) ≠ r "@misc\x7bk, a = 1 \u00a0".toList := by
  decide +kernel

end Bibliography
