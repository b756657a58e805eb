import Mathlib.Data.List.Forall2
import Bibliography.Proofs.Layout.Value
import Bibliography.Proofs.Parse.BlockEnd
import Bibliography.Proofs.Parse.Lossless
import Bibliography.Proofs.Render.Spelling

/-!
# Bibliography.Proofs.Render.RoundTrip

Writing a well-formed block and reading it again gives the block, with its
command and names spelled as the layout spells them.  There is a lemma for each
kind of token, from the inside out: what is written for it, followed by
whatever may follow it there, is read as that token, and the reader stops
before what follows.

A layout has to set fields so that they are read as fields (`Layout.SetsAs`):
what it makes of a value spells the value, or another one if it is wrapped, and
at the start of a line a name that begins with an `@` ends the block.

* `Cursor.exists_value_spelled` — a value, up to the comma or closing bracket
  after it;
* `Cursor.exists_fields_written`, `Cursor.exists_entry_written` — fields and the
  body of an entry, by induction on the fields;
* `Block.read?_written` — a block in front of any text;
* `Document.parse_written` — a document of one block, in the layout of a block
  that an edit changed.
-/

namespace Bibliography

/-! ## texts that are written -/

namespace Segment

/-- A closed segment does not begin with a blank. -/
theorem stops_written {s : Segment} (h : s.IsClosed) (r : Text) :
    Text.Stops Text.isBlank (s.written ++ r) := by
  cases s with
  | literal t => exact h.stops Scan.isBlank_of_isLiteralChar r
  | braced t => exact Text.stops_cons.2 rfl
  | quoted t => exact Text.stops_cons.2 rfl

/-- Nor does it begin with anything that no segment begins with. -/
theorem endsAt_of_stops {r : Text} (h : Text.Stops Scan.isLiteralChar r) (s : Segment) :
    s.EndsAt r := by
  cases s with
  | literal t => exact h
  | braced t => trivial
  | quoted t => trivial

end Segment

namespace Layout

variable {l : Layout}

/-- A field, and the one that is read where a layout has set it. -/
structure SetsAs (l : Layout) (width : Nat) (f g : Field) : Prop where
  name : g.name = l.spelling f.name
  value : g.value.Spelled (l.value (l.valueColumn width f.name) f.value)
  line : l.indent ≠ .spaces 0 ∨ g.name.head? ≠ some '@'

/-- The body of a block, and the one that is read where a layout has set it. -/
inductive SetsBody (l : Layout) : Body → Body → Prop where
  | comment (p : Payload) : SetsBody l (.comment p) (.comment p)
  | preamble (p : Payload) : SetsBody l (.preamble p) (.preamble p)
  | stringDef (p : Payload) : SetsBody l (.stringDef p) (.stringDef p)
  | entry {e : Entry} {gs : List Field} :
      List.Forall₂ (l.SetsAs (l.nameWidth (e.fields.map Field.name))) e.fields gs →
      SetsBody l (.entry e) (.entry { e with fields := gs, duplicateOf := none })

theorem isBlank_indentText {x : Char} (h : x ∈ l.indentText) : Text.isBlank x = true := by
  unfold indentText at h
  split at h
  · exact Text.isBlank_spaces h
  · obtain rfl := List.mem_singleton.1 h
    rfl

/-- The indentation, if there is any, does not end a line. -/
theorem head?_indentText (h : l.indent ≠ .spaces 0) (t : Text) :
    (l.indentText.reverse ++ t).head? ≠ some '\n' := by
  unfold indentText
  split
  · next n hn =>
    cases n with
    | zero => exact absurd hn h
    | succ n => simp [Text.spaces, List.replicate_succ']
  · simp

/-- What stands between the name of a field and its equals sign. -/
def padding (l : Layout) (width : Nat) (name : Text) : Text :=
  Text.spaces (width - (l.spelling name).length) ++ [' ']

theorem isBlank_padding {width : Nat} {name : Text} {x : Char} (h : x ∈ l.padding width name) :
    Text.isBlank x = true := by
  obtain h | h := List.mem_append.1 h
  · exact Text.isBlank_spaces h
  · obtain rfl := List.mem_singleton.1 h
    rfl

/-- A field as it is set. -/
theorem field_eq (l : Layout) (width : Nat) (f : Field) (last : Bool) :
    l.field width last f = l.indentText ++ (l.spelling f.name ++ (l.padding width f.name ++
      '=' :: ' ' :: (l.value (l.valueColumn width f.name) f.value ++ l.fieldEnd last))) := by
  unfold field fieldName padding equals
  simp

end Layout

/-- What follows a value in an entry: a comma or the closing bracket, after
blanks. -/
def EndsItem (d : Delimiter) (r : Text) : Prop :=
  ∃ x s, r.dropWhile Text.isBlank = x :: s ∧ (x = ',' ∨ x = d.closing)

namespace EndsItem

variable {d : Delimiter} {r : Text}

theorem stops_literal (h : EndsItem d r) : Text.Stops Scan.isLiteralChar r := by
  obtain ⟨x, s, hx, hsep⟩ := h
  cases r with
  | nil => exact Text.stops_nil
  | cons y r =>
      rw [Text.stops_cons]
      by_cases hy : Text.isBlank y = true
      · simp [Scan.isLiteralChar, hy]
      · rw [List.dropWhile_cons_of_neg hy] at hx
        obtain ⟨rfl, -⟩ := List.cons.inj hx
        obtain rfl | rfl := hsep
        · rfl
        · exact d.isLiteralChar_closing

theorem head?_ne (h : EndsItem d r) {x : Char} (hcomma : x ≠ ',') (hclose : x ≠ d.closing) :
    (r.dropWhile Text.isBlank).head? ≠ some x := by
  obtain ⟨y, s, hy, rfl | rfl⟩ := h <;> simp [hy, Ne.symm hcomma, Ne.symm hclose]

/-- No bare token goes on into the segments after it, or into what follows. -/
theorem stops_more (h : EndsItem d r) {v : Value} {t : Text} (hv : v.SpelledMore t) :
    Text.Stops Scan.isLiteralChar (t ++ r) := by
  cases hv with
  | nil => exact h.stops_literal
  | @cons _ _ g _ _ hg _ _ _ =>
      cases g with
      | nil => exact Text.stops_cons.2 rfl
      | cons x g =>
          refine Text.stops_cons.2 ?_
          simp [Scan.isLiteralChar, hg x List.mem_cons_self]

end EndsItem

namespace Cursor

variable {c : Cursor} {d : Delimiter} {r : Text}

/-! ## places -/

theorem exists_charAt {x : Char} (h : c.after.dropWhile Text.isBlank = x :: r) :
    ∃ p, c.CharAt x p ∧ p.after = r :=
  ⟨_, ⟨r, h, rfl⟩, rfl⟩

/-! ## values -/

/-- The place after a gap that ends with a space, which is not where a line begins. -/
theorem skipBlank_of_gap {g : Text} (h : c.after = g ++ ' ' :: r)
    (hg : ∀ x ∈ g, Text.isBlank x = true) (hr : Text.Stops Text.isBlank r) :
    c.skipBlank = c.past (g ++ [' ']) r ∧ c.skipBlank.atLineBlock = false := by
  have hgap : ∀ x ∈ g ++ [' '], Text.isBlank x = true := by
    intro x hx
    obtain hx | hx := List.mem_append.1 hx
    · exact hg x hx
    · rw [List.mem_singleton.1 hx]
      rfl
  have hskip := skipBlank_of_after (t := g ++ [' ']) (by simpa using h) hgap hr
  exact ⟨hskip, atLineBlock_of_before (by simp [hskip])⟩

/-- Segments after the first are read where they are spelled. -/
theorem exists_moreSegments_spelled {v : Value} {t : Text} (hv : v.SpelledMore t)
    (h : c.after = t ++ r) (hr : EndsItem d r) :
    ∃ p, c.moreSegments = .read v p ∧ p.after = r := by
  induction hv generalizing c with
  | nil =>
      have hafter : c.after = r := h
      refine ⟨c, moreSegments_end ?_, hafter⟩
      rw [after_skipBlank, hafter]
      exact hr.head?_ne (by decide) (by cases d <;> decide)
  | @cons s v g g' t hg hg' hs hv ih =>
      have hstops := hr.stops_more hv
      generalize htail : t ++ r = tail at hstops ih
      have hgap : (g ++ [' '] ++ '#' :: (g' ++ ' ' :: (s.written ++ tail))).dropWhile Text.isBlank =
          '#' :: (g' ++ ' ' :: (s.written ++ tail)) := by
        refine Text.dropWhile_append_of_run (fun x hx => ?_) (Text.stops_cons.2 rfl)
        obtain hx | hx := List.mem_append.1 hx
        · exact hg x hx
        · rw [List.mem_singleton.1 hx]
          rfl
      obtain ⟨p, hp, hpafter⟩ := exists_charAt (c := c) (x := '#')
        (r := g' ++ ' ' :: (s.written ++ tail)) (by rw [← hgap, h, ← htail]; simp)
      obtain ⟨hskip, hline⟩ := skipBlank_of_gap hpafter hg' (Segment.stops_written hs tail)
      have hseg := segment_written (c := p.skipBlank) (r := tail) hs (by rw [hskip]; rfl)
        (Segment.endsAt_of_stops hstops s)
      obtain ⟨q, hq, hqafter⟩ := ih (c := p.skipBlank.past s.written tail) rfl
      refine ⟨q, ?_, hqafter⟩
      rw [moreSegments_hash hp, if_neg (by simp [hline]), hseg]
      dsimp only
      rw [hq]
      rfl

/-- **A value is read where it is spelled**, up to the blanks after it. -/
theorem exists_value_spelled {v : Value} {t : Text} (hv : v.Spelled t)
    (h : c.after = ' ' :: (t ++ r)) (hr : EndsItem d r) :
    ∃ p, c.value = .read v p ∧
      p.after.dropWhile Text.isBlank = r.dropWhile Text.isBlank := by
  cases hv with
  | nil =>
      have hafter : c.skipBlank.after = r.dropWhile Text.isBlank := by
        rw [after_skipBlank, h]
        rfl
      refine ⟨c.skipBlank, value_noSegment (.inr ?_), ?_⟩
      · intro x hx
        obtain ⟨y, s, hy, hsep⟩ := hr
        obtain rfl : y = x := by simpa [hafter, hy] using hx
        obtain rfl | rfl := hsep
        · decide
        · cases d <;> decide
      · rw [hafter]
        exact (Text.stops_dropWhile _ _).dropWhile_eq
  | @cons s v t hs hmore =>
      rw [List.append_assoc] at h
      obtain ⟨hskip, hline⟩ :=
        skipBlank_of_gap (g := []) h (List.forall_mem_nil _) (Segment.stops_written hs _)
      have hseg := segment_written (c := c.skipBlank) (r := t ++ r) hs (by rw [hskip]; rfl)
        (Segment.endsAt_of_stops (hr.stops_more hmore) s)
      obtain ⟨q, hq, hqafter⟩ := exists_moreSegments_spelled
        (c := c.skipBlank.past s.written (t ++ r)) hmore rfl hr
      refine ⟨q, ?_, by rw [hqafter]⟩
      rw [value_segment hline, hseg]
      dsimp only
      rw [hq]
      rfl

/-- A text spells one value. -/
theorem eq_of_spelled {v v' : Value} {t : Text} (h : v.Spelled t) (h' : v'.Spelled t) : v = v' := by
  let c : Cursor := ⟨[], ' ' :: (t ++ [','])⟩
  have hr : EndsItem .brace [','] := ⟨',', [], rfl, .inl rfl⟩
  obtain ⟨p, hp, -⟩ := exists_value_spelled (c := c) h rfl hr
  obtain ⟨q, hq, -⟩ := exists_value_spelled (c := c) h' rfl hr
  exact (ValueRead.read.inj (hp.symm.trans hq)).1

/-! ## fields -/

/-- A field name is read in front of its equals sign, unless it looks like the next block. -/
theorem exists_nameAt {name gap pad : Text} (hname : Text.IsRun Scan.isKeyChar name)
    (hgap : ∀ x ∈ gap, Text.isBlank x = true) (hpad : ∀ x ∈ pad, Text.isBlank x = true)
    (hline : (gap.reverse ++ c.before).head? ≠ some '\n' ∨ name.head? ≠ some '@')
    (h : c.after = gap ++ (name ++ (pad ++ '=' :: r))) :
    ∃ p, c.NameAt name p ∧ p.after = r := by
  have hstops : Text.Stops Scan.isKeyChar (pad ++ '=' :: r) := by
    cases pad with
    | nil => exact Text.stops_cons.2 rfl
    | cons x pad =>
        refine Text.stops_cons.2 (Bool.eq_false_iff.2 fun hx => ?_)
        simp [Scan.isBlank_of_isKeyChar x hx] at hpad
  have hskip : c.skipBlank = c.past gap (name ++ (pad ++ '=' :: r)) :=
    skipBlank_of_after h hgap (hname.stops Scan.isBlank_of_isKeyChar _)
  have hequals : (pad ++ '=' :: r).dropWhile Text.isBlank = '=' :: r :=
    Text.dropWhile_append_of_run hpad (Text.stops_cons.2 rfl)
  obtain ⟨p, hp, hpafter⟩ := exists_charAt (c := c.skipBlank.skip Scan.isKeyChar) (x := '=') (r := r)
    (by rw [after_skip, hskip, after_past, Text.dropWhile_append_of_run hname.2 hstops, hequals])
  refine ⟨p, ⟨?_, hname.1, ?_, hp⟩, hpafter⟩
  · rw [hskip]
    obtain hline | hline := hline
    · exact atLineBlock_of_before hline
    · refine atLineBlock_of_after ?_
      rw [after_past, List.head?_append_of_ne_nil _ hname.1]
      exact hline
  · rw [hskip, after_past, Text.takeWhile_append_of_run hname.2 hstops]

theorem dropWhile_closing (d : Delimiter) (r : Text) :
    ('\n' :: d.closing :: r).dropWhile Text.isBlank = d.closing :: r := by
  rw [List.dropWhile_cons_of_pos rfl, List.dropWhile_cons_of_neg (by simp [d.isBlank_closing])]

/-- A field is read as it is set, up to the separator after it. -/
theorem exists_field_written {l : Layout} {width : Nat} {f g : Field} {last : Bool}
    (hf : f.IsWellFormed) (hl : l.SetsAs width f g) (hr : EndsItem d (l.fieldEnd last ++ r))
    (h : c.after = '\n' :: (l.field width last f ++ r)) :
    ∃ q stop, c.NameAt g.name q ∧ q.value = .read g.value stop ∧
      stop.after.dropWhile Text.isBlank = (l.fieldEnd last ++ r).dropWhile Text.isBlank := by
  have hgap : ∀ x ∈ '\n' :: l.indentText, Text.isBlank x = true :=
    List.forall_mem_cons.2 ⟨rfl, fun x => Layout.isBlank_indentText⟩
  have hline : (('\n' :: l.indentText).reverse ++ c.before).head? ≠ some '\n' ∨
      g.name.head? ≠ some '@' := by
    refine hl.line.imp_left fun hindent => ?_
    rw [List.reverse_cons, List.append_assoc]
    exact Layout.head?_indentText hindent _
  rw [Layout.field_eq, ← hl.name] at h
  have hpad : ∀ x ∈ l.padding width f.name, Text.isBlank x = true :=
    fun x => Layout.isBlank_padding
  obtain ⟨q, hq, hqafter⟩ := exists_nameAt (c := c)
    (r := ' ' :: (l.value (l.valueColumn width f.name) f.value ++ (l.fieldEnd last ++ r)))
    (hl.name ▸ l.isRun_spelling hf.name) hgap hpad hline (by simp [h])
  obtain ⟨stop, hstop, hafter⟩ := exists_value_spelled hl.value hqafter hr
  exact ⟨q, stop, hq, hstop, hafter⟩

/-- A field with a comma is read in front of the fields after it. -/
theorem exists_field_comma {l : Layout} {width : Nat} {f g : Field} {last : Bool} {tail : Text}
    {gs : List Field} (hf : f.IsWellFormed) (hl : l.SetsAs width f g)
    (hend : l.fieldEnd last = [',', '\n'])
    (htail : ∀ n : Cursor, n.after = '\n' :: tail →
      ∃ p, n.fields d.closing = .closed gs p ∧ p.after = r)
    (h : c.after = '\n' :: (l.field width last f ++ tail)) :
    ∃ p, c.fields d.closing = .closed (g :: gs) p ∧ p.after = r := by
  have hrest : EndsItem d (l.fieldEnd last ++ tail) := by
    rw [hend]
    exact ⟨',', '\n' :: tail, rfl, .inl rfl⟩
  obtain ⟨q, stop, hq, hstop, hafter⟩ := exists_field_written hf hl hrest h
  obtain ⟨n, hn, hnafter⟩ := exists_charAt (c := stop) (x := ',') (r := '\n' :: tail)
    (by rw [hafter, hend]; rfl)
  obtain ⟨p, hp, hpafter⟩ := htail n hnafter
  refine ⟨p, ?_, hpafter⟩
  rw [fields_name hq, valueAndFields, hstop]
  dsimp only
  rw [separator_comma _ hn]
  dsimp only
  rw [hp]
  rfl

/-- A field without a comma is read in front of the closing bracket. -/
theorem exists_field_closing {l : Layout} {width : Nat} {f g : Field} {last : Bool}
    (hf : f.IsWellFormed) (hl : l.SetsAs width f g) (hend : l.fieldEnd last = ['\n'])
    (h : c.after = '\n' :: (l.field width last f ++ d.closing :: r)) :
    ∃ p, c.fields d.closing = .closed [g] p ∧ p.after = r := by
  have hclosing : (l.fieldEnd last ++ d.closing :: r).dropWhile Text.isBlank = d.closing :: r := by
    rw [hend]
    exact dropWhile_closing d r
  obtain ⟨q, stop, hq, hstop, hafter⟩ :=
    exists_field_written hf hl ⟨d.closing, r, hclosing, .inr rfl⟩ h
  obtain ⟨p, hp, hpafter⟩ := exists_charAt (c := stop) (x := d.closing) (r := r)
    (by rw [hafter, hclosing])
  refine ⟨p, ?_, hpafter⟩
  rw [fields_name hq, valueAndFields, hstop]
  dsimp only
  rw [separator_closing hp]

/-- **Fields are read as they are set.** -/
theorem exists_fields_written {l : Layout} {width : Nat} {fs gs : List Field} (hne : fs ≠ [])
    (hfs : ∀ f ∈ fs, f.IsWellFormed) (hl : List.Forall₂ (l.SetsAs width) fs gs)
    (h : c.after = '\n' :: (l.fields width fs ++ d.closing :: r)) :
    ∃ p, c.fields d.closing = .closed gs p ∧ p.after = r := by
  induction hl generalizing c with
  | nil => contradiction
  | @cons f g fs gs hf' hl ih =>
      obtain ⟨hf, hfs⟩ := List.forall_mem_cons.1 hfs
      cases hl with
      | nil =>
          by_cases hcomma : l.trailingCommas = true
          · refine exists_field_comma hf hf' (by simp [Layout.fieldEnd, hcomma]) ?_ h
            intro n hn
            obtain ⟨p, hp, hpafter⟩ := exists_charAt (c := n) (x := d.closing) (r := r)
              (by rw [hn, dropWhile_closing])
            exact ⟨p, fields_close hp, hpafter⟩
          · exact exists_field_closing hf hf' (by simp [Layout.fieldEnd, hcomma]) h
      | cons _ _ =>
          rw [Layout.fields, List.append_assoc] at h
          exact exists_field_comma hf hf' rfl
            (fun n hn => ih (List.cons_ne_nil _ _) hfs hn) h

/-! ## entries -/

/-- A citation key is read in front of a comma or the closing bracket. -/
theorem exists_keyAt {key : Text} {x : Char} (hkey : Text.IsRun Scan.isKeyChar key)
    (hbefore : c.before.head? ≠ some '\n') (h : c.after = key ++ x :: r)
    (hx : x = ',' ∨ x = d.closing) : ∃ p q, c.KeyAt key p ∧ p.CharAt x q ∧ q.after = r := by
  have hblank : Text.isBlank x = false := by
    obtain rfl | rfl := hx
    · rfl
    · exact d.isBlank_closing
  have hstops : Text.Stops Scan.isKeyChar (x :: r) := by
    rw [Text.stops_cons]
    obtain rfl | rfl := hx
    · rfl
    · exact d.isKeyChar_closing
  have hskip : c.skipBlank = c :=
    skipBlank_eq_self (by rw [h]; exact hkey.stops Scan.isBlank_of_isKeyChar _)
  have hafter : (c.skipBlank.skip Scan.isKeyChar).after = x :: r := by
    rw [hskip, after_skip, h, Text.dropWhile_append_of_run hkey.2 hstops]
  have hdrop : (c.skipBlank.skip Scan.isKeyChar).after.dropWhile Text.isBlank = x :: r := by
    rw [hafter, List.dropWhile_cons_of_neg (by simp [hblank])]
  obtain ⟨q, hq, hqafter⟩ := exists_charAt hdrop
  refine ⟨_, q, ⟨?_, hkey.1, ?_, rfl, ?_⟩, hq, hqafter⟩
  · rw [hskip]
    exact atLineBlock_of_before hbefore
  · rw [hskip, h, Text.takeWhile_append_of_run hkey.2 hstops]
  · rw [after_skipBlank, hdrop, List.head?_cons]
    obtain rfl | rfl := hx
    · decide
    · cases d <;> decide

/-- **The body of an entry is read as it is set.** -/
theorem exists_entry_written {l : Layout} {width : Nat} {e : Entry} {gs : List Field}
    (he : e.IsWellFormed) (hl : List.Forall₂ (l.SetsAs width) e.fields gs)
    (hbefore : c.before.head? ≠ some '\n')
    (h : c.after = e.key.getD [] ++ ((if e.fields = [] then []
      else Layout.keyEnd e.key.isSome ++ l.fields width e.fields) ++ d.closing :: r)) :
    ∃ p, c.entry d.closing = .closed { e with fields := gs, duplicateOf := none } p ∧
      p.after = r := by
  obtain ⟨key, fs, duplicateOf⟩ := e
  obtain ⟨hkey, hfs⟩ := he
  cases key with
  | none =>
      have hfields : ∃ p, c.fields d.closing = .closed gs p ∧ p.after = r := by
        by_cases hnil : fs = []
        · subst hnil
          obtain rfl := List.forall₂_nil_left_iff.1 hl
          obtain ⟨p, hp, hpafter⟩ := exists_charAt (c := c) (x := d.closing) (r := r)
            (by simp [h, d.isBlank_closing])
          exact ⟨p, fields_close hp, hpafter⟩
        · exact exists_fields_written hnil hfs hl (by simpa [hnil, Layout.keyEnd] using h)
      obtain ⟨p, hp, hpafter⟩ := hfields
      refine ⟨p, ?_, hpafter⟩
      rw [entry_noKey fun key q => not_keyAt_of_fields hp, hp]
      rfl
  | some k =>
      have hk : Text.IsRun Scan.isKeyChar k := hkey k rfl
      by_cases hnil : fs = []
      · subst hnil
        obtain rfl := List.forall₂_nil_left_iff.1 hl
        obtain ⟨p, q, hp, hq, hqafter⟩ := exists_keyAt (d := d) hk hbefore h (.inr rfl)
        refine ⟨q, ?_, hqafter⟩
        rw [entry_key hp, afterKey, separator_closing hq]
      · obtain ⟨p, q, hp, hq, hqafter⟩ := exists_keyAt (d := d) (x := ',') hk hbefore
          (by simpa [hnil, Layout.keyEnd] using h) (.inl rfl)
        obtain ⟨stop, hstop, hafter⟩ := exists_fields_written hnil hfs hl hqafter
        refine ⟨stop, ?_, hafter⟩
        rw [entry_key hp, afterKey, separator_comma _ hq]
        dsimp only
        rw [hstop]
        rfl

end Cursor

/-! ## blocks -/

/-- A body without the note that it is a duplicate, which is not written. -/
def Body.unmarked : Body → Body
  | entry e => entry { e with duplicateOf := none }
  | body => body

/-- Whether a block has fields but no citation key. -/
def Block.lacksKey (b : Block) : Bool :=
  match b.entry? with
  | some e => e.key.isNone && !e.fields.isEmpty
  | none => false

namespace Block

/-- The body of a block is read after its command and opening bracket. -/
theorem exists_blockBody {command : Text} (hcommand : Text.IsRun Scan.isCommandChar command)
    (d : Delimiter) (r : Text) :
    ∃ p : Cursor, p.after = r ∧ p.before.head? ≠ some '\n' ∧
      read? (command ++ d.opening :: r) = some (p.blockBody command d) := by
  have hstops : Text.Stops Scan.isCommandChar (d.opening :: r) := by
    rw [Text.stops_cons]
    cases d <;> decide
  have hblank : Text.isBlank d.opening = false := by cases d <;> decide
  have htake := Text.takeWhile_append_of_run hcommand.2 hstops
  have hskip : (⟨['@'], command ++ d.opening :: r⟩ : Cursor).skip Scan.isCommandChar =
      ⟨command.reverse ++ ['@'], d.opening :: r⟩ := by
    unfold Cursor.skip Cursor.past
    dsimp only
    rw [htake, Text.dropWhile_append_of_run hcommand.2 hstops]
  refine ⟨⟨d.opening :: (command.reverse ++ ['@']), r⟩, rfl, by cases d <;> simp [Delimiter.opening],
    read?_eq_some_iff.2 ⟨by rw [htake]; exact hcommand.1, d, _, ?_, by rw [htake]⟩⟩
  rw [hskip]
  refine ⟨r, ?_, ?_⟩
  · rw [Cursor.skipBlank_eq_self (Text.stops_cons.2 hblank)]
  · rw [Cursor.skipBlank_eq_self (Text.stops_cons.2 hblank)]
    rfl

/-- A payload is read as it is written. -/
theorem exists_source_payload {l : Layout} {command : Text} {d : Delimiter} {p : Payload}
    {kind : BlockKind} (hp : p.IsWellFormed d)
    (hkind : BlockKind.ofCommand (l.spelling command) = kind) (hne : kind ≠ .entry) (rest : Text) :
    ∃ r, l.payload command d p = '@' :: (l.spelling command ++ d.opening :: r) ∧
      ∀ c : Cursor, c.after = r ++ rest →
        ∃ source, c.blockBody (l.spelling command) d =
          ⟨⟨l.spelling command, d, .ofPayload kind p, source⟩, [], rest⟩ := by
  obtain ⟨hclosed, htext⟩ := Payload.isWellFormed_iff.1 hp
  have hzero : ({ text := p.text } : Payload) = p := by
    obtain ⟨text, braces, parens⟩ := p
    simp only [Payload.isClosed, Bool.and_eq_true, decide_eq_true_eq] at hclosed
    obtain ⟨rfl, rfl⟩ := hclosed
    rfl
  refine ⟨p.text ++ [d.closing], ?_, fun c hc => ?_⟩
  · rw [Layout.payload, if_pos hclosed]
    rfl
  · have hpayload : Scan.payload d c.after = .closed p.text rest :=
      Scan.payload_eq_closed_iff.2 ⟨by simpa using hc, htext⟩
    rw [Cursor.blockBody_of_ne_entry hkind hne, Cursor.payloadBlock, hpayload]
    dsimp only
    rw [hzero]
    exact ⟨_, rfl⟩

/-- What can be found about a block that is read as it is written: a layout changes the spelling of
its command. -/
def writtenCauses (l : Layout) (b : Block) : List Cause :=
  if b.lacksKey then [.missingKey (l.spelling b.command)] else []

/-- The body of a well-formed block is read as it is set. -/
theorem exists_source_blockBody {l : Layout} {b : Block} {body : Body} (hb : b.IsWellFormed)
    (hl : l.SetsBody b.body body) (rest : Text) :
    ∃ r, l.block b = '@' :: (l.spelling b.command ++ b.delimiter.opening :: r) ∧
      ∀ c : Cursor, c.after = r ++ rest → c.before.head? ≠ some '\n' →
        ∃ source, c.blockBody (l.spelling b.command) b.delimiter =
          ⟨⟨l.spelling b.command, b.delimiter, body, source⟩, writtenCauses l b, rest⟩ := by
  obtain ⟨command, d, body₀, source⟩ := b
  obtain ⟨hcommand, hkind, hbody⟩ := hb
  dsimp only at hcommand hkind hbody hl ⊢
  rw [← l.ofCommand_spelling command] at hkind
  cases hl with
  | comment p | preamble p | stringDef p =>
      obtain ⟨r, hr, hread⟩ :=
        exists_source_payload hbody (Option.some.inj hkind).symm (by decide) rest
      exact ⟨r, hr, fun c hc _ => hread c hc⟩
  | @entry e gs hgs =>
      let width := l.nameWidth (e.fields.map Field.name)
      refine ⟨e.key.getD [] ++ ((if e.fields = [] then []
        else Layout.keyEnd e.key.isSome ++ l.fields width e.fields) ++ [d.closing]), ?_, ?_⟩
      · simp [Layout.block, Layout.entry, Layout.command, width]
      · intro c hc hbefore
        obtain ⟨p, hp, hafter⟩ := Cursor.exists_entry_written (d := d) (r := rest) hbody hgs hbefore
          (by rw [hc]; simp [width])
        refine ⟨some p.before.reverse, ?_⟩
        have hnil : gs = [] ↔ e.fields = [] := by
          rw [← List.length_eq_zero_iff, ← hgs.length_eq, List.length_eq_zero_iff]
        have hcauses : Cursor.keyCauses (l.spelling command)
              { e with fields := gs, duplicateOf := none } =
            writtenCauses l ⟨command, d, .entry e, source⟩ := by
          simp [Cursor.keyCauses, writtenCauses, lacksKey, entry?, Body.entry?, hnil]
        rw [Cursor.blockBody_of_entry (Option.some.inj hkind).symm, Cursor.entryBlock, hp]
        dsimp only
        rw [Cursor.blockRead, hcauses, hafter]

/-- **A block is read as it is set**, whatever follows. -/
theorem read?_written {l : Layout} {b : Block} {body : Body} (hb : b.IsWellFormed)
    (hl : l.SetsBody b.body body) (rest : Text) :
    ∃ s, l.block b = '@' :: s ∧
      read? (s ++ rest) = some
        ⟨⟨l.spelling b.command, b.delimiter, body, some ('@' :: s)⟩, writtenCauses l b, rest⟩ := by
  obtain ⟨r, hblock, hread⟩ := exists_source_blockBody hb hl rest
  obtain ⟨p, hafter, hbefore, hp⟩ :=
    exists_blockBody (l.isRun_command hb.command) b.delimiter (r ++ rest)
  obtain ⟨source, hbody⟩ := hread p hafter hbefore
  refine ⟨l.spelling b.command ++ b.delimiter.opening :: r, hblock, ?_⟩
  have hs : (l.spelling b.command ++ b.delimiter.opening :: r) ++ rest =
      l.spelling b.command ++ b.delimiter.opening :: (r ++ rest) := by simp
  rw [hs, hp, hbody]
  rw [hbody, ← hs] at hp
  -- The source is what was read, and `rest` is what was left.
  obtain ⟨t, hsource, ht⟩ := source_append_rest hp
  obtain rfl := List.append_cancel_right ht
  have hsource : source = _ := hsource
  rw [hsource]

end Block

/-! ## layouts that wrap nothing -/

namespace Layout

variable {l : Layout}

/-- A layout that wraps nothing and indents fields sets each as it is, with its name spelled. -/
theorem setsAs_respellField (hwrap : l.wrap = none) (hindent : l.indent ≠ .spaces 0) (width : Nat)
    {f : Field} (hf : f.IsWellFormed) : l.SetsAs width f (l.respellField f) where
  name := rfl
  value := by
    rw [Layout.value, hwrap]
    exact Value.spelled_written hf.value
  line := .inl hindent

theorem setsBody_respell (hwrap : l.wrap = none) (hindent : l.indent ≠ .spaces 0) {b : Block}
    (hb : b.IsWellFormed) : l.SetsBody b.body (l.respell b).body.unmarked := by
  obtain ⟨command, d, body, source⟩ := b
  have hbody := hb.body
  cases body with
  | comment p => exact .comment p
  | preamble p => exact .preamble p
  | stringDef p => exact .stringDef p
  | verbatim t => exact absurd hbody id
  | entry e =>
      refine .entry (List.forall₂_map_right_iff.2 (List.forall₂_same.2 fun f hf => ?_))
      exact setsAs_respellField hwrap hindent _ (Entry.IsWellFormed.fields hbody f hf)

end Layout

/-- A block is read as it is written unless told otherwise. -/
theorem Block.read?_default {b : Block} (hb : b.IsWellFormed) (rest : Text) :
    ∃ s, ({} : Layout).block b = '@' :: s ∧
      read? (s ++ rest) = some
        ⟨{ b with body := b.body.unmarked, source := some ('@' :: s) },
          if b.lacksKey then [.missingKey b.command] else [], rest⟩ := by
  have hsets := Layout.setsBody_respell (l := {}) rfl (by decide) hb
  rw [Layout.respell_of_keeps rfl] at hsets
  exact read?_written hb hsets rest

/-- **Writing, then reading, gives a well-formed block back**, and nothing else.
All that can be found about it is that it has fields but no citation key. -/
theorem Document.parse_written {b : Block} (h : b.IsWellFormed) :
    let t := ({} : Layout).block b
    (parse t).1.nodes = [.block { b with body := b.body.unmarked, source := some t }] ∧
    (parse t).2 =
      if b.lacksKey then [{ cause := .missingKey b.command, entry := some ⟨0, none⟩ }] else [] := by
  obtain ⟨s, hs, hread⟩ := Block.read?_default h []
  rw [List.append_nil] at hread
  have hpieces := Piece.ofText_eq_of_cut (Piece.Cut.block hread .nil)
  rw [← hs] at hpieces
  have hwarnings : (parse (({} : Layout).block b)).2 =
      (Piece.ofText (({} : Layout).block b)).zipIdx.flatMap fun q => q.1.warnings q.2 := rfl
  refine ⟨by rw [nodes_parse, hpieces, hs]; rfl, ?_⟩
  rw [hwarnings, hpieces]
  by_cases hkey : b.lacksKey = true
  · have hnone : b.body.unmarked.entry?.bind Entry.key = none := by
      obtain ⟨command, d, body, source⟩ := b
      cases body with
      | entry e =>
          simp only [Block.lacksKey, Block.entry?, Body.entry?, Bool.and_eq_true,
            Option.isNone_iff_eq_none] at hkey
          exact hkey.1
      | _ => rfl
    rw [if_pos hkey, if_pos hkey]
    simp [Piece.warnings, Block.entry?, hnone]
  · rw [if_neg hkey, if_neg hkey]
    rfl

/-- An entry without a citation key, with an empty value and a mark in braces. -/
theorem Document.parse_written_keyless :
    (parse "@misc(\n  a = ,\n  b = \x7bx\x7by\x7d\x7d # \"\x7b\"\x7d\"\n)".toList).1.nodes =
      [.block ⟨"misc".toList, .paren,
        .entry { fields := [⟨['a'], []⟩,
          ⟨['b'], [.braced "x\x7by\x7d".toList, .quoted "\x7b\"\x7d".toList]⟩] },
        some "@misc(\n  a = ,\n  b = \x7bx\x7by\x7d\x7d # \"\x7b\"\x7d\"\n)".toList⟩] :=
  (parse_written (b := ⟨"misc".toList, .paren,
    .entry { fields := [⟨['a'], []⟩,
      ⟨['b'], [.braced "x\x7by\x7d".toList, .quoted "\x7b\"\x7d".toList]⟩] }, none⟩)
    (by decide +kernel)).1

end Bibliography
