import Mathlib.Data.List.Basic
import Bibliography.Render
import Bibliography.Proofs.Text.Runs
import Bibliography.Proofs.Unicode.Case

/-!
# Bibliography.Proofs.Layout.Alignment

The columns of the ` = ` of an entry whose layout pads the names to the longest one
of the entry.  The names are measured as the document spells them, and padded as
the layout does.  In lower case a name is not shorter, and it is longer by one
character for every capital I with a point, the one character whose lower case is
two.  So the columns are the same, and the one after the longest name as written,
if no name has become longer than the longest was, or if all names have become
equally long.

* `Text.length_toLower` — the length of lower case;
* `Layout.column_upTo` — the column of the ` = ` of a field;
* `Layout.isAligned_iff` — the entries whose values are aligned.
-/

namespace Bibliography

/-! ## the length of lower case -/

namespace Unicode

theorem several_lowerMapping : ∀ p ∈ lowerMapping.several, p.1 = 'İ'.toNat ∧ p.2.length = 2 := by
  decide

theorem length_lowerChar {c : Char} (hc : c ≠ 'İ') : (lowerChar c).length = 1 := by
  unfold lowerChar
  split
  · rfl
  · obtain hsame | ⟨p, hp, hcode, -⟩ | ⟨r, -, n, -, happly⟩ := lowerMapping.apply_cases c
    · rw [hsame]
      rfl
    · exact absurd (Char.toNat_inj.1 (hcode.symm.trans (several_lowerMapping p hp).1)) hc
    · rw [happly]
      rfl

theorem length_lowerFrom (before s : Text) :
    (lowerFrom before s).length = s.length + s.count 'İ' := by
  induction s generalizing before with
  | nil => rfl
  | cons c s ih =>
      rw [lowerFrom, List.length_append, ih, List.length_cons]
      by_cases hc : c = 'İ'
      · subst hc
        rw [List.count_cons_self, if_neg (by decide), show (lowerChar 'İ').length = 2 by decide]
        omega
      · rw [List.count_cons_of_ne hc]
        split
        · rw [List.length_singleton]
          omega
        · rw [length_lowerChar hc]
          omega

end Unicode

namespace Text

/-- **The length of lower case**: the capital I with a point becomes two characters. -/
theorem length_toLower (s : Text) : s.toLower.length = s.length + s.count 'İ' :=
  Unicode.length_lowerFrom [] s

/-! ## columns -/

/-- The column at the end of a text: the number of the characters after its last line feed. -/
def column (s : Text) : Nat := (s.reverse.takeWhile (· ≠ '\n')).length

theorem column_append {s t : Text} (hs : ['\n'] <:+ s) (ht : '\n' ∉ t) :
    column (s ++ t) = t.length := by
  obtain ⟨s, rfl⟩ := hs
  have hreverse : (s ++ ['\n'] ++ t).reverse = t.reverse ++ '\n' :: s.reverse := by simp
  have ht : '\n' ∉ t.reverse := fun h => ht (List.mem_reverse.1 h)
  rw [column, hreverse, (cut_at_first ht s.reverse).1, List.length_reverse]

end Text

namespace Layout

variable {l : Layout} {command : Text} {d : Delimiter} {e : Entry} {before after : List Field}
  {f : Field}

/-! ## an entry up to a separator -/

/-- The width to which the names of an entry are padded. -/
def entryWidth (l : Layout) (e : Entry) : Nat := l.nameWidth (e.fields.map Field.name)

/-- An entry as it is written up to the ` = ` of a field that comes after the fields `before`. -/
def upTo (l : Layout) (command : Text) (d : Delimiter) (e : Entry) (before : List Field)
    (f : Field) : Text :=
  l.command command ++ d.opening :: e.key.getD [] ++ keyEnd e.key.isSome
    ++ before.flatMap (l.field (l.entryWidth e) false)
    ++ (l.indentText ++ l.fieldName (l.entryWidth e) f.name)

theorem fields_append (l : Layout) (width : Nat) (before : List Field) (f : Field)
    (after : List Field) : l.fields width (before ++ f :: after) =
      before.flatMap (l.field width false) ++ l.fields width (f :: after) := by
  induction before with
  | nil => rfl
  | cons g before ih =>
      cases before with
      | nil => simp [fields]
      | cons h before =>
          rw [List.flatMap_cons, List.append_assoc, ← ih]
          rfl

/-- After that part of the entry come the ` = ` and the value. -/
theorem exists_entry_eq (he : e.fields = before ++ f :: after) :
    ∃ r, l.entry command d e = l.upTo command d e before f ++ equals
      ++ l.value (l.valueColumn (l.entryWidth e) f.name) f.value ++ r := by
  have hne : e.fields ≠ [] := by simp [he]
  obtain ⟨r, hr⟩ : ∃ r, l.fields (l.entryWidth e) (f :: after) =
      l.indentText ++ l.fieldName (l.entryWidth e) f.name ++ equals
        ++ l.value (l.valueColumn (l.entryWidth e) f.name) f.value ++ r := by
    cases after with
    | nil => exact ⟨l.fieldEnd true, rfl⟩
    | cons g after =>
        exact ⟨l.fieldEnd false ++ l.fields (l.entryWidth e) (g :: after), by
          simp [fields, field]⟩
  refine ⟨r ++ [d.closing], ?_⟩
  have hfields := l.fields_append (l.entryWidth e) before f after
  rw [← he, hr] at hfields
  rw [entryWidth] at hfields ⊢
  simp only [entry, if_neg hne, hfields, upTo, entryWidth]
  simp

/-- A field begins on a line of its own. -/
theorem upTo_suffix (l : Layout) (command : Text) (d : Delimiter) (e : Entry)
    (before : List Field) : ['\n'] <:+ l.command command ++ d.opening :: e.key.getD []
      ++ keyEnd e.key.isSome ++ before.flatMap (l.field (l.entryWidth e) false) := by
  obtain rfl | ⟨before, g, rfl⟩ := List.eq_nil_or_concat' before
  · have hend : ['\n'] <:+ keyEnd e.key.isSome := by
      cases e.key.isSome <;> simp [keyEnd]
    rw [List.flatMap_nil, List.append_nil]
    exact hend.trans (List.suffix_append _ _)
  · have hend : ['\n'] <:+ l.field (l.entryWidth e) false g := by
      refine List.IsSuffix.trans ?_ (List.suffix_append _ _)
      simp [fieldEnd]
    rw [List.flatMap_append, List.flatMap_singleton, ← List.append_assoc]
    exact hend.trans (List.suffix_append _ _)

theorem newline_not_mem_lead (hf : '\n' ∉ f.name) (width : Nat) :
    '\n' ∉ l.indentText ++ l.fieldName width f.name := by
  have hspelling : '\n' ∉ l.spelling f.name := by
    unfold spelling
    split
    · exact fun h => (Text.mem_toLower h).elim hf (by decide)
    · exact hf
  have hindent : '\n' ∉ l.indentText := by
    unfold indentText
    cases l.indent <;> simp [Text.spaces]
  simp [fieldName, Text.spaces, hspelling, hindent]

/-- **The column of a separator** is the one after the indentation and the padded name. -/
theorem column_upTo (hf : '\n' ∉ f.name) : (l.upTo command d e before f).column =
    l.indentWidth + max (l.entryWidth e) (l.spelling f.name).length := by
  rw [upTo, Text.column_append (upTo_suffix l command d e before) (newline_not_mem_lead hf _)]
  simp only [indentWidth, fieldName, Text.spaces, List.length_append, List.length_replicate]
  omega

/-! ## aligned entries -/

/-- The length of the longest name of an entry as a layout spells it. -/
structure IsLongest (l : Layout) (e : Entry) (n : Nat) : Prop where
  exists_eq : ∃ f ∈ e.fields, (l.spelling f.name).length = n
  le : ∀ f ∈ e.fields, (l.spelling f.name).length ≤ n

/-- The ` = ` of every field of an entry stands after the indentation and the longest name. -/
def IsAligned (l : Layout) (command : Text) (d : Delimiter) (e : Entry) : Prop :=
  ∃ n, l.IsLongest e n ∧ ∀ before f after, e.fields = before ++ f :: after →
    (l.upTo command d e before f).column = l.indentWidth + n

/-- No name becomes longer than the longest name was, or all names become equally long. -/
def CanAlign (l : Layout) (e : Entry) : Prop :=
  (∀ f ∈ e.fields, (l.spelling f.name).length ≤ l.entryWidth e) ∨
    ∀ f ∈ e.fields, ∀ g ∈ e.fields, (l.spelling f.name).length = (l.spelling g.name).length

instance (l : Layout) (e : Entry) : Decidable (l.CanAlign e) :=
  inferInstanceAs (Decidable (_ ∨ _))

theorem length_le_spelling (l : Layout) (name : Text) : name.length ≤ (l.spelling name).length := by
  unfold spelling
  split
  · rw [Text.length_toLower]
    exact Nat.le_add_right _ _
  · exact Nat.le_refl _

theorem length_spelling (h : l.lowercase = false ∨ 'İ' ∉ f.name) :
    (l.spelling f.name).length = f.name.length := by
  unfold spelling
  split
  · next hlower =>
    have hcount := List.count_eq_zero.2 (h.resolve_left (by simp [hlower]))
    rw [Text.length_toLower, hcount, Nat.add_zero]
  · rfl

/-- Names are padded to the longest of the entry. -/
theorem entryWidth_spec (hl : l.align = some .auto) (he : e.fields ≠ []) :
    (∃ f ∈ e.fields, f.name.length = l.entryWidth e) ∧
      ∀ f ∈ e.fields, f.name.length ≤ l.entryWidth e := by
  have hwidth : l.entryWidth e = ((e.fields.map Field.name).map List.length).foldl max 0 := by
    simp [entryWidth, nameWidth, hl]
  obtain ⟨n, hn⟩ : ∃ n, ((e.fields.map Field.name).map List.length).max? = some n :=
    Option.isSome_iff_exists.1 (by simpa using he)
  obtain ⟨hmem, hle⟩ := List.max?_eq_some_iff.1 hn
  rw [List.foldl_max, hn, Option.getD_some, Nat.max_eq_right (Nat.zero_le n)] at hwidth
  rw [hwidth]
  constructor
  · simpa using hmem
  · intro f hf
    exact hle _ (List.mem_map_of_mem (List.mem_map_of_mem hf))

/-- Where all separators stand at one column, no name becomes longer than the padding, or all do
equally. -/
theorem canAlign_of_column {n : Nat} (hle : ∀ f ∈ e.fields, (l.spelling f.name).length ≤ n)
    (hmax : ∀ f ∈ e.fields, max (l.entryWidth e) (l.spelling f.name).length = n) :
    l.CanAlign e := by
  by_cases hn : n ≤ l.entryWidth e
  · exact .inl fun f hf => Nat.le_trans (hle f hf) hn
  · refine .inr fun f hf g hg => ?_
    have hf := hmax f hf
    have hg := hmax g hg
    omega

theorem CanAlign.exists_longest (hl : l.align = some .auto) (he : e.fields ≠ [])
    (h : l.CanAlign e) : ∃ n, l.IsLongest e n ∧
      ∀ f ∈ e.fields, max (l.entryWidth e) (l.spelling f.name).length = n := by
  obtain ⟨⟨g, hg, hgwidth⟩, -⟩ := entryWidth_spec hl he
  have hlonger := l.length_le_spelling g.name
  obtain hshort | hequal := h
  · have hgle := hshort g hg
    refine ⟨l.entryWidth e, ⟨⟨g, hg, by omega⟩, hshort⟩, fun f hf => ?_⟩
    exact Nat.max_eq_left (hshort f hf)
  · refine ⟨_, ⟨⟨g, hg, rfl⟩, fun f hf => Nat.le_of_eq (hequal f hf g hg)⟩, fun f hf => ?_⟩
    have hsame := hequal f hf g hg
    omega

/-- **The entries whose values are aligned.**  After the part of an entry whose column is taken come
the ` = ` and the value.  With names padded to the longest one, all separators stand at the column
after the longest name as it is spelled, exactly if the spelling of no name is longer than the
padding, or all are equally long; and so it is without lower case, and for names without the one
character that becomes two. -/
theorem isAligned_iff (hl : l.align = some .auto) (he : e.fields ≠ [])
    (hnames : ∀ f ∈ e.fields, '\n' ∉ f.name) (command : Text) (d : Delimiter) :
    (∀ before f after, e.fields = before ++ f :: after → ∃ r, l.entry command d e =
      l.upTo command d e before f ++ equals
        ++ l.value (l.valueColumn (l.entryWidth e) f.name) f.value ++ r) ∧
    (l.IsAligned command d e ↔ l.CanAlign e) ∧
    (l.lowercase = false ∨ (∀ f ∈ e.fields, 'İ' ∉ f.name) → l.IsAligned command d e) := by
  have hcolumn {before after : List Field} {f : Field} (h : e.fields = before ++ f :: after) :
      (l.upTo command d e before f).column =
        l.indentWidth + max (l.entryWidth e) (l.spelling f.name).length :=
    column_upTo (hnames f (by simp [h]))
  have hiff : l.IsAligned command d e ↔ l.CanAlign e := by
    constructor
    · rintro ⟨n, ⟨-, hle⟩, haligned⟩
      refine canAlign_of_column hle fun f hf => ?_
      obtain ⟨before, after, hsplit⟩ := List.append_of_mem hf
      have hsame := haligned before f after hsplit
      rw [hcolumn hsplit] at hsame
      omega
    · intro hcan
      obtain ⟨n, hlongest, hmax⟩ := hcan.exists_longest hl he
      refine ⟨n, hlongest, fun before f after h => ?_⟩
      rw [hcolumn h, hmax f (by simp [h])]
  refine ⟨fun before f after h => exists_entry_eq h, hiff, fun hlower => ?_⟩
  refine hiff.2 (.inl fun f hf => ?_)
  rw [length_spelling (hlower.imp_right fun h => h f hf)]
  exact (entryWidth_spec hl he).2 f hf

/-- Names that are longer in lower case, and the longest name among them. -/
theorem isAligned_iff_dotted :
    let l : Layout := { align := some .auto, lowercase := true }
    let e : Entry :=
      { fields := [⟨"İ".toList, [.literal ['1']]⟩, ⟨"Year".toList, [.literal ['2']]⟩] }
    l.entry "misc".toList .brace e = "@misc\x7b\n  i\u0307   = 1,\n  year = 2\n\x7d".toList ∧
      l.IsAligned "misc".toList .brace e := by
  intro l e
  have hnames : ∀ f ∈ e.fields, '\n' ∉ f.name := by decide
  exact ⟨by decide, (isAligned_iff rfl (by decide) hnames "misc".toList .brace).2.1.2 (by decide)⟩

/-- A name that becomes longer than the longest name was stands alone. -/
theorem isAligned_overlong :
    let l : Layout := { align := some .auto, lowercase := true }
    let e : Entry :=
      { fields := [⟨"İİ".toList, [.literal ['1']]⟩, ⟨['a'], [.literal ['2']]⟩] }
    l.entry "misc".toList .brace e =
        "@misc\x7b\n  i\u0307i\u0307 = 1,\n  a  = 2\n\x7d".toList ∧
      ¬ l.IsAligned "misc".toList .brace e := by
  intro l e
  refine ⟨by decide, ?_⟩
  rintro ⟨n, -, haligned⟩
  have hfirst := haligned [] ⟨"İİ".toList, [.literal ['1']]⟩ [⟨['a'], [.literal ['2']]⟩] rfl
  have hsecond := haligned [⟨"İİ".toList, [.literal ['1']]⟩] ⟨['a'], [.literal ['2']]⟩ [] rfl
  exact absurd (hfirst.trans hsecond.symm) (by decide)

end Layout

end Bibliography
