import Bibliography.CitationKey.Generate
import Bibliography.Proofs.Scan.Classes
import Bibliography.Proofs.Text.Runs
import Bibliography.Proofs.Text.Split
import Bibliography.Proofs.Unicode.Capitals

/-!
# Bibliography.Proofs.CitationKey.Characters

The characters of generated keys.  Literal text is filtered, words are runs of ASCII
letters and digits, and only a year brings in anything else: the decimal digits of
other scripts.  Neither kind is lost by a change of case, so a modifier brings in
nothing new.  What is said of one class of such characters is therefore said of
every class between the two (`IsKeyClass`).

* `IsKeyClass.value`, `IsKeyClass.results` — markers and modifiers;
* `KeyTemplate.mem_class_of_base` — the base of a key, by the parts of the template;
* `Document.isRun_keysFor` — generated keys can be read again.
-/

namespace Bibliography

namespace CitationKey

/-! ## classes -/

/-- A character that a key can have: one that is kept in literal text, or a decimal digit of any
script. -/
def IsPlain (c : Char) : Prop := TemplatePart.isKept c = true ∨ Unicode.isDecimal c = true

/-- A class of characters that keys can have, with all those of them that literal text keeps. -/
structure IsKeyClass (p : Char → Prop) : Prop where
  kept : ∀ c, TemplatePart.isKept c = true → p c
  plain : ∀ c, p c → IsPlain c

theorem isKeyClass_isPlain : IsKeyClass IsPlain := ⟨fun _ => .inl, fun _ => id⟩

theorem isKeyClass_isKept : IsKeyClass fun c => TemplatePart.isKept c = true :=
  ⟨fun _ => id, fun _ => .inl⟩

theorem isKept_of_isAlnum {c : Char} (h : Text.isAlnum c = true) :
    TemplatePart.isKept c = true := by
  simp [TemplatePart.isKept, h]

theorem lt_of_isKept {c : Char} (h : TemplatePart.isKept c = true) : c.toNat < 128 := by
  simp only [TemplatePart.isKept, Text.isAlnum, Char.isAlphanum, Bool.or_eq_true,
    decide_eq_true_eq] at h
  obtain (((halpha | hdigit) | rfl) | rfl) | rfl := h
  · exact Unicode.lt_of_isAlpha halpha
  · exact Unicode.lt_of_isDigit hdigit
  all_goals decide

/-- In ASCII a decimal digit is a digit, and what is kept is kept in another case and is a character
of names. -/
theorem ascii_isKept {c : Char} (h : c.toNat < 128) :
    (Unicode.isDecimal c = true → c.isDigit = true) ∧
      (TemplatePart.isKept c = true → TemplatePart.isKept c.toLower = true ∧
        TemplatePart.isKept c.toUpper = true ∧ Scan.isKeyChar c = true) :=
  Unicode.of_ascii c h (by decide +kernel)

/-- A character of a key in another case is that character, or kept in literal text. -/
theorem IsPlain.cases {c : Char} (h : IsPlain c) :
    (Unicode.lowerChar c = [c] ∨ Unicode.lowerChar c = [c.toLower] ∧
        TemplatePart.isKept c.toLower = true) ∧
      (Unicode.upperChar c = [c] ∨ Unicode.upperChar c = [c.toUpper] ∧
        TemplatePart.isKept c.toUpper = true) := by
  obtain hkept | hdecimal := h
  · have hascii := lt_of_isKept hkept
    obtain ⟨hlower, hupper, -⟩ := (ascii_isKept hascii).2 hkept
    refine ⟨.inr ⟨?_, hlower⟩, .inr ⟨?_, hupper⟩⟩
    · rw [Unicode.lowerChar, if_pos hascii]
    · rw [Unicode.upperChar, if_pos hascii]
  · obtain ⟨hlower, hupper⟩ := Unicode.case_of_isDecimal hdecimal
    exact ⟨.inl hlower, .inl hupper⟩

theorem IsPlain.ne_sigma {c : Char} (h : IsPlain c) : c ≠ 'Σ' := by
  rintro rfl
  revert h
  unfold IsPlain
  decide +kernel

/-- A character of a key can be read in one. -/
theorem IsPlain.isKeyChar {c : Char} (h : IsPlain c) : Scan.isKeyChar c = true := by
  obtain hkept | hdecimal := h
  · exact ((ascii_isKept (lt_of_isKept hkept)).2 hkept).2.2
  · by_cases hascii : c.toNat < 128
    · exact Scan.isKeyChar_of_isDigit ((ascii_isKept hascii).1 hdecimal)
    · exact Scan.isKeyChar_of_isLetterlike (.inr (Nat.le_of_not_lt hascii))

/-! ## changes of case -/

namespace IsKeyClass

variable {p : Char → Prop} {s t : Text}

theorem lowerChar (hp : IsKeyClass p) {c : Char} (hc : p c) : ∀ x ∈ Unicode.lowerChar c, p x := by
  obtain hsame | ⟨hlower, hkept⟩ := (hp.plain c hc).cases.1
  · rw [hsame]
    exact List.forall_mem_singleton.2 hc
  · rw [hlower]
    exact List.forall_mem_singleton.2 (hp.kept _ hkept)

theorem upperChar (hp : IsKeyClass p) {c : Char} (hc : p c) : ∀ x ∈ Unicode.upperChar c, p x := by
  obtain hsame | ⟨hupper, hkept⟩ := (hp.plain c hc).cases.2
  · rw [hsame]
    exact List.forall_mem_singleton.2 hc
  · rw [hupper]
    exact List.forall_mem_singleton.2 (hp.kept _ hkept)

theorem toLower (hp : IsKeyClass p) (hs : ∀ c ∈ s, p c) : ∀ c ∈ s.toLower, p c := by
  have hfrom (before : Text) : ∀ c ∈ Unicode.lowerFrom before s, p c := by
    induction s generalizing before with
    | nil => exact List.forall_mem_nil _
    | cons c s ih =>
        obtain ⟨hc, hs⟩ := List.forall_mem_cons.1 hs
        rw [Unicode.lowerFrom, if_neg (hp.plain c hc).ne_sigma]
        exact List.forall_mem_append.2 ⟨hp.lowerChar hc, ih hs _⟩
  exact hfrom []

theorem toUpper (hp : IsKeyClass p) (hs : ∀ c ∈ s, p c) : ∀ c ∈ s.toUpper, p c := by
  intro x hx
  obtain ⟨c, hc, hx⟩ := List.mem_flatMap.1 hx
  exact hp.upperChar (hs c hc) x hx

theorem capitalize (hp : IsKeyClass p) (hs : ∀ c ∈ s, p c) : ∀ c ∈ s.capitalize, p c := by
  cases s with
  | nil => exact List.forall_mem_nil _
  | cons c s =>
      obtain ⟨hc, hs⟩ := List.forall_mem_cons.1 hs
      exact List.forall_mem_append.2 ⟨hp.upperChar hc, hs⟩

/-! ## markers -/

theorem words (hp : IsKeyClass p) {w : Text} (h : w ∈ CitationKey.words s) : ∀ c ∈ w, p c := by
  intro c hc
  have hcut := Text.eq_false_of_mem_splitWhere (List.mem_filter.1 h).1 c hc
  exact hp.kept c (isKept_of_isAlnum (by simpa using hcut))

theorem flatten_words (hp : IsKeyClass p) (s : Text) : ∀ c ∈ (CitationKey.words s).flatten, p c := by
  intro c hc
  obtain ⟨w, hw, hc⟩ := List.mem_flatten.1 hc
  exact hp.words hw c hc

theorem titleWords (hp : IsKeyClass p) {w : Text} (h : w ∈ CitationKey.titleWords s) :
    ∀ c ∈ w, p c := by
  have hw : w ∈ CitationKey.words s := by
    unfold CitationKey.titleWords at h
    cases hws : (CitationKey.words s).filter fun w => Text.toLower w ∉ functionWords with
    | nil =>
        simp only [hws] at h
        exact h
    | cons v vs =>
        simp only [hws] at h
        rw [← hws] at h
        exact (List.mem_filter.1 h).1
  exact hp.words hw

/-- The surnames of an author list are written with letters and digits. -/
theorem surnames (hp : IsKeyClass p) {w : Text} (h : w ∈ (Authors.ofList s).surnames) :
    ∀ c ∈ w, p c := by
  obtain ⟨name, -, rfl⟩ := List.mem_map.1 (List.mem_filter.1 h).1
  exact hp.flatten_words _

theorem etAl (hp : IsKeyClass p) : ∀ c ∈ etAl, p c := by
  have hkept : ∀ c ∈ CitationKey.etAl, TemplatePart.isKept c = true := by decide
  exact fun c hc => hp.kept c (hkept c hc)

theorem firstTwo (hp : IsKeyClass p) {a : Authors} (h : ∀ w ∈ a.surnames, ∀ c ∈ w, p c) :
    ∀ c ∈ a.firstTwo, p c := by
  obtain ⟨surnames, truncated⟩ := a
  unfold Authors.firstTwo
  match surnames, truncated with
  | [], _ => exact List.forall_mem_nil _
  | [only], false => exact h only List.mem_cons_self
  | [only], true => exact List.forall_mem_append.2 ⟨h only List.mem_cons_self, hp.etAl⟩
  | [one, two], false => exact List.forall_mem_append.2 ⟨h one (by simp), h two (by simp)⟩
  | [one, two], true => exact List.forall_mem_append.2 ⟨h one List.mem_cons_self, hp.etAl⟩
  | one :: two :: three :: rest, _ =>
      exact List.forall_mem_append.2 ⟨h one List.mem_cons_self, hp.etAl⟩

theorem first (hp : IsKeyClass p) {a : Authors} (h : ∀ w ∈ a.surnames, ∀ c ∈ w, p c)
    (limit : Option Nat) : ∀ c ∈ a.first limit, p c := by
  have htaken : ∀ c ∈ (a.surnames.take (limit.getD a.surnames.length)).flatten, p c := by
    intro c hc
    obtain ⟨w, hw, hc⟩ := List.mem_flatten.1 hc
    exact h w (List.mem_of_mem_take hw) c hc
  unfold Authors.first
  dsimp only
  split
  · exact List.forall_mem_append.2 ⟨htaken, hp.etAl⟩
  · exact htaken

theorem capitals (hp : IsKeyClass p) {ws : List Text} (h : ∀ w ∈ ws, ∀ c ∈ w, p c) :
    ∀ c ∈ ws.flatMap Text.capitalize, p c := by
  intro c hc
  obtain ⟨w, hw, hc⟩ := List.mem_flatMap.1 hc
  exact hp.capitalize (h w hw) c hc

/-- **The value of a marker**, but for the year, is made of what literal text keeps. -/
theorem value (hp : IsKeyClass p) (index : FieldIndex) (id : NodeId) {m : Marker}
    (hm : m ≠ .year) : ∀ c ∈ m.value index id, p c := by
  have hauthors : ∀ w ∈ (((index.value? id "author".toList).map Authors.ofList).getD {}).surnames,
      ∀ c ∈ w, p c := by
    cases index.value? id "author".toList with
    | none => exact List.forall_mem_nil _
    | some s => exact fun _ => hp.surnames
  have htitle : ∀ w ∈ ((index.value? id "title".toList).map CitationKey.titleWords).getD [],
      ∀ c ∈ w, p c := by
    cases index.value? id "title".toList with
    | none => exact List.forall_mem_nil _
    | some s => exact fun _ => hp.titleWords
  unfold Marker.value
  dsimp only
  generalize ((index.value? id "author".toList).map Authors.ofList).getD {} = authors at hauthors ⊢
  generalize ((index.value? id "title".toList).map CitationKey.titleWords).getD [] = title
    at htitle ⊢
  split
  · cases hs : authors.surnames with
    | nil => exact List.forall_mem_nil _
    | cons w ws =>
        rw [hs] at hauthors
        exact hauthors w List.mem_cons_self
  · exact hp.firstTwo hauthors
  · exact hp.first hauthors _
  · exact hp.capitals htitle
  · exact hp.capitals fun w hw => htitle w (List.mem_of_mem_take hw)
  · exact hp.capitals fun w hw => htitle w (List.mem_of_mem_take hw)
  · exact hp.capitals fun w hw => htitle w (List.mem_of_mem_take hw)
  · exact absurd rfl hm
  · exact List.forall_mem_nil _
  · exact List.forall_mem_nil _
  · next name =>
    cases index.value? id name with
    | none => exact List.forall_mem_nil _
    | some s => exact hp.flatten_words s

end IsKeyClass

/-- The digits of a year are decimal digits. -/
theorem isDecimal_yearDigits (s : Text) : ∀ c ∈ yearDigits s, Unicode.isDecimal c = true := by
  induction s with
  | nil => exact List.forall_mem_nil _
  | cons c s ih =>
      rw [yearDigits]
      split
      · next hrun => exact List.all_eq_true.1 hrun.2
      · exact ih

theorem isDecimal_value_year (index : FieldIndex) (id : NodeId) :
    ∀ c ∈ Marker.year.value index id, Unicode.isDecimal c = true := by
  unfold Marker.value
  dsimp only
  cases index.value? id "year".toList <|> index.value? id "date".toList with
  | none => exact List.forall_mem_nil _
  | some s => exact isDecimal_yearDigits s

theorem isPlain_value (index : FieldIndex) (id : NodeId) (m : Marker) :
    ∀ c ∈ m.value index id, IsPlain c := by
  by_cases hm : m = .year
  · subst hm
    exact fun c hc => .inr (isDecimal_value_year index id c hc)
  · exact isKeyClass_isPlain.value index id hm

/-! ## templates -/

namespace IsKeyClass

variable {p : Char → Prop}

theorem result (hp : IsKeyClass p) {value t : Text} {m : Modifier} (h : ∀ c ∈ value, p c)
    (ht : Modifier.result? value m = some t) : ∀ c ∈ t, p c := by
  cases m with
  | upper =>
      cases ht
      exact hp.toUpper h
  | lower =>
      cases ht
      exact hp.toLower h
  | capitalize =>
      cases ht
      exact hp.capitalize (hp.toLower h)
  | required =>
      rw [Modifier.result?] at ht
      split at ht
      · cases ht
      · cases ht
        exact h
  | truncate n =>
      cases ht
      exact fun c hc => h c (List.mem_of_mem_take hc)

/-- **Modifiers** bring in nothing new. -/
theorem results (hp : IsKeyClass p) {value t : Text} {ms : List Modifier} (h : ∀ c ∈ value, p c)
    (ht : ms.foldlM Modifier.result? value = some t) : ∀ c ∈ t, p c := by
  induction ms generalizing value with
  | nil =>
      cases ht
      exact h
  | cons m ms ih =>
      rw [List.foldlM_cons] at ht
      obtain ⟨u, hu, ht⟩ := Option.bind_eq_some_iff.1 ht
      exact ih (hp.result h hu) ht

/-- What a part of a template gives, if its year does. -/
theorem part (hp : IsKeyClass p) {index : FieldIndex} {id : NodeId} {part : TemplatePart}
    {base : KeyBase}
    (hyear : ∀ ms v, part = .marker .year ms →
      ms.foldlM Modifier.result? (Marker.year.value index id) = some v → ∀ c ∈ v, p c)
    (h : part.base? index id = some base) : ∀ c, some c ∈ base → p c := by
  have hmap {t : Text} (ht : ∀ c ∈ t, p c) : ∀ c, some c ∈ t.map some → p c := by
    intro c hc
    obtain ⟨x, hx, heq⟩ := List.mem_map.1 hc
    exact Option.some.inj heq ▸ ht x hx
  cases part with
  | literal t =>
      cases h
      exact hmap fun c hc => hp.kept c (List.mem_filter.1 hc).2
  | marker m ms =>
      rw [TemplatePart.base?] at h
      split at h
      · cases h
        intro c hc
        cases List.mem_singleton.1 hc
      · obtain ⟨t, ht, rfl⟩ := Option.map_eq_some_iff.1 h
        by_cases hm : m = .year
        · subst hm
          exact hmap (hyear ms t rfl ht)
        · exact hmap (hp.results (hp.value index id hm) ht)

end IsKeyClass

end CitationKey

namespace KeyTemplate

open CitationKey

variable {index : FieldIndex} {id : NodeId} {t : KeyTemplate} {base : KeyBase}

/-- The bases of the parts of a template, one after the other. -/
theorem mem_flatten_iff {bases : List KeyBase} {o : Option Char}
    (h : t.mapM (TemplatePart.base? index id) = some bases) :
    o ∈ bases.flatten ↔ ∃ part ∈ t, ∃ b, part.base? index id = some b ∧ o ∈ b := by
  induction t generalizing bases with
  | nil =>
      cases h
      simp
  | cons part t ih =>
      rw [List.mapM_cons] at h
      obtain ⟨first, hfirst, h⟩ := Option.bind_eq_some_iff.1 h
      obtain ⟨rest, hrest, h⟩ := Option.bind_eq_some_iff.1 h
      cases h
      simp [ih hrest, hfirst]

/-- A base is made of what the parts of the template give. -/
theorem mem_base_iff (h : t.base? index id = some base) {o : Option Char} :
    o ∈ base ↔ ∃ part ∈ t, ∃ b, part.base? index id = some b ∧ o ∈ b := by
  obtain ⟨bases, hbases, rfl⟩ := Option.map_eq_some_iff.1 (Option.filter_eq_some_iff.1 h).1
  exact mem_flatten_iff hbases

theorem exists_mem_base (h : t.base? index id = some base) : ∃ c, some c ∈ base := by
  obtain ⟨o, ho, hsome⟩ := List.any_eq_true.1 (Option.filter_eq_some_iff.1 h).2
  obtain ⟨c, rfl⟩ := Option.isSome_iff_exists.1 hsome
  exact ⟨c, ho⟩

/-- **The base of a key** is made of what literal text keeps, and of its years. -/
theorem mem_class_of_base {p : Char → Prop} (hp : IsKeyClass p)
    (hyear : ∀ ms v, .marker .year ms ∈ t →
      ms.foldlM Modifier.result? (Marker.year.value index id) = some v → ∀ c ∈ v, p c)
    (h : t.base? index id = some base) : ∀ c, some c ∈ base → p c := by
  intro c hc
  obtain ⟨part, hpart, b, hb, hc⟩ := (mem_base_iff h).1 hc
  exact hp.part (fun ms v heq hv => hyear ms v (heq ▸ hpart) hv) hb c hc

/-- **The base of a key** is made of characters that a key can have. -/
theorem isPlain_base (h : t.base? index id = some base) : ∀ c, some c ∈ base → IsPlain c :=
  mem_class_of_base isKeyClass_isPlain
    (fun _ _ _ hv => isKeyClass_isPlain.results (isPlain_value index id .year) hv) h

end KeyTemplate

/-! ## keys -/

namespace CitationKey

theorem isKept_letter : ∀ n < 26, TemplatePart.isKept (letter n) = true := by decide

theorem isKept_letterSuffix (n : Nat) : ∀ c ∈ letterSuffix n, TemplatePart.isKept c = true := by
  fun_induction letterSuffix n with
  | case1 n h => exact List.forall_mem_singleton.2 (isKept_letter n h)
  | case2 n h ih =>
      refine List.forall_mem_append.2 ⟨ih, ?_⟩
      exact List.forall_mem_singleton.2 (isKept_letter _ (Nat.mod_lt _ (by omega)))

/-- Suffixes are made of letters or digits. -/
theorem isKept_suffix (numbers : Bool) (n : Nat) :
    ∀ c ∈ suffix numbers n, TemplatePart.isKept c = true := by
  cases n with
  | zero => exact List.forall_mem_nil _
  | succ n =>
      rw [suffix]
      split
      · intro c hc
        have hdigit : c.isDigit = true := Nat.isDigit_of_mem_toDigits (by omega) (by omega) hc
        exact isKept_of_isAlnum (by simp [Text.isAlnum, Char.isAlphanum, hdigit])
      · exact isKept_letterSuffix n

end CitationKey

namespace KeyBase

variable {base : KeyBase} {s : Text} {c : Char}

/-- A base with its suffix has the characters of the base. -/
theorem mem_withSuffix_of_mem (h : some c ∈ base) : c ∈ base.withSuffix s := by
  unfold withSuffix
  split
  · exact List.mem_flatMap.2 ⟨some c, h, List.mem_singleton_self c⟩
  · exact List.mem_append_left _ (List.mem_filterMap.2 ⟨some c, h, rfl⟩)

/-- It has no others but those of the suffix. -/
theorem mem_of_mem_withSuffix (h : c ∈ base.withSuffix s) : some c ∈ base ∨ c ∈ s := by
  unfold withSuffix at h
  split at h
  · obtain ⟨o, ho, hc⟩ := List.mem_flatMap.1 h
    cases o with
    | none => exact .inr hc
    | some x =>
        obtain rfl := List.mem_singleton.1 hc
        exact .inl ho
  · obtain hc | hc := List.mem_append.1 h
    · obtain ⟨o, ho, rfl⟩ := List.mem_filterMap.1 hc
      exact .inl ho
    · exact .inr hc

end KeyBase

namespace CitationKey

/-- The keys that are assigned are the bases with suffixes. -/
theorem exists_of_mem_assign {used : List Text} {numbers : Bool} {bases : List (NodeId × KeyBase)}
    {id : NodeId} {key : Text} (h : (id, key) ∈ assign used numbers bases) :
    ∃ base n, (id, base) ∈ bases ∧ key = base.withSuffix (suffix numbers n) := by
  induction bases generalizing used with
  | nil => cases h
  | cons p bases ih =>
      obtain ⟨i, base⟩ := p
      rw [assign] at h
      obtain h | h := List.mem_cons.1 h
      · cases h
        exact ⟨base, _, List.mem_cons_self, rfl⟩
      · obtain ⟨base', n, hmem, hkey⟩ := ih h
        exact ⟨base', n, List.mem_cons_of_mem _ hmem, hkey⟩

end CitationKey

namespace Document

open CitationKey

variable {d : Document} {index : FieldIndex} {t : KeyTemplate} {id : NodeId} {key : Text}

/-- The key that an entry gets is its base with a suffix. -/
theorem exists_of_mem_keysFor (h : (id, key) ∈ d.keysFor index t) :
    ∃ base n, t.base? index id = some base ∧
      key = base.withSuffix (suffix t.usesNumbers n) := by
  obtain ⟨base, n, hmem, hkey⟩ := exists_of_mem_assign h
  obtain ⟨i, -, hi⟩ := List.mem_filterMap.1 hmem
  obtain ⟨b, hb, heq⟩ := Option.map_eq_some_iff.1 hi
  cases heq
  exact ⟨base, n, hb, hkey⟩

/-- **Generated keys** are not empty, and made of characters that a key can have. -/
theorem isPlain_of_mem_keysFor (h : (id, key) ∈ d.keysFor index t) :
    key ≠ [] ∧ ∀ c ∈ key, IsPlain c := by
  obtain ⟨base, n, hbase, rfl⟩ := exists_of_mem_keysFor h
  obtain ⟨c, hc⟩ := KeyTemplate.exists_mem_base hbase
  refine ⟨List.ne_nil_of_mem (KeyBase.mem_withSuffix_of_mem hc), fun x hx => ?_⟩
  obtain hx | hx := KeyBase.mem_of_mem_withSuffix hx
  · exact KeyTemplate.isPlain_base hbase x hx
  · exact .inl (isKept_suffix _ n x hx)

/-- **Generated keys can be read again.** -/
theorem isRun_keysFor (d : Document) (index : FieldIndex) (t : KeyTemplate) :
    ∀ p ∈ d.keysFor index t, Text.IsRun Scan.isKeyChar p.2 := by
  rintro ⟨id, key⟩ hp
  obtain ⟨hne, hplain⟩ := isPlain_of_mem_keysFor hp
  exact ⟨hne, fun c hc => (hplain c hc).isKeyChar⟩

end Document

end Bibliography
