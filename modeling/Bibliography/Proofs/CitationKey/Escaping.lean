import Bibliography.Proofs.CitationKey.Keys
import Bibliography.Proofs.CitationKey.Surnames
import Bibliography.Proofs.Tidy.Index
import Bibliography.Proofs.Value.Idempotence

/-!
# Bibliography.Proofs.CitationKey.Escaping

The keys of a document whose values were escaped before.  Escaping respells the values
that are looked up (`Document.isRespelled_escaped`), so each marker of a template has the
value it had, if the text it reads is tame and such that its words are kept
(`Marker.value_respelled`).  If that is so for all markers and entries, all keys are the
same.
-/

namespace Bibliography

open Latex

/-! ## years -/

namespace CitationKey

variable {kept : Char → Prop} {c : Char} {s s' t : Text}

/-- A year is the first four digits of a run that has as many. -/
theorem yearDigits_cons (c : Char) (s : Text) : yearDigits (c :: s) =
    let run := (c :: s).takeWhile Unicode.isDecimal
    if 4 ≤ run.length then run.take 4 else yearDigits s := by
  rw [yearDigits]
  generalize c :: s = t
  have htake (h : 4 ≤ (t.takeWhile Unicode.isDecimal).length) :
      t.take 4 = (t.takeWhile Unicode.isDecimal).take 4 := by
    conv_lhs => rw [← List.takeWhile_append_dropWhile (p := Unicode.isDecimal) (l := t)]
    exact List.take_append_of_le_length h
  dsimp only
  by_cases hlong : 4 ≤ (t.takeWhile Unicode.isDecimal).length
  · rw [if_pos hlong, htake hlong, if_pos]
    refine ⟨by simpa using hlong, List.all_eq_true.2 fun x hx => ?_⟩
    exact Text.mem_takeWhile (List.mem_of_mem_take hx)
  · rw [if_neg hlong, if_neg]
    rintro ⟨hlength, hall⟩
    -- Four digits at the front are the beginning of the run.
    have hrun : t.takeWhile Unicode.isDecimal =
        t.take 4 ++ (t.drop 4).takeWhile Unicode.isDecimal := by
      conv_lhs => rw [← List.take_append_drop 4 t]
      exact List.takeWhile_append_of_pos (List.all_eq_true.1 hall)
    rw [hrun, List.length_append] at hlong
    omega

/-- No digit has a sequence, nor has a sequence digits. -/
theorem isDecimal_table : ∀ p ∈ table, Unicode.isDecimal p.1 = false ∧ p.2.written ≠ [] ∧
    ∀ c ∈ p.2.written, Unicode.isDecimal c = false := by
  decide +kernel

theorem yearDigits_append (ht : ∀ c ∈ t, Unicode.isDecimal c = false) (s : Text) :
    yearDigits (t ++ s) = yearDigits s := by
  induction t with
  | nil => rfl
  | cons c t ih =>
      obtain ⟨hc, ht⟩ := List.forall_mem_cons.1 ht
      rw [List.cons_append, yearDigits_cons, List.takeWhile_cons_of_neg (by simp [hc])]
      exact ih ht

theorem takeWhile_isDecimal_respelled (h : Respelled kept s s') :
    s'.takeWhile Unicode.isDecimal = s.takeWhile Unicode.isDecimal := by
  induction h with
  | nil => rfl
  | keep hc h ih => rw [List.takeWhile_cons, List.takeWhile_cons, ih]
  | @sequence c seq s s' hseq h ih =>
      obtain ⟨hc, hne, hwritten⟩ := isDecimal_table _ hseq
      have hstops : Text.Stops Unicode.isDecimal seq.written := fun x hx =>
        hwritten x (List.mem_of_mem_head? hx)
      rw [(hstops.append hne s').takeWhile_eq, List.takeWhile_cons_of_neg (by simp [hc])]

/-- **Years are kept.** -/
theorem yearDigits_respelled (h : Respelled kept s s') : yearDigits s' = yearDigits s := by
  induction h with
  | nil => rfl
  | @keep c s s' hc h ih =>
      rw [yearDigits_cons, yearDigits_cons, ih, takeWhile_isDecimal_respelled (h.keep hc)]
  | @sequence c seq s s' hseq h ih =>
      obtain ⟨hc, -, hwritten⟩ := isDecimal_table _ hseq
      rw [yearDigits_append hwritten, ih]
      exact (yearDigits_append (List.forall_mem_singleton.2 hc) s).symm

end CitationKey

/-! ## values -/

/-- **A field that is escaped** is resolved to a respelled value. -/
theorem Field.respelled_resolve (f : Field) : Respelled (fun _ => True) f.resolve.value
    (Field.resolve (Normalization.escape.apply f).1).value := by
  have hall (s : Text) : Respelled (fun _ => True) s s := .refl fun _ _ => trivial
  unfold Normalization.apply Normalization.value
  cases f.isIdentifier with
  | true => exact hall _
  | false =>
      unfold Field.resolve Value.mapDelimited
      dsimp only
      rw [if_neg (by simp), List.flatMap_map]
      refine .flatMap fun s hs => ?_
      cases s with
      | literal t => exact hall _
      | braced t => exact respelled_escapeFrom .plain t
      | quoted t => exact respelled_escapeFrom .plain t

theorem Fields.normalize_escape (fs : List Field) :
    (normalize [.escape] fs).1 = fs.map fun f => (Normalization.escape.apply f).1 := by
  unfold normalize
  rw [Normalization.inOrder_eq_self (List.pairwise_singleton _ _)]
  rfl

/-- The names of fields are kept. -/
theorem FieldMap.lookup_escape (fs : List Field) (name : Text) :
    Option.Rel (fun r r' : Resolved => Respelled (fun _ => True) r.value r'.value)
      ((ofFields fs).lookup name) ((ofFields (Fields.normalize [.escape] fs).1).lookup name) := by
  rw [lookup_ofFields, lookup_ofFields, Fields.normalize_escape, List.find?_map]
  have hname : ((fun f : Field => decide (f.lowerName = name)) ∘
      fun f => (Normalization.escape.apply f).1) = fun f => decide (f.lowerName = name) := rfl
  rw [hname]
  cases fs.find? fun f => decide (f.lowerName = name) with
  | none => exact .none
  | some f => exact .some f.respelled_resolve

/-- The values of an entry in another index are respelled. -/
def FieldIndex.IsRespelled (index index' : FieldIndex) (id : NodeId) : Prop :=
  ∀ name, Option.Rel (Respelled fun _ => True) (index.value? id name) (index'.value? id name)

namespace Document

/-- A document whose values are escaped. -/
def escaped (d : Document) : Document := (d.editFields (Fields.normalize [.escape])).1

theorem order_escaped (d : Document) : d.escaped.order = d.order := rfl

theorem entry?_escaped (d : Document) (id : NodeId) : d.escaped.entry? id =
    (d.entry? id).map fun e =>
      if id ∈ d.order then { e with fields := (Fields.normalize [.escape] e.fields).1 } else e :=
  entry?_editFields _ d id

theorem key?_escaped (d : Document) (id : NodeId) : d.escaped.key? id = d.key? id := by
  unfold key?
  rw [entry?_escaped]
  cases d.entry? id with
  | none => rfl
  | some e =>
      rw [Option.map_some, Option.bind_some, Option.bind_some]
      split <;> rfl

theorem isSome_entry?_escaped (d : Document) (id : NodeId) :
    (d.escaped.entry? id).isSome = (d.entry? id).isSome := by
  rw [entry?_escaped, Option.isSome_map]

theorem entryIds_escaped (d : Document) : d.escaped.entryIds = d.entryIds := by
  rw [entryIds_eq, entryIds_eq, order_escaped]
  exact List.filter_congr fun id _ => isSome_entry?_escaped d id

/-- **Values that are looked up** are respelled. -/
theorem isRespelled_escaped {d : Document} {id : NodeId} (hid : id ∈ d.order) :
    (FieldIndex.build d).IsRespelled (.build d.escaped) id := by
  intro name
  unfold FieldIndex.value? FieldIndex.get?
  rw [FieldIndex.lookup_build hid, FieldIndex.lookup_build (order_escaped d ▸ hid), entry?_escaped]
  cases d.entry? id with
  | none => exact .none
  | some e =>
      have hfield := FieldMap.lookup_escape e.fields name.toLower
      simp only [Option.map_some, Option.bind_some, if_pos hid, Entry.resolve]
      generalize (FieldMap.ofFields e.fields).lookup name.toLower = o,
        (FieldMap.ofFields (Fields.normalize [.escape] e.fields).1).lookup name.toLower = o' at hfield ⊢
      cases hfield with
      | none => exact .none
      | some h => exact .some h

end Document

/-! ## templates -/

/-- Whether escaping leaves the value of a marker for an entry: the text that it reads is tame, and
its words, surnames or letters are kept. -/
def Marker.KeepsEscaped (index : FieldIndex) (id : NodeId) : Marker → Prop
  | auth | authEtAl | authors _ =>
    ∀ s ∈ index.value? id "author".toList, IsTame s ∧ CitationKey.KeepsSurnames s
  | title _ | shortTitle | veryShortTitle =>
    ∀ s ∈ index.value? id "title".toList, IsTame s ∧ CitationKey.keepsWords false s = true
  | year | duplicateLetter | duplicateNumber => True
  | field name => ∀ s ∈ index.value? id name, IsTame s ∧ ∀ c ∈ s, isMathLetter c = false

/-- Whether it leaves all values of a template. -/
def KeyTemplate.KeepsEscaped (t : KeyTemplate) (index : FieldIndex) (id : NodeId) : Prop :=
  ∀ m ms, .marker m ms ∈ t → m.KeepsEscaped index id

section

variable {index index' : FieldIndex} {id : NodeId} {t : KeyTemplate}

/-- A function of a text is kept where the text is respelled. -/
theorem Latex.Respells.map_eq {α : Type} {o o' : Option Text} {f : Text → α} {p : Text → Prop}
    (h : Option.Rel (Respelled fun _ => True) o o') (hp : ∀ s ∈ o, IsTame s ∧ p s)
    (hf : ∀ {s s'}, Respells (fun _ => True) s s' → p s → f s' = f s) : o'.map f = o.map f := by
  cases h with
  | none => rfl
  | some h =>
      obtain ⟨htame, hs⟩ := hp _ rfl
      exact congrArg some (hf ⟨htame, h⟩ hs)

/-- **The value of a marker** is kept. -/
theorem Marker.value_respelled (h : index.IsRespelled index' id) {m : Marker}
    (hm : m.KeepsEscaped index id) : m.value index' id = m.value index id := by
  have hauthors (hkeeps : ∀ s ∈ index.value? id "author".toList,
      IsTame s ∧ CitationKey.KeepsSurnames s) :=
    Respells.map_eq (h "author".toList) hkeeps CitationKey.ofList_respelled
  have htitle (hkeeps : ∀ s ∈ index.value? id "title".toList,
      IsTame s ∧ CitationKey.keepsWords false s = true) :=
    Respells.map_eq (h "title".toList) hkeeps CitationKey.titleWords_respelled
  unfold value
  cases m with
  | auth => simp only [hauthors hm]
  | authEtAl => simp only [hauthors hm]
  | authors limit => simp only [hauthors hm]
  | title limit => cases limit <;> simp only [htitle hm]
  | shortTitle => simp only [htitle hm]
  | veryShortTitle => simp only [htitle hm]
  | year =>
      have hyear := h "year".toList
      have hdate := h "date".toList
      dsimp only
      generalize index.value? id "year".toList = o, index'.value? id "year".toList = o' at hyear ⊢
      generalize index.value? id "date".toList = p, index'.value? id "date".toList = p' at hdate ⊢
      cases hyear with
      | some hyear => exact CitationKey.yearDigits_respelled hyear
      | none =>
          cases hdate with
          | some hdate => exact CitationKey.yearDigits_respelled hdate
          | none => rfl
  | duplicateLetter => rfl
  | duplicateNumber => rfl
  | field name =>
      dsimp only
      rw [Respells.map_eq (h name) hm fun h hmath => CitationKey.flatten_words_respelled h hmath]

/-- **The base of a key** is kept. -/
theorem KeyTemplate.base?_respelled (h : index.IsRespelled index' id)
    (ht : t.KeepsEscaped index id) : t.base? index' id = t.base? index id := by
  have hpart : ∀ part ∈ t, TemplatePart.base? index' id part = TemplatePart.base? index id part := by
    intro part hpart
    cases part with
    | literal s => rfl
    | marker m ms =>
        rw [TemplatePart.base?, TemplatePart.base?, Marker.value_respelled h (ht m ms hpart)]
  have hall : t.mapM (TemplatePart.base? index' id) = t.mapM (TemplatePart.base? index id) := by
    clear ht
    induction t with
    | nil => rfl
    | cons part t ih =>
        obtain ⟨hfirst, hrest⟩ := List.forall_mem_cons.1 hpart
        rw [List.mapM_cons, List.mapM_cons, hfirst, ih hrest]
  rw [base?, base?, hall]

end

namespace Document

variable {d d' : Document} {keys : List (NodeId × Text)}

/-- Entries that had the same keys and are given the same ones have the same keys afterwards. -/
theorem key?_setKeys_congr (hkey : ∀ id, d'.key? id = d.key? id)
    (hentry : ∀ id, (d'.entry? id).isSome = (d.entry? id).isSome) (id : NodeId) :
    (setKeys keys d').1.key? id = (setKeys keys d).1.key? id := by
  induction keys generalizing d d' with
  | nil => exact hkey id
  | cons p keys ih =>
      refine ih (fun id => ?_) fun id => ?_
      · have hstep (d : Document) := key?_editEntry_setKey (some p.2) d p.1 id
        refine (hstep d').trans (.trans ?_ (hstep d).symm)
        rw [hkey, hentry]
      · exact (isSome_entry?_setKeys [p] d' id).trans
          ((hentry id).trans (isSome_entry?_setKeys [p] d id).symm)

/-- **The keys** that a template gives are kept. -/
theorem keysFor_escaped (d : Document) (t : KeyTemplate)
    (h : ∀ id ∈ d.entryIds, t.KeepsEscaped (.build d) id) :
    d.escaped.keysFor (.build d.escaped) t = d.keysFor (.build d) t := by
  have hbase : ∀ id ∈ d.entryIds, t.base? (.build d.escaped) id = t.base? (.build d) id :=
    fun id hid => KeyTemplate.base?_respelled (isRespelled_escaped (mem_order_of_entryIds hid)) (h id hid)
  have hkept : d.escaped.keptKeys (.build d.escaped) t = d.keptKeys (.build d) t := by
    unfold keptKeys
    have hids : (d.entryIds.filter fun id => (t.base? (.build d.escaped) id).isNone) =
        d.entryIds.filter fun id => (t.base? (.build d) id).isNone :=
      List.filter_congr fun id hid => by rw [hbase id hid]
    rw [entryIds_escaped, hids]
    exact List.filterMap_congr fun id _ => by rw [key?_escaped]
  have hbases : (d.entryIds.filterMap fun id => (t.base? (.build d.escaped) id).map (id, ·)) =
      d.entryIds.filterMap fun id => (t.base? (.build d) id).map (id, ·) :=
    List.filterMap_congr fun id hid => by rw [hbase id hid]
  unfold keysFor
  rw [hkept, entryIds_escaped, hbases]

/-- **Keys and escaping.**  For a tame text, such as one of letters, ASCII digits and spaces, the words
are the same after escaping exactly if the text has no letters whose sequences are mathematics, and
those whose sequences have blanks only where words begin; and an author list is read alike exactly if
no surname has a letter of the first kind.  Where a template reads only such texts, it gives the same
keys with and without escaping. -/
theorem generateKeys_escaped (d : Document) (t : KeyTemplate) :
    (∀ s : Text, (∀ c ∈ s, Unicode.isAlphabetic c = true ∨ c.isDigit = true ∨ c = ' ') → IsTame s) ∧
    (∀ s, IsTame s →
      (CitationKey.words (escape s) = CitationKey.words s ↔ CitationKey.keepsWords false s = true)) ∧
    (∀ s, IsTame s → (CitationKey.Authors.ofList (escape s) = CitationKey.Authors.ofList s ↔
      CitationKey.KeepsSurnames s)) ∧
    ((∀ id ∈ d.entryIds, t.KeepsEscaped (.build d) id) → ∀ id,
      (d.escaped.generateKeys (.build d.escaped) t).1.key? id =
        (d.generateKeys (.build d) t).1.key? id) := by
  refine ⟨fun s => IsTame.of_forall, fun s => CitationKey.words_escape_iff,
    fun s => CitationKey.ofList_escape_iff, fun h id => ?_⟩
  unfold generateKeys
  rw [keysFor_escaped d t h]
  exact key?_setKeys_congr (key?_escaped d) (isSome_entry?_escaped d) id

/-- The cedilla at the beginning of a word, and accents everywhere. -/
theorem generateKeys_escaped_celebi :
    let d := (parse
      "@a\x7bk, author = \x7bČapek, Karel and Øre, Ola\x7d, title = \x7bÜber Çelebi\x7d\x7d".toList).1
    let t : KeyTemplate := [.marker .authEtAl [], .marker (.title none) []]
    (∀ c ∈ "Über Çelebi".toList, Unicode.isAlphabetic c = true ∨ c.isDigit = true ∨ c = ' ') ∧
      CitationKey.words (escape "Über Çelebi".toList) = CitationKey.words "Über Çelebi".toList ∧
      (∀ id ∈ d.entryIds, t.KeepsEscaped (.build d) id) ∧
      (d.escaped.generateKeys (.build d.escaped) t).1.key? 0 =
        some "CapekOreUberCelebi".toList := by
  intro d t
  obtain ⟨htame, hwords, -, hkeys⟩ := generateKeys_escaped d t
  have hletters : ∀ c ∈ "Über Çelebi".toList,
      Unicode.isAlphabetic c = true ∨ c.isDigit = true ∨ c = ' ' := by decide +kernel
  have hkeeps : ∀ id ∈ d.entryIds, t.KeepsEscaped (.build d) id := by
    intro id hid m ms hm
    obtain rfl : id = 0 := by
      have hids : d.entryIds = [0] := by decide +kernel
      simpa [hids] using hid
    simp only [t, List.mem_cons, TemplatePart.marker.injEq, List.not_mem_nil, or_false] at hm
    obtain ⟨rfl, -⟩ | ⟨rfl, -⟩ := hm
    · exact show ∀ s ∈ (FieldIndex.build d).value? 0 "author".toList,
        IsTame s ∧ CitationKey.KeepsSurnames s by decide +kernel
    · exact show ∀ s ∈ (FieldIndex.build d).value? 0 "title".toList,
        IsTame s ∧ CitationKey.keepsWords false s = true by decide +kernel
  refine ⟨hletters, (hwords _ (htame _ hletters)).2 (by decide +kernel), hkeeps, ?_⟩
  rw [hkeys hkeeps 0]
  decide +kernel

/-- A cedilla within a word begins another one, and Greek letters are lost. -/
theorem generateKeys_escaped_facade :
    let s : Text := "@misc\x7bk, title = \x7bFaçade\x7d\x7d".toList
    let template : Text := "[veryshorttitle]".toList
    (∀ c ∈ "Façade".toList, Unicode.isAlphabetic c = true) ∧
      CitationKey.words "Façade".toList = ["Facade".toList] ∧
      CitationKey.words (escape "Façade".toList) = ["Fa".toList, "cade".toList] ∧
      CitationKey.words "α".toList = ["alpha".toList] ∧
      CitationKey.words (escape "α".toList) = [] ∧
      (tidy { generateKeys := some (.value template) } s).text =
        "@misc\x7bFacade,\n  title = \x7bFaçade\x7d\n\x7d".toList ∧
      (tidy { escape := true, generateKeys := some (.value template) } s).text =
        "@misc\x7bFa,\n  title = \x7bFa\x7b\\c c\x7dade\x7d\n\x7d".toList := by
  intro s template
  exact ⟨by decide +kernel, by decide +kernel, by decide +kernel, by decide +kernel,
    by decide +kernel, by decide +kernel, by decide +kernel⟩

end Document

end Bibliography
