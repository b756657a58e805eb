import Bibliography.Proofs.Tidy.Edits

/-!
# Bibliography.Proofs.Tidy.Comments

Commentary that is removed or brought into shape leaves a faithful document.

Free text that is brought into shape loses blanks at the ends of its lines, and
its last line gets an end.  A run of blanks becomes a shorter one, never none,
and for a block that might begin there all runs are alike; so inert text stays
inert.  A comment loses white space, which no scanner looks at.

Where commentary is removed, no two texts come to stand side by side: a text
goes with the comment before it.
-/

namespace Bibliography

/-! ## blanks in free text -/

namespace Opening

variable {q : Opening} {s t : Text}

/-- The state after blanks. -/
def afterBlank : Opening → Opening
  | outside | sign => outside
  | command | gap => gap
  | opened => opened

theorem after_of_isBlank {c : Char} (h : Text.isBlank c = true) (q : Opening) :
    q.after c = q.afterBlank := by
  have hat : c ≠ '@' := by
    rintro rfl
    exact absurd h (by decide)
  have hcommand : Scan.isCommandChar c = false := by
    simp only [Text.isBlank, Bool.or_eq_true, decide_eq_true_eq] at h
    obtain (((rfl | rfl) | rfl) | rfl) | rfl := h <;> decide
  cases q <;> simp [after, afterBlank, enter, leave, hat, hcommand, h]

@[simp] theorem afterBlank_afterBlank (q : Opening) : q.afterBlank.afterBlank = q.afterBlank := by
  cases q <;> rfl

theorem afterBlank_eq_opened_iff : q.afterBlank = opened ↔ q = opened := by
  cases q <;> simp [afterBlank]

/-- All runs of blanks are alike. -/
theorem run_blanks (h : ∀ x ∈ t, Text.isBlank x = true) {c : Char} (hc : Text.isBlank c = true)
    (q : Opening) : q.run (t ++ [c]) = q.afterBlank := by
  induction t generalizing q with
  | nil => exact after_of_isBlank hc q
  | cons x t ih =>
      obtain ⟨hx, ht⟩ := List.forall_mem_cons.1 h
      rw [List.cons_append, run_cons, after_of_isBlank hx, ih ht, afterBlank_afterBlank]

/-- Blanks at the end of a line do not matter. -/
theorem run_trimEnd (q : Opening) (s : Text) :
    q.run (Text.trimEnd Text.isBlank s ++ ['\n']) = q.run (s ++ ['\n']) := by
  obtain ⟨w, hs, hw⟩ := Text.exists_trimEnd Text.isBlank s
  calc
    q.run (Text.trimEnd Text.isBlank s ++ ['\n'])
        = (q.run (Text.trimEnd Text.isBlank s)).afterBlank := by
      rw [run_append]
      exact after_of_isBlank rfl _
    _ = (q.run (Text.trimEnd Text.isBlank s)).run (w ++ ['\n']) := (run_blanks hw rfl _).symm
    _ = q.run (s ++ ['\n']) := by rw [← run_append, ← List.append_assoc, ← hs]

theorem run_lines (q : Opening) (ls : List Text) :
    q.run (Text.joinWith ['\n'] (ls.map (Text.trimEnd Text.isBlank)) ++ ['\n']) =
      q.run (Text.joinWith ['\n'] ls ++ ['\n']) := by
  induction ls generalizing q with
  | nil => rfl
  | cons w ls ih =>
      cases ls with
      | nil => exact run_trimEnd q w
      | cons v ls =>
          rw [List.map_cons] at ih ⊢
          have hfirst (a : Text) (rest : List Text) (b : Text) :
              Text.joinWith ['\n'] (a :: b :: rest) ++ ['\n'] =
                (a ++ ['\n']) ++ (Text.joinWith ['\n'] (b :: rest) ++ ['\n']) := by
            simp [Text.joinWith]
          rw [List.map_cons, hfirst, hfirst, run_append, run_append _ (w ++ ['\n']), run_trimEnd, ih]

/-- Text without an `@` does not matter before other free text. -/
theorem run_outside (h : ∀ x ∈ t, x ≠ '@') : outside.run t = outside := by
  induction t with
  | nil => rfl
  | cons x t ih =>
      obtain ⟨hx, ht⟩ := List.forall_mem_cons.1 h
      rw [run_cons, after, enter, if_neg hx]
      exact ih ht

/-- Blanks before free text do not matter. -/
theorem run_outside_blanks (h : ∀ x ∈ t, Text.isBlank x = true) : outside.run t = outside := by
  refine run_outside fun x hx => ?_
  rintro rfl
  exact absurd (h _ hx) (by decide)

end Opening

/-- **Free text in shape** is inert where it was. -/
theorem inert_tidyText (onNewLine : Bool) {t : Text} (h : Inert t) :
    Inert (Node.tidyText onNewLine t) := by
  obtain ⟨u, w, ht, hu, -⟩ := Text.exists_trim Text.isBlank t
  have hinside : Opening.outside.run (Text.trim Text.isBlank t) ≠ .opened := by
    intro hopened
    apply h
    rw [ht, Opening.run_append, Opening.run_append, Opening.run_outside_blanks hu, hopened,
      Opening.run_opened]
  have hlines : Text.joinWith ['\n'] (Text.lines (Text.trim Text.isBlank t)) =
      Text.trim Text.isBlank t := Text.joinWith_splitWhere '\n' _
  have hstart : Opening.outside.run (if onNewLine then [] else ['\n']) = .outside := by
    split <;> rfl
  unfold Inert Node.tidyText
  dsimp only
  rw [List.append_assoc, Opening.run_append, hstart, Opening.run_lines, hlines,
    Opening.run_append, Opening.run_cons, Opening.after_of_isBlank rfl, Opening.run_nil, ne_eq,
    Opening.afterBlank_eq_opened_iff]
  exact hinside

/-! ## comments -/

/-- White space counts as nothing in a payload. -/
theorem Scan.payload?_of_isWhiteSpace {x : Char} (h : Unicode.isWhiteSpace x = true)
    (d : Delimiter) (n : Nat) : Scan.payload? d n x = some n := by
  have hsign := Scan.isSign_of_isWhiteSpace h
  have hclose : x ≠ d.closing := by
    rintro rfl
    revert h
    cases d <;> decide
  have hopen : x ≠ '{' := by
    rintro rfl
    exact absurd hsign (by decide)
  have hbrace : x ≠ '}' := by
    rintro rfl
    exact absurd hsign (by decide)
  simp [Scan.payload?, hclose, hopen, hbrace]

/-- White space at the ends of a payload does not matter. -/
theorem Payload.IsWellFormed.strip {d : Delimiter} {p : Payload} (h : p.IsWellFormed d) :
    Payload.IsWellFormed d { p with text := p.text.strip } := by
  obtain ⟨hclosed, htext⟩ := Payload.isWellFormed_iff.1 h
  obtain ⟨u, w, ht, hu, hw⟩ := Text.exists_trim Unicode.isWhiteSpace p.text
  rw [ht, List.append_assoc, Scan.pass?_append,
    Scan.pass?_of_neutral fun x hx => Scan.payload?_of_isWhiteSpace (hu x hx) d 0,
    Option.bind_some] at htext
  obtain ⟨n, hstrip, hn⟩ := Scan.pass?_of_append htext
  rw [Scan.pass?_of_neutral fun x hx => Scan.payload?_of_isWhiteSpace (hw x hx) d n] at hn
  cases hn
  exact Payload.isWellFormed_iff.2 ⟨hclosed, hstrip⟩

namespace Node

theorem keeps_tidyComment : Edit.Keeps Block.IsWellFormed tidyComment where
  keeps {b} h := by
    obtain ⟨command, d, body, source⟩ := b
    cases body with
    | comment p => exact ⟨h.command, h.kind, Payload.IsWellFormed.strip h.body⟩
    | _ => exact h
  honest {b} h := by
    obtain ⟨command, d, body, source⟩ := b
    cases body with
    | comment p =>
        have hstrip : p.text.strip = p.text := by simpa [tidyComment] using h
        simp only [tidyComment, hstrip]
    | _ => rfl

@[simp] theorem isText_tidy (onNewLine : Bool) (n : Node) : (n.tidy onNewLine).1.isText = n.isText := by
  cases n with
  | text t =>
      rw [tidy]
      split <;> rfl
  | block b => rfl

/-- **Commentary in shape** is faithful. -/
theorem IsFaithful.tidy {n : Node} (h : n.IsFaithful) (onNewLine : Bool) :
    (n.tidy onNewLine).1.IsFaithful := by
  cases n with
  | block b => exact Block.IsFaithful.edit keeps_tidyComment h
  | text t =>
      rw [Node.tidy]
      split
      · exact h
      · exact ⟨by simp [tidyText], inert_tidyText onNewLine h.2⟩

end Node

namespace Document

theorem edits_tidyCommentsFrom (onNewLine : Bool) (ids : List NodeId) (d : Document) :
    Edits d (tidyCommentsFrom onNewLine ids d).1 := by
  induction ids generalizing onNewLine d with
  | nil => exact .refl d
  | cons id ids ih =>
      have hnode : Edits d (d.editNode (Node.tidy onNewLine) id).1 :=
        edits_editNode (Node.isText_tidy onNewLine) (fun _ h => h.tidy onNewLine) id d
      exact hnode.trans (ih _ _)

/-- **Bringing commentary into shape** edits nodes only. -/
theorem edits_tidyComments (d : Document) : Edits d d.tidyComments.1 :=
  edits_tidyCommentsFrom true d.order d

/-! ## removing commentary -/

/-- The nodes that stay when commentary is removed. -/
def keptNodes (afterDropped : Bool) : List Node → List Node
  | [] => []
  | n :: ns =>
    if n.isDropped afterDropped then keptNodes true ns else n :: keptNodes false ns

/-- The handles that stay are those of the nodes that stay. -/
theorem filterMap_withoutComments {d : Document} {items : List (NodeId × Node)}
    (h : ∀ p ∈ items, d.node? p.1 = some p.2) (afterDropped : Bool) :
    (withoutComments afterDropped items).filterMap d.node? =
      keptNodes afterDropped (items.map (·.2)) := by
  induction items generalizing afterDropped with
  | nil => rfl
  | cons p items ih =>
      obtain ⟨hp, hitems⟩ := List.forall_mem_cons.1 h
      rw [withoutComments, List.map_cons, keptNodes]
      split
      · exact ih hitems true
      · rw [List.filterMap_cons_some hp, ih hitems]

theorem present_stripComments (d : Document) :
    d.stripComments.1.present = keptNodes false d.present := by
  have hitems : ∀ p ∈ d.items, d.node? p.1 = some p.2 := by
    intro p hp
    obtain ⟨id, -, hid⟩ := List.mem_filterMap.1 hp
    obtain ⟨n, hn, rfl⟩ := Option.map_eq_some_iff.1 hid
    exact hn
  rw [← map_snd_items d]
  exact filterMap_withoutComments hitems false

/-- The first node that stays is a text only if it was the first before, and
nothing went before it. -/
theorem head?_keptNodes {afterDropped : Bool} {ns : List Node} {n : Node}
    (h : n ∈ (keptNodes afterDropped ns).head?) (htext : n.isText = true) :
    n ∈ ns.head? ∧ afterDropped = false := by
  induction ns generalizing afterDropped with
  | nil => cases h
  | cons m ns ih =>
      rw [keptNodes] at h
      split at h
      · exact absurd (ih h).2 (by simp)
      · next hkept =>
        obtain rfl : m = n := by simpa using h
        refine ⟨rfl, ?_⟩
        cases m with
        | block b => cases htext
        | text t =>
            cases afterDropped with
            | false => rfl
            | true => simp [Node.isDropped] at hkept

/-- **No two texts come to stand side by side** where commentary is removed. -/
theorem isChain_keptNodes {ns : List Node} (h : ns.IsChain Apart) (afterDropped : Bool) :
    (keptNodes afterDropped ns).IsChain Apart := by
  induction ns generalizing afterDropped with
  | nil => exact List.isChain_nil
  | cons n ns ih =>
      obtain ⟨hhead, hns⟩ := List.isChain_cons.1 h
      rw [keptNodes]
      split
      · exact ih hns true
      · refine List.isChain_cons.2 ⟨fun m hm hboth => ?_, ih hns false⟩
        exact hhead m (head?_keptNodes hm hboth.2).1 hboth

/-- A faithful document stays faithful without its commentary. -/
theorem IsFaithful.stripComments {d : Document} (h : d.IsFaithful) :
    d.stripComments.1.IsFaithful where
  nodes := h.nodes
  apart := by
    rw [present_stripComments]
    exact isChain_keptNodes h.apart false

end Document

end Bibliography
