import Bibliography.Proofs.Grammar.Nesting
import Bibliography.Proofs.Parse.Locality
import Bibliography.Proofs.Render.Spelling

/-!
# Bibliography.Proofs.Parse.Payload

Where a comment, a preamble or a string definition ends.  The grammar takes a
payload in braces to the brace that closes it, and a payload in parentheses over
all the parentheses that are nested in it.  The reader counts braces in both, and
parentheses in neither: so it takes all of a payload of the grammar, unless that
has a closing parenthesis outside of braces, and is itself in parentheses.

* `Scan.pass?_payload_iff` — the payloads that the reader takes whole;
* `Document.parse_payload_iff` — the block that is read, and the text after it.
-/

namespace Bibliography

/-- The blocks whose payload is not read, and their commands. -/
def BlockKind.commands : List (BlockKind × String) :=
  [(.comment, "comment"), (.preamble, "preamble"), (.stringDef, "string")]

/-- The payloads of the grammar, by the brackets around them. -/
def Grammar.IsPayload : Delimiter → Text → Prop
  | .brace, p => (balancedMany p).1 = []
  | .paren, p => (roundMany p).1 = []

/-- The characters of a text outside of braces, of which `depth` are open before it. -/
def Text.outsideBraces (depth : Nat) : Text → Text
  | [] => []
  | c :: s =>
    if depth = 0 then c :: outsideBraces (Names.depthAfter depth c) s
    else outsideBraces (Names.depthAfter depth c) s

/-! ## payloads -/

namespace Grammar

variable {d : Delimiter} {p : Text}

/-- Payloads of the grammar are balanced in braces. -/
theorem IsPayload.isBalanced (h : IsPayload d p) : p.IsBalanced := by
  cases d with
  | brace => exact balancedMany_eq_nil_iff.1 h
  | paren =>
      obtain ⟨t, ht, hbalanced⟩ := exists_roundMany p
      have h : (roundMany p).1 = [] := h
      rw [h, List.append_nil] at ht
      exact ht ▸ hbalanced

end Grammar

namespace Scan

variable {n m : Nat} {p : Text}

/-- In braces, a payload is counted as any text is. -/
theorem payload?_brace : payload? .brace = bracket? '{' '}' := by
  funext n x
  unfold payload? bracket?
  by_cases ho : x = '{'
  · rw [if_pos ho, if_pos ho]
  · by_cases hc : x = '}'
    · by_cases hn : n = 0 <;> simp [hc, hn, Delimiter.closing]
    · simp [ho, hc, Delimiter.closing]

/-- Brackets that are braces are counted as everywhere else. -/
theorem depthAfter_of_bracket? {c : Char} (h : bracket? '{' '}' n c = some m) :
    Names.depthAfter n c = m := by
  unfold bracket? at h
  unfold Names.depthAfter
  split at h
  · next ho =>
    rw [if_pos ho]
    exact Option.some.inj h
  · next ho =>
    rw [if_neg ho]
    split at h
    · next hc =>
      rw [if_pos hc]
      split at h
      · cases h
      · exact Option.some.inj h
    · next hc =>
      rw [if_neg hc]
      exact Option.some.inj h

/-- In parentheses the braces of a balanced text are counted as any are. -/
theorem payload?_paren {c : Char} (h : bracket? '{' '}' n c = some m)
    (hstop : ¬ (c = ')' ∧ n = 0)) : payload? .paren n c = some m := by
  unfold payload? Delimiter.closing
  rw [if_neg hstop, ← depthAfter_of_bracket? h, Names.depthAfter]
  split
  · rfl
  · split <;> rfl

/-- In parentheses, a payload ends at the first one that is closed outside of braces. -/
theorem pass?_paren_iff (h : depth? '{' '}' n p = some m) :
    pass? (payload? .paren) n p = some m ↔ ')' ∉ p.outsideBraces n := by
  induction p generalizing n with
  | nil => simpa [Text.outsideBraces, depth?] using h
  | cons c p ih =>
      rw [depth?, pass?_cons] at h
      obtain ⟨l, hc, hl⟩ := Option.bind_eq_some_iff.1 h
      have hdepth := depthAfter_of_bracket? hc
      rw [Text.outsideBraces, hdepth]
      by_cases hstop : c = ')' ∧ n = 0
      · obtain ⟨rfl, rfl⟩ := hstop
        have hnone : payload? .paren 0 ')' = none := payload?_eq_none_iff.2 ⟨rfl, rfl⟩
        simp [hnone]
      · have hmem : (')' ∉ if n = 0 then c :: Text.outsideBraces l p else Text.outsideBraces l p) ↔
            ')' ∉ Text.outsideBraces l p := by
          split
          · next hn =>
            have hne : ')' ≠ c := fun hc => hstop ⟨hc.symm, hn⟩
            simp [hne]
          · rfl
        rw [pass?_cons, payload?_paren hc hstop, Option.bind_some, hmem]
        exact ih hl

/-- **The payloads that are taken whole.** -/
theorem pass?_payload_iff {d : Delimiter} (h : p.IsBalanced) :
    pass? (payload? d) 0 p = some 0 ↔ (d = .paren → ')' ∉ p.outsideBraces 0) := by
  cases d with
  | brace =>
      rw [payload?_brace]
      exact iff_of_true h fun hd => by cases hd
  | paren => simpa using pass?_paren_iff h

end Scan

/-! ## blocks -/

namespace Scan

variable {c : Char}

/-- Letters are commands in either case. -/
theorem isCommandChar_of_toLower (h : c.toLower.isAlpha = true) : isCommandChar c = true := by
  have halpha : c.isAlpha = true := by
    cases hc : c.isUpper with
    | true => exact Bool.or_eq_true_iff.2 (.inl hc)
    | false =>
        have hsame : c.toLower = c := dif_neg (of_decide_eq_false hc)
        rwa [hsame] at h
  simp [isCommandChar, Text.isAlnum, Char.isAlphanum, halpha]

theorem isCommandChar_of_isBlank (h : Text.isBlank c = true) : isCommandChar c = false := by
  simp only [Text.isBlank, Bool.or_eq_true, decide_eq_true_eq] at h
  obtain (((rfl | rfl) | rfl) | rfl) | rfl := h <;> decide

end Scan

/-- A command that has the letters of one in any case. -/
theorem BlockKind.ofCommand_of_eqIgnoreAsciiCase {kind : BlockKind} {name : String} {command : Text}
    (hname : (kind, name) ∈ commands) (h : Text.eqIgnoreAsciiCase command name.toList = true) :
    Text.IsRun Scan.isCommandChar command ∧ BlockKind.ofCommand command = kind := by
  -- The three commands have lower case letters only, and are told apart by them.
  have hletters : name.toList ≠ [] ∧ Text.asciiLower name.toList = name.toList ∧
      name.toList.all Char.isAlpha = true ∧ ofCommand name.toList = kind := by
    simp only [commands, List.mem_cons, Prod.mk.injEq, List.not_mem_nil, or_false] at hname
    obtain ⟨rfl, rfl⟩ | ⟨rfl, rfl⟩ | ⟨rfl, rfl⟩ := hname <;> decide +kernel
  obtain ⟨hne, hlower, hall, rfl⟩ := hletters
  have halpha := List.all_eq_true.1 hall
  have hmap : command.map Char.toLower = name.toList := by
    have heq : Text.asciiLower command = Text.asciiLower name.toList := of_decide_eq_true h
    exact heq.trans hlower
  have hcommand : ∀ c ∈ command, Scan.isCommandChar c = true := fun c hc =>
    Scan.isCommandChar_of_toLower (halpha _ (hmap ▸ List.mem_map_of_mem hc))
  have hfold : Text.caseFold command = Text.caseFold name.toList := by
    rw [Text.caseFold_of_ascii fun c hc => Scan.lt_of_isCommandChar (hcommand c hc), hmap,
      Text.caseFold_of_ascii fun c hc => Scan.lt_of_isCommandChar ?_]
    · exact hlower.symm
    · simp [Scan.isCommandChar, Text.isAlnum, Char.isAlphanum, halpha c hc]
  refine ⟨⟨?_, hcommand⟩, by rw [ofCommand, ofCommand]; simp only [Text.eqIgnoreCase, hfold]; rfl⟩
  rintro rfl
  exact hne hmap.symm

/-- A block is read after its command, a gap and its opening bracket. -/
theorem Block.read?_opening {command gap : Text} (hcommand : Text.IsRun Scan.isCommandChar command)
    (hgap : ∀ x ∈ gap, Text.isBlank x = true) (d : Delimiter) (r : Text) :
    Block.read? (command ++ gap ++ d.opening :: r) =
      some ((⟨('@' :: command ++ gap ++ [d.opening]).reverse, r⟩ : Cursor).blockBody
        command d) := by
  have hopening : Scan.isCommandChar d.opening = false ∧ Text.isBlank d.opening = false := by
    cases d <;> decide
  have hstops : Text.Stops Scan.isCommandChar (gap ++ d.opening :: r) := by
    cases gap with
    | nil => exact Text.stops_cons.2 hopening.1
    | cons x gap =>
        exact Text.stops_cons.2 (Scan.isCommandChar_of_isBlank (hgap x List.mem_cons_self))
  have hskip : (⟨['@'], command ++ (gap ++ d.opening :: r)⟩ : Cursor).skip Scan.isCommandChar =
      ⟨command.reverse ++ ['@'], gap ++ d.opening :: r⟩ := by
    rw [Cursor.skip, Text.takeWhile_append_of_run hcommand.2 hstops,
      Text.dropWhile_append_of_run hcommand.2 hstops, Cursor.past]
  have htake := Text.takeWhile_append_of_run hcommand.2 hstops
  rw [List.append_assoc]
  refine Block.read?_eq_some_iff.2 ⟨by rw [htake]; exact hcommand.1, d, _, ?_, by rw [htake]⟩
  have hblank : (⟨command.reverse ++ ['@'], gap ++ d.opening :: r⟩ : Cursor).skipBlank =
      ⟨gap.reverse ++ (command.reverse ++ ['@']), d.opening :: r⟩ :=
    Cursor.skipBlank_of_after rfl hgap (Text.stops_cons.2 hopening.2)
  rw [hskip]
  exact ⟨r, by rw [hblank], by rw [hblank]; simp [Cursor.past]⟩

namespace Cursor

variable {c : Cursor} {kind : BlockKind} {command p rest : Text} {d : Delimiter}

/-- A payload that is taken whole. -/
theorem payloadBlock_of_pass (hafter : c.after = p ++ d.closing :: rest)
    (hp : Scan.pass? (Scan.payload? d) 0 p = some 0) :
    c.payloadBlock kind command d =
      ⟨⟨command, d, .ofPayload kind { text := p }, some (c.before.reverse ++ p ++ [d.closing])⟩, [],
        rest⟩ := by
  have hclosed : Scan.payload d c.after = .closed p rest :=
    Scan.payload_eq_closed_iff.2 ⟨hafter, hp⟩
  rw [payloadBlock, hclosed]
  simp [blockRead]

/-- A payload that is read as it stands before the bracket was taken whole. -/
theorem pass_of_payloadBlock (hkind : kind ≠ .entry)
    (hbody : (c.payloadBlock kind command d).block.body = .ofPayload kind { text := p }) :
    Scan.pass? (Scan.payload? d) 0 p = some 0 := by
  have hinj {q : Payload} (hq : Body.ofPayload kind q = .ofPayload kind { text := p }) :
      q = { text := p } := by
    cases kind with
    | entry => contradiction
    | comment => exact Body.comment.inj hq
    | preamble => exact Body.preamble.inj hq
    | stringDef => exact Body.stringDef.inj hq
  rw [payloadBlock] at hbody
  cases hscan : Scan.payload d c.after with
  | closed t r =>
      rw [hscan] at hbody
      obtain rfl : t = p := (Payload.mk.inj (hinj hbody)).1
      exact (Scan.payload_eq_closed_iff.1 hscan).2
  | unclosed braces parens =>
      rw [hscan] at hbody
      obtain ⟨-, rfl, rfl⟩ := Payload.mk.inj (hinj hbody)
      have hopen := Scan.ne_zero_of_unclosed hscan
      simp at hopen

end Cursor

namespace Document

/-- **Where a payload ends.**  A comment, preamble or string definition with a payload of the
grammar is read up to its own closing bracket, without a warning, and what follows is read as if it
stood alone, exactly if no parenthesis is closed in the payload outside of braces or the payload
stands in braces. -/
theorem parse_payload_iff {kind : BlockKind} {name : String} {command gap p : Text} {d : Delimiter}
    (hname : (kind, name) ∈ BlockKind.commands)
    (hcommand : Text.eqIgnoreAsciiCase command name.toList = true)
    (hgap : ∀ x ∈ gap, Text.isBlank x = true) (hp : Grammar.IsPayload d p) (rest : Text) :
    let source := '@' :: command ++ gap ++ [d.opening] ++ p ++ [d.closing]
    ((parse (source ++ rest)).1.nodes =
        .block ⟨command, d, .ofPayload kind { text := p }, some source⟩ :: (parse rest).1.nodes ∧
      (parse (source ++ rest)).2 = (parse rest).2.map (Warning.shift 1)) ↔
    (d = .paren → ')' ∉ p.outsideBraces 0) := by
  intro source
  have hne : kind ≠ .entry := by
    rintro rfl
    simp [BlockKind.commands] at hname
  obtain ⟨hrun, hkind⟩ := BlockKind.ofCommand_of_eqIgnoreAsciiCase hname hcommand
  have hread := Block.read?_opening hrun hgap d (p ++ d.closing :: rest)
  rw [Cursor.blockBody_of_ne_entry hkind hne] at hread
  have hsource : source ++ rest =
      '@' :: (command ++ gap ++ d.opening :: (p ++ d.closing :: rest)) := by
    simp [source]
  have hpieces := Piece.ofText_at hread
  rw [← hsource] at hpieces
  rw [← Scan.pass?_payload_iff hp.isBalanced]
  constructor
  · rintro ⟨hnodes, -⟩
    rw [nodes_parse, hpieces, List.map_cons] at hnodes
    have hblock := Node.block.inj (List.cons.inj hnodes).1
    exact Cursor.pass_of_payloadBlock hne (congrArg Block.body hblock)
  · intro hpass
    rw [Cursor.payloadBlock_of_pass rfl hpass] at hpieces
    refine ⟨?_, ?_⟩
    · rw [nodes_parse, hpieces, List.map_cons]
      simp [Piece.node, source]
    · rw [warnings_parse, hpieces]
      exact Piece.warningsFrom_add (Piece.ofText rest) 0 1

/-- A comment in parentheses with a smiley in braces, and free text after it. -/
theorem parse_payload_smiley :
    Grammar.IsPayload .paren "a \x7b:)\x7d b".toList ∧
    (parse "@Comment (a \x7b:)\x7d b) c".toList).1.nodes =
      [.block ⟨"Comment".toList, .paren, .comment { text := "a \x7b:)\x7d b".toList },
        some "@Comment (a \x7b:)\x7d b)".toList⟩, .text " c".toList] ∧
    (parse "@Comment (a \x7b:)\x7d b) c".toList).2 = [] := by
  have hp : Grammar.IsPayload .paren "a \x7b:)\x7d b".toList := by
    unfold Grammar.IsPayload
    decide +kernel
  have hname : (BlockKind.comment, "comment") ∈ BlockKind.commands := by decide
  have hcommand : Text.eqIgnoreAsciiCase "Comment".toList "comment".toList = true := by decide
  have hgap : ∀ x ∈ [' '], Text.isBlank x = true := List.forall_mem_singleton.2 rfl
  have h := (parse_payload_iff hname hcommand hgap hp " c".toList).2 (by decide +kernel)
  refine ⟨hp, h.1.trans ?_, h.2.trans ?_⟩ <;> decide +kernel

/-- A comment in parentheses with a remark in parentheses: the block ends with the remark. -/
theorem parse_payload_nested :
    Grammar.IsPayload .paren "a (b) c".toList ∧
    (parse "@comment(a (b) c)".toList).1.nodes ≠
      .block ⟨"comment".toList, .paren, .comment { text := "a (b) c".toList },
        some "@comment(a (b) c)".toList⟩ :: (parse []).1.nodes ∧
    (parse "@comment(a (b) c)".toList).1.nodes =
      [.block ⟨"comment".toList, .paren, .comment { text := "a (b".toList },
        some "@comment(a (b)".toList⟩, .text " c)".toList] := by
  refine ⟨?_, ?_, ?_⟩
  · unfold Grammar.IsPayload
    decide +kernel
  · decide +kernel
  · decide +kernel

end Document

end Bibliography
