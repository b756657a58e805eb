import Bibliography.Offset.Scan
import Bibliography.Proofs.Grammar.Scanners
import Bibliography.Proofs.Offset.Slice
import Bibliography.Proofs.Scan.Classes

/-!
# Bibliography.Proofs.Offset.Scan

The scanners on octets find what the scanners on characters find.  A text is in
two parts, and the scan begins at the end of the first one.  The octets that a
scanner looks for are ASCII, so that each of them is a character of its own
(`allFrom_octets_cons`); all others only count towards the offset.

* `skip_octets` — runs of a class;
* `balanced_octets`, `quoted_octets`, `payload_octets` — closing characters;
* `isLineBlock?_octets`, `lineBlock?_octets` — blocks at the start of a line.
-/

namespace Bibliography

/-! ## classes -/

namespace Text

theorem isAsciiClass_isBlank : IsAsciiClass isBlank := by
  intro x h
  simp only [isBlank, Bool.or_eq_true, decide_eq_true_eq] at h
  obtain (((rfl | rfl) | rfl) | rfl) | rfl := h <;> decide

theorem isAsciiClass_isCommandChar : IsAsciiClass Scan.isCommandChar := by
  intro x h
  simp only [Scan.isCommandChar, isAlnum, Char.isAlphanum, Bool.or_eq_true, decide_eq_true_eq,
    List.mem_cons, List.not_mem_nil, or_false] at h
  obtain (halpha | hdigit) | rfl | rfl | rfl | rfl := h
  · exact Unicode.lt_of_isAlpha halpha
  · exact Unicode.lt_of_isDigit hdigit
  all_goals decide

theorem lt_of_mem_keyEnds : ∀ x ∈ Scan.keyEnds, x.toNat < 128 := by decide

theorem isOctetClass_isKeyChar : IsOctetClass Scan.isKeyChar := by
  refine ⟨true, fun x hx => eq_true_of_ne_false fun h => ?_⟩
  exact absurd (lt_of_mem_keyEnds x (Scan.isKeyChar_eq_false_iff.1 h)) (Nat.not_lt.2 hx)

theorem isOctetClass_isLiteralChar : IsOctetClass Scan.isLiteralChar := by
  refine ⟨true, fun x hx => eq_true_of_ne_false fun h => ?_⟩
  have hmem := List.mem_cons_of_mem '%' (Scan.isLiteralChar_eq_false_iff.1 h)
  exact absurd (lt_of_mem_keyEnds x hmem) (Nat.not_lt.2 hx)

end Text

namespace Offset

variable {p : Char → Bool} {d : Delimiter}

/-! ## runs -/

theorem skip_append (p : Char → Bool) (a b : Text) :
    skip p (a ++ b) a.length = a.length + (b.takeWhile p).length := by
  induction b generalizing a with
  | nil =>
      rw [skip, dif_neg (by simp)]
      rfl
  | cons x b ih =>
      have hlt : a.length < (a ++ x :: b).length := by
        rw [List.length_append, List.length_cons]
        omega
      rw [skip, dif_pos hlt, List.getElem_append_right (Nat.le_refl _)]
      simp only [Nat.sub_self, List.getElem_cons_zero]
      by_cases hx : p x = true
      · have hnext := ih (a ++ [x])
        rw [List.append_assoc, List.singleton_append, List.length_append, List.length_singleton]
          at hnext
        rw [if_pos hx, hnext, List.takeWhile_cons_of_pos hx, List.length_cons]
        omega
      · rw [if_neg hx, List.takeWhile_cons_of_neg hx]
        rfl

/-- **A run of a class** ends where the run of characters ends. -/
theorem skip_octets (hp : Text.IsOctetClass p) (t u : Text) :
    skip p (Text.octets (t ++ u)) t.utf8Size = t.utf8Size + Text.utf8Size (u.takeWhile p) := by
  rw [Text.octets_append, ← Text.length_octets t, skip_append, Text.takeWhile_octets hp,
    ← Text.length_octets (u.takeWhile p)]

/-! ## the octets that matter -/

/-- **A search for ASCII octets** finds the characters that it looks for. -/
theorem allFrom_octets_cons (hp : Text.IsAsciiClass p) (i : Nat) (c : Char) (s : Text) :
    allFrom p i (Text.octets (c :: s)) =
      if p c then i :: allFrom p (i + c.utf8Size) (Text.octets s)
      else allFrom p (i + c.utf8Size) (Text.octets s) := by
  have hlength := Text.length_trail c
  rw [Text.octets_cons]
  obtain ⟨-, hlead, htrail⟩ | ⟨hc, hlead, htrail⟩ := Text.ascii_or_wide c
  · rw [htrail, List.length_nil] at hlength
    rw [hlead, htrail, List.nil_append, allFrom, ← hlength]
  · have hwide : ∀ x ∈ Text.lead c :: Text.trail c, p x = false :=
      List.forall_mem_cons.2 ⟨hp.eq_false hlead, fun x hx => hp.eq_false (htrail x hx)⟩
    rw [← List.cons_append, allFrom_eq_of_forall hwide, List.length_cons, hlength,
      if_neg (by simp [hp.eq_false hc])]

/-- The octet that such a search has found. -/
theorem getElem?_found (hp : Text.IsAsciiClass p) {c : Char} (hc : p c = true) (t v u : Text) :
    (Text.octets (t ++ (v ++ c :: u)))[t.utf8Size + v.utf8Size]? = some c := by
  rw [← List.append_assoc, ← Text.utf8Size_append, getElem?_size_eq_iff (hp c hc)]
  rfl

theorem utf8Size_snoc (v : Text) (c : Char) :
    Text.utf8Size (v ++ [c]) = v.utf8Size + c.utf8Size := by
  rw [Text.utf8Size_append]
  rfl

end Offset

/-! ## brackets -/

/-- What a scan that begins at an offset tells of its end. -/
def Scan.Closing.located (start : Nat) : Scan.Closing → Except Offset.ScanError Nat
  | closed t _ => .ok (start + t.utf8Size)
  | stray t _ => .error (.unexpectedClose (start + t.utf8Size))
  | unclosed depth => .error (.unterminated depth)

theorem Scan.Closing.located_cons (start : Nat) (c : Char) (r : Scan.Closing) :
    (r.cons c).located start = r.located (start + c.utf8Size) := by
  cases r <;> simp [cons, located, Text.utf8Size, Nat.add_assoc]

theorem Delimiter.toNat_opening_lt (d : Delimiter) : d.opening.toNat < 128 := by
  cases d <;> decide

theorem Delimiter.toNat_closing_lt (d : Delimiter) : d.closing.toNat < 128 := by
  cases d <;> decide

namespace Offset

variable {opening closing : Char}

theorem isAsciiClass_isBracket (ho : opening.toNat < 128) (hc : closing.toNat < 128) :
    Text.IsAsciiClass (isBracket opening closing) := by
  intro x hx
  simp only [isBracket, Bool.or_eq_true, decide_eq_true_eq] at hx
  obtain rfl | rfl := hx <;> assumption

/-- The invariant: `v` has been passed, and leaves `depth` brackets open. -/
theorem balancedLoop_octets (ho : opening.toNat < 128) (hc : closing.toNat < 128) (t v u : Text)
    (depth : Nat) :
    balancedLoop opening (Text.octets (t ++ (v ++ u))) t.utf8Size depth
        (allFrom (isBracket opening closing) v.utf8Size (Text.octets u)) =
      some ((Scan.balancedFrom opening closing depth u).located (t.utf8Size + v.utf8Size)) := by
  have hclass := isAsciiClass_isBracket ho hc
  induction u generalizing v depth with
  | nil =>
      simp [Text.octets, allFrom, balancedLoop, Scan.balancedFrom, Scan.Closing.located]
  | cons c u ih =>
      have hnext (depth : Nat) := ih (v ++ [c]) depth
      simp only [List.append_assoc, List.singleton_append, utf8Size_snoc, ← Nat.add_assoc,
        ← Scan.Closing.located_cons] at hnext
      rw [allFrom_octets_cons hclass]
      by_cases hbracket : isBracket opening closing c = true
      · have hfound := getElem?_found hclass hbracket t v u
        rw [if_pos hbracket, balancedLoop.eq_def, Scan.balancedFrom.eq_def]
        simp only [hfound, Option.bind_eq_bind, Option.bind_some]
        by_cases hopening : c = opening
        · rw [if_pos hopening, if_pos hopening, hnext]
        · have hclosing : c = closing := by simpa [isBracket, hopening] using hbracket
          rw [if_neg hopening, if_neg hopening, if_pos hclosing]
          cases depth with
          | zero => simp [Scan.Closing.located, Text.utf8Size]
          | succ depth => simp [hnext]
      · have hother : c ≠ opening ∧ c ≠ closing := by simpa [isBracket] using hbracket
        rw [if_neg hbracket, hnext]
        cases depth <;> rw [Scan.balancedFrom, if_neg hother.1, if_neg hother.2]

/-- **The closing bracket**: the scan on octets finds the one that the scan on characters finds. -/
theorem balanced_octets (ho : opening.toNat < 128) (hc : closing.toNat < 128) (t u : Text) :
    balanced opening closing (Text.octets (t ++ u)) t.utf8Size =
      some ((Scan.balanced opening closing u).located t.utf8Size) := by
  have h := balancedLoop_octets ho hc t [] u 0
  rw [List.nil_append, Text.utf8Size, Nat.add_zero] at h
  rw [balanced, octetsFrom?_append]
  exact h

/-! ## quotation marks -/

theorem isAsciiClass_isMarkOrBrace : Text.IsAsciiClass isMarkOrBrace := by
  intro x hx
  simp only [isMarkOrBrace, Bool.or_eq_true, decide_eq_true_eq] at hx
  obtain (rfl | rfl) | rfl := hx <;> decide

/-- The backslashes at the end of a text can be counted in its octets. -/
theorem slashesAtEnd_octets (v : Text) : (Text.octets v).slashesAtEnd = v.slashesAtEnd := by
  induction v using List.reverseRecOn with
  | nil => rfl
  | append_singleton v c ih =>
      rw [Text.octets_append, Text.octets_singleton, Text.slashesAtEnd_snoc]
      obtain ⟨-, hlead, htrail⟩ | ⟨hc, -⟩ := Text.ascii_or_wide c
      · rw [hlead, htrail, Text.slashesAtEnd_snoc, ih]
      · have hslash : c ≠ '\\' := by
          rintro rfl
          exact absurd hc (by decide)
        rw [if_neg hslash, ← List.dropLast_append_getLast (List.cons_ne_nil (Text.lead c) _),
          ← List.append_assoc, Text.slashesAtEnd_snoc,
          if_neg (mt (Text.getLast_octets_eq_iff (by decide)).1 hslash)]

/-- The invariant: `v` has been passed, leaves `depth` braces open, and ends with an odd run of
backslashes if `escaped`. -/
theorem quotedLoop_octets (t v u : Text) (depth : Nat) :
    quotedLoop (Text.octets (t ++ (v ++ u))) t.utf8Size depth
        (allFrom isMarkOrBrace v.utf8Size (Text.octets u)) =
      some ((Scan.quotedFrom depth (decide (v.slashesAtEnd % 2 = 1)) u).located
        (t.utf8Size + v.utf8Size)) := by
  induction u generalizing v depth with
  | nil =>
      simp [Text.octets, allFrom, quotedLoop, Scan.quotedFrom, Scan.Closing.located]
  | cons c u ih =>
      have hnext (depth : Nat) := ih (v ++ [c]) depth
      simp only [List.append_assoc, List.singleton_append, utf8Size_snoc, ← Nat.add_assoc,
        ← Scan.Closing.located_cons, Text.odd_slashesAtEnd_snoc] at hnext
      rw [allFrom_octets_cons isAsciiClass_isMarkOrBrace]
      by_cases hc : isMarkOrBrace c = true
      · have hfound := getElem?_found isAsciiClass_isMarkOrBrace hc t v u
        have hbefore := octets?_append t v (c :: u)
        have hslashes : ((Text.octets v).reverse.takeWhile (· = '\\')).length = v.slashesAtEnd :=
          slashesAtEnd_octets v
        rw [if_pos hc, quotedLoop.eq_def, Scan.quotedFrom.eq_def]
        simp only [hfound, Option.bind_eq_bind, Option.bind_some]
        by_cases hmark : c = '"'
        · simp only [if_pos hmark, hbefore, Option.bind_some, hslashes]
          by_cases hcloses : depth = 0 ∧ v.slashesAtEnd % 2 = 0
          · obtain ⟨rfl, heven⟩ := hcloses
            simp [hmark, heven, Scan.Closing.located, Text.utf8Size]
          · have hopen : ¬ (c = '"' ∧ depth = 0 ∧ decide (v.slashesAtEnd % 2 = 1) = false) := by
              rintro ⟨-, rfl, heven⟩
              exact hcloses ⟨rfl, by simpa using heven⟩
            have hbrace : c ≠ '{' ∧ c ≠ '}' := by simp [hmark]
            rw [if_neg hcloses, hnext, if_neg hopen, if_neg hbrace.1, if_neg hbrace.2]
        · have hopen : ¬ (c = '"' ∧ depth = 0 ∧ decide (v.slashesAtEnd % 2 = 1) = false) :=
            fun h => hmark h.1
          rw [if_neg hmark, if_neg hopen]
          by_cases ho : c = '{'
          · subst ho
            simp [hnext]
          · obtain rfl : c = '}' := by simpa [isMarkOrBrace, hmark, ho] using hc
            rw [if_neg ho, if_neg ho, if_pos rfl]
            cases depth with
            | zero => simp [Scan.Closing.located, Text.utf8Size]
            | succ depth => simp [hnext]
      · have hother : c ≠ '"' ∧ c ≠ '{' ∧ c ≠ '}' := by
          simpa [isMarkOrBrace, and_assoc] using hc
        rw [if_neg hc, hnext]
        cases depth <;> rw [Scan.quotedFrom, if_neg (by simp [hother.1]), if_neg hother.2.1,
          if_neg hother.2.2]

/-- **The closing quotation mark**: the scan on octets finds the one that the scan on characters
finds. -/
theorem quoted_octets (t u : Text) :
    quoted (Text.octets (t ++ u)) t.utf8Size = some ((Scan.quoted u).located t.utf8Size) := by
  have h := quotedLoop_octets t [] u 0
  rw [List.nil_append, Text.utf8Size, Nat.add_zero] at h
  rw [quoted, octetsFrom?_append]
  exact h

end Offset

/-! ## payloads -/

/-- What a scan of a payload that begins at an offset tells of its end, in octets of that length. -/
def Scan.PayloadEnd.located (length start : Nat) : Scan.PayloadEnd → Offset.PayloadScan
  | closed t _ => ⟨start + t.utf8Size, 0, 0⟩
  | unclosed braces parens => ⟨length, braces, parens⟩

theorem Scan.PayloadEnd.located_cons (length start : Nat) (c : Char) (r : Scan.PayloadEnd) :
    (r.cons c).located length start = r.located length (start + c.utf8Size) := by
  cases r <;> simp [cons, located, Text.utf8Size, Nat.add_assoc]

namespace Offset

theorem isAsciiClass_isPayloadBracket (hc : closing.toNat < 128) :
    Text.IsAsciiClass (isPayloadBracket closing) := by
  intro x hx
  simp only [isPayloadBracket, Bool.or_eq_true, decide_eq_true_eq] at hx
  obtain (rfl | rfl) | rfl := hx
  · decide
  · decide
  · exact hc

/-- The invariant: `v` has been passed, and leaves so many braces open. -/
theorem payloadLoop_octets (d : Delimiter) (t v u : Text) (braces : Nat) :
    payloadLoop d.closing (Text.octets (t ++ (v ++ u))) t.utf8Size braces
        (allFrom (isPayloadBracket d.closing) v.utf8Size (Text.octets u)) =
      some ((Scan.payloadFrom d braces u).located (Text.utf8Size (t ++ (v ++ u)))
        (t.utf8Size + v.utf8Size)) := by
  have hclass := isAsciiClass_isPayloadBracket d.toNat_closing_lt
  induction u generalizing v braces with
  | nil =>
      have hnil : Text.octets [] = [] := rfl
      cases d <;> rw [hnil, allFrom, payloadLoop, Text.length_octets] <;> rfl
  | cons c u ih =>
      have hnext (braces : Nat) := ih (v ++ [c]) braces
      simp only [List.append_assoc, List.singleton_append, utf8Size_snoc, ← Nat.add_assoc,
        ← Scan.PayloadEnd.located_cons] at hnext
      rw [allFrom_octets_cons hclass]
      by_cases hc : isPayloadBracket d.closing c = true
      · have hfound := getElem?_found hclass hc t v u
        rw [if_pos hc, payloadLoop.eq_def, Scan.payloadFrom]
        simp only [hfound, Option.bind_eq_bind, Option.bind_some]
        by_cases ho : c = '{'
        · rw [if_pos ho, if_pos ho, hnext]
        · rw [if_neg ho, if_neg ho]
          by_cases hbrace : c = '}'
          · subst hbrace
            rw [if_pos rfl, if_pos rfl]
            cases d with
            | brace =>
                cases braces with
                | zero => simp [Delimiter.closing, Scan.PayloadEnd.located, Text.utf8Size]
                | succ braces => simp_all [Delimiter.closing]
            | paren => simp_all [Delimiter.closing]
          · have hclosing : c = d.closing := by simpa [isPayloadBracket, ho, hbrace] using hc
            rw [if_neg hbrace, if_neg hbrace]
            by_cases hzero : braces = 0
            · simp [hzero, hclosing, Scan.PayloadEnd.located, Text.utf8Size]
            · simp [hzero, hnext]
      · have hother : c ≠ '{' ∧ c ≠ '}' ∧ c ≠ d.closing := by
          simpa [isPayloadBracket, and_assoc] using hc
        rw [if_neg hc, hnext, Scan.payloadFrom, if_neg hother.1, if_neg (by simp [hother.2.2]),
          if_neg hother.2.1]

/-- **The end of a payload**: the scan on octets finds the one that the scan on characters finds. -/
theorem payload_octets (d : Delimiter) (t u : Text) :
    payload d.closing (Text.octets (t ++ u)) t.utf8Size =
      some ((Scan.payload d u).located (Text.utf8Size (t ++ u)) t.utf8Size) := by
  have h := payloadLoop_octets d t [] u 0
  rw [List.nil_append, Text.utf8Size, Nat.add_zero] at h
  rw [payload, octetsFrom?_append]
  exact h

/-! ## blocks at the start of a line -/

/-- **An `@` at the start of a line** is told by the octet before it. -/
theorem isLineBlock?_octets (t u : Text) (c : Char) :
    isLineBlock? (Text.octets ((t ++ [c]) ++ u)) (Text.utf8Size (t ++ [c])) =
      some (c = '\n' && u.head? = some '@') := by
  have hlength := Text.length_trail c
  have hsize : Text.utf8Size (t ++ [c]) = (t.utf8Size + (Text.trail c).length) + 1 := by
    rw [utf8Size_snoc]
    omega
  have hlast : (Text.octets ((t ++ [c]) ++ u))[t.utf8Size + (Text.trail c).length]? =
      some ((Text.lead c :: Text.trail c).getLast (List.cons_ne_nil _ _)) := by
    rw [List.append_assoc, getElem?_octets, List.singleton_append, Text.octets_cons,
      ← List.cons_append, List.getElem?_append_left (by simp), List.getLast_eq_getElem,
      List.getElem?_eq_getElem (by simp)]
    simp
  have hat := getElem?_size_eq_iff (t := t ++ [c]) (u := u) (x := '@') (by decide)
  rw [hsize] at hat ⊢
  rw [isLineBlock?, hlast]
  simp only [Option.bind_eq_bind, Option.bind_some, Option.pure_def,
    Text.getLast_octets_eq_iff (c := c) (x := '\n') (by decide), hat]

/-- Octets beyond ASCII are passed in the search for a block. -/
theorem findOctets?_append {w : Text} (hw : ∀ x ∈ w, x ≠ '\n') (b : Text) :
    findOctets? ['\n', '@'] (w ++ b) = (findOctets? ['\n', '@'] b).map (· + w.length) := by
  induction w with
  | nil => simp
  | cons x w ih =>
      obtain ⟨hx, hw⟩ := List.forall_mem_cons.1 hw
      have hprefix : List.isPrefixOf ['\n', '@'] (x :: (w ++ b)) = false := by
        simp [List.isPrefixOf, Ne.symm hx]
      rw [List.cons_append, findOctets?, hprefix, ih hw, if_neg (by simp), Option.map_map]
      simp [Function.comp_def, Nat.add_assoc]

/-- A character that no block follows at the start of a line is passed in the search for one. -/
theorem findOctets?_octets_cons {c : Char} {s : Text}
    (hline : ∀ r, c = '\n' → s = '@' :: r → False) :
    findOctets? ['\n', '@'] (Text.octets (c :: s)) =
      (findOctets? ['\n', '@'] (Text.octets s)).map (· + c.utf8Size) := by
  by_cases hc : c = '\n'
  · subst hc
    -- The line feed is not followed by an `@`, which would be the first octet too.
    have hat : List.isPrefixOf ['@'] (Text.octets s) = false := by
      cases s with
      | nil => rfl
      | cons x s =>
          have hx : x ≠ '@' := by
            rintro rfl
            exact hline s rfl rfl
          have hlead : Text.lead x ≠ '@' := mt (Text.lead_eq_iff (by decide)).1 hx
          rw [Text.octets_cons]
          simp [List.isPrefixOf, Ne.symm hlead]
    have hfeed : Text.octets ('\n' :: s) = '\n' :: Text.octets s := rfl
    rw [hfeed, findOctets?, List.isPrefixOf, hat]
    rfl
  · have hother : ∀ x ∈ Text.lead c :: Text.trail c, x ≠ '\n' := by
      obtain ⟨-, hlead, htrail⟩ | ⟨-, hlead, htrail⟩ := Text.ascii_or_wide c
      · simpa [hlead, htrail] using hc
      · rintro x hx rfl
        obtain h | h := List.mem_cons.1 hx
        · exact absurd (h ▸ hlead) (by decide)
        · exact absurd (htrail _ h) (by decide)
    rw [Text.octets_cons, ← List.cons_append, findOctets?_append hother, List.length_cons,
      Text.length_trail]

/-- The octets before the next `@` at the start of a line are those of the text before it. -/
theorem findOctets?_octets (u : Text) :
    (match findOctets? ['\n', '@'] (Text.octets u) with
      | some offset => offset + 1
      | none => u.utf8Size) = Text.utf8Size (Scan.untilLineBlock u) := by
  fun_induction Scan.untilLineBlock u with
  | case1 => rfl
  | case2 s => rfl
  | case3 c s hline ih =>
      rw [findOctets?_octets_cons hline, Text.utf8Size, Text.utf8Size, ← ih]
      cases findOctets? ['\n', '@'] (Text.octets s) with
      | none => rfl
      | some offset =>
          show offset + c.utf8Size + 1 = c.utf8Size + (offset + 1)
          omega

/-- **The next block at the start of a line** begins where the text before it ends. -/
theorem lineBlock?_octets (t u : Text) :
    lineBlock? (Text.octets (t ++ u)) t.utf8Size =
      some (t.utf8Size + Text.utf8Size (Scan.untilLineBlock u)) := by
  rw [lineBlock?, octetsFrom?_append, ← findOctets?_octets]
  cases h : findOctets? ['\n', '@'] (Text.octets u) with
  | none => simp [h, Text.length_octets]
  | some offset => simp [h, Nat.add_assoc]

end Offset

end Bibliography
