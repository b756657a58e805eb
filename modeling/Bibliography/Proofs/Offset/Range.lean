import Bibliography.Proofs.Offset.Blocks
import Bibliography.Proofs.Offset.Latex
import Bibliography.Proofs.Offset.Names
import Bibliography.Proofs.Offset.Trim

/-!
# Bibliography.Proofs.Offset.Range

No offset is out of range.  A scan that begins at a boundary stops at one, and finds
all octets that it looks at (`ScansInRange`).  Reading by offsets, where a slice or an
octet that is not there is `none` and so is a loop that does not move on, always gives
what reading by characters gives: so every slice is there, and it ends.

* `mem_allFrom_octets`, `exists_payloadLoop` — where a search for octets of ASCII stops;
* `scansInRange` — the scanners;
* `offsets_in_range` — the scanners, and everything that takes slices of a text.
-/

namespace Bibliography.Offset

/-! ## scanners -/

/-- The offsets that a scan for a closing character tells. -/
def places : Except ScanError Nat → List Nat
  | .ok stop => [stop]
  | .error (.unexpectedClose place) => [place]
  | .error (.unterminated _) => []

/-- What the scans that begin at an offset of a text find there is in the text. -/
structure ScansInRange (s : Text) (start : Nat) : Prop where
  blank : IsBoundary s (skipBlank s.octets start)
  command : IsBoundary s (skip Scan.isCommandChar s.octets start)
  key : IsBoundary s (skip Scan.isKeyChar s.octets start)
  literal : IsBoundary s (skip Scan.isLiteralChar s.octets start)
  balanced : ∀ opening closing : Char, opening.toNat < 128 → closing.toNat < 128 →
    ∃ r, balanced opening closing s.octets start = some r ∧ ∀ i ∈ places r, IsBoundary s i
  quoted : ∃ r, quoted s.octets start = some r ∧ ∀ i ∈ places r, IsBoundary s i
  payload : ∀ closing : Char, closing.toNat < 128 →
    ∃ r, payload closing s.octets start = some r ∧ IsBoundary s r.stop
  isLineBlock : ∃ v, isLineBlock? s.octets start = some v
  lineBlock : ∃ i, lineBlock? s.octets start = some i ∧ IsBoundary s i

variable {p : Char → Bool} {s t u v : Text} {closing : Char}

/-- A boundary between the parts of a text that is in two of them. -/
theorem isBoundary_add (t v w : Text) : IsBoundary (t ++ (v ++ w)) (t.utf8Size + v.utf8Size) :=
  ⟨t ++ v, w, (List.append_assoc _ _ _).symm, (Text.utf8Size_append _ _).symm⟩

theorem isBoundary_length (s : Text) : IsBoundary s s.octets.length :=
  ⟨s, [], (List.append_nil s).symm, Text.length_octets s⟩

theorem isBoundary_skip (hp : Text.IsOctetClass p) (t u : Text) :
    IsBoundary (t ++ u) (skip p (Text.octets (t ++ u)) t.utf8Size) := by
  have h := isBoundary_add t (u.takeWhile p) (u.dropWhile p)
  rwa [List.takeWhile_append_dropWhile, ← skip_octets hp] at h

theorem isBoundary_of_mem_places {r : Scan.Closing}
    (hclosed : ∀ v w, r = .closed v w → v <+: u) (hstray : ∀ v w, r = .stray v w → v <+: u) :
    ∀ i ∈ places (r.located t.utf8Size), IsBoundary (t ++ u) i := by
  intro i hi
  cases r with
  | closed v w =>
      obtain rfl := List.mem_singleton.1 hi
      obtain ⟨w', rfl⟩ := hclosed v w rfl
      exact isBoundary_add t v w'
  | stray v w =>
      obtain rfl := List.mem_singleton.1 hi
      obtain ⟨w', rfl⟩ := hstray v w rfl
      exact isBoundary_add t v w'
  | unclosed depth => cases hi

/-- Octets of ASCII are found at boundaries. -/
theorem mem_allFrom_octets (hp : Text.IsAsciiClass p) {start i : Nat}
    (h : i ∈ allFrom p start u.octets) :
    ∃ (v : Text) (c : Char) (w : Text), u = v ++ c :: w ∧ i = start + v.utf8Size := by
  induction u generalizing start with
  | nil => cases h
  | cons c u ih =>
      rw [allFrom_octets_cons hp] at h
      have hrest (h : i ∈ allFrom p (start + c.utf8Size) (Text.octets u)) :
          ∃ (v : Text) (x : Char) (w : Text), c :: u = v ++ x :: w ∧ i = start + v.utf8Size := by
        obtain ⟨v, x, w, rfl, rfl⟩ := ih h
        exact ⟨c :: v, x, w, rfl, Nat.add_assoc _ _ _⟩
      split at h
      · obtain rfl | h := List.mem_cons.1 h
        · exact ⟨[], c, u, rfl, rfl⟩
        · exact hrest h
      · exact hrest h

/-- A scan of a payload stops at the end or at one of the octets that were found. -/
theorem exists_payloadLoop (closing : Char) (braces : Nat) {b : Text} {start : Nat}
    {offsets : List Nat} (h : ∀ i ∈ offsets, start + i < b.length) :
    ∃ r, payloadLoop closing b start braces offsets = some r ∧
      (r.stop = b.length ∨ ∃ i ∈ offsets, r.stop = start + i) := by
  induction offsets generalizing braces with
  | nil =>
      rw [payloadLoop]
      split <;> exact ⟨_, rfl, .inl rfl⟩
  | cons i offsets ih =>
      obtain ⟨hi, hoffsets⟩ := List.forall_mem_cons.1 h
      have hstop : ∃ r, some (⟨start + i, 0, 0⟩ : PayloadScan) = some r ∧
          (r.stop = b.length ∨ ∃ j ∈ i :: offsets, r.stop = start + j) :=
        ⟨_, rfl, .inr ⟨i, List.mem_cons_self, rfl⟩⟩
      have hnext (braces : Nat) : ∃ r, payloadLoop closing b start braces offsets = some r ∧
          (r.stop = b.length ∨ ∃ j ∈ i :: offsets, r.stop = start + j) := by
        obtain ⟨r, hr, hend | ⟨j, hj, hstop⟩⟩ := ih braces hoffsets
        · exact ⟨r, hr, .inl hend⟩
        · exact ⟨r, hr, .inr ⟨j, List.mem_cons_of_mem _ hj, hstop⟩⟩
      rw [payloadLoop.eq_def]
      simp only [List.getElem?_eq_getElem hi]
      simp only [Option.bind_eq_bind, Option.bind_some]
      split
      · exact hnext _
      · split
        · split
          · cases braces with
            | zero => exact hstop
            | succ braces => exact hnext _
          · exact hnext _
        · split
          · exact hstop
          · exact hnext _

theorem exists_payload (hc : closing.toNat < 128) (t u : Text) :
    ∃ r, payload closing (Text.octets (t ++ u)) t.utf8Size = some r ∧
      IsBoundary (t ++ u) r.stop := by
  have hfound (i : Nat) (hi : i ∈ allFrom (isPayloadBracket closing) 0 u.octets) :
      IsBoundary (t ++ u) (t.utf8Size + i) ∧ t.utf8Size + i < (Text.octets (t ++ u)).length := by
    obtain ⟨v, c, w, rfl, rfl⟩ := mem_allFrom_octets (isAsciiClass_isPayloadBracket hc) hi
    have hpos := Char.utf8Size_pos c
    rw [Nat.zero_add]
    refine ⟨isBoundary_add t v (c :: w), ?_⟩
    rw [Text.length_octets, Text.utf8Size_append, Text.utf8Size_append, Text.utf8Size]
    omega
  obtain ⟨r, hr, hstop⟩ :=
    exists_payloadLoop closing 0 fun i hi => (hfound i hi).2
  refine ⟨r, by rw [payload, octetsFrom?_append]; exact hr, ?_⟩
  obtain hstop | ⟨i, hi, hstop⟩ := hstop
  · exact hstop ▸ isBoundary_length _
  · exact hstop ▸ (hfound i hi).1

theorem exists_isLineBlock? {b : Text} {start : Nat} (h : start ≤ b.length) :
    ∃ v, isLineBlock? b start = some v := by
  cases start with
  | zero => exact ⟨false, rfl⟩
  | succ pos =>
      rw [isLineBlock?, List.getElem?_eq_getElem h]
      exact ⟨_, rfl⟩

/-- **Scans that begin at a boundary are in range.** -/
theorem scansInRange {start : Nat} (h : IsBoundary s start) : ScansInRange s start := by
  obtain ⟨t, u, rfl, rfl⟩ := h
  refine ⟨isBoundary_skip Text.isAsciiClass_isBlank.isOctetClass t u,
    isBoundary_skip Text.isAsciiClass_isCommandChar.isOctetClass t u,
    isBoundary_skip Text.isOctetClass_isKeyChar t u,
    isBoundary_skip Text.isOctetClass_isLiteralChar t u, ?_, ?_, ?_, ?_, ?_⟩
  · intro opening closing ho hc
    refine ⟨_, balanced_octets ho hc t u, isBoundary_of_mem_places ?_ ?_⟩
    · exact fun v w hr => ⟨_, (Scan.eq_of_balanced_closed hr).symm⟩
    · exact fun v w hr => absurd hr Scan.balancedFrom_ne_stray
  · refine ⟨_, quoted_octets t u, isBoundary_of_mem_places ?_ ?_⟩
    · exact fun v w hr => ⟨_, (Scan.eq_of_quoted_closed hr).symm⟩
    · exact fun v w hr => ⟨_, (Scan.eq_of_quotedFrom_stray hr).symm⟩
  · exact fun closing hc => exists_payload hc t u
  · refine exists_isLineBlock? ?_
    rw [Text.length_octets]
    exact (isBoundary_append t u).le
  · obtain ⟨w, hw⟩ := Scan.untilLineBlock_prefix u
    refine ⟨_, lineBlock?_octets t u, ?_⟩
    have hb := isBoundary_add t (Scan.untilLineBlock u) w
    rwa [hw] at hb

/-! ## slices -/

/-- **No offset is out of range.**  A slice is there between two boundaries only, and an octet only
before the end.  Where a scan begins at a boundary, the offsets that it tells are boundaries; and in
every text, whatever reads it by offsets finds all the slices and octets that it takes, comes to an
end, and finds what reading by characters finds: the document, the names and surnames, the text in
LaTeX and in plain ASCII, the key template, and the text without braces or blank lines around it. -/
theorem offsets_in_range (s : Text) :
    (∀ i j, (slice? s i j).isSome = true ↔ i ≤ j ∧ IsBoundary s i ∧ IsBoundary s j) ∧
    (∀ start, IsBoundary s start → ScansInRange s start) ∧
    parse s = some (Document.parse s) ∧
    names s = some (Names.split s) ∧
    surname s = some (Names.surname s) ∧
    escape s = some (Latex.escape s) ∧
    fold s = some (Latex.fold s) ∧
    template s = some (KeyTemplate.parse s) ∧
    stripBraces s = some ((enclosed? s).getD s) ∧
    trimBlankLines s = some (Layout.trimBlankLines s) :=
  ⟨fun _ _ => isSome_slice?_iff, fun _ => scansInRange, parse_eq s, names_eq s, surname_eq s,
    escape_eq s, fold_eq s, template_eq s, stripBraces_eq s, trimBlankLines_eq s⟩

/-- A scan that begins just before a character beyond ASCII, and stops just after it. -/
theorem offsets_in_range_beyondAscii :
    IsBoundary ['@', 'a', '{', 'é', '}'] 3 ∧
    balanced '{' '}' (Text.octets ['@', 'a', '{', 'é', '}']) 3 = some (.ok 5) ∧
    IsBoundary ['@', 'a', '{', 'é', '}'] 5 ∧ ¬ IsBoundary ['@', 'a', '{', 'é', '}'] 4 := by
  have hstart : IsBoundary ['@', 'a', '{', 'é', '}'] 3 := ⟨['@', 'a', '{'], ['é', '}'], rfl, rfl⟩
  have hscan : balanced '{' '}' (Text.octets ['@', 'a', '{', 'é', '}']) 3 = some (.ok 5) := by
    decide
  obtain ⟨hslices, hscans, -⟩ := offsets_in_range ['@', 'a', '{', 'é', '}']
  obtain ⟨r, hr, hplaces⟩ := (hscans 3 hstart).balanced '{' '}' (by decide) (by decide)
  obtain rfl := Option.some.inj (hscan.symm.trans hr)
  refine ⟨hstart, hscan, hplaces 5 List.mem_cons_self, fun hinside => ?_⟩
  have hslice := (hslices 3 4).2 ⟨by decide, hstart, hinside⟩
  exact absurd hslice (by decide)

end Bibliography.Offset
