import Bibliography.Proofs.Parse.Extension

/-!
# Bibliography.Proofs.Parse.BlockEnd

Where a block ends, and that this does not depend on what comes after its end.
The end of an entry is where its reader stops.  The end of a payload is its
closing bracket, or the end of the text.  The end of a block that is kept
verbatim is counted in characters: `verbatimLength` says how many, and
`verbatimLength_append` that a text that ends there gives the same number.

* `Block.read?_extend` — a block that was read in front of `w` is read in front
  of `z`, if it was understood up to its closing bracket, or if `z` is empty.
-/

namespace Bibliography

/-! ## lines -/

namespace Scan

theorem untilLineBlock_cons (c : Char) (s : Text) :
    untilLineBlock (c :: s) =
      c :: if c = '\n' ∧ s.head? = some '@' then [] else untilLineBlock s := by
  rw [untilLineBlock.eq_def]
  split
  · next h => cases h
  · next r h =>
    obtain ⟨rfl, rfl⟩ := List.cons.inj h
    rw [if_pos ⟨rfl, rfl⟩]
  · next x r hne h =>
    obtain ⟨rfl, rfl⟩ := List.cons.inj h
    rw [if_neg]
    rintro ⟨rfl, hr⟩
    obtain ⟨t, rfl⟩ := List.head?_eq_some_iff.1 hr
    exact hne t rfl rfl

/-- The end of a line in front of a block is found in a text that ends earlier, or
that text has none. -/
theorem untilLineBlock_eq_take (s w : Text) :
    untilLineBlock s = (untilLineBlock (s ++ w)).take s.length := by
  induction s with
  | nil => rfl
  | cons c s ih =>
      rw [List.cons_append, untilLineBlock_cons, untilLineBlock_cons, List.length_cons,
        List.take_succ_cons]
      congr 1
      cases s with
      | nil =>
          rw [if_neg (by simp), untilLineBlock, List.length_nil, List.take_zero]
      | cons y s =>
          by_cases hc : c = '\n' ∧ y = '@'
          · rw [if_pos (by simpa using hc), if_pos (by simpa using hc), List.take_nil]
          · rw [if_neg (by simpa using hc), if_neg (by simpa using hc)]
            exact ih

theorem length_untilLineBlock_append (s w : Text) :
    (untilLineBlock s).length = min s.length (untilLineBlock (s ++ w)).length := by
  rw [untilLineBlock_eq_take s w, List.length_take]

theorem untilLineBlock_prefix (s : Text) : untilLineBlock s <+: s := by
  induction s with
  | nil => exact List.nil_prefix
  | cons c s ih =>
      rw [untilLineBlock_cons, List.prefix_cons_inj]
      split
      · exact List.nil_prefix
      · exact ih

theorem untilLineBlock_ne_nil {s : Text} (h : s ≠ []) : untilLineBlock s ≠ [] := by
  cases s with
  | nil => contradiction
  | cons c s =>
      rw [untilLineBlock_cons]
      exact List.cons_ne_nil _ _

end Scan

namespace Cursor

variable {c p : Cursor} {w z : Text} {d : Delimiter}

/-! ## blocks kept verbatim -/

/-- The characters from a failure to the next block at the start of a line. -/
def lineLength (failed : Cursor) : Nat :=
  if failed.atLineBlock then 0 else (Scan.untilLineBlock failed.after).length

/-- The characters of a body that is kept verbatim.  The reading of it failed
after `failed` characters, and the next block at the start of a line, or the
end, comes after `limit` characters. -/
def verbatimLength (d : Delimiter) (failed limit : Nat) (s : Text) : Nat :=
  match Scan.balanced d.opening d.closing (s.take limit) with
  | .closed t _ => if failed ≤ t.length then t.length + 1 else limit
  | _ => limit

/-- Where a block that failed is ended by a line, counted in characters. -/
theorem lineEnd_eq {failed : Cursor} {a : Text} (hafter : c.after = a ++ failed.after)
    (hbefore : failed.before = a.reverse ++ c.before) :
    a.length + failed.lineLength ≤ c.after.length ∧
      (if failed.atLineBlock then failed else failed.toLineBlock) =
        c.past (c.after.take (a.length + failed.lineLength))
          (c.after.drop (a.length + failed.lineLength)) := by
  have hle : failed.lineLength ≤ failed.after.length := by
    unfold lineLength
    split
    · exact Nat.zero_le _
    · exact (Scan.untilLineBlock_prefix failed.after).length_le
  refine ⟨by rw [hafter, List.length_append]; omega, ?_⟩
  rw [hafter, List.take_length_add_append, List.drop_length_add_append]
  unfold lineLength
  split
  · rw [List.take_zero, List.drop_zero, List.append_nil, past, ← hbefore]
  · unfold toLineBlock past
    dsimp only
    rw [← List.prefix_iff_eq_take.1 (Scan.untilLineBlock_prefix failed.after), hbefore,
      List.reverse_append, List.append_assoc]

/-- The end of a block that failed, counted in characters. -/
theorem verbatimEnd_eq (d : Delimiter) {failed : Cursor} {a : Text}
    (hafter : c.after = a ++ failed.after) (hbefore : failed.before = a.reverse ++ c.before) :
    c.verbatimEnd d failed =
      let m := verbatimLength d a.length (a.length + failed.lineLength) c.after
      c.past (c.after.take m) (c.after.drop m) := by
  obtain ⟨hle, hline⟩ := lineEnd_eq hafter hbefore
  unfold verbatimEnd verbatimLength
  dsimp only
  rw [hline]
  generalize a.length + failed.lineLength = limit at hle ⊢
  have hlength : (c.past (c.after.take limit) (c.after.drop limit)).before.length -
      c.before.length = limit := by
    rw [before_past, List.length_append, List.length_reverse, List.length_take,
      Nat.min_eq_left hle]
    omega
  have hfailed : failed.before.length = c.before.length + a.length := by
    rw [hbefore, List.length_append, List.length_reverse]
    omega
  rw [hlength, hfailed]
  cases Scan.balanced d.opening d.closing (c.after.take limit) with
  | closed t r =>
      simp only [Nat.add_le_add_iff_left]
      split <;> rfl
  | stray t r => rfl
  | unclosed n => rfl

/-- A block that failed does not end before its failure. -/
theorem le_verbatimLength (d : Delimiter) {failed limit : Nat} (h : failed ≤ limit) (s : Text) :
    failed ≤ verbatimLength d failed limit s := by
  unfold verbatimLength
  split
  · split
    · omega
    · exact h
  · exact h

theorem lt_verbatimLength (d : Delimiter) {failed limit : Nat} (h : failed < limit) (s : Text) :
    failed < verbatimLength d failed limit s := by
  unfold verbatimLength
  split
  · split
    · omega
    · exact h
  · exact h

/-- **A body that is kept verbatim ends where it did** if the text ends there or
later. -/
theorem verbatimLength_append (d : Delimiter) {failed limit : Nat} {s w : Text}
    (h : verbatimLength d failed limit (s ++ w) ≤ s.length) :
    verbatimLength d failed (min s.length limit) s = verbatimLength d failed limit (s ++ w) := by
  by_cases hle : limit ≤ s.length
  · rw [Nat.min_eq_right hle]
    unfold verbatimLength
    rw [List.take_append_of_le_length hle]
  -- The line ends after the stem, so that the closing bracket was found in the stem.
  · have hlt : s.length ≤ limit := Nat.le_of_not_le hle
    rw [Nat.min_eq_left hlt]
    unfold verbatimLength at h ⊢
    have hne : d.opening ≠ d.closing := by cases d <;> decide
    cases hb : Scan.balanced d.opening d.closing ((s ++ w).take limit) with
    | stray t r =>
        rw [hb] at h
        exact absurd h hle
    | unclosed n =>
        rw [hb] at h
        exact absurd h hle
    | closed t r =>
        rw [hb] at h
        dsimp only at h ⊢
        by_cases hf : failed ≤ t.length
        · rw [if_pos hf] at h ⊢
          obtain ⟨hs, ht⟩ := (Scan.balanced_eq_closed_iff hne).1 hb
          have hsplit : ∃ r', s = t ++ d.closing :: r' := by
            have htake : s = (t ++ d.closing :: r).take s.length := by
              rw [← hs, List.take_take, Nat.min_eq_left hlt, List.take_left]
            refine ⟨r.take (s.length - (t.length + 1)), ?_⟩
            have hlen : s.length = t.length + (s.length - (t.length + 1) + 1) := by omega
            rw [hlen, List.take_length_add_append, List.take_succ_cons] at htake
            exact htake
          obtain ⟨r', hr'⟩ := hsplit
          have hb' : Scan.balanced d.opening d.closing (s.take s.length) = .closed t r' :=
            (Scan.balanced_eq_closed_iff hne).2 ⟨by rw [List.take_length, hr'], ht⟩
          rw [hb']
          dsimp only
          rw [if_pos hf]
        · rw [if_neg hf] at h
          exact absurd h hle

theorem exists_extend_of_after {u : Text} (h : c.after = u ++ w) :
    ∃ p : Cursor, c = p.extend w ∧ p.after = u := by
  refine ⟨⟨c.before, u⟩, ?_, rfl⟩
  cases c
  simpa [extend] using h

theorem lineLength_extend (w : Text) (c : Cursor) :
    c.lineLength = min c.after.length (c.extend w).lineLength := by
  unfold lineLength
  by_cases hline : (c.extend w).atLineBlock = true
  · rw [if_pos hline, Nat.min_zero]
    split
    · rfl
    · next hc =>
      cases ha : c.after with
      | nil => rfl
      | cons x s =>
          have hline' := atLineBlock_iff.1 hline
          rw [after_extend, ha] at hline'
          exact absurd (atLineBlock_iff.2 (by simpa [ha] using hline')) hc
  · have hc : ¬ c.atLineBlock = true := by
      intro hc
      obtain ⟨hbefore, hafter⟩ := atLineBlock_iff.1 hc
      obtain ⟨s, hs⟩ := List.head?_eq_some_iff.1 hafter
      exact hline (atLineBlock_iff.2 ⟨hbefore, by simp [hs]⟩)
    rw [if_neg hline, if_neg hc]
    exact Scan.length_untilLineBlock_append c.after w

/-- A text of which the first part is not longer than the stem is cut in the stem. -/
theorem exists_append_of_length_le {s a b : Text} (h : s ++ w = a ++ b)
    (hle : a.length ≤ s.length) : ∃ u, s = a ++ u ∧ b = u ++ w := by
  obtain ⟨u, rfl⟩ : a <+: s :=
    List.prefix_of_prefix_length_le (h ▸ List.prefix_append a b) (List.prefix_append s w) hle
  rw [List.append_assoc] at h
  exact ⟨u, rfl, (List.append_cancel_left h).symm⟩

/-- A failure is held if what the line has after it is of the stem. -/
theorem held_of_lineLength {f : Cursor} (hw : w ≠ [])
    (h : 0 < (f.extend w).lineLength → f.after ≠ []) : f.Held w [] := by
  by_cases hline : (f.extend w).atLineBlock = true
  · exact .inr ⟨rfl, hline⟩
  · have hne : f.after ++ w ≠ [] := List.append_ne_nil_of_right_ne_nil _ hw
    refine .inl (h ?_)
    rw [lineLength, if_neg hline, after_extend]
    exact List.length_pos_iff.2 (Scan.untilLineBlock_ne_nil hne)

/-- **A block that failed ends where it did** if the text ends there.  Its failure
is then before its end, or at a block at the start of a line that follows. -/
theorem verbatimEnd_extend (d : Delimiter) {r : Text} {place : Cursor} (hw : w ≠ [])
    (hlead : (c.extend w).Leads place)
    (hstop : ((c.extend w).verbatimEnd d place).after = r ++ w) :
    ∃ f : Cursor, place = f.extend w ∧ f.Held w [] ∧
      (c.extend w).verbatimEnd d place = (c.verbatimEnd d f).extend w := by
  obtain ⟨a, hafter, hbefore⟩ := hlead
  have hend := verbatimEnd_eq d hafter hbefore
  dsimp only at hend
  have hlimit : a.length ≤ a.length + place.lineLength := Nat.le_add_right _ _
  have hle := le_verbatimLength d hlimit (c.extend w).after
  have hlt (h : a.length < a.length + place.lineLength) := lt_verbatimLength d h (c.extend w).after
  have hlen := @verbatimLength_append d a.length (a.length + place.lineLength) c.after w
  rw [after_extend] at hend hafter hle hlt
  generalize verbatimLength d a.length (a.length + place.lineLength) (c.after ++ w) = m
    at hend hle hlt hlen
  -- The end is in the stem, for `w` comes after it.
  have hm : m ≤ c.after.length := by
    rw [hend, after_past] at hstop
    have hdrop := congrArg List.length hstop
    simp only [List.length_drop, List.length_append] at hdrop
    have hpos : 0 < w.length := List.length_pos_iff.2 hw
    omega
  -- So the failure is in the stem too.
  obtain ⟨u, hu, hplace⟩ := exists_append_of_length_le hafter (Nat.le_trans hle hm)
  obtain ⟨f, rfl, rfl⟩ := exists_extend_of_after hplace
  have hlength : c.after.length = a.length + f.after.length := by rw [hu, List.length_append]
  refine ⟨f, rfl, ?_, ?_⟩
  · apply held_of_lineLength hw
    intro hpos hnil
    have hmore := hlt (by omega)
    rw [hnil, List.length_nil] at hlength
    omega
  · have hlimit : a.length + f.lineLength =
        min c.after.length (a.length + (f.extend w).lineLength) := by
      rw [lineLength_extend w f, hlength, Nat.add_min_add_left]
    have hshort := verbatimEnd_eq d hu hbefore
    dsimp only at hshort
    rw [hlimit, hlen hm] at hshort
    rw [hend, hshort, List.take_append_of_le_length hm, List.drop_append_of_le_length hm]
    rfl

end Cursor

/-! ## blocks -/

/-- Whether a cause says that a block was not understood up to its closing
bracket. -/
def Cause.isRecovery (cause : Cause) : Bool :=
  cause.code = "UNTERMINATED_BLOCK" || cause.code = "MALFORMED_BLOCK"

namespace BlockRead

/-- The block was understood up to its closing bracket. -/
def IsClean (b : BlockRead) : Prop := ∀ cause ∈ b.causes, cause.isRecovery = false

/-- The same block, with findings of the same codes. -/
structure Agrees (b b' : BlockRead) : Prop where
  block : b'.block = b.block
  codes : b'.causes.map Cause.code = b.causes.map Cause.code

theorem Agrees.refl (b : BlockRead) : b.Agrees b := ⟨rfl, rfl⟩

end BlockRead

namespace Cursor

variable {c p : Cursor} {w z r : Text} {d : Delimiter}

/-- Read what follows the opening bracket of a block. -/
def blockBody (command : Text) (d : Delimiter) (c : Cursor) : BlockRead :=
  match BlockKind.ofCommand command with
  | .entry => c.entryBlock command d
  | kind => c.payloadBlock kind command d

theorem blockBody_of_entry {command : Text} (hkind : BlockKind.ofCommand command = .entry) :
    c.blockBody command d = c.entryBlock command d := by
  rw [blockBody, hkind]

/-- The body of a block that is no entry is a payload. -/
theorem blockBody_of_ne_entry {command : Text} {kind : BlockKind}
    (hkind : BlockKind.ofCommand command = kind) (hne : kind ≠ .entry) :
    c.blockBody command d = c.payloadBlock kind command d := by
  unfold blockBody
  rw [hkind]
  cases kind with
  | entry => contradiction
  | comment | preamble | stringDef => rfl

/-- A payload is read as it was, up to its closing bracket. -/
theorem payloadBlock_extend (kind : BlockKind) (command : Text) (hw : z = [] → w ≠ [])
    (hrest : ((c.extend w).payloadBlock kind command d).rest = r ++ w)
    (hclean : z = [] ∨ ((c.extend w).payloadBlock kind command d).IsClean) :
    ((c.extend w).payloadBlock kind command d).Agrees
        ((c.extend z).payloadBlock kind command d) ∧
      ((c.extend z).payloadBlock kind command d).rest = r ++ z := by
  unfold payloadBlock at hrest hclean ⊢
  cases hp : Scan.payload d (c.extend w).after with
  | unclosed n m =>
      -- A payload that is not closed ends with the text, that is, after `w`.
      rw [hp] at hrest hclean
      obtain ⟨-, hnil⟩ := List.append_eq_nil_iff.1 hrest.symm
      obtain h | h := hclean
      · exact absurd hnil (hw h)
      · exact absurd (h _ List.mem_cons_self) (by simp [Cause.isRecovery, Cause.code])
  | closed t rest =>
      rw [hp] at hrest
      obtain rfl : rest = r ++ w := hrest
      obtain ⟨hafter, ht⟩ := Scan.payload_eq_closed_iff.1 hp
      have hc : c.after = t ++ d.closing :: r := by
        have happ : c.after ++ w = (t ++ d.closing :: r) ++ w := by
          rw [← after_extend, hafter]
          simp
        exact List.append_cancel_right happ
      have hp' : Scan.payload d (c.extend z).after = .closed t (r ++ z) := by
        refine Scan.payload_eq_closed_iff.2 ⟨?_, ht⟩
        rw [after_extend, hc]
        simp
      rw [hp']
      exact ⟨⟨rfl, rfl⟩, rfl⟩

/-- **An entry is read as it was**, up to its closing bracket or if the text ends
where it does. -/
theorem entryBlock_extend (command : Text) (hw : z = [] → w ≠ [])
    (hrest : ((c.extend w).entryBlock command d).rest = r ++ w)
    (hclean : z = [] ∨ ((c.extend w).entryBlock command d).IsClean) :
    ((c.extend w).entryBlock command d).Agrees ((c.extend z).entryBlock command d) ∧
      ((c.extend z).entryBlock command d).rest = r ++ z := by
  have hlead := leads_entry d.closing (c.extend w)
  unfold entryBlock at hrest hclean ⊢
  cases he : (c.extend w).entry d.closing with
  | closed e stop =>
      rw [he] at hrest
      obtain ⟨p, rfl, rfl⟩ := exists_extend_of_after hrest
      rw [entry_extend (by rw [he]; rfl) (by rw [he]; trivial), he]
      exact ⟨⟨rfl, rfl⟩, rfl⟩
  | unclosed e place =>
      rw [he] at hrest hclean
      obtain rfl : z = [] := by
        refine hclean.resolve_right fun h => ?_
        exact absurd (h _ (List.mem_append_right _ List.mem_cons_self))
          (by simp [Cause.isRecovery, Cause.code])
      obtain ⟨p, rfl, rfl⟩ := exists_extend_of_after hrest
      rw [entry_extend (by rw [he]; rfl) (by rw [he]; exact .inr rfl), he]
      refine ⟨⟨rfl, ?_⟩, rfl⟩
      simp [blockRead, Cause.code, EntryRead.moved]
  | malformed reason place =>
      rw [he] at hrest hclean hlead
      obtain rfl : z = [] := by
        refine hclean.resolve_right fun h => ?_
        exact absurd (h _ List.mem_cons_self) (by simp [Cause.isRecovery, Cause.code])
      have hlead : (c.extend w).Leads place := hlead
      have hrest : ((c.extend w).verbatimEnd d place).after = r ++ w := hrest
      obtain ⟨f, rfl, hf, hend⟩ := verbatimEnd_extend d (hw rfl) hlead hrest
      rw [entry_extend (by rw [he]; rfl) (by rw [he]; exact hf), he]
      dsimp only [EntryRead.moved]
      rw [hend, extend_nil, extend_nil]
      refine ⟨⟨rfl, rfl⟩, ?_⟩
      rw [hend] at hrest
      rw [List.append_nil]
      exact List.append_cancel_right hrest

/-- A body ends later on in the same text. -/
theorem leads_blockBody (command : Text) (d : Delimiter) (c : Cursor) :
    ∃ p, c.Leads p ∧ (c.blockBody command d).rest = p.after := by
  unfold blockBody
  split
  · obtain ⟨p, hp, -, hrest⟩ := leads_entryBlock command d c
    exact ⟨p, hp, hrest⟩
  · obtain ⟨p, hp, -, hrest⟩ := leads_payloadBlock (BlockKind.ofCommand command) command d c
    exact ⟨p, hp, hrest⟩

theorem blockBody_extend (command : Text) (hw : z = [] → w ≠ [])
    (hrest : ((c.extend w).blockBody command d).rest = r ++ w)
    (hclean : z = [] ∨ ((c.extend w).blockBody command d).IsClean) :
    ((c.extend w).blockBody command d).Agrees ((c.extend z).blockBody command d) ∧
      ((c.extend z).blockBody command d).rest = r ++ z := by
  unfold blockBody at hrest hclean ⊢
  cases hkind : BlockKind.ofCommand command with
  | entry =>
      rw [hkind] at hrest hclean
      exact entryBlock_extend command hw hrest hclean
  | _ =>
      rw [hkind] at hrest hclean
      exact payloadBlock_extend _ command hw hrest hclean

end Cursor

namespace Block

/-- A block is read where its command, its opening bracket and its body stand. -/
theorem read?_eq_some_iff {s : Text} {b : BlockRead} :
    read? s = some b ↔ s.takeWhile Scan.isCommandChar ≠ [] ∧ ∃ d p,
      ((⟨['@'], s⟩ : Cursor).skip Scan.isCommandChar).CharAt d.opening p ∧
      b = p.blockBody (s.takeWhile Scan.isCommandChar) d := by
  unfold read?
  dsimp only
  by_cases hcommand : s.takeWhile Scan.isCommandChar = []
  · simp [hcommand]
  · rw [if_neg hcommand]
    generalize hn : ((⟨['@'], s⟩ : Cursor).skip Scan.isCommandChar) = n
    constructor
    · intro h
      refine ⟨hcommand, ?_⟩
      split at h
      · cases h
      · next x r hr =>
        obtain ⟨d, hd, hb⟩ := Option.map_eq_some_iff.1 h
        obtain rfl := Delimiter.ofOpening?_eq_some_iff.1 hd
        exact ⟨d, _, ⟨r, hr, rfl⟩, hb.symm⟩
    · rintro ⟨-, d, p, ⟨r, hr, rfl⟩, rfl⟩
      rw [hr]
      dsimp only
      rw [Delimiter.ofOpening?_eq_some_iff.2 rfl, Option.map_some]
      rfl

/-- A block whose opening bracket is of the stem is read in front of any text. -/
theorem read?_of_stem {s w : Text} {d : Delimiter} {p : Cursor}
    (hcommand : (s ++ w).takeWhile Scan.isCommandChar ≠ [])
    (hp : ((⟨['@'], s ++ w⟩ : Cursor).skip Scan.isCommandChar).CharAt d.opening (p.extend w))
    (z : Text) :
    read? (s ++ z) = some ((p.extend z).blockBody ((s ++ w).takeWhile Scan.isCommandChar) d) := by
  obtain ⟨k, hk, -⟩ := hp.leads.exists_extend
  rw [hk] at hp
  have hk : ((⟨['@'], s⟩ : Cursor).extend w).skip Scan.isCommandChar = k.extend w := hk
  obtain ⟨hk', hrun⟩ := Cursor.skip_extend hk (z := z) hp.settled
  have hk' : (⟨['@'], s ++ z⟩ : Cursor).skip Scan.isCommandChar = k.extend z := hk'
  have hrun : (s ++ z).takeWhile Scan.isCommandChar = (s ++ w).takeWhile Scan.isCommandChar := hrun
  refine read?_eq_some_iff.2 ⟨by rwa [hrun], d, p.extend z, ?_, by rw [hrun]⟩
  rw [hk']
  exact hp.extend

/-- **What is read does not depend on what comes after it.**  A block that was read
in front of `w` is read in front of `z`, if it was understood up to its closing
bracket, or if `z` is empty. -/
theorem read?_extend {s w z r : Text} {b : BlockRead} (hb : read? (s ++ w) = some b)
    (hrest : b.rest = r ++ w) (hclean : z = [] ∨ b.IsClean) :
    ∃ b', read? (s ++ z) = some b' ∧ b.Agrees b' ∧ b'.rest = r ++ z := by
  by_cases hw : z = [] ∧ w = []
  · obtain ⟨rfl, rfl⟩ := hw
    exact ⟨b, hb, .refl b, hrest⟩
  · obtain ⟨hne, d, p, hp, rfl⟩ := read?_eq_some_iff.1 hb
    obtain ⟨q, hq, hqrest⟩ := Cursor.leads_blockBody ((s ++ w).takeWhile Scan.isCommandChar) d p
    obtain ⟨q, rfl, -⟩ := Cursor.exists_extend_of_after (hqrest.symm.trans hrest)
    obtain ⟨p, rfl, -⟩ := hq.exists_extend
    exact ⟨_, read?_of_stem hne hp z,
      Cursor.blockBody_extend (z := z) _ (fun h1 h2 => hw ⟨h1, h2⟩) hrest hclean⟩

/-- A block is read as it was if the text ends after it, or later. -/
theorem read?_of_append {s u w : Text} {b : BlockRead} (hb : read? (s ++ (u ++ w)) = some b)
    (hrest : b.rest = u ++ w) :
    ∃ b', read? (s ++ u) = some b' ∧ b.Agrees b' ∧ b'.rest = u := by
  rw [← List.append_assoc] at hb
  obtain ⟨b', hread, hagrees, hrest'⟩ := read?_extend (z := []) hb hrest (.inl rfl)
  rw [List.append_nil] at hread hrest'
  exact ⟨b', hread, hagrees, hrest'⟩

end Block

end Bibliography
