import Bibliography.Proofs.Offset.Parse
import Bibliography.Proofs.Parse.BlockEnd
import Bibliography.Proofs.Scan.Passage

/-!
# Bibliography.Proofs.Offset.Blocks

Blocks by offsets, and the cutting of a whole text into pieces.  A block that failed
is looked at again in the octets up to the next one, so the end of that search is
compared with the place of the failure; both are places in the same text, where
offsets are ordered as characters are (`Text.utf8Size_le_iff`).

* `Offset.block?_octets` — the block of an `@`;
* `Offset.pieces_eq`, `Offset.parse_eq` — the pieces of a text, and its document.
-/

namespace Bibliography

namespace Text

/-- An octet of ASCII is in a text exactly if that character is. -/
theorem mem_octets_iff {x : Char} (hx : x.toNat < 128) (s : Text) : x ∈ octets s ↔ x ∈ s := by
  induction s with
  | nil => rfl
  | cons c s ih =>
      rw [octets_cons, List.mem_cons, List.mem_append, List.mem_cons, ih, eq_comm, lead_eq_iff hx,
        eq_comm]
      obtain ⟨-, -, htrail⟩ | ⟨-, -, htrail⟩ := ascii_or_wide c
      · simp [htrail]
      · have hnot : x ∉ trail c := fun h => absurd (htrail x h) (Nat.not_le.2 hx)
        simp [hnot]

end Text

/-! ## blocks -/

/-- A block that was read after `front`, with its end as an offset, and its source left out. -/
def BlockRead.located (front : Text) (b : BlockRead) : Offset.BlockFound :=
  ⟨Text.utf8Size (front ++ b.block.source.getD []), { b.block with source := none }, b.causes⟩

/-- The opening bracket of a block is told by its octet. -/
theorem Delimiter.ofOpening?_lead (c : Char) : ofOpening? (Text.lead c) = ofOpening? c := by
  refine Option.ext fun d => ?_
  rw [ofOpening?_eq_some_iff, ofOpening?_eq_some_iff, Text.lead_eq_iff d.toNat_opening_lt]

namespace Cursor.StandsIn

variable {s front : Text} {c p failed : Cursor}

/-- Nothing is behind the beginning of the block. -/
theorem slice?_front (h : c.StandsIn s front) :
    Offset.slice? s front.utf8Size (c.offset front) = some c.before.reverse := by
  rw [h.text_eq, Cursor.text, offset, Text.utf8Size_append]
  exact Offset.slice?_append _ _ _

/-- The octets in front of a place. -/
theorem octets?_zero (h : c.StandsIn s front) :
    Offset.octets? s.octets 0 (c.offset front) =
      some (Text.octets (front ++ c.before.reverse)) := by
  have hslice := Offset.octets?_append [] (front ++ c.before.reverse) c.after
  rwa [List.nil_append, Text.utf8Size, Nat.zero_add, ← h.eq_append] at hslice

/-- Two places that are reached from one are ordered as their offsets are. -/
theorem offset_le_iff (front : Text) {q : Cursor} (hp : c.Leads p) (hq : c.Leads q) :
    p.offset front ≤ q.offset front ↔ p.before.length ≤ q.before.length := by
  obtain ⟨f, hf, hfbefore⟩ := hp
  obtain ⟨w, hw, hwbefore⟩ := hq
  have hle := Text.utf8Size_le_iff ⟨_, hf.symm⟩ ⟨_, hw.symm⟩
  simp only [offset, hfbefore, hwbefore, List.reverse_append, List.reverse_reverse,
    ← List.append_assoc, Text.utf8Size_append _ f, Text.utf8Size_append _ w, List.length_append,
    List.length_reverse, Nat.add_le_add_iff_left, Nat.add_le_add_iff_right, hle]

theorem verbatimLimit (h : failed.StandsIn s front) :
    Offset.verbatimLimit s.octets (failed.offset front) =
      some ((if failed.atLineBlock then failed else failed.toLineBlock).offset front) := by
  rw [Offset.verbatimLimit, h.isLineBlock?, h.lineBlock?]
  by_cases hline : failed.atLineBlock = true
  · rw [if_pos hline, hline]
    rfl
  · rw [if_neg hline, Bool.eq_false_iff.2 hline]
    rfl

/-- **The end of a block that failed** is found where it is. -/
theorem verbatimEnd (h : c.StandsIn s front) (d : Delimiter) (hfailed : c.Leads failed) :
    Offset.verbatimEnd d s.octets (c.offset front) (failed.offset front) =
      some ((c.verbatimEnd d failed).offset front) := by
  have hlimit : c.Leads (if failed.atLineBlock then failed else failed.toLineBlock) := by
    split
    · exact hfailed
    · exact hfailed.trans (leads_toLineBlock failed)
  unfold Cursor.verbatimEnd Offset.verbatimEnd
  rw [(h.leads hfailed).verbatimLimit]
  generalize (if failed.atLineBlock then failed else failed.toLineBlock) = limit at hlimit
  have hoctets := (h.leads hlimit).octets?_zero
  obtain ⟨t, ht, hbefore⟩ := hlimit
  have hbody : c.after.take (limit.before.length - c.before.length) = t := by
    rw [hbefore, ht, List.length_append, List.length_reverse, Nat.add_sub_cancel_right,
      List.take_left]
  rw [hbefore, List.reverse_append, List.reverse_reverse, ← List.append_assoc] at hoctets
  have hscan := Offset.balanced_octets d.toNat_opening_lt d.toNat_closing_lt
    (front ++ c.before.reverse) t
  simp only [Option.bind_eq_bind, Option.bind_some, hoctets, hbody]
  rw [offset, hscan]
  cases hr : Scan.balanced d.opening d.closing t with
  | closed w rest =>
      have hw : c.after = (w ++ [d.closing]) ++ (rest ++ limit.after) := by
        rw [ht, Scan.eq_of_balanced_closed hr]
        simp
      have htake : c.after.take (w.length + 1) = w ++ [d.closing] := by
        rw [hw, ← List.length_concat, List.concat_eq_append, List.take_left]
      have hreached : failed.offset front ≤ c.offset front + w.utf8Size ↔
          failed.before.length ≤ c.before.length + w.length := by
        have hle := offset_le_iff front hfailed
          (leads_past (t := w) (hw.trans (List.append_assoc _ _ _)))
        rwa [offset_past, before_past, List.length_append, List.length_reverse,
          Nat.add_comm w.length] at hle
      have hstop (r : Text) : (c.past (w ++ [d.closing]) r).offset front =
          c.offset front + w.utf8Size + 1 := by
        rw [offset_past, Offset.utf8Size_snoc, Text.utf8Size_of_ascii d.toNat_closing_lt,
          Nat.add_assoc]
      simp only [Scan.Closing.located, Option.bind_some, htake]
      show some (if failed.offset front ≤ c.offset front + w.utf8Size then _ else _) = _
      by_cases hle : failed.before.length ≤ c.before.length + w.length
      · rw [if_pos (hreached.2 hle), if_pos hle, hstop]
        rfl
      · rw [if_neg (mt hreached.1 hle), if_neg hle]
  | stray w rest => rfl
  | unclosed depth => rfl

theorem located_blockRead (front command : Text) (d : Delimiter) (body : Body)
    (causes : List Cause) (c : Cursor) :
    (c.blockRead command d body causes).located front =
      ⟨c.offset front, { command, delimiter := d, body }, causes⟩ := rfl

/-- **A block whose body is not read any further** is found where it is read. -/
theorem payloadBlock (h : c.StandsIn s front) (kind : BlockKind) (command : Text) (d : Delimiter) :
    Offset.payloadBlock s kind command d (c.offset front) =
      some ((c.payloadBlock kind command d).located front) := by
  unfold Offset.payloadBlock Cursor.payloadBlock
  rw [h.payload]
  cases hscan : Scan.payload d c.after with
  | closed t rest =>
      have hafter := Scan.eq_of_payload_closed hscan
      simp only [Scan.PayloadEnd.located, Option.bind_eq_bind, Option.bind_some, h.slice? hafter]
      rw [located_blockRead, offset_past, Offset.utf8Size_snoc,
        Text.utf8Size_of_ascii d.toNat_closing_lt]
      rfl
  | unclosed braces parens =>
      have hslice := h.slice? (List.append_nil c.after).symm
      rw [← h.length_eq] at hslice
      have hopen : Payload.isClosed ⟨c.after, braces, parens⟩ = false := by
        have hne := Scan.ne_zero_of_unclosed hscan
        simp only [Payload.isClosed, Bool.and_eq_false_iff, decide_eq_false_iff_not]
        exact hne
      simp only [Scan.PayloadEnd.located, Option.bind_eq_bind, Option.bind_some, hslice, hopen]
      rw [located_blockRead, h.offset_atEnd]
      rfl

/-- **A block with an entry**, or one that failed, is found where it is read. -/
theorem entryBlock (h : c.StandsIn s front) (command : Text) (d : Delimiter) :
    Offset.entryBlock s front.utf8Size command d (c.offset front) =
      some ((c.entryBlock command d).located front) := by
  have hleads := leads_entry d.closing c
  unfold Offset.entryBlock Cursor.entryBlock
  rw [h.entry]
  cases hentry : c.entry d.closing with
  | closed e stop =>
      simp only [EntryRead.located, Option.bind_eq_bind, Option.bind_some, List.append_nil]
      rfl
  | unclosed e place =>
      have hplace : c.Leads place := by rwa [hentry] at hleads
      simp only [EntryRead.located, Offset.unclosed, Option.bind_eq_bind, Option.bind_some,
        located_blockRead, (h.leads hplace).offset_eq_length_iff]
      rfl
  | malformed reason place =>
      have hplace : c.Leads place := by rwa [hentry] at hleads
      have hslice := (h.leads (leads_verbatimEnd (d := d) hplace)).slice?_front
      simp only [EntryRead.located, Option.bind_eq_bind, Option.bind_some, h.verbatimEnd d hplace,
        hslice]
      rfl

theorem blockBody (h : c.StandsIn s front) (command : Text) (d : Delimiter) :
    Offset.blockBody s front.utf8Size command d (c.offset front) =
      some ((c.blockBody command d).located front) := by
  unfold Offset.blockBody Cursor.blockBody
  cases BlockKind.ofCommand command with
  | entry => exact h.entryBlock command d
  | comment | preamble | stringDef => exact h.payloadBlock _ command d

end Cursor.StandsIn

namespace Offset

/-- **The block of an `@`** is found where it is read. -/
theorem block?_octets (front r : Text) :
    block? (front ++ '@' :: r) front.utf8Size =
      some ((Block.read? r).map (BlockRead.located front)) := by
  have h : (⟨['@'], r⟩ : Cursor).StandsIn (front ++ '@' :: r) front :=
    ⟨rfl, List.cons_ne_nil _ _⟩
  have hstart : (⟨['@'], r⟩ : Cursor).offset front = front.utf8Size + 1 :=
    utf8Size_snoc front '@'
  have hend := h.leads (Cursor.leads_skip Scan.isCommandChar _)
  have hblank := hend.skipBlank
  unfold block?
  rw [← hstart, h.skip Text.isAsciiClass_isCommandChar.isOctetClass]
  simp only [Cursor.StandsIn.offset_skip_eq_iff, hend.skipBlank_eq, h.slice?_skip, hblank.octet?,
    Option.bind_eq_bind, Option.bind_some, Option.bind_map, Function.comp_def,
    Delimiter.ofOpening?_lead]
  by_cases hnil : r.takeWhile Scan.isCommandChar = []
  · have hnone : Block.read? r = none :=
      Option.eq_none_iff_forall_ne_some.2 fun b hb => (Block.read?_eq_some_iff.1 hb).1 hnil
    rw [if_pos hnil, hnone]
    rfl
  · rw [if_neg hnil]
    generalize hopening : Option.bind _ Delimiter.ofOpening? = found
    cases found with
    | none =>
        have hnone : Block.read? r = none := by
          refine Option.eq_none_iff_forall_ne_some.2 fun b hb => ?_
          obtain ⟨-, d, p, ⟨u, hu, -⟩, -⟩ := Block.read?_eq_some_iff.1 hb
          rw [hu, List.head?_cons, Option.bind_some, Delimiter.ofOpening?_eq_some_iff.2 rfl]
            at hopening
          cases hopening
        rw [hnone]
        rfl
    | some d =>
        obtain ⟨x, hx, hd⟩ := Option.bind_eq_some_iff.1 hopening
        obtain rfl := Delimiter.ofOpening?_eq_some_iff.1 hd
        obtain ⟨u, hu⟩ := List.head?_eq_some_iff.1 hx
        have hp : Cursor.CharAt _ d.opening _ := ⟨u, hu, rfl⟩
        obtain ⟨hstands, -, hoffset⟩ := hend.charAt d.toNat_opening_lt hp
        rw [Block.read?_eq_some_iff.2 ⟨hnil, d, _, hp, rfl⟩]
        simp only [hoffset, hstands.blockBody]
        rfl

end Offset

/-! ## pieces -/

namespace Piece

/-- Free text in front of pieces that begin with a block is a piece of its own. -/
theorem foldr_consText {ps : List Piece} (h : ∀ p ∈ ps.head?, p.isText = false) (t : Text) :
    t.foldr consText ps = if t = [] then ps else .text t :: ps := by
  induction t with
  | nil => rfl
  | cons c t ih =>
      rw [List.foldr_cons, ih, if_neg (List.cons_ne_nil _ _)]
      cases t with
      | cons x t => rfl
      | nil =>
          rw [if_pos rfl]
          cases ps with
          | nil => rfl
          | cons p ps =>
              cases p with
              | block b causes => rfl
              | text t => exact absurd (h _ rfl) (by simp [isText])

/-- A text without an `@` is free. -/
theorem ofText_append_of_notMem {u : Text} (hu : '@' ∉ u) (s : Text) :
    ofText (u ++ s) = u.foldr consText (ofText s) := by
  induction u with
  | nil => rfl
  | cons c u ih =>
      obtain ⟨hc, hu⟩ := not_or.1 (mt List.mem_cons.2 hu)
      rw [List.cons_append, ofText_cons fun h => absurd h.symm hc, ih hu, List.foldr_cons]

end Piece

namespace Offset

theorem findIdx?_octets_eq_none {u : Text} (hu : '@' ∉ u) :
    (Text.octets u).findIdx? (· = '@') = none := by
  refine List.findIdx?_eq_none_iff.2 fun x hx => ?_
  rw [decide_eq_false_iff_not]
  rintro rfl
  exact hu ((Text.mem_octets_iff (by decide) u).1 hx)

/-- The octet of the first `@`. -/
theorem findIdx?_octets {u : Text} (hu : '@' ∉ u) (r : Text) :
    (Text.octets (u ++ '@' :: r)).findIdx? (· = '@') = some u.utf8Size := by
  have hlead : Text.lead '@' = '@' := by decide
  rw [Text.octets_append, List.findIdx?_append, findIdx?_octets_eq_none hu, Text.octets_cons,
    hlead, List.findIdx?_cons, Text.length_octets]
  simp

theorem freeText_append (a t u : Text) :
    freeText (a ++ (t ++ u)) a.utf8Size (a.utf8Size + t.utf8Size) =
      some (if t = [] then [] else [.text t]) := by
  cases t with
  | nil => simp [freeText, Text.utf8Size]
  | cons c t =>
      have hpos := Char.utf8Size_pos c
      rw [freeText, if_pos (by rw [Text.utf8Size]; omega), slice?_append,
        if_neg (List.cons_ne_nil _ _)]
      rfl

section

variable {front t u r rest : Text}

/-- Where no `@` is left, free text goes on to the end. -/
theorem piecesFrom_of_notMem (hrest : '@' ∉ rest) :
    piecesFrom (front ++ (t ++ rest)) front.utf8Size (front.utf8Size + t.utf8Size) =
      some (if t ++ rest = [] then [] else [.text (t ++ rest)]) := by
  have hoctets := octetsFrom?_append (front ++ t) rest
  have hfree := freeText_append front (t ++ rest) []
  have hnone : (Text.octets rest).findIdx? (· = '@') = none := findIdx?_octets_eq_none hrest
  rw [List.append_assoc, Text.utf8Size_append] at hoctets
  rw [List.append_nil, ← Text.utf8Size_append, ← Text.length_octets (front ++ _)] at hfree
  rw [piecesFrom, hoctets]
  simp only [Option.bind_eq_bind, Option.bind_some, hnone]
  exact hfree

/-- An `@` that begins no block is free text. -/
theorem piecesFrom_of_none (hu : '@' ∉ u) (hread : Block.read? r = none) :
    piecesFrom (front ++ (t ++ (u ++ '@' :: r))) front.utf8Size (front.utf8Size + t.utf8Size) =
      piecesFrom (front ++ ((t ++ u ++ ['@']) ++ r)) front.utf8Size
        (front.utf8Size + Text.utf8Size (t ++ u ++ ['@'])) := by
  have hoctets := octetsFrom?_append (front ++ t) (u ++ '@' :: r)
  have hblock := block?_octets (front ++ (t ++ u)) r
  have hwhole : front ++ ((t ++ u ++ ['@']) ++ r) = front ++ (t ++ (u ++ '@' :: r)) := by simp
  have honward : IsOnward (Text.utf8Size (front ++ (t ++ (u ++ '@' :: r))))
      (front.utf8Size + t.utf8Size) (front.utf8Size + t.utf8Size + u.utf8Size + 1) := by
    have hone : '@'.utf8Size = 1 := rfl
    simp only [IsOnward, Text.utf8Size_append, Text.utf8Size, hone]
    omega
  rw [List.append_assoc, Text.utf8Size_append] at hoctets
  rw [hread, Text.utf8Size_append, Text.utf8Size_append, ← Nat.add_assoc] at hblock
  simp only [List.append_assoc] at hblock
  rw [hwhole, utf8Size_snoc, Text.utf8Size_append, piecesFrom.eq_def, hoctets]
  simp only [Option.bind_eq_bind, Option.bind_some, findIdx?_octets hu, hblock, Option.map_none,
    Text.length_octets, dif_pos honward, ← Nat.add_assoc]
  rfl

/-- A block is cut off, and so is the free text in front of it. -/
theorem piecesFrom_of_some {source : Text} {b : BlockRead} (hu : '@' ∉ u)
    (hread : Block.read? (source ++ b.rest) = some b)
    (hsource : b.block.source = some ('@' :: source)) :
    piecesFrom (front ++ (t ++ (u ++ '@' :: (source ++ b.rest)))) front.utf8Size
        (front.utf8Size + t.utf8Size) =
      (piecesFrom ((front ++ (t ++ u) ++ '@' :: source) ++ b.rest)
          (Text.utf8Size (front ++ (t ++ u) ++ '@' :: source))
          (Text.utf8Size (front ++ (t ++ u) ++ '@' :: source))).map
        fun ps =>
          (if t ++ u = [] then [] else [.text (t ++ u)]) ++ .block b.block b.causes :: ps := by
  generalize hwhole : front ++ (t ++ (u ++ '@' :: (source ++ b.rest))) = s
  have hoctets := octetsFrom?_append (front ++ t) (u ++ '@' :: (source ++ b.rest))
  have hblock := block?_octets (front ++ (t ++ u)) (source ++ b.rest)
  have hfree := freeText_append front (t ++ u) ('@' :: (source ++ b.rest))
  have hslice := slice?_append (front ++ (t ++ u)) ('@' :: source) b.rest
  have honward := isOnward_append (front ++ t) (List.append_ne_nil_of_right_ne_nil u
    (List.cons_ne_nil '@' source)) b.rest
  have hpos : front.utf8Size + t.utf8Size + u.utf8Size = Text.utf8Size (front ++ (t ++ u)) := by
    simp [Nat.add_assoc]
  rw [← Text.utf8Size_append] at hslice
  rw [hread] at hblock
  rw [Text.utf8Size_append] at hoctets
  rw [← Text.utf8Size_append] at hfree
  rw [← Text.utf8Size_append, Text.utf8Size_append front t] at honward
  simp only [List.append_assoc, List.cons_append] at hwhole hoctets hblock hfree hslice honward ⊢
  rw [hwhole] at hoctets hblock hfree hslice honward ⊢
  have hstop : (b.located (front ++ (t ++ u))).stop =
      Text.utf8Size (front ++ (t ++ (u ++ '@' :: source))) := by
    rw [BlockRead.located, hsource, Option.getD_some, List.append_assoc, List.append_assoc]
  have hback : { (b.located (front ++ (t ++ u))).block with source := some ('@' :: source) } =
      b.block := by
    rw [← hsource]
    rfl
  rw [piecesFrom, hoctets]
  simp only [Option.bind_eq_bind, Option.bind_some, findIdx?_octets hu, hpos, hblock,
    Option.map_some, hstop, hslice, hfree, hback, Text.length_octets, dif_pos honward]
  cases piecesFrom s _ _ <;> rfl

end

/-- The invariant: `front` has been cut, and `t` is free text that no block follows yet. -/
theorem piecesFrom_octets (front t rest : Text) :
    piecesFrom (front ++ (t ++ rest)) front.utf8Size (front.utf8Size + t.utf8Size) =
      some (t.foldr Piece.consText (Piece.ofText rest)) := by
  induction hn : rest.length using Nat.strongRecOn generalizing front t rest with
  | ind n ih =>
      subst hn
      by_cases hat : '@' ∈ rest
      · obtain ⟨u, r, rfl, hu⟩ := List.eq_append_cons_of_mem hat
        have hlt : r.length < (u ++ '@' :: r).length := by
          rw [List.length_append, List.length_cons]
          omega
        rw [Piece.ofText_append_of_notMem hu, ← List.foldr_append]
        cases hread : Block.read? r with
        | none =>
            rw [piecesFrom_of_none hu hread, ih _ hlt _ _ _ rfl, Piece.ofText_cons fun _ => hread,
              List.foldr_append (l := t ++ u)]
            rfl
        | some b =>
            obtain ⟨source, hsource, rfl⟩ := Block.source_append_rest hread
            have hnext := ih _ (Nat.lt_of_le_of_lt (Block.length_rest_le hread) hlt)
              (front ++ (t ++ u) ++ '@' :: source) [] b.rest rfl
            rw [List.nil_append, Text.utf8Size, Nat.add_zero] at hnext
            rw [piecesFrom_of_some hu hread hsource, hnext, Option.map_some, List.foldr_nil,
              Piece.ofText_at hread, Piece.foldr_consText (by simp [Piece.isText])]
            split <;> rfl
      · have hnil : ∀ p ∈ (Piece.ofText []).head?, p.isText = false := by simp [Piece.ofText]
        have hpieces := Piece.ofText_append_of_notMem hat []
        rw [List.append_nil] at hpieces
        rw [piecesFrom_of_notMem hat, hpieces, ← List.foldr_append, Piece.foldr_consText hnil,
          Piece.ofText]

/-- **Cutting a text by offsets** gives its pieces. -/
theorem pieces_eq (s : Text) : pieces s = some (Piece.ofText s) := piecesFrom_octets [] [] s

/-- **Reading a bibliography by offsets** is reading it. -/
theorem parse_eq (s : Text) : parse s = some (Document.parse s) := by
  rw [parse, pieces_eq]
  rfl

end Offset

end Bibliography
