import Bibliography.Offset.Names
import Bibliography.Proofs.Names
import Bibliography.Proofs.Offset.Scan
import Bibliography.Proofs.Unicode.LowerCase

/-!
# Bibliography.Proofs.Offset.Names

Lists of authors by offsets.  A separator of names is four octets of ASCII after
another one, so it stands in the octets where it stands in the text
(`Names.startsAnd_octets`); braces, commas and blanks are of ASCII too, and all other
octets are passed.

* `names_eq` — the names of a list;
* `surname_eq` — the surname of a name.
-/

namespace Bibliography

namespace Names

/-- Whether a text begins with characters of these classes, one after the other. -/
def startsWith : List (Char → Bool) → Text → Bool
  | [], _ => true
  | _ :: _, [] => false
  | p :: ps, c :: s => p c && startsWith ps s

/-- Characters of ASCII stand at the beginning of the octets where they stand in the text. -/
theorem startsWith_octets {ps : List (Char → Bool)} (hps : ∀ p ∈ ps, Text.IsAsciiClass p)
    (s : Text) : startsWith ps s.octets = startsWith ps s := by
  induction ps generalizing s with
  | nil => cases s <;> rfl
  | cons p ps ih =>
      obtain ⟨hp, hps⟩ := List.forall_mem_cons.1 hps
      cases s with
      | nil => rfl
      | cons c s =>
          rw [Text.octets_cons, startsWith, startsWith]
          obtain ⟨-, hlead, htrail⟩ | ⟨hc, hlead, -⟩ := Text.ascii_or_wide c
          · rw [hlead, htrail, List.nil_append, ih hps]
          · rw [hp.eq_false hlead, hp.eq_false hc]
            rfl

/-- The classes of the characters of an ` and `, with the blank before it. -/
def andClasses : List (Char → Bool) :=
  [Text.isBlank, (·.toLower = 'a'), (·.toLower = 'n'), (·.toLower = 'd'), Text.isBlank]

theorem startsAnd_eq (s : Text) : startsAnd s = startsWith andClasses s := by
  match s with
  | b :: a :: n :: d :: e :: s => simp [startsAnd, isAnd, startsWith, andClasses, Bool.and_assoc]
  | [] | [_] | [_, _] | [_, _, _] | [_, _, _, _] => simp [startsAnd, startsWith, andClasses]

theorem isAsciiClass_of_mem_andClasses : ∀ p ∈ andClasses, Text.IsAsciiClass p := by
  have hletter (x : Char) (hx : x.toNat < 128) : Text.IsAsciiClass (·.toLower = x) := by
    intro c hc
    rw [decide_eq_true_eq] at hc
    exact Unicode.ascii_of_toLower (hc ▸ hx)
  simp only [andClasses, List.forall_mem_cons]
  exact ⟨Text.isAsciiClass_isBlank, hletter 'a' (by decide), hletter 'n' (by decide),
    hletter 'd' (by decide), Text.isAsciiClass_isBlank, List.forall_mem_nil _⟩

/-- **An ` and ` stands in the octets** where it stands in the text. -/
theorem startsAnd_octets (s : Text) : startsAnd s.octets = startsAnd s := by
  rw [startsAnd_eq, startsAnd_eq, startsWith_octets isAsciiClass_of_mem_andClasses]

/-- A character beyond ASCII is no brace. -/
theorem depthAfter_of_wide {x : Char} (hx : 128 ≤ x.toNat) (depth : Nat) :
    depthAfter depth x = depth := by
  have hne (y : Char) (hy : y.toNat < 128) : x ≠ y := by
    rintro rfl
    omega
  rw [depthAfter, if_neg (hne '{' (by decide)), if_neg (hne '}' (by decide))]

theorem depthAfter_of_isBlank {x : Char} (hx : Text.isBlank x = true) (depth : Nat) :
    depthAfter depth x = depth := by
  rw [depthAfter, if_neg, if_neg] <;>
  · rintro rfl
    exact absurd hx (by decide)

/-- An ` and ` with its two blanks takes five octets. -/
theorem exists_separator {s : Text} (h : startsAnd s = true) :
    ∃ w : Text, w.length = 5 ∧ w.utf8Size = 5 ∧ ∃ r, s = w ++ r ∧ s.tail.drop 4 = r := by
  obtain ⟨b, a, n, d, e, r, rfl, hb, hand⟩ := startsAnd_iff.1 h
  simp only [isAnd, Bool.and_eq_true, decide_eq_true_eq] at hand
  obtain ⟨⟨⟨ha, hn⟩, hd⟩, he⟩ := hand
  have hletter {c x : Char} (hc : c.toLower = x) (hx : x.toNat < 128) : c.utf8Size = 1 :=
    Text.utf8Size_of_ascii (Unicode.ascii_of_toLower (hc ▸ hx))
  have hblank {c : Char} (hc : Text.isBlank c = true) : c.utf8Size = 1 :=
    Text.utf8Size_of_ascii (Text.isAsciiClass_isBlank c hc)
  refine ⟨[b, a, n, d, e], rfl, ?_, r, rfl, rfl⟩
  simp only [Text.utf8Size, hblank hb, hletter ha (by decide), hletter hn (by decide),
    hletter hd (by decide), hblank he]

/-- Characters in front of the first piece. -/
theorem foldr_consFirst (v w : Text) (ws : List Text) :
    v.foldr consFirst (w :: ws) = (v ++ w) :: ws := by
  induction v with
  | nil => rfl
  | cons c v ih => rw [List.foldr_cons, ih, consFirst, List.cons_append]

/-- What is before a comma is the beginning of the name. -/
theorem exists_of_beforeComma? {depth : Nat} {s t : Text} (h : beforeComma? depth s = some t) :
    ∃ r, s = t ++ r := by
  induction s generalizing depth t with
  | nil => cases h
  | cons c s ih =>
      rw [beforeComma?] at h
      split at h
      · cases h
        exact ⟨c :: s, rfl⟩
      · obtain ⟨u, hu, rfl⟩ := Option.map_eq_some_iff.1 h
        obtain ⟨r, rfl⟩ := ih hu
        exact ⟨r, rfl⟩

end Names

namespace Offset

open Names (depthAfter depthAfter_of_wide depthAfter_of_isBlank startsAnd)

/-! ## names -/

section

variable {a b w : Text} {c x : Char} {depth start : Nat}

/-- The letters and the blank of an ` and `, looked at after its first blank. -/
theorem isAnd?_append (hc : Text.isBlank c = true) (a b : Text) :
    isAnd? (a ++ c :: b) (a.length + 1) = some (startsAnd (c :: b)) := by
  match b with
  | x :: n :: d :: e :: b =>
      have hletters := octets?_eq_some (a ++ [c]) [x, n, d] (e :: b)
      have hlast : (a ++ c :: x :: n :: d :: e :: b)[a.length + 1 + 3]? = some e := by
        simp [Nat.add_assoc]
      simp only [List.append_assoc, List.cons_append, List.nil_append, List.length_append,
        List.length_cons, List.length_nil, Nat.zero_add] at hletters
      have hlt : a.length + 1 + 3 < (a ++ c :: x :: n :: d :: e :: b).length := by
        simp only [List.length_append, List.length_cons]
        omega
      have hstarts : startsAnd (c :: x :: n :: d :: e :: b) =
          (Text.eqIgnoreAsciiCase [x, n, d] ['a', 'n', 'd'] && Text.isBlank e) := by
        simp [startsAnd, Names.isAnd, hc, Text.eqIgnoreAsciiCase, Text.asciiLower, Bool.and_assoc]
      rw [isAnd?, if_pos hlt, hletters, hlast, hstarts]
      simp only [Option.bind_eq_bind, Option.bind_some]
      cases Text.eqIgnoreAsciiCase [x, n, d] ['a', 'n', 'd'] <;> rfl
  | [] | [_] | [_, _] | [_, _, _] =>
      rw [isAnd?, if_neg]
      · simp [startsAnd]
      · simp only [List.length_append, List.length_cons, List.length_nil]
        omega

/-- One octet of a list is passed, or the five of a separator. -/
theorem nameSpans_append (a : Text) (x : Char) (b : Text) (depth start : Nat) :
    nameSpans (a ++ x :: b) depth start a.length =
      if depth = 0 ∧ startsAnd (x :: b) = true then
        (nameSpans (a ++ x :: b) 0 (a.length + 5) (a.length + 5)).map ((start, a.length) :: ·)
      else nameSpans (a ++ x :: b) (depthAfter depth x) start (a.length + 1) := by
  have hlt : a.length < (a ++ x :: b).length := by simp
  have hx : (a ++ x :: b)[a.length] = x := by simp
  rw [nameSpans, dif_pos hlt, hx]
  by_cases hblank : depth = 0 ∧ Text.isBlank x = true
  · obtain ⟨rfl, hblank⟩ := hblank
    rw [if_pos ⟨rfl, hblank⟩, isAnd?_append hblank, depthAfter_of_isBlank hblank]
    cases hand : startsAnd (x :: b) with
    | true =>
        simp only [Option.bind_eq_bind, Option.bind_some, if_true, and_self]
        cases nameSpans (a ++ x :: b) 0 (a.length + 5) (a.length + 5) <;> rfl
    | false => simp
  · have hand : ¬ (depth = 0 ∧ startsAnd (x :: b) = true) :=
      fun h => hblank ⟨h.1, Names.isBlank_of_startsAnd h.2⟩
    rw [if_neg hblank, if_neg hand]

/-- Octets beyond ASCII are passed. -/
theorem nameSpans_of_wide {w : Text} (hw : ∀ x ∈ w, 128 ≤ x.toNat) (a b : Text)
    (depth start : Nat) :
    nameSpans (a ++ (w ++ b)) depth start a.length =
      nameSpans (a ++ (w ++ b)) depth start (a.length + w.length) := by
  induction w generalizing a with
  | nil => rfl
  | cons x w ih =>
      obtain ⟨hx, hw⟩ := List.forall_mem_cons.1 hw
      have hnext := ih hw (a ++ [x])
      have hand : ¬ (depth = 0 ∧ startsAnd (x :: (w ++ b)) = true) := fun h => by
        have hblank := Names.isBlank_of_startsAnd h.2
        rw [Text.isAsciiClass_isBlank.eq_false hx] at hblank
        cases hblank
      simp only [List.append_assoc, List.singleton_append, List.length_append,
        List.length_singleton] at hnext
      rw [List.cons_append, nameSpans_append, if_neg hand, depthAfter_of_wide hx, hnext,
        List.length_cons]
      congr 1
      omega

/-- **One character of a list is passed**, or the five of a separator. -/
theorem nameSpans_octets (t : Text) (c : Char) (u : Text) (depth start : Nat) :
    nameSpans (Text.octets (t ++ c :: u)) depth start t.utf8Size =
      if depth = 0 ∧ startsAnd (c :: u) = true then
        (nameSpans (Text.octets (t ++ c :: u)) 0 (t.utf8Size + 5) (t.utf8Size + 5)).map
          ((start, t.utf8Size) :: ·)
      else nameSpans (Text.octets (t ++ c :: u)) (depthAfter depth c) start
        (t.utf8Size + c.utf8Size) := by
  have hlength := Text.length_trail c
  rw [← Text.length_octets t, ← Names.startsAnd_octets (c :: u), Text.octets_append,
    Text.octets_cons]
  obtain ⟨-, hlead, htrail⟩ | ⟨hc, hlead, htrail⟩ := Text.ascii_or_wide c
  · rw [htrail, List.length_nil] at hlength
    rw [hlead, htrail, List.nil_append, ← hlength]
    exact nameSpans_append _ c _ depth start
  · have hand : ¬ (depth = 0 ∧ startsAnd (Text.lead c :: (Text.trail c ++ Text.octets u)) = true) :=
      fun h => by
        have hblank := Names.isBlank_of_startsAnd h.2
        rw [Text.isAsciiClass_isBlank.eq_false hlead] at hblank
        cases hblank
    have hwide : ∀ x ∈ Text.lead c :: Text.trail c, 128 ≤ x.toNat :=
      List.forall_mem_cons.2 ⟨hlead, htrail⟩
    rw [if_neg hand, depthAfter_of_wide hc, ← hlength]
    exact nameSpans_of_wide hwide _ _ depth start

/-- The slices of the names that are found from an offset on. -/
def nameSlices (s : Text) (depth start pos : Nat) : Option (List Text) := do
  let spans ← nameSpans s.octets depth start pos
  spans.mapM fun span => slice? s span.1 span.2

/-- At the end of the list, what has been passed of the last name is all of it. -/
theorem nameSlices_end (front v : Text) (depth : Nat) :
    nameSlices (front ++ (v ++ [])) depth front.utf8Size (front.utf8Size + v.utf8Size) =
      some [v] := by
  have hslice := slice?_append front v []
  have hlength : (Text.octets (front ++ (v ++ []))).length = front.utf8Size + v.utf8Size := by
    rw [Text.length_octets]
    simp
  rw [nameSlices, nameSpans, dif_neg (hlength ▸ Nat.lt_irrefl _), hlength, Option.bind_eq_bind,
    Option.bind_some, List.mapM_cons, hslice]
  rfl

/-- At a separator, what has been passed is a name. -/
theorem nameSlices_separator (front v : Text) {c : Char} {u : Text}
    (hand : startsAnd (c :: u) = true) :
    nameSlices (front ++ (v ++ c :: u)) 0 front.utf8Size (front.utf8Size + v.utf8Size) =
      (nameSlices (front ++ (v ++ c :: u)) 0 (front.utf8Size + v.utf8Size + 5)
        (front.utf8Size + v.utf8Size + 5)).map (v :: ·) := by
  have hslice := slice?_append front v (c :: u)
  have hstep := nameSpans_octets (front ++ v) c u 0 front.utf8Size
  rw [List.append_assoc, Text.utf8Size_append, if_pos ⟨rfl, hand⟩] at hstep
  rw [nameSlices, nameSlices, hstep]
  cases nameSpans (Text.octets (front ++ (v ++ c :: u))) 0 (front.utf8Size + v.utf8Size + 5)
      (front.utf8Size + v.utf8Size + 5) with
  | none => rfl
  | some spans =>
      simp only [Option.map_some, Option.bind_eq_bind, Option.bind_some, List.mapM_cons, hslice]
      cases spans.mapM fun span => slice? (front ++ (v ++ c :: u)) span.1 span.2 <;> rfl

/-- Any other character is passed. -/
theorem nameSlices_char (front v : Text) {c : Char} {u : Text}
    (hand : ¬ (depth = 0 ∧ startsAnd (c :: u) = true)) :
    nameSlices (front ++ (v ++ c :: u)) depth front.utf8Size (front.utf8Size + v.utf8Size) =
      nameSlices (front ++ (v ++ c :: u)) (depthAfter depth c) front.utf8Size
        (front.utf8Size + v.utf8Size + c.utf8Size) := by
  have hstep := nameSpans_octets (front ++ v) c u depth front.utf8Size
  rw [List.append_assoc, Text.utf8Size_append, if_neg hand] at hstep
  rw [nameSlices, nameSlices, hstep]

/-- The invariant: a name has begun after `front`, and `v` of it has been passed. -/
theorem nameSlices_append (front v u : Text) (depth : Nat) :
    nameSlices (front ++ (v ++ u)) depth front.utf8Size (front.utf8Size + v.utf8Size) =
      some (v.foldr Names.consFirst (Names.pieces depth u)) := by
  induction hn : u.length using Nat.strongRecOn generalizing front v u depth with
  | ind n ih =>
      subst hn
      cases u with
      | nil =>
          have hpieces : Names.pieces depth [] = [[]] := by rw [Names.pieces]
          rw [nameSlices_end, hpieces, Names.foldr_consFirst, List.append_nil]
      | cons c u =>
          by_cases hand : depth = 0 ∧ startsAnd (c :: u) = true
          · obtain ⟨rfl, hand⟩ := hand
            obtain ⟨w, hw, hsize, r, hcut, hdrop⟩ := Names.exists_separator hand
            have hlt : r.length < (c :: u).length := by
              rw [hcut, List.length_append, hw]
              omega
            have hpieces : Names.pieces 0 (c :: u) = [] :: Names.pieces 0 r := by
              rw [Names.pieces_cons, if_pos ⟨rfl, hand⟩, ← hdrop, List.tail_cons]
            have hwhole : front ++ (v ++ w) ++ ([] ++ r) = front ++ (v ++ c :: u) := by
              rw [hcut]
              simp
            have hpos : Text.utf8Size (front ++ (v ++ w)) = front.utf8Size + v.utf8Size + 5 := by
              rw [Text.utf8Size_append, Text.utf8Size_append, hsize, Nat.add_assoc]
            have hrest := ih r.length hlt (front ++ (v ++ w)) [] r 0 rfl
            rw [hwhole, hpos, Text.utf8Size, Nat.add_zero] at hrest
            rw [nameSlices_separator front v hand, hrest, hpieces, Names.foldr_consFirst,
              List.append_nil]
            rfl
          · have hrest :=
              ih u.length (Nat.lt_succ_self _) front (v ++ [c]) u (depthAfter depth c) rfl
            rw [utf8Size_snoc, List.append_assoc, ← Nat.add_assoc, List.foldr_append] at hrest
            rw [nameSlices_char front v hand, Names.pieces_cons, if_neg hand]
            exact hrest

/-- **The names of a list** are found where it is split. -/
theorem names_eq (s : Text) : names s = some (Names.split s) := by
  have hslices : nameSlices s 0 0 0 = some (Names.pieces 0 s) := nameSlices_append [] [] s 0
  have hnames : names s =
      (nameSlices s 0 0 0).map fun pieces => (pieces.map Text.strip).filter (· ≠ []) := by
    rw [names, nameSlices]
    cases nameSpans s.octets 0 0 0 with
    | none => rfl
    | some spans =>
        rw [Option.bind_eq_bind, Option.bind_some, Option.bind_eq_bind, Option.bind_some]
        cases spans.mapM fun span => slice? s span.1 span.2 <;> rfl
  rw [hnames, hslices]
  rfl

end

/-! ## surnames -/

theorem comma?_of_wide {w : Text} (hw : ∀ x ∈ w, 128 ≤ x.toNat) (depth pos : Nat) (b : Text) :
    comma? depth pos (w ++ b) = comma? depth (pos + w.length) b := by
  induction w generalizing pos with
  | nil => rfl
  | cons x w ih =>
      obtain ⟨hx, hw⟩ := List.forall_mem_cons.1 hw
      have hcomma : ¬ (x = ',' ∧ depth = 0) := by
        rintro ⟨rfl, -⟩
        exact absurd hx (by decide)
      rw [List.cons_append, comma?, if_neg hcomma, depthAfter_of_wide hx, ih hw, List.length_cons,
        Nat.add_assoc, Nat.add_comm 1]

/-- **The first comma outside of braces** comes after what is before it. -/
theorem comma?_octets (depth pos : Nat) (s : Text) :
    comma? depth pos s.octets = (Names.beforeComma? depth s).map fun t => pos + t.utf8Size := by
  induction s generalizing depth pos with
  | nil => rfl
  | cons c s ih =>
      have hlength := Text.length_trail c
      rw [Text.octets_cons, Names.beforeComma?]
      obtain ⟨-, hlead, htrail⟩ | ⟨hc, hlead, htrail⟩ := Text.ascii_or_wide c
      · rw [htrail, List.length_nil] at hlength
        rw [hlead, htrail, List.nil_append, comma?]
        split
        · rfl
        · rw [ih, Option.map_map]
          simp only [Function.comp_def, Text.utf8Size, ← hlength, Nat.zero_add, Nat.add_assoc]
      · have hcomma : ¬ (c = ',' ∧ depth = 0) := by
          rintro ⟨rfl, -⟩
          exact absurd hc (by decide)
        have hwide : ∀ x ∈ Text.lead c :: Text.trail c, 128 ≤ x.toNat :=
          List.forall_mem_cons.2 ⟨hlead, htrail⟩
        rw [← List.cons_append, comma?_of_wide hwide, List.length_cons, hlength, if_neg hcomma,
          depthAfter_of_wide hc, ih, Option.map_map]
        simp only [Function.comp_def, Text.utf8Size, Nat.add_assoc]

theorem wordStart_of_wide {w : Text} (hw : ∀ x ∈ w, 128 ≤ x.toNat) (depth start pos : Nat)
    (b : Text) : wordStart depth start pos (w ++ b) = wordStart depth start (pos + w.length) b := by
  induction w generalizing pos with
  | nil => rfl
  | cons x w ih =>
      obtain ⟨hx, hw⟩ := List.forall_mem_cons.1 hw
      have hblank : ¬ (Text.isBlank x = true ∧ depth = 0) := by
        rw [Text.isAsciiClass_isBlank.eq_false hx]
        simp
      rw [List.cons_append, wordStart, if_neg hblank, depthAfter_of_wide hx, ih hw,
        List.length_cons, Nat.add_assoc, Nat.add_comm 1]

/-- The invariant: a word has begun after `front`, and `word` of it has been passed, which is read
backwards. -/
theorem sliceFrom?_wordStart (front word s : Text) (depth : Nat) :
    sliceFrom? (front ++ (word.reverse ++ s))
        (wordStart depth front.utf8Size (Text.utf8Size (front ++ word.reverse)) s.octets) =
      some (Names.lastWord depth word s) := by
  induction s generalizing front word depth with
  | nil =>
      rw [List.append_nil]
      exact sliceFrom?_append front word.reverse
  | cons c s ih =>
      have hlength := Text.length_trail c
      have hnext := ih front (c :: word) (depthAfter depth c)
      have hwhole : front ++ ((c :: word).reverse ++ s) = front ++ (word.reverse ++ c :: s) := by
        simp
      have hpos : Text.utf8Size (front ++ (c :: word).reverse) =
          Text.utf8Size (front ++ word.reverse) + c.utf8Size := by
        rw [List.reverse_cons, ← List.append_assoc, utf8Size_snoc]
      rw [hwhole, hpos] at hnext
      rw [Text.octets_cons, Names.lastWord]
      obtain ⟨hc, hlead, htrail⟩ | ⟨hc, hlead, htrail⟩ := Text.ascii_or_wide c
      · rw [Text.utf8Size_of_ascii hc] at hpos hnext
        rw [hlead, htrail, List.nil_append, wordStart]
        split
        · have hword := ih (front ++ (c :: word).reverse) [] depth
          simp only [List.reverse_nil, List.append_nil, List.nil_append] at hword
          rwa [List.append_assoc, hwhole, hpos] at hword
        · exact hnext
      · have hblank : ¬ (Text.isBlank c = true ∧ depth = 0) := by
          rw [Text.isAsciiClass_isBlank.eq_false hc]
          simp
        have hwide : ∀ x ∈ Text.lead c :: Text.trail c, 128 ≤ x.toNat :=
          List.forall_mem_cons.2 ⟨hlead, htrail⟩
        rw [← List.cons_append, wordStart_of_wide hwide, List.length_cons, hlength, if_neg hblank]
        rwa [depthAfter_of_wide hc] at hnext ⊢

/-- **The surname of a name** is found where it is read. -/
theorem surname_eq (s : Text) : surname s = some (Names.surname s) := by
  unfold surname Names.surname
  simp only [comma?_octets]
  cases hcomma : Names.beforeComma? 0 s.strip with
  | none =>
      have hword := sliceFrom?_wordStart [] [] s.strip 0
      exact hword
  | some t =>
      obtain ⟨r, hr⟩ := Names.exists_of_beforeComma? hcomma
      simp only [Option.map_some, Nat.zero_add]
      rw [hr, slice?_zero]
      rfl

end Offset

end Bibliography
