import Bibliography.Offset.Slice

/-!
# Bibliography.Proofs.Offset.Slice

Offsets of a text that is in two parts, or in three.  At the end of its first part
a text can be cut (`cut?_append`), and what it has there is what the second part
begins with.  An octet of a character beyond ASCII is itself beyond ASCII
(`octets_cons`), so a search for ASCII octets stops only where a character begins.
-/

namespace Bibliography

namespace Text

/-! ## octets of a character -/

theorem octetsOf_of_ascii {c : Char} (h : c.toNat < 128) : octetsOf c = [c.toNat] := by
  have hval : c.val.toNat < 128 := h
  have hmod : c.val.toNat % 256 = c.val.toNat := Nat.mod_eq_of_lt (by omega)
  simp only [octetsOf, String.utf8EncodeChar]
  rw [if_pos (by omega), List.map_singleton, UInt8.toNat_ofNat']
  exact congrArg (fun n => [n]) hmod

theorem le_of_mem_octetsOf {c : Char} {n : Nat} (h : 128 ≤ c.toNat) (hn : n ∈ octetsOf c) :
    128 ≤ n ∧ n < 256 := by
  have hval : 128 ≤ c.val.toNat := h
  simp only [octetsOf, String.utf8EncodeChar] at hn
  rw [if_neg (by omega)] at hn
  split at hn
  · simp only [List.map_cons, List.map_nil, List.mem_cons, List.not_mem_nil, or_false,
      UInt8.toNat_ofNat'] at hn
    omega
  · split at hn <;>
    · simp only [List.map_cons, List.map_nil, List.mem_cons, List.not_mem_nil, or_false,
        UInt8.toNat_ofNat'] at hn
      omega

/-- The first octet of a character. -/
def lead (c : Char) : Char := ((octets [c]).head?).getD c

/-- The octets of a character after its first one. -/
def trail (c : Char) : Text := (octets [c]).tail

theorem octets_singleton (c : Char) : octets [c] = lead c :: trail c := by
  have hlength : (octets [c]).length = c.utf8Size := by
    rw [length_octets]
    rfl
  cases h : octets [c] with
  | nil =>
      have hpos := Char.utf8Size_pos c
      rw [h, List.length_nil] at hlength
      omega
  | cons x w => rw [lead, trail, h]; rfl

theorem octets_cons (c : Char) (s : Text) : octets (c :: s) = lead c :: (trail c ++ octets s) := by
  rw [← List.singleton_append, octets_append, octets_singleton, List.cons_append]

theorem length_trail (c : Char) : (trail c).length + 1 = c.utf8Size := by
  have hlength := length_octets [c]
  rw [octets_singleton] at hlength
  simpa [utf8Size] using hlength

theorem le_of_mem_octets {c x : Char} (h : 128 ≤ c.toNat) (hx : x ∈ octets [c]) :
    128 ≤ x.toNat := by
  simp only [octets, List.flatMap_singleton, List.mem_map] at hx
  obtain ⟨n, hn, rfl⟩ := hx
  obtain ⟨hlow, hhigh⟩ := le_of_mem_octetsOf h hn
  have hvalid : n.isValidChar := .inl (by omega)
  rw [Char.ofNat, dif_pos hvalid]
  exact hlow

/-- **A character of ASCII is its own octet**, and the octets of any other are beyond ASCII. -/
theorem ascii_or_wide (c : Char) :
    (c.toNat < 128 ∧ lead c = c ∧ trail c = []) ∨
      (128 ≤ c.toNat ∧ 128 ≤ (lead c).toNat ∧ ∀ x ∈ trail c, 128 ≤ x.toNat) := by
  by_cases h : c.toNat < 128
  · have hc : octets [c] = [c] := by
      simp [octets, octetsOf_of_ascii h]
    rw [octets_singleton] at hc
    obtain ⟨hlead, htrail⟩ := List.cons.inj hc
    exact .inl ⟨h, hlead, htrail⟩
  · have hwide := fun x => le_of_mem_octets (x := x) (Nat.le_of_not_lt h)
    rw [octets_singleton] at hwide
    exact .inr ⟨Nat.le_of_not_lt h, hwide _ List.mem_cons_self,
      fun x hx => hwide x (List.mem_cons_of_mem _ hx)⟩

theorem utf8Size_of_ascii {c : Char} (h : c.toNat < 128) : c.utf8Size = 1 := by
  rw [← length_octetsOf, octetsOf_of_ascii h]
  rfl

theorem utf8Size_eq_zero_iff {s : Text} : s.utf8Size = 0 ↔ s = [] := by
  cases s with
  | nil => simp [utf8Size]
  | cons c s => simp [utf8Size, Nat.ne_of_gt (Char.utf8Size_pos c)]

/-- A proper part at the beginning of a text has fewer octets. -/
theorem utf8Size_lt_of_proper {f w : Text} (h : f <+: w) (hlt : f.length < w.length) :
    f.utf8Size < w.utf8Size := by
  obtain ⟨u, rfl⟩ := h
  cases u with
  | nil => simp at hlt
  | cons c u =>
      have hpos := Char.utf8Size_pos c
      rw [utf8Size_append, utf8Size]
      omega

/-- **Offsets in one text are ordered as the places are.** -/
theorem utf8Size_le_iff {s f w : Text} (hf : f <+: s) (hw : w <+: s) :
    f.utf8Size ≤ w.utf8Size ↔ f.length ≤ w.length := by
  constructor
  · intro hle
    refine Nat.le_of_not_lt fun hlt => ?_
    have hprefix := List.prefix_of_prefix_length_le hw hf (Nat.le_of_lt hlt)
    exact absurd (utf8Size_lt_of_proper hprefix hlt) (Nat.not_lt.2 hle)
  · intro hle
    obtain ⟨u, rfl⟩ := List.prefix_of_prefix_length_le hf hw hle
    rw [utf8Size_append]
    exact Nat.le_add_right _ _

/-- An octet of ASCII begins a text, exactly if that character does. -/
theorem lead_eq_iff {c x : Char} (hx : x.toNat < 128) : lead c = x ↔ c = x := by
  obtain ⟨-, hlead, -⟩ | ⟨hwide, hlead, -⟩ := ascii_or_wide c
  · rw [hlead]
  · constructor <;>
    · rintro rfl
      omega

/-- An octet of ASCII ends a character, exactly if it is that character. -/
theorem getLast_octets_eq_iff {c x : Char} (hx : x.toNat < 128) :
    (lead c :: trail c).getLast (List.cons_ne_nil _ _) = x ↔ c = x := by
  obtain ⟨-, hlead, htrail⟩ | ⟨hc, hlead, htrail⟩ := ascii_or_wide c
  · simp [hlead, htrail]
  · have hlast : 128 ≤ ((lead c :: trail c).getLast (List.cons_ne_nil _ _)).toNat := by
      obtain h | h := List.mem_cons.1 (List.getLast_mem (List.cons_ne_nil (lead c) _))
      · rwa [h]
      · exact htrail _ h
    constructor
    · intro h
      rw [h] at hlast
      omega
    · rintro rfl
      omega

/-! ## classes -/

/-- A class that does not tell characters beyond ASCII apart. -/
def IsOctetClass (p : Char → Bool) : Prop := ∃ v, ∀ x : Char, 128 ≤ x.toNat → p x = v

/-- A class of ASCII characters. -/
def IsAsciiClass (p : Char → Bool) : Prop := ∀ x : Char, p x = true → x.toNat < 128

variable {p : Char → Bool}

theorem IsAsciiClass.eq_false (h : IsAsciiClass p) {x : Char} (hx : 128 ≤ x.toNat) : p x = false :=
  Bool.eq_false_iff.2 fun hpx => absurd (h x hpx) (Nat.not_lt.2 hx)

theorem IsAsciiClass.isOctetClass (h : IsAsciiClass p) : IsOctetClass p :=
  ⟨false, fun _ => h.eq_false⟩

/-- The octets of a character are of the class that the character is of. -/
theorem IsOctetClass.octets (h : IsOctetClass p) (c : Char) :
    p (lead c) = p c ∧ ∀ x ∈ trail c, p x = p c := by
  obtain ⟨v, hv⟩ := h
  obtain ⟨-, hlead, htrail⟩ | ⟨hc, hlead, htrail⟩ := ascii_or_wide c
  · rw [hlead, htrail]
    exact ⟨rfl, List.forall_mem_nil _⟩
  · rw [hv c hc]
    exact ⟨hv _ hlead, fun x hx => hv x (htrail x hx)⟩

/-- **The octets of a class at the beginning of a text** are those of the characters of the
class. -/
theorem takeWhile_octets (h : IsOctetClass p) (s : Text) :
    (Text.octets s).takeWhile p = Text.octets (s.takeWhile p) := by
  induction s with
  | nil => rfl
  | cons c s ih =>
      obtain ⟨hlead, htrail⟩ := h.octets c
      rw [octets_cons]
      by_cases hc : p c = true
      · rw [List.takeWhile_cons_of_pos (hlead.trans hc), List.takeWhile_cons_of_pos hc,
          List.takeWhile_append_of_pos (fun x hx => (htrail x hx).trans hc), ih, octets_cons]
      · rw [List.takeWhile_cons_of_neg (by rwa [hlead]), List.takeWhile_cons_of_neg hc]
        rfl

end Text

namespace Offset

variable {p : Char → Bool} {d : Char} {s t u v : Text}

/-! ## cuts -/

theorem isBoundary_append (t u : Text) : IsBoundary (t ++ u) t.utf8Size := ⟨t, u, rfl, rfl⟩

theorem IsBoundary.le {i : Nat} (h : IsBoundary s i) : i ≤ s.utf8Size := by
  obtain ⟨t, u, rfl, rfl⟩ := h
  rw [Text.utf8Size_append]
  exact Nat.le_add_right _ _

theorem cut?_cons (c : Char) (s : Text) (i : Nat) :
    cut? (c.utf8Size + i) (c :: s) = (cut? i s).map fun (t, u) => (c :: t, u) := by
  obtain ⟨n, hn⟩ := Nat.exists_eq_succ_of_ne_zero (Nat.ne_of_gt (Char.utf8Size_pos c))
  have hsum : c.utf8Size + i = (n + i) + 1 := by omega
  have hrest : n + i + 1 - c.utf8Size = i := by omega
  rw [hsum, cut?, if_pos (by omega), hrest]

/-- **A text is cut at the end of its first part.** -/
theorem cut?_append (t u : Text) : cut? t.utf8Size (t ++ u) = some (t, u) := by
  induction t with
  | nil => cases u <;> rfl
  | cons c t ih =>
      rw [Text.utf8Size, List.cons_append, cut?_cons, ih]
      rfl

theorem cut?_eq_some_iff {i : Nat} {s t u : Text} :
    cut? i s = some (t, u) ↔ s = t ++ u ∧ i = t.utf8Size := by
  constructor
  · intro h
    fun_induction cut? i s generalizing t u with
    | case1 s =>
        cases h
        exact ⟨rfl, rfl⟩
    | case2 | case4 => cases h
    | case3 i c s hle ih =>
        obtain ⟨⟨t', u'⟩, hcut, heq⟩ := Option.map_eq_some_iff.1 h
        obtain ⟨rfl, rfl⟩ := Prod.mk.inj heq
        obtain ⟨rfl, hsize⟩ := ih hcut
        exact ⟨rfl, by rw [Text.utf8Size]; omega⟩
  · rintro ⟨rfl, rfl⟩
    exact cut?_append t u

theorem isSome_cut?_iff {i : Nat} {s : Text} : (cut? i s).isSome = true ↔ IsBoundary s i := by
  rw [Option.isSome_iff_exists]
  constructor
  · rintro ⟨⟨t, u⟩, h⟩
    obtain ⟨rfl, rfl⟩ := cut?_eq_some_iff.1 h
    exact isBoundary_append t u
  · rintro ⟨t, u, rfl, rfl⟩
    exact ⟨_, cut?_append t u⟩

/-- A boundary after another one is a boundary of what follows that one. -/
theorem isBoundary_iff_of_le {t u : Text} {j : Nat} (h : t.utf8Size ≤ j) :
    IsBoundary (t ++ u) j ↔ IsBoundary u (j - t.utf8Size) := by
  constructor
  · rintro ⟨a, b, hs, rfl⟩
    have hprefix : t <+: a :=
      List.prefix_of_prefix_length_le ⟨u, rfl⟩ ⟨b, hs.symm⟩
        ((Text.utf8Size_le_iff ⟨u, rfl⟩ ⟨b, hs.symm⟩).1 h)
    obtain ⟨w, rfl⟩ := hprefix
    rw [List.append_assoc, List.append_cancel_left_eq] at hs
    rw [hs, Text.utf8Size_append, Nat.add_sub_cancel_left]
    exact isBoundary_append w b
  · rintro ⟨a, b, rfl, hj⟩
    refine ⟨t ++ a, b, (List.append_assoc _ _ _).symm, ?_⟩
    rw [Text.utf8Size_append]
    omega

/-- **What a slice is**: there is one between two boundaries of a text, and only there. -/
theorem isSome_slice?_iff {s : Text} {i j : Nat} :
    (slice? s i j).isSome = true ↔ i ≤ j ∧ IsBoundary s i ∧ IsBoundary s j := by
  rw [slice?]
  by_cases hle : i ≤ j
  · rw [if_pos hle]
    by_cases hi : IsBoundary s i
    · obtain ⟨t, u, rfl, rfl⟩ := hi
      rw [sliceFrom?, cut?_append]
      simp [isSome_cut?_iff, hle, isBoundary_iff_of_le hle, isBoundary_append]
    · have hnone : cut? i s = none := by
        rw [← Option.not_isSome_iff_eq_none, isSome_cut?_iff]
        exact hi
      simp [sliceFrom?, hnone, hi]
  · simp [hle]

/-- Within a character there is no slice. -/
example : slice? ['é', 'a'] 1 3 = none ∧ slice? ['é', 'a'] 2 3 = some ['a'] := by decide

theorem sliceFrom?_append (t u : Text) : sliceFrom? (t ++ u) t.utf8Size = some u := by
  rw [sliceFrom?, cut?_append]
  rfl

/-- **The second of three parts is a slice.** -/
theorem slice?_append (t u v : Text) :
    slice? (t ++ (u ++ v)) t.utf8Size (t.utf8Size + u.utf8Size) = some u := by
  rw [slice?, if_pos (Nat.le_add_right _ _), sliceFrom?_append, Nat.add_sub_cancel_left]
  show (cut? u.utf8Size (u ++ v)).map Prod.fst = some u
  rw [cut?_append]
  rfl

/-- The first of two parts is a slice. -/
theorem slice?_zero (t u : Text) : slice? (t ++ u) 0 t.utf8Size = some t := by
  have h := slice?_append [] t u
  rwa [List.nil_append, Text.utf8Size, Nat.zero_add] at h

theorem octets?_eq_some (a b c : Text) :
    octets? (a ++ (b ++ c)) a.length (a.length + b.length) = some b := by
  rw [octets?, if_pos (by simp only [List.length_append]; omega), List.take_length_add_append,
    List.drop_left', List.take_left]
  rfl

theorem octets?_append (t u v : Text) :
    octets? (Text.octets (t ++ (u ++ v))) t.utf8Size (t.utf8Size + u.utf8Size) =
      some (Text.octets u) := by
  simp only [← Text.length_octets, Text.octets_append]
  exact octets?_eq_some _ _ _

theorem octetsFrom?_append (t u : Text) :
    octetsFrom? (Text.octets (t ++ u)) t.utf8Size = some (Text.octets u) := by
  have h := octets?_append t u []
  rwa [List.append_nil, ← Text.utf8Size_append, ← Text.length_octets (t ++ u)] at h

/-- What stands at the end of the first part is the beginning of the second. -/
theorem getElem?_octets (t u : Text) (k : Nat) :
    (Text.octets (t ++ u))[t.utf8Size + k]? = (Text.octets u)[k]? := by
  rw [Text.octets_append, ← Text.length_octets, List.getElem?_append_right (Nat.le_add_right _ _),
    Nat.add_sub_cancel_left]

theorem head?_octets (s : Text) : (Text.octets s)[0]? = s.head?.map Text.lead := by
  cases s with
  | nil => rfl
  | cons c s =>
      rw [Text.octets_cons]
      rfl

/-- The octet at the end of the first part, by the character there. -/
theorem getElem?_size (t u : Text) :
    (Text.octets (t ++ u))[t.utf8Size]? = u.head?.map Text.lead := by
  have h := getElem?_octets t u 0
  rwa [Nat.add_zero, head?_octets] at h

/-- An octet of ASCII at the end of the first part is the first character of the second. -/
theorem getElem?_size_eq_iff {x : Char} (hx : x.toNat < 128) :
    (Text.octets (t ++ u))[t.utf8Size]? = some x ↔ u.head? = some x := by
  rw [getElem?_size]
  cases u with
  | nil => simp
  | cons c u => simp [Text.lead_eq_iff hx]

/-- The offset after a part of a text is further on. -/
theorem isOnward_append (t : Text) {w : Text} (hw : w ≠ []) (u : Text) :
    IsOnward (Text.utf8Size (t ++ (w ++ u))) t.utf8Size (t.utf8Size + w.utf8Size) := by
  have hpos := mt Text.utf8Size_eq_zero_iff.1 hw
  rw [IsOnward, Text.utf8Size_append, Text.utf8Size_append]
  omega

/-! ## searches -/

theorem allFrom_eq_of_forall {i : Nat} {w : Text} (h : ∀ x ∈ w, p x = false) (b : Text) :
    allFrom p i (w ++ b) = allFrom p (i + w.length) b := by
  induction w generalizing i with
  | nil => rfl
  | cons x w ih =>
      obtain ⟨hx, hw⟩ := List.forall_mem_cons.1 h
      rw [List.cons_append, allFrom, if_neg (by simp [hx]), ih hw, List.length_cons]
      congr 1
      omega

/-- The search for the first character of a class, by the run in front of it. -/
theorem find?_eq (p : Char → Bool) (s : Text) :
    find? p s = (s.dropWhile (!p ·)).head?.map fun _ => Text.utf8Size (s.takeWhile (!p ·)) := by
  induction s with
  | nil => rfl
  | cons c s ih =>
      rw [find?]
      by_cases hc : p c = true
      · simp [hc, Text.utf8Size]
      · rw [if_neg hc, ih, List.dropWhile_cons_of_pos (by simp [hc]),
          List.takeWhile_cons_of_pos (by simp [hc]), Option.map_map]
        simp only [Text.utf8Size, Function.comp_def, Nat.add_comm]

/-- The first character of a class after others. -/
theorem find?_append {w : Text} {c : Char} (hw : ∀ x ∈ w, p x = false) (hc : p c = true)
    (s : Text) : find? p (w ++ c :: s) = some w.utf8Size := by
  have hrun : ∀ x ∈ w, (!p x) = true := fun x hx => by rw [hw x hx]; rfl
  rw [find?_eq, List.dropWhile_append_of_pos hrun, List.takeWhile_append_of_pos hrun,
    List.dropWhile_cons_of_neg (by simp [hc]), List.takeWhile_cons_of_neg (by simp [hc])]
  simp

theorem find?_eq_none (h : ∀ x ∈ s, p x = false) : find? p s = none := by
  induction s with
  | nil => rfl
  | cons c s ih =>
      obtain ⟨hc, hs⟩ := List.forall_mem_cons.1 h
      rw [find?, if_neg (by simp [hc]), ih hs]
      rfl

/-- The search for the last character of a class finds one that none follows. -/
theorem findLast?_cases (p : Char → Bool) (s : Text) :
    (findLast? p s = none ∧ ∀ c ∈ s, p c = false) ∨
      ∃ (t : Text) (c : Char) (u : Text), s = t ++ c :: u ∧ p c = true ∧ (∀ c ∈ u, p c = false) ∧
        findLast? p s = some t.utf8Size := by
  induction s with
  | nil => exact .inl ⟨rfl, List.forall_mem_nil _⟩
  | cons c s ih =>
      obtain ⟨hnone, hs⟩ | ⟨t, x, u, rfl, hx, hu, hsome⟩ := ih
      · by_cases hc : p c = true
        · exact .inr ⟨[], c, s, rfl, hc, hs, by rw [findLast?, hnone, if_pos hc]; rfl⟩
        · refine .inl ⟨by rw [findLast?, hnone, if_neg hc], ?_⟩
          exact List.forall_mem_cons.2 ⟨by simpa using hc, hs⟩
      · refine .inr ⟨c :: t, x, u, rfl, hx, hu, ?_⟩
        rw [findLast?, hsome, Text.utf8Size, Nat.add_comm]

end Offset

end Bibliography
