import Bibliography.Proofs.Sort.Stable
import Bibliography.Proofs.Text.Runs

/-!
# Bibliography.Proofs.Sort.Numbers

When numbers are sorted as numbers.  Digits of one length are compared as texts
like the numbers they denote (`Text.compare_digitsFrom`), and zeros in front
change no number.  So filling up to a width makes texts compare like numbers as
long as the width suffices.

It does for twenty digits.  A longer number is not filled up, and is compared
with a shorter one by its first digits only (`IsOvertaken`).

* `Text.digitsValue_lt_of_length_lt` — of two numbers without zeros in front the
  longer one is greater;
* `SortValue.compare_digits` — the order of sort values against that of numbers.
-/

namespace Bibliography

namespace Text

variable {s t u : Text} {c d : Char} {n m : Nat}

/-! ## texts and numbers -/

/-- The number that digits denote after a number that was read before them. -/
def digitsFrom (n : Nat) (s : Text) : Nat := s.foldl (fun n c => 10 * n + (c.toNat - '0'.toNat)) n

theorem digitsFrom_cons (n : Nat) (c : Char) (s : Text) :
    digitsFrom n (c :: s) = digitsFrom (10 * n + (c.toNat - '0'.toNat)) s := by
  unfold digitsFrom
  exact List.foldl_cons

theorem digitsFrom_append (n : Nat) (s t : Text) :
    digitsFrom n (s ++ t) = digitsFrom (digitsFrom n s) t := List.foldl_append

/-- The code points of the ten digits. -/
theorem toNat_of_isDigit (h : c.isDigit = true) : 48 ≤ c.toNat ∧ c.toNat ≤ 57 := by
  simpa [Char.isDigit, UInt32.le_iff_toNat_le] using h

theorem le_digitsFrom (n : Nat) (s : Text) : n ≤ digitsFrom n s := by
  induction s generalizing n with
  | nil => exact Nat.le_refl n
  | cons c s ih =>
      rw [digitsFrom_cons]
      exact Nat.le_trans (by omega) (ih _)

/-- A number before a digit decides, and then the digit. -/
theorem compare_digit (n m : Nat) (hc : c.isDigit = true) (hd : d.isDigit = true) :
    Ord.compare (10 * n + (c.toNat - '0'.toNat)) (10 * m + (d.toNat - '0'.toNat)) =
      (Ord.compare n m).then (Ord.compare c.toNat d.toNat) := by
  have hc := toNat_of_isDigit hc
  have hd := toNat_of_isDigit hd
  have hzero : '0'.toNat = 48 := rfl
  rw [hzero]
  obtain h | rfl | h := Nat.lt_trichotomy n m
  · rw [Nat.compare_eq_lt.2 h, Nat.compare_eq_lt.2 (by omega)]
    rfl
  · rw [Nat.compare_eq_eq.2 rfl, Ordering.then]
    obtain h | h | h := Nat.lt_trichotomy c.toNat d.toNat
    · rw [Nat.compare_eq_lt.2 h, Nat.compare_eq_lt.2 (by omega)]
    · rw [h, Nat.compare_eq_eq.2 rfl, Nat.compare_eq_eq.2 rfl]
    · rw [Nat.compare_eq_gt.2 h, Nat.compare_eq_gt.2 (by omega)]
  · rw [Nat.compare_eq_gt.2 h, Nat.compare_eq_gt.2 (by omega)]
    rfl

/-- **Digits of one length** are compared like the numbers they denote. -/
theorem compare_digitsFrom (hs : ∀ c ∈ s, c.isDigit = true) (ht : ∀ c ∈ t, c.isDigit = true)
    (hlength : s.length = t.length) (n m : Nat) :
    Ord.compare (digitsFrom n s) (digitsFrom m t) = (Ord.compare n m).then (compare s t) := by
  induction s generalizing n m t with
  | nil =>
      obtain rfl := List.eq_nil_of_length_eq_zero hlength.symm
      exact Ordering.then_eq.symm
  | cons c s ih =>
      obtain ⟨d, t, rfl⟩ := List.exists_cons_of_length_eq_add_one hlength.symm
      obtain ⟨hc, hs⟩ := List.forall_mem_cons.1 hs
      obtain ⟨hd, ht⟩ := List.forall_mem_cons.1 ht
      rw [digitsFrom_cons, digitsFrom_cons, ih hs ht (Nat.succ.inj hlength), compare_digit n m hc hd,
        Ordering.then_assoc]
      rfl

theorem digitsValue_eq (s : Text) : digitsValue s = digitsFrom 0 s := rfl

theorem compare_digitsValue (hs : ∀ c ∈ s, c.isDigit = true) (ht : ∀ c ∈ t, c.isDigit = true)
    (hlength : s.length = t.length) :
    Ord.compare (digitsValue s) (digitsValue t) = compare s t := by
  rw [digitsValue_eq, digitsValue_eq, compare_digitsFrom hs ht hlength, Nat.compare_eq_eq.2 rfl]
  rfl

/-! ## zeros in front -/

/-- A number without the zeros in front. -/
def significant (s : Text) : Text := s.dropWhile (· = '0')

theorem stops_significant (s : Text) : Stops (· = '0') (significant s) := stops_dropWhile _ s

theorem mem_of_mem_significant (h : c ∈ significant s) : c ∈ s :=
  (List.dropWhile_sublist _).subset h

theorem digitsValue_significant (s : Text) : digitsValue (significant s) = digitsValue s := by
  induction s with
  | nil => rfl
  | cons c s ih =>
      unfold significant at ih ⊢
      by_cases hc : c = '0'
      · rw [List.dropWhile_cons_of_pos (by simpa using hc), ih, hc]
        rfl
      · rw [List.dropWhile_cons_of_neg (by simpa using hc)]

theorem digitsValue_zeros_append (k : Nat) (s : Text) :
    digitsValue (List.replicate k '0' ++ s) = digitsValue s := by
  induction k with
  | zero => rfl
  | succ k ih => exact ih

/-- **Of two numbers** without zeros in front the longer one is greater. -/
theorem digitsValue_lt_of_length_lt (hs : ∀ c ∈ s, c.isDigit = true)
    (ht : ∀ c ∈ t, c.isDigit = true) (hfirst : Stops (· = '0') t) (hlength : s.length < t.length) :
    digitsValue s < digitsValue t := by
  obtain ⟨u, v, rfl, hv⟩ : ∃ u v, t = u ++ v ∧ s.length = v.length :=
    ⟨t.take (t.length - s.length), t.drop (t.length - s.length),
      (List.take_append_drop _ t).symm, by rw [List.length_drop]; omega⟩
  have hpos : 0 < digitsFrom 0 u := by
    cases u with
    | nil => simp [hv] at hlength
    | cons c u =>
        have hdigit := toNat_of_isDigit (ht c List.mem_cons_self)
        have hzero : c.toNat ≠ 48 := fun h =>
          (by simpa using hfirst : c ≠ '0') (Char.toNat_inj.1 h)
        have hstart : 0 < 10 * 0 + (c.toNat - '0'.toNat) := by
          rw [show '0'.toNat = 48 from rfl]
          omega
        exact Nat.lt_of_lt_of_le hstart (le_digitsFrom _ u)
  have hcompare := compare_digitsFrom hs (fun c hc => ht c (List.mem_append_right u hc)) hv 0
    (digitsFrom 0 u)
  rw [Nat.compare_eq_lt.2 hpos] at hcompare
  rw [digitsValue_eq, digitsValue_eq, digitsFrom_append]
  exact Nat.compare_eq_lt.1 hcompare

theorem compare_eq_eq_iff (s t : Text) : compare s t = .eq ↔ s = t := by
  obtain ⟨hlt, hgt⟩ := compare_eq_iff s t
  constructor
  · intro h
    rw [h] at hlt hgt
    exact le_antisymm (not_lt.1 fun h => nomatch hgt.2 h) (not_lt.1 fun h => nomatch hlt.2 h)
  · rintro rfl
    cases h : compare s s with
    | lt => exact absurd (hlt.1 h) (lt_irrefl s)
    | eq => rfl
    | gt => exact absurd (hgt.1 h) (lt_irrefl s)

theorem compare_swap (s t : Text) : (compare s t).swap = compare t s := by
  obtain ⟨hlt, hgt⟩ := compare_eq_iff s t
  obtain ⟨hlt', hgt'⟩ := compare_eq_iff t s
  cases h : compare s t with
  | lt => exact (hgt'.2 (hlt.1 h)).symm
  | eq => exact ((compare_eq_eq_iff t s).2 ((compare_eq_eq_iff s t).1 h).symm).symm
  | gt => exact (hlt'.2 (hgt.1 h)).symm

/-- A text that goes on comes after one of the length that its first part has, unless that part
comes before it. -/
theorem compare_append (hlength : s.length = t.length) (hne : u ≠ []) :
    compare (s ++ u) t = (compare s t).then .gt := by
  induction s generalizing t with
  | nil =>
      obtain rfl := List.eq_nil_of_length_eq_zero hlength.symm
      obtain ⟨c, u, rfl⟩ := List.exists_cons_of_ne_nil hne
      rfl
  | cons c s ih =>
      obtain ⟨d, t, rfl⟩ := List.exists_cons_of_length_eq_add_one hlength.symm
      rw [List.cons_append, compare, compare, ih (Nat.succ.inj hlength), Ordering.then_assoc]

end Text

/-! ## sort values -/

namespace SortValue

open Text

variable {s t : Text}

/-- Digits, filled up with zeros to the width of numbers. -/
def padded (s : Text) : Text := List.replicate (numberWidth - s.length) '0' ++ s

theorem length_padded (s : Text) : (padded s).length = max numberWidth s.length := by
  rw [padded, List.length_append, List.length_replicate]
  omega

theorem digitsValue_padded (s : Text) : digitsValue (padded s) = digitsValue s :=
  digitsValue_zeros_append _ s

theorem isDigit_of_mem_padded (hs : ∀ c ∈ s, c.isDigit = true) :
    ∀ c ∈ padded s, c.isDigit = true := by
  intro c hc
  obtain hc | hc := List.mem_append.1 hc
  · obtain rfl := List.eq_of_mem_replicate hc
    rfl
  · exact hs c hc

theorem isDigit_of_mem (h : s.isDigits = true) : ∀ c ∈ s, c.isDigit = true := by
  simp only [isDigits, Bool.and_eq_true, List.all_eq_true] at h
  exact h.2

/-- A number has its digits, without zeros in front, filled up. -/
theorem ofText_of_isDigits (h : s.strip.isDigits = true) :
    ofText s = some (padded s.strip.significant) := by
  have hne : s.strip ≠ [] := by
    intro hnil
    simp [hnil, isDigits] at h
  unfold ofText
  dsimp only
  rw [if_neg hne, if_pos h]
  rfl

/-- A number of more than twenty digits whose first digits, as many as a shorter number of at least
twenty digits has, denote less than that. -/
def IsOvertaken (s t : Text) : Prop :=
  numberWidth ≤ t.significant.length ∧ t.significant.length < s.significant.length ∧
    digitsValue (s.significant.take t.significant.length) < digitsValue t

instance (s t : Text) : Decidable (IsOvertaken s t) := inferInstanceAs (Decidable (_ ∧ _))

section

variable (hs : ∀ c ∈ s, c.isDigit = true) (ht : ∀ c ∈ t, c.isDigit = true)

include hs ht

/-- Where both numbers are filled up to one length, they are compared as numbers. -/
theorem compare_padded_of_length_eq
    (hlength : (padded s.significant).length = (padded t.significant).length) :
    Text.compare (padded s.significant) (padded t.significant) =
      Ord.compare (digitsValue s) (digitsValue t) := by
  have hdigits {s : Text} (hs : ∀ c ∈ s, c.isDigit = true) :
      ∀ c ∈ padded s.significant, c.isDigit = true :=
    isDigit_of_mem_padded fun c hc => hs c (mem_of_mem_significant hc)
  rw [← compare_digitsValue (hdigits hs) (hdigits ht) hlength, digitsValue_padded,
    digitsValue_padded, digitsValue_significant, digitsValue_significant]

/-- A number that is longer than the width, and than another one, is greater.  It comes after that
unless it is overtaken. -/
theorem compare_padded_of_length_lt
    (hlength : (padded t.significant).length < (padded s.significant).length) :
    digitsValue t < digitsValue s ∧
      (Text.compare (padded s.significant) (padded t.significant) = .gt ↔ ¬ IsOvertaken s t) := by
  have hs' : ∀ c ∈ s.significant, c.isDigit = true := fun c hc => hs c (mem_of_mem_significant hc)
  have ht' : ∀ c ∈ t.significant, c.isDigit = true := fun c hc => ht c (mem_of_mem_significant hc)
  rw [length_padded, length_padded] at hlength
  have hlonger : t.significant.length < s.significant.length := by omega
  have hgreater := digitsValue_lt_of_length_lt ht' hs' (stops_significant s) hlonger
  rw [digitsValue_significant, digitsValue_significant] at hgreater
  refine ⟨hgreater, ?_⟩
  -- The longer number is not filled up.
  have hpadded : padded s.significant = s.significant := by
    rw [padded, Nat.sub_eq_zero_of_le (by omega)]
    rfl
  have hlength' : (s.significant.take (padded t.significant).length).length =
      (padded t.significant).length := by
    rw [List.length_take, length_padded]
    omega
  have hfirst : Text.compare (s.significant.take (padded t.significant).length)
      (padded t.significant) = Ord.compare
        (digitsValue (s.significant.take (padded t.significant).length)) (digitsValue t) := by
    rw [← compare_digitsValue (fun c hc => hs' c (List.mem_of_mem_take hc))
      (isDigit_of_mem_padded ht') hlength', digitsValue_padded, digitsValue_significant]
  have hovertaken : IsOvertaken s t ↔
      digitsValue (s.significant.take (padded t.significant).length) < digitsValue t := by
    by_cases hwidth : numberWidth ≤ t.significant.length
    · rw [length_padded, Nat.max_eq_right hwidth]
      exact ⟨fun h => h.2.2, fun h => ⟨hwidth, hlonger, h⟩⟩
    · -- The first digits of the longer number are more than the other one has.
      have hstops : Stops (· = '0') (s.significant.take (padded t.significant).length) := by
        refine Stops.of_append (r := s.significant.drop (padded t.significant).length) ?_
        rw [List.take_append_drop]
        exact stops_significant s
      have hless := digitsValue_lt_of_length_lt ht' (fun c hc => hs' c (List.mem_of_mem_take hc))
        hstops (by rw [hlength', length_padded]; omega)
      rw [digitsValue_significant] at hless
      exact ⟨fun h => absurd h.1 hwidth, fun h => absurd h (Nat.lt_asymm hless)⟩
  have hsplit := compare_append hlength' (u := s.significant.drop (padded t.significant).length)
    (by rw [Ne, List.drop_eq_nil_iff, length_padded]; omega)
  rw [List.take_append_drop, hfirst] at hsplit
  rw [hpadded, hsplit, hovertaken, ← Nat.compare_eq_lt]
  cases Ord.compare (digitsValue (s.significant.take (padded t.significant).length))
    (digitsValue t) <;> decide

/-- The same for any two numbers, the first of which is filled up to no less than the other one. -/
theorem compare_padded (hlength : (padded t.significant).length ≤ (padded s.significant).length) :
    (Text.compare (padded s.significant) (padded t.significant) =
        Ord.compare (digitsValue s) (digitsValue t) ↔ ¬ IsOvertaken s t ∧ ¬ IsOvertaken t s) ∧
    (Text.compare (padded s.significant) (padded t.significant) = .eq ↔
      digitsValue s = digitsValue t) := by
  have hother : ¬ IsOvertaken t s := by
    rintro ⟨hwidth, hless, -⟩
    rw [length_padded, length_padded] at hlength
    omega
  obtain hlt | heq := Nat.lt_or_eq_of_le hlength
  · obtain ⟨hgreater, hgt⟩ := compare_padded_of_length_lt hs ht hlt
    refine ⟨?_, fun h => ?_, fun h => absurd h hgreater.ne'⟩
    · rw [Nat.compare_eq_gt.2 hgreater, hgt]
      exact ⟨fun h => ⟨h, hother⟩, fun h => h.1⟩
    · rw [(compare_eq_eq_iff _ _).1 h] at hlt
      exact absurd hlt (Nat.lt_irrefl _)
  · have hone : ¬ IsOvertaken s t := by
      rintro ⟨hwidth, hless, -⟩
      rw [length_padded, length_padded] at heq
      omega
    rw [compare_padded_of_length_eq hs ht heq.symm]
    exact ⟨⟨fun _ => ⟨hone, hother⟩, fun _ => rfl⟩, Nat.compare_eq_eq⟩

end

/-- **Numbers are sorted as numbers** unless one of them is overtaken, and in any case only equal
numbers are equal in the order. -/
theorem compare_digits (s t : Text) (hs : s.strip.isDigits = true) (ht : t.strip.isDigits = true) :
    (compare false (ofText s) (ofText t) =
        Ord.compare (digitsValue s.strip) (digitsValue t.strip) ↔
      ¬ IsOvertaken s.strip t.strip ∧ ¬ IsOvertaken t.strip s.strip) ∧
    (compare false (ofText s) (ofText t) = .eq ↔ digitsValue s.strip = digitsValue t.strip) := by
  have hs' : ∀ c ∈ s.strip, c.isDigit = true := isDigit_of_mem hs
  have ht' : ∀ c ∈ t.strip, c.isDigit = true := isDigit_of_mem ht
  rw [ofText_of_isDigits hs, ofText_of_isDigits ht]
  obtain hle | hle := Nat.le_total (padded t.strip.significant).length
    (padded s.strip.significant).length
  · exact compare_padded hs' ht' hle
  · -- Both comparisons are turned round.
    obtain ⟨hiff, heq⟩ := compare_padded ht' hs' hle
    have hturn : compare false (some (padded s.strip.significant))
        (some (padded t.strip.significant)) = (Text.compare (padded t.strip.significant)
          (padded s.strip.significant)).swap := (compare_swap _ _).symm
    rw [hturn, ← Nat.compare_swap (digitsValue t.strip), Ordering.swap_inj, Ordering.swap_eq_eq,
      hiff, heq]
    exact ⟨and_comm, eq_comm⟩

/-- Numbers of twenty digits and more, and zeros in front. -/
theorem compare_digits_long :
    let s : Text := "0099999999999999999999".toList
    let t : Text := " 999999999999999999990 ".toList
    s.strip.isDigits = true ∧ t.strip.isDigits = true ∧
      compare false (ofText s) (ofText t) =
        Ord.compare (digitsValue s.strip) (digitsValue t.strip) := by
  intro s t
  have hs : s.strip.isDigits = true := by decide +kernel
  have ht : t.strip.isDigits = true := by decide +kernel
  exact ⟨hs, ht, (compare_digits s t hs ht).1.2 (by decide +kernel)⟩

/-- **Long numbers are sorted by their first digits.**  A number of twenty-one digits comes before a
smaller one of twenty. -/
theorem compare_digits_overtaken :
    let s : Text := "100000000000000000000".toList
    let t : Text := "99999999999999999999".toList
    s.strip.isDigits = true ∧ t.strip.isDigits = true ∧
      digitsValue t.strip < digitsValue s.strip ∧
      compare false (ofText s) (ofText t) = .lt := by
  decide +kernel

end SortValue

end Bibliography
