import Bibliography.Unicode.Boundaries
import Bibliography.Unicode.Case.Mapping

/-!
# Bibliography.Proofs.Unicode.Bits

Classes of characters and mappings of letter case as numbers, with a bit for each
member.  Their tables have hundreds of rows and more, so that a statement about all
the characters of a mapping is not decided for pairs of rows, but as an equation of
two such numbers.

* `Boundaries.bits` — a class;
* `Mapping.domain`, `Mapping.images` — the characters of the rows of a mapping, and
  the images under its runs;
* `Mapping.apply_of_mem` — a run of a mapping without overlaps gives the images of its
  members.
-/

namespace Bibliography.Unicode

/-! ## numbers -/

/-- The bits of a number that keeps all of its own beside those of another one. -/
theorem testBit_of_and_eq_self {a b i : Nat} (h : a &&& b = a) (ha : a.testBit i = true) :
    b.testBit i = true := by
  have hbit := congrArg (Nat.testBit · i) h
  simpa [Nat.testBit_and, ha] using hbit

theorem testBit_of_and_eq_zero {a b i : Nat} (h : a &&& b = 0) (ha : a.testBit i = true) :
    b.testBit i = false := by
  have hbit := congrArg (Nat.testBit · i) h
  simpa [Nat.testBit_and, ha] using hbit

/-! ## classes -/

namespace Boundaries

/-- A class as a number with a bit for each member; the last boundary has to close the class. -/
def bits (inside : Bool) : Boundaries → Nat
  | [] => 0
  | b :: bs => (if inside then 1 <<< b - 1 else 0) ||| (bits (!inside) bs >>> b) <<< b

/-- **A bit is set for members only**, and for all of them. -/
theorem testBit_bits {inside : Bool} {table : Boundaries} (h : table.length % 2 = inside.toNat)
    (n : Nat) : (bits inside table).testBit n = containsFrom inside n table := by
  induction table generalizing inside with
  | nil =>
      cases inside with
      | true => cases h
      | false => exact Nat.zero_testBit n
  | cons b bs ih =>
      have hrest : bs.length % 2 = (!inside).toNat := by
        cases inside <;> simp only [List.length_cons, Bool.toNat_true, Bool.toNat_false,
          Bool.not_true, Bool.not_false] at h ⊢ <;> omega
      have hinside : (if inside then 1 <<< b - 1 else 0).testBit n = (inside && decide (n < b)) := by
        cases inside with
        | true => simp [Nat.one_shiftLeft, Nat.testBit_two_pow_sub_one]
        | false => exact Nat.zero_testBit n
      rw [bits, containsFrom, Nat.testBit_or, hinside, Nat.testBit_shiftLeft, Nat.testBit_shiftRight]
      by_cases hn : n < b
      · simp [hn, Nat.not_le.2 hn]
      · rw [Nat.add_sub_of_le (Nat.le_of_not_lt hn), ih hrest]
        simp [hn, Nat.le_of_not_lt hn]

end Boundaries

/-! ## runs -/

/-- A number with bits in equal distances. -/
def spaced (step : Nat) : Nat → Nat
  | 0 => 0
  | k + 1 => 1 ||| spaced step k <<< step

theorem testBit_spaced {step k j : Nat} (h : j < k) : (spaced step k).testBit (step * j) = true := by
  induction k generalizing j with
  | zero => cases h
  | succ k ih =>
      rw [spaced, Nat.testBit_or, Nat.testBit_shiftLeft]
      cases j with
      | zero => simp
      | succ j =>
          rw [Nat.mul_succ, Nat.add_sub_cancel, ih (Nat.lt_of_succ_lt_succ h)]
          simp

namespace Run

variable {r : Run} {n m : Nat}

/-- The members of a run, counted from its first. -/
def offsets (r : Run) : Nat := spaced r.step ((r.last - r.first) / r.step + 1)

/-- The members of a run and their images, by their offsets. -/
theorem exists_offset (h : r.image? n = some m) :
    ∃ i, r.offsets.testBit i = true ∧ n = r.first + i ∧ m = r.image + i := by
  unfold image? at h
  split at h
  · next hn =>
    cases h
    obtain ⟨hfirst, hlast, hstep⟩ := hn
    refine ⟨n - r.first, ?_, (Nat.add_sub_of_le hfirst).symm, rfl⟩
    have hspaced : r.step * ((n - r.first) / r.step) = n - r.first :=
      Nat.mul_div_cancel' (Nat.dvd_of_mod_eq_zero hstep)
    have hle : (n - r.first) / r.step ≤ (r.last - r.first) / r.step :=
      Nat.div_le_div_right (Nat.sub_le_sub_right hlast _)
    rw [offsets, ← hspaced]
    exact testBit_spaced (Nat.lt_succ_of_le hle)
  · cases h

/-- A member of a run is one of its bits. -/
theorem testBit_offsets (h : r.image? n = some m) : (r.offsets <<< r.first).testBit n = true := by
  obtain ⟨i, hi, rfl, -⟩ := exists_offset h
  simp [Nat.testBit_shiftLeft, hi]

end Run

/-! ## mappings -/

/-- Runs with each from its own place on. -/
def union (rs : List Run) (start : Run → Nat) : Nat :=
  rs.foldr (fun r table => r.offsets <<< start r ||| table) 0

theorem testBit_union {rs : List Run} (start : Run → Nat) {r : Run} (hr : r ∈ rs) {i : Nat}
    (hi : r.offsets.testBit i = true) : (union rs start).testBit (start r + i) = true := by
  induction rs with
  | nil => cases hr
  | cons q rs ih =>
      rw [union, List.foldr_cons, Nat.testBit_or]
      obtain rfl | hr := List.mem_cons.1 hr
      · simp [Nat.testBit_shiftLeft, hi]
      · exact Bool.or_eq_true_iff.2 (.inr (ih hr))

/-- No run has a member of a later one. -/
def Apart : List Run → Prop
  | [] => True
  | r :: rs => r.offsets <<< r.first &&& union rs Run.first = 0 ∧ Apart rs

instance decidableApart : (rs : List Run) → Decidable (Apart rs)
  | [] => .isTrue trivial
  | r :: rs =>
    have := decidableApart rs
    inferInstanceAs (Decidable (r.offsets <<< r.first &&& union rs Run.first = 0 ∧ Apart rs))

theorem pairwise_of_apart {rs : List Run} (h : Apart rs) :
    rs.Pairwise fun r q => ∀ n k, r.image? n = some k → q.image? n = none := by
  induction rs with
  | nil => exact .nil
  | cons r rs ih =>
      refine List.pairwise_cons.2 ⟨fun q hq n k hn => ?_, ih h.2⟩
      cases hk : q.image? n with
      | none => rfl
      | some k' =>
          obtain ⟨i, hi, rfl, -⟩ := Run.exists_offset hk
          have hlater := testBit_union Run.first hq hi
          rw [testBit_of_and_eq_zero h.1 (Run.testBit_offsets hn)] at hlater
          cases hlater

/-- Of runs without overlaps, any that has a member gives its image. -/
theorem findSome?_image? {rs : List Run}
    (h : rs.Pairwise fun r q => ∀ n k, r.image? n = some k → q.image? n = none) {r : Run}
    (hr : r ∈ rs) {n k : Nat} (hn : r.image? n = some k) :
    rs.findSome? (·.image? n) = some k := by
  induction rs with
  | nil => cases hr
  | cons q rs ih =>
      obtain ⟨hq, hrs⟩ := List.pairwise_cons.1 h
      rw [List.findSome?_cons]
      obtain rfl | hr := List.mem_cons.1 hr
      · rw [hn]
      · cases hk : q.image? n with
        | none => exact ih hrs hr
        | some k' =>
            rw [hq r hr n k' hk] at hn
            cases hn

namespace Mapping

variable {m : Mapping} {r : Run} {n k : Nat}

/-- The rows of a mapping, those with several images as runs of one member. -/
def rows (m : Mapping) : List Run := m.runs ++ m.several.map fun p => ⟨p.1, p.1, 1, p.1⟩

/-- The members of all rows. -/
def domain (m : Mapping) : Nat := union m.rows Run.first

/-- The images under all runs. -/
def images (m : Mapping) : Nat := union m.runs Run.image

theorem testBit_domain (hr : r ∈ m.rows) (h : r.image? n = some k) : m.domain.testBit n = true := by
  obtain ⟨i, hi, rfl, -⟩ := Run.exists_offset h
  exact testBit_union Run.first hr hi

theorem testBit_images (hr : r ∈ m.runs) (h : r.image? n = some k) : m.images.testBit k = true := by
  obtain ⟨i, hi, -, rfl⟩ := Run.exists_offset h
  exact testBit_union Run.image hr hi

/-- A character is kept, or has several images, or one under a run. -/
theorem apply_cases (m : Mapping) (c : Char) : m.apply c = [c] ∨
    (∃ p ∈ m.several, p.1 = c.toNat ∧ m.apply c = p.2.map Char.ofNat) ∨
      ∃ r ∈ m.runs, ∃ n, r.image? c.toNat = some n ∧ m.apply c = [Char.ofNat n] := by
  unfold apply
  split
  · next codes hcodes =>
    obtain ⟨l₁, l₂, hl, -⟩ := List.lookup_eq_some_iff.1 hcodes
    exact .inr (.inl ⟨(c.toNat, codes), by simp [hl], rfl, rfl⟩)
  · split
    · next n hn =>
      obtain ⟨r, hr, hrn⟩ := List.exists_of_findSome?_eq_some hn
      exact .inr (.inr ⟨r, hr, n, hrn, rfl⟩)
    · exact .inl rfl

/-- A character that a mapping does not keep is in one of its rows. -/
theorem apply_eq_self_or (m : Mapping) (c : Char) :
    m.apply c = [c] ∨ m.domain.testBit c.toNat = true := by
  obtain hsame | ⟨p, hp, hc, -⟩ | ⟨r, hr, n, hn, -⟩ := m.apply_cases c
  · exact .inl hsame
  · have hrow : (⟨p.1, p.1, 1, p.1⟩ : Run) ∈ m.rows :=
      List.mem_append_right _ (List.mem_map.2 ⟨p, hp, rfl⟩)
    exact .inr (testBit_domain hrow (k := p.1) (by simp [Run.image?, hc]))
  · exact .inr (testBit_domain (List.mem_append_left _ hr) hn)

/-- **A run of a mapping without overlaps** gives the images of its members. -/
theorem apply_of_mem (h : Apart m.rows) (hr : r ∈ m.runs) {c : Char}
    (hc : r.image? c.toNat = some k) : m.apply c = [Char.ofNat k] := by
  obtain ⟨hruns, -, hseveral⟩ := List.pairwise_append.1 (pairwise_of_apart h)
  have hnone : m.several.lookup c.toNat = none := by
    refine List.lookup_eq_none_iff.2 fun p hp => bne_iff_ne.2 fun heq => ?_
    have hrow := hseveral r hr _ (List.mem_map_of_mem hp) _ k hc
    simp [Run.image?, heq] at hrow
  unfold apply
  rw [hnone, findSome?_image? hruns hr hc]

end Mapping

end Bibliography.Unicode
