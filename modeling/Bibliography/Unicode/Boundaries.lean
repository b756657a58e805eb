/-!
# Bibliography.Unicode.Boundaries

A class of characters as the increasing list of the code points at which
membership changes: the first boundary opens the class, the second closes it,
and so on.  A code point is in the class when an odd number of boundaries is
at most as large.

The tables of classes and of case mappings are those of version 17.0 of the
standard, unless their module says otherwise.
-/

namespace Bibliography.Unicode

/-- The code points at which membership of a class changes. -/
abbrev Boundaries := List Nat

namespace Boundaries

/-- Walk the boundaries up to a code point; `inside` says whether the last
boundary passed opened the class. -/
def containsFrom (inside : Bool) (n : Nat) : Boundaries → Bool
  | [] => inside
  | b :: bs => if n < b then inside else containsFrom (!inside) n bs

/-- Whether a code point is in the class. -/
def contains (table : Boundaries) (n : Nat) : Bool := containsFrom false n table

@[simp] theorem contains_nil (n : Nat) : contains [] n = false := rfl

/-- The first two boundaries enclose the first run of the class. -/
theorem contains_cons_cons {a b : Nat} {table : Boundaries} {n : Nat} (h : a ≤ b) :
    contains (a :: b :: table) n =
      (decide (a ≤ n ∧ n < b) || (decide (b ≤ n) && contains table n)) := by
  simp only [contains, containsFrom]
  by_cases h1 : n < a
  · have h2 : n < b := by omega
    simp [h1, Nat.not_le.mpr h1, Nat.not_le.mpr h2]
  · by_cases h2 : n < b
    · simp [h1, h2, Nat.not_lt.mp h1]
    · simp [h1, h2, Nat.not_lt.mp h2]

end Boundaries

end Bibliography.Unicode
