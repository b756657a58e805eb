import Mathlib.Data.List.Induction
import Mathlib.Data.List.Shortlex
import Mathlib.Data.Nat.PSub
import Mathlib.Data.Set.Function
import Bibliography.CitationKey.Generate

/-!
# Bibliography.Proofs.CitationKey.Letters

The suffixes of letters are the numerals of a bijective base: there is no digit for
zero, which is why one is taken off before the next letter.  A longer word stands for
a greater number, and words of one length are in the order of the alphabet
(`shortlex_of_lt`); each word of small letters is reached
(`exists_letterSuffix_eq`).

* `letterSuffix_enumerates` — the words of small letters, each once and in order.
-/

namespace Bibliography.CitationKey

/-! ## the loop -/

/-- The letters of a number in front of a word, found from the last one to the first.  There is no
word if one would have to be taken off zero. -/
def lettersBefore? (word : Text) (n : Nat) : Option Text :=
  if n < 26 then some (letter (n % 26) :: word)
  else match h : Nat.psub (n / 26) 1 with
    | none => none
    | some m => lettersBefore? (letter (n % 26) :: word) m
termination_by n
decreasing_by
  have hquotient := Nat.psub_eq_some.1 h
  omega

/-- **The loop ends, and nothing is taken off zero.** -/
theorem lettersBefore?_eq (word : Text) (n : Nat) :
    lettersBefore? word n = some (letterSuffix n ++ word) := by
  induction n using Nat.strong_induction_on generalizing word with
  | _ n ih =>
    rw [lettersBefore?, letterSuffix]
    by_cases hn : n < 26
    · rw [if_pos hn, if_pos hn, Nat.mod_eq_of_lt hn]
      rfl
    · have hquotient : 1 ≤ n / 26 := by omega
      rw [if_neg hn, if_neg hn, Nat.psub_eq_sub hquotient]
      refine (ih (n / 26 - 1) (by omega) _).trans ?_
      rw [List.append_assoc]
      rfl

/-! ## the order of the words -/

/-- Words of one length that differ are in the order of their first difference, whatever follows. -/
theorem lex_append {s t : Text} (h : List.Lex (· < ·) s t) (hlength : s.length = t.length)
    (u v : Text) : List.Lex (· < ·) (s ++ u) (t ++ v) := by
  induction h with
  | nil => simp at hlength
  | rel hc => exact .rel hc
  | cons _ ih => exact .cons (ih (Nat.succ.inj hlength))

/-- Words in order stay in order when each gets one letter more. -/
theorem shortlex_snoc {s t : Text} (h : List.Shortlex (· < ·) s t) (c d : Char) :
    List.Shortlex (· < ·) (s ++ [c]) (t ++ [d]) := by
  obtain hshorter | ⟨hlength, hlex⟩ := List.shortlex_def.1 h
  · exact .of_length_lt (by simpa using hshorter)
  · exact .of_lex (by simpa using hlength) (lex_append hlex hlength _ _)

theorem letter_lt_letter : ∀ n < 26, ∀ m < n, letter m < letter n := by decide

theorem letterSuffix_ne_nil (n : Nat) : letterSuffix n ≠ [] := by
  rw [letterSuffix]
  split <;> simp

theorem one_lt_length_letterSuffix {n : Nat} (h : 26 ≤ n) : 1 < (letterSuffix n).length := by
  have hpos := List.length_pos_iff.2 (letterSuffix_ne_nil (n / 26 - 1))
  rw [letterSuffix, if_neg (by omega), List.length_append, List.length_singleton]
  omega

/-- **A greater number has a longer word, or one of the same length later in the alphabet.** -/
theorem shortlex_of_lt {m n : Nat} (h : m < n) :
    List.Shortlex (· < ·) (letterSuffix m) (letterSuffix n) := by
  induction n using Nat.strong_induction_on generalizing m with
  | _ n ih =>
    by_cases hn : n < 26
    · rw [letterSuffix, if_pos (by omega), letterSuffix, if_pos hn, List.shortlex_singleton_iff]
      exact letter_lt_letter n hn m h
    · by_cases hm : m < 26
      · have hlong := one_lt_length_letterSuffix (Nat.le_of_not_lt hn)
        rw [letterSuffix, if_pos hm]
        exact .of_length_lt hlong
      · rw [letterSuffix.eq_def m, if_neg hm, letterSuffix.eq_def n, if_neg hn]
        -- Either the words without their last letters differ, or only the last letters do.
        obtain hlt | heq : m / 26 - 1 < n / 26 - 1 ∨ m / 26 - 1 = n / 26 - 1 := by omega
        · exact shortlex_snoc (ih (n / 26 - 1) (by omega) hlt) _ _
        · rw [heq]
          refine List.Shortlex.append_left ?_ _
          rw [List.shortlex_singleton_iff]
          exact letter_lt_letter _ (Nat.mod_lt n (by omega)) _ (by omega)

theorem shortlex_iff_lt (m n : Nat) :
    List.Shortlex (· < ·) (letterSuffix m) (letterSuffix n) ↔ m < n := by
  refine ⟨fun h => ?_, shortlex_of_lt⟩
  by_contra hle
  obtain hlt | rfl := Nat.lt_or_eq_of_le (Nat.le_of_not_lt hle)
  · exact List.Shortlex.asymm.asymm _ _ h (shortlex_of_lt hlt)
  · exact List.Shortlex.asymm.asymm _ _ h h

theorem letterSuffix_injective : Function.Injective letterSuffix := by
  have hnot {m n : Nat} (h : letterSuffix m = letterSuffix n) : ¬ m < n := by
    rw [← shortlex_iff_lt, h, shortlex_iff_lt]
    exact Nat.lt_irrefl n
  intro m n h
  exact Nat.le_antisymm (Nat.le_of_not_lt (hnot h.symm)) (Nat.le_of_not_lt (hnot h))

/-! ## all words -/

/-- A word of one or more small letters. -/
def IsLetterWord (w : Text) : Prop := w ≠ [] ∧ ∀ c ∈ w, 'a' ≤ c ∧ c ≤ 'z'

theorem isLetterWord_letterSuffix (n : Nat) : IsLetterWord (letterSuffix n) := by
  have hletter : ∀ n < 26, 'a' ≤ letter n ∧ letter n ≤ 'z' := by decide
  fun_induction letterSuffix n with
  | case1 n h => exact ⟨List.cons_ne_nil _ _, List.forall_mem_singleton.2 (hletter n h)⟩
  | case2 n h ih =>
      refine ⟨by simp, List.forall_mem_append.2 ⟨ih.2, ?_⟩⟩
      exact List.forall_mem_singleton.2 (hletter _ (Nat.mod_lt _ (by omega)))

/-- A small letter is the letter of its place in the alphabet. -/
theorem exists_letter_eq {c : Char} (h : 'a' ≤ c ∧ c ≤ 'z') : ∃ k < 26, letter k = c := by
  have hlow : 97 ≤ c.toNat := h.1
  have hhigh : c.toNat ≤ 122 := h.2
  refine ⟨c.toNat - 97, by omega, ?_⟩
  have hplace : 'a'.toNat + (c.toNat - 97) = c.toNat := Nat.add_sub_of_le hlow
  rw [letter, hplace, Char.ofNat_toNat]

/-- **Every word of small letters is a suffix.** -/
theorem exists_letterSuffix_eq {w : Text} (h : IsLetterWord w) : ∃ n, letterSuffix n = w := by
  obtain ⟨hne, hletters⟩ := h
  induction w using List.reverseRecOn with
  | nil => exact absurd rfl hne
  | append_singleton w c ih =>
      obtain ⟨hw, hc⟩ := List.forall_mem_append.1 hletters
      obtain ⟨k, hk, rfl⟩ := exists_letter_eq (hc c List.mem_cons_self)
      by_cases hnil : w = []
      · exact ⟨k, by rw [hnil, letterSuffix, if_pos hk]; rfl⟩
      · obtain ⟨m, rfl⟩ := ih hnil hw
        refine ⟨26 * (m + 1) + k, ?_⟩
        have hquotient : (26 * (m + 1) + k) / 26 - 1 = m := by omega
        have hremainder : (26 * (m + 1) + k) % 26 = k := by omega
        rw [letterSuffix, if_neg (by omega), hquotient, hremainder]

/-- **The suffixes of letters are all words of small letters**, each at one number, in the order of
their lengths and, for words of one length, of the alphabet.  The loop that finds the letters ends,
and never takes one off zero. -/
theorem letterSuffix_enumerates :
    (∀ n, lettersBefore? [] n = some (letterSuffix n)) ∧
    Set.BijOn letterSuffix Set.univ {w | IsLetterWord w} ∧
    ∀ m n, m < n ↔ List.Shortlex (· < ·) (letterSuffix m) (letterSuffix n) := by
  refine ⟨fun n => ?_, ⟨?_, ?_, ?_⟩, fun m n => (shortlex_iff_lt m n).symm⟩
  · rw [lettersBefore?_eq, List.append_nil]
  · exact fun n _ => isLetterWord_letterSuffix n
  · exact letterSuffix_injective.injOn
  · intro w hw
    obtain ⟨n, hn⟩ := exists_letterSuffix_eq hw
    exact ⟨n, Set.mem_univ n, hn⟩

-- One letter more at each power of 26 and the powers below it.
example : (letterSuffix 25, letterSuffix 26, letterSuffix 701, letterSuffix 702) =
    (['z'], ['a', 'a'], ['z', 'z'], ['a', 'a', 'a']) := by decide +kernel

end Bibliography.CitationKey
