import Bibliography.Proofs.Value.Rewriting

/-!
# Bibliography.Proofs.Url

Encoding an address once more changes nothing.  A percent sign and the digits after
it are characters that are kept, and every character that is not kept leaves a
percent sign.

* `isKept_of_mem_encode` — what is encoded has kept characters only;
* `encode_eq_self` — and those are not encoded.
-/

namespace Bibliography.Url

variable {c x : Char} {t : Text}

/-- A character is kept, or leaves a percent sign. -/
theorem encodeChar_eq_self_or (c : Char) : encodeChar c = [c] ∨ '%' ∈ encodeChar c := by
  unfold encodeChar
  split
  · exact .inl rfl
  · have hne : Text.octetsOf c ≠ [] := by
      intro hnil
      have hlength := Text.length_octetsOf c
      rw [hnil] at hlength
      exact absurd hlength.symm (Nat.ne_of_gt (Char.utf8Size_pos c))
    obtain ⟨n, hn⟩ := List.exists_mem_of_ne_nil _ hne
    exact .inr (List.mem_flatMap.2 ⟨n, hn, List.mem_cons_self⟩)

/-- A percent sign and two digits are kept. -/
theorem isKept_percent {n : Nat} (h : n < 256) (hx : x ∈ percent n) : isKept x = true := by
  have hdigits : ∀ n < 16, isKept (hexDigit n) = true := by decide
  simp only [percent, List.mem_cons, List.not_mem_nil, or_false] at hx
  obtain rfl | rfl | rfl := hx
  · decide
  · exact hdigits _ (by omega)
  · exact hdigits _ (by omega)

/-- **An encoded address** has kept characters only. -/
theorem isKept_of_mem_encode (hx : x ∈ encode t) : isKept x = true := by
  obtain ⟨c, -, hx⟩ := List.mem_flatMap.1 hx
  unfold encodeChar at hx
  split at hx
  · next hkept => rwa [List.mem_singleton.1 hx]
  · obtain ⟨n, hn, hx⟩ := List.mem_flatMap.1 hx
    exact isKept_percent (lt_of_mem_octetsOf hn) hx

/-- Kept characters are not encoded. -/
theorem encode_eq_self (h : ∀ x ∈ t, isKept x = true) : encode t = t := by
  induction t with
  | nil => rfl
  | cons c t ih =>
      obtain ⟨hc, ht⟩ := List.forall_mem_cons.1 h
      have hrest : t.flatMap encodeChar = t := ih ht
      rw [encode, List.flatMap_cons, encodeChar, if_pos hc, hrest]
      rfl

/-- **Encoding again** changes nothing. -/
@[simp] theorem encode_encode (t : Text) : encode (encode t) = encode t :=
  encode_eq_self fun _ => isKept_of_mem_encode

end Bibliography.Url
