import Bibliography.Offset.Trim
import Bibliography.Proofs.CitationKey.Templates
import Bibliography.Proofs.Offset.Scan
import Bibliography.Render
import Bibliography.Value.Normalization

/-!
# Bibliography.Proofs.Offset.Trim

What is cut off a text by offsets: braces, blank lines, and the groups of a key
template.  In each of them an offset was found by a search for a character of ASCII,
and the text is cut just before or just after it.

* `stripBraces_eq`, `trimBlankLines_eq` — braces and blank lines;
* `template_eq` — the groups of a template.
-/

namespace Bibliography.Offset

variable {s t : Text}

/-! ## braces -/

/-- What begins with another octet is not enclosed. -/
theorem isEnclosed?_of_ne {b : Text} {n : Nat} {x : Char} (hn : b.length = n + 2)
    (hx : b[0]? = some x) (hne : x ≠ '{') : isEnclosed? b = some false := by
  have hlt : n + 1 < b.length := by omega
  rw [isEnclosed?, hn]
  simp [hx, List.getElem?_eq_getElem hlt, hne]

/-- Two octets or more after an opening brace, by the last one and the closing brace. -/
theorem isEnclosed?_eq {b : Text} {n : Nat} {y : Char} {r : Except ScanError Nat} {v : Bool}
    (hn : b.length = n + 2) (hx : b[0]? = some '{') (hy : b[n + 1]? = some y)
    (hr : balanced '{' '}' b 1 = some r) (hv : v = true ↔ y = '}' ∧ r = .ok (n + 1)) :
    isEnclosed? b = some v := by
  rw [isEnclosed?, hn]
  simp only [hx, hy, hr, Option.bind_eq_bind, Option.bind_some, true_and]
  by_cases hbrace : y = '}'
  · rw [if_pos hbrace]
    have hclosed : v = decide (r = .ok (n + 1)) := by
      rw [Bool.eq_iff_iff, hv, decide_eq_true_iff]
      exact and_iff_right hbrace
    cases r <;> simp [hclosed]
  · have hopen : v = false := Bool.eq_false_iff.2 fun h => hbrace (hv.1 h).1
    rw [if_neg hbrace, hopen]
    rfl

/-- Whether an opening brace is closed at the end of the text is told by the octets. -/
theorem isEnclosed?_brace {u : Text} (hu : u ≠ []) :
    isEnclosed? (Text.octets ('{' :: u)) = some (isEnclosed ('{' :: u)) := by
  have hscan := balanced_octets (show '{'.toNat < 128 by decide) (show '}'.toNat < 128 by decide)
    ['{'] u
  have hfirst : (Text.octets ('{' :: u))[0]? = some '{' := by
    rw [head?_octets]
    rfl
  have hlength : (Text.octets ('{' :: u)).length = 1 + u.utf8Size := by
    rw [Text.length_octets]
    rfl
  obtain ⟨n, hn⟩ : ∃ n, u.utf8Size = n + 1 :=
    Nat.exists_eq_succ_of_ne_zero fun hzero => hu (Text.utf8Size_eq_zero_iff.1 hzero)
  have hlt : n + 1 < (Text.octets ('{' :: u)).length := by omega
  obtain ⟨y, hlast⟩ : ∃ y, (Text.octets ('{' :: u))[n + 1]? = some y :=
    ⟨_, List.getElem?_eq_getElem hlt⟩
  refine isEnclosed?_eq (by omega) hfirst hlast hscan ?_
  rw [isEnclosed, enclosed?]
  cases hr : Scan.balanced '{' '}' u with
  | stray inside rest => simp [Scan.Closing.located]
  | unclosed depth => simp [Scan.Closing.located]
  | closed inside rest =>
      obtain rfl := Scan.eq_of_balanced_closed hr
      have hone : Text.utf8Size ['{'] = 1 := rfl
      have hbrace : Text.utf8Size ('{' :: inside) = 1 + inside.utf8Size := rfl
      have hsize : Text.utf8Size (inside ++ '}' :: rest) =
          inside.utf8Size + (1 + rest.utf8Size) := Text.utf8Size_append _ _
      have hclosing := getElem?_size ('{' :: inside) ('}' :: rest)
      rw [List.cons_append, hbrace] at hclosing
      simp only [Scan.Closing.located, hone, Except.ok.injEq]
      cases rest with
      | nil =>
          have hn' : 1 + inside.utf8Size = n + 1 := by
            rw [hsize, Text.utf8Size] at hn
            omega
          rw [hn', hlast] at hclosing
          have hy : y = '}' := Option.some.inj hclosing
          simp [hy, hn']
      | cons c rest =>
          have hpos := Char.utf8Size_pos c
          rw [hsize, Text.utf8Size] at hn
          have hne : ¬ (1 + inside.utf8Size = n + 1) := by omega
          simp [hne]

/-- **Whether braces enclose a text** is told by its octets. -/
theorem isEnclosed?_octets (t : Text) : isEnclosed? t.octets = some (isEnclosed t) := by
  match t with
  | [] => rfl
  | c :: u =>
      by_cases hc : c = '{'
      · subst hc
        cases u with
        | nil => rfl
        | cons x u => exact isEnclosed?_brace (List.cons_ne_nil x u)
      · have hfirst := head?_octets (c :: u)
        have hlead : Text.lead c ≠ '{' := mt (Text.lead_eq_iff (by decide)).1 hc
        have hnot : isEnclosed (c :: u) = false := by
          rw [isEnclosed, enclosed?]
          · rfl
          · intro t ht
            exact hc (List.cons.inj ht).1
        rw [hnot]
        match hlength : (Text.octets (c :: u)).length with
        | 0 | 1 => rw [isEnclosed?, hlength]
        | n + 2 => exact isEnclosed?_of_ne hlength hfirst hlead

/-- **The text in braces** is found where it is. -/
theorem stripBraces_eq (t : Text) : stripBraces t = some ((enclosed? t).getD t) := by
  rw [stripBraces, isEnclosed?_octets, isEnclosed]
  cases h : enclosed? t with
  | none => rfl
  | some inside =>
      obtain rfl := enclosed?_eq_some h
      have hslice := slice?_append ['{'] inside ['}']
      have hlength : (Text.octets ('{' :: inside ++ ['}'])).length = 1 + inside.utf8Size + 1 := by
        rw [Text.length_octets]
        show 1 + Text.utf8Size (inside ++ ['}']) = _
        rw [utf8Size_snoc, Nat.add_assoc]
        rfl
      simp only [hlength]
      exact hslice

/-! ## blank lines -/

/-- **Free text without blank lines before it** begins after the last line feed of its blanks. -/
theorem trimBlankLines_eq (t : Text) : trimBlankLines t = some (Layout.trimBlankLines t) := by
  rw [trimBlankLines, Layout.trimBlankLines, find?_eq]
  simp only [Bool.not_not]
  generalize t.stripEnd = s
  have hcut := List.takeWhile_append_dropWhile (p := Unicode.isWhiteSpace) (l := s)
  generalize s.takeWhile Unicode.isWhiteSpace = blank at hcut ⊢
  generalize s.dropWhile Unicode.isWhiteSpace = rest at hcut ⊢
  subst hcut
  cases rest with
  | nil => rfl
  | cons c r =>
      simp only [List.head?_cons, Option.map_some, slice?_zero, Option.bind_eq_bind,
        Option.bind_some]
      obtain ⟨hnone, hfeed⟩ | ⟨a, x, u, rfl, hx, hu, hlast⟩ :=
        findLast?_cases (fun x => decide (x = '\n')) blank
      · have hrun : ∀ x ∈ blank.reverse, decide (x ≠ '\n') = true := fun x hx => by
          simpa using hfeed x (List.mem_reverse.1 hx)
        have hwhole := List.takeWhile_eq_self_iff.2 hrun
        rw [hnone, hwhole, List.reverse_reverse]
        exact sliceFrom?_append [] (blank ++ c :: r)
      · obtain rfl : x = '\n' := of_decide_eq_true hx
        have hrun : ∀ x ∈ u.reverse, decide (x ≠ '\n') = true := fun x hx => by
          simpa using hu x (List.mem_reverse.1 hx)
        have hreverse : (a ++ '\n' :: u).reverse = u.reverse ++ '\n' :: a.reverse := by simp
        have hline := sliceFrom?_append (a ++ ['\n']) (u ++ c :: r)
        rw [utf8Size_snoc, List.append_assoc, List.singleton_append] at hline
        rw [hlast, hreverse, List.takeWhile_append_of_pos hrun,
          List.takeWhile_cons_of_neg (by simp), List.append_nil, List.reverse_reverse,
          List.append_assoc, List.cons_append]
        exact hline

/-! ## key templates -/

section

variable {run body v r : Text} {x : Char} {offset : Nat}

theorem eq_false_of_ne (h : x ∉ s) : ∀ y ∈ s, decide (y = x) = false :=
  fun _ hy => decide_eq_false fun hyx => h (hyx ▸ hy)

theorem templateLoop_of_notMem (h : '[' ∉ s) :
    templateLoop s offset = some (.ok (KeyTemplate.literal s)) := by
  rw [templateLoop, find?_eq_none (p := (· = '[')) (eq_false_of_ne h)]

theorem templateLoop_of_unclosed (hrun : '[' ∉ run) (hv : ']' ∉ v) :
    templateLoop (run ++ '[' :: v) offset =
      some (.error (.unclosedMarker (offset + run.utf8Size))) := by
  have htail : ']' ∉ '[' :: v := by simp [hv]
  rw [templateLoop, find?_append (p := (· = '[')) (eq_false_of_ne hrun) (decide_eq_true rfl)]
  simp only [slice?_zero, sliceFrom?_append, Option.bind_eq_bind, Option.bind_some,
    find?_eq_none (p := (· = ']')) (eq_false_of_ne htail)]
  rfl

/-- A group is cut off with the run in front of it. -/
theorem templateLoop_of_closed (hrun : '[' ∉ run) (hbody : ']' ∉ body) :
    templateLoop (run ++ '[' :: (body ++ ']' :: r)) offset =
      match KeyTemplate.group (offset + run.utf8Size) body with
      | .error e => some (.error e)
      | .ok part => (templateLoop r (offset + run.utf8Size + body.utf8Size + 2)).map fun rest =>
          rest.map (KeyTemplate.literal run ++ part :: ·) := by
  have htail : ']' ∉ '[' :: body := by simp [hbody]
  have hopening := find?_append (p := (· = '[')) (eq_false_of_ne hrun) (decide_eq_true rfl)
    (body ++ ']' :: r)
  have hclosing := find?_append (p := (· = ']')) (eq_false_of_ne htail) (decide_eq_true rfl) r
  have hinside := slice?_append (run ++ ['[']) body (']' :: r)
  have hnext := sliceFrom?_append (run ++ '[' :: (body ++ [']'])) r
  have hopen : Text.utf8Size (run ++ ['[']) = run.utf8Size + 1 := utf8Size_snoc run '['
  have hsize : Text.utf8Size ('[' :: body) = 1 + body.utf8Size := rfl
  have hwhole : Text.utf8Size (run ++ '[' :: (body ++ [']'])) =
      run.utf8Size + (1 + body.utf8Size) + 1 := by
    rw [Text.utf8Size_append, ← List.cons_append, utf8Size_snoc, hsize, Nat.add_assoc]
    rfl
  have hoffset : offset + (run.utf8Size + (1 + body.utf8Size) + 1) =
      offset + run.utf8Size + body.utf8Size + 2 := by omega
  rw [hopen, Nat.add_assoc] at hinside
  rw [hwhole] at hnext
  simp only [List.append_assoc, List.cons_append, List.nil_append] at hclosing hinside hnext
  rw [templateLoop, hopening]
  simp only [slice?_zero, sliceFrom?_append, Option.bind_eq_bind, Option.bind_some, hclosing, hsize,
    hinside, hoffset]
  cases KeyTemplate.group (offset + run.utf8Size) body with
  | error e => rfl
  | ok part =>
      dsimp only
      split
      · next hnone =>
        rw [hnext] at hnone
        cases hnone
      · next r' hsome =>
        obtain rfl := Option.some.inj (hnext.symm.trans hsome)
        cases templateLoop r (offset + run.utf8Size + body.utf8Size + 2) with
        | none => rfl
        | some rest => cases rest <;> rfl

/-- **A template** is read group by group. -/
theorem templateLoop_eq (s : Text) (offset : Nat) :
    templateLoop s offset = some (KeyTemplate.parseFrom offset s) := by
  induction hn : s.length using Nat.strongRecOn generalizing s offset with
  | ind n ih =>
      subst hn
      by_cases hopen : '[' ∈ s
      · obtain ⟨run, v, rfl, hrun⟩ := List.eq_append_cons_of_mem hopen
        by_cases hclose : ']' ∈ v
        · obtain ⟨body, r, rfl, hbody⟩ := List.eq_append_cons_of_mem hclose
          have hlt : r.length < (run ++ '[' :: (body ++ ']' :: r)).length := by
            simp only [List.length_append, List.length_cons]
            omega
          rw [templateLoop_of_closed hrun hbody, KeyTemplate.parseFrom_of_closed hrun hbody,
            ih r.length hlt r _ rfl]
          cases KeyTemplate.group (offset + Text.utf8Size run) body <;> rfl
        · rw [templateLoop_of_unclosed hrun hclose, KeyTemplate.parseFrom_of_unclosed hrun hclose]
      · rw [templateLoop_of_notMem hopen, KeyTemplate.parseFrom_of_not_mem hopen]

end

/-- **Reading a template by offsets** is reading it. -/
theorem template_eq (s : Text) : template s = some (KeyTemplate.parse s) := templateLoop_eq s 0

end Bibliography.Offset
