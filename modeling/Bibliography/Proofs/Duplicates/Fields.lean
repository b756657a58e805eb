import Bibliography.Proofs.Tidy.Changes

/-!
# Bibliography.Proofs.Duplicates.Fields

The fields of an entry that took up others, one after the other, into a list that
grows.  In the end there are the fields that the entry had, and after them the
first field of each new name (`Entry.fresh`).  Where values are overwritten, the
first field of a name has the value of the last that was taken up
(`Entry.overwritten`).

Changes are told field by field.  So an entry is told to have changed also if its
fields are in the end what they were (`Entry.IsRestored`).

* `Entry.fst_absorbAll` — the fields in the end;
* `Entry.snd_absorbAll_iff` — whether a change is told.
-/

namespace Bibliography

namespace Field

/-- Two fields have one name, up to case folding. -/
theorem isNamed_comm (f g : Field) : f.isNamed g.name = g.isNamed f.name :=
  Text.eqIgnoreCase_comm f.name g.name

theorem isNamed_congr {f g : Field} (h : f.isNamed g.name = true) (name : Text) :
    f.isNamed name = g.isNamed name := by
  have hfold : Text.caseFold f.name = Text.caseFold g.name := by
    simpa [isNamed, Text.eqIgnoreCase] using h
  unfold isNamed Text.eqIgnoreCase
  rw [hfold]

theorem isNamed_congr_right {f g : Field} (h : f.isNamed g.name = true) (k : Field) :
    k.isNamed f.name = k.isNamed g.name := by
  rw [isNamed_comm, isNamed_congr h, isNamed_comm]

end Field

/-! ## fields that are taken up -/

namespace Entry

variable {overwrite : Bool} {f g : Field} {fs gs incoming : List Field} {name : Text}

/-- The fields whose names a list lacks: the first of each name, in their order. -/
def fresh (fs incoming : List Field) : List Field :=
  (incoming.filter fun f => fs.all fun g => !g.isNamed f.name).eraseDupsBy fun f g =>
    f.isNamed g.name

/-- The value of the last field of a name. -/
def lastValue? (name : Text) (incoming : List Field) : Option Value :=
  (incoming.filter (·.isNamed name)).getLast?.map Field.value

/-- A field with the value of the last of its name, if there is one. -/
def revalue (incoming : List Field) (f : Field) : Field :=
  { f with value := (lastValue? f.name incoming).getD f.value }

/-- Fields of which the first of each name has the value of the last of that name. -/
def overwritten (incoming fs : List Field) : List Field :=
  fs.mapIdx fun k f => if (fs.take k).any (·.isNamed f.name) then f else revalue incoming f

/-- The fields of new names come after one field. -/
theorem fresh_cons (g : Field) (gs incoming : List Field) :
    fresh (g :: gs) incoming = fresh gs (incoming.filter fun f => !g.isNamed f.name) := by
  unfold fresh
  rw [List.filter_filter]
  congr 2
  funext f
  rw [List.all_cons, Bool.and_comm]

theorem fresh_nil_cons (f : Field) (incoming : List Field) :
    fresh [] (f :: incoming) = f :: fresh [] (incoming.filter fun g => !f.isNamed g.name) := by
  have hall (incoming : List Field) :
      (incoming.filter fun f => ([] : List Field).all fun g => !g.isNamed f.name) = incoming :=
    List.filter_eq_self.2 fun _ _ => rfl
  unfold fresh
  rw [hall, hall, List.eraseDupsBy_cons]
  congr 3
  funext g
  rw [Field.isNamed_comm]
  cases f.isNamed g.name <;> rfl

theorem lastValue?_cons (name : Text) (f : Field) (incoming : List Field) :
    lastValue? name (f :: incoming) =
      if f.isNamed name then some ((lastValue? name incoming).getD f.value)
      else lastValue? name incoming := by
  unfold lastValue?
  rw [List.filter_cons]
  split
  · rw [List.getLast?_cons, Option.map_some, Option.getD_map]
  · rfl

theorem lastValue?_eq_none_iff :
    lastValue? name incoming = none ↔ ∀ f ∈ incoming, f.isNamed name = false := by
  unfold lastValue?
  simp

theorem lastValue?_congr (h : f.isNamed g.name = true) (incoming : List Field) :
    lastValue? f.name incoming = lastValue? g.name incoming := by
  unfold lastValue?
  rw [List.filter_congr fun k _ => Field.isNamed_congr_right h k]

/-- Fields of another name have no say in the last value of a name. -/
theorem lastValue?_filter (h : g.isNamed f.name = false) (incoming : List Field) :
    lastValue? f.name (incoming.filter fun k => !g.isNamed k.name) =
      lastValue? f.name incoming := by
  unfold lastValue?
  rw [List.filter_filter]
  congr 2
  refine List.filter_congr fun k _ => ?_
  cases hk : k.isNamed f.name with
  | false => rfl
  | true => rw [Field.isNamed_congr_right hk, h]; rfl

/-- Of a list that begins with a field, the rest is not concerned with fields of its name. -/
theorem overwritten_cons (incoming : List Field) (g : Field) (gs : List Field) :
    overwritten incoming (g :: gs) =
      revalue incoming g :: overwritten (incoming.filter fun f => !g.isNamed f.name) gs := by
  unfold overwritten
  rw [List.mapIdx_cons]
  congr 1
  refine List.mapIdx_eq_mapIdx_iff.2 fun k hk => ?_
  rw [List.take_succ_cons, List.any_cons]
  generalize gs[k] = f
  cases hg : g.isNamed f.name with
  | true =>
      have hnone : lastValue? f.name (incoming.filter fun f => !g.isNamed f.name) = none := by
        refine lastValue?_eq_none_iff.2 fun k hk => Bool.eq_false_iff.2 fun hkf => ?_
        have hgk := Field.isNamed_congr_right hkf g
        simp [hgk, hg] at hk
      simp [revalue, hnone]
  | false => simp [revalue, lastValue?_filter hg]

/-- **One field of an entry** after all fields were taken up, and the fields after it. -/
theorem fst_absorbAll_cons (overwrite : Bool) (incoming : List Field) (g : Field)
    (gs : List Field) :
    (absorbAll overwrite incoming (g :: gs)).1 =
      (if overwrite then revalue incoming g else g) ::
        (absorbAll overwrite (incoming.filter fun f => !g.isNamed f.name) gs).1 := by
  induction incoming generalizing g gs with
  | nil => cases overwrite <;> rfl
  | cons f incoming ih =>
      rw [absorbAll_cons, absorb]
      cases hg : g.isNamed f.name with
      | true =>
          have hf : f.isNamed g.name = true := (Field.isNamed_comm f g).trans hg
          cases overwrite with
          | false => simp [ih, hg]
          | true =>
              have hname (k : Text) :
                  Field.isNamed { g with value := f.value } k = g.isNamed k := rfl
              simp [ih, hg, hname, revalue, lastValue?_cons, hf]
      | false =>
          have hf : f.isNamed g.name = false := (Field.isNamed_comm f g).trans hg
          simp [ih, hg, revalue, lastValue?_cons, hf, absorbAll_cons overwrite f]

theorem fst_absorbAll_nil_cons (overwrite : Bool) (f : Field) (incoming : List Field) :
    (absorbAll overwrite (f :: incoming) []).1 =
      (if overwrite then revalue (f :: incoming) f else f) ::
        (absorbAll overwrite (incoming.filter fun g => !f.isNamed g.name) []).1 := by
  have hself : f.isNamed f.name = true := Text.eqIgnoreCase_refl f.name
  have hlast : revalue (f :: incoming) f = revalue incoming f := by
    simp [revalue, lastValue?_cons, hself]
  rw [absorbAll_cons, absorb, fst_absorbAll_cons, hlast]

/-- An entry without fields takes up the first field of each name. -/
theorem fst_absorbAll_nil (overwrite : Bool) (incoming : List Field) :
    (absorbAll overwrite incoming []).1 =
      if overwrite then overwritten incoming (fresh [] incoming) else fresh [] incoming := by
  -- The fields of the name of the first are dropped, so the induction is on the length.
  induction hn : incoming.length using Nat.strong_induction_on generalizing incoming with
  | _ n ih =>
    cases incoming with
    | nil => cases overwrite <;> rfl
    | cons f incoming =>
        have hlength : (incoming.filter fun g => !f.isNamed g.name).length < n := by
          have := List.length_filter_le (fun g => !f.isNamed g.name) incoming
          rw [List.length_cons] at hn
          omega
        have hself : f.isNamed f.name = true := Text.eqIgnoreCase_refl f.name
        have hfilter : ((f :: incoming).filter fun g => !f.isNamed g.name) =
            incoming.filter fun g => !f.isNamed g.name := List.filter_cons_of_neg (by simp [hself])
        rw [fst_absorbAll_nil_cons, ih _ hlength _ rfl, fresh_nil_cons, overwritten_cons, hfilter]
        cases overwrite <;> rfl

/-- **The fields of an entry** after it has taken up others. -/
theorem fst_absorbAll (overwrite : Bool) (incoming fs : List Field) :
    (absorbAll overwrite incoming fs).1 =
      if overwrite then overwritten incoming (fs ++ fresh fs incoming)
      else fs ++ fresh fs incoming := by
  induction fs generalizing incoming with
  | nil => exact fst_absorbAll_nil overwrite incoming
  | cons g gs ih =>
      rw [fst_absorbAll_cons, ih, fresh_cons, List.cons_append, overwritten_cons]
      cases overwrite <;> rfl

/-! ## whether an entry changes -/

/-- A field is no change if there is one of its name, which has its value where it would be
overwritten. -/
theorem snd_absorb_eq_false_iff :
    (absorb overwrite f fs).2 = false ↔
      ∃ g ∈ fs.find? (·.isNamed f.name), overwrite = true → g.value = f.value := by
  induction fs with
  | nil => simp [absorb]
  | cons g fs ih =>
      rw [absorb, List.find?_cons]
      cases g.isNamed f.name with
      | true => cases overwrite <;> simp
      | false => simpa using ih

theorem snd_absorbAll_eq_false_iff :
    (absorbAll overwrite incoming fs).2 = false ↔
      ∀ f ∈ incoming, ∃ g ∈ fs.find? (·.isNamed f.name), overwrite = true → g.value = f.value := by
  induction incoming with
  | nil => exact iff_of_true rfl (by simp)
  | cons f incoming ih =>
      rw [absorbAll_cons, Bool.or_eq_false_iff, List.forall_mem_cons, ← snd_absorb_eq_false_iff]
      refine and_congr_right fun hfirst => ?_
      rw [isHonest_absorb overwrite f fs hfirst, ih]

/-- **An entry has in the end the fields that it had** if it has a field of each name, with the last
value where it would be overwritten. -/
theorem fst_absorbAll_eq_self_iff :
    (absorbAll overwrite incoming fs).1 = fs ↔
      ∀ f ∈ incoming, ∃ g ∈ fs.find? (·.isNamed f.name),
        overwrite = true → lastValue? f.name incoming = some g.value := by
  induction fs generalizing incoming with
  | nil =>
      cases incoming with
      | nil => exact iff_of_true rfl (by simp)
      | cons f incoming =>
          refine iff_of_false (by simp [fst_absorbAll_nil_cons]) fun h => ?_
          obtain ⟨g, hg, -⟩ := h f List.mem_cons_self
          cases hg
  | cons g gs ih =>
      rw [fst_absorbAll_cons, List.cons.injEq, ih]
      constructor
      · rintro ⟨hg, hgs⟩ f hf
        rw [List.find?_cons]
        cases hnamed : g.isNamed f.name with
        | false =>
            obtain ⟨k, hk, hlast⟩ := hgs f (List.mem_filter.2 ⟨hf, by simp [hnamed]⟩)
            exact ⟨k, hk, fun hoverwrite => lastValue?_filter hnamed incoming ▸ hlast hoverwrite⟩
        | true =>
            refine ⟨g, rfl, fun hoverwrite => ?_⟩
            have hvalue : (lastValue? g.name incoming).getD g.value = g.value := by
              simpa [hoverwrite, revalue] using congrArg Field.value hg
            cases hlast : lastValue? g.name incoming with
            | none =>
                have := lastValue?_eq_none_iff.1 hlast f hf
                rw [Field.isNamed_comm, hnamed] at this
                cases this
            | some v => rw [← lastValue?_congr hnamed, hlast, ← hvalue, hlast]; rfl
      · intro h
        constructor
        · cases overwrite with
          | false => rfl
          | true =>
              cases hlast : lastValue? g.name incoming with
              | none => simp [revalue, hlast]
              | some v =>
                  obtain ⟨f, hf, hnamed⟩ : ∃ f ∈ incoming, f.isNamed g.name = true := by
                    by_contra! hnone
                    rw [lastValue?_eq_none_iff.2 fun f hf => by simpa using hnone f hf] at hlast
                    cases hlast
                  obtain ⟨k, hk, hvalue⟩ := h f hf
                  rw [List.find?_cons_of_pos (Field.isNamed_comm f g ▸ hnamed)] at hk
                  obtain rfl := Option.some.inj hk
                  simp [revalue, ← lastValue?_congr hnamed, hvalue rfl]
        · intro f hf
          obtain ⟨hf, hnamed⟩ := List.mem_filter.1 hf
          have hnamed : g.isNamed f.name = false := by simpa using hnamed
          obtain ⟨k, hk, hlast⟩ := h f hf
          rw [List.find?_cons_of_neg (by simp [hnamed])] at hk
          refine ⟨k, hk, fun hoverwrite => ?_⟩
          exact (lastValue?_filter hnamed incoming).trans (hlast hoverwrite)

/-- Values are overwritten with others, and in the end with those that were there before. -/
def IsRestored (incoming fs : List Field) : Prop :=
  (∀ f ∈ incoming, ∃ g ∈ fs.find? (·.isNamed f.name), lastValue? f.name incoming = some g.value) ∧
    ∃ f ∈ incoming, ∃ g ∈ fs.find? (·.isNamed f.name), g.value ≠ f.value

/-- **A change is told** if the fields are others in the end, or values were restored. -/
theorem snd_absorbAll_iff :
    (absorbAll overwrite incoming fs).2 = true ↔
      (absorbAll overwrite incoming fs).1 ≠ fs ∨ overwrite = true ∧ IsRestored incoming fs := by
  by_cases hsame : (absorbAll overwrite incoming fs).1 = fs
  · have hfields := fst_absorbAll_eq_self_iff.1 hsame
    rw [← Bool.not_eq_false, snd_absorbAll_eq_false_iff]
    simp only [hsame, ne_eq, not_true_eq_false, false_or]
    cases overwrite with
    | false => simpa using hfields
    | true =>
        have hfields := by simpa using hfields
        unfold IsRestored
        rw [and_iff_right (by simp), and_iff_right (by simpa using hfields)]
        push Not
        refine exists_congr fun f => and_congr_right fun hf => ?_
        obtain ⟨g, hg, -⟩ := hfields f hf
        simp [hg]
  · refine iff_of_true ?_ (.inl hsame)
    by_contra hchanged
    exact hsame (isHonest_absorbAll overwrite incoming fs (by simpa using hchanged))

end Entry

end Bibliography
