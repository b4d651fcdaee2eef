import Mathlib.Order.Lattice

/-!
# Patches of a pair of bounds

A record with two optional bounds is patched: a patch names a bound, clears it or leaves it alone. It
was checked when the bounds were the ones its author had read, and by the floor of what it names, while
what is stored is rounded. Such a patch keeps the bounds in order exactly if it is not overtaken, as the
one that names a single bound is when the other has changed since and lies on the wrong side of it now,
and does not round its lower bound past the upper one (`inOrder_patched_iff`).
-/

namespace Bounds

variable {α β : Type*} [LinearOrder β]

/-- The bounds are in order, as far as they are there. -/
def InOrder (lower upper : Option β) : Prop := ∀ a ∈ lower, ∀ b ∈ upper, a ≤ b

/-- A value is rounded to its floor or to the next value above. -/
structure Rounding (floor round : α → β) : Prop where
  floor_le : ∀ a, floor a ≤ round a
  round_le : ∀ a b, floor a < b → round a ≤ b

/-- A bound as its author checks it: a bound that is cleared is taken for one that is not named. -/
def checked (floor : α → β) (patch : Option (Option α)) (read : Option β) : Option β := (patch.join.map floor).or read

/-- A bound as it is stored. -/
def patched (round : α → β) (patch : Option (Option α)) (stored : Option β) : Option β :=
  patch.elim stored (·.map round)

/-- The patch names one bound, and the other one is no longer what was read, and wrong for it. -/
inductive Overtaken (round : α → β) (readLower readUpper lower upper : Option β) :
    Option (Option α) → Option (Option α) → Prop where
  | lower {a : α} {b : β} (hupper : upper = some b) (hchanged : readUpper ≠ upper) (hwrong : b < round a) :
      Overtaken round readLower readUpper lower upper (some (some a)) none
  | upper {a : β} {b : α} (hlower : lower = some a) (hchanged : readLower ≠ lower) (hwrong : round b < a) :
      Overtaken round readLower readUpper lower upper none (some (some b))

/-- The patch names a lower bound that is rounded up, and the upper bound is the floor of it: the one
that is stored, or the one that is named with it, rounded down. -/
inductive RoundedPast (floor round : α → β) (upper : Option β) : Option (Option α) → Option (Option α) → Prop where
  | stored {a : α} (hup : round a ≠ floor a) (hupper : upper = some (floor a)) :
      RoundedPast floor round upper (some (some a)) none
  | named {a b : α} (hup : round a ≠ floor a) (hdown : round b = floor b) (hsame : floor b = floor a) :
      RoundedPast floor round upper (some (some a)) (some (some b))

variable {floor round : α → β} {readLower readUpper lower upper : Option β} {newLower newUpper : Option (Option α)}

theorem inOrder_some {a b : β} : InOrder (some a) (some b) ↔ a ≤ b :=
  ⟨fun h => h a rfl b rfl, fun h a' ha b' hb => by rwa [← Option.some.inj ha, ← Option.some.inj hb]⟩

theorem inOrder_none_left : InOrder none upper := fun _ ha => by cases ha

theorem inOrder_none_right : InOrder lower none := fun _ _ _ hb => by cases hb

/-! ### Rounding a bound that was checked -/

namespace Rounding

theorem floor_lt_round (h : Rounding floor round) {a : α} (hup : round a ≠ floor a) : floor a < round a :=
  lt_of_le_of_ne (h.floor_le a) hup.symm

/-- A lower bound that was in order stays so unless it is rounded up from the upper one. -/
theorem round_le_iff (h : Rounding floor round) {a : α} {b : β} (hread : floor a ≤ b) :
    round a ≤ b ↔ ¬(round a ≠ floor a ∧ b = floor a) := by
  constructor
  · rintro hle ⟨hup, rfl⟩
    exact absurd (h.floor_lt_round hup) (not_lt.mpr hle)
  · intro hnot
    rcases hread.lt_or_eq with hlt | heq
    · exact h.round_le a b hlt
    · have hdown : round a = floor a := by
        by_contra hup
        exact hnot ⟨hup, heq.symm⟩
      rw [hdown, heq]

/-- Two bounds that were in order are rounded in order unless they have one floor and part there. -/
theorem round_le_round_iff (h : Rounding floor round) {a b : α} (hread : floor a ≤ floor b) :
    round a ≤ round b ↔ ¬(round a ≠ floor a ∧ round b = floor b ∧ floor b = floor a) := by
  constructor
  · rintro hle ⟨hup, hdown, hsame⟩
    rw [hdown, hsame] at hle
    exact absurd (h.floor_lt_round hup) (not_lt.mpr hle)
  · intro hnot
    by_cases hdown : round b = floor b
    · rw [hdown, h.round_le_iff hread]
      exact fun ⟨hup, hsame⟩ => hnot ⟨hup, hdown, hsame⟩
    · exact h.round_le a _ (hread.trans_lt (h.floor_lt_round hdown))

end Rounding

/-! ### Patches -/

/-- A patch of the lower bound alone. -/
theorem inOrder_lower_iff (hround : Rounding floor round) {a : α} (hread : InOrder (some (floor a)) readUpper) :
    InOrder (some (round a)) upper ↔
      ¬Overtaken round readLower readUpper lower upper (some (some a)) none ∧
        ¬RoundedPast floor round upper (some (some a)) none := by
  constructor
  · refine fun h => ⟨fun hovertaken => ?_, fun hpast => ?_⟩
    · cases hovertaken with
      | lower hupper hchanged hwrong => exact not_le.mpr hwrong (h _ rfl _ hupper)
    · cases hpast with
      | stored hup hupper => exact not_le.mpr (hround.floor_lt_round hup) (h _ rfl _ hupper)
  · rintro ⟨hovertaken, hpast⟩ a' ha b hb
    cases ha
    by_contra hwrong
    by_cases hsame : readUpper = upper
    · refine hwrong ((hround.round_le_iff (hread _ rfl b (hsame ▸ hb))).mpr fun ⟨hup, heq⟩ => hpast ?_)
      exact .stored hup (heq ▸ hb)
    · exact hovertaken (.lower hb hsame (not_le.mp hwrong))

/-- A patch of the upper bound alone. -/
theorem inOrder_upper_iff (hround : Rounding floor round) {b : α} (hread : InOrder readLower (some (floor b))) :
    InOrder lower (some (round b)) ↔ ¬Overtaken round readLower readUpper lower upper none (some (some b)) := by
  constructor
  · intro h hovertaken
    cases hovertaken with
    | upper hlower hchanged hwrong => exact not_le.mpr hwrong (h _ hlower _ rfl)
  · intro hovertaken a ha b' hb
    cases hb
    by_contra hwrong
    refine hovertaken (.upper ha (fun hsame => hwrong ?_) (not_le.mp hwrong))
    exact (hread a (hsame ▸ ha) _ rfl).trans (hround.floor_le b)

/-- A patch of both bounds. -/
theorem inOrder_both_iff (hround : Rounding floor round) {a b : α} (hread : floor a ≤ floor b) :
    InOrder (some (round a)) (some (round b)) ↔ ¬RoundedPast floor round upper (some (some a)) (some (some b)) := by
  rw [inOrder_some, hround.round_le_round_iff hread, not_iff_not]
  constructor
  · exact fun ⟨hup, hdown, hsame⟩ => .named hup hdown hsame
  · intro hpast
    cases hpast with
    | named hup hdown hsame => exact ⟨hup, hdown, hsame⟩

/-- A patch that is in order with what its author read, of bounds that are in order. -/
theorem inOrder_patched_iff (hround : Rounding floor round)
    (hread : InOrder (checked floor newLower readLower) (checked floor newUpper readUpper)) (hstored : InOrder lower upper) :
    InOrder (patched round newLower lower) (patched round newUpper upper) ↔
      ¬Overtaken round readLower readUpper lower upper newLower newUpper ∧
        ¬RoundedPast floor round upper newLower newUpper := by
  rcases newLower with _ | _ | a
  · rcases newUpper with _ | _ | b
    · refine iff_of_true hstored ⟨fun h => ?_, fun h => ?_⟩ <;> cases h
    · refine iff_of_true inOrder_none_right ⟨fun h => ?_, fun h => ?_⟩ <;> cases h
    · refine (inOrder_upper_iff hround hread).trans (and_iff_left fun h => ?_).symm
      cases h
  · refine iff_of_true inOrder_none_left ⟨fun h => ?_, fun h => ?_⟩ <;> cases h
  · rcases newUpper with _ | _ | b
    · exact inOrder_lower_iff hround hread
    · refine iff_of_true inOrder_none_right ⟨fun h => ?_, fun h => ?_⟩ <;> cases h
    · refine (inOrder_both_iff hround (inOrder_some.mp hread)).trans (and_iff_right fun h => ?_).symm
      cases h

/-- Bounds that are named for a record that has none yet. -/
theorem inOrder_named_iff (hround : Rounding floor round) {first last : Option α}
    (hread : InOrder (first.map floor) (last.map floor)) :
    InOrder (first.map round) (last.map round) ↔ ¬RoundedPast floor round none (some first) (some last) := by
  rcases first with _ | a
  · refine iff_of_true inOrder_none_left fun h => ?_
    cases h
  · rcases last with _ | b
    · refine iff_of_true inOrder_none_right fun h => ?_
      cases h
    · exact inOrder_both_iff hround (inOrder_some.mp hread)

end Bounds
