import SketchPrep.Diagnosis.Pattern

/-!
What patterns match, apart from how they are searched for. Main statements: `occursIn_iff` and
`endsText_iff`, the search finds a part that matches whenever there is one.
-/

namespace SketchPrep.Pattern

/-- The whole text has the shape of the pattern. -/
inductive Matches : Pattern → Text → Prop
  | empty : Matches .empty []
  | set {s : CharSet} {c : Char} (h : s.has c) : Matches (.set s) [c]
  | append {p q : Pattern} {a b : Text} (hp : Matches p a) (hq : Matches q b) :
    Matches (.append p q) (a ++ b)
  | left {p q : Pattern} {a : Text} (h : Matches p a) : Matches (.either p q) a
  | right {p q : Pattern} {a : Text} (h : Matches q a) : Matches (.either p q) a
  | none {p : Pattern} : Matches (.many p) []
  | more {p : Pattern} {a b : Text} (first : Matches p a) (rest : Matches (.many p) b) :
    Matches (.many p) (a ++ b)

variable {p q : Pattern} {c : Char} {cs : Text}

theorem matches_append_iff : Matches (.append p q) cs ↔
    ∃ a b, cs = a ++ b ∧ Matches p a ∧ Matches q b := by
  constructor
  · intro h
    cases h with
    | append hp hq => exact ⟨_, _, rfl, hp, hq⟩
  · rintro ⟨a, b, rfl, hp, hq⟩
    exact .append hp hq

theorem matches_either_iff : Matches (.either p q) cs ↔ Matches p cs ∨ Matches q cs := by
  constructor
  · intro h
    cases h with
    | left h => exact .inl h
    | right h => exact .inr h
  · rintro (h | h)
    · exact .left h
    · exact .right h

theorem eq_of_matches_one {a : Text} (h : Matches (one c) a) : a = [c] := by
  cases h with
  | @set s d has =>
    have inside : c ≤ d ∧ d ≤ c := by simpa [CharSet.has, CharSet.Part.has, char] using has
    rw [Char.le_antisymm inside.2 inside.1]

theorem eq_of_matches_inOrder {a : Text} (h : Matches (inOrder (cs.map one)) a) : a = cs := by
  induction cs generalizing a with
  | nil =>
    cases h
    rfl
  | cons c cs ih =>
    cases cs with
    | nil => exact eq_of_matches_one h
    | cons d cs =>
      obtain ⟨x, y, rfl, hx, hy⟩ := matches_append_iff.1 h
      rw [eq_of_matches_one hx, ih hy]
      rfl

theorem nullable_iff : nullable p ↔ Matches p [] := by
  induction p with
  | empty => exact iff_of_true rfl .empty
  | set s =>
    refine iff_of_false Bool.false_ne_true fun h => ?_
    cases h
  | append p q ihp ihq =>
    rw [nullable, Bool.and_eq_true, ihp, ihq, matches_append_iff]
    constructor
    · rintro ⟨hp, hq⟩
      exact ⟨[], [], rfl, hp, hq⟩
    · rintro ⟨a, b, nothing, hp, hq⟩
      obtain ⟨rfl, rfl⟩ := List.append_eq_nil_iff.1 nothing.symm
      exact ⟨hp, hq⟩
  | either p q ihp ihq => rw [nullable, Bool.or_eq_true, ihp, ihq, matches_either_iff]
  | many p => exact iff_of_true rfl .none

theorem matches_andThen_iff : Matches (p.andThen q) cs ↔
    ∃ a b, cs = a ++ b ∧ Matches p a ∧ Matches q b := by
  cases p with
  | empty =>
    constructor
    · intro h
      exact ⟨[], cs, rfl, .empty, h⟩
    · rintro ⟨a, b, rfl, hp, hq⟩
      cases hp
      exact hq
  | _ => exact matches_append_iff

/-- A repetition that matches something has a first part that is not empty. -/
theorem exists_of_many (h : Matches (.many p) (c :: cs)) :
    ∃ a b, cs = a ++ b ∧ Matches p (c :: a) ∧ Matches (.many p) b := by
  generalize hr : Pattern.many p = r at h
  generalize hw : c :: cs = w at h
  induction h with
  | @more p' a b first rest _ ih =>
    obtain rfl := Pattern.many.inj hr
    cases a with
    | nil => exact ih rfl hw
    | cons d a =>
      obtain ⟨rfl, rfl⟩ := List.cons.inj hw
      exact ⟨a, b, rfl, first, rest⟩
  | none => cases hw
  | _ => cases hr

theorem matches_cons_iff : Matches p (c :: cs) ↔ ∃ q ∈ derive c p, Matches q cs := by
  induction p generalizing cs with
  | empty =>
    refine iff_of_false (fun h => ?_) (by simp [derive])
    cases h
  | set s =>
    rw [derive]
    constructor
    · intro h
      cases h with
      | set has => exact ⟨.empty, by simp [has], .empty⟩
    · rintro ⟨q, hq, h⟩
      split at hq
      · obtain rfl := List.mem_singleton.1 hq
        cases h
        exact .set ‹_›
      · cases hq
  | append p q ihp ihq =>
    rw [matches_append_iff, derive]
    constructor
    · rintro ⟨a, b, whole, hp, hq⟩
      cases a with
      | nil =>
        rw [List.nil_append] at whole
        obtain ⟨r, hr, h⟩ := ihq.1 (whole ▸ hq)
        exact ⟨r, List.mem_append_right _ (by rwa [if_pos (nullable_iff.2 hp)]), h⟩
      | cons d a =>
        obtain ⟨rfl, rfl⟩ := List.cons.inj whole
        obtain ⟨r, hr, h⟩ := ihp.1 hp
        exact ⟨r.andThen q, List.mem_append_left _ (List.mem_map_of_mem hr),
          matches_andThen_iff.2 ⟨a, b, rfl, h, hq⟩⟩
    · rintro ⟨r, hr, h⟩
      rcases List.mem_append.1 hr with hr | hr
      · obtain ⟨p', hp', rfl⟩ := List.mem_map.1 hr
        obtain ⟨a, b, rfl, ha, hb⟩ := matches_andThen_iff.1 h
        exact ⟨c :: a, b, rfl, ihp.2 ⟨p', hp', ha⟩, hb⟩
      · split at hr
        · exact ⟨[], c :: cs, rfl, nullable_iff.1 ‹_›, ihq.2 ⟨r, hr, h⟩⟩
        · cases hr
  | either p q ihp ihq =>
    rw [matches_either_iff, ihp, ihq, derive]
    simp only [List.mem_append, or_and_right, exists_or]
  | many p ih =>
    rw [derive]
    constructor
    · intro h
      obtain ⟨a, b, rfl, first, rest⟩ := exists_of_many h
      obtain ⟨r, hr, hra⟩ := ih.1 first
      exact ⟨r.andThen (.many p), List.mem_map_of_mem hr,
        matches_andThen_iff.2 ⟨a, b, rfl, hra, rest⟩⟩
    · rintro ⟨r, hr, h⟩
      obtain ⟨p', hp', rfl⟩ := List.mem_map.1 hr
      obtain ⟨a, b, rfl, ha, hb⟩ := matches_andThen_iff.1 h
      exact .more (ih.2 ⟨p', hp', ha⟩) hb

/-! ### Searching -/

/-- Some state goes on to a part that may end where `isEnd` says, or the pattern has one that begins
further on. -/
theorem searchFrom_iff (toEnd : Bool) (states : List Pattern) (cs : Text) :
    searchFrom p toEnd states cs ↔
      (∃ q ∈ states, ∃ a b, cs = a ++ b ∧ (toEnd → b = []) ∧ Matches q a) ∨
        ∃ c front a b, cs = c :: (front ++ a ++ b) ∧ (toEnd → b = []) ∧ Matches p a := by
  induction cs generalizing states with
  | nil =>
    rw [searchFrom, List.any_eq_true]
    constructor
    · rintro ⟨q, hq, h⟩
      exact .inl ⟨q, hq, [], [], rfl, fun _ => rfl, nullable_iff.1 h⟩
    · rintro (⟨q, hq, a, b, nothing, -, h⟩ | ⟨c, front, a, b, nothing, -⟩)
      · obtain ⟨rfl, rfl⟩ := List.append_eq_nil_iff.1 nothing.symm
        exact ⟨q, hq, nullable_iff.2 h⟩
      · cases nothing
  | cons c cs ih =>
    rw [searchFrom, Bool.or_eq_true, ih, Bool.and_eq_true, List.any_eq_true]
    simp only [List.mem_eraseDups, List.mem_cons, List.mem_flatMap]
    constructor
    · rintro (⟨early, q, hq, h⟩ | ⟨r, rfl | ⟨q, hq, hr⟩, a, b, rfl, last, h⟩ |
        ⟨d, front, a, b, rfl, last, h⟩)
      · exact .inl ⟨q, hq, [], c :: cs, rfl, by simpa using early, nullable_iff.1 h⟩
      · exact .inr ⟨c, [], a, b, rfl, last, h⟩
      · exact .inl ⟨q, hq, c :: a, b, rfl, last, matches_cons_iff.2 ⟨r, hr, h⟩⟩
      · exact .inr ⟨c, d :: front, a, b, rfl, last, h⟩
    · rintro (⟨q, hq, a, b, whole, last, h⟩ | ⟨d, front, a, b, whole, last, h⟩)
      · cases a with
        | nil =>
          cases toEnd with
          | true =>
            rw [last rfl] at whole
            cases whole
          | false => exact .inl ⟨rfl, q, hq, nullable_iff.2 h⟩
        | cons d a =>
          obtain ⟨rfl, rfl⟩ := List.cons.inj whole
          obtain ⟨r, hr, h⟩ := matches_cons_iff.1 h
          exact .inr (.inl ⟨r, .inr ⟨q, hq, hr⟩, a, b, rfl, last, h⟩)
      · obtain ⟨rfl, rfl⟩ := List.cons.inj whole
        cases front with
        | nil => exact .inr (.inl ⟨p, .inl rfl, a, b, rfl, last, h⟩)
        | cons d front => exact .inr (.inr ⟨d, front, a, b, rfl, last, h⟩)

theorem occursIn_iff : occursIn p cs ↔ ∃ a, a <:+: cs ∧ Matches p a := by
  rw [occursIn, searchFrom_iff]
  constructor
  · rintro (⟨q, hq, a, b, rfl, -, h⟩ | ⟨c, front, a, b, rfl, -, h⟩)
    · obtain rfl := List.mem_singleton.1 hq
      exact ⟨a, ⟨[], b, rfl⟩, h⟩
    · exact ⟨a, ⟨c :: front, b, rfl⟩, h⟩
  · rintro ⟨a, ⟨front, b, rfl⟩, h⟩
    cases front with
    | nil => exact .inl ⟨p, List.mem_singleton_self p, a, b, rfl, nofun, h⟩
    | cons c front => exact .inr ⟨c, front, a, b, rfl, nofun, h⟩

theorem endsText_iff : endsText p cs ↔ ∃ a, a <:+ cs ∧ Matches p a := by
  rw [endsText, searchFrom_iff]
  constructor
  · rintro (⟨q, hq, a, b, rfl, last, h⟩ | ⟨c, front, a, b, rfl, last, h⟩)
    · obtain rfl := List.mem_singleton.1 hq
      exact ⟨a, ⟨[], by rw [last rfl, List.append_nil]; rfl⟩, h⟩
    · exact ⟨a, ⟨c :: front, by rw [last rfl, List.append_nil]; rfl⟩, h⟩
  · rintro ⟨a, ⟨front, rfl⟩, h⟩
    cases front with
    | nil => exact .inl ⟨p, List.mem_singleton_self p, a, [], by simp, fun _ => rfl, h⟩
    | cons c front => exact .inr ⟨c, front, a, [], by simp, fun _ => rfl, h⟩

/-! ### Characters that a shape has -/

/-- Whatever matches has such a character. -/
def Needs (mark : Char → Bool) (p : Pattern) : Prop := ∀ a, Matches p a → ∃ c ∈ a, mark c

variable {mark : Char → Bool}

theorem needs_set {s : CharSet} (h : ∀ c, s.has c → mark c) : Needs mark (.set s) := by
  intro a ha
  cases ha with
  | set has => exact ⟨_, List.mem_singleton_self _, h _ has⟩

theorem needs_one (h : mark c) : Needs mark (one c) := by
  intro a ha
  obtain rfl := eq_of_matches_one ha
  exact ⟨c, List.mem_singleton_self c, h⟩

theorem needs_append_left (h : Needs mark p) : Needs mark (.append p q) := by
  intro a ha
  obtain ⟨x, y, rfl, hx, -⟩ := matches_append_iff.1 ha
  obtain ⟨c, hc, marked⟩ := h x hx
  exact ⟨c, List.mem_append_left y hc, marked⟩

theorem needs_append_right (h : Needs mark q) : Needs mark (.append p q) := by
  intro a ha
  obtain ⟨x, y, rfl, -, hy⟩ := matches_append_iff.1 ha
  obtain ⟨c, hc, marked⟩ := h y hy
  exact ⟨c, List.mem_append_right x hc, marked⟩

theorem needs_either (hp : Needs mark p) (hq : Needs mark q) : Needs mark (.either p q) :=
  fun a ha => (matches_either_iff.1 ha).elim (hp a) (hq a)

theorem needs_inOrder {ps : List Pattern} (hp : p ∈ ps) (h : Needs mark p) :
    Needs mark (inOrder ps) := by
  induction ps with
  | nil => cases hp
  | cons q ps ih =>
    rcases List.mem_cons.1 hp with rfl | hp
    · cases ps with
      | nil => exact h
      | cons => exact needs_append_left h
    · cases ps with
      | nil => cases hp
      | cons => exact needs_append_right (ih hp)

theorem Needs.not_matches {a : Text} (h : Needs mark p) (plain : ∀ c ∈ cs, mark c = false)
    (ha : a ⊆ cs) : ¬Matches p a := by
  intro hp
  obtain ⟨c, hc, marked⟩ := h a hp
  rw [plain c (ha hc)] at marked
  cases marked

theorem Needs.not_occursIn (h : Needs mark p) (plain : ∀ c ∈ cs, mark c = false) :
    occursIn p cs = false := by
  refine Bool.eq_false_iff.2 fun found => ?_
  obtain ⟨a, ha, hp⟩ := occursIn_iff.1 found
  exact h.not_matches plain ha.subset hp

theorem Needs.not_endsText (h : Needs mark p) (plain : ∀ c ∈ cs, mark c = false) :
    endsText p cs = false := by
  refine Bool.eq_false_iff.2 fun found => ?_
  obtain ⟨a, ha, hp⟩ := endsText_iff.1 found
  exact h.not_matches plain ha.subset hp

end SketchPrep.Pattern
