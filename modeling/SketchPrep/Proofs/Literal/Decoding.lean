import SketchPrep.Proofs.Literal.Escaping

/-!
How Java reads unicode escapes: a backslash with a `u` and four digits stands for a code unit,
unless an odd number of backslashes stands before it, and two units may make one character. Main
statement: `decode_translate_escapeUnicode`, an escaped text is read as the text that it was made
of.
-/

namespace SketchPrep

open Text

/-- It holds at each character of the text, with what stands before and behind it. -/
def Text.AtEach (P : Text → Char → Text → Prop) (cs : Text) : Prop :=
  ∀ a c b, cs = a ++ c :: b → P a c b

theorem Text.atEach_iff {P : Text → Char → Text → Prop} {cs : Text} :
    AtEach P cs ↔ ∀ i (h : i < cs.length), P (cs.take i) cs[i] (cs.drop (i + 1)) := by
  constructor
  · intro each i h
    exact each _ _ _ (by rw [List.getElem_cons_drop, List.take_append_drop])
  · rintro each a c b rfl
    have here := each a.length (by simp)
    rw [← List.drop_drop, List.take_left, List.drop_left] at here
    simpa using here

instance {P : Text → Char → Text → Prop} [∀ a c b, Decidable (P a c b)] (cs : Text) :
    Decidable (cs.AtEach P) :=
  decidable_of_iff _ Text.atEach_iff.symm

namespace Literal

open CharClass

/-! ### Reading escapes -/

def digitValue? (c : Char) : Option Nat :=
  if c.isDigit then some (c.toNat - 48)
  else if 'a' ≤ c ∧ c ≤ 'f' then some (c.toNat - 87)
  else if 'A' ≤ c ∧ c ≤ 'F' then some (c.toNat - 55)
  else none

/-- The code unit that four digits spell, and what stands behind them. -/
def unit? : Text → Option (Nat × Text)
  | a :: b :: c :: d :: cs => do
    let a ← digitValue? a
    let b ← digitValue? b
    let c ← digitValue? c
    let d ← digitValue? d
    return (4096 * a + 256 * b + 16 * c + d, cs)
  | _ => none

/-- An escape behind its backslash. More than one `u` may stand before the digits. -/
def escape? : Text → Option (Nat × Text)
  | 'u' :: cs =>
    match unit? cs with
    | some r => some r
    | none => escape? cs
  | _ => none

theorem exists_digits_of_unit? {cs rest : Text} {u : Nat} (h : unit? cs = some (u, rest)) :
    ∃ digits, cs = digits ++ rest ∧ (∀ d ∈ digits, (digitValue? d).isSome) ∧
      ∀ other, unit? (digits ++ other) = some (u, other) := by
  match cs, h with
  | a :: b :: c :: d :: cs, h =>
    simp only [unit?, Option.bind_eq_bind, Option.bind_eq_some_iff, Option.pure_def,
      Option.some.injEq, Prod.mk.injEq] at h
    obtain ⟨x, hx, y, hy, z, hz, w, hw, hu, rfl⟩ := h
    refine ⟨[a, b, c, d], rfl, ?_, fun other => ?_⟩
    · simp [hx, hy, hz, hw]
    · simp [unit?, hx, hy, hz, hw, hu]

theorem unit?_of_noDigit {c : Char} {cs : Text} (h : digitValue? c = none) :
    unit? (c :: cs) = none := by
  match cs with
  | [] | [_] | [_, _] => rfl
  | _ :: _ :: _ :: _ => simp [unit?, h]

/-- How an escape is read does not depend on what stands behind its digits. -/
theorem exists_letters_of_escape? {cs rest : Text} {u : Nat} (h : escape? cs = some (u, rest)) :
    ∃ letters, cs = 'u' :: letters ++ rest ∧
      (∀ d ∈ letters, d = 'u' ∨ (digitValue? d).isSome) ∧
      ∀ other, escape? ('u' :: letters ++ other) = some (u, other) := by
  fun_induction escape? cs with
  | case1 cs r hr =>
    cases h
    obtain ⟨digits, rfl, each, alike⟩ := exists_digits_of_unit? hr
    refine ⟨digits, rfl, fun d hd => .inr (each d hd), fun other => ?_⟩
    simp [escape?, alike]
  | case2 cs _ ih =>
    obtain ⟨letters, rfl, each, alike⟩ := ih h
    refine ⟨'u' :: letters, rfl, ?_, fun other => ?_⟩
    · simpa using each
    · -- no digits begin with the second `u`
      have noUnit : unit? ('u' :: (letters ++ other)) = none := unit?_of_noDigit (by decide)
      rw [List.cons_append, List.cons_append, escape?, noUnit]
      exact alike other
  | case3 => cases h

example : escape? ['u', 'u', '0', '0', 'e', '9', 'b'] = some (0xE9, ['b']) := by decide

theorem length_lt_of_escape? {cs rest : Text} {u : Nat} (h : escape? cs = some (u, rest)) :
    rest.length < cs.length := by
  obtain ⟨letters, rfl, -⟩ := exists_letters_of_escape? h
  rw [List.length_append, List.length_cons]
  omega

/-- The code units of a text behind `slashes` backslashes. A backslash begins an escape only if an
even number of backslashes stands in front of it. -/
def translateBehind (slashes : Nat) : Text → List Nat
  | [] => []
  | c :: cs =>
    if c = '\\' then
      match _h : if slashes % 2 = 0 then escape? cs else none with
      | some (u, rest) => u :: translateBehind 0 rest
      | none => units c ++ translateBehind (slashes + 1) cs
    else units c ++ translateBehind 0 cs
  termination_by cs => cs.length
  decreasing_by
    · have shorter := length_lt_of_escape? (Option.ite_none_right_eq_some.1 _h).2
      simp
      omega
    · simp
    · simp

/-- The code units of a text with its escapes read. -/
def translate (cs : Text) : List Nat := translateBehind 0 cs

/-- The text of code units, if they are one. -/
def decode : List Nat → Option Text
  | [] => some []
  | u :: us =>
    if 0xD800 ≤ u ∧ u < 0xDC00 then
      match us with
      | v :: us =>
        if 0xDC00 ≤ v ∧ v < 0xE000 then
          (decode us).map (Char.ofNat (0x10000 + 0x400 * (u - 0xD800) + (v - 0xDC00)) :: ·)
        else none
      | [] => none
    else if 0xDC00 ≤ u ∧ u < 0xE000 then none
    else (decode us).map (Char.ofNat u :: ·)

/-! ### Steps -/

section

variable {c : Char} {cs rest : Text} {n u : Nat}

theorem translateBehind_of_ne (h : c ≠ '\\') :
    translateBehind n (c :: cs) = units c ++ translateBehind 0 cs := by
  rw [translateBehind, if_neg h]

theorem translateBehind_of_escape (even : n % 2 = 0) (h : escape? cs = some (u, rest)) :
    translateBehind n ('\\' :: cs) = u :: translateBehind 0 rest := by
  rw [translateBehind, if_pos rfl]
  split
  · next r k hr =>
    rw [if_pos even, h] at hr
    cases hr
    rfl
  · next none =>
    rw [if_pos even, h] at none
    cases none

theorem translateBehind_of_noEscape (h : n % 2 = 0 → escape? cs = none) :
    translateBehind n ('\\' :: cs) = units '\\' ++ translateBehind (n + 1) cs := by
  rw [translateBehind, if_pos rfl]
  split
  · next some =>
    obtain ⟨even, some⟩ := Option.ite_none_right_eq_some.1 some
    rw [h even] at some
    cases some
  · rfl

theorem escape?_escapeUnit (h : u < 0x10000) :
    ∃ letters, escapeUnit u = '\\' :: letters ∧ escape? (letters ++ cs) = some (u, cs) := by
  have digit (k : Nat) : digitValue? (hexDigit (k % 16)) = some (k % 16) := by
    have digits : ∀ k < 16, digitValue? (hexDigit k) = some k := by decide
    exact digits _ (Nat.mod_lt _ (by decide))
  refine ⟨_, rfl, ?_⟩
  have value : 4096 * (u / 4096 % 16) + 256 * (u / 256 % 16) + 16 * (u / 16 % 16) + u % 16 = u := by
    omega
  simp [escape?, unit?, digit, value]

theorem translateBehind_escapeUnit (even : n % 2 = 0) (h : u < 0x10000) :
    translateBehind n (escapeUnit u ++ cs) = u :: translateBehind 0 cs := by
  obtain ⟨letters, spelled, read⟩ := @escape?_escapeUnit cs u h
  rw [spelled]
  exact translateBehind_of_escape even read

theorem lt_of_mem_units (h : u ∈ units c) : u < 0x10000 := by
  have bound : c.toNat < 0x110000 := by
    have valid := c.valid
    simp only [UInt32.isValidChar, Nat.isValidChar] at valid
    change c.val.toNat < _
    omega
  unfold units at h
  split at h <;> simp at h <;> omega

/-- The escapes of a character are read as its code units. -/
theorem translateBehind_escapeUnits (even : n % 2 = 0) :
    translateBehind n ((units c).flatMap escapeUnit ++ cs) = units c ++ translateBehind 0 cs := by
  have bound {u : Nat} (h : u ∈ units c) : u < 0x10000 := lt_of_mem_units h
  have onePair : (∃ u, units c = [u]) ∨ ∃ u v, units c = [u, v] := by
    unfold units
    split
    · exact .inl ⟨_, rfl⟩
    · exact .inr ⟨_, _, rfl⟩
  rcases onePair with ⟨u, h⟩ | ⟨u, v, h⟩
  · rw [h] at bound ⊢
    have first := bound (.head _)
    simp [translateBehind_escapeUnit even first]
  · rw [h] at bound ⊢
    have first := bound (.head _)
    have second := bound (.tail _ (.head _))
    have pair : translateBehind 0 (escapeUnit v ++ cs) = v :: translateBehind 0 cs :=
      translateBehind_escapeUnit (Nat.zero_mod 2) second
    simp [translateBehind_escapeUnit even first, pair]

theorem decode_units (us : List Nat) : decode (units c ++ us) = (decode us).map (c :: ·) := by
  have valid : c.toNat < 0xD800 ∨ 0xDFFF < c.toNat ∧ c.toNat < 0x110000 := c.valid
  unfold units
  split
  · have high : ¬ (0xD800 ≤ c.toNat ∧ c.toNat < 0xDC00) := by omega
    have low : ¬ (0xDC00 ≤ c.toNat ∧ c.toNat < 0xE000) := by omega
    rw [List.singleton_append, decode.eq_def]
    simp [if_neg high, if_neg low]
  · have high : 0xD800 ≤ 0xD800 + (c.toNat - 0x10000) / 0x400 ∧
        0xD800 + (c.toNat - 0x10000) / 0x400 < 0xDC00 := by omega
    have low : 0xDC00 ≤ 0xDC00 + (c.toNat - 0x10000) % 0x400 ∧
        0xDC00 + (c.toNat - 0x10000) % 0x400 < 0xE000 := by omega
    have whole : 0x10000 + 0x400 * (0xD800 + (c.toNat - 0x10000) / 0x400 - 0xD800) +
        (0xDC00 + (c.toNat - 0x10000) % 0x400 - 0xDC00) = c.toNat := by omega
    simp only [List.cons_append, List.nil_append]
    rw [decode.eq_def]
    simp only [if_pos high, if_pos low, whole, Char.ofNat_toNat]

example : decode [0xD83D, 0xDE00, 0x62] = some ['😀', 'b'] := by decide

end

/-! ### Escaped texts -/

/-- The backslashes at the end of a text. -/
def slashesAtEnd (cs : Text) : Nat := (cs.reverse.takeWhile (· = '\\')).length

theorem slashesAtEnd_concat (cs : Text) (c : Char) :
    slashesAtEnd (cs ++ [c]) = if c = '\\' then slashesAtEnd cs + 1 else 0 := by
  by_cases h : c = '\\' <;> simp [slashesAtEnd, h]

/-- Letters and digits in an escaped text stood there before. -/
theorem exists_of_escapeUnicode_eq_append {letters rest cs : Text}
    (each : ∀ d ∈ letters, d = 'u' ∨ (digitValue? d).isSome)
    (h : escapeUnicode cs = letters ++ rest) : ∃ behind, cs = letters ++ behind := by
  induction letters generalizing cs with
  | nil => exact ⟨cs, rfl⟩
  | cons d letters ih =>
    cases cs with
    | nil => cases h
    | cons c cs =>
      rw [escapeUnicode_cons] at h
      cases ascii : isAscii c with
      | true =>
        rw [escapeChar_of_isAscii ascii] at h
        obtain ⟨rfl, tail⟩ := List.cons.inj h
        obtain ⟨behind, rfl⟩ := ih (fun d hd => each d (.tail _ hd)) tail
        exact ⟨behind, rfl⟩
      | false =>
        -- what replaces a character begins with neither
        have other : ∃ d' cs', escapeChar c = d' :: cs' ∧ (d' = '\\' ∨ d' = ' ') := by
          rw [escapeChar, ascii, if_neg Bool.false_ne_true]
          split
          · exact ⟨' ', [], rfl, .inr rfl⟩
          · unfold units
            split
            · exact ⟨_, _, rfl, .inl rfl⟩
            · exact ⟨_, _, rfl, .inl rfl⟩
        obtain ⟨d', cs', first, special⟩ := other
        rw [first] at h
        obtain ⟨rfl, -⟩ := List.cons.inj h
        have plain := each d' (.head _)
        have blank : ¬ (' ' = 'u' ∨ (digitValue? ' ').isSome) := by decide
        have slash : ¬ ('\\' = 'u' ∨ (digitValue? '\\').isSome) := by decide
        rcases special with rfl | rfl
        · exact absurd plain slash
        · exact absurd plain blank

/-- Escaping makes no escape out of what stands in front of it. -/
theorem escape?_escapeUnicode {cs : Text} (h : escape? cs = none) :
    escape? (escapeUnicode cs) = none := by
  cases some : escape? (escapeUnicode cs) with
  | none => rfl
  | some r =>
    obtain ⟨letters, spelled, each, alike⟩ := exists_letters_of_escape? some
    have each' : ∀ d ∈ 'u' :: letters, d = 'u' ∨ (digitValue? d).isSome :=
      List.forall_mem_cons.2 ⟨.inl rfl, each⟩
    obtain ⟨behind, rfl⟩ := exists_of_escapeUnicode_eq_append each' spelled
    rw [alike] at h
    cases h

/-- No backslash begins an escape. -/
def NoEscape : Text → Prop :=
  AtEach fun a c b => c = '\\' → slashesAtEnd a % 2 = 0 → escape? b = none

/-- A backslash in front of a character beyond ASCII is itself behind a backslash. -/
def PairsBeyondAscii : Text → Prop :=
  AtEach fun a c _ => isAscii c = false → slashesAtEnd a % 2 = 0

instance (cs : Text) : Decidable (NoEscape cs) := inferInstanceAs (Decidable (AtEach _ cs))

instance (cs : Text) : Decidable (PairsBeyondAscii cs) := inferInstanceAs (Decidable (AtEach _ cs))

/-- A no-break space is read as a blank. -/
def readable (c : Char) : Char := if c = '\u00a0' then ' ' else c

theorem decode_translateBehind {a b : Text} (free : NoEscape (a ++ b))
    (pairs : PairsBeyondAscii (a ++ b)) :
    decode (translateBehind (slashesAtEnd a) (escapeUnicode b)) = some (b.map readable) := by
  induction b generalizing a with
  | nil => simp [translateBehind, decode]
  | cons c cs ih =>
    have here : c = '\\' → slashesAtEnd a % 2 = 0 → escape? cs = none := free a c cs rfl
    have even : isAscii c = false → slashesAtEnd a % 2 = 0 := pairs a c cs rfl
    have next : decode (translateBehind (slashesAtEnd (a ++ [c])) (escapeUnicode cs)) =
        some (cs.map readable) := by
      rw [List.append_cons] at free pairs
      exact ih free pairs
    rw [slashesAtEnd_concat] at next
    rw [escapeUnicode_cons]
    cases ascii : isAscii c with
    | true =>
      have same : readable c = c := if_neg fun h => by cases h; cases ascii
      rw [escapeChar_of_isAscii ascii, List.singleton_append]
      by_cases slash : c = '\\'
      · subst slash
        rw [if_pos rfl] at next
        have noEscape := fun h => escape?_escapeUnicode (here rfl h)
        rw [translateBehind_of_noEscape noEscape, decode_units, next]
        simp [same]
      · rw [if_neg slash] at next
        rw [translateBehind_of_ne slash, decode_units, next]
        simp [same]
    | false =>
      have slash : c ≠ '\\' := fun h => by cases h; cases ascii
      rw [if_neg slash] at next
      rw [escapeChar, ascii, if_neg Bool.false_ne_true]
      split
      · next noBreak =>
        rw [List.singleton_append, translateBehind_of_ne (by decide), decode_units, next]
        simp [readable, noBreak]
      · next noBreak =>
        rw [translateBehind_escapeUnits (even ascii), decode_units, next]
        simp [readable, noBreak]

/-- An escaped text is in ASCII and stays as it is when it is escaped again. If the text has no
escape of its own and none of its characters beyond ASCII is behind a lone backslash, it is read as
what it was, but for its no-break spaces. -/
theorem decode_translate_escapeUnicode (text : Text) :
    (∀ d ∈ escapeUnicode text, isAscii d) ∧
      escapeUnicode (escapeUnicode text) = escapeUnicode text ∧
      (NoEscape text → PairsBeyondAscii text →
        decode (translate (escapeUnicode text)) = some (text.map readable)) := by
  have ascii : ∀ d ∈ escapeUnicode text, isAscii d := fun d hd => isAscii_of_mem_escapeUnicode hd
  refine ⟨ascii, escapeUnicode_of_ascii ascii, fun free pairs => ?_⟩
  exact decode_translateBehind (a := []) free pairs

/-- Two backslashes stand for themselves, also in front of a letter beyond ASCII and of what would
be an escape without the first one. -/
theorem decode_translate_escapeUnicode_backslashes :
    let text := ['\\', '\\', 'é', '\\', '\\', 'u', '0', '0', 'e', '9', '\u00a0', '😀']
    let read := ['\\', '\\', 'é', '\\', '\\', 'u', '0', '0', 'e', '9', ' ', '😀']
    NoEscape text ∧ PairsBeyondAscii text ∧
      decode (translate (escapeUnicode text)) = some read := by
  intro text read
  have free : NoEscape text := by decide
  have pairs : PairsBeyondAscii text := by decide
  have same : text.map readable = read := by decide
  exact ⟨free, pairs, same ▸ (decode_translate_escapeUnicode text).2.2 free pairs⟩

end Literal

end SketchPrep
