import SketchPrep.Proofs.Import.Statement
import SketchPrep.Proofs.Text.Parts

/-!
Words with points between them, as names of imports. No character of a word is a blank, so that
such a name is read as it stands. Main statements: `isSome_ofName?_dotted`, it can be imported if
and only if there is a point in it; `staticAndName_declared`, it is found in the text that a
declaration asks for.
-/

namespace SketchPrep

open Text Text.CharClass

namespace Text

variable {c : Char}

/-- A character is not within two tables whose ranges are apart. -/
theorem CharClass.within_eq_false {t u : Array (Nat × Nat)}
    (apart : (t.toList.all fun a => u.toList.all fun b => Nat.blt a.2 b.1 || Nat.blt b.2 a.1) = true)
    (h : within t c) : within u c = false := by
  rw [within, ← Array.any_toList, List.any_eq_true] at h
  obtain ⟨a, ha, inside⟩ := h
  rw [within, ← Array.any_toList, List.any_eq_false]
  intro b hb
  have beside := List.all_eq_true.1 (List.all_eq_true.1 apart a ha) b hb
  simp only [Bool.or_eq_true, Nat.blt_eq, Bool.and_eq_true, decide_eq_true_eq] at beside inside ⊢
  omega

/-- The properties White_Space, Alphabetic and N have no character in common. -/
theorem CharClass.isAlphanumeric_of_isSpace (h : isSpace c) : isAlphanumeric c = false := by
  have letter : within CharTable.alphabetic c = false := within_eq_false (by decide +kernel) h
  have number : within CharTable.numeric c = false := within_eq_false (by decide +kernel) h
  have ascii : c.isAlpha = false ∧ c.isDigit = false := by
    let blanks : List Nat := List.range' 9 5 ++ [0x20, 0x85, 0xA0, 0x1680] ++
      List.range' 0x2000 11 ++ [0x2028, 0x2029, 0x202F, 0x205F, 0x3000]
    have listed : c.toNat ∈ blanks := by
      simp [isSpace, within] at h
      simp only [blanks, List.mem_append, List.mem_range'_1, List.mem_cons]
      omega
    have each : ∀ n ∈ blanks, (Char.ofNat n).isAlpha = false ∧ (Char.ofNat n).isDigit = false := by
      decide
    have found := each _ listed
    rwa [Char.ofNat_toNat] at found
  rw [isAlphanumeric, isAlphabetic, letter, number, ascii.1, ascii.2]
  simp

end Text

namespace ImportStatement

variable {front : List Text} {member name part : Text} {isStatic : Bool} {c : Char}

/-- Parts with points between them. -/
def dotted (front : List Text) (member : Text) : Text := ['.'].intercalate (front ++ [member])

/-- The last part may be a star. -/
def IsMember (member : Text) : Prop := member = ['*'] ∨ isPart member

/-- The signs of a name. -/
theorem not_isSpace_sign : ∀ c ∈ ['_', '$', '*', '.'], isSpace c = false := by
  simp [isSpace, within]

theorem not_special_of_isPart (h : isPart part) (hc : c ∈ part) :
    isSpace c = false ∧ c ≠ '.' ∧ c ≠ ';' := by
  simp only [isPart, Bool.and_eq_true, List.all_eq_true, Bool.or_eq_true, decide_eq_true_eq] at h
  rcases h.2 c hc with (word | rfl) | rfl
  · refine ⟨Bool.eq_false_iff.2 fun space => ?_, ?_, ?_⟩
    · rw [isAlphanumeric_of_isSpace space] at word
      cases word
    · rintro rfl
      exact absurd word (by decide)
    · rintro rfl
      exact absurd word (by decide)
  · exact ⟨not_isSpace_sign _ (by decide), by decide⟩
  · exact ⟨not_isSpace_sign _ (by decide), by decide⟩

theorem not_special_of_isMember (h : IsMember member) (hc : c ∈ member) :
    isSpace c = false ∧ c ≠ '.' ∧ c ≠ ';' := by
  rcases h with rfl | h
  · rw [List.mem_singleton.1 hc]
    exact ⟨not_isSpace_sign _ (by decide), by decide⟩
  · exact not_special_of_isPart h hc

theorem dotted_nil (member : Text) : dotted [] member = member := by
  simp [dotted, List.intercalate]

theorem dotted_of_ne_nil (h : front ≠ []) (member : Text) :
    dotted front member = ['.'].intercalate front ++ '.' :: member :=
  intercalate_concat h ['.'] member

theorem dotted_ne_nil (hm : IsMember member) : dotted front member ≠ [] := by
  have some_char : member ≠ [] := by
    rintro rfl
    rcases hm with h | h
    · cases h
    · cases h
  by_cases single : front = []
  · rwa [single, dotted_nil]
  · simp [dotted_of_ne_nil single]

theorem mem_dotted_iff (hm : IsMember member) : '.' ∈ dotted front member ↔ front ≠ [] := by
  by_cases single : front = []
  · have none : '.' ∉ member := fun hc => (not_special_of_isMember hm hc).2.1 rfl
    simp [single, dotted_nil, none]
  · simp [single, dotted_of_ne_nil single]

/-- A dotted name can be imported if and only if there is a point in it. -/
theorem isSome_ofName?_dotted (hf : ∀ p ∈ front, isPart p) (hm : IsMember member) :
    (ofName? isStatic (dotted front member)).isSome ↔ front ≠ [] := by
  have last : '.' ∉ member := fun hc => (not_special_of_isMember hm hc).2.1 rfl
  by_cases single : front = []
  · rw [single, dotted_nil, ofName?, splitLast?_eq_none last]
    simp
  · have noPoint : ∀ p ∈ front, '.' ∉ p := fun p hp hc =>
      (not_special_of_isPart (hf p hp) hc).2.1 rfl
    have parts : splitAll '.' (['.'].intercalate front) = front := by
      rw [splitAll_eq_splitOn, List.splitOn_intercalate '.' noPoint single]
    have valid : (front.all isPart && (member = ['*'] || isPart member)) = true := by
      rw [Bool.and_eq_true, List.all_eq_true, Bool.or_eq_true, decide_eq_true_eq]
      exact ⟨hf, hm⟩
    rw [dotted_of_ne_nil single, ofName?, splitLast?_append last]
    dsimp only
    rw [parts, if_pos valid]
    cases isStatic <;> simp [single]

/-- A name has neither blanks nor semicolons. -/
theorem not_special_of_mem_dotted (hf : ∀ p ∈ front, isPart p) (hm : IsMember member)
    (hc : c ∈ dotted front member) : isSpace c = false ∧ c ≠ ';' := by
  have each : ∀ p ∈ front ++ [member], c ∈ p → isSpace c = false ∧ c ≠ ';' := by
    intro p hp hc
    rcases List.mem_append.1 hp with hp | hp
    · have found := not_special_of_isPart (hf p hp) hc
      exact ⟨found.1, found.2.2⟩
    · rw [List.mem_singleton.1 hp] at hc
      have found := not_special_of_isMember hm hc
      exact ⟨found.1, found.2.2⟩
  rcases mem_of_mem_intercalate hc with point | ⟨p, hp, hcp⟩
  · rw [List.mem_singleton.1 point]
    exact ⟨not_isSpace_sign _ (by decide), by decide⟩
  · exact each p hp hcp

/-- The text that a declared name is read from. -/
theorem staticAndName_declared (hname : name ≠ [])
    (plain : ∀ c ∈ name, isSpace c = false ∧ c ≠ ';') :
    staticAndName ((if isStatic then "static ".toList else []) ++ name) =
      (isStatic, if isStatic then ' ' :: name else name) := by
  have solid : ∀ c ∈ name, isSpace c = false := fun c hc => (plain c hc).1
  have ends := List.dropLast_concat_getLast hname
  obtain ⟨solidEnd, openEnd⟩ := plain _ (List.getLast_mem hname)
  -- without blanks and a semicolon at its ends, nothing is cut off
  have whole {front : Text} (head : ∀ c ∈ (front ++ name).head?, isSpace c = false) :
      trimEnd (trimStart (front ++ name)) = front ++ name ∧
        (front ++ name).getLast? ≠ some ';' := by
    rw [← ends, ← List.append_assoc] at head ⊢
    rw [trimStart_of_head head, trimEnd_concat solidEnd, List.getLast?_concat]
    exact ⟨rfl, fun same => openEnd (Option.some.inj same)⟩
  cases isStatic with
  | true =>
    have head : ∀ c ∈ ("static ".toList ++ name).head?, isSpace c = false := fun c hc => by
      obtain rfl : 's' = c := Option.some.inj hc
      exact not_isSpace_mark _ (by decide)
    have noImport : afterWord? "import" ("static ".toList ++ name) = none := rfl
    have static : afterWord? "static" ("static ".toList ++ name) = some (' ' :: name) :=
      afterWord?_blank "static" name
    obtain ⟨trimmed, unclosed⟩ := whole head
    simp only [if_true, staticAndName, trimmed, if_neg unclosed, noImport, Option.map_none,
      Option.getD_none, static]
  | false =>
    obtain ⟨trimmed, unclosed⟩ := @whole [] fun c hc => solid c (List.mem_of_mem_head? hc)
    rw [List.nil_append] at trimmed unclosed
    simp only [Bool.false_eq_true, if_false, List.nil_append, staticAndName, trimmed,
      if_neg unclosed, afterWord?_eq_none solid, Option.map_none, Option.getD_none]

end ImportStatement

end SketchPrep
