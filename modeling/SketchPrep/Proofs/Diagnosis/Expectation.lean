import Mathlib.Data.List.TakeWhile
import SketchPrep.Proofs.Diagnosis.Chain
import SketchPrep.Proofs.Syntax.Totality

/-!
Hints of what a reader expected. Main statements: `hint_of_missing`, what is missing before a token
without blanks is called so whatever the token is; `hint_of_extraneous` and `hint_of_mismatched`, so
is what is found in its stead if no rule further up takes the message.
-/

namespace SketchPrep

open Text

namespace Rule

open Pattern

variable {t : MessageTable} {cs : Text}

theorem toLower_ne_blank {c : Char} (h : c ≠ ' ') : c.toLower ≠ ' ' := by
  unfold Char.toLower
  split
  · rename_i upper
    intro same
    have lo := UInt32.le_iff_toNat_le.1 upper.1
    have hi := UInt32.le_iff_toNat_le.1 upper.2
    have value := congrArg UInt32.toNat (congrArg Char.val same)
    rw [UInt32.toNat_add] at value
    simp at lo hi value
    omega
  · exact h

theorem blank_not_mem_lower {found : Text} (h : ' ' ∉ found) :
    ' ' ∉ found.map Char.toLower := by
  intro mem
  obtain ⟨c, hc, same⟩ := List.mem_map.1 mem
  have ne : c ≠ ' ' := by
    rintro rfl
    exact h hc
  exact toLower_ne_blank ne same

/-- A part with a blank in it neither begins in `x` nor lies in what is found behind. -/
theorem not_infix_of_blank {c : Char} {part x found : Text} (hpart : part.head? = some c)
    (hc : c ∉ x) (blank : ' ' ∈ part) (h : ' ' ∉ found) : ¬part <:+: x ++ found := fun inside =>
  h ((infix_of_infix_append hpart hc inside).subset blank)

theorem suffix_of_emptyGeneric (h : Shape.emptyGeneric.endsText cs) :
    "<>".toList <:+ cs ∨ "<>'".toList <:+ cs := by
  obtain ⟨a, ends, matched⟩ := endsText_iff.1 h
  obtain ⟨x, y, rfl, hx, hy⟩ := matches_append_iff.1 matched
  obtain rfl := eq_of_matches_inOrder hx
  rcases matches_either_iff.1 hy with hy | hy
  · obtain rfl := eq_of_matches_one hy
    exact .inr ends
  · cases hy
    exact .inl (by simpa using ends)

theorem missingBody_eq_none {c : Char} (h : cs.getLast? = some c) (hc : c ≠ '\x7d') :
    missingBody t cs = none := by
  obtain ⟨front, rfl⟩ := List.getLast?_eq_some_iff.1 h
  rw [missingBody, if_neg]
  rw [Bool.or_eq_true, List.isSuffixOf_iff_suffix, List.isSuffixOf_iff_suffix]
  have last {whole : Text} (brace : whole.getLast? = some '\x7d') :
      ¬whole <:+ front ++ [c] := by
    rintro ⟨x, same⟩
    have ends := congrArg List.getLast? same
    rw [List.getLast?_append, brace, List.getLast?_concat] at ends
    exact hc (Option.some.inj ends).symm
  exact not_or.2 ⟨last rfl, last rfl⟩

/-! ### What is missing -/

theorem missingPieceOfLine?_eq_none (h : ¬"missing '".toList <:+: cs) :
    missingPieceOfLine? cs = none := by
  induction cs with
  | nil => rfl
  | cons c cs ih =>
    rw [List.infix_cons_iff, not_or] at h
    rw [missingPieceOfLine?, ih h.2, after?_eq_none.2 h.1]
    rfl

/-- The message that a word is missing, without the quote at its end. -/
def missingWord (w : Char) (found : Text) : Text :=
  'm' :: ("issing '".toList ++ w :: "' at '".toList ++ found)

variable {w : Char} {found : Text}

theorem missingPieceOfLine?_missingWord (hw : w ≠ 'm') (blank : ' ' ∉ found) :
    missingPieceOfLine? (missingWord w found) = some [w] := by
  have later : ¬"missing '".toList <:+: "issing '".toList ++ w :: "' at '".toList ++ found := by
    refine not_infix_of_blank (c := 'm') rfl ?_ (by decide) blank
    simp [hw.symm]
  have behind : after? "missing '".toList (missingWord w found) =
      some ([w] ++ "' at ".toList ++ ('\'' :: found)) := after?_eq_some.2 (by rfl)
  have last : ¬"' at ".toList <:+: "' at ".toList.tail ++ '\'' :: found := by
    refine not_infix_of_blank (c := '\'') rfl (by decide) (by decide) ?_
    simpa using blank
  rw [missingWord] at behind ⊢
  rw [missingPieceOfLine?, missingPieceOfLine?_eq_none later, behind, Option.bind_some,
    splitLastPart?_append (by decide) last]
  rfl

theorem missingPiece?_missingWord (hw : w ≠ 'm') (line : w ≠ '\n') (blank : ' ' ∉ found)
    (feed : '\n' ∉ found) : missingPiece? (missingWord w found) = some [w] := by
  have oneLine : '\n' ∉ missingWord w found := by
    simp [missingWord, line.symm, feed]
  rw [missingPiece?, splitAll_eq oneLine, List.findSome?_cons,
    missingPieceOfLine?_missingWord hw blank]

/-- What the text of a token is if no rule takes a part of it for words of the message. -/
structure Inert (found : Text) : Prop where
  blank : ' ' ∉ found
  feed : '\n' ∉ found
  generic : ¬"<>".toList <:+ found

theorem mentions_of_mem {part : String} (h : part.toList <:+: cs)
    (lower : part.toList.map Char.toLower = part.toList) : mentions part cs :=
  mentions_iff.2 (lower ▸ h.map Char.toLower)

/-- What is read in the stead of a word of one of these signs. -/
def closers : List Char := [';', ')', ']', '\x7d']

theorem ne_of_mem_closers (hw : w ∈ closers) : w.toLower ≠ 'm' ∧ w ≠ 'm' ∧ w ≠ '\n' := by
  have all : (closers.all fun w => w.toLower != 'm' && w != 'm' && w != '\n') = true := by
    decide +kernel
  have none : ∀ w ∈ closers, w.toLower ≠ 'm' ∧ w ≠ 'm' ∧ w ≠ '\n' := by
    simpa only [List.all_eq_true, Bool.and_eq_true, bne_iff_ne, and_assoc] using all
  exact none w hw

/-- A quote stands on both sides of the token. -/
theorem Inert.endsText_eq_false (h : Inert found) (front : Text) :
    Shape.emptyGeneric.endsText (front ++ '\'' :: found ++ ['\'']) = false := by
  refine Bool.eq_false_iff.2 fun ends => ?_
  rcases suffix_of_emptyGeneric ends with ⟨x, same⟩ | ⟨x, same⟩
  · have whole : x ++ ['<'] ++ ['>'] = front ++ '\'' :: found ++ ['\''] := by simpa using same
    have last := (List.append_inj' whole rfl).2
    exact absurd last (by decide)
  · have whole : x ++ "<>".toList ++ ['\''] = front ++ '\'' :: found ++ ['\''] := by
      simpa using same
    have front := (List.append_inj' whole rfl).1
    rcases List.append_eq_append_iff.1 front with ⟨k, -, inside⟩ | ⟨k, -, inside⟩
    · have quote : '\'' ∈ "<>".toList := inside ▸ List.mem_append_right k List.mem_cons_self
      exact absurd quote (by decide)
    · cases k with
      | nil => exact absurd (List.cons.inj inside).1 (by decide)
      | cons c k => exact h.generic ⟨k, (List.cons.inj inside).2.symm⟩

theorem not_mentions_identifier_missingWord (hw : w ∈ closers) (blank : ' ' ∉ found) :
    mentions "missing identifier at" (missingWord w found) = false := by
  refine Bool.eq_false_iff.2 fun mentioned => ?_
  have inside := mentions_iff.1 mentioned
  have lower : (missingWord w found).map Char.toLower =
      'm' :: ("issing '".toList ++ w.toLower :: "' at '".toList ++ found.map Char.toLower) := by
    rw [missingWord]
    simp
  rw [lower] at inside
  rcases List.infix_cons_iff.1 inside with ⟨rest, same⟩ | inside
  · have ninth : some 'i' = some '\'' := congrArg (fun l => l[8]?) same
    exact absurd ninth (by decide)
  · refine not_infix_of_blank (c := 'm') rfl ?_ (by decide) (blank_not_mem_lower blank) inside
    simp [(ne_of_mem_closers hw).1.symm]

theorem missingWord_eq_iff {w' : Char} {found' : Text} :
    missingWord w found = missingWord w' found' ↔ w = w' ∧ found = found' := by
  simp [missingWord]

theorem missingBrace_missingWord (w : Char) (found : Text) (t : MessageTable) :
    missingBrace t (missingWord w (found ++ ['\''])) =
      if w = ';' ∧ found = ['\x7b'] then plain (t.hint MessageTable.missingRightCurly)
      else none := by
  have same : missingWord w (found ++ ['\'']) = "missing ';' at '\x7b'".toList ↔
      w = ';' ∧ found = ['\x7b'] := by
    rw [show "missing ';' at '\x7b'".toList = missingWord ';' (['\x7b'] ++ ['\'']) from rfl,
      missingWord_eq_iff, List.append_left_inj]
  rw [missingBrace]
  simp only [same]

theorem missingToken_missingWord (hw : w ∈ closers) (blank : ' ' ∉ found) (feed : '\n' ∉ found)
    (t : MessageTable) : missingToken t (missingWord w found) =
      some ⟨t.render MessageTable.missingDefault (String.ofList [w]), w = ';'⟩ := by
  obtain ⟨-, letter, line⟩ := ne_of_mem_closers hw
  have mentioned : mentions "missing" (missingWord w found) :=
    mentions_of_mem ⟨[], " '".toList ++ w :: "' at '".toList ++ found, rfl⟩ (by decide)
  have piece := missingPiece?_missingWord letter line blank feed
  have semicolon : (String.ofList [w] = ";") = (w = ';') := by
    rw [← String.toList_inj]
    simp
  rw [missingToken, if_pos mentioned, piece]
  simp only [Option.map_some, Option.getD_some, semicolon]

/-- In front of a token without blanks a word is called missing, whatever the token is. -/
theorem ofMessage_missingWord (hw : w ∈ closers) (h : Inert found) (t : MessageTable) :
    Hint.ofMessage t (String.ofList (missingWord w (found ++ ['\'']))) =
      if w = ';' ∧ found = ['\x7b'] then ⟨t.hint MessageTable.missingRightCurly, false⟩
      else ⟨t.render MessageTable.missingDefault (String.ofList [w]), w = ';'⟩ := by
  have blank : ' ' ∉ found ++ ['\''] := by simpa using h.blank
  have feed : '\n' ∉ found ++ ['\''] := by simpa using h.feed
  have literal : unterminatedLiteral t (missingWord w (found ++ ['\''])) = none :=
    unterminatedLiteral_of_head (c := 'm') rfl (by decide)
  have body : missingBody t (missingWord w (found ++ ['\''])) = none := by
    refine missingBody_eq_none (c := '\'') ?_ (by decide)
    simp [missingWord, List.getLast?_cons, List.getLast?_append]
  have generic : Shape.emptyGeneric.endsText (missingWord w (found ++ ['\''])) = false := by
    have whole : missingWord w (found ++ ['\'']) =
        "missing '".toList ++ w :: "' at ".toList ++ '\'' :: found ++ ['\''] := by
      simp [missingWord]
    rw [whole]
    exact h.endsText_eq_false _
  have identifier := not_mentions_identifier_missingWord hw blank
  rw [Hint.ofMessage, String.toList_ofList]
  simp only [chain, List.findSome?_cons, literal, body, missingBrace_missingWord,
    shaped_eq_none generic, missingIdentifier_eq_none identifier,
    missingToken_missingWord hw blank feed]
  by_cases brace : w = ';' ∧ found = ['\x7b']
  · simp only [if_pos brace, plain, Option.getD_some]
  · simp only [if_neg brace, Option.getD_some]

/-! ### What else a message can be about -/

/-- In front of a token without blanks a name is called missing, whatever the token is. -/
theorem ofMessage_missingIdentifier (h : Inert found) (t : MessageTable) :
    Hint.ofMessage t (String.ofList ("missing Identifier at '".toList ++ found ++ ['\''])) =
      ⟨t.render MessageTable.missingName (String.ofList (" '".toList ++ found ++ ['\''])), false⟩ := by
  have whole : "missing Identifier at '".toList ++ found ++ ['\''] =
      "missing Identifier at".toList ++ (" '".toList ++ found ++ ['\'']) := by simp
  have literal : unterminatedLiteral t ("missing Identifier at '".toList ++ found ++ ['\'']) =
      none := unterminatedLiteral_of_head (c := 'm') rfl (by decide)
  have body : missingBody t ("missing Identifier at '".toList ++ found ++ ['\'']) = none :=
    missingBody_eq_none List.getLast?_concat (by decide)
  have other : "missing Identifier at '".toList ++ found ++ ['\''] ≠
      "missing ';' at '\x7b'".toList := by
    intro same
    have ninth : some 'I' = some '\'' := congrArg (fun l => l[8]?) same
    exact absurd ninth (by decide)
  have brace := missingBrace_eq_none (t := t) other
  have generic : Shape.emptyGeneric.endsText ("missing Identifier at '".toList ++ found ++ ['\'']) =
      false := by
    have ends := h.endsText_eq_false "missing Identifier at ".toList
    rwa [show "missing Identifier at ".toList ++ '\'' :: found =
      "missing Identifier at '".toList ++ found by simp] at ends
  have mentioned : mentions "missing identifier at"
      ("missing Identifier at '".toList ++ found ++ ['\'']) := by
    rw [mentions_iff, whole, List.map_append]
    exact (List.prefix_append _ _).isInfix
  have blank : ' ' ∉ found ++ ['\''] := by simpa using h.blank
  have once : ¬"missing Identifier at".toList <:+: " '".toList ++ (found ++ ['\'']) :=
    not_infix_of_blank (c := 'm') (by decide) (by decide) (by decide) blank
  have rest : removeAll "missing Identifier at".toList
      ("missing Identifier at '".toList ++ found ++ ['\'']) = " '".toList ++ found ++ ['\''] := by
    rw [whole, removeAll_append (by decide), List.append_assoc, removeAll_eq_self once]
  rw [Hint.ofMessage, String.toList_ofList]
  simp only [chain, List.findSome?_cons, literal, body, brace, shaped_eq_none generic,
    missingIdentifier, if_pos mentioned, rest, plain, Option.getD_some]

/-- The rules in front of those for extraneous and for mismatched input have no answer. -/
structure Passed (t : MessageTable) (message : Text) : Prop where
  body : missingBody t message = none
  generic : Shape.emptyGeneric.endsText message = false
  missing : mentions "missing" message = false

theorem Passed.missingBrace (h : Passed t cs) : Rule.missingBrace t cs = none := by
  refine missingBrace_eq_none ?_
  rintro rfl
  exact absurd h.missing (by decide)

/-- Extraneous input is called so with the whole message. -/
theorem ofMessage_extraneous (h : Passed t cs) (starts : "extraneous input '".toList <+: cs)
    (viable : hasPart noViable cs = false) : Hint.ofMessage t (String.ofList cs) =
      ⟨t.render MessageTable.extraneous (String.ofList cs), false⟩ := by
  have literal : unterminatedLiteral t cs = none := by
    obtain ⟨rest, rfl⟩ := starts
    exact unterminatedLiteral_of_head (c := 'e') rfl (by decide)
  have mentioned : mentions "extraneous" cs := by
    refine mentions_of_mem (List.IsInfix.trans ?_ starts.isInfix) (by decide)
    exact ⟨[], " input '".toList, rfl⟩
  rw [Hint.ofMessage, String.toList_ofList]
  simp only [chain, List.findSome?_cons, literal, h.body, h.missingBrace,
    shaped_eq_none h.generic, missingIdentifier_eq_none (not_mentions_identifier h.missing),
    missingToken_eq_none h.missing, extraneousToken, if_pos mentioned, quotedCode_eq viable, plain,
    Option.getD_some]

theorem mismatchedPiece?_eq {expected : Text}
    (feed : '\n' ∉ found ++ "' expecting ".toList ++ expected)
    (last : ¬"' expecting ".toList <:+: expected) : mismatchedPiece?
      ("mismatched input '".toList ++ (found ++ "' expecting ".toList ++ expected)) =
        some found := by
  have behind : after? "mismatched input '".toList
      ("mismatched input '".toList ++ (found ++ "' expecting ".toList ++ expected)) =
        some (found ++ "' expecting ".toList ++ expected) := after?_eq_some.2 rfl
  have line : (found ++ "' expecting ".toList ++ expected).takeWhile (· ≠ '\n') =
      found ++ "' expecting ".toList ++ expected := by
    refine List.takeWhile_eq_self_iff.2 fun c hc => decide_eq_true ?_
    rintro rfl
    exact feed hc
  have once : ¬"' expecting ".toList <:+: "' expecting ".toList.tail ++ expected := fun inside =>
    last (infix_of_infix_append (c := '\'') rfl (by decide) inside)
  change mismatchedPiece? ('m' :: ("ismatched input '".toList ++ _)) = _
  change after? "mismatched input '".toList ('m' :: ("ismatched input '".toList ++ _)) = _ at behind
  rw [mismatchedPiece?, behind, Option.bind_some, line, splitLastPart?_append (by decide) once]

/-- Mismatched input is called so. -/
theorem ofMessage_mismatched {expected : Text} (starts : cs =
      "mismatched input '".toList ++ (found ++ "' expecting ".toList ++ expected))
    (h : Passed t cs) (extraneous : mentions "extraneous" cs = false) (feed : '\n' ∉ cs)
    (last : ¬"' expecting ".toList <:+: expected) : Hint.ofMessage t (String.ofList cs) =
      ⟨t.render MessageTable.mismatched (String.ofList found), false⟩ := by
  have piece : mismatchedPiece? cs = some found := by
    rw [starts] at feed ⊢
    exact mismatchedPiece?_eq (fun hc => feed (List.mem_append_right _ hc)) last
  have literal : unterminatedLiteral t cs = none :=
    unterminatedLiteral_of_head (c := 'm') (by rw [starts]; rfl) (by decide)
  have mentioned : mentions "mismatched input" cs := by
    refine mentions_of_mem ⟨[], " '".toList ++ (found ++ "' expecting ".toList ++ expected), ?_⟩
      (by decide)
    rw [starts]
    rfl
  rw [Hint.ofMessage, String.toList_ofList]
  simp only [chain, List.findSome?_cons, literal, h.body, h.missingBrace,
    shaped_eq_none h.generic, missingIdentifier_eq_none (not_mentions_identifier h.missing),
    missingToken_eq_none h.missing, extraneousToken_eq_none extraneous, mismatchedToken,
    if_pos mentioned, piece, plain, Option.getD_some]

end Rule

/-! ### Syntax errors -/

/-- What an error calls missing is a name or a sign that closes something. -/
def SyntaxError.MissesCloser (e : SyntaxError) : Prop :=
  ∀ expected found, e.cause = .missing expected found →
    expected = .identifier ∨ ∃ w ∈ Rule.closers, expected = .word (String.singleton w)

namespace Syntax

open Reader

theorem Stream.completes_cases {s : Stream} {expected : Expectation}
    (h : s.completes expected) :
    expected = .identifier ∨ ∃ w ∈ Rule.closers, expected = .word (String.singleton w) := by
  cases expected with
  | identifier => exact .inl rfl
  | word w =>
    refine .inr ?_
    unfold Stream.completes at h
    split at h
    · rename_i same
      exact ⟨';', by decide, same⟩
    · rename_i same
      exact ⟨')', by decide, same⟩
    · rename_i same
      exact ⟨']', by decide, same⟩
    · rename_i same
      exact ⟨'\x7d', by decide, same⟩
    · cases h
    · rename_i same
      cases same

theorem missesCloser_unexpected (s : Stream) (es : List Expectation) :
    (s.unexpected es).MissesCloser := by
  intro expected found h
  simp only [Stream.unexpected] at h
  split at h
  · cases h
  · split at h
    · split at h
      · rename_i completes
        cases h
        exact Stream.completes_cases completes
      · cases h
    · cases h

theorem invariant_missesCloser : Invariant (fun _ => True) SyntaxError.MissesCloser where
  advance _ _ := trivial
  begin _ _ := trivial
  unexpected s es _ := missesCloser_unexpected s es
  noViable _ _ := nofun

end Syntax

theorem Sketch.missesCloser_of_parse {source : Text} {e : SyntaxError}
    (h : Sketch.parse source = .error e) : e.MissesCloser :=
  error_of_parse Syntax.invariant_missesCloser (fun _ _ => nofun) (fun _ _ => trivial) h

/-- The hint that something is missing in front of a token does not depend on the token, a brace in
the stead of a semicolon apart. -/
theorem Sketch.hint_of_missing {source : Text} {e : SyntaxError} {expected : Expectation}
    {found : String} (h : Sketch.parse source = .error e)
    (cause : e.cause = .missing expected found) (inert : Rule.Inert found.toList)
    (t : MessageTable) : Hint.ofMessage t (e.message source) =
      match expected with
      | .identifier => ⟨t.render MessageTable.missingName (" '" ++ found ++ "'"), false⟩
      | .word w =>
        if w = ";" ∧ found = "\x7b" then ⟨t.hint MessageTable.missingRightCurly, false⟩
        else ⟨t.render MessageTable.missingDefault w, w = ";"⟩ := by
  rcases missesCloser_of_parse h expected found cause with rfl | ⟨w, hw, rfl⟩
  · have text : e.message source = String.ofList
        ("missing Identifier at '".toList ++ found.toList ++ ['\'']) := by
      rw [SyntaxError.message, cause, ← String.toList_inj]
      simp [Expectation.shown]
    have name : String.ofList (" '".toList ++ found.toList ++ ['\'']) = " '" ++ found ++ "'" := by
      rw [← String.toList_inj]
      simp
    rw [text, Rule.ofMessage_missingIdentifier inert, name]
  · have text : e.message source =
        String.ofList (Rule.missingWord w (found.toList ++ ['\''])) := by
      rw [SyntaxError.message, cause, ← String.toList_inj]
      simp [Expectation.shown, Rule.missingWord]
    have semicolon : String.singleton w = ";" ↔ w = ';' := by
      rw [← String.toList_inj]
      simp
    have brace : found = "\x7b" ↔ found.toList = ['\x7b'] := by
      rw [← String.toList_inj]
      simp
    have one : String.ofList [w] = String.singleton w := by
      rw [← String.toList_inj]
      simp
    rw [text, Rule.ofMessage_missingWord hw inert]
    simp only [semicolon, brace, one]

theorem Sketch.parse_eq_error {source : Text} {e : SyntaxError}
    (h : (match Sketch.parse source with | .ok _ => none | .error e => some e) = some e) :
    Sketch.parse source = .error e := by
  cases parsed : Sketch.parse source with
  | ok s =>
    rw [parsed] at h
    cases h
  | error e' =>
    rw [parsed] at h
    rw [Option.some.inj h]

namespace SyntaxError

variable {source : Text} {e : SyntaxError} {found : String} {expected : List Expectation}
  {t : MessageTable}

/-- The hint for extraneous input is about the whole message. -/
theorem hint_of_extraneous (cause : e.cause = .extraneous found expected)
    (h : Rule.Passed t (e.message source).toList)
    (viable : hasPart Rule.noViable (e.message source).toList = false) :
    Hint.ofMessage t (e.message source) =
      ⟨t.render MessageTable.extraneous (e.message source), false⟩ := by
  have starts : "extraneous input '".toList <+: (e.message source).toList := by
    rw [message, cause]
    simp only [String.toList_append, List.append_assoc]
    exact List.prefix_append _ _
  have hint := Rule.ofMessage_extraneous h starts viable
  rwa [String.ofList_toList] at hint

/-- The hint for mismatched input is about the token that was found. -/
theorem hint_of_mismatched (cause : e.cause = .mismatched found expected)
    (h : Rule.Passed t (e.message source).toList)
    (extraneous : Rule.mentions "extraneous" (e.message source).toList = false)
    (feed : '\n' ∉ (e.message source).toList)
    (last : ¬"' expecting ".toList <:+: (Expectation.shownAll expected).toList) :
    Hint.ofMessage t (e.message source) = ⟨t.render MessageTable.mismatched found, false⟩ := by
  have text : (e.message source).toList = "mismatched input '".toList ++
      (found.toList ++ "' expecting ".toList ++ (Expectation.shownAll expected).toList) := by
    rw [message, cause]
    simp only [String.toList_append, List.append_assoc]
  have hint := Rule.ofMessage_mismatched text h extraneous feed last
  rwa [String.ofList_toList, String.ofList_toList] at hint

/-- A name can hide that it is extraneous. -/
theorem hint_of_extraneous_name :
    let source : Text := "int x = 5 missing ;\n".toList
    let e : SyntaxError := ⟨.extraneous "missing" [.word ";"], ⟨10, 1, 10⟩⟩
    Sketch.parse source = .error e ∧ Hint.ofMessage .standard (e.message source) =
      ⟨"Syntax Error - Missing 'character'?", false⟩ := by
  intro source e
  exact ⟨Sketch.parse_eq_error (by decide +kernel), by decide +kernel⟩

end SyntaxError

end SketchPrep
