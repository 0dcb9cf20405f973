import SketchPrep.Diagnosis.Chain
import SketchPrep.Proofs.Diagnosis.Pattern
import SketchPrep.Proofs.Text.Parts

/-!
Which rule answers a message. Main statement: `Hint.ofMessage_of_isPlain`, a message in plain words
is its own hint, whatever the table.
-/

namespace SketchPrep

open Text

namespace Rule

/-! ### Signs and words that rules look for -/

/-- Every shape has a character of these. -/
def isMark (c : Char) : Bool :=
  "<>=;,\"'()\x7b\x7d".toList.contains c || CharClass.isDecimalDigit c

/-- None of the marks, and none of the words by which the rules know what a message is about. -/
def isPlain (cs : Text) : Bool :=
  !cs.any isMark && !(["missing", "extraneous", "mismatched input"].any (mentions · cs)) &&
    !hasPart noViable cs

structure Plain (cs : Text) : Prop where
  unmarked : ∀ c ∈ cs, isMark c = false
  missing : mentions "missing" cs = false
  extraneous : mentions "extraneous" cs = false
  mismatched : mentions "mismatched input" cs = false
  viable : hasPart noViable cs = false

theorem isPlain_iff {cs : Text} : isPlain cs ↔ Plain cs := by
  simp only [isPlain, Bool.and_eq_true, Bool.not_eq_true', List.any_eq_false, List.any_cons,
    List.any_nil, Bool.or_eq_false_iff, Bool.not_eq_true]
  constructor
  · rintro ⟨⟨unmarked, missing, extraneous, mismatched, -⟩, viable⟩
    exact ⟨unmarked, missing, extraneous, mismatched, viable⟩
  · rintro ⟨unmarked, missing, extraneous, mismatched, viable⟩
    exact ⟨⟨unmarked, missing, extraneous, mismatched, trivial⟩, viable⟩

theorem mentions_iff {part : String} {cs : Text} :
    mentions part cs ↔ part.toList <:+: cs.map Char.toLower := hasPart_iff

theorem mentions_of_part {part whole : String} {cs : Text} (h : part.toList <:+: whole.toList)
    (hw : mentions whole cs) : mentions part cs := mentions_iff.2 (h.trans (mentions_iff.1 hw))

theorem isMark_of_isDigit {c : Char} (h : c.isDigit) : isMark c := by
  simp [isMark, CharClass.isDecimalDigit, h]

/-! ### Shapes -/

namespace Shape

open Pattern

theorem needs_digit : Needs isMark (oneOf [range '0' '9']) := by
  refine needs_set fun c hc => isMark_of_isDigit ?_
  have digit : '0' ≤ c ∧ c ≤ '9' := by simpa [CharSet.has, CharSet.Part.has, range] using hc
  simpa [Char.isDigit, Char.le_def] using digit

theorem needs_emptyGeneric : Needs isMark emptyGeneric := by
  refine needs_inOrder (p := spelled "<>") (by simp) ?_
  exact needs_inOrder (p := one '<') (by simp) (needs_one (by decide))

theorem needs_openAssignment : Needs isMark openAssignment :=
  needs_inOrder (p := one '=') (by simp) (needs_one (by decide))

theorem needs_loneName : Needs isMark loneName :=
  needs_inOrder (p := one ';') (by simp) (needs_one (by decide))

theorem needs_digitsInName : Needs isMark digitsInName := by
  refine needs_either (needs_inOrder (by simp) needs_digit) (needs_either ?_ ?_)
  · refine needs_inOrder (p := atLeastOne (oneOf [.digit])) (by simp) (needs_append_left ?_)
    refine needs_set fun c hc => ?_
    have digit : CharClass.isDecimalDigit c := by simpa [CharSet.has, CharSet.Part.has] using hc
    simp [isMark, digit]
  · exact needs_inOrder (p := oneOf [range '0' '9']) (by simp) needs_digit

theorem needs_classHead : Needs isMark classHead :=
  needs_inOrder (p := one '\x7b') (by simp) (needs_one (by decide))

theorem needs_methodHead : Needs isMark methodHead :=
  needs_inOrder (p := one '\x7b') (by simp) (needs_one (by decide))

theorem needs_parameter : Needs isMark parameter :=
  needs_either (needs_inOrder (p := one ',') (by simp) (needs_one (by decide)))
    (needs_either (needs_inOrder (p := one ')') (by simp) (needs_one (by decide)))
      (needs_inOrder (p := one '(') (by simp) (needs_one (by decide))))

end Shape

/-! ### Rules that leave a message to the next -/

variable {t : MessageTable} {cs : Text}

theorem shaped_eq_none {occurs : Text → Bool} {key : String} (h : occurs cs = false) :
    shaped occurs key t cs = none := by
  rw [shaped, h, if_neg Bool.false_ne_true]

theorem unterminatedLiteral_eq_none (h : ¬"token recognition error at: '".toList <+: cs) :
    unterminatedLiteral t cs = none := by
  rw [unterminatedLiteral, after?_eq_none.2 h]

theorem unterminatedLiteral_of_head {c : Char} (h : cs.head? = some c) (hc : c ≠ 't') :
    unterminatedLiteral t cs = none := by
  refine unterminatedLiteral_eq_none fun starts => ?_
  obtain ⟨rest, rfl⟩ := starts
  exact hc (Option.some.inj h).symm

theorem missingBrace_eq_none (h : cs ≠ "missing ';' at '\x7b'".toList) :
    missingBrace t cs = none := by
  rw [missingBrace, if_neg h]

theorem missingIdentifier_eq_none (h : mentions "missing identifier at" cs = false) :
    missingIdentifier t cs = none := by
  rw [missingIdentifier, h, if_neg Bool.false_ne_true]

theorem missingToken_eq_none (h : mentions "missing" cs = false) : missingToken t cs = none := by
  rw [missingToken, h, if_neg Bool.false_ne_true]

theorem extraneousToken_eq_none (h : mentions "extraneous" cs = false) :
    extraneousToken t cs = none := by
  rw [extraneousToken, h, if_neg Bool.false_ne_true]

theorem mismatchedToken_eq_none (h : mentions "mismatched input" cs = false) :
    mismatchedToken t cs = none := by
  rw [mismatchedToken, h, if_neg Bool.false_ne_true]

theorem quotedCode_eq (h : hasPart noViable cs = false) : quotedCode cs = cs := by
  rw [quotedCode, h, if_neg Bool.false_ne_true]

theorem not_mentions_identifier (h : mentions "missing" cs = false) :
    mentions "missing identifier at" cs = false :=
  Bool.eq_false_iff.2 fun found =>
    Bool.eq_false_iff.1 h (mentions_of_part (by decide) found)

namespace Plain

variable (h : Plain cs)

include h

theorem not_mem {c : Char} (hc : isMark c) : c ∉ cs := fun mem => by
  rw [h.unmarked c mem] at hc
  cases hc

theorem missingBody : Rule.missingBody t cs = none := by
  have brace : '\x7d' ∉ cs := h.not_mem (by decide)
  rw [Rule.missingBody, if_neg]
  rw [Bool.or_eq_true, List.isSuffixOf_iff_suffix, List.isSuffixOf_iff_suffix]
  rintro (ends | ends)
  · exact brace (ends.subset (by decide))
  · exact brace (ends.subset (by decide))

theorem missingBrace : Rule.missingBrace t cs = none := by
  refine missingBrace_eq_none ?_
  rintro rfl
  exact h.not_mem (c := ';') (by decide) (by decide)

theorem unterminatedLiteral : Rule.unterminatedLiteral t cs = none :=
  unterminatedLiteral_eq_none fun start =>
    h.not_mem (c := '\'') (by decide) (start.subset (by decide))

/-- Where the token is a mark, its number is even. -/
theorem unpaired {c : Char} {token escaped : String} (spelled : token.toList = [c])
    (hc : isMark c) : Rule.unpaired token escaped t cs = none := by
  have none : c ∉ removeAll escaped.toList cs := fun mem => h.not_mem hc (mem_of_mem_removeAll mem)
  rw [Rule.unpaired, quotedCode_eq h.viable]
  simp only [spelled, occurrences_eq_zero none]
  rfl

theorem unbalanced {c d : Char} {opener closer : String} (opens : opener.toList = [c])
    (closes : closer.toList = [d]) (hc : isMark c) (hd : isMark d) :
    Rule.unbalanced opener closer t cs = none := by
  rw [Rule.unbalanced, quotedCode_eq h.viable]
  simp only [opens, closes, occurrences_eq_zero (h.not_mem hc), occurrences_eq_zero (h.not_mem hd),
    if_true]

theorem fallback : Rule.fallback t cs = plain (String.ofList cs) := by
  rw [Rule.fallback, h.viable, if_neg Bool.false_ne_true]

end Plain

end Rule

/-- No rule but the last has an answer to a message in plain words. -/
theorem Hint.ofMessage_of_isPlain {message : String} (h : Rule.isPlain message.toList)
    (t : MessageTable) : ofMessage t message = ⟨message, false⟩ := by
  have plain := Rule.isPlain_iff.1 h
  have generic := Rule.Shape.needs_emptyGeneric.not_endsText plain.unmarked
  have assignment := Rule.Shape.needs_openAssignment.not_endsText plain.unmarked
  have name := Rule.Shape.needs_loneName.not_endsText plain.unmarked
  have digits := Rule.Shape.needs_digitsInName.not_occursIn plain.unmarked
  have classHead := Rule.Shape.needs_classHead.not_occursIn plain.unmarked
  have methodHead := Rule.Shape.needs_methodHead.not_occursIn plain.unmarked
  have parameter := Rule.Shape.needs_parameter.not_occursIn plain.unmarked
  have double : Rule.unpaired "\"" "\\\"" t message.toList = none :=
    plain.unpaired rfl (by decide)
  have single : Rule.unpaired "'" "\\'" t message.toList = none := plain.unpaired rfl (by decide)
  have braces : Rule.unbalanced "\x7b" "\x7d" t message.toList = none :=
    plain.unbalanced rfl rfl (by decide) (by decide)
  have parens : Rule.unbalanced "(" ")" t message.toList = none :=
    plain.unbalanced rfl rfl (by decide) (by decide)
  have angles : Rule.unbalanced "<" ">" t message.toList = none :=
    plain.unbalanced rfl rfl (by decide) (by decide)
  have answer : (Rule.chain.findSome? fun rule => rule t message.toList) =
      some ⟨message, false⟩ := by
    simp only [Rule.chain, List.findSome?_cons, plain.unterminatedLiteral, plain.missingBody,
      plain.missingBrace, Rule.shaped_eq_none generic,
      Rule.missingIdentifier_eq_none (Rule.not_mentions_identifier plain.missing),
      Rule.missingToken_eq_none plain.missing, Rule.extraneousToken_eq_none plain.extraneous,
      Rule.mismatchedToken_eq_none plain.mismatched, Rule.shaped_eq_none assignment,
      Rule.shaped_eq_none name, Rule.shaped_eq_none digits, Rule.shaped_eq_none classHead,
      Rule.shaped_eq_none methodHead, Rule.shaped_eq_none parameter,
      double, single, braces, parens, angles, plain.fallback, Rule.plain, String.ofList_toList]
  rw [ofMessage, answer, Option.getD_some]

end SketchPrep
