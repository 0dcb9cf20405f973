import SketchPrep.Proofs.Syntax.Unspanned
import SketchPrep.Proofs.Token.Spacing

/-!
Types as they can be written: primitive types, and names with type arguments and brackets. A form
tells its lexemes, which are printed without blanks where no blank is needed, and its tree. Main
statement: `TypeForm.writtenAs`, what is printed is read as the lexemes of the form, however many
angle brackets close side by side.
-/

namespace SketchPrep

open Token Token.Lexer

/-- A kind and a spelling. -/
abbrev Lexeme := Token.Kind × String

def isWord (w : String) : Bool := w.toList.head?.any startsName && w.toList.tail.all continuesName

structure Identifier where
  word : String
  isWord : isWord word
  notKeyword : word ∉ keywords

/-- The word before the bound of a wildcard. -/
inductive BoundWord where
  | extending
  | above

def BoundWord.word : BoundWord → String
  | .extending => "extends"
  | .above => "super"

mutual

/-- A type with its pairs of brackets. A name begins with no primitive type. -/
inductive TypeForm where
  | primitive (word : String) (isPrimitive : word ∈ primitiveTypes) (dims : Nat)
  | named (name : Identifier) (notPrimitive : name.word ∉ primitiveTypes)
      (args : Option (List ArgForm)) (others : List SegmentForm) (dims : Nat)

/-- A name behind a point. -/
inductive SegmentForm where
  | mk (name : Identifier) (args : Option (List ArgForm))

/-- A type argument: a type, or a wildcard with a bound or without one. -/
inductive ArgForm where
  | type (t : TypeForm)
  | any
  | bounded (word : BoundWord) (bound : TypeForm)

end

/-! ### Lexemes -/

namespace Lexeme

def sign (w : String) : Lexeme := (.punctuation, w)

def word (w : String) : Lexeme := (wordKind w.toList, w)

def brackets : Nat → List Lexeme
  | 0 => []
  | n + 1 => sign "[" :: sign "]" :: brackets n

/-- A blank is printed where the next word would be taken for more of this one. -/
def print (l : Lexeme) : Text :=
  if l.2 = "extends" ∨ l.2 = "super" then l.2.toList ++ [' '] else l.2.toList

end Lexeme

open Lexeme

mutual

def TypeForm.lexemes : TypeForm → List Lexeme
  | .primitive w _ dims => word w :: brackets dims
  | .named name _ args others dims =>
    word name.word :: (argsLexemes args ++ (segmentsLexemes others ++ brackets dims))

/-- Type arguments in angle brackets, or nothing. -/
def argsLexemes : Option (List ArgForm) → List Lexeme
  | none => []
  | some [] => [sign "<", sign ">"]
  | some (a :: as) => sign "<" :: (a.lexemes ++ (othersLexemes as ++ [sign ">"]))

/-- Arguments behind a first one. -/
def othersLexemes : List ArgForm → List Lexeme
  | [] => []
  | a :: as => sign "," :: (a.lexemes ++ othersLexemes as)

def ArgForm.lexemes : ArgForm → List Lexeme
  | .type t => t.lexemes
  | .any => [sign "?"]
  | .bounded w bound => sign "?" :: word w.word :: bound.lexemes

def segmentsLexemes : List SegmentForm → List Lexeme
  | [] => []
  | ⟨name, args⟩ :: ss =>
    sign "." :: word name.word :: (argsLexemes args ++ segmentsLexemes ss)

end

/-! ### Trees -/

def Identifier.ident (name : Identifier) : Ident := ⟨name.word, .nowhere⟩

mutual

def TypeForm.tree : TypeForm → TypeRef
  | .primitive w _ dims => ⟨.primitive ⟨w, .nowhere⟩, dims, .nowhere⟩
  | .named name _ args others dims =>
    ⟨.named (⟨name.ident, argsTrees args⟩ :: segmentTrees others), dims, .nowhere⟩

def argsTrees : Option (List ArgForm) → Option (List TypeRef)
  | none => none
  | some as => some (argTrees as)

def argTrees : List ArgForm → List TypeRef
  | [] => []
  | a :: as => a.tree :: argTrees as

def ArgForm.tree : ArgForm → TypeRef
  | .type t => t.tree
  | .any => ⟨.wildcard none, 0, .nowhere⟩
  | .bounded _ bound => ⟨.wildcard (some bound.tree), 0, .nowhere⟩

def segmentTrees : List SegmentForm → List TypeSegment
  | [] => []
  | ⟨name, args⟩ :: ss => ⟨name.ident, argsTrees args⟩ :: segmentTrees ss

end

def printed (ls : List Lexeme) : Text := ls.flatMap print

def TypeForm.text (t : TypeForm) : Text := printed t.lexemes

example :
    TypeForm.text (.named ⟨"Map", by decide, by decide⟩ (by decide) (some [.any,
      .type (.named ⟨"List", by decide, by decide⟩ (by decide) (some [.bounded .above
        (.primitive "int" (by decide) 1)]) [⟨⟨"Node", by decide, by decide⟩, some []⟩] 0)]) [] 1) =
      "Map<?,List<?super int[]>.Node<>>[]".toList := by
  decide

@[simp] theorem printed_nil : printed [] = [] := rfl

@[simp] theorem printed_cons (l : Lexeme) (ls : List Lexeme) :
    printed (l :: ls) = l.print ++ printed ls := List.flatMap_cons

@[simp] theorem printed_append (ls ms : List Lexeme) :
    printed (ls ++ ms) = printed ls ++ printed ms := List.flatMap_append

/-! ### Printed lexemes are read again -/

theorem isWord_of_primitive : ∀ w ∈ primitiveTypes, isWord w := by decide

theorem BoundWord.isWord (w : BoundWord) : isWord w.word := by cases w <;> decide

theorem exists_of_isWord {w : String} (h : isWord w) :
    ∃ c tail, w.toList = c :: tail ∧ startsName c ∧ ∀ d ∈ tail, continuesName d := by
  cases hw : w.toList with
  | nil => simp [isWord, hw] at h
  | cons c tail => exact ⟨c, tail, rfl, by simpa [isWord, hw] using h⟩

/-- What may stand right behind a word. -/
structure Follows (r : Text) (ls : List Lexeme) : Prop where
  written : WrittenAs r ls
  apart : ∀ c ∈ r.head?, continuesName c = false

variable {r : Text} {ls : List Lexeme}

theorem isLexeme_of_isWord {w : String} (h : isWord w)
    (hr : ∀ c ∈ r.head?, continuesName c = false) : IsLexeme w.toList (wordKind w.toList) r := by
  obtain ⟨c, tail, hw, hc, ht⟩ := exists_of_isWord h
  rw [hw]
  exact isLexeme_word hc ht hr

theorem writtenAs_word {w : String} (h : isWord w) (hw : ¬(w = "extends" ∨ w = "super"))
    (hr : Follows r ls) : WrittenAs ((word w).print ++ r) (word w :: ls) := by
  have own := WrittenAs.lexeme (isLexeme_of_isWord h hr.apart) hr.written
  rw [String.ofList_toList] at own
  have print : (word w).print = w.toList := if_neg hw
  rwa [print]

theorem follows_blank (hr : WrittenAs r ls) : Follows (' ' :: r) ls := by
  have blank : isBlank ' ' := by decide
  refine ⟨.blank blank hr, ?_⟩
  intro c hc
  rw [← Option.some.inj hc]
  decide

theorem BoundWord.writtenAs (w : BoundWord) (hr : WrittenAs r ls) :
    WrittenAs ((Lexeme.word w.word).print ++ r) (Lexeme.word w.word :: ls) := by
  have behind := follows_blank hr
  have own := WrittenAs.lexeme (isLexeme_of_isWord w.isWord behind.apart) behind.written
  rw [String.ofList_toList] at own
  have spelled : w.word = "extends" ∨ w.word = "super" := by cases w <;> decide
  have print : (Lexeme.word w.word).print = w.word.toList ++ [' '] := if_pos spelled
  rwa [print, List.append_assoc]

theorem follows_sign {w : String} {c : Char} (hw : w.toList = [c])
    (hc : c ∈ signs ∧ continuesName c = false ∧ c ≠ '/') (hr : WrittenAs r ls)
    (hmax : ∀ d ∈ r.head?, ∀ s ∈ longSigns, ¬[c, d] <+: s)
    (hdot : c = '.' → ∀ d ∈ r.head?, d.isDigit = false) :
    Follows ((sign w).print ++ r) (sign w :: ls) := by
  have isLexeme : IsLexeme [c] .punctuation r := by
    refine isLexeme_sign (.inr ⟨c, hc.1, rfl⟩) (noLonger_singleton hmax) ?_ ?_
    · intro h
      exact hdot (List.cons.inj h).1
    · intro h
      exact absurd (List.cons.inj h).1 hc.2.2
  have short : ¬(w = "extends" ∨ w = "super") := by
    intro bound
    rcases bound with rfl | rfl <;> exact absurd (congrArg List.tail hw) (by simp)
  have print : (sign w).print = [c] := (if_neg short).trans hw
  have own := WrittenAs.lexeme isLexeme hr
  rw [← hw, String.ofList_toList, hw] at own
  rw [print]
  refine ⟨own, ?_⟩
  intro d hd
  rw [← Option.some.inj hd]
  exact hc.2.1

/-- No longer sign begins with one of these. -/
theorem follows_mark {w : String} (hw : w ∈ [">", ",", "?", "[", "]", ";"]) (hr : WrittenAs r ls) :
    Follows ((sign w).print ++ r) (sign w :: ls) := by
  have mark : signs.any fun c => w.toList = [c] ∧ (continuesName c = false ∧ c ≠ '/') ∧ c ≠ '.' ∧
      ∀ s ∈ longSigns, s.head? ≠ some c := by
    revert w
    decide
  obtain ⟨c, hc, facts⟩ := List.any_eq_true.1 mark
  obtain ⟨hw, others, hdot, alone⟩ := of_decide_eq_true facts
  refine follows_sign hw ⟨hc, others⟩ hr ?_ fun h => absurd h hdot
  intro d _ s hs pre
  obtain ⟨t, rfl⟩ := pre
  exact alone _ hs rfl

theorem follows_open (hr : WrittenAs r ls) (h : ∀ d ∈ r.head?, d ≠ '<' ∧ d ≠ '=') :
    Follows ((sign "<").print ++ r) (sign "<" :: ls) := by
  have second : ∀ s ∈ longSigns, s.head? = some '<' →
      s.tail.head?.all fun d => d = '<' ∨ d = '=' := by decide
  refine follows_sign (c := '<') rfl (by decide) hr ?_ fun h => absurd h (by decide)
  intro d hd s hs pre
  obtain ⟨t, rfl⟩ := pre
  exact not_or.2 (h d hd) (of_decide_eq_true (second _ hs rfl))

theorem follows_point (hr : WrittenAs r ls) (h : ∀ d ∈ r.head?, startsName d) :
    Follows ((sign ".").print ++ r) (sign "." :: ls) := by
  have second : ∀ s ∈ longSigns, s.head? = some '.' →
      s.tail.head?.all fun d => startsName d = false := by decide
  refine follows_sign (c := '.') rfl (by decide) hr ?_ ?_
  · intro d hd s hs pre
    obtain ⟨t, rfl⟩ := pre
    have no : startsName d = false := of_decide_eq_true (second _ hs rfl)
    rw [h d hd] at no
    cases no
  · intro _ d hd
    refine Bool.eq_false_iff.2 fun digit => ?_
    have no := startsName_of_isDigit digit
    rw [h d hd] at no
    cases no

theorem follows_brackets (h : Follows r ls) (n : Nat) :
    Follows (printed (brackets n) ++ r) (brackets n ++ ls) := by
  induction n with
  | zero => exact h
  | succ n ih =>
    have close := follows_mark (w := "]") (by decide) ih.written
    have pair := follows_mark (w := "[") (by decide) close.written
    simpa [brackets] using pair

theorem startsName_print {w : String} (h : isWord w) (r : Text) :
    ∀ d ∈ ((word w).print ++ r).head?, startsName d := by
  obtain ⟨c, tail, spelled, starts, -⟩ := exists_of_isWord h
  have print : ∃ u, (word w).print = c :: u := by
    unfold Lexeme.print
    split
    · exact ⟨tail ++ [' '], congrArg (· ++ [' ']) spelled⟩
    · exact ⟨tail, spelled⟩
  obtain ⟨u, print⟩ := print
  intro d hd
  rw [print] at hd
  rwa [← Option.some.inj hd]

/-- A type begins with a word. -/
theorem TypeForm.exists_word (t : TypeForm) : ∃ w more, t.lexemes = word w :: more ∧ isWord w ∧
    (w ∈ primitiveTypes ∨ w ∉ keywords) := by
  cases t with
  | primitive w h dims => exact ⟨w, _, rfl, isWord_of_primitive w h, .inl h⟩
  | named name h args others dims => exact ⟨name.word, _, rfl, name.isWord, .inr name.notKeyword⟩

theorem TypeForm.startsName_head (t : TypeForm) (r : Text) :
    ∀ d ∈ (printed t.lexemes ++ r).head?, startsName d := by
  obtain ⟨w, more, lexemes, isWord, -⟩ := t.exists_word
  rw [lexemes, printed_cons, List.append_assoc]
  exact startsName_print isWord _

theorem ArgForm.opens (a : ArgForm) (r : Text) :
    ∀ d ∈ (printed a.lexemes ++ r).head?, d ≠ '<' ∧ d ≠ '=' := by
  intro d hd
  have not_of_startsName (h : startsName d) : d ≠ '<' ∧ d ≠ '=' := by
    constructor
    · intro same
      rw [same] at h
      exact absurd h (by decide)
    · intro same
      rw [same] at h
      exact absurd h (by decide)
  cases a with
  | type t => exact not_of_startsName (t.startsName_head r d hd)
  | any | bounded w bound =>
    obtain rfl : '?' = d := Option.some.inj hd
    decide

theorem Identifier.not_bound (name : Identifier) :
    ¬(name.word = "extends" ∨ name.word = "super") := by
  intro bound
  rcases bound with bound | bound <;> exact name.notKeyword (bound ▸ by decide)

theorem Identifier.writtenAs (name : Identifier) (h : Follows r ls) :
    WrittenAs ((Lexeme.word name.word).print ++ r) (Lexeme.word name.word :: ls) :=
  writtenAs_word name.isWord name.not_bound h

mutual

/-- A form is written by its text, whatever may stand right behind a word behind it. -/
theorem TypeForm.writtenAs {r : Text} {ls : List Lexeme} (t : TypeForm) (h : Follows r ls) :
    WrittenAs (printed t.lexemes ++ r) (t.lexemes ++ ls) := by
  match t with
  | .primitive w hw dims =>
    have plain : ¬(w = "extends" ∨ w = "super") := by
      intro bound
      rcases bound with rfl | rfl <;> exact absurd hw (by decide)
    have whole := writtenAs_word (isWord_of_primitive w hw) plain (follows_brackets h dims)
    simpa [TypeForm.lexemes] using whole
  | .named name _ args others dims =>
    have behind := follows_args args (follows_segments others (follows_brackets h dims))
    simpa [TypeForm.lexemes] using name.writtenAs behind

theorem follows_args {r : Text} {ls : List Lexeme} (args : Option (List ArgForm))
    (h : Follows r ls) : Follows (printed (argsLexemes args) ++ r) (argsLexemes args ++ ls) := by
  match args with
  | none => exact h
  | some [] =>
    have close := follows_mark (w := ">") (by decide) h.written
    have both := follows_open close.written fun d hd => by
      obtain rfl : '>' = d := Option.some.inj hd
      decide
    simpa [argsLexemes] using both
  | some (a :: as) =>
    have close := follows_mark (w := ">") (by decide) h.written
    have items := a.writtenAs (follows_others as close)
    have whole := follows_open items (a.opens _)
    simpa [argsLexemes] using whole

theorem follows_others {r : Text} {ls : List Lexeme} (as : List ArgForm) (h : Follows r ls) :
    Follows (printed (othersLexemes as) ++ r) (othersLexemes as ++ ls) := by
  match as with
  | [] => exact h
  | a :: as =>
    have items := a.writtenAs (follows_others as h)
    simpa [othersLexemes] using follows_mark (w := ",") (by decide) items

theorem ArgForm.writtenAs {r : Text} {ls : List Lexeme} (a : ArgForm) (h : Follows r ls) :
    WrittenAs (printed a.lexemes ++ r) (a.lexemes ++ ls) := by
  match a with
  | .type t => exact t.writtenAs h
  | .any => simpa [ArgForm.lexemes] using (follows_mark (w := "?") (by decide) h.written).written
  | .bounded w bound =>
    have behind := w.writtenAs (bound.writtenAs h)
    simpa [ArgForm.lexemes] using (follows_mark (w := "?") (by decide) behind).written

theorem follows_segments {r : Text} {ls : List Lexeme} (ss : List SegmentForm)
    (h : Follows r ls) :
    Follows (printed (segmentsLexemes ss) ++ r) (segmentsLexemes ss ++ ls) := by
  match ss with
  | [] => exact h
  | ⟨name, args⟩ :: ss =>
    have behind := name.writtenAs (follows_args args (follows_segments ss h))
    have whole := follows_point behind (startsName_print name.isWord _)
    simpa [segmentsLexemes] using whole

end

/-- The type in the declaration of a variable. -/
def TypeForm.declaration (t : TypeForm) (name : Identifier) : Text :=
  t.text ++ ' ' :: (name.word.toList ++ [';'])

theorem TypeForm.tokenize_declaration (t : TypeForm) (name : Identifier) :
    ∃ ts, tokenize (t.declaration name) = .ok ts ∧
      ts.lexemes = t.lexemes ++ [word name.word, sign ";"] := by
  have close := follows_mark (w := ";") (by decide) .nil
  have last := name.writtenAs close
  have print : (Lexeme.word name.word).print = name.word.toList := if_neg name.not_bound
  rw [print] at last
  exact (t.writtenAs (follows_blank last)).tokenize

end SketchPrep
