import SketchPrep.Proofs.Finding.Descent
import SketchPrep.Proofs.Finding.Removal
import SketchPrep.Proofs.Literal.Escaping

/-!
What the walk inserts stands on one line. Main statement: `onOneLine_ofItems`, if a sketch has no
text block, none of the texts that its walk inserts has a line feed.
-/

namespace SketchPrep

open Text Token Lexer

namespace Literal

theorem not_mem_upper_of_isHexDigit {c : Char} (h : isHexDigit c) :
    '\n' ∉ CharClass.upper c := by
  have ascii : c.toNat < 128 := by
    simp only [isHexDigit, Char.isDigit, Bool.or_eq_true, Bool.and_eq_true, decide_eq_true_eq,
      Char.le_def, UInt32.le_iff_toNat_le, ge_iff_le] at h
    rw [Char.toNat]
    rcases h with (⟨-, hi⟩ | ⟨-, hi⟩) | ⟨-, hi⟩ <;> exact Nat.lt_of_le_of_lt hi (by decide)
  have all : ∀ n < 128, isHexDigit (Char.ofNat n) → '\n' ∉ CharClass.upper (Char.ofNat n) := by
    decide
  have here := all c.toNat ascii
  rw [Char.ofNat_toNat] at here
  exact here h

/-- A colour is written on one line. -/
theorem not_mem_hexColor {tail : Text} (h : ∀ d ∈ tail, isHexDigit d) :
    '\n' ∉ hexColor ('#' :: tail) := by
  have upper : '\n' ∉ ('#' :: tail).flatMap CharClass.upper := by
    intro feed
    obtain ⟨d, hd, feed⟩ := List.mem_flatMap.1 feed
    rcases List.mem_cons.1 hd with rfl | hd
    · exact absurd feed (by decide)
    · exact not_mem_upper_of_isHexDigit (h d hd) feed
  intro feed
  obtain ⟨d, hd, feed⟩ := List.mem_flatMap.1 feed
  split at feed
  · split at feed
    · exact absurd feed (by decide)
    · exact absurd feed (by decide)
  · rw [List.mem_singleton] at feed
    exact upper (feed ▸ hd)

end Literal

namespace Finding

open Phrase

variable {c : Context} {b : Bool} {p : Phrase} {text : Text} {offset : Nat} {span : Span}
  {fs gs : List Finding}

/-- Nothing that is inserted has a line feed. -/
def OnOneLine (fs : List Finding) : Prop :=
  ∀ offset text, .insert offset text ∈ requests fs → '\n' ∉ text

theorem onOneLine_nil : OnOneLine [] := by simp [OnOneLine, requests]

theorem OnOneLine.append (h : OnOneLine fs) (k : OnOneLine gs) : OnOneLine (fs ++ gs) := by
  intro offset text inserted
  rw [requests_append, List.mem_append] at inserted
  exact inserted.elim (h offset text) (k offset text)

theorem onOneLine_of_mem (h : ∀ f ∈ fs, OnOneLine [f]) : OnOneLine fs := by
  intro offset text inserted
  obtain ⟨f, hf, hreq⟩ := List.mem_filterMap.1 inserted
  exact h f hf offset text (List.mem_filterMap.2 ⟨f, List.mem_singleton_self f, hreq⟩)

theorem OnOneLine.of_mem {f : Finding} (h : OnOneLine fs) (hf : f ∈ fs) : OnOneLine [f] := by
  intro offset text inserted
  obtain ⟨f', hf', hreq⟩ := List.mem_filterMap.1 inserted
  obtain rfl := List.mem_singleton.1 hf'
  exact h offset text (List.mem_filterMap.2 ⟨f', hf, hreq⟩)

/-! ### What the walk writes -/

theorem onOneLine_insertBefore (h : '\n' ∉ text) :
    OnOneLine ((Draft.insertBefore offset text).map .edit) := by
  intro offset' text' inserted
  simp only [Draft.insertBefore, requests, request?, List.map_cons, List.map_nil,
    List.filterMap_cons, List.filterMap_nil, List.mem_singleton, Draft.Request.insert.injEq]
    at inserted
  rw [inserted.2]
  exact h

theorem onOneLine_deleteSpan (span : Span) :
    OnOneLine ((Draft.deleteSpan span).map .edit) := by
  intro offset text inserted
  unfold Draft.deleteSpan at inserted
  split at inserted <;> simp [requests, request?] at inserted

theorem not_mem_prepare (c : Context) (h : '\n' ∉ text) : '\n' ∉ c.prepare text := by
  unfold Context.prepare
  split
  · rw [← List.count_eq_zero, Literal.count_escapeUnicode, List.count_eq_zero]
    exact h
  · exact h

theorem onOneLine_insert (h : '\n' ∉ text) : OnOneLine (c.insert offset text) :=
  onOneLine_insertBefore (not_mem_prepare c h)

theorem onOneLine_replaceSpan (h : '\n' ∉ text) :
    OnOneLine ((Draft.replaceSpan span text).map .edit) := by
  rw [Draft.replaceSpan, List.map_append]
  exact (onOneLine_insertBefore h).append (onOneLine_deleteSpan span)

theorem onOneLine_replace (h : '\n' ∉ text) : OnOneLine (c.replace span text) :=
  onOneLine_replaceSpan (not_mem_prepare c h)

theorem onOneLine_ofHoisted {call : SettingsCall} (h : call.isAccepted) :
    OnOneLine (ofHoisted span call) := by
  have all : ∀ name ∈ SettingsCall.names, '\n' ∉ marker name := by decide
  exact onOneLine_replaceSpan (all _ (name_of_isAccepted h))

theorem onOneLine_ofCandidate (s : Stmt) : OnOneLine (ofCandidate c b s) := by
  intro offset text inserted
  simp at inserted

theorem onOneLine_ofConversion (name : Ident) : OnOneLine (ofConversion c name) := by
  unfold ofConversion
  split
  · rename_i method conversion
    refine onOneLine_replace ?_
    unfold Literal.conversion? at conversion
    split at conversion
    all_goals first | cases conversion; decide | cases conversion
  · exact onOneLine_nil

theorem onOneLine_ofVisibility (decl : MethodDecl) : OnOneLine (ofVisibility c b decl) := by
  unfold ofVisibility
  split
  · split
    · exact onOneLine_insert (by decide)
    · exact onOneLine_insert (by decide)
  · exact onOneLine_nil

theorem onOneLine_ofLiteral {kind : LiteralKind} {t : Token} {rest : Text}
    (hkind : literalKind? t = some kind) (lexeme : IsLexeme t.text.toList t.kind rest)
    (plain : t.kind ≠ .textBlock) : OnOneLine (ofLiteral c span kind t.text.toList) := by
  obtain ⟨color, block⟩ := Removal.literalKind?_eq hkind
  cases kind with
  | float =>
    simp only [ofLiteral]
    split
    · exact onOneLine_insert (by decide)
    · exact onOneLine_nil
  | hexColor =>
    rw [color rfl] at lexeme
    obtain ⟨tail, text, -, digits⟩ := lexeme.exists_color
    rw [text]
    exact onOneLine_replace (Literal.not_mem_hexColor digits)
  | textBlock => exact absurd (block rfl) plain
  | _ => exact onOneLine_nil

/-! ### The tree -/

/-- The literals of a tree are written on one line. -/
def LiteralsOnOneLine (c : Context) (p : Phrase) : Prop :=
  ∀ kind text span, p.Contains (.expr ⟨.literal kind text, span⟩) →
    OnOneLine (ofLiteral c span kind text.toList)

theorem onOneLine_own (literals : LiteralsOnOneLine c p) : OnOneLine (own c b p) := by
  cases p with
  | callName id => exact onOneLine_ofConversion id
  | typeKind kind =>
    cases kind with
    | primitive id =>
      simp only [own, ofTypeKind]
      split
      · exact onOneLine_replace (by decide)
      · exact onOneLine_nil
    | _ => exact onOneLine_nil
  | expr e =>
    obtain ⟨kind, span⟩ := e
    cases kind with
    | literal kind text => exact literals kind text span (.refl _)
    | _ => exact onOneLine_nil
  | stmt s =>
    refine (onOneLine_ofCandidate s).append ?_
    split
    · rename_i call found
      exact onOneLine_ofHoisted (isAccepted_of_hoisted? found)
    · exact onOneLine_nil
  | methodDecl decl =>
    refine (onOneLine_ofVisibility decl).append ?_
    split
    · intro offset text inserted
      simp [requests, request?] at inserted
    · exact onOneLine_nil
  | member x =>
    cases x with
    | importation decl =>
      intro offset text inserted
      simp [own, requests, request?] at inserted
    | _ => exact onOneLine_nil
  | item x =>
    cases x with
    | importation decl => exact onOneLine_deleteSpan decl.span
    | _ => exact onOneLine_nil
  | _ => exact onOneLine_nil

theorem onOneLine_ofPhrase (literals : LiteralsOnOneLine c p) : OnOneLine (ofPhrase c b p) := by
  refine onOneLine_of_mem fun f hf => ?_
  obtain ⟨b', q, visits, found⟩ := mem_ofPhrase hf
  have inside : LiteralsOnOneLine c q := fun kind text span literal =>
    literals kind text span (visits.contains.trans literal)
  exact (onOneLine_own inside).of_mem found

/-- Without text blocks the walk over a sketch breaks no line. -/
theorem onOneLine_ofItems {source : Text} {s : Sketch} {ts : Tokens}
    (h : Sketch.parse source = .ok s) (hts : tokenize source = .ok ts)
    (plain : ∀ t ∈ ts.body, t.kind ≠ .textBlock) (c : Context) : OnOneLine (ofItems c s.items) := by
  obtain ⟨ts', hts', spells⟩ := s.spells_of_parse h
  obtain rfl := Except.ok.inj (hts'.symm.trans hts)
  refine onOneLine_of_mem fun f hf => ?_
  obtain ⟨item, hitem, found⟩ := List.mem_flatMap.1 hf
  have literals : LiteralsOnOneLine c (.item item) := by
    intro kind text span literal
    have contained : s.Contains (.expr ⟨.literal kind text, span⟩) := ⟨item, hitem, literal⟩
    obtain ⟨us, occurs⟩ := contained.occurs rfl spells
    obtain ⟨t, rfl, rfl, hkind⟩ := exists_token_literal occurs.spells.2
    have ht : t ∈ ts'.body := occurs.sublist.subset (.head _)
    obtain ⟨rest, lexeme⟩ := exists_lexeme_of_tokenize hts t ht
    exact onOneLine_ofLiteral hkind lexeme (plain t ht)
  have line : OnOneLine (ofPhrase c true (.item item)) := onOneLine_ofPhrase literals
  exact line.of_mem found

end Finding

end SketchPrep
