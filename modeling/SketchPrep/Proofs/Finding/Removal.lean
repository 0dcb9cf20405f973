import SketchPrep.Proofs.Finding.Visit
import SketchPrep.Proofs.Syntax.Occurrence
import SketchPrep.Proofs.Token.Spelling

/-!
What deletions take out of a sketch. Main statements: `exists_removal`, whatever the walk deletes is
of one of the kinds; `Removal.Covers.unique`, it is of one kind only.
-/

namespace SketchPrep

open Phrase Token

/-- What preprocessing takes out of a sketch. -/
inductive Removal where
  | importDecl
  | callStatement
  | colorType
  | conversionName
  | hexColor
  | textBlock
  | character
  deriving DecidableEq, Repr

namespace Removal

/-- The names that conversions are called by. -/
def conversionNames : List String := ["int", "float", "boolean", "byte", "char"]

/-- The span is just what is taken out: one whole import at the top level; one whole statement, which
calls a method that has to be called in `settings()` and for which a marker is put in; the name
`color` of a type; the name of a conversion that is called without target; a colour; a text block;
or, if characters are substituted, one that is not in ASCII. The phrases `ps` are the sketch, `ts`
its tokens, and `es` the edits. -/
def Covers (source : Text) (substitutes : Bool) (ps : List Phrase) (ts : List Token)
    (es : List Edit) (a : Span) : Removal → Prop
  | .importDecl => ∃ d us, Occurs (.item (.importation d)) us ps ts ∧ spanOf? us = some a
  | .callStatement => ∃ st call us, Occurs (.stmt st) us ps ts ∧ spanOf? us = some a ∧
      SettingsCall.ofStmt? st = some call ∧ call.isAccepted ∧
        .insert a.lo (Finding.marker call.name) ∈ es
  | .colorType => ∃ t, Occurs (.typeKind (.primitive (.ofToken t))) [t] ps ts ∧ t.span = a ∧
      t.kind = .identifier ∧ t.text = "color"
  | .conversionName => ∃ t args b us,
      Occurs (.expr ⟨.call none (.ofToken t) args, b⟩) (t :: us) ps ts ∧ t.span = a ∧
        t.text ∈ conversionNames
  | .hexColor => ∃ t ∈ ts, t.span = a ∧ t.kind = .hexColor
  | .textBlock => ∃ t ∈ ts, t.span = a ∧ t.kind = .textBlock
  | .character => substitutes ∧ ∃ before c behind, source = before ++ c :: behind ∧
      Text.CharClass.isAscii c = false ∧ a = ⟨Text.size before, Text.size before + c.utf8Size⟩

variable {source : Text} {substitutes : Bool} {ps qs : List Phrase} {ts us : List Token}
  {es fs : List Edit} {a : Span} {r r' : Removal}

theorem Covers.mono (h : r.Covers source substitutes ps ts es a)
    (occurs : ∀ x vs, Occurs x vs ps ts → Occurs x vs qs us) (tokens : ∀ t ∈ ts, t ∈ us)
    (edits : ∀ e ∈ es, e ∈ fs) : r.Covers source substitutes qs us fs a := by
  cases r with
  | importDecl =>
    obtain ⟨d, vs, hd, span⟩ := h
    exact ⟨d, vs, occurs _ _ hd, span⟩
  | callStatement =>
    obtain ⟨st, call, vs, hst, span, hcall, accepted, mark⟩ := h
    exact ⟨st, call, vs, occurs _ _ hst, span, hcall, accepted, edits _ mark⟩
  | colorType =>
    obtain ⟨t, ht, rest⟩ := h
    exact ⟨t, occurs _ _ ht, rest⟩
  | conversionName =>
    obtain ⟨t, args, b, vs, ht, rest⟩ := h
    exact ⟨t, args, b, vs, occurs _ _ ht, rest⟩
  | hexColor | textBlock =>
    obtain ⟨t, ht, rest⟩ := h
    exact ⟨t, tokens t ht, rest⟩
  | character => exact h

/-! ### One kind only -/

/-- The words that a removal of the kind can begin with. -/
def words : Removal → List String
  | .importDecl => ["import"]
  | .callStatement => "this" :: "super" :: SettingsCall.names
  | .colorType => ["color"]
  | .conversionName => conversionNames
  | .hexColor | .textBlock | .character => []

/-- The token can be the first one of such a removal. -/
def Leads (t : Token) : Removal → Prop
  | .hexColor => t.kind = .hexColor
  | .textBlock => t.kind = .textBlock
  | r => isWordKind t.kind ∧ t.text ∈ r.words

theorem words_apart : ∀ r r' : Removal, ∀ w ∈ r.words, w ∈ r'.words → r = r' := by
  intro r r'
  cases r <;> cases r' <;> decide

theorem Leads.mem_words {t : Token} (h : r.Leads t) (word : isWordKind t.kind) :
    t.text ∈ r.words := by
  cases r with
  | hexColor | textBlock =>
    rw [show t.kind = _ from h] at word
    cases word
  | _ => exact h.2

theorem Leads.of_not_word {t : Token} (h : r.Leads t) (noWord : ¬isWordKind t.kind) :
    r = .hexColor ∧ t.kind = .hexColor ∨ r = .textBlock ∧ t.kind = .textBlock := by
  cases r with
  | hexColor => exact .inl ⟨rfl, h⟩
  | textBlock => exact .inr ⟨rfl, h⟩
  | _ => exact absurd h.1 noWord

theorem Leads.unique {t : Token} (h : r.Leads t) (h' : r'.Leads t) : r = r' := by
  by_cases word : isWordKind t.kind
  · exact words_apart r r' t.text (h.mem_words word) (h'.mem_words word)
  · rcases h.of_not_word word with ⟨rfl, kind⟩ | ⟨rfl, kind⟩ <;>
      rcases h'.of_not_word word with ⟨rfl, kind'⟩ | ⟨rfl, kind'⟩
    · rfl
    · simp [kind] at kind'
    · simp [kind] at kind'
    · rfl

/-- What a removal begins with is in ASCII. -/
theorem Leads.isAscii {t : Token} (h : r.Leads t) (spelled : t.Spelled) :
    ∃ c, t.text.toList.head? = some c ∧ Text.CharClass.isAscii c := by
  have of_words : ∀ q : Removal, ∀ w ∈ q.words,
      ∃ c, w.toList.head? = some c ∧ Text.CharClass.isAscii c := by
    intro q w hw
    have all : (q.words.all fun w => w.toList.head?.any Text.CharClass.isAscii) = true := by
      cases q <;> decide
    simpa [Option.any_eq_true] using List.all_eq_true.1 all w hw
  cases r with
  | hexColor => exact ⟨'#', spelled.hexColor h, by decide⟩
  | textBlock => exact ⟨'"', spelled.textBlock h, by decide⟩
  | _ => exact of_words _ _ h.2

theorem lo_of_spanOf? {t : Token} (h : spanOf? (t :: ts) = some a) : a.lo = t.start.offset := by
  unfold spanOf? at h
  split at h
  · rename_i first last hfirst _
    obtain rfl := Option.some.inj hfirst
    obtain rfl := Option.some.inj h
    rfl
  · cases h

/-- A token of the sketch begins where a removal does, unless that is the substitution of a
character. -/
theorem Covers.exists_lead (h : r.Covers source substitutes ps ts es a) :
    r = .character ∨ ∃ t ∈ ts, t.start.offset = a.lo ∧ r.Leads t := by
  cases r with
  | importDecl =>
    obtain ⟨d, us, hd, span⟩ := h
    obtain ⟨t, us, rfl, ht⟩ := exists_head_import hd.spells.2
    obtain ⟨kind, text⟩ := isWordKind_of_is ht
    refine .inr ⟨t, hd.sublist.subset (.head _), (lo_of_spanOf? span).symm, kind, ?_⟩
    simp [words, text]
  | callStatement =>
    obtain ⟨st, call, us, hst, span, hcall, accepted, -⟩ := h
    obtain ⟨t, us, rfl, ht⟩ := exists_head_settingsCall hst.spells.2 hcall
    refine .inr ⟨t, hst.sublist.subset (.head _), (lo_of_spanOf? span).symm, ?_⟩
    rcases ht with ⟨text, ht⟩ | ht | ht
    · have := Finding.name_of_isAccepted accepted
      exact ⟨isWordKind_of_isCallName ht, by simp [words, text, this]⟩
    · obtain ⟨kind, text⟩ := isWordKind_of_is ht
      exact ⟨kind, by simp [words, text]⟩
    · obtain ⟨kind, text⟩ := isWordKind_of_is ht
      exact ⟨kind, by simp [words, text]⟩
  | colorType =>
    obtain ⟨t, ht, rfl, kind, text⟩ := h
    refine .inr ⟨t, ht.sublist.subset (.head _), rfl, ?_⟩
    exact ⟨by simp [isWordKind, kind], by simp [words, text]⟩
  | conversionName =>
    obtain ⟨t, args, b, us, ht, rfl, text⟩ := h
    refine .inr ⟨t, ht.sublist.subset (.head _), rfl, ?_, text⟩
    obtain ⟨qs, production, parts⟩ := ht.spells.2.exists_production (by simp) (by simp)
    generalize hid : Ident.ofToken t = id at production
    cases production with
    | call =>
      obtain ⟨vs, ws, split, first, -⟩ := parts.uncons
      obtain ⟨t', rfl, -, hname⟩ := exists_token_callName first
      obtain ⟨rfl, -⟩ := List.cons.inj split
      exact isWordKind_of_isCallName hname
  | hexColor | textBlock =>
    obtain ⟨t, ht, rfl, kind⟩ := h
    exact .inr ⟨t, ht, rfl, kind⟩
  | character => exact .inl rfl

/-- No token that begins a removal begins with a character beyond ASCII. -/
theorem Covers.not_character (laid : LaidOut source ts) (spelled : ∀ t ∈ ts, t.Spelled) {t : Token}
    (ht : t ∈ ts) (lead : r.Leads t) (start : t.start.offset = a.lo) :
    ¬Covers source substitutes ps ts es a .character := by
  rintro ⟨-, before, c, behind, hs, beyond, rfl⟩
  obtain ⟨front, word, back, hs', hne, text, hlo, -⟩ := laid.lies t ht
  obtain ⟨d, hd, ascii⟩ := lead.isAscii (spelled t ht)
  rw [hs', List.append_assoc] at hs
  obtain ⟨rfl, hword⟩ := Text.append_inj_of_size hs (hlo.symm.trans start)
  cases word with
  | nil => exact hne rfl
  | cons e word =>
    obtain ⟨rfl, -⟩ := List.cons.inj hword
    rw [text, String.toList_ofList, List.head?_cons, Option.some.injEq] at hd
    rw [hd, ascii] at beyond
    cases beyond

theorem Covers.unique (laid : LaidOut source ts) (spelled : ∀ t ∈ ts, t.Spelled)
    (h : r.Covers source substitutes ps ts es a) (h' : r'.Covers source substitutes ps ts es a) :
    r = r' := by
  rcases h.exists_lead with rfl | ⟨t, ht, start, lead⟩ <;>
    rcases h'.exists_lead with rfl | ⟨t', ht', start', lead'⟩
  · rfl
  · exact absurd h (not_character laid spelled ht' lead' start')
  · exact absurd h' (not_character laid spelled ht lead start)
  · obtain rfl := laid.eq_of_start ht ht' (start.trans start'.symm)
    exact lead.unique lead'

/-! ### What the walk deletes -/

open Finding

variable {c : Context} {b : Bool} {p : Phrase}

/-- What is deleted is a removal, or the name of a conversion that has yet to be placed in its
call. -/
def Accounted (source : Text) (substitutes : Bool) (ps : List Phrase) (ts : List Token)
    (es : List Edit) (a : Span) : Prop :=
  (∃ r : Removal, r.Covers source substitutes ps ts es a) ∨
    ∃ t, Occurs (.callName (.ofToken t)) [t] ps ts ∧ t.span = a ∧ t.text ∈ conversionNames

theorem Accounted.mono (h : Accounted source substitutes ps ts es a)
    (occurs : ∀ x vs, Occurs x vs ps ts → Occurs x vs qs us) (tokens : ∀ t ∈ ts, t ∈ us)
    (edits : ∀ e ∈ es, e ∈ fs) : Accounted source substitutes qs us fs a := by
  rcases h with ⟨r, h⟩ | ⟨t, ht, rest⟩
  · exact .inl ⟨r, h.mono occurs tokens edits⟩
  · exact .inr ⟨t, occurs _ _ ht, rest⟩

theorem Accounted.behind (first : Spells [p] us) (h : Accounted source substitutes ps ts es a) :
    Accounted source substitutes (p :: ps) (us ++ ts) es a :=
  h.mono (fun _ _ hx => .behind first hx) (fun _ ht => List.mem_append_right _ ht) fun _ he => he

theorem eq_of_mem_replaceSpan {span : Span} {x : Text}
    (h : .delete a ∈ requests ((Draft.replaceSpan span x).map .edit)) : a = span := by
  unfold Draft.replaceSpan Draft.insertBeforeSpan Draft.insertBefore Draft.deleteSpan at h
  split at h
  · simp [requests, request?] at h
  · simpa [requests, request?] using h

theorem eq_of_mem_deleteSpan {span : Span}
    (h : .delete a ∈ requests ((Draft.deleteSpan span).map .edit)) : a = span := by
  unfold Draft.deleteSpan at h
  split at h
  · simp at h
  · simpa [requests, request?] using h

theorem mem_conversionNames {w method : String} (h : Literal.conversion? w = some method) :
    w ∈ conversionNames := by
  unfold Literal.conversion? at h
  split at h <;> simp_all [conversionNames]

theorem not_mem_visibility {inSketchClass : Bool} {m : MethodDecl} :
    .delete a ∉ requests (ofVisibility c inSketchClass m) := by
  unfold ofVisibility
  split
  · split <;> simp [Context.insert, Draft.insertBefore, requests, request?]
  · simp

theorem literalKind?_eq {t : Token} {kind : LiteralKind} (h : literalKind? t = some kind) :
    (kind = .hexColor → t.kind = .hexColor) ∧ (kind = .textBlock → t.kind = .textBlock) := by
  unfold literalKind? at h
  split at h <;> grind

/-- What the walk deletes of a phrase before it turns to its parts. -/
theorem accounted_own (h : Spells [p] us) (spelled : ∀ t ∈ us, t.Spelled)
    (ha : .delete a ∈ requests (own c b p)) :
    Accounted source substitutes [p] us (edits (own c b p)) a := by
  have here := occurs_singleton h
  cases p with
  | callName id =>
    obtain ⟨t, rfl, rfl, -⟩ := exists_token_callName h
    simp only [own, ofConversion] at ha
    split at ha
    · rename_i method hmethod
      obtain rfl := eq_of_mem_replaceSpan ha
      exact .inr ⟨t, here, rfl, mem_conversionNames hmethod⟩
    · simp at ha
  | typeKind k =>
    cases k with
    | primitive id =>
      obtain ⟨t, rfl, rfl, primitive⟩ := exists_token_primitive h
      simp only [own, ofTypeKind] at ha
      split at ha
      · rename_i color
        have color : t.text = "color" := color
        obtain rfl := eq_of_mem_replaceSpan ha
        refine .inl ⟨.colorType, t, here, rfl, ?_, color⟩
        -- `color` is no keyword
        have no_keyword : t.kind ≠ .keyword := fun hk => by
          have listed := (spelled t (.head _)).keyword hk
          rw [color] at listed
          exact absurd listed (by decide)
        have void : t.is "void" = false := by simp [Token.is, color]
        simpa [Token.isPrimitiveType, no_keyword, void, color, Token.primitiveTypes] using primitive
      · simp at ha
    | _ => simp [own] at ha
  | expr e =>
    obtain ⟨kind, span⟩ := e
    cases kind with
    | literal kind text =>
      obtain ⟨t, rfl, rfl, hkind⟩ := exists_token_literal h
      obtain ⟨color, block⟩ := literalKind?_eq hkind
      have same : t.span = span := by
        have := h.spanOf? (a := span) rfl
        simpa [spanOf?, Span.upTo, Token.span] using this
      subst same
      cases kind with
      | hexColor =>
        obtain rfl := eq_of_mem_replaceSpan ha
        exact .inl ⟨.hexColor, t, .head _, rfl, color rfl⟩
      | textBlock =>
        obtain rfl := eq_of_mem_replaceSpan ha
        exact .inl ⟨.textBlock, t, .head _, rfl, block rfl⟩
      | float =>
        simp only [own, ofLiteral] at ha
        split at ha <;> simp [Context.insert, Draft.insertBefore, requests, request?] at ha
      | _ => simp [own, ofLiteral] at ha
    | _ => simp [own] at ha
  | stmt st =>
    cases hh : hoisted? c b st with
    | none => simp [own, hh] at ha
    | some call =>
      have replaced : requests (own c b (.stmt st)) = requests (ofHoisted st.span call) := by
        simp [own, hh]
      rw [replaced] at ha
      obtain rfl := eq_of_mem_replaceSpan ha
      obtain ⟨-, -, hcall, accepted⟩ := hoisted?_eq_some.1 hh
      refine .inl ⟨.callStatement, st, call, us, here, h.spanOf? rfl, hcall, accepted, ?_⟩
      rw [edits, replaced]
      exact List.mem_map.2 ⟨.insert st.span.lo (marker call.name), .head _, rfl⟩
  | methodDecl m =>
    simp only [own, requests_append, List.mem_append, not_mem_visibility, false_or] at ha
    split at ha <;> simp [requests, request?] at ha
  | item i =>
    cases i with
    | importation d =>
      obtain rfl := eq_of_mem_deleteSpan ha
      exact .inl ⟨.importDecl, d, us, here, h.spanOf? rfl⟩
    | _ => simp [own] at ha
  | member m => cases m <;> simp [own, requests, request?] at ha
  | _ => simp [own] at ha

theorem mem_requests_ofPhrases {q : Draft.Request}
    (h : q ∈ requests (ofPhrases c b ps)) : ∃ p ∈ ps, q ∈ requests (ofPhrase c b p) ∧
      ∀ e ∈ edits (ofPhrase c b p), e ∈ edits (ofPhrases c b ps) := by
  induction ps with
  | nil => simp at h
  | cons p ps ih =>
    rw [ofPhrases_cons, requests_append, List.mem_append] at h
    rw [ofPhrases_cons, edits_append]
    rcases h with h | h
    · exact ⟨p, .head _, h, fun e he => List.mem_append_left _ he⟩
    · obtain ⟨q, hq, hmem, sub⟩ := ih h
      exact ⟨q, .tail _ hq, hmem, fun e he => List.mem_append_right _ (sub e he)⟩

/-- What the walk deletes in a phrase is accounted for: it deletes a part of its own, or one in a
part of the phrase. -/
theorem accounted (h : Spells ps ts) (spelled : ∀ t ∈ ts, t.Spelled) : ∀ p ∈ ps, ∀ b a,
    .delete a ∈ requests (ofPhrase c b p) →
      Accounted source substitutes ps ts (edits (ofPhrase c b p)) a := by
  induction h with
  | nil => simp
  | @token t ps ts _ ih =>
    intro p hp b a ha
    rcases List.mem_cons.1 hp with rfl | hp
    · simp at ha
    · have later := ih (fun t ht => spelled t (.tail _ ht)) p hp b a ha
      have first : Spells [.token t] [t] := .token .nil
      exact later.behind first
  | @word w t ps ts hw _ ih =>
    intro p hp b a ha
    rcases List.mem_cons.1 hp with rfl | hp
    · simp at ha
    · have later := ih (fun t ht => spelled t (.tail _ ht)) p hp b a ha
      have first : Spells [.word w] [t] := .word hw .nil
      exact later.behind first
  | @rule p qs ps us ts production parts span rest ihp ih =>
    intro q hq b a ha
    have spelled_here : ∀ t ∈ us, t.Spelled := fun t ht => spelled t (List.mem_append_left _ ht)
    have whole := spells_singleton production parts span
    rcases List.mem_cons.1 hq with rfl | hq
    · obtain ⟨kept, b', enters, perm⟩ := ofPhrase_perm (c := c) production b
      have split : (requests (ofPhrase c b q)).Perm
          (requests (own c b q) ++ requests (ofPhrases c b' kept)) := by
        rw [← requests_append]
        exact perm.filterMap _
      have edited (e : Edit) : e ∈ edits (ofPhrase c b q) ↔
          e ∈ edits (own c b q) ∨ e ∈ edits (ofPhrases c b' kept) := by
        have same := (split.map Draft.Request.edit).mem_iff (a := e)
        rwa [List.map_append, List.mem_append] at same
      have tokens : ∀ t ∈ us, t ∈ us ++ ts := fun t ht => List.mem_append_left _ ht
      rcases List.mem_append.1 (split.mem_iff.1 ha) with ha | ha
      · have here : Accounted source substitutes [q] us (edits (own c b q)) a :=
          accounted_own whole spelled_here ha
        exact here.mono (fun _ _ hx => hx.append rest) tokens fun e he => (edited e).2 (.inl he)
      · obtain ⟨part, hpart, ha, sub'⟩ := mem_requests_ofPhrases ha
        have inside := ihp spelled_here part (enters.sublist.subset hpart) b' a ha
        exact inside.mono (fun _ _ hx => .inside production span hx rest) tokens
          fun e he => (edited e).2 (.inr (sub' e he))
    · have later := ih (fun t ht => spelled t (List.mem_append_right _ ht)) q hq b a ha
      exact later.behind whole

/-- What the walk deletes in a sketch is a removal of some kind. -/
theorem exists_removal {s : Sketch} (h : Spells s.phrases ts) (spelled : ∀ t ∈ ts, t.Spelled)
    (ha : .delete a ∈ requests (ofItems c s.items)) :
    ∃ r : Removal, r.Covers source substitutes s.phrases ts (edits (ofItems c s.items)) a := by
  rw [← ofPhrases_phrases] at ha ⊢
  obtain ⟨p, hp, ha, sub⟩ := mem_requests_ofPhrases ha
  have found : Accounted source substitutes s.phrases ts (edits (ofPhrases c true s.phrases)) a :=
    (accounted h spelled p hp _ a ha).mono (fun _ _ hx => hx) (fun _ ht => ht) sub
  rcases found with found | ⟨t, ht, span, text⟩
  · exact found
  · have no_name : .callName (.ofToken t) ∉ s.phrases := by simp [Sketch.phrases]
    obtain ⟨args, b, us, call⟩ := ht.of_callName no_name
    exact ⟨.conversionName, t, args, b, us, call, span, text⟩

end Removal

end SketchPrep
