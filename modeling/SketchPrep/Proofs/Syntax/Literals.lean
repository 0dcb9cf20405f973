import Mathlib.Data.List.Sort
import SketchPrep.Proofs.Syntax.Parts
import SketchPrep.Proofs.Token.Layout

/-!
The literals of a sketch. Main statement: `keeps_literals`, the literals of the tree, in the order
of their spans, are those of the tokens, apart from the tokens of two parts that the tree has no
place for.
-/

namespace SketchPrep

/-- A literal, as it is written and where. -/
structure WrittenLiteral where
  kind : LiteralKind
  text : String
  span : Span
  deriving DecidableEq, Repr

open Phrase

def Token.literal? (t : Token) : Option WrittenLiteral :=
  (literalKind? t).map fun kind => ⟨kind, t.text, t.span⟩

theorem Token.span_of_literal? {t : Token} {l : WrittenLiteral} (h : t.literal? = some l) :
    l.span = t.span := by
  obtain ⟨kind, -, rfl⟩ := Option.map_eq_some_iff.1 h
  rfl

namespace Phrase

variable {p : Phrase} {ps qs : List Phrase}

/-- The literal that the phrase is. -/
def literal? : Phrase → Option WrittenLiteral
  | .token t => t.literal?
  | .expr ⟨.literal kind text, span⟩ => some ⟨kind, text, span⟩
  | _ => none

/-- The literals of the tree and its parts, in the order in which they are visited. -/
def literals (p : Phrase) : List WrittenLiteral :=
  p.literal?.toList ++ p.parts.attach.flatMap fun ⟨q, _⟩ => q.literals
termination_by sizeOf p
decreasing_by exact sizeOf_lt_of_mem_parts ‹_›

def allLiterals (ps : List Phrase) : List WrittenLiteral := ps.flatMap literals

theorem literals_eq (p : Phrase) : p.literals = p.literal?.toList ++ allLiterals p.parts := by
  rw [literals, allLiterals]
  congr 1
  simp only [List.flatMap_subtype, List.unattach_attach]

@[simp] theorem allLiterals_nil : allLiterals [] = [] := rfl

@[simp] theorem allLiterals_cons (p : Phrase) (ps : List Phrase) :
    allLiterals (p :: ps) = p.literals ++ allLiterals ps := rfl

@[simp] theorem allLiterals_append (ps qs : List Phrase) :
    allLiterals (ps ++ qs) = allLiterals ps ++ allLiterals qs := by
  simp [allLiterals]

/-! ### Phrases without literals -/

/-- Words, names and types. -/
def isBare : Phrase → Bool
  | .word _ | .name _ | .callName _ | .typeKind _ | .segment _ | .type _ | .typeParam _
    | .packageDecl _ | .importDecl _ => true
  | _ => false

theorem literals_eq_nil (bare : p.isBare) : p.literals = [] := by
  induction p using partsInduction with | step p ih =>
  have parts : allLiterals p.parts = [] := by
    refine List.flatMap_eq_nil_iff.2 fun q hq => ih q hq ?_
    cases p with
    | typeKind k => cases k <;> simp [Phrase.parts] at hq <;> grind [isBare]
    | segment | type | typeParam => simp [Phrase.parts] at hq; grind [isBare]
    | word | name | callName | packageDecl | importDecl => cases hq
    | _ => cases bare
  rw [literals_eq, parts]
  cases p with
  | token | expr => cases bare
  | _ => rfl

@[simp] theorem literals_word (w : String) : (Phrase.word w).literals = [] := literals_eq_nil rfl

@[simp] theorem literals_name (id : Ident) : (Phrase.name id).literals = [] := literals_eq_nil rfl

@[simp] theorem literals_type (t : TypeRef) : (Phrase.type t).literals = [] := literals_eq_nil rfl

@[simp] theorem literals_typeParam (p : TypeParam) : (Phrase.typeParam p).literals = [] :=
  literals_eq_nil rfl

@[simp] theorem literals_packageDecl (d : PackageDecl) : (Phrase.packageDecl d).literals = [] :=
  literals_eq_nil rfl

@[simp] theorem literals_token (t : Token) : (Phrase.token t).literals = t.literal?.toList := by
  rw [literals_eq]
  simp [literal?, parts]

theorem allLiterals_eq_nil (bare : ∀ p ∈ ps, p.isBare) : allLiterals ps = [] :=
  List.flatMap_eq_nil_iff.2 fun p hp => literals_eq_nil (bare p hp)

@[simp] theorem allLiterals_types (ts : List TypeRef) : allLiterals (ts.map .type) = [] :=
  allLiterals_eq_nil (List.forall_mem_map.2 fun _ _ => rfl)

@[simp] theorem allLiterals_names (ids : List Ident) : allLiterals (ids.map .name) = [] :=
  allLiterals_eq_nil (List.forall_mem_map.2 fun _ _ => rfl)

@[simp] theorem allLiterals_typeParamList (ps : List TypeParam) :
    allLiterals (ps.map .typeParam) = [] :=
  allLiterals_eq_nil (List.forall_mem_map.2 fun _ _ => rfl)

theorem allLiterals_trees (ps : List Phrase) : allLiterals (trees ps) = allLiterals ps :=
  flatMap_trees literals_word ps

/-! ### Tokens in rules -/

/-- The words that are literals. -/
def literalWords : List String := ["true", "false", "null"]

section Tokens

variable {t : Token}

theorem literal?_of_identifier (h : t.kind = .identifier) : t.literal? = none := by
  simp [Token.literal?, literalKind?, h]

theorem literal?_of_word (h : isWordKind t.kind) (other : t.text ∉ literalWords) :
    t.literal? = none := by
  simp only [literalWords, List.mem_cons, List.not_mem_nil, or_false, not_or] at other
  simp only [isWordKind, Bool.or_eq_true, decide_eq_true_eq] at h
  rcases h with (h | h) | h <;> simp [Token.literal?, literalKind?, h, other]

theorem literal?_of_any {ws : List String} (h : ws.any t.is)
    (others : ∀ w ∈ ws, w ∉ literalWords) : t.literal? = none := by
  obtain ⟨w, hw, h⟩ := List.any_eq_true.1 h
  obtain ⟨word, rfl⟩ := isWordKind_of_is h
  exact literal?_of_word word (others _ hw)

theorem literal?_of_callName (h : isCallName t) : t.literal? = none := by
  simp only [isCallName, Bool.or_eq_true, decide_eq_true_eq] at h
  rcases h with (h | h) | h
  · exact literal?_of_identifier h
  · exact literal?_of_any h (by decide)
  · exact literal?_of_any h (by decide)

theorem literal?_of_selected (h : isSelected t) : t.literal? = none := by
  simp only [isSelected, Bool.or_eq_true, decide_eq_true_eq] at h
  rcases h with h | h
  · exact literal?_of_identifier h
  · exact literal?_of_any h (by decide)

theorem literal?_of_primitive (h : t.isPrimitiveType || t.is "void") : t.literal? = none := by
  have word := isWordKind_of_primitive h
  rcases Bool.or_eq_true _ _ ▸ h with h | h
  · have listed : t.text ∈ Token.primitiveTypes := by
      exact List.contains_iff_mem.1 (Bool.and_eq_true _ _ ▸ h).2
    have others : ∀ w ∈ Token.primitiveTypes, w ∉ literalWords := by decide
    exact literal?_of_word word (others _ listed)
  · exact literal?_of_word word ((isWordKind_of_is h).2 ▸ by decide)

theorem literal?_of_modifier (h : t.kind = .keyword)
    (listed : t.text ∈ "synchronized" :: "default" :: Syntax.modifierKeywords) :
    t.literal? = none := by
  have others : ∀ w ∈ "synchronized" :: "default" :: Syntax.modifierKeywords,
    w ∉ literalWords := by decide
  exact literal?_of_word (by simp [isWordKind, h]) (others _ listed)

theorem allLiterals_signs {signs : List Token} (h : ∀ t ∈ signs, isOperatorSign t) :
    allLiterals (signs.map .token) = [] := by
  refine List.flatMap_eq_nil_iff.2 (List.forall_mem_map.2 fun t ht => ?_)
  rw [literals_token, literal?_of_any (h t ht) (by decide)]
  rfl

end Tokens

/-! ### Literals of rules -/

/-- What a rule has and the tree has no place for: the default of an element of an annotation, and
what annotates a parameter of a lambda. -/
inductive Drops : Phrase → Phrase → Prop
  | default {m : MethodDecl} {e : Option Expr} {q : Phrase} (h : q ∈ exprAfter "default" e) :
    Drops (.methodDecl m) q
  | modifier {l : LambdaParam} {m : Modifier} : Drops (.lambdaParam l) (.modifier m)

/-- Of the literals of the parts `qs` the tree has all, apart from those of the parts it drops. -/
def Writes (p : Phrase) (qs : List Phrase) : Prop :=
  ∃ front dropped back, qs = front ++ dropped ++ back ∧ (∀ q ∈ dropped, p.Drops q) ∧
    (allLiterals (front ++ back)).Perm (allLiterals p.parts)

theorem Writes.all (h : (allLiterals (trees qs)).Perm (allLiterals p.parts)) : Writes p qs :=
  ⟨qs, [], [], by simp, by simp, by simpa [allLiterals_trees] using h⟩

/-! Some trees that rules put the parts of in their place. -/

theorem literals_stmtKind (k : StmtKind) : (Phrase.stmtKind k).literals = allLiterals k.parts := by
  rw [literals_eq]
  rfl

theorem literals_inHead (st : Stmt) :
    (Phrase.inHead st).literals = allLiterals st.kind.parts := by
  rw [literals_eq]
  simp [literal?, parts, literals_stmtKind]

theorem literals_varDecl (d : VarDecl) : (Phrase.varDecl d).literals =
    allLiterals (d.modifiers.map .modifier) ++ allLiterals (d.declarators.map .declarator) := by
  rw [literals_eq]
  simp [literal?, parts]

theorem literals_declarator (d : Declarator) :
    (Phrase.declarator d).literals = allLiterals (d.init.toList.map .expr) := by
  rw [literals_eq]
  rfl

theorem literals_param (x : Param) :
    (Phrase.param x).literals = allLiterals (x.modifiers.map .modifier) := by
  rw [literals_eq]
  simp [literal?, parts]

theorem literals_lambdaParam (x : LambdaParam) : (Phrase.lambdaParam x).literals = [] := by
  rw [literals_eq]
  simp [literal?, parts]

theorem Production.writes (h : Production p qs) (other : p.literal? = none) : Writes p qs := by
  cases h with
  | literal h => cases other
  | name h => exact .all (by simp [parts, literal?_of_identifier h])
  | keywordModifier h listed => exact .all (by simp [parts, literal?_of_modifier h listed])
  | callName h => exact .all (by simp [parts, literal?_of_callName h])
  | primitive h => exact .all (by simp [parts, literal?_of_primitive h])
  | callOf h | field h => exact .all (by simp [parts, ExprKind.parts, literal?_of_selected h])
  | methodRef h =>
    have none : _ = none := h.elim literal?_of_identifier fun h =>
      literal?_of_word (isWordKind_of_is h).1 ((isWordKind_of_is h).2 ▸ by decide)
    exact .all (by simp [parts, ExprKind.parts, none])
  | binary _ hsigns | assign _ hsigns =>
    exact .all (by simp [parts, ExprKind.parts, allLiterals_signs hsigns])
  | typeParam =>
    rename_i bounds
    exact .all (by cases bounds <;> simp [parts])
  | ifElse =>
    rename_i no
    exact .all (by cases no <;> simp [parts, StmtKind.parts])
  | doWhile =>
    refine .all ?_
    simp [parts, StmtKind.parts]
    exact List.perm_append_comm
  | bareExpr | localVar | localType | resource | forVariable | forEach | plainLambda =>
    refine .all ?_
    simp [parts, ExprKind.parts, StmtKind.parts, literals_stmtKind, literals_inHead,
      literals_varDecl, literals_declarator, literals_param, literals_lambdaParam]
  | methodWithoutBody =>
    refine ⟨_, _, _, rfl, fun q hq => .default hq, ?_⟩
    rw [← allLiterals_trees]
    simp [parts]
  | lambdaParam =>
    rename_i x
    refine ⟨[], modifiers x.modifiers, .type x.type :: perhaps x.varargs "..." ++ .name x.name ::
      brackets x.dims, by simp [paramParts], List.forall_mem_map.2 fun m _ => .modifier, ?_⟩
    rw [← allLiterals_trees]
    simp [parts]
  | _ =>
    refine .all ?_
    simp [parts, ExprKind.parts, StmtKind.parts, Member.parts, Item.parts]

/-- A rule writes none of its words as a literal. -/
theorem Production.word_not_mem {w : String} (h : Production p qs) (hw : w ∈ literalWords) :
    .word w ∉ qs := by
  intro ht
  replace ht : .word w ∈ sift (literalWords.contains ·) qs := mem_sift ht (by simpa using hw)
  cases h with
  | typeParam =>
    rename_i bounds
    cases bounds <;> simp [literalWords] at ht
  | ifElse =>
    rename_i no
    cases no <;> simp [literalWords] at ht
  | boundedType h | trailed h =>
    rcases h with rfl | rfl <;> simp [literalWords] at ht
  | prefixed h =>
    simp [literalWords, Syntax.unaryOperators] at h ht
    grind
  | defaultCase | switchCase =>
    rename_i arrow
    cases arrow <;> simp [literalWords] at ht
  | _ =>
    simp [literalWords] at ht

/-! ### Literals of derivations -/

open Token

variable {x : Phrase} {ts us vs ws : List Token} {t : Token}

/-- The token stands in a part that the rule for the phrase around it drops. -/
def Lost (ps : List Phrase) (ts : List Token) (t : Token) : Prop :=
  ∃ p us qs q vs, Occurs p us ps ts ∧ Production p qs ∧ Stands q vs qs us ∧ p.Drops q ∧ t ∈ vs

theorem Lost.mono (h : Lost ps ts t) (occurs : ∀ x vs, Occurs x vs ps ts → Occurs x vs qs us) :
    Lost qs us t := by
  obtain ⟨p, vs, rs, q, ws, hp, production, part, drops, ht⟩ := h
  exact ⟨p, vs, rs, q, ws, occurs _ _ hp, production, part, drops, ht⟩

theorem Stands.within {front back : List Phrase} (hfront : Spells front vs) (h : Stands x us ps ts)
    (hback : Spells back ws) : Stands x us (front ++ ps ++ back) (vs ++ ts ++ ws) := by
  obtain ⟨before, behind, fs, bs, rfl, rfl, hbefore, hx, hbehind⟩ := h
  exact ⟨front ++ before, behind ++ back, vs ++ fs, bs ++ ws, by simp, by simp,
    hfront.append hbefore, hx, hbehind.append hback⟩

/-- The literals of the phrases are those of some of the tokens, in some order, and the literals
among the other tokens are lost. -/
def Accounts (ps : List Phrase) (ts : List Token) : Prop :=
  ∃ kept : List Token, kept.Sublist ts ∧
    (kept.filterMap Token.literal?).Perm (allLiterals ps) ∧
    ∀ t ∈ ts, t.literal?.isSome → t ∈ kept ∨ Lost ps ts t

theorem Accounts.append (hp : Spells ps ts) (h : Accounts ps ts) (hq : Spells qs us)
    (k : Accounts qs us) : Accounts (ps ++ qs) (ts ++ us) := by
  obtain ⟨kept, sublist, perm, rest⟩ := h
  obtain ⟨kept', sublist', perm', rest'⟩ := k
  refine ⟨kept ++ kept', sublist.append sublist', ?_, fun t ht literal => ?_⟩
  · rw [List.filterMap_append, allLiterals_append]
    exact perm.append perm'
  · rcases List.mem_append.1 ht with ht | ht
    · rcases rest t ht literal with here | lost
      · exact .inl (List.mem_append_left _ here)
      · exact .inr (lost.mono fun _ _ inside => inside.append hq)
    · rcases rest' t ht literal with here | lost
      · exact .inl (List.mem_append_right _ here)
      · exact .inr (lost.mono fun _ _ inside => inside.prepend hp)

/-- What is to be shown of each phrase, unless it is one of the words that are literals. -/
structure Told (p : Phrase) (us : List Token) : Prop where
  written : Spells [p] us
  accounts : (∀ w ∈ literalWords, p ≠ .word w) → Accounts [p] us

theorem accounts_of_each (h : Each Told ps ts) (words : ∀ w ∈ literalWords, .word w ∉ ps) :
    Spells ps ts ∧ Accounts ps ts := by
  induction h with
  | nil => exact ⟨.nil, [], .slnil, .nil, by simp⟩
  | cons told _ ih =>
    simp only [List.mem_cons, not_or] at words
    obtain ⟨spells, accounts⟩ := ih fun w hw => (words w hw).2
    have first := told.accounts fun w hw same => (words w hw).1 same.symm
    exact ⟨told.written.append spells, first.append told.written spells accounts⟩

theorem Spells.exists_stands (h : Spells ps ts) (ht : t ∈ ts) :
    ∃ q vs, Stands q vs ps ts ∧ t ∈ vs := by
  induction ps generalizing ts with
  | nil =>
    cases h
    cases ht
  | cons p ps ih =>
    obtain ⟨us, vs, rfl, first, rest⟩ := h.uncons
    rcases List.mem_append.1 ht with ht | ht
    · exact ⟨p, us, .here first rest, ht⟩
    · obtain ⟨q, ws, stands, htq⟩ := ih rest ht
      exact ⟨q, ws, stands.behind first, htq⟩

/-- A literal is the literal of its token. -/
theorem accounts_of_literal {l : WrittenLiteral} (h : Spells [p] us) (own : p.literal? = some l) :
    Accounts [p] us := by
  have written : us.filterMap Token.literal? = [l] := by
    unfold literal? at own
    split at own
    · obtain rfl := spells_token h
      simp [own]
    · rename_i kind text a
      obtain rfl := Option.some.inj own
      obtain ⟨t, rfl, rfl, hkind⟩ := exists_token_literal h
      have span : t.span = a := by
        simpa [spanOf?, Span.upTo, Token.span] using h.spanOf? (a := a) rfl
      simp [Token.literal?, hkind, span]
    · cases own
  have alone : allLiterals [p] = [l] := by
    have leaf : p.parts = [] := by
      unfold literal? at own
      split at own
      · rfl
      · rfl
      · cases own
    simp [literals_eq p, own, leaf]
  exact ⟨us, .refl _, by rw [written, alone], fun t ht _ => .inl ht⟩

/-- What is known of the parts of a rule is known of the phrase. -/
theorem accounts_of_production (production : Production p qs) (h : Each Told qs us)
    (span : ∀ a, p.span? = some a → spanOf? us = some a) : Accounts [p] us := by
  have words (w : String) (hw : w ∈ literalWords) : .word w ∉ qs := production.word_not_mem hw
  have spells := (accounts_of_each h words).1
  have whole := spells_singleton production spells span
  cases own : p.literal? with
  | some l => exact accounts_of_literal whole own
  | none =>
    obtain ⟨front, dropped, back, rfl, drops, perm⟩ := production.writes own
    obtain ⟨_, us₃, rfl, h, h₃⟩ := h.split
    obtain ⟨us₁, us₂, rfl, h₁, h₂⟩ := h.split
    simp only [List.mem_append, not_or] at words
    obtain ⟨spells₁, kept₁, sublist₁, perm₁, rest₁⟩ :=
      accounts_of_each h₁ fun w hw => (words w hw).1.1
    have spells₂ := (accounts_of_each h₂ fun w hw => (words w hw).1.2).1
    obtain ⟨spells₃, kept₃, sublist₃, perm₃, rest₃⟩ :=
      accounts_of_each h₃ fun w hw => (words w hw).2
    refine ⟨kept₁ ++ kept₃, ?_, ?_, fun t ht literal => ?_⟩
    · exact (List.sublist_append_of_sublist_left sublist₁).append sublist₃
    · rw [List.filterMap_append]
      refine (perm₁.append perm₃).trans ?_
      rw [← allLiterals_append]
      simpa [literals_eq p, own] using perm
    · have inside {x : Phrase} {vs : List Token}
          (hx : Occurs x vs (front ++ dropped ++ back) (us₁ ++ us₂ ++ us₃)) :
          Occurs x vs [p] (us₁ ++ us₂ ++ us₃) := by
        simpa using Occurs.inside production span hx .nil
      rcases List.mem_append.1 ht with ht | ht
      · rcases List.mem_append.1 ht with ht | ht
        · rcases rest₁ t ht literal with here | lost
          · exact .inl (List.mem_append_left _ here)
          · exact .inr (lost.mono fun _ _ hx => inside ((hx.append spells₂).append spells₃))
        · obtain ⟨q, vs, stands, htq⟩ := spells₂.exists_stands ht
          exact .inr ⟨p, _, _, q, vs, occurs_singleton whole, production,
            stands.within spells₁ spells₃, drops q stands.mem, htq⟩
      · rcases rest₃ t ht literal with here | lost
        · exact .inl (List.mem_append_right _ here)
        · exact .inr (lost.mono fun _ _ hx => inside (hx.prepend (spells₁.append spells₂)))

theorem each_told (h : Spells ps ts) : Each Told ps ts := by
  refine h.each (fun t => ?_) (fun w t hw => ?_) fun p qs us production spells parts span => ?_
  · have kept : (List.filterMap Token.literal? [t]).Perm (allLiterals [.token t]) := by
      cases h : t.literal? <;> simp [h]
    exact ⟨.token .nil, fun _ => ⟨[t], .refl _, kept, fun u hu _ => .inl hu⟩⟩
  · obtain ⟨word, rfl⟩ := isWordKind_of_is hw
    refine ⟨.word hw .nil, fun other => ⟨[], by simp, by simp, ?_⟩⟩
    have none : t.literal? = none := literal?_of_word word fun listed => other _ listed rfl
    simp [none]
  · exact ⟨spells_singleton production spells span,
      fun _ => accounts_of_production production parts span⟩

end Phrase

namespace Sketch

open Token

/-- The literals of the sketch, in the order of their spans. -/
def literals (s : Sketch) : List WrittenLiteral :=
  (allLiterals (s.items.map .item)).mergeSort fun a b => a.span.lo ≤ b.span.lo

theorem literals_perm (s : Sketch) : s.literals.Perm (allLiterals (s.items.map .item)) :=
  List.mergeSort_perm ..

/-- What is in the order of the source already is what is to be put in this order. -/
theorem literals_eq_of_perm {source : Text} {s : Sketch} {kept : List Token}
    (laid : LaidOut source kept)
    (perm : (kept.filterMap Token.literal?).Perm (allLiterals (s.items.map .item))) :
    s.literals = kept.filterMap Token.literal? := by
  refine @List.Perm.eq_of_pairwise _ (fun a b => a.span.lo ≤ b.span.lo) _ _ ?_ ?_ ?_
    (s.literals_perm.trans perm.symm)
  · intro a b ha hb hab hba
    obtain ⟨t, ht, hta⟩ := List.mem_filterMap.1 ((s.literals_perm.trans perm.symm).mem_iff.1 ha)
    obtain ⟨u, hu, hub⟩ := List.mem_filterMap.1 hb
    rw [span_of_literal? hta, span_of_literal? hub] at hab hba
    have same : t.start.offset = u.start.offset := Nat.le_antisymm hab hba
    obtain rfl := laid.eq_of_start ht hu same
    exact Option.some.inj (hta.symm.trans hub)
  · have sorted := @List.pairwise_mergeSort _
      (fun a b : WrittenLiteral => decide (a.span.lo ≤ b.span.lo)) (by simp; omega)
      (by simp; omega) (allLiterals (s.items.map .item))
    simpa [literals] using sorted
  · have before : kept.Pairwise fun a b => a.start.offset ≤ b.start.offset :=
      laid.ordered.imp_of_mem fun ha _ stop =>
        Nat.le_trans (Nat.le_of_lt (laid.lies _ ha).lt) stop
    refine before.filterMap _ fun a b hab l hl m hm => ?_
    rw [span_of_literal? hl, span_of_literal? hm]
    exact hab

/-- The literals of a sketch are those of the source. The parser loses a literal only if it stands
in the default of an element of an annotation or in what annotates a parameter of a lambda. -/
theorem keeps_literals {source : Text} {s : Sketch} (h : parse source = .ok s) :
    ∃ ts, tokenize source = .ok ts ∧ ∃ kept : List Token, kept.Sublist ts.body ∧
      s.literals = kept.filterMap Token.literal? ∧
      ∀ t ∈ ts.body, t.literal?.isSome → t ∈ kept ∨ Lost s.phrases ts.body t := by
  obtain ⟨ts, hts, spells⟩ := s.spells_of_parse h
  have laid := laidOut_of_tokenize hts
  have words : ∀ w ∈ literalWords, .word w ∉ s.phrases := by simp [phrases]
  obtain ⟨-, kept, sublist, perm, rest⟩ := accounts_of_each (each_told spells) words
  have items : allLiterals s.phrases = allLiterals (s.items.map .item) := by
    cases h : s.package <;> simp [phrases, h]
  have laidKept : LaidOut source kept :=
    ⟨fun t ht => laid.lies t (sublist.subset ht), laid.ordered.sublist sublist⟩
  exact ⟨ts, hts, kept, sublist, literals_eq_of_perm laidKept (items ▸ perm), rest⟩

end Sketch

end SketchPrep
