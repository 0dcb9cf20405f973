import SketchPrep.Proofs.Syntax.Occurrence
import SketchPrep.Proofs.Syntax.Recursion
import SketchPrep.Proofs.Syntax.TypeForm

/-!
The readers on a stream that begins with the lexemes of a type. `Returns` tells what a reader makes
of a stream and which lexemes it leaves. Main statements: `returns_type`, the type is read and
nothing more; `TypeForm.parse_declaration`, it is the type of the variable behind it.
-/

namespace SketchPrep

open Token Lexeme

/-- None of the words comes first. -/
def Avoids (ws : List String) (ls : List Lexeme) : Prop := ∀ l ∈ ls.head?, l.2 ∉ ws

theorem avoids_cons {ws : List String} {l : Lexeme} {ls : List Lexeme} (h : l.2 ∉ ws) :
    Avoids ws (l :: ls) := by
  intro m hm
  rwa [← Option.some.inj hm]

theorem Avoids.mono {ws vs : List String} {ls : List Lexeme} (h : Avoids ws ls) (hvs : vs ⊆ ws) :
    Avoids vs ls := fun l hl listed => h l hl (hvs listed)

/-- No type begins with the word. -/
def beginsNoType (w : String) : Bool :=
  !isWord w || (keywords.contains w && !primitiveTypes.contains w)

theorem Identifier.lexeme_eq (name : Identifier) :
    Lexeme.word name.word = (.identifier, name.word) := by
  have listed : keywords.contains (String.ofList name.word.toList) = false := by
    rw [String.ofList_toList]
    simpa using name.notKeyword
  rw [Lexeme.word, Lexer.wordKind, listed]
  rfl

theorem avoids_word {ws : List String} (hws : ws.all beginsNoType) {w : String} (hw : isWord w)
    (usable : w ∈ primitiveTypes ∨ w ∉ keywords) (rest : List Lexeme) :
    Avoids ws (word w :: rest) := by
  refine avoids_cons fun listed => ?_
  have no := List.all_eq_true.1 hws w listed
  rcases usable with primitive | plain
  · simp [beginsNoType, hw, primitive] at no
  · simp [beginsNoType, hw, plain] at no

theorem TypeForm.avoids {ws : List String} (hws : ws.all beginsNoType) (t : TypeForm)
    (rest : List Lexeme) : Avoids ws (t.lexemes ++ rest) := by
  obtain ⟨w, more, lexemes, hw, usable⟩ := t.exists_word
  rw [lexemes]
  exact avoids_word hws hw usable (more ++ rest)

theorem ArgForm.avoids_close (a : ArgForm) (rest : List Lexeme) :
    Avoids [">"] (a.lexemes ++ rest) := by
  cases a with
  | type t => exact t.avoids (by decide) rest
  | any | bounded => exact avoids_cons (by decide)

theorem argsLexemes_some (as : List ArgForm) : ∃ ls, argsLexemes (some as) = sign "<" :: ls := by
  cases as <;> exact ⟨_, rfl⟩

namespace Syntax

namespace Stream

variable {s t : Stream} {l : Lexeme} {ls : List Lexeme} {w : String} {ws : List String}

/-- The kinds and the spellings of the tokens ahead. -/
def lexemes (s : Stream) : List Lexeme := s.ahead.map fun t => (t.kind, t.text)

theorem left_eq_lexemes (s : Stream) : s.left = s.lexemes.length := by
  rw [s.left_eq, lexemes, List.length_map]

theorem left_lt_of_lexemes {ms : List Lexeme} (h : s.lexemes = l :: ls) (k : t.lexemes = ms)
    (behind : ms <:+ ls) : t.left < s.left := by
  rw [left_eq_lexemes, left_eq_lexemes, h, k]
  exact Nat.lt_succ_of_le behind.length_le

theorem not_atEnd_of_lexemes (h : s.lexemes = l :: ls) : ¬s.atEnd := by
  intro ends
  rw [lexemes, atEnd_iff.1 ends] at h
  cases h

theorem current_of_lexemes (h : s.lexemes = l :: ls) : (s.current.kind, s.current.text) = l := by
  obtain ⟨a, as, ahead, rfl, -⟩ := List.map_eq_cons_iff.1 h
  rw [current, nth, ahead]
  rfl

theorem current_of_identifier {name : Identifier} (h : s.lexemes = word name.word :: ls) :
    s.current.kind = .identifier ∧ s.current.text = name.word := by
  rw [name.lexeme_eq] at h
  exact Prod.mk.inj (current_of_lexemes h)

theorem advance_of_lexemes (h : s.lexemes = l :: ls) : s.advance.lexemes = ls := by
  obtain ⟨a, as, ahead, -, rfl⟩ := List.map_eq_cons_iff.1 h
  rw [lexemes, advance_ahead, ahead]
  rfl

theorem isAt_sign (h : s.lexemes = sign w :: ls) : s.isAt w := by
  obtain ⟨kind, text⟩ := Prod.mk.inj (current_of_lexemes h)
  simp [isAt, Token.is, kind, text]

theorem isAt_word (h : s.lexemes = word w :: ls) : s.isAt w := by
  obtain ⟨kind, text⟩ := Prod.mk.inj (current_of_lexemes h)
  rcases Lexer.wordKind_cases w.toList with own | own <;>
    simp [isAt, Token.is, kind, text, own]

theorem not_isAt (h : Avoids ws s.lexemes) (hw : w ∈ ws) : ¬s.isAt w := by
  intro there
  have ahead := ahead_eq_cons (not_atEnd_of_isAt there)
  refine h (s.current.kind, s.current.text) ?_ (text_of_isAt there ▸ hw)
  rw [lexemes, ahead]
  rfl

theorem isNext_eq (h : s.lexemes = l :: ls) : s.isNext w = s.advance.isAt w := by
  rw [isAt, current_advance (not_atEnd_of_lexemes h)]
  rfl

end Stream

namespace Reader

variable {α β γ : Type} {s t u : Stream}

/-- The reader returns something that is `b` in view of `f`, and then the lexemes are ahead. -/
def Returns (r : Reader α) (s : Stream) (f : α → β) (b : β) (ls : List Lexeme) : Prop :=
  ∃ a t, r s = .ok (a, t) ∧ f a = b ∧ t.lexemes = ls

end Reader

open Reader

variable {s : Stream} {rest : List Lexeme}

theorem expect_sign {w : String} {ls : List Lexeme} (h : s.lexemes = sign w :: ls) :
    expect w s = .ok (s.current, s.advance) :=
  if_pos (Stream.isAt_sign h)

theorem returns_dims {n : Nat} (h : s.lexemes = brackets n ++ rest) (hrest : Avoids ["["] rest) :
    Returns dims s id n rest := by
  have pairs : Returns (manyWhile (fun s => s.isAt "[" && s.isNext "]") do
      let _ ← take
      take) s List.length n rest := by
    induction n generalizing s with
    | zero =>
      have avoids : Avoids ["["] s.lexemes := by rwa [h]
      exact ⟨[], s, manyWhile_stop (by simp [Stream.not_isAt avoids (.head _)]), rfl, h⟩
    | succ n ih =>
      have first := Stream.isAt_sign h
      have behind := Stream.advance_of_lexemes h
      have second := Stream.isAt_sign behind
      have next := Stream.advance_of_lexemes behind
      obtain ⟨pairs, t, run, length, left⟩ := ih next
      have less := Stream.left_lt_of_lexemes h next (List.suffix_cons ..)
      refine ⟨_ :: pairs, t, manyWhile_turn ?_ rfl less run, congrArg (· + 1) length, left⟩
      rw [Stream.isNext_eq h]
      exact Bool.and_eq_true_iff.2 ⟨first, second⟩
  obtain ⟨pairs, t, run, length, left⟩ := pairs
  refine ⟨n, t, ?_, rfl, left⟩
  rw [dims, bind_of_ok run, length]
  rfl

theorem whole_type : Grammar.whole.type = typeRef .whole :=
  (congrArg Grammar.type Grammar.unfold_whole).symm

/-- What may come behind a type. -/
abbrev Ends (ls : List Lexeme) : Prop := Avoids ["<", ".", "[", "extends", "super"] ls

theorem avoids_brackets {ws : List String} (h : Avoids ws rest) (hws : "[" ∉ ws) (n : Nat) :
    Avoids ws (brackets n ++ rest) := by
  cases n with
  | zero => exact h
  | succ n => exact avoids_cons hws

theorem avoids_segments {ws : List String} (h : Avoids ws rest) (hws : "." ∉ ws)
    (ss : List SegmentForm) : Avoids ws (segmentsLexemes ss ++ rest) := by
  cases ss with
  | nil => exact h
  | cons s ss =>
    obtain ⟨name, args⟩ := s
    exact avoids_cons hws

theorem avoids_others {ws : List String} (close : ">" ∉ ws) (comma : "," ∉ ws)
    (as : List ArgForm) : Avoids ws (othersLexemes as ++ sign ">" :: rest) := by
  cases as with
  | nil => exact avoids_cons close
  | cons a as => exact avoids_cons comma

/-- A type behind its first word. -/
theorem returns_typeRef {kind : TypeKind} {n : Nat}
    (h : Returns (typeKind .whole) s TypeKind.unspanned kind (brackets n ++ rest))
    (hrest : Avoids ["["] rest) :
    Returns (typeRef .whole) s TypeRef.unspanned ⟨kind, n, .nowhere⟩ rest := by
  obtain ⟨own, t, run, rfl, left⟩ := h
  obtain ⟨m, u, pairs, rfl, behind⟩ := returns_dims left hrest
  refine ⟨⟨own, m, u.spanFrom s.lo⟩, u, ?_, rfl, behind⟩
  have element : elementType .whole s = .ok (⟨own, 0, t.spanFrom s.lo⟩, t) := by
    rw [elementType, get_bind, bind_of_ok run]
    rfl
  rw [typeRef, bind_of_ok element, bind_of_ok pairs]
  rfl

theorem returns_primitive {w : String} (hw : w ∈ primitiveTypes)
    (h : s.lexemes = word w :: rest) (hrest : Avoids ["."] rest) :
    Returns (typeKind .whole) s TypeKind.unspanned (.primitive ⟨w, .nowhere⟩) rest := by
  have current := Stream.current_of_lexemes h
  have behind := Stream.advance_of_lexemes h
  have kind : s.current.kind = .keyword ∨ s.current.kind = .identifier := by
    have own : s.current.kind = Lexer.wordKind w.toList := congrArg Prod.fst current
    rw [own]
    exact Lexer.wordKind_cases _
  have text : s.current.text = w := congrArg Prod.snd current
  have isPrimitive : s.current.isPrimitiveType := by
    rw [isPrimitiveType, text]
    simpa [hw] using kind
  have noPoint : s.isNext "." = false := by
    rw [Stream.isNext_eq h]
    exact Bool.eq_false_iff.2 (Stream.not_isAt (by rwa [behind]) (.head _))
  refine ⟨.primitive (.ofToken s.current), s.advance, ?_, ?_, behind⟩
  · simp only [typeKind, get_bind, ite_run, isPrimitive, noPoint, Bool.true_or, if_true,
      Bool.and_false, Bool.false_eq_true, if_false]
    rfl
  · rw [TypeKind.unspanned, Ident.ofToken, Ident.unspanned, text]

/-- A name is neither a primitive type nor a wildcard. -/
theorem typeKind_of_name {name : Identifier} (hname : name.word ∉ primitiveTypes)
    (h : s.lexemes = word name.word :: rest) : typeKind .whole s = namedType .whole s := by
  obtain ⟨kind, text⟩ := Stream.current_of_identifier h
  have notPrimitive : s.current.isPrimitiveType = false := by
    rw [isPrimitiveType, text]
    simp [hname]
  have avoids : Avoids ["void", "?"] s.lexemes := by
    rw [h]
    exact avoids_word (by decide) name.isWord (.inr name.notKeyword) rest
  simp only [typeKind, get_bind, ite_run, eat_bind, notPrimitive, Bool.false_or,
    Stream.not_isAt avoids (.head _), Stream.not_isAt avoids (.tail _ (.head _)),
    Bool.false_eq_true, if_false]
  exact if_pos (by simpa [Stream.isAtKind] using kind)

theorem typeKind_of_wildcard (h : s.lexemes = sign "?" :: rest) :
    typeKind .whole s = wildcardType .whole s.advance := by
  obtain ⟨kind, text⟩ := Prod.mk.inj (Stream.current_of_lexemes h)
  have notPrimitive : s.current.isPrimitiveType = false := by
    simp [isPrimitiveType, kind]
  have notVoid : ¬s.isAt "void" := by
    have avoids : Avoids ["void"] s.lexemes := by
      rw [h]
      exact avoids_cons (by decide)
    exact Stream.not_isAt avoids (.head _)
  simp only [typeKind, get_bind, ite_run, eat_bind, notPrimitive, Bool.false_or, notVoid,
    Stream.isAt_sign h]
  rfl

mutual

/-- The type is read, and then what comes behind it is ahead. -/
theorem returns_type {s : Stream} {rest : List Lexeme} (t : TypeForm)
    (h : s.lexemes = t.lexemes ++ rest) (hrest : Ends rest) :
    Returns (typeRef .whole) s TypeRef.unspanned t.tree rest := by
  match t with
  | .primitive w hw dims =>
    refine returns_typeRef (returns_primitive hw h ?_) (hrest.mono (by decide))
    exact avoids_brackets (hrest.mono (by decide)) (by decide) dims
  | .named name hname args others dims =>
    refine returns_typeRef ?_ (hrest.mono (by decide))
    have behind : Avoids ["<", "."] (brackets dims ++ rest) :=
      avoids_brackets (hrest.mono (by decide)) (by decide) dims
    have noArgs : Avoids ["<"] (segmentsLexemes others ++ (brackets dims ++ rest)) :=
      avoids_segments (behind.mono (by decide)) (by decide) others
    have first : s.lexemes = word name.word ::
        (argsLexemes args ++ (segmentsLexemes others ++ (brackets dims ++ rest))) := by
      simpa [TypeForm.lexemes] using h
    obtain ⟨head, u, run, same, left⟩ := returns_segment name args first noArgs
    obtain ⟨tail, v, run', same', left'⟩ := returns_segments others left behind
    refine ⟨.named (head :: tail), v, ?_, ?_, left'⟩
    · rw [typeKind_of_name hname first, namedType, bind_of_ok run, bind_of_ok run']
      rfl
    · rw [TypeKind.unspanned, unspannedSegments_eq, List.map_cons, same, same']

theorem returns_segment {s : Stream} {rest : List Lexeme} (name : Identifier)
    (args : Option (List ArgForm))
    (h : s.lexemes = word name.word :: (argsLexemes args ++ rest)) (hrest : Avoids ["<"] rest) :
    Returns (typeSegment .whole) s TypeSegment.unspanned ⟨name.ident, argsTrees args⟩ rest := by
  obtain ⟨-, text⟩ := Stream.current_of_identifier h
  have behind := Stream.advance_of_lexemes h
  have ident : (Ident.ofToken s.current).unspanned = name.ident := by
    rw [Ident.ofToken, Ident.unspanned, text, Identifier.ident]
  match args with
  | none =>
    have noArgs : ¬s.advance.isAt "<" := Stream.not_isAt (by rwa [behind]) (.head _)
    refine ⟨⟨.ofToken s.current, none⟩, s.advance, ?_, ?_, behind⟩
    · rw [typeSegment, takeIdent_bind, get_bind, ite_run, if_neg noArgs]
      rfl
    · rw [TypeSegment.unspanned, ident, argsTrees]
  | some as =>
    obtain ⟨args, u, run, same, left⟩ := returns_args as behind
    obtain ⟨ls, hls⟩ := argsLexemes_some as
    have first : s.advance.lexemes = sign "<" :: (ls ++ rest) := by
      rw [behind, hls, List.cons_append]
    have opens := Stream.isAt_sign first
    refine ⟨⟨.ofToken s.current, some args⟩, u, ?_, ?_, left⟩
    · rw [typeSegment, takeIdent_bind, get_bind, ite_run, if_pos opens, bind_of_ok run]
      rfl
    · rw [TypeSegment.unspanned, ident, unspannedTypes_eq, same, argsTrees]

theorem returns_args {s : Stream} {rest : List Lexeme} (as : List ArgForm)
    (h : s.lexemes = argsLexemes (some as) ++ rest) :
    Returns (typeArgs .whole) s (List.map TypeRef.unspanned) (argTrees as) rest := by
  match as with
  | [] =>
    have opens := expect_sign h
    have behind := Stream.advance_of_lexemes h
    have closes := Stream.isAt_sign behind
    refine ⟨[], s.advance.advance, ?_, rfl, Stream.advance_of_lexemes behind⟩
    rw [typeArgs, bind_of_ok opens, eat_bind, if_pos closes]
    rfl
  | a :: as =>
    have first : s.lexemes =
        sign "<" :: (a.lexemes ++ (othersLexemes as ++ sign ">" :: rest)) := by
      simpa [argsLexemes] using h
    have opens := expect_sign first
    have inside := Stream.advance_of_lexemes first
    have notClosed : ¬s.advance.isAt ">" :=
      Stream.not_isAt (by rw [inside]; exact a.avoids_close _) (.head _)
    obtain ⟨head, u, run, same, left⟩ :=
      returns_arg a inside (avoids_others (by decide) (by decide) as)
    obtain ⟨tail, v, run', same', left'⟩ := returns_others as left
    have closes := expect_sign left'
    refine ⟨head :: tail, v.advance, ?_, ?_, Stream.advance_of_lexemes left'⟩
    · have items : sepBy "," (typeRef .whole) s.advance = .ok (head :: tail, v) := by
        rw [sepBy, bind_of_ok run, bind_of_ok run']
        rfl
      rw [typeArgs, bind_of_ok opens, eat_bind, if_neg notClosed, whole_type]
      simp only [Bool.false_eq_true, if_false]
      rw [bind_of_ok items, bind_of_ok closes]
      rfl
    · rw [List.map_cons, same, same', argTrees]

theorem returns_others {s : Stream} {rest : List Lexeme} (as : List ArgForm)
    (h : s.lexemes = othersLexemes as ++ sign ">" :: rest) :
    Returns (manyWhile (·.isAt ",") do
      let _ ← take
      typeRef .whole) s (List.map TypeRef.unspanned) (argTrees as) (sign ">" :: rest) := by
  match as with
  | [] =>
    have noMore : ¬s.isAt "," :=
      Stream.not_isAt (by rw [h]; exact avoids_cons (by decide)) (List.mem_singleton_self _)
    exact ⟨[], s, manyWhile_stop noMore, rfl, h⟩
  | a :: as =>
    have first : s.lexemes = sign "," :: (a.lexemes ++ (othersLexemes as ++ sign ">" :: rest)) := by
      simpa [othersLexemes] using h
    have behind := Stream.advance_of_lexemes first
    obtain ⟨head, u, run, same, left⟩ :=
      returns_arg a behind (avoids_others (by decide) (by decide) as)
    obtain ⟨tail, v, run', same', left'⟩ := returns_others as left
    have less := Stream.left_lt_of_lexemes first left (List.suffix_append ..)
    refine ⟨head :: tail, v, manyWhile_turn (Stream.isAt_sign first) run less run', ?_, left'⟩
    rw [List.map_cons, same, same', argTrees]

theorem returns_arg {s : Stream} {rest : List Lexeme} (a : ArgForm)
    (h : s.lexemes = a.lexemes ++ rest) (hrest : Ends rest) :
    Returns (typeRef .whole) s TypeRef.unspanned a.tree rest := by
  match a with
  | .type t => exact returns_type t h hrest
  | .any =>
    have behind := Stream.advance_of_lexemes h
    have avoids : Ends s.advance.lexemes := by rwa [behind]
    refine returns_typeRef (n := 0) ⟨.wildcard none, s.advance, ?_, rfl, behind⟩
      (hrest.mono (by decide))
    have noBound : ¬(s.advance.isAt "extends" || s.advance.isAt "super") := by
      simp [Stream.not_isAt avoids (w := "extends") (by decide),
        Stream.not_isAt avoids (w := "super") (by decide)]
    rw [typeKind_of_wildcard h, wildcardType, get_bind, get_bind, ite_run, if_neg noBound]
    rfl
  | .bounded w bound =>
    have behind := Stream.advance_of_lexemes h
    have hasBound : s.advance.isAt "extends" || s.advance.isAt "super" := by
      have own := Stream.isAt_word behind
      cases w with
      | extending => simp [show s.advance.isAt "extends" from own]
      | above => simp [show s.advance.isAt "super" from own]
    obtain ⟨b, u, run, same, left⟩ :=
      returns_type bound (Stream.advance_of_lexemes behind) hrest
    refine returns_typeRef (n := 0) ⟨.wildcard (some b), u, ?_, ?_, left⟩ (hrest.mono (by decide))
    · rw [typeKind_of_wildcard h, wildcardType, get_bind, get_bind, ite_run, if_pos hasBound,
        take_bind, whole_type, bind_of_ok run]
      rfl
    · rw [TypeKind.unspanned, same]

theorem returns_segments {s : Stream} {rest : List Lexeme} (ss : List SegmentForm)
    (h : s.lexemes = segmentsLexemes ss ++ rest) (hrest : Avoids ["<", "."] rest) :
    Returns (manyWhile Stream.continuesName do
      let _ ← take
      typeSegment .whole) s (List.map TypeSegment.unspanned) (segmentTrees ss) rest := by
  match ss with
  | [] =>
    have avoids : Avoids ["<", "."] s.lexemes := by rwa [h]
    have noMore : ¬s.continuesName := by
      simp [Stream.continuesName, Stream.not_isAt avoids (w := ".") (by decide)]
    exact ⟨[], s, manyWhile_stop noMore, rfl, h⟩
  | ⟨name, args⟩ :: ss =>
    have first : s.lexemes = sign "." :: word name.word ::
        (argsLexemes args ++ (segmentsLexemes ss ++ rest)) := by
      simpa [segmentsLexemes] using h
    have behind := Stream.advance_of_lexemes first
    have more : s.continuesName := by
      rw [Stream.continuesName, ← Stream.current_advance (Stream.not_atEnd_of_lexemes first)]
      simp [Stream.isAt_sign first, (Stream.current_of_identifier behind).1]
    obtain ⟨head, u, run, same, left⟩ := returns_segment name args behind
      (avoids_segments (hrest.mono (by decide)) (by decide) ss)
    obtain ⟨tail, v, run', same', left'⟩ := returns_segments ss left hrest
    have less := Stream.left_lt_of_lexemes first left ⟨_ :: argsLexemes args, rfl⟩
    refine ⟨head :: tail, v, manyWhile_turn more run less run', ?_, left'⟩
    rw [List.map_cons, same, same', segmentTrees]

end

/-! ### The declaration of a variable -/

/-- The words that begin something else than a type. -/
def reserved : List String :=
  modifierKeywords ++ ["synchronized", "default", "@", "package", "import", "class", "interface",
    "enum", "<"]

variable {g : Grammar}

theorem modifiers_none (h : Avoids reserved s.lexemes) : modifiers g s = .ok ([], s) := by
  refine manyWhile_stop ?_
  have noMarker : ¬s.isAt "@" := Stream.not_isAt h (by decide)
  have noModifier : ¬s.isAtModifier := by
    intro there
    simp only [Stream.isAtModifier, Stream.not_isAt h (w := "synchronized") (by decide),
      Stream.not_isAt h (w := "default") (by decide), Bool.false_eq_true, if_false,
      Bool.and_eq_true, List.contains_iff_mem] at there
    refine Stream.not_isAt h (List.mem_append_left _ there.2) ?_
    have kind : s.current.kind = .keyword := by simpa [Stream.isAtKind] using there.1
    simp [Stream.isAt, Token.is, kind]
  simp [Stream.isAtMarker, noMarker, noModifier]

theorem startsTypeDecl_none (h : Avoids reserved s.lexemes) :
    startsTypeDecl g s = .ok (false, s) := by
  have noKeyword : s.isAtTypeKeyword = false := by
    simp [Stream.isAtTypeKeyword, Stream.not_isAt h (w := "class") (by decide),
      Stream.not_isAt h (w := "interface") (by decide), Stream.not_isAt h (w := "enum") (by decide),
      Stream.not_isAt h (w := "@") (by decide)]
  rw [startsTypeDecl, foresee, bind_of_ok (modifiers_none h), get_bind, noKeyword]
  rfl

variable {t : TypeForm} {name : Identifier}

/-- The stream of a declaration. -/
abbrev Declares (s : Stream) (t : TypeForm) (name : Identifier) : Prop :=
  s.lexemes = t.lexemes ++ [word name.word, sign ";"]

theorem Declares.avoids (h : Declares s t name) : Avoids reserved s.lexemes := by
  rw [h]
  exact t.avoids (by decide) _

theorem Declares.returns (h : Declares s t name) :
    Returns (typeRef .whole) s TypeRef.unspanned t.tree [word name.word, sign ";"] := by
  refine returns_type t h ?_
  exact avoids_word (by decide) name.isWord (.inr name.notKeyword) _

theorem startsMethod_none (h : Declares s t name) : startsMethod .whole s = .ok (false, s) := by
  obtain ⟨type, u, run, -, left⟩ := h.returns
  have noParams : typeParams .whole s = .ok ([], s) := by
    rw [typeParams, eat_bind, if_neg (Stream.not_isAt h.avoids (by decide))]
    rfl
  have noParen : u.isNext "(" = false := by
    have avoids : Avoids ["("] u.advance.lexemes := by
      rw [Stream.advance_of_lexemes left]
      exact avoids_cons (by decide)
    rw [Stream.isNext_eq left]
    exact Bool.eq_false_iff.2 (Stream.not_isAt avoids (.head _))
  have run : (do
      let _ ← modifiers .whole
      let _ ← typeParams .whole
      let _ ← typeRef .whole
      return (← get).isAtKind .identifier && (← get).isNext "(") s = .ok (false, u) := by
    rw [bind_of_ok (modifiers_none h.avoids), bind_of_ok noParams, bind_of_ok run, get_bind,
      get_bind, noParen, Bool.and_false]
    rfl
  rw [startsMethod, foresee, run]

theorem startsLocalVar_declares (h : Declares s t name) :
    startsLocalVar .whole s = .ok (true, s) := by
  obtain ⟨type, u, run, -, left⟩ := h.returns
  have named : u.isAtKind .identifier := by
    simp [Stream.isAtKind, (Stream.current_of_identifier left).1]
  have run : (do
      let _ ← modifiers .whole
      let _ ← typeRef .whole
      return (← get).isAtKind .identifier) s = .ok (true, u) := by
    rw [bind_of_ok (modifiers_none h.avoids), bind_of_ok run, get_bind, named]
    rfl
  rw [startsLocalVar, foresee, run]

theorem returns_varDeclRest (start : Nat) (type : TypeRef) (id : Ident)
    (h : s.lexemes = [sign ";"]) :
    Returns (varDeclRest .whole start [] type id) s VarDecl.unspanned
      ⟨[], type.unspanned, [⟨id.unspanned, 0, none⟩], .nowhere⟩ [] := by
  have avoids : Avoids ["[", "=", ","] s.lexemes := by
    rw [h]
    exact avoids_cons (by decide)
  obtain ⟨n, u, run, rfl, left⟩ := returns_dims (n := 0) h (avoids_cons (by decide))
  have declared : declaratorRest .whole id s = .ok (⟨id, 0, none⟩, u) := by
    have noInit : ¬u.isAt "=" := Stream.not_isAt (by rwa [left, ← h]) (by decide)
    rw [declaratorRest, bind_of_ok run, eat_bind, if_neg noInit]
    rfl
  have alone : manyWhile (·.isAt ",") (do
      let _ ← take
      declarator .whole) u = .ok ([], u) :=
    manyWhile_stop (Stream.not_isAt (by rwa [left, ← h]) (by decide))
  have closes := expect_sign left
  refine ⟨⟨[], type, [⟨id, 0, none⟩], u.advance.spanFrom start⟩, u.advance, ?_, ?_,
    Stream.advance_of_lexemes left⟩
  · rw [varDeclRest, bind_of_ok declared, bind_of_ok alone, bind_of_ok closes]
    rfl
  · rfl

theorem returns_localVar (h : Declares s t name) : Returns (localVar .whole) s VarDecl.unspanned
    ⟨[], t.tree, [⟨name.ident, 0, none⟩], .nowhere⟩ [] := by
  obtain ⟨type, u, run, same, left⟩ := h.returns
  obtain ⟨kind, text⟩ := Stream.current_of_identifier left
  have named : identifier u = .ok (.ofToken u.current, u.advance) :=
    identifier_eq_ok.2 ⟨by simp [Stream.isAtKind, kind], rfl, rfl⟩
  obtain ⟨decl, v, run', same', left'⟩ := returns_varDeclRest s.lo type (.ofToken u.current)
    (Stream.advance_of_lexemes left)
  refine ⟨decl, v, ?_, ?_, left'⟩
  · rw [localVar, get_bind, bind_of_ok (modifiers_none h.avoids), bind_of_ok run, bind_of_ok named]
    exact run'
  · rw [same', same, Ident.ofToken, Ident.unspanned, text, Identifier.ident]

theorem returns_blockStatement (h : Declares s t name) :
    Returns (blockStatement .whole) s Stmt.unspanned
      ⟨.localVar ⟨[], t.tree, [⟨name.ident, 0, none⟩], .nowhere⟩, .nowhere⟩ [] := by
  -- the start of the statement does not change what is ahead
  have begun : beginDecision s = .ok (s.lo, {s with decisionStart := s.lo}) := rfl
  have h' : Declares {s with decisionStart := s.lo} t name := h
  obtain ⟨decl, u, run, same, left⟩ := returns_localVar h'
  have kept : Stmt.unspanned ⟨.localVar decl, decl.span⟩ =
      ⟨.localVar ⟨[], t.tree, [⟨name.ident, 0, none⟩], .nowhere⟩, .nowhere⟩ := by
    rw [Stmt.unspanned, StmtKind.unspanned, same]
  refine ⟨⟨.localVar decl, decl.span⟩, u, ?_, kept, left⟩
  rw [blockStatement, bind_of_ok begun, bind_of_ok (startsTypeDecl_none h'.avoids)]
  simp only [Bool.false_eq_true, if_false]
  rw [bind_of_ok (startsLocalVar_declares h'), if_pos rfl, bind_of_ok run]
  rfl

theorem returns_item (h : Declares s t name) : Returns (item .whole) s Item.unspanned
    (.stmt ⟨.localVar ⟨[], t.tree, [⟨name.ident, 0, none⟩], .nowhere⟩, .nowhere⟩) [] := by
  have begun : beginDecision s = .ok (s.lo, {s with decisionStart := s.lo}) := rfl
  have h' : Declares {s with decisionStart := s.lo} t name := h
  have noImport := Stream.not_isAt h'.avoids (w := "import") (by decide)
  obtain ⟨stmt, u, run, same, left⟩ := returns_blockStatement h'
  refine ⟨.stmt stmt, u, ?_, by rw [Item.unspanned, same], left⟩
  rw [item, bind_of_ok begun, get_bind, if_neg noImport,
    bind_of_ok (startsTypeDecl_none h'.avoids)]
  simp only [Bool.false_eq_true, if_false]
  rw [bind_of_ok (startsMethod_none h')]
  simp only [Bool.false_eq_true, if_false]
  rw [bind_of_ok run]
  rfl

end Syntax

open Syntax Reader

/-- A variable with a type and without a value is declared by a statement of its own, the type of
which is the one that was written. -/
theorem TypeForm.parse_declaration (t : TypeForm) (name : Identifier) :
    ∃ sketch, Sketch.parse (t.declaration name) = .ok sketch ∧ sketch.package = none ∧
      sketch.items.map Item.unspanned =
        [.stmt ⟨.localVar ⟨[], t.tree, [⟨name.ident, 0, none⟩], .nowhere⟩, .nowhere⟩] := by
  obtain ⟨ts, hts, lexemes⟩ := t.tokenize_declaration name
  have declares : Declares (.ofTokens ts) t name := lexemes
  obtain ⟨item, u, run, same, left⟩ := returns_item declares
  have noPackage : packageDecl? (.ofTokens ts) = .ok (none, .ofTokens ts) := by
    rw [packageDecl?, get_bind,
      if_neg (Stream.not_isAt declares.avoids (w := "package") (by decide))]
    rfl
  have items : manyWhile (!·.atEnd) (Syntax.item .whole) (.ofTokens ts) = .ok ([item], u) := by
    obtain ⟨w, more, first, -⟩ := t.exists_word
    have ahead : Syntax.Stream.lexemes (.ofTokens ts) =
        word w :: (more ++ [word name.word, sign ";"]) := by
      rw [declares, first, List.cons_append]
    have ends : u.atEnd := Stream.atEnd_iff.2 (List.map_eq_nil_iff.1 left)
    have stop : manyWhile (!·.atEnd) (Syntax.item .whole) u = .ok ([], u) :=
      manyWhile_stop (by simp [ends])
    have less := Stream.left_lt_of_lexemes ahead left List.nil_suffix
    exact manyWhile_turn (by simp [Stream.not_atEnd_of_lexemes ahead]) run less stop
  refine ⟨⟨none, [item], ⟨0, (t.declaration name).size⟩⟩, ?_, rfl, by
    rw [List.map_singleton, same]⟩
  rw [Sketch.parse_eq hts (Nat.le_refl _) .whole, Function.iterate_fixed Grammar.unfold_whole,
    Syntax.sketch, bind_of_ok noPackage, bind_of_ok items]
  rfl

end SketchPrep
