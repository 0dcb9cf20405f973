import SketchPrep.Proofs.Syntax.Quotation
import SketchPrep.Proofs.Syntax.Recursion
import SketchPrep.Proofs.Token.Partition

/-!
Reading ends. A nested reader and a turn of a loop take a token each, what is read ahead or as a
cast in vain is not taken, and no place is asked for but those of the tokens. Main statement:
`readingEnds`, for the readers that turn to each other without any bound.
-/

namespace SketchPrep

open Text Token

namespace Syntax

open Reader

/-! ### Loops -/

namespace Reader

variable {α : Type} {more : Stream → Bool} {item : Reader α}

/-- Each turn takes a token, and nothing but the condition ends the loop. -/
structure Ends (more : Stream → Bool) (item : Reader α) : Prop where
  takes : ∀ s a t, more s → item s = .ok (a, t) → t.left < s.left
  turn : ∀ s, manyWhile more item s =
    (if more s then do
      let a ← item
      let as ← manyWhile more item
      return a :: as
    else return []) s

/-- The same, with a separator behind each item but perhaps the last. -/
structure EndsBetween (sep : String) (more : Stream → Bool) (item : Reader α) : Prop where
  takes : ∀ s a t, more s → item s = .ok (a, t) → t.left < s.left
  turn : ∀ s, sepEndBy sep more item s =
    (if more s then do
      let a ← item
      if ← eat sep then
        let as ← sepEndBy sep more item
        return a :: as
      else return [a]
    else return []) s

/-- The same, for a loop that goes on as long as its step finds something. -/
structure EndsExtending (step : α → Reader (Option α)) : Prop where
  takes : ∀ s a b t, step a s = .ok (some b, t) → t.left < s.left
  turn : ∀ s a, extend step a s =
    (do match ← step a with
      | none => return a
      | some b => extend step b : Reader α) s

/-- The items behind the first of a list. -/
def EndsListing (item : Reader α) : Prop :=
  ∀ sep, Ends (·.isAt sep) do
    let _ ← take
    item

theorem Ends.of_takes (h : ∀ s a t, more s → item s = .ok (a, t) → t.left < s.left) :
    Ends more item where
  takes := h
  turn s := by
    rw [manyWhile_eq]
    by_cases goes : more s
    · rw [if_pos goes, if_pos goes]
      change Except.bind (item s) _ = Except.bind (item s) _
      cases ran : item s with
      | error => rfl
      | ok read =>
        obtain ⟨a, t⟩ := read
        exact if_pos (h s a t goes ran)
    · rw [if_neg goes, if_neg goes]

theorem EndsBetween.of_takes {sep : String}
    (h : ∀ s a t, more s → item s = .ok (a, t) → t.left < s.left) : EndsBetween sep more item where
  takes := h
  turn s := by
    rw [sepEndBy_eq]
    by_cases goes : more s
    · rw [if_pos goes, if_pos goes]
      change Except.bind (item s) _ = Except.bind (item s) _
      cases ran : item s with
      | error => rfl
      | ok read =>
        obtain ⟨a, t⟩ := read
        have shorter := Nat.lt_of_le_of_lt t.left_advance_le (h s a t goes ran)
        change _ = (eat sep >>= _) t
        rw [eat_bind]
        simp only [Except.bind, shorter, decide_true, Bool.and_true]
        rfl
    · rw [if_neg goes, if_neg goes]

theorem EndsExtending.of_takes {step : α → Reader (Option α)}
    (h : ∀ s a b t, step a s = .ok (some b, t) → t.left < s.left) : EndsExtending step where
  takes := h
  turn s a := by
    rw [extend_eq]
    change Except.bind (step a s) _ = Except.bind (step a s) _
    cases ran : step a s with
    | error => rfl
    | ok read =>
      obtain ⟨_ | b, t⟩ := read
      · rfl
      · exact if_pos (h s a b t ran)

/-- Nothing is asked of the streams, nothing of the errors. -/
abbrev AnyAlike (k : Nat) (r : Reader α) (s : Stream) : Prop :=
  Alike (fun _ => True) (fun _ => True) k r r s

theorem takes_of_alike (h : ∀ s, more s → AnyAlike 1 item s) :
    ∀ s a t, more s → item s = .ok (a, t) → t.left < s.left :=
  fun s _ _ goes ran => ((h s goes).of_ok ran).2

theorem ends_of_alike (h : ∀ s, AnyAlike 1 item s) : Ends more item :=
  .of_takes (takes_of_alike fun s _ => h s)

theorem endsBetween_of_alike {sep : String} (h : ∀ s, AnyAlike 1 item s) :
    EndsBetween sep more item :=
  .of_takes (takes_of_alike fun s _ => h s)

/-- What the loop asks for is no end of input, so the token taken first counts. -/
theorem ends_behind (opens : ∀ s, more s → ¬s.atEnd) (h : ∀ s, AnyAlike 0 item s) :
    Ends more (do
      let _ ← take
      item) :=
  .of_takes <| takes_of_alike fun s goes =>
    (Invariant.any.takeSome trivial (opens s goes)).bind fun _ t _ _ => h t

theorem endsListing_of_alike {k : Nat} (h : ∀ s, AnyAlike k item s) : EndsListing item :=
  fun _ => ends_behind (fun _ => Stream.not_atEnd_of_isAt) fun s => (h s).last

theorem endsExtending_of_alike {step : α → Reader (Option α)}
    (h : ∀ a s, AlikeIf (fun _ => True) (fun _ => True) (step a) (step a) s) :
    EndsExtending step := by
  refine .of_takes fun s a b t ran => ?_
  have alike := h a s
  unfold AlikeIf at alike
  rw [ran] at alike
  cases alike with
  | ok fits => exact fits.2

end Reader

/-- Every loop of the readers ends. -/
structure Grammar.Loops (g : Grammar) : Prop where
  dims : Ends (fun s => s.isAt "[" && s.isNext "]") (do
    let _ ← take
    take)
  names : Ends Stream.continuesName (do
    let _ ← take
    takeIdent)
  segments : Ends Stream.continuesName (do
    let _ ← take
    typeSegment g)
  imports : Ends (fun s => s.isAt "." && !s.isNext "*") (do
    let _ ← take
    identifier)
  modifiers : Ends (fun s => s.isAtMarker || s.isAtModifier) (modifier g)
  sizes : Ends (fun s => s.isAt "[" && !s.isNext "]") (arraySize g)
  declarators : EndsListing (declarator g)
  typeArgs : EndsListing g.type
  types : EndsListing (typeRef g)
  typeParams : EndsListing (typeParam g)
  params : EndsListing (param g)
  markerArgs : EndsListing g.varInit
  arguments : EndsListing g.expr
  updates : EndsListing (Syntax.expr g)
  inits : EndsListing (bareExpr g)
  labels : EndsListing (Syntax.conditional g)
  lambdaParams : EndsBetween "," (!·.isAt ")") (lambdaParam g)
  elements : EndsBetween "," (!·.isAt "\x7d") g.varInit
  constants : EndsBetween "," (·.isAtKind .identifier) (enumConstant g)
  resources : EndsBetween ";" (!·.isAt ")") (resource g)
  selectors : EndsExtending (selector g)
  operations : ∀ least, EndsExtending (operation g least)
  members : ∀ name, Ends (fun s => !s.isAt "\x7d" && !s.atEnd) (g.member name)
  stmts : Ends (fun s => !s.isAt "\x7d" && !s.atEnd) g.blockStatement
  catches : Ends (·.isAt "catch") (catchClause g)
  cases : Ends (fun s => !s.isAt "\x7d" && !s.atEnd) (switchCase g)
  caseStmts : Ends Stream.isInCase g.blockStatement
  items : Ends (!·.atEnd) (item g)

theorem Grammar.loops_of_agree {g : Grammar}
    (h : ∀ n, g.Agree (fun _ => True) (fun _ => True) n g) : g.Loops := by
  have agree (s : Stream) := h (s.left + 1)
  have le (s : Stream) : s.left ≤ s.left + 1 := Nat.le_succ _
  have lt (s : Stream) : s.left < s.left + 1 := Nat.lt_succ_self _
  have opens {b : Bool} {s : Stream} {w : String} (h : (s.isAt w && b) = true) : ¬s.atEnd :=
    Stream.not_atEnd_of_isAt (Bool.and_eq_true_iff.1 h).1
  constructor
  case dims =>
    apply ends_behind (fun _ => opens)
    intro s
    exact Invariant.any.take trivial
  case names =>
    apply ends_behind (fun _ => opens)
    intro s
    exact Invariant.any.takeIdent trivial
  case segments =>
    apply ends_behind (fun _ => opens)
    intro s
    exact alike_typeSegment (agree s) (le s) (Invariant.any.takeIdent trivial)
  case imports =>
    apply ends_behind (fun _ => opens)
    intro s
    exact (Invariant.any.identifier trivial).last
  case modifiers =>
    -- A word is taken whatever it is, so that it is a modifier has to come from the condition.
    refine .of_takes (takes_of_alike fun s goes => .get (.ite (fun _ => ?_) fun unmarked => ?_))
    · exact (alike_marker (agree s) trivial (le s)).bind fun _ _ _ _ => .pure trivial
    · have keyword := (Bool.or_eq_true_iff.1 goes).resolve_left unmarked
      have here : ¬s.atEnd :=
        Stream.not_atEnd_of_isAtKind (Bool.and_eq_true_iff.1 keyword).1 (by decide)
      exact (Invariant.any.takeName trivial here).bind fun _ _ _ _ => .pure trivial
  case sizes =>
    apply ends_behind (fun _ => opens)
    intro s
    exact ((agree s).expr trivial (lt s)).last.bind fun _ _ _ _ =>
      (Invariant.any.expect trivial _).last.bind fun _ _ _ _ => .pure trivial
  case declarators =>
    apply endsListing_of_alike
    intro s
    exact alike_declarator (agree s) trivial (le s)
  case typeArgs => exact endsListing_of_alike fun s => (agree s).type trivial (lt s)
  case types => exact endsListing_of_alike fun s => alike_typeRef (agree s) trivial (le s)
  case typeParams => exact endsListing_of_alike fun s => alike_typeParam (agree s) trivial (le s)
  case params => exact endsListing_of_alike fun s => alike_param (agree s) trivial (le s)
  case markerArgs => exact endsListing_of_alike fun s => (agree s).varInit trivial (lt s)
  case arguments => exact endsListing_of_alike fun s => (agree s).expr trivial (lt s)
  case updates => exact endsListing_of_alike fun s => alike_expr (agree s) trivial (le s)
  case inits => exact endsListing_of_alike fun s => alike_bareExpr (agree s) trivial (le s)
  case labels => exact endsListing_of_alike fun s => alike_conditional (agree s) trivial (le s)
  case lambdaParams =>
    apply endsBetween_of_alike
    intro s
    exact alike_lambdaParam (agree s) trivial (le s)
  case elements => exact endsBetween_of_alike fun s => (agree s).varInit trivial (lt s)
  case constants =>
    apply endsBetween_of_alike
    intro s
    exact alike_enumConstant (agree s) trivial (le s)
  case resources =>
    apply endsBetween_of_alike
    intro s
    exact alike_resource (agree s) trivial (le s)
  case selectors =>
    apply endsExtending_of_alike
    intro e s
    exact alike_selector (agree s) trivial (lt s) e
  case operations =>
    intro least
    apply endsExtending_of_alike
    intro e s
    exact alike_operation (agree s) trivial (lt s) least e
  case members =>
    intro name
    apply ends_of_alike
    intro s
    exact (agree s).member name trivial (lt s)
  case stmts => exact ends_of_alike fun s => (agree s).blockStatement trivial (lt s)
  case catches => exact ends_of_alike fun s => alike_catchClause (agree s) trivial (le s)
  case cases => exact ends_of_alike fun s => alike_switchCase (agree s) trivial (le s)
  case caseStmts => exact ends_of_alike fun s => (agree s).blockStatement trivial (lt s)
  case items => exact ends_of_alike fun s => alike_item (agree s) trivial (le s)

/-! ### Places -/

/-- Reading the source has come to the stream and has taken `i` of its tokens. -/
structure Stream.Reached (source : Text) (ts : Tokens) (i : Nat) (s : Stream) : Prop where
  took : ∃ taken, (Stream.ofTokens ts).Took taken s ∧ taken.length = i
  final : s.final = ts.final
  decisionStart : IsBoundary source s.decisionStart

end Syntax

/-- The error is at a token, and what it quotes of the source can be cut out. -/
structure SyntaxError.Reported (source : Text) (ts : Tokens) (e : SyntaxError) : Prop where
  token : ∃ t ∈ ts.all, e.start = t.start
  quotable : e.IsQuotable source

namespace Syntax

open Reader

variable {source : Text} {ts : Tokens} {i : Nat} {s : Stream}

namespace Stream

theorem advance_of_atEnd (h : s.atEnd) : s.advance = s := by
  unfold advance
  split
  · rfl
  · rename_i ahead
    rw [atEnd_iff.1 h] at ahead
    cases ahead

theorem reached_ofTokens (source : Text) (ts : Tokens) : (ofTokens ts).Reached source ts 0 :=
  ⟨⟨[], .refl _, rfl⟩, rfl, isBoundary_zero source⟩

namespace Reached

variable (h : s.Reached source ts i)

include h

theorem exists_body : ∃ taken, ts.body = taken ++ s.ahead ∧ taken.length = i := by
  obtain ⟨taken, took, length⟩ := h.took
  exact ⟨taken, took.ahead, length⟩

theorem left : s.left + i = ts.body.length := by
  obtain ⟨taken, body, rfl⟩ := h.exists_body
  rw [body, List.length_append, s.left_eq, Nat.add_comm]

theorem nth (n : Nat) : ts.all[min (i + n) ts.body.length]? = some (s.nth n) := by
  obtain ⟨taken, body, rfl⟩ := h.exists_body
  rw [Tokens.all, Stream.nth, h.final, body, List.length_append, Nat.add_min_add_left,
    List.append_assoc, List.getElem?_append_right (Nat.le_add_right _ _), Nat.add_sub_cancel_left,
    List.getD_eq_getElem?_getD]
  rcases Nat.lt_or_ge n s.ahead.length with lt | ge
  · rw [Nat.min_eq_left (Nat.le_of_lt lt), List.getElem?_append_left lt,
      List.getElem?_eq_getElem lt, Option.getD_some]
  · -- All places beyond the last are that of the end of input.
    rw [Nat.min_eq_right ge, List.getElem?_append_right (Nat.le_refl _), Nat.sub_self,
      List.getElem?_eq_none ge]
    rfl

theorem current_mem : s.current ∈ ts.all := List.mem_of_getElem? (h.nth 0)

theorem lastStop (hi : 0 < i) : (ts.all[i - 1]?).map Token.stop = some s.lastStop := by
  obtain ⟨taken, took, rfl⟩ := h.took
  have body : ts.body = taken ++ s.ahead := took.ahead
  rw [took.lastStop, Tokens.all, body, List.append_assoc,
    List.getElem?_append_left (Nat.sub_lt hi Nat.zero_lt_one), ← List.getLast?_eq_getElem?,
    List.getLast?_eq_some_getLast (List.length_pos_iff.1 hi)]
  rfl

theorem standsIn (tokens : tokenize source = .ok ts) : s.StandsIn source where
  ahead t ht := by
    obtain ⟨taken, body, -⟩ := h.exists_body
    have listed : t ∈ ts.body := body ▸ List.mem_append_right _ ht
    exact (laidOut_of_tokenize tokens).lies t listed
  final := h.final ▸ span_final_of_tokenize tokens
  decisionStart := h.decisionStart

theorem advance : ∃ j, s.advance.Reached source ts j := by
  obtain ⟨taken, took, -⟩ := h.took
  by_cases ends : s.atEnd
  · rw [advance_of_atEnd ends]
    exact ⟨i, h⟩
  · refine ⟨_, ⟨_, took.trans (took_advance ends), rfl⟩, ?_, ?_⟩
    · rw [advance_final, h.final]
    · unfold Stream.advance
      split <;> exact h.decisionStart

end Reached

end Stream

theorem invariant_reached (tokens : tokenize source = .ok ts) :
    Invariant (fun s => ∃ i, s.Reached source ts i) (SyntaxError.Reported source ts) where
  advance s := fun ⟨_, h⟩ => h.advance
  begin s := fun ⟨i, h⟩ => by
    obtain ⟨taken, took, length⟩ := h.took
    exact ⟨i, ⟨taken, ⟨took.ahead, took.lastStop⟩, length⟩, h.final,
      (h.standsIn tokens).current.1⟩
  unexpected s es := fun ⟨_, h⟩ => ⟨⟨s.current, h.current_mem, rfl⟩, isQuotable_unexpected s es⟩
  noViable s := fun ⟨_, h⟩ =>
    ⟨⟨s.current, h.current_mem, rfl⟩, isQuotable_noViable (h.standsIn tokens)⟩

/-- Wherever reading the source has come to, the reader takes a token at least and is not taken
past the end of input, or it fails at a token. -/
structure Reader.Advances {α : Type} (source : Text) (ts : Tokens) (r : Reader α) : Prop where
  ok : ∀ i s a t, s.Reached source ts i → r s = .ok (a, t) →
    ∃ j, i < j ∧ j ≤ ts.body.length ∧ t.Reached source ts j
  error : ∀ i s e, s.Reached source ts i → r s = .error e → e.Reported source ts

theorem Reader.advances_of_alike {α : Type} {r : Reader α}
    (h : ∀ s, (∃ i, s.Reached source ts i) →
      Alike (fun s => ∃ i, s.Reached source ts i) (SyntaxError.Reported source ts) 1 r r s) :
    Advances source ts r where
  ok i s a t reached ran := by
    obtain ⟨⟨j, reached'⟩, shorter⟩ := (h s ⟨i, reached⟩).of_ok ran
    have left := reached.left
    have left' := reached'.left
    exact ⟨j, by omega, by omega, reached'⟩
  error i s e reached ran := (h s ⟨i, reached⟩).of_error ran

/-! ### Parentheses -/

/-- As `closesBeforeArrow`, but nothing if more parentheses close than have opened. -/
def closesBeforeArrow? : Nat → List Token → Option Bool
  | _, [] => some false
  | depth, t :: ts =>
    if t.is "(" then closesBeforeArrow? (depth + 1) ts
    else if t.is ")" then
      if depth = 0 then none
      else if depth = 1 then some (ts.head?.any (·.is "->"))
      else closesBeforeArrow? (depth - 1) ts
    else closesBeforeArrow? depth ts

theorem closesBeforeArrow?_succ (depth : Nat) (ts : List Token) :
    closesBeforeArrow? (depth + 1) ts = some (closesBeforeArrow (depth + 1) ts) := by
  induction ts generalizing depth with
  | nil => rfl
  | cons t ts ih =>
    rw [closesBeforeArrow?, closesBeforeArrow]
    split
    · exact ih (depth + 1)
    · split
      · cases depth with
        | zero => rfl
        | succ depth => exact ih depth
      · exact ih depth

theorem closesBeforeArrow?_zero (h : s.isAt "(") :
    closesBeforeArrow? 0 s.ahead = some (closesBeforeArrow 0 s.ahead) := by
  rw [Stream.ahead_eq_cons (Stream.not_atEnd_of_isAt h), closesBeforeArrow?, closesBeforeArrow]
  have opens : s.current.is "(" := h
  rw [if_pos opens, if_pos opens]
  exact closesBeforeArrow?_succ 0 _

/-! ### Reading ahead -/

theorem Reader.foresee_eq (r : Reader Bool) (s : Stream) :
    ∃ found, foresee r s = .ok (found, s) := by
  unfold foresee
  cases r s with
  | ok read => exact ⟨read.1, rfl⟩
  | error => exact ⟨false, rfl⟩

theorem castType?_eq (g : Grammar) (s : Stream) :
    castType? g s = .ok (none, s) ∨ ∃ type t, castType? g s = .ok (some type, t) := by
  unfold castType?
  split
  · split
    · split
      · exact .inr ⟨_, _, rfl⟩
      · exact .inl rfl
    · exact .inl rfl
  · exact .inl rfl

/-! ### Sketches -/

/-- The readers of what a sketch nests. -/
structure Grammar.Advances (source : Text) (ts : Tokens) (g : Grammar) : Prop where
  item : Reader.Advances source ts (Syntax.item g)
  member : ∀ name, Reader.Advances source ts (Syntax.member g name)
  blockStatement : Reader.Advances source ts (Syntax.blockStatement g)
  statement : Reader.Advances source ts (Syntax.statement g)
  expr : Reader.Advances source ts (Syntax.expr g)
  typeRef : Reader.Advances source ts (Syntax.typeRef g)

theorem Grammar.advances_of_agree {g : Grammar} (h : ∀ n, g.Agree
    (fun s => ∃ i, s.Reached source ts i) (SyntaxError.Reported source ts) n g) :
    g.Advances source ts where
  item := advances_of_alike fun s hs => alike_item (h s.left) hs (Nat.le_refl _)
  member name := advances_of_alike fun s hs => alike_member (h s.left) hs (Nat.le_refl _) name
  blockStatement :=
    advances_of_alike fun s hs => alike_blockStatement (h s.left) hs (Nat.le_refl _)
  statement := advances_of_alike fun s hs => alike_statement (h s.left) hs (Nat.le_refl _)
  expr := advances_of_alike fun s hs => alike_expr (h s.left) hs (Nat.le_refl _)
  typeRef := advances_of_alike fun s hs => alike_typeRef (h s.left) hs (Nat.le_refl _)

/-- The source is read to its end or to an error, whatever it is. -/
structure ReadingEnds (source : Text) : Prop where
  /-- Unbounded recursion comes to these readers alone. -/
  recursion : ∀ g : Grammar, g.unfold = g ↔ g = .whole
  /-- The recursion takes no more turns than there are tokens. -/
  turns : ∀ ts, tokenize source = .ok ts → ∀ n, ts.body.length ≤ n → ∀ g : Grammar,
    Sketch.parse source = Prod.fst <$> sketch (Grammar.unfold^[n] g) source.size (.ofTokens ts)
  loops : Grammar.whole.Loops
  advances : ∀ ts, tokenize source = .ok ts → Grammar.whole.Advances source ts
  start : ∀ ts, (Stream.ofTokens ts).Reached source ts 0
  /-- Every place that is asked for is that of a token. -/
  nth : ∀ (ts : Tokens) i (s : Stream), s.Reached source ts i → ∀ n,
    ts.all[min (i + n) ts.body.length]? = some (s.nth n)
  lastStop : ∀ (ts : Tokens) i (s : Stream), s.Reached source ts i → 0 < i →
    (ts.all[i - 1]?).map Token.stop = some s.lastStop
  lookahead : ∀ (r : Reader Bool) s, ∃ found, foresee r s = .ok (found, s)
  cast : ∀ s, castType? .whole s = .ok (none, s) ∨
    ∃ type t, castType? .whole s = .ok (some type, t)
  /-- A parenthesis closes only what has been opened. -/
  depth : ∀ s : Stream, s.isAt "(" →
    closesBeforeArrow? 0 s.ahead = some (closesBeforeArrow 0 s.ahead)
  error : ∀ ts, tokenize source = .ok ts → ∀ e, Sketch.parse source = .error e →
    e.Reported source ts
  quotable : ∀ e, Sketch.parse source = .error e → e.IsQuotable source

theorem reported_of_parse (tokens : tokenize source = .ok ts) {e : SyntaxError}
    (h : Sketch.parse source = .error e) : e.Reported source ts := by
  refine Sketch.error_of_parse (invariant_reached tokens) ?_ ?_ h
  · intro u unrecognized
    rw [tokens] at unrecognized
    cases unrecognized
  · intro ts' tokens'
    obtain rfl := Except.ok.inj (tokens.symm.trans tokens')
    exact ⟨0, Stream.reached_ofTokens source ts⟩

theorem readingEnds (source : Text) : ReadingEnds source where
  recursion _ := Grammar.unfold_eq_iff
  turns _ tokens _ le g := Sketch.parse_eq tokens le g
  loops := Grammar.loops_of_agree (Grammar.agree_whole .any)
  advances _ tokens := Grammar.advances_of_agree (Grammar.agree_whole (invariant_reached tokens))
  start := Stream.reached_ofTokens source
  nth _ _ _ reached := reached.nth
  lastStop _ _ _ reached := reached.lastStop
  lookahead := foresee_eq
  cast := castType?_eq .whole
  depth _ := closesBeforeArrow?_zero
  error _ tokens _ := reported_of_parse tokens
  quotable _ := Sketch.isQuotable_of_parse

/-- A lambda whose parenthesis closes before an arrow, and a loop in it that breaks off. -/
theorem readingEnds_of_truncated :
    let source : Text := "(a) -> \x7b for (;;".toList
    ∃ ts e, tokenize source = .ok ts ∧ Sketch.parse source = .error e ∧
      e.start.offset = source.size ∧ e.Reported source ts := by
  intro source
  have read : (tokenize source).toOption.isSome := by decide +kernel
  have failed : (tryCatch ((fun _ => none) <$> Sketch.parse source) fun e =>
      .ok (some e.start.offset)).toOption = some (some source.size) := by decide +kernel
  cases tokens : tokenize source with
  | error u => rw [tokens] at read; cases read
  | ok ts =>
    cases parsed : Sketch.parse source with
    | ok tree => rw [parsed] at failed; cases failed
    | error e =>
      rw [parsed] at failed
      have stop := Option.some.inj (Option.some.inj failed)
      have reported := (readingEnds source).error ts tokens e parsed
      exact ⟨ts, e, rfl, rfl, stop, reported⟩

end Syntax

end SketchPrep
