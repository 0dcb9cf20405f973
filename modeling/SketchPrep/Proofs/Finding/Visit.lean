import SketchPrep.Proofs.Finding.Walk
import SketchPrep.Proofs.Syntax.Occurrence

/-!
One step of the walk. Main statement: `ofPhrase_perm`, what is found in a phrase is what the walk has
to say of the phrase itself and what it finds in the parts that it enters. What it leaves out is
written with words only, or is one of a few parts (`LeavesOut`).
-/

namespace SketchPrep.Finding

open Phrase

variable (c : Context)

/-- The calls that move. -/
def movedCalls (fs : List Finding) : List SettingsCall :=
  (fs.filterMap call?).filter SettingsCall.isAccepted

@[simp] theorem movedCalls_append (fs gs : List Finding) :
    movedCalls (fs ++ gs) = movedCalls fs ++ movedCalls gs := by
  simp [movedCalls]

/-- What the walk finds in a phrase before it turns to its parts. -/
def own (inSketch : Bool) : Phrase → List Finding
  | .callName id => ofConversion c id
  | .typeKind (.primitive id) => ofTypeKind c (.primitive id)
  | .expr ⟨.literal kind text, span⟩ => ofLiteral c span kind text.toList
  | .stmt s =>
    ofCandidate c inSketch s ++
      match hoisted? c inSketch s with
      | some call => ofHoisted s.span call
      | none => []
  | .methodDecl m =>
    ofVisibility c inSketch m ++ if inSketch && declaresMain m then [.main] else []
  | .member (.importation d) => [.issue ⟨d.span.lo, MessageTable.badImport⟩]
  | .item (.importation d) => (Draft.deleteSpan d.span).map .edit
  | _ => []

variable {c} {p : Phrase} {qs : List Phrase}

@[simp] theorem requests_ofCandidate (b : Bool) (s : Stmt) : requests (ofCandidate c b s) = [] := by
  simp [ofCandidate, requests, request?, Function.comp_def]

theorem ofStmt_inHead (s : Stmt) : ofStmt c false s = ofStmtKind c s.kind :=
  ofStmt_of_no_candidate c false (by simp [candidate?])

theorem own_of_no_call {b : Bool} {s : Stmt} (h : SettingsCall.ofStmt? s = none) :
    own c b (.stmt s) = [] := by
  simp [own, ofCandidate, hoisted?, candidate?_of_no_call c b h]

/-- The walk does not enter this part, though something may be found in it: a statement moves as a
whole; neither the default of an annotation's element nor what annotates a parameter of a lambda is
in the tree. -/
inductive LeavesOut (c : Context) (b : Bool) : Phrase → Phrase → Prop
  | moved {st : Stmt} {q : Phrase} (h : (hoisted? c b st).isSome) : LeavesOut c b (.stmt st) q
  | default {m : MethodDecl} {e : Expr} : LeavesOut c b (.methodDecl m) (.expr e)
  | modifier {l : LambdaParam} {m : Modifier} : LeavesOut c b (.lambdaParam l) (.modifier m)

/-- Of the parts `qs` of `p` the walk enters `kept`. -/
structure Enters (c : Context) (b : Bool) (p : Phrase) (qs kept : List Phrase) : Prop where
  sublist : kept.Sublist qs
  covers : ∀ q ∈ qs, q ∈ kept ∨ q.isPlain ∨ LeavesOut c b p q

theorem Enters.all {b : Bool} : Enters c b p qs qs := ⟨.refl _, fun _ hq => .inl hq⟩

theorem Enters.but {b : Bool} {front dropped back : List Phrase}
    (h : ∀ q ∈ dropped, q.isPlain ∨ LeavesOut c b p q) :
    Enters c b p (front ++ dropped ++ back) (front ++ back) where
  sublist := (List.sublist_append_left _ _).append_right _
  covers q hq := by
    rcases List.mem_append.1 hq with hq | hq
    · rcases List.mem_append.1 hq with hq | hq
      · exact .inl (List.mem_append_left _ hq)
      · exact .inr (h q hq)
    · exact .inl (List.mem_append_right _ hq)

theorem Enters.but_typeParams {b : Bool} {front back : List Phrase} {dropped : List TypeParam} :
    Enters c b p (front ++ typeParams dropped ++ back) (front ++ back) :=
  .but fun _ hq => .inl (isPlain_of_trees (by simp [isPlain]) _ hq)

theorem Enters.lambdaParam {b : Bool} {l : LambdaParam} {x : Param} :
    Enters c b (.lambdaParam l) (paramParts x) [.type x.type] where
  sublist := by simp [paramParts]
  covers q hq := by
    simp only [paramParts, modifiers, List.append_assoc, List.cons_append, List.mem_append,
      List.mem_map, List.mem_cons] at hq
    rcases hq with ⟨m, -, rfl⟩ | rfl | hq | rfl | hq
    · exact .inr (.inr .modifier)
    · exact .inl (.head _)
    · exact .inr (.inl (isPlain_of_trees (by simp) _ hq))
    · exact .inr (.inl rfl)
    · exact .inr (.inl (isPlain_of_trees (by simp) _ hq))

theorem ofPhrase_perm (h : Production p qs) (b : Bool) :
    ∃ kept b', Enters c b p qs kept ∧ (ofPhrase c b p).Perm (own c b p ++ ofPhrases c b' kept) := by
  suffices found : ∃ kept b', Enters c b p qs kept ∧
      (ofPhrase c b p).Perm (own c b p ++ ofPhrases c b' (trees kept)) by
    simpa only [ofPhrases_trees] using found
  cases h with
  | stmt =>
    rename_i kind span
    cases hh : hoisted? c b ⟨kind, span⟩ with
    | some call =>
      have moved : ∀ q ∈ [Phrase.stmtKind kind], q.isPlain ∨ LeavesOut c b (.stmt ⟨kind, span⟩) q :=
        fun _ _ => .inr (.moved (by simp [hh]))
      exact ⟨_, b, @Enters.but _ _ _ [] _ [] moved, by simp [ofPhrase, ofStmt, own, hh]⟩
    | none => exact ⟨_, false, .all, by simp [ofPhrase, ofStmt, own, hh]⟩
  | localVar =>
    rename_i d span
    have silent : own c b (.stmt ⟨.localVar d, span⟩) = [] := own_of_no_call rfl
    exact ⟨_, false, .all, by simp [ofPhrase, silent]⟩
  | localType =>
    rename_i d span
    have silent : own c b (.stmt ⟨.localType d, span⟩) = [] := own_of_no_call rfl
    have walked : ofStmt c b ⟨.localType d, span⟩ = ofTypeDecl c d := by
      rw [ofStmt_of_no_candidate c b (candidate?_of_no_call c b rfl), ofStmtKind]
    exact ⟨_, false, .all, by simp [ofPhrase, silent, walked]⟩
  | bareExpr => exact ⟨_, false, .all, by simp [ofPhrase, own, ofStmt_inHead, ofStmtKind]⟩
  | resource =>
    refine ⟨_, false, .all, ?_⟩
    simp [ofPhrase, own, ofVarDecl, ofDeclarators, ofOptional]
  | block | methodMember => exact ⟨_, b, .all, by simp [ofPhrase, own, ofBlock, ofMember]⟩
  | methodItem | stmtItem => exact ⟨_, true, .all, by simp [ofPhrase, own, ofItem]⟩
  | method =>
    rename_i ms params returnType id ps _ exceptions body span
    refine ⟨_, b && id.name = "setup", .all, ?_⟩
    simp [ofPhrase, own, ofMethod, ofOptionalBlock]
  | methodWithoutBody =>
    rename_i default span
    refine ⟨_, false, .but ?_, ?_⟩
    · intro q hq
      cases default with
      | none => cases hq
      | some e =>
        simp only [exprAfter, List.mem_cons, List.not_mem_nil, or_false] at hq
        rcases hq with rfl | rfl
        · exact .inl rfl
        · exact .inr .default
    · simp [ofPhrase, own, ofMethod, ofOptionalBlock]
  | callOf =>
    rename_i target dropped t args span _
    refine ⟨_, false, @Enters.but_typeParams _ _ _ [.expr target, .word "."] _ _, ?_⟩
    simp [ofPhrase, own, ofExpr, ofExprKind]
  | field =>
    rename_i target dropped t span _
    refine ⟨_, false, @Enters.but_typeParams _ _ _ [.expr target, .word "."] _ _, ?_⟩
    simp [ofPhrase, own, ofExpr, ofExprKind]
  | varDecl =>
    rename_i ms dropped type ds span
    refine ⟨modifiers ms ++ (.type type :: separated "," (ds.map .declarator) ++ [.word ";"]), false,
      ?_, ?_⟩
    · rw [List.append_assoc]
      exact .but_typeParams
    · simp [ofPhrase, own, ofVarDecl]
  | param =>
    rename_i p
    obtain ⟨ms, type, varargs, name, dims⟩ := p
    exact ⟨_, false, .all, by simp [ofPhrase, own, ofParam]⟩
  | lambdaParam => exact ⟨_, false, .lambdaParam, by simp [ofPhrase, own, ofLambdaParams, ofTypes]⟩
  | typeDecl =>
    rename_i ms kind id params superTypes interfaces constants _ _ members span _
    refine ⟨_, TypeDecl.isSketchClass
      ⟨ms, kind, id, params, superTypes, interfaces, constants, members, span⟩, .all, ?_⟩
    simp [ofPhrase, own, ofTypeDecl]
  | doWhile | instanceOf =>
    refine ⟨_, false, .all, ?_⟩
    simp [ofPhrase, own, ofStmtKind, ofExpr, ofExprKind]
    exact List.perm_append_comm
  | plainLambda =>
    refine ⟨_, false, .all, ?_⟩
    rw [ofPhrase, ofExpr, ofExprKind_lambda c false]
    simp [own, ofLambdaParams, ofTypes]
  | lambda =>
    refine ⟨_, false, .all, ?_⟩
    rw [ofPhrase, ofExpr, ofExprKind_lambda c false]
    simp [own]
  | typeParam =>
    rename_i bounds
    refine ⟨_, false, .all, ?_⟩
    cases bounds <;> simp [ofPhrase, own, ofTypes]
  | markerModifier =>
    rename_i a
    obtain ⟨name, args, inner⟩ := a
    exact ⟨_, false, .all, by simp [ofPhrase, own, ofModifiers]⟩
  | ifElse =>
    rename_i no
    refine ⟨_, false, .all, ?_⟩
    cases no <;> simp [ofPhrase, own, ofStmtKind, ofOptionalStmt]
  | _ =>
    refine ⟨_, false, .all, ?_⟩
    simp [ofPhrase, own, ofType, ofTypeKind, ofTypes, ofSegments, ofLambdaParams, ofExpr,
      ofExprKind, ofExprs, ofModifiers, ofParam, ofDeclarators, ofStmtKind, ofCatches,
      ofCases, ofConstants, ofMember, ofItem, ofStmts]

end SketchPrep.Finding
