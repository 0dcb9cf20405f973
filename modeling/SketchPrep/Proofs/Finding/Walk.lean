import SketchPrep.Proofs.Finding.Tidy
import SketchPrep.Proofs.Syntax.Sketch

/-!
The walk over a sketch that was read from tokens. Main statement: `tidy_ofItems`, all its edits
stand at the edges of tokens and apart from each other.
-/

namespace SketchPrep.Finding

open Phrase Token

variable (c : Context)

/-! ### Lists -/

theorem ofTypes_eq (ts : List TypeRef) : ofTypes c ts = ts.flatMap (ofType c) := by
  induction ts with
  | nil => rfl
  | cons t ts ih => simp [ofTypes, ih]

theorem ofSegments_eq (ss : List TypeSegment) :
    ofSegments c ss = ss.flatMap fun s => ofSegments c [s] := by
  induction ss with
  | nil => rfl
  | cons s ss ih =>
    obtain ⟨name, _ | args⟩ := s
    · simpa [ofSegments] using ih
    · simpa [ofSegments] using ih

theorem ofExprs_eq (es : List Expr) : ofExprs c es = es.flatMap (ofExpr c) := by
  induction es with
  | nil => rfl
  | cons e es ih => simp [ofExprs, ih]

theorem ofModifiers_eq (ms : List Modifier) :
    ofModifiers c ms = ms.flatMap fun m => ofModifiers c [m] := by
  induction ms with
  | nil => rfl
  | cons m ms ih =>
    obtain ⟨name, args, span⟩ | w := m
    · simpa [ofModifiers] using ih
    · simpa [ofModifiers] using ih

theorem ofParams_eq (ps : List Param) : ofParams c ps = ps.flatMap (ofParam c) := by
  induction ps with
  | nil => rfl
  | cons p ps ih => simp [ofParams, ih]

theorem ofDeclarators_eq (ds : List Declarator) :
    ofDeclarators c ds = ds.flatMap fun d => ofDeclarators c [d] := by
  induction ds with
  | nil => rfl
  | cons d ds ih =>
    obtain ⟨name, dims, init⟩ := d
    simpa [ofDeclarators] using ih

theorem ofStmts_eq (hoists : Bool) (ss : List Stmt) :
    ofStmts c hoists ss = ss.flatMap (ofStmt c hoists) := by
  induction ss with
  | nil => rfl
  | cons s ss ih => simp [ofStmts, ih]

theorem ofCatches_eq (cs : List CatchClause) :
    ofCatches c cs = cs.flatMap fun k => ofCatches c [k] := by
  induction cs with
  | nil => rfl
  | cons k cs ih =>
    obtain ⟨ms, types, name, body⟩ := k
    simpa [ofCatches] using ih

theorem ofCases_eq (cs : List SwitchCase) : ofCases c cs = cs.flatMap fun k => ofCases c [k] := by
  induction cs with
  | nil => rfl
  | cons k cs ih =>
    obtain ⟨labels, body, arrow⟩ := k
    simpa [ofCases] using ih

theorem ofConstants_eq (cs : List EnumConstant) :
    ofConstants c cs = cs.flatMap fun k => ofConstants c [k] := by
  induction cs with
  | nil => rfl
  | cons k cs ih =>
    obtain ⟨name, args, body⟩ := k
    simpa [ofConstants] using ih

theorem ofMembers_eq (inSketchClass : Bool) (ms : List Member) :
    ofMembers c inSketchClass ms = ms.flatMap (ofMember c inSketchClass) := by
  induction ms with
  | nil => rfl
  | cons m ms ih => simp [ofMembers, ih]

/-! ### Phrases -/

/-- What is found in a phrase. `inSketch` tells that its statements may move, or that its methods
are methods of the sketch class. -/
def ofPhrase (inSketch : Bool) : Phrase → List Finding
  | .word _ | .token _ | .name _ | .packageDecl _ | .importDecl _ => []
  | .callName id => ofConversion c id
  | .typeKind k => ofTypeKind c k
  | .segment s => ofSegments c [s]
  | .type t => ofType c t
  | .typeParam p => ofTypes c p.bounds
  | .marker a => ofExprs c a.args
  | .modifier m => ofModifiers c [m]
  | .param p => ofParam c p
  | .lambdaParam p => ofLambdaParams c [p]
  | .lambdaBody (.expr e) => ofExpr c e
  | .lambdaBody (.block b) => ofBlock c false b
  | .expr e => ofExpr c e
  | .declarator d => ofDeclarators c [d]
  | .varDecl d => ofVarDecl c d
  | .enumConstant k => ofConstants c [k]
  | .typeDecl d => ofTypeDecl c d
  | .block b => ofBlock c inSketch b
  | .catchClause k => ofCatches c [k]
  | .switchCase k => ofCases c [k]
  | .stmtKind k => ofStmtKind c k
  | .stmt s => ofStmt c inSketch s
  | .inHead s => ofStmt c false s
  | .methodDecl d => ofMethod c inSketch d
  | .member m => ofMember c inSketch m
  | .item i => ofItem c i

def ofPhrases (inSketch : Bool) (ps : List Phrase) : List Finding :=
  ps.flatMap (ofPhrase c inSketch)

variable (b : Bool)

@[simp] theorem ofPhrases_nil : ofPhrases c b [] = [] := rfl

@[simp] theorem ofPhrases_cons (p : Phrase) (ps : List Phrase) :
    ofPhrases c b (p :: ps) = ofPhrase c b p ++ ofPhrases c b ps := rfl

@[simp] theorem ofPhrases_append (ps qs : List Phrase) :
    ofPhrases c b (ps ++ qs) = ofPhrases c b ps ++ ofPhrases c b qs := by
  simp [ofPhrases]

theorem ofPhrases_map {α : Type} (f : α → Phrase) (as : List α) :
    ofPhrases c b (as.map f) = as.flatMap fun a => ofPhrase c b (f a) := by
  simp [ofPhrases, List.flatMap_map]

@[simp] theorem ofPhrase_word (w : String) : ofPhrase c b (.word w) = [] := rfl

@[simp] theorem ofPhrase_token (t : Token) : ofPhrase c b (.token t) = [] := rfl

@[simp] theorem ofPhrase_name (id : Ident) : ofPhrase c b (.name id) = [] := rfl

theorem ofPhrases_trees (ps : List Phrase) : ofPhrases c b (trees ps) = ofPhrases c b ps :=
  flatMap_trees (ofPhrase_word c b) ps

@[simp] theorem ofPhrases_names (ids : List Ident) : ofPhrases c b (ids.map .name) = [] := by
  simp [ofPhrases_map, ofPhrase]

@[simp] theorem ofPhrases_tokens (ts : List Token) : ofPhrases c b (ts.map .token) = [] := by
  simp [ofPhrases_map, ofPhrase]

@[simp] theorem ofPhrases_exprs (es : List Expr) :
    ofPhrases c b (es.map .expr) = ofExprs c es := by
  rw [ofPhrases_map, ofExprs_eq]
  rfl

@[simp] theorem ofExprs_toList (e : Option Expr) : ofExprs c e.toList = ofOptional c e := by
  cases e <;> simp [ofExprs, ofOptional]

@[simp] theorem ofPhrases_types (ts : List TypeRef) :
    ofPhrases c b (ts.map .type) = ofTypes c ts := by
  rw [ofPhrases_map, ofTypes_eq]
  rfl

@[simp] theorem ofPhrases_modifiers (ms : List Modifier) :
    ofPhrases c b (ms.map .modifier) = ofModifiers c ms := by
  rw [ofPhrases_map, ofModifiers_eq]
  rfl

@[simp] theorem ofPhrases_typeParams (ps : List TypeParam) :
    ofPhrases c b (ps.map .typeParam) = ofTypeParams c ps :=
  ofPhrases_map ..

@[simp] theorem ofPhrases_members (ms : List Member) :
    ofPhrases c b (ms.map .member) = ofMembers c b ms := by
  rw [ofPhrases_map, ofMembers_eq]
  rfl

@[simp] theorem ofMembers_getD (body : Option (List Member)) :
    ofMembers c false (body.getD []) = ofClassBody c body := by
  cases body <;> simp [ofMembers, ofClassBody]

@[simp] theorem ofPhrases_stmts (ss : List Stmt) :
    ofPhrases c b (ss.map .stmt) = ofStmts c b ss := by
  rw [ofPhrases_map, ofStmts_eq]
  rfl

@[simp] theorem ofPhrases_segments (ss : List TypeSegment) :
    ofPhrases c b (ss.map .segment) = ofSegments c ss := by
  rw [ofPhrases_map, ofSegments_eq]
  rfl

@[simp] theorem ofPhrases_params (ps : List Param) :
    ofPhrases c b (ps.map .param) = ofParams c ps := by
  rw [ofPhrases_map, ofParams_eq]
  rfl

@[simp] theorem ofPhrases_inHeads (ss : List Stmt) :
    ofPhrases c b (ss.map .inHead) = ofStmts c false ss := by
  rw [ofPhrases_map, ofStmts_eq]
  rfl

@[simp] theorem ofPhrases_lambdaParams (ps : List LambdaParam) :
    ofPhrases c b (ps.map .lambdaParam) = ofLambdaParams c ps := by
  induction ps with
  | nil => rfl
  | cons p ps ih =>
    obtain ⟨_ | type, name⟩ := p
    · simpa [ofPhrase, ofLambdaParams, ofTypes] using ih
    · simpa [ofPhrase, ofLambdaParams, ofTypes] using ih

@[simp] theorem ofPhrases_declarators (ds : List Declarator) :
    ofPhrases c b (ds.map .declarator) = ofDeclarators c ds := by
  rw [ofPhrases_map, ofDeclarators_eq]
  rfl

@[simp] theorem ofPhrases_constants (ks : List EnumConstant) :
    ofPhrases c b (ks.map .enumConstant) = ofConstants c ks := by
  rw [ofPhrases_map, ofConstants_eq]
  rfl

@[simp] theorem ofPhrases_catches (ks : List CatchClause) :
    ofPhrases c b (ks.map .catchClause) = ofCatches c ks := by
  rw [ofPhrases_map, ofCatches_eq]
  rfl

@[simp] theorem ofPhrases_cases (ks : List SwitchCase) :
    ofPhrases c b (ks.map .switchCase) = ofCases c ks := by
  rw [ofPhrases_map, ofCases_eq]
  rfl

@[simp] theorem ofPhrases_optionalBlock (body : Option Block) :
    ofPhrases c b (body.toList.map .block) = ofOptionalBlock c b body := by
  cases body <;> simp [ofPhrase, ofOptionalBlock]

/-- What makes no call cannot move. -/
theorem candidate?_of_no_call {s : Stmt} (h : SettingsCall.ofStmt? s = none) :
    candidate? c b s = none := by
  simp [candidate?, SettingsCall.candidate?, h]

theorem ofStmt_of_no_candidate {s : Stmt} (h : candidate? c b s = none) :
    ofStmt c b s = ofStmtKind c s.kind := by
  obtain ⟨kind, span⟩ := s
  simp [ofStmt, ofCandidate, hoisted?, h]

/-- A declaration of variables never moves. -/
@[simp] theorem ofStmt_localVar (d : VarDecl) (span : Span) :
    ofStmt c b ⟨.localVar d, span⟩ = ofVarDecl c d := by
  rw [ofStmt_of_no_candidate c b (candidate?_of_no_call c b rfl), ofStmtKind]

theorem ofExprKind_lambda (span : Span) (params : List LambdaParam) (body : LambdaBody) :
    ofExprKind c span (.lambda params body) =
      ofLambdaParams c params ++ ofPhrase c b (.lambdaBody body) := by
  cases body <;> rfl

/-! ### Rules -/

/-- The arguments of the call that a phrase is. -/
def callArgs : Phrase → List Expr
  | .expr ⟨.call _ _ args, _⟩ | .stmtKind (.expr ⟨.call _ _ args, _⟩) => args
  | _ => []

/-- What is found in a phrase is tidy in its tokens, which lie where its span says. -/
structure TidyPhrase (source : Text) (p : Phrase) (ts : List Token) : Prop where
  span : ∀ a, p.span? = some a → spanOf? ts = some a
  args : LaidOut source ts → ∀ e ∈ callArgs p, e.span.OnEdges ts
  tidy : LaidOut source ts → ∀ b, Tidy ts (ofPhrase c b p)

variable {c} {source : Text} {ts : List Token}

theorem tidy_ofPhrases {ps : List Phrase} (h : Each (TidyPhrase c source) ps ts)
    (laid : LaidOut source ts) (b : Bool) : Tidy ts (ofPhrases c b ps) := by
  induction h with
  | nil => exact .nil _
  | cons hp _ ih =>
    obtain ⟨here, behind, -⟩ := laidOut_append.1 laid
    exact (hp.tidy here b).append (ih behind) laid

theorem onEdges_of_mem {q : Phrase} {qs : List Phrase} {a : Span}
    (parts : Each (TidyPhrase c source) qs ts) (laid : LaidOut source ts) (hq : q ∈ qs)
    (ha : q.span? = some a) : a.OnEdges ts := by
  obtain ⟨us, hus, tidy⟩ := parts.of_mem hq
  exact ((laid.sublist hus).onEdges (tidy.span a ha)).mono hus.subset

theorem callArgs_rule {p : Phrase} {qs : List Phrase} (h : Production p qs)
    (parts : Each (TidyPhrase c source) qs ts) (laid : LaidOut source ts) :
    ∀ e ∈ callArgs p, e.span.OnEdges ts := by
  intro e he
  cases h with
  | call | callOf =>
    simp only [callArgs] at he
    refine onEdges_of_mem parts laid (q := .expr e) (mem_of_mem_trees ?_) rfl
    simp [he]
  | exprStmt =>
    rename_i call
    obtain ⟨us, hus, tidy⟩ := parts.of_mem (p := .expr call) (by simp)
    have same : callArgs (.stmtKind (.expr call)) = callArgs (.expr call) := by
      obtain ⟨kind, span⟩ := call
      cases kind <;> rfl
    exact (tidy.args (laid.sublist hus) e (same ▸ he)).mono hus.subset
  | _ => simp [callArgs] at he

theorem tidy_primitive {t : Token} (laid : LaidOut source ts) (hspan : spanOf? ts = some t.span) :
    Tidy ts (ofTypeKind c (.primitive (.ofToken t))) := by
  unfold ofTypeKind
  split
  · exact tidy_replace laid hspan _
  · exact .nil _

theorem tidy_conversion {t : Token} (laid : LaidOut source ts)
    (hspan : spanOf? ts = some t.span) : Tidy ts (ofConversion c (.ofToken t)) := by
  unfold ofConversion
  split
  · exact tidy_replace laid hspan _
  · exact .nil _

theorem tidy_literal {kind : LiteralKind} {text : Text} {span : Span} (laid : LaidOut source ts)
    (hspan : spanOf? ts = some span) : Tidy ts (ofLiteral c span kind text) := by
  cases kind with
  | float =>
    simp only [ofLiteral]
    split
    · exact (Tidy.nil ts).insert_stop laid _ hspan
    · exact .nil _
  | hexColor => exact tidy_replace laid hspan _
  | textBlock => exact tidy_replace laid hspan _
  | _ => exact .nil _

/-- A call that moves has one of the names. -/
theorem name_of_isAccepted {call : SettingsCall} (h : call.isAccepted) :
    call.name ∈ SettingsCall.names := by
  unfold SettingsCall.isAccepted at h
  split at h <;> simp_all [SettingsCall.names]

theorem hoisted?_eq_some {b : Bool} {st : Stmt} {call : SettingsCall} :
    hoisted? c b st = some call ↔
      b ∧ c.mode ≠ .java ∧ SettingsCall.ofStmt? st = some call ∧ call.isAccepted := by
  unfold hoisted? candidate? SettingsCall.candidate?
  split
  · rename_i allowed
    simp only [Bool.and_eq_true, decide_eq_true_eq] at allowed
    simp only [Option.filter_eq_some_iff, allowed, ne_eq, not_false_eq_true, true_and,
      List.contains_eq_mem, decide_eq_true_eq, and_assoc]
    refine and_congr_right fun _ => and_iff_right_of_imp fun accepted => ?_
    exact name_of_isAccepted accepted
  · rename_i refused
    simp only [Bool.and_eq_true, decide_eq_true_eq] at refused
    simp only [Option.filter_none, reduceCtorEq, false_iff]
    exact fun h => refused ⟨h.1, h.2.1⟩

theorem isSome_hoisted? {b : Bool} {st : Stmt} : (hoisted? c b st).isSome ↔
    b ∧ c.mode ≠ .java ∧ ∃ call, SettingsCall.ofStmt? st = some call ∧ call.isAccepted := by
  simp only [Option.isSome_iff_exists, hoisted?_eq_some, exists_and_left]

theorem isAccepted_of_hoisted? {b : Bool} {st : Stmt} {call : SettingsCall}
    (h : hoisted? c b st = some call) : call.isAccepted := (hoisted?_eq_some.1 h).2.2.2

theorem args_of_candidate? {hoists : Bool} {kind : StmtKind} {span : Span} {call : SettingsCall}
    (h : candidate? c hoists ⟨kind, span⟩ = some call) : call.args = callArgs (.stmtKind kind) := by
  unfold candidate? at h
  split at h
  · obtain ⟨h, -⟩ := Option.filter_eq_some_iff.1 h
    unfold SettingsCall.ofStmt? at h
    split at h
    · rename_i target name args _ hkind
      split at h
      · obtain rfl := Option.some.inj h
        rw [show kind = _ from hkind]
        rfl
      · cases h
    · cases h
  · cases h

/-- The arguments that are copied are parts of the statement. -/
theorem onEdges_of_candidate {kind : StmtKind} {span : Span} {b : Bool}
    (hargs : ∀ e ∈ callArgs (.stmtKind kind), e.span.OnEdges ts) :
    ∀ f ∈ ofCandidate c b ⟨kind, span⟩, f.request? = none ∧ ∀ a ∈ f.quoted, a.OnEdges ts := by
  intro f hf
  obtain ⟨call, found, rfl⟩ := List.mem_map.1 hf
  refine ⟨rfl, fun a ha => ?_⟩
  obtain ⟨e, he, rfl⟩ := List.mem_map.1 ha
  exact hargs e (args_of_candidate? (Option.mem_toList.1 found) ▸ he)

/-- A statement either moves as a whole or is walked. -/
theorem tidy_stmt {kind : StmtKind} {span : Span} (laid : LaidOut source ts)
    (hspan : spanOf? ts = some span) (hargs : ∀ e ∈ callArgs (.stmtKind kind), e.span.OnEdges ts)
    (hkind : Tidy ts (ofStmtKind c kind)) (b : Bool) : Tidy ts (ofStmt c b ⟨kind, span⟩) := by
  rw [ofStmt]
  refine Tidy.append_quotes ?_ (onEdges_of_candidate hargs)
  split
  · exact tidy_replace laid hspan _
  · exact hkind

theorem exists_append_of_lastMarker? {ms : List Modifier} {a : Annotation}
    (h : Modifier.lastMarker? ms = some a) : ∃ front back, ms = front ++ .marker a :: back := by
  have mem : a ∈ ms.filterMap Modifier.marker? := List.mem_of_mem_getLast? h
  obtain ⟨m, hm, hma⟩ := List.mem_filterMap.1 mem
  cases m with
  | marker a' =>
    obtain rfl := Option.some.inj hma
    exact List.append_of_mem hm
  | keyword => cases hma

theorem tidy_visibility {m : MethodDecl} {ps : List Phrase}
    (parts : Each (TidyPhrase c source) (modifiers m.modifiers ++ ps) ts)
    (laid : LaidOut source ts) (hspan : spanOf? ts = some m.span) (inSketchClass b : Bool) :
    Tidy ts (ofVisibility c inSketchClass m ++
      (ofModifiers c m.modifiers ++ ofPhrases c b ps)) := by
  have walked : Tidy ts (ofModifiers c m.modifiers ++ ofPhrases c b ps) := by
    simpa [modifiers] using tidy_ofPhrases parts laid b
  unfold ofVisibility
  split
  · split
    · rename_i a last
      -- the word goes between two parts of the tokens
      obtain ⟨front, back, split⟩ := exists_append_of_lastMarker? last
      have list : modifiers m.modifiers ++ ps =
          (modifiers front ++ [.modifier (.marker a)]) ++ (modifiers back ++ ps) := by
        simp [split, modifiers]
      rw [list] at parts
      obtain ⟨us, vs, rfl, hus, hvs⟩ := parts.split
      obtain ⟨fs, as, rfl, hfs, has⟩ := hus.split
      obtain ⟨laidFront, laidBack, -⟩ := laidOut_append.1 laid
      obtain ⟨laidFirst, laidMarker, -⟩ := laidOut_append.1 laidFront
      have marker := (has.single.tidy laidMarker b).insert_stop laidMarker
        (c.prepare " public".toList) (has.single.span a.span rfl)
      have before := (tidy_ofPhrases hfs laidFirst b).append marker laidFront
      refine (before.append (tidy_ofPhrases hvs laidBack b) laid).perm ?_
      rw [split, ofModifiers_eq c (_ ++ _), List.append_assoc, List.cons_append]
      simp only [modifiers, ofPhrases_modifiers, ofPhrases_append, ofPhrase, ofModifiers_eq c front,
        ofModifiers_eq c back, List.flatMap_append, List.flatMap_cons, List.append_assoc]
      exact List.perm_middle
    · exact walked.insert_start laid _ hspan
  · exact walked

theorem tidy_method {ms : List Modifier} {params : List TypeParam} {returnType : Option TypeRef}
    {id : Ident} {ps : List Param} {exceptions : List TypeRef} {body : Option Block} {span : Span}
    {qs : List Phrase} (parts : Each (TidyPhrase c source) (modifiers ms ++ qs) ts)
    (laid : LaidOut source ts) (hspan : spanOf? ts = some span) (inSketchClass : Bool)
    (hqs : (ofTypeParams c params ++ ofTypes c returnType.toList ++ ofParams c ps ++
      ofTypes c exceptions ++
        ofOptionalBlock c (inSketchClass && id.name = "setup") body).Sublist
      (ofPhrases c (inSketchClass && id.name = "setup") (trees qs))) :
    Tidy ts
      (ofMethod c inSketchClass ⟨ms, params, returnType, id, ps, exceptions, body, span⟩) := by
  rw [ofPhrases_trees] at hqs
  have visible := tidy_visibility (m := ⟨ms, params, returnType, id, ps, exceptions, body, span⟩)
    parts laid hspan inSketchClass (inSketchClass && id.name = "setup")
  have shown := visible.sublist (((hqs.append_left _).append_left _))
  unfold ofMethod
  simp only [List.append_assoc] at shown ⊢
  split
  · refine (shown.cons (f := .main) rfl (by simp [quoted])).perm ?_
    exact List.perm_middle.symm
  · exact shown

theorem tidy_rule {p : Phrase} {qs : List Phrase} (h : Production p qs)
    (parts : Each (TidyPhrase c source) qs ts) (span : ∀ a, p.span? = some a → spanOf? ts = some a)
    (laid : LaidOut source ts) (b : Bool) : Tidy ts (ofPhrase c b p) := by
  have all (b : Bool) : Tidy ts (ofPhrases c b (trees qs)) :=
    ofPhrases_trees c b qs ▸ tidy_ofPhrases parts laid b
  cases h with
  | primitive => exact tidy_primitive laid (parts.single.span _ rfl)
  | callName => exact tidy_conversion laid (parts.single.span _ rfl)
  | literal h => exact tidy_literal laid (span _ rfl)
  | stmt =>
    exact tidy_stmt laid (span _ rfl) (parts.single.args laid)
      (by simpa [ofPhrase] using all false) b
  | bareExpr =>
    rename_i e _
    have args := parts.single.args laid
    refine @tidy_stmt c source ts (.expr e) _ laid (span _ rfl) ?_
      (by simpa [ofPhrase, ofStmtKind] using all false) false
    obtain ⟨kind, inner⟩ := e
    cases kind <;> exact args
  | localVar =>
    rename_i d _
    exact @tidy_stmt c source ts (.localVar d) _ laid (span _ rfl) (by simp [callArgs])
      (by simpa [ofPhrase, ofStmtKind] using all false) b
  | localType =>
    rename_i d _
    exact @tidy_stmt c source ts (.localType d) _ laid (span _ rfl) (by simp [callArgs])
      (by simpa [ofPhrase, ofStmtKind] using all false) b
  | resource =>
    rename_i ms type id e inner
    refine @tidy_stmt c source ts (.localVar ⟨ms, type, [⟨id, 0, some e⟩], inner⟩) _ laid
      (span _ rfl) (by simp [callArgs]) ?_ false
    simpa [ofPhrase, ofStmtKind, ofVarDecl, ofDeclarators, ofOptional] using all false
  | method =>
    rename_i body _
    simp only [List.append_assoc, List.cons_append, ofPhrase] at parts ⊢
    refine tidy_method parts laid (span _ rfl) b ?_
    simp [ofPhrase, ofOptionalBlock]
  | methodWithoutBody =>
    simp only [List.append_assoc, List.cons_append, ofPhrase] at parts ⊢
    refine tidy_method parts laid (span _ rfl) b ?_
    simp [ofPhrase, ofOptionalBlock]
  | importItem =>
    exact tidy_delete laid (parts.single.span _ rfl)
  | doWhile | instanceOf =>
    refine (all false).perm ?_
    simp [ofPhrase, ofStmtKind, ofExpr, ofExprKind]
    exact List.perm_append_comm
  | typeDecl =>
    rename_i ms kind id params superTypes interfaces constants _ _ members inner _
    refine (all (TypeDecl.isSketchClass
      ⟨ms, kind, id, params, superTypes, interfaces, constants, members, inner⟩)).sublist ?_
    simp [ofPhrase, ofTypeDecl]
  | lambdaBlock => simpa [ofPhrase] using all false
  | block =>
    simpa [ofPhrase, ofBlock] using all b
  | methodMember => simpa [ofPhrase, ofMember] using all b
  | methodItem | stmtItem => simpa [ofPhrase, ofItem] using all true
  | plainLambda =>
    rw [ofPhrase, ofExpr, ofExprKind_lambda c false]
    simpa [ofLambdaParams, ofTypes] using all false
  | constructor | initializer => simpa [ofPhrase, ofMember] using all false
  | lambda =>
    rw [ofPhrase, ofExpr, ofExprKind_lambda c false]
    simpa using all false
  | importMember =>
    rename_i d
    obtain ⟨-, lo, -⟩ := laid.onEdges (parts.single.span d.span rfl)
    obtain ⟨t, ht, hlo⟩ := lo
    refine (Tidy.nil ts).cons rfl (List.forall_mem_singleton.2 ⟨Nat.le_refl _, ⟨t, ht, hlo⟩, ?_⟩)
    exact ⟨t, ht, .inl hlo⟩
  | typeParam =>
    rename_i bounds
    cases bounds <;> simpa [ofPhrase, ofTypes] using all false
  | markerModifier =>
    rename_i a
    obtain ⟨name, args, inner⟩ := a
    simpa [ofPhrase, ofModifiers] using all false
  | param =>
    rename_i p
    obtain ⟨ms, type, varargs, name, dims⟩ := p
    simpa [ofPhrase, ofParam] using all false
  | lambdaParam =>
    refine (all false).sublist ?_
    simp [ofPhrase, ofLambdaParams, ofTypes]
  | ifElse =>
    rename_i no
    cases no <;> simpa [ofPhrase, ofStmtKind, ofOptionalStmt] using all false
  | forVariable => simpa [ofPhrase, ofStmtKind, ofStmts] using all false
  | tryCatch => simpa [ofPhrase, ofStmtKind, ofStmts] using all false
  | _ =>
    refine (all false).sublist ?_
    simp [ofPhrase, ofType, ofTypeKind, ofTypes, ofSegments, ofLambdaParams, ofExpr, ofExprKind,
      ofExprs, ofModifiers, ofParam, ofDeclarators, ofVarDecl, ofStmtKind, ofCatches, ofCases,
      ofConstants, ofMember, ofItem]

theorem each_tidyPhrase {ps : List Phrase} (h : Spells ps ts) :
    Each (TidyPhrase c source) ps ts := by
  refine h.each (P := TidyPhrase c source) ?_ ?_ ?_
  · exact fun t => ⟨fun a ha => ha, by simp [callArgs], fun _ _ => .nil _⟩
  · exact fun w t _ => ⟨by simp [span?], by simp [callArgs], fun _ _ => .nil _⟩
  · intro p qs ts hrule _ parts span
    exact ⟨span, callArgs_rule hrule parts, tidy_rule hrule parts span⟩

theorem ofPhrases_phrases {s : Sketch} : ofPhrases c true s.phrases = ofItems c s.items := by
  rw [Sketch.phrases, ofPhrases_append, ofPhrases_map, ofPhrases_map]
  simp [ofPhrase, ofItems]

variable {s : Sketch} (h : Spells s.phrases ts) (laid : LaidOut source ts)

include h laid

theorem tidy_ofItems : Tidy ts (ofItems c s.items) :=
  ofPhrases_phrases ▸ tidy_ofPhrases (each_tidyPhrase h) laid true

theorem onEdges_item {i : Item} (hi : i ∈ s.items) : i.span.OnEdges ts := by
  refine onEdges_of_mem (each_tidyPhrase (c := ⟨.java, false⟩) h) laid (q := .item i) ?_ rfl
  simp [Sketch.phrases, hi]

end SketchPrep.Finding
