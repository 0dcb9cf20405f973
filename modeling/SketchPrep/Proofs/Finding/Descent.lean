import SketchPrep.Proofs.Finding.Visit
import SketchPrep.Proofs.Syntax.Parts

/-!
The walk from a tree to its parts. Main statements: `ofPhrase_eq_parts`, what is found in a tree is
what the walk has to say of the tree itself and what it finds in the parts, in their order, unless
the tree moves as a whole; `Visits.placed`, where the walk is told to be in the sketch it is.
-/

namespace SketchPrep

open Phrase

namespace Finding

variable (c : Context)

/-- What the walk passes on to the parts of a phrase. -/
def passesOn (inSketch : Bool) : Phrase → Bool
  | .block _ | .member (.method _) => inSketch
  | .methodDecl m => inSketch && m.name.name = "setup"
  | .typeDecl d => d.isSketchClass
  | .item _ => true
  | _ => false

/-- The phrase is a statement that moves. -/
def moves (inSketch : Bool) : Phrase → Bool
  | .stmt s => (hoisted? c inSketch s).isSome
  | _ => false

variable {c}

theorem ofExprKind_eq_parts (b : Bool) (span : Span) (kind : ExprKind) :
    ofExprKind c span kind = own c b (.expr ⟨kind, span⟩) ++ ofPhrases c false kind.parts := by
  cases kind with
  | call target name args =>
    cases target <;> simp [ofExprKind, ExprKind.parts, own, ofPhrase]
  | create type args body =>
    cases body <;> simp [ofExprKind, ExprKind.parts, own, ofPhrase, ofClassBody]
  | createArray type sizes dims init =>
    cases init <;> simp [ofExprKind, ExprKind.parts, own, ofPhrase, ofOptional]
  | lambda params body =>
    rw [ofExprKind_lambda c false]
    simp [ExprKind.parts, own]
  | _ => simp [ofExprKind, ExprKind.parts, own, ofPhrase]

theorem ofStmtKind_eq_parts (kind : StmtKind) :
    ofStmtKind c kind = ofPhrases c false kind.parts := by
  cases kind with
  | ifElse cond yes no => cases no <;> simp [ofStmtKind, StmtKind.parts, ofPhrase, ofOptionalStmt]
  | forLoop init cond update body =>
    cases cond <;> simp [ofStmtKind, StmtKind.parts, ofPhrase, ofOptional]
  | returns value => cases value <;> simp [ofStmtKind, StmtKind.parts, ofPhrase, ofOptional]
  | tryCatch resources body catches finalizer =>
    cases finalizer <;> simp [ofStmtKind, StmtKind.parts, ofPhrase, ofOptionalBlock]
  | assertion cond message =>
    cases message <;> simp [ofStmtKind, StmtKind.parts, ofPhrase, ofOptional]
  | _ => simp [ofStmtKind, StmtKind.parts, ofPhrase]

theorem ofPhrase_eq_parts (b : Bool) (p : Phrase) :
    ofPhrase c b p =
      own c b p ++ if moves c b p then [] else ofPhrases c (passesOn b p) p.parts := by
  cases p with
  | expr e =>
    obtain ⟨kind, span⟩ := e
    simpa [ofPhrase, ofExpr, moves, passesOn, parts] using ofExprKind_eq_parts b span kind
  | stmtKind k => exact ofStmtKind_eq_parts k
  | stmt s =>
    obtain ⟨kind, span⟩ := s
    cases hh : hoisted? c b ⟨kind, span⟩ <;> simp [ofPhrase, ofStmt, own, moves, hh, parts]
  | inHead s =>
    rw [ofPhrase, ofStmt_inHead]
    simp [own, moves, parts, ofPhrase]
  | methodDecl m =>
    obtain ⟨ms, typeParams, returnType, name, params, exceptions, body, span⟩ := m
    cases body <;> simp [ofPhrase, own, moves, parts, ofMethod, ofOptionalBlock, passesOn]
  | typeKind k =>
    cases k with
    | wildcard bound => cases bound <;> simp [ofPhrase, own, moves, parts, ofTypeKind]
    | _ => simp [ofPhrase, own, moves, parts, ofTypeKind]
  | segment s =>
    obtain ⟨name, _ | args⟩ := s <;> simp [ofPhrase, own, moves, parts, ofSegments]
  | lambdaParam p =>
    obtain ⟨_ | type, name⟩ := p <;> simp [ofPhrase, own, moves, parts, ofLambdaParams, ofTypes]
  | declarator d =>
    obtain ⟨name, dims, _ | init⟩ := d <;>
      simp [ofPhrase, own, moves, parts, ofDeclarators, ofOptional]
  | enumConstant k =>
    obtain ⟨name, args, _ | body⟩ := k <;>
      simp [ofPhrase, own, moves, parts, ofConstants, ofClassBody, passesOn]
  | member x =>
    cases x <;> simp [ofPhrase, own, moves, parts, Member.parts, ofMember, passesOn]
  | item x => cases x <;> simp [ofPhrase, own, moves, parts, Item.parts, ofItem, passesOn]
  | lambdaBody x => cases x <;> simp [ofPhrase, own, moves, parts, passesOn]
  | modifier x =>
    cases x with
    | marker a =>
      cases a
      simp [ofPhrase, own, moves, parts, ofModifiers]
    | keyword => simp [ofPhrase, own, moves, parts, ofModifiers]
  | type x | typeParam x | marker x | param x | varDecl x | typeDecl x | block x | catchClause x
    | switchCase x =>
    cases x
    simp [ofPhrase, own, moves, parts, passesOn, ofType, ofParam, ofVarDecl, ofTypeDecl, ofBlock,
      ofCatches, ofCases]
  | _ => simp [own, moves, parts, ofPhrase]

/-! ### Where the walk goes -/

/-- From `p` the walk comes to `q`; it was told `b` at `p` and `b'` at `q`. -/
inductive Visits (c : Context) : Bool → Phrase → Bool → Phrase → Prop
  | here {b : Bool} {p : Phrase} : Visits c b p b p
  | part {b b' : Bool} {p q r : Phrase} (stays : moves c b p = false) (h : q ∈ p.parts)
    (later : Visits c (passesOn b p) q b' r) : Visits c b p b' r

variable {b b' : Bool} {p q : Phrase}

theorem Visits.trans {b₁ b₂ b₃ : Bool} {p q r : Phrase} (h : Visits c b₁ p b₂ q)
    (k : Visits c b₂ q b₃ r) : Visits c b₁ p b₃ r := by
  induction h with
  | here => exact k
  | part stays hq _ ih => exact .part stays hq (ih k)

theorem Visits.contains (h : Visits c b p b' q) : p.Contains q := by
  induction h with
  | here => exact .refl _
  | part _ hq _ ih => exact .part hq ih

/-- The walk comes to a tree, unless it is in a statement that moves. -/
theorem Visits.of_contains (h : p.Contains q) (b : Bool) :
    (∃ b', Visits c b p b' q) ∨
      ∃ b' s, Visits c b p b' (.stmt s) ∧ moves c b' (.stmt s) ∧ (Phrase.stmt s).Contains q := by
  induction h generalizing b with
  | refl p => exact .inl ⟨b, .here⟩
  | @part p r q hr later ih =>
    cases stays : moves c b p with
    | true =>
      cases p with
      | stmt s => exact .inr ⟨b, s, .here, stays, .part hr later⟩
      | _ => cases stays
    | false =>
      rcases ih (passesOn b p) with ⟨b', visits⟩ | ⟨b', s, visits, moved, inside⟩
      · exact .inl ⟨b', .part stays hr visits⟩
      · exact .inr ⟨b', s, .part stays hr visits, moved, inside⟩

/-- What is found in a tree is found at one of the trees that the walk comes to. -/
theorem mem_ofPhrase {f : Finding} (h : f ∈ ofPhrase c b p) :
    ∃ b' q, Visits c b p b' q ∧ f ∈ own c b' q := by
  induction p using partsInduction generalizing b with | step p ih =>
  rw [ofPhrase_eq_parts, List.mem_append] at h
  rcases h with h | h
  · exact ⟨b, p, .here, h⟩
  · split at h
    · cases h
    · rename_i stays
      obtain ⟨q, hq, h⟩ := List.mem_flatMap.1 h
      obtain ⟨b', r, visits, found⟩ := ih q hq h
      exact ⟨b', r, .part (Bool.eq_false_iff.2 stays) hq visits, found⟩

end Finding

/-! ### Where the sketch itself is -/

/-- The items at the top and the classes at any depth. -/
structure Region where
  items : List Item
  classes : TypeDecl → Prop

namespace Region

variable (r : Region)

/-- A method at the top or directly in a sketch class. -/
def HasMethod (m : MethodDecl) : Prop :=
  .method m ∈ r.items ∨ ∃ d, r.classes d ∧ d.isSketchClass ∧ .method m ∈ d.members

/-- A statement at the top or directly in the body of such a method if that is named `setup`. -/
def HasStmt (st : Stmt) : Prop :=
  .stmt st ∈ r.items ∨
    ∃ m b, r.HasMethod m ∧ m.name.name = "setup" ∧ m.body = some b ∧ st ∈ b.stmts

/-- The call of such a statement is one that can move. -/
def CanMove (st : Stmt) : Prop :=
  r.HasStmt st ∧ ∃ call, SettingsCall.ofStmt? st = some call ∧ call.isAccepted

/-- What it means for a phrase to be in the sketch. -/
def Has : Phrase → Prop
  | .item i => i ∈ r.items
  | .member m => ∃ d, r.classes d ∧ d.isSketchClass ∧ m ∈ d.members
  | .methodDecl m => r.HasMethod m
  | .block b => ∃ m, r.HasMethod m ∧ m.name.name = "setup" ∧ m.body = some b
  | .stmt st => r.HasStmt st
  | _ => True

end Region

def Sketch.region (s : Sketch) : Region := ⟨s.items, fun d => s.Contains (.typeDecl d)⟩

namespace Finding

variable {c : Context} {b b' : Bool} {p q : Phrase} {r : Region}

theorem has_of_mem_parts (classes : ∀ d, p = .typeDecl d → r.classes d)
    (items : ∀ i, p = .item i → i ∈ r.items) (hp : b → r.Has p) (hq : q ∈ p.parts)
    (hb : passesOn b p) : r.Has q := by
  cases p with
  | item i =>
    have hi := items i rfl
    cases i with
    | method m =>
      obtain rfl := List.mem_singleton.1 hq
      exact .inl hi
    | stmt st =>
      obtain rfl := List.mem_singleton.1 hq
      exact .inl hi
    | importation d | type d =>
      obtain rfl := List.mem_singleton.1 hq
      trivial
  | typeDecl d =>
    simp only [parts, List.mem_append, List.mem_map, or_assoc] at hq
    rcases hq with
      ⟨x, -, rfl⟩ | ⟨x, -, rfl⟩ | ⟨x, -, rfl⟩ | ⟨x, -, rfl⟩ | ⟨x, -, rfl⟩ | ⟨x, hx, rfl⟩
    iterate 5 trivial
    exact ⟨d, classes d rfl, hb, hx⟩
  | member m =>
    cases m with
    | method m =>
      obtain rfl := List.mem_singleton.1 hq
      exact .inr (hp hb)
    | _ => cases hb
  | methodDecl m =>
    simp only [passesOn, Bool.and_eq_true, decide_eq_true_eq] at hb
    simp only [parts, List.mem_append, List.mem_map, Option.mem_toList, or_assoc] at hq
    rcases hq with
      ⟨x, -, rfl⟩ | ⟨x, -, rfl⟩ | ⟨x, -, rfl⟩ | ⟨x, -, rfl⟩ | ⟨x, -, rfl⟩ | ⟨x, hx, rfl⟩
    iterate 5 trivial
    exact ⟨m, hp hb.1, hb.2, hx⟩
  | block x =>
    obtain ⟨st, hst, rfl⟩ := List.mem_map.1 hq
    obtain ⟨m, method, setup, body⟩ := hp hb
    exact .inr ⟨m, x, method, setup, body, hst⟩
  | _ => cases hb

/-- Wherever the walk is told to be in the sketch it is. -/
theorem Visits.placed (h : Visits c b p b' q)
    (classes : ∀ d, p.Contains (.typeDecl d) → r.classes d)
    (items : ∀ i, p = .item i → i ∈ r.items) (hp : b → r.Has p) (hb : b') : r.Has q := by
  induction h with
  | here => exact hp hb
  | @part b b' p q x _ hq _ ih =>
    refine ih (fun d inside => classes d (.part hq inside)) (fun i hi => ?_)
      (has_of_mem_parts (fun d hd => classes d (hd ▸ .refl _)) items hp hq) hb
    exact absurd (hi ▸ hq) (item_not_mem_parts i p)

end Finding

end SketchPrep
