import Mathlib.Data.List.Forall2
import SketchPrep.Proofs.Finding.Descent
import SketchPrep.Proofs.Syntax.Unspanned

/-!
What the code around a sketch depends on: the calls that move, without their spans, and whether
there is a `main`. Main statements: `gist_eq_of_unspanned`, this does not depend on spans;
`gist_withoutMembers`, nor on the members of a class that add nothing. So sketches that differ in
these have the same (`gist_ofItems`).
-/

namespace SketchPrep

open Phrase

/-! ### Trees that differ in spans only -/

theorem TypeRef.simpleName?_unspanned (t : TypeRef) : t.unspanned.simpleName? = t.simpleName? := by
  obtain ⟨kind, dims, span⟩ := t
  cases kind with
  | named segments =>
    have name (x : TypeSegment) : x.unspanned.name.name = x.name.name := by
      obtain ⟨name, _ | args⟩ := x <;> simp [TypeSegment.unspanned, Ident.unspanned]
    cases h : segments.getLast? <;>
      simp [TypeRef.unspanned, TypeKind.unspanned, simpleName?, List.getLast?_map, h, name]
  | wildcard bound =>
    cases bound <;> simp [TypeRef.unspanned, TypeKind.unspanned, simpleName?]
  | primitive => simp [TypeRef.unspanned, TypeKind.unspanned, simpleName?]

theorem TypeRef.isVoid_unspanned (t : TypeRef) : t.unspanned.isVoid = t.isVoid := by
  obtain ⟨kind, dims, span⟩ := t
  cases kind with
  | wildcard bound => cases bound <;> rfl
  | _ => rfl

theorem TypeDecl.isSketchClass_unspanned (d : TypeDecl) :
    d.unspanned.isSketchClass = d.isSketchClass := by
  obtain ⟨ms, kind, name, typeParams, superTypes, interfaces, constants, members, span⟩ := d
  cases superTypes <;>
    simp [TypeDecl.unspanned, isSketchClass, TypeRef.simpleName?_unspanned]

theorem Modifier.isKeyword_unspanned (m : Modifier) (word : String) :
    m.unspanned.isKeyword word = m.isKeyword word := by
  cases m <;> simp [Modifier.unspanned, isKeyword, Ident.unspanned]

namespace SettingsCall

/-- The call without the spans of its arguments. -/
def unspanned (c : SettingsCall) : SettingsCall := ⟨c.name, c.args.map Expr.unspanned⟩

theorem isStaticExpr_unspanned (e : Expr) : isStaticExpr e.unspanned = isStaticExpr e := by
  fun_induction isStaticExpr e with
  | case8 e _ _ field _ unary binary conditional =>
    obtain ⟨kind, span⟩ := e
    cases kind with
    | unary op operand trailing => exact absurd rfl (unary op operand trailing span)
    | binary op lhs rhs => exact absurd rfl (binary op lhs rhs span)
    | conditional cond yes no => exact absurd rfl (conditional cond yes no span)
    | field target id =>
      obtain ⟨kind, inner⟩ := target
      cases kind with
      | name owner => exact absurd rfl (field owner inner id span)
      | _ => simp [Expr.unspanned, ExprKind.unspanned, isStaticExpr]
    | _ => simp_all [Expr.unspanned, ExprKind.unspanned, isStaticExpr]
  | _ => simp_all [Expr.unspanned, ExprKind.unspanned, isStaticExpr, Ident.unspanned]

theorem isAccepted_unspanned (c : SettingsCall) : c.unspanned.isAccepted = c.isAccepted := by
  simp [isAccepted, unspanned, Function.comp_def, isStaticExpr_unspanned]

theorem isOwnReceiver_unspanned (target : Option Expr) :
    isOwnReceiver (target.map Expr.unspanned) = isOwnReceiver target := by
  cases target with
  | none => rfl
  | some e =>
    obtain ⟨kind, span⟩ := e
    cases kind <;> simp [Expr.unspanned, ExprKind.unspanned, isOwnReceiver]

theorem ofStmt?_unspanned (s : Stmt) : ofStmt? s.unspanned = (ofStmt? s).map unspanned := by
  obtain ⟨kind, span⟩ := s
  cases kind with
  | expr e =>
    obtain ⟨kind, inner⟩ := e
    cases kind with
    | call target name args =>
      simp only [Stmt.unspanned, StmtKind.unspanned, Expr.unspanned, ExprKind.unspanned,
        unspannedOptional_eq, unspannedExprs_eq, ofStmt?, isOwnReceiver_unspanned]
      split <;> rfl
    | _ =>
      simp [Stmt.unspanned, StmtKind.unspanned, Expr.unspanned, ExprKind.unspanned, ofStmt?]
  | _ => simp [Stmt.unspanned, StmtKind.unspanned, ofStmt?]

end SettingsCall

namespace Finding

variable {c : Context} {b : Bool} {p : Phrase}

theorem declaresMain_unspanned (m : MethodDecl) : declaresMain m.unspanned = declaresMain m := by
  have keyword : Modifier.isKeyword "static" ∘ Modifier.unspanned = Modifier.isKeyword "static" :=
    funext fun m => m.isKeyword_unspanned "static"
  have void : m.unspanned.returnsVoid = m.returnsVoid := by
    rw [MethodDecl.returnsVoid, MethodDecl.unspanned_eq]
    cases h : m.returnType <;> simp [MethodDecl.returnsVoid, h, TypeRef.isVoid_unspanned]
  rw [declaresMain, void, MethodDecl.unspanned_eq]
  simp only [Ident.unspanned, List.any_map, keyword]
  rfl

theorem hoisted?_unspanned (st : Stmt) :
    hoisted? c b st.unspanned = (hoisted? c b st).map SettingsCall.unspanned := by
  unfold hoisted? candidate? SettingsCall.candidate?
  split
  · rw [SettingsCall.ofStmt?_unspanned]
    cases SettingsCall.ofStmt? st with
    | none => rfl
    | some call =>
      have name : call.unspanned.name = call.name := rfl
      simp only [Option.map_some, Option.filter_some, name]
      split
      · simp only [Option.filter_some, SettingsCall.isAccepted_unspanned]
        split <;> rfl
      · rfl
  · rfl

theorem moves_unspanned (p : Phrase) : moves c b p.unspanned = moves c b p := by
  cases p with
  | stmt st => simp [moves, unspanned, hoisted?_unspanned]
  | _ => rfl

theorem passesOn_unspanned (p : Phrase) : passesOn b p.unspanned = passesOn b p := by
  cases p with
  | member m => cases m <;> simp [passesOn, unspanned, Member.unspanned]
  | methodDecl m => simp [passesOn, unspanned, MethodDecl.unspanned_eq, Ident.unspanned]
  | typeDecl d => exact d.isSketchClass_unspanned
  | _ => rfl

/-! ### The gist -/

/-- The finding means something for the code around the sketch. -/
def matters : Finding → Bool
  | .candidate call => call.isAccepted
  | .main => true
  | .edit _ | .issue _ => false

def unspanned : Finding → Finding
  | .candidate call => .candidate call.unspanned
  | f => f

/-- What matters for the code around the sketch, without spans. -/
def gist (fs : List Finding) : List Finding := (fs.filter matters).map unspanned

@[simp] theorem gist_append (fs gs : List Finding) : gist (fs ++ gs) = gist fs ++ gist gs := by
  simp [gist]

theorem calls_of_gist (fs : List Finding) :
    (gist fs).filterMap call? = (movedCalls fs).map SettingsCall.unspanned := by
  induction fs with
  | nil => rfl
  | cons f fs ih =>
    cases f with
    | candidate call =>
      by_cases accepted : call.isAccepted
      · simpa [gist, movedCalls, matters, unspanned, call?, accepted] using ih
      · simpa [gist, movedCalls, matters, unspanned, call?, accepted] using ih
    | _ => exact ih

theorem hasMain_of_gist (fs : List Finding) : hasMain (gist fs) = hasMain fs := by
  induction fs with
  | nil => rfl
  | cons f fs ih =>
    cases f with
    | main => rfl
    | candidate call =>
      by_cases accepted : call.isAccepted
      · simpa [gist, hasMain, matters, unspanned, isMain, accepted] using ih
      · simpa [gist, hasMain, matters, unspanned, isMain, accepted] using ih
    | _ => exact ih

@[simp] theorem filter_matters_map_edit (qs : List Draft.Request) :
    (qs.map Finding.edit).filter matters = [] :=
  List.filter_eq_nil_iff.2 (List.forall_mem_map.2 fun _ _ => Bool.false_ne_true)

/-- A statement that moves and a `main` are all that matters of what the walk has to say. -/
theorem filter_matters_own (p : Phrase) : (own c b p).filter matters =
    match p with
    | .stmt st => (hoisted? c b st).toList.map .candidate
    | .methodDecl m => if b && declaresMain m then [.main] else []
    | _ => [] := by
  cases p with
  | stmt st =>
    have asked : (ofCandidate c b st).filter matters = (hoisted? c b st).toList.map .candidate := by
      unfold hoisted? ofCandidate
      cases h : candidate? c b st with
      | none => rfl
      | some call =>
        cases accepted : call.isAccepted <;> simp [matters, Option.filter, accepted]
    cases h : hoisted? c b st with
    | none => simp [own, asked, h]
    | some call => simp [own, asked, h, ofHoisted]
  | methodDecl m =>
    have visible : (ofVisibility c b m).filter matters = [] := by
      unfold ofVisibility
      split
      · split <;> simp [Context.insert]
      · rfl
    simp only [own, List.filter_append, visible, List.nil_append]
    split <;> rfl
  | callName id =>
    simp only [own, ofConversion]
    split <;> simp [Context.replace]
  | typeKind k =>
    cases k with
    | primitive id =>
      simp only [own, ofTypeKind]
      split <;> simp [Context.replace]
    | _ => rfl
  | expr e =>
    obtain ⟨kind, span⟩ := e
    cases kind with
    | literal kind text =>
      simp only [own]
      unfold ofLiteral
      split
      · split <;> simp [Context.insert]
      · simp [Context.replace]
      · simp [Context.replace]
      · rfl
    | _ => rfl
  | member m => cases m <;> rfl
  | item i =>
    cases i with
    | importation d => exact filter_matters_map_edit _
    | _ => rfl
  | _ => rfl

theorem filter_own_unspanned (p : Phrase) :
    (own c b p.unspanned).filter matters = gist (own c b p) := by
  rw [gist, filter_matters_own, filter_matters_own]
  cases p with
  | stmt st =>
    simp only [Phrase.unspanned, hoisted?_unspanned]
    cases hoisted? c b st <;> rfl
  | methodDecl m =>
    simp only [Phrase.unspanned, declaresMain_unspanned]
    split <;> rfl
  | _ => rfl

/-- Without its spans a tree has the same gist. -/
theorem filter_ofPhrase_unspanned (p : Phrase) (b : Bool) :
    (ofPhrase c b p.unspanned).filter matters = gist (ofPhrase c b p) := by
  induction p using partsInduction generalizing b with | step p ih =>
  have parts : ∀ qs, (∀ q ∈ qs, q ∈ p.parts) →
      (ofPhrases c (passesOn b p) (qs.map Phrase.unspanned)).filter matters =
        gist (ofPhrases c (passesOn b p) qs) := by
    intro qs
    induction qs with
    | nil => exact fun _ => rfl
    | cons q qs later =>
      intro hqs
      obtain ⟨hq, hqs⟩ := List.forall_mem_cons.1 hqs
      rw [List.map_cons, ofPhrases_cons, ofPhrases_cons, List.filter_append, gist_append, ih q hq,
        later hqs]
  rw [ofPhrase_eq_parts, ofPhrase_eq_parts, List.filter_append, gist_append, filter_own_unspanned,
    moves_unspanned, passesOn_unspanned, parts_unspanned]
  split
  · rfl
  · rw [parts p.parts fun _ hq => hq]

/-- The gist does not depend on spans. -/
theorem gist_eq_of_unspanned {p q : Phrase} (h : p.unspanned = q.unspanned) (b : Bool) :
    gist (ofPhrase c b p) = gist (ofPhrase c b q) := by
  rw [← filter_ofPhrase_unspanned, h, filter_ofPhrase_unspanned]

end Finding

/-! ### Members of classes -/

namespace TypeDecl

def withoutMembers (d : TypeDecl) : TypeDecl := { d with members := [] }

/-- The members of the class, without what else it has. -/
def memberRegion (d : TypeDecl) : Region :=
  ⟨[], fun e => e = d ∨ ∃ m ∈ d.members, (Phrase.member m).Contains (.typeDecl e)⟩

/-- No statement of the members can move and no method of them is `main`. -/
structure MembersAddNothing (d : TypeDecl) : Prop where
  stays : ∀ st, ¬d.memberRegion.CanMove st
  noMain : ∀ m, d.memberRegion.HasMethod m → Finding.declaresMain m = false

/-- A class that has no classes inside adds nothing if it has neither `setup` nor `main`. -/
theorem membersAddNothing_of_methods {d : TypeDecl}
    (alone : ∀ m ∈ d.members, ∀ e, ¬(Phrase.member m).Contains (.typeDecl e))
    (methods : ∀ m, .method m ∈ d.members →
      m.name.name ≠ "setup" ∧ Finding.declaresMain m = false) : d.MembersAddNothing := by
  have own (m : MethodDecl) (h : d.memberRegion.HasMethod m) : .method m ∈ d.members := by
    rcases h with top | ⟨e, rfl | ⟨x, hx, inside⟩, -, hm⟩
    · cases top
    · exact hm
    · exact absurd inside (alone x hx e)
  refine ⟨?_, fun m hm => (methods m (own m hm)).2⟩
  rintro st ⟨top | ⟨m, body, hm, setup, -⟩, -⟩
  · cases top
  · exact (methods m (own m hm)).1 setup

end TypeDecl

namespace Finding

variable {c : Context} {b : Bool} {d e : TypeDecl}

theorem gist_member {m : Member} (h : d.MembersAddNothing) (hm : m ∈ d.members) :
    gist (ofPhrase c d.isSketchClass (.member m)) = [] := by
  rw [gist, List.map_eq_nil_iff, List.filter_eq_nil_iff]
  intro f hf important
  obtain ⟨b', q, visits, found⟩ := mem_ofPhrase hf
  have placed : b' → d.memberRegion.Has q := by
    refine visits.placed (fun e inside => .inr ⟨m, hm, inside⟩) (by simp) fun sketchClass => ?_
    exact ⟨d, .inl rfl, sketchClass, hm⟩
  have hit : f ∈ (own c b' q).filter matters := List.mem_filter.2 ⟨found, important⟩
  rw [filter_matters_own] at hit
  cases q with
  | stmt st =>
    obtain ⟨call, accepted, -⟩ := List.mem_map.1 hit
    have moved := Option.isSome_of_mem (Option.mem_toList.1 accepted)
    obtain ⟨inSketch, -, allowed⟩ := isSome_hoisted?.1 moved
    exact h.stays st ⟨placed inSketch, allowed⟩
  | methodDecl m =>
    dsimp only at hit
    split at hit
    · rename_i isMain
      simp only [Bool.and_eq_true] at isMain
      simpa [h.noMain m (placed isMain.1)] using isMain.2
    · cases hit
  | _ => cases hit

theorem gist_members (h : d.MembersAddNothing) :
    gist (ofPhrases c d.isSketchClass (d.members.map .member)) = [] := by
  have nothing (ms : List Member) (hms : ∀ m ∈ ms, m ∈ d.members) :
      gist (ofPhrases c d.isSketchClass (ms.map .member)) = [] := by
    induction ms with
    | nil => rfl
    | cons m ms ih =>
      obtain ⟨hm, hms⟩ := List.forall_mem_cons.1 hms
      rw [List.map_cons, ofPhrases_cons, gist_append, gist_member h hm, ih hms, List.append_nil]
  exact nothing d.members fun _ hm => hm

/-- The members of a class do not show in the gist if they add nothing. -/
theorem gist_withoutMembers (h : d.MembersAddNothing) (b : Bool) :
    gist (ofPhrase c b (.typeDecl d.withoutMembers)) = gist (ofPhrase c b (.typeDecl d)) := by
  rw [ofPhrase_eq_parts, ofPhrase_eq_parts]
  simp only [own, moves, passesOn, parts, TypeDecl.withoutMembers, Bool.false_eq_true, if_false,
    List.map_nil, List.append_nil, List.nil_append, ofPhrases_append, gist_append, gist_members h]
  rfl

end Finding

/-! ### Sketches that differ in their classes -/

/-- The items differ in spans only, or they are classes that differ in their members, too, and are
both `allowed` to. -/
inductive Item.Alike (allowed : TypeDecl → Prop) : Item → Item → Prop
  | spans {i j : Item} (h : i.unspanned = j.unspanned) : Alike allowed i j
  | members {d e : TypeDecl} (h : d.withoutMembers.unspanned = e.withoutMembers.unspanned)
      (left : allowed d) (right : allowed e) : Alike allowed (.type d) (.type e)

namespace Finding

variable {c : Context}

theorem gist_ofItem {i j : Item} (h : i.Alike TypeDecl.MembersAddNothing j) :
    gist (ofItem c i) = gist (ofItem c j) := by
  cases h with
  | spans h =>
    exact gist_eq_of_unspanned (p := .item i) (q := .item j) (congrArg Phrase.item h) true
  | @members d e h left right =>
    have rest : gist (ofPhrase c false (.typeDecl d.withoutMembers)) =
        gist (ofPhrase c false (.typeDecl e.withoutMembers)) :=
      gist_eq_of_unspanned (p := .typeDecl _) (q := .typeDecl _) (congrArg Phrase.typeDecl h) false
    rw [gist_withoutMembers left, gist_withoutMembers right] at rest
    exact rest

theorem gist_ofItems {is js : List Item}
    (h : List.Forall₂ (Item.Alike TypeDecl.MembersAddNothing) is js) :
    gist (ofItems c is) = gist (ofItems c js) := by
  induction h with
  | nil => rfl
  | cons h _ ih =>
    unfold ofItems at ih ⊢
    rw [List.flatMap_cons, List.flatMap_cons, gist_append, gist_append, gist_ofItem h, ih]

end Finding

end SketchPrep
