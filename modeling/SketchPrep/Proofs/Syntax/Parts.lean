import SketchPrep.Proofs.Syntax.Occurrence
import SketchPrep.Proofs.Syntax.Sketch

/-!
The parts of a tree. A tree `Contains` itself and whatever its parts contain. Main statements:
`partsInduction`, what holds of a tree if it holds of its parts holds of all trees;
`Contains.occurs`, a part of a sketch is written with tokens of the sketch.
-/

namespace SketchPrep

def ExprKind.parts : ExprKind → List Phrase
  | .literal _ _ | .name _ | .thisRef | .superRef => []
  | .paren e | .field e _ | .methodRef e _ | .unary _ e _ => [.expr e]
  | .call none id args => .callName id :: args.map .expr
  | .call (some target) _ args => .expr target :: args.map .expr
  | .index e position => [.expr e, .expr position]
  | .create type args body =>
    .type type :: args.map .expr ++ (body.getD []).map .member
  | .createArray type sizes _ init => .type type :: sizes.map .expr ++ init.toList.map .expr
  | .arrayInit elements => elements.map .expr
  | .binary _ lhs rhs | .assign _ lhs rhs => [.expr lhs, .expr rhs]
  | .conditional cond yes no => [.expr cond, .expr yes, .expr no]
  | .cast type e | .instanceOf e type => [.type type, .expr e]
  | .lambda params body => params.map .lambdaParam ++ [.lambdaBody body]
  | .classLiteral type => [.type type]

def StmtKind.parts : StmtKind → List Phrase
  | .block b => [.block b]
  | .localVar d => [.varDecl d]
  | .localType d => [.typeDecl d]
  | .expr e | .throws e => [.expr e]
  | .ifElse cond yes no => .expr cond :: .stmt yes :: no.toList.map .stmt
  | .whileDo cond body | .doWhile body cond => [.expr cond, .stmt body]
  | .forLoop init cond update body =>
    init.map .inHead ++ cond.toList.map .expr ++ update.map .expr ++ [.stmt body]
  | .forEach loopVar iterable body => [.param loopVar, .expr iterable, .stmt body]
  | .returns value => value.toList.map .expr
  | .tryCatch resources body catches finalizer =>
    resources.map .inHead ++ .block body :: catches.map .catchClause ++
      finalizer.toList.map .block
  | .switch selector cases => .expr selector :: cases.map .switchCase
  | .synchronized lock body => [.expr lock, .block body]
  | .labeled _ body => [.stmt body]
  | .assertion cond message => .expr cond :: message.toList.map .expr
  | .breaks _ | .continues _ | .empty => []

def Member.parts : Member → List Phrase
  | .field d => [.varDecl d]
  | .method d | .constructor d => [.methodDecl d]
  | .type d => [.typeDecl d]
  | .initializer _ body => [.block body]
  | .importation d => [.importDecl d]
  | .empty _ => []

def Item.parts : Item → List Phrase
  | .importation d => [.importDecl d]
  | .type d => [.typeDecl d]
  | .method d => [.methodDecl d]
  | .stmt s => [.stmt s]

/-- The trees that a tree is made of, in the order in which they are visited. Names are none, apart
from those of calls without target. -/
def Phrase.parts : Phrase → List Phrase
  | .word _ | .token _ | .name _ | .callName _ | .packageDecl _ | .importDecl _ => []
  | .typeKind (.primitive _) => []
  | .typeKind (.named segments) => segments.map .segment
  | .typeKind (.wildcard bound) => bound.toList.map .type
  | .segment s => (s.args.getD []).map .type
  | .type t => [.typeKind t.kind]
  | .typeParam p => p.bounds.map .type
  | .marker a => a.args.map .expr
  | .modifier (.marker a) => [.marker a]
  | .modifier (.keyword _) => []
  | .param p => p.modifiers.map .modifier ++ [.type p.type]
  | .lambdaParam p => p.type.toList.map .type
  | .lambdaBody (.expr e) => [.expr e]
  | .lambdaBody (.block b) => [.block b]
  | .expr e => e.kind.parts
  | .declarator d => d.init.toList.map .expr
  | .varDecl d => d.modifiers.map .modifier ++ .type d.type :: d.declarators.map .declarator
  | .enumConstant k => k.args.map .expr ++ (k.body.getD []).map .member
  | .typeDecl d =>
    d.modifiers.map .modifier ++ d.typeParams.map .typeParam ++ d.superTypes.map .type ++
      d.interfaces.map .type ++ d.constants.map .enumConstant ++ d.members.map .member
  | .block b => b.stmts.map .stmt
  | .catchClause k => k.modifiers.map .modifier ++ k.types.map .type ++ [.block k.body]
  | .switchCase k => k.labels.map .expr ++ k.body.map .stmt
  | .stmtKind k => k.parts
  | .stmt s | .inHead s => [.stmtKind s.kind]
  | .methodDecl m =>
    m.modifiers.map .modifier ++ m.typeParams.map .typeParam ++ m.returnType.toList.map .type ++
      m.params.map .param ++ m.exceptions.map .type ++ m.body.toList.map .block
  | .member m => m.parts
  | .item i => i.parts

namespace Phrase

open Token

variable {p q r : Phrase} {qs : List Phrase} {us : List Token}

/-! ### Size -/

/-- All the phrases are smaller than that. -/
def Below (n : Nat) (ps : List Phrase) : Prop := ∀ p ∈ ps, sizeOf p < n

section Below

variable {n : Nat} {ps : List Phrase}

@[simp] theorem below_nil : Below n [] := by simp [Below]

@[simp] theorem below_cons : Below n (p :: ps) ↔ sizeOf p < n ∧ Below n ps := List.forall_mem_cons

@[simp] theorem below_append : Below n (ps ++ qs) ↔ Below n ps ∧ Below n qs :=
  List.forall_mem_append

/-- Trees around the elements of a list are no larger than the list. -/
theorem below_map {α : Type} [SizeOf α] {f : α → Phrase} {as : List α}
    (wraps : ∀ a, sizeOf (f a) = 1 + sizeOf a) (h : sizeOf as < n) : Below n (as.map f) := by
  refine List.forall_mem_map.2 fun a ha => ?_
  have inside := List.sizeOf_lt_of_mem ha
  rw [wraps]
  omega

theorem below_toList {α : Type} [SizeOf α] {f : α → Phrase} {o : Option α}
    (wraps : ∀ a, sizeOf (f a) = 1 + sizeOf a) (h : sizeOf o < n) :
    Below n (o.toList.map f) := by
  cases o with
  | none => simp
  | some a => simpa [wraps] using h

theorem below_getD {α : Type} [SizeOf α] {f : α → Phrase} {o : Option (List α)}
    (wraps : ∀ a, sizeOf (f a) = 1 + sizeOf a) (h : sizeOf o < n) :
    Below n ((o.getD []).map f) := by
  cases o with
  | none => exact below_nil
  | some as =>
    rw [Option.some.sizeOf_spec] at h
    exact below_map wraps (Nat.lt_of_le_of_lt (Nat.le_add_left ..) h)

end Below

theorem below_exprParts (kind : ExprKind) : Below (1 + sizeOf kind) kind.parts := by
  cases kind with
  | literal | name | thisRef | superRef => exact below_nil
  | call target id args =>
    cases target with
    | none | some =>
      simp (disch := first | simp | omega) [ExprKind.parts, below_map]
      omega
  | _ =>
    simp (disch := first | simp | omega) [ExprKind.parts, below_map, below_toList, below_getD] <;>
    omega

theorem below_stmtParts (kind : StmtKind) : Below (1 + sizeOf kind) kind.parts := by
  cases kind with
  | breaks | continues | empty => exact below_nil
  | _ =>
    simp (disch := first | simp | omega) [StmtKind.parts, below_map, below_toList] <;>
    omega

theorem below_parts (p : Phrase) : Below (sizeOf p) p.parts := by
  cases p with
  | word | token | name | callName | packageDecl | importDecl => exact below_nil
  | expr e =>
    obtain ⟨kind, span⟩ := e
    have room : 1 + sizeOf kind ≤ sizeOf (Phrase.expr ⟨kind, span⟩) := by simp; omega
    exact fun q hq => Nat.lt_of_lt_of_le (below_exprParts kind q hq) room
  | stmtKind k => simpa [parts] using below_stmtParts k
  | typeKind x | modifier x | lambdaBody x | member x | item x =>
    cases x <;>
    simp (disch := first | simp | omega) [parts, Member.parts, Item.parts, below_map, below_toList]
  | segment x | type x | typeParam x | marker x | param x | lambdaParam x | declarator x | varDecl x
    | enumConstant x | typeDecl x | block x | catchClause x | switchCase x | stmt x | inHead x
    | methodDecl x =>
    cases x
    simp (disch := first | simp | omega) [parts, below_map, below_toList, below_getD] <;>
    omega

theorem sizeOf_lt_of_mem_parts (h : q ∈ p.parts) : sizeOf q < sizeOf p := below_parts p q h

/-- What holds of a tree if it holds of its parts holds of all trees. -/
theorem partsInduction {P : Phrase → Prop} (step : ∀ p, (∀ q ∈ p.parts, P q) → P p) (p : Phrase) :
    P p :=
  step p fun q _ => partsInduction step q
termination_by sizeOf p
decreasing_by exact sizeOf_lt_of_mem_parts ‹_›

theorem item_not_mem_parts (i : Item) (p : Phrase) : .item i ∉ p.parts := by
  cases p with
  | expr e =>
    obtain ⟨kind, span⟩ := e
    cases kind with
    | call target => cases target <;> simp [parts, ExprKind.parts]
    | _ => simp [parts, ExprKind.parts]
  | stmtKind x => cases x <;> simp [parts, StmtKind.parts]
  | typeKind x | modifier x | lambdaBody x | member x | item x =>
    cases x <;> simp [parts, Item.parts, Member.parts]
  | _ => simp [parts]

/-! ### Trees in trees -/

/-- The second tree is the first or is in a part of it. -/
inductive Contains : Phrase → Phrase → Prop
  | refl (p : Phrase) : Contains p p
  | part {p q r : Phrase} (h : q ∈ p.parts) (later : Contains q r) : Contains p r

theorem Contains.trans (h : Contains p q) (k : Contains q r) : Contains p r := by
  induction h with
  | refl => exact k
  | part h _ ih => exact .part h (ih k)

theorem Contains.of_mem_parts (h : q ∈ p.parts) : Contains p q := .part h (.refl q)

theorem Contains.sizeOf_lt (h : Contains p q) : p = q ∨ sizeOf q < sizeOf p := by
  induction h with
  | refl => exact .inl rfl
  | part h _ ih =>
    have := sizeOf_lt_of_mem_parts h
    rcases ih with rfl | lt
    · exact .inr this
    · exact .inr (Nat.lt_trans lt this)

theorem Contains.antisymm (h : Contains p q) (k : Contains q p) : p = q := by
  rcases h.sizeOf_lt with same | lt
  · exact same
  · rcases k.sizeOf_lt with same | gt
    · exact same.symm
    · omega

/-! ### Trees in derivations -/

/-- Rules write such a tree as a phrase. They may put the parts of the other trees in their
place. -/
def standsAlone : Phrase → Bool
  | .param _ | .lambdaParam _ | .varDecl _ | .declarator _ | .stmtKind _ | .inHead _ => false
  | _ => true

/-- Among the phrases is the tree, or all its parts stand for it. -/
inductive Reaches (qs : List Phrase) : Phrase → Prop
  | here {q : Phrase} (h : q ∈ qs) : Reaches qs q
  | through {q : Phrase} (hidden : q.standsAlone = false) (h : ∀ r ∈ q.parts, Reaches qs r) :
    Reaches qs q

theorem Reaches.contains (h : Reaches qs q) (hr : q.Contains r) (alone : r.standsAlone) :
    ∃ p ∈ qs, p.Contains r := by
  induction h with
  | here h => exact ⟨_, h, hr⟩
  | through hidden _ ih =>
    cases hr with
    | refl => simp [hidden] at alone
    | part hq later => exact ih _ hq later

theorem Reaches.mono {rs : List Phrase} (h : Reaches qs q) (sub : qs ⊆ rs) : Reaches rs q := by
  induction h with
  | here h => exact .here (sub h)
  | through hidden _ ih => exact .through hidden ih

theorem reaches_stmtKind {k : StmtKind} (h : ∀ r ∈ k.parts, Reaches qs r) :
    ∀ q ∈ [Phrase.stmtKind k], Reaches qs q :=
  List.forall_mem_singleton.2 (.through rfl h)

theorem reaches_of_subset {ps : List Phrase} (h : ps ⊆ qs) : ∀ q ∈ ps, Reaches qs q :=
  fun _ hq => .here (h hq)

/-- Rules write the parts of a tree between words. -/
theorem Production.reaches_trees (h : Production p qs) : ∀ q ∈ p.parts, Reaches (trees qs) q := by
  cases h with
  | localVar | localType | bareExpr =>
    exact reaches_stmtKind (List.forall_mem_singleton.2 (.here (.head _)))
  | resource =>
    rename_i ms type id e _
    have declared : ∀ q ∈ (Phrase.declarator ⟨id, 0, some e⟩).parts,
        Reaches (trees (modifiers ms ++ [.type type, .name id, .word "=", .expr e])) q :=
      reaches_of_subset (by simp [parts])
    refine reaches_stmtKind (List.forall_mem_singleton.2 (.through rfl ?_))
    refine List.forall_mem_append.2 ⟨reaches_of_subset ?_, List.forall_mem_cons.2 ⟨.here ?_, ?_⟩⟩
    · simp
    · simp
    · exact List.forall_mem_singleton.2 (.through rfl declared)
  | forVariable =>
    rename_i d cond update body
    refine List.forall_mem_cons.2 ⟨.through rfl (reaches_stmtKind ?_), reaches_of_subset ?_⟩
    · exact List.forall_mem_singleton.2 (.here (by simp))
    · simp
  | plainLambda =>
    refine List.forall_mem_cons.2 ⟨.through rfl (by simp [parts]), ?_⟩
    exact List.forall_mem_singleton.2 (.here (by simp))
  | forEach =>
    refine List.forall_mem_cons.2 ⟨.through rfl (reaches_of_subset ?_), reaches_of_subset ?_⟩
    · simp [parts]
    · simp
  | ifElse =>
    rename_i no
    refine reaches_of_subset ?_
    cases no <;> simp [parts, StmtKind.parts]
  | typeParam =>
    rename_i bounds
    refine reaches_of_subset ?_
    cases bounds <;> simp [parts]
  | callOf | method | methodWithoutBody =>
    refine reaches_of_subset fun q hq => ?_
    simp [parts, ExprKind.parts] at hq ⊢
    grind
  | _ =>
    refine reaches_of_subset ?_
    simp [parts, ExprKind.parts, StmtKind.parts, Member.parts, Item.parts]

theorem Production.reaches (h : Production p qs) : ∀ q ∈ p.parts, Reaches qs q :=
  fun q hq => (h.reaches_trees q hq).mono fun _ => mem_of_mem_trees

theorem Production.contains (h : Production p qs) (hr : p.Contains r) (alone : r.standsAlone) :
    r = p ∨ ∃ q ∈ qs, q.Contains r := by
  cases hr with
  | refl => exact .inl rfl
  | part hq later => exact .inr ((h.reaches _ hq).contains later alone)

/-- What a tree contains is written with some of its tokens. -/
theorem Spells.occurs_of_contains {ps : List Phrase} (h : Spells ps us) : ∀ p ∈ ps, p.Contains r →
    r.standsAlone → ∃ vs, Occurs r vs ps us := by
  induction h with
  | nil => simp
  | @token t ps ts rest ih =>
    have first : Spells [.token t] [t] := .token .nil
    intro p hp hr alone
    rcases List.mem_cons.1 hp with rfl | hp
    · cases hr with
      | refl => exact ⟨[t], .here first rest⟩
      | part hq => cases hq
    · obtain ⟨vs, later⟩ := ih p hp hr alone
      exact ⟨vs, .behind first later⟩
  | @word w t ps ts hw rest ih =>
    have first : Spells [.word w] [t] := .word hw .nil
    intro p hp hr alone
    rcases List.mem_cons.1 hp with rfl | hp
    · cases hr with
      | refl => exact ⟨[t], .here first rest⟩
      | part hq => cases hq
    · obtain ⟨vs, later⟩ := ih p hp hr alone
      exact ⟨vs, .behind first later⟩
  | @rule p qs ps us ts production parts span rest ihp ih =>
    have first := spells_singleton production parts span
    intro q hq hr alone
    rcases List.mem_cons.1 hq with rfl | hq
    · rcases production.contains hr alone with rfl | ⟨part, hpart, hr⟩
      · exact ⟨us, .here first rest⟩
      · obtain ⟨vs, inside⟩ := ihp part hpart hr alone
        exact ⟨vs, .inside production span inside rest⟩
    · obtain ⟨vs, later⟩ := ih q hq hr alone
      exact ⟨vs, .behind first later⟩

end Phrase

namespace Sketch

open Phrase Token

variable {s : Sketch} {p q : Phrase} {ts : List Token}

/-- The tree is in an item of the sketch. -/
def Contains (s : Sketch) (p : Phrase) : Prop := ∃ i ∈ s.items, (Phrase.item i).Contains p

theorem Contains.trans (h : s.Contains p) (k : p.Contains q) : s.Contains q := by
  obtain ⟨i, hi, hp⟩ := h
  exact ⟨i, hi, hp.trans k⟩

theorem Contains.occurs (h : s.Contains p) (alone : p.standsAlone) (spells : Spells s.phrases ts) :
    ∃ us, Occurs p us s.phrases ts := by
  obtain ⟨i, hi, hp⟩ := h
  have item : .item i ∈ s.phrases := by simp [phrases, hi]
  exact spells.occurs_of_contains _ item hp alone

end Sketch

end SketchPrep
