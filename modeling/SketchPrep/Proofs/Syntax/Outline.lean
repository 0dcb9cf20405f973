import Mathlib.Data.List.Perm.Subperm
import SketchPrep.Proofs.Syntax.Parts
import SketchPrep.Proofs.Syntax.Span

/-!
The spans of a sketch. A tree with a span has below it the names and trees with a span that it is
made of, through trees without one. Main statement: `Sketch.wellNested_of_parse`, each span is that
of a run of tokens, lies in the span above it and apart from those beside it, and the spans of the
package declaration and the items leave out no token.
-/

namespace SketchPrep

open Token

/-- A span and what is below it. -/
inductive Outline where
  | node (span : Span) (inner : List Outline)

namespace Outline

def span : Outline → Span
  | .node a _ => a

/-- No byte is in both spans. -/
def Apart (o o' : Outline) : Prop := o.span.hi ≤ o'.span.lo ∨ o'.span.hi ≤ o.span.lo

theorem Apart.symm {o o' : Outline} (h : o.Apart o') : o'.Apart o := Or.symm h

/-- Each span has a byte at least, begins where a token does and ends where one does; the spans
below it lie in it and apart from each other. -/
inductive WellNested (ts : List Token) : Outline → Prop
  | node {a : Span} {inner : List Outline} (lo : ∃ t ∈ ts, a.lo = t.start.offset)
    (hi : ∃ t ∈ ts, a.hi = t.stop) (lt : a.lo < a.hi)
    (within : ∀ o ∈ inner, a.lo ≤ o.span.lo ∧ o.span.hi ≤ a.hi) (apart : inner.Pairwise Apart)
    (deeper : ∀ o ∈ inner, WellNested ts o) : WellNested ts (.node a inner)

variable {source : Text} {ts us : List Token} {o : Outline} {os os' : List Outline}

theorem WellNested.mono (h : o.WellNested us) (sub : ∀ t ∈ us, t ∈ ts) : o.WellNested ts := by
  induction h with
  | node lo hi lt within apart _ ih =>
    obtain ⟨t, ht, lo⟩ := lo
    obtain ⟨u, hu, hi⟩ := hi
    exact .node ⟨t, sub t ht, lo⟩ ⟨u, sub u hu, hi⟩ lt within apart ih

theorem WellNested.exists_lo (h : o.WellNested ts) : ∃ t ∈ ts, o.span.lo = t.start.offset := by
  cases h with
  | node lo => exact lo

theorem WellNested.exists_hi (h : o.WellNested ts) : ∃ t ∈ ts, o.span.hi = t.stop := by
  cases h with
  | node _ hi => exact hi

theorem WellNested.lt (h : o.WellNested ts) : o.span.lo < o.span.hi := by
  cases h with
  | node _ _ lt => exact lt

/-- What is between the bounds of the tokens is between the bounds of their span. -/
theorem WellNested.within (h : o.WellNested ts) (laid : LaidOut source ts) {a : Span}
    (ha : spanOf? ts = some a) : a.lo ≤ o.span.lo ∧ o.span.hi ≤ a.hi := by
  obtain ⟨t, ht, lo⟩ := h.exists_lo
  obtain ⟨u, hu, hi⟩ := h.exists_hi
  exact ⟨lo ▸ (laid.bounds ha t ht).1, hi ▸ (laid.bounds ha u hu).2⟩

/-- Outlines beside each other. -/
structure Lie (ts : List Token) (os : List Outline) : Prop where
  nested : ∀ o ∈ os, o.WellNested ts
  apart : os.Pairwise Apart

theorem Lie.nil : Lie ts [] := ⟨by simp, .nil⟩

theorem Lie.subperm (h : Lie ts os) (sub : os'.Subperm os) : Lie ts os' := by
  obtain ⟨kept, perm, sublist⟩ := sub
  have apart : kept.Pairwise Apart := h.apart.sublist sublist
  exact ⟨fun o ho => h.nested o (sublist.subset (perm.mem_iff.2 ho)),
    (perm.pairwise_iff Apart.symm).1 apart⟩

theorem Lie.append (laid : LaidOut source (ts ++ us)) (h : Lie ts os) (k : Lie us os') :
    Lie (ts ++ us) (os ++ os') := by
  obtain ⟨-, -, cross⟩ := laidOut_append.1 laid
  refine ⟨?_, List.pairwise_append.2 ⟨h.apart, k.apart, fun o ho o' ho' => .inl ?_⟩⟩
  · rw [List.forall_mem_append]
    exact ⟨fun o ho => (h.nested o ho).mono fun _ => List.mem_append_left _,
      fun o ho => (k.nested o ho).mono fun _ => List.mem_append_right _⟩
  · obtain ⟨t, ht, hi⟩ := (h.nested o ho).exists_hi
    obtain ⟨u, hu, lo⟩ := (k.nested o' ho').exists_lo
    rw [hi, lo]
    exact cross t ht u hu

/-- The span of the tokens is put around what lies among them. -/
theorem Lie.node (laid : LaidOut source ts) {a : Span} (ha : spanOf? ts = some a)
    (h : Lie ts os) : Lie ts [.node a os] := by
  obtain ⟨lo, hi⟩ := mem_of_spanOf? ha
  refine ⟨List.forall_mem_singleton.2 ?_, List.pairwise_singleton ..⟩
  exact .node lo hi (laid.span_lt ha) (fun o ho => (h.nested o ho).within laid ha) h.apart h.nested

/-- A span is put around itself. -/
theorem Lie.wrap (h : Lie ts (o :: os)) : Lie ts (.node o.span [o] :: os) := by
  obtain ⟨nested, apart⟩ := h
  obtain ⟨first, others⟩ := List.forall_mem_cons.1 nested
  obtain ⟨aside, apart⟩ := List.pairwise_cons.1 apart
  refine ⟨List.forall_mem_cons.2 ⟨?_, others⟩, List.pairwise_cons.2 ⟨aside, apart⟩⟩
  exact .node first.exists_lo first.exists_hi first.lt
    (List.forall_mem_singleton.2 ⟨Nat.le_refl _, Nat.le_refl _⟩) (List.pairwise_singleton ..)
    (List.forall_mem_singleton.2 first)

/-- Some of the outlines, in any order. -/
theorem subperm_of_countP (h : ∀ f : Outline → Bool, os'.countP f ≤ os.countP f) :
    os'.Subperm os := by
  classical
  exact List.subperm_ext_iff.2 fun o _ => h (· == o)

end Outline

open Outline

namespace Phrase

/-- The names that the tree has for itself; what names a call without target is among its parts. -/
def names : Phrase → List Ident
  | .typeKind (.primitive id) => [id]
  | .segment s => [s.name]
  | .typeParam p => [p.name]
  | .param p => [p.name]
  | .lambdaParam p => [p.name]
  | .expr e =>
    match e.kind with
    | .name id | .field _ id | .call (some _) id _ | .methodRef _ id => [id]
    | _ => []
  | .declarator d => [d.name]
  | .enumConstant k => [k.name]
  | .typeDecl d => [d.name]
  | .catchClause k => [k.name]
  | .stmtKind (.breaks label) | .stmtKind (.continues label) => label.toList
  | .stmtKind (.labeled label _) => [label]
  | .methodDecl m => [m.name]
  | _ => []

variable {source : Text} {p : Phrase} {ps qs : List Phrase} {ts us : List Token}

/-- The spans of the tree: its own with the others below, or just those of its names and parts. -/
def outline (p : Phrase) : List Outline :=
  let inner := p.names.map (fun id => .node id.span []) ++
    p.parts.attach.flatMap fun ⟨q, _⟩ => q.outline
  match p.span? with
  | some a => [.node a inner]
  | none => inner
termination_by sizeOf p
decreasing_by exact sizeOf_lt_of_mem_parts ‹_›

def outlines (ps : List Phrase) : List Outline := ps.flatMap outline

/-- The spans right below the tree. -/
def inner (p : Phrase) : List Outline :=
  p.names.map (fun id => .node id.span []) ++ outlines p.parts

theorem outline_of_span {a : Span} (h : p.span? = some a) : p.outline = [.node a p.inner] := by
  rw [outline, h, inner, outlines]
  simp only [List.flatMap_subtype, List.unattach_attach]

theorem outline_of_none (h : p.span? = none) : p.outline = p.inner := by
  rw [outline, h, inner, outlines]
  simp only [List.flatMap_subtype, List.unattach_attach]

@[simp] theorem outlines_nil : outlines [] = [] := rfl

@[simp] theorem outlines_cons (p : Phrase) (ps : List Phrase) :
    outlines (p :: ps) = p.outline ++ outlines ps := rfl

@[simp] theorem outlines_append (ps qs : List Phrase) :
    outlines (ps ++ qs) = outlines ps ++ outlines qs := List.flatMap_append

@[simp] theorem outline_word (w : String) : (Phrase.word w).outline = [] := outline_of_none rfl

@[simp] theorem outline_token (t : Token) : (Phrase.token t).outline = [.node t.span []] :=
  outline_of_span rfl

@[simp] theorem outline_name (id : Ident) : (Phrase.name id).outline = [.node id.span []] :=
  outline_of_span rfl

@[simp] theorem outline_callName (id : Ident) :
    (Phrase.callName id).outline = [.node id.span []] :=
  outline_of_span rfl

/-- No span of a tree is missing: what holds of all outlines right below one that it holds of, and
of the outline of a tree, holds of those of the trees in it. -/
theorem Contains.forall_outline {P : Outline → Prop} {q : Phrase} (h : p.Contains q)
    (below : ∀ a os, P (.node a os) → ∀ o ∈ os, P o) (hp : ∀ o ∈ p.outline, P o) :
    ∀ o ∈ q.outline, P o := by
  induction h with
  | refl => exact hp
  | @part p q r hq _ ih =>
    have inner : ∀ o ∈ p.inner, P o := by
      cases own : p.span? with
      | none => rwa [outline_of_none own] at hp
      | some a =>
        rw [outline_of_span own, List.forall_mem_singleton] at hp
        exact below a p.inner hp
    exact ih fun o ho => inner o (List.mem_append_right _ (List.mem_flatMap.2 ⟨q, hq, ho⟩))

theorem outlines_trees (ps : List Phrase) : outlines (trees ps) = outlines ps :=
  flatMap_trees outline_word ps

/-! ### Rules -/

@[simp] theorem outlines_names (ids : List Ident) :
    outlines (ids.map .name) = ids.map fun id => .node id.span [] := by
  induction ids with
  | nil => rfl
  | cons id ids ih => simpa using ih

/-! Some trees that rules put the parts of in their place. -/

theorem outline_stmtKind (k : StmtKind) : (Phrase.stmtKind k).outline = (Phrase.stmtKind k).inner :=
  outline_of_none rfl

theorem outline_param (x : Param) : (Phrase.param x).outline = (Phrase.param x).inner :=
  outline_of_none rfl

theorem outline_lambdaParam (x : LambdaParam) :
    (Phrase.lambdaParam x).outline = (Phrase.lambdaParam x).inner :=
  outline_of_none rfl

theorem outline_declarator (d : Declarator) :
    (Phrase.declarator d).outline = (Phrase.declarator d).inner :=
  outline_of_none rfl

theorem outline_varDecl (d : VarDecl) :
    (Phrase.varDecl d).outline = [.node d.span (Phrase.varDecl d).inner] :=
  outline_of_span rfl

theorem outline_localVar (d : VarDecl) :
    (Phrase.stmtKind (.localVar d)).outline = (Phrase.varDecl d).outline := by
  simp [outline_stmtKind, inner, names, parts, StmtKind.parts]

/-- What lies among the tokens as the parts of a rule do, does so as the phrase has it. -/
theorem Production.lie (h : Production p qs) (laid : LaidOut source us)
    (span : ∀ a, p.span? = some a → spanOf? us = some a) (parts : Lie us (outlines qs)) :
    Lie us p.inner := by
  rw [← outlines_trees] at parts
  cases h with
  | resource =>
    rename_i ms type id e a
    have declared : Lie us (Phrase.varDecl ⟨ms, type, [⟨id, 0, some e⟩], a⟩).inner := by
      refine parts.subperm (subperm_of_countP fun f => ?_)
      simp [inner, names, Phrase.parts, outline_declarator]
    simpa [inner, names, Phrase.parts, outline_localVar, outline_varDecl] using
      declared.node laid (span a rfl)
  | forVariable =>
    rename_i d cond update body
    have declared : Lie us (.node d.span (Phrase.varDecl d).inner ::
        outlines (cond.toList.map .expr ++ update.map .expr ++ [.stmt body])) := by
      refine parts.subperm (subperm_of_countP fun f => ?_)
      simp [outline_varDecl]
    have wrapped := declared.wrap
    simpa [inner, names, Phrase.parts, StmtKind.parts, outline_of_span, span?, outline_localVar,
      outline_varDecl, Outline.span] using wrapped
  | typeParam =>
    rename_i bounds
    refine parts.subperm (subperm_of_countP fun f => ?_)
    cases bounds <;> simp [inner, names, Phrase.parts]
  | ifElse =>
    rename_i no
    refine parts.subperm (subperm_of_countP fun f => ?_)
    cases no <;> simp [inner, names, Phrase.parts, StmtKind.parts]
  | bareExpr | localVar | localType | forEach | plainLambda =>
    refine parts.subperm (subperm_of_countP fun f => ?_)
    simp [inner, names, Phrase.parts, ExprKind.parts, StmtKind.parts, outline_stmtKind,
      outline_param, outline_lambdaParam, List.countP_cons] <;> omega
  | _ =>
    refine parts.subperm (subperm_of_countP fun f => ?_)
    simp [inner, names, Phrase.parts, ExprKind.parts, StmtKind.parts, Member.parts, Item.parts,
      Ident.ofToken,
      List.countP_cons] <;> omega

/-! ### Derivations -/

theorem lie_of_each (h : Each (fun p us => LaidOut source us → Lie us p.outline) ps ts)
    (laid : LaidOut source ts) : Lie ts (outlines ps) := by
  induction h with
  | nil => exact .nil
  | cons first _ ih =>
    obtain ⟨here, behind, -⟩ := laidOut_append.1 laid
    exact (first here).append laid (ih behind)

theorem Spells.lie (h : Spells ps ts) (laid : LaidOut source ts) : Lie ts (outlines ps) := by
  refine lie_of_each (h.each (fun t here => ?_) (fun w t hw here => ?_) ?_) laid
  · rw [outline_token]
    exact Lie.nil.node here rfl
  · rw [outline_word]
    exact .nil
  · intro p qs us production spells parts span here
    have inner := production.lie here span (lie_of_each parts here)
    cases own : p.span? with
    | none => rwa [outline_of_none own]
    | some a =>
      rw [outline_of_span own]
      exact inner.node here (span a own)

/-- Phrases that have a span each are written with one run of tokens after the other. -/
theorem Spells.exists_runs {as : List Span} (h : Spells ps ts)
    (spans : ps.map span? = as.map some) :
    ∃ runs : List (List Token), runs.flatten = ts ∧
      runs.map Token.spanOf? = as.map some := by
  induction ps generalizing ts as with
  | nil =>
    cases h
    exact ⟨[], rfl, spans⟩
  | cons p ps ih =>
    obtain ⟨us, vs, rfl, first, rest⟩ := h.uncons
    cases as with
    | nil => cases spans
    | cons a as =>
      obtain ⟨own, spans⟩ := List.cons.inj spans
      obtain ⟨runs, rfl, others⟩ := ih rest spans
      exact ⟨us :: runs, rfl, by rw [List.map_cons, List.map_cons, others, first.spanOf? own]⟩

end Phrase

namespace Sketch

open Phrase

/-- The spans of the package declaration and of the items. -/
def tops (s : Sketch) : List Span := s.package.toList.map PackageDecl.span ++ s.items.map Item.span

/-- The spans below that of the sketch are each that of a run of tokens, one in the other or apart,
and those of the package declaration and the items take the tokens up between them. -/
structure WellNested (s : Sketch) (ts : List Token) : Prop where
  nested : ∀ o ∈ outlines s.phrases, o.WellNested ts
  within : ∀ o ∈ outlines s.phrases, s.span.lo ≤ o.span.lo ∧ o.span.hi ≤ s.span.hi
  apart : (outlines s.phrases).Pairwise Apart
  tiled : ∃ runs : List (List Token), runs.flatten = ts ∧ runs.map spanOf? = s.tops.map some

variable {source : Text} {s : Sketch} {ts : List Token}

theorem span_of_parse (h : parse source = .ok s) : s.span = ⟨0, source.size⟩ := by
  unfold parse at h
  split at h
  · cases h
  · split at h
    · cases h
    · rename_i a t ha
      obtain rfl := Except.ok.inj h
      simp only [Syntax.sketch, Syntax.Reader.bind_eq_ok, Syntax.Reader.pure_eq_ok] at ha
      obtain ⟨package, u, -, items, _, -, rfl, rfl⟩ := ha
      rfl

/-- The spans of a sketch are well nested. -/
theorem wellNested_of_parse (h : parse source = .ok s) :
    ∃ ts, tokenize source = .ok ts ∧ s.WellNested ts.body := by
  obtain ⟨ts, hts, spells⟩ := s.spells_of_parse h
  have laid := laidOut_of_tokenize hts
  have lie := spells.lie laid
  refine ⟨ts, hts, lie.nested, fun o ho => ?_, lie.apart, spells.exists_runs ?_⟩
  · obtain ⟨t, ht, hi⟩ := (lie.nested o ho).exists_hi
    rw [span_of_parse h, hi]
    exact ⟨Nat.zero_le _, (laid.lies t ht).isBoundary_stop.le_size⟩
  · rw [phrases, tops, List.map_append, List.map_append]
    simp only [List.map_map]
    rfl

/-- The spans of all trees of the sketch are among those that are well nested. -/
theorem WellNested.of_contains (h : s.WellNested ts) {p : Phrase} (hp : s.Contains p) :
    ∀ o ∈ p.outline, o.WellNested ts := by
  obtain ⟨i, hi, inside⟩ := hp
  have listed : .item i ∈ s.phrases := by simp [phrases, hi]
  refine inside.forall_outline (fun a os below => ?_) fun o ho =>
    h.nested o (List.mem_flatMap.2 ⟨_, listed, ho⟩)
  cases below with
  | node _ _ _ _ _ deeper => exact deeper

/-- A loop whose variable has the span of its declaration, behind a package declaration. -/
theorem wellNested_of_for :
    let source : Text := "package p; for (int i = 0; i < 3; i++) f(i);".toList
    ∃ s ts, parse source = .ok s ∧ tokenize source = .ok ts ∧ s.tops = [⟨0, 10⟩, ⟨11, 44⟩] ∧
      s.WellNested ts.body := by
  intro source
  have read : (parse source).toOption.any
      (fun s : Sketch => decide (s.tops = [⟨0, 10⟩, ⟨11, 44⟩])) := by decide +kernel
  cases h : parse source with
  | error e => rw [h] at read; cases read
  | ok s =>
    rw [h] at read
    obtain ⟨ts, hts, nested⟩ := wellNested_of_parse h
    exact ⟨s, ts, rfl, hts, of_decide_eq_true read, nested⟩

end Sketch

end SketchPrep
