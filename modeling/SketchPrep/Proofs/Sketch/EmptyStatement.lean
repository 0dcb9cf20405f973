import SketchPrep.Proofs.Finding.Gist
import SketchPrep.Proofs.Syntax.Locality.Items
import SketchPrep.Proofs.Syntax.Span
import SketchPrep.Proofs.Token.Insertion
import SketchPrep.Sketch.Mode

/-!
A semicolon by itself between the items of a sketch, or behind the last one. Main statements:
`exists_parse_semicolon`, the text is read as before, with an empty statement more;
`conflict_of_semicolon`, only a sketch that brings its class with it is wrapped in another way then,
and the same statement is the one that may not stand next to methods.
-/

namespace SketchPrep

open Token Syntax Reader

/-! ### Both texts -/

theorem Token.moved_of_outline {d : Nat} {ts ts' : List Token}
    (h : ts'.map outline = ts.map fun t => t.outline.behind d) :
    List.Forall₂ (Token.Moved d) ts ts' := by
  induction ts generalizing ts' with
  | nil =>
    obtain rfl := List.map_eq_nil_iff.1 h
    exact .nil
  | cons t ts ih =>
    obtain ⟨t', ts', rfl, this, others⟩ := List.map_eq_cons_iff.1 h
    simp only [outline, Outline.behind, Outline.mk.injEq] at this
    obtain ⟨kind, text, start, stop⟩ := this
    exact .cons ⟨kind, text, start, stop⟩ (ih others)

namespace Syntax

/-- Where both texts end, everything being one byte further behind in the second. -/
def Fork.ends : Fork := ⟨1, [], [], fun _ => rfl, nofun⟩

variable {vs vs' : List Token} {semicolon : Token}

theorem Stream.AtSemicolon.of_ahead {s : Stream} (h : s.ahead = semicolon :: vs)
    (kind : semicolon.kind = .punctuation) (text : semicolon.text = ";") : s.AtSemicolon := by
  have current : s.current = semicolon := by simp [Stream.current, Stream.nth, h]
  exact ⟨current ▸ kind, current ▸ text⟩

theorem closesBeforeArrow_semicolon (behind : Parallel .ends vs vs')
    (kind : semicolon.kind = .punctuation) (text : semicolon.text = ";") (depth : Nat) :
    closesBeforeArrow depth (semicolon :: vs') = closesBeforeArrow depth vs := by
  rw [← behind.closesBeforeArrow_eq depth]
  simp [closesBeforeArrow, Token.is, kind, text]

/-- Where the second text has a semicolon. -/
def Fork.atSemicolon (behind : Parallel .ends vs vs') (kind : semicolon.kind = .punctuation)
    (text : semicolon.text = ";") : Fork where
  shift := 0
  first := vs
  second := semicolon :: vs'
  arrows := closesBeforeArrow_semicolon behind kind text
  stops t ht := by
    obtain rfl := Option.some.inj ht
    simp [Token.is, kind, text]

end Syntax

namespace Sketch

/-- What is read of a sketch, one item after the other. -/
theorem parse_eq_ok {source : Text} {s : Sketch} : parse source = .ok s ↔
    ∃ ts u t, tokenize source = .ok ts ∧ packageDecl? (.ofTokens ts) = .ok (s.package, u) ∧
      ReadsItems .whole s.items u t ∧ t.atEnd ∧ s.span = ⟨0, source.size⟩ := by
  have read {ts : Tokens} (h : tokenize source = .ok ts) :
      parse source = Prod.fst <$> sketch .whole source.size (.ofTokens ts) := by
    have whole := parse_eq h (Nat.le_refl _) .whole
    rwa [Function.iterate_fixed Grammar.unfold_whole] at whole
  have agree (n : Nat) := Grammar.agree_whole .any n
  constructor
  · intro h
    cases hts : tokenize source with
    | error =>
      simp only [parse, hts] at h
      cases h
    | ok ts =>
      rw [read hts] at h
      cases hx : sketch .whole source.size (.ofTokens ts) with
      | error =>
        rw [hx] at h
        cases h
      | ok x =>
        obtain ⟨a, t⟩ := x
        rw [hx] at h
        obtain rfl : a = s := Except.ok.inj h
        obtain ⟨p, u, package, rest⟩ := bind_eq_ok.1 hx
        obtain ⟨items, v, loop, last⟩ := bind_eq_ok.1 rest
        obtain ⟨rfl, rfl⟩ := pure_eq_ok.1 last
        obtain ⟨reads, ends⟩ := (manyWhile_item_eq_ok (agree _) (Nat.le_refl _)).1 loop
        exact ⟨ts, u, t, rfl, package, reads, ends, rfl⟩
  · rintro ⟨ts, u, t, hts, package, reads, ends, span⟩
    obtain ⟨p, items, a⟩ := s
    have loop := (manyWhile_item_eq_ok (agree _) (Nat.le_refl _)).2 ⟨reads, ends⟩
    obtain rfl : a = _ := span
    have whole : sketch .whole source.size (.ofTokens ts) = .ok (⟨p, items, _⟩, t) :=
      bind_eq_ok.2 ⟨p, u, package, bind_eq_ok.2 ⟨items, t, loop, pure_eq_ok.2 ⟨rfl, rfl⟩⟩⟩
    rw [read hts, whole]
    rfl

/-! ### Where an item ends -/

theorem closes_of_is {source : Text} {ts : Tokens} (h : tokenize source = .ok ts) {t : Token}
    (ht : t ∈ ts.body) (hw : t.is ";" ∨ t.is "\x7d") : t.closes := by
  have text {w : String} (h : t.is w) : t.text = w := of_decide_eq_true (Bool.and_eq_true_iff.1 h).2
  rcases hw with hw | hw
  · simp [closes, kind_of_is h ht hw (by decide), text hw]
  · simp [closes, kind_of_is h ht hw (by decide), text hw]

theorem read_package? {u v : Stream} {p : Option PackageDecl} (h : packageDecl? u = .ok (p, v)) :
    u.Read (p.toList.map .packageDecl) v := by
  cases p with
  | none =>
    rw [eq_of_packageDecl_none h]
    exact .nil u
  | some d => exact read_packageDecl h

variable {source : Text} {s : Sketch} {is js : List Item} {i : Item}

/-- A sketch that is cut behind an item, and the token that the item ends with. -/
structure Cut (source : Text) (s : Sketch) (is js : List Item) (i : Item) where
  tokens : Tokens
  start : Stream
  place : Stream
  final : Stream
  before : List Token
  last : Token
  tokenize_eq : tokenize source = .ok tokens
  package : packageDecl? (.ofTokens tokens) = .ok (s.package, start)
  items : ReadsItems .whole (is ++ [i]) start place
  others : ReadsItems .whole js place final
  ends : final.atEnd
  body : tokens.body = before ++ last :: place.ahead
  closes : last.closes
  stop : last.stop = i.span.hi
  closed : ∀ v ∈ place.ahead.getLast?, v.closes

theorem nonempty_cut (h : parse source = .ok s) (items : s.items = is ++ i :: js) :
    Nonempty (Cut source s is js i) := by
  obtain ⟨ts, u, t, hts, package, reads, ends, -⟩ := parse_eq_ok.1 h
  rw [items, show is ++ i :: js = is ++ [i] ++ js by simp] at reads
  obtain ⟨w, these, others⟩ := readsItems_append.1 reads
  obtain ⟨x, front, last⟩ := readsItems_append.1 these
  obtain _ | ⟨own, ⟨⟩⟩ := last
  have signs : ∀ v ∈ ts.body, v.is ";" ∨ v.is "\x7d" → v.closes := fun v hv => closes_of_is hts hv
  obtain ⟨ps, took, -⟩ := (read_package? package).append (front.read Grammar.sound_whole)
  obtain ⟨us, tookItem, item⟩ := reads_item Grammar.sound_whole _ _ _ own
  obtain ⟨vs, tookOthers, following⟩ := others.read Grammar.sound_whole
  have body : ts.body = ps ++ (us ++ w.ahead) := took.ahead.trans (by rw [tookItem.ahead])
  have rest : w.ahead = vs := by
    rw [tookOthers.ahead, Stream.atEnd_iff.1 ends, List.append_nil]
  have closed := item.spells.closes rfl fun v hv => signs v (by simp [body, hv])
  obtain ⟨l, hl, closes⟩ := (Option.any_eq_true _ _).1 closed
  obtain ⟨us, rfl⟩ := List.getLast?_eq_some_iff.1 hl
  have span := Stream.Read.span ⟨_, tookItem, item⟩ rfl
  refine ⟨ts, u, w, t, ps ++ us, l, hts, package, these, others, ends, by simp [body], closes,
    ?_, fun v hv => ?_⟩
  · rw [show i.span = _ from span, Stream.spanFrom, tookItem.lastStop, hl]
    rfl
  · rw [rest] at hv
    have some : js ≠ [] := by
      rintro rfl
      cases following with
      | nil => cases hv
    have ends := List.getLast?_eq_some_getLast some
    have closed := following.spells.closes (by simp [List.getLast?_map, ends, Phrase.isClosed])
      fun v hv => signs v (by simp [body, rest, hv])
    rw [Option.mem_def.1 hv] at closed
    exact closed

/-- The items stand one behind the other. -/
theorem lo_of_mem (h : parse source = .ok s) (items : s.items = is ++ i :: js) :
    (∀ a ∈ is ++ [i], a.span.lo < i.span.hi) ∧ ∀ a ∈ js, i.span.hi ≤ a.span.lo := by
  obtain ⟨c⟩ := nonempty_cut h items
  have laid := laidOut_of_tokenize c.tokenize_eq
  rw [c.body, List.append_cons] at laid
  obtain ⟨front, -, across⟩ := laidOut_append.1 laid
  obtain ⟨ts, took, first⟩ := (read_package? c.package).append (c.items.read Grammar.sound_whole)
  obtain ⟨us, behind, others⟩ := c.others.read Grammar.sound_whole
  have body : ts ++ c.place.ahead = c.before ++ [c.last] ++ c.place.ahead := by
    rw [← took.ahead, ← List.append_cons, ← c.body]
    rfl
  have rest : c.place.ahead = us := by
    rw [behind.ahead, Stream.atEnd_iff.1 c.ends, List.append_nil]
  obtain rfl := List.append_cancel_right body
  rw [← c.stop]
  constructor
  · intro a ha
    obtain ⟨t, ht, lo⟩ := first.spells.exists_start
      (List.mem_append_right _ (List.mem_map_of_mem ha)) rfl
    have begins := (front.lies t ht).lt
    rw [lo]
    rcases List.mem_append.1 ht with ht | ht
    · have := (laidOut_append.1 front).2.2 t ht c.last (.head _)
      have := (front.lies c.last (by simp)).lt
      omega
    · rwa [← List.mem_singleton.1 ht]
  · intro a ha
    obtain ⟨t, ht, lo⟩ := others.spells.exists_start (List.mem_map_of_mem ha) rfl
    rw [lo]
    exact across c.last (by simp) t (rest ▸ ht)

end Sketch

/-! ### Statements of both texts -/

/-- The same part of a text that has one byte more at the place, which is not within the part. -/
def Span.pushed (place : Nat) (a : Span) : Span := if a.lo < place then a else a.behind 1

/-- The same statement up to spans, with one byte more at the place. -/
structure Stmt.Pushed (place : Nat) (a a' : Stmt) : Prop where
  same : a'.unspanned = a.unspanned
  span : a'.span = a.span.pushed place

namespace Item

/-- The same item up to spans, with one byte more at the place. -/
structure Pushed (place : Nat) (i i' : Item) : Prop where
  same : i'.unspanned = i.unspanned
  span : i'.span = i.span.pushed place

variable {i i' : Item} {place : Nat}

theorem Moved.pushed_before (h : i.Moved 0 i') (lt : i.span.lo < place) : i.Pushed place i' :=
  ⟨h.same, by rw [h.span, Span.pushed, if_pos lt]; rfl⟩

theorem Moved.pushed_behind (h : i.Moved 1 i') (le : place ≤ i.span.lo) : i.Pushed place i' :=
  ⟨h.same, by rw [h.span, Span.pushed, if_neg (Nat.not_lt.2 le)]⟩

theorem isMethod_unspanned (i : Item) : i.unspanned.isMethod = i.isMethod := by
  cases i <;> rfl

theorem isDeclaration_unspanned (i : Item) : i.unspanned.isDeclaration = i.isDeclaration := by
  cases i <;> rfl

theorem isSketchClass_unspanned (i : Item) : i.unspanned.isSketchClass = i.isSketchClass := by
  cases i with
  | type d => exact d.isSketchClass_unspanned
  | _ => rfl

theorem bare?_unspanned (i : Item) : i.unspanned.bare? = i.bare?.map Stmt.unspanned := by
  cases i with
  | stmt a =>
    obtain ⟨kind, span⟩ := a
    cases kind <;> rfl
  | _ => rfl

theorem span_of_bare? {a : Stmt} (h : i.bare? = some a) : a.span = i.span := by
  cases i with
  | stmt b =>
    simp only [bare?] at h
    split at h
    · cases h
    · cases h
    · cases h
    · rw [← Option.some.inj h]
      rfl
  | _ => cases h

theorem isDeclaration_of_isMethod (h : i.isMethod) : i.isDeclaration = false := by
  cases i with
  | method => rfl
  | _ => cases h

theorem Pushed.bare? (h : i.Pushed place i') :
    Option.Rel (Stmt.Pushed place) i.bare? i'.bare? := by
  have same : i'.bare?.map Stmt.unspanned = i.bare?.map Stmt.unspanned := by
    rw [← bare?_unspanned, ← bare?_unspanned, h.same]
  cases bare : i.bare? with
  | none =>
    rw [bare, Option.map_none, Option.map_eq_none_iff] at same
    rw [same]
    exact .none
  | some a =>
    rw [bare, Option.map_some, Option.map_eq_some_iff] at same
    obtain ⟨a', bare', same⟩ := same
    rw [bare']
    refine .some ⟨same, ?_⟩
    rw [span_of_bare? bare, span_of_bare? bare', h.span]

end Item

theorem any_eq_of_pushed {is is' : List Item} {place : Nat}
    (h : List.Forall₂ (Item.Pushed place) is is') {p : Item → Bool}
    (hp : ∀ i : Item, p i.unspanned = p i) : is'.any p = is.any p := by
  induction h with
  | nil => rfl
  | @cons i i' is is' first _ ih => rw [List.any_cons, List.any_cons, ← hp i', first.same, hp i, ih]

namespace Sketch

variable {s s' : Sketch} {is js : List Item} {i : Item} {place : Nat} {a : Span}

/-! ### How the sketch is wrapped -/

theorem mode_eq_of_pushed (h : List.Forall₂ (Item.Pushed place) s.items s'.items) :
    s'.mode = s.mode := by
  have others := any_eq_of_pushed h (p := (!·.isDeclaration)) fun i => by
    rw [i.isDeclaration_unspanned]
  rw [mode, mode, List.all_eq_not_any_not, List.all_eq_not_any_not, others,
    any_eq_of_pushed h Item.isSketchClass_unspanned, any_eq_of_pushed h Item.isMethod_unspanned]

theorem mixedModeConflict?_of_pushed (h : List.Forall₂ (Item.Pushed place) s.items s'.items) :
    Option.Rel (Stmt.Pushed place) s.mixedModeConflict? s'.mixedModeConflict? := by
  rw [mixedModeConflict?, mixedModeConflict?, any_eq_of_pushed h Item.isMethod_unspanned]
  split
  · have bare := List.rel_filterMap (R := Item.Pushed place) (fun _ _ same => same.bare?) h
    rw [← List.head?_filterMap, ← List.head?_filterMap]
    generalize s.items.filterMap Item.bare? = as at bare ⊢
    generalize s'.items.filterMap Item.bare? = as' at bare ⊢
    cases bare with
    | nil => exact .none
    | cons first _ => exact .some first
  · exact .none

/-- A semicolon by itself is a statement, so that no class is the sketch class beside it. -/
theorem mode_of_empty (items : s.items = is ++ .stmt ⟨.empty, a⟩ :: js)
    (items' : s'.items = is ++ js) :
    s.mode = if s'.mode = .java then .static else s'.mode := by
  have statement : s.items.all Item.isDeclaration = false := by simp [items, Item.isDeclaration]
  have methods : s.items.any Item.isMethod = s'.items.any Item.isMethod := by
    simp [items, items', Item.isMethod]
  have here : s.mode = if s'.items.any Item.isMethod then .active else .static := by
    rw [mode, statement, Bool.false_and, if_neg Bool.false_ne_true, methods]
  rw [here, mode]
  by_cases java : s'.items.all Item.isDeclaration && s'.items.any Item.isSketchClass
  · have none : s'.items.any Item.isMethod = false := by
      refine List.any_eq_false.2 fun i hi method => ?_
      have declares := List.all_eq_true.1 (Bool.and_eq_true_iff.1 java).1 i hi
      rw [Item.isDeclaration_of_isMethod method] at declares
      cases declares
    simp [java, none]
  · rw [if_neg java]
    split
    · rfl
    · rfl

theorem mixedModeConflict?_of_empty (items : s.items = is ++ .stmt ⟨.empty, a⟩ :: js)
    (items' : s'.items = is ++ js) : s.mixedModeConflict? = s'.mixedModeConflict? := by
  have statement : Item.bare? (.stmt ⟨.empty, a⟩) = none := rfl
  simp only [mixedModeConflict?, items, items', List.any_append, List.any_cons, Item.isMethod,
    Bool.false_or, List.findSome?_append, List.findSome?_cons, statement]

/-! ### A semicolon behind an item -/

/-- Up to the semicolon and behind it the tokens of both texts are the same. -/
theorem Cut.exists_parallel {front gap back : Text}
    (c : Cut (front ++ (gap ++ back)) s is js i) (stop : i.span.hi = front.size)
    (blank : Lexer.IsGap false gap) :
    ∃ (ts' : Tokens) (semicolon : Token) (vs' : List Token)
      (behind : Parallel .ends c.place.ahead vs') (kind : semicolon.kind = .punctuation)
      (text : semicolon.text = ";"),
      tokenize (front ++ (gap ++ ';' :: back)) = .ok ts' ∧
        semicolon.span = ⟨front.size + gap.size, front.size + gap.size + 1⟩ ∧
        Parallel (.atSemicolon behind kind text) (Stream.ofTokens c.tokens).ahead
          (Stream.ofTokens ts').ahead := by
  obtain ⟨ts', hts', outlines⟩ :=
    tokenize_insert c.tokenize_eq c.body c.closes (c.stop.trans stop) blank.closed
  obtain ⟨before', rest, body, outlines, inner⟩ := List.map_eq_append_iff.1 outlines
  obtain ⟨last', rest, rfl, last, inner⟩ := List.map_eq_cons_iff.1 inner
  obtain ⟨semicolon, vs', rfl, here, inner⟩ := List.map_eq_cons_iff.1 inner
  simp only [outline, Outline.mk.injEq] at here
  obtain ⟨kind, text, lo, hi⟩ := here
  have markers : ∀ t ∈ c.tokens.body, t.is "@" → t.kind = .punctuation := fun t ht at_sign =>
    kind_of_is c.tokenize_eq ht at_sign (by decide)
  have behind : Parallel .ends c.place.ahead vs' := by
    have ends := Parallel.of_moved (f := .ends) (moved_of_outline inner)
      (fun t ht => markers t (by simp [c.body, ht])) c.closed
    simpa [Fork.ends] using ends
  refine ⟨ts', semicolon, vs', behind, kind, text, hts', by rw [Token.span, lo, hi], ?_⟩
  have whole : c.tokens.body = c.before ++ [c.last] ++ c.place.ahead := by simp [c.body]
  have same : (before' ++ [last']).map outline =
      (c.before ++ [c.last]).map fun t => t.outline.behind 0 := by
    rw [List.map_append, List.map_append, outlines, List.map_singleton, last]
    rfl
  have both := Parallel.of_moved (f := .atSemicolon behind kind text) (moved_of_outline same)
    (fun t ht => markers t (whole ▸ List.mem_append_left _ ht)) (by simpa using c.closes)
  simpa [c.body, body, Fork.atSemicolon, Stream.ofTokens] using both

/-- The semicolon is read as an item of its own, and the others as before. -/
theorem exists_parse_semicolon {front gap back : Text} (h : parse (front ++ (gap ++ back)) = .ok s)
    (items : s.items = is ++ i :: js) (stop : i.span.hi = front.size)
    (blank : Lexer.IsGap false gap) :
    ∃ s' is' js', parse (front ++ (gap ++ ';' :: back)) = .ok s' ∧
      s.package.map PackageDecl.unspanned = s'.package.map PackageDecl.unspanned ∧
      s'.items = is' ++ .stmt ⟨.empty, ⟨front.size + gap.size, front.size + gap.size + 1⟩⟩ :: js' ∧
      List.Forall₂ (Item.Moved 0) (is ++ [i]) is' ∧ List.Forall₂ (Item.Moved 1) js js' := by
  obtain ⟨c⟩ := nonempty_cut h items
  obtain ⟨ts', semicolon, vs', behind, kind, text, hts', span, both⟩ :=
    c.exists_parallel stop blank
  have agree := Grammar.agree_whole .any c.start.left
  have taken := c.items.left_le agree (Nat.le_refl _)
  have place : c.place.left = (Fork.atSemicolon behind kind text).first.length := c.place.left_eq
  rw [List.length_append, List.length_singleton] at taken
  obtain ⟨p', u', package, same, start⟩ :=
    follows_packageDecl?.reads both c.package (by omega)
  obtain ⟨is', w', reads, moved, inner⟩ := c.items.follow (Grammar.local_whole _ _)
    Grammar.sound_whole (Nat.le_refl _) start (by omega)
  have ahead : w'.ahead = semicolon :: vs' := inner.eq_second (by omega)
  have empty := Stream.AtSemicolon.of_ahead ahead kind text
  have current : w'.current = semicolon := by simp [Stream.current, Stream.nth, ahead]
  have next : w'.begun.advance.ahead = vs' := by
    rw [Stream.advance_ahead, Stream.begun, ahead]
    rfl
  obtain ⟨js', t', others, movedBehind, ends⟩ := c.others.follow (Grammar.local_whole .ends _)
    Grammar.sound_whole (Nat.le_refl _) (next ▸ behind) (Nat.zero_le _)
  refine ⟨⟨p', is' ++ .stmt ⟨.empty, w'.current.span⟩ :: js', ⟨0, _⟩⟩, is', js',
    parse_eq_ok.2 ⟨ts', u', t', hts', package, ?_, ?_, rfl⟩, same, by rw [current, span], moved,
    movedBehind⟩
  · exact readsItems_append.2 ⟨w', reads, .cons empty.item others⟩
  · rw [Stream.atEnd_iff, (ends.eq_fork ?_).2]
    · rfl
    · rw [Stream.atEnd_iff.1 c.ends]
      rfl

/-- A semicolon behind an item, or behind blanks and comments that follow the item, is a statement
more. So a sketch that brings its class with it is wrapped with bare statements then, and any other
one as before. The same statement may not stand next to methods. -/
theorem conflict_of_semicolon {front gap back : Text}
    (h : parse (front ++ (gap ++ back)) = .ok s) (items : s.items = is ++ i :: js)
    (stop : i.span.hi = front.size) (blank : Lexer.IsGap false gap) :
    ∃ s', parse (front ++ (gap ++ ';' :: back)) = .ok s' ∧
      s'.mode = (if s.mode = .java then .static else s.mode) ∧
      Option.Rel (Stmt.Pushed front.size) s.mixedModeConflict? s'.mixedModeConflict? := by
  obtain ⟨s', is', js', read, -, items', before, behind⟩ :=
    exists_parse_semicolon h items stop blank
  obtain ⟨left, right⟩ := lo_of_mem h items
  rw [stop] at left right
  have before : List.Forall₂ (Item.Pushed front.size) (is ++ [i]) is' :=
    ((List.forall₂_and_left _ _).2 ⟨left, before⟩).imp fun _ _ h => h.2.pushed_before h.1
  have behind : List.Forall₂ (Item.Pushed front.size) js js' :=
    ((List.forall₂_and_left _ _).2 ⟨right, behind⟩).imp fun _ _ h => h.2.pushed_behind h.1
  let without : Sketch := { s' with items := is' ++ js' }
  have others : without.items = is' ++ js' := rfl
  have same : List.Forall₂ (Item.Pushed front.size) s.items without.items := by
    rw [items, List.append_cons]
    exact List.rel_append before behind
  refine ⟨s', read, ?_, ?_⟩
  · rw [mode_of_empty items' others, mode_eq_of_pushed same]
  · rw [mixedModeConflict?_of_empty items' others]
    exact mixedModeConflict?_of_pushed same

/-- Behind a method and a comment: the statement that may not stand there is one byte further
behind. -/
theorem conflict_of_semicolon_behind_comment :
    let front : Text := "void f() { }".toList
    let gap : Text := " /**/".toList
    let back : Text := " f();".toList
    ∃ s s' a a', parse (front ++ (gap ++ back)) = .ok s ∧
      parse (front ++ (gap ++ ';' :: back)) = .ok s' ∧ s.mode = .active ∧ s'.mode = .active ∧
      s.mixedModeConflict? = some a ∧ s'.mixedModeConflict? = some a' ∧ a.Pushed 12 a' ∧
      a.span = ⟨18, 22⟩ ∧ a'.span = ⟨19, 23⟩ := by
  intro front gap back
  have read : (parse (front ++ (gap ++ back))).toOption.any (fun s =>
      s.items.map (fun i => i.span.hi) = [12, 22] ∧ s.mode = .active ∧
        s.mixedModeConflict?.map Stmt.span = some ⟨18, 22⟩) = true := by
    decide +kernel
  have blank : Lexer.IsGap false gap :=
    .blank (by decide) (@Lexer.IsGap.block false [] [] (by decide) .nil)
  cases h : parse (front ++ (gap ++ back)) with
  | error =>
    rw [h] at read
    cases read
  | ok s =>
    rw [h] at read
    obtain ⟨ends, active, place⟩ := of_decide_eq_true read
    obtain ⟨i, js, items, stop, -⟩ := List.map_eq_cons_iff.1 ends
    obtain ⟨a, conflict, span⟩ := Option.map_eq_some_iff.1 place
    obtain ⟨s', h', wrapped, moved⟩ :=
      conflict_of_semicolon h (show s.items = [] ++ i :: js from items) stop blank
    rw [active, if_neg (by decide)] at wrapped
    rw [conflict] at moved
    cases conflict' : s'.mixedModeConflict? with
    | none =>
      rw [conflict'] at moved
      cases moved
    | some a' =>
      rw [conflict'] at moved
      obtain ⟨moved⟩ := moved
      refine ⟨s, s', a, a', rfl, h', active, wrapped, conflict, conflict', moved, span, ?_⟩
      rw [moved.span, span]
      rfl

/-- Behind the class of the sketch a semicolon is a statement, and the class is not all that there
is. -/
theorem mode_of_semicolon_ne :
    ∃ s s', parse "class A extends PApplet { }".toList = .ok s ∧
      parse "class A extends PApplet { };".toList = .ok s' ∧
      (∃ i, s.items = [i] ∧ i.span.hi = Text.size "class A extends PApplet { }".toList) ∧
      s.mode = .java ∧ s'.mode = .static := by
  have read : (parse "class A extends PApplet { }".toList).toOption.any (fun s =>
      s.items.map (fun i => i.span.hi) = [27] ∧ s.mode = .java) = true := by
    decide +kernel
  have read' : (parse "class A extends PApplet { };".toList).toOption.any (fun s =>
      s.mode = .static) = true := by
    decide +kernel
  cases h : parse "class A extends PApplet { }".toList with
  | error =>
    rw [h] at read
    cases read
  | ok s =>
    cases h' : parse "class A extends PApplet { };".toList with
    | error =>
      rw [h'] at read'
      cases read'
    | ok s' =>
      rw [h] at read
      rw [h'] at read'
      obtain ⟨ends, java⟩ := of_decide_eq_true read
      obtain ⟨i, items, stop⟩ := List.map_eq_singleton_iff.1 ends
      exact ⟨s, s', rfl, rfl, ⟨i, items, stop⟩, java, of_decide_eq_true read'⟩

end Sketch

end SketchPrep
