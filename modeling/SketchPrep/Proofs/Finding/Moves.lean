import SketchPrep.Proofs.Finding.Descent
import SketchPrep.Proofs.Finding.Removal
import SketchPrep.Proofs.Settings.LastCalls

/-!
The statements that move to `settings()`. Main statement: `moves_just_outermost`, these are the
statements whose place and call allow it, unless they stand inside another one of them. A marker
takes the place of each, no other text that is inserted looks like one, and the settings are those
of their calls in the order of the markers.
-/

namespace SketchPrep

open Phrase Token

namespace Finding

variable {c : Context} {b b' : Bool} {s : Sketch} {st : Stmt} {p q : Phrase}

/-! ### Where statements move -/

/-- The walk over `p` moves the statement. -/
def MovesIn (c : Context) (b : Bool) (p : Phrase) (st : Stmt) : Prop :=
  ∃ b', Visits c b p b' (.stmt st) ∧ moves c b' (.stmt st)

theorem movesIn_of_moves (h : moves c b p) : MovesIn c b p st ↔ p = .stmt st := by
  constructor
  · rintro ⟨b', visits, -⟩
    cases visits with
    | here => rfl
    | part stays => simp [h] at stays
  · rintro rfl
    exact ⟨b, .here, h⟩

theorem movesIn_of_stays (h : moves c b p = false) :
    MovesIn c b p st ↔ ∃ q ∈ p.parts, MovesIn c (passesOn b p) q st := by
  constructor
  · rintro ⟨b', visits, moved⟩
    cases visits with
    | here => simp [h] at moved
    | part _ hq later => exact ⟨_, hq, b', later, moved⟩
  · rintro ⟨q, hq, b', visits, moved⟩
    exact ⟨b', .part h hq visits, moved⟩

/-! ### Markers -/

/-- A marker in place of a statement that makes a call. -/
def replacement (st : Stmt) : List Draft.Request :=
  (SettingsCall.ofStmt? st).toList.flatMap fun call => Draft.replaceSpan st.span (marker call.name)

/-- Text that looks like a marker: it begins a comment. -/
def isMarker : Draft.Request → Bool
  | .insert _ text => ['/', '*'].isPrefixOf text
  | .delete _ => false

/-- The findings replace just these statements, in this order. -/
structure Replaces (fs : List Finding) (moved : List Stmt) : Prop where
  calls : movedCalls fs = moved.filterMap SettingsCall.ofStmt?
  replaced : (moved.flatMap replacement).Sublist (requests fs)
  markers : (requests fs).filter isMarker = (moved.flatMap replacement).filter isMarker

theorem Replaces.append {fs gs : List Finding} {moved others : List Stmt}
    (h : Replaces fs moved) (k : Replaces gs others) : Replaces (fs ++ gs) (moved ++ others) where
  calls := by rw [movedCalls_append, List.filterMap_append, h.calls, k.calls]
  replaced := by
    rw [List.flatMap_append, requests_append]
    exact h.replaced.append k.replaced
  markers := by
    rw [List.flatMap_append, requests_append, List.filter_append, List.filter_append, h.markers,
      k.markers]

theorem replaces_nothing {fs : List Finding} (calls : movedCalls fs = [])
    (markers : ∀ q ∈ requests fs, isMarker q = false) : Replaces fs [] where
  calls := calls
  replaced := List.nil_sublist _
  markers := List.filter_eq_nil_iff.2 (by simpa using markers)

@[simp] theorem requests_map_edit (qs : List Draft.Request) : requests (qs.map .edit) = qs := by
  have same : request? ∘ Finding.edit = some := rfl
  rw [requests, List.filterMap_map, same, List.filterMap_some]

@[simp] theorem movedCalls_map_edit (qs : List Draft.Request) :
    movedCalls (qs.map .edit) = [] := by
  have none : call? ∘ Finding.edit = fun _ => none := rfl
  rw [movedCalls, List.filterMap_map, none, List.filterMap_none, List.filter_nil]

/-- Of a call that may move nothing is left if it does not. -/
theorem movedCalls_ofCandidate (st : Stmt) :
    movedCalls (ofCandidate c b st) = (hoisted? c b st).toList := by
  unfold hoisted? ofCandidate movedCalls
  cases candidate? c b st with
  | none => rfl
  | some call => cases accepted : call.isAccepted <;> simp [call?, Option.filter, accepted]

theorem replaces_of_moves (h : moves c b (.stmt st)) : Replaces (own c b (.stmt st)) [st] := by
  obtain ⟨call, hcall⟩ := Option.isSome_iff_exists.1 h
  obtain ⟨-, -, made, -⟩ := hoisted?_eq_some.1 hcall
  have found : own c b (.stmt st) = ofCandidate c b st ++ (replacement st).map .edit := by
    simp [own, hcall, ofHoisted, replacement, made]
  have edits : requests (own c b (.stmt st)) = replacement st := by
    rw [found, requests_append, requests_ofCandidate, requests_map_edit]
    rfl
  refine ⟨?_, by simp [edits], by simp [edits]⟩
  rw [found, movedCalls_append, movedCalls_map_edit, movedCalls_ofCandidate, hcall]
  simp [made]

section Unmarked

variable {a : Char} {text : Text} {span : Span} {o : Nat}

theorem head?_prepare (head : text.head? = some a) (ascii : Text.CharClass.isAscii a) :
    (c.prepare text).head? = some a := by
  cases text with
  | nil => cases head
  | cons d text =>
    obtain rfl := Option.some.inj head
    unfold Context.prepare
    split
    · simp [Literal.escapeUnicode, Literal.escapeChar, ascii]
    · rfl

theorem not_isMarker_insert (head : text.head? = some a) (ascii : Text.CharClass.isAscii a)
    (other : a ≠ '/') : isMarker (.insert o (c.prepare text)) = false := by
  have first := head?_prepare (c := c) head ascii
  cases h : c.prepare text with
  | nil => simp [h] at first
  | cons d rest =>
    obtain rfl : d = a := by simpa [h] using first
    simp [isMarker, List.isPrefixOf, other.symm]

theorem replaces_insert (head : text.head? = some a) (ascii : Text.CharClass.isAscii a)
    (other : a ≠ '/') : Replaces (c.insert o text) [] := by
  refine replaces_nothing (movedCalls_map_edit _) ?_
  rw [Context.insert, requests_map_edit]
  exact List.forall_mem_singleton.2 (not_isMarker_insert head ascii other)

theorem replaces_deleteSpan : Replaces ((Draft.deleteSpan span).map .edit) [] := by
  refine replaces_nothing (movedCalls_map_edit _) ?_
  rw [requests_map_edit, Draft.deleteSpan]
  split
  · simp
  · simp [isMarker]

theorem replaces_replace (head : text.head? = some a) (ascii : Text.CharClass.isAscii a)
    (other : a ≠ '/') : Replaces (c.replace span text) [] := by
  have split : c.replace span text =
      c.insert span.lo text ++ (Draft.deleteSpan span).map .edit := by
    simp [Context.replace, Context.insert, Draft.replaceSpan, Draft.insertBeforeSpan]
  rw [split]
  exact (replaces_insert head ascii other).append replaces_deleteSpan

end Unmarked

/-- The colours of a tree are written as colours. -/
def ColorsSpelled (p : Phrase) : Prop :=
  ∀ text span, p.Contains (.expr ⟨.literal .hexColor text, span⟩) → text.toList.head? = some '#'

theorem head?_hexColor {text : Text} (h : text.head? = some '#') :
    (Literal.hexColor text).head? = some '0' := by
  cases text with
  | nil => cases h
  | cons d text =>
    obtain rfl := Option.some.inj h
    unfold Literal.hexColor
    have upper : Text.CharClass.upper '#' = ['#'] := by decide
    simp only [List.flatMap_cons, upper]
    split <;> rfl

theorem replaces_conversion (id : Ident) : Replaces (ofConversion c id) [] := by
  unfold ofConversion
  split
  · rename_i method conversion
    have head : method.toList.head? = some 'P' := by
      unfold Literal.conversion? at conversion
      split at conversion
      all_goals first | cases conversion; rfl | cases conversion
    exact replaces_replace head (by decide) (by decide)
  · exact replaces_nothing rfl (by simp)

theorem replaces_literal {text : String} {span : Span} {kind : LiteralKind}
    (colors : ColorsSpelled (.expr ⟨.literal kind text, span⟩)) :
    Replaces (ofLiteral c span kind text.toList) [] := by
  cases kind with
  | float =>
    simp only [ofLiteral]
    split
    · exact replaces_insert rfl (by decide) (by decide)
    · exact replaces_nothing rfl (by simp)
  | hexColor =>
    have head := head?_hexColor (colors text span (.refl _))
    exact replaces_replace head (by decide) (by decide)
  | textBlock => exact replaces_replace (a := '"') rfl (by decide) (by decide)
  | _ => exact replaces_nothing rfl (by simp [ofLiteral])

theorem replaces_method (m : MethodDecl) :
    Replaces (ofVisibility c b m ++ if b && declaresMain m then [.main] else []) [] := by
  have visible : Replaces (ofVisibility c b m) [] := by
    unfold ofVisibility
    split
    · split
      · exact replaces_insert (a := ' ') rfl (by decide) (by decide)
      · exact replaces_insert (a := 'p') rfl (by decide) (by decide)
    · exact replaces_nothing rfl (by simp)
  have main : Replaces (if b && declaresMain m then [.main] else []) [] := by
    split
    · exact replaces_nothing rfl (by simp [requests, request?])
    · exact replaces_nothing rfl (by simp)
  exact visible.append main

/-- What stays gets no marker. -/
theorem replaces_own (colors : ColorsSpelled p) (h : moves c b p = false) :
    Replaces (own c b p) [] := by
  have silent : Replaces [] [] := replaces_nothing rfl (by simp)
  cases p with
  | stmt st =>
    have stays : hoisted? c b st = none := by simpa [moves] using h
    refine replaces_nothing ?_ (by simp [own, stays])
    simp [own, stays, movedCalls_ofCandidate]
  | callName id => exact replaces_conversion id
  | typeKind k =>
    cases k with
    | primitive id =>
      simp only [own, ofTypeKind]
      split
      · exact replaces_replace (a := 'i') rfl (by decide) (by decide)
      · exact silent
    | _ => exact silent
  | expr e =>
    obtain ⟨kind, span⟩ := e
    cases kind with
    | literal => exact replaces_literal colors
    | _ => exact silent
  | methodDecl m => exact replaces_method m
  | member m =>
    cases m with
    | importation d => exact replaces_nothing rfl (by simp [own, requests, request?])
    | _ => exact silent
  | item i =>
    cases i with
    | importation d => exact replaces_deleteSpan
    | _ => exact silent
  | _ => exact silent

theorem exists_replaces_of_forall {qs : List Phrase} (h : ∀ q ∈ qs, ∃ moved,
    Replaces (ofPhrase c b q) moved ∧ ∀ st, st ∈ moved ↔ MovesIn c b q st) :
    ∃ moved, Replaces (ofPhrases c b qs) moved ∧ ∀ st, st ∈ moved ↔ ∃ q ∈ qs, MovesIn c b q st := by
  induction qs with
  | nil => exact ⟨[], replaces_nothing rfl (by simp), by simp⟩
  | cons q qs ih =>
    obtain ⟨first, later⟩ := List.forall_mem_cons.1 h
    obtain ⟨moved, replaces, hmoved⟩ := first
    obtain ⟨others, replaces', hothers⟩ := ih later
    exact ⟨moved ++ others, replaces.append replaces', by simp [hmoved, hothers]⟩

/-- The walk over a tree replaces just the statements that it moves. -/
theorem exists_replaces (p : Phrase) (colors : ColorsSpelled p) (b : Bool) : ∃ moved,
    Replaces (ofPhrase c b p) moved ∧ ∀ st, st ∈ moved ↔ MovesIn c b p st := by
  induction p using partsInduction generalizing b with | step p ih =>
  rw [ofPhrase_eq_parts]
  cases hmoves : moves c b p with
  | true =>
    cases p with
    | stmt st =>
      refine ⟨[st], by simpa using replaces_of_moves hmoves, fun st' => ?_⟩
      rw [movesIn_of_moves hmoves, List.mem_singleton, Phrase.stmt.injEq]
      exact eq_comm
    | _ => cases hmoves
  | false =>
    have parts : ∀ q ∈ p.parts, ∃ moved, Replaces (ofPhrase c (passesOn b p) q) moved ∧
        ∀ st, st ∈ moved ↔ MovesIn c (passesOn b p) q st := fun q hq =>
      ih q hq (fun text span inside => colors text span (.part hq inside)) _
    obtain ⟨moved, replaces, hmoved⟩ := exists_replaces_of_forall parts
    refine ⟨moved, by simpa using (replaces_own colors hmoves).append replaces, fun st => ?_⟩
    rw [hmoved, movesIn_of_stays hmoves]

/-! ### Sketches -/

/-- From a `setup` that is told to be in the sketch the walk comes to its statements. -/
theorem visits_of_setup {m : MethodDecl} {x : Block} (setup : m.name.name = "setup")
    (body : m.body = some x) (hst : st ∈ x.stmts) :
    Visits c true (.methodDecl m) true (.stmt st) := by
  have inMethod : passesOn true (.methodDecl m) = true := by simp [passesOn, setup]
  have hx : .block x ∈ (Phrase.methodDecl m).parts := by simp [parts, body]
  have hs : .stmt st ∈ (Phrase.block x).parts := by simpa [parts] using hst
  refine .part rfl hx ?_
  rw [inMethod]
  exact .part rfl hs .here

theorem canMove_of_movesIn {i : Item} (hi : i ∈ s.items) (h : MovesIn c true (.item i) st) :
    c.mode ≠ .java ∧ s.region.CanMove st := by
  obtain ⟨b', visits, moved⟩ := h
  obtain ⟨hb, mode, call⟩ := isSome_hoisted?.1 moved
  have classes : ∀ d, (Phrase.item i).Contains (.typeDecl d) → s.region.classes d :=
    fun d inside => ⟨i, hi, inside⟩
  have itself : ∀ j, Phrase.item i = .item j → j ∈ s.region.items := by
    rintro j ⟨⟩
    exact hi
  exact ⟨mode, visits.placed classes itself (fun _ => hi) hb, call⟩

/-- A statement that can move does or is in one that does. -/
theorem exists_movesIn (mode : c.mode ≠ .java) (h : s.region.CanMove st) :
    ∃ i ∈ s.items, ∃ st', MovesIn c true (.item i) st' ∧
      (Phrase.stmt st').Contains (.stmt st) := by
  obtain ⟨place, call⟩ := h
  have moved : moves c true (.stmt st) := isSome_hoisted?.2 ⟨rfl, mode, call⟩
  rcases place with hi | ⟨m, x, hm | ⟨d, ⟨i, hi, hd⟩, sketchClass, hm⟩, name, body, hst⟩
  · exact ⟨_, hi, st, ⟨true, .part rfl (.head _) .here, moved⟩, .refl _⟩
  · exact ⟨_, hm, st, ⟨true, .part rfl (.head _) (visits_of_setup name body hst), moved⟩, .refl _⟩
  · have member : .member (.method m) ∈ (Phrase.typeDecl d).parts := by simp [parts, hm]
    have below : Visits c (passesOn true (.member (.method m))) (.methodDecl m) true (.stmt st) :=
      visits_of_setup name body hst
    have down {b : Bool} : Visits c b (.typeDecl d) true (.stmt st) := by
      refine .part rfl member ?_
      rw [show passesOn b (.typeDecl d) = true from sketchClass]
      exact .part rfl (.head _) below
    rcases Visits.of_contains (c := c) hd true with ⟨b', visits⟩ | ⟨b', st', visits, moved', inside⟩
    · exact ⟨i, hi, st, ⟨true, visits.trans down, moved⟩, .refl _⟩
    · exact ⟨i, hi, st', ⟨b', visits, moved'⟩, inside.trans (down (b := true)).contains⟩

theorem contains_of_canMove (hst : s.region.CanMove st) : s.Contains (.stmt st) := by
  obtain ⟨i, hi, st', ⟨b, visits, -⟩, inside⟩ :=
    exists_movesIn (c := ⟨.static, false⟩) (by simp) hst
  exact ⟨i, hi, visits.contains.trans inside⟩

section Parsed

variable {source : Text} (h : Sketch.parse source = .ok s)

include h

theorem colorsSpelled_of_parse (hp : s.Contains p) : ColorsSpelled p := by
  intro text span inside
  obtain ⟨ts, hts, spells⟩ := s.spells_of_parse h
  obtain ⟨us, occurs⟩ := (hp.trans inside).occurs rfl spells
  obtain ⟨t, rfl, rfl, kind⟩ := exists_token_literal occurs.spells.2
  have ht : t ∈ ts.body := occurs.sublist.subset (.head _)
  exact (spelled_of_tokenize hts t ht).hexColor ((Removal.literalKind?_eq kind).1 rfl)

/-- A tree lies in the span of the tree around it. -/
theorem span_le_of_contains {a x : Span} (hp : s.Contains p) (hq : p.Contains q)
    (alone : p.standsAlone) (alone' : q.standsAlone) (ha : p.span? = some a)
    (hx : q.span? = some x) : a.lo ≤ x.lo ∧ x.lo < x.hi ∧ x.hi ≤ a.hi := by
  obtain ⟨ts, hts, spells⟩ := s.spells_of_parse h
  obtain ⟨us, outer⟩ := hp.occurs alone spells
  obtain ⟨vs, inner⟩ := outer.spells.2.occurs_of_contains p (.head _) hq alone'
  have laid := (laidOut_of_tokenize hts).sublist outer.sublist
  have written := inner.spells.2.spanOf? hx
  obtain ⟨⟨t, ht, lo⟩, u, hu, hi⟩ := mem_of_spanOf? written
  have bounds := laid.bounds (outer.spells.2.spanOf? ha)
  have first := bounds t (inner.sublist.subset ht)
  have last := bounds u (inner.sublist.subset hu)
  have lt := (laid.sublist inner.sublist).span_lt written
  omega

end Parsed

/-- One statement ends before the other begins. -/
def Beside (st st' : Stmt) : Prop := st.span.hi ≤ st'.span.lo ∨ st'.span.hi ≤ st.span.lo

theorem pairwise_beside {ts : List Token} {fs : List Finding} {moved : List Stmt}
    (tidy : Tidy ts fs) (replaces : Replaces fs moved)
    (hmoved : ∀ st ∈ moved, (SettingsCall.ofStmt? st).isSome ∧ st.span.lo < st.span.hi) :
    moved.Pairwise Beside := by
  have sub : ((moved.flatMap replacement).map Draft.Request.edit).Sublist (edits fs) :=
    replaces.replaced.map _
  have apart := tidy.apart.sublist sub
  rw [List.pairwise_map, List.pairwise_flatMap] at apart
  refine apart.2.imp_of_mem fun {st st'} hst hst' apart => ?_
  have deleted : ∀ x ∈ moved, .delete x.span ∈ replacement x := by
    intro x hx
    obtain ⟨some, lt⟩ := hmoved x hx
    obtain ⟨call, hcall⟩ := Option.isSome_iff_exists.1 some
    have nonempty : x.span.lo ≠ x.span.hi := Nat.ne_of_lt lt
    simp [replacement, hcall, Draft.replaceSpan, Draft.deleteSpan, nonempty]
  have := apart _ (deleted st hst) _ (deleted st' hst')
  have := (hmoved st hst).2
  have := (hmoved st' hst').2
  simp only [Draft.Request.edit, Edit.Apart] at *
  unfold Beside
  omega

/-- In Java mode no statement moves. In the other modes those statements move whose call is accepted
and which stand at the top level or directly in the body of a method `setup`, if the method is at
the top level or directly in a class that extends the sketch's base class; but what stands inside
such a statement moves with it. Just those are replaced by markers, and the settings are those of
their calls in the order of the markers. -/
theorem moves_just_outermost {source : Text} (h : Sketch.parse source = .ok s) (c : Context) :
    ∃ moved : List Stmt, moved.Nodup ∧
      (∀ st, st ∈ moved ↔ c.mode ≠ .java ∧ s.region.CanMove st ∧
        ∀ st', s.region.CanMove st' → (Phrase.stmt st').Contains (.stmt st) → st' = st) ∧
      (moved.flatMap replacement).Sublist (requests (ofItems c s.items)) ∧
      (requests (ofItems c s.items)).filter isMarker =
        (moved.flatMap replacement).filter isMarker ∧
      ∃ settings, settings? source (ofItems c s.items) = some settings ∧
        Settings.ofCalls? source (moved.filterMap SettingsCall.ofStmt?) = some settings := by
  have each : ∀ q ∈ s.items.map Phrase.item, ∃ moved,
      Replaces (ofPhrase c true q) moved ∧ ∀ st, st ∈ moved ↔ MovesIn c true q st := by
    intro q hq
    obtain ⟨i, hi, rfl⟩ := List.mem_map.1 hq
    exact exists_replaces _ (colorsSpelled_of_parse h ⟨i, hi, .refl _⟩) true
  obtain ⟨moved, replaces, hmoved⟩ := exists_replaces_of_forall each
  have items : ofPhrases c true (s.items.map .item) = ofItems c s.items := ofPhrases_map ..
  rw [items] at replaces
  have of_mem {st : Stmt} (hst : st ∈ moved) : c.mode ≠ .java ∧ s.region.CanMove st := by
    obtain ⟨q, hq, moved⟩ := (hmoved st).1 hst
    obtain ⟨i, hi, rfl⟩ := List.mem_map.1 hq
    exact canMove_of_movesIn hi moved
  have exists_mem {st : Stmt} (mode : c.mode ≠ .java) (hst : s.region.CanMove st) :
      ∃ st' ∈ moved, (Phrase.stmt st').Contains (.stmt st) := by
    obtain ⟨i, hi, st', moved, inside⟩ := exists_movesIn mode hst
    exact ⟨st', (hmoved st').2 ⟨_, List.mem_map_of_mem hi, moved⟩, inside⟩
  have span_lt {st : Stmt} (hst : st ∈ moved) : st.span.lo < st.span.hi :=
    (span_le_of_contains h (contains_of_canMove (of_mem hst).2) (.refl _) rfl rfl rfl rfl).2.1
  obtain ⟨ts, hts, spells⟩ := s.spells_of_parse h
  have laid := laidOut_of_tokenize hts
  have tidy : Tidy ts.body (ofItems c s.items) := tidy_ofItems spells laid
  have beside : moved.Pairwise Beside := by
    refine pairwise_beside tidy replaces fun st hst => ?_
    obtain ⟨-, -, call, hcall, -⟩ := of_mem hst
    exact ⟨by simp [hcall], span_lt hst⟩
  have nodup : moved.Nodup := beside.imp_of_mem fun {st st'} hst _ beside same => by
    have := span_lt hst
    subst same
    unfold Beside at beside
    omega
  -- two statements of the list cannot be one in the other
  have outermost {st st' : Stmt} (hst : st ∈ moved) (hst' : st' ∈ moved)
      (inside : (Phrase.stmt st').Contains (.stmt st)) : st' = st := by
    by_contra differ
    have : Std.Symm Beside := ⟨fun _ _ => Or.symm⟩
    have within :=
      span_le_of_contains h (contains_of_canMove (of_mem hst').2) inside rfl rfl rfl rfl
    have aside := beside.forall hst' hst differ
    unfold Beside at aside
    omega
  refine ⟨moved, nodup, fun st => ⟨fun hst => ?_, ?_⟩, replaces.replaced, replaces.markers, ?_⟩
  · obtain ⟨mode, can⟩ := of_mem hst
    refine ⟨mode, can, fun st' can' inside => ?_⟩
    obtain ⟨st'', hst'', around⟩ := exists_mem mode can'
    obtain rfl := outermost hst hst'' (around.trans inside)
    exact Phrase.stmt.inj (inside.antisymm around)
  · rintro ⟨mode, can, alone⟩
    obtain ⟨st', hst', inside⟩ := exists_mem mode can
    obtain rfl := alone st' (of_mem hst').2 inside
    exact hst'
  · have copies := tidy.copies laid
    refine ⟨_, Settings.ofCalls?_eq_some copies, ?_⟩
    have sub : ∀ call ∈ movedCalls (ofItems c s.items),
        Settings.Copies source call ∧ call.isAccepted := fun call hcall =>
      ⟨copies call (List.mem_filter.1 hcall).1, (List.mem_filter.1 hcall).2⟩
    rw [← replaces.calls, Settings.ofCalls?_eq_some fun call hcall => (sub call hcall).1,
      Settings.ofCalls, List.filter_eq_self.2 fun call hcall => (sub call hcall).2]
    rfl

/-- A size in `setup` moves, one in a branch stays. -/
theorem moves_just_outermost_of_branch :
    let source : Text := "void setup() \x7b size(1, 2); if (a) size(3, 4); \x7d".toList
    let c : Context := ⟨.active, false⟩
    ∃ s, Sketch.parse source = .ok s ∧
      (settings? source (ofItems c s.items)).map Settings.body = some "size(1, 2);" ∧
      ∃ moved : List Stmt, moved.Nodup ∧
      (∀ st, st ∈ moved ↔ c.mode ≠ .java ∧ s.region.CanMove st ∧
        ∀ st', s.region.CanMove st' → (Phrase.stmt st').Contains (.stmt st) → st' = st) ∧
      (moved.flatMap replacement).Sublist (requests (ofItems c s.items)) ∧
      (requests (ofItems c s.items)).filter isMarker =
        (moved.flatMap replacement).filter isMarker ∧
      ∃ settings, settings? source (ofItems c s.items) = some settings ∧
        Settings.ofCalls? source (moved.filterMap SettingsCall.ofStmt?) = some settings := by
  intro source c
  have evaluated : (Sketch.parse source).toOption.any (fun s =>
      (settings? source (ofItems c s.items)).map Settings.body = some "size(1, 2);") = true := by
    decide +kernel
  cases h : Sketch.parse source with
  | error => simp [h, Except.toOption] at evaluated
  | ok s =>
    have body : (settings? source (ofItems c s.items)).map Settings.body = some "size(1, 2);" := by
      simpa [h, Except.toOption] using evaluated
    exact ⟨s, rfl, body, moves_just_outermost h c⟩

/-- The only method of the class that is declared in the argument of the call that is the sketch,
and the only statement of that method. -/
def inArgument? (s : Sketch) : Option (MethodDecl × Stmt) :=
  match s.items with
  | [.stmt ⟨.expr ⟨.call none _ [⟨.create _ _ (some [.type d]), _⟩], _⟩, _⟩] =>
    match d.isSketchClass, d.members with
    | true, [.method m] =>
      match m.body with
      | some ⟨[st], _⟩ => some (m, st)
      | _ => none
    | _, _ => none
  | _ => none

theorem startsWith_of_inArgument? {m : MethodDecl} (h : inArgument? s = some (m, st))
    (name : m.name.name = "setup") : s.region.HasStmt st := by
  unfold inArgument? at h
  split at h
  · rename_i d _ _ _ items
    split at h
    · rename_i sketchClass members
      split at h
      · rename_i m' st' a body
        obtain ⟨rfl, rfl⟩ := Prod.mk.inj (Option.some.inj h)
        refine .inr ⟨_, _, .inr ⟨d, ⟨_, by rw [items]; exact .head _, ?_⟩, sketchClass, ?_⟩, name,
          body, .head _⟩
        · -- item, statement, its kind, the call, its argument, the class body, the class
          iterate 3 refine .part (.head _) ?_
          refine .part (.tail _ (.head _)) ?_
          refine .part (q := .member (.type d)) (by simp [parts, ExprKind.parts]) ?_
          exact .of_mem_parts (.head _)
        · rw [members]
          exact .head _
      · cases h
    · cases h
  · cases h

/-- A size that could move stands inside another statement that moves. It is not replaced. -/
theorem not_replaced_of_inArgument :
    let source : Text :=
      ("smooth(new Object() \x7b class B extends PApplet \x7b " ++
        "void setup() \x7b size(1, 2); \x7d \x7d \x7d);").toList
    let c : Context := ⟨.static, false⟩
    ∃ s st, Sketch.parse source = .ok s ∧ s.region.CanMove st ∧
      .delete st.span ∉ requests (ofItems c s.items) ∧
      (settings? source (ofItems c s.items)).map Settings.hasSize = some false := by
  intro source c
  have evaluated : (Sketch.parse source).toOption.any (fun s => (inArgument? s).any fun (m, st) =>
      m.name.name = "setup" && (SettingsCall.ofStmt? st).any SettingsCall.isAccepted &&
        !(requests (ofItems c s.items)).contains (.delete st.span) &&
          (settings? source (ofItems c s.items)).map Settings.hasSize = some false) = true := by
    decide +kernel
  cases h : Sketch.parse source with
  | error => simp [h, Except.toOption] at evaluated
  | ok s =>
    rw [h] at evaluated
    have evaluated : (inArgument? s).any _ = true := evaluated
    obtain ⟨⟨m, st⟩, found, facts⟩ := (Option.any_eq_true ..).1 evaluated
    simp only [Bool.and_eq_true, decide_eq_true_eq, Bool.not_eq_true', List.contains_eq_mem,
      decide_eq_false_iff_not] at facts
    obtain ⟨⟨⟨name, call⟩, kept⟩, unset⟩ := facts
    obtain ⟨call, hcall, accepted⟩ := (Option.any_eq_true ..).1 call
    exact ⟨s, st, rfl, ⟨startsWith_of_inArgument? found name, call, hcall, accepted⟩, kept, unset⟩

end Finding

end SketchPrep
