import SketchPrep.Proofs.Finding.Gist
import SketchPrep.Proofs.Finding.Moves
import SketchPrep.Proofs.Preprocess.Preservation

/-!
What stands behind the tabs of a sketch. Main statement: `footer_eq_of_alike`, sketches that differ
in spans and in the members of classes have the same footer, if these members add nothing and the
calls that move have the same arguments to the letter.
-/

namespace SketchPrep

open Edit Text

/-! ### The settings -/

namespace Settings

variable {a b : Text} {c d : SettingsCall}

theorem namesRenderer_unspanned (c : SettingsCall) :
    c.unspanned.namesRenderer = c.namesRenderer := by
  obtain ⟨name, _ | ⟨⟨kind, span⟩, args⟩⟩ := c
  · rfl
  · cases kind with
    | literal kind text => cases kind <;> rfl
    | _ => simp [SettingsCall.namesRenderer, SettingsCall.unspanned, Expr.unspanned,
        ExprKind.unspanned]

/-- A call sets what its name and the texts of its arguments tell. -/
theorem set_congr (same : c.unspanned = d.unspanned) (s : Settings) (texts : List String) :
    s.set c texts = s.set d texts := by
  have name : c.name = d.name := congrArg (·.name) same
  have renderer : c.namesRenderer = d.namesRenderer := by
    rw [← namesRenderer_unspanned c, same, namesRenderer_unspanned]
  simp only [set, name, renderer]

/-- The arguments of calls, as they are written. -/
def argTexts (source : Text) (calls : List SettingsCall) : List (List (Option String)) :=
  calls.map fun c => c.args.map (argText? source)

theorem setFrom_congr (same : c.unspanned = d.unspanned)
    (texts : c.args.map (argText? a) = d.args.map (argText? b)) (s : Settings) :
    s.setFrom a c = s.setFrom b d := by
  have copies := congrArg (List.map (Option.getD · "")) texts
  rw [List.map_map, List.map_map] at copies
  rw [setFrom, setFrom, set_congr same]
  exact congrArg (s.set d) copies

theorem foldl_setFrom_congr {cs ds : List SettingsCall}
    (same : cs.map SettingsCall.unspanned = ds.map SettingsCall.unspanned)
    (texts : ∀ x ∈ (argTexts a cs).zip (argTexts b ds), x.1 = x.2) (s : Settings) :
    cs.foldl (setFrom a) s = ds.foldl (setFrom b) s := by
  induction cs generalizing ds s with
  | nil =>
    obtain rfl := List.map_eq_nil_iff.1 same.symm
    rfl
  | cons c cs ih =>
    cases ds with
    | nil => cases same
    | cons d ds =>
      obtain ⟨first, rest⟩ := List.cons.inj same
      simp only [argTexts, List.map_cons, List.zip_cons_cons, List.forall_mem_cons] at texts
      rw [List.foldl_cons, List.foldl_cons, setFrom_congr first texts.1, ih rest texts.2]

end Settings

namespace Preprocess

variable {o : Options} {tabs : List Tab} {s : Sketch} {p : PreprocessedSketch}

/-! ### The footer of a run -/

/-- The text that is inserted last where the tabs end. -/
def footer? (tabs : List Tab) (p : PreprocessedSketch) : Option Text :=
  ((p.edits.filterMap inserted?).filter (·.1 = (Tab.join tabs).size)).getLast?.map Prod.snd

/-- A sketch of the tabs becomes a class of its own. -/
structure ActiveRun (o : Options) (tabs : List Tab) (s : Sketch) (p : PreprocessedSketch) :
    Prop where
  parsed : Sketch.parse (Tab.join tabs) = .ok s
  ran : ∃ t date, preprocess o t date tabs = .ok (.success p)
  active : p.mode = .active

/-- The calls that move to `settings()`. -/
def movedCalls (o : Options) (s : Sketch) : List SettingsCall := Finding.movedCalls (findings o s)

/-- No character of the tabs is substituted at their end. -/
theorem lt_size_of_mem_substitution {d : Draft} {offset : Nat} {cs : Text} {e : Edit}
    (he : e ∈ (substitutionRequests d offset cs).map Draft.Request.edit) :
    e.offset < offset + cs.size := by
  induction cs generalizing offset with
  | nil => simp [substitutionRequests] at he
  | cons c cs ih =>
    have hc := c.utf8Size_pos
    rw [map_edit_substitutionRequests, List.mem_append] at he
    rw [size_cons]
    rcases he with he | he
    · split at he
      · cases he
      · simp only [charEdits, List.mem_cons, List.not_mem_nil, or_false] at he
        rcases he with rfl | rfl <;> simp only [offset_delete, offset_insert] <;> omega
    · have := ih he
      omega

theorem filterMap_inserted?_lastEdits {d : Draft} :
    ((lastEdits o d).filterMap inserted?).filter (·.1 = d.source.size) = [] := by
  refine List.filter_eq_nil_iff.2 fun x hx atEnd => ?_
  obtain ⟨e, he, hx⟩ := List.mem_filterMap.1 hx
  unfold lastEdits at he
  split at he
  · have before := lt_size_of_mem_substitution he
    cases e with
    | insert offset text =>
      obtain rfl := Option.some.inj hx
      simp only [decide_eq_true_eq] at atEnd
      rw [offset_insert] at before
      omega
    | delete => cases hx
  · cases he

theorem Foots.head? {source : Text} (h : Foots o source s) (framed : s.mode ≠ .java) :
    (footerText o source s).head? = some '\n' := by
  refine Finding.head?_prepare ?_ rfl
  rw [Foots, Frame.footer?, if_neg framed] at h
  obtain ⟨i, -, made⟩ := Option.bind_eq_some_iff.1 h
  simp only [← Option.some.inj made, String.toList_append]
  rfl

theorem Foots.ne_nil {source : Text} (h : Foots o source s) (framed : s.mode ≠ .java) :
    footerText o source s ≠ [] := by
  intro nothing
  have first := h.head? framed
  simp [nothing] at first

theorem framed_of_parse {t : MessageTable} {date : String}
    (hs : Sketch.parse (Tab.join tabs) = .ok s)
    (ran : preprocess o t date tabs = .ok (.success p)) :
    p.mode = s.mode ∧ Foots o (Tab.join tabs) s ∧ ∃ header draft, carryOut o (Tab.join tabs)
      ⟨header, Finding.requests (findings o s), footerText o (Tab.join tabs) s⟩ =
        .ok (draft, p.program) ∧ p.edits = draft.edits := by
  obtain ⟨s', header, draft, hs', mode, foots, framed⟩ := framed_of_success ran
  obtain rfl := Except.ok.inj (hs'.symm.trans hs)
  exact ⟨mode, foots, header, draft, framed⟩

theorem ActiveRun.mode (h : ActiveRun o tabs s p) : s.mode = .active := by
  obtain ⟨hs, ⟨t, date, ran⟩, active⟩ := h
  rw [← (framed_of_parse hs ran).1, active]

/-- The footer of a run is what the settings and the sketch's own `main` tell. -/
theorem footer?_eq (h : ActiveRun o tabs s p) :
    footer? tabs p = some (footerText o (Tab.join tabs) s) := by
  have framed : s.mode ≠ .java := by rw [h.mode]; decide
  obtain ⟨hs, ⟨t, date, ran⟩, -⟩ := h
  obtain ⟨-, foots, header, draft, carried, hedits⟩ := framed_of_parse hs ran
  have written := foots.ne_nil framed
  obtain ⟨planned, hsource, hplan, -, hdraft, -, -⟩ := edits_of_carryOut carried
  have last := @filterMap_inserted?_lastEdits o planned
  rw [hsource] at last
  rw [footer?, hedits, hdraft, List.filterMap_append, List.filter_append, last, List.append_nil,
    hplan, Plan.requests, if_neg (by simpa using written)]
  simp [Draft.insertBefore, Draft.Request.edit, inserted?]

theorem footerText_eq {source : Text} (active : s.mode = .active) :
    footerText o source s = Finding.Context.prepare ⟨.active, o.substituteUnicode⟩
      ((Frame.footer? o .active ((movedCalls o s).foldl (Settings.setFrom source) .unset)
        (Finding.hasMain (findings o s))).getD "").toList := by
  rw [footerText, footer, active]
  rfl

theorem footer?_ne {tabs₁ tabs₂ : List Tab} {s₁ s₂ : Sketch} {p₁ p₂ : PreprocessedSketch}
    (plain : o.substituteUnicode = false) (run₁ : ActiveRun o tabs₁ s₁ p₁)
    (run₂ : ActiveRun o tabs₂ s₂ p₂)
    (h : (Sketch.parse (Tab.join tabs₁)).toOption.map (footer o (Tab.join tabs₁)) ≠
      (Sketch.parse (Tab.join tabs₂)).toOption.map (footer o (Tab.join tabs₂))) :
    footer? tabs₁ p₁ ≠ footer? tabs₂ p₂ := by
  rw [footer?_eq run₁, footer?_eq run₂]
  intro same
  simp only [footerText, Finding.Context.prepare, plain, Bool.false_eq_true, if_false,
    Option.some.injEq, String.toList_inj] at same
  rw [run₁.parsed, run₂.parsed] at h
  exact h (congrArg some same)

theorem exists_activeRun {check : Sketch → Bool} (valid : ImportsValid o)
    (room : 3 * o.tabSize < stringLimit)
    (h : (Sketch.parse (Tab.join tabs)).toOption.any fun s =>
      decide (structuralIssues o s = []) && decide (s.mode = .active) && check s) :
    ∃ s p, ActiveRun o tabs s p ∧ check s := by
  cases parsed : Sketch.parse (Tab.join tabs) with
  | error e => simp [parsed, Except.toOption] at h
  | ok s =>
    simp only [parsed, Except.toOption, Option.any_some, Bool.and_eq_true, decide_eq_true_eq] at h
    obtain ⟨tiers, p, -, ran, -⟩ :=
      exists_success valid parsed (not_cramped room s) h.1.1 .standard ""
    exact ⟨s, p, ⟨parsed, ⟨_, _, ran⟩, (framed_of_parse parsed ran).1.trans h.1.2⟩, h.2⟩

/-- The members of the class if the sketch is `void setup() { smooth((1)); }` and a class `A` that
extends `PApplet`. -/
def nestedMembers? (s : Sketch) : Option (List Member) :=
  match s.items with
  | [.method ⟨[], [], some ⟨.primitive ⟨"void", _⟩, 0, _⟩, ⟨"setup", _⟩, [], [],
      some ⟨[⟨.expr ⟨.call none ⟨"smooth", _⟩ [⟨.paren ⟨.literal .int "1", _⟩, _⟩], _⟩, _⟩], _⟩, _⟩,
     .type ⟨[], .classType, ⟨"A", _⟩, [], [⟨.named [⟨⟨"PApplet", _⟩, none⟩], 0, _⟩], [], [],
      members, _⟩] => some members
  | _ => none

theorem alike_of_nestedMembers? {allowed : TypeDecl → Prop} {s₁ s₂ : Sketch} {ms ns : List Member}
    (h₁ : nestedMembers? s₁ = some ms) (h₂ : nestedMembers? s₂ = some ns)
    (left : ∀ d, d.members = ms → allowed d) (right : ∀ d, d.members = ns → allowed d) :
    List.Forall₂ (Item.Alike allowed) s₁.items s₂.items := by
  unfold nestedMembers? at h₁ h₂
  split at h₁
  · rename_i first
    split at h₂
    · rename_i second
      rw [first, second]
      obtain rfl := Option.some.inj h₁
      obtain rfl := Option.some.inj h₂
      refine .cons (.spans ?_) (.cons (.members ?_ (left _ rfl) (right _ rfl)) .nil)
      · simp [Item.unspanned, MethodDecl.unspanned, TypeRef.unspanned, TypeKind.unspanned,
          Ident.unspanned, Block.unspanned, Stmt.unspanned, StmtKind.unspanned, Expr.unspanned,
          ExprKind.unspanned]
      · simp [TypeDecl.withoutMembers, TypeDecl.unspanned, TypeRef.unspanned, TypeKind.unspanned,
          TypeSegment.unspanned, Ident.unspanned]
    · cases h₂
  · cases h₁

/-- The members are an empty method `draw`. -/
def isDraw : List Member → Bool
  | [.method ⟨[], [], some ⟨.primitive _, _, _⟩, ⟨"draw", _⟩, [], [], some ⟨[], _⟩, _⟩] => true
  | _ => false

theorem not_contains_typeDecl {p : Phrase} (other : ∀ d, p ≠ .typeDecl d)
    (parts : ∀ q ∈ p.parts, ∀ d, ¬q.Contains (.typeDecl d)) (d : TypeDecl) :
    ¬p.Contains (.typeDecl d) := by
  intro inside
  cases inside with
  | refl => exact other d rfl
  | part hq later => exact parts _ hq d later

theorem membersAddNothing_of_draw {d : TypeDecl} (h : isDraw d.members) : d.MembersAddNothing := by
  unfold isDraw at h
  split at h
  · rename_i members
    refine TypeDecl.membersAddNothing_of_methods ?_ ?_
    · rw [members, List.forall_mem_singleton]
      refine not_contains_typeDecl (by simp) (List.forall_mem_singleton.2 ?_)
      refine not_contains_typeDecl (by simp) (List.forall_mem_cons.2 ⟨?_, ?_⟩)
      · refine not_contains_typeDecl (by simp) (List.forall_mem_singleton.2 ?_)
        exact not_contains_typeDecl (by simp) (by simp [Phrase.parts])
      · refine List.forall_mem_singleton.2 ?_
        exact not_contains_typeDecl (by simp) (by simp [Phrase.parts])
    · rw [members]
      intro m hm
      obtain rfl := Member.method.inj (List.mem_singleton.1 hm)
      exact ⟨by simp, by simp [Finding.declaresMain]⟩
  · cases h

/-- Two sketches that become classes of their own have the same footer if their items are the same
up to spans and the members of classes, the members that may differ add nothing, and the arguments
of the calls that move are written alike. -/
theorem footer_eq_of_alike {tabs₁ tabs₂ : List Tab} {s₁ s₂ : Sketch} {p₁ p₂ : PreprocessedSketch}
    (run₁ : ActiveRun o tabs₁ s₁ p₁) (run₂ : ActiveRun o tabs₂ s₂ p₂)
    (alike : List.Forall₂ (Item.Alike TypeDecl.MembersAddNothing) s₁.items s₂.items)
    (texts : ∀ x ∈ (Settings.argTexts (Tab.join tabs₁) (movedCalls o s₁)).zip
      (Settings.argTexts (Tab.join tabs₂) (movedCalls o s₂)), x.1 = x.2) :
    ∃ footer, footer? tabs₁ p₁ = some footer ∧ footer? tabs₂ p₂ = some footer := by
  have sameGist : Finding.gist (findings o s₁) = Finding.gist (findings o s₂) := by
    rw [findings, findings, run₁.mode, run₂.mode]
    exact Finding.gist_ofItems alike
  have sameMain : Finding.hasMain (findings o s₁) = Finding.hasMain (findings o s₂) := by
    rw [← Finding.hasMain_of_gist, sameGist, Finding.hasMain_of_gist]
  have sameCalls : (movedCalls o s₁).map SettingsCall.unspanned =
      (movedCalls o s₂).map SettingsCall.unspanned := by
    rw [movedCalls, movedCalls, ← Finding.calls_of_gist, sameGist, Finding.calls_of_gist]
  refine ⟨_, footer?_eq run₁, ?_⟩
  rw [footer?_eq run₂, footerText_eq run₁.mode, footerText_eq run₂.mode, sameMain,
    Settings.foldl_setFrom_congr sameCalls texts]

/-- A method `draw` in a class shows nowhere in the footer. -/
theorem footer_eq_of_nested_draw :
    let plain : List Tab :=
      [⟨"a", "void setup() { smooth((1)); } class A extends PApplet { }".toList⟩]
    let withDraw : List Tab :=
      [⟨"a", "void setup() { smooth((1)); }\nclass A extends PApplet { void draw() { } }".toList⟩]
    ∃ s₁ p₁ s₂ p₂, ActiveRun .standard plain s₁ p₁ ∧ ActiveRun .standard withDraw s₂ p₂ ∧
      List.Forall₂ (Item.Alike TypeDecl.MembersAddNothing) s₁.items s₂.items ∧
      (∀ x ∈ (Settings.argTexts (Tab.join plain) (movedCalls .standard s₁)).zip
        (Settings.argTexts (Tab.join withDraw) (movedCalls .standard s₂)), x.1 = x.2) ∧
      ∃ footer, footer? plain p₁ = some footer ∧ footer? withDraw p₂ = some footer := by
  intro plain withDraw
  obtain ⟨s₁, p₁, run₁, h₁⟩ := @exists_activeRun _ plain
    (fun s => (nestedMembers? s).any List.isEmpty &&
      decide (Settings.argTexts (Tab.join plain) (movedCalls .standard s) = [[some "(1)"]]))
    importsValid_standard (by decide) (by decide +kernel)
  obtain ⟨s₂, p₂, run₂, h₂⟩ := @exists_activeRun _ withDraw
    (fun s => (nestedMembers? s).any isDraw &&
      decide (Settings.argTexts (Tab.join withDraw) (movedCalls .standard s) = [[some "(1)"]]))
    importsValid_standard (by decide) (by decide +kernel)
  simp only [Bool.and_eq_true, decide_eq_true_eq, Option.any_eq_true, List.isEmpty_iff] at h₁ h₂
  obtain ⟨⟨_, shape₁, rfl⟩, texts₁⟩ := h₁
  obtain ⟨⟨ms, shape₂, draws⟩, texts₂⟩ := h₂
  have alike : List.Forall₂ (Item.Alike TypeDecl.MembersAddNothing) s₁.items s₂.items := by
    refine alike_of_nestedMembers? shape₁ shape₂ (fun d none => ?_) fun d same => ?_
    · exact TypeDecl.membersAddNothing_of_methods (by simp [none]) (by simp [none])
    · exact membersAddNothing_of_draw (same ▸ draws)
  have texts : ∀ x ∈ (Settings.argTexts (Tab.join plain) (movedCalls .standard s₁)).zip
      (Settings.argTexts (Tab.join withDraw) (movedCalls .standard s₂)), x.1 = x.2 := by
    rw [texts₁, texts₂]
    decide
  exact ⟨s₁, p₁, s₂, p₂, run₁, run₂, alike, texts, footer_eq_of_alike run₁ run₂ alike texts⟩

/-- A class in a sketch can have a `main`, and arguments are copied with their blanks. -/
theorem footer_ne_of_nested_main :
    let plain : List Tab :=
      [⟨"a", "void setup() { smooth((1)); } class A extends PApplet { }".toList⟩]
    let withMain : List Tab := [⟨"a",
      "void setup() { smooth((1)); } class A extends PApplet { static void main() { } }".toList⟩]
    let spaced : List Tab :=
      [⟨"a", "void setup() { smooth(( 1 )); } class A extends PApplet { }".toList⟩]
    ∃ s₁ p₁ s₂ p₂ s₃ p₃, ActiveRun .standard plain s₁ p₁ ∧ ActiveRun .standard withMain s₂ p₂ ∧
      ActiveRun .standard spaced s₃ p₃ ∧
      List.Forall₂ (Item.Alike fun _ => True) s₁.items s₂.items ∧
      footer? plain p₁ ≠ footer? withMain p₂ ∧
      List.Forall₂ (Item.Alike fun _ => True) s₁.items s₃.items ∧
      footer? plain p₁ ≠ footer? spaced p₃ := by
  intro plain withMain spaced
  obtain ⟨s₁, p₁, run₁, h₁⟩ := @exists_activeRun _ plain (fun s => (nestedMembers? s).isSome)
    importsValid_standard (by decide) (by decide +kernel)
  obtain ⟨s₂, p₂, run₂, h₂⟩ := @exists_activeRun _ withMain (fun s => (nestedMembers? s).isSome)
    importsValid_standard (by decide) (by decide +kernel)
  obtain ⟨s₃, p₃, run₃, h₃⟩ := @exists_activeRun _ spaced (fun s => (nestedMembers? s).isSome)
    importsValid_standard (by decide) (by decide +kernel)
  obtain ⟨ms₁, h₁⟩ := Option.isSome_iff_exists.1 h₁
  obtain ⟨ms₂, h₂⟩ := Option.isSome_iff_exists.1 h₂
  obtain ⟨ms₃, h₃⟩ := Option.isSome_iff_exists.1 h₃
  exact ⟨s₁, p₁, s₂, p₂, s₃, p₃, run₁, run₂, run₃,
    alike_of_nestedMembers? h₁ h₂ (fun _ _ => trivial) fun _ _ => trivial,
    footer?_ne rfl run₁ run₂ (by decide +kernel),
    alike_of_nestedMembers? h₁ h₃ (fun _ _ => trivial) fun _ _ => trivial,
    footer?_ne rfl run₁ run₃ (by decide +kernel)⟩

end Preprocess

end SketchPrep
