import SketchPrep.Proofs.Finding.Escaping
import SketchPrep.Proofs.Preprocess.Outcome

/-!
A run with and without the substitution of characters. What is inserted is escaped when it is
inserted, what is left of the tabs is escaped at the end, and the two never meet in one character.
Main statements: `renderFrom_substituted`, substituted edits make the escaped text;
`preprocess_inAscii`, the substitution changes nothing but how the program is written.
-/

namespace SketchPrep

open Edit Text

namespace Edit

/-- The edit with its text in ASCII. -/
def escaped : Edit → Edit
  | .insert offset text => .insert offset (Literal.escapeUnicode text)
  | .delete offset length => .delete offset length

theorem insertedAt_map_escaped (es : List Edit) (p : Nat) :
    insertedAt (es.map escaped) p = Literal.escapeUnicode (insertedAt es p) := by
  induction es with
  | nil => rfl
  | cons e es ih =>
    have first : insertedAt [e.escaped] p = Literal.escapeUnicode (insertedAt [e] p) := by
      cases e with
      | insert offset text =>
        by_cases here : offset = p <;> simp [insertedAt, inserted?, escaped, here]
      | delete => rfl
    rw [List.map_cons, insertedAt_cons, first, ih, insertedAt_cons e es,
      Literal.escapeUnicode_append]

theorem deletesAt_map_escaped (es : List Edit) (p : Nat) :
    deletesAt (es.map escaped) p = deletesAt es p := by
  have same : (fun e => deleted? (escaped e)) = deleted? := by
    funext e
    cases e <;> rfl
  rw [deletesAt, deletesAt, List.filterMap_map, Function.comp_def, same]

end Edit

namespace Preprocess

/-! ### The edits -/

variable {d : Draft} {es : List Edit} {pos : Nat} {c : Char}

/-- The substitution of the characters from `pos` on. -/
def substituted (d : Draft) (pos : Nat) (cs : Text) : List Edit :=
  (substitutionRequests d pos cs).map Draft.Request.edit

/-- The substitution of the one character at `pos`. -/
def substitutedChar (d : Draft) (pos : Nat) (c : Char) : List Edit :=
  if CharClass.isAscii c || d.isDeleted pos then [] else charEdits pos c

theorem substituted_cons (d : Draft) (pos : Nat) (c : Char) (cs : Text) :
    substituted d pos (c :: cs) =
      substitutedChar d pos c ++ substituted d (pos + c.utf8Size) cs :=
  map_edit_substitutionRequests d pos c cs

/-- The substitution of later characters does nothing before them. -/
theorem substituted_before {cs : Text} {q : Nat} (h : q < pos) :
    insertedAt (substituted d pos cs) q = [] ∧ deletesAt (substituted d pos cs) q = false := by
  constructor
  · refine insertedAt_eq_nil fun text ht => ?_
    have behind := le_offset_of_mem_substitution ht
    rw [offset_insert] at behind
    omega
  · refine deletesAt_eq_false fun offset n hd => ?_
    have behind := le_offset_of_mem_substitution hd
    rw [offset_delete] at behind
    omega

/-- The substitution of a character does nothing behind it. -/
theorem substitutedChar_behind {q : Nat} (h : pos + c.utf8Size ≤ q) :
    insertedAt (substitutedChar d pos c) q = [] ∧ deletesAt (substitutedChar d pos c) q = false := by
  have hc := c.utf8Size_pos
  unfold substitutedChar
  split
  · exact ⟨rfl, rfl⟩
  · constructor
    · refine insertedAt_eq_nil fun text ht => ?_
      simp only [charEdits, List.mem_cons, reduceCtorEq, Edit.insert.injEq, List.not_mem_nil,
        or_false, false_or] at ht
      omega
    · refine deletesAt_eq_false fun offset n hd => ?_
      simp only [charEdits, List.mem_cons, reduceCtorEq, Edit.delete.injEq, List.not_mem_nil,
        or_false] at hd
      omega

/-- A character that is not deleted is escaped, whether it is substituted or stays. -/
theorem substitutedChar_at (d : Draft) (pos : Nat) (c : Char) :
    insertedAt (substitutedChar d pos c) pos ++
        (if d.isDeleted pos || deletesAt (substitutedChar d pos c) pos then [] else [c]) =
      Literal.escapeUnicode (if d.isDeleted pos then [] else [c]) := by
  have hc := c.utf8Size_pos
  cases gone : d.isDeleted pos with
  | true => simp [substitutedChar, gone, insertedAt]
  | false =>
    cases ascii : CharClass.isAscii c with
    | true =>
      have stays : substitutedChar d pos c = [] := by simp [substitutedChar, ascii]
      rw [stays, if_neg Bool.false_ne_true, Literal.escapeUnicode_singleton,
        Literal.escapeChar_of_isAscii ascii]
      rfl
    | false =>
      have replaced : substitutedChar d pos c = charEdits pos c := by
        simp [substitutedChar, ascii, gone]
      have inserted : insertedAt (charEdits pos c) pos = Literal.escapeChar c := by
        rw [charEdits, insertedAt_cons, insertedAt_insert_self]
        rfl
      have deleted : deletesAt (charEdits pos c) pos = true :=
        deletesAt_iff.2 ⟨pos, c.utf8Size, .head _, Nat.le_refl _, by omega⟩
      rw [replaced, inserted, deleted, if_neg Bool.false_ne_true,
        Literal.escapeUnicode_singleton]
      exact List.append_nil _

/-- Escaped edits and the substitution of what they leave make the escaped text. -/
theorem renderFrom_substituted (wf : d.WellFormed) (hd : d.edits = es.map escaped) (pos : Nat)
    (cs : Text) :
    insertedAt (es.map escaped ++ substituted d pos cs) pos ++
        renderFrom (es.map escaped ++ substituted d pos cs) pos cs =
      Literal.escapeUnicode (insertedAt es pos ++ renderFrom es pos cs) := by
  induction cs generalizing pos with
  | nil => simp [substituted, substitutionRequests, renderFrom, insertedAt_map_escaped]
  | cons c cs ih =>
    have hc := c.utf8Size_pos
    rw [substituted_cons]
    generalize hlater : substituted d (pos + c.utf8Size) cs = later
    have laterBefore : insertedAt later pos = [] ∧ deletesAt later pos = false :=
      hlater ▸ substituted_before (by omega)
    have deleted : deletesAt es pos = d.isDeleted pos := by
      rw [Draft.isDeleted_eq wf, hd, deletesAt_map_escaped]
    have first : insertedAt (es.map escaped ++ (substitutedChar d pos c ++ later)) pos ++
        (if deletesAt (es.map escaped ++ (substitutedChar d pos c ++ later)) pos then []
          else [c]) =
        Literal.escapeUnicode (insertedAt es pos ++ if deletesAt es pos then [] else [c]) := by
      simp only [insertedAt_append, deletesAt_append, insertedAt_map_escaped,
        deletesAt_map_escaped, laterBefore.1, laterBefore.2, List.append_nil, Bool.or_false,
        Literal.escapeUnicode_append, List.append_assoc, deleted, substitutedChar_at]
    -- behind the character its own substitution does not count
    have inserted (q : Nat) (hq : pos + c.utf8Size ≤ q) :
        insertedAt (es.map escaped ++ (substitutedChar d pos c ++ later)) q =
          insertedAt (es.map escaped ++ later) q := by
      simp only [insertedAt_append, (substitutedChar_behind hq).1, List.nil_append]
    have gone (q : Nat) (hq : pos + c.utf8Size ≤ q) :
        deletesAt (es.map escaped ++ (substitutedChar d pos c ++ later)) q =
          deletesAt (es.map escaped ++ later) q := by
      simp only [deletesAt_append, (substitutedChar_behind hq).2, Bool.false_or]
    rw [renderFrom, renderFrom, inserted _ (Nat.le_refl _),
      renderFrom_congr gone fun q hq => inserted q (Nat.le_of_lt hq), List.append_assoc,
      ← List.append_assoc, first, ← hlater, ih, ← Literal.escapeUnicode_append]
    simp only [List.append_assoc]

/-! ### The plan -/

def Plan.escaped (p : Plan) : Plan :=
  ⟨Literal.escapeUnicode p.header, p.body.map Draft.Request.escaped,
    Literal.escapeUnicode p.footer⟩

theorem edit_escaped (q : Draft.Request) : q.escaped.edit = q.edit.escaped := by
  cases q <;> rfl

theorem map_edit_requests_escaped (p : Plan) (size : Nat) :
    (p.escaped.requests size).map Draft.Request.edit =
      ((p.requests size).map Draft.Request.edit).map Edit.escaped := by
  have body : (p.body.map Draft.Request.escaped).map Draft.Request.edit =
      (p.body.map Draft.Request.edit).map Edit.escaped := by
    rw [List.map_map, List.map_map]
    exact List.map_congr_left fun q _ => edit_escaped q
  rw [map_edit_requests, map_edit_requests, List.map_append, List.map_cons]
  simp only [Plan.escaped, body, Literal.escapeUnicode_eq_nil_iff]
  split <;> rfl

variable {o : Options} {source plain escaped : Text} {p : Plan} {d₁ d₂ : Draft}

/-- An escaped plan, with the substitution of characters, makes the escaped text. -/
theorem text_escaped
    (h₁ : carryOut { o with substituteUnicode := false } source p = .ok (d₁, plain))
    (h₂ : carryOut { o with substituteUnicode := true } source p.escaped = .ok (d₂, escaped))
    (r₁ : Recordable source d₁.edits) (r₂ : Recordable source d₂.edits) :
    escaped = Literal.escapeUnicode plain := by
  rw [text_of_carryOut h₁ r₁, text_of_carryOut h₂ r₂]
  obtain ⟨planned₁, -, hplan₁, -, hedits₁, -⟩ := edits_of_carryOut h₁
  obtain ⟨planned₂, hsource, hplan₂, -, hedits₂, -⟩ := edits_of_carryOut h₂
  have edits₁ : d₁.edits = (p.requests source.size).map Draft.Request.edit := by
    rw [hedits₁, hplan₁]
    exact List.append_nil _
  rw [map_edit_requests_escaped] at hplan₂
  have edits₂ : d₂.edits = d₁.edits.map Edit.escaped ++ substituted planned₂ 0 source := by
    rw [hedits₂, hplan₂, ← edits₁, ← hsource]
    rfl
  rw [hedits₂] at r₂
  have wf : planned₂.WellFormed := Draft.wellFormed_of_recordable (hsource ▸ r₂.left)
  rw [edits₂]
  exact renderFrom_substituted wf (hplan₂.trans (by rw [edits₁])) 0 source

/-! ### The runs -/

section Runs

variable (o : Options) (s : Sketch) (t : MessageTable) (date : String) (tabs : List Tab)

theorem findings_escaped :
    findings { o with substituteUnicode := true } s =
      (findings { o with substituteUnicode := false } s).map Finding.escaped :=
  Finding.ofItems_escaped s.mode s.items

theorem structuralIssues_escaped :
    structuralIssues { o with substituteUnicode := true } s =
      structuralIssues { o with substituteUnicode := false } s := by
  rw [structuralIssues, structuralIssues, findings_escaped, Finding.issues_map_escaped]

theorem plan_escaped (source : Text) (tiers : ImportTiers) :
    plan { o with substituteUnicode := true } source s tiers date =
      (plan { o with substituteUnicode := false } source s tiers date).escaped := by
  have sameFooter : footer { o with substituteUnicode := true } source s =
      footer { o with substituteUnicode := false } source s := by
    rw [footer, footer, findings_escaped, Finding.settings_map_escaped,
      Finding.hasMain_map_escaped]
    rfl
  rw [plan, plan, findings_escaped, Finding.requests_map_escaped, footerText, footerText, sameFooter]
  rfl

/-- The second sketch is the first with its program in ASCII. -/
structure InAscii (p q : PreprocessedSketch) : Prop where
  program : q.program = Literal.escapeUnicode p.program
  ascii : ∀ c ∈ q.program, CharClass.isAscii c
  mode : q.mode = p.mode
  className : q.className = p.className
  headerLines : q.headerLines = p.headerLines
  imports : q.imports = p.imports
  width : q.width = p.width
  height : q.height = p.height
  renderer : q.renderer = p.renderer
  hasMain : q.hasMain = p.hasMain

/-- Two runs end in the same fault or in the same issues, or the second program is the first one in
ASCII. -/
def SameInAscii : Except Fault Outcome → Except Fault Outcome → Prop
  | .error e, .error f => e = f
  | .ok (.failure issues), .ok (.failure others) => issues = others
  | .ok (.success p), .ok (.success q) => InAscii p q
  | _, _ => False

theorem result_inAscii {source plain : Text} {tiers : ImportTiers} {es fs : List Edit} :
    InAscii (result { o with substituteUnicode := false } source s tiers date es plain)
      (result { o with substituteUnicode := true } source s tiers date fs
        (Literal.escapeUnicode plain)) := by
  have settings : Finding.settings source (findings { o with substituteUnicode := true } s) =
      Finding.settings source (findings { o with substituteUnicode := false } s) := by
    rw [findings_escaped, Finding.settings_map_escaped]
  refine ⟨rfl, fun c hc => Literal.isAscii_of_mem_escapeUnicode hc, rfl, rfl,
    Literal.count_escapeUnicode _, rfl, ?_, ?_, ?_, ?_⟩
  · exact congrArg Settings.width settings
  · exact congrArg Settings.height settings
  · exact congrArg Settings.renderer settings
  · change Finding.hasMain (findings { o with substituteUnicode := true } s) = _
    rw [findings_escaped, Finding.hasMain_map_escaped]
    rfl

variable {s} in
theorem ofSketch_inAscii (hs : Sketch.parse (Tab.join tabs) = .ok s) :
    SameInAscii
      (ofSketch { o with substituteUnicode := false } t date tabs (Tab.join tabs) s)
      (ofSketch { o with substituteUnicode := true } t date tabs (Tab.join tabs) s) := by
  cases htiers : importTiers o (ImportTiers.discover s.items).1 with
  | error e =>
    have fault (b : Bool) :
        importTiers { o with substituteUnicode := b } (ImportTiers.discover s.items).1 =
          .error e := htiers
    rw [ofSketch_of_invalid (fault false), ofSketch_of_invalid (fault true)]
    exact rfl
  | ok tiers =>
    have read (b : Bool) :
        importTiers { o with substituteUnicode := b } (ImportTiers.discover s.items).1 =
          .ok tiers := htiers
    have copies (b : Bool) := (runsSafely (o := { o with substituteUnicode := b }) hs).copies
    have same := structuralIssues_escaped o s
    by_cases header : HeaderCramped o s
    · have fault (b : Bool) : HeaderCramped { o with substituteUnicode := b } s := header
      rw [ofSketch_of_headerCramped (read false) (fault false),
        ofSketch_of_headerCramped (read true) (fault true)]
      exact rfl
    have room (b : Bool) : ¬HeaderCramped { o with substituteUnicode := b } s := header
    by_cases none : structuralIssues { o with substituteUnicode := false } s = []
    · have cramped_iff : Cramped { o with substituteUnicode := true } s ↔
          Cramped { o with substituteUnicode := false } s := by
        rw [Cramped, Cramped, same]
        rfl
      by_cases cramped : Cramped { o with substituteUnicode := false } s
      · rw [ofSketch_of_cramped (read false) (copies false) (room false) cramped,
          ofSketch_of_cramped (read true) (copies true) (room true) (cramped_iff.2 cramped)]
        exact rfl
      obtain ⟨d₁, plain, h₁, r₁⟩ :=
        exists_carriedOut { o with substituteUnicode := false } hs tiers date
      obtain ⟨d₂, escaped, h₂, r₂⟩ :=
        exists_carriedOut { o with substituteUnicode := true } hs tiers date
      rw [ofSketch_of_carriedOut (read false) (copies false) cramped none h₁,
        ofSketch_of_carriedOut (read true) (copies true) (cramped ∘ cramped_iff.1)
          (same.trans none) h₂]
      rw [plan_escaped] at h₂
      rw [text_escaped h₁ h₂ r₁ r₂]
      exact result_inAscii o s date
    · rw [ofSketch_of_issues (read false) (copies false) (room false) none,
        ofSketch_of_issues (read true) (copies true) (room true) (same ▸ none), same]
      exact rfl

/-- The substitution of characters decides neither whether a run succeeds nor what it tells, and its
program is the other program in ASCII. -/
theorem preprocess_inAscii :
    SameInAscii (preprocess { o with substituteUnicode := false } t date tabs)
      (preprocess { o with substituteUnicode := true } t date tabs) := by
  unfold preprocess
  dsimp only
  split
  · exact rfl
  · rename_i s hs
    exact ofSketch_inAscii o t date tabs hs

end Runs

end Preprocess

end SketchPrep
