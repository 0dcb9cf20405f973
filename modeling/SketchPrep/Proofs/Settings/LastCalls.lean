import Mathlib.Data.List.Induction
import SketchPrep.Proofs.Preprocess.Safety
import SketchPrep.Proofs.Syntax.Parts

/-!
What a sequence of calls leaves in the settings. Each call has a place, and an accepted call
overwrites whatever an earlier one has set at its place. Main statement: `ofCalls_lastCalls`, the
settings are those of the last accepted call of each place.
-/

namespace SketchPrep

open Text Token

/-- What calls set, in the order in which `settings()` sets it. -/
inductive Place where
  | size
  | density
  | smooth
  | noSmooth
  deriving DecidableEq, Repr

def places : List Place := [.size, .density, .smooth, .noSmooth]

namespace SettingsCall

/-- What a call sets if it is accepted. -/
def place? (c : SettingsCall) : Option Place :=
  match c.name with
  | "size" | "fullScreen" => some .size
  | "pixelDensity" => some .density
  | "smooth" => some .smooth
  | "noSmooth" => some .noSmooth
  | _ => none

/-- The call as `settings()` makes it, with its arguments as they stand in the source. -/
def written? (source : Text) (c : SettingsCall) : Option String :=
  (c.args.mapM (Settings.argText? source)).map (Settings.call c.name)

/-- As `written?`, for a call that can be copied. -/
def written (source : Text) (c : SettingsCall) : String :=
  Settings.call c.name (c.args.map (Settings.argText source))

/-- The last accepted call that sets something at the place. -/
def last? (p : Place) (calls : List SettingsCall) : Option SettingsCall :=
  (calls.filter fun c => c.isAccepted && c.place? = some p).getLast?

/-- The calls that count. -/
def lastCalls (calls : List SettingsCall) : List SettingsCall :=
  places.filterMap fun p => last? p calls

variable {p q : Place} {c : SettingsCall} {calls : List SettingsCall}

/-- The forms of an accepted call. -/
inductive Form : SettingsCall → Prop
  | size {width height : Expr} {rest : List Expr} (h : rest.length ≤ 2) :
    Form ⟨"size", width :: height :: rest⟩
  | fullScreen {args : List Expr} : Form ⟨"fullScreen", args⟩
  | density {density : Expr} : Form ⟨"pixelDensity", [density]⟩
  | smooth {level : Option Expr} : Form ⟨"smooth", level.toList⟩
  | noSmooth : Form ⟨"noSmooth", []⟩

theorem form_of_isAccepted (h : c.isAccepted) : Form c := by
  obtain ⟨name, args⟩ := c
  unfold isAccepted at h
  split at h
  · rename_i hname
    obtain rfl : name = _ := hname
    match args, h with
    | width :: height :: rest, h =>
      simp only [List.length_cons, Bool.and_eq_true, decide_eq_true_eq] at h
      exact .size (by omega)
  · rename_i hname
    obtain rfl : name = _ := hname
    exact .fullScreen
  · rename_i hname
    obtain rfl : name = _ := hname
    match args, h with
    | [e], _ => exact .density
  · rename_i hname
    obtain rfl : name = _ := hname
    match args, h with
    | [], _ => exact @Form.smooth none
    | [e], _ => exact @Form.smooth (some e)
  · rename_i hname
    obtain rfl : name = _ := hname
    obtain rfl := List.isEmpty_iff.1 h
    exact .noSmooth
  · cases h

theorem last?_append (p : Place) (calls : List SettingsCall) (c : SettingsCall) :
    last? p (calls ++ [c]) =
      if c.isAccepted && c.place? = some p then some c else last? p calls := by
  unfold last?
  split <;> simp_all

theorem of_last?_eq_some (h : last? p calls = some c) :
    c ∈ calls ∧ c.isAccepted ∧ c.place? = some p := by
  simpa using List.mem_of_getLast? h

/-- No place has two calls among those that count. -/
theorem last?_lastCalls (p : Place) (calls : List SettingsCall) :
    last? p (lastCalls calls) = last? p calls := by
  have own (q : Place) : (last? q calls).filter (fun c => c.isAccepted && c.place? = some p) =
      if q = p then last? p calls else none := by
    cases h : last? q calls with
    | none =>
      split
      · rename_i same
        rw [← same, h]
        rfl
      · rfl
    | some c =>
      obtain ⟨-, accepted, place⟩ := of_last?_eq_some h
      simp only [Option.filter_some, accepted, place, Bool.true_and, Option.some.injEq,
        decide_eq_true_eq]
      split
      · rename_i same
        rw [← same, h]
      · rfl
  have listed :
      (lastCalls calls).filter (fun c => c.isAccepted && c.place? = some p) =
        (last? p calls).toList := by
    rw [lastCalls, List.filter_filterMap]
    simp only [own]
    cases p <;> cases last? _ calls <;> rfl
  rw [last?, listed]
  cases last? p calls <;> rfl

end SettingsCall

namespace Settings

open SettingsCall

variable {source : Text} {c : SettingsCall} {calls : List SettingsCall} {p : Place}

theorem ofCalls_append (source : Text) (calls : List SettingsCall) (c : SettingsCall) :
    ofCalls source (calls ++ [c]) =
      if c.isAccepted then (ofCalls source calls).setFrom source c else ofCalls source calls := by
  rw [ofCalls, ofCalls, List.filter_append, List.foldl_append]
  cases accepted : c.isAccepted <;> simp [accepted]

/-- What depends on one place only depends on the last call of that place. -/
theorem view_ofCalls {α : Type} {view : Settings → α} {new : SettingsCall → α}
    (h : ∀ s c, c.isAccepted →
      view (s.setFrom source c) = if c.place? = some p then new c else view s)
    (calls : List SettingsCall) :
    view (ofCalls source calls) = ((last? p calls).map new).getD (view .unset) := by
  induction calls using List.reverseRecOn with
  | nil => rfl
  | append_singleton calls c ih =>
    rw [ofCalls_append, last?_append]
    by_cases accepted : c.isAccepted
    · rw [if_pos accepted, h _ c accepted, ih]
      simp only [accepted, Bool.true_and, decide_eq_true_eq]
      split <;> rfl
    · simp only [accepted, Bool.false_and, Bool.false_eq_true, if_false, ih]

/-! ### Views -/

/-- What is set at the place, and nothing else. -/
def part : Place → Settings → Settings
  | .size, s =>
    { unset with
      hasSize := s.hasSize
      isFullScreen := s.isFullScreen
      width := s.width
      height := s.height
      renderer := s.renderer
      outputFile := s.outputFile
      fullScreenArgs := s.fullScreenArgs }
  | .density, s => { unset with hasDensity := s.hasDensity, density := s.density }
  | .smooth, s => { unset with hasSmooth := s.hasSmooth, smoothLevel := s.smoothLevel }
  | .noSmooth, s => { unset with hasNoSmooth := s.hasNoSmooth }

def isSet : Place → Settings → Bool
  | .size, s => s.hasSize
  | .density, s => s.hasDensity
  | .smooth, s => s.hasSmooth
  | .noSmooth, s => s.hasNoSmooth

/-- The statement of `settings()` for the place. -/
def statementsOf : Place → Settings → List String
  | .size, s =>
    if !s.hasSize then []
    else if s.isFullScreen then [call "fullScreen" s.fullScreenArgs]
    else [call "size" s.sizeArgs]
  | .density, s =>
    if s.hasDensity then s.density.toList.map fun d => call "pixelDensity" [d] else []
  | .smooth, s => if s.hasSmooth then [call "smooth" s.smoothLevel.toList] else []
  | .noSmooth, s => if s.hasNoSmooth then [call "noSmooth" []] else []

theorem eq_of_part {s t : Settings} (h : ∀ p, part p s = part p t) : s = t := by
  have size := h .size
  have density := h .density
  have smooth := h .smooth
  have noSmooth := h .noSmooth
  cases s
  cases t
  simp_all [part]

theorem statements_eq (s : Settings) : s.statements = places.flatMap (statementsOf · s) := by
  simp [statements, places, statementsOf]

theorem isEmpty_eq (s : Settings) : s.isEmpty = !places.any (isSet · s) := by
  simp [isEmpty, places, isSet, Bool.or_assoc]

theorem part_set (s : Settings) (h : c.isAccepted) :
    part p (s.setFrom source c) =
      if c.place? = some p then part p (unset.setFrom source c) else part p s := by
  cases form_of_isAccepted h <;> cases p <;> simp [place?, setFrom, set, part]

theorem isSet_set (s : Settings) (h : c.isAccepted) :
    isSet p (s.setFrom source c) = if c.place? = some p then true else isSet p s := by
  cases form_of_isAccepted h <;> cases p <;> simp [place?, setFrom, set, isSet]

/-- No argument of `size` is lost. -/
theorem sizeArgs_set (s : Settings) {width height : Expr} {rest : List Expr} (h : rest.length ≤ 2) :
    (s.setFrom source ⟨"size", width :: height :: rest⟩).sizeArgs =
      (width :: height :: rest).map (argText source) := by
  match rest, h with
  | [], _ | [_], _ | [_, _], _ => simp [setFrom, set, sizeArgs]

theorem statementsOf_set (s : Settings) (h : c.isAccepted) :
    statementsOf p (s.setFrom source c) =
      if c.place? = some p then [c.written source] else statementsOf p s := by
  cases form_of_isAccepted h with
  | @size width height rest few =>
    have args := @sizeArgs_set source s width height rest few
    cases p with
    | size =>
      have isSize : (s.setFrom source ⟨"size", width :: height :: rest⟩).hasSize ∧
        (s.setFrom source ⟨"size", width :: height :: rest⟩).isFullScreen = false := ⟨rfl, rfl⟩
      simp only [statementsOf, isSize, args]
      rfl
    | _ => simp [place?, statementsOf, setFrom, set]
  | @smooth level =>
    cases level <;> cases p <;> simp [place?, setFrom, set, statementsOf, sizeArgs, written]
  | _ => cases p <;> simp [place?, setFrom, set, statementsOf, sizeArgs, written]

/-! ### Sequences of calls -/

/-- Nothing of a call survives that is not the last one of its place. -/
theorem ofCalls_lastCalls (source : Text) (calls : List SettingsCall) :
    ofCalls source (lastCalls calls) = ofCalls source calls := by
  apply eq_of_part
  intro p
  rw [view_ofCalls fun s _ => part_set s, view_ofCalls fun s _ => part_set s, last?_lastCalls]

theorem statements_ofCalls (source : Text) (calls : List SettingsCall) :
    (ofCalls source calls).statements = (lastCalls calls).map (written source) := by
  have one (p : Place) : statementsOf p (ofCalls source calls) =
      ((last? p calls).map (written source)).toList := by
    rw [view_ofCalls fun s _ => statementsOf_set s]
    cases last? p calls with
    | none => cases p <;> rfl
    | some c => rfl
  rw [statements_eq, lastCalls, List.map_filterMap, List.filterMap_eq_flatMap_toList]
  simp only [one]

theorem isEmpty_ofCalls (source : Text) (calls : List SettingsCall) :
    (ofCalls source calls).isEmpty = (lastCalls calls).isEmpty := by
  have one (p : Place) : isSet p (ofCalls source calls) = (last? p calls).isSome := by
    rw [view_ofCalls fun s _ => isSet_set s]
    cases last? p calls with
    | none => cases p <;> rfl
    | some c => rfl
  rw [isEmpty_eq, Bool.eq_iff_iff]
  simp [one, lastCalls]

theorem intercalate_written_eq_empty :
    " ".intercalate (calls.map (written source)) = "" ↔ calls = [] := by
  cases calls with
  | nil => simp
  | cons c calls =>
    simp [written, call, String.append_assoc]

theorem mapM_written? (h : ∀ c ∈ calls, Copies source c) :
    calls.mapM (written? source) = some (calls.map (written source)) := by
  induction calls with
  | nil => rfl
  | cons c calls ih =>
    obtain ⟨first, rest⟩ := List.forall_mem_cons.1 h
    simp [List.mapM_cons, written?, first.mapM_argText?, ih rest, written]

theorem mem_of_mem_lastCalls (h : c ∈ lastCalls calls) : c ∈ calls := by
  obtain ⟨p, -, last⟩ := List.mem_filterMap.1 h
  exact (of_last?_eq_some last).1

theorem copies_of_contains {s : Sketch} (h : Sketch.parse source = .ok s)
    (hc : ∀ e ∈ c.args, s.Contains (.expr e)) : Copies source c := by
  intro e he
  obtain ⟨ts, hts, spells⟩ := s.spells_of_parse h
  obtain ⟨us, occurs⟩ := (hc e he).occurs rfl spells
  have laid := (laidOut_of_tokenize hts).sublist occurs.sublist
  have edges := laid.onEdges (occurs.spells.2.spanOf? rfl)
  obtain ⟨lo, hi⟩ := edges.isBoundary laid
  exact slice?_isSome lo hi edges.le

/-- A call that is not accepted leaves the settings as they are. -/
theorem eq_of_tryHoist?_eq_false {s next : Settings}
    (h : s.tryHoist? source c = some (next, false)) : next = s := by
  obtain ⟨texts, -, h⟩ := Option.bind_eq_some_iff.1 h
  split at h
  · cases h
  · cases h
    rfl

/-- Whatever calls come, one after the other, with arguments from the source, all can be copied. A
call that is not accepted leaves all settings as they are. In the end the settings are those of the
last accepted call of each place, `settings()` makes just these calls, in the order of the places,
with each argument as its part of the source, and there are settings just if it makes a call. -/
theorem ofCalls_spec {s : Sketch} (h : Sketch.parse source = .ok s)
    (parsed : ∀ c ∈ calls, ∀ e ∈ c.args, s.Contains (.expr e)) :
    (∀ c ∈ calls, Copies source c) ∧
    ∃ settings texts, ofCalls? source calls = some settings ∧
      (∀ c next, settings.tryHoist? source c = some (next, false) →
        next = settings ∧ ofCalls? source (calls ++ [c]) = some settings) ∧
      ofCalls? source (lastCalls calls) = some settings ∧
      (lastCalls calls).mapM (written? source) = some texts ∧
      settings.body = " ".intercalate texts ∧
      (settings.isEmpty = false ↔ settings.body ≠ "") := by
  have copies : ∀ c ∈ calls, Copies source c := fun c hc => copies_of_contains h (parsed c hc)
  have last : ∀ c ∈ lastCalls calls, Copies source c := fun c hc =>
    copies c (mem_of_mem_lastCalls hc)
  have made : ofCalls? source calls = some (ofCalls source calls) := ofCalls?_eq_some copies
  have body : (ofCalls source calls).body =
      " ".intercalate ((lastCalls calls).map (written source)) := by
    rw [Settings.body, statements_ofCalls]
  refine ⟨copies, _, _, made, fun c next rejected => ?_, ?_, mapM_written? last, body, ?_⟩
  · have same := eq_of_tryHoist?_eq_false rejected
    refine ⟨same, ?_⟩
    rw [ofCalls?] at made
    rw [ofCalls?, List.foldlM_append, made]
    simp [rejected, same]
  · rw [ofCalls?_eq_some last, ofCalls_lastCalls]
  · rw [body, isEmpty_ofCalls, Ne, intercalate_written_eq_empty, List.isEmpty_eq_false_iff]

/-- A call that a statement makes has its arguments in the statement. -/
theorem contains_of_ofStmt? {st : Stmt} {e : Expr} (h : ofStmt? st = some c) (he : e ∈ c.args) :
    (Phrase.stmt st).Contains (.expr e) := by
  obtain ⟨kind, span⟩ := st
  unfold ofStmt? at h
  split at h
  · rename_i target id args inner hkind
    split at h
    · obtain rfl := Option.some.inj h
      obtain rfl : kind = .expr ⟨.call target id args, inner⟩ := hkind
      have arg : Phrase.expr e ∈ (Phrase.expr ⟨.call target id args, inner⟩).parts := by
        cases target <;> simp [Phrase.parts, ExprKind.parts, he]
      exact .part (.head _) (.part (.head _) (.of_mem_parts arg))
    · cases h
  · cases h

/-- A size with a renderer, the full screen and a size without renderer overwrite one another. -/
theorem ofCalls_spec_of_overwritten_calls :
    let source : Text :=
      "size(1, 2, P3D); fullScreen(P2D); size(4, 5); smooth(); pixelDensity(2);".toList
    ∃ s calls, Sketch.parse source = .ok s ∧
      (∀ c ∈ calls, ∀ e ∈ c.args, s.Contains (.expr e)) ∧
      (∀ c ∈ calls, Copies source c) ∧
      ∃ settings texts, ofCalls? source calls = some settings ∧ settings.renderer = none ∧
        texts = ["size(4, 5);", "pixelDensity(2);", "smooth();"] ∧
        (∀ c next, settings.tryHoist? source c = some (next, false) →
          next = settings ∧ ofCalls? source (calls ++ [c]) = some settings) ∧
        ofCalls? source (lastCalls calls) = some settings ∧
        (lastCalls calls).mapM (written? source) = some texts ∧
        settings.body = " ".intercalate texts ∧
        (settings.isEmpty = false ↔ settings.body ≠ "") := by
  intro source
  let callsOf (s : Sketch) : List SettingsCall := s.items.filterMap fun i => i.bare?.bind ofStmt?
  have evaluated : (Sketch.parse source).toOption.any (fun s =>
      (ofCalls? source (callsOf s)).any (fun settings => settings.renderer = none) &&
        (lastCalls (callsOf s)).mapM (written? source) =
          some ["size(4, 5);", "pixelDensity(2);", "smooth();"]) = true := by decide +kernel
  cases h : Sketch.parse source with
  | error => simp [h, Except.toOption] at evaluated
  | ok s =>
    simp only [h, Except.toOption, Option.any_some, Bool.and_eq_true, decide_eq_true_eq]
      at evaluated
    obtain ⟨unset, shown⟩ := evaluated
    have parsed : ∀ c ∈ callsOf s, ∀ e ∈ c.args, s.Contains (.expr e) := by
      intro c hc e he
      obtain ⟨i, hi, hcall⟩ := List.mem_filterMap.1 hc
      obtain ⟨st, hst, made⟩ := Option.bind_eq_some_iff.1 hcall
      obtain rfl : i = .stmt st := Item.eq_of_bare? hst
      exact ⟨.stmt st, hi, .part (.head _) (contains_of_ofStmt? made he)⟩
    obtain ⟨copies, settings, texts, made, rejected, last, written, spec⟩ := ofCalls_spec h parsed
    have renderer : settings.renderer = none := by simpa [made] using unset
    have exact : texts = ["size(4, 5);", "pixelDensity(2);", "smooth();"] :=
      Option.some.inj (written.symm.trans shown)
    exact ⟨s, callsOf s, rfl, parsed, copies, settings, texts, made, renderer, exact, rejected,
      last, written, spec⟩

end Settings

end SketchPrep
