import SketchPrep.Finding

/-!
Calls whose arguments can be copied. Main statement: `ofCalls?_eq_some`, such calls leave settings,
and these are set by the accepted ones alone.
-/

namespace SketchPrep

namespace Settings

variable {source : Text} {c : SettingsCall} {calls : List SettingsCall}

/-- The arguments of the call can be copied. -/
def Copies (source : Text) (c : SettingsCall) : Prop :=
  ∀ e ∈ c.args, (source.slice? e.span.lo e.span.hi).isSome

/-- As `argText?`, for an argument that can be copied. -/
def argText (source : Text) (e : Expr) : String := (argText? source e).getD ""

/-- The settings after an accepted call. -/
def setFrom (source : Text) (s : Settings) (c : SettingsCall) : Settings :=
  s.set c (c.args.map (argText source))

/-- As `ofCalls?`, for calls whose arguments can be copied. -/
def ofCalls (source : Text) (calls : List SettingsCall) : Settings :=
  (calls.filter SettingsCall.isAccepted).foldl (setFrom source) unset

theorem Copies.mapM_argText? (h : Copies source c) :
    c.args.mapM (argText? source) = some (c.args.map (argText source)) := by
  obtain ⟨name, args⟩ := c
  unfold Copies at h
  dsimp only at h ⊢
  induction args with
  | nil => rfl
  | cons e es ih =>
    obtain ⟨first, rest⟩ := List.forall_mem_cons.1 h
    obtain ⟨text, htext⟩ := Option.isSome_iff_exists.1 first
    simp [List.mapM_cons, ih rest, argText, argText?, htext]

/-- A call that is not accepted changes nothing. -/
theorem Copies.tryHoist? (h : Copies source c) (s : Settings) :
    s.tryHoist? source c =
      some (if c.isAccepted then (s.setFrom source c, true) else (s, false)) := by
  rw [Settings.tryHoist?, h.mapM_argText?]
  rfl

theorem ofCalls?_eq_some (h : ∀ c ∈ calls, Copies source c) :
    ofCalls? source calls = some (ofCalls source calls) := by
  rw [ofCalls?, ofCalls]
  generalize unset = s
  induction calls generalizing s with
  | nil => rfl
  | cons c calls ih =>
    obtain ⟨first, rest⟩ := List.forall_mem_cons.1 h
    rw [List.foldlM_cons, first.tryHoist?]
    cases accepted : c.isAccepted with
    | true => simpa [accepted] using ih rest (s.setFrom source c)
    | false => simpa [accepted] using ih rest s

end Settings

/-- As `settings?`, for findings whose calls can be copied. -/
def Finding.settings (source : Text) (fs : List Finding) : Settings :=
  Settings.ofCalls source (fs.filterMap call?)

end SketchPrep
