import Mathlib.Data.List.Forall2
import SketchPrep.Proofs.Diagnosis.Chain
import SketchPrep.Proofs.Finding.Descent
import SketchPrep.Proofs.Preprocess.Outcome

/-!
What is said about a sketch that can be read but is not well built. Main statement:
`exists_issues`, each problem is reported in its turn, in the words of the table if they are plain.
-/

namespace SketchPrep

namespace Finding

variable {c : Context} {b : Bool} {i : StructuralIssue}

/-- The walk takes offence at nothing but imports inside of classes. -/
theorem exists_import_of_mem_own {p : Phrase} (h : .issue i ∈ own c b p) :
    ∃ d, p = .member (.importation d) ∧ i = ⟨d.span.lo, MessageTable.badImport⟩ := by
  have silent {qs : List Draft.Request} : .issue i ∉ qs.map Finding.edit := by simp
  cases p with
  | member m =>
    cases m with
    | importation d => exact ⟨d, rfl, Finding.issue.inj (List.mem_singleton.1 h)⟩
    | _ => cases h
  | callName id =>
    simp only [own, ofConversion] at h
    split at h
    · exact absurd h silent
    · cases h
  | typeKind k =>
    cases k with
    | primitive id =>
      simp only [own, ofTypeKind] at h
      split at h
      · exact absurd h silent
      · cases h
    | _ => cases h
  | expr e =>
    obtain ⟨kind, span⟩ := e
    cases kind with
    | literal kind text =>
      simp only [own] at h
      unfold ofLiteral at h
      split at h
      · split at h
        · exact absurd h silent
        · cases h
      · exact absurd h silent
      · exact absurd h silent
      · cases h
    | _ => cases h
  | stmt st =>
    rcases List.mem_append.1 h with h | h
    · simp [ofCandidate] at h
    · split at h
      · exact absurd h silent
      · cases h
  | methodDecl m =>
    rcases List.mem_append.1 h with h | h
    · unfold ofVisibility at h
      split at h
      · split at h
        · exact absurd h silent
        · exact absurd h silent
      · cases h
    · split at h
      · cases List.mem_singleton.1 h
      · cases h
  | item x =>
    cases x with
    | importation d => exact absurd h silent
    | _ => cases h
  | _ => cases h

theorem key_of_mem_issues {items : List Item} (h : i ∈ issues (ofItems c items)) :
    i.key = MessageTable.badImport := by
  obtain ⟨f, hf, hi⟩ := List.mem_filterMap.1 h
  cases f with
  | issue j =>
    obtain rfl := Option.some.inj hi
    obtain ⟨item, -, found⟩ := List.mem_flatMap.1 hf
    have inside : .issue j ∈ ofPhrase c true (.item item) := found
    obtain ⟨b', q, -, own⟩ := mem_ofPhrase inside
    obtain ⟨d, -, rfl⟩ := exists_import_of_mem_own own
    rfl
  | _ => cases hi

end Finding

namespace Issue

/-- What is said in plain words is shown as it is, where it arose. -/
theorem diagnose_of_isPlain {message : String} (h : Rule.isPlain message.toList)
    (t : MessageTable) (line column : Nat) (source : Option Text) :
    diagnose t message line column source = ⟨line, column, message⟩ := by
  have stays : locate false line column source = (line, column) := by
    cases source with
    | none => rfl
    | some text => rfl
  simp only [diagnose, Hint.ofMessage_of_isPlain h, stays]

end Issue

namespace Preprocess

variable {o : Options} {tabs : List Tab} {s : Sketch} {i : StructuralIssue}

theorem key_of_mem_structuralIssues (h : i ∈ structuralIssues o s) :
    i.key = MessageTable.badImport ∨ i.key = MessageTable.badMixedMode := by
  rcases List.mem_append.1 h with h | h
  · rcases List.mem_append.1 h with h | h
    · obtain ⟨st, -, rfl⟩ := Option.map_eq_some_iff.1 (Option.mem_toList.1 h)
      exact .inr rfl
    · obtain ⟨⟨d, r⟩, -, hi⟩ := List.mem_filterMap.1 h
      simp only at hi
      split at hi
      · cases hi
      · exact .inl (Option.some.inj hi ▸ rfl)
  · exact .inl (Finding.key_of_mem_issues h)

/-- The standard table words each problem plainly. -/
theorem isPlain_standard (h : i ∈ structuralIssues o s) :
    Rule.isPlain (MessageTable.standard.hint i.key).toList := by
  rcases key_of_mem_structuralIssues h with key | key
  · rw [key]
    decide +kernel
  · rw [key]
    decide +kernel

/-- A problem is shown as the hint that the rules make of its words, and just in its words and where
it is if these are plain. -/
def Shows (t : MessageTable) (tabs : List Tab) (i : StructuralIssue) (issue : Issue) : Prop :=
  ∃ line column, Tab.lineColumn? tabs i.offset = some (line, column) ∧
    issue = Issue.diagnose t (t.hint i.key) line column (some (Tab.join tabs)) ∧
    (Rule.isPlain (t.hint i.key).toList → issue = ⟨line, column, t.hint i.key⟩)

theorem shows_structuralIssue (hs : Sketch.parse (Tab.join tabs) = .ok s) (t : MessageTable)
    (h : i ∈ structuralIssues o s) : Shows t tabs i (structuralIssue t tabs i) := by
  obtain ⟨⟨line, column⟩, place⟩ := Option.isSome_iff_exists.1 ((runsSafely hs).issues i h)
  have made : structuralIssue t tabs i =
      Issue.diagnose t (t.hint i.key) line column (some (Tab.join tabs)) := by
    rw [structuralIssue, place]
    rfl
  refine ⟨line, column, place, made, fun plain => ?_⟩
  rw [made, Issue.diagnose_of_isPlain plain]

/-- Every problem in the structure of a sketch is reported, in the order in which they were found,
whatever the table, if only there is room for the header, which is written before. -/
theorem exists_issues (valid : ImportsValid o) (hs : Sketch.parse (Tab.join tabs) = .ok s)
    (ill : structuralIssues o s ≠ []) (t : MessageTable) (date : String) :
    (HeaderCramped o s → preprocess o t date tabs = .error .noRoom) ∧
    (¬HeaderCramped o s → ∃ issues, preprocess o t date tabs = .ok (.failure issues) ∧
      List.Forall₂ (Shows t tabs) (structuralIssues o s) issues) ∧
    ∀ i ∈ structuralIssues o s, Rule.isPlain (MessageTable.standard.hint i.key).toList := by
  refine ⟨fun cramped => preprocess_of_cramped valid hs (.inl cramped), fun room => ?_,
    fun i hi => isPlain_standard hi⟩
  refine ⟨_, preprocess_of_issues valid hs room ill t date, ?_⟩
  rw [List.forall₂_map_right_iff, List.forall₂_same]
  exact fun i hi => shows_structuralIssue hs t hi

theorem exists_parsed {found : List StructuralIssue}
    (h : (Sketch.parse (Tab.join tabs)).toOption.any fun s =>
      decide (structuralIssues o s = found)) :
    ∃ s, Sketch.parse (Tab.join tabs) = .ok s ∧ structuralIssues o s = found := by
  cases hs : Sketch.parse (Tab.join tabs) with
  | error e => simp [hs, Except.toOption] at h
  | ok s => exact ⟨s, rfl, by simpa [hs, Except.toOption] using h⟩

/-- A statement beside a method and an import in a class, in the words of two tables. -/
theorem exists_issues_of_mixed_modes :
    let tabs : List Tab := [⟨"a", "void draw() { }\nbackground(0); class A { import b.C; }".toList⟩]
    ∃ t s, MessageTable.parse?
        "\x7b\"editor.status.bad.import\": \"Imports go first\"\x7d".toList = some t ∧
      Sketch.parse (Tab.join tabs) = .ok s ∧
      structuralIssues .standard s =
        [⟨16, MessageTable.badMixedMode⟩, ⟨41, MessageTable.badImport⟩] ∧
      preprocess .standard t "" tabs = .ok (.failure
        [⟨2, 0, "Syntax Error - You may be mixing active and static modes."⟩,
          ⟨2, 25, "Syntax Error - Imports go first"⟩]) := by
  intro tabs
  let t : MessageTable := MessageTable.standard.override
    [("editor.status.bad.import", "Imports go first")]
  have table : MessageTable.parse?
      "\x7b\"editor.status.bad.import\": \"Imports go first\"\x7d".toList = some t := by
    decide +kernel
  obtain ⟨s, hs, found⟩ := @exists_parsed .standard tabs
    [⟨16, MessageTable.badMixedMode⟩, ⟨41, MessageTable.badImport⟩] (by decide +kernel)
  have ill : structuralIssues .standard s ≠ [] := by simp [found]
  have room : ¬HeaderCramped .standard s := fun header => not_cramped (by decide) s (.inl header)
  obtain ⟨-, reported, -⟩ := exists_issues importsValid_standard hs ill t ""
  obtain ⟨issues, ran, shown⟩ := reported room
  rw [found] at shown
  cases shown with
  | cons first rest =>
    cases rest with
    | cons second rest =>
      cases rest
      obtain ⟨line₁, column₁, place₁, -, same₁⟩ := first
      obtain ⟨line₂, column₂, place₂, -, same₂⟩ := second
      have at₁ : Tab.lineColumn? tabs 16 = some (2, 0) := by decide +kernel
      have at₂ : Tab.lineColumn? tabs 41 = some (2, 25) := by decide +kernel
      obtain ⟨rfl, rfl⟩ := Prod.mk.inj (Option.some.inj (at₁.symm.trans place₁))
      obtain ⟨rfl, rfl⟩ := Prod.mk.inj (Option.some.inj (at₂.symm.trans place₂))
      have words₁ : t.hint MessageTable.badMixedMode =
          "Syntax Error - You may be mixing active and static modes." := by decide +kernel
      have words₂ : t.hint MessageTable.badImport = "Syntax Error - Imports go first" := by
        decide +kernel
      rw [same₁ (words₁ ▸ by decide +kernel), same₂ (words₂ ▸ by decide +kernel), words₁,
        words₂] at ran
      exact ⟨t, s, table, hs, found, ran⟩

/-- A single quote in the words of a table is taken for the start of a literal. -/
theorem hint_ne_of_apostrophe :
    let tabs : List Tab := [⟨"a", "void draw() { }\nbackground(0);".toList⟩]
    ∃ t s, MessageTable.parse?
        "\x7b\"editor.status.bad.mixed_mode\": \"Don't mix modes.\"\x7d".toList = some t ∧
      Sketch.parse (Tab.join tabs) = .ok s ∧
      structuralIssues .standard s = [⟨16, MessageTable.badMixedMode⟩] ∧
      t.hint MessageTable.badMixedMode = "Syntax Error - Don't mix modes." ∧
      Tab.lineColumn? tabs 16 = some (2, 0) ∧
      preprocess .standard t "" tabs =
        .ok (.failure [⟨2, 0, "Syntax Error - Missing '''?"⟩]) := by
  intro tabs
  let t : MessageTable := MessageTable.standard.override
    [("editor.status.bad.mixed_mode", "Don't mix modes.")]
  have table : MessageTable.parse?
      "\x7b\"editor.status.bad.mixed_mode\": \"Don't mix modes.\"\x7d".toList = some t := by
    decide +kernel
  obtain ⟨s, hs, found⟩ := @exists_parsed .standard tabs
    [⟨16, MessageTable.badMixedMode⟩] (by decide +kernel)
  have room : ¬HeaderCramped .standard s := fun header => not_cramped (by decide) s (.inl header)
  have ran := preprocess_of_issues importsValid_standard hs room (by simp [found]) t ""
  have shown : structuralIssue t tabs ⟨16, MessageTable.badMixedMode⟩ =
      ⟨2, 0, "Syntax Error - Missing '''?"⟩ := by decide +kernel
  rw [found, List.map_singleton, shown] at ran
  exact ⟨t, s, table, hs, found, by decide +kernel, by decide +kernel, ran⟩

end Preprocess

end SketchPrep
