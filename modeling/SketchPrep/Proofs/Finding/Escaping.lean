import Mathlib.Data.List.Basic
import SketchPrep.Proofs.Finding.Descent
import SketchPrep.Proofs.Finding.Removal
import SketchPrep.Proofs.Literal.Escaping
import SketchPrep.Proofs.Settings.Copying

/-!
The walk that writes in ASCII. Main statement: `ofItems_escaped`, it finds what the other walk
finds, with every text that it inserts escaped.
-/

namespace SketchPrep

/-- The request with its text in ASCII. -/
def Draft.Request.escaped : Draft.Request → Draft.Request
  | .insert offset text => .insert offset (Literal.escapeUnicode text)
  | .delete range => .delete range

namespace Finding

open Phrase

/-- The finding with its text in ASCII. -/
def escaped : Finding → Finding
  | .edit q => .edit q.escaped
  | f => f

variable {m : SketchMode} {b : Bool} {p : Phrase} {text : Text} {offset : Nat} {span : Span}
  {fs : List Finding}

/-! ### What the walk writes -/

theorem insert_escaped :
    Context.insert ⟨m, true⟩ offset text = (Context.insert ⟨m, false⟩ offset text).map escaped :=
  rfl

theorem map_escaped_deleteSpan (span : Span) :
    (((Draft.deleteSpan span).map .edit).map escaped : List Finding) =
      (Draft.deleteSpan span).map .edit := by
  unfold Draft.deleteSpan
  split <;> rfl

theorem replace_escaped :
    Context.replace ⟨m, true⟩ span text = (Context.replace ⟨m, false⟩ span text).map escaped := by
  have deleted := map_escaped_deleteSpan span
  simp only [Context.replace, Draft.replaceSpan, List.map_append, deleted]
  rfl

theorem isAscii_marker {call : SettingsCall} (h : call.isAccepted) :
    ∀ c ∈ marker call.name, Text.CharClass.isAscii c := by
  have all : (SettingsCall.names.all fun name => (marker name).all Text.CharClass.isAscii) =
      true := by decide +kernel
  exact List.all_eq_true.1 (List.all_eq_true.1 all _ (name_of_isAccepted h))

/-- The comment that takes a call's place is in ASCII in either walk. -/
theorem ofHoisted_escaped {call : SettingsCall} (h : call.isAccepted) :
    (ofHoisted span call).map escaped = ofHoisted span call := by
  have comment := Literal.escapeUnicode_of_ascii (isAscii_marker h)
  have deleted := map_escaped_deleteSpan span
  simp only [ofHoisted, Draft.replaceSpan, Draft.insertBeforeSpan, Draft.insertBefore,
    List.map_cons, List.map_append, deleted]
  simp [escaped, Draft.Request.escaped, comment]

theorem ofLiteral_escaped {kind : LiteralKind} :
    ofLiteral ⟨m, true⟩ span kind text = (ofLiteral ⟨m, false⟩ span kind text).map escaped := by
  cases kind with
  | float =>
    simp only [ofLiteral]
    split
    · exact insert_escaped
    · rfl
  | hexColor | textBlock => exact replace_escaped
  | _ => rfl

theorem ofConversion_escaped {name : Ident} :
    ofConversion ⟨m, true⟩ name = (ofConversion ⟨m, false⟩ name).map escaped := by
  unfold ofConversion
  split
  · exact replace_escaped
  · rfl

theorem ofVisibility_escaped {decl : MethodDecl} :
    ofVisibility ⟨m, true⟩ b decl = (ofVisibility ⟨m, false⟩ b decl).map escaped := by
  unfold ofVisibility
  split
  · split <;> exact insert_escaped
  · rfl

/-! ### The tree -/

theorem own_escaped (m : SketchMode) (b : Bool) (p : Phrase) :
    own ⟨m, true⟩ b p = (own ⟨m, false⟩ b p).map escaped := by
  cases p with
  | callName id => exact ofConversion_escaped
  | typeKind kind =>
    cases kind with
    | primitive id =>
      simp only [own, ofTypeKind]
      split
      · exact replace_escaped
      · rfl
    | _ => rfl
  | expr e =>
    obtain ⟨kind, span⟩ := e
    cases kind with
    | literal kind text => exact ofLiteral_escaped
    | _ => rfl
  | stmt s =>
    have asked : (ofCandidate ⟨m, false⟩ b s).map escaped = ofCandidate ⟨m, true⟩ b s :=
      List.map_map
    have same : hoisted? ⟨m, true⟩ b s = hoisted? ⟨m, false⟩ b s := rfl
    simp only [own, same, List.map_append, asked]
    congr 1
    split
    · rename_i call found
      exact (ofHoisted_escaped (isAccepted_of_hoisted? found)).symm
    · rfl
  | methodDecl decl =>
    have main (yes : Bool) : ((if yes then [.main] else []).map escaped : List Finding) =
        if yes then [.main] else [] := by
      cases yes <;> rfl
    simp only [own, List.map_append, main, ofVisibility_escaped]
  | member x => cases x <;> rfl
  | item x =>
    cases x with
    | importation decl => exact (map_escaped_deleteSpan decl.span).symm
    | _ => rfl
  | _ => rfl

theorem moves_escaped (m : SketchMode) (b : Bool) (p : Phrase) :
    moves ⟨m, true⟩ b p = moves ⟨m, false⟩ b p := by
  cases p <;> rfl

theorem ofPhrase_escaped (m : SketchMode) (b : Bool) (p : Phrase) :
    ofPhrase ⟨m, true⟩ b p = (ofPhrase ⟨m, false⟩ b p).map escaped := by
  induction p using partsInduction generalizing b with | step p ih =>
  rw [ofPhrase_eq_parts, ofPhrase_eq_parts, own_escaped, moves_escaped, List.map_append]
  congr 1
  split
  · rfl
  · rw [ofPhrases, ofPhrases, List.map_flatMap]
    exact List.flatMap_congr fun q hq => ih q hq (passesOn b p)

/-- Both walks find the same, and the one that writes in ASCII escapes each text it inserts. -/
theorem ofItems_escaped (m : SketchMode) (items : List Item) :
    ofItems ⟨m, true⟩ items = (ofItems ⟨m, false⟩ items).map escaped := by
  rw [ofItems, ofItems, List.map_flatMap]
  exact List.flatMap_congr fun item _ => ofPhrase_escaped m true (.item item)

/-! ### Views -/

theorem requests_map_escaped :
    requests (fs.map escaped) = (requests fs).map Draft.Request.escaped := by
  rw [requests, requests, List.filterMap_map, List.map_filterMap]
  congr 1
  funext f
  cases f <;> rfl

theorem settings_map_escaped {source : Text} :
    settings source (fs.map escaped) = settings source fs := by
  have same : (fun f => call? (escaped f)) = call? := by
    funext f
    cases f <;> rfl
  rw [settings, settings, List.filterMap_map, Function.comp_def, same]

theorem issues_map_escaped : issues (fs.map escaped) = issues fs := by
  have same : (fun f => issue? (escaped f)) = issue? := by
    funext f
    cases f <;> rfl
  rw [issues, issues, List.filterMap_map, Function.comp_def, same]

theorem hasMain_map_escaped : hasMain (fs.map escaped) = hasMain fs := by
  have same : (fun f => isMain (escaped f)) = isMain := by
    funext f
    cases f <;> rfl
  rw [hasMain, hasMain, List.any_map, Function.comp_def, same]

end Finding

end SketchPrep
