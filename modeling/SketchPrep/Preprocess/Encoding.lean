import SketchPrep.Json.Writer
import SketchPrep.Preprocess

/-!
The outcome of preprocessing as JSON, for tools that map positions themselves. The program is left
out: the edits say all of it.
-/

namespace SketchPrep

def SketchMode.toJson : SketchMode → Json
  | .static => .string "Static"
  | .active => .string "Active"
  | .java => .string "Java"

def ImportStatement.toJson (i : ImportStatement) : Json :=
  .object [
    ("package_name", .string i.package),
    ("member_name", .string i.member),
    ("is_static", .bool i.isStatic),
    ("wildcard", .bool i.wildcard)]

def Edit.toJson : Edit → Json
  | .insert offset text =>
    .object [
      ("kind", .string "insert"),
      ("offset", .ofNat offset),
      ("text", .string (String.ofList text))]
  | .delete offset length =>
    .object [("kind", .string "delete"), ("offset", .ofNat offset), ("len", .ofNat length)]

def Issue.toJson (i : Issue) : Json :=
  .object [
    ("line", .ofNat i.line),
    ("char_offset", .ofNat i.column),
    ("message", .string i.message)]

namespace Preprocess.Outcome

def toJson : Outcome → Json
  | .success s =>
    .object [
      ("status", .string "success"),
      ("mode", s.mode.toJson),
      ("class_name", .string s.className),
      ("header_offset", .ofNat s.headerLines),
      ("imports", .array (s.imports.map ImportStatement.toJson)),
      ("edits", .array (s.edits.map Edit.toJson)),
      ("sketch_width", .ofOption .string s.width),
      ("sketch_height", .ofOption .string s.height),
      ("sketch_renderer", .ofOption .string s.renderer),
      ("found_main", .bool s.hasMain)]
  | .failure issues =>
    .object [("status", .string "failure"), ("issues", .array (issues.map Issue.toJson))]

end Preprocess.Outcome

end SketchPrep
