import SketchPrep.Syntax.Reader

/-!
The readers that a nested part of a sketch needs. A reader takes them as an argument and turns to
them only after it has taken a token itself, so that each nesting reads a shorter stream;
`Syntax.Sketch` ties the knot.
-/

namespace SketchPrep.Syntax

structure Grammar where
  type : Reader TypeRef
  unary : Reader Expr
  /-- Operators that bind at least as tightly as the number. -/
  binary : Nat → Reader Expr
  conditional : Reader Expr
  expr : Reader Expr
  varInit : Reader Expr
  block : Reader Block
  statement : Reader Stmt
  blockStatement : Reader Stmt
  /-- A member of the class of that name; an anonymous class has no constructors. -/
  member : Option String → Reader Member

/-- The grammar that reads nothing. -/
def Grammar.nothing : Grammar where
  type := Reader.failWith Stream.noViable
  unary := Reader.failWith Stream.noViable
  binary _ := Reader.failWith Stream.noViable
  conditional := Reader.failWith Stream.noViable
  expr := Reader.failWith Stream.noViable
  varInit := Reader.failWith Stream.noViable
  block := Reader.failWith Stream.noViable
  statement := Reader.failWith Stream.noViable
  blockStatement := Reader.failWith Stream.noViable
  member _ := Reader.failWith Stream.noViable

end SketchPrep.Syntax
