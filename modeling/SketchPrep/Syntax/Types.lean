import SketchPrep.Syntax.Grammar

/-!
Names, types, type parameters, modifiers and parameters.
-/

namespace SketchPrep.Syntax

open Reader

variable (g : Grammar)

/-- Pairs of empty brackets. -/
def dims : Reader Nat := do
  let pairs ← manyWhile (fun s => s.isAt "[" && s.isNext "]") do
    let _ ← take
    take
  return pairs.length

def Stream.continuesName (s : Stream) : Bool := s.isAt "." && (s.nth 1).kind = .identifier

def qualifiedName : Reader String := do
  let first ← identifier
  let others ← manyWhile Stream.continuesName do
    let _ ← take
    takeIdent
  return ".".intercalate ((first :: others).map Ident.name)

def typeArgs : Reader (List TypeRef) := do
  let _ ← expect "<"
  if ← eat ">" then return []
  let args ← sepBy "," g.type
  let _ ← expect ">"
  return args

def typeSegment : Reader TypeSegment := do
  let name ← takeIdent
  if (← get).isAt "<" then return ⟨name, some (← typeArgs g)⟩
  return ⟨name, none⟩

def namedType : Reader TypeKind := do
  let first ← typeSegment g
  let others ← manyWhile Stream.continuesName do
    let _ ← take
    typeSegment g
  return .named (first :: others)

/-- A wildcard whose question mark has been taken. -/
def wildcardType : Reader TypeKind := do
  if (← get).isAt "extends" || (← get).isAt "super" then
    let _ ← take
    return .wildcard (some (← g.type))
  return .wildcard none

def typeKind : Reader TypeKind := do
  let s ← get
  if s.current.isPrimitiveType || s.isAt "void" then
    if s.isAt "color" && s.isNext "." then failWith (·.unexpected [.identifier])
    else return .primitive (← takeIdent)
  else if ← eat "?" then wildcardType g
  else if s.isAtKind .identifier then namedType g
  else failWith (·.unexpected [.identifier])

/-- A type without brackets at its end, as it stands after `new`. -/
def elementType : Reader TypeRef := do
  let start := (← get).lo
  let kind ← typeKind g
  return ⟨kind, 0, (← get).spanFrom start⟩

def typeRef : Reader TypeRef := do
  let element ← elementType g
  let n ← dims
  return ⟨element.kind, n, (← get).spanFrom element.span.lo⟩

def typeParam : Reader TypeParam := do
  let name ← identifier
  if ← eat "extends" then return ⟨name, ← sepBy "&" (typeRef g)⟩
  return ⟨name, []⟩

/-- Type parameters in angle brackets, or nothing. -/
def typeParams : Reader (List TypeParam) := do
  if ← eat "<" then
    let params ← sepBy "," (typeParam g)
    let _ ← expect ">"
    return params
  return []

/-- The keywords that are modifiers wherever they stand. -/
def modifierKeywords : List String :=
  ["public", "protected", "private", "static", "abstract", "final", "native", "transient",
    "volatile", "strictfp"]

/-- `synchronized` also begins a statement, and `default` a switch case. -/
def Stream.isAtModifier (s : Stream) : Bool :=
  s.isAtKind .keyword &&
    if s.isAt "synchronized" then !s.isNext "("
    else if s.isAt "default" then !(s.isNext ":" || s.isNext "->")
    else modifierKeywords.contains s.current.text

def Stream.isAtMarker (s : Stream) : Bool := s.isAt "@" && !s.isNext "interface"

def marker : Reader Annotation := do
  let start := (← get).lo
  let _ ← expect "@"
  let name ← qualifiedName
  let args ← if ← eat "(" then closeList g.varInit else pure []
  return ⟨name, args, (← get).spanFrom start⟩

def modifier : Reader Modifier := do
  if (← get).isAtMarker then return .marker (← marker g)
  return .keyword (← takeIdent)

def modifiers : Reader (List Modifier) :=
  manyWhile (fun s => s.isAtMarker || s.isAtModifier) (modifier g)

def param : Reader Param := do
  let ms ← modifiers g
  let type ← typeRef g
  let varargs ← eat "..."
  let name ← identifier
  return ⟨ms, type, varargs, name, ← dims⟩

end SketchPrep.Syntax
