import SketchPrep.Diagnosis.Rule

/-!
The rules in the order in which they are asked, and the shapes that some of them look for.
-/

namespace SketchPrep.Rule

namespace Shape

open Pattern

def letters : List CharSet.Part := [range 'a' 'z', range 'A' 'Z']

def word : List CharSet.Part := range '0' '9' :: char '_' :: letters

def angles : List CharSet.Part := [char '<', char '>']

def blanks : Pattern := many (oneOf [.space])

def someBlanks : Pattern := atLeastOne (oneOf [.space])

def line : Pattern := many (noneOf [char '\n'])

/-- Empty type arguments. -/
def emptyGeneric : Pattern := inOrder [spelled "<>", optional (one '\'')]

/-- A name and an equals sign with nothing behind it. -/
def openAssignment : Pattern :=
  inOrder [oneOf (word ++ angles), blanks, one '=', many (oneOf [.space, char '\'', char ';'])]

/-- A name before a semicolon, alone or with a short initializer. -/
def loneName : Pattern :=
  inOrder [oneOf (char '_' :: letters), many (oneOf word), blanks,
    optional (inOrder
      [one '=', many (noneOf [char '\n', char '\\', char 'n', char ';'])]),
    one ';', optional (one '\'')]

/-- Digits run into letters, or follow a name. -/
def digitsInName : Pattern :=
  .either (inOrder [oneOf [range '0' '9'], oneOf (char '_' :: letters ++ angles)])
    (.either
      (inOrder [oneOf [.space], atLeastOne (oneOf [.digit]), oneOf (char '_' :: letters ++ angles)])
      (inOrder [oneOf (word ++ angles), someBlanks, oneOf [range '0' '9']]))

/-- The head of a class up to its brace. -/
def classHead : Pattern :=
  inOrder [.either (spelled "class") (spelled "interface"), blanks, many (oneOf word), someBlanks,
    optional (.either (spelled "extends")
      (.either (spelled "implements") (inOrder [one '<', line, one '>']))),
    blanks, many (oneOf word), blanks, one '\x7b']

/-- The head of a method up to its brace. -/
def methodHead : Pattern :=
  inOrder [oneOf word, blanks, one '(', line, one ')', blanks, one '\x7b']

/-- A parameter before a comma or a parenthesis. -/
def parameter : Pattern :=
  .either (inOrder [oneOf word, blanks, one ','])
    (.either (inOrder [oneOf word, one ')']) (inOrder [one '(', noneOf [char ')']]))

end Shape

def chain : List Rule :=
  [unterminatedLiteral,
    missingBody,
    missingBrace,
    shaped Shape.emptyGeneric.endsText MessageTable.badGeneric,
    missingIdentifier,
    missingToken,
    extraneousToken,
    mismatchedToken,
    shaped Shape.openAssignment.endsText MessageTable.badAssignment,
    shaped Shape.loneName.endsText MessageTable.missingType,
    shaped Shape.digitsInName.occursIn MessageTable.badIdentifier,
    shaped Shape.classHead.occursIn MessageTable.missingName,
    shaped Shape.methodHead.occursIn MessageTable.missingName,
    shaped Shape.parameter.occursIn MessageTable.badParameter,
    unpaired "\"" "\\\"",
    unpaired "'" "\\'",
    unbalanced "\x7b" "\x7d",
    unbalanced "(" ")",
    unbalanced "<" ">",
    fallback]

end SketchPrep.Rule

namespace SketchPrep

/-- The hint of the first rule that recognises the message. -/
def Hint.ofMessage (t : MessageTable) (message : String) : Hint :=
  (Rule.chain.findSome? fun rule => rule t message.toList).getD ⟨message, false⟩

end SketchPrep
