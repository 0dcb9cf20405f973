import SketchPrep.Main
import SketchPrep.Proofs.Diagnosis.Placement
import SketchPrep.Proofs.Diagnosis.QuotedCode
import SketchPrep.Proofs.Draft.Reordering
import SketchPrep.Proofs.Edit.Order
import SketchPrep.Proofs.Finding.Escaping
import SketchPrep.Proofs.Finding.Lines
import SketchPrep.Proofs.Literal.Decoding
import SketchPrep.Proofs.Literal.TextBlock
import SketchPrep.Proofs.Preprocess.Escaping
import SketchPrep.Proofs.Preprocess.Footer
import SketchPrep.Proofs.Preprocess.Imports
import SketchPrep.Proofs.Preprocess.Issues
import SketchPrep.Proofs.Preprocess.Lines
import SketchPrep.Proofs.Preprocess.Mapping
import SketchPrep.Proofs.Preprocess.Semicolon
import SketchPrep.Proofs.Sketch.EmptyStatement
import SketchPrep.Proofs.Sketch.Lines
import SketchPrep.Proofs.Syntax.Literals
import SketchPrep.Proofs.Syntax.Outline
import SketchPrep.Proofs.Syntax.Position
import SketchPrep.Proofs.Syntax.Precedence
import SketchPrep.Proofs.Syntax.Totality
import SketchPrep.Proofs.Syntax.TypeReading
import SketchPrep.Proofs.Token.Append
import SketchPrep.Proofs.Token.Gap
import SketchPrep.Proofs.Token.Lexeme
import SketchPrep.Proofs.Token.Numeral
import SketchPrep.Proofs.Token.Partition
