import SketchPrep.Proofs.Syntax.Statement
import SketchPrep.Syntax.Sketch

/-!
The readers of class members and whole sketches. Main statements: `derives_of_parse` and
`spells_of_parse`, the tree of a sketch is spelled by the tokens of its source, all of them.
-/

namespace SketchPrep.Syntax

open Phrase Reader

variable {g : Grammar} (hg : g.Sound)

include hg

/-- What may stand for the body of a method is a block, or nothing up to a semicolon. -/
theorem read_methodBody {s t : Stream} {hasThrows : Bool} {body : Option Block}
    (h : methodBody g hasThrows s = .ok (body, t)) :
    (∃ b, body = some b ∧ s.Read [.block b] t) ∨
      (body = none ∧ ∃ dropped, s.Read (exprAfter "default" dropped ++ [.word ";"]) t) := by
  simp only [methodBody, get_bind, eat_bind, bind_eq_ok, ite_run, ite_eq_ok, reduceIte,
    Bool.false_eq_true, pure_eq_ok, failWith_eq_ok, and_false, or_false] at h
  obtain ⟨-, b, _, hb, rfl, rfl⟩ | ⟨-, ⟨hsemi, rfl, rfl⟩ |
    ⟨-, hw, e, _, he, _, _, hclose, rfl, rfl⟩⟩ := h
  · exact .inl ⟨b, rfl, reads_block hg _ _ _ hb⟩
  · exact .inr ⟨rfl, none, Stream.read_word hsemi⟩
  · exact .inr ⟨rfl, some e, (Stream.read_word hw).append
      ((reads_varInit hg _ _ _ he).append (read_expect hclose))⟩

/-- A method whose parts through its name have been read. -/
theorem read_methodRest {origin s t : Stream} {ms : List Modifier} {params : List TypeParam}
    {returnType : Option TypeRef} {id : Ident} {d : MethodDecl}
    (hs : origin.Read (Phrase.modifiers ms ++ Phrase.typeParams params ++
      returnType.toList.map .type ++ [.name id]) s)
    (h : methodRest g origin.lo ms params returnType id s = .ok (d, t)) :
    origin.Read [.methodDecl d] t := by
  simp only [methodRest, get_bind, bind_eq_ok, pure_eq_ok] at h
  obtain ⟨ps, _, hps, n, _, hn, exceptions, _, hexceptions, body, _, hbody, rfl, rfl⟩ := h
  have front := hs.append ((reads_parenList (reads_param hg) _ _ _ hps).append
    ((reads_dims _ _ _ hn).append (reads_typeClause hg _ _ _ _ hexceptions)))
  obtain ⟨b, rfl, read⟩ | ⟨rfl, dropped, read⟩ := read_methodBody hg hbody
  · have parts := front.append read
    exact Stream.Read.rule .method (by simpa using parts) trivial (by simp [span?])
  · have parts := front.append read
    refine Stream.Read.rule (@Production.methodWithoutBody _ _ _ _ _ n _ dropped _) ?_ trivial
      (by simp [span?])
    simpa using parts

theorem read_initializer {origin s t : Stream} {isStatic : Bool} {m : Member}
    (hs : origin.Read (perhaps isStatic "static") s) (h : initializer g isStatic s = .ok (m, t)) :
    origin.Read [.member m] t := by
  simp only [initializer, bind_eq_ok, pure_eq_ok] at h
  obtain ⟨b, _, hb, rfl, rfl⟩ := h
  exact (hs.append (reads_block hg _ _ _ hb)).rule .initializer trivial (by simp [span?])

/-- A constructor, method or field whose modifiers have been read. -/
theorem read_typedMember {origin s t : Stream} {className : Option String} {ms : List Modifier}
    {m : Member} (hs : origin.Read (Phrase.modifiers ms) s)
    (h : typedMember g className origin.lo ms s = .ok (m, t)) : origin.Read [.member m] t := by
  simp only [typedMember, get_bind, takeIdent_bind, bind_eq_ok, ite_run, ite_eq_ok,
    pure_eq_ok] at h
  obtain ⟨params, u, hparams, h⟩ := h
  have front := hs.append (reads_typeParams hg _ _ _ hparams)
  obtain ⟨hname, d, _, hd, rfl, rfl⟩ | ⟨-, type, _, htype, id, _, hid, h⟩ := h
  · simp only [Bool.and_eq_true] at hname
    have parts := front.append (Stream.read_name hname.1.1)
    exact (@read_methodRest _ hg origin _ _ ms params none _ d (by simpa using parts) hd).rule
      .constructor trivial (by simp [span?])
  · have type' := reads_typeRef hg _ _ _ htype
    have id' := reads_identifier _ _ _ hid
    obtain ⟨-, d, _, hd, rfl, rfl⟩ | ⟨-, d, _, hd, rfl, rfl⟩ := h
    · have parts := front.append (type'.append id')
      exact (@read_methodRest _ hg origin _ _ ms params (some type) id d
        (by simpa using parts) hd).rule .methodMember trivial (by simp [span?])
    · exact (read_varDeclRest hg (front.append type') id' hd).rule .fieldMember trivial
        (by simp [span?])

theorem reads_member (className : Option String) :
    Reads (member g className) fun m => [.member m] := by
  intro s m t h
  simp only [member, get_bind, take_bind, bind_eq_ok, ite_run, ite_eq_ok, pure_eq_ok] at h
  obtain ⟨_, u, hbegin, h⟩ := h
  obtain ⟨rfl, hlo, nothing⟩ := read_beginDecision hbegin
  obtain ⟨hsemi, rfl, rfl⟩ | ⟨-, ⟨-, d, _, hd, rfl, rfl⟩ | ⟨-, ⟨-, h⟩ | ⟨-, ⟨hstatic, h⟩ |
    ⟨-, ms, v, hms, h⟩⟩⟩⟩ := h
  · exact nothing.append ((Stream.read_word hsemi).rule .emptyMember trivial
      (by simp [span?, Stream.spanFrom_advance (Stream.not_atEnd_of_isAt hsemi)]))
  · exact nothing.append ((reads_importDecl _ _ _ hd).rule .importMember trivial (by simp [span?]))
  · exact @read_initializer _ hg s _ _ false _ nothing h
  · simp only [Bool.and_eq_true] at hstatic
    exact @read_initializer _ hg s _ _ true _ (nothing.append (Stream.read_word hstatic.1)) h
  · have front := nothing.append (reads_modifiers hg _ _ _ hms)
    obtain ⟨-, d, _, hd, rfl, rfl⟩ | ⟨-, h⟩ := h
    · exact (read_typeDecl hg front hd).rule .typeMember trivial (by simp [span?])
    · exact read_typedMember hg front h

theorem reads_method : Reads (method g) fun d => [.methodDecl d] := by
  intro s d t h
  simp only [method, get_bind, bind_eq_ok] at h
  obtain ⟨ms, _, hms, params, _, hparams, type, _, htype, id, _, hid, h⟩ := h
  have parts := (reads_modifiers hg _ _ _ hms).append ((reads_typeParams hg _ _ _ hparams).append
    ((reads_typeRef hg _ _ _ htype).append (reads_identifier _ _ _ hid)))
  exact @read_methodRest _ hg s _ _ ms params (some type) id d (by simpa using parts) h

theorem reads_item : Reads (item g) fun i => [.item i] := by
  intro s i t h
  simp only [item, get_bind, bind_eq_ok, ite_run, ite_eq_ok, pure_eq_ok] at h
  obtain ⟨_, u, hbegin, h⟩ := h
  obtain ⟨rfl, hlo, nothing⟩ := read_beginDecision hbegin
  obtain ⟨-, d, _, hd, rfl, rfl⟩ | ⟨-, _, v, hstarts, h⟩ := h
  · exact nothing.append ((reads_importDecl _ _ _ hd).rule_of_part .importItem trivial rfl)
  rw [foresee_eq_ok hstarts] at h
  obtain ⟨-, ms, _, hms, d, _, hd, rfl, rfl⟩ | ⟨-, _, v, hstarts, h⟩ := h
  · have front := nothing.append (reads_modifiers hg _ _ _ hms)
    exact (read_typeDecl hg front hd).rule_of_part .typeItem trivial rfl
  rw [foresee_eq_ok hstarts] at h
  obtain ⟨-, d, _, hd, rfl, rfl⟩ | ⟨-, a, _, ha, rfl, rfl⟩ := h
  · exact nothing.append ((reads_method hg _ _ _ hd).rule_of_part .methodItem trivial rfl)
  · exact nothing.append ((reads_blockStatement hg _ _ _ ha).rule_of_part .stmtItem trivial rfl)

omit hg in
theorem sound_grammarBelow (n : Nat) : (grammarBelow n).Sound := by
  induction n with
  | zero => exact Grammar.sound_nothing
  | succ n ih =>
    exact {
      type := reads_typeRef ih
      unary := reads_unary ih
      binary := reads_binary ih
      climbs _ _ _ _ h := (read_binary ih h).2
      conditional := reads_conditional ih
      expr := reads_expr ih
      varInit := reads_varInit ih
      block := reads_block ih
      statement := reads_statement ih
      blockStatement := reads_blockStatement ih
      member := reads_member ih }

/-- A sketch is read to the end of its stream. -/
theorem read_sketch {s t : Stream} {length : Nat} {a : Sketch}
    (h : sketch g length s = .ok (a, t)) : t.atEnd ∧
      s.Read (a.package.toList.map .packageDecl ++ a.items.map .item) t := by
  simp only [sketch, bind_eq_ok, pure_eq_ok] at h
  obtain ⟨package, u, hpackage, items, _, hitems, rfl, rfl⟩ := h
  have body := reads_manyWhile (reads_item hg) _ _ _ hitems
  constructor
  · have stops := manyWhile_stops
      (fun s a t ha => (reads_item hg s a t ha).left_lt (by simp)) hitems
    simpa using stops
  · cases package with
    | none =>
      rw [eq_of_packageDecl_none hpackage] at body
      exact body
    | some d => exact (read_packageDecl hpackage).append body

end SketchPrep.Syntax

namespace SketchPrep.Sketch

open Syntax

/-- What a sketch is written with. -/
def phrases (s : Sketch) : List Phrase :=
  s.package.toList.map .packageDecl ++ s.items.map .item

/-- The tokens of the source, all of them, spell the sketch, and operators are grouped in it by how
they bind. -/
theorem derives_of_parse {source : Text} {s : Sketch} (h : parse source = .ok s) :
    ∃ ts, Token.tokenize source = .ok ts ∧ Phrase.Derives s.phrases ts.body := by
  unfold parse at h
  split at h
  · cases h
  · rename_i ts hts
    refine ⟨ts, hts, ?_⟩
    split at h
    · cases h
    · rename_i a t ha
      obtain rfl := Except.ok.inj h
      obtain ⟨hend, body, took, derives⟩ := read_sketch (sound_grammarBelow _) ha
      have ahead := took.ahead
      rw [Stream.atEnd_iff.1 hend, List.append_nil] at ahead
      rw [show ts.body = body from ahead]
      exact derives

/-- The tokens of the source, all of them, spell the sketch. -/
theorem spells_of_parse {source : Text} {s : Sketch} (h : parse source = .ok s) :
    ∃ ts, Token.tokenize source = .ok ts ∧ Phrase.Spells s.phrases ts.body := by
  obtain ⟨ts, hts, derives⟩ := derives_of_parse h
  exact ⟨ts, hts, derives.spells⟩

end SketchPrep.Sketch
