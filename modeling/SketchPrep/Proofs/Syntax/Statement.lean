import SketchPrep.Proofs.Syntax.Declaration
import SketchPrep.Syntax.Statement

/-!
The readers of blocks and statements.
-/

namespace SketchPrep.Syntax

open Phrase Reader

variable {g : Grammar} (hg : g.Sound)

include hg

theorem reads_block : Reads (block g) fun b => [.block b] := by
  intro s b t h
  simp only [block, get_bind, bind_eq_ok, pure_eq_ok] at h
  obtain ⟨_, _, hopen, stmts, _, hstmts, _, _, hclose, rfl, rfl⟩ := h
  exact ((read_expect hopen).append ((reads_manyWhile hg.blockStatement _ _ _ hstmts).append
    (read_expect hclose))).rule .block trivial (by simp [span?])

theorem reads_parenExpr : Reads (parenExpr g) fun e => [.word "(", .expr e, .word ")"] := by
  intro s e t h
  simp only [parenExpr, bind_eq_ok, pure_eq_ok] at h
  obtain ⟨_, _, hopen, e, _, he, _, _, hclose, rfl, rfl⟩ := h
  exact (read_expect hopen).append ((hg.expr _ _ _ he).append (read_expect hclose))

theorem reads_expressionStatement : Reads (expressionStatement g) fun k => [.stmtKind k] := by
  intro s k t h
  simp only [expressionStatement, bind_eq_ok, pure_eq_ok] at h
  obtain ⟨e, _, he, _, _, hclose, rfl, rfl⟩ := h
  exact ((reads_expr hg _ _ _ he).append (read_expect hclose)).rule .exprStmt trivial
    (by simp [span?])

theorem reads_exprUntilSemicolon :
    Reads (exprUntilSemicolon? g) fun e => exprOrNothing e ++ [.word ";"] := by
  intro s e t h
  simp only [exprUntilSemicolon?, get_bind, bind_eq_ok, map_eq_ok, ite_run, ite_eq_ok,
    pure_eq_ok] at h
  obtain ⟨-, _, _, ⟨rfl, rfl⟩, _, _, hclose, rfl, rfl⟩ |
    ⟨-, _, _, ⟨e, he, rfl⟩, _, _, hclose, rfl, rfl⟩ := h
  · exact read_expect hclose
  · exact (reads_expr hg _ _ _ he).append (read_expect hclose)

omit hg in
theorem reads_labelUntilSemicolon :
    Reads labelUntilSemicolon? fun id => id.toList.map .name ++ [.word ";"] := by
  intro s id t h
  simp only [labelUntilSemicolon?, get_bind, bind_eq_ok, map_eq_ok, takeIdent_eq_ok, ite_run,
    ite_eq_ok, pure_eq_ok] at h
  obtain ⟨hid, _, _, ⟨_, ⟨rfl, rfl⟩, rfl⟩, _, _, hclose, rfl, rfl⟩ |
    ⟨-, _, _, ⟨rfl, rfl⟩, _, _, hclose, rfl, rfl⟩ := h
  · exact (Stream.read_name hid).append (read_expect hclose)
  · exact read_expect hclose

/-! ### Statements that begin with a keyword -/

theorem reads_ifStatement : Reads (ifStatement g) fun k => [.stmtKind k] := by
  intro s k t h
  simp only [ifStatement, eat_bind, bind_eq_ok, map_eq_ok, ite_eq_ok, reduceIte,
    Bool.false_eq_true, pure_eq_ok] at h
  obtain ⟨_, _, hw, cond, _, hcond, yes, _, hyes, h⟩ := h
  have front := (read_expect hw).append ((reads_parenExpr hg _ _ _ hcond).append
    (hg.statement _ _ _ hyes))
  obtain ⟨helse, _, _, ⟨no, hno, rfl⟩, rfl, rfl⟩ | ⟨-, _, _, ⟨rfl, rfl⟩, rfl, rfl⟩ := h
  · have parts := front.append ((Stream.read_word helse).append (hg.statement _ _ _ hno))
    exact Stream.Read.rule (@Production.ifElse cond yes (some no)) parts trivial (by simp [span?])
  · exact Stream.Read.rule .ifElse front trivial (by simp [span?])

theorem reads_whileStatement : Reads (whileStatement g) fun k => [.stmtKind k] := by
  intro s k t h
  simp only [whileStatement, bind_eq_ok, pure_eq_ok] at h
  obtain ⟨_, _, hw, cond, _, hcond, body, _, hbody, rfl, rfl⟩ := h
  exact ((read_expect hw).append ((reads_parenExpr hg _ _ _ hcond).append
    (hg.statement _ _ _ hbody))).rule .whileDo trivial (by simp [span?])

theorem reads_doStatement : Reads (doStatement g) fun k => [.stmtKind k] := by
  intro s k t h
  simp only [doStatement, bind_eq_ok, pure_eq_ok] at h
  obtain ⟨_, _, hw, body, _, hbody, _, _, hwhile, cond, _, hcond, _, _, hclose, rfl, rfl⟩ := h
  exact ((read_expect hw).append ((hg.statement _ _ _ hbody).append ((read_expect hwhile).append
    ((reads_parenExpr hg _ _ _ hcond).append (read_expect hclose))))).rule .doWhile trivial
      (by simp [span?])

theorem reads_bareExpr : Reads (bareExpr g) fun s => [.inHead s] := by
  intro s a t h
  simp only [bareExpr, bind_eq_ok, pure_eq_ok] at h
  obtain ⟨e, _, he, rfl, rfl⟩ := h
  have read := reads_expr hg _ _ _ he
  exact read.rule .bareExpr trivial fun _ hspan => read.span hspan

theorem read_forRest {s t : Stream} {init : List Stmt} {k : StmtKind}
    (h : forRest g init s = .ok (k, t)) : ∃ cond update body, k = .forLoop init cond update body ∧
      s.Read (exprOrNothing cond ++ [.word ";"] ++ separated "," (update.map .expr) ++
        [.word ")", .stmt body]) t := by
  simp only [forRest, bind_eq_ok, pure_eq_ok] at h
  obtain ⟨cond, _, hcond, update, _, hupdate, body, _, hbody, rfl, rfl⟩ := h
  have parts := (reads_exprUntilSemicolon hg _ _ _ hcond).append
    ((reads_closeList (reads_expr hg) _ _ _ hupdate).append (hg.statement _ _ _ hbody))
  exact ⟨cond, update, body, rfl, by simpa using parts⟩

theorem read_forVariable {origin s t : Stream} {k : StmtKind}
    (hs : origin.Read [.word "for", .word "("] s) (h : forVariable g s = .ok (k, t)) :
    origin.Read [.stmtKind k] t := by
  simp only [forVariable, get_bind, eat_bind, bind_eq_ok, ite_eq_ok, reduceIte,
    Bool.false_eq_true, pure_eq_ok] at h
  obtain ⟨ms, _, hms, type, u, htype, id, v, hid, h⟩ := h
  have ms' := reads_modifiers hg _ _ _ hms
  have type' := reads_typeRef hg _ _ _ htype
  have name := reads_identifier _ _ _ hid
  obtain ⟨hcolon, iterable, _, hiterable, _, _, hclose, body, _, hbody, rfl, rfl⟩ |
    ⟨-, decl, w, hdecl, h⟩ := h
  · have parts := hs.append (ms'.append (type'.append (name.append ((Stream.read_word hcolon).append
      ((reads_expr hg _ _ _ hiterable).append ((read_expect hclose).append
        (hg.statement _ _ _ hbody)))))))
    exact Stream.Read.rule .forEach (by simpa using parts) trivial (by simp [span?])
  · obtain ⟨cond, update, body, rfl, rest⟩ := read_forRest hg h
    have decl' := read_plainVarDecl hg ms' type' name hdecl
    have parts := hs.append (decl'.append rest)
    exact Stream.Read.rule .forVariable (by simpa using parts) trivial (by simp [span?])

theorem reads_forStatement : Reads (forStatement g) fun k => [.stmtKind k] := by
  intro s k t h
  simp only [forStatement, get_bind, bind_eq_ok, ite_run, ite_eq_ok, pure_eq_ok] at h
  obtain ⟨_, _, hw, _, u, hopen, _, _, hstarts, h⟩ := h
  have front := (read_expect hw).append (read_expect hopen)
  rw [foresee_eq_ok hstarts] at h
  obtain ⟨-, h⟩ | ⟨-, h⟩ := h
  · exact read_forVariable hg front h
  · have whole {init : List Stmt} {v : Stream} (hinit : u.Read (separated "," (init.map .inHead)) v)
        (h : ∃ a w, expect ";" v = .ok (a, w) ∧ forRest g init w = .ok (k, t)) :
        s.Read [.stmtKind k] t := by
      obtain ⟨_, w, hsemi, h⟩ := h
      obtain ⟨cond, update, body, rfl, rest⟩ := read_forRest hg h
      have parts := front.append (hinit.append ((read_expect hsemi).append rest))
      exact Stream.Read.rule .forLoop (by simpa using parts) trivial (by simp [span?])
    obtain ⟨-, _, _, ⟨rfl, rfl⟩, h⟩ | ⟨-, init, v, hinit, h⟩ := h
    · exact whole (.nil _) h
    · exact whole (reads_sepBy (reads_bareExpr hg) _ _ _ hinit) h

theorem reads_returnStatement : Reads (returnStatement g) fun k => [.stmtKind k] := by
  intro s k t h
  simp only [returnStatement, bind_eq_ok, pure_eq_ok] at h
  obtain ⟨_, _, hw, e, _, he, rfl, rfl⟩ := h
  exact ((read_expect hw).append (reads_exprUntilSemicolon hg _ _ _ he)).rule .returns trivial
    (by simp [span?])

theorem reads_throwStatement : Reads (throwStatement g) fun k => [.stmtKind k] := by
  intro s k t h
  simp only [throwStatement, bind_eq_ok, pure_eq_ok] at h
  obtain ⟨_, _, hw, e, _, he, _, _, hclose, rfl, rfl⟩ := h
  exact ((read_expect hw).append ((reads_expr hg _ _ _ he).append (read_expect hclose))).rule
    .throws trivial (by simp [span?])

theorem reads_resource : Reads (resource g) fun s => [.inHead s] := by
  intro s a t h
  simp only [resource, get_bind, bind_eq_ok, ite_run, ite_eq_ok, pure_eq_ok] at h
  obtain ⟨_, u, hstarts, h⟩ := h
  rw [foresee_eq_ok hstarts] at h
  obtain ⟨-, ms, _, hms, type, _, htype, id, _, hid, _, _, heq, init, _, hinit, rfl, rfl⟩ |
    ⟨-, h⟩ := h
  · have parts := (reads_modifiers hg _ _ _ hms).append ((reads_typeRef hg _ _ _ htype).append
      ((reads_identifier _ _ _ hid).append ((read_expect heq).append (reads_expr hg _ _ _ hinit))))
    exact parts.rule .resource trivial (by simp [span?])
  · exact reads_bareExpr hg _ _ _ h

theorem reads_catchClause : Reads (catchClause g) fun c => [.catchClause c] := by
  intro s c t h
  simp only [catchClause, bind_eq_ok, pure_eq_ok] at h
  obtain ⟨_, _, hw, _, _, hopen, ms, _, hms, ts, _, hts, id, _, hid, _, _, hclose, body, _, hbody,
    rfl, rfl⟩ := h
  have parts := (read_expect hw).append ((read_expect hopen).append
    ((reads_modifiers hg _ _ _ hms).append ((reads_sepBy (reads_typeRef hg) _ _ _ hts).append
      ((reads_identifier _ _ _ hid).append ((read_expect hclose).append
        (reads_block hg _ _ _ hbody))))))
  exact Stream.Read.rule .catchClause (by simpa [types] using parts) trivial (by simp [span?])

theorem reads_tryStatement : Reads (tryStatement g) fun k => [.stmtKind k] := by
  intro s k t h
  simp only [tryStatement, resources, eat_bind, bind_eq_ok, map_eq_ok, ite_run, ite_eq_ok,
    reduceIte, Bool.false_eq_true, pure_eq_ok, failWith_eq_ok, and_false, false_or] at h
  obtain ⟨_, u, hw, rs, v, hresources, body, _, hbody, catches, w, hcatches, h⟩ := h
  have whole {finalizer : Option Block} (hblocks : v.Read (tryBlocks body catches finalizer) t) :
      s.Read [.stmtKind (.tryCatch rs body catches finalizer)] t := by
    obtain ⟨hopen, _, _, hrs, _, _, hclose, rfl, rfl⟩ | ⟨-, rfl, rfl⟩ := hresources
    · obtain ⟨semicolon, -, list⟩ := read_sepEndBy (reads_resource hg) hrs
      have parts := (read_expect hw).append ((Stream.read_word hopen).append
        (list.append ((read_expect hclose).append hblocks)))
      refine Stream.Read.rule (@Production.tryWith _ semicolon _ _ _) ?_ trivial (by simp [span?])
      simpa using parts
    · exact ((read_expect hw).append hblocks).rule .tryCatch trivial (by simp [span?])
  have front := (reads_block hg _ _ _ hbody).append
    (reads_manyWhile (reads_catchClause hg) _ _ _ hcatches)
  obtain ⟨hfinally, _, _, ⟨b, hb, rfl⟩, -, rfl, rfl⟩ | ⟨-, _, _, ⟨rfl, rfl⟩, -, rfl, rfl⟩ := h
  · exact whole (front.append ((Stream.read_word hfinally).append (reads_block hg _ _ _ hb)))
  · exact whole (by simpa [tryBlocks] using front)

theorem reads_caseLabels : Reads (caseLabels g) fun es =>
    match es with
    | [] => [.word "default"]
    | e :: es => .word "case" :: separated "," ((e :: es).map .expr) := by
  intro s es t h
  simp only [caseLabels, eat_bind, bind_eq_ok, ite_eq_ok, reduceIte, Bool.false_eq_true,
    pure_eq_ok] at h
  obtain ⟨hw, rfl, rfl⟩ | ⟨-, _, _, hw, h⟩ := h
  · exact Stream.read_word hw
  · cases es with
    | nil => exact absurd rfl (ne_nil_of_sepBy h)
    | cons => exact (read_expect hw).append (reads_sepBy (reads_conditional hg) _ _ _ h)

theorem reads_arrowBody : Reads (arrowBody g) fun s => [.stmt s] := by
  intro s a t h
  simp only [arrowBody, get_bind, bind_eq_ok, ite_run, ite_eq_ok, pure_eq_ok] at h
  obtain ⟨-, h⟩ | ⟨-, kind, _, hkind, rfl, rfl⟩ := h
  · exact hg.statement _ _ _ h
  · exact (reads_expressionStatement hg _ _ _ hkind).rule .stmt trivial (by simp [span?])

theorem reads_switchCase : Reads (switchCase g) fun c => [.switchCase c] := by
  intro s c t h
  simp only [switchCase, eat_bind, bind_eq_ok, ite_eq_ok, reduceIte, Bool.false_eq_true,
    pure_eq_ok] at h
  obtain ⟨labels, u, hlabels, h⟩ := h
  have front := reads_caseLabels hg _ _ _ hlabels
  have whole {body : List Stmt} {arrow : Bool}
      (hu : u.Read (.word (if arrow then "->" else ":") :: body.map .stmt) t) :
      s.Read [.switchCase ⟨labels, body, arrow⟩] t := by
    cases labels with
    | nil => exact (front.append hu).rule .defaultCase trivial (by simp [span?])
    | cons => exact (front.append hu).rule .switchCase trivial (by simp [span?])
  obtain ⟨hw, body, _, hbody, rfl, rfl⟩ | ⟨-, _, _, hw, body, _, hbody, rfl, rfl⟩ := h
  · exact whole ((Stream.read_word hw).append (reads_arrowBody hg _ _ _ hbody))
  · exact whole ((read_expect hw).append (reads_manyWhile hg.blockStatement _ _ _ hbody))

theorem reads_switchStatement : Reads (switchStatement g) fun k => [.stmtKind k] := by
  intro s k t h
  simp only [switchStatement, bind_eq_ok, pure_eq_ok] at h
  obtain ⟨_, _, hw, selector, _, hselector, _, _, hopen, cases, _, hcases, _, _, hclose, rfl,
    rfl⟩ := h
  have parts := (read_expect hw).append ((reads_parenExpr hg _ _ _ hselector).append
    ((read_expect hopen).append ((reads_manyWhile (reads_switchCase hg) _ _ _ hcases).append
      (read_expect hclose))))
  exact Stream.Read.rule .switch (by simpa using parts) trivial (by simp [span?])

theorem reads_synchronizedStatement : Reads (synchronizedStatement g) fun k => [.stmtKind k] := by
  intro s k t h
  simp only [synchronizedStatement, bind_eq_ok, pure_eq_ok] at h
  obtain ⟨_, _, hw, lock, _, hlock, body, _, hbody, rfl, rfl⟩ := h
  exact ((read_expect hw).append ((reads_parenExpr hg _ _ _ hlock).append
    (reads_block hg _ _ _ hbody))).rule .synchronized trivial (by simp [span?])

theorem reads_assertStatement : Reads (assertStatement g) fun k => [.stmtKind k] := by
  intro s k t h
  simp only [assertStatement, eat_bind, bind_eq_ok, map_eq_ok, ite_eq_ok, reduceIte,
    Bool.false_eq_true, pure_eq_ok] at h
  obtain ⟨_, _, hw, cond, _, hcond, h⟩ := h
  have front := (read_expect hw).append (reads_expr hg _ _ _ hcond)
  obtain ⟨hcolon, _, _, ⟨message, hmessage, rfl⟩, _, _, hclose, rfl, rfl⟩ |
    ⟨-, _, _, ⟨rfl, rfl⟩, _, _, hclose, rfl, rfl⟩ := h
  · have parts := front.append ((Stream.read_word hcolon).append
      ((reads_expr hg _ _ _ hmessage).append (read_expect hclose)))
    exact parts.rule .assertion trivial (by simp [span?])
  · exact (front.append (read_expect hclose)).rule .assertion trivial (by simp [span?])

omit hg in
theorem reads_breakStatement : Reads breakStatement fun k => [.stmtKind k] := by
  intro s k t h
  simp only [breakStatement, bind_eq_ok, pure_eq_ok] at h
  obtain ⟨_, _, hw, label, _, hlabel, rfl, rfl⟩ := h
  exact ((read_expect hw).append (reads_labelUntilSemicolon _ _ _ hlabel)).rule .breaks trivial
    (by simp [span?])

omit hg in
theorem reads_continueStatement : Reads continueStatement fun k => [.stmtKind k] := by
  intro s k t h
  simp only [continueStatement, bind_eq_ok, pure_eq_ok] at h
  obtain ⟨_, _, hw, label, _, hlabel, rfl, rfl⟩ := h
  exact ((read_expect hw).append (reads_labelUntilSemicolon _ _ _ hlabel)).rule .continues trivial
    (by simp [span?])

theorem reads_keywordStatement : Reads (keywordStatement g) fun k => [.stmtKind k] := by
  intro s k t h
  simp only [keywordStatement, get_bind] at h
  generalize s.current.text = w at h
  split at h
  · exact reads_ifStatement hg _ _ _ h
  · exact reads_whileStatement hg _ _ _ h
  · exact reads_doStatement hg _ _ _ h
  · exact reads_forStatement hg _ _ _ h
  · exact reads_returnStatement hg _ _ _ h
  · exact reads_breakStatement _ _ _ h
  · exact reads_continueStatement _ _ _ h
  · exact reads_throwStatement hg _ _ _ h
  · exact reads_tryStatement hg _ _ _ h
  · exact reads_switchStatement hg _ _ _ h
  · exact reads_synchronizedStatement hg _ _ _ h
  · exact reads_assertStatement hg _ _ _ h
  · exact reads_expressionStatement hg _ _ _ h

/-! ### Statements -/

theorem reads_statementKind : Reads (statementKind g) fun k => [.stmtKind k] := by
  intro s k t h
  simp only [statementKind, get_bind, eat_bind, takeIdent_bind, take_bind, bind_eq_ok, ite_run,
    ite_eq_ok, reduceIte, Bool.false_eq_true, pure_eq_ok] at h
  obtain ⟨-, b, _, hb, rfl, rfl⟩ | ⟨-, ⟨hsemi, rfl, rfl⟩ | ⟨-, ⟨-, h⟩ |
    ⟨-, ⟨hlabel, body, _, hbody, rfl, rfl⟩ | ⟨-, h⟩⟩⟩⟩ := h
  · exact (reads_block hg _ _ _ hb).rule .blockStmt trivial (by simp [span?])
  · exact (Stream.read_word hsemi).rule .empty trivial (by simp [span?])
  · exact reads_keywordStatement hg _ _ _ h
  · simp only [Bool.and_eq_true] at hlabel
    have colon := Stream.isAt_advance (Stream.not_atEnd_of_isAtKind hlabel.1 (by simp)) hlabel.2
    exact ((Stream.read_name hlabel.1).append ((Stream.read_word colon).append
      (hg.statement _ _ _ hbody))).rule .labeled trivial (by simp [span?])
  · exact reads_expressionStatement hg _ _ _ h

theorem reads_statement : Reads (statement g) fun s => [.stmt s] := by
  intro s a t h
  simp only [statement, get_bind, bind_eq_ok, pure_eq_ok] at h
  obtain ⟨_, u, hbegin, kind, _, hkind, rfl, rfl⟩ := h
  obtain ⟨rfl, -, nothing⟩ := read_beginDecision hbegin
  exact (nothing.append (reads_statementKind hg _ _ _ hkind)).rule .stmt trivial (by simp [span?])

theorem reads_localVar : Reads (localVar g) fun d => [.varDecl d] := by
  intro s d t h
  simp only [localVar, get_bind, bind_eq_ok] at h
  obtain ⟨ms, _, hms, type, _, htype, id, _, hid, h⟩ := h
  exact read_plainVarDecl hg (reads_modifiers hg _ _ _ hms) (reads_typeRef hg _ _ _ htype)
    (reads_identifier _ _ _ hid) h

theorem reads_blockStatement : Reads (blockStatement g) fun s => [.stmt s] := by
  intro s a t h
  simp only [blockStatement, bind_eq_ok, ite_run, ite_eq_ok, pure_eq_ok] at h
  obtain ⟨_, u, hbegin, _, v, hstarts, h⟩ := h
  obtain ⟨rfl, hlo, nothing⟩ := read_beginDecision hbegin
  rw [foresee_eq_ok hstarts] at h
  obtain ⟨-, ms, _, hms, decl, _, hdecl, rfl, rfl⟩ | ⟨-, _, w, hstarts, h⟩ := h
  · have read := read_typeDecl hg (nothing.append (reads_modifiers hg _ _ _ hms)) hdecl
    exact read.rule .localType trivial fun _ hspan => read.span hspan
  · rw [foresee_eq_ok hstarts] at h
    obtain ⟨-, decl, _, hdecl, rfl, rfl⟩ | ⟨-, h⟩ := h
    · have read := nothing.append (reads_localVar hg _ _ _ hdecl)
      exact read.rule .localVar trivial fun _ hspan => read.span hspan
    · exact nothing.append (reads_statement hg _ _ _ h)

end SketchPrep.Syntax
