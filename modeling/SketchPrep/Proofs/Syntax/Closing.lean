import SketchPrep.Proofs.Syntax.Fork

/-!
Declarations and statements end with a semicolon or a closing brace. Main statement:
`Spells.closes`.
-/

namespace SketchPrep.Phrase

theorem any_getLast?_append {α : Type} {f : α → Bool} (as : List α) {bs : List α}
    (h : bs.getLast?.any f) : (as ++ bs).getLast?.any f := by
  rw [List.getLast?_append]
  cases hb : bs.getLast? with
  | none => simp [hb] at h
  | some b => simpa [hb] using h

/-- A declaration or a statement, or what ends one. -/
def isClosed : Phrase → Bool
  | .word w => w = ";" || w = "\x7d"
  | .varDecl _ | .typeDecl _ | .block _ | .catchClause _ | .stmtKind _ | .stmt _ | .methodDecl _
  | .member _ | .packageDecl _ | .importDecl _ | .item _ => true
  | _ => false

theorem closed_tryBlocks (body : Block) (catches : List CatchClause) (finalizer : Option Block) :
    (tryBlocks body catches finalizer).getLast?.any isClosed := by
  cases finalizer with
  | none => cases h : catches.getLast? <;> simp [tryBlocks, List.getLast?_cons, isClosed, h]
  | some b => simp [tryBlocks, List.getLast?_cons, isClosed]

/-- A closed phrase has a closed part at its end. -/
theorem Production.closed {p : Phrase} {qs : List Phrase} (h : Production p qs)
    (hp : p.isClosed) : qs.getLast?.any isClosed := by
  cases h with
  | ifElse =>
    rename_i no
    cases no <;> simp [isClosed]
  | tryCatch => exact any_getLast?_append [_] (closed_tryBlocks ..)
  | tryWith => exact any_getLast?_append _ (any_getLast?_append [_] (closed_tryBlocks ..))
  | _ => simp [isClosed, List.getLast?_cons, List.getLast?_append] at hp ⊢

variable {ps : List Phrase} {ts : List Token}

/-- Only the last phrase counts. -/
theorem Spells.closes_cons (us : List Token) {p : Phrase} (rest : Spells ps ts)
    (hps : (p :: ps).getLast?.any isClosed) (last : p.isClosed → us.getLast?.any Token.closes)
    (others : ps.getLast?.any isClosed → ts.getLast?.any Token.closes) :
    (us ++ ts).getLast?.any Token.closes := by
  cases ps with
  | nil =>
    cases rest
    rw [List.append_nil]
    exact last (by simpa using hps)
  | cons q ps => exact any_getLast?_append us (others (by simpa using hps))

/-- The last token of a closed phrase closes it, if what is spelled like a sign is one. -/
theorem Spells.closes (h : Spells ps ts) (hps : ps.getLast?.any isClosed)
    (signs : ∀ t ∈ ts, t.is ";" ∨ t.is "\x7d" → t.closes) : ts.getLast?.any Token.closes := by
  induction h with
  | nil => cases hps
  | @token t ps ts rest ih =>
    obtain ⟨-, others⟩ := List.forall_mem_cons.1 signs
    exact closes_cons [t] rest hps nofun fun h => ih h others
  | @word w t ps ts ht rest ih =>
    obtain ⟨this, others⟩ := List.forall_mem_cons.1 signs
    refine closes_cons [t] rest hps (fun hw => ?_) fun h => ih h others
    refine this ?_
    simp only [isClosed, Bool.or_eq_true, decide_eq_true_eq] at hw
    rcases hw with rfl | rfl
    · exact .inl ht
    · exact .inr ht
  | @rule p qs ps us ts hp parts _ rest ihp ih =>
    obtain ⟨these, others⟩ := List.forall_mem_append.1 signs
    exact closes_cons us rest hps (fun closed => ihp (hp.closed closed) these) fun h => ih h others

end SketchPrep.Phrase
