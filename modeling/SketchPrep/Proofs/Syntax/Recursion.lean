import SketchPrep.Proofs.Syntax.Agreement

/-!
The readers that turn to each other without any bound. They are what the recursion of the readers
comes to whatever it begins with: on a stream of fewer than `n` tokens it is there after `n` turns.
Main statements: `Grammar.unfold_eq_iff`, they are the only ones that the recursion leaves as they
are; `Sketch.parse_eq`, a sketch is read with them.
-/

namespace SketchPrep

open Token

namespace Syntax

open Reader

theorem Reader.Invariant.any : Invariant (fun _ => True) fun _ => True where
  advance _ _ := trivial
  begin _ _ := trivial
  unexpected _ _ _ := trivial
  noViable _ _ := trivial

namespace Grammar

/-- A stream is read with the grammar for as many tokens as it has. -/
def byLength (b : Nat → Grammar) : Grammar where
  type s := (b s.left).type s
  unary s := (b s.left).unary s
  binary least s := (b s.left).binary least s
  conditional s := (b s.left).conditional s
  expr s := (b s.left).expr s
  varInit s := (b s.left).varInit s
  block s := (b s.left).block s
  statement s := (b s.left).statement s
  blockStatement s := (b s.left).blockStatement s
  member name s := (b s.left).member name s

/-- Nothing bounds the tokens of a stream. -/
def whole : Grammar := byLength fun n => grammarBelow (n + 1)

variable {P : Stream → Prop} {E : SyntaxError → Prop} {g g' : Grammar} {b : Nat → Grammar} {n : Nat}

theorem agree_byLength (inv : Invariant P E) (h : ∀ m < n, g.Agree P E (m + 1) (b m)) :
    g.Agree P E n (byLength b) where
  toInvariant := inv
  type hs lt := (h _ lt).type hs (Nat.lt_succ_self _)
  unary hs lt := (h _ lt).unary hs (Nat.lt_succ_self _)
  binary least hs lt := (h _ lt).binary least hs (Nat.lt_succ_self _)
  conditional hs lt := (h _ lt).conditional hs (Nat.lt_succ_self _)
  expr hs lt := (h _ lt).expr hs (Nat.lt_succ_self _)
  varInit hs lt := (h _ lt).varInit hs (Nat.lt_succ_self _)
  block hs lt := (h _ lt).block hs (Nat.lt_succ_self _)
  statement hs lt := (h _ lt).statement hs (Nat.lt_succ_self _)
  blockStatement hs lt := (h _ lt).blockStatement hs (Nat.lt_succ_self _)
  member name hs lt := (h _ lt).member name hs (Nat.lt_succ_self _)

theorem agree_grammarBelow_whole (inv : Invariant P E) (n : Nat) :
    (grammarBelow n).Agree P E n whole := by
  refine agree_byLength inv fun m lt => ?_
  obtain ⟨k, rfl⟩ := Nat.exists_eq_add_of_le (Nat.succ_le_of_lt lt)
  rw [grammarBelow_eq, grammarBelow_eq, Function.iterate_add_apply]
  exact agree_iterate inv (m + 1) _ _

theorem byLength_eq (h : ∀ n, (b n).Agree (fun _ => True) (fun _ => True) (n + 1) g) :
    byLength b = g := by
  have lt (s : Stream) : s.left < s.left + 1 := Nat.lt_succ_self _
  cases g
  simp only [byLength, mk.injEq]
  refine ⟨?type, ?unary, ?binary, ?conditional, ?expr, ?varInit, ?block, ?statement,
    ?blockStatement, ?member⟩
  case type => exact funext fun s => ((h s.left).type trivial (lt s)).same
  case unary => exact funext fun s => ((h s.left).unary trivial (lt s)).same
  case binary => exact funext₂ fun least s => ((h s.left).binary least trivial (lt s)).same
  case conditional => exact funext fun s => ((h s.left).conditional trivial (lt s)).same
  case expr => exact funext fun s => ((h s.left).expr trivial (lt s)).same
  case varInit => exact funext fun s => ((h s.left).varInit trivial (lt s)).same
  case block => exact funext fun s => ((h s.left).block trivial (lt s)).same
  case statement => exact funext fun s => ((h s.left).statement trivial (lt s)).same
  case blockStatement => exact funext fun s => ((h s.left).blockStatement trivial (lt s)).same
  case member => exact funext₂ fun name s => ((h s.left).member name trivial (lt s)).same

theorem unfold_whole : whole.unfold = whole :=
  (byLength_eq fun n => (agree_grammarBelow_whole .any n).unfold).symm

/-- The recursion leaves no other readers as they are. -/
theorem unfold_eq_iff : g.unfold = g ↔ g = whole := by
  constructor
  · intro h
    refine (byLength_eq fun n => ?_).symm
    have agree := agree_grammarBelow Invariant.any (n + 1) g
    rwa [Function.iterate_fixed h] at agree
  · rintro rfl
    exact unfold_whole

theorem agree_iterate_whole (inv : Invariant P E) (n : Nat) (g : Grammar) :
    (unfold^[n] g).Agree P E n whole := by
  have agree := agree_iterate inv n g whole
  rwa [Function.iterate_fixed unfold_whole] at agree

theorem agree_whole (inv : Invariant P E) (n : Nat) : whole.Agree P E n whole := by
  have agree := agree_iterate_whole inv n whole
  rwa [Function.iterate_fixed unfold_whole] at agree

end Grammar

end Syntax

/-- It does not matter what the recursion began with, if it took as many turns as there are
tokens. -/
theorem Sketch.parse_eq {source : Text} {ts : Tokens} (h : tokenize source = .ok ts) {n : Nat}
    (le : ts.body.length ≤ n) (g : Syntax.Grammar) :
    Sketch.parse source = Prod.fst <$>
      Syntax.sketch (Syntax.Grammar.unfold^[n] g) source.size (.ofTokens ts) := by
  have given := Syntax.alike_sketch (Syntax.Grammar.agree_iterate_whole .any n g)
    (s := .ofTokens ts) trivial le source.size
  have own := Syntax.alike_sketch
    (Syntax.Grammar.agree_grammarBelow_whole .any (ts.body.length + 1))
    (s := .ofTokens ts) trivial (Nat.le_succ _) source.size
  rw [given.same, ← own.same, parse, h]
  dsimp only
  cases Syntax.sketch (Syntax.grammarBelow (ts.body.length + 1)) source.size (.ofTokens ts) <;> rfl

end SketchPrep
