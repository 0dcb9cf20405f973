import SketchPrep.Proofs.Finding.Visit

/-!
The literals that the walk writes anew. Main statement: `ofToken_subset_or_leftOut`, each literal of a
sketch is normalized, unless it stands in a part that the walk leaves out.
-/

namespace SketchPrep.Finding

open Phrase Token

variable {c : Context} {b : Bool} {t : Token} {p q : Phrase} {ps qs : List Phrase}
  {ts us vs : List Token} {fs gs : List Finding}

/-- What the walk has to say of a literal. -/
def ofToken (c : Context) (t : Token) : List Finding :=
  (literalKind? t).toList.flatMap fun kind => ofLiteral c t.span kind t.text.toList

theorem ofToken_of_isWordKind (h : isWordKind t.kind) : ofToken c t = [] := by
  have kinds : ∀ kind, literalKind? t = some kind → kind = .bool ∨ kind = .null := by
    intro kind hkind
    unfold literalKind? at hkind
    cases hk : t.kind <;> simp_all [isWordKind]
    grind
  cases hkind : literalKind? t with
  | none => simp [ofToken, hkind]
  | some kind => rcases kinds kind hkind with rfl | rfl <;> simp [ofToken, hkind, ofLiteral]

/-- The token stands in a part `q` of `p` that the walk leaves out. What it finds in `p` itself is
among the findings. -/
def LeftOut (c : Context) (ps : List Phrase) (ts : List Token) (fs : List Finding) (t : Token) :
    Prop :=
  ∃ b p us qs q vs, Occurs p us ps ts ∧ Production p qs ∧ Stands q vs qs us ∧ LeavesOut c b p q ∧
    t ∈ vs ∧ ∀ f ∈ own c b p, f ∈ fs

theorem LeftOut.mono (h : LeftOut c ps ts fs t)
    (occurs : ∀ x vs, Occurs x vs ps ts → Occurs x vs qs us) (found : ∀ f ∈ fs, f ∈ gs) :
    LeftOut c qs us gs t := by
  obtain ⟨b, p, vs, rs, q, ws, hp, production, part, leaves, ht, hown⟩ := h
  exact ⟨b, p, vs, rs, q, ws, occurs _ _ hp, production, part, leaves, ht,
    fun f hf => found f (hown f hf)⟩

theorem mem_ofPhrases {f : Finding} (hp : p ∈ ps) (h : f ∈ ofPhrase c b p) :
    f ∈ ofPhrases c b ps := by
  induction ps with
  | nil => cases hp
  | cons q ps ih =>
    rw [ofPhrases_cons, List.mem_append]
    rcases List.mem_cons.1 hp with rfl | hp
    · exact .inl h
    · exact .inr (ih hp)

/-- The walk over a literal says what there is to say of its token. -/
theorem own_literal {kind : LiteralKind} {text : String} {a : Span}
    (h : Spells [.expr ⟨.literal kind text, a⟩] us) (ht : t ∈ us) :
    own c b (.expr ⟨.literal kind text, a⟩) = ofToken c t := by
  obtain ⟨t', rfl, rfl, hkind⟩ := exists_token_literal h
  obtain rfl := List.mem_singleton.1 ht
  have span : t.span = a := by
    simpa [spanOf?, Span.upTo, Token.span] using h.spanOf? (a := a) rfl
  simp [own, ofToken, hkind, span]

/-- A token of phrases is one of the phrases, or whatever phrase it is written for, the walk over that
one normalizes it or leaves it out. -/
theorem exists_phrase (h : Spells ps ts) : ∀ t ∈ ts, ∃ p us, Stands p us ps ts ∧ t ∈ us ∧
    (p = .token t ∨ ∀ b, (∀ f ∈ ofToken c t, f ∈ ofPhrase c b p) ∨
      LeftOut c [p] us (ofPhrase c b p) t) := by
  induction h with
  | nil => simp
  | @token t' ps ts rest ih =>
    have first : Spells [.token t'] [t'] := .token .nil
    intro t ht
    rcases List.mem_cons.1 ht with rfl | ht
    · exact ⟨_, _, .here first rest, .head _, .inl rfl⟩
    · obtain ⟨p, us, stands, found⟩ := ih t ht
      exact ⟨p, us, stands.behind first, found⟩
  | @word w t' ps ts hw rest ih =>
    have first : Spells [.word w] [t'] := .word hw .nil
    intro t ht
    rcases List.mem_cons.1 ht with rfl | ht
    · have nothing := ofToken_of_isWordKind (c := c) (isWordKind_of_is hw).1
      exact ⟨_, _, .here first rest, .head _, .inr fun b => .inl (by simp [nothing])⟩
    · obtain ⟨p, us, stands, found⟩ := ih t ht
      exact ⟨p, us, stands.behind first, found⟩
  | @rule p qs ps us ts production parts span rest ihp ih =>
    have whole := spells_singleton production parts span
    intro t ht
    rcases List.mem_append.1 ht with ht | ht
    · refine ⟨p, us, .here whole rest, ht, .inr fun b => ?_⟩
      obtain ⟨q, vs, stands, htq, hq⟩ := ihp t ht
      obtain ⟨kept, b', enters, perm⟩ := ofPhrase_perm (c := c) production b
      have found (f : Finding) : f ∈ ofPhrase c b p ↔ f ∈ own c b p ∨ f ∈ ofPhrases c b' kept := by
        rw [perm.mem_iff, List.mem_append]
      rcases hq with rfl | hq
      · -- a token of the rule itself
        rcases production.token_cases stands.mem with word | ⟨kind, a, rfl, -⟩
        · exact .inl (by simp [ofToken_of_isWordKind word])
        · refine .inl fun f hf => (found f).2 (.inl ?_)
          rwa [own_literal whole ht]
      · rcases enters.covers q stands.mem with entered | plain | leaves
        · rcases hq b' with normalized | left
          · exact .inl fun f hf => (found f).2 (.inr (mem_ofPhrases entered (normalized f hf)))
          · refine .inr (left.mono (fun x vs hx => ?_) fun f hf => ?_)
            · simpa using Occurs.inside production span (stands.occurs hx) .nil
            · exact (found f).2 (.inr (mem_ofPhrases entered hf))
        · obtain ⟨-, -, -, -, -, -, -, written, -⟩ := stands
          have word := written.isWordKind (by simpa using plain) t htq
          exact .inl (by simp [ofToken_of_isWordKind word])
        · exact .inr ⟨b, p, us, qs, q, vs, occurs_singleton whole, production, stands, leaves, htq,
            fun f hf => (found f).2 (.inl hf)⟩
    · obtain ⟨q, vs, stands, found⟩ := ih t ht
      exact ⟨q, vs, stands.behind whole, found⟩

/-- The walk over a sketch normalizes a literal or leaves it out. -/
theorem ofToken_subset_or_leftOut {s : Sketch} (h : Spells s.phrases ts) (ht : t ∈ ts) :
    (∀ f ∈ ofToken c t, f ∈ ofItems c s.items) ∨
      LeftOut c s.phrases ts (ofItems c s.items) t := by
  obtain ⟨p, us, stands, -, hp⟩ := exists_phrase (c := c) h t ht
  rw [← ofPhrases_phrases]
  rcases hp with rfl | found
  · have no_token : .token t ∉ s.phrases := by simp [Sketch.phrases]
    exact absurd stands.mem no_token
  · rcases found true with normalized | left
    · exact .inl fun f hf => mem_ofPhrases stands.mem (normalized f hf)
    · exact .inr (left.mono (fun _ _ hx => stands.occurs hx)
        fun _ hf => mem_ofPhrases stands.mem hf)

end SketchPrep.Finding
