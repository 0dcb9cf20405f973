import SketchPrep.Proofs.Syntax.Phrase
import SketchPrep.Settings

/-!
The parts of a sketch, at any depth, and the token that a part begins with. Main statements:
`Occurs.of_callName`, what names a call without target stands at the start of that call;
`exists_head_call`, the words that a call statement can begin with.
-/

namespace SketchPrep.Phrase

open Token

/-- Among phrases and what they are made of is `x`, written with `vs`. -/
inductive Occurs (x : Phrase) (vs : List Token) : List Phrase → List Token → Prop
  | here {ps : List Phrase} {ts : List Token} (h : Spells [x] vs) (rest : Spells ps ts) :
    Occurs x vs (x :: ps) (vs ++ ts)
  | inside {p : Phrase} {qs ps : List Phrase} {us ts : List Token} (h : Production p qs)
    (span : ∀ a, p.span? = some a → spanOf? us = some a) (part : Occurs x vs qs us)
    (rest : Spells ps ts) : Occurs x vs (p :: ps) (us ++ ts)
  | behind {p : Phrase} {ps : List Phrase} {us ts : List Token} (first : Spells [p] us)
    (later : Occurs x vs ps ts) : Occurs x vs (p :: ps) (us ++ ts)

variable {x p : Phrase} {ps qs : List Phrase} {ts us vs : List Token}

theorem spells_singleton (h : Production p qs) (parts : Spells qs us)
    (span : ∀ a, p.span? = some a → spanOf? us = some a) : Spells [p] us := by
  simpa using Spells.rule h parts span .nil

theorem Occurs.spells (h : Occurs x vs ps ts) : Spells ps ts ∧ Spells [x] vs := by
  induction h with
  | here h rest => exact ⟨by simpa using h.append rest, h⟩
  | inside h span _ rest ih => exact ⟨.rule h ih.1 span rest, ih.2⟩
  | behind first _ ih => exact ⟨by simpa using first.append ih.1, ih.2⟩

theorem Occurs.sublist (h : Occurs x vs ps ts) : vs.Sublist ts := by
  induction h with
  | here => exact List.sublist_append_left ..
  | inside _ _ _ _ ih => exact ih.trans (List.sublist_append_left ..)
  | behind _ _ ih => exact ih.trans (List.sublist_append_right ..)

theorem Occurs.append (h : Occurs x vs ps ts) (rest : Spells qs us) :
    Occurs x vs (ps ++ qs) (ts ++ us) := by
  induction h with
  | here h behind =>
    rw [List.append_assoc]
    exact .here h (behind.append rest)
  | inside h span part behind =>
    rw [List.append_assoc]
    exact .inside h span part (behind.append rest)
  | behind first _ ih =>
    rw [List.append_assoc]
    exact .behind first ih

theorem Occurs.prepend (first : Spells qs us) (h : Occurs x vs ps ts) :
    Occurs x vs (qs ++ ps) (us ++ ts) := by
  induction first with
  | nil => exact h
  | @token t _ _ _ ih =>
    have first : Spells [.token t] [t] := .token .nil
    simpa using Occurs.behind first ih
  | @word w t _ _ hw _ ih =>
    have first : Spells [.word w] [t] := .word hw .nil
    simpa using Occurs.behind first ih
  | rule production parts span _ _ ih =>
    rw [List.append_assoc]
    exact .behind (spells_singleton production parts span) ih

theorem occurs_singleton (h : Spells [p] us) : Occurs p us [p] us := by
  simpa using Occurs.here h .nil

/-- One of the phrases is `x`, written with `vs`. -/
def Stands (x : Phrase) (vs : List Token) (ps : List Phrase) (ts : List Token) : Prop :=
  ∃ front back us ws, ps = front ++ x :: back ∧ ts = us ++ (vs ++ ws) ∧ Spells front us ∧
    Spells [x] vs ∧ Spells back ws

theorem Stands.here (h : Spells [p] us) (rest : Spells ps ts) :
    Stands p us (p :: ps) (us ++ ts) :=
  ⟨[], ps, [], ts, rfl, rfl, .nil, h, rest⟩

theorem Stands.behind (first : Spells [p] us) (h : Stands x vs ps ts) :
    Stands x vs (p :: ps) (us ++ ts) := by
  obtain ⟨front, back, ws, zs, rfl, rfl, hfront, hx, hback⟩ := h
  exact ⟨p :: front, back, us ++ ws, zs, rfl, (List.append_assoc ..).symm, first.append hfront, hx,
    hback⟩

theorem Stands.mem (h : Stands x vs ps ts) : x ∈ ps := by
  obtain ⟨front, back, -, -, rfl, -⟩ := h
  simp

theorem Stands.occurs {q : Phrase} (h : Stands q us ps ts) (part : Occurs x vs [q] us) :
    Occurs x vs ps ts := by
  obtain ⟨front, back, ws, zs, rfl, rfl, hfront, -, hback⟩ := h
  exact (part.append hback).prepend hfront

/-! ### Taking derivations apart -/

theorem Spells.uncons (h : Spells (p :: ps) ts) :
    ∃ us vs, ts = us ++ vs ∧ Spells [p] us ∧ Spells ps vs := by
  cases h with
  | @token t _ ts rest => exact ⟨[t], ts, rfl, .token .nil, rest⟩
  | @word w t _ ts h rest => exact ⟨[t], ts, rfl, .word h .nil, rest⟩
  | @rule _ qs _ us vs h parts span rest => exact ⟨us, vs, rfl, spells_singleton h parts span, rest⟩

/-- How a phrase is written that is made of others. -/
theorem Spells.exists_production (h : Spells [p] us) (token : ∀ t, p ≠ .token t)
    (word : ∀ w, p ≠ .word w) : ∃ qs, Production p qs ∧ Spells qs us := by
  cases h with
  | token => exact absurd rfl (token _)
  | word => exact absurd rfl (word _)
  | rule h parts _ rest =>
    cases rest
    rw [List.append_nil]
    exact ⟨_, h, parts⟩

theorem spells_token {t : Token} (h : Spells [.token t] us) : us = [t] := by
  cases h with
  | token rest =>
    cases rest
    rfl
  | rule h => cases h

theorem spells_word {w : String} (h : Spells [.word w] us) : ∃ t, us = [t] ∧ t.is w := by
  cases h with
  | word h rest =>
    cases rest
    exact ⟨_, rfl, h⟩
  | rule h => cases h

/-! ### Words -/

def isWordKind (k : Token.Kind) : Bool := k = .identifier || k = .keyword || k = .punctuation

theorem isWordKind_of_is {t : Token} {w : String} (h : t.is w) :
    isWordKind t.kind ∧ t.text = w := by
  simpa [Token.is, isWordKind] using h

theorem isWordKind_of_any {t : Token} {ws : List String} (h : ws.any t.is) :
    isWordKind t.kind := by
  obtain ⟨w, -, h⟩ := List.any_eq_true.1 h
  exact (isWordKind_of_is h).1

theorem isWordKind_of_isCallName {t : Token} (h : isCallName t) : isWordKind t.kind := by
  simp only [isCallName, Bool.or_eq_true, decide_eq_true_eq] at h
  rcases h with (h | h) | h
  · simp [isWordKind, h]
  · exact isWordKind_of_any h
  · exact isWordKind_of_any h

theorem isWordKind_of_isSelected {t : Token} (h : isSelected t) : isWordKind t.kind := by
  simp only [isSelected, Bool.or_eq_true, decide_eq_true_eq] at h
  rcases h with h | h
  · simp [isWordKind, h]
  · exact isWordKind_of_any h

theorem isWordKind_of_primitive {t : Token} (h : t.isPrimitiveType || t.is "void") :
    isWordKind t.kind := by
  rcases Bool.or_eq_true _ _ ▸ h with h | h
  · simp only [Token.isPrimitiveType, Bool.and_eq_true, Bool.or_eq_true, decide_eq_true_eq] at h
    rcases h.1 with h | h <;> simp [isWordKind, h]
  · exact (isWordKind_of_is h).1

/-- The tokens of a rule are words, apart from literals. -/
theorem Production.token_cases {t : Token} (h : Production p qs) (ht : .token t ∈ qs) :
    isWordKind t.kind ∨
      ∃ kind span, p = .expr ⟨.literal kind t.text, span⟩ ∧ literalKind? t = some kind := by
  replace ht : .token t ∈ trees qs := mem_sift ht rfl
  cases h with
  | name h | keywordModifier h _ =>
    obtain rfl := by simpa using ht
    simp [isWordKind, h]
  | callName h =>
    obtain rfl := by simpa using ht
    exact .inl (isWordKind_of_isCallName h)
  | primitive h =>
    obtain rfl := by simpa using ht
    exact .inl (isWordKind_of_primitive h)
  | literal h =>
    obtain rfl := by simpa using ht
    exact .inr ⟨_, _, rfl, h⟩
  | callOf h | field h =>
    obtain rfl := by simpa using ht
    exact .inl (isWordKind_of_isSelected h)
  | methodRef h =>
    obtain rfl := by simpa using ht
    rcases h with h | h
    · simp [isWordKind, h]
    · exact .inl (isWordKind_of_is h).1
  | binary _ hsigns | assign _ hsigns =>
    obtain ht := by simpa using ht
    exact .inl (isWordKind_of_any (hsigns t ht))
  | typeParam =>
    rename_i bounds
    cases bounds <;> simp at ht
  | ifElse =>
    rename_i no
    cases no <;> simp at ht
  | _ =>
    simp at ht

/-- Words, and names and types, which are written with words. -/
def isPlain : Phrase → Bool
  | .token t => isWordKind t.kind
  | .word _ | .name _ | .typeKind _ | .segment _ | .type _ | .typeParam _ => true
  | _ => false

theorem isPlain_of_trees (h : ∀ q ∈ trees ps, q.isPlain) : ∀ q ∈ ps, q.isPlain := by
  intro q hq
  cases q with
  | word => rfl
  | _ => exact h _ (mem_sift hq rfl)

theorem Production.isPlain_parts (h : Production p qs) (plain : p.isPlain) :
    ∀ q ∈ qs, q.isPlain := by
  refine isPlain_of_trees ?_
  cases h with
  | name h => simp [isPlain, isWordKind, h]
  | primitive h => simp [isPlain, isWordKind_of_primitive h]
  | named | anyType | boundedType | segment | segmentWithArgs | type => simp [isPlain]
  | typeParam =>
    rename_i bounds
    cases bounds <;> simp [isPlain]
  | _ => cases plain

/-- What is plain is written with words. -/
theorem Spells.isWordKind (h : Spells ps ts) (plain : ∀ p ∈ ps, p.isPlain) :
    ∀ t ∈ ts, isWordKind t.kind := by
  induction h with
  | nil => simp
  | token _ ih =>
    obtain ⟨first, rest⟩ := List.forall_mem_cons.1 plain
    exact List.forall_mem_cons.2 ⟨first, ih rest⟩
  | word hw _ ih =>
    obtain ⟨-, rest⟩ := List.forall_mem_cons.1 plain
    exact List.forall_mem_cons.2 ⟨(isWordKind_of_is hw).1, ih rest⟩
  | rule h _ _ _ ihp ih =>
    obtain ⟨first, rest⟩ := List.forall_mem_cons.1 plain
    exact List.forall_mem_append.2 ⟨ihp (h.isPlain_parts first), ih rest⟩

/-! ### The start of a call -/

section CallNames

variable {id : Ident}

/-- A `callName` is part of a call without target only. -/
theorem Production.of_callName_mem (h : Production p qs) (hid : .callName id ∈ qs) :
    ∃ args span, p = .expr ⟨.call none id args, span⟩ ∧ qs = .callName id :: arguments args := by
  replace hid : .callName id ∈ trees qs := mem_sift hid rfl
  cases h with
  | call =>
    simp at hid
    subst hid
    exact ⟨_, _, rfl, rfl⟩
  | typeParam =>
    rename_i bounds
    cases bounds <;> simp at hid
  | ifElse =>
    rename_i no
    cases no <;> simp at hid
  | _ =>
    simp at hid

/-- What names a call is one of the phrases themselves, or it begins a call among their parts. -/
theorem Occurs.callName_cases (h : Occurs (.callName id) vs ps ts) :
    Stands (.callName id) vs ps ts ∨
      ∃ args span us, Occurs (.expr ⟨.call none id args, span⟩) (vs ++ us) ps ts := by
  induction h with
  | here h rest => exact .inl (.here h rest)
  | @inside p qs ps us ts h span part rest ih =>
    right
    rcases ih with stands | ⟨args, a, ws, call⟩
    · obtain ⟨args, a, rfl, split⟩ := h.of_callName_mem stands.mem
      obtain ⟨front, back, fs, bs, rfl, rfl, hf, -, hb⟩ := stands
      cases front with
      | nil =>
        cases hf
        exact ⟨args, a, bs, .here (spells_singleton h part.spells.1 span) rest⟩
      | cons q front =>
        -- the name is not among the arguments
        obtain ⟨-, args_eq⟩ := List.cons.inj split
        have inside : .callName id ∈ trees (arguments args) :=
          mem_sift (by rw [← args_eq]; simp) rfl
        simp at inside
    · exact ⟨args, a, ws, .inside h span call rest⟩
  | behind first _ ih =>
    rcases ih with stands | ⟨args, a, ws, call⟩
    · exact .inl (stands.behind first)
    · exact .inr ⟨args, a, ws, .behind first call⟩

theorem Occurs.of_callName (h : Occurs (.callName id) vs ps ts) (hps : .callName id ∉ ps) :
    ∃ args span us, Occurs (.expr ⟨.call none id args, span⟩) (vs ++ us) ps ts :=
  h.callName_cases.resolve_left fun stands => hps stands.mem

end CallNames

/-! ### First tokens -/

theorem exists_token_callName {id : Ident} (h : Spells [.callName id] us) :
    ∃ t, us = [t] ∧ id = .ofToken t ∧ isCallName t := by
  obtain ⟨qs, production, parts⟩ := h.exists_production (by simp) (by simp)
  cases production with
  | callName ht => exact ⟨_, spells_token parts, rfl, ht⟩

theorem exists_token_primitive {id : Ident} (h : Spells [.typeKind (.primitive id)] us) :
    ∃ t, us = [t] ∧ id = .ofToken t ∧ (t.isPrimitiveType || t.is "void") := by
  obtain ⟨qs, production, parts⟩ := h.exists_production (by simp) (by simp)
  cases production with
  | primitive ht => exact ⟨_, spells_token parts, rfl, ht⟩

theorem exists_token_literal {kind : LiteralKind} {text : String} {span : Span}
    (h : Spells [.expr ⟨.literal kind text, span⟩] us) :
    ∃ t, us = [t] ∧ text = t.text ∧ literalKind? t = some kind := by
  obtain ⟨qs, production, parts⟩ := h.exists_production (by simp) (by simp)
  cases production with
  | literal ht => exact ⟨_, spells_token parts, rfl, ht⟩

theorem exists_head_import {d : ImportDecl} (h : Spells [.item (.importation d)] us) :
    ∃ t ts, us = t :: ts ∧ t.is "import" := by
  obtain ⟨qs, production, parts⟩ := h.exists_production (by simp) (by simp)
  cases production with
  | importItem =>
    obtain ⟨qs, production, parts⟩ := parts.exists_production (by simp) (by simp)
    cases production with
    | importDecl =>
      simp only [List.cons_append] at parts
      obtain ⟨vs, ws, rfl, first, -⟩ := parts.uncons
      obtain ⟨t, rfl, ht⟩ := spells_word first
      exact ⟨t, ws, rfl, ht⟩

/-- A call of the sketch itself begins with its name or with `this` or `super`. -/
theorem exists_head_call {target : Option Expr} {id : Ident} {args : List Expr} {span : Span}
    (h : Spells [.expr ⟨.call target id args, span⟩] us)
    (own : SettingsCall.isOwnReceiver target) :
    ∃ t ts, us = t :: ts ∧
      (t.text = id.name ∧ isCallName t ∨ t.is "this" ∨ t.is "super") := by
  obtain ⟨qs, production, parts⟩ := h.exists_production (by simp) (by simp)
  cases production with
  | call =>
    obtain ⟨vs, ws, rfl, first, -⟩ := parts.uncons
    obtain ⟨t, rfl, rfl, ht⟩ := exists_token_callName first
    exact ⟨t, ws, rfl, .inl ⟨rfl, ht⟩⟩
  | callOf =>
    rename_i target dropped t' _
    simp only [List.cons_append] at parts
    obtain ⟨vs, ws, rfl, first, -⟩ := parts.uncons
    obtain ⟨qs, production, parts⟩ := first.exists_production (by simp) (by simp)
    obtain ⟨kind, a⟩ := target
    cases production with
    | thisRef =>
      obtain ⟨t, rfl, ht⟩ := spells_word parts
      exact ⟨t, ws, rfl, .inr (.inl ht)⟩
    | superRef =>
      obtain ⟨t, rfl, ht⟩ := spells_word parts
      exact ⟨t, ws, rfl, .inr (.inr ht)⟩
    | _ => simp [SettingsCall.isOwnReceiver] at own

theorem exists_head_settingsCall {st : Stmt} {call : SettingsCall}
    (h : Spells [.stmt st] us) (hc : SettingsCall.ofStmt? st = some call) :
    ∃ t ts, us = t :: ts ∧
      (t.text = call.name ∧ isCallName t ∨ t.is "this" ∨ t.is "super") := by
  obtain ⟨kind, a⟩ := st
  unfold SettingsCall.ofStmt? at hc
  split at hc
  · rename_i target id args b hkind
    split at hc
    · rename_i own
      obtain rfl := Option.some.inj hc
      obtain rfl : kind = .expr ⟨.call target id args, b⟩ := hkind
      obtain ⟨qs, production, parts⟩ := h.exists_production (by simp) (by simp)
      cases production with
      | stmt =>
        obtain ⟨qs, production, parts⟩ := parts.exists_production (by simp) (by simp)
        cases production with
        | exprStmt =>
          obtain ⟨vs, ws, rfl, first, -⟩ := parts.uncons
          obtain ⟨t, ts, rfl, ht⟩ := exists_head_call first own
          exact ⟨t, ts ++ ws, rfl, ht⟩
    · cases hc
  · cases hc

end SketchPrep.Phrase
