import SketchPrep.Proofs.Syntax.Grouping

/-!
What a reader takes off the stream. A reader `Reads` phrases if the tokens that it takes spell
them, with operators between operands that they may have; a reader of a tree takes no other tokens
than those, and this is the way its lemma is stated.
-/

namespace SketchPrep.Syntax

open Phrase

namespace Stream

/-- From `s` to `t` the tokens `ts` are taken. -/
structure Took (s : Stream) (ts : List Token) (t : Stream) : Prop where
  ahead : s.ahead = ts ++ t.ahead
  lastStop : t.lastStop = (ts.getLast?.map Token.stop).getD s.lastStop

theorem Took.refl (s : Stream) : s.Took [] s := ⟨rfl, rfl⟩

theorem Took.trans {s t u : Stream} {ts us : List Token} (h : s.Took ts t) (k : t.Took us u) :
    s.Took (ts ++ us) u where
  ahead := by rw [h.ahead, k.ahead, List.append_assoc]
  lastStop := by
    rw [k.lastStop, h.lastStop, List.getLast?_append]
    cases us.getLast? <;> rfl

/-- From `s` to `t` the phrases `ps` are read. -/
def Read (s : Stream) (ps : List Phrase) (t : Stream) : Prop := ∃ ts, s.Took ts t ∧ Derives ps ts

variable {s t u : Stream} {ps qs : List Phrase}

theorem Read.nil (s : Stream) : s.Read [] s := ⟨[], .refl s, .nil⟩

theorem Read.append (h : s.Read ps t) (k : t.Read qs u) : s.Read (ps ++ qs) u := by
  obtain ⟨ts, hts, derives⟩ := h
  obtain ⟨us, hus, derives'⟩ := k
  exact ⟨ts ++ us, hts.trans hus, derives.append derives'⟩

theorem lo_of_ahead {a : Token} {ts : List Token} (h : s.ahead = a :: ts) :
    s.lo = a.start.offset := by
  simp [lo, current, nth, h]

theorem Took.spanOf? {ts : List Token} (h : s.Took ts t) (hts : ts ≠ []) :
    Token.spanOf? ts = some (t.spanFrom s.lo) := by
  obtain ⟨a, us, rfl⟩ := List.exists_cons_of_ne_nil hts
  have lastStop := h.lastStop
  rw [List.getLast?_cons] at lastStop
  simp only [Token.spanOf?, List.head?_cons, List.getLast?_cons, spanFrom, lastStop,
    lo_of_ahead h.ahead]
  rfl

/-- A tree is read when its parts are, and its span is where they stand. Only operators are
particular about their operands. -/
theorem Read.rule {p : Phrase} (hp : Production p qs) (h : s.Read qs t) (binds : Binds p qs)
    (span : ∀ a, p.span? = some a → a = t.spanFrom s.lo) : s.Read [p] t := by
  obtain ⟨ts, took, derives⟩ := h
  refine ⟨ts, took, ?_⟩
  have here := took.spanOf? (derives.spells.ne_nil hp.ne_nil)
  have whole := Derives.rule hp binds derives (fun a ha => by rw [here, span a ha]) .nil
  rwa [List.append_nil] at whole

theorem Read.span {p : Phrase} {a : Span} (h : s.Read [p] t) (ha : p.span? = some a) :
    a = t.spanFrom s.lo := by
  obtain ⟨ts, took, derives⟩ := h
  have here := took.spanOf? (derives.spells.ne_nil (by simp))
  have own := derives.spells.spanOf? ha
  rw [here] at own
  exact (Option.some.inj own).symm

theorem Read.rule_of_part {p q : Phrase} (h : s.Read [q] t) (hp : Production p [q])
    (binds : Binds p [q]) (span : p.span? = q.span?) : s.Read [p] t :=
  h.rule hp binds fun _ ha => h.span (span ▸ ha)

theorem Read.left_lt (h : s.Read ps t) (hps : ps ≠ []) : t.left < s.left := by
  obtain ⟨ts, took, derives⟩ := h
  have := List.length_pos_iff.2 (derives.spells.ne_nil hps)
  rw [s.left_eq, t.left_eq, took.ahead, List.length_append]
  omega

/-! ### One token -/

theorem text_of_isAt {w : String} (h : s.isAt w) : s.current.text = w := by
  simp only [isAt, Token.is, Bool.and_eq_true, decide_eq_true_eq] at h
  exact h.2

theorem kind_of_isAtKind {k : Token.Kind} (h : s.isAtKind k) : s.current.kind = k := by
  simpa [isAtKind] using h

theorem atEnd_iff : s.atEnd ↔ s.ahead = [] := by simp [atEnd]

theorem current_isEnd (h : s.atEnd) : s.current.isEnd := by
  rw [current, nth, atEnd_iff.1 h]
  exact s.final_isEnd

theorem not_atEnd_of_isAt {w : String} (h : s.isAt w) : ¬s.atEnd := by
  intro hs
  have := current_isEnd hs
  simp_all [isAt, Token.is, Token.isEnd]

theorem not_atEnd_of_isAtKind {k : Token.Kind} (h : s.isAtKind k) (hk : k ≠ .endOfInput) :
    ¬s.atEnd := by
  intro hs
  have := current_isEnd hs
  simp_all [isAtKind, Token.isEnd]

theorem not_atEnd_of_isPrimitiveType (h : s.current.isPrimitiveType) : ¬s.atEnd := by
  intro hs
  have := current_isEnd hs
  simp_all [Token.isPrimitiveType, Token.isEnd]

theorem ahead_eq_cons (h : ¬s.atEnd) : s.ahead = s.current :: s.advance.ahead := by
  rw [advance_ahead, current, nth]
  cases hs : s.ahead with
  | nil => exact absurd (atEnd_iff.2 hs) h
  | cons => rfl

theorem took_advance (h : ¬s.atEnd) : s.Took [s.current] s.advance where
  ahead := ahead_eq_cons h
  lastStop := by
    have ahead := ahead_eq_cons h
    unfold advance
    split
    · simp_all
    · simp_all [current, nth]

theorem read_token (h : ¬s.atEnd) : s.Read [.token s.current] s.advance :=
  ⟨_, took_advance h, .token .nil⟩

theorem read_word {w : String} (h : s.isAt w) : s.Read [.word w] s.advance :=
  ⟨_, took_advance (not_atEnd_of_isAt h), .word h .nil⟩

theorem spanFrom_advance (h : ¬s.atEnd) : s.advance.spanFrom s.lo = s.current.span := by
  have := (took_advance h).lastStop
  simp only [spanFrom, this]
  rfl

/-- A tree that is one token. -/
theorem read_rule_token {p : Phrase} (h : ¬s.atEnd) (hp : Production p [.token s.current])
    (binds : Binds p [.token s.current]) (span : ∀ a, p.span? = some a → a = s.current.span) :
    s.Read [p] s.advance :=
  (read_token h).rule hp binds fun a ha => (span a ha).trans (spanFrom_advance h).symm

theorem read_name (h : s.isAtKind .identifier) : s.Read [.name (.ofToken s.current)] s.advance :=
  read_rule_token (not_atEnd_of_isAtKind h (by simp)) (.name (by simpa [isAtKind] using h))
    trivial (by simp [span?, Ident.ofToken])

theorem advance_final : s.advance.final = s.final := by
  unfold advance
  split <;> rfl

theorem current_advance (h : ¬s.atEnd) : s.advance.current = s.nth 1 := by
  unfold current nth
  rw [ahead_eq_cons h, advance_final]
  rfl

theorem isAt_advance {w : String} (h : ¬s.atEnd) (hw : s.isNext w) : s.advance.isAt w := by
  rwa [isAt, current_advance h]

end Stream

namespace Reader

variable {α β : Type} {s t : Stream}

/-! ### Runs of composed readers -/

theorem bind_eq_ok {r : Reader α} {k : α → Reader β} {b : β} :
    (r >>= k) s = .ok (b, t) ↔ ∃ a u, r s = .ok (a, u) ∧ k a u = .ok (b, t) := by
  change (Except.bind (r s) fun p => k p.1 p.2) = _ ↔ _
  cases h : r s with
  | error e => simp [Except.bind]
  | ok p =>
    constructor
    · intro hk
      exact ⟨p.1, p.2, rfl, hk⟩
    · rintro ⟨_, _, hp, hk⟩
      cases hp
      exact hk

theorem map_eq_ok {r : Reader α} {f : α → β} {b : β} :
    (f <$> r) s = .ok (b, t) ↔ ∃ a, r s = .ok (a, t) ∧ b = f a := by
  change (Except.bind (r s) fun p => .ok (f p.1, p.2)) = _ ↔ _
  cases h : r s with
  | error e => simp [Except.bind]
  | ok p =>
    constructor
    · intro hf
      cases hf
      exact ⟨p.1, rfl, rfl⟩
    · rintro ⟨_, hp, rfl⟩
      cases hp
      rfl

theorem pure_eq_ok {a b : α} : (pure a : Reader α) s = .ok (b, t) ↔ b = a ∧ t = s := by
  change Except.ok (a, s) = _ ↔ _
  simp [eq_comm]

theorem failWith_eq_ok {describe : Stream → SyntaxError} {a : α} :
    failWith describe s = .ok (a, t) ↔ False := by
  simp [failWith]

theorem takeIdent_eq_ok {a : Ident} :
    takeIdent s = .ok (a, t) ↔ a = .ofToken s.current ∧ t = s.advance := by
  simp [takeIdent, Ident.ofToken, eq_comm]

theorem get_bind {k : Stream → Reader β} : (get >>= k) s = k s s := rfl

theorem take_bind {k : Token → Reader β} : (take >>= k) s = k s.current s.advance := rfl

theorem takeIdent_bind {k : Ident → Reader β} :
    (takeIdent >>= k) s = k (.ofToken s.current) s.advance := rfl

theorem eat_bind {w : String} {k : Bool → Reader β} :
    (eat w >>= k) s = if s.isAt w then k true s.advance else k false s := by
  change Except.bind (eat w s) (fun p => k p.1 p.2) = _
  unfold eat
  split <;> rfl

theorem ite_run {c : Prop} [Decidable c] {r q : Reader α} :
    (if c then r else q) s = if c then r s else q s := by
  split <;> rfl

theorem ite_eq_ok {c : Prop} [Decidable c] {x y : Except SyntaxError (α × Stream)}
    {p : α × Stream} : (if c then x else y) = .ok p ↔ (c ∧ x = .ok p) ∨ (¬c ∧ y = .ok p) := by
  split <;> simp_all

theorem foresee_eq_ok {r : Reader Bool} {b : Bool} (h : foresee r s = .ok (b, t)) : t = s := by
  unfold foresee at h
  split at h <;> simp_all

/-! ### What is read -/

/-- Whatever the reader makes of a stream, `f` tells the phrases that it has read. -/
def Reads (r : Reader α) (f : α → List Phrase) : Prop :=
  ∀ s a t, r s = .ok (a, t) → s.Read (f a) t

theorem read_eat {w : String} {b : Bool} (h : eat w s = .ok (b, t)) : s.Read (perhaps b w) t := by
  unfold eat at h
  split at h
  · rename_i hw
    obtain ⟨rfl, rfl⟩ := Prod.mk.inj (Except.ok.inj h)
    exact Stream.read_word hw
  · obtain ⟨rfl, rfl⟩ := Prod.mk.inj (Except.ok.inj h)
    exact .nil _

theorem read_expect {w : String} {a : Token} (h : expect w s = .ok (a, t)) :
    s.Read [.word w] t := by
  unfold expect at h
  split at h
  · rename_i hw
    obtain ⟨rfl, rfl⟩ := Prod.mk.inj (Except.ok.inj h)
    exact Stream.read_word hw
  · cases h

theorem identifier_eq_ok {id : Ident} : identifier s = .ok (id, t) ↔
    s.isAtKind .identifier ∧ id = .ofToken s.current ∧ t = s.advance := by
  unfold identifier
  split <;> simp_all [takeIdent_eq_ok]

theorem reads_identifier : Reads identifier fun id => [.name id] := by
  intro s a t h
  obtain ⟨hs, rfl, rfl⟩ := identifier_eq_ok.1 h
  exact Stream.read_name hs

theorem read_beginDecision {lo : Nat} (h : beginDecision s = .ok (lo, t)) :
    lo = s.lo ∧ t.lo = s.lo ∧ s.Read [] t := by
  obtain ⟨rfl, rfl⟩ := Prod.mk.inj (Except.ok.inj h)
  exact ⟨rfl, rfl, [], ⟨rfl, rfl⟩, .nil⟩

/-! ### Repetitions -/

theorem read_manyWhile {more : Stream → Bool} {item : Reader α} {f : α → List Phrase}
    (hitem : ∀ s a t, more s → item s = .ok (a, t) → s.Read (f a) t) {as : List α}
    (h : manyWhile more item s = .ok (as, t)) : s.Read (as.flatMap f) t := by
  fun_induction manyWhile more item s generalizing as t with
  | case1 => cases h
  | case2 => cases h
  | case3 s hmore a next hi hlt bs last hb ih =>
    obtain ⟨rfl, rfl⟩ := Prod.mk.inj (Except.ok.inj h)
    exact (hitem s a next hmore hi).append (ih hb)
  | case4 s hmore a next hi =>
    obtain ⟨rfl, rfl⟩ := Prod.mk.inj (Except.ok.inj h)
    simpa using hitem s a next hmore hi
  | case5 =>
    obtain ⟨rfl, rfl⟩ := Prod.mk.inj (Except.ok.inj h)
    exact .nil _

/-- A repetition of items that take something stops where no more are wanted. -/
theorem manyWhile_stops {more : Stream → Bool} {item : Reader α}
    (hitem : ∀ s a t, item s = .ok (a, t) → t.left < s.left) {as : List α}
    (h : manyWhile more item s = .ok (as, t)) : ¬more t := by
  fun_induction manyWhile more item s generalizing as t with
  | case1 => cases h
  | case2 => cases h
  | case3 s hmore a next hi hlt bs last hb ih =>
    obtain ⟨rfl, rfl⟩ := Prod.mk.inj (Except.ok.inj h)
    exact ih hb
  | case4 s hmore a next hi hlt => exact absurd (hitem s a next hi) hlt
  | case5 s hmore =>
    obtain ⟨rfl, rfl⟩ := Prod.mk.inj (Except.ok.inj h)
    exact hmore

/-- Items that are trees of their own. -/
theorem reads_manyWhile {more : Stream → Bool} {item : Reader α} {p : α → Phrase}
    (hitem : Reads item fun a => [p a]) : Reads (manyWhile more item) fun as => as.map p := by
  intro s as t h
  show s.Read (as.map p) t
  rw [List.map_eq_flatMap]
  exact read_manyWhile (fun s a t _ hi => hitem s a t hi) h

/-- Items that follow a sign of their own. -/
theorem read_manyWhile_taking {more : Stream → Bool} {w : String} {item : Reader α}
    {p : α → Phrase} (hmore : ∀ s, more s → s.isAt w)
    (hitem : ∀ s a t, more s → item s.advance = .ok (a, t) → s.advance.Read [p a] t)
    {as : List α}
    (h : manyWhile more (do let _ ← take; item) s = .ok (as, t)) :
    s.Read (as.flatMap fun a => [.word w, p a]) t := by
  refine read_manyWhile (fun s a t hs hi => ?_) h
  rw [take_bind] at hi
  exact (Stream.read_word (hmore s hs)).append (hitem s a t hs hi)

theorem reads_sepBy {sep : String} {item : Reader α} {p : α → Phrase}
    (hitem : Reads item fun a => [p a]) :
    Reads (sepBy sep item) fun as => separated sep (as.map p) := by
  intro s as t h
  simp only [sepBy, bind_eq_ok, pure_eq_ok] at h
  obtain ⟨a, u, ha, bs, _, hb, rfl, rfl⟩ := h
  have others := read_manyWhile_taking (fun _ hs => hs) (fun s a t _ hi => hitem _ a t hi) hb
  simpa [separated, List.flatMap_map] using (hitem s a u ha).append others

theorem ne_nil_of_sepBy {sep : String} {item : Reader α} {as : List α}
    (h : sepBy sep item s = .ok (as, t)) : as ≠ [] := by
  simp only [sepBy, bind_eq_ok, pure_eq_ok] at h
  obtain ⟨a, u, ha, bs, _, hb, rfl, rfl⟩ := h
  simp

theorem read_sepEndBy {sep : String} {more : Stream → Bool} {item : Reader α} {p : α → Phrase}
    (hitem : Reads item fun a => [p a]) {as : List α}
    (h : sepEndBy sep more item s = .ok (as, t)) :
    ∃ last, (as = [] → last = false) ∧
      s.Read (separated sep (as.map p) ++ perhaps last sep) t := by
  fun_induction sepEndBy sep more item s generalizing as t with
  | case1 => cases h
  | case2 => cases h
  | case3 s hmore a next hi hsep bs last hb ih =>
    obtain ⟨rfl, rfl⟩ := Prod.mk.inj (Except.ok.inj h)
    simp only [Bool.and_eq_true] at hsep
    obtain ⟨last, hlast, others⟩ := ih hb
    have front := (hitem s a next hi).append (Stream.read_word hsep.1)
    cases bs with
    | nil =>
      rw [hlast rfl] at others
      exact ⟨true, by simp, by simpa [separated, perhaps] using front.append others⟩
    | cons b bs => exact ⟨last, by simp, by simpa [separated] using front.append others⟩
  | case4 s hmore a next hi =>
    obtain ⟨rfl, rfl⟩ := Prod.mk.inj (Except.ok.inj h)
    exact ⟨false, by simp, by simpa [separated, perhaps] using hitem s a next hi⟩
  | case5 =>
    obtain ⟨rfl, rfl⟩ := Prod.mk.inj (Except.ok.inj h)
    exact ⟨false, by simp, .nil _⟩

theorem reads_closeList {item : Reader α} {p : α → Phrase} (hitem : Reads item fun a => [p a]) :
    Reads (closeList item) fun as => separated "," (as.map p) ++ [.word ")"] := by
  intro s as t h
  simp only [closeList, get_bind, ite_run, ite_eq_ok, bind_eq_ok, pure_eq_ok] at h
  obtain ⟨_, _, _, ⟨rfl, rfl⟩, _, _, hclose, rfl, rfl⟩ |
    ⟨_, _, _, hitems, _, _, hclose, rfl, rfl⟩ := h
  · exact read_expect hclose
  · exact (reads_sepBy hitem _ _ _ hitems).append (read_expect hclose)

theorem reads_parenList {item : Reader α} {p : α → Phrase} (hitem : Reads item fun a => [p a]) :
    Reads (parenList item) fun as => parens (as.map p) := by
  intro s as t h
  simp only [parenList, bind_eq_ok] at h
  obtain ⟨_, u, hopen, hitems⟩ := h
  exact (read_expect hopen).append (reads_closeList hitem _ _ _ hitems)

/-- What each step keeps holds when `extend` stops. -/
theorem extend_invariant {step : α → Reader (Option α)} {P : α → Stream → Prop}
    (hnone : ∀ a s t, P a s → step a s = .ok (none, t) → P a t)
    (hsome : ∀ a s b t, P a s → step a s = .ok (some b, t) → P b t) {a b : α} (ha : P a s)
    (h : extend step a s = .ok (b, t)) : P b t := by
  fun_induction extend step a s with
  | case1 => cases h
  | case2 a s next hs =>
    obtain ⟨rfl, rfl⟩ := Prod.mk.inj (Except.ok.inj h)
    exact hnone _ _ _ ha hs
  | case3 a s b next hs hlt ih => exact ih (hsome _ _ _ _ ha hs) h
  | case4 a s b next hs =>
    obtain ⟨rfl, rfl⟩ := Prod.mk.inj (Except.ok.inj h)
    exact hsome _ _ _ _ ha hs

/-- An extension by steps that take something stops where a step has nothing to add. -/
theorem extend_stops {step : α → Reader (Option α)}
    (hstep : ∀ a s b t, step a s = .ok (some b, t) → t.left < s.left) {a b : α}
    (h : extend step a s = .ok (b, t)) : ∃ u, step b u = .ok (none, t) := by
  fun_induction extend step a s with
  | case1 => cases h
  | case2 a s next hs =>
    obtain ⟨rfl, rfl⟩ := Prod.mk.inj (Except.ok.inj h)
    exact ⟨s, hs⟩
  | case3 a s b next hs hlt ih => exact ih h
  | case4 a s b next hs hlt => exact absurd (hstep _ _ _ _ hs) hlt

end Reader

end SketchPrep.Syntax
