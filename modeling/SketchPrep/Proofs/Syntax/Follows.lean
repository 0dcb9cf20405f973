import SketchPrep.Proofs.Syntax.Fork
import SketchPrep.Proofs.Syntax.Recursion
import SketchPrep.Proofs.Syntax.Unspanned

/-!
The same readers on both streams of a fork. Types are read in lockstep, with the same success, and
never through a semicolon or a brace. What nests statements may do so, and is only asked to follow:
where the first reader succeeds without passing the fork, so does the second. Here are the rules for
composed readers, loops among them.
-/

namespace SketchPrep.Syntax.Reader

variable {f : Fork} {m j k : Nat} {α β γ δ : Type} {u : α → γ} {v : β → δ} {s s' : Stream}

/-- Both succeed before the fork, with the same value up to what `v` leaves out, or none does. -/
inductive SameRead (f : Fork) (v : β → δ) :
    Except SyntaxError (β × Stream) → Except SyntaxError (β × Stream) → Prop
  | ok {b b' : β} {t t' : Stream} (value : v b = v b') (within : Within f t t') :
    SameRead f v (.ok (b, t)) (.ok (b', t'))
  | error {e e' : SyntaxError} : SameRead f v (.error e) (.error e')

/-- Before the fork the readers do the same and do not come to it. They take `k` tokens at least. -/
structure Lockstep (f : Fork) (k : Nat) (v : β → δ) (r r' : Reader β) (s s' : Stream) : Prop where
  takes : ∀ {b t}, r s = .ok (b, t) → t.left + k ≤ s.left
  same : Within f s s' → SameRead f v (r s) (r' s')

/-- Where `r` succeeds with `m` tokens left before the fork at least, `r'` succeeds at the same
place with the same value, up to what `v` leaves out. The readers take `k` tokens at least. -/
structure Follows (f : Fork) (m k : Nat) (v : β → δ) (r r' : Reader β) (s s' : Stream) : Prop where
  takes : ∀ {b t}, r s = .ok (b, t) → t.left + k ≤ s.left
  reads : Parallel f s.ahead s'.ahead → ∀ {b t}, r s = .ok (b, t) → f.first.length + m ≤ t.left →
    ∃ b' t', r' s' = .ok (b', t') ∧ v b = v b' ∧ Parallel f t.ahead t'.ahead

theorem left_of_alike {P : Stream → Prop} {E : SyntaxError → Prop} {r r' : Reader β}
    (h : Alike P E k r r' s) {b : β} {t : Stream} (hr : r s = .ok (b, t)) : t.left + k ≤ s.left :=
  (h.of_ok hr).2

theorem left_of_alikeIf {P : Stream → Prop} {E : SyntaxError → Prop} {r r' : Reader (Option β)}
    (h : AlikeIf P E r r' s) {b : Option β} {t : Stream} (hr : r s = .ok (b, t)) :
    t.left + b.toList.length ≤ s.left := by
  unfold AlikeIf at h
  rw [hr] at h
  generalize r' s = x at h
  cases h with
  | ok h => exact h.2

theorem alike_of_takes {r : Reader β} (h : ∀ {b t}, r s = .ok (b, t) → t.left + k ≤ s.left) :
    Alike (fun _ => True) (fun _ => True) k r r s := by
  unfold Alike
  cases hr : r s with
  | error => exact .error trivial
  | ok => exact .ok ⟨trivial, h hr⟩

/-- Items that put nothing back. -/
theorem left_manyWhile_le {more : Stream → Bool} {r : Reader β} {s t : Stream} {bs : List β}
    (item : ∀ u b w, u.left ≤ s.left → more u → r u = .ok (b, w) → w.left ≤ u.left)
    (h : manyWhile more r s = .ok (bs, t)) : t.left ≤ s.left := by
  rw [manyWhile_eq, ite_run, ite_eq_ok] at h
  rcases h with ⟨here, h⟩ | ⟨-, h⟩
  · obtain ⟨b, u, first, rest⟩ := bind_eq_ok.1 h
    have le := item s b u (Nat.le_refl _) here first
    split at rest
    · obtain ⟨cs, rest, -⟩ := map_eq_ok.1 rest
      have := left_manyWhile_le (fun w c x fits => item w c x (by omega)) rest
      omega
    · obtain ⟨-, rfl⟩ := Prod.mk.inj (Except.ok.inj rest)
      exact le
  · obtain ⟨-, rfl⟩ := pure_eq_ok.1 h
    exact Nat.le_refl _
termination_by s.left

theorem left_extend_le {step : β → Reader (Option β)} {b c : β} {s t : Stream}
    (hstep : ∀ c d? u w, u.left ≤ s.left → step c u = .ok (d?, w) → w.left ≤ u.left)
    (h : extend step b s = .ok (c, t)) : t.left ≤ s.left := by
  fun_induction extend step b s with
  | case1 => cases h
  | case2 b s next stop =>
    obtain ⟨rfl, rfl⟩ := Prod.mk.inj (Except.ok.inj h)
    exact hstep _ _ _ _ (Nat.le_refl _) stop
  | case3 b s d next turn shorter ih =>
    have := ih (fun c d? u w fits => hstep c d? u w (by omega)) h
    omega
  | case4 b s d next turn last =>
    obtain ⟨rfl, rfl⟩ := Prod.mk.inj (Except.ok.inj h)
    exact hstep _ _ _ _ (Nat.le_refl _) turn

namespace Lockstep

variable {r r' p p' : Reader β} {q q' : Reader α}

theorem last (h : Lockstep f k v r r' s s') : Lockstep f 0 v r r' s s' where
  takes hr := by
    have := h.takes hr
    omega
  same := h.same

/-- What is looked at is the same in both texts. -/
theorem pureWithin {b b' : β} (h : Within f s s' → v b = v b') :
    Lockstep f 0 v (Pure.pure b) (Pure.pure b') s s' where
  takes hr := by
    obtain ⟨-, rfl⟩ := pure_eq_ok.1 hr
    exact Nat.le_refl _
  same within := .ok (h within) within

theorem pure {b b' : β} (h : v b = v b') : Lockstep f 0 v (Pure.pure b) (Pure.pure b') s s' :=
  .pureWithin fun _ => h

theorem get {r r' : Stream → Reader β} (h : Lockstep f k v (r s) (r' s') s s') :
    Lockstep f k v (get >>= r) (get >>= r') s s' := ⟨h.takes, h.same⟩

theorem bind {r r' : α → Reader β} (hq : Lockstep f j u q q' s s')
    (hr : ∀ a a' t t', u a = u a' → t.left + j ≤ s.left → Lockstep f (k - j) v (r a) (r' a') t t') :
    Lockstep f k v (q >>= r) (q' >>= r') s s' where
  takes h := by
    obtain ⟨a, t, first, second⟩ := bind_eq_ok.1 h
    have le := hq.takes first
    have := (hr a a t t rfl le).takes second
    omega
  same within := by
    have first := hq.same within
    change SameRead f v (Except.bind (q s) fun p => r p.1 p.2)
      (Except.bind (q' s') fun p => r' p.1 p.2)
    cases hs : q s with
    | error e =>
      rw [hs] at first
      generalize q' s' = x at first
      cases first
      exact .error
    | ok p =>
      rw [hs] at first
      generalize q' s' = x at first
      cases first with
      | ok value inner => exact (hr _ _ _ _ value (hq.takes hs)).same inner

/-- The first reader takes all the tokens that count. -/
theorem bindLast {r r' : α → Reader β} (hq : Lockstep f k u q q' s s')
    (hr : ∀ a a' t t', u a = u a' → t.left + k ≤ s.left → Lockstep f 0 v (r a) (r' a') t t') :
    Lockstep f k v (q >>= r) (q' >>= r') s s' :=
  hq.bind fun a a' t t' value le => Nat.sub_self k ▸ hr a a' t t' value le

theorem map {g g' : α → β} (hq : Lockstep f k u q q' s s')
    (hg : ∀ a a', u a = u a' → v (g a) = v (g' a')) :
    Lockstep f k v (g <$> q) (g' <$> q') s s' := by
  have composed : Lockstep f k v (q >>= fun a => Pure.pure (g a))
      (q' >>= fun a => Pure.pure (g' a)) s s' :=
    hq.bindLast fun a a' t t' value _ => .pure (hg a a' value)
  exact composed

theorem ite {c c' : Bool} (same : Within f s s' → c' = c)
    (yes : c → Lockstep f k v r r' s s') (no : ¬c → Lockstep f k v p p' s s') :
    Lockstep f k v (if c then r else p) (if c' then r' else p') s s' where
  takes h := by
    rw [ite_run, ite_eq_ok] at h
    rcases h with ⟨hc, h⟩ | ⟨hc, h⟩
    · exact (yes hc).takes h
    · exact (no hc).takes h
  same within := by
    rw [same within, ite_run, ite_run]
    split
    · rename_i hc
      exact (yes hc).same within
    · rename_i hc
      exact (no hc).same within

theorem failWith {describe describe' : Stream → SyntaxError} :
    Lockstep f k v (failWith describe) (failWith describe') s s' where
  takes h := (failWith_eq_ok.1 h).elim
  same _ := .error

theorem take (h : ¬s.atEnd) (ht : ¬s.current.closes) :
    Lockstep f 1 Token.text take take s s' where
  takes h' := by
    obtain ⟨-, rfl⟩ := Prod.mk.inj (Except.ok.inj h')
    exact Stream.left_advance_lt h
  same within := .ok within.text.symm (within.advance ht)

/-- It is known what the next reader begins with. -/
theorem takeBind {r r' : Token → Reader β} (h : ¬s.atEnd) (ht : ¬s.current.closes)
    (hr : Lockstep f (k - 1) v (r s.current) (r' s'.current) s.advance s'.advance) :
    Lockstep f k v (Reader.take >>= r) (Reader.take >>= r') s s' where
  takes h' := by
    have := hr.takes (take_bind (k := r) ▸ h')
    have := Stream.left_advance_lt h
    omega
  same within := hr.same (within.advance ht)

theorem takeIdent (h : ¬s.atEnd) (ht : ¬s.current.closes) :
    Lockstep f 1 Ident.unspanned takeIdent takeIdent s s' where
  takes h' := by
    obtain ⟨-, rfl⟩ := takeIdent_eq_ok.1 h'
    exact Stream.left_advance_lt h
  same within := .ok (by simp [Ident.unspanned, within.text]) (within.advance ht)

theorem expect {w : String} (other : w ≠ ";" ∧ w ≠ "\x7d") :
    Lockstep f 1 (fun _ => ()) (expect w) (expect w) s s' where
  takes h := by
    unfold Reader.expect at h
    split at h
    · rename_i hw
      obtain ⟨-, rfl⟩ := Prod.mk.inj (Except.ok.inj h)
      exact Stream.left_advance_lt (Stream.not_atEnd_of_isAt hw)
    · cases h
  same within := by
    unfold Reader.expect
    rw [within.isAt]
    split
    · rename_i hw
      exact .ok rfl (within.advance (Token.not_closes_of_is hw other))
    · exact .error

theorem eatIte {w : String} (other : w ≠ ";" ∧ w ≠ "\x7d")
    (yes : ∀ t t', t.left + 1 ≤ s.left → Lockstep f (k - 1) v r r' t t')
    (no : Lockstep f k v p p' s s') :
    Lockstep f k v (eat w >>= fun b => if b = true then r else p)
      (eat w >>= fun b => if b = true then r' else p') s s' where
  takes h := by
    rw [eat_bind, ite_eq_ok] at h
    rcases h with ⟨hw, h⟩ | ⟨-, h⟩
    · have lt := Stream.left_advance_lt (Stream.not_atEnd_of_isAt hw)
      have := (yes s.advance s.advance lt).takes h
      omega
    · exact no.takes h
  same within := by
    rw [eat_bind, eat_bind, within.isAt]
    split
    · rename_i hw
      have lt := Stream.left_advance_lt (Stream.not_atEnd_of_isAt hw)
      exact (yes _ _ lt).same (within.advance (Token.not_closes_of_is hw other))
    · exact no.same within

theorem identifier : Lockstep f 1 Ident.unspanned identifier identifier s s' where
  takes h := by
    obtain ⟨hs, -, rfl⟩ := identifier_eq_ok.1 h
    exact Stream.left_advance_lt (Stream.not_atEnd_of_isAtKind hs (by decide))
  same within := by
    unfold Reader.identifier
    rw [within.isAtKind]
    split
    · rename_i hs
      have here := Stream.not_atEnd_of_isAtKind hs (by decide)
      exact (takeIdent here (Stream.not_closes_of_isAtKind hs (by decide))).same within
    · exact .error

/-- The items need only be in lockstep where the loop turns to them. -/
theorem manyWhile {more : Stream → Bool} {s s' : Stream}
    (same : ∀ t t', Within f t t' → more t' = more t)
    (item : ∀ t t', t.left ≤ s.left → more t → Lockstep f 0 v r r' t t') :
    Lockstep f 0 (List.map v) (manyWhile more r) (manyWhile more r') s s' := by
  refine ⟨left_manyWhile_le fun u b w fits here => (item u u fits here).takes, fun within => ?_⟩
  rw [manyWhile_eq, manyWhile_eq, same s s' within]
  by_cases here : more s
  · have first := item s s' (Nat.le_refl _) here
    have read := first.same within
    rw [if_pos here, if_pos here]
    change SameRead f _ (Except.bind (r s) _) (Except.bind (r' s') _)
    cases hs : r s with
    | error e =>
      rw [hs] at read
      generalize r' s' = x at read
      cases read
      exact .error
    | ok p =>
      rw [hs] at read
      have le := first.takes hs
      generalize r' s' = x at read
      cases read with
      | @ok a a' t t' value inner =>
        simp only [Except.bind, within.parallel.left_lt_iff inner.parallel]
        split
        · have loop := @manyWhile more t t' same fun u u' fits => item u u' (by omega)
          have cons (as as' : List β) (values : as.map v = as'.map v) :
              (a :: as).map v = (a' :: as').map v := by
            rw [List.map_cons, List.map_cons, value, values]
          exact (loop.map cons).same inner
        · exact .ok (by simp [value]) inner
  · rw [if_neg here, if_neg here]
    exact .ok rfl within
termination_by s.left

theorem sepBy {sep : String} (other : sep ≠ ";" ∧ sep ≠ "\x7d")
    (item : ∀ t t', t.left ≤ s.left → Lockstep f k v r r' t t') :
    Lockstep f k (List.map v) (sepBy sep r) (sepBy sep r') s s' := by
  refine (item s s' (Nat.le_refl _)).bindLast fun a a' t t' value le => ?_
  have others : Lockstep f 0 (List.map v) (Reader.manyWhile (·.isAt sep) do let _ ← Reader.take; r)
      (Reader.manyWhile (·.isAt sep) do let _ ← Reader.take; r') t t' :=
    manyWhile (fun t t' within => within.isAt sep) fun u u' fits here =>
      (take (Stream.not_atEnd_of_isAt here) (Token.not_closes_of_is here other)).bind
        fun _ _ x x' _ less => (item x x' (by omega)).last
  refine others.bind fun as as' x x' values _ => ?_
  exact .pure (by rw [List.map_cons, List.map_cons, value, values])

end Lockstep

namespace Follows

variable {r r' p p' : Reader β} {q q' : Reader α}

theorem last (h : Follows f m k v r r' s s') : Follows f m 0 v r r' s s' where
  takes hr := by
    have := h.takes hr
    omega
  reads := h.reads

/-- What is read up to the fork is read before it. -/
theorem mono (h : Follows f 0 k v r r' s s') : Follows f m k v r r' s s' where
  takes := h.takes
  reads parallel _ _ hr le := h.reads parallel hr (by omega)

/-- It is enough to read before the fork. -/
theorem of_within (some : 1 ≤ m + k) (takes : ∀ {b t}, r s = .ok (b, t) → t.left + k ≤ s.left)
    (h : Within f s s' → Follows f m k v r r' s s') : Follows f m k v r r' s s' where
  takes := takes
  reads parallel b t hr le := by
    have shorter := takes hr
    exact (h ⟨parallel, by omega⟩).reads parallel hr le

theorem of_lockstep_within (h : Lockstep f k v r r' s s') (within : Within f s s') :
    Follows f m k v r r' s s' where
  takes := h.takes
  reads _ b t hr _ := by
    have read := h.same within
    rw [hr] at read
    generalize r' s' = x at read
    cases read with
    | ok value inner => exact ⟨_, _, rfl, value, inner.parallel⟩

theorem of_lockstep (some : 1 ≤ m + k) (h : Lockstep f k v r r' s s') :
    Follows f m k v r r' s s' := of_within some h.takes (of_lockstep_within h)

/-- The tokens are counted otherwise. -/
theorem taking (takes : ∀ {b t}, r s = .ok (b, t) → t.left + k ≤ s.left)
    (h : Follows f m j v r r' s s') : Follows f m k v r r' s s' := ⟨takes, h.reads⟩

/-- What both readers come to is known. -/
theorem of_ok {b b' : β} {t t' : Stream} (hr : r s = .ok (b, t)) (hr' : r' s' = .ok (b', t'))
    (value : v b = v b') (inner : Parallel f t.ahead t'.ahead) (takes : t.left + k ≤ s.left) :
    Follows f m k v r r' s s' where
  takes h := by
    rw [hr] at h
    obtain ⟨rfl, rfl⟩ := Prod.mk.inj (Except.ok.inj h)
    exact takes
  reads _ _ _ h _ := by
    rw [hr] at h
    obtain ⟨rfl, rfl⟩ := Prod.mk.inj (Except.ok.inj h)
    exact ⟨b', t', hr', value, inner⟩

theorem pure {b b' : β} (h : v b = v b') : Follows f m 0 v (Pure.pure b) (Pure.pure b') s s' where
  takes hr := by
    obtain ⟨-, rfl⟩ := pure_eq_ok.1 hr
    exact Nat.le_refl _
  reads parallel b t hr _ := by
    obtain ⟨rfl, rfl⟩ := pure_eq_ok.1 hr
    exact ⟨b', s', rfl, h, parallel⟩

theorem get {r r' : Stream → Reader β} (h : Follows f m k v (r s) (r' s') s s') :
    Follows f m k v (get >>= r) (get >>= r') s s' := ⟨h.takes, h.reads⟩

/-- Where the first reader has to be before the fork, the second takes tokens up to it. Only those
are counted. -/
theorem andThenOf {m' : Nat} {r r' : α → Reader β} (hq : Follows f m' j u q q' s s')
    (before : m' ≤ m + k)
    (hr : ∀ a a' t t', u a = u a' → q s = .ok (a, t) → Follows f m k v (r a) (r' a') t t') :
    Follows f m k v (q >>= r) (q' >>= r') s s' where
  takes h := by
    obtain ⟨a, t, first, second⟩ := bind_eq_ok.1 h
    have le := hq.takes first
    have := (hr a a t t rfl first).takes second
    omega
  reads parallel b t h le := by
    obtain ⟨a, w, first, second⟩ := bind_eq_ok.1 h
    have shorter := hq.takes first
    have rest := (hr a a w w rfl first).takes second
    obtain ⟨a', w', first', value, inner⟩ := hq.reads parallel first (by omega)
    obtain ⟨b', t', second', result, behind⟩ := (hr a a' w w' value first).reads inner second le
    exact ⟨b', t', bind_eq_ok.2 ⟨a', w', first', second'⟩, result, behind⟩

theorem andThen {m' : Nat} {r r' : α → Reader β} (hq : Follows f m' j u q q' s s')
    (before : m' ≤ m + k)
    (hr : ∀ a a' t t', u a = u a' → t.left + j ≤ s.left → Follows f m k v (r a) (r' a') t t') :
    Follows f m k v (q >>= r) (q' >>= r') s s' :=
  hq.andThenOf before fun a a' t t' value first => hr a a' t t' value (hq.takes first)

theorem bind {m' : Nat} {r r' : α → Reader β} (hq : Follows f m' j u q q' s s')
    (before : m' ≤ m + (k - j))
    (hr : ∀ a a' t t', u a = u a' → t.left + j ≤ s.left →
      Follows f m (k - j) v (r a) (r' a') t t') : Follows f m k v (q >>= r) (q' >>= r') s s' := by
  refine taking (fun h => ?_) (hq.andThen before hr)
  obtain ⟨a, t, first, second⟩ := bind_eq_ok.1 h
  have le := hq.takes first
  have := (hr a a t t rfl le).takes second
  omega

/-- Something may have been found, in both texts or in neither. -/
theorem bindOption {m' : Nat} {q q' : Reader (Option α)} {r r' : Option α → Reader β}
    (hq : Follows f m' j (Option.map u) q q' s s') (before : m' ≤ m + k)
    (some : ∀ a a' t t', u a = u a' → q s = .ok (some a, t) →
      Follows f m k v (r (some a)) (r' (some a')) t t')
    (none : ∀ t t', t.left + j ≤ s.left → Follows f m k v (r none) (r' none) t t') :
    Follows f m k v (q >>= r) (q' >>= r') s s' := by
  refine hq.andThenOf before fun a? a?' t t' value first => ?_
  cases a? with
  | none =>
    obtain rfl : a?' = .none := Option.map_eq_none_iff.1 value.symm
    exact none t t' (hq.takes first)
  | some a =>
    obtain ⟨a', rfl, same⟩ := Option.map_eq_some_iff.1 value.symm
    exact some a a' t t' same.symm first

theorem bindLast {r r' : α → Reader β} (hq : Follows f m k u q q' s s')
    (hr : ∀ a a' t t', u a = u a' → t.left + k ≤ s.left → Follows f m 0 v (r a) (r' a') t t') :
    Follows f m k v (q >>= r) (q' >>= r') s s' :=
  hq.bind (Nat.le_add_right m _) fun a a' t t' value le => Nat.sub_self k ▸ hr a a' t t' value le

/-- The first reader does not come to the fork. -/
theorem bindLockstep (some : 1 ≤ m + k) {r r' : α → Reader β} (hq : Lockstep f j u q q' s s')
    (hr : ∀ a a' t t', u a = u a' → t.left + j ≤ s.left →
      Follows f m (k - j) v (r a) (r' a') t t') : Follows f m k v (q >>= r) (q' >>= r') s s' := by
  refine of_within some (fun h => ?_) fun within => ?_
  · obtain ⟨a, t, first, second⟩ := bind_eq_ok.1 h
    have le := hq.takes first
    have := (hr a a t t rfl le).takes second
    omega
  · exact (of_lockstep_within (m := 0) hq within).bind (Nat.zero_le _) hr

/-- Something is made of what is read. -/
theorem returning {g g' : α → β} (hq : Follows f m k u q q' s s')
    (hg : ∀ a a', u a = u a' → v (g a) = v (g' a')) :
    Follows f m k v (q >>= fun a => Pure.pure (g a)) (q' >>= fun a => Pure.pure (g' a)) s s' :=
  hq.bindLast fun a a' _ _ value _ => .pure (hg a a' value)

/-- Something is made of what is read and of the place where it ends. -/
theorem returningAt {g g' : α → Stream → β} (hq : Follows f m k u q q' s s')
    (hg : ∀ a a' t t', u a = u a' → v (g a t) = v (g' a' t')) :
    Follows f m k v (q >>= fun a => MonadState.get >>= fun t => Pure.pure (g a t))
      (q' >>= fun a => MonadState.get >>= fun t => Pure.pure (g' a t)) s s' :=
  hq.bindLast fun a a' t t' value _ => .get (.pure (hg a a' t t' value))

theorem map {g g' : α → β} (hq : Follows f m k u q q' s s')
    (hg : ∀ a a', u a = u a' → v (g a) = v (g' a')) :
    Follows f m k v (g <$> q) (g' <$> q') s s' := hq.returning hg

theorem returningSome (hq : Follows f m k u q q' s s') :
    Follows f m k (Option.map u) (q >>= fun a => Pure.pure (some a))
      (q' >>= fun a => Pure.pure (some a)) s s' :=
  hq.returning fun _ _ value => congrArg some value

theorem found (hq : Follows f m k u q q' s s') :
    Follows f m k (Option.map u) (some <$> q) (some <$> q') s s' := hq.returningSome

theorem ite (some : 1 ≤ m + k) {c c' : Bool} (same : Within f s s' → c' = c)
    (yes : c → Follows f m k v r r' s s') (no : ¬c → Follows f m k v p p' s s') :
    Follows f m k v (if c then r else p) (if c' then r' else p') s s' := by
  refine of_within some (fun h => ?_) fun within => ?_
  · rw [ite_run, ite_eq_ok] at h
    rcases h with ⟨hc, h⟩ | ⟨hc, h⟩
    · exact (yes hc).takes h
    · exact (no hc).takes h
  · rw [same within]
    split
    · exact yes ‹_›
    · exact no ‹_›

/-- The condition is not about the streams. -/
theorem iteSame {c : Prop} [Decidable c] (yes : c → Follows f m k v r r' s s')
    (no : ¬c → Follows f m k v p p' s s') :
    Follows f m k v (if c then r else p) (if c then r' else p') s s' := by
  split
  · exact yes ‹_›
  · exact no ‹_›

theorem failWith {describe describe' : Stream → SyntaxError} :
    Follows f m k v (failWith describe) (failWith describe') s s' where
  takes h := (failWith_eq_ok.1 h).elim
  reads _ _ _ h := (failWith_eq_ok.1 h).elim

/-- Both readers take one token. -/
theorem taken (some : 1 ≤ m + k) {b b' : β} (hr : r s = .ok (b, s.advance))
    (hr' : Within f s s' → r' s' = .ok (b', s'.advance)) (value : Within f s s' → v b = v b')
    (takes : s.advance.left + k ≤ s.left) : Follows f m k v r r' s s' := by
  refine of_within some (fun h => ?_) fun within => ?_
  · rw [hr] at h
    obtain ⟨-, rfl⟩ := Prod.mk.inj (Except.ok.inj h)
    exact takes
  · exact of_ok hr (hr' within) (value within) within.advance_parallel takes

theorem take : Follows f 1 0 Token.text take take s s' :=
  taken (by decide) rfl (fun _ => rfl) (fun within => within.text.symm) s.left_advance_le

/-- The end of input is no token that can be taken. -/
theorem takeSome (h : ¬s.atEnd) : Follows f 0 1 Token.text Reader.take Reader.take s s' :=
  taken (by decide) rfl (fun _ => rfl) (fun within => within.text.symm) (Stream.left_advance_lt h)

theorem ident_unspanned (h : Within f s s') : (Ident.mk s.current.text s.current.span).unspanned =
    (Ident.mk s'.current.text s'.current.span).unspanned := by
  rw [Ident.unspanned, Ident.unspanned, h.text]

theorem takeIdent : Follows f 1 0 Ident.unspanned takeIdent takeIdent s s' :=
  taken (by decide) rfl (fun _ => rfl) ident_unspanned s.left_advance_le

theorem takeName (h : ¬s.atEnd) :
    Follows f 0 1 Ident.unspanned Reader.takeIdent Reader.takeIdent s s' :=
  taken (by decide) rfl (fun _ => rfl) ident_unspanned (Stream.left_advance_lt h)

theorem identifier : Follows f 0 1 Ident.unspanned identifier identifier s s' :=
  of_lockstep (by decide) .identifier

/-- The fork may be right behind the word. -/
theorem expect {w : String} : Follows f 0 1 (fun _ => ()) (expect w) (expect w) s s' := by
  refine of_within (by decide) (left_of_alike (Invariant.any.expect trivial w)) fun within => ?_
  by_cases hw : s.isAt w
  · have here : Reader.expect w s = .ok (s.current, s.advance) := by rw [Reader.expect, if_pos hw]
    have there : Reader.expect w s' = .ok (s'.current, s'.advance) := by
      rw [Reader.expect, within.isAt, if_pos hw]
    exact taken (by decide) here (fun _ => there) (fun _ => rfl)
      (Stream.left_advance_lt (Stream.not_atEnd_of_isAt hw))
  · refine ⟨fun h => ?_, fun _ _ _ h => ?_⟩
    · rw [Reader.expect, if_neg hw] at h
      cases h
    · rw [Reader.expect, if_neg hw] at h
      cases h

/-- What is read and the word it ends with; only the word may be the last before the fork. -/
theorem closedBy {w : String} {g g' : α → β} (hq : Follows f 1 k u q q' s s')
    (hg : ∀ a a', u a = u a' → v (g a) = v (g' a')) :
    Follows f 0 1 v (q >>= fun a => Reader.expect w >>= fun _ => Pure.pure (g a))
      (q' >>= fun a => Reader.expect w >>= fun _ => Pure.pure (g' a)) s s' :=
  hq.andThen (by decide) fun a a' _ _ value _ => expect.returning fun _ _ _ => hg a a' value

theorem eat {w : String} : Follows f 1 0 id (eat w) (eat w) s s' := by
  refine of_within (by decide) (left_of_alike (Invariant.any.eat trivial w)) fun within => ?_
  by_cases hw : s.isAt w
  · have here : Reader.eat w s = .ok (true, s.advance) := by rw [Reader.eat, if_pos hw]
    have there : Reader.eat w s' = .ok (true, s'.advance) := by
      rw [Reader.eat, within.isAt, if_pos hw]
    exact taken (by decide) here (fun _ => there) (fun _ => rfl) s.left_advance_le
  · have stay : Follows f 1 0 id (Pure.pure false) (Pure.pure false) s s' := pure rfl
    refine ⟨fun h => stay.takes (Eq.trans ?_ h), fun parallel _ _ h le => ?_⟩
    · rw [Reader.eat, if_neg hw]
      rfl
    · rw [Reader.eat, if_neg hw] at h
      rw [Reader.eat, within.isAt, if_neg hw]
      exact stay.reads parallel h le

theorem not_isAt_of_stops {w : String} (h : s.ahead = f.second) (hw : w ≠ ";") : ¬s.isAt w := by
  intro at_w
  have ahead := Stream.ahead_eq_cons (Stream.not_atEnd_of_isAt at_w)
  have stop := f.stops s.current (by rw [← h, ahead]; rfl)
  have text : s.current.text = ";" := of_decide_eq_true (Bool.and_eq_true_iff.1 stop).2
  exact hw ((Stream.text_of_isAt at_w).symm.trans text)

/-- At the fork no word but a semicolon is taken. -/
theorem eatIte {w : String} (aside : w ≠ ";" ∨ 1 ≤ m + k)
    (yes : ∀ t t', t.left + 1 ≤ s.left → Follows f m (k - 1) v r r' t t')
    (no : Follows f m k v p p' s s') :
    Follows f m k v (Reader.eat w >>= fun b => if b = true then r else p)
      (Reader.eat w >>= fun b => if b = true then r' else p') s s' where
  takes h := by
    rw [eat_bind, ite_eq_ok] at h
    rcases h with ⟨hw, h⟩ | ⟨-, h⟩
    · have lt := Stream.left_advance_lt (Stream.not_atEnd_of_isAt hw)
      have := (yes s.advance s.advance lt).takes h
      omega
    · exact no.takes h
  reads parallel b t h le := by
    rw [eat_bind, ite_eq_ok] at h
    rw [eat_bind]
    rcases h with ⟨hw, h⟩ | ⟨hw, h⟩
    · have lt := Stream.left_advance_lt (Stream.not_atEnd_of_isAt hw)
      have shorter := (yes s.advance s'.advance lt).takes h
      have within : Within f s s' := ⟨parallel, by omega⟩
      rw [within.isAt, if_pos hw]
      exact (yes _ _ lt).reads within.advance_parallel h le
    · have shorter := no.takes h
      have stays : ¬s'.isAt w := by
        by_cases lt : f.first.length < s.left
        · have within : Within f s s' := ⟨parallel, lt⟩
          rwa [within.isAt]
        · exact not_isAt_of_stops (parallel.eq_second lt) (aside.resolve_right (by omega))
      rw [if_neg stays]
      exact no.reads parallel h le

/-! ### Loops and lists -/

/-- A loop may come to the fork if it stops there. -/
theorem manyWhileTo {more : Stream → Bool}
    (same : ∀ t t', Within f t t' → more t' = more t)
    (stop : m = 0 → ∀ t', t'.ahead = f.second → ¬more t') (some : 1 ≤ m + k)
    (item : ∀ t t', t.left ≤ s.left → more t → Follows f m k v r r' t t') :
    Follows f m 0 (List.map v) (manyWhile more r) (manyWhile more r') s s' := by
  refine ⟨left_manyWhile_le fun u b w fits here h => ?_, fun parallel bs t h le => ?_⟩
  · have := (item u u fits here).takes h
    omega
  fun_induction manyWhile more r s generalizing s' bs t with
  | case1 => cases h
  | case2 => cases h
  | case3 s here b next first shorter cs last rest ih =>
    obtain ⟨rfl, rfl⟩ := Prod.mk.inj (Except.ok.inj h)
    have left : last.left ≤ next.left := by
      refine left_manyWhile_le (fun w c x fits here h => ?_) rest
      have := (item w w (by omega) here).takes h
      omega
    have within : Within f s s' := ⟨parallel, by omega⟩
    obtain ⟨b', next', first', value, inner⟩ :=
      (item s s' (Nat.le_refl _) here).reads parallel first (by omega)
    obtain ⟨cs', last', rest', values, behind⟩ :=
      ih (fun w w' fits => item w w' (by omega)) inner _ _ rest le
    refine ⟨b' :: cs', last', manyWhile_turn (same s s' within ▸ here) first' ?_ rest',
      by rw [List.map_cons, List.map_cons, value, values], behind⟩
    exact (parallel.left_lt_iff inner).2 shorter
  | case4 s here b next first last =>
    obtain ⟨rfl, rfl⟩ := Prod.mk.inj (Except.ok.inj h)
    have taken := item s s' (Nat.le_refl _) here
    have shorter := taken.takes first
    have within : Within f s s' := ⟨parallel, by omega⟩
    obtain ⟨b', next', first', value, inner⟩ := taken.reads parallel first le
    refine ⟨[b'], next', manyWhile_last (same s s' within ▸ here) first' ?_, by simp [value], inner⟩
    rwa [parallel.left_lt_iff inner]
  | case5 s here =>
    obtain ⟨rfl, rfl⟩ := Prod.mk.inj (Except.ok.inj h)
    refine ⟨[], s', manyWhile_stop ?_, rfl, parallel⟩
    by_cases lt : f.first.length < s.left
    · rwa [same s s' ⟨parallel, lt⟩]
    · exact stop (by omega) s' (parallel.eq_second lt)

theorem manyWhile {more : Stream → Bool} (same : ∀ t t', Within f t t' → more t' = more t)
    (item : ∀ t t', t.left ≤ s.left → more t → Follows f 1 0 v r r' t t') :
    Follows f 1 0 (List.map v) (manyWhile more r) (manyWhile more r') s s' :=
  manyWhileTo same nofun (Nat.le_refl _) item

theorem sepEndBy {sep : String} {more : Stream → Bool}
    (same : ∀ t t', Within f t t' → more t' = more t)
    (item : ∀ t t', t.left ≤ s.left → Follows f 1 0 v r r' t t') :
    Follows f 1 0 (List.map v) (sepEndBy sep more r) (sepEndBy sep more r') s s' := by
  have left {s : Stream} (item : ∀ t t', t.left ≤ s.left → Follows f 1 0 v r r' t t') :
      Alike (fun _ => True) (fun _ => True) 0 (Reader.sepEndBy sep more r)
        (Reader.sepEndBy sep more r) s :=
    .sepEndBy (fun _ _ => trivial) (fun t _ fits => alike_of_takes (item t t fits).takes) trivial
  refine ⟨left_of_alike (left item), fun parallel bs t h le => ?_⟩
  fun_induction Reader.sepEndBy sep more r s generalizing s' bs t with
  | case1 => cases h
  | case2 => cases h
  | case3 s here b next first again cs last rest ih =>
    obtain ⟨rfl, rfl⟩ := Prod.mk.inj (Except.ok.inj h)
    have taken := item s s' (Nat.le_refl _)
    have shorter := taken.takes first
    have advance := next.left_advance_le
    have items (w w' : Stream) (fits : w.left ≤ next.advance.left) : Follows f 1 0 v r r' w w' :=
      item w w' (by omega)
    have rest_left := left_of_alike (left items) rest
    obtain ⟨b', next', first', value, inner⟩ := taken.reads parallel first (by omega)
    have within : Within f next next' := ⟨inner, by omega⟩
    obtain ⟨cs', last', rest', values, behind⟩ :=
      ih items within.advance_parallel _ _ rest le
    refine ⟨b' :: cs', last', sepEndBy_turn (same s s' ⟨parallel, by omega⟩ ▸ here) first' ?_ rest',
      by rw [List.map_cons, List.map_cons, value, values], behind⟩
    rwa [within.isAt, decide_eq_decide.2 (parallel.left_lt_iff within.advance_parallel)]
  | case4 s here b next first last =>
    obtain ⟨rfl, rfl⟩ := Prod.mk.inj (Except.ok.inj h)
    have taken := item s s' (Nat.le_refl _)
    have shorter := taken.takes first
    obtain ⟨b', next', first', value, inner⟩ := taken.reads parallel first le
    have within : Within f next next' := ⟨inner, by omega⟩
    refine ⟨[b'], next', sepEndBy_last (same s s' ⟨parallel, by omega⟩ ▸ here) first' ?_,
      by simp [value], inner⟩
    rwa [within.isAt, decide_eq_decide.2 (parallel.left_lt_iff within.advance_parallel)]
  | case5 s here =>
    obtain ⟨rfl, rfl⟩ := Prod.mk.inj (Except.ok.inj h)
    refine ⟨[], s', sepEndBy_stop ?_, rfl, parallel⟩
    rwa [same s s' ⟨parallel, le⟩]

theorem extend {step step' : β → Reader (Option β)} {b b' : β} (value : v b = v b')
    (hstep : ∀ c c' t t', v c = v c' → t.left ≤ s.left →
      Follows f 1 0 (Option.map v) (step c) (step' c') t t') :
    Follows f 1 0 v (extend step b) (extend step' b') s s' := by
  refine ⟨left_extend_le fun c d t u fits => (hstep c c t t rfl fits).takes,
    fun parallel d t h le => ?_⟩
  fun_induction Reader.extend step b s generalizing s' b' d t with
  | case1 => cases h
  | case2 b s next stop =>
    obtain ⟨rfl, rfl⟩ := Prod.mk.inj (Except.ok.inj h)
    obtain ⟨c', next', stop', none, inner⟩ :=
      (hstep b b' s s' value (Nat.le_refl _)).reads parallel stop le
    obtain rfl : c' = .none := Option.map_eq_none_iff.1 none.symm
    exact ⟨b', next', extend_stop stop', value, inner⟩
  | case3 b s c next turn shorter ih =>
    have steps (x x' : β) (w w' : Stream) (same : v x = v x') (fits : w.left ≤ next.left) :
        Follows f 1 0 (Option.map v) (step x) (step' x') w w' := hstep x x' w w' same (by omega)
    have left := left_extend_le (fun c d t u fits => (steps c c t t rfl fits).takes) h
    obtain ⟨c', next', turn', some, inner⟩ :=
      (hstep b b' s s' value (Nat.le_refl _)).reads parallel turn (by omega)
    obtain ⟨c', rfl, same⟩ := Option.map_eq_some_iff.1 some.symm
    obtain ⟨d', t', rest, result, behind⟩ := ih same.symm steps inner _ _ h le
    exact ⟨d', t', extend_turn turn' ((parallel.left_lt_iff inner).2 shorter) rest, result, behind⟩
  | case4 b s c next turn last =>
    obtain ⟨rfl, rfl⟩ := Prod.mk.inj (Except.ok.inj h)
    obtain ⟨c', next', turn', some, inner⟩ :=
      (hstep b b' s s' value (Nat.le_refl _)).reads parallel turn le
    obtain ⟨c', rfl, same⟩ := Option.map_eq_some_iff.1 some.symm
    refine ⟨c', next', extend_last turn' ?_, same.symm, inner⟩
    rwa [parallel.left_lt_iff inner]

theorem sepBy {sep : String} (item : ∀ t t', t.left ≤ s.left → Follows f 1 k v r r' t t') :
    Follows f 1 k (List.map v) (sepBy sep r) (sepBy sep r') s s' := by
  refine (item s s' (Nat.le_refl _)).bindLast fun a a' t t' value le => ?_
  have others : Follows f 1 0 (List.map v) (Reader.manyWhile (·.isAt sep) do let _ ← Reader.take; r)
      (Reader.manyWhile (·.isAt sep) do let _ ← Reader.take; r') t t' :=
    manyWhile (fun t t' within => within.isAt sep) fun u u' fits here =>
      take.bind (by decide) fun _ _ x x' _ less => (item x x' (by omega)).last
  refine others.bind (by omega) fun as as' x x' values _ => ?_
  exact .pure (by rw [List.map_cons, List.map_cons, value, values])

theorem closeList (item : ∀ t t', t.left ≤ s.left → Follows f 1 k v r r' t t') :
    Follows f 0 1 (List.map v) (closeList r) (closeList r') s s' := by
  refine .get (.ite (by decide) (fun within => within.isAt ")") (fun _ => ?_) fun _ => ?_)
  · exact (pure (v := List.map v) rfl).closedBy fun _ _ values => values
  · exact (sepBy item).closedBy fun _ _ values => values

/-- The list is read behind its parenthesis. -/
theorem parenList (item : ∀ t t', t.left < s.left → Follows f 1 k v r r' t t') :
    Follows f 0 1 (List.map v) (parenList r) (parenList r') s s' :=
  expect.bind (by decide) fun _ _ t t' _ le =>
    (closeList fun u u' fits => item u u' (by omega)).last

/-- A reader that looks ahead may find something beyond the fork; it is enough that it finds the
same in both texts where what it decides on is read. -/
theorem foresee {p p' : Reader Bool} {r r' : Bool → Reader β}
    (same : ∀ b c t, foresee p s = .ok (b, s) → r b s = .ok (c, t) → f.first.length + m ≤ t.left →
      Parallel f s.ahead s'.ahead → foresee p' s' = .ok (b, s'))
    (hr : ∀ b, Follows f m k v (r b) (r' b) s s') :
    Follows f m k v (foresee p >>= r) (foresee p' >>= r') s s' where
  takes h := by
    obtain ⟨b, t, first, second⟩ := bind_eq_ok.1 h
    obtain rfl := foresee_eq_ok first
    exact (hr b).takes second
  reads parallel c t h le := by
    obtain ⟨b, u, first, second⟩ := bind_eq_ok.1 h
    obtain rfl := foresee_eq_ok first
    rw [bind_of_ok (same b c t first second le parallel)]
    exact (hr b).reads parallel second le

end Follows

end SketchPrep.Syntax.Reader
