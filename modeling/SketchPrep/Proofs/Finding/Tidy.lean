import SketchPrep.Finding
import SketchPrep.Proofs.Draft.WellFormed
import SketchPrep.Proofs.Syntax.Span

/-!
Edits between tokens. Findings are tidy in a run of tokens if their edits begin and end where tokens
do and stand apart from each other. Findings in two runs of tokens, one behind the other, are tidy
together.
-/

namespace SketchPrep

open Token

/-- The edit begins at the edge of a token and ends at one. -/
def Edit.OnEdges (ts : List Token) : Edit → Prop
  | .insert o _ => ∃ t ∈ ts, o = t.start.offset ∨ o = t.stop
  | .delete o n => 0 < n ∧ (∃ t ∈ ts, o = t.start.offset) ∧ ∃ t ∈ ts, o + n = t.stop

/-- The span begins where a token does and ends at the edge of one. -/
structure Span.OnEdges (ts : List Token) (a : Span) : Prop where
  le : a.lo ≤ a.hi
  lo : ∃ t ∈ ts, a.lo = t.start.offset
  hi : ∃ t ∈ ts, a.hi = t.start.offset ∨ a.hi = t.stop

theorem Span.OnEdges.mono {ts us : List Token} {a : Span} (h : a.OnEdges ts)
    (hts : ∀ t ∈ ts, t ∈ us) : a.OnEdges us := by
  obtain ⟨le, ⟨t, ht, hlo⟩, u, hu, hhi⟩ := h
  exact ⟨le, ⟨t, hts t ht, hlo⟩, u, hts u hu, hhi⟩

theorem Edit.OnEdges.mono {ts us : List Token} {e : Edit} (h : e.OnEdges ts)
    (hts : ∀ t ∈ ts, t ∈ us) : e.OnEdges us := by
  cases e with
  | insert o t =>
    obtain ⟨a, ha, hedge⟩ := h
    exact ⟨a, hts a ha, hedge⟩
  | delete o n =>
    obtain ⟨hn, ⟨a, ha, hlo⟩, b, hb, hhi⟩ := h
    exact ⟨hn, ⟨a, hts a ha, hlo⟩, b, hts b hb, hhi⟩

namespace Token

variable {source : Text} {ts us : List Token}

theorem LaidOut.onEdges (h : LaidOut source ts) {a : Span} (ha : spanOf? ts = some a) :
    a.OnEdges ts := by
  obtain ⟨lo, t, ht, hhi⟩ := mem_of_spanOf? ha
  exact ⟨Nat.le_of_lt (h.span_lt ha), lo, t, ht, .inr hhi⟩

end Token

namespace Finding

@[simp] theorem requests_nil : requests [] = [] := rfl

@[simp] theorem requests_append (fs gs : List Finding) :
    requests (fs ++ gs) = requests fs ++ requests gs := List.filterMap_append

/-- The edits of findings. -/
def edits (fs : List Finding) : List Edit := (requests fs).map Draft.Request.edit

@[simp] theorem edits_nil : edits [] = [] := rfl

@[simp] theorem edits_append (fs gs : List Finding) : edits (fs ++ gs) = edits fs ++ edits gs := by
  simp [edits]

/-- The parts of the source that a finding quotes, and the empty part that an issue points at. -/
def quoted : Finding → List Span
  | .candidate call => call.args.map Expr.span
  | .issue i => [⟨i.offset, i.offset⟩]
  | _ => []

structure Tidy (ts : List Token) (fs : List Finding) : Prop where
  onEdges : ∀ e ∈ edits fs, e.OnEdges ts
  apart : (edits fs).Pairwise Edit.Apart
  quotes : ∀ f ∈ fs, ∀ a ∈ f.quoted, a.OnEdges ts

variable {source : Text} {ts us : List Token} {fs gs : List Finding}

theorem Tidy.nil (ts : List Token) : Tidy ts [] := ⟨by simp, by simp, by simp⟩

theorem Tidy.sublist (h : Tidy ts fs) (hs : gs.Sublist fs) : Tidy ts gs := by
  have sub : (edits gs).Sublist (edits fs) := (hs.filterMap _).map _
  exact ⟨fun e he => h.onEdges e (sub.subset he), h.apart.sublist sub,
    fun f hf => h.quotes f (hs.subset hf)⟩

theorem Tidy.perm (h : Tidy ts fs) (hp : fs.Perm gs) : Tidy ts gs := by
  have perm : (edits fs).Perm (edits gs) := (hp.filterMap _).map _
  exact ⟨fun e he => h.onEdges e (perm.mem_iff.2 he), h.apart.perm perm Edit.Apart.symm,
    fun f hf => h.quotes f (hp.mem_iff.2 hf)⟩

theorem Tidy.cons (h : Tidy ts fs) {f : Finding} (hf : f.request? = none)
    (quotes : ∀ a ∈ f.quoted, a.OnEdges ts) : Tidy ts (f :: fs) := by
  have same : edits (f :: fs) = edits fs := by simp [edits, requests, hf]
  exact ⟨same ▸ h.onEdges, same ▸ h.apart, List.forall_mem_cons.2 ⟨quotes, h.quotes⟩⟩

theorem Tidy.append_quotes (h : Tidy ts fs)
    (quotes : ∀ g ∈ gs, g.request? = none ∧ ∀ a ∈ g.quoted, a.OnEdges ts) :
    Tidy ts (gs ++ fs) := by
  induction gs with
  | nil => exact h
  | cons g gs ih =>
    obtain ⟨first, rest⟩ := List.forall_mem_cons.1 quotes
    exact (ih rest).cons first.1 first.2

/-- Edits lie in the span of their tokens. -/
theorem Tidy.bounds (h : Tidy ts fs) (laid : LaidOut source ts) {e : Edit} (he : e ∈ edits fs) :
    ∃ t ∈ ts, ∃ u ∈ ts, t.start.offset ≤ e.offset ∧ e.stop ≤ u.stop := by
  have edges := h.onEdges e he
  cases e with
  | insert o x =>
    obtain ⟨t, ht, hedge⟩ := edges
    have := (laid.lies t ht).lt
    exact ⟨t, ht, t, ht, by simp only [Edit.offset]; omega, by simp only [Edit.stop]; omega⟩
  | delete o n =>
    obtain ⟨-, ⟨t, ht, hlo⟩, u, hu, hhi⟩ := edges
    exact ⟨t, ht, u, hu, Nat.le_of_eq hlo.symm, Nat.le_of_eq hhi⟩

theorem apart_of_stop_le {a b : Edit} (h : a.stop ≤ b.offset) : a.Apart b := by
  cases a <;> cases b <;> simp only [Edit.stop, Edit.offset, Edit.Apart] at * <;> omega

theorem Tidy.append (h : Tidy ts fs) (k : Tidy us gs) (laid : LaidOut source (ts ++ us)) :
    Tidy (ts ++ us) (fs ++ gs) := by
  obtain ⟨laid₁, laid₂, cross⟩ := laidOut_append.1 laid
  refine ⟨?_, ?_, ?_⟩
  · intro e he
    rw [edits_append, List.mem_append] at he
    rcases he with he | he
    · exact (h.onEdges e he).mono (by simp +contextual)
    · exact (k.onEdges e he).mono (by simp +contextual)
  · rw [edits_append]
    refine List.pairwise_append.2 ⟨h.apart, k.apart, fun a ha b hb => apart_of_stop_le ?_⟩
    obtain ⟨-, -, t, ht, -, hstop⟩ := h.bounds laid₁ ha
    obtain ⟨u, hu, -, -, hstart, -⟩ := k.bounds laid₂ hb
    have := cross t ht u hu
    omega
  · intro f hf a ha
    rcases List.mem_append.1 hf with hf | hf
    · exact (h.quotes f hf a ha).mono (by simp +contextual)
    · exact (k.quotes f hf a ha).mono (by simp +contextual)

/-! ### Single edits -/

theorem Tidy.insert_stop (h : Tidy ts fs) (laid : LaidOut source ts) {a : Span} (x : Text)
    (ha : spanOf? ts = some a) : Tidy ts (.edit (.insert a.hi x) :: fs) := by
  obtain ⟨-, t, ht, hhi⟩ := mem_of_spanOf? ha
  refine ⟨?_, ?_, List.forall_mem_cons.2 ⟨by simp [quoted], h.quotes⟩⟩
  · exact List.forall_mem_cons.2 ⟨⟨t, ht, .inr hhi⟩, h.onEdges⟩
  · refine List.pairwise_cons.2 ⟨fun e he => Edit.Apart.symm (apart_of_stop_le ?_), h.apart⟩
    obtain ⟨-, -, u, hu, -, hstop⟩ := h.bounds laid he
    exact Nat.le_trans hstop (laid.bounds ha u hu).2

theorem Tidy.insert_start (h : Tidy ts fs) (laid : LaidOut source ts) {a : Span} (x : Text)
    (ha : spanOf? ts = some a) : Tidy ts (.edit (.insert a.lo x) :: fs) := by
  obtain ⟨⟨t, ht, hlo⟩, -⟩ := mem_of_spanOf? ha
  refine ⟨?_, ?_, List.forall_mem_cons.2 ⟨by simp [quoted], h.quotes⟩⟩
  · exact List.forall_mem_cons.2 ⟨⟨t, ht, .inl hlo⟩, h.onEdges⟩
  · refine List.pairwise_cons.2 ⟨fun e he => apart_of_stop_le ?_, h.apart⟩
    obtain ⟨u, hu, -, -, hstart, -⟩ := h.bounds laid he
    exact Nat.le_trans (laid.bounds ha u hu).1 hstart

theorem tidy_delete (laid : LaidOut source ts) {a : Span} (ha : spanOf? ts = some a) :
    Tidy ts ((Draft.deleteSpan a).map .edit) := by
  have lt := laid.span_lt ha
  obtain ⟨lo, t, ht, hhi⟩ := mem_of_spanOf? ha
  have whole : edits ((Draft.deleteSpan a).map .edit) = [.delete a.lo (a.hi - a.lo)] := by
    rw [Draft.deleteSpan, if_neg (by omega)]
    rfl
  refine ⟨?_, by simp [whole], by simp [quoted]⟩
  rw [whole, List.forall_mem_singleton]
  exact ⟨by omega, lo, t, ht, by omega⟩

/-- All tokens are replaced. -/
theorem tidy_replace (laid : LaidOut source ts) {a : Span} (ha : spanOf? ts = some a) (x : Text) :
    Tidy ts ((Draft.replaceSpan a x).map .edit) :=
  (tidy_delete laid ha).insert_start laid x ha

end Finding

end SketchPrep
