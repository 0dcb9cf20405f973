import Mathlib.Data.List.Basic
import SketchPrep.Proofs.Edit.Rendering

/-!
What a draft is rendered to. The reference goes through the source position by position: it has the
insertions at each, in the order they were recorded, and the byte there unless it is deleted. Main
statement: `text?_eq_reference`, both the draft's own rendering and one pass over its edits give
that text.
-/

namespace SketchPrep.Draft

open Text

/-- The draft after some calls, each a list of requests that is cut at its first faulty one. -/
def afterCalls (source : Text) (calls : List (List Request)) : Draft :=
  calls.foldl (fun d qs => (d.recordAll qs).1) (ofSource source)

/-- What the edited source has for position `i`. -/
def referenceAt (d : Draft) (i : Nat) : List UInt8 :=
  bytes (d.insertedAt i) ++ if Edit.deletesAt d.edits i then [] else (bytes d.source)[i]?.toList

/-- The bytes of the edited source, position by position. -/
def referenceBytes (d : Draft) : List UInt8 := (List.range (d.size + 1)).flatMap d.referenceAt

theorem foldl_recordAll {d : Draft} (h : d.WellFormed) (calls : List (List Request)) :
    (calls.foldl (fun d qs => (d.recordAll qs).1) d).WellFormed ∧
      (calls.foldl (fun d qs => (d.recordAll qs).1) d).source = d.source := by
  induction calls generalizing d with
  | nil => exact ⟨h, rfl⟩
  | cons qs calls ih =>
    obtain ⟨wf, same⟩ := ih (wellFormed_recordAll h qs)
    exact ⟨wf, same.trans (recordAll_source d qs)⟩

theorem wellFormed_afterCalls (source : Text) (calls : List (List Request)) :
    (afterCalls source calls).WellFormed :=
  (foldl_recordAll (wellFormed_ofSource source) calls).1

@[simp] theorem afterCalls_source (source : Text) (calls : List (List Request)) :
    (afterCalls source calls).source = source :=
  (foldl_recordAll (wellFormed_ofSource source) calls).2

variable {d : Draft}

theorem insertedAt_eq (d : Draft) (p : Nat) : d.insertedAt p = Edit.insertedAt d.edits p := rfl

/-- A byte is deleted if any deletion covers it, and the draft finds that one. -/
theorem isDeleted_eq (h : d.WellFormed) (i : Nat) : d.isDeleted i = Edit.deletesAt d.edits i := by
  rw [Bool.eq_iff_iff, isDeleted_iff h, Edit.deletesAt_iff]
  constructor
  · rintro ⟨s, hs, lo, hi⟩
    obtain ⟨o, n, he, rfl⟩ := mem_deletes.1 hs
    exact ⟨o, n, he, lo, hi⟩
  · rintro ⟨o, n, he, lo, hi⟩
    exact ⟨_, mem_deletes.2 ⟨o, n, he, rfl⟩, lo, hi⟩

/-! ### The offsets where an edit begins -/

theorem pairwise_lt_eraseDups {l : List Nat} (h : l.Pairwise (· ≤ ·)) :
    l.eraseDups.Pairwise (· < ·) := by
  induction hn : l.length using Nat.strongRecOn generalizing l with
  | ind n ih =>
    cases l with
    | nil => simp
    | cons a as =>
      rw [List.eraseDups_cons]
      have shorter := List.length_filter_le (fun b => !b == a) as
      simp only [List.length_cons] at hn
      refine .cons (fun b hb => ?_) (ih _ (by omega) (h.tail.filter _) rfl)
      rw [List.mem_eraseDups, List.mem_filter] at hb
      have := List.rel_of_pairwise_cons h hb.1
      simp at hb
      omega

theorem pairwise_points (d : Draft) : d.points.Pairwise (· < ·) := by
  have trans (a b c : Nat) (hab : decide (a ≤ b)) (hbc : decide (b ≤ c)) : decide (a ≤ c) := by
    simp only [decide_eq_true_eq] at *
    omega
  have total (a b : Nat) : decide (a ≤ b) || decide (b ≤ a) := by
    simp only [Bool.or_eq_true, decide_eq_true_eq]
    omega
  have sorted := List.pairwise_mergeSort trans total (d.edits.map Edit.offset)
  exact pairwise_lt_eraseDups (by simpa using sorted)

theorem mem_points {p : Nat} : p ∈ d.points ↔ ∃ e ∈ d.edits, e.offset = p := by
  simp [points]

/-! ### The walk over them -/

/-- The rest begins at `pos` and `points` are the offsets still to come: every edit that begins
behind `pos` has its offset there, and of the others only insertions reach `pos` from the left. -/
structure Reached (d : Draft) (pos : Nat) (points : List Nat) : Prop where
  sorted : points.Pairwise (· < ·)
  behind : ∀ p ∈ points, pos ≤ p
  mem : ∀ p ∈ points, ∃ e ∈ d.edits, e.offset = p
  ahead : ∀ e ∈ d.edits, pos < e.offset → e.offset ∈ points
  passed : ∀ e ∈ d.edits, e.offset < pos → e.stop ≤ pos
  here : ∀ o n, .delete o n ∈ d.edits → o = pos → pos ∈ points

theorem reached_zero (d : Draft) : d.Reached 0 d.points where
  sorted := d.pairwise_points
  behind := fun _ _ => Nat.zero_le _
  mem := fun _ => mem_points.1
  ahead := fun e he _ => mem_points.2 ⟨e, he, rfl⟩
  passed := fun _ _ h => absurd h (Nat.not_lt_zero _)
  here := fun _ _ he ho => mem_points.2 ⟨_, he, ho⟩

section

variable {pos point : Nat} {points : List Nat}

theorem Reached.le_offset (h : d.Reached pos (point :: points)) {e : Edit} (he : e ∈ d.edits)
    (hlt : pos < e.offset) : point ≤ e.offset := by
  rcases List.mem_cons.1 (h.ahead e he hlt) with heq | hmem
  · exact Nat.le_of_eq heq.symm
  · exact Nat.le_of_lt (List.rel_of_pairwise_cons h.sorted hmem)

/-- What begins before the next offset does not reach over `pos`. -/
theorem Reached.stop_le (h : d.Reached pos (point :: points)) {e : Edit} (he : e ∈ d.edits)
    (hlt : e.offset < point) : e.stop ≤ pos := by
  rcases Nat.lt_trichotomy e.offset pos with hl | heq | hg
  · exact h.passed e he hl
  · cases e with
    | insert o t => exact Nat.le_of_eq heq
    | delete o n =>
      rcases List.mem_cons.1 (h.here o n he heq) with hm | hm
      · simp only [Edit.offset_delete] at heq hlt
        omega
      · have := List.rel_of_pairwise_cons h.sorted hm
        simp only [Edit.offset_delete] at heq hlt
        omega
  · have := h.le_offset he hg
    omega

/-- Up to the next offset the source is kept. -/
theorem Reached.renderFrom_kept (h : d.Reached pos (point :: points)) {part rest : Text}
    (hp : pos + part.size = point) :
    (if pos ∈ point :: points then d.insertedAt pos else []) ++
        Edit.renderFrom d.edits pos (part ++ rest) =
      part ++ d.insertedAt point ++ Edit.renderFrom d.edits point rest := by
  rw [Edit.renderFrom_append
    (fun q hlo hhi => Edit.deletesAt_eq_false fun o n he => by
      by_cases hl : o < point
      · have := h.stop_le he hl
        simp only [Edit.stop_delete] at this
        omega
      · omega)
    (fun q hlo hhi => Edit.insertedAt_eq_nil fun t he => by
      have := h.le_offset he hlo
      simp only [Edit.offset_insert] at this
      omega), hp]
  by_cases hpart : part = []
  · subst hpart
    simp only [size_nil, Nat.add_zero] at hp
    simp [hp]
  · have positive : part.size ≠ 0 := by simpa [size_eq_zero_iff] using hpart
    have past : pos ∉ point :: points := by
      intro hm
      rcases List.mem_cons.1 hm with heq | hm
      · omega
      · have := List.rel_of_pairwise_cons h.sorted hm
        omega
    simp [past, hpart, insertedAt_eq]

/-- From an offset where no deletion starts to the next. -/
theorem Reached.step (h : d.Reached pos (point :: points))
    (hn : ∀ n, .delete point n ∉ d.edits) : d.Reached point points where
  sorted := h.sorted.tail
  behind := fun p hp => Nat.le_of_lt (List.rel_of_pairwise_cons h.sorted hp)
  mem := fun p hp => h.mem p (.tail _ hp)
  ahead := fun e he hlt => by
    have hpos := h.behind _ (.head _)
    rcases List.mem_cons.1 (h.ahead e he (Nat.lt_of_le_of_lt hpos hlt)) with heq | hm
    · omega
    · exact hm
  passed := fun e he hlt => Nat.le_trans (h.stop_le he hlt) (h.behind _ (.head _))
  here := fun _ n he ho => absurd (ho ▸ he) (hn n)

/-- An edit other than the deletion of `point` on begins behind it, or does not reach into it. -/
theorem stop_le_or_le_offset (wf : d.WellFormed) {e : Edit} {n : Nat} (he : e ∈ d.edits)
    (hd : .delete point n ∈ d.edits) (hne : e ≠ .delete point n) :
    e.stop ≤ point ∨ point + n ≤ e.offset := by
  have apart := wf.apart.forall he hd hne
  cases e <;> simpa [Edit.Apart] using apart

/-- From the deletion that starts at an offset to the next. -/
theorem Reached.skip (wf : d.WellFormed) (h : d.Reached pos (point :: points)) {n : Nat}
    (hd : .delete point n ∈ d.edits) : d.Reached (point + n) points := by
  have hn := (wf.fits _ hd).1
  have later : ∀ e ∈ d.edits, point < e.offset → point + n ≤ e.offset := by
    intro e he hlt
    have hne : e ≠ .delete point n := by
      rintro rfl
      simp at hlt
    rcases stop_le_or_le_offset wf he hd hne with hs | hl
    · have := e.offset_le_stop
      omega
    · exact hl
  refine ⟨h.sorted.tail, ?_, fun p hp => h.mem p (.tail _ hp), ?_, ?_, ?_⟩
  · intro p hp
    obtain ⟨e, he, rfl⟩ := h.mem p (.tail _ hp)
    exact later e he (List.rel_of_pairwise_cons h.sorted hp)
  · intro e he hlt
    have hpos := h.behind _ (.head _)
    rcases List.mem_cons.1 (h.ahead e he (by omega)) with heq | hm
    · omega
    · exact hm
  · intro e he hlt
    by_cases heq : e = .delete point n
    · simp [heq]
    · rcases stop_le_or_le_offset wf he hd heq with hs | hl <;> omega
  · intro o m he ho
    have hm := h.ahead _ he (by have := h.behind _ (.head _); simp only [Edit.offset_delete]; omega)
    rcases List.mem_cons.1 hm with heq | hm
    · simp only [Edit.offset_delete] at heq
      omega
    · exact ho ▸ hm

/-- The deletion that starts at an offset takes its bytes away. -/
theorem renderFrom_gone (wf : d.WellFormed) {n : Nat} {gone rest : Text}
    (hd : .delete point n ∈ d.edits) (hg : point + gone.size = point + n) :
    Edit.renderFrom d.edits point (gone ++ rest) =
      d.insertedAt (point + n) ++ Edit.renderFrom d.edits (point + n) rest := by
  have hn := (wf.fits _ hd).1
  have hne : gone ≠ [] := by
    rintro rfl
    simp at hg
    omega
  rw [Edit.renderFrom_append
    (fun q hlo hhi => Edit.deletesAt_iff.2 ⟨point, n, hd, hlo, by omega⟩)
    (fun q hlo hhi => Edit.insertedAt_eq_nil fun t ht => by
      rcases stop_le_or_le_offset wf ht hd (by simp) with hs | hl <;> simp at * <;> omega), hg]
  simp [hne, insertedAt_eq]

end

theorem resumeAt_eq (wf : d.WellFormed) {point n : Nat} (hd : .delete point n ∈ d.edits) :
    d.resumeAt point = point + n := by
  obtain ⟨s, hs⟩ : ∃ s, d.deletes.find? (·.lo = point) = some s := by
    rw [← Option.isSome_iff_exists, List.find?_isSome]
    exact ⟨_, mem_deletes.2 ⟨point, n, hd, rfl⟩, by simp⟩
  obtain ⟨o, m, he, rfl⟩ := mem_deletes.1 (List.mem_of_find?_eq_some hs)
  have ho : o = point := by simpa using List.find?_some hs
  subst ho
  have same : Edit.delete o m = .delete o n := by
    by_contra hne
    have pos := (wf.fits _ he).1
    rcases stop_le_or_le_offset wf he hd hne with hl | hl <;> simp at hl
    · omega
    · have := (wf.fits _ hd).1
      omega
  cases same
  simp [resumeAt, hs]

theorem resumeAt_of_no_delete {point : Nat} (hn : ∀ n, .delete point n ∉ d.edits) :
    d.resumeAt point = point := by
  have none_there : d.deletes.find? (·.lo = point) = none := by
    rw [List.find?_eq_none]
    intro s hs
    obtain ⟨o, n, he, rfl⟩ := mem_deletes.1 hs
    simp only [decide_eq_true_eq]
    rintro rfl
    exact hn n he
  simp [resumeAt, none_there]

theorem Reached.stop_le_of_nil {pos : Nat} (h : d.Reached pos []) {e : Edit} (he : e ∈ d.edits) :
    e.stop ≤ pos := by
  rcases Nat.lt_trichotomy e.offset pos with hl | heq | hg
  · exact h.passed e he hl
  · cases e with
    | insert o t => exact Nat.le_of_eq heq
    | delete o n => exact absurd (h.here o n he heq) (by simp)
  · exact absurd (h.ahead e he hg) (by simp)

/-- Insertions where a deletion stops are still to come. -/
theorem Reached.insertedAt_stop (wf : d.WellFormed) {pos point n : Nat} {points : List Nat}
    (h : d.Reached pos (point :: points)) (hd : .delete point n ∈ d.edits) :
    (if point + n ∈ points then d.insertedAt (point + n) else []) = d.insertedAt (point + n) := by
  by_cases hm : point + n ∈ points
  · rw [if_pos hm]
  · have none_there : Edit.insertedAt d.edits (point + n) = [] := by
      refine Edit.insertedAt_eq_nil fun t ht => hm ?_
      have hn := (wf.fits _ hd).1
      have hle := h.behind _ (.head _)
      have ahead := h.ahead _ ht (by simp only [Edit.offset_insert]; omega)
      rcases List.mem_cons.1 ahead with heq | hmem
      · simp only [Edit.offset_insert] at heq
        omega
      · exact hmem
    rw [if_neg hm]
    exact none_there.symm

/-- The walk from the end of `a` on. Insertions there are its first ones if that offset is still to
come. -/
theorem render_eq (wf : d.WellFormed) {a rest : Text} {points : List Nat}
    (hs : d.source = a ++ rest)
    (boundaries : ∀ e ∈ d.edits, IsBoundary d.source e.offset ∧ IsBoundary d.source e.stop)
    (h : d.Reached a.size points) :
    d.render a.size rest points =
      some ((if a.size ∈ points then d.insertedAt a.size else []) ++
        Edit.renderFrom d.edits a.size rest) := by
  induction points generalizing a rest with
  | nil => simp [render, Edit.renderFrom_of_le fun e he => h.stop_le_of_nil he]
  | cons point points ih =>
    have hle := h.behind _ (.head _)
    obtain ⟨e, he, hpoint⟩ := h.mem _ (.head _)
    have cut : IsBoundary (a ++ rest) point := hs ▸ hpoint ▸ (boundaries e he).1
    obtain ⟨part, rest, rfl, hp⟩ := isBoundary_append_right cut hle
    have split : (part ++ rest).split? (point - a.size) = some (part, rest) :=
      split?_eq_some.2 ⟨rfl, by omega⟩
    rw [h.renderFrom_kept (by omega)]
    simp only [render, if_pos hle, split, Option.bind_eq_bind, Option.bind_some]
    by_cases hd : ∃ n, .delete point n ∈ d.edits
    · obtain ⟨n, hd⟩ := hd
      have stop : IsBoundary (a ++ part ++ rest) (point + n) := by
        simpa [hs] using (boundaries _ hd).2
      obtain ⟨gone, rest, rfl, hg⟩ :=
        isBoundary_append_right stop (by simp only [size_append]; omega)
      have drop : (gone ++ rest).drop? (point + n - point) = some rest := by
        rw [drop?, split?_eq_some.2 ⟨rfl, by simp only [size_append] at hg; omega⟩]
        rfl
      have hsize : (a ++ part ++ gone).size = point + n := by rw [size_append, hg]
      have others := @ih (a ++ part ++ gone) rest (by simpa using hs) (hsize ▸ h.skip wf hd)
      rw [hsize, h.insertedAt_stop wf hd] at others
      have gone_eq : point + gone.size = point + n := by simp only [size_append] at hg; omega
      rw [resumeAt_eq wf hd, drop, renderFrom_gone wf hd gone_eq]
      simp [others]
    · have hn : ∀ n, .delete point n ∉ d.edits := fun n hn => hd ⟨n, hn⟩
      have next := h.step hn
      have hsize : (a ++ part).size = point := by simp only [size_append]; omega
      have others := @ih (a ++ part) rest (by simpa using hs) (hsize ▸ next)
      have past : point ∉ points := fun hm =>
        Nat.lt_irrefl _ (List.rel_of_pairwise_cons h.sorted hm)
      rw [hsize, if_neg past, List.nil_append] at others
      have drop : rest.drop? (point - point) = some rest := by simp [drop?, split?_zero]
      rw [resumeAt_of_no_delete hn, drop]
      simp [others]

theorem text?_eq (wf : d.WellFormed)
    (boundaries : ∀ e ∈ d.edits, IsBoundary d.source e.offset ∧ IsBoundary d.source e.stop) :
    d.text? = some (Edit.insertedAt d.edits 0 ++ Edit.renderFrom d.edits 0 d.source) := by
  have h := @render_eq d wf [] d.source d.points rfl boundaries d.reached_zero
  rw [size_nil] at h
  rw [text?, h]
  by_cases hm : 0 ∈ d.points
  · rw [if_pos hm]
    rfl
  · have none_there : Edit.insertedAt d.edits 0 = [] :=
      Edit.insertedAt_eq_nil fun t ht => hm (mem_points.2 ⟨_, ht, rfl⟩)
    rw [if_neg hm, none_there]

/-! ### The reference -/

/-- Whether a byte is deleted is decided at the start of its character. -/
theorem deletesAt_inside {a rest : Text} {c : Char} {i : Nat} (hs : d.source = a ++ c :: rest)
    (boundaries : ∀ e ∈ d.edits, IsBoundary d.source e.offset ∧ IsBoundary d.source e.stop)
    (hlo : a.size ≤ i) (hhi : i < a.size + c.utf8Size) :
    Edit.deletesAt d.edits i = Edit.deletesAt d.edits a.size := by
  rw [Bool.eq_iff_iff, Edit.deletesAt_iff, Edit.deletesAt_iff]
  have outside : ∀ o n, .delete o n ∈ d.edits →
      (o ≤ i ∧ i < o + n ↔ o ≤ a.size ∧ a.size < o + n) := by
    intro o n he
    obtain ⟨hstart, hstop⟩ := boundaries _ he
    rw [hs] at hstart hstop
    have := hstart.outside
    have := hstop.outside
    simp only [Edit.offset_delete, Edit.stop_delete] at *
    omega
  grind

theorem insertedAt_inside {a rest : Text} {c : Char} {i : Nat} (hs : d.source = a ++ c :: rest)
    (boundaries : ∀ e ∈ d.edits, IsBoundary d.source e.offset ∧ IsBoundary d.source e.stop)
    (hlo : a.size < i) (hhi : i < a.size + c.utf8Size) : d.insertedAt i = [] := by
  have none_there : Edit.insertedAt d.edits i = [] := Edit.insertedAt_eq_nil fun t ht => by
    have := (hs ▸ (boundaries _ ht).1).outside
    simp only [Edit.offset_insert] at this
    omega
  exact none_there

/-- The positions of one character. -/
theorem referenceAt_char {a rest : Text} {c : Char} (hs : d.source = a ++ c :: rest)
    (boundaries : ∀ e ∈ d.edits, IsBoundary d.source e.offset ∧ IsBoundary d.source e.stop) :
    (List.range' a.size c.utf8Size).flatMap d.referenceAt =
      bytes (d.insertedAt a.size) ++ if Edit.deletesAt d.edits a.size then [] else bytes [c] := by
  let kept (i : Nat) : List UInt8 :=
    if Edit.deletesAt d.edits a.size then [] else (bytes d.source)[i]?.toList
  have start : d.referenceAt a.size = bytes (d.insertedAt a.size) ++ kept a.size := rfl
  have inside : ∀ i, a.size < i → i < a.size + c.utf8Size → d.referenceAt i = kept i := by
    intro i hlo hhi
    rw [referenceAt, deletesAt_inside hs boundaries (Nat.le_of_lt hlo) hhi,
      insertedAt_inside hs boundaries hlo hhi, bytes_nil, List.nil_append]
  have own : (List.range' a.size c.utf8Size).flatMap kept =
      if Edit.deletesAt d.edits a.size then [] else bytes [c] := by
    cases hd : Edit.deletesAt d.edits a.size with
    | true => simp [kept, hd]
    | false => simpa [kept, hd, hs] using flatMap_getElem?_bytes a [c] rest
  obtain ⟨k, hk⟩ : ∃ k, c.utf8Size = k + 1 := ⟨c.utf8Size - 1, by have := c.utf8Size_pos; omega⟩
  have others : (List.range' (a.size + 1) k).flatMap d.referenceAt =
      (List.range' (a.size + 1) k).flatMap kept :=
    List.flatMap_congr fun i hi => by
      rw [List.mem_range'_1] at hi
      exact inside i (by omega) (by omega)
  rw [← own, hk, List.range'_succ, List.flatMap_cons, List.flatMap_cons, start, others,
    List.append_assoc]

theorem referenceFrom_eq {a rest : Text} (hs : d.source = a ++ rest)
    (boundaries : ∀ e ∈ d.edits, IsBoundary d.source e.offset ∧ IsBoundary d.source e.stop) :
    (List.range' a.size (rest.size + 1)).flatMap d.referenceAt =
      bytes (d.insertedAt a.size ++ Edit.renderFrom d.edits a.size rest) := by
  induction rest generalizing a with
  | nil =>
    have past : (bytes d.source)[a.size]? = none := by simp [hs]
    simp [List.range', referenceAt, past, Edit.renderFrom]
  | cons c rest ih =>
    have next := @ih (a ++ [c]) (by simpa using hs)
    simp only [size_append, size_cons, size_nil, Nat.add_zero] at next
    rw [size_cons, Nat.add_assoc, ← List.range'_append_1, List.flatMap_append,
      referenceAt_char hs boundaries, next, Edit.renderFrom]
    simp only [insertedAt_eq, bytes_append]
    cases Edit.deletesAt d.edits a.size <;> simp

theorem bytes_text (boundaries : ∀ e ∈ d.edits,
    IsBoundary d.source e.offset ∧ IsBoundary d.source e.stop) :
    bytes (Edit.insertedAt d.edits 0 ++ Edit.renderFrom d.edits 0 d.source) = d.referenceBytes := by
  have h := @referenceFrom_eq d [] d.source rfl boundaries
  rw [referenceBytes, List.range_eq_range', d.size_eq]
  exact h.symm

/-- After any calls that cut no character the draft is rendered to the reference, and one pass over
its edits in the order they were recorded gives the same text. -/
theorem text?_eq_reference (source : Text) (calls : List (List Request))
    (boundaries : ∀ e ∈ (afterCalls source calls).edits,
      IsBoundary source e.offset ∧ IsBoundary source e.stop) :
    ∃ t m, (afterCalls source calls).text? = some t ∧
      bytes t = (afterCalls source calls).referenceBytes ∧
      Edit.makeAll? source (afterCalls source calls).edits = some (t, m) := by
  have wf := wellFormed_afterCalls source calls
  have hs := afterCalls_source source calls
  have cut : ∀ e ∈ (afterCalls source calls).edits,
      IsBoundary (afterCalls source calls).source e.offset ∧
        IsBoundary (afterCalls source calls).source e.stop := by
    rw [hs]
    exact boundaries
  have fits : ∀ e ∈ (afterCalls source calls).edits, e.Fits source.size := by
    have := wf.fits
    rwa [Draft.size_eq, hs] at this
  obtain ⟨m, hm⟩ := Edit.makeAll?_eq fits wf.apart boundaries
  refine ⟨_, m, text?_eq wf cut, bytes_text cut, ?_⟩
  rw [hm, hs]

/-- A character of two bytes is replaced, with an insertion on each side; the third call falls into
the deletion and leaves nothing. -/
theorem text?_eq_reference_of_replaced_char :
    let source := ['a', 'é', 'b']
    let calls := [replaceSpan ⟨1, 3⟩ ['x'], insertBefore 3 ['y'], insertAfter 1 ['!'],
      insertBefore 1 ['z']]
    (∀ e ∈ (afterCalls source calls).edits,
      IsBoundary source e.offset ∧ IsBoundary source e.stop) ∧
    (afterCalls source calls).referenceBytes = bytes ['a', 'x', 'z', 'y', 'b'] ∧
    ∃ t m, (afterCalls source calls).text? = some t ∧
      bytes t = (afterCalls source calls).referenceBytes ∧
      Edit.makeAll? source (afterCalls source calls).edits = some (t, m) :=
  ⟨by decide, by decide, text?_eq_reference _ _ (by decide)⟩

end SketchPrep.Draft
