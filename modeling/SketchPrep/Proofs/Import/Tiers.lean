import SketchPrep.Import.Tiers
import SketchPrep.Proofs.Import.Statement

/-!
Imports listed once. An import equals another if it has the same dotted name and the same static
flag. Main statements: `deduplicated_eq`, each tier keeps the imports that equal none before them,
in this tier or an earlier one; `flatten_freshTiers`, so do the tiers one after the other.
-/

namespace SketchPrep

namespace ImportStatement

variable {s : String} {a b : ImportStatement}

/-- The dotted name, and whether the import is static. -/
def identity (i : ImportStatement) : String × Bool := (i.fullName, i.isStatic)

/-- The import is split as a name is when it is read. -/
def IsRead (i : ImportStatement) : Prop := ofName? i.isStatic i.fullName.toList = some i

theorem isRead_of_parse (h : parse s = .ok a) : a.IsRead := by
  obtain ⟨name, -, -, split, full⟩ := exists_name h
  rw [IsRead, full]
  exact split

theorem sameAs_iff_identity (ha : a.IsRead) (hb : b.IsRead) :
    a.sameAs b ↔ a.identity = b.identity := by
  constructor
  · intro same
    obtain ⟨package, member, static⟩ := sameAs_iff.1 same
    simp [identity, fullName, package, member, static]
  · intro same
    obtain ⟨name, static⟩ := Prod.mk.inj same
    rw [IsRead, name, static, hb] at ha
    obtain rfl := Option.some.inj ha
    simp [sameAs_iff]

theorem sourceLine_of_identity (h : a.identity = b.identity) : a.sourceLine = b.sourceLine := by
  obtain ⟨name, static⟩ := Prod.mk.inj h
  rw [sourceLine, sourceLine, name, static]

end ImportStatement

namespace ImportTiers

open ImportStatement

variable {earlier seen tier as bs : List ImportStatement} {tiers : List (List ImportStatement)}
  {i : ImportStatement} {x : String × Bool}

/-- There is an import of that identity in the list. -/
def Names (is : List ImportStatement) (x : String × Bool) : Prop := ∃ i ∈ is, i.identity = x

instance (is : List ImportStatement) (x : String × Bool) : Decidable (Names is x) :=
  inferInstanceAs (Decidable (∃ i ∈ is, i.identity = x))

@[simp] theorem names_append : Names (as ++ bs) x ↔ Names as x ∨ Names bs x := by
  simp [Names, or_and_right, exists_or]

theorem names_cons : Names (i :: as) x ↔ i.identity = x ∨ Names as x := by simp [Names]

@[simp] theorem names_singleton : Names [i] x ↔ i.identity = x := by simp [Names]

/-- The imports of a tier that equal none before them, in `earlier` or in the tier. -/
def fresh (earlier tier : List ImportStatement) : List ImportStatement :=
  (tier.zipIdx.filter fun p => ¬Names (earlier ++ tier.take p.2) p.1.identity).map Prod.fst

theorem fresh_append (earlier as bs : List ImportStatement) :
    fresh earlier (as ++ bs) = fresh earlier as ++ fresh (earlier ++ as) bs := by
  unfold fresh
  rw [List.zipIdx_append, List.filter_append, List.map_append]
  congr 1
  · -- the place of an import in `as` is before `bs`
    congr 1
    refine List.filter_congr fun p hp => ?_
    have bound : p.2 ≤ as.length := by
      have := List.snd_lt_of_mem_zipIdx hp
      omega
    rw [List.take_append_of_le_length bound]
  · rw [Nat.zero_add, List.zipIdx_eq_map_add, List.filter_map, List.map_map]
    congr 1
    refine List.filter_congr fun (i, k) _ => ?_
    have behind : (as ++ bs).take (as.length + k) = as ++ bs.take k := List.take_length_add_append k
    rw [Function.comp_apply, behind, List.append_assoc]

theorem fresh_singleton (earlier : List ImportStatement) (i : ImportStatement) :
    fresh earlier [i] = if Names earlier i.identity then [] else [i] := by
  have alone : earlier ++ [i].take 0 = earlier := List.append_nil earlier
  unfold fresh
  rw [List.zipIdx_singleton, List.filter_cons, alone]
  by_cases named : Names earlier i.identity <;> simp [named]

theorem fresh_cons (earlier : List ImportStatement) (i : ImportStatement)
    (tier : List ImportStatement) : fresh earlier (i :: tier) =
      (if Names earlier i.identity then [] else [i]) ++ fresh (earlier ++ [i]) tier := by
  rw [← fresh_singleton, ← fresh_append, List.singleton_append]

/-- What is left out equals something that is not. -/
theorem names_fresh (earlier tier : List ImportStatement) :
    Names earlier x ∨ Names (fresh earlier tier) x ↔ Names earlier x ∨ Names tier x := by
  induction tier generalizing earlier with
  | nil => rfl
  | cons i tier ih =>
    have rest := ih (earlier ++ [i])
    rw [names_append, names_singleton] at rest
    rw [fresh_cons, names_append, names_cons, ← or_assoc, ← or_assoc, ← rest]
    split
    · next named =>
      have same : i.identity = x → Names earlier x := fun h => h ▸ named
      have none : ¬Names [] x := by simp [Names]
      rw [or_iff_left none, or_iff_left_of_imp same]
    · rw [names_singleton]

theorem exists_fresh_of_mem (hi : i ∈ as) : ∃ j ∈ fresh [] as, j.identity = i.identity := by
  have named := (names_fresh [] as).2 (.inr ⟨i, hi, rfl⟩)
  have none : ¬Names [] i.identity := by simp [Names]
  exact named.resolve_left none

/-- Each tier without the imports that equal one before them. -/
def freshTiers (earlier : List ImportStatement) :
    List (List ImportStatement) → List (List ImportStatement)
  | [] => []
  | tier :: tiers => fresh earlier tier :: freshTiers (earlier ++ tier) tiers

theorem flatten_freshTiers (earlier : List ImportStatement) (tiers : List (List ImportStatement)) :
    (freshTiers earlier tiers).flatten = fresh earlier tiers.flatten := by
  induction tiers generalizing earlier with
  | nil => rfl
  | cons tier tiers ih => rw [freshTiers, List.flatten_cons, List.flatten_cons, ih, fresh_append]

theorem unseen_eq_fresh (alike : ∀ x, Names seen x ↔ Names earlier x) (hseen : ∀ i ∈ seen, i.IsRead)
    (htier : ∀ i ∈ tier, i.IsRead) : unseen seen tier = fresh earlier tier := by
  induction tier generalizing seen earlier with
  | nil => rfl
  | cons i tier ih =>
    obtain ⟨hi, htier⟩ := List.forall_mem_cons.1 htier
    have known : seen.any (·.sameAs i) ↔ Names earlier i.identity := by
      rw [← alike, List.any_eq_true]
      exact exists_congr fun j => and_congr_right fun hj => sameAs_iff_identity (hseen j hj) hi
    rw [unseen, fresh_cons]
    by_cases named : Names earlier i.identity
    · have alike' (x) : Names seen x ↔ Names (earlier ++ [i]) x := by
        rw [alike, names_append, names_singleton]
        exact (or_iff_left_of_imp fun same => same ▸ named).symm
      rw [if_pos (known.2 named), if_pos named, List.nil_append, ih alike' hseen htier]
    · have alike' (x) : Names (seen ++ [i]) x ↔ Names (earlier ++ [i]) x := by
        rw [names_append, names_append, alike]
      have hseen' : ∀ j ∈ seen ++ [i], j.IsRead :=
        List.forall_mem_append.2 ⟨hseen, by simpa using hi⟩
      rw [if_neg (mt known.1 named), if_neg named, ih alike' hseen' htier]
      rfl

theorem unseen_subset (seen tier : List ImportStatement) : unseen seen tier ⊆ tier := by
  induction tier generalizing seen with
  | nil => exact List.Subset.refl _
  | cons i tier ih =>
    rw [unseen]
    split
    · exact List.subset_cons_of_subset i (ih seen)
    · exact List.cons_subset_cons i (ih (seen ++ [i]))

theorem unseenTiers_eq (alike : ∀ x, Names seen x ↔ Names earlier x) (hseen : ∀ i ∈ seen, i.IsRead)
    (htiers : ∀ tier ∈ tiers, ∀ i ∈ tier, i.IsRead) :
    unseenTiers seen tiers = freshTiers earlier tiers := by
  induction tiers generalizing seen earlier with
  | nil => rfl
  | cons tier tiers ih =>
    obtain ⟨htier, htiers⟩ := List.forall_mem_cons.1 htiers
    have kept := unseen_eq_fresh alike hseen htier
    have alike' (x) : Names (seen ++ unseen seen tier) x ↔ Names (earlier ++ tier) x := by
      rw [kept, names_append, names_append, alike, names_fresh]
    have hseen' : ∀ i ∈ seen ++ unseen seen tier, i.IsRead :=
      List.forall_mem_append.2 ⟨hseen, fun i hi => htier i (unseen_subset _ _ hi)⟩
    rw [unseenTiers, freshTiers, ih alike' hseen' htiers, kept]

/-- The tiers in the order of the program. -/
def listed (t : ImportTiers) : List (List ImportStatement) :=
  [t.core, t.codeFolder, t.discovered, t.standard]

theorem deduplicated_eq {t : ImportTiers} (h : ∀ tier ∈ t.listed, ∀ i ∈ tier, i.IsRead) :
    t.deduplicated = freshTiers [] t.listed :=
  unseenTiers_eq (fun _ => Iff.rfl) (by simp) h

end ImportTiers

end SketchPrep
