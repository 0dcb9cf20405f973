import SketchPrep.Import.Statement

/-!
The source line of an import. An import is its dotted name and its static flag: the parts that it
is split into are read off both, and the line shows both. Main statement: `parse_sourceLine`, a
line is read back as the import that it shows, and two imports with one line are the same.
-/

namespace SketchPrep

open Text Text.CharClass

namespace Text

variable {c : Char} {cs before rest : Text}

theorem splitLast?_eq_some (h : splitLast? c cs = some (before, rest)) :
    cs = before ++ c :: rest := by
  induction cs generalizing before with
  | nil => cases h
  | cons d cs ih =>
    rw [splitLast?] at h
    cases inner : splitLast? c cs with
    | some p =>
      rw [inner] at h
      obtain ⟨rfl, rfl⟩ := Prod.mk.inj (Option.some.inj h)
      rw [ih inner, List.cons_append]
    | none =>
      rw [inner] at h
      dsimp only at h
      split at h
      · rename_i hd
        obtain ⟨rfl, rfl⟩ := Prod.mk.inj (Option.some.inj h)
        rw [hd, List.nil_append]
      · cases h

theorem trimStart_of_head (h : ∀ c ∈ cs.head?, isSpace c = false) : trimStart cs = cs := by
  cases cs with
  | nil => rfl
  | cons c cs => simp [trimStart, h c rfl]

theorem trimEnd_concat (h : isSpace c = false) (cs : Text) : trimEnd (cs ++ [c]) = cs ++ [c] := by
  have start : trimStart (c :: cs.reverse) = c :: cs.reverse :=
    trimStart_of_head fun d hd => by rw [← Option.some.inj hd, h]
  rw [trimEnd, List.reverse_append, List.reverse_singleton, List.singleton_append, start,
    List.reverse_cons, List.reverse_reverse]

end Text

namespace ImportStatement

variable {word s t : String} {a b : ImportStatement} {isStatic : Bool} {name rest : Text}

/-! ### The name -/

/-- The import of a name without blanks, if the name is dotted and has no empty part. -/
def ofName? (isStatic : Bool) (name : Text) : Option ImportStatement :=
  match splitLast? '.' name with
  | none => none
  | some (package, member) =>
    if (splitAll '.' package).all isPart && (member = ['*'] || isPart member) then
      let wildcard := member = ['*']
      if isStatic then
        let (outer, type) := (splitLast? '.' package).getD ([], package)
        some ⟨String.ofList outer, String.ofList (type ++ '.' :: member), true, wildcard⟩
      else some ⟨String.ofList package, String.ofList member, false, wildcard⟩
    else none

/-- The name that a text asks for, without the blanks. -/
def nameIn (text : Text) : Text := (staticAndName text).2.filter (!isSpace ·)

theorem parse_eq_ok : parse s = .ok a ↔
    ofName? (staticAndName s.toList).1 (nameIn s.toList) = some a := by
  unfold parse ofName? nameIn
  dsimp only
  cases splitLast? '.' ((staticAndName s.toList).2.filter (!isSpace ·)) with
  | none => simp
  | some parts =>
    dsimp only
    split
    · split <;> simp
    · simp

/-- The parts of the name are not empty, so that nothing but the name comes together again. -/
theorem fullName_of_ofName? (h : ofName? isStatic name = some a) :
    a.fullName.toList = name ∧ a.isStatic = isStatic := by
  unfold ofName? at h
  split at h
  · cases h
  rename_i package member hname
  split at h
  case isFalse => cases h
  rename_i parts
  have whole := splitLast?_eq_some hname
  have first : package.head? ≠ some '.' ∧ package ≠ [] := by
    rw [Bool.and_eq_true] at parts
    cases package with
    | nil => exact absurd parts.1 (by decide)
    | cons c package =>
      refine ⟨fun hc => ?_, List.cons_ne_nil _ _⟩
      rw [Option.some.inj hc, splitAll, if_pos rfl] at parts
      exact absurd parts.1 (by simp [isPart])
  cases isStatic with
  | false =>
    rw [if_neg Bool.false_ne_true] at h
    obtain rfl := Option.some.inj h
    have full : String.ofList package ≠ "" := fun empty => first.2 (by simpa using empty)
    simp [fullName, full, whole]
  | true =>
    rw [if_pos rfl] at h
    obtain rfl := Option.some.inj h
    cases houter : splitLast? '.' package with
    | none => simp [fullName, whole]
    | some p =>
      obtain ⟨outer, type⟩ := p
      have split := splitLast?_eq_some houter
      have full : String.ofList outer ≠ "" := by
        intro empty
        have none : outer = [] := by simpa using empty
        rw [split, none] at first
        exact first.1 rfl
      simp [fullName, full, whole, split]

/-! ### The line -/

theorem isSpace_blank : isSpace ' ' := by simp [isSpace, within]

/-- The marks that a line is shown with. -/
theorem not_isSpace_mark : ∀ c ∈ ['i', 's', ';'], isSpace c = false := by simp [isSpace, within]

theorem afterWord?_blank (word : String) (cs : Text) :
    afterWord? word (word.toList ++ ' ' :: cs) = some (' ' :: cs) := by
  rw [afterWord?, after?_eq_some.2 rfl]
  simp [isSpace_blank]

/-- A name cannot be taken for a word before a name, even if it begins like one. -/
theorem afterWord?_eq_none (h : ∀ c ∈ name, isSpace c = false) : afterWord? word name = none := by
  rw [afterWord?, Option.filter_eq_none_iff]
  intro rest hrest hblank
  rw [after?_eq_some.1 hrest] at h
  obtain ⟨c, hc, blank⟩ := (Option.any_eq_true ..).1 hblank
  obtain ⟨others, rfl⟩ := List.head?_eq_some_iff.1 hc
  rw [h c (by simp)] at blank
  cases blank

def lineOf (isStatic : Bool) (name : Text) : Text :=
  "import ".toList ++ (if isStatic then "static ".toList else []) ++ name ++ [';']

theorem sourceLine_toList (a : ImportStatement) :
    a.sourceLine.toList = lineOf a.isStatic a.fullName.toList := by
  unfold sourceLine lineOf
  cases a.isStatic <;> simp

/-- The word `import` and the semicolon are taken off, with the blanks around them. -/
theorem staticAndName_import {shown front : Text} {last : Char} (hshown : shown = front ++ [last])
    (head : ∀ c ∈ shown.head?, isSpace c = false) (hlast : isSpace last = false) :
    staticAndName ("import ".toList ++ shown ++ [';']) =
      match afterWord? "static" shown with
      | some rest => (true, rest)
      | none => (false, shown) := by
  have start :
      trimStart ("import ".toList ++ shown ++ [';']) = "import ".toList ++ shown ++ [';'] :=
    trimStart_of_head fun c hc => by
      obtain rfl : 'i' = c := Option.some.inj hc
      exact not_isSpace_mark _ (by decide)
  have closed : trimEnd ("import ".toList ++ shown) = "import ".toList ++ shown := by
    rw [hshown, ← List.append_assoc, trimEnd_concat hlast]
  have named : afterWord? "import" ("import ".toList ++ shown) = some (' ' :: shown) :=
    afterWord?_blank "import" shown
  have behind : trimStart (' ' :: shown) = shown := by
    rw [trimStart, List.dropWhile_cons_of_pos isSpace_blank]
    exact trimStart_of_head head
  unfold staticAndName
  rw [start, trimEnd_concat (not_isSpace_mark ';' (by decide))]
  cases static : afterWord? "static" shown <;>
    simp only [List.getLast?_concat, if_true, List.dropLast_concat, closed, named, Option.map_some,
      Option.getD_some, behind, static]

theorem staticAndName_lineOf (hname : name ≠ []) (solid : ∀ c ∈ name, isSpace c = false) :
    staticAndName (lineOf isStatic name) =
      (isStatic, if isStatic then ' ' :: name else name) := by
  have last : isSpace (name.getLast hname) = false := solid _ (List.getLast_mem hname)
  have ends := (List.dropLast_concat_getLast hname).symm
  cases isStatic with
  | true =>
    have shown : "static ".toList ++ name =
        ("static ".toList ++ name.dropLast) ++ [name.getLast hname] := by
      rw [List.append_assoc, ← ends]
    have head : ∀ c ∈ ("static ".toList ++ name).head?, isSpace c = false := fun c hc => by
      obtain rfl : 's' = c := Option.some.inj hc
      exact not_isSpace_mark _ (by decide)
    have static : afterWord? "static" ("static ".toList ++ name) = some (' ' :: name) :=
      afterWord?_blank "static" name
    have read := staticAndName_import shown head last
    rw [static] at read
    exact read
  | false =>
    have read := staticAndName_import ends (fun c hc => solid c (List.mem_of_mem_head? hc)) last
    rw [afterWord?_eq_none solid] at read
    exact read

/-! ### Reading a line -/

/-- The parts of an import are those of a name without blanks. -/
theorem exists_name (h : parse s = .ok a) : ∃ name ≠ [], (∀ c ∈ name, isSpace c = false) ∧
    ofName? a.isStatic name = some a ∧ a.fullName.toList = name := by
  have split := parse_eq_ok.1 h
  obtain ⟨full, static⟩ := fullName_of_ofName? split
  rw [← static] at split
  refine ⟨nameIn s.toList, ?_, ?_, split, full⟩
  · intro empty
    rw [empty] at split
    cases split
  · intro c hc
    simpa using (List.mem_filter.1 hc).2

theorem filter_solid (solid : ∀ c ∈ name, isSpace c = false) : name.filter (!isSpace ·) = name :=
  List.filter_eq_self.2 fun c hc => by simp [solid c hc]

theorem parse_line (h : parse s = .ok a) : parse a.sourceLine = .ok a := by
  obtain ⟨name, hname, solid, split, full⟩ := exists_name h
  rw [parse_eq_ok, nameIn, sourceLine_toList, full, staticAndName_lineOf hname solid]
  cases hs : a.isStatic with
  | false =>
    rw [hs] at split
    simpa [filter_solid solid] using split
  | true =>
    rw [hs] at split
    simpa [filter_solid solid, isSpace_blank] using split

theorem sameAs_iff : a.sameAs b ↔
    a.package = b.package ∧ a.member = b.member ∧ a.isStatic = b.isStatic := by
  simp [sameAs, and_assoc]

/-- A line is read back as the import that it shows, with all of its parts, and two imports are the
same if and only if their lines are, whatever the texts looked like that they were read from. -/
theorem parse_sourceLine (ha : parse s = .ok a) (hb : parse t = .ok b) :
    parse a.sourceLine = .ok a ∧ (a.sameAs b ↔ a.sourceLine = b.sourceLine) := by
  refine ⟨parse_line ha, fun same => ?_, fun line => ?_⟩
  · obtain ⟨package, member, static⟩ := sameAs_iff.1 same
    simp [sourceLine, fullName, package, member, static]
  · have back := parse_line hb
    rw [← line, parse_line ha] at back
    obtain rfl := Except.ok.inj back
    simp [sameAs_iff]

/-- A static import and a plain one of the same name, both of a package called `import`. -/
theorem parse_sourceLine_of_package_import :
    let a : ImportStatement := ⟨"import", "statics.max", true, false⟩
    let b : ImportStatement := ⟨"import.statics", "max", false, false⟩
    parse " import static\timport . statics. max ; " = .ok a ∧ parse "import.statics.max" = .ok b ∧
      parse a.sourceLine = .ok a ∧ (a.sameAs b ↔ a.sourceLine = b.sourceLine) := by
  intro a b
  have ha : parse " import static\timport . statics. max ; " = .ok a :=
    parse_eq_ok.2 (by decide +kernel)
  have hb : parse "import.statics.max" = .ok b := parse_eq_ok.2 (by decide +kernel)
  exact ⟨ha, hb, parse_sourceLine ha hb⟩

end ImportStatement

end SketchPrep
