import Mathlib.Data.List.Basic
import SketchPrep.Import.Tiers
import SketchPrep.Proofs.Import.DottedName
import SketchPrep.Proofs.Syntax.Occurrence
import SketchPrep.Proofs.Syntax.Sketch
import SketchPrep.Proofs.Token.Lexeme

/-!
The imports that a sketch declares. Main statements: `isDotted_of_parse`, the name that a sketch
imports is made of words with points between them; `isOk_ofDecl_iff` and `sourceLine_of_ofDecl`, a
name like that can be imported if and only if it has a point, and then the import shows it.
-/

namespace SketchPrep

open Text Text.CharClass Token

/-! ### Names in the tree -/

namespace Phrase

variable {p : Phrase} {ps : List Phrase} {ts us : List Token}

/-- Each phrase is written with some of the tokens. -/
theorem Spells.exists_of_mem (h : Spells ps ts) (hp : p ∈ ps) :
    ∃ us, us ⊆ ts ∧ Spells [p] us := by
  induction ps generalizing ts with
  | nil => cases hp
  | cons q ps ih =>
    obtain ⟨us, vs, rfl, first, rest⟩ := h.uncons
    rcases List.mem_cons.1 hp with rfl | hp
    · exact ⟨us, List.subset_append_left us vs, first⟩
    · obtain ⟨ws, inside, spells⟩ := ih rest hp
      exact ⟨ws, List.subset_append_of_subset_right us inside, spells⟩

theorem exists_token_name {id : Ident} (h : Spells [.name id] us) :
    ∃ t ∈ us, t.kind = .identifier ∧ t.text = id.name := by
  obtain ⟨qs, production, parts⟩ := h.exists_production (by simp) (by simp)
  cases production with
  | @name t ht =>
    obtain rfl := spells_token parts
    exact ⟨t, .head _, ht, rfl⟩

end Phrase

/-- The import's name is identifiers of the source with points between them, and a star at the end
if it is a wildcard. -/
def ImportDecl.NamedBy (d : ImportDecl) (ts : List Token) : Prop :=
  ∃ ids ≠ [], (∀ id ∈ ids, ∃ t ∈ ts, t.kind = .identifier ∧ t.text = id) ∧
    d.name = if d.wildcard then ".".intercalate ids ++ ".*" else ".".intercalate ids

namespace Phrase

variable {ts us : List Token} {d : ImportDecl}

theorem namedBy_of_spells (h : Spells [.importDecl d] us) : d.NamedBy us := by
  obtain ⟨qs, production, parts⟩ := h.exists_production (by simp) (by simp)
  cases production with
  | @importDecl isStatic wildcard ids span hids =>
    refine ⟨ids.map Ident.name, by simpa using hids, fun name hname => ?_, rfl⟩
    obtain ⟨id, hid, rfl⟩ := List.mem_map.1 hname
    have listed : Phrase.name id ∈ qualified ids := mem_of_mem_trees (by simpa using hid)
    obtain ⟨vs, inside, spells⟩ := parts.exists_of_mem (p := .name id) (by simp [listed])
    obtain ⟨t, ht, kind, text⟩ := exists_token_name spells
    exact ⟨t, inside ht, kind, text⟩

theorem namedBy_of_item (h : Spells [.item (.importation d)] us) : d.NamedBy us := by
  obtain ⟨qs, production, parts⟩ := h.exists_production (by simp) (by simp)
  cases production with
  | importItem => exact namedBy_of_spells parts

end Phrase

/-! ### Declarations -/

/-- The name of a declaration is words with points between them, the last of which may be a star. -/
def ImportDecl.IsDotted (d : ImportDecl) : Prop :=
  ∃ front member, d.name.toList = ImportStatement.dotted front member ∧
    (∀ p ∈ front, ImportStatement.isPart p) ∧ ImportStatement.IsMember member

/-- The line of a declared import. -/
def ImportDecl.line (d : ImportDecl) : String :=
  "import " ++ (if d.isStatic then "static " else "") ++ d.name ++ ";"

variable {d : ImportDecl}

theorem isPart_of_identifier {source : Text} {ts : Tokens} {t : Token}
    (h : tokenize source = .ok ts) (ht : t ∈ ts.body) (kind : t.kind = .identifier) :
    ImportStatement.isPart t.text.toList := by
  obtain ⟨rest, lexeme⟩ := Lexer.exists_lexeme_of_tokenize h t ht
  obtain ⟨c, tail, text, first, later, -⟩ := lexeme.exists_word (.inl kind)
  have word : ∀ d ∈ c :: tail, Lexer.continuesName d := by
    refine List.forall_mem_cons.2 ⟨?_, later⟩
    simp only [Lexer.startsName, Bool.or_eq_true, decide_eq_true_eq] at first
    simp only [Lexer.continuesName, Bool.or_eq_true, decide_eq_true_eq]
    exact first.imp_left (Or.imp_left isAlphanumeric_of_isAlphabetic)
  rw [text, ImportStatement.isPart, List.isEmpty_cons, Bool.not_false, Bool.true_and,
    List.all_eq_true]
  exact word

/-- What the grammar takes for the name of an import. -/
theorem isDotted_of_namedBy {source : Text} {ts : Tokens} (h : tokenize source = .ok ts)
    (named : d.NamedBy ts.body) : d.IsDotted := by
  obtain ⟨ids, hids, tokens, name⟩ := named
  have parts : ∀ p ∈ ids.map String.toList, ImportStatement.isPart p := by
    intro p hp
    obtain ⟨id, hid, rfl⟩ := List.mem_map.1 hp
    obtain ⟨t, ht, kind, text⟩ := tokens id hid
    rw [← text]
    exact isPart_of_identifier h ht kind
  have joined : (".".intercalate ids).toList = ['.'].intercalate (ids.map String.toList) :=
    String.toList_intercalate ..
  have some_part : ids.map String.toList ≠ [] := by simpa using hids
  cases star : d.wildcard with
  | true =>
    refine ⟨ids.map String.toList, ['*'], ?_, parts, .inl rfl⟩
    rw [name, star, if_pos rfl, String.toList_append, joined,
      ImportStatement.dotted_of_ne_nil some_part]
    rfl
  | false =>
    have whole := List.dropLast_concat_getLast some_part
    refine ⟨(ids.map String.toList).dropLast, (ids.map String.toList).getLast some_part, ?_, ?_,
      .inr ?_⟩
    · rw [name, star, if_neg Bool.false_ne_true, joined, ImportStatement.dotted, whole]
    · exact fun p hp => parts p (List.dropLast_subset _ hp)
    · exact parts _ (List.getLast_mem some_part)

theorem isDotted_of_parse {source : Text} {s : Sketch} (h : Sketch.parse source = .ok s)
    (hd : .importation d ∈ s.items) : d.IsDotted := by
  obtain ⟨ts, hts, spells⟩ := Sketch.spells_of_parse h
  have listed : .item (.importation d) ∈ s.phrases :=
    List.mem_append_right _ (List.mem_map_of_mem hd)
  obtain ⟨us, inside, item⟩ := spells.exists_of_mem listed
  obtain ⟨ids, hids, tokens, name⟩ := Phrase.namedBy_of_item item
  refine isDotted_of_namedBy hts ⟨ids, hids, fun id hid => ?_, name⟩
  obtain ⟨t, ht, found⟩ := tokens id hid
  exact ⟨t, inside ht, found⟩

/-! ### Declared imports -/

namespace ImportDecl

open ImportStatement

variable {a : ImportStatement}

theorem ofDecl_eq_ok (h : d.IsDotted) :
    ofDecl d = .ok a ↔ ofName? d.isStatic d.name.toList = some a := by
  obtain ⟨front, member, name, hf, hm⟩ := h
  have plain : ∀ c ∈ d.name.toList, isSpace c = false ∧ c ≠ ';' := fun c hc =>
    not_special_of_mem_dotted hf hm (name ▸ hc)
  have some_char : d.name.toList ≠ [] := by
    rw [name]
    exact dotted_ne_nil hm
  have text : (if d.isStatic then "static " ++ d.name else d.name).toList =
      (if d.isStatic then "static ".toList else []) ++ d.name.toList := by
    cases d.isStatic <;> simp
  have read := @staticAndName_declared d.name.toList d.isStatic some_char plain
  have same : d.name.toList.filter (!isSpace ·) = d.name.toList :=
    filter_solid fun c hc => (plain c hc).1
  rw [ofDecl, parse_eq_ok, nameIn, text, read]
  cases d.isStatic with
  | true => simp [same, isSpace_blank]
  | false => simp [same]

/-- A declared name can be imported if and only if there is a point in it. -/
theorem isOk_ofDecl_iff (h : d.IsDotted) : (ofDecl d).isOk ↔ '.' ∈ d.name.toList := by
  obtain ⟨front, member, name, hf, hm⟩ := h
  have valid := @isSome_ofName?_dotted front member d.isStatic hf hm
  rw [name, mem_dotted_iff hm, ← valid, Option.isSome_iff_exists]
  have read (a : ImportStatement) := @ofDecl_eq_ok d a ⟨front, member, name, hf, hm⟩
  rw [name] at read
  rw [← exists_congr read]
  cases ofDecl d with
  | ok a => exact iff_of_true rfl ⟨a, rfl⟩
  | error e => exact iff_of_false Bool.false_ne_true fun ⟨a, ha⟩ => by cases ha

theorem sourceLine_of_ofDecl (h : d.IsDotted) (ok : ofDecl d = .ok a) : a.sourceLine = d.line := by
  obtain ⟨full, static⟩ := fullName_of_ofName? ((ofDecl_eq_ok h).1 ok)
  have name : a.fullName = d.name := String.toList_inj.1 full
  rw [sourceLine, ImportDecl.line, name, static]

end ImportDecl

/-- The top-level imports of a sketch. -/
def Sketch.importDecls (s : Sketch) : List ImportDecl :=
  s.items.filterMap fun
    | .importation d => some d
    | _ => none

theorem isDotted_of_mem_importDecls {source : Text} {s : Sketch} (h : Sketch.parse source = .ok s)
    (hd : d ∈ s.importDecls) : d.IsDotted := by
  obtain ⟨i, hi, found⟩ := List.mem_filterMap.1 hd
  refine isDotted_of_parse h ?_
  cases i with
  | importation e => exact Option.some.inj found ▸ hi
  | _ => cases found

namespace ImportTiers

open ImportStatement

variable {source : Text} {s : Sketch}

theorem discover_eq (s : Sketch) : discover s.items =
    (s.importDecls.filterMap fun d => (ofDecl d).toOption,
      s.importDecls.filterMap fun d =>
        match ofDecl d with
        | .ok _ => none
        | .error _ => some ⟨d.span.lo, MessageTable.badImport⟩) := by
  unfold discover Sketch.importDecls
  simp only [List.filterMap_filterMap]
  congr 2
  · funext i
    cases i <;> simp only [Option.bind_some, Option.bind_none]
  · funext i
    cases i with
    | importation d => cases ok : ofDecl d <;> simp only [Option.bind_some, ok]
    | _ => rfl

/-- Just the declarations without a point are reported. -/
theorem discover_issues (h : Sketch.parse source = .ok s) :
    (discover s.items).2 = (s.importDecls.filter fun d => '.' ∉ d.name.toList).map fun d =>
      ⟨d.span.lo, MessageTable.badImport⟩ := by
  rw [discover_eq, ← List.filterMap_eq_map, List.filterMap_filter]
  refine List.filterMap_congr fun d hd => ?_
  have valid := ImportDecl.isOk_ofDecl_iff (isDotted_of_mem_importDecls h hd)
  cases ok : ofDecl d with
  | ok a =>
    rw [ok] at valid
    simp [valid.1 rfl]
  | error e =>
    rw [ok] at valid
    simp [mt valid.2 Bool.false_ne_true]

/-- The others are found, in the order of the sketch. -/
theorem sourceLine_discover (h : Sketch.parse source = .ok s) :
    (discover s.items).1.map sourceLine =
      (s.importDecls.filter fun d => '.' ∈ d.name.toList).map ImportDecl.line := by
  rw [discover_eq, List.map_filterMap, ← List.filterMap_eq_map, List.filterMap_filter]
  refine List.filterMap_congr fun d hd => ?_
  have dotted := isDotted_of_mem_importDecls h hd
  have valid := ImportDecl.isOk_ofDecl_iff dotted
  cases ok : ofDecl d with
  | ok a =>
    have line : a.sourceLine = d.line := ImportDecl.sourceLine_of_ofDecl dotted ok
    rw [ok] at valid
    simp [valid.1 rfl, Except.toOption, line]
  | error e =>
    rw [ok] at valid
    simp [mt valid.2 Bool.false_ne_true, Except.toOption]

theorem exists_parse_of_mem_discover {a : ImportStatement} (h : a ∈ (discover s.items).1) :
    ∃ text, parse text = .ok a := by
  rw [discover_eq] at h
  obtain ⟨d, -, found⟩ := List.mem_filterMap.1 h
  cases ok : ofDecl d with
  | ok b =>
    rw [ok] at found
    obtain rfl := Option.some.inj found
    exact ⟨_, ok⟩
  | error e =>
    rw [ok] at found
    cases found

end ImportTiers

end SketchPrep
