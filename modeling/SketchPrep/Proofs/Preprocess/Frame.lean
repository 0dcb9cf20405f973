import SketchPrep.Proofs.Preprocess.Footer
import SketchPrep.Proofs.Preprocess.Outcome
import SketchPrep.Proofs.Token.Append

/-!
The header and the footer around a sketch. Main statements: `footer_read_or_swallowed`, the tokens
of the footer end the program unless the sketch leaves a comment open; `package_behind_header`, what
a sketch begins with through its package declaration follows the header.
-/

namespace SketchPrep

open Text Token

namespace Preprocess

open Edit

variable {o : Options} {t : MessageTable} {date : String} {tabs : List Tab} {p : PreprocessedSketch}

/-- A program without substituted characters: the header, the edited tabs, the footer. -/
theorem program_eq_front (h : preprocess o t date tabs = .ok (.success p))
    (plain : o.substituteUnicode = false) :
    ∃ s tiers, Sketch.parse (Tab.join tabs) = .ok s ∧
      importTiers o (ImportTiers.discover s.items).1 = .ok tiers ∧ p.mode = s.mode ∧
      p.program = headerText o s tiers date ++
        front (Finding.edits (findings o s)) (Tab.join tabs) ++ footerText o (Tab.join tabs) s := by
  have rendered := program_eq h
  obtain ⟨s, tiers, planned, hs, htiers, -, hedits⟩ := exists_edits_of_success h
  refine ⟨s, tiers, hs, htiers, (framed_of_parse hs h).1, ?_⟩
  have last : front (Finding.edits (findings o s) ++
      if footerText o (Tab.join tabs) s = [] then []
        else [.insert (Tab.join tabs).size (footerText o (Tab.join tabs) s)]) (Tab.join tabs) =
      front (Finding.edits (findings o s)) (Tab.join tabs) ++ footerText o (Tab.join tabs) s := by
    split
    · rename_i nothing
      rw [nothing, List.append_nil, List.append_nil]
    · exact front_concat_insert _ _ _
  rw [lastEdits, plain, if_neg Bool.false_ne_true, List.append_nil] at hedits
  rw [hedits] at rendered
  rw [rendered, List.append_assoc, ← last]
  exact front_cons_insert _ _ _

/-- What a check of the sketch and of the program tells of a run, the edits left aside. -/
theorem exists_run {check : Sketch → Text → Bool} (valid : ImportsValid o)
    (room : 3 * o.tabSize < stringLimit) (plain : o.substituteUnicode = false)
    (h : (Sketch.parse (Tab.join tabs)).toOption.any fun s =>
      decide (structuralIssues o s = []) &&
        (importTiers o (ImportTiers.discover s.items).1).toOption.any fun tiers =>
          check s (headerText o s tiers "" ++
            front (Finding.edits (findings o s)) (Tab.join tabs) ++
              footerText o (Tab.join tabs) s)) :
    ∃ s p, Sketch.parse (Tab.join tabs) = .ok s ∧
      preprocess o .standard "" tabs = .ok (.success p) ∧ check s p.program := by
  cases hs : Sketch.parse (Tab.join tabs) with
  | error e => simp [hs, Except.toOption] at h
  | ok s =>
    simp only [hs, Except.toOption, Option.any_some, Bool.and_eq_true, decide_eq_true_eq] at h
    obtain ⟨-, p, -, ran, -⟩ := exists_success valid hs (not_cramped room s) h.1 .standard ""
    obtain ⟨s', tiers, hs', htiers, -, program⟩ := program_eq_front ran plain
    obtain rfl := Except.ok.inj (hs'.symm.trans hs)
    have checked := h.2
    rw [htiers] at checked
    exact ⟨s', p, rfl, ran, program ▸ checked⟩

/-- The tokens of the footer end the program, unless the edited tabs leave a comment open: then the
program has the tokens before that comment only. -/
theorem footer_read_or_swallowed (h : preprocess o t date tabs = .ok (.success p))
    (plain : o.substituteUnicode = false) (framed : p.mode ≠ .java) :
    ∃ s kept, Sketch.parse (Tab.join tabs) = .ok s ∧
      p.program = kept ++ footerText o (Tab.join tabs) s ∧
      ∀ ks fs, tokenize kept = .ok ks → tokenize (footerText o (Tab.join tabs) s) = .ok fs →
        (∃ ts, tokenize p.program = .ok ts ∧ ts.lexemes = ks.lexemes ++ fs.lexemes) ∨
          ∃ a body, kept = a ++ '/' :: '*' :: body ∧ ¬['*', '/'] <:+: body ∧
            (¬['*', '/'] <:+: footerText o (Tab.join tabs) s →
              ∃ ts, tokenize p.program = .ok ts ∧ ts.lexemes = ks.lexemes) := by
  obtain ⟨s, tiers, hs, -, mode, program⟩ := program_eq_front h plain
  refine ⟨s, _, hs, program, fun ks fs hks hfs => ?_⟩
  have foots : Foots o (Tab.join tabs) s := (framed_of_parse hs h).2.1
  rw [program]
  exact tokenize_append hks hfs (foots.head? (by rwa [← mode]))

/-- Behind a comment that is left open even a footer of one brace is lost. -/
theorem footer_lost_of_open_comment :
    let o : Options :=
      { Options.standard with testing := true, coreImports := [], defaultImports := [] }
    let tabs : List Tab := [⟨"a", "static void main() { } int x; /* open".toList⟩]
    ∃ s p ts fs, Sketch.parse (Tab.join tabs) = .ok s ∧ s.mode = .active ∧
      preprocess o .standard "" tabs = .ok (.success p) ∧ tokenize p.program = .ok ts ∧
      tokenize (footerText o (Tab.join tabs) s) = .ok fs ∧ ¬fs.lexemes <:+ ts.lexemes := by
  intro o tabs
  obtain ⟨s, p, hs, ran, checked⟩ := @exists_run o tabs
    (fun s program => decide (s.mode = .active) &&
      (tokenize program).toOption.any fun ts : Tokens =>
        (tokenize (footerText o (Tab.join tabs) s)).toOption.any fun fs : Tokens =>
          !decide (fs.lexemes <:+ ts.lexemes))
    (by decide +kernel) (by decide) rfl (by decide +kernel)
  simp only [Bool.and_eq_true, decide_eq_true_eq, Option.any_eq_true] at checked
  obtain ⟨active, ts, hts, fs, hfs, lost⟩ := checked
  have missing : ¬fs.lexemes <:+ ts.lexemes := by simpa using lost
  exact ⟨s, p, ts, fs, hs, active, ran, ok_of_toOption hts, ok_of_toOption hfs, missing⟩

/-- The walk edits nothing before the end of the package declaration. -/
theorem stop_package_le {source : Text} {s : Sketch} {ts : List Token} {d : PackageDecl}
    (h : Phrase.Spells s.phrases ts) (laid : LaidOut source ts) (hd : s.package = some d) :
    IsBoundary source d.span.hi ∧
      ∀ e ∈ Finding.edits (findings o s), d.span.hi ≤ e.offset := by
  rw [Sketch.phrases, hd] at h
  obtain ⟨us, vs, rfl, first, rest⟩ := h.uncons
  obtain ⟨here, behind, apart⟩ := laidOut_append.1 laid
  obtain ⟨-, t, ht, stop⟩ := mem_of_spanOf? (first.spanOf? rfl)
  have tidy : Finding.Tidy vs (findings o s) :=
    @Finding.tidy_ofItems _ source vs { s with package := none } rest behind
  refine ⟨stop ▸ (here.lies t ht).isBoundary_stop, fun e he => ?_⟩
  obtain ⟨u, hu, -, -, lo, -⟩ := tidy.bounds behind he
  have before := apart t ht u hu
  omega

/-- A sketch's own package declaration, with all that stands before it, follows the header. -/
theorem package_behind_header (h : preprocess o t date tabs = .ok (.success p))
    (plain : o.substituteUnicode = false) :
    ∃ s tiers, Sketch.parse (Tab.join tabs) = .ok s ∧
      importTiers o (ImportTiers.discover s.items).1 = .ok tiers ∧ ∀ d, s.package = some d →
      ∃ a rest behind, Tab.join tabs = a ++ rest ∧ a.size = d.span.hi ∧
        p.program = headerText o s tiers date ++ a ++ behind := by
  obtain ⟨s, tiers, hs, htiers, -, program⟩ := program_eq_front h plain
  refine ⟨s, tiers, hs, htiers, fun d hd => ?_⟩
  obtain ⟨ts, hts, spells⟩ := Sketch.spells_of_parse hs
  obtain ⟨boundary, later⟩ := @stop_package_le o _ s _ d spells (laidOut_of_tokenize hts) hd
  obtain ⟨a, rest, cut, size⟩ := isBoundary_iff.1 boundary
  have kept : front (Finding.edits (findings o s)) a =
      a ++ insertedAt (Finding.edits (findings o s)) a.size :=
    front_eq_append (size ▸ later)
  have whole : front (Finding.edits (findings o s)) (Tab.join tabs) =
      a ++ (insertedAt (Finding.edits (findings o s)) a.size ++
        renderFrom (Finding.edits (findings o s)) a.size rest) := by
    rw [cut, front_append, kept, List.append_assoc]
  rw [whole] at program
  exact ⟨a, rest, _, cut, size, by simpa only [List.append_assoc] using program⟩

/-- An import that the options ask for stands in front of the sketch's package declaration. -/
theorem import_before_package :
    let o : Options :=
      { Options.standard with testing := true, coreImports := ["a.B"], defaultImports := [] }
    let tabs : List Tab := [⟨"a", "package p; class A extends PApplet { }".toList⟩]
    ∃ s p ts, Sketch.parse (Tab.join tabs) = .ok s ∧ s.package.isSome ∧
      o.destinationPackage = none ∧ preprocess o .standard "" tabs = .ok (.success p) ∧
      tokenize p.program = .ok ts ∧ ts.lexemes.head? = some (.keyword, "import") := by
  intro o tabs
  obtain ⟨s, p, hs, ran, checked⟩ := @exists_run o tabs
    (fun s program => s.package.isSome && (tokenize program).toOption.any fun ts : Tokens =>
      decide (ts.lexemes.head? = some (.keyword, "import")))
    (by decide +kernel) (by decide) rfl (by decide +kernel)
  simp only [Bool.and_eq_true, decide_eq_true_eq, Option.any_eq_true] at checked
  obtain ⟨package, ts, hts, first⟩ := checked
  exact ⟨s, p, ts, hs, package, rfl, ran, ok_of_toOption hts, first⟩

end Preprocess

end SketchPrep
