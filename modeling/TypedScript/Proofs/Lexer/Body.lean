import TypedScript.Proofs.Lexer.Spelling

/-! # Bodies of quoted literals

The characters of a body stand for themselves, escapes apart. Where a text spells a body in
this way, up to where it ends, the reader stops there and puts together what the characters
and the escapes stand for.
-/

namespace TypedScript.Lexer

open Text

variable {quote : UInt8} {tagged : Bool} {c d run : Cursor} {ch : Char} {ending : BodyEnd}
  {pieces : List (Reading String)} {after text meant : List Char}

/-- From `c` to `d` stands `text`, which means `meant` in a body: no character of it ends the
body, and its escapes have nothing to report. -/
inductive Spells (quote : UInt8) (tagged : Bool) : Cursor → List Char → List Char → Cursor → Prop
  | done {c : Cursor} (hc : c.inside = 0) : Spells quote tagged c [] [] c
  | plain {c d : Cursor} {ch : Char} {text meant : List Char} (hend : bodyEndAt? quote c = none)
    (hch : c.char? = some ch) (hslash : ch ≠ '\\')
    (hmore : Spells quote tagged c.skipChar text meant d) :
    Spells quote tagged c (ch :: text) (ch :: meant) d
  | escape {c d stop : Cursor} {part value text meant : List Char}
    (hend : bodyEndAt? quote c = none) (hslash : c.char? = some '\\')
    (hread : readEscape tagged c = ⟨String.ofList value, stop, []⟩) (hpart : c.Passes part stop)
    (hmore : Spells quote tagged stop text meant d) :
    Spells quote tagged c (part ++ text) (value ++ meant) d

theorem Spells.passes (h : Spells quote tagged c text meant d) : c.Passes text d := by
  induction h with
  | done hc => exact .refl hc
  | plain _ hch _ _ ih => exact (Cursor.passes_skipChar hch).trans ih
  | escape _ _ _ hpart _ ih => exact hpart.trans ih

theorem readEscape_of_rest (tagged : Bool) (hc : c.inside = 0) (h : c.rest = '\\' :: ch :: after) :
    ∃ d, readEscape tagged c = readEscapeAfter tagged c ch d ∧ c.Passes ['\\', ch] d := by
  have hslash := Cursor.passes_advance_one (Cursor.char?_eq_some_iff.mpr ⟨hc, _, h⟩) rfl
  have hnext : (c.advance 1).char? = some ch :=
    Cursor.char?_eq_some_iff.mpr ⟨hslash.inside_eq', after, hslash.rest_eq_of_append h⟩
  refine ⟨(c.advance 1).skipChar, ?_, hslash.trans (Cursor.passes_skipChar hnext)⟩
  simp only [readEscape, hnext]

theorem readBody_of_end (h : bodyEndAt? quote c = some ending) :
    readBody quote tagged pieces run c = ⟨verbatim run c :: pieces, c, ending⟩ := by
  rw [readBody]
  split
  · rename_i other hother
    rw [h] at hother
    cases hother
    rfl
  · rename_i hnone
    rw [h] at hnone
    cases hnone

theorem readBody_of_escape (h : bodyEndAt? quote c = none) (hslash : c.char? = some '\\') :
    readBody quote tagged pieces run c =
      readBody quote tagged (readEscape tagged c :: verbatim run c :: pieces)
        (readEscape tagged c).stop (readEscape tagged c).stop := by
  rw [readBody]
  split
  · rename_i other hother
    rw [h] at hother
    cases hother
  · rw [if_pos hslash]

theorem readBody_of_plain (h : bodyEndAt? quote c = none) (hslash : c.char? ≠ some '\\') :
    readBody quote tagged pieces run c = readBody quote tagged pieces run c.skipChar := by
  rw [readBody]
  split
  · rename_i other hother
    rw [h] at hother
    cases hother
  · rw [if_neg hslash]

def textSoFar (pieces : List (Reading String)) (plain : List Char) : String :=
  String.join (pieces.reverse.map (·.value)) ++ String.ofList plain

theorem readBody_of_spells {plain : List Char} (h : Spells quote tagged c text meant d)
    (hend : bodyEndAt? quote d = some ending) (hrun : run.Passes plain c)
    (hsilent : ∀ piece ∈ pieces, piece.reports = []) :
    let body := readBody quote tagged pieces run c
    body.stop = d ∧ body.ending = ending ∧ body.text = textSoFar pieces (plain ++ meant) ∧
      body.reports = [] := by
  -- The run in front of the cursor grows by a plain character and begins anew behind an escape.
  induction h generalizing run plain pieces with
  | @done c hc =>
    rw [readBody_of_end hend]
    refine ⟨rfl, rfl, ?_, ?_⟩
    · rw [Body.text, List.append_nil, textSoFar, verbatim, hrun.textTo_eq]
      simp
    · refine List.flatMap_eq_nil_iff.mpr fun piece hpiece => ?_
      rcases List.mem_cons.mp (List.mem_reverse.mp hpiece) with rfl | hpiece
      · rfl
      · exact hsilent piece hpiece
  | @plain c d ch text meant hnone hch hslash _ ih =>
    have hne : c.char? ≠ some '\\' := by
      rw [hch]
      rintro ⟨⟩
      exact hslash rfl
    rw [readBody_of_plain hnone hne]
    obtain ⟨hstop, hending, htext, hreports⟩ :=
      ih hend (hrun.trans (Cursor.passes_skipChar hch)) hsilent
    refine ⟨hstop, hending, ?_, hreports⟩
    rw [htext, List.append_assoc]
    rfl
  | @escape c d stop part value text meant hnone hslash hread hpart _ ih =>
    have hpieces : ∀ piece ∈ readEscape tagged c :: verbatim run c :: pieces,
        piece.reports = [] :=
      List.forall_mem_cons.mpr ⟨by rw [hread], List.forall_mem_cons.mpr ⟨rfl, hsilent⟩⟩
    rw [readBody_of_escape hnone hslash]
    rw [hread] at hpieces ⊢
    obtain ⟨hstop, hending, htext, hreports⟩ := ih hend (.refl hpart.inside_eq') hpieces
    refine ⟨hstop, hending, ?_, hreports⟩
    rw [htext]
    apply String.toList_injective
    simp [textSoFar, verbatim, hrun.textTo_eq]

theorem readBody_of_spells_start (h : Spells quote tagged c text meant d)
    (hend : bodyEndAt? quote d = some ending) :
    let body := readBody quote tagged [] c c
    body.stop = d ∧ body.ending = ending ∧ body.text = String.ofList meant ∧ body.reports = [] := by
  obtain ⟨hstop, hending, htext, hreports⟩ :=
    readBody_of_spells h hend (.refl h.passes.inside_eq) (List.forall_mem_nil _)
  refine ⟨hstop, hending, ?_, hreports⟩
  rw [htext]
  exact String.empty_append

/-- A literal whose body is spelled out, up to what closes it, is taken as what it means. -/
theorem takeString_of_spells (quote? : Option UInt8) {l : Lexer} {start : Cursor}
    (hstart : (if quote?.isNone then l.cursor.advance 1 else l.cursor) = start)
    (h : Spells (quote?.getD l.cursor.byte) tagged start text meant d)
    (hend : bodyEndAt? (quote?.getD l.cursor.byte) d = some ending)
    (hclosed : ending = .quote ∨ ending = .interpolation) :
    ∃ next, l.takeString quote? tagged = (String.ofList meant, next) ∧ Silent l next ∧
      next.rawString = String.ofList text ∧ next.inTemplate = decide (ending = .interpolation) ∧
      next.cursor = Body.after ⟨[], d, ending⟩ := by
  obtain ⟨hstop, hending, htext, hreports⟩ := readBody_of_spells_start h hend
  generalize hbody : readBody (quote?.getD l.cursor.byte) tagged [] start start = body
    at hstop hending htext hreports
  have hopen : body.openReports start.pos = [] := by
    rw [Body.openReports, hending]
    rcases hclosed with rfl | rfl <;> rfl
  have hafter : body.after = Body.after ⟨[], d, ending⟩ := by
    rw [Body.after, hending, hstop]
    rfl
  let next : Lexer := { l with
    cursor := body.after, inTemplate := decide (ending = .interpolation), bodyStart := start,
    bodyStop := body.stop.pos }
  refine ⟨next, ?_, ⟨rfl, rfl, rfl⟩, ?_, rfl, hafter⟩
  · simp only [takeString, take, record, readQuoted, hstart, hbody, hreports, hopen, hending,
      htext, List.append_nil, List.foldl_nil, next]
  · rw [rawString, show next.bodyStop = d.pos from congrArg Cursor.pos hstop]
    exact h.passes.textTo_eq

end TypedScript.Lexer
