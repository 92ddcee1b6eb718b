import TypedScript.Proofs.Lexer.EscapeForm

/-! # Escapes of tagged templates

A tagged template keeps the escapes that are wrong: they are not reported and stand for their
own text. The digits in braces are read as those of a number and are the exception. They are
reported, and a code in range between closed braces is read as its character, whatever is
wrong with its digits.
-/

namespace TypedScript.Lexer

open Text Numeral

variable {c d run start : Cursor} {n : Nat} {part text : List Char}

/-- From `c` to `d` the text is read as runs without a backslash, which stand for themselves,
and escapes, one behind the other. -/
inductive Composed (tagged : Bool) : Cursor → List (Reading String) → Cursor → Prop
  | done {c : Cursor} (hc : c.inside = 0) : Composed tagged c [] c
  | plain {c d stop : Cursor} {part : List Char} {readings : List (Reading String)}
    (hpart : c.Passes part d) (hslash : '\\' ∉ part) (hmore : Composed tagged d readings stop) :
    Composed tagged c (⟨String.ofList part, d, []⟩ :: readings) stop
  | escape {c stop : Cursor} {readings : List (Reading String)} (hslash : c.char? = some '\\')
    (hmore : Composed tagged (readEscape tagged c).stop readings stop) :
    Composed tagged c (readEscape tagged c :: readings) stop

theorem verbatim_of_passes (h : c.Passes part d) : verbatim c d = ⟨String.ofList part, d, []⟩ := by
  rw [verbatim, h.textTo_eq]

theorem exists_char?_of_atEnd (hc : c.inside = 0) (h : c.atEnd = false) :
    ∃ ch, c.char? = some ch := by
  cases hch : c.char? with
  | none =>
    rw [Cursor.atEnd, (Cursor.char?_eq_none_iff hc).mp hch] at h
    cases h
  | some ch => exact ⟨ch, rfl⟩

theorem composed_readBody (quote : UInt8) (tagged : Bool) (pieces : List (Reading String))
    (hrun : ∃ plain, run.Passes plain c ∧ '\\' ∉ plain) :
    let body := readBody quote tagged pieces run c
    ∃ readings, Composed tagged run readings body.stop ∧
      body.pieces.reverse = pieces.reverse ++ readings := by
  -- The run in front of the cursor grows by a plain character and begins anew behind an escape.
  fun_induction readBody quote tagged pieces run c with
  | case1 pieces run c ending h =>
    obtain ⟨plain, hpart, hplain⟩ := hrun
    refine ⟨[verbatim run c], ?_, List.reverse_cons⟩
    rw [verbatim_of_passes hpart]
    exact .plain hpart hplain (.done hpart.inside_eq')
  | case2 pieces run c h hslash escape hlt ih =>
    obtain ⟨plain, hpart, hplain⟩ := hrun
    have hstop : escape.stop.inside = 0 := (reaches_readEscape tagged hslash).inside_eq
    obtain ⟨readings, hmore, hpieces⟩ := ih ⟨[], .refl hstop, List.not_mem_nil⟩
    refine ⟨⟨String.ofList plain, c, []⟩ :: escape :: readings,
      .plain hpart hplain (.escape hslash hmore), ?_⟩
    rw [hpieces, verbatim_of_passes hpart]
    simp
  | case3 pieces run c h hslash hlt ih =>
    obtain ⟨plain, hpart, hplain⟩ := hrun
    obtain ⟨ch, hch⟩ := exists_char?_of_atEnd hpart.inside_eq' (atEnd_of_bodyEndAt? h)
    have hne : '\\' ≠ ch := by
      rintro rfl
      exact hslash hch
    refine ih ⟨plain ++ [ch], hpart.trans (Cursor.passes_skipChar hch), ?_⟩
    rw [List.mem_append, List.mem_singleton]
    exact fun hmem => hmem.elim hplain hne

theorem openReports_eq (b : Body) (pos : Nat) :
    b.openReports pos = [] ∨
      b.openReports pos = [⟨.unterminatedString, pos - 1, b.stop.pos, []⟩] := by
  unfold Body.openReports
  split
  · exact .inl rfl
  · exact .inl rfl
  · exact .inr rfl
  · exact .inr rfl

def bracedRun? : List Char → Option (List Char)
  | '\\' :: 'u' :: '\x7b' :: rest => some (rest.takeWhile (isDigitOrSeparator .hexadecimal))
  | _ => none

/-- The code of an escape in braces that are closed, if it is in range; its digits and
separators may be at fault. -/
def bracedCode? : List Char → Option Nat
  | '\\' :: 'u' :: '\x7b' :: rest =>
    let code := Radix.hexadecimal.value (rest.takeWhile (isDigitOrSeparator .hexadecimal))
    if code ≤ 0x10FFFF ∧
        (rest.dropWhile (isDigitOrSeparator .hexadecimal)).head? = some '\x7d' then
      some code
    else none
  | _ => none

theorem reports_readBracedEscape_tagged (start c : Cursor) :
    (readBracedEscape true start c).reports = (readDigits .hexadecimal start c).reports := by
  simp only [readBracedEscape, if_true]
  split <;> rfl

theorem rest_readDigits (r : Radix) (start : Cursor) (hc : c.inside = 0) :
    (readDigits r start c).stop.rest = c.rest.dropWhile (isDigitOrSeparator r) := by
  have hstop : (readDigits r start c).stop = c.skipChars (isDigitOrSeparator r) := rfl
  rw [hstop, Cursor.skipChars, if_pos hc]

theorem bracedCode?_eq (start : Cursor) (hc : c.inside = 0) :
    bracedCode? ('\\' :: 'u' :: '\x7b' :: c.rest) =
      if bracedFaults c (readDigits .hexadecimal start c) = [] then
        some (Radix.hexadecimal.value (digitRun .hexadecimal c))
      else none := by
  have hstop := (passes_readDigits .hexadecimal start hc).inside_eq'
  have hchar : (readDigits .hexadecimal start c).stop.char? =
      (c.rest.dropWhile (isDigitOrSeparator .hexadecimal)).head? := by
    rw [Cursor.char?, if_pos hstop, rest_readDigits .hexadecimal start hc]
  simp only [bracedCode?, bracedFaults_eq_nil_iff, hchar, digitRun_eq .hexadecimal hc]

theorem value_readBracedEscape_tagged (hstart : start.Passes ['\\', 'u', '\x7b'] c) :
    ∃ part, start.Passes part (readBracedEscape true start c).stop ∧
      (readBracedEscape true start c).value = (bracedCode? start.rest).elim (String.ofList part)
        fun code => String.singleton (charOfCode code) := by
  have hc := hstart.inside_eq'
  obtain ⟨part, hpart⟩ := hstart.reaches.trans (reaches_readBracedEscape true start hc)
  refine ⟨part, hpart, ?_⟩
  rw [hstart.rest_eq, List.cons_append, List.cons_append, List.cons_append, List.nil_append,
    bracedCode?_eq start hc]
  by_cases hfaults : bracedFaults c (readDigits .hexadecimal start c) = []
  · have hsmall := (bracedFaults_eq_nil_iff.mp hfaults).1
    have hcode : (readDigits .hexadecimal start c).value.value.toNat =
        Radix.hexadecimal.value (digitRun .hexadecimal c) := by
      rw [value_readDigits]
      exact UInt64.toNat_ofNat_of_lt (Nat.lt_of_le_of_lt hsmall (by decide))
    simp only [readBracedEscape, if_pos hfaults, hcode, Option.elim_some]
  · simp only [readBracedEscape, if_neg hfaults, if_true, Option.elim_none] at hpart ⊢
    exact hpart.textTo_eq

section Row

variable {continue_ : Nat → Cursor → Reading String}

theorem reports_readHexEscape_tagged (start : Cursor) (n : Nat) (c : Cursor)
    (h : ∀ value stop, (continue_ value stop).reports = []) :
    (readHexEscape true start n c continue_).reports = [] := by
  unfold readHexEscape
  split
  · exact h _ _
  · rfl
  · rfl

theorem value_readHexEscape_tagged (hstart : start.Passes text c)
    (h : ∀ value stop, (continue_ value stop).reports = [])
    (hbad : (readHexEscape false start n c continue_).reports ≠ []) :
    ∃ part, start.Passes part (readHexEscape true start n c continue_).stop ∧
      (readHexEscape true start n c continue_).value = String.ofList part := by
  have hplace := reaches_readHexRow n 0 hstart.inside_eq'
  unfold readHexEscape at hbad ⊢
  cases hrow : readHexRow n 0 c with
  | complete value stop =>
    rw [hrow] at hbad
    exact absurd (h value stop) hbad
  | badDigit place =>
    rw [hrow] at hplace
    obtain ⟨part, hpart⟩ := hstart.reaches.trans hplace
    exact ⟨part, hpart, hpart.textTo_eq⟩
  | cutOff place =>
    rw [hrow] at hplace
    obtain ⟨part, hpart⟩ := hstart.reaches.trans hplace
    exact ⟨part, hpart, hpart.textTo_eq⟩

end Row

/-- How a tagged template reads the escape at the cursor. -/
structure KeptRaw (c : Cursor) : Prop where
  reports_lone : c.rest = ['\\'] →
    (readEscape true c).reports = [.point .unexpectedEnd (c.pos + 1)]
  silent_iff : c.rest ≠ ['\\'] →
    ((readEscape true c).reports = [] ↔
      ∀ run ∈ bracedRun? c.rest, IsGrouped .hexadecimal run ∧
        Radix.hexadecimal.value run < UInt64.size)
  reports_le : (readEscape true c).reports <+: (readEscape false c).reports
  own_text : c.rest ≠ ['\\'] → (readEscape false c).reports ≠ [] →
    ∃ part, c.Passes part (readEscape true c).stop ∧
      (readEscape true c).value = (bracedCode? c.rest).elim (String.ofList part)
        fun code => String.singleton (charOfCode code)

theorem keptRaw_of_lone (hc : c.inside = 0) (h : c.rest = ['\\']) : KeptRaw c := by
  have hreports := fun tagged => reports_readEscape_of_lone tagged hc h
  have hsame := (hreports true).trans (hreports false).symm
  exact ⟨fun _ => hreports true, fun hne => absurd h hne, hsame ▸ List.prefix_rfl,
    fun hne => absurd h hne⟩

theorem keptRaw_of_braced (h : c.Passes ['\\', 'u', '\x7b'] d)
    (hread : ∀ tagged, readEscape tagged c = readBracedEscape tagged c d) : KeptRaw c := by
  have hrest := h.rest_eq
  have hrun : bracedRun? c.rest = some (digitRun .hexadecimal d) := by
    rw [hrest, digitRun_eq .hexadecimal h.inside_eq']
    rfl
  refine ⟨fun hlone => ?_, fun _ => ?_, ?_, fun _ _ => ?_⟩
  · rw [hrest] at hlone
    cases hlone
  · rw [hread, reports_readBracedEscape_tagged, reports_readDigits_eq_nil_iff, hrun]
    simp
  · rw [hread, hread, reports_readBracedEscape_tagged, reports_readBracedEscape]
    exact List.prefix_append _ _
  · rw [hread]
    exact value_readBracedEscape_tagged h

theorem bracedRun?_eq_none {ch : Char} {rest : List Char}
    (h : ¬ (ch = 'u' ∧ rest.head? = some '\x7b')) :
    bracedRun? ('\\' :: ch :: rest) = none ∧ bracedCode? ('\\' :: ch :: rest) = none := by
  unfold bracedRun? bracedCode?
  split
  · rename_i hbraced
    cases hbraced
    exact absurd ⟨rfl, rfl⟩ h
  · exact ⟨rfl, rfl⟩

/-- An escape without braces of which nothing is reported, and which is read as its own text
if anything would be reported of it otherwise. -/
theorem keptRaw_of_unbraced {ch : Char} (hpart : c.Passes ['\\', ch] d)
    (hbrace : ¬ (ch = 'u' ∧ d.char? = some '\x7b')) (hsilent : (readEscape true c).reports = [])
    (htext : (readEscape false c).reports ≠ [] → ∃ part,
      c.Passes part (readEscape true c).stop ∧ (readEscape true c).value = String.ofList part) :
    KeptRaw c := by
  rw [Cursor.char?, if_pos hpart.inside_eq'] at hbrace
  obtain ⟨hrun, hcode⟩ := bracedRun?_eq_none hbrace
  have hrest : c.rest = '\\' :: ch :: d.rest := hpart.rest_eq
  refine ⟨fun hlone => ?_, fun _ => ?_, ?_, fun _ hbad => ?_⟩
  · rw [hrest] at hlone
    cases hlone
  · rw [hrest, hrun]
    refine iff_of_true hsilent fun run hmem => ?_
    cases hmem
  · rw [hsilent]
    exact List.nil_prefix
  · rw [hrest, hcode]
    exact htext hbad

/-- Wherever a backslash stands, a tagged template reports nothing of the escape that another
literal would not, and of its digits in braces only. -/
theorem keptRaw (h : c.char? = some '\\') : KeptRaw c := by
  obtain ⟨hc, rest, hrest⟩ := Cursor.char?_eq_some_iff.mp h
  cases rest with
  | nil => exact keptRaw_of_lone hc hrest
  | cons ch rest =>
    -- Where the reading goes on does not depend on the mode.
    obtain ⟨d, -, hpart⟩ := readEscape_of_rest true hc hrest
    have hread : ∀ tagged, readEscape tagged c = readEscapeAfter tagged c ch d := by
      intro tagged
      obtain ⟨d', hread, hpart'⟩ := readEscape_of_rest tagged hc hrest
      rwa [hpart'.unique hpart] at hread
    by_cases hbyte : ch = 'x'
    · subst hbyte
      refine keptRaw_of_unbraced hpart (fun hunit => absurd hunit.1 (by decide)) ?_ ?_
      · rw [hread]
        exact reports_readHexEscape_tagged c 2 d fun _ _ => rfl
      · rw [hread, hread]
        exact value_readHexEscape_tagged hpart fun _ _ => rfl
    · by_cases hunit : ch = 'u'
      · subst hunit
        by_cases hbrace : d.char? = some '\x7b'
        · refine keptRaw_of_braced (hpart.trans (Cursor.passes_advance_one hbrace rfl)) ?_
          intro tagged
          rw [hread]
          exact if_pos hbrace
        · have hrow : ∀ tagged, readEscape tagged c = readHexEscape tagged c 4 d readPair := by
            intro tagged
            rw [hread]
            exact if_neg hbrace
          refine keptRaw_of_unbraced hpart (fun hboth => hbrace hboth.2) ?_ ?_
          · rw [hrow]
            exact reports_readHexEscape_tagged c 4 d reports_readPair
          · rw [hrow, hrow]
            exact value_readHexEscape_tagged hpart reports_readPair
      · have hsilent : ∀ tagged, (readEscape tagged c).reports = [] := by
          intro tagged
          rw [hread]
          exact reports_readEscapeAfter_other tagged c d ⟨hbyte, hunit⟩
        exact keptRaw_of_unbraced hpart (fun hboth => hunit hboth.1) (hsilent true)
          fun hbad => absurd (hsilent false) hbad

/-- In tagged templates escapes are kept raw: of each escape in the body only the digits in
braces are reported, as `KeptRaw` says, and what is read are the runs and the escapes one
behind the other, up to the end of the body. Besides, a literal that is not closed is reported. -/
theorem tagged_keeps_escapes (l : Lexer) :
    (∀ c : Cursor, c.char? = some '\\' → KeptRaw c) ∧
    (l.takeEscape true).2.log =
      l.log.pushAll ((readEscape true l.cursor).reports.map (·.message l.source)) ∧
    ∀ quote? : Option UInt8,
      let start := if quote?.isNone then l.cursor.advance 1 else l.cursor
      let taken := l.takeString quote? true
      start.inside = 0 →
        ∃ (readings : List (Reading String)) (stop : Cursor) (opened : List Report),
          Composed true start readings stop ∧ stop.pos = taken.2.bodyStop ∧
          (opened = [] ∨ opened = [⟨.unterminatedString, start.pos - 1, stop.pos, []⟩]) ∧
          taken.1 = String.join (readings.map (·.value)) ∧
          taken.2.log = l.log.pushAll
            ((readings.flatMap (·.reports) ++ opened).map (·.message l.source)) := by
  refine ⟨fun _ => keptRaw, l.log_take _, ?_⟩
  intro quote? start taken hstart
  let body := readBody (quote?.getD l.cursor.byte) true [] start start
  obtain ⟨readings, hcomposed, hpieces⟩ :=
    composed_readBody (quote?.getD l.cursor.byte) true [] ⟨[], .refl hstart, List.not_mem_nil⟩
  have hpieces : body.pieces.reverse = readings := hpieces
  have htaken : taken.1 = body.text := rfl
  have hlog : taken.2.log = l.log.pushAll
      ((body.reports ++ body.openReports start.pos).map (·.message l.source)) := l.log_take _
  refine ⟨readings, body.stop, body.openReports start.pos, hcomposed, rfl, openReports_eq body _,
    ?_, ?_⟩
  · rw [htaken, Body.text, hpieces]
  · rw [hlog, Body.reports, hpieces]

theorem tagged_keeps_escapes_out_of_range :
    let l := Lexer.new 0 "\\u\x7b110000\x7d\x60" .empty
    l.cursor.char? = some '\\' ∧ l.cursor.inside = 0 ∧ (readEscape true l.cursor).reports = [] ∧
      ∃ readings stop, Composed true l.cursor readings stop ∧
        stop.pos = (l.takeString (some backtick) true).2.bodyStop ∧
        (l.takeString (some backtick) true).1 = String.join (readings.map (·.value)) := by
  intro l
  have hslash : l.cursor.char? = some '\\' := by decide +kernel
  have hinside : l.cursor.inside = 0 := by decide +kernel
  have hrun : bracedRun? l.cursor.rest = some ['1', '1', '0', '0', '0', '0'] := by decide +kernel
  have hgrouped : IsGrouped .hexadecimal ['1', '1', '0', '0', '0', '0'] :=
    .cons rfl (.cons rfl (.cons rfl (.cons rfl (.cons rfl (.single rfl)))))
  refine ⟨hslash, hinside, ?_, ?_⟩
  · refine (((tagged_keeps_escapes l).1 l.cursor hslash).silent_iff (by decide +kernel)).mpr ?_
    rw [hrun]
    rintro _ ⟨⟩
    exact ⟨hgrouped, by decide⟩
  · obtain ⟨readings, stop, -, hcomposed, hstop, -, htext, -⟩ :=
      (tagged_keeps_escapes l).2.2 (some backtick) hinside
    exact ⟨readings, stop, hcomposed, hstop, htext⟩

/-- Missing digits in braces are reported in a tagged template too, and the escape is read as
a character. -/
theorem tagged_reports_digits :
    let l := Lexer.new 0 "\\u\x7b\x7d" .empty
    l.cursor.char? = some '\\' ∧ l.cursor.rest ≠ ['\\'] ∧
      (Operation.escape true).reports l = [.point .hexDigitExpected 3] ∧
      (Operation.escape false).reports l ≠ [] ∧ (l.takeEscape true).1 = "\x00" ∧
      l.cursor.textTo (l.takeEscape true).2.pos = "\\u\x7b\x7d" := by
  decide +kernel

end TypedScript.Lexer
