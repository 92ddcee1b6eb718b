import Mathlib.Data.List.TakeWhile
import TypedScript.Proofs.Diagnostic.Layout

/-! # The number and the line of an excerpt

The number in front of a line counts line feeds, and the line behind it is cut at line breaks of
any kind. So an excerpt shows the line with its number as long as no line break of another kind
stands in that line in front of the offset. Otherwise it shows only what follows the last one of
these.
-/

namespace TypedScript

namespace Text

variable {text : List Char} {number start offset : Nat} {ch : Char}

/-- A text cut at an offset, at the start of the line with a number, and at the first line break
from the offset on. -/
structure NumberedLine (text : List Char) (number offset : Nat) where
  before : List Char
  lead : List Char
  tail : List Char
  after : List Char
  text_eq : text = before ++ lead ++ (tail ++ after)
  start_eq : lineStart? text number = some (byteSize before)
  offset_eq : byteSize (before ++ lead) = offset
  before_last : ∀ ch, before.getLast? = some ch → ch = '\n'
  lead_noFeed : '\n' ∉ lead
  tail_unbroken : Unbroken tail
  after_head : ∀ ch, after.head? = some ch → isLineBreak ch = true

theorem mem_utf8_of_feed_mem (h : '\n' ∈ text) : 0x0A ∈ utf8 text :=
  List.mem_flatMap.mpr ⟨'\n', h, List.mem_singleton.mpr rfl⟩

theorem nonempty_numberedLine (h : OnEdge text offset) (hbound : offset < lineSentinel) :
    Nonempty (NumberedLine text (place text offset).line offset) := by
  obtain ⟨-, start, hstart, hle, -⟩ := place_spec text hbound
  obtain ⟨before, rest, htext, rfl, hlast⟩ := exists_of_lineStart?_text hstart
  -- The start of the line and the offset are edges, so there is a slice between them.
  obtain ⟨lead, hslice⟩ := OnEdge.exists_slice? ⟨before, rest, htext, rfl⟩ h hle
  obtain ⟨before', back, hcut, hsize, hoffset⟩ := slice?_eq_some_iff.mp hslice
  obtain rfl : before' = before := by
    have htake : takeBytes? (byteSize before) text = some before :=
      takeBytes?_eq_some_iff.mpr ⟨rest, htext, rfl⟩
    have htake' : takeBytes? (byteSize before) text = some before' :=
      takeBytes?_eq_some_iff.mpr ⟨lead ++ back, by rw [hcut, List.append_assoc], hsize⟩
    exact Option.some.inj (htake'.symm.trans htake)
  obtain ⟨tail, after, rfl, htail, hafter⟩ := Diagnostic.Excerpt.exists_firstLine back
  have hoffset : byteSize (before' ++ lead) = offset := (byteSize_append ..).trans hoffset
  refine ⟨⟨before', lead, tail, after, hcut, hstart, hoffset, hlast, fun hmem => ?_, htail,
    hafter⟩⟩
  have hnone := feed_notMem_of_place hbound hstart hle
  rw [hcut, ← hoffset, drop_take_utf8] at hnone
  exact hnone (mem_utf8_of_feed_mem hmem)

theorem NumberedLine.column_eq (line : NumberedLine text (place text offset).line offset)
    (hbound : offset < lineSentinel) : (place text offset).column = byteSize line.lead + 1 := by
  obtain ⟨-, start, hstart, -, hcolumn⟩ := place_spec text hbound
  obtain rfl := Option.some.inj (hstart.symm.trans line.start_eq)
  have hoffset := line.offset_eq
  rw [byteSize_append] at hoffset
  omega

end Text

namespace Diagnostic

open Text Excerpt

variable {text before lead tail : List Char} {number offset : Nat}

namespace Excerpt

theorem lastLine_append_lastLine (h : ∀ ch, before.getLast? = some ch → isLineBreak ch = true) :
    lastLine (before ++ lead) = lastLine lead := by
  obtain ⟨front, last, rfl, hlast, hfront⟩ := exists_lastLine lead
  have hboth : ∀ ch, (before ++ front).getLast? = some ch → isLineBreak ch = true := by
    intro ch hch
    rw [List.getLast?_append] at hch
    cases hend : front.getLast? with
    | none => exact h ch (by simpa [hend] using hch)
    | some other => exact hfront ch (by simpa [hend] using hch)
  rw [lastLine_append hfront hlast, ← List.append_assoc, lastLine_append hboth hlast]

theorem isSpace_of_isLineBreak {ch : Char} (h : isLineBreak ch = true) : isSpace ch = false := by
  simp only [isLineBreak, Bool.or_eq_true, beq_iff_eq] at h
  rcases h with ((rfl | rfl) | rfl) | rfl <;> decide

/-- Leading white space ends at a line break. -/
theorem trim_append_of_not_unbroken (tail : List Char) (h : ¬ Unbroken lead) :
    trim (lead ++ tail) = trim lead ++ tail ∧ trim lead ≠ [] := by
  obtain ⟨ch, hch, hbreak⟩ : ∃ ch ∈ lead, isLineBreak ch = true := by
    simpa [Unbroken] using h
  have hkept : ¬ ∀ other ∈ lead, isSpace other = true := fun hall => by
    have hspace := hall ch hch
    rw [isSpace_of_isLineBreak hbreak] at hspace
    cases hspace
  have hne : trim lead ≠ [] := fun hnil => hkept (List.dropWhile_eq_nil_iff.mp hnil)
  refine ⟨?_, hne⟩
  rw [trim, List.dropWhile_append, if_neg (by simpa [trim] using hne)]
  rfl

theorem trim_lastLine_append_eq_iff :
    trim (lastLine lead ++ tail) = trim (lead ++ tail) ↔ Unbroken lead := by
  constructor
  · intro h
    refine Decidable.byContradiction fun hbroken => ?_
    obtain ⟨front, last, rfl, hlast, hfront⟩ := exists_lastLine lead
    have hfrontBroken : ¬ Unbroken front := fun hunbroken =>
      hbroken (unbroken_append.mpr ⟨hunbroken, hlast⟩)
    obtain ⟨htrim, hne⟩ := trim_append_of_not_unbroken (last ++ tail) hfrontBroken
    have hpos := List.length_pos_iff.mpr hne
    have hle : (trim (last ++ tail)).length ≤ (last ++ tail).length :=
      (List.dropWhile_sublist isSpace).length_le
    rw [lastLine_append hfront hlast, List.append_assoc, htrim] at h
    have hlength := congrArg List.length h
    rw [List.length_append] at hlength
    omega
  · intro h
    have hnil : ∀ ch, [].getLast? = some ch → isLineBreak ch = true := fun _ hch => by cases hch
    have hlast : lastLine lead = lead := lastLine_append hnil h
    rw [hlast]

theorem ofOffsets_numberedLine (line : NumberedLine text number offset) (stop : Nat) :
    let e := ofOffsets text offset stop
    e.line = trim (lastLine line.lead ++ line.tail) ∧ e.indent = trim (lastLine line.lead) := by
  have hbefore : ∀ ch, line.before.getLast? = some ch → isLineBreak ch = true := fun ch hch => by
    rw [line.before_last ch hch]
    rfl
  have hexcerpt := ofOffsets_append (line.before ++ line.lead) (line.tail ++ line.after) stop
  rw [← line.text_eq, line.offset_eq, lastLine_append_lastLine hbefore,
    firstLine_append line.tail_unbroken line.after_head] at hexcerpt
  rw [hexcerpt]
  exact ⟨rfl, rfl⟩

end Excerpt

/-- The number in an excerpt is that of the line around the start of the span, in which the column
of the report counts the bytes up to that start. Behind the number stands what this line shows
from the last line break on that is in front of the span, without its indentation. That is the
whole line, without its indentation, exactly if there is no such line break in it. -/
theorem excerpt_numberedLine (source : Source) (span : Span) (widest : Option Nat) (colors : Bool)
    (hedge : OnEdge source.text.toList span.start) (hbound : span.start < Source.offsetBound) :
    let shown := (ofOffsets source.text.toList span.start span.stop).line
    ∃ p, ∃ line : NumberedLine source.text.toList p.line span.start,
      let width := gutter p.line widest
      let d := picture source span p.line width
      source.place span.start = .ok p ∧ p.column = byteSize line.lead + 1 ∧
      excerptText source span widest colors = .ok (d.render colors) ∧
      locationText ⟨colors, true⟩ widest source span = .ok (d.renderAt colors p) ∧
      d.IsFramed p.line width ∧ d.line = expandTabs shown ∧
      d.shift = widthOf (trim (lastLine line.lead)) ∧
      shown = trim (lastLine line.lead ++ line.tail) ∧
      (shown = trim (line.lead ++ line.tail) ↔ Unbroken line.lead) := by
  intro shown
  obtain ⟨line⟩ := nonempty_numberedLine hedge hbound
  obtain ⟨hshown, hindent⟩ := ofOffsets_numberedLine line span.stop
  have hp : source.place span.start = .ok (Text.place source.text.toList span.start) :=
    Source.place_eq_ok_iff.mpr ⟨hbound, rfl⟩
  refine ⟨_, line, hp, line.column_eq hbound, excerptText_eq hp widest, locationText_eq hp widest,
    isFramed_picture (Nat.le_max_left _ _), rfl, congrArg widthOf hindent, hshown, ?_⟩
  rw [show shown = _ from hshown]
  exact trim_lastLine_append_eq_iff

theorem excerpt_numberedLine_return_feed :
    let source := Source.new 0 .user "a.ts" "x;\r\n  y = é\r\nz"
    let span : Span := ⟨0, 10, 12⟩
    OnEdge source.text.toList span.start ∧ span.start < Source.offsetBound ∧
      excerptText source span none false = .ok "   :\n 2 │ y = é\n   │     ~\n   └─ in a.ts" ∧
      ∃ line : NumberedLine source.text.toList 2 span.start, Unbroken line.lead ∧
        byteSize line.lead + 1 = 7 ∧ trim (line.lead ++ line.tail) = "y = é".toList := by
  intro source span
  have hedge : OnEdge source.text.toList span.start := by decide +kernel
  have hbound : span.start < Source.offsetBound := by decide
  have hplace : source.place span.start = .ok ⟨2, 7⟩ :=
    Source.place_eq_ok_iff.mpr (by decide +kernel)
  obtain ⟨p, line, hp, hcolumn, hexcerpt, -, -, -, -, -, hwhole⟩ :=
    excerpt_numberedLine source span none false hedge hbound
  obtain rfl := Except.ok.inj (hplace.symm.trans hp)
  have hstart : lineStart? source.text.toList 2 = some 4 := by decide +kernel
  have hbefore : byteSize line.before = 4 := Option.some.inj (line.start_eq.symm.trans hstart)
  have hlead : slice? source.text.toList 4 10 = some line.lead :=
    slice?_eq_some_iff.mpr ⟨line.before, line.tail ++ line.after, line.text_eq, hbefore,
      (byteSize_append ..).symm.trans line.offset_eq⟩
  have hslice : slice? source.text.toList 4 10 = some "  y = ".toList := by decide +kernel
  have hunbroken : Unbroken line.lead := by
    rw [← Option.some.inj (hslice.symm.trans hlead)]
    decide +kernel
  refine ⟨hedge, hbound, hexcerpt.trans (congrArg _ ?_), line, hunbroken, hcolumn.symm,
    (hwhole.mpr hunbroken).symm.trans ?_⟩
  · decide +kernel
  · decide +kernel

/-- Behind a carriage return the excerpt shows a line that does not start where the line with its
number starts. -/
theorem excerpt_behind_return :
    let source := Source.new 0 .user "a.ts" "a\rb"
    let span : Span := ⟨0, 2, 3⟩
    source.place span.start = .ok ⟨1, 3⟩ ∧ source.lineStart? 1 = some 0 ∧
      excerptText source span none false = .ok "   :\n 1 │ b\n   │ ~\n   └─ in a.ts" ∧
      (ofOffsets source.text.toList span.start span.stop).line = "b".toList ∧
      ∀ line rest, source.text.toList = line ++ rest → trim line ≠ "b".toList := by
  intro source span
  have hplace : source.place span.start = .ok ⟨1, 3⟩ :=
    Source.place_eq_ok_iff.mpr (by decide +kernel)
  refine ⟨hplace, by decide +kernel, ?_, by decide +kernel, fun line rest htext => ?_⟩
  · rw [excerptText_eq hplace]
    apply congrArg
    decide +kernel
  · have hsource : source.text.toList = ['a', '\r', 'b'] := by decide +kernel
    have hline : line <+: ['a', '\r', 'b'] := ⟨rest, (hsource.symm.trans htext).symm⟩
    cases line with
    | nil => decide
    | cons ch line =>
      obtain ⟨rfl, -⟩ := List.cons_prefix_cons.mp hline
      rintro ⟨⟩

end Diagnostic

end TypedScript
