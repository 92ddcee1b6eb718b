import TypedScript.Diagnostic.Report
import TypedScript.Proofs.Source.Lines
import TypedScript.Proofs.Text.Offset

/-! # The layout of an excerpt

An excerpt has four rows, and the bars of the second and the third stand below each other. Behind
the bars are the line of an offset, without its indentation, and as far in as the offset a caret,
or a mark below the characters of a span up to the first line break. The two excerpts of a
message have room for the number of either line, so all their bars stand in one column.
-/

namespace TypedScript

namespace Text

variable {text : List Char} {offset : Nat} {ch : Char}

theorem isDigit_of_isLineBreak (h : isLineBreak ch = true) : ch.isDigit = false := by
  simp only [isLineBreak, Bool.or_eq_true, beq_iff_eq] at h
  rcases h with ((rfl | rfl) | rfl) | rfl <;> decide

def Unbroken (text : List Char) : Prop :=
  ∀ ch ∈ text, isLineBreak ch = false

instance (text : List Char) : Decidable (Unbroken text) :=
  List.decidableBAll _ text

theorem unbroken_append {text more : List Char} :
    Unbroken (text ++ more) ↔ Unbroken text ∧ Unbroken more :=
  List.forall_mem_append

theorem unbroken_cons : Unbroken (ch :: text) ↔ isLineBreak ch = false ∧ Unbroken text :=
  List.forall_mem_cons

/-- A text cut at an offset, at both ends of the line around it, and behind the indentation in
front of it. -/
structure LineCut (text : List Char) (offset : Nat) where
  before : List Char
  indent : List Char
  shown : List Char
  tail : List Char
  after : List Char
  text_eq : text = before ++ (indent ++ shown) ++ (tail ++ after)
  offset_eq : byteSize (before ++ (indent ++ shown)) = offset
  before_last : ∀ ch, before.getLast? = some ch → isLineBreak ch = true
  indent_space : ∀ ch ∈ indent, isSpace ch = true
  shown_head : ∀ ch, shown.head? = some ch → isSpace ch = false
  line_unbroken : Unbroken (indent ++ shown ++ tail)
  after_head : ∀ ch, after.head? = some ch → isLineBreak ch = true

end Text

namespace Diagnostic

open Text

variable {text before lead tail after marked : List Char} {start stop : Nat} {ch : Char}

namespace Excerpt

theorem lastLine_append (hbefore : ∀ ch, before.getLast? = some ch → isLineBreak ch = true)
    (hlead : Unbroken lead) : lastLine (before ++ lead) = lead := by
  have hrun : ∀ ch ∈ lead.reverse, (!isLineBreak ch) = true := fun ch hch => by
    rw [hlead ch (List.mem_reverse.mp hch), Bool.not_false]
  have hhead : ∀ ch, before.reverse.head? = some ch → (!isLineBreak ch) = false := fun ch hch => by
    rw [hbefore ch (List.head?_reverse.symm.trans hch), Bool.not_true]
  rw [lastLine, List.reverse_append, (span_run_append hrun hhead).1, List.reverse_reverse]

theorem firstLine_append (htail : Unbroken tail)
    (hafter : ∀ ch, after.head? = some ch → isLineBreak ch = true) :
    firstLine (tail ++ after) = tail := by
  have hrun : ∀ ch ∈ tail, (!isLineBreak ch) = true := fun ch hch => by
    rw [htail ch hch, Bool.not_false]
  have hhead : ∀ ch, after.head? = some ch → (!isLineBreak ch) = false := fun ch hch => by
    rw [hafter ch hch, Bool.not_true]
  exact (span_run_append hrun hhead).1

theorem exists_firstLine (text : List Char) : ∃ tail after, text = tail ++ after ∧
    Unbroken tail ∧ ∀ ch, after.head? = some ch → isLineBreak ch = true := by
  let inLine := fun ch => !isLineBreak ch
  refine ⟨text.takeWhile inLine, text.dropWhile inLine, List.takeWhile_append_dropWhile.symm,
    fun ch hch => ?_, fun ch hch => ?_⟩
  · exact (Bool.not_eq_true' _).mp (List.all_eq_true.mp List.all_takeWhile ch hch)
  · simpa [inLine, hch] using List.head?_dropWhile_not inLine text

theorem exists_lastLine (text : List Char) : ∃ before lead, text = before ++ lead ∧
    Unbroken lead ∧ ∀ ch, before.getLast? = some ch → isLineBreak ch = true := by
  obtain ⟨tail, after, htext, htail, hafter⟩ := exists_firstLine text.reverse
  refine ⟨after.reverse, tail.reverse, ?_, fun ch hch => htail ch (List.mem_reverse.mp hch), ?_⟩
  · rw [← List.reverse_append, ← htext, List.reverse_reverse]
  · intro ch hch
    rw [List.getLast?_reverse] at hch
    exact hafter ch hch

theorem nonempty_lineCut {offset : Nat} (h : OnEdge text offset) :
    Nonempty (LineCut text offset) := by
  obtain ⟨front, back, htext, hsize⟩ := h
  obtain ⟨before, lead, rfl, hlead, hbefore⟩ := exists_lastLine front
  obtain ⟨tail, after, rfl, htail, hafter⟩ := exists_firstLine back
  have hsplit : lead.takeWhile isSpace ++ lead.dropWhile isSpace = lead :=
    List.takeWhile_append_dropWhile
  refine ⟨⟨before, lead.takeWhile isSpace, lead.dropWhile isSpace, tail, after, ?_, ?_, hbefore,
    List.all_eq_true.mp List.all_takeWhile, fun ch hch => ?_, ?_, hafter⟩⟩
  · rw [hsplit, htext]
  · rw [hsplit, hsize]
  · simpa [hch] using List.head?_dropWhile_not isSpace lead
  · rw [hsplit]
    exact unbroken_append.mpr ⟨hlead, htail⟩

theorem trim_append (hindent : ∀ ch ∈ before, isSpace ch = true) :
    trim (before ++ lead) = trim lead :=
  List.dropWhile_append_of_pos hindent

theorem trim_of_head (h : ∀ ch, text.head? = some ch → isSpace ch = false) : trim text = text := by
  have hnone : ∀ ch ∈ [], isSpace ch = true := fun _ h => absurd h List.not_mem_nil
  exact (span_run_append hnone h).2

theorem ofOffsets_append (front back : List Char) (stop : Nat) :
    ofOffsets (front ++ back) (byteSize front) stop =
      ⟨trim (lastLine front ++ firstLine back), trim (lastLine front),
        (slice? (front ++ back) (byteSize front) stop).getD []⟩ := by
  have htake : takeBytes? (byteSize front) (front ++ back) = some front :=
    takeBytes?_eq_some_iff.mpr ⟨back, rfl, rfl⟩
  have hdrop : dropBytes? (byteSize front) (front ++ back) = some back :=
    dropBytes?_eq_some_iff.mpr ⟨front, rfl, rfl⟩
  have hmin : min (byteSize front) (byteSize (front ++ back)) = byteSize front := by
    rw [byteSize_append]
    omega
  simp only [ofOffsets, hmin, htake, hdrop]

theorem ofOffsets_eq (cut : LineCut text start) (hmarked : slice? text start stop = some marked) :
    ofOffsets text start stop = ⟨trim (cut.shown ++ cut.tail), cut.shown, marked⟩ := by
  obtain ⟨hlead, htail⟩ := unbroken_append.mp cut.line_unbroken
  have hexcerpt :=
    ofOffsets_append (cut.before ++ (cut.indent ++ cut.shown)) (cut.tail ++ cut.after) stop
  rw [← cut.text_eq, cut.offset_eq, hmarked, Option.getD_some, lastLine_append cut.before_last hlead,
    firstLine_append htail cut.after_head] at hexcerpt
  rw [hexcerpt, List.append_assoc, trim_append cut.indent_space, trim_append cut.indent_space,
    trim_of_head cut.shown_head]

def markWidth (marked : List Char) : Nat :=
  widthOf (marked.takeWhile fun ch => !isLineBreak ch) + if marked.any isLineBreak then 1 else 0

theorem underline_eq (marked : List Char) :
    underline marked = List.replicate (markWidth marked) '~' := by
  induction marked with
  | nil => rfl
  | cons ch marked ih =>
    rw [underline, markWidth]
    cases hbreak : isLineBreak ch with
    | true => simp [hbreak, widthOf]
    | false =>
      rw [ih, markWidth]
      simp [hbreak, widthOf, Nat.add_assoc]

theorem length_toString_le {m n : Nat} (h : m ≤ n) : (toString m).length ≤ (toString n).length := by
  have hpos : 0 < (Nat.toDigits 10 n).length := Nat.length_toDigits_pos
  have hlt := (Nat.length_toDigits_le_iff (by decide) hpos).mp (Nat.le_refl _)
  rw [← String.length_toList, ← String.length_toList, Nat.toString_eq_ofList_toDigits,
    Nat.toString_eq_ofList_toDigits, String.toList_ofList, String.toList_ofList,
    Nat.length_toDigits_le_iff (by decide) hpos]
  exact Nat.lt_of_le_of_lt h hlt

theorem gutter_max (m n : Nat) :
    gutter m (some (max m n)) = max (toString m).length (toString n).length ∧
      gutter n (some (max m n)) = max (toString m).length (toString n).length := by
  simp only [gutter, Option.map_some, Option.getD_some]
  -- The larger number has at least as many digits.
  rcases Nat.le_total m n with h | h
  · have hle := length_toString_le h
    rw [Nat.max_eq_right h]
    omega
  · have hle := length_toString_le h
    rw [Nat.max_eq_left h]
    omega

theorem isDigit_of_mem_toString {n : Nat} (h : ch ∈ (toString n).toList) : ch.isDigit = true := by
  rw [Nat.toString_eq_ofList_toDigits, String.toList_ofList] at h
  exact Nat.isDigit_of_mem_toDigits (by decide) (by decide) h

theorem unbroken_toString (n : Nat) : Unbroken (toString n).toList := by
  intro ch hch
  have hdigit := isDigit_of_mem_toString hch
  rw [Bool.eq_false_iff]
  intro hbreak
  rw [isDigit_of_isLineBreak hbreak] at hdigit
  cases hdigit

theorem unbroken_blanks (n : Nat) : Unbroken (blanks n) := by
  intro ch hch
  rw [List.eq_of_mem_replicate hch]
  rfl

theorem unbroken_expandTabs (h : Unbroken text) : Unbroken (expandTabs text) := by
  intro ch hch
  obtain ⟨other, hother, hch⟩ := List.mem_flatMap.mp hch
  split at hch
  · have hblank : ch = ' ' := by simpa using hch
    rw [hblank]
    rfl
  · rw [List.mem_singleton.mp hch]
    exact h other hother

theorem unbroken_marker (isPoint : Bool) (marked : List Char) :
    Unbroken (marker isPoint marked) := by
  intro ch hch
  have hmark : ch = '^' ∨ ch = '~' := by
    rw [marker, underline_eq] at hch
    split at hch
    · exact .inl (List.mem_singleton.mp hch)
    · exact .inr (List.eq_of_mem_replicate hch)
  rcases hmark with rfl | rfl <;> rfl

end Excerpt

open Excerpt

/-- An excerpt in its parts: the first row, what stands around the bars of the next two, and the
last row. -/
structure Picture where
  top : List Char
  front : List Char
  line : List Char
  margin : List Char
  shift : Nat
  mark : List Char
  bottom : List Char

namespace Picture

def rows (d : Picture) (colors : Bool) : List String :=
  [String.ofList d.top,
   String.ofList (d.front ++ '│' :: ' ' :: d.line),
   String.ofList (d.margin ++ '│' :: ' ' :: blanks d.shift) ++
     paint colors .error (String.ofList d.mark),
   String.ofList d.bottom]

def render (d : Picture) (colors : Bool) : String :=
  "\n".intercalate (d.rows colors)

def renderAt (d : Picture) (colors : Bool) (p : Place) : String :=
  s!"\n{d.render colors}({p.line},{p.column})"

/-- The bars are the first ones in their rows and have as much in front of them, in the one row
the line number. -/
structure IsFramed (d : Picture) (number width : Nat) : Prop where
  front : ∃ n, d.front = ' ' :: (blanks n ++ (toString number).toList ++ [' '])
  margin : d.margin = blanks (width + 2)
  bars : d.front.length = d.margin.length
  front_noBar : '│' ∉ d.front

/-- Behind the bars are the line of a cut without its indentation, and the mark below it. -/
structure Shows (d : Picture) (cut : LineCut text start) (marked : List Char) : Prop where
  line : d.line = expandTabs (trim (cut.shown ++ cut.tail))
  shift : d.shift = widthOf cut.shown
  mark : d.mark = if marked = [] ∨ marked.head?.any isLineBreak = true then ['^']
    else List.replicate (markWidth marked) '~'

theorem filter_render {d : Picture} {colors : Bool}
    (h : ∀ row ∈ d.rows colors, Unbroken row.toList) :
    (d.render colors).toList.filter isLineBreak = ['\n', '\n', '\n'] := by
  have hnone : ∀ row ∈ d.rows colors, row.toList.filter isLineBreak = [] := by
    intro row hrow
    rw [List.filter_eq_nil_iff]
    intro ch hch
    simp [h row hrow ch hch]
  simp only [rows, List.forall_mem_cons] at hnone
  obtain ⟨htop, hline, hmark, hbottom, -⟩ := hnone
  simp only [render, rows, String.intercalate_cons_cons, String.intercalate_singleton,
    String.toList_append, List.filter_append] at hmark ⊢
  rw [htop, hline, hmark, hbottom]
  rfl

end Picture

def picture (source : Source) (span : Span) (number width : Nat) : Picture :=
  let e := Excerpt.ofOffsets source.text.toList span.start span.stop
  let digits := (toString number).toList
  { top := blanks width ++ "  :".toList
    front := ' ' :: (blanks (width - digits.length) ++ digits ++ [' '])
    line := expandTabs e.line
    margin := blanks (width + 2)
    shift := widthOf e.indent
    mark := marker span.isEmpty e.marked
    bottom := blanks (width + 2) ++ "└─ in ".toList ++ source.path.toList }

variable {source : Source} {span : Span} {number width : Nat} {colors : Bool}

theorem blanks_add_two (n : Nat) : blanks (n + 2) = ' ' :: (blanks n ++ [' ']) := by
  rw [blanks, List.replicate_succ, List.replicate_succ']
  rfl

theorem rows_eq : (Excerpt.ofOffsets source.text.toList span.start span.stop).rows span.isEmpty
    number width colors source.path = (picture source span number width).rows colors := by
  simp only [Excerpt.rows, Picture.rows, picture, List.cons.injEq, and_true, blanks_add_two,
    ← String.toList_inj, String.toList_append, String.toList_ofList, String.length_toList]
  refine ⟨trivial, ?_, ?_, ?_⟩ <;> simp

theorem isFramed_picture (h : (toString number).length ≤ width) :
    (picture source span number width).IsFramed number width where
  front := ⟨_, rfl⟩
  margin := rfl
  bars := by
    simp only [picture, blanks, List.length_cons, List.length_append, List.length_replicate,
      String.length_toList, List.length_nil]
    omega
  front_noBar := by
    have hblank : ∀ n, '│' ∉ blanks n := fun n hmem =>
      absurd (List.eq_of_mem_replicate hmem) (by decide)
    have hdigit : '│' ∉ (toString number).toList := fun hmem =>
      absurd (isDigit_of_mem_toString hmem) (by decide)
    simp only [picture, List.mem_cons, List.mem_append, List.not_mem_nil, hblank, hdigit, or_false,
      false_or]
    decide

theorem unbroken_paint {severity : Severity} {text : String} (h : Unbroken text.toList) :
    Unbroken (paint colors severity text).toList := by
  rw [paint]
  split
  · rw [String.toList_append, String.toList_append, unbroken_append, unbroken_append]
    refine ⟨⟨?_, h⟩, by decide +kernel⟩
    cases severity <;> decide +kernel
  · exact h

theorem unbroken_rows
    (hline : Unbroken (Excerpt.ofOffsets source.text.toList span.start span.stop).line)
    (hpath : Unbroken source.path.toList) :
    ∀ row ∈ (picture source span number width).rows colors, Unbroken row.toList := by
  have hblank : isLineBreak ' ' = false := rfl
  have hbar : isLineBreak '│' = false := rfl
  have hnil : Unbroken [] := fun _ h => absurd h List.not_mem_nil
  have htop : Unbroken "  :".toList := by decide +kernel
  have hcorner : Unbroken "└─ in ".toList := by decide +kernel
  have hmark : ∀ isPoint marked,
      Unbroken (paint colors .error (String.ofList (marker isPoint marked))).toList := by
    intro isPoint marked
    apply unbroken_paint
    rw [String.toList_ofList]
    exact unbroken_marker isPoint marked
  simp only [Picture.rows, picture, List.forall_mem_cons, String.toList_append,
    String.toList_ofList, unbroken_append, unbroken_cons, unbroken_blanks, unbroken_toString,
    unbroken_expandTabs hline, hblank, hbar, hnil, htop, hcorner, hmark, hpath, List.not_mem_nil,
    false_implies, implies_true, and_self]

/-- The excerpt of the span can be shown in four rows: both ends of the span are in the text. -/
structure Drawable (source : Source) (span : Span) : Prop where
  path : Unbroken source.path.toList
  size : source.length < Source.offsetBound
  start_le : span.start ≤ span.stop
  start_edge : OnEdge source.text.toList span.start
  stop_edge : OnEdge source.text.toList span.stop

theorem isEmpty_iff (h : slice? text span.start span.stop = some marked) :
    span.isEmpty = true ↔ marked = [] := by
  obtain ⟨before, after, -, hstart, hstop⟩ := slice?_eq_some_iff.mp h
  rw [Span.isEmpty, beq_iff_eq]
  constructor
  · intro hsame
    refine Decidable.byContradiction fun hne => ?_
    have := byteSize_pos_of_ne_nil hne
    omega
  · rintro rfl
    rw [byteSize_nil] at hstop
    omega

theorem exists_rest (cut : LineCut text start) (h : slice? text start stop = some marked) :
    ∃ rest, cut.tail ++ cut.after = marked ++ rest ∧ byteSize marked = stop - start := by
  have hdrop : dropBytes? start text = some (cut.tail ++ cut.after) :=
    dropBytes?_eq_some_iff.mpr ⟨_, cut.text_eq, cut.offset_eq⟩
  rw [slice?, hdrop] at h
  split at h
  · exact takeBytes?_eq_some_iff.mp h
  · cases h

theorem shows_picture (cut : LineCut source.text.toList span.start)
    (hmarked : slice? source.text.toList span.start span.stop = some marked) :
    (picture source span number width).Shows cut marked := by
  have hexcerpt := ofOffsets_eq cut hmarked
  have hempty := isEmpty_iff hmarked
  constructor
  · simp only [picture, hexcerpt]
  · simp only [picture, hexcerpt]
  · simp only [picture, hexcerpt, marker, underline_eq, Bool.or_eq_true, hempty]

theorem unbroken_line (cut : LineCut source.text.toList span.start)
    (hmarked : slice? source.text.toList span.start span.stop = some marked) :
    Unbroken (Excerpt.ofOffsets source.text.toList span.start span.stop).line := by
  rw [ofOffsets_eq cut hmarked]
  intro ch hch
  have hline := cut.line_unbroken
  rw [List.append_assoc, unbroken_append] at hline
  exact hline.2 ch ((List.dropWhile_sublist isSpace).subset hch)

theorem excerptText_eq {p : Place} (hp : source.place span.start = .ok p) (widest : Option Nat) :
    excerptText source span widest colors =
      .ok ((picture source span p.line (gutter p.line widest)).render colors) := by
  rw [excerptText, hp, Picture.render, ← rows_eq]
  rfl

theorem locationText_eq {p : Place} (hp : source.place span.start = .ok p) (widest : Option Nat) :
    locationText ⟨colors, true⟩ widest source span =
      .ok ((picture source span p.line (gutter p.line widest)).renderAt colors p) := by
  rw [locationText, if_pos rfl, excerptText_eq hp, hp]
  rfl

theorem report_eq {m : Message} {registry : Registry} {related : Span} {relatedSource : Source}
    {p q : Place} (hspan : m.span.bind registry.resolve = some (span, source))
    (hrelated : m.related.bind registry.resolve = some (related, relatedSource))
    (hp : source.place span.start = .ok p) (hq : relatedSource.place related.start = .ok q) :
    let width := max (toString p.line).length (toString q.line).length
    let d := picture source span p.line width
    let e := picture relatedSource related q.line width
    m.report registry ⟨colors, true⟩ =
      .ok (m.headline colors ++ d.renderAt colors p ++ e.renderAt colors q) := by
  intro width d e
  obtain ⟨hwidth, hwidth'⟩ := gutter_max p.line q.line
  have hfirst : locationText ⟨colors, true⟩ (some (max p.line q.line)) source span = _ :=
    locationText_eq hp _
  have hsecond : locationText ⟨colors, true⟩ (some (max p.line q.line)) relatedSource related = _ :=
    locationText_eq hq _
  rw [hwidth] at hfirst
  rw [hwidth'] at hsecond
  simp only [Message.report, hspan, hrelated, hp, hq, bind, Except.bind, hfirst, hsecond]
  rfl

/-- The excerpt of a span that lies in its source has four rows, with a bar in the same column of
the second and the third. Behind the bars are the line in which the span starts, without its
indentation, and below it blanks for what it shows in front of the span, and the mark: a caret for
an empty span or one that starts with a line break, and otherwise the columns of the span up to
its first line break and one for that. In the report of a message with two spans whose starts have
a place, both excerpts have the width of the longer of the two line numbers. -/
theorem layout_of_excerpts :
    (∀ source span, Drawable source span → ∀ widest colors,
      ∃ p, ∃ cut : LineCut source.text.toList span.start, ∃ marked rest,
        let width := gutter p.line widest
        let d := picture source span p.line width
        source.place span.start = .ok p ∧
        excerptText source span widest colors = .ok (d.render colors) ∧
        (d.render colors).toList.filter isLineBreak = ['\n', '\n', '\n'] ∧
        d.IsFramed p.line width ∧ cut.tail ++ cut.after = marked ++ rest ∧
        byteSize marked = span.stop - span.start ∧ d.Shows cut marked) ∧
    ∀ (m : Message) (registry : Registry) colors span source related relatedSource,
      m.span.bind registry.resolve = some (span, source) →
      m.related.bind registry.resolve = some (related, relatedSource) →
      span.start < Source.offsetBound → related.start < Source.offsetBound →
      ∃ p q,
        let widest := some (max p.line q.line)
        let width := max (toString p.line).length (toString q.line).length
        let d := picture source span p.line width
        let e := picture relatedSource related q.line width
        source.place span.start = .ok p ∧ relatedSource.place related.start = .ok q ∧
        m.report registry ⟨colors, true⟩ =
          .ok (m.headline colors ++ d.renderAt colors p ++ e.renderAt colors q) ∧
        excerptText source span widest colors = .ok (d.render colors) ∧
        excerptText relatedSource related widest colors = .ok (e.render colors) ∧
        d.IsFramed p.line width ∧ e.IsFramed q.line width := by
  constructor
  · -- A span in its source has a cut at its start, and a slice.
    intro source span h widest colors
    obtain ⟨cut⟩ := nonempty_lineCut h.start_edge
    obtain ⟨marked, hmarked⟩ := h.start_edge.exists_slice? h.stop_edge h.start_le
    obtain ⟨p, hp⟩ := Source.exists_place (Nat.lt_of_le_of_lt h.start_edge.le_byteSize h.size)
    obtain ⟨rest, hrest, hsize⟩ := exists_rest cut hmarked
    refine ⟨p, cut, marked, rest, hp, excerptText_eq hp widest, ?_, ?_, hrest, hsize,
      shows_picture cut hmarked⟩
    · exact Picture.filter_render (unbroken_rows (unbroken_line cut hmarked) h.path)
    · exact isFramed_picture (Nat.le_max_left _ _)
  · intro m registry colors span source related relatedSource hspan hrelated hstart hstart'
    obtain ⟨p, hp⟩ := Source.exists_place hstart
    obtain ⟨q, hq⟩ := Source.exists_place hstart'
    obtain ⟨hwidth, hwidth'⟩ := gutter_max p.line q.line
    refine ⟨p, q, hp, hq, report_eq hspan hrelated hp hq, ?_, ?_, ?_, ?_⟩
    · rw [excerptText_eq hp, hwidth]
    · rw [excerptText_eq hq, hwidth']
    · exact isFramed_picture (Nat.le_max_left _ _)
    · exact isFramed_picture (Nat.le_max_right _ _)

theorem layout_of_excerpts_related :
    let text := "x\n\n\n\n\n\n\n\n\n\té\t= y;\u2028z"
    let registry := (Registry.empty.add .user "a.ts" text).2
    let source := Source.new 0 .user "a.ts" text
    let span : Span := ⟨0, 0, 3⟩
    let related : Span := ⟨0, 11, 14⟩
    let m : Message := ⟨.expected, .error, "';' expected.", some span, some related⟩
    let excerpt := "    :\n  1 │ x\n    │ ~~\n    └─ in a.ts"
    let relatedExcerpt := "    :\n 10 │ é  = y;\n    │ ~~~\n    └─ in a.ts"
    Drawable source related ∧ excerptText source related (some 1) false = .ok relatedExcerpt ∧
      relatedExcerpt.toList.filter isLineBreak = ['\n', '\n', '\n'] ∧
      m.report registry ⟨false, true⟩ = .ok ("ERROR TS1005: ';' expected." ++
        ("\n" ++ excerpt ++ "(1,1)") ++ ("\n" ++ relatedExcerpt ++ "(10,2)")) := by
  intro text registry source span related m excerpt relatedExcerpt
  have hdrawable : Drawable source related := by
    constructor <;> decide +kernel
  have hspan : m.span.bind registry.resolve = some (span, source) := rfl
  have hrelated : m.related.bind registry.resolve = some (related, source) := rfl
  have hfirst : source.place 0 = .ok ⟨1, 1⟩ :=
    Source.place_eq_ok_iff.mpr (by decide +kernel)
  have htenth : source.place 11 = .ok ⟨10, 2⟩ :=
    Source.place_eq_ok_iff.mpr (by decide +kernel)
  have hpicture : (picture source related 10 2).render false = relatedExcerpt := by decide +kernel
  obtain ⟨hexcerpt, hreport⟩ := layout_of_excerpts
  obtain ⟨p, cut, marked, rest, hp, hout, hbreaks, -⟩ :=
    hexcerpt source related hdrawable (some 1) false
  obtain rfl := Except.ok.inj (htenth.symm.trans hp)
  obtain ⟨p, q, hp, hq, hall, -⟩ := hreport m registry false span source related source hspan
    hrelated (by decide) (by decide)
  obtain rfl := Except.ok.inj (hfirst.symm.trans hp)
  obtain rfl := Except.ok.inj (htenth.symm.trans hq)
  refine ⟨hdrawable, hout.trans (congrArg _ hpicture), ?_, hall.trans ?_⟩
  · rw [← hpicture]
    exact hbreaks
  · apply congrArg
    decide +kernel

end Diagnostic

end TypedScript
