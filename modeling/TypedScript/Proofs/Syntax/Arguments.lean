import Mathlib.Data.List.Basic
import TypedScript.Syntax.Expr

/-! # The span over arguments

The span over a list of arguments joins the first and the last. If all are in one source and no
start and no end lies behind a later one, that is the smallest span that covers every one of them.
The only mistake is a first and a last argument in different sources.
-/

namespace TypedScript

namespace Span

structure Covers (s x : Span) : Prop where
  source_eq : s.source = x.source
  start_le : s.start ≤ x.start
  le_stop : x.stop ≤ s.stop

structure IsHull (items : List Span) (s : Span) : Prop where
  covers : ∀ x ∈ items, s.Covers x
  least : ∀ other : Span, (∀ x ∈ items, other.Covers x) → other.Covers s

structure InOrder (items : List Span) : Prop where
  source_eq : ∀ x ∈ items, ∀ y ∈ items, x.source = y.source
  ordered : items.Pairwise fun x y => x.start ≤ y.start ∧ x.stop ≤ y.stop

variable {a b : Span} {items : List Span} {e : SpanError}

instance (items : List Span) : Decidable (InOrder items) :=
  decidable_of_iff ((∀ x ∈ items, ∀ y ∈ items, x.source = y.source) ∧
      items.Pairwise fun x y => x.start ≤ y.start ∧ x.stop ≤ y.stop)
    ⟨fun ⟨hsource, hordered⟩ => ⟨hsource, hordered⟩, fun h => ⟨h.source_eq, h.ordered⟩⟩

theorem join_self (s : Span) : s.join s = .ok s := by
  rw [join, if_pos rfl, Nat.min_self, Nat.max_self]

theorem join_eq_error_iff :
    a.join b = .error e ↔ a.source ≠ b.source ∧ e = .sourceMismatch a.source b.source := by
  unfold join
  split
  · rename_i hsource
    simp [hsource]
  · rename_i hsource
    simp [hsource, eq_comm]

namespace InOrder

theorem start_le (h : InOrder items) (ha : items.head? = some a) :
    ∀ x ∈ items, a.start ≤ x.start := by
  obtain ⟨more, rfl⟩ := List.head?_eq_some_iff.mp ha
  obtain ⟨hmore, -⟩ := List.pairwise_cons.mp h.ordered
  exact List.forall_mem_cons.mpr ⟨Nat.le_refl _, fun x hx => (hmore x hx).1⟩

theorem stop_le (h : InOrder items) (hb : items.getLast? = some b) :
    ∀ x ∈ items, x.stop ≤ b.stop := by
  obtain ⟨front, rfl⟩ := List.getLast?_eq_some_iff.mp hb
  obtain ⟨-, -, hfront⟩ := List.pairwise_append.mp h.ordered
  intro x hx
  rcases List.mem_append.mp hx with hx | hx
  · exact (hfront x hx b List.mem_cons_self).2
  · obtain rfl := List.mem_singleton.mp hx
    exact Nat.le_refl _

/-- Where nothing goes back, the first start and the last end are those of the smallest span. -/
theorem isHull (h : InOrder items) (ha : items.head? = some a) (hb : items.getLast? = some b) :
    IsHull items ⟨a.source, a.start, b.stop⟩ where
  covers x hx := ⟨h.source_eq a (List.mem_of_head? ha) x hx, h.start_le ha x hx, h.stop_le hb x hx⟩
  least _ hother :=
    have hfirst := hother a (List.mem_of_head? ha)
    have hlast := hother b (List.mem_of_getLast? hb)
    ⟨hfirst.source_eq, hfirst.start_le, hlast.le_stop⟩

theorem join_eq (h : InOrder items) (ha : items.head? = some a) (hb : items.getLast? = some b) :
    a.join b = .ok ⟨a.source, a.start, b.stop⟩ := by
  have hfirst := List.mem_of_head? ha
  have hlast := List.mem_of_getLast? hb
  rw [join, if_pos (h.source_eq a hfirst b hlast), Nat.min_eq_left (h.start_le ha b hlast),
    Nat.max_eq_right (h.stop_le hb a hfirst)]

end InOrder

end Span

namespace Syntax

open TypedScript.Span

variable {first last target : Span} {items : List Span} {e : Expr} {types : Option (List TypeNode)}
  {arguments : List Expr}

theorem argumentsSpan_eq_join (target : Span) (hfirst : items.head? = some first)
    (hlast : items.getLast? = some last) : argumentsSpan target items = first.join last := by
  obtain ⟨more, rfl⟩ := List.head?_eq_some_iff.mp hfirst
  cases more with
  | nil =>
    obtain rfl := Option.some.inj hlast
    exact (join_self first).symm
  | cons next more =>
    rw [List.getLast?_cons_cons] at hlast
    rw [argumentsSpan, List.getLastD_eq_getLast?, hlast, Option.getD_some]

/-- What the span over a list is: for an empty list `target`, and else the smallest one, unless
the ends of the list are in different sources. -/
structure SpansOver (target : Span) (items : List Span)
    (answer : Except SpanError Span) : Prop where
  error_iff : ∀ e, answer = .error e ↔ ∃ first last, items.head? = some first ∧
    items.getLast? = some last ∧ first.source ≠ last.source ∧
    e = .sourceMismatch first.source last.source
  hull : items ≠ [] → InOrder items → ∃ s, answer = .ok s ∧ IsHull items s
  target_of_nil : items = [] → answer = .ok target

theorem spansOver_argumentsSpan (target : Span) (items : List Span) :
    SpansOver target items (argumentsSpan target items) := by
  rcases items.eq_nil_or_concat' with rfl | ⟨front, last, hfront⟩
  · exact ⟨fun e => by simp [argumentsSpan], fun hne => absurd rfl hne, fun _ => rfl⟩
  · have hlast : items.getLast? = some last := by rw [hfront, List.getLast?_concat]
    have hne : items ≠ [] := by simp [hfront]
    obtain ⟨first, more, hitems⟩ := List.exists_cons_of_ne_nil hne
    have hfirst : items.head? = some first := by rw [hitems, List.head?_cons]
    have hjoin := argumentsSpan_eq_join target hfirst hlast
    refine ⟨fun e => ?_, fun _ hordered => ?_, fun hnil => absurd hnil hne⟩
    · rw [hjoin, join_eq_error_iff]
      simp [hfirst, hlast]
    · exact ⟨_, hjoin.trans (hordered.join_eq hfirst hlast), hordered.isHull hfirst hlast⟩

inductive Expr.Applies : Expr → Span → Option (List TypeNode) → List Expr → Prop where
  | call (callee : Expr) (types : Option (List TypeNode)) (arguments : List Expr) (span : Span) :
      Applies (.call callee types arguments span) callee.span types arguments
  | new (type : TypeName) (types : Option (List TypeNode)) (arguments : List Expr) (span : Span) :
      Applies (.new type types arguments span) type.span types arguments

/-- Calls and creations have a span over their arguments and one over their type arguments: what
is called or created if there are none, and else the smallest span that covers all of them if
they are in order in one source. The spans are refused exactly if the first and the last are in
different sources, and these are named then. -/
theorem spansOver_of_applies (h : e.Applies target types arguments) :
    (∃ answer, e.argumentsSpan? = some answer ∧
      SpansOver target (arguments.map Expr.span) answer) ∧
    ∃ answer, e.typeArgumentsSpan? = some answer ∧
      SpansOver target ((types.getD []).map TypeNode.span) answer := by
  cases h with
  | call => exact ⟨⟨_, rfl, spansOver_argumentsSpan _ _⟩, _, rfl, spansOver_argumentsSpan _ _⟩
  | new => exact ⟨⟨_, rfl, spansOver_argumentsSpan _ _⟩, _, rfl, spansOver_argumentsSpan _ _⟩

theorem spansOver_of_applies_three :
    let span := Span.mk 0
    let f : Expr := .identifier ⟨"f", false, span 0 1⟩
    let arguments : List Expr :=
      [.word .this (span 2 6), .omitted (span 8 8), .word .super (span 9 14)]
    let e : Expr := .call f (some []) arguments (span 0 15)
    e.Applies (span 0 1) (some []) arguments ∧ InOrder (arguments.map Expr.span) ∧
      e.argumentsSpan? = some (.ok (span 2 14)) ∧
      IsHull (arguments.map Expr.span) (span 2 14) ∧
      e.typeArgumentsSpan? = some (.ok (span 0 1)) := by
  intro span f arguments e
  have happlies : e.Applies (span 0 1) (some []) arguments :=
    .call f (some []) arguments (span 0 15)
  have horder : InOrder (arguments.map Expr.span) := by decide
  obtain ⟨⟨answer, hanswer, hspans⟩, types, htypes, hnone⟩ := spansOver_of_applies happlies
  obtain ⟨s, rfl, hhull⟩ := hspans.hull (by simp [arguments]) horder
  obtain rfl : span 2 14 = s := Except.ok.inj (Option.some.inj hanswer)
  rw [hnone.target_of_nil rfl] at htypes
  exact ⟨happlies, horder, hanswer, hhull, htypes⟩

end Syntax

end TypedScript
