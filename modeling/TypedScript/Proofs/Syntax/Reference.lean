import TypedScript.Syntax.Type

/-! # Names that types refer to

A type refers to the names that stand for a part of it by themselves: its own name if it has no
arguments, what its arguments refer to if it has some, and for a function type what its parts refer
to. A qualified name refers to nothing. A type depends on type parameters exactly if it refers to
the name of one, so of the parameters nothing but their names counts.
-/

namespace TypedScript.Syntax

inductive TypeNode.RefersTo : TypeNode → String → Prop where
  | name {t : NamedType} (hname : t.name.isQualified = false) (hplain : t.hasArguments = false) :
      RefersTo (.named t) t.name.text
  | argument {t : NamedType} {arguments : List TypeNode} {a : TypeNode} {name : String}
      (hname : t.name.isQualified = false) (harguments : t.arguments = some arguments)
      (ha : a ∈ arguments) (h : RefersTo a name) : RefersTo (.named t) name
  | parameter {f : FunctionType} {p : Parameter} {name : String} (hp : p ∈ f.parameters)
      (h : RefersTo p.type name) : RefersTo (.function f) name
  | result {f : FunctionType} {name : String} (h : RefersTo f.result name) :
      RefersTo (.function f) name
  | this {f : FunctionType} {t : NamedType} {name : String} (ht : f.this = some t)
      (h : RefersTo (.named t) name) : RefersTo (.function f) name

variable {t : NamedType} {f : FunctionType} {arguments : List TypeNode} {name : String}
  {names : List String}

namespace TypeNode

theorem not_refersTo_of_isQualified (h : t.name.isQualified = true) :
    ¬ (TypeNode.named t).RefersTo name := by
  intro href
  cases href with
  | name hname => exact absurd (h.symm.trans hname) (by decide)
  | argument hname => exact absurd (h.symm.trans hname) (by decide)

theorem refersTo_named_iff_of_arguments (hname : t.name.isQualified = false)
    (h : t.arguments = some arguments) (hne : arguments ≠ []) :
    (TypeNode.named t).RefersTo name ↔ ∃ a ∈ arguments, a.RefersTo name := by
  constructor
  · intro href
    cases href with
    | name _ hplain => simp [NamedType.hasArguments, h, hne] at hplain
    | argument _ harguments ha href =>
      obtain rfl := Option.some.inj (harguments.symm.trans h)
      exact ⟨_, ha, href⟩
  · rintro ⟨a, ha, href⟩
    exact .argument hname h ha href

theorem refersTo_named_iff_of_plain (hname : t.name.isQualified = false)
    (hplain : t.hasArguments = false) :
    (TypeNode.named t).RefersTo name ↔ name = t.name.text := by
  constructor
  · intro href
    cases href with
    | name => rfl
    | argument _ harguments ha _ =>
      rw [NamedType.hasArguments, harguments, Option.any_some, Bool.not_eq_false'] at hplain
      rw [List.isEmpty_iff.mp hplain] at ha
      cases ha
  · rintro rfl
    exact .name hname hplain

theorem refersTo_function_iff : (TypeNode.function f).RefersTo name ↔
    (∃ p ∈ f.parameters, p.type.RefersTo name) ∨ f.result.RefersTo name ∨
      ∃ t, f.this = some t ∧ (TypeNode.named t).RefersTo name := by
  constructor
  · intro href
    cases href with
    | parameter hp href => exact .inl ⟨_, hp, href⟩
    | result href => exact .inr (.inl href)
    | this ht href => exact .inr (.inr ⟨_, ht, href⟩)
  · rintro (⟨p, hp, href⟩ | href | ⟨t, ht, href⟩)
    · exact .parameter hp href
    · exact .result href
    · exact .this ht href

end TypeNode

namespace NamedType

theorem mentions_eq (t : NamedType) (names : List String) :
    t.mentions names = (!t.name.isQualified &&
      if t.hasArguments then typesMention names (t.arguments.getD [])
      else names.contains t.name.text) := by
  obtain ⟨name, arguments, isNullable, span⟩ := t
  rw [NamedType.mentions.eq_def]
  dsimp only
  rcases arguments with _ | _ | ⟨a, more⟩ <;> cases name.isQualified <;> rfl

/-- A named type is searched rightly if its arguments are. -/
theorem mentions_iff_of_arguments
    (h : ∀ arguments, t.arguments = some arguments → (typesMention names arguments = true ↔
      ∃ name ∈ names, ∃ a ∈ arguments, a.RefersTo name)) :
    t.mentions names = true ↔ ∃ name ∈ names, (TypeNode.named t).RefersTo name := by
  cases hname : t.name.isQualified with
  | true => simp [mentions_eq, hname, TypeNode.not_refersTo_of_isQualified hname]
  | false =>
    cases hplain : t.hasArguments with
    | false => simp [mentions_eq, hname, hplain, TypeNode.refersTo_named_iff_of_plain hname hplain]
    | true =>
      obtain ⟨arguments, harguments, hany⟩ := (Option.any_eq_true _ _).mp hplain
      have hne : arguments ≠ [] := by simpa using hany
      simp only [TypeNode.refersTo_named_iff_of_arguments hname harguments hne]
      rw [← h arguments harguments, mentions_eq, hname, hplain, harguments]
      rfl

end NamedType

mutual

theorem NamedType.mentions_iff (names : List String) :
    ∀ t : NamedType, t.mentions names = true ↔ ∃ name ∈ names, (TypeNode.named t).RefersTo name
  | ⟨name, none, isNullable, span⟩ => by
    apply NamedType.mentions_iff_of_arguments
    intro arguments h
    cases h
  | ⟨name, some arguments, isNullable, span⟩ => by
    apply NamedType.mentions_iff_of_arguments
    intro others h
    obtain rfl := Option.some.inj h
    exact typesMention_iff names arguments

theorem FunctionType.mentions_iff (names : List String) :
    ∀ f : FunctionType, f.mentions names = true ↔
      ∃ name ∈ names, (TypeNode.function f).RefersTo name
  | ⟨parameters, result, none, isNullable, span⟩ => by
    simp only [FunctionType.mentions, Bool.or_eq_true, parametersMention_iff names parameters,
      result.mentions_iff names, TypeNode.refersTo_function_iff, and_or_left, exists_or]
    simp
  | ⟨parameters, result, some t, isNullable, span⟩ => by
    simp only [FunctionType.mentions, Bool.or_eq_true, parametersMention_iff names parameters,
      result.mentions_iff names, t.mentions_iff names, TypeNode.refersTo_function_iff,
      and_or_left, exists_or, or_assoc]
    simp

theorem TypeNode.mentions_iff (names : List String) :
    ∀ t : TypeNode, t.mentions names = true ↔ ∃ name ∈ names, t.RefersTo name
  | .named t => by
    rw [TypeNode.mentions]
    exact t.mentions_iff names
  | .function f => by
    rw [TypeNode.mentions]
    exact f.mentions_iff names

theorem Parameter.mentions_iff (names : List String) :
    ∀ p : Parameter, p.mentions names = true ↔ ∃ name ∈ names, p.type.RefersTo name
  | ⟨_, _, type, _, _, _, _⟩ => by
    rw [Parameter.mentions]
    exact type.mentions_iff names

theorem typesMention_iff (names : List String) :
    ∀ ts : List TypeNode, typesMention names ts = true ↔
      ∃ name ∈ names, ∃ t ∈ ts, t.RefersTo name
  | [] => by simp [typesMention]
  | t :: ts => by
    rw [typesMention, Bool.or_eq_true, t.mentions_iff names, typesMention_iff names ts]
    simp only [List.mem_cons, exists_eq_or_imp, and_or_left, exists_or]

theorem parametersMention_iff (names : List String) :
    ∀ ps : List Parameter, parametersMention names ps = true ↔
      ∃ name ∈ names, ∃ p ∈ ps, p.type.RefersTo name
  | [] => by simp [parametersMention]
  | p :: ps => by
    rw [parametersMention, Bool.or_eq_true, p.mentions_iff names, parametersMention_iff names ps]
    simp only [List.mem_cons, exists_eq_or_imp, and_or_left, exists_or]

end

namespace TypeNode

theorem isGeneric_iff (t : TypeNode) (parameters : List TypeParameter) :
    t.isGeneric parameters = true ↔ ∃ p ∈ parameters, t.RefersTo p.name.text := by
  rw [isGeneric, t.mentions_iff]
  constructor
  · rintro ⟨name, hname, href⟩
    obtain ⟨p, hp, rfl⟩ := List.mem_map.mp hname
    exact ⟨p, hp, href⟩
  · rintro ⟨p, hp, href⟩
    exact ⟨p.name.text, List.mem_map_of_mem hp, href⟩

/-- A type depends on type parameters exactly if it refers to the name of one of them. So it
depends on none of an empty list, on some of two lists together if it does on some of either, and
equally on lists with the same names. -/
theorem isGeneric_iff_refersTo (t : TypeNode) (parameters : List TypeParameter) :
    (t.isGeneric parameters = true ↔ ∃ p ∈ parameters, t.RefersTo p.name.text) ∧
    t.isGeneric [] = false ∧
    (∀ more, t.isGeneric (parameters ++ more) = (t.isGeneric parameters || t.isGeneric more)) ∧
    ∀ others : List TypeParameter,
      (∀ name, (∃ p ∈ parameters, p.name.text = name) ↔ ∃ p ∈ others, p.name.text = name) →
      t.isGeneric parameters = t.isGeneric others := by
  refine ⟨t.isGeneric_iff parameters, ?_, fun more => ?_, fun others hnames => ?_⟩
  · rw [Bool.eq_false_iff, ne_eq, isGeneric_iff]
    simp
  · rw [Bool.eq_iff_iff, Bool.or_eq_true, isGeneric_iff, isGeneric_iff, isGeneric_iff]
    simp only [List.mem_append, or_and_right, exists_or]
  · rw [Bool.eq_iff_iff, isGeneric_iff, isGeneric_iff]
    constructor
    · rintro ⟨p, hp, href⟩
      obtain ⟨q, hq, hname⟩ := (hnames p.name.text).mp ⟨p, hp, rfl⟩
      exact ⟨q, hq, hname ▸ href⟩
    · rintro ⟨q, hq, href⟩
      obtain ⟨p, hp, hname⟩ := (hnames q.name.text).mpr ⟨q, hq, rfl⟩
      exact ⟨p, hp, hname ▸ href⟩

end TypeNode

end TypedScript.Syntax
