import Mathlib.Data.List.Induction
import TypedScript.Proofs.Path.Relative

/-! # Walks

A walk takes the segments of a path one after another: a step up takes the last name away, or
leads above the start where there is none, and every segment that is no step is a name, an empty
one too. Normal form keeps what a walk ends with, the steps up in front of the names. How deep a
walk is below its start can be told without the names, as long as it stays there.
-/

namespace TypedScript.Path

/-- Where a walk has led: as many directories above its start as it has gone up, and from there
down the names, of which the last one comes first. -/
@[ext]
structure Location where
  ups : Nat
  names : List (List Char)
deriving DecidableEq, Repr

/-- How deep below a place segments lead that are taken `n` names below it, if no step up among
them leads above that place. -/
def depth? : Nat → List (List Char) → Option Nat
  | n, [] => some n
  | n, part :: more =>
    if part = here then depth? n more
    else if part = up then
      match n with
      | 0 => none
      | n + 1 => depth? n more
    else depth? (n + 1) more

namespace Location

def start : Location :=
  ⟨0, []⟩

def stepUp : Location → Location
  | ⟨ups, []⟩ => ⟨ups + 1, []⟩
  | ⟨ups, _ :: names⟩ => ⟨ups, names⟩

def walk (l : Location) (part : List Char) : Location :=
  if part = here then l
  else if part = up then l.stepUp
  else ⟨l.ups, part :: l.names⟩

def parts (l : Location) : List (List Char) :=
  List.replicate l.ups up ++ l.names.reverse

end Location

open Location

variable {part first : List Char} {parts front back top base names : List (List Char)}
  {n ups : Nat} {l : Location}

@[simp] theorem walk_here (l : Location) : l.walk here = l :=
  if_pos rfl

@[simp] theorem walk_up (l : Location) : l.walk up = l.stepUp :=
  rfl

theorem walk_of_isKept (l : Location) (h : IsKept part) :
    l.walk part = ⟨l.ups, part :: l.names⟩ := by
  rw [walk, if_neg h.ne_here, if_neg h.ne_up]

theorem step_or_isKept (h : '/' ∉ part) : part = here ∨ part = up ∨ IsKept part := by
  by_cases hhere : part = here
  · exact .inl hhere
  · by_cases hup : part = up
    · exact .inr (.inl hup)
    · exact .inr (.inr ⟨h, hhere, hup⟩)

theorem names_stepUp_subset (l : Location) : l.stepUp.names ⊆ l.names := by
  obtain ⟨ups, names⟩ := l
  cases names with
  | nil => exact List.Subset.refl _
  | cons last names => exact List.subset_cons_self last names

theorem ups_le_ups_walk (l : Location) (part : List Char) : l.ups ≤ (l.walk part).ups := by
  unfold walk
  split
  · exact Nat.le_refl _
  · split
    · obtain ⟨ups, names⟩ := l
      cases names with
      | nil => exact Nat.le_succ _
      | cons last names => exact Nat.le_refl _
    · exact Nat.le_refl _

theorem ups_le_ups_foldl_walk (l : Location) (parts : List (List Char)) :
    l.ups ≤ (parts.foldl walk l).ups := by
  induction parts generalizing l with
  | nil => exact Nat.le_refl _
  | cons part parts ih => exact Nat.le_trans (ups_le_ups_walk l part) (ih _)

theorem isKept_of_mem_foldl_walk (hslash : ∀ part ∈ parts, '/' ∉ part)
    (h : ∀ part ∈ l.names, IsKept part) : ∀ part ∈ (parts.foldl walk l).names, IsKept part := by
  induction parts generalizing l with
  | nil => exact h
  | cons part parts ih =>
    obtain ⟨hpart, hmore⟩ := List.forall_mem_cons.mp hslash
    refine ih hmore ?_
    rcases step_or_isKept hpart with rfl | rfl | hkept
    · rwa [walk_here]
    · exact fun other hother => h other (names_stepUp_subset l hother)
    · rw [walk_of_isKept l hkept]
      exact List.forall_mem_cons.mpr ⟨hkept, h⟩

theorem foldl_walk_replicate_here (n : Nat) (l : Location) :
    (List.replicate n here).foldl walk l = l := by
  induction n with
  | zero => rfl
  | succ n ih => rwa [List.replicate_succ, List.foldl_cons, walk_here]

theorem foldl_walk_parts (h : ∀ part ∈ l.names, IsKept part) :
    l.parts.foldl walk start = l := by
  have hups : ∀ n, (List.replicate n up).foldl walk start = ⟨n, []⟩ := by
    intro n
    induction n with
    | zero => rfl
    | succ n ih =>
      rw [List.replicate_succ', List.foldl_append, ih]
      rfl
  have hnames : ∀ names : List (List Char), (∀ part ∈ names, IsKept part) →
      names.reverse.foldl walk ⟨l.ups, []⟩ = ⟨l.ups, names⟩ := by
    intro names hkept
    induction names with
    | nil => rfl
    | cons part names ih =>
      obtain ⟨hpart, hrest⟩ := List.forall_mem_cons.mp hkept
      rw [List.reverse_cons, List.foldl_append, ih hrest]
      exact walk_of_isKept _ hpart
  rw [Location.parts, List.foldl_append, hups, hnames l.names h]

theorem keep_here (isAbsolute : Bool) (kept : List (List Char)) :
    keep isAbsolute kept here = kept :=
  if_pos rfl

theorem reverse_rooted_parts (isAbsolute : Bool) (l : Location) :
    (rooted isAbsolute l.parts).reverse =
      l.names ++ (List.replicate l.ups up ++ (rooted isAbsolute []).reverse) := by
  cases isAbsolute <;> simp [rooted, Location.parts]

/-- Normal form keeps one segment as a walk does, above the root of an absolute path. -/
theorem keep_rooted_parts (isAbsolute : Bool) (hslash : '/' ∉ part) (h : up ∉ l.names) :
    keep isAbsolute (rooted isAbsolute l.parts).reverse part =
      (rooted isAbsolute (l.walk part).parts).reverse := by
  rw [reverse_rooted_parts, reverse_rooted_parts]
  rcases step_or_isKept hslash with rfl | rfl | hkept
  · rw [walk_here, keep_here]
  · obtain ⟨ups, names⟩ := l
    cases names with
    | nil =>
      cases ups with
      | zero => cases isAbsolute <;> rfl
      | succ ups => rfl
    | cons last names =>
      have hlast : last ≠ up := by
        rintro rfl
        exact h List.mem_cons_self
      rw [walk_up, List.cons_append, keep_up hlast]
      · rfl
      · rintro rfl
        simp [rooted]
  · rw [keep_of_isKept isAbsolute _ hkept, walk_of_isKept l hkept, List.cons_append]

theorem foldl_keep_rooted_parts (isAbsolute : Bool) (hslash : ∀ part ∈ parts, '/' ∉ part)
    (h : ∀ part ∈ l.names, IsKept part) :
    parts.foldl (keep isAbsolute) (rooted isAbsolute l.parts).reverse =
      (rooted isAbsolute (parts.foldl walk l).parts).reverse := by
  induction parts generalizing l with
  | nil => rfl
  | cons part parts ih =>
    obtain ⟨hpart, hmore⟩ := List.forall_mem_cons.mp hslash
    have hup : up ∉ l.names := fun hmem => (h up hmem).ne_up rfl
    have hone : ∀ other ∈ [part], '/' ∉ other := List.forall_mem_singleton.mpr hpart
    have hkept : ∀ other ∈ (l.walk part).names, IsKept other := isKept_of_mem_foldl_walk hone h
    rw [List.foldl_cons, List.foldl_cons, keep_rooted_parts isAbsolute hpart hup, ih hmore hkept]

theorem depth?_here_cons (n : Nat) (parts : List (List Char)) :
    depth? n (here :: parts) = depth? n parts :=
  if_pos rfl

theorem depth?_cons_of_ne (n : Nat) (parts : List (List Char)) (hhere : part ≠ here)
    (hup : part ≠ up) : depth? n (part :: parts) = depth? (n + 1) parts :=
  (if_neg hhere).trans (if_neg hup)

theorem depth?_cons_of_isKept (n : Nat) (parts : List (List Char)) (h : IsKept part) :
    depth? n (part :: parts) = depth? (n + 1) parts :=
  depth?_cons_of_ne n parts h.ne_here h.ne_up

theorem depth?_append (n : Nat) (front back : List (List Char)) :
    depth? n (front ++ back) = (depth? n front).bind fun m => depth? m back := by
  fun_induction depth? n front with
  | case1 => rfl
  | case2 n more ih => rwa [List.cons_append, depth?_here_cons]
  | case3 more => rfl
  | case4 more n _ ih => exact ih
  | case5 n part more hhere hup ih => rwa [List.cons_append, depth?_cons_of_ne _ _ hhere hup]

theorem depth?_replicate_here (n k : Nat) : depth? n (List.replicate k here) = some n := by
  induction k with
  | zero => rfl
  | succ k ih => rwa [List.replicate_succ, depth?_here_cons]

theorem foldl_walk_append_of_depth? (ups : Nat) (top base : List (List Char))
    (hslash : ∀ part ∈ parts, '/' ∉ part) (h : depth? top.length parts = some n) :
    ∃ left, left.length = n ∧ parts.foldl walk ⟨ups, top ++ base⟩ = ⟨ups, left ++ base⟩ := by
  induction parts generalizing top with
  | nil => exact ⟨top, Option.some.inj h, rfl⟩
  | cons part parts ih =>
    obtain ⟨hpart, hmore⟩ := List.forall_mem_cons.mp hslash
    rcases step_or_isKept hpart with rfl | rfl | hkept
    · rw [List.foldl_cons, walk_here]
      exact ih top hmore h
    · cases top with
      | nil => cases h
      | cons last top => exact ih top hmore h
    · rw [depth?_cons_of_isKept _ _ hkept] at h
      rw [List.foldl_cons, walk_of_isKept _ hkept]
      exact ih (part :: top) hmore h

/-- A walk that stays below a place leaves the names above it alone. -/
theorem foldl_walk_of_depth? (ups : Nat) (base : List (List Char))
    (hslash : ∀ part ∈ parts, '/' ∉ part) (h : depth? 0 parts = some n) :
    ∃ left, left.length = n ∧ parts.foldl walk ⟨ups, base⟩ = ⟨ups, left ++ base⟩ :=
  foldl_walk_append_of_depth? ups [] base hslash h

/-- A walk that leads above its start takes a step up from there. -/
theorem exists_of_depth?_eq_none (h : depth? n parts = none) :
    ∃ front back, parts = front ++ up :: back ∧ depth? n front = some 0 := by
  fun_induction depth? n parts with
  | case1 => cases h
  | case2 n more ih =>
    obtain ⟨front, back, rfl, hfront⟩ := ih h
    exact ⟨here :: front, back, rfl, hfront⟩
  | case3 more => exact ⟨[], more, rfl, rfl⟩
  | case4 more n _ ih =>
    obtain ⟨front, back, rfl, hfront⟩ := ih h
    exact ⟨up :: front, back, rfl, hfront⟩
  | case5 n part more hhere hup ih =>
    obtain ⟨front, back, rfl, hfront⟩ := ih h
    exact ⟨part :: front, back, rfl, by rwa [depth?_cons_of_ne _ _ hhere hup]⟩

/-- A walk that comes back to its start has changed nothing. -/
theorem foldl_walk_eq_self (l : Location) (hslash : ∀ part ∈ parts, '/' ∉ part)
    (h : depth? 0 parts = some 0) : parts.foldl walk l = l := by
  obtain ⟨left, hlength, hleft⟩ := foldl_walk_of_depth? l.ups l.names hslash h
  rw [List.length_eq_zero_iff.mp hlength] at hleft
  exact hleft

/-- A walk that ends at its start has not led above it. -/
theorem depth?_eq_some_zero_iff (hslash : ∀ part ∈ parts, '/' ∉ part) :
    depth? 0 parts = some 0 ↔ parts.foldl walk start = start := by
  constructor
  · exact foldl_walk_eq_self start hslash
  · intro h
    cases hdepth : depth? 0 parts with
    | none =>
      obtain ⟨front, back, rfl, hfront⟩ := exists_of_depth?_eq_none hdepth
      have hslashFront : ∀ part ∈ front, '/' ∉ part := fun part hpart =>
        hslash part (List.mem_append_left _ hpart)
      have hups := ups_le_ups_foldl_walk (start.walk up) back
      rw [List.foldl_append, foldl_walk_eq_self start hslashFront hfront] at h
      rw [show back.foldl walk (start.walk up) = start from h] at hups
      exact absurd hups (by decide)
    | some n =>
      obtain ⟨left, hlength, hleft⟩ := foldl_walk_of_depth? 0 [] hslash hdepth
      have hnames : [] = left ++ [] := congrArg names (h.symm.trans hleft)
      obtain rfl : left = [] := by simpa using hnames.symm
      exact congrArg some hlength.symm

/-- Each name that is left was taken at a place above which the walk did not come again. -/
theorem exists_of_foldl_walk (top : List (List Char)) (hslash : ∀ part ∈ parts, '/' ∉ part)
    (h : parts.foldl walk start = ⟨ups, top ++ first :: base⟩) :
    ∃ front back, parts = front ++ first :: back ∧ front.foldl walk start = ⟨ups, base⟩ ∧
      depth? 0 back = some top.length := by
  induction parts using List.reverseRecOn generalizing top with
  | nil => simp [start] at h
  | append_singleton parts part ih =>
    obtain ⟨hfront, hpart⟩ := List.forall_mem_append.mp hslash
    have hslashPart := List.forall_mem_singleton.mp hpart
    rw [List.foldl_append, List.foldl_cons, List.foldl_nil] at h
    rcases step_or_isKept hslashPart with rfl | rfl | hkept
    · rw [walk_here] at h
      obtain ⟨front, back, rfl, hbase, hdepth⟩ := ih top hfront h
      refine ⟨front, back ++ [here], by simp, hbase, ?_⟩
      rw [depth?_append, hdepth]
      rfl
    · -- The step up takes a name away that stands behind `first`.
      rw [walk_up] at h
      cases hlast : parts.foldl walk start with
      | mk ups' names =>
        rw [hlast] at h
        cases names with
        | nil => simp [stepUp] at h
        | cons last names =>
          simp only [stepUp, Location.mk.injEq] at h
          obtain ⟨rfl, rfl⟩ := h
          obtain ⟨front, back, rfl, hbase, hdepth⟩ := ih (last :: top) hfront hlast
          refine ⟨front, back ++ [up], by simp, hbase, ?_⟩
          rw [depth?_append, hdepth]
          rfl
    · rw [walk_of_isKept _ hkept] at h
      simp only [Location.mk.injEq] at h
      obtain ⟨hups, hnames⟩ := h
      cases top with
      | nil =>
        obtain ⟨rfl, hbase⟩ := List.cons_eq_cons.mp hnames
        exact ⟨parts, [], rfl, by rw [← hups, ← hbase], rfl⟩
      | cons last top =>
        obtain ⟨rfl, hrest⟩ := List.cons_eq_cons.mp hnames
        have hbefore : parts.foldl walk start = ⟨ups, top ++ first :: base⟩ :=
          Location.ext hups hrest
        obtain ⟨front, back, rfl, hbase, hdepth⟩ := ih top hfront hbefore
        refine ⟨front, back ++ [part], by simp, hbase, ?_⟩
        rw [depth?_append, hdepth]
        exact depth?_cons_of_isKept _ _ hkept

end TypedScript.Path
