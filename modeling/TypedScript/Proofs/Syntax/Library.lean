import TypedScript.Proofs.Path.Normal
import TypedScript.Syntax.Module

/-! # Library paths

A path that does not begin with a point is the path of a library, and what is kept for it begins
with the directory of libraries. Normal form leaves it there as long as what stands behind that
directory does not lead out of it. It can lead out by the steps up that are left in front of the
normal form of a literal, and by a step that is left where a file loses its ending.
-/

namespace TypedScript

namespace Path

open Location

variable {dir inner front last : List Char} {parts : List (List Char)} {n : Nat}

theorem normalizeChars_behind (hdir : IsName dir) (inner : List Char) :
    normalizeChars (dir ++ '/' :: inner) =
      written false ((segments inner).foldl walk ⟨0, [dir]⟩) := by
  have hcut := segments_append dir inner hdir.slash_notMem
  have hdrop : dropHere (dir ++ '/' :: inner) = dir ++ '/' :: inner := by
    refine dropHere_of_not_prefix fun hprefix => hdir.ne_here ?_
    have hhere : '/' ∉ here := by decide
    rw [← ofSegments_segments (dir ++ '/' :: inner)] at hprefix
    obtain ⟨more, -, heq⟩ :=
      (prefix_ofSegments_iff hhere slash_notMem_of_mem_segments).mp hprefix
    exact (List.cons_eq_cons.mp (hcut.symm.trans heq)).1
  have hrelative : ¬ (dir ++ '/' :: inner).head? = some '/' := by
    rw [head?_eq_slash_iff]
    rintro ⟨more, -, heq⟩
    exact hdir.ne_nil (List.cons_eq_cons.mp (hcut.symm.trans heq)).1
  rw [normalizeChars_eq_written, hdrop, decide_eq_false hrelative, unrooted, if_neg hrelative, hcut,
    List.foldl_cons, walk_of_isKept start hdir.isKept]
  rfl

/-- As long as it is not left, the directory stands in front of as many names as the rest leads
down. -/
theorem exists_normalizeChars_behind (hdir : IsName dir)
    (h : depth? 0 (segments inner) = some n) : ∃ names, names.length = n ∧
      normalizeChars (dir ++ '/' :: inner) = ofSegments (dir :: names) := by
  obtain ⟨names, hlength, hnames⟩ := foldl_walk_of_depth? 0 [dir] slash_notMem_of_mem_segments h
  refine ⟨names.reverse, List.length_reverse.trans hlength, ?_⟩
  have hparts : rooted false (Location.parts ⟨0, names ++ [dir]⟩) = dir :: names.reverse := by
    simp [rooted, Location.parts]
  have hne : ofSegments (dir :: names.reverse) ≠ [] :=
    ofSegments_ne_nil (List.cons_ne_nil _ _) (by simp [hdir.ne_nil])
  rw [normalizeChars_behind hdir, show (segments inner).foldl walk ⟨0, [dir]⟩ = _ from hnames,
    written_of_ne_nil (hparts ▸ hne), hparts]

/-- A rest that leads out of the directory leads to the same place behind any other. -/
theorem normalizeChars_behind_of_depth?_eq_none {other : List Char} (hdir : IsName dir)
    (hother : IsName other) (h : depth? 0 (segments inner) = none) :
    normalizeChars (dir ++ '/' :: inner) = normalizeChars (other ++ '/' :: inner) := by
  obtain ⟨front, back, hparts, hfront⟩ := exists_of_depth?_eq_none h
  have hslash : ∀ part ∈ front, '/' ∉ part := fun part hpart =>
    slash_notMem_of_mem_segments part (hparts ▸ List.mem_append_left _ hpart)
  have hout : ∀ name, (segments inner).foldl walk ⟨0, [name]⟩ = back.foldl walk start := by
    intro name
    rw [hparts, List.foldl_append, foldl_walk_eq_self _ hslash hfront]
    rfl
  rw [normalizeChars_behind hdir, normalizeChars_behind hother, hout, hout]

def internalLast (last : List Char) : List Char :=
  if last = [] then "index".toList else internalChars last

theorem internalLast_cases (hlast : '/' ∉ last) :
    last = [] ∧ internalLast last = "index".toList ∨
      (∃ stem, last = stem ++ ending ∧ internalLast last = stem) ∨
        IsStem last ∧ internalLast last = last := by
  unfold internalLast
  split
  · rename_i hnil
    exact .inl ⟨hnil, rfl⟩
  · rename_i hne
    by_cases hending : ending <:+ last
    · obtain ⟨stem, rfl⟩ := hending
      exact .inr (.inl ⟨stem, rfl, internalChars_append_ending stem⟩)
    · have hslash : ¬ ['/'] <:+ last := fun hsuffix =>
        hlast (hsuffix.subset List.mem_cons_self)
      exact .inr (.inr ⟨⟨hne, hlast, hending⟩, internalChars_eq_self_iff.mpr ⟨hslash, hending⟩⟩)

theorem slash_notMem_internalLast (hlast : '/' ∉ last) : '/' ∉ internalLast last := by
  rcases internalLast_cases hlast with ⟨-, heq⟩ | ⟨stem, rfl, heq⟩ | ⟨-, heq⟩
  · rw [heq]
    decide
  · rw [heq]
    exact fun hmem => hlast (List.mem_append_left _ hmem)
  · rwa [heq]

theorem isKept_internalLast (h : IsKept last) (hhere : last ≠ here ++ ending)
    (hup : last ≠ up ++ ending) : IsKept (internalLast last) := by
  have hslash := slash_notMem_internalLast h.slash_notMem
  rcases internalLast_cases h.slash_notMem with ⟨-, heq⟩ | ⟨stem, rfl, heq⟩ | ⟨-, heq⟩
  · rw [heq]
    exact ⟨by decide, by decide, by decide⟩
  · rw [heq] at hslash ⊢
    exact ⟨hslash, fun hstep => hhere (by rw [hstep]), fun hstep => hup (by rw [hstep])⟩
  · rwa [heq]

theorem internalChars_concat (hparts : parts ≠ []) (hlast : '/' ∉ last) :
    internalChars (ofSegments (parts ++ [last])) = ofSegments (parts ++ [internalLast last]) := by
  rcases internalLast_cases hlast with ⟨rfl, heq⟩ | ⟨stem, rfl, heq⟩ | ⟨hstem, heq⟩
  · have hindex : IsStem "index".toList := by decide
    rw [heq]
    exact internalChars_last hindex .directory fun _ => ⟨rfl, hparts⟩
  · obtain ⟨front, hfront, -⟩ := exists_front parts
    rw [heq, hfront, hfront, ← List.append_assoc, internalChars_append_ending]
  · rw [heq]
    exact internalChars_last hstem .withoutEnding (by simp)

def libraries : List Char :=
  "~lib".toList

/-- A step up in front leads out, whatever follows, and so does it in internal form. -/
theorem depth?_of_head? {base : List (List Char)} (h : (base ++ (parts ++ [last])).head? = some up)
    (hbase : base = [] ∨ base = [libraries]) :
    depth? 0 (parts ++ [last]) = none ∧ depth? 0 (parts ++ [internalLast last]) = none := by
  rcases hbase with rfl | rfl
  · cases parts with
    | nil =>
      obtain rfl := Option.some.inj h
      decide
    | cons first parts =>
      obtain rfl := Option.some.inj h
      exact ⟨rfl, rfl⟩
  · exact absurd (Option.some.inj h) (by decide)

/-- A path below the directory of libraries. Its normal form lies below that directory if the rest
of the path leads below it, and is the directory itself if the rest comes back to it. If the rest
leads out of it, the normal form would be the same with any other name for the directory. -/
structure IsLibraryPath (path inner : String) : Prop where
  path_eq : path = libraryStart ++ inner
  below (n : Nat) : depth? 0 (segments inner.toList) = some (n + 1) →
    libraryStart.toList <+: (normalize path).toList
  itself : depth? 0 (segments inner.toList) = some 0 → (normalize path).toList = libraries
  outside : depth? 0 (segments inner.toList) = none → ∀ dir, IsName dir →
    normalize path = normalize (String.ofList (dir ++ '/' :: inner.toList))

theorem toList_libraryStart_append (inner : String) :
    (libraryStart ++ inner).toList = libraries ++ '/' :: inner.toList := by
  rw [String.toList_append]
  rfl

theorem isName_libraries : IsName libraries := by
  decide

theorem isLibraryPath (inner : String) : IsLibraryPath (libraryStart ++ inner) inner := by
  have hnormal : (normalize (libraryStart ++ inner)).toList =
      normalizeChars (libraries ++ '/' :: inner.toList) := by
    rw [toList_normalize, toList_libraryStart_append]
  constructor
  · rfl
  · intro n h
    obtain ⟨names, hlength, hnames⟩ := exists_normalizeChars_behind isName_libraries h
    have hne : names ≠ [] := by
      rintro rfl
      cases hlength
    rw [hnormal, hnames, ofSegments_cons libraries hne]
    exact ⟨ofSegments names, rfl⟩
  · intro h
    obtain ⟨names, hlength, hnames⟩ := exists_normalizeChars_behind isName_libraries h
    rw [hnormal, hnames, List.length_eq_zero_iff.mp hlength, ofSegments_singleton]
  · intro h dir hdir
    rw [← String.toList_inj, hnormal, toList_normalize, String.toList_ofList]
    exact normalizeChars_behind_of_depth?_eq_none isName_libraries hdir h

theorem normalize_library_of_isKept {inner : String}
    (h : ∀ part ∈ segments inner.toList, IsKept part) :
    normalize (libraryStart ++ inner) = libraryStart ++ inner := by
  have hkept : ∀ part ∈ libraries :: segments inner.toList, IsKept part :=
    List.forall_mem_cons.mpr ⟨isName_libraries.isKept, h⟩
  have hhead : libraries ≠ [] := isName_libraries.ne_nil
  have hnormal := normalizeChars_replicate_up 0 (List.cons_ne_nil _ _) hkept fun _ => by
    simpa using hhead
  rw [List.replicate_zero, List.nil_append, ofSegments_cons libraries (segments_ne_nil _),
    ofSegments_segments] at hnormal
  rw [← String.toList_inj, toList_normalize, toList_libraryStart_append, hnormal]

/-- The internal form of a library path is the path with its last segment in internal form. -/
theorem exists_internal_library (inner : String) : ∃ inner' parts last,
    internal (libraryStart ++ inner) = libraryStart ++ inner' ∧
      segments inner.toList = parts ++ [last] ∧
      segments inner'.toList = parts ++ [internalLast last] := by
  obtain ⟨parts, last, hcut⟩ : ∃ parts last, segments inner.toList = parts ++ [last] :=
    ⟨_, _, (List.dropLast_concat_getLast (segments_ne_nil inner.toList)).symm⟩
  have hslash : ∀ part ∈ segments inner.toList, '/' ∉ part := slash_notMem_of_mem_segments
  rw [hcut] at hslash
  obtain ⟨hparts, hlast⟩ := List.forall_mem_append.mp hslash
  have hlast := List.forall_mem_singleton.mp hlast
  have hwritten : ∀ part, ofSegments (libraries :: parts ++ [part]) =
      libraries ++ '/' :: ofSegments (parts ++ [part]) := fun part =>
    ofSegments_cons libraries (List.append_ne_nil_of_right_ne_nil _ (List.cons_ne_nil _ _))
  refine ⟨String.ofList (ofSegments (parts ++ [internalLast last])), parts, last, ?_, hcut, ?_⟩
  · rw [← String.toList_inj, internal, String.toList_ofList, toList_libraryStart_append,
      toList_libraryStart_append, String.toList_ofList, ← ofSegments_segments inner.toList, hcut,
      ← hwritten, ← hwritten, internalChars_concat (List.cons_ne_nil _ _) hlast]
  · rw [String.toList_ofList]
    refine segments_ofSegments (List.append_ne_nil_of_right_ne_nil _ (List.cons_ne_nil _ _)) ?_
    exact List.forall_mem_append.mpr
      ⟨hparts, List.forall_mem_singleton.mpr (slash_notMem_internalLast hlast)⟩

/-- Without steps up in front, the normal form of a path has none, unless it is a point. -/
theorem isKept_of_mem_segments_normalize {path : String} (hpoint : normalize path ≠ ".")
    (hup : up ∉ segments (normalize path).toList) :
    ∀ part ∈ segments (normalize path).toList, IsKept part := by
  obtain ⟨p, hp, -⟩ := exists_normalPath path.toList
  have hn : (normalize path).toList = p.text := by
    rw [toList_normalize, hp]
  intro part hpart
  rw [hn, p.segments_text] at hpart hup
  split at hpart
  · rename_i hnil
    have htext : p.text = here := if_pos hnil
    rw [htext] at hn
    exact absurd (String.toList_inj.mp hn) hpoint
  · rename_i hne
    rw [if_neg hne] at hup
    rcases p.ups_or_isKept_of_mem hpart with rfl | hkept
    · exact absurd hpart hup
    · exact hkept

end Path

namespace Syntax

open TypedScript.Path

variable {literal : String}

/-- The normal form of the literal stands behind the directory of libraries, or begins with it. -/
theorem exists_modulePath_library (origin : String) (h : literal.toList.head? ≠ some '.') :
    ∃ inner, modulePath origin literal = libraryStart ++ inner ∧
      (inner = normalize literal ∨ normalize literal = libraryStart ++ inner) := by
  unfold modulePath
  rw [if_neg h]
  split
  · rename_i hprefix
    obtain ⟨inner, hinner⟩ := List.isPrefixOf_iff_prefix.mp hprefix
    have hnormal : normalize literal = libraryStart ++ String.ofList inner := by
      rw [← String.toList_inj, String.toList_append, String.toList_ofList, hinner]
    exact ⟨String.ofList inner, hnormal, .inr hnormal⟩
  · exact ⟨normalize literal, rfl, .inl rfl⟩

/-- What is kept for a path that does not begin with a point is a path below the directory of
libraries, of which `IsLibraryPath` tells where it leads. It leads out of that directory if normal
form leaves a step up in front of the literal. Where it leaves no step up and more than a point, an
export keeps the path in normal form, and so does an import, but for an ending behind a step. -/
theorem internalPath_library (origin literal : String) (members : Option (List ExportMember))
    (isDeclare : Bool) (bindings : Option (List ImportBinding)) (name : Identifier)
    (literalSpan span : Span) (h : literal.toList.head? ≠ some '.') :
    let imported := (Import.names origin bindings ⟨literal, literalSpan⟩ span).internalPath
    let parts := segments (normalize literal).toList
    ∃ exported inner inner', (Export.new origin members (some ⟨literal, literalSpan⟩) isDeclare
        span).internalPath = some exported ∧
      (Import.wildcard origin name ⟨literal, literalSpan⟩ span).internalPath = imported ∧
      (inner = normalize literal ∨ normalize literal = libraryStart ++ inner) ∧
      IsLibraryPath exported inner ∧ IsLibraryPath imported inner' ∧
      (parts.head? = some up → depth? 0 (segments inner.toList) = none ∧
        depth? 0 (segments inner'.toList) = none) ∧
      (normalize literal ≠ "." → up ∉ parts → normalize exported = exported ∧
        (parts.getLast? ≠ some (here ++ ending) → parts.getLast? ≠ some (up ++ ending) →
          normalize imported = imported)) := by
  intro imported parts
  obtain ⟨inner, hexported, hinner⟩ := exists_modulePath_library origin h
  obtain ⟨inner', front, last, himported, hcut, hcut'⟩ := exists_internal_library inner
  have himported : imported = libraryStart ++ inner' := by
    rw [← himported, ← hexported]
    rfl
  obtain ⟨base, hparts, hbase⟩ : ∃ base, parts = base ++ (front ++ [last]) ∧
      (base = [] ∨ base = [libraries]) := by
    rcases hinner with rfl | hnormal
    · exact ⟨[], hcut, .inl rfl⟩
    · refine ⟨[libraries], ?_, .inr rfl⟩
      rw [← hcut, show parts = segments (normalize literal).toList from rfl, hnormal,
        toList_libraryStart_append]
      exact segments_append libraries inner.toList isName_libraries.slash_notMem
  refine ⟨libraryStart ++ inner, inner, inner', congrArg some hexported, rfl, hinner,
    isLibraryPath inner, himported ▸ isLibraryPath inner', fun hhead => ?_, fun hpoint hup => ?_⟩
  · rw [hcut, hcut']
    exact depth?_of_head? (hparts ▸ hhead) hbase
  · have hkept : ∀ part ∈ parts, IsKept part := isKept_of_mem_segments_normalize hpoint hup
    have hlast : parts.getLast? = some last := by
      rw [hparts, ← List.append_assoc, List.getLast?_concat]
    rw [hparts] at hkept
    have hbehind := (List.forall_mem_append.mp hkept).2
    refine ⟨normalize_library_of_isKept (hcut ▸ hbehind), fun hhere hup => ?_⟩
    rw [himported]
    apply normalize_library_of_isKept
    obtain ⟨hfront, hlastKept⟩ := List.forall_mem_append.mp hbehind
    rw [hlast] at hhere hup
    rw [hcut']
    refine List.forall_mem_append.mpr ⟨hfront, List.forall_mem_singleton.mpr ?_⟩
    exact isKept_internalLast (List.forall_mem_singleton.mp hlastKept)
      (fun heq => hhere (congrArg some heq)) fun heq => hup (congrArg some heq)

theorem internalPath_library_roundabout :
    let literal := "x/../lib//./math.ts"
    let path : StringLiteral := ⟨literal, ⟨0, 7, 28⟩⟩
    let imported := (Import.names "src/index.ts" none path ⟨0, 0, 29⟩).internalPath
    literal.toList.head? ≠ some '.' ∧ imported = "~lib/lib//math" ∧
      normalize imported = imported ∧
      (Export.new "src/index.ts" none (some path) false ⟨0, 0, 29⟩).internalPath =
        some "~lib/lib//math.ts" ∧ normalize "~lib/lib//math.ts" = "~lib/lib//math.ts" := by
  intro literal path imported
  have hhead : literal.toList.head? ≠ some '.' := by decide
  obtain ⟨exported, -, -, hexported, -, -, -, -, -, hnormal⟩ := internalPath_library "src/index.ts"
    literal none false none default ⟨0, 7, 28⟩ ⟨0, 0, 29⟩ hhead
  have hvalue : (Export.new "src/index.ts" none (some path) false ⟨0, 0, 29⟩).internalPath =
      some "~lib/lib//math.ts" := by decide +kernel
  obtain rfl := Option.some.inj (hvalue.symm.trans hexported)
  obtain ⟨hstays, himported⟩ := hnormal (by decide +kernel) (by decide +kernel)
  exact ⟨hhead, by decide +kernel, himported (by decide +kernel) (by decide +kernel), hvalue, hstays⟩

/-- A step up can lead out of the directory of libraries, also one that is left of an ending. -/
theorem internalPath_outside_libraries :
    let path (literal : String) : StringLiteral := ⟨literal, ⟨0, 0, 9⟩⟩
    let imported literal := (Import.names "src/index.ts" none (path literal) ⟨0, 0, 9⟩).internalPath
    imported "a/../../b" = "~lib/../b" ∧ normalize "~lib/../b" = "b" ∧
      imported "~lib/...ts" = "~lib/.." ∧ normalize "~lib/.." = "." ∧
      imported "a/.." = "~lib/." ∧ normalize "~lib/." = "~lib" := by
  decide +kernel

end Syntax

end TypedScript
