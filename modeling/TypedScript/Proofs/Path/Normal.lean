import TypedScript.Proofs.Path.Walk

/-! # Normal form

A path in normal form is a point alone, or steps up and behind them names, after a root if it is
absolute. It is what a walk along the path ends with, except that an empty name which comes to
stand first with others behind it becomes a root. A path that has this form stays as it is.
-/

namespace TypedScript.Path

open Location

variable {part path : List Char} {l : Location}

theorem toList_normalize (path : String) : (normalize path).toList = normalizeChars path.toList :=
  String.toList_ofList

theorem not_prefix_dropHere (path : List Char) : ¬ ['.', '/'] <+: dropHere path := by
  fun_induction dropHere path with
  | case1 rest ih => exact ih
  | case2 path hpath =>
    rintro ⟨rest, rfl⟩
    exact hpath rest rfl

theorem exists_segments_dropHere (path : List Char) :
    ∃ n, segments path = List.replicate n here ++ segments (dropHere path) := by
  fun_induction dropHere path with
  | case1 rest ih =>
    obtain ⟨n, hn⟩ := ih
    refine ⟨n + 1, ?_⟩
    have hcut : segments ('.' :: '/' :: rest) = here :: segments rest :=
      segments_append here rest (by decide)
    rw [hcut, hn]
    rfl
  | case2 path => exact ⟨0, rfl⟩

/-- A point in front of another segment would have been dropped. -/
theorem eq_nil_of_segments_dropHere {more : List (List Char)}
    (h : segments (dropHere path) = here :: more) : more = [] := by
  by_contra hne
  apply not_prefix_dropHere path
  rw [← ofSegments_segments (dropHere path), h, ofSegments_cons here hne]
  exact ⟨ofSegments more, rfl⟩

theorem head?_eq_slash_iff :
    path.head? = some '/' ↔ ∃ more, more ≠ [] ∧ segments path = [] :: more := by
  obtain ⟨first, more, hcut⟩ := List.exists_cons_of_ne_nil (segments_ne_nil path)
  have hfirst : '/' ∉ first :=
    slash_notMem_of_mem_segments first (hcut ▸ List.mem_cons_self)
  have hpath := ofSegments_segments path
  rw [hcut] at hpath ⊢
  rw [← hpath, head?_ofSegments_eq_slash_iff hfirst]
  constructor
  · rintro ⟨rfl, hne⟩
    exact ⟨more, hne, rfl⟩
  · rintro ⟨rest, hne, heq⟩
    obtain ⟨rfl, rfl⟩ := List.cons_eq_cons.mp heq
    exact ⟨rfl, hne⟩

def unrooted (path : List Char) : List (List Char) :=
  if path.head? = some '/' then (segments path).tail else segments path

theorem rooted_unrooted (path : List Char) :
    rooted (path.head? = some '/') (unrooted path) = segments path := by
  unfold unrooted
  by_cases habsolute : path.head? = some '/'
  · obtain ⟨more, -, hcut⟩ := head?_eq_slash_iff.mp habsolute
    simp [habsolute, hcut, rooted]
  · simp [habsolute, rooted]

theorem slash_notMem_of_mem_unrooted : ∀ part ∈ unrooted path, '/' ∉ part := by
  intro part hpart
  have hslash : ∀ part ∈ segments path, '/' ∉ part := slash_notMem_of_mem_segments
  apply hslash part
  rw [← rooted_unrooted path]
  unfold rooted
  split
  · exact List.mem_cons_of_mem _ hpart
  · exact hpart

def written (isAbsolute : Bool) (l : Location) : List Char :=
  match ofSegments (rooted isAbsolute l.parts) with
  | [] => if isAbsolute then ['/'] else ['.']
  | text => text

theorem written_of_ne_nil {isAbsolute : Bool} (h : ofSegments (rooted isAbsolute l.parts) ≠ []) :
    written isAbsolute l = ofSegments (rooted isAbsolute l.parts) := by
  unfold written
  split
  · rename_i hnil
    exact absurd hnil h
  · rfl

theorem normalizeChars_eq_written (path : List Char) :
    normalizeChars path = written ((dropHere path).head? = some '/')
      ((unrooted (dropHere path)).foldl walk start) := by
  have hpoint : ∀ more, segments (dropHere path) = here :: more → more = [] :=
    fun _ => eq_nil_of_segments_dropHere
  have hslash : ∀ part ∈ unrooted (dropHere path), '/' ∉ part := slash_notMem_of_mem_unrooted
  have hstart : ∀ part ∈ start.names, IsKept part := fun _ h => absurd h List.not_mem_nil
  have hcut := rooted_unrooted (dropHere path)
  unfold normalizeChars
  generalize dropHere path = rest at *
  by_cases habsolute : rest.head? = some '/'
  · -- The root stays below everything that is kept.
    rw [decide_eq_true habsolute] at hcut
    have hkept : (unrooted rest).foldl (keep true) [[]] = _ :=
      foldl_keep_rooted_parts true hslash hstart
    simp only [← hcut, rooted, if_true, decide_eq_true habsolute, hkept, List.reverse_reverse,
      if_pos habsolute]
    rfl
  · have hdecide := decide_eq_false habsolute
    rw [hdecide] at hcut
    obtain ⟨first, more, hrest⟩ := List.exists_cons_of_ne_nil (segments_ne_nil rest)
    have hparts : unrooted rest = first :: more := hcut.trans hrest
    rw [hparts] at hslash ⊢
    obtain ⟨hfirst, hmore⟩ := List.forall_mem_cons.mp hslash
    simp only [hrest, hdecide, List.foldl_cons]
    by_cases hhere : first = here
    · obtain rfl := hpoint more (hhere ▸ hrest)
      subst hhere
      rfl
    · have hone : [first] = (rooted false (start.walk first).parts).reverse := by
        rcases step_or_isKept hfirst with heq | rfl | hkept
        · exact absurd heq hhere
        · rfl
        · rw [walk_of_isKept start hkept]
          rfl
      have hkept : ∀ part ∈ (start.walk first).names, IsKept part :=
        isKept_of_mem_foldl_walk (List.forall_mem_singleton.mpr hfirst) hstart
      rw [hone, foldl_keep_rooted_parts false hmore hkept, List.reverse_reverse]
      simp only [if_neg habsolute]
      rfl

structure NormalPath where
  isAbsolute : Bool
  ups : Nat
  names : List (List Char)
  isKept_of_mem : ∀ part ∈ names, IsKept part
  /-- In the first place an empty name would be read as a root. -/
  head?_ne_nil : isAbsolute = false → ups = 0 → names.head? ≠ some []
  /-- Behind a root there is a segment, if only an empty one. -/
  ne_nil : isAbsolute = true → ups = 0 → names ≠ []

namespace NormalPath

def location (p : NormalPath) : Location :=
  ⟨p.ups, p.names.reverse⟩

def parts (p : NormalPath) : List (List Char) :=
  rooted p.isAbsolute p.location.parts

def text (p : NormalPath) : List Char :=
  if p.parts = [] then here else ofSegments p.parts

variable (p : NormalPath)

theorem parts_location : p.location.parts = List.replicate p.ups up ++ p.names := by
  rw [Location.parts, location, List.reverse_reverse]

theorem isKept_of_mem_location : ∀ part ∈ p.location.names, IsKept part :=
  fun part hpart => p.isKept_of_mem part (List.mem_reverse.mp hpart)

theorem ups_or_isKept_of_mem (h : part ∈ p.parts) : part = up ∨ IsKept part := by
  have hbehind : ∀ other ∈ p.location.parts, other = up ∨ IsKept other := by
    intro other hother
    rw [parts_location, List.mem_append] at hother
    exact hother.imp List.eq_of_mem_replicate (p.isKept_of_mem other)
  unfold parts rooted at h
  split at h
  · rcases List.mem_cons.mp h with rfl | h
    · exact .inr isKept_nil
    · exact hbehind part h
  · exact hbehind part h

theorem slash_notMem_of_mem_parts : ∀ part ∈ p.parts, '/' ∉ part := by
  intro part hpart
  rcases p.ups_or_isKept_of_mem hpart with rfl | hkept
  · decide
  · exact hkept.slash_notMem

theorem here_notMem_parts : here ∉ p.parts := by
  intro hmem
  rcases p.ups_or_isKept_of_mem hmem with heq | hkept
  · exact absurd heq (by decide)
  · exact hkept.ne_here rfl

theorem parts_ne_root : p.parts ≠ [[]] := by
  intro heq
  unfold parts rooted at heq
  rw [parts_location] at heq
  split at heq
  · rename_i habsolute
    obtain ⟨hups, hnames⟩ := List.append_eq_nil_iff.mp (List.cons_eq_cons.mp heq).2
    exact p.ne_nil habsolute (by simpa using hups) hnames
  · rename_i hrelative
    rcases List.append_eq_singleton_iff.mp heq with ⟨hups, hnames⟩ | ⟨hups, -⟩
    · refine p.head?_ne_nil (Bool.eq_false_iff.mpr hrelative) (by simpa using hups) ?_
      rw [hnames]
      rfl
    · have hmem : [] ∈ List.replicate p.ups up := hups ▸ List.mem_cons_self
      exact absurd (List.eq_of_mem_replicate hmem) (by decide)

theorem ofSegments_parts_ne_nil (h : p.parts ≠ []) : ofSegments p.parts ≠ [] :=
  ofSegments_ne_nil h p.parts_ne_root

theorem segments_text : segments p.text = if p.parts = [] then [here] else p.parts := by
  unfold text
  split
  · rfl
  · rename_i hne
    exact segments_ofSegments hne p.slash_notMem_of_mem_parts

theorem text_ne_nil : p.text ≠ [] := by
  unfold text
  split
  · exact List.cons_ne_nil _ _
  · rename_i hne
    exact p.ofSegments_parts_ne_nil hne

theorem head?_text_eq_slash_iff : p.text.head? = some '/' ↔ p.isAbsolute = true := by
  rw [head?_eq_slash_iff, segments_text]
  constructor
  · rintro ⟨more, hne, hcut⟩
    split at hcut
    · cases (List.cons_eq_cons.mp hcut).1
    · -- A relative path has no empty segment in front.
      by_contra hrelative
      rw [Bool.not_eq_true] at hrelative
      have hparts : List.replicate p.ups up ++ p.names = [] :: more := by
        rw [← parts_location, ← hcut, parts, hrelative]
        rfl
      cases hups : p.ups with
      | zero =>
        refine p.head?_ne_nil hrelative hups ?_
        rw [hups] at hparts
        exact congrArg List.head? hparts
      | succ n =>
        rw [hups] at hparts
        cases (List.cons_eq_cons.mp hparts).1
  · intro habsolute
    have hparts : p.parts = [] :: (List.replicate p.ups up ++ p.names) := by
      rw [parts, habsolute, ← parts_location]
      rfl
    refine ⟨List.replicate p.ups up ++ p.names, ?_, by simp [hparts]⟩
    intro hnil
    obtain ⟨hups, hnames⟩ := List.append_eq_nil_iff.mp hnil
    exact p.ne_nil habsolute (by simpa using hups) hnames

theorem decide_head?_text : decide (p.text.head? = some '/') = p.isAbsolute := by
  rw [Bool.eq_iff_iff, decide_eq_true_iff]
  exact p.head?_text_eq_slash_iff

theorem dropHere_text : dropHere p.text = p.text := by
  refine dropHere_of_not_prefix ?_
  unfold text
  split
  · decide
  · intro hprefix
    have hhere : '/' ∉ here := by decide
    obtain ⟨more, -, heq⟩ :=
      (prefix_ofSegments_iff hhere p.slash_notMem_of_mem_parts).mp hprefix
    exact p.here_notMem_parts (heq ▸ List.mem_cons_self)

theorem written_eq_text {isAbsolute : Bool} (hne : p.parts ≠ [])
    (h : rooted isAbsolute l.parts = p.parts) : written isAbsolute l = p.text := by
  have htext : p.text = ofSegments p.parts := if_neg hne
  rw [htext, ← h]
  exact written_of_ne_nil (h ▸ p.ofSegments_parts_ne_nil hne)

/-- Normal form leaves such a path alone. -/
theorem normalizeChars_text : normalizeChars p.text = p.text := by
  by_cases hparts : p.parts = []
  · unfold text
    rw [if_pos hparts]
    rfl
  · have hcut := rooted_unrooted p.text
    rw [segments_text, if_neg hparts, decide_head?_text] at hcut
    have hunrooted : unrooted p.text = p.location.parts := by
      unfold parts at hcut
      cases habsolute : p.isAbsolute with
      | false =>
        rw [habsolute] at hcut
        exact hcut
      | true =>
        rw [habsolute] at hcut
        exact (List.cons_eq_cons.mp hcut).2
    rw [normalizeChars_eq_written, dropHere_text, decide_head?_text, hunrooted,
      foldl_walk_parts p.isKept_of_mem_location]
    exact p.written_eq_text hparts rfl

/-- The steps up stand together in front, behind the root. -/
theorem exists_segments_text : ∃ ups rest, up ∉ rest ∧
    segments p.text = rooted (p.text.head? = some '/') (List.replicate ups up ++ rest) := by
  rw [segments_text, decide_head?_text]
  split
  · rename_i hnil
    have hrelative : p.isAbsolute = false := by
      cases habsolute : p.isAbsolute with
      | false => rfl
      | true =>
        rw [parts, habsolute] at hnil
        cases hnil
    exact ⟨0, [here], by decide, by rw [hrelative]; rfl⟩
  · refine ⟨p.ups, p.names, fun hmem => (p.isKept_of_mem up hmem).ne_up rfl, ?_⟩
    rw [parts, parts_location]

end NormalPath

def Location.spelled (l : Location) : Location :=
  ⟨l.ups, l.names.filter (· ≠ [])⟩

theorem exists_normalPath_of_absolute (h : ∀ part ∈ l.names, IsKept part) :
    ∃ p : NormalPath, written true l = p.text ∧ p.location.spelled = l.spelled ∧
      p.isAbsolute = true := by
  obtain ⟨ups, names⟩ := l
  by_cases hroot : ups = 0 ∧ names = []
  · obtain ⟨rfl, rfl⟩ := hroot
    exact ⟨⟨true, 0, [[]], by simp [isKept_nil], by simp, by simp⟩, rfl, by decide, rfl⟩
  · let p : NormalPath := ⟨true, ups, names.reverse, by simpa using h, by simp,
      fun _ hups hnil => hroot ⟨hups, List.reverse_eq_nil_iff.mp hnil⟩⟩
    have hlocation : p.location = ⟨ups, names⟩ := by simp [p, NormalPath.location]
    refine ⟨p, p.written_eq_text (List.cons_ne_nil _ _) ?_, by rw [hlocation], rfl⟩
    rw [NormalPath.parts, hlocation]

theorem exists_normalPath_of_relative (h : ∀ part ∈ l.names, IsKept part) :
    ∃ p : NormalPath, written false l = p.text ∧ p.location.spelled = l.spelled ∧
      (p.isAbsolute = true ↔ l.ups = 0 ∧ ∃ names, names ≠ [] ∧ l.names = names ++ [[]]) := by
  obtain ⟨ups, names⟩ := l
  by_cases hhead : ups = 0 ∧ ∃ rest, names = rest ++ [[]]
  · obtain ⟨rfl, rest, rfl⟩ := hhead
    by_cases hrest : rest = []
    · subst hrest
      exact ⟨⟨false, 0, [], by simp, by simp, by simp⟩, rfl, by decide, by simp⟩
    · -- The empty name is written as the root in front of the others.
      let p : NormalPath := ⟨true, 0, rest.reverse,
        fun part hpart => h part (List.mem_append_left _ (List.mem_reverse.mp hpart)), by simp,
        fun _ _ hnil => hrest (List.reverse_eq_nil_iff.mp hnil)⟩
      have hlocation : p.location = ⟨0, rest⟩ := by simp [p, NormalPath.location]
      refine ⟨p, p.written_eq_text (List.cons_ne_nil _ _) ?_, ?_, by simp [p, hrest]⟩
      · rw [NormalPath.parts, hlocation]
        simp [p, rooted, Location.parts]
      · rw [hlocation]
        simp [spelled]
  · by_cases hnone : ups = 0 ∧ names = []
    · obtain ⟨rfl, rfl⟩ := hnone
      exact ⟨⟨false, 0, [], by simp, by simp, by simp⟩, rfl, rfl, by simp⟩
    · let p : NormalPath := ⟨false, ups, names.reverse, by simpa using h, fun _ hups hempty =>
        hhead ⟨hups, List.getLast?_eq_some_iff.mp (List.head?_reverse.symm.trans hempty)⟩,
        by simp⟩
      have hlocation : p.location = ⟨ups, names⟩ := by simp [p, NormalPath.location]
      refine ⟨p, p.written_eq_text ?_ ?_, by rw [hlocation], ?_⟩
      · rw [NormalPath.parts, hlocation]
        simpa [p, rooted, Location.parts] using hnone
      · rw [NormalPath.parts, hlocation]
      · constructor
        · simp [p]
        · rintro ⟨hups, rest, -, hrest⟩
          exact absurd ⟨hups, rest, hrest⟩ hhead

/-- Normal form writes what a walk ends with, behind the leading steps in place and the root. -/
theorem exists_normalPath (path : List Char) :
    let l := (unrooted (dropHere path)).foldl walk start
    ∃ p : NormalPath, normalizeChars path = p.text ∧ p.location.spelled = l.spelled ∧
      (p.isAbsolute = true ↔ (dropHere path).head? = some '/' ∨
        l.ups = 0 ∧ ∃ names, names ≠ [] ∧ l.names = names ++ [[]]) := by
  intro l
  have hkept : ∀ part ∈ l.names, IsKept part :=
    isKept_of_mem_foldl_walk slash_notMem_of_mem_unrooted fun _ h => absurd h List.not_mem_nil
  rw [normalizeChars_eq_written]
  by_cases habsolute : (dropHere path).head? = some '/'
  · obtain ⟨p, hp, hspelled, hroot⟩ := exists_normalPath_of_absolute hkept
    exact ⟨p, by rwa [decide_eq_true habsolute], hspelled, by simp [hroot, habsolute]⟩
  · obtain ⟨p, hp, hspelled, hroot⟩ := exists_normalPath_of_relative hkept
    exact ⟨p, by rwa [decide_eq_false habsolute], hspelled, by simp [hroot, habsolute]⟩

/-- Normal form is never empty and stays as it is. A point is a segment of it only if it is
nothing else, and the steps up stand together in front, behind the root of an absolute path. The
paths that stay as they are, are those of `NormalPath`. -/
theorem normalize_form (path : String) :
    normalize path ≠ "" ∧ normalize (normalize path) = normalize path ∧
      (here ∈ segments (normalize path).toList → normalize path = ".") ∧
      (∃ ups rest, up ∉ rest ∧ segments (normalize path).toList =
        rooted ((normalize path).toList.head? = some '/') (List.replicate ups up ++ rest)) ∧
      (normalize path = path ↔ ∃ p : NormalPath, path.toList = p.text) := by
  obtain ⟨p, hp, -⟩ := exists_normalPath path.toList
  have hn : (normalize path).toList = p.text := by
    rw [toList_normalize, hp]
  refine ⟨?_, ?_, ?_, ?_, fun hsame => ⟨p, hsame ▸ hn⟩, ?_⟩
  · intro hempty
    rw [hempty] at hn
    exact p.text_ne_nil hn.symm
  · rw [← String.toList_inj, toList_normalize, hn, p.normalizeChars_text]
  · intro hmem
    rw [hn, p.segments_text] at hmem
    split at hmem
    · rename_i hparts
      have htext : p.text = here := if_pos hparts
      rw [← String.toList_inj, hn, htext]
      rfl
    · exact absurd hmem p.here_notMem_parts
  · rw [hn]
    exact p.exists_segments_text
  · rintro ⟨other, hother⟩
    rw [← String.toList_inj, toList_normalize, hother, other.normalizeChars_text]

end TypedScript.Path
