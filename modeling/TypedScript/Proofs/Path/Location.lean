import TypedScript.Proofs.Path.Normal

/-! # Where a path leads

Read as directories, the empty segments of a path lead nowhere. Normal form keeps them as names,
so it leads to the same place as long as no step up takes an empty segment for the name in front
of it, and from the same start as long as no empty segment comes to stand where a root stands.
Both can only happen where two slashes stand together.
-/

namespace TypedScript.Path

open Location

def Location.follow (l : Location) (part : List Char) : Location :=
  if part = [] then l else l.walk part

/-- The place a path leads to, seen from the root or from the directory it starts in. -/
def location (path : List Char) : Location :=
  (segments path).foldl follow start

/-- A step up comes back to an empty segment, but not to the first one behind the leading steps in
place. -/
def TakesEmpty (parts : List (List Char)) : Prop :=
  ∃ front middle back, parts = front ++ [] :: (middle ++ up :: back) ∧
    (∃ part ∈ front, part ≠ here) ∧ depth? 0 middle = some 0

/-- An empty segment in front of others stands behind steps in place alone, or behind segments
that come back to their start, where names are left behind it. -/
def HasRoot (parts : List (List Char)) : Prop :=
  ∃ front back, parts = front ++ [] :: back ∧
    ((∀ part ∈ front, part = here) ∧ back ≠ [] ∨
      depth? 0 front = some 0 ∧ ∃ n, depth? 0 back = some (n + 1))

variable {part path : List Char} {parts front back : List (List Char)} {l m : Location} {n : Nat}

theorem follow_here (l : Location) : l.follow here = l :=
  (if_neg (List.cons_ne_nil _ _)).trans (walk_here l)

theorem follow_of_ne_nil (l : Location) (h : part ≠ []) : l.follow part = l.walk part :=
  if_neg h

theorem foldl_follow_eq_filter (l : Location) (parts : List (List Char)) :
    parts.foldl follow l = (parts.filter (· ≠ [])).foldl walk l := by
  induction parts generalizing l with
  | nil => rfl
  | cons part parts ih =>
    rw [List.foldl_cons, ih]
    by_cases hpart : part = []
    · simp [hpart, follow]
    · simp [hpart, follow_of_ne_nil]

/-- The places of a walk and of the reading stay the same, as long as no step up takes an empty
name away. -/
theorem spelled_walk (l : Location) (part : List Char) :
    (l.walk part).spelled =
      if part = up ∧ l.names.head? = some [] then l.spelled else l.spelled.follow part := by
  obtain ⟨ups, names⟩ := l
  by_cases hhere : part = here
  · subst hhere
    have hne : here ≠ up := by decide
    rw [walk_here, follow_here, if_neg fun h => hne h.1]
  · by_cases hup : part = up
    · subst hup
      cases names with
      | nil => rfl
      | cons last names =>
        have hup : up ≠ [] := List.cons_ne_nil _ _
        rw [follow_of_ne_nil _ hup, walk_up, walk_up]
        by_cases hlast : last = []
        · simp [hlast, stepUp, spelled]
        · simp [hlast, stepUp, spelled]
    · rw [if_neg fun h => hup h.1, walk, if_neg hhere, if_neg hup]
      by_cases hpart : part = []
      · simp [hpart, spelled, follow]
      · simp [hpart, spelled, follow, walk, hhere, hup]

def Location.height (l : Location) : Int :=
  l.names.length - l.ups

def rise (part : List Char) : Int :=
  if part = [] ∨ part = here then 0 else if part = up then -1 else 1

theorem height_follow (l : Location) (part : List Char) :
    (l.follow part).height = l.height + rise part := by
  obtain ⟨ups, names⟩ := l
  by_cases hpart : part = []
  · simp [hpart, follow, rise]
  · by_cases hhere : part = here
    · simp [hhere, follow_here, rise]
    · rw [follow_of_ne_nil _ hpart, rise, if_neg (not_or.mpr ⟨hpart, hhere⟩), walk, if_neg hhere]
      split
      · cases names with
        | nil =>
          simp only [stepUp, height, List.length_nil]
          omega
        | cons last names =>
          simp only [stepUp, height, List.length_cons]
          omega
      · simp only [height, List.length_cons]
        omega

/-- The walk never comes to fall behind the reading further than it was. -/
theorem height_sub_le_foldl (l m : Location) (parts : List (List Char)) :
    l.spelled.height - m.height ≤
      (parts.foldl walk l).spelled.height - (parts.foldl follow m).height := by
  induction parts generalizing l m with
  | nil => exact Int.le_refl _
  | cons part parts ih =>
    refine Int.le_trans ?_ (ih (l.walk part) (m.follow part))
    rw [spelled_walk, height_follow m]
    split
    · rename_i htaken
      have hrise : rise part = -1 := by
        rw [htaken.1]
        rfl
      omega
    · rw [height_follow]
      omega

theorem head?_names_of_depth? (front : List (List Char)) (hslash : ∀ part ∈ back, '/' ∉ part)
    (h : depth? 0 back = some 0) :
    ((front ++ [] :: back).foldl walk start).names.head? = some [] := by
  rw [List.foldl_append, List.foldl_cons, walk_of_isKept _ isKept_nil,
    foldl_walk_eq_self _ hslash h]
  rfl

theorem spelled_foldl_walk_eq_iff (hslash : ∀ part ∈ parts, '/' ∉ part) :
    (parts.foldl walk start).spelled = parts.foldl follow start ↔
      ¬ ∃ front middle back, parts = front ++ [] :: (middle ++ up :: back) ∧
        depth? 0 middle = some 0 := by
  constructor
  · -- The step up leads the reading above the walk, and there it stays.
    rintro heq ⟨front, middle, back, rfl, hmiddle⟩
    have hslashMiddle : ∀ part ∈ middle, '/' ∉ part := fun part hpart =>
      hslash part (by simp [hpart])
    have hsplit : ∀ step : Location → List Char → Location,
        (front ++ [] :: (middle ++ up :: back)).foldl step start =
          back.foldl step (step ((front ++ [] :: middle).foldl step start) up) := by
      intro step
      rw [show front ++ [] :: (middle ++ up :: back) = (front ++ [] :: middle) ++ up :: back by simp,
        List.foldl_append, List.foldl_cons]
    have hempty := head?_names_of_depth? front hslashMiddle hmiddle
    have hbefore := height_sub_le_foldl start start (front ++ [] :: middle)
    rw [hsplit, hsplit] at heq
    generalize (front ++ [] :: middle).foldl walk start = l at *
    generalize (front ++ [] :: middle).foldl follow start = m at *
    have hafter := height_sub_le_foldl (l.walk up) (m.follow up) back
    have hstart : start.spelled.height - start.height = 0 := rfl
    have hrise : rise up = -1 := rfl
    rw [heq, spelled_walk, if_pos ⟨rfl, hempty⟩, height_follow m] at hafter
    omega
  · intro htaken
    induction parts using List.reverseRecOn with
    | nil => rfl
    | append_singleton parts part ih =>
      obtain ⟨hfront, -⟩ := List.forall_mem_append.mp hslash
      have hsame := ih hfront fun ⟨front, middle, back, hparts, hmiddle⟩ =>
        htaken ⟨front, middle, back ++ [part], by simp [hparts], hmiddle⟩
      rw [List.foldl_append, List.foldl_append, ← hsame]
      refine (spelled_walk _ _).trans (if_neg ?_)
      rintro ⟨rfl, hempty⟩
      obtain ⟨base, hnames⟩ := List.head?_eq_some_iff.mp hempty
      obtain ⟨front, middle, rfl, -, hmiddle⟩ := exists_of_foldl_walk [] hfront
        (Location.ext rfl hnames)
      exact htaken ⟨front, middle, [], by simp, hmiddle⟩

/-- An empty name comes to stand first, with others behind it. -/
theorem empty_first_iff (hslash : ∀ part ∈ parts, '/' ∉ part) :
    ((parts.foldl walk start).ups = 0 ∧
        ∃ names, names ≠ [] ∧ (parts.foldl walk start).names = names ++ [[]]) ↔
      ∃ front back, parts = front ++ [] :: back ∧ depth? 0 front = some 0 ∧
        ∃ n, depth? 0 back = some (n + 1) := by
  constructor
  · rintro ⟨hups, names, hne, hnames⟩
    obtain ⟨front, back, rfl, hfront, hback⟩ :=
      exists_of_foldl_walk names hslash (Location.ext hups hnames)
    have hslashFront : ∀ part ∈ front, '/' ∉ part := fun part hpart =>
      hslash part (List.mem_append_left _ hpart)
    refine ⟨front, back, rfl, (depth?_eq_some_zero_iff hslashFront).mpr hfront,
      names.length - 1, ?_⟩
    rw [hback, Nat.sub_add_cancel (List.length_pos_iff.mpr hne)]
  · rintro ⟨front, back, rfl, hfront, n, hback⟩
    obtain ⟨hslashFront, hslashBack⟩ := List.forall_mem_append.mp hslash
    have hstart := (depth?_eq_some_zero_iff hslashFront).mp hfront
    obtain ⟨names, hlength, hnames⟩ := foldl_walk_of_depth? 0 [[]]
      (List.forall_mem_cons.mp hslashBack).2 hback
    have hend : (front ++ [] :: back).foldl walk start = ⟨0, names ++ [[]]⟩ := by
      rw [List.foldl_append, hstart, List.foldl_cons, walk_of_isKept _ isKept_nil]
      exact hnames
    refine ⟨congrArg ups hend, names, ?_, congrArg Location.names hend⟩
    rintro rfl
    cases hlength

theorem location_eq_foldl_unrooted (path : List Char) :
    location path = (unrooted (dropHere path)).foldl follow start := by
  obtain ⟨n, hcut⟩ := exists_segments_dropHere path
  have hhere : (List.replicate n here).foldl follow start = start := by
    rw [foldl_follow_eq_filter, List.filter_replicate_of_pos (by decide),
      foldl_walk_replicate_here]
  rw [location, hcut, List.foldl_append, hhere, ← rooted_unrooted, rooted]
  split <;> rfl

/-- An empty segment behind the leading steps in place stands in what is behind these. -/
theorem append_eq_replicate_append {rest : List (List Char)}
    (h : front ++ [] :: back = List.replicate n here ++ rest) :
    ∃ middle, front = List.replicate n here ++ middle ∧ rest = middle ++ [] :: back := by
  rcases List.append_eq_append_iff.mp h with ⟨middle, hreplicate, hback⟩ | ⟨middle, hfront, hrest⟩
  · cases middle with
    | nil => exact ⟨[], by simpa using hreplicate.symm, by simpa using hback.symm⟩
    | cons part middle =>
      obtain ⟨rfl, -⟩ := List.cons_eq_cons.mp hback
      have hmem : [] ∈ List.replicate n here := by simp [hreplicate]
      exact absurd (List.eq_of_mem_replicate hmem) (by decide)
  · exact ⟨middle, hfront, hrest⟩

theorem takesEmpty_segments_iff : TakesEmpty (segments path) ↔
    ∃ front middle back, unrooted (dropHere path) = front ++ [] :: (middle ++ up :: back) ∧
      depth? 0 middle = some 0 := by
  obtain ⟨n, hcut⟩ := exists_segments_dropHere path
  have hroot := rooted_unrooted (dropHere path)
  by_cases habsolute : (dropHere path).head? = some '/'
  · rw [decide_eq_true habsolute] at hroot
    constructor
    · rintro ⟨front, middle, back, hparts, ⟨part, hpart, hne⟩, hmiddle⟩
      obtain ⟨rest, rfl, hrest⟩ := append_eq_replicate_append (hparts.symm.trans hcut)
      cases rest with
      | nil =>
        rw [List.append_nil] at hpart
        exact absurd (List.eq_of_mem_replicate hpart) hne
      | cons first rest =>
        exact ⟨rest, middle, back, (List.cons_eq_cons.mp (hroot.trans hrest)).2, hmiddle⟩
    · rintro ⟨front, middle, back, hparts, hmiddle⟩
      refine ⟨List.replicate n here ++ [] :: front, middle, back, ?_, ⟨[], by simp, by decide⟩,
        hmiddle⟩
      rw [hcut, ← hroot, hparts, List.append_assoc]
      rfl
  · rw [decide_eq_false habsolute] at hroot
    constructor
    · rintro ⟨front, middle, back, hparts, -, hmiddle⟩
      obtain ⟨rest, -, hrest⟩ := append_eq_replicate_append (hparts.symm.trans hcut)
      exact ⟨rest, middle, back, hroot.trans hrest, hmiddle⟩
    · rintro ⟨front, middle, back, hparts, hmiddle⟩
      have hrest := hroot.symm.trans hparts
      refine ⟨List.replicate n here ++ front, middle, back, ?_, ?_, hmiddle⟩
      · rw [hcut, hrest, List.append_assoc]
      · cases front with
        | nil => exact absurd (head?_eq_slash_iff.mpr ⟨_, by simp, hrest⟩) habsolute
        | cons first front =>
          refine ⟨first, by simp, ?_⟩
          rintro rfl
          have hnil := eq_nil_of_segments_dropHere hrest
          simp at hnil

theorem hasRoot_segments_iff : HasRoot (segments path) ↔
    (dropHere path).head? = some '/' ∨
      ∃ front back, unrooted (dropHere path) = front ++ [] :: back ∧ depth? 0 front = some 0 ∧
        ∃ n, depth? 0 back = some (n + 1) := by
  obtain ⟨n, hcut⟩ := exists_segments_dropHere path
  have hroot := rooted_unrooted (dropHere path)
  by_cases habsolute : (dropHere path).head? = some '/'
  · obtain ⟨more, hne, hmore⟩ := head?_eq_slash_iff.mp habsolute
    refine ⟨fun _ => .inl habsolute, fun _ => ⟨List.replicate n here, more, ?_, .inl ⟨?_, hne⟩⟩⟩
    · rw [hcut, hmore]
    · exact fun part hpart => List.eq_of_mem_replicate hpart
  · rw [decide_eq_false habsolute] at hroot
    have hdepth : ∀ rest, depth? 0 (List.replicate n here ++ rest) = depth? 0 rest := by
      intro rest
      rw [depth?_append, depth?_replicate_here]
      rfl
    constructor
    · rintro ⟨front, back, hparts, hfront⟩
      obtain ⟨rest, rfl, hrest⟩ := append_eq_replicate_append (hparts.symm.trans hcut)
      rcases hfront with ⟨hhere, hback⟩ | ⟨hfront, hback⟩
      · -- Behind steps in place there is a root, or there are none.
        cases rest with
        | nil => exact .inl (head?_eq_slash_iff.mpr ⟨back, hback, hrest⟩)
        | cons first rest =>
          obtain rfl := hhere first (by simp)
          have hnil := eq_nil_of_segments_dropHere hrest
          simp at hnil
      · exact .inr ⟨rest, back, hroot.trans hrest, (hdepth rest).symm.trans hfront, hback⟩
    · rintro (hslash | ⟨front, back, hparts, hfront, hback⟩)
      · exact absurd hslash habsolute
      · refine ⟨List.replicate n here ++ front, back, ?_, .inr ⟨(hdepth front).trans hfront, hback⟩⟩
        rw [hcut, ← hroot, List.append_assoc]
        exact congrArg _ hparts

/-- Between other segments an empty one stands between two slashes. -/
theorem doubled_slash (h : segments path = front ++ [] :: back) (hfront : front ≠ [])
    (hback : back ≠ []) : ['/', '/'] <:+: path := by
  refine ⟨ofSegments front, ofSegments back, ?_⟩
  rw [← ofSegments_segments path, h, ofSegments_append hfront (List.cons_ne_nil _ _),
    ofSegments_cons [] hback]
  simp

theorem location_text (p : NormalPath) : location p.text = p.location.spelled := by
  have hkept : ∀ part ∈ p.location.spelled.names, IsKept part := fun part hpart =>
    p.isKept_of_mem_location part (List.mem_filter.mp hpart).1
  have hfilter : p.location.parts.filter (· ≠ []) = p.location.spelled.parts := by
    rw [Location.parts, List.filter_append, List.filter_replicate_of_pos (by decide),
      List.filter_reverse]
    rfl
  rw [location, p.segments_text, foldl_follow_eq_filter]
  split
  · rename_i hnil
    rw [NormalPath.parts, rooted] at hnil
    split at hnil
    · cases hnil
    · rw [hnil] at hfilter
      rw [← foldl_walk_parts hkept, ← hfilter]
      rfl
  · rw [NormalPath.parts, rooted]
    split
    · rw [← foldl_walk_parts hkept, ← hfilter]
      rfl
    · rw [hfilter, foldl_walk_parts hkept]

/-- Normal form begins with a slash exactly if the path has a root in the sense of `HasRoot`, and
leads to the same place exactly if no step up takes an empty segment away. Where no two slashes
stand together, it begins with a slash if the path does, and leads to the same place. -/
theorem location_normalize (path : String) :
    ((normalize path).toList.head? = some '/' ↔ HasRoot (segments path.toList)) ∧
    (location (normalize path).toList = location path.toList ↔
      ¬ TakesEmpty (segments path.toList)) ∧
    (¬ "//".toList <:+: path.toList →
      ((normalize path).toList.head? = some '/' ↔ path.toList.head? = some '/') ∧
        location (normalize path).toList = location path.toList) := by
  obtain ⟨p, hp, hspelled, habsolute⟩ := exists_normalPath path.toList
  have hslash : ∀ part ∈ unrooted (dropHere path.toList), '/' ∉ part :=
    slash_notMem_of_mem_unrooted
  have hn : (normalize path).toList = p.text := by
    rw [toList_normalize, hp]
  have hroot : (normalize path).toList.head? = some '/' ↔ HasRoot (segments path.toList) := by
    rw [hn, p.head?_text_eq_slash_iff, habsolute, empty_first_iff hslash, hasRoot_segments_iff]
  have hlocation : location (normalize path).toList = location path.toList ↔
      ¬ TakesEmpty (segments path.toList) := by
    rw [hn, location_text, hspelled, location_eq_foldl_unrooted, spelled_foldl_walk_eq_iff hslash,
      takesEmpty_segments_iff]
  refine ⟨hroot, hlocation, fun hsingle => ⟨hroot.trans ⟨?_, ?_⟩, hlocation.mpr ?_⟩⟩
  · rintro ⟨front, back, hparts, hfront⟩
    have hback : back ≠ [] := by
      rcases hfront with ⟨-, hback⟩ | ⟨-, n, hback⟩
      · exact hback
      · rintro rfl
        cases hback
    have hnil : front = [] := by
      by_contra hne
      exact hsingle (doubled_slash hparts hne hback)
    subst hnil
    exact head?_eq_slash_iff.mpr ⟨back, hback, hparts⟩
  · intro hhead
    obtain ⟨more, hne, hmore⟩ := head?_eq_slash_iff.mp hhead
    exact ⟨[], more, hmore, .inl ⟨by simp, hne⟩⟩
  · rintro ⟨front, middle, back, hparts, ⟨part, hpart, -⟩, -⟩
    exact hsingle (doubled_slash hparts (List.ne_nil_of_mem hpart) (by simp))

theorem location_normalize_climbing :
    let path := "./a/./b/../../../c/"
    let n := normalize path
    ¬ "//".toList <:+: path.toList ∧ n = "../c/" ∧
      (n.toList.head? = some '/' ↔ path.toList.head? = some '/') ∧
      location n.toList = location path.toList := by
  intro path n
  have hsingle : ¬ "//".toList <:+: path.toList := by decide +kernel
  exact ⟨hsingle, by decide +kernel, (location_normalize path).2.2 hsingle⟩

/-- A step up can take an empty segment for a name, and an empty segment can come to stand where a
root stands. -/
theorem location_normalize_doubled :
    normalize "a//.." = "a" ∧ location "a//..".toList = ⟨0, []⟩ ∧
      location "a".toList = ⟨0, ["a".toList]⟩ ∧
      normalize ".//a" = "/a" ∧ normalize "a/..//b" = "/b" := by
  decide +kernel

end TypedScript.Path
