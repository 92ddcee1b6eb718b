import TypedScript.Path

/-! # Paths as lists of segments

A path is the list of its segments: cutting at each `/` undoes the writing of a list whose
segments have none inside. Normal form is then a fold over this list, in which names are
kept in order, a step here is dropped, and a step up takes away the name before it.
-/

namespace TypedScript.Path

def here : List Char := ['.']

def up : List Char := ['.', '.']

variable {part first : List Char} {parts more : List (List Char)} {absolute : Bool}

@[simp] theorem ofSegments_singleton (part : List Char) : ofSegments [part] = part := by
  simp [ofSegments]

theorem ofSegments_cons (part : List Char) (h : more ≠ []) :
    ofSegments (part :: more) = part ++ '/' :: ofSegments more := by
  obtain ⟨next, rest, rfl⟩ := List.exists_cons_of_ne_nil h
  simp [ofSegments, List.intercalate_cons_cons]

theorem ofSegments_append (hparts : parts ≠ []) (hmore : more ≠ []) :
    ofSegments (parts ++ more) = ofSegments parts ++ '/' :: ofSegments more := by
  induction parts with
  | nil => exact absurd rfl hparts
  | cons part parts ih =>
    cases parts with
    | nil => rw [ofSegments_singleton, List.singleton_append, ofSegments_cons part hmore]
    | cons next parts =>
      have hlong : next :: parts ++ more ≠ [] := List.cons_ne_nil _ _
      rw [List.cons_append, ofSegments_cons part hlong, ih (List.cons_ne_nil _ _),
        ofSegments_cons part (List.cons_ne_nil next parts), List.append_assoc]
      rfl

theorem segments_ne_nil (path : List Char) : segments path ≠ [] := by
  cases path with
  | nil => exact List.cons_ne_nil _ _
  | cons c path =>
    rw [segments]
    split
    · exact List.cons_ne_nil _ _
    · split <;> exact List.cons_ne_nil _ _

theorem segments_of_notMem (h : '/' ∉ part) : segments part = [part] := by
  induction part with
  | nil => rfl
  | cons c part ih =>
    obtain ⟨hc, hpart⟩ := not_or.mp (mt List.mem_cons.mpr h)
    rw [segments, if_neg (Ne.symm hc), ih hpart]

theorem segments_append (part rest : List Char) (h : '/' ∉ part) :
    segments (part ++ '/' :: rest) = part :: segments rest := by
  induction part with
  | nil => rfl
  | cons c part ih =>
    obtain ⟨hc, hpart⟩ := not_or.mp (mt List.mem_cons.mpr h)
    rw [List.cons_append, segments, if_neg (Ne.symm hc), ih hpart]

theorem segments_ofSegments (hne : parts ≠ []) (hslash : ∀ part ∈ parts, '/' ∉ part) :
    segments (ofSegments parts) = parts := by
  induction parts with
  | nil => exact absurd rfl hne
  | cons part parts ih =>
    obtain ⟨hpart, hmore⟩ := List.forall_mem_cons.mp hslash
    cases parts with
    | nil => rw [ofSegments_singleton, segments_of_notMem hpart]
    | cons next parts =>
      rw [ofSegments_cons part (List.cons_ne_nil _ _), segments_append _ _ hpart,
        ih (List.cons_ne_nil _ _) hmore]

theorem ofSegments_segments (path : List Char) : ofSegments (segments path) = path := by
  induction path with
  | nil => exact ofSegments_singleton []
  | cons c path ih =>
    obtain ⟨first, more, hcut⟩ := List.exists_cons_of_ne_nil (segments_ne_nil path)
    rw [segments]
    split
    · rename_i hc
      rw [ofSegments_cons [] (segments_ne_nil path), ih, hc]
      rfl
    · rw [hcut] at ih ⊢
      cases more with
      | nil => simpa using ih
      | cons next more =>
        rw [ofSegments_cons _ (List.cons_ne_nil _ _)] at ih ⊢
        rw [List.cons_append, ih]

theorem slash_notMem_of_mem_segments {path : List Char} :
    ∀ part ∈ segments path, '/' ∉ part := by
  induction path with
  | nil => simp [segments]
  | cons c path ih =>
    obtain ⟨first, more, hcut⟩ := List.exists_cons_of_ne_nil (segments_ne_nil path)
    rw [segments]
    split
    · exact List.forall_mem_cons.mpr ⟨List.not_mem_nil, ih⟩
    · rename_i hc
      rw [hcut, List.forall_mem_cons] at ih
      rw [hcut]
      refine List.forall_mem_cons.mpr ⟨?_, ih.2⟩
      rw [List.mem_cons, not_or]
      exact ⟨Ne.symm hc, ih.1⟩

theorem ofSegments_ne_nil (hne : parts ≠ []) (hroot : parts ≠ [[]]) : ofSegments parts ≠ [] := by
  cases parts with
  | nil => exact absurd rfl hne
  | cons part parts =>
    cases parts with
    | nil =>
      rw [ofSegments_singleton]
      rintro rfl
      exact hroot rfl
    | cons next parts =>
      rw [ofSegments_cons part (List.cons_ne_nil _ _)]
      exact List.append_ne_nil_of_right_ne_nil _ (List.cons_ne_nil _ _)

/-- The last segment stands behind a text that does not depend on it. -/
theorem exists_front (parts : List (List Char)) : ∃ front,
    (∀ part, ofSegments (parts ++ [part]) = front ++ part) ∧ (front = [] ∨ ['/'] <:+ front) ∧
      (parts ≠ [] → ['/'] <:+ front) := by
  by_cases hparts : parts = []
  · subst hparts
    exact ⟨[], fun part => ofSegments_singleton part, .inl rfl, fun hne => absurd rfl hne⟩
  · have hslash : ['/'] <:+ ofSegments parts ++ ['/'] := List.suffix_append _ _
    refine ⟨ofSegments parts ++ ['/'], fun part => ?_, .inr hslash, fun _ => hslash⟩
    rw [ofSegments_append hparts (List.cons_ne_nil _ _), ofSegments_singleton, List.append_assoc]
    rfl

/-- A segment that is no step, so that normal form keeps it. -/
structure IsKept (part : List Char) : Prop where
  slash_notMem : '/' ∉ part
  ne_here : part ≠ here
  ne_up : part ≠ up

theorem isKept_nil : IsKept [] :=
  ⟨List.not_mem_nil, by decide, by decide⟩

theorem keep_of_isKept (absolute : Bool) (kept : List (List Char)) (h : IsKept part) :
    keep absolute kept part = part :: kept := by
  unfold keep
  exact (if_neg h.ne_here).trans (if_neg h.ne_up)

theorem keep_up {last : List Char} (hlast : last ≠ up) (habsolute : absolute = true → more ≠ []) :
    keep absolute (last :: more) up = more := by
  have hroot : ¬ (last = ['.', '.'] ∨ (absolute ∧ more = [])) := by
    rintro (heq | ⟨habs, hnil⟩)
    · exact hlast heq
    · exact habsolute habs hnil
  exact if_neg hroot

theorem foldl_keep_of_isKept (absolute : Bool) (kept : List (List Char))
    (h : ∀ part ∈ parts, IsKept part) :
    parts.foldl (keep absolute) kept = parts.reverse ++ kept := by
  induction parts generalizing kept with
  | nil => rfl
  | cons part parts ih =>
    obtain ⟨hpart, hmore⟩ := List.forall_mem_cons.mp h
    rw [List.foldl_cons, keep_of_isKept absolute kept hpart, ih _ hmore, List.reverse_cons,
      List.append_assoc, List.singleton_append]

/-- As many steps up as there are names in front take these names away. -/
theorem foldl_keep_up {left base : List (List Char)} (h : ∀ part ∈ left, part ≠ up)
    (habsolute : absolute = true → base ≠ []) :
    (List.replicate left.length up).foldl (keep absolute) (left ++ base) = base := by
  induction left with
  | nil => rfl
  | cons last left ih =>
    obtain ⟨hlast, hleft⟩ := List.forall_mem_cons.mp h
    have hbase : absolute = true → left ++ base ≠ [] := fun habs hnil =>
      habsolute habs (List.append_eq_nil_iff.mp hnil).2
    rw [List.length_cons, List.replicate_succ, List.foldl_cons, List.cons_append,
      keep_up hlast hbase, ih hleft]

/-- Steps up behind another one have nothing to take away. -/
theorem foldl_keep_up_up (absolute : Bool) (n : Nat) (base : List (List Char)) :
    (List.replicate n up).foldl (keep absolute) (up :: base) =
      List.replicate n up ++ up :: base := by
  induction n generalizing base with
  | zero => rfl
  | succ n ih =>
    have hkeep : keep absolute (up :: base) up = up :: up :: base := rfl
    rw [List.replicate_succ, List.foldl_cons, hkeep, ih, ← List.replicate_succ,
      List.replicate_succ', List.append_assoc]
    rfl

theorem dropHere_of_not_prefix {path : List Char} (h : ¬ ['.', '/'] <+: path) :
    dropHere path = path := by
  unfold dropHere
  split
  · exact absurd ⟨_, rfl⟩ h
  · rfl

/-- A text up to its first `/` is the first segment of several. -/
theorem prefix_ofSegments_iff {name : List Char} (hname : '/' ∉ name)
    (hslash : ∀ part ∈ parts, '/' ∉ part) :
    name ++ ['/'] <+: ofSegments parts ↔ ∃ more, more ≠ [] ∧ parts = name :: more := by
  constructor
  · rintro ⟨rest, hrest⟩
    rw [List.append_assoc] at hrest
    have hcut : segments (ofSegments parts) = name :: segments rest := by
      rw [← hrest]
      exact segments_append name rest hname
    have hne : parts ≠ [] := by
      rintro rfl
      exact List.append_ne_nil_of_right_ne_nil name (List.cons_ne_nil _ _) hrest
    rw [segments_ofSegments hne hslash] at hcut
    exact ⟨segments rest, segments_ne_nil rest, hcut⟩
  · rintro ⟨more, hmore, rfl⟩
    rw [ofSegments_cons name hmore]
    exact ⟨ofSegments more, List.append_assoc ..⟩

/-- A path is absolute if its first segment is empty and others follow it. -/
theorem head?_ofSegments_eq_slash_iff (hslash : '/' ∉ first) :
    (ofSegments (first :: more)).head? = some '/' ↔ first = [] ∧ more ≠ [] := by
  cases more with
  | nil =>
    rw [ofSegments_singleton]
    constructor
    · intro hhead
      exact absurd (List.mem_of_head? hhead) hslash
    · rintro ⟨-, hne⟩
      exact absurd rfl hne
  | cons next more =>
    rw [ofSegments_cons first (List.cons_ne_nil _ _)]
    cases first with
    | nil => simp
    | cons c first =>
      constructor
      · intro hhead
        exact absurd (List.mem_cons.mpr (.inl (Option.some.inj hhead).symm)) hslash
      · rintro ⟨hnil, -⟩
        cases hnil

/-- The normal form of a written list is written from the segments that are kept of it. -/
theorem normalizeChars_ofSegments (absolute : Bool) {kept : List (List Char)}
    (hslash : ∀ part ∈ first :: more, '/' ∉ part) (hfirst : first ≠ here)
    (habsolute : absolute = true ↔ first = [] ∧ more ≠ [])
    (hkept : more.foldl (keep absolute) [first] = kept.reverse) (hne : ofSegments kept ≠ []) :
    normalizeChars (ofSegments (first :: more)) = ofSegments kept := by
  have hfirstSlash := hslash first List.mem_cons_self
  have hdrop : dropHere (ofSegments (first :: more)) = ofSegments (first :: more) := by
    have hhere : '/' ∉ here := by decide
    refine dropHere_of_not_prefix fun hprefix => hfirst ?_
    obtain ⟨_, -, heq⟩ := (prefix_ofSegments_iff hhere hslash).mp hprefix
    exact (List.cons_eq_cons.mp heq).1
  have habs : decide ((ofSegments (first :: more)).head? = some '/') = absolute := by
    rw [Bool.eq_iff_iff, decide_eq_true_iff, head?_ofSegments_eq_slash_iff hfirstSlash, habsolute]
  unfold normalizeChars
  simp only [hdrop, habs, segments_ofSegments (List.cons_ne_nil _ _) hslash, hkept,
    List.reverse_reverse]

theorem normalizeChars_here_cons (hne : more ≠ []) :
    normalizeChars (ofSegments (here :: more)) = normalizeChars (ofSegments more) := by
  rw [ofSegments_cons here hne]
  rfl

theorem dropWhile_reverse_append (h : '/' ∉ part) (rest : List Char) :
    (part.reverse ++ rest).dropWhile (· ≠ '/') = rest.dropWhile (· ≠ '/') := by
  refine List.dropWhile_append_of_pos fun c hc => decide_eq_true ?_
  rintro rfl
  exact h (List.mem_reverse.mp hc)

theorem beforeLastSlash?_append (before : List Char) (h : '/' ∉ part) :
    beforeLastSlash? (before ++ '/' :: part) = some before := by
  have hreverse : (before ++ '/' :: part).reverse = part.reverse ++ '/' :: before.reverse := by
    simp
  rw [beforeLastSlash?, hreverse, dropWhile_reverse_append h, List.dropWhile_cons_of_neg (by simp)]
  exact congrArg some (List.reverse_reverse before)

theorem beforeLastSlash?_of_notMem (h : '/' ∉ part) : beforeLastSlash? part = none := by
  have hall := dropWhile_reverse_append h []
  rw [List.append_nil] at hall
  rw [beforeLastSlash?, hall]
  rfl

theorem directoryChars_append {folder : List Char} (hne : folder ≠ []) (h : '/' ∉ part) :
    directoryChars (folder ++ '/' :: part) = folder := by
  obtain ⟨c, folder, rfl⟩ := List.exists_cons_of_ne_nil hne
  rw [List.cons_append, directoryChars]
  · rw [beforeLastSlash?_append folder h]
  · intro _ heq
    exact List.append_ne_nil_of_right_ne_nil folder (List.cons_ne_nil _ _) heq

theorem directoryChars_of_notMem (hne : part ≠ []) (h : '/' ∉ part) :
    directoryChars part = here := by
  obtain ⟨c, part, rfl⟩ := List.exists_cons_of_ne_nil hne
  obtain ⟨hc, hpart⟩ := not_or.mp (mt List.mem_cons.mpr h)
  rw [directoryChars]
  · rw [beforeLastSlash?_of_notMem hpart]
    rfl
  · intro heq _
    exact absurd heq.symm hc

def ending : List Char := ['.', 't', 's']

theorem internalChars_of_slash {path : List Char} (h : ['/'] <:+ path) :
    internalChars path = path ++ "index".toList :=
  if_pos (List.isSuffixOf_iff_suffix.mpr h)

theorem internalChars_append_ending (path : List Char) : internalChars (path ++ ending) = path := by
  have hslash : ¬ ['/'] <:+ path ++ ending := by
    rintro ⟨before, hbefore⟩
    have hlast := congrArg List.getLast? hbefore
    rw [List.getLast?_append, List.getLast?_append] at hlast
    cases hlast
  have hending : ending <:+ path ++ ending := List.suffix_append _ _
  have hdrop : dropEnding? ending (path ++ ending) = some path := by
    rw [dropEnding?, if_pos (List.isSuffixOf_iff_suffix.mpr hending), List.length_append,
      Nat.add_sub_cancel, List.take_left]
  have hinternal : internalChars (path ++ ending) = (dropEnding? ending (path ++ ending)).getD _ :=
    if_neg (by rwa [List.isSuffixOf_iff_suffix])
  rw [hinternal, hdrop]
  rfl

/-- Internal form leaves a path alone if it is neither that of a directory nor has the ending. -/
theorem internalChars_eq_self_iff {path : List Char} :
    internalChars path = path ↔ ¬ ['/'] <:+ path ∧ ¬ ending <:+ path := by
  constructor
  · intro h
    constructor
    · intro hslash
      rw [internalChars_of_slash hslash] at h
      exact absurd (List.append_cancel_left (h.trans (List.append_nil path).symm)) (by decide)
    · rintro ⟨before, rfl⟩
      rw [internalChars_append_ending] at h
      exact absurd (List.append_cancel_left ((List.append_nil before).trans h)) (by decide)
  · rintro ⟨hslash, hending⟩
    have hinternal : internalChars path = (dropEnding? ending path).getD path :=
      if_neg (by rwa [List.isSuffixOf_iff_suffix])
    have hdrop : dropEnding? ending path = none :=
      if_neg (by rwa [List.isSuffixOf_iff_suffix])
    rw [hinternal, hdrop]
    rfl

end TypedScript.Path
