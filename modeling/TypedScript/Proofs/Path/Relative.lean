import TypedScript.Proofs.Path.Segments

/-! # The way from one file to another

The path of a file names the directories it lies in and its stem. Read from the directory
of another file, it is a number of steps up to a directory that both lie in, and the names
of the directories from there. Normal form leaves such a way as it is, and takes the steps
where it stands behind the path of a directory.
-/

namespace TypedScript.Path

/-- The name of a directory is written as one segment, and is no step. -/
structure IsName (part : List Char) : Prop where
  ne_nil : part ≠ []
  slash_notMem : '/' ∉ part
  ne_here : part ≠ here
  ne_up : part ≠ up

/-- The name of a file without its ending, which it has only once. -/
structure IsStem (stem : List Char) : Prop where
  ne_nil : stem ≠ []
  slash_notMem : '/' ∉ stem
  not_ending : ¬ ending <:+ stem

instance (part : List Char) : Decidable (IsName part) :=
  decidable_of_iff (part ≠ [] ∧ '/' ∉ part ∧ part ≠ here ∧ part ≠ up)
    ⟨fun ⟨h, h', h'', h'''⟩ => ⟨h, h', h'', h'''⟩, fun ⟨h, h', h'', h'''⟩ => ⟨h, h', h'', h'''⟩⟩

instance (stem : List Char) : Decidable (IsStem stem) :=
  decidable_of_iff (stem ≠ [] ∧ '/' ∉ stem ∧ ¬ ending <:+ stem)
    ⟨fun ⟨h, h', h''⟩ => ⟨h, h', h''⟩, fun ⟨h, h', h''⟩ => ⟨h, h', h''⟩⟩

structure FilePath where
  isAbsolute : Bool
  directories : List (List Char)
  stem : List Char
  isName_of_mem : ∀ part ∈ directories, IsName part
  isStem : IsStem stem

def rooted (isAbsolute : Bool) (parts : List (List Char)) : List (List Char) :=
  if isAbsolute then [] :: parts else parts

namespace FilePath

def folder (p : FilePath) : List (List Char) :=
  rooted p.isAbsolute p.directories

def text (p : FilePath) : String :=
  String.ofList (ofSegments (p.folder ++ [p.stem ++ ending]))

end FilePath

/-- How a way ends: with the name of the file, with its stem, or, where the file is the
index of its directory, with the directory. -/
inductive Spelling where
  | withEnding | withoutEnding | directory
deriving DecidableEq, Repr

def Spelling.last (stem : List Char) : Spelling → List Char
  | .withEnding => stem ++ ending
  | .withoutEnding => stem
  | .directory => []

/-- What is left of two lists behind the directories that both begin with. -/
def apart : List (List Char) → List (List Char) → List (List Char) × List (List Char)
  | a :: as, b :: bs => if a = b then apart as bs else (a :: as, b :: bs)
  | as, bs => (as, bs)

def lead : Nat → List (List Char)
  | 0 => [here]
  | n + 1 => List.replicate (n + 1) up

def way (spelling : Spelling) (origin target : FilePath) : String :=
  let (out, into) := apart origin.directories target.directories
  String.ofList (ofSegments (lead out.length ++ into ++ [spelling.last target.stem]))

/-- The directory of built-in modules, which are named from it whatever file names them. -/
def standard : List Char := "std".toList

namespace FilePath

/-- Below the directory of `origin`, the path of `target` goes on through that of built-in
modules. -/
def IntoStandard (origin target : FilePath) : Prop :=
  origin.directories ++ [standard] <+: target.directories

instance (origin target : FilePath) : Decidable (origin.IntoStandard target) :=
  inferInstanceAs (Decidable (origin.directories ++ [standard] <+: target.directories))

def below (n : Nat) (p : FilePath) : FilePath where
  isAbsolute := false
  directories := p.directories.drop n
  stem := p.stem
  isName_of_mem part hpart := p.isName_of_mem part (List.mem_of_mem_drop hpart)
  isStem := p.isStem

end FilePath

example : way .withoutEnding ⟨false, ["a".toList, "b".toList], "x".toList, by decide, by decide⟩
    ⟨false, ["a".toList, "c".toList], "y".toList, by decide, by decide⟩ = "../c/y" := by
  decide

variable {isAbsolute : Bool} {shared out parts : List (List Char)} {part stem : List Char}

theorem IsName.isKept (h : IsName part) : IsKept part :=
  ⟨h.slash_notMem, h.ne_here, h.ne_up⟩

theorem rooted_append (isAbsolute : Bool) (parts more : List (List Char)) :
    rooted isAbsolute (parts ++ more) = rooted isAbsolute parts ++ more := by
  cases isAbsolute <;> rfl

theorem isKept_of_mem_rooted (h : ∀ part ∈ parts, IsName part)
    (hpart : part ∈ rooted isAbsolute parts) : IsKept part := by
  cases isAbsolute with
  | false => exact (h part hpart).isKept
  | true =>
    rcases List.mem_cons.mp hpart with rfl | hpart
    · exact isKept_nil
    · exact (h part hpart).isKept

theorem ofSegments_rooted_concat_ne_nil (h : part = [] → rooted isAbsolute parts ≠ []) :
    ofSegments (rooted isAbsolute (parts ++ [part])) ≠ [] := by
  rw [rooted_append]
  refine ofSegments_ne_nil (List.append_ne_nil_of_right_ne_nil _ (List.cons_ne_nil _ _)) ?_
  intro heq
  rcases List.append_eq_singleton_iff.mp heq with ⟨hparts, hpart⟩ | ⟨-, hpart⟩
  · exact h (List.cons_eq_cons.mp hpart).1 hparts
  · cases hpart

theorem slash_notMem_steps (n : Nat) (h : ∀ part ∈ parts, '/' ∉ part) :
    ∀ part ∈ List.replicate n up ++ parts, '/' ∉ part := by
  intro part hpart
  rcases List.mem_append.mp hpart with hpart | hpart
  · rw [List.eq_of_mem_replicate hpart]
    decide
  · exact h part hpart

theorem normalizeChars_replicate_up (n : Nat) (hne : parts ≠ [])
    (hkept : ∀ part ∈ parts, IsKept part) (hhead : n = 0 → parts.head? ≠ some []) :
    normalizeChars (ofSegments (List.replicate n up ++ parts)) =
      ofSegments (List.replicate n up ++ parts) := by
  cases n with
  | zero =>
    obtain ⟨first, more, rfl⟩ := List.exists_cons_of_ne_nil hne
    obtain ⟨hfirst, hmore⟩ := List.forall_mem_cons.mp hkept
    have hname : first ≠ [] := fun heq => hhead rfl (congrArg some heq)
    refine normalizeChars_ofSegments false (fun part hpart => (hkept part hpart).slash_notMem)
      hfirst.ne_here (by simp [hname]) ?_ (ofSegments_ne_nil hne (by simp [hname]))
    rw [foldl_keep_of_isKept false [first] hmore]
    exact (List.reverse_cons ..).symm
  | succ n =>
    have hslash := slash_notMem_steps (n + 1) fun part hpart => (hkept part hpart).slash_notMem
    have hup : up ≠ [] := List.cons_ne_nil _ _
    rw [List.replicate_succ, List.cons_append] at hslash ⊢
    refine normalizeChars_ofSegments false hslash (by decide) (by simp [hup]) ?_
      (ofSegments_ne_nil (List.cons_ne_nil _ _) (by simp [hup]))
    rw [List.foldl_append, foldl_keep_up_up, foldl_keep_of_isKept false _ hkept, ← List.cons_append,
      ← List.replicate_succ, List.reverse_append, List.reverse_replicate, List.replicate_succ']

theorem normalizeChars_lead (n : Nat) (hne : parts ≠ [])
    (hkept : ∀ part ∈ parts, IsKept part) (hhead : n = 0 → parts.head? ≠ some []) :
    normalizeChars (ofSegments (lead n ++ parts)) = ofSegments (List.replicate n up ++ parts) := by
  cases n with
  | zero =>
    exact (normalizeChars_here_cons hne).trans (normalizeChars_replicate_up 0 hne hkept hhead)
  | succ n => exact normalizeChars_replicate_up (n + 1) hne hkept hhead

/-- Behind the path of a directory, steps up take its last names away. -/
theorem normalizeChars_rooted (hfolder : rooted isAbsolute (shared ++ out) ≠ [])
    (hname : ∀ part ∈ shared ++ out, IsName part) (hne : parts ≠ [])
    (hkept : ∀ part ∈ parts, IsKept part)
    (hresult : ofSegments (rooted isAbsolute (shared ++ parts)) ≠ []) :
    normalizeChars (ofSegments
        (rooted isAbsolute (shared ++ out) ++ (List.replicate out.length up ++ parts))) =
      ofSegments (rooted isAbsolute (shared ++ parts)) := by
  -- The names pile up with the last on top, and the steps take those of `out` off again; an
  -- absolute path keeps its root below them.
  have hfolderKept : ∀ part ∈ rooted isAbsolute (shared ++ out), IsKept part :=
    fun part => isKept_of_mem_rooted hname
  have hreverse : (rooted isAbsolute (shared ++ out)).reverse =
      out.reverse ++ (rooted isAbsolute shared).reverse := by
    rw [rooted_append, List.reverse_append]
  obtain ⟨first, rest, hcons⟩ := List.exists_cons_of_ne_nil hfolder
  have hroot : isAbsolute = true ↔ first = [] := by
    cases isAbsolute with
    | false =>
      have hmem : first ∈ rooted false (shared ++ out) := hcons ▸ List.mem_cons_self
      simp [(hname first hmem).ne_nil]
    | true => simp [(List.cons_eq_cons.mp hcons).1.symm]
  have hsplit : rooted isAbsolute (shared ++ out) ++ (List.replicate out.length up ++ parts) =
      first :: (rest ++ (List.replicate out.length up ++ parts)) := by
    rw [hcons]
    rfl
  have hslash : ∀ part ∈ rooted isAbsolute (shared ++ out) ++
      (List.replicate out.length up ++ parts), '/' ∉ part := by
    intro part hpart
    rcases List.mem_append.mp hpart with hpart | hpart
    · exact (hfolderKept part hpart).slash_notMem
    · exact slash_notMem_steps out.length (fun part hpart => (hkept part hpart).slash_notMem) part
        hpart
  rw [hcons] at hfolderKept hreverse
  obtain ⟨hfirst, hrest⟩ := List.forall_mem_cons.mp hfolderKept
  rw [hsplit] at hslash ⊢
  refine normalizeChars_ofSegments isAbsolute hslash hfirst.ne_here ?_ ?_ hresult
  · simp [hroot, hne]
  · have hout : ∀ part ∈ out.reverse, part ≠ up := fun part hpart =>
      (hname part (List.mem_append_right _ (List.mem_reverse.mp hpart))).ne_up
    have hbase : isAbsolute = true → (rooted isAbsolute shared).reverse ≠ [] := by
      rintro rfl
      simp [rooted]
    have htaken := foldl_keep_up hout hbase
    rw [List.length_reverse] at htaken
    rw [List.foldl_append, List.foldl_append, foldl_keep_of_isKept isAbsolute [first] hrest,
      ← List.reverse_cons, hreverse, htaken, foldl_keep_of_isKept isAbsolute _ hkept,
      rooted_append, List.reverse_append]

theorem isKept_last (h : IsStem stem) (spelling : Spelling)
    (hstep : spelling = .withoutEnding → stem ≠ here ∧ stem ≠ up) :
    IsKept (spelling.last stem) := by
  cases spelling with
  | withEnding =>
    have hlast : (stem ++ ending).getLast? = some 's' := by
      rw [List.getLast?_append]
      rfl
    have hne : ∀ step : List Char, step.getLast? ≠ some 's' → stem ++ ending ≠ step := by
      rintro _ hstep rfl
      exact hstep hlast
    refine ⟨?_, hne here (by decide), hne up (by decide)⟩
    rw [Spelling.last, List.mem_append, not_or]
    exact ⟨h.slash_notMem, by decide⟩
  | withoutEnding => exact ⟨h.slash_notMem, (hstep rfl).1, (hstep rfl).2⟩
  | directory => exact isKept_nil

theorem last_eq_nil_iff (h : IsStem stem) {spelling : Spelling} :
    spelling.last stem = [] ↔ spelling = .directory := by
  cases spelling with
  | withEnding => simp [Spelling.last, h.ne_nil]
  | withoutEnding => simp [Spelling.last, h.ne_nil]
  | directory => simp [Spelling.last]

theorem exists_shared (as bs : List (List Char)) :
    ∃ shared, as = shared ++ (apart as bs).1 ∧ bs = shared ++ (apart as bs).2 := by
  induction as generalizing bs with
  | nil => exact ⟨[], rfl, by cases bs <;> rfl⟩
  | cons a as ih =>
    cases bs with
    | nil => exact ⟨[], rfl, rfl⟩
    | cons b bs =>
      rw [apart]
      split
      · rename_i heq
        subst heq
        obtain ⟨shared, has, hbs⟩ := ih bs
        exact ⟨a :: shared, congrArg (a :: ·) has, congrArg (a :: ·) hbs⟩
      · exact ⟨[], rfl, rfl⟩

theorem apart_append (as bs : List (List Char)) : apart as (as ++ bs) = ([], bs) := by
  induction as with
  | nil => cases bs <;> rfl
  | cons a as ih =>
    rw [List.cons_append, apart, if_pos rfl]
    exact ih

/-- Only a way that goes straight into it leads to a built-in module. -/
theorem prefix_standard_iff (n : Nat) (hslash : ∀ part ∈ parts, '/' ∉ part) (hpart : '/' ∉ part) :
    "std/".toList <+: ofSegments (List.replicate n up ++ (parts ++ [part])) ↔
      n = 0 ∧ parts.head? = some standard := by
  have hname : '/' ∉ standard := by decide
  have hall : ∀ other ∈ parts ++ [part], '/' ∉ other := by
    intro other hother
    rcases List.mem_append.mp hother with hother | hother
    · exact hslash other hother
    · exact List.mem_singleton.mp hother ▸ hpart
  refine (prefix_ofSegments_iff hname (slash_notMem_steps n hall)).trans ?_
  cases n with
  | zero =>
    constructor
    · rintro ⟨more, hmore, heq⟩
      cases parts with
      | nil => exact absurd (List.cons_eq_cons.mp heq).2.symm hmore
      | cons first parts => exact ⟨rfl, congrArg some (List.cons_eq_cons.mp heq).1⟩
    · rintro ⟨-, hhead⟩
      obtain ⟨parts, rfl⟩ := List.head?_eq_some_iff.mp hhead
      exact ⟨parts ++ [part], List.append_ne_nil_of_right_ne_nil _ (List.cons_ne_nil _ _), rfl⟩
  | succ n =>
    constructor
    · rintro ⟨more, -, heq⟩
      exact absurd (List.cons_eq_cons.mp heq).1 (by decide)
    · rintro ⟨hzero, -⟩
      cases hzero

/-- The internal path of a file is that of its stem, however the way to it is written. -/
theorem internalChars_last (h : IsStem stem) (spelling : Spelling)
    (hindex : spelling = .directory → stem = "index".toList ∧ parts ≠ []) :
    internalChars (ofSegments (parts ++ [spelling.last stem])) = ofSegments (parts ++ [stem]) := by
  obtain ⟨front, hfront, hempty, hslash⟩ := exists_front parts
  rw [hfront, hfront]
  cases spelling with
  | withEnding => rw [Spelling.last, ← List.append_assoc, internalChars_append_ending]
  | directory =>
    obtain ⟨rfl, hparts⟩ := hindex rfl
    rw [Spelling.last, List.append_nil, internalChars_of_slash (hslash hparts)]
  | withoutEnding =>
    refine internalChars_eq_self_iff.mpr ⟨?_, ?_⟩
    · intro hend
      rcases List.suffix_or_suffix_of_suffix hend (List.suffix_append front stem) with hin | hin
      · exact h.slash_notMem (hin.subset List.mem_cons_self)
      · rcases List.suffix_cons_iff.mp hin with heq | hnil
        · exact h.slash_notMem (heq ▸ List.mem_cons_self)
        · exact h.ne_nil (List.suffix_nil.mp hnil)
    · -- An ending longer than the stem would have the `/` in front of the stem inside.
      intro hend
      rcases List.suffix_or_suffix_of_suffix hend (List.suffix_append front stem) with hin | hin
      · exact h.not_ending hin
      · rcases hempty with rfl | ⟨before, rfl⟩
        · exact h.not_ending hend
        · have hlong : '/' :: stem <:+ (before ++ ['/']) ++ stem := by
            rw [List.append_assoc]
            exact List.suffix_append _ _
          rcases List.suffix_or_suffix_of_suffix hend hlong with hin' | hin'
          · rcases List.suffix_cons_iff.mp hin' with heq | hin'
            · cases heq
            · exact h.not_ending hin'
          · have hslash : '/' ∈ ending := hin'.subset List.mem_cons_self
            exact absurd hslash (by decide)

namespace FilePath

/-- The internal path of a file is its path up to the stem. -/
theorem toList_internal_text (p : FilePath) :
    (internal p.text).toList = ofSegments (p.folder ++ [p.stem]) := by
  rw [internal, text, String.toList_ofList, String.toList_ofList]
  exact internalChars_last p.isStem .withEnding (by simp)

theorem directoryChars_of_folder_eq_nil (p : FilePath) (h : p.folder = []) :
    directoryChars (ofSegments (p.folder ++ [p.stem])) = here := by
  rw [h, List.nil_append, ofSegments_singleton]
  exact directoryChars_of_notMem p.isStem.ne_nil p.isStem.slash_notMem

theorem directoryChars_of_folder (p : FilePath) (h : p.folder ≠ []) (hroot : p.folder ≠ [[]]) :
    directoryChars (ofSegments (p.folder ++ [p.stem])) = ofSegments p.folder := by
  rw [ofSegments_append h (List.cons_ne_nil _ _), ofSegments_singleton]
  exact directoryChars_append (ofSegments_ne_nil h hroot) p.isStem.slash_notMem

end FilePath

/-- Read from the directory of a file, a way out of some of its directories leads through
the others. -/
theorem normalizeChars_directoryChars (origin : FilePath)
    (hdirectories : origin.directories = shared ++ out)
    (hroot : ¬ (origin.isAbsolute = true ∧ origin.directories = [])) (hne : parts ≠ [])
    (hkept : ∀ part ∈ parts, IsKept part) (hhead : out = [] → parts.head? ≠ some [])
    (hresult : ofSegments (rooted origin.isAbsolute (shared ++ parts)) ≠ []) :
    normalizeChars (directoryChars (ofSegments (origin.folder ++ [origin.stem])) ++
        '/' :: ofSegments (List.replicate out.length up ++ parts)) =
      ofSegments (rooted origin.isAbsolute (shared ++ parts)) := by
  have hsteps : List.replicate out.length up ++ parts ≠ [] :=
    List.append_ne_nil_of_right_ne_nil _ hne
  have hname := origin.isName_of_mem
  have hfolder : origin.folder = rooted origin.isAbsolute (shared ++ out) := by
    rw [FilePath.folder, hdirectories]
  rw [hdirectories] at hname hroot
  by_cases hnil : origin.folder = []
  · obtain ⟨rfl, rfl⟩ : shared = [] ∧ out = [] := by
      rw [hfolder] at hnil
      cases habs : origin.isAbsolute with
      | false => simpa [habs, rooted] using hnil
      | true => simp [habs, rooted] at hnil
    have hrelative : origin.isAbsolute = false := by simpa using hroot
    rw [origin.directoryChars_of_folder_eq_nil hnil, ← ofSegments_cons here hsteps, hrelative]
    exact normalizeChars_lead 0 hne hkept fun _ => hhead rfl
  · have hdeep : origin.folder ≠ [[]] := by
      rw [hfolder]
      cases habs : origin.isAbsolute with
      | false =>
        intro heq
        have hmem : [] ∈ shared ++ out := by
          rw [show shared ++ out = [[]] from heq]
          exact List.mem_cons_self
        exact (hname [] hmem).ne_nil rfl
      | true =>
        intro heq
        exact hroot ⟨habs, (List.cons_eq_cons.mp heq).2⟩
    rw [origin.directoryChars_of_folder hnil hdeep, ← ofSegments_append hnil hsteps]
    rw [hfolder] at hnil ⊢
    exact normalizeChars_rooted hnil hname hne hkept hresult

end TypedScript.Path
