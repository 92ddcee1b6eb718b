import TypedScript.Proofs.Path.Relative
import TypedScript.Source

/-! # The identity of a module

An import keeps the internal form of the path of a module, an export the path itself. The
two differ where the path is that of a directory or has the ending of a file. An import by
a relative path keeps the internal path of the file that the path leads to, except that a
way straight into the directory of built-in modules is taken from there.
-/

namespace TypedScript.Syntax

open TypedScript.Path

theorem internalPath_import_of_export (origin literal : String)
    (members : Option (List ExportMember)) (isDeclare : Bool)
    (bindings : Option (List ImportBinding)) (name : Identifier) (literalSpan span : Span) :
    ∃ exported, (Export.new origin members (some ⟨literal, literalSpan⟩) isDeclare
        span).internalPath = some exported ∧
      (Import.names origin bindings ⟨literal, literalSpan⟩ span).internalPath =
        Path.internal exported ∧
      (Import.wildcard origin name ⟨literal, literalSpan⟩ span).internalPath =
        Path.internal exported ∧
      (Path.internal exported = exported ↔
        ¬ ['/'] <:+ exported.toList ∧ ¬ ending <:+ exported.toList) := by
  refine ⟨modulePath origin literal, rfl, rfl, rfl, ?_⟩
  rw [← internalChars_eq_self_iff, Path.internal]
  constructor
  · intro heq
    rw [← String.toList_inj, String.toList_ofList] at heq
    exact heq
  · intro heq
    rw [heq, String.ofList_toList]

/-- A directory that is exported from is not the module that an import of it brings in. -/
theorem internalPath_export_directory :
    (Export.new "src/index" none (some ⟨"./util/", ⟨0, 0, 9⟩⟩) false ⟨0, 0, 9⟩).internalPath =
        some "src/util/" ∧
      (Import.names "src/index" none ⟨"./util/", ⟨0, 0, 9⟩⟩ ⟨0, 0, 9⟩).internalPath =
        "src/util/index" := by
  decide

/-- What keeps a way from being read as the way to its file: a file in the root has no
directory that is found, a step is no stem, and a way of steps alone keeps no `/` at its
end in its own directory or at the top. -/
structure IsReadable (spelling : Spelling) (origin target : FilePath) : Prop where
  not_inRoot : origin.isAbsolute = true → origin.directories = [] → origin.IntoStandard target
  not_step : spelling = .withoutEnding → target.stem ≠ here ∧ target.stem ≠ up
  not_bare : spelling = .directory →
    target.directories ≠ origin.directories ∧ target.folder ≠ []

variable {spelling : Spelling} {origin target : FilePath} {shared out into : List (List Char)}

theorem head?_ofSegments_lead (n : Nat) {parts : List (List Char)} (h : parts ≠ []) :
    (ofSegments (lead n ++ parts)).head? = some '.' := by
  cases n with
  | zero =>
    rw [lead, List.singleton_append, ofSegments_cons here h]
    rfl
  | succ n =>
    have hmore : List.replicate n up ++ parts ≠ [] := List.append_ne_nil_of_right_ne_nil _ h
    rw [lead, List.replicate_succ, List.cons_append, ofSegments_cons up hmore]
    rfl

theorem modulePath_of_lead {n : Nat} {parts : List (List Char)} (from_ : String) (hne : parts ≠ [])
    (hkept : ∀ part ∈ parts, IsKept part) (hhead : n = 0 → parts.head? ≠ some []) :
    modulePath from_ (String.ofList (ofSegments (lead n ++ parts))) =
      Path.resolve (String.ofList (ofSegments (List.replicate n up ++ parts))) from_ := by
  have hnormal : Path.normalize (String.ofList (ofSegments (lead n ++ parts))) =
      String.ofList (ofSegments (List.replicate n up ++ parts)) := by
    rw [Path.normalize, String.toList_ofList, normalizeChars_lead n hne hkept hhead]
  unfold modulePath
  simp only [hnormal, String.toList_ofList, head?_ofSegments_lead n hne, if_true]

theorem resolve_ofList (path : List Char) (from_ : String) :
    Path.resolve (String.ofList path) from_ =
      if "std/".toList <+: path then String.ofList path
      else String.ofList (normalizeChars (directoryChars from_.toList ++ '/' :: path)) := by
  have hpath : (String.ofList path).toList = path := String.toList_ofList
  unfold Path.resolve
  simp only [hpath, List.isPrefixOf_iff_prefix]

/-- Whichever directories that both files lie in a way goes up to, it names the file at its
end, or the file of the same name among the built-in modules. -/
theorem toList_internal_modulePath (hsame : origin.isAbsolute = target.isAbsolute)
    (hindex : spelling = .directory → target.stem = "index".toList)
    (hway : IsReadable spelling origin target) (horigin : origin.directories = shared ++ out)
    (htarget : target.directories = shared ++ into)
    (hstandard : origin.IntoStandard target ↔ out = [] ∧ into.head? = some standard) :
    (Path.internal (modulePath (Path.internal origin.text)
        (String.ofList (ofSegments
          (lead out.length ++ (into ++ [spelling.last target.stem])))))).toList =
      if origin.IntoStandard target then ofSegments (into ++ [target.stem])
      else ofSegments (target.folder ++ [target.stem]) := by
  have hname : ∀ part ∈ into, IsName part := fun part hpart =>
    target.isName_of_mem part (htarget ▸ List.mem_append_right shared hpart)
  have hlast := isKept_last target.isStem spelling hway.not_step
  have hne : into ++ [spelling.last target.stem] ≠ [] :=
    List.append_ne_nil_of_right_ne_nil _ (List.cons_ne_nil _ _)
  have hkept : ∀ part ∈ into ++ [spelling.last target.stem], IsKept part := by
    intro part hpart
    rcases List.mem_append.mp hpart with hpart | hpart
    · exact (hname part hpart).isKept
    · exact List.mem_singleton.mp hpart ▸ hlast
  have hhead : out = [] → (into ++ [spelling.last target.stem]).head? ≠ some [] := by
    rintro rfl hempty
    cases into with
    | nil =>
      obtain hbare := (last_eq_nil_iff target.isStem).mp (Option.some.inj hempty)
      exact (hway.not_bare hbare).1 (htarget.trans horigin.symm)
    | cons first into => exact (hname first List.mem_cons_self).ne_nil (Option.some.inj hempty)
  have hbuiltin := prefix_standard_iff out.length
    (fun part hpart => (hname part hpart).slash_notMem) hlast.slash_notMem
  rw [List.length_eq_zero_iff, ← hstandard] at hbuiltin
  rw [modulePath_of_lead _ hne hkept fun hzero => hhead (List.length_eq_zero_iff.mp hzero)]
  split
  · rename_i hinto
    obtain ⟨rfl, hstd⟩ := hstandard.mp hinto
    have hdown : into ≠ [] := by
      rintro rfl
      cases hstd
    rw [resolve_ofList, if_pos (hbuiltin.mpr hinto), Path.internal, String.toList_ofList,
      String.toList_ofList]
    exact internalChars_last target.isStem spelling fun hbare => ⟨hindex hbare, hdown⟩
  · rename_i hinto
    have hroot : ¬ (origin.isAbsolute = true ∧ origin.directories = []) := by
      rintro ⟨habsolute, hnil⟩
      exact hinto (hway.not_inRoot habsolute hnil)
    have hfolder : target.folder = rooted origin.isAbsolute (shared ++ into) := by
      rw [FilePath.folder, hsame, htarget]
    have hresult : ofSegments
        (rooted origin.isAbsolute (shared ++ (into ++ [spelling.last target.stem]))) ≠ [] := by
      rw [← List.append_assoc]
      refine ofSegments_rooted_concat_ne_nil fun hempty => ?_
      rw [← hfolder]
      exact (hway.not_bare ((last_eq_nil_iff target.isStem).mp hempty)).2
    rw [resolve_ofList, if_neg (mt hbuiltin.mp hinto), Path.internal, String.toList_ofList,
      String.toList_ofList, origin.toList_internal_text,
      normalizeChars_directoryChars origin horigin hroot hne hkept hhead hresult,
      ← List.append_assoc, rooted_append, ← hfolder]
    exact internalChars_last target.isStem spelling fun hbare =>
      ⟨hindex hbare, (hway.not_bare hbare).2⟩

theorem intoStandard_iff (origin target : FilePath) : origin.IntoStandard target ↔
    (apart origin.directories target.directories).1 = [] ∧
      (apart origin.directories target.directories).2.head? = some standard := by
  constructor
  · rintro ⟨rest, hrest⟩
    rw [← hrest, List.append_assoc, apart_append]
    exact ⟨rfl, rfl⟩
  · rintro ⟨hout, hinto⟩
    obtain ⟨shared, horigin, htarget⟩ := exists_shared origin.directories target.directories
    obtain ⟨rest, hrest⟩ := List.head?_eq_some_iff.mp hinto
    rw [hout, List.append_nil] at horigin
    rw [hrest, ← horigin] at htarget
    exact ⟨rest, by rw [htarget, List.append_assoc]; rfl⟩

theorem apart_snd_of_intoStandard (h : origin.IntoStandard target) :
    (apart origin.directories target.directories).2 =
      target.directories.drop origin.directories.length := by
  obtain ⟨rest, hrest⟩ := h
  rw [← hrest, List.append_assoc, apart_append, List.drop_left]

theorem folder_of_origin_top (hsame : origin.isAbsolute = target.isAbsolute)
    (h : origin.folder = []) :
    target.folder = target.directories.drop origin.directories.length := by
  unfold FilePath.folder at h ⊢
  rw [← hsame]
  cases habsolute : origin.isAbsolute with
  | true => simp [habsolute, rooted] at h
  | false =>
    rw [habsolute] at h
    rw [show origin.directories = [] from h]
    rfl

/-- An import by the way to a file keeps the internal path of the file, however the way is
written. A way straight into the directory of built-in modules is read from the top. -/
theorem internalPath_names_way (spelling : Spelling) (origin target : FilePath)
    (id id' : SourceId) (kind kind' : SourceKind) (text text' : String)
    (bindings : Option (List ImportBinding)) (literalSpan span : Span)
    (hsame : origin.isAbsolute = target.isAbsolute)
    (hindex : spelling = .directory → target.stem = "index".toList)
    (hway : IsReadable spelling origin target) :
    let o := Source.new id kind origin.text text
    let n := Source.new id' kind' target.text text'
    let top := Source.new id' kind' (target.below origin.directories.length).text text'
    let imported :=
      Import.names o.internalPath bindings ⟨way spelling origin target, literalSpan⟩ span
    ((origin.IntoStandard target → origin.folder = []) →
      imported.internalPath = n.internalPath) ∧
    (origin.IntoStandard target → imported.internalPath = top.internalPath) := by
  intro o n top imported
  obtain ⟨shared, horigin, htarget⟩ := exists_shared origin.directories target.directories
  have himported : imported.internalPath.toList =
      if origin.IntoStandard target then
        ofSegments ((apart origin.directories target.directories).2 ++ [target.stem])
      else ofSegments (target.folder ++ [target.stem]) := by
    rw [← toList_internal_modulePath hsame hindex hway horigin htarget
      (intoStandard_iff origin target), ← List.append_assoc]
    rfl
  constructor
  · intro htop
    apply String.toList_injective
    refine Eq.trans ?_ target.toList_internal_text.symm
    rw [himported]
    split
    · rename_i hinto
      rw [apart_snd_of_intoStandard hinto, folder_of_origin_top hsame (htop hinto)]
    · rfl
  · intro hinto
    apply String.toList_injective
    rw [himported, if_pos hinto, apart_snd_of_intoStandard hinto]
    exact (target.below _).toList_internal_text.symm

theorem internalPath_names_way_index :
    way .directory ⟨true, ["src".toList, "a".toList], "b".toList, by decide, by decide⟩
        ⟨true, ["src".toList, "c".toList], "index".toList, by decide, by decide⟩ = "../c/" ∧
      (Import.names (Source.new 0 .user "/src/a/b.ts" "").internalPath none
        ⟨"../c/", ⟨0, 0, 0⟩⟩ ⟨0, 0, 0⟩).internalPath =
      (Source.new 1 .user "/src/c/index.ts" "").internalPath :=
  ⟨by decide, (internalPath_names_way .directory
    ⟨true, ["src".toList, "a".toList], "b".toList, by decide, by decide⟩
    ⟨true, ["src".toList, "c".toList], "index".toList, by decide, by decide⟩
    0 1 .user .user "" "" none ⟨0, 0, 0⟩ ⟨0, 0, 0⟩ rfl (fun _ => rfl)
    ⟨by decide, by decide, by decide⟩).1 (by decide)⟩

def keptAndMeant (spelling : Spelling) (origin target : FilePath) : String × String :=
  ((Import.names (Source.new 0 .user origin.text "").internalPath none
      ⟨way spelling origin target, ⟨0, 0, 0⟩⟩ ⟨0, 0, 0⟩).internalPath,
    (Source.new 1 .user target.text "").internalPath)

/-- Each way that `internalPath_names_way` leaves out can miss its file. -/
theorem keptAndMeant_of_missed :
    keptAndMeant .withoutEnding ⟨false, ["src".toList], "index".toList, by decide, by decide⟩
        ⟨false, ["src".toList, "std".toList], "array".toList, by decide, by decide⟩ =
      ("std/array", "src/std/array") ∧
    keptAndMeant .directory ⟨false, ["src".toList], "a".toList, by decide, by decide⟩
        ⟨false, ["src".toList], "index".toList, by decide, by decide⟩ = ("src", "src/index") ∧
    keptAndMeant .directory ⟨false, ["src".toList], "a".toList, by decide, by decide⟩
        ⟨false, [], "index".toList, by decide, by decide⟩ = (".", "index") ∧
    keptAndMeant .withoutEnding ⟨true, [], "a".toList, by decide, by decide⟩
        ⟨true, [], "b".toList, by decide, by decide⟩ = ("b", "/b") ∧
    keptAndMeant .withoutEnding ⟨false, ["src".toList], "a".toList, by decide, by decide⟩
        ⟨false, ["src".toList], ".".toList, by decide, by decide⟩ = ("src", "src/.") := by
  decide

end TypedScript.Syntax
