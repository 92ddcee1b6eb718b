import TypedScript.Diagnostic.Message

/-! # Arguments in a template

A template has at most one place, and it is for the first argument. Places are filled one after
the other, so those of the other arguments are looked for in what the first one brought. A
message has the first argument as it was given, whatever comes with it, exactly if that argument
spells none of the other places.
-/

namespace TypedScript.Diagnostic

variable {hole argument front text back : List Char} {entries : List (List Char × List Char)}

def IsHole (hole : List Char) : Prop :=
  ∃ inside, hole = '\x7b' :: (inside ++ ['\x7d'])

theorem isHole_of_mem_holes : ∀ hole ∈ holes, IsHole hole := by
  simp only [holes, List.forall_mem_cons]
  exact ⟨⟨['0'], rfl⟩, ⟨['1'], rfl⟩, ⟨['2'], rfl⟩, fun _ h => absurd h List.not_mem_nil⟩

namespace IsHole

theorem ne_nil (h : IsHole hole) : hole ≠ [] := by
  obtain ⟨inside, rfl⟩ := h
  exact List.cons_ne_nil _ _

theorem not_infix_of_notMem (h : IsHole hole) (htext : '\x7b' ∉ text) : ¬ hole <:+: text := by
  obtain ⟨inside, rfl⟩ := h
  intro hin
  exact htext (hin.subset List.mem_cons_self)

theorem not_prefix_cons (h : IsHole hole) {ch : Char} (hch : '\x7b' ≠ ch) :
    ¬ hole <+: ch :: text := by
  obtain ⟨inside, rfl⟩ := h
  intro hprefix
  exact hch (List.cons_prefix_cons.mp hprefix).1

/-- No place reaches into a text without a closing brace. -/
theorem prefix_append_iff (h : IsHole hole) (hback : '\x7d' ∉ back) :
    hole <+: text ++ back ↔ hole <+: text := by
  refine ⟨fun hprefix => ?_, fun hprefix => hprefix.trans (List.prefix_append text back)⟩
  rcases List.prefix_or_prefix_of_prefix hprefix (List.prefix_append text back) with
    hwithin | ⟨more, rfl⟩
  · exact hwithin
  · -- The rest of the hole would begin `back`, with the closing brace in it.
    have hmore := (List.prefix_append_right_inj text).mp hprefix
    obtain ⟨inside, hhole⟩ := h
    rcases List.eq_nil_or_concat more with rfl | ⟨init, last, rfl⟩
    · exact ⟨[], by simp⟩
    · rw [List.concat_eq_append, ← List.append_assoc, ← List.cons_append] at hhole
      obtain ⟨-, hlast⟩ := List.append_inj' hhole rfl
      obtain rfl : last = '\x7d' := List.head_eq_of_cons_eq hlast
      exact absurd (hmore.subset (by simp)) hback

end IsHole

theorem fillFirst_eq_self (h : ¬ hole <:+: text) : fillFirst hole argument text = text := by
  induction text with
  | nil => rfl
  | cons ch text ih =>
    rw [List.infix_cons_iff, not_or] at h
    rw [fillFirst, if_neg (by rw [List.isPrefixOf_iff_prefix]; exact h.1), ih h.2]

theorem fillFirst_hole (hhole : hole ≠ []) :
    fillFirst hole argument (hole ++ text) = argument ++ text := by
  cases hole with
  | nil => exact absurd rfl hhole
  | cons ch hole =>
    have hprefix : (ch :: hole).isPrefixOf (ch :: (hole ++ text)) = true :=
      List.isPrefixOf_iff_prefix.mpr (List.prefix_append (ch :: hole) text)
    rw [List.cons_append, fillFirst, if_pos hprefix, ← List.cons_append, List.drop_left]

theorem fillFirst_self : fillFirst hole hole text = text := by
  induction text with
  | nil => rfl
  | cons ch text ih =>
    rw [fillFirst, ih]
    split
    · rename_i hprefix
      exact List.prefix_iff_eq_append.mp (List.isPrefixOf_iff_prefix.mp hprefix)
    · rfl

theorem length_fillFirst_lt (hhole : hole ≠ []) (h : hole <:+: text) :
    (fillFirst hole [] text).length < text.length := by
  induction text with
  | nil => exact absurd (List.infix_nil.mp h) hhole
  | cons ch text ih =>
    rw [fillFirst]
    split
    · have hlength := List.length_pos_iff.mpr hhole
      rw [List.nil_append, List.length_drop, List.length_cons]
      omega
    · rename_i hprefix
      rw [List.isPrefixOf_iff_prefix] at hprefix
      rw [List.length_cons, List.length_cons]
      exact Nat.succ_lt_succ (ih ((List.infix_cons_iff.mp h).resolve_left hprefix))

theorem fillFirst_append_left (hhole : IsHole hole) (hfront : '\x7b' ∉ front) :
    fillFirst hole argument (front ++ text) = front ++ fillFirst hole argument text := by
  induction front with
  | nil => rfl
  | cons ch front ih =>
    obtain ⟨hch, hfront⟩ := List.ne_and_not_mem_of_not_mem_cons hfront
    rw [List.cons_append, fillFirst, if_neg, ih hfront, List.cons_append]
    rw [List.isPrefixOf_iff_prefix]
    exact hhole.not_prefix_cons hch

theorem fillFirst_append_right (hhole : IsHole hole) (hopen : '\x7b' ∉ back)
    (hclose : '\x7d' ∉ back) :
    fillFirst hole argument (text ++ back) = fillFirst hole argument text ++ back := by
  induction text with
  | nil => exact fillFirst_eq_self (hhole.not_infix_of_notMem hopen)
  | cons ch text ih =>
    have hiff : hole <+: ch :: text ++ back ↔ hole <+: ch :: text :=
      hhole.prefix_append_iff hclose
    rw [List.cons_append] at hiff ⊢
    simp only [fillFirst, List.isPrefixOf_iff_prefix, hiff, ih]
    split
    · rename_i hprefix
      rw [← List.cons_append, List.drop_append_of_le_length hprefix.length_le, List.append_assoc]
    · rw [List.cons_append]

def fillInTurn (entries : List (List Char × List Char)) (text : List Char) : List Char :=
  entries.foldl (fun text entry => fillFirst entry.1 entry.2 text) text

theorem fillInTurn_append (hholes : ∀ entry ∈ entries, IsHole entry.1)
    (hfront : '\x7b' ∉ front) (hopen : '\x7b' ∉ back) (hclose : '\x7d' ∉ back) :
    fillInTurn entries (front ++ (text ++ back)) = front ++ (fillInTurn entries text ++ back) := by
  induction entries generalizing text with
  | nil => rfl
  | cons entry entries ih =>
    obtain ⟨hhole, hholes⟩ := List.forall_mem_cons.mp hholes
    have hstep : fillFirst entry.1 entry.2 (front ++ (text ++ back)) =
        front ++ (fillFirst entry.1 entry.2 text ++ back) := by
      rw [fillFirst_append_left hhole hfront, fillFirst_append_right hhole hopen hclose]
    exact (congrArg (fillInTurn entries) hstep).trans (ih hholes)

theorem fillInTurn_eq_self (h : ∀ entry ∈ entries, ¬ entry.1 <:+: text) :
    fillInTurn entries text = text := by
  induction entries with
  | nil => rfl
  | cons entry entries ih =>
    obtain ⟨hentry, hentries⟩ := List.forall_mem_cons.mp h
    exact (congrArg (fillInTurn entries) (fillFirst_eq_self hentry)).trans (ih hentries)

/-- Each argument takes the place of the first occurrence of its hole, and is not looked into.
The first `skip` characters belong to a hole that has been filled. -/
def fillAll : List (List Char × List Char) → Nat → List Char → List Char
  | _, _, [] => []
  | entries, skip + 1, _ :: text => fillAll entries skip text
  | entries, 0, ch :: text =>
    match entries.find? fun entry => entry.1.isPrefixOf (ch :: text) with
    | some entry => entry.2 ++ fillAll (entries.erase entry) (entry.1.length - 1) text
    | none => ch :: fillAll entries 0 text

theorem fillAll_skip (skip : Nat) :
    fillAll entries skip text = fillAll entries 0 (text.drop skip) := by
  induction text generalizing skip with
  | nil => rw [List.drop_nil, fillAll, fillAll]
  | cons ch text ih =>
    cases skip with
    | zero => rfl
    | succ skip => rw [fillAll, ih, List.drop_succ_cons]

theorem fillAll_append_left (hholes : ∀ entry ∈ entries, IsHole entry.1) (hfront : '\x7b' ∉ front) :
    fillAll entries 0 (front ++ text) = front ++ fillAll entries 0 text := by
  induction front with
  | nil => rfl
  | cons ch front ih =>
    obtain ⟨hch, hfront⟩ := List.ne_and_not_mem_of_not_mem_cons hfront
    have hnone :
        (entries.find? fun entry => entry.1.isPrefixOf (ch :: (front ++ text))) = none := by
      rw [List.find?_eq_none]
      intro entry hentry
      rw [List.isPrefixOf_iff_prefix]
      exact (hholes entry hentry).not_prefix_cons hch
    rw [List.cons_append, fillAll, hnone, List.cons_append]
    exact congrArg (ch :: ·) (ih hfront)

theorem fillAll_eq_self (h : ∀ entry ∈ entries, ¬ entry.1 <:+: text) :
    fillAll entries 0 text = text := by
  induction text with
  | nil => rw [fillAll]
  | cons ch text ih =>
    have hnone : (entries.find? fun entry => entry.1.isPrefixOf (ch :: text)) = none := by
      rw [List.find?_eq_none]
      intro entry hentry hprefix
      exact h entry hentry (List.isPrefixOf_iff_prefix.mp hprefix).isInfix
    have hrest : ∀ entry ∈ entries, ¬ entry.1 <:+: text := fun entry hentry hin =>
      h entry hentry (List.infix_cons hin)
    rw [fillAll, hnone]
    exact congrArg (ch :: ·) (ih hrest)

theorem fillAll_hole (hhole : hole ≠ []) :
    fillAll ((hole, argument) :: entries) 0 (hole ++ text) =
      argument ++ fillAll entries 0 text := by
  cases hole with
  | nil => exact absurd rfl hhole
  | cons ch hole =>
    have hprefix : (ch :: hole).isPrefixOf (ch :: (hole ++ text)) = true :=
      List.isPrefixOf_iff_prefix.mpr (List.prefix_append (ch :: hole) text)
    have hfind : (((ch :: hole, argument) :: entries).find?
        fun entry => entry.1.isPrefixOf (ch :: (hole ++ text))) = some (ch :: hole, argument) :=
      List.find?_cons_of_pos hprefix
    rw [List.cons_append, fillAll, hfind]
    simp only [List.erase_cons_head, List.length_cons, Nat.add_sub_cancel]
    rw [fillAll_skip, List.drop_left]

def entriesOf (holes : List (List Char)) (arguments : List String) : List (List Char × List Char) :=
  holes.zip (arguments.map String.toList)

def verbatim (template : String) (arguments : List String) : String :=
  String.ofList (fillAll (entriesOf holes arguments) 0 template.toList)

def refill (first : String) (others : List String) : String :=
  String.ofList (fillInTurn (entriesOf holes.tail others) first.toList)

theorem isHole_of_mem_entriesOf {places : List (List Char)} {arguments : List String}
    (h : places ⊆ holes) : ∀ entry ∈ entriesOf places arguments, IsHole entry.1 :=
  fun _ hentry => isHole_of_mem_holes _ (h (List.of_mem_zip hentry).1)

theorem isHole_first : IsHole "\x7b0\x7d".toList :=
  isHole_of_mem_holes _ List.mem_cons_self

theorem isHole_of_mem_others {others : List String} :
    ∀ entry ∈ entriesOf holes.tail others, IsHole entry.1 :=
  isHole_of_mem_entriesOf (List.tail_sublist holes).subset

theorem isHole_of_mem_all {arguments : List String} :
    ∀ entry ∈ entriesOf holes arguments, IsHole entry.1 :=
  isHole_of_mem_entriesOf (List.Subset.refl holes)

theorem fill_eq (template : String) (arguments : List String) :
    fill template arguments =
      String.ofList (fillInTurn (entriesOf holes arguments) template.toList) := by
  rw [fill, fillInTurn, entriesOf, List.zip_map_right, List.foldl_map]
  rfl

theorem fill_take (template : String) (arguments : List String) :
    fill template (arguments.take 3) = fill template arguments := by
  have htake : entriesOf holes (arguments.take 3) = entriesOf holes arguments := by
    rcases arguments with _ | ⟨first, _ | ⟨second, _ | ⟨third, others⟩⟩⟩ <;> rfl
  rw [fill_eq, htake, fill_eq]

theorem template_cases (code : Code) :
    '\x7b' ∉ code.template.toList ∨
      ∃ before after, code.template = before ++ "\x7b0\x7d" ++ after ∧
        '\x7b' ∉ before.toList ∧ '\x7b' ∉ after.toList ∧ '\x7d' ∉ after.toList := by
  cases code with
  | notImplemented => exact .inr ⟨"Not implemented: ", "", by decide +kernel⟩
  | literalDoesNotFit =>
    exact .inr ⟨"Literal '", "' does not fit into 'i64' or 'u64' types.", by decide +kernel⟩
  | expected => exact .inr ⟨"'", "' expected.", by decide +kernel⟩
  | _ => exact .inl (by decide +kernel)

section Place

variable {template before after : String} (h : template = before ++ "\x7b0\x7d" ++ after)
include h

theorem toList_template :
    template.toList = before.toList ++ ("\x7b0\x7d".toList ++ after.toList) := by
  rw [h, String.toList_append, String.toList_append, List.append_assoc]

theorem fill_place (hbefore : '\x7b' ∉ before.toList) (hopen : '\x7b' ∉ after.toList)
    (hclose : '\x7d' ∉ after.toList) (first : String) (others : List String) :
    fill template (first :: others) = before ++ refill first others ++ after := by
  have hfirst : fillFirst "\x7b0\x7d".toList first.toList template.toList =
      before.toList ++ (first.toList ++ after.toList) := by
    rw [toList_template h, fillFirst_append_left isHole_first hbefore,
      fillFirst_hole isHole_first.ne_nil]
  have hfill : fillInTurn (entriesOf holes.tail others)
        (before.toList ++ (first.toList ++ after.toList)) = _ :=
    fillInTurn_append isHole_of_mem_others hbefore hopen hclose
  rw [← hfirst] at hfill
  have hlist := (fill_eq template (first :: others)).trans (congrArg String.ofList hfill)
  rw [hlist, String.ofList_append, String.ofList_append, String.ofList_toList, String.ofList_toList,
    String.append_assoc]
  rfl

theorem verbatim_place (hbefore : '\x7b' ∉ before.toList) (hopen : '\x7b' ∉ after.toList)
    (first : String) (others : List String) :
    verbatim template (first :: others) = before ++ first ++ after := by
  have hrest : fillAll (entriesOf holes.tail others) 0 after.toList = after.toList :=
    fillAll_eq_self fun entry hentry =>
      (isHole_of_mem_others entry hentry).not_infix_of_notMem hopen
  have hcons : entriesOf holes (first :: others) =
      ("\x7b0\x7d".toList, first.toList) :: entriesOf holes.tail others := rfl
  have hfill : fillAll (entriesOf holes (first :: others)) 0 template.toList =
      before.toList ++ (first.toList ++ after.toList) := by
    rw [toList_template h, fillAll_append_left isHole_of_mem_all hbefore, hcons,
      fillAll_hole isHole_first.ne_nil, hrest]
  rw [verbatim, hfill, String.ofList_append, String.ofList_append, String.ofList_toList,
    String.ofList_toList, String.ofList_toList, String.append_assoc]

end Place

theorem fill_plain {template : String} (h : '\x7b' ∉ template.toList) (arguments : List String) :
    fill template arguments = template ∧ verbatim template arguments = template := by
  have hnone : ∀ entry ∈ entriesOf holes arguments, ¬ entry.1 <:+: template.toList :=
    fun entry hentry => (isHole_of_mem_all entry hentry).not_infix_of_notMem h
  constructor
  · rw [fill_eq, fillInTurn_eq_self hnone, String.ofList_toList]
  · rw [verbatim, fillAll_eq_self hnone, String.ofList_toList]

/-- An argument is safe from the ones behind it exactly if it spells none of their places. -/
theorem refill_eq_self_iff (first : String) :
    (∀ others, refill first others = first) ↔ ∀ hole ∈ holes.tail, ¬ hole <:+: first.toList := by
  have hlist : ∀ others, refill first others = first →
      fillInTurn (entriesOf holes.tail others) first.toList = first.toList := fun _ h =>
    String.toList_ofList.symm.trans (congrArg String.toList h)
  constructor
  · intro h hole hhole hin
    have hne := (isHole_of_mem_holes hole (List.mem_of_mem_tail hhole)).ne_nil
    have hshort := length_fillFirst_lt hne hin
    have hcases : hole = "\x7b1\x7d".toList ∨ hole = "\x7b2\x7d".toList := by
      simpa [holes] using hhole
    -- Empty text behind the first argument makes it shorter; the place of the second one has to be
    -- filled with itself for that of the third to be reached.
    rcases hcases with rfl | rfl
    · have hsame := hlist [""] (h [""])
      change fillFirst _ [] _ = _ at hsame
      rw [hsame] at hshort
      exact Nat.lt_irrefl _ hshort
    · have hsame := hlist ["\x7b1\x7d", ""] (h ["\x7b1\x7d", ""])
      change fillFirst _ [] (fillFirst _ "\x7b1\x7d".toList _) = _ at hsame
      rw [fillFirst_self] at hsame
      rw [hsame] at hshort
      exact Nat.lt_irrefl _ hshort
  · intro h others
    have hnone : ∀ entry ∈ entriesOf holes.tail others, ¬ entry.1 <:+: first.toList :=
      fun entry hentry => h entry.1 (List.of_mem_zip hentry).1
    rw [refill, fillInTurn_eq_self hnone, String.ofList_toList]

/-- Of the arguments of a message at most three matter. A template without a place is the text
of the message, whatever the arguments. Otherwise its only place is for the first argument, and
the text has there what becomes of that argument when the places of the others are filled in it.
The text is the template with all places filled at once, for all other arguments, exactly if
the first argument spells none of their places. -/
theorem text_create (code : Code) (severity : Severity) (span related : Option Span) :
    let text arguments := (Message.create code severity arguments span related).text
    let exact arguments := verbatim code.template arguments
    (∀ arguments, text (arguments.take 3) = text arguments) ∧
    ((∀ arguments, text arguments = code.template ∧ exact arguments = code.template) ∨
      ∃ before after, code.template = before ++ "\x7b0\x7d" ++ after ∧
        '\x7b' ∉ before.toList ∧ '\x7b' ∉ after.toList ∧
        text [] = code.template ∧ exact [] = code.template ∧
        ∀ first, (∀ others, text (first :: others) = before ++ refill first others ++ after ∧
            exact (first :: others) = before ++ first ++ after) ∧
          ((∀ others, text (first :: others) = exact (first :: others)) ↔
            ∀ hole ∈ holes.tail, ¬ hole <:+: first.toList)) := by
  intro text exact
  refine ⟨fun arguments => fill_take code.template arguments, ?_⟩
  rcases template_cases code with hplain | ⟨before, after, htemplate, hbefore, hopen, hclose⟩
  · exact .inl (fill_plain hplain)
  · refine .inr ⟨before, after, htemplate, hbefore, hopen, ?_, ?_, fun first => ?_⟩
    · exact String.ofList_toList
    · have hempty : fillAll [] 0 code.template.toList = code.template.toList :=
        fillAll_eq_self fun _ h => absurd h List.not_mem_nil
      exact (congrArg String.ofList hempty).trans String.ofList_toList
    · have htext : ∀ others, text (first :: others) = before ++ refill first others ++ after :=
        fill_place htemplate hbefore hopen hclose first
      have hexact : ∀ others, exact (first :: others) = before ++ first ++ after :=
        verbatim_place htemplate hbefore hopen first
      refine ⟨fun others => ⟨htext others, hexact others⟩, ?_⟩
      rw [← refill_eq_self_iff]
      refine forall_congr' fun others => ?_
      rw [htext, hexact, String.append_left_inj, String.append_right_inj]

/-- The second argument has no place in the template, and gets one from the first argument. -/
theorem text_create_nested :
    let arguments := ["\x7b1\x7d", "x"]
    (Message.create .expected .error arguments none none).text = "'x' expected." ∧
      verbatim Code.expected.template arguments = "'\x7b1\x7d' expected." := by
  decide +kernel

end TypedScript.Diagnostic
