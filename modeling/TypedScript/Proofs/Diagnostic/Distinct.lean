import Mathlib.Data.List.Induction
import TypedScript.Proofs.Diagnostic.Dedup

/-! # A log is a list without repetitions

Without its index a log is a list that takes every message but one with a span that agrees
with a message in the list. The index is a short cut to those messages: it leads to every
message that has a span, and never beyond the list.
-/

namespace TypedScript.Diagnostic

namespace Message

def Agrees (a b : Message) : Prop :=
  a.code = b.code ∧ a.span = b.span ∧ a.related = b.related ∧ a.text = b.text

variable {a b c : Message}

theorem repeats_iff : a.repeats b = true ↔ a.Agrees b := by
  simp only [repeats, Agrees, Bool.and_eq_true, beq_iff_eq, and_assoc]

theorem Agrees.refl (a : Message) : a.Agrees a :=
  ⟨rfl, rfl, rfl, rfl⟩

theorem Agrees.trans (h : a.Agrees b) (h' : b.Agrees c) : a.Agrees c := by
  obtain ⟨hcode, hspan, hrelated, htext⟩ := h
  obtain ⟨hcode', hspan', hrelated', htext'⟩ := h'
  exact ⟨hcode.trans hcode', hspan.trans hspan', hrelated.trans hrelated', htext.trans htext'⟩

theorem Agrees.eq_of_severity_eq (h : a.Agrees b) (hs : a.severity = b.severity) :
    a = b := by
  obtain ⟨hcode, hspan, hrelated, htext⟩ := h
  cases a
  cases b
  cases hcode
  cases hspan
  cases hrelated
  cases htext
  cases hs
  rfl

instance (a b : Message) : Decidable (a.Agrees b) :=
  inferInstanceAs (Decidable (_ ∧ _ ∧ _ ∧ _))

end Message

namespace Log

def addNew (kept : List Message) (m : Message) : List Message :=
  if m.span.isSome ∧ ∃ x ∈ kept, x.Agrees m then kept else kept ++ [m]

def distinct (ms : List Message) : List Message :=
  ms.foldl addNew []

theorem prefix_addNew (kept : List Message) (m : Message) : kept <+: addNew kept m := by
  unfold addNew
  split
  · exact List.prefix_rfl
  · exact List.prefix_append kept [m]

theorem prefix_foldl_addNew (kept ms : List Message) : kept <+: ms.foldl addNew kept := by
  induction ms generalizing kept with
  | nil => exact List.prefix_rfl
  | cons m ms ih => exact (prefix_addNew kept m).trans (ih _)

theorem distinct_append (ms ns : List Message) :
    distinct (ms ++ ns) = ns.foldl addNew (distinct ms) :=
  List.foldl_append

theorem prefix_distinct_append (ms ns : List Message) : distinct ms <+: distinct (ms ++ ns) := by
  rw [distinct_append]
  exact prefix_foldl_addNew _ ns

theorem distinct_concat (ms : List Message) (m : Message) :
    distinct (ms ++ [m]) = addNew (distinct ms) m :=
  distinct_append ms [m]

theorem sublist_distinct (ms : List Message) : (distinct ms).Sublist ms := by
  induction ms using List.reverseRecOn with
  | nil => exact List.Sublist.refl []
  | append_singleton ms m ih =>
    rw [distinct_concat, addNew]
    split
    · exact ih.trans (List.sublist_append_left ms [m])
    · exact ih.append (List.Sublist.refl [m])

/-- A message with a span is in the list, or another that agrees with it. -/
theorem exists_agrees_of_mem {ms : List Message} :
    ∀ m ∈ ms, m.span.isSome → ∃ x ∈ distinct ms, x.Agrees m := by
  induction ms using List.reverseRecOn with
  | nil => simp
  | append_singleton ms last ih =>
    intro m hm hspan
    rcases List.mem_append.mp hm with hm | hm
    · obtain ⟨x, hx, hagrees⟩ := ih m hm hspan
      exact ⟨x, (prefix_distinct_append ms [last]).subset hx, hagrees⟩
    · obtain rfl := List.mem_singleton.mp hm
      rw [distinct_concat, addNew]
      split
      · rename_i h
        exact h.2
      · exact ⟨m, List.mem_append_right _ List.mem_cons_self, .refl m⟩

theorem distinct_concat_of_agrees {ms : List Message} {m : Message} :
    distinct (ms ++ [m]) =
      if m.span.isSome ∧ ∃ x ∈ ms, x.Agrees m then distinct ms else distinct ms ++ [m] := by
  rw [distinct_concat, addNew]
  refine if_congr (and_congr_right fun hspan => ?_) rfl rfl
  constructor
  · rintro ⟨x, hx, hagrees⟩
    exact ⟨x, (sublist_distinct ms).subset hx, hagrees⟩
  · rintro ⟨x, hx, hagrees⟩
    obtain ⟨y, hy, hyx⟩ := exists_agrees_of_mem x hx (hagrees.2.1 ▸ hspan)
    exact ⟨y, hy, hyx.trans hagrees⟩

theorem pairwise_distinct (ms : List Message) :
    (distinct ms).Pairwise fun a b => b.span.isSome → ¬ a.Agrees b := by
  induction ms using List.reverseRecOn with
  | nil => exact .nil
  | append_singleton ms m ih =>
    rw [distinct_concat, addNew]
    split
    · exact ih
    · rename_i h
      refine List.pairwise_append.mpr ⟨ih, List.pairwise_singleton _ m, ?_⟩
      intro x hx y hy hspan hagrees
      obtain rfl := List.mem_singleton.mp hy
      exact h ⟨hspan, x, hx, hagrees⟩

/-- Messages with spans that differ in severity nowhere are all in the list. -/
theorem mem_distinct_iff {ms : List Message} (hspan : ∀ m ∈ ms, m.span.isSome)
    (hseverity : ∀ a ∈ ms, ∀ b ∈ ms, a.severity = b.severity) {m : Message} :
    m ∈ distinct ms ↔ m ∈ ms := by
  refine ⟨fun hm => (sublist_distinct ms).subset hm, fun hm => ?_⟩
  obtain ⟨x, hx, hagrees⟩ := exists_agrees_of_mem m hm (hspan m hm)
  have hx' := (sublist_distinct ms).subset hx
  exact hagrees.eq_of_severity_eq (hseverity x hx' m hm) ▸ hx

theorem nodup_distinct {ms : List Message} (hspan : ∀ m ∈ ms, m.span.isSome) :
    (distinct ms).Nodup := by
  refine (pairwise_distinct ms).imp_of_mem fun _ hb hnone heq => ?_
  subst heq
  exact hnone (hspan _ ((sublist_distinct ms).subset hb)) (.refl _)

theorem filter_isNone_distinct (ms : List Message) :
    (distinct ms).filter (·.span.isNone) = ms.filter (·.span.isNone) := by
  induction ms using List.reverseRecOn with
  | nil => rfl
  | append_singleton ms m ih =>
    rw [distinct_concat, addNew]
    split
    · rename_i h
      have hnone : m.span.isNone = false := by
        rw [Option.isNone_eq_false_iff]
        exact h.1
      rw [ih, List.filter_append, List.filter_cons_of_neg (by simp [hnone]), List.filter_nil,
        List.append_nil]
    · rw [List.filter_append, List.filter_append, ih]

def isNew (kept : List Message) (m : Message) : Bool :=
  ¬ (m.span.isSome ∧ ∃ x ∈ kept, x.Agrees m)

theorem isNew_iff {kept : List Message} {m : Message} :
    isNew kept m = true ↔ (m.span.isSome → ∀ x ∈ kept, ¬ x.Agrees m) := by
  simp only [isNew, decide_eq_true_eq, not_and, not_exists]

theorem addNew_eq (kept : List Message) (m : Message) :
    addNew kept m = if isNew kept m then kept ++ [m] else kept := by
  unfold addNew isNew
  by_cases h : m.span.isSome ∧ ∃ x ∈ kept, x.Agrees m
  · rw [if_pos h, if_neg]
    simpa only [decide_eq_true_eq, not_not] using h
  · rw [if_neg h, if_pos (decide_eq_true h)]

/-- A message that is new to a list is new to it and further messages if it is to those of them
that are. -/
theorem isNew_append_filter {kept ms : List Message} {m : Message} (h : isNew kept m = true) :
    isNew (kept ++ ms.filter (isNew kept)) m = isNew ms m := by
  rw [Bool.eq_iff_iff, isNew_iff, isNew_iff]
  refine forall_congr' fun hspan => ⟨?_, ?_⟩
  · intro hnone x hx hagrees
    have hnew : isNew kept x = true := isNew_iff.mpr fun hsome y hy hyx =>
      isNew_iff.mp h hspan y hy (hyx.trans hagrees)
    exact hnone x (List.mem_append_right _ (List.mem_filter.mpr ⟨hx, hnew⟩)) hagrees
  · intro hnone x hx
    rcases List.mem_append.mp hx with hx | hx
    · exact isNew_iff.mp h hspan x hx
    · exact hnone x (List.mem_filter.mp hx).1

theorem isNew_append_eq_false {kept ms : List Message} {m : Message} (h : isNew kept m = false) :
    isNew (kept ++ ms) m = false := by
  rw [Bool.eq_false_iff, Ne, isNew_iff] at h ⊢
  exact fun hnone => h fun hspan x hx => hnone hspan x (List.mem_append_left ms hx)

/-- What is added to a list are those of the distinct messages that are new to it. -/
theorem foldl_addNew_eq (kept ms : List Message) :
    ms.foldl addNew kept = kept ++ (distinct ms).filter (isNew kept) := by
  induction ms using List.reverseRecOn with
  | nil => exact (List.append_nil kept).symm
  | append_singleton ms m ih =>
    rw [List.foldl_append, List.foldl_cons, List.foldl_nil, ih, distinct_concat, addNew_eq,
      addNew_eq]
    cases h : isNew kept m with
    | false =>
      rw [isNew_append_eq_false h, if_neg Bool.false_ne_true]
      split
      · simp [h]
      · rfl
    | true =>
      rw [isNew_append_filter h]
      split
      · simp [h]
      · rfl

/-- The index leads to every message with a span and never beyond the list, as it does in a log
that was empty once (`indexed_empty`, `Indexed.push`). -/
structure Indexed (log : Log) : Prop where
  lt_size : ∀ span, ∀ i ∈ log.placesAt span, i < log.messages.size
  mem_placesAt : ∀ i x span, log.messages[i]? = some x → x.span = some span →
    i ∈ log.placesAt span

theorem indexed_empty : empty.Indexed where
  lt_size span i hi := by
    simp [placesAt, empty] at hi
  mem_placesAt i x span hx _ := by
    simp [empty] at hx

theorem Indexed.holds_iff {log : Log} (h : log.Indexed) (m : Message) :
    log.Holds m ↔ m.span.isSome ∧ ∃ x ∈ log.messages.toList, x.Agrees m := by
  constructor
  · rintro ⟨span, hspan, i, -, x, hx, hrepeats⟩
    refine ⟨hspan ▸ rfl, x, ?_, Message.repeats_iff.mp hrepeats⟩
    exact Array.mem_toList_iff.mpr (Array.mem_of_getElem? hx)
  · rintro ⟨hspan, x, hx, hagrees⟩
    obtain ⟨span, hspan⟩ := Option.isSome_iff_exists.mp hspan
    obtain ⟨i, hx⟩ := Array.mem_iff_getElem?.mp (Array.mem_toList_iff.mp hx)
    have hi := h.mem_placesAt i x span hx (hagrees.2.1.trans hspan)
    exact ⟨span, hspan, i, hi, x, hx, Message.repeats_iff.mpr hagrees⟩

theorem Indexed.push {log : Log} (h : log.Indexed) (m : Message) : (log.push m).Indexed := by
  by_cases hm : log.Holds m
  · rw [push_of_holds hm]
    exact h
  have hmessages := messages_push_of_not_holds hm
  constructor
  · intro span i hi
    rw [hmessages, Array.size_push]
    rcases mem_placesAt_push.mp hi with hi | ⟨-, rfl, -⟩
    · exact Nat.lt_succ_of_lt (h.lt_size span i hi)
    · exact Nat.lt_succ_self _
  · intro i x span hx hspan
    apply mem_placesAt_push.mpr
    rw [hmessages, Array.getElem?_push] at hx
    split at hx
    · rename_i hi
      obtain rfl := Option.some.inj hx
      exact .inr ⟨hm, hi, span, hspan, rfl, rfl⟩
    · exact .inl (h.mem_placesAt i x span hx hspan)

theorem Indexed.messages_push {log : Log} (h : log.Indexed) (m : Message) :
    (log.push m).messages.toList = addNew log.messages.toList m := by
  unfold addNew
  split
  · rename_i hm
    rw [push_of_holds ((h.holds_iff m).mpr hm)]
  · rename_i hm
    have hnew : ¬ log.Holds m := fun hold => hm ((h.holds_iff m).mp hold)
    rw [messages_push_of_not_holds hnew, Array.toList_push]

theorem Indexed.pushAll {log : Log} (h : log.Indexed) (ms : List Message) :
    (log.pushAll ms).Indexed ∧
      (log.pushAll ms).messages.toList = ms.foldl addNew log.messages.toList := by
  induction ms generalizing log with
  | nil => exact ⟨h, rfl⟩
  | cons m ms ih =>
    obtain ⟨hindexed, hmessages⟩ := ih (h.push m)
    refine ⟨hindexed, ?_⟩
    rw [pushAll_cons, hmessages, h.messages_push, List.foldl_cons]

theorem Indexed.messages_pushAll {log : Log} (h : log.Indexed) (ms : List Message) :
    (log.pushAll ms).messages.toList =
      log.messages.toList ++ (distinct ms).filter (isNew log.messages.toList) := by
  rw [(h.pushAll ms).2, foldl_addNew_eq]

theorem messages_pushAll_empty (ms : List Message) :
    (empty.pushAll ms).messages.toList = distinct ms :=
  (indexed_empty.pushAll ms).2

/-- The messages of a log are those of the list that is kept without an index. They are a
part of what was pushed, in its order, and are never taken back. Of the messages with a
span that agree the first is kept, and no other; a message without a span is always kept.
The places in the index are places of the list. -/
theorem messages_pushAll_eq_foldl (ms : List Message) :
    let log := empty.pushAll ms
    log.messages.toList = ms.foldl addNew [] ∧
    log.messages.toList.Sublist ms ∧
    (∀ more, log.messages.toList <+: (empty.pushAll (ms ++ more)).messages.toList) ∧
    (∀ before m after, ms = before ++ m :: after →
      (m.span.isSome → ∀ x ∈ before, ¬ x.Agrees m) →
      (empty.pushAll before).messages.toList ++ [m] <+: log.messages.toList) ∧
    log.messages.toList.Pairwise (fun a b => b.span.isSome → ¬ a.Agrees b) ∧
    log.messages.toList.filter (·.span.isNone) = ms.filter (·.span.isNone) ∧
    ∀ span, ∀ i ∈ log.placesAt span, i < log.messages.size := by
  intro log
  have hlog : log.messages.toList = distinct ms := messages_pushAll_empty ms
  simp only [hlog, messages_pushAll_empty]
  refine ⟨rfl, sublist_distinct ms, prefix_distinct_append ms, ?_, pairwise_distinct ms,
    filter_isNone_distinct ms, (indexed_empty.pushAll ms).1.lt_size⟩
  rintro before m after rfl hfirst
  have hkept : distinct (before ++ [m]) = distinct before ++ [m] := by
    rw [distinct_concat_of_agrees]
    apply if_neg
    rintro ⟨hspan, x, hx, hagrees⟩
    exact hfirst hspan x hx hagrees
  rw [← hkept, List.append_cons before m after]
  exact prefix_distinct_append (before ++ [m]) after

end Log

end TypedScript.Diagnostic
