import TypedScript.Diagnostic.Log

/-! # Repetitions in a log

A message that the index of a log leads to stays found whatever is pushed behind it, and
pushing it again changes nothing. So a list of messages with spans leaves no trace when
it is pushed twice, or ahead of a list that begins with it. Messages of some codes that
do not repeat each other are kept in full.
-/

namespace TypedScript.Diagnostic.Log

/-- The index leads from the span of the message to one that it repeats. -/
def Holds (log : Log) (m : Message) : Prop :=
  ∃ span, m.span = some span ∧
    ∃ i ∈ log.placesAt span, ∃ x, log.messages[i]? = some x ∧ x.repeats m = true

def pushAll (log : Log) (ms : List Message) : Log :=
  ms.foldl push log

@[simp] theorem pushAll_nil (log : Log) : log.pushAll [] = log := rfl

@[simp] theorem pushAll_cons (log : Log) (m : Message) (ms : List Message) :
    log.pushAll (m :: ms) = (log.push m).pushAll ms := rfl

theorem pushAll_append (log : Log) (ms ns : List Message) :
    log.pushAll (ms ++ ns) = (log.pushAll ms).pushAll ns :=
  List.foldl_append

theorem any_placesAt_iff {log : Log} {m : Message} {span : Span} (hm : m.span = some span) :
    ((log.placesAt span).any fun i => log.messages[i]?.any (·.repeats m)) = true ↔ log.Holds m := by
  rw [List.any_eq_true]
  constructor
  · rintro ⟨i, hi, h⟩
    obtain ⟨x, hx, hr⟩ := (Option.any_eq_true _ _).mp h
    exact ⟨span, hm, i, hi, x, hx, hr⟩
  · rintro ⟨span', hm', i, hi, x, hx, hr⟩
    obtain rfl : span = span' := Option.some.inj (hm.symm.trans hm')
    exact ⟨i, hi, by rw [hx]; exact hr⟩

theorem push_of_holds {log : Log} {m : Message} (h : log.Holds m) : log.push m = log := by
  obtain ⟨span, hm, -⟩ := id h
  simp only [push, hm]
  rw [if_pos ((any_placesAt_iff hm).mpr h)]

theorem messages_push_of_not_holds {log : Log} {m : Message} (h : ¬ log.Holds m) :
    (log.push m).messages = log.messages.push m := by
  unfold push
  split
  · rfl
  · rename_i span hm
    rw [if_neg (fun ha => h ((any_placesAt_iff hm).mp ha))]

theorem getElem?_messages_push {log : Log} (m : Message) {i : Nat} {x : Message}
    (h : log.messages[i]? = some x) : (log.push m).messages[i]? = some x := by
  by_cases hm : log.Holds m
  · rw [push_of_holds hm, h]
  · obtain ⟨hi, -⟩ := Array.getElem?_eq_some_iff.mp h
    rw [messages_push_of_not_holds hm, Array.getElem?_push_lt hi, ← h, Array.getElem?_eq_getElem hi]

theorem placesAt_notePlace (log : Log) (noted span : Span) :
    Log.placesAt ⟨log.messages, log.notePlace noted⟩ span =
      if noted.source = span.source ∧ noted.start = span.start then
        log.messages.size :: log.placesAt span
      else log.placesAt span := by
  simp only [placesAt, notePlace, Std.TreeMap.getD_insert, Nat.compare_eq_eq]
  by_cases hs : noted.source = span.source
  · by_cases hp : noted.start = span.start
    · simp [hs, hp]
    · simp [hs, hp, Std.TreeMap.getD_insert]
  · simp [hs]

theorem mem_placesAt_push {log : Log} {m : Message} {span : Span} {i : Nat} :
    i ∈ (log.push m).placesAt span ↔ i ∈ log.placesAt span ∨
      (¬ log.Holds m ∧ i = log.messages.size ∧
        ∃ noted, m.span = some noted ∧ noted.source = span.source ∧ noted.start = span.start) := by
  by_cases hm : log.Holds m
  · simp [push_of_holds hm, hm]
  · unfold push
    split
    · rename_i hspan
      simp [placesAt, hspan]
    · rename_i noted hspan
      rw [if_neg (fun ha => hm ((any_placesAt_iff hspan).mp ha))]
      change i ∈ Log.placesAt ⟨log.messages, log.notePlace noted⟩ span ↔ _
      rw [placesAt_notePlace]
      split
      · rename_i h
        simp [hm, hspan, h, or_comm]
      · rename_i h
        simp [hspan, h]

theorem Holds.push {log : Log} {x : Message} (h : log.Holds x) (m : Message) :
    (log.push m).Holds x := by
  obtain ⟨span, hx, i, hi, y, hy, hr⟩ := h
  exact ⟨span, hx, i, mem_placesAt_push.mpr (.inl hi), y, getElem?_messages_push m hy, hr⟩

theorem repeats_self (m : Message) : m.repeats m = true := by
  simp [Message.repeats]

theorem holds_push_self (log : Log) {m : Message} (hm : m.span.isSome) : (log.push m).Holds m := by
  by_cases h : log.Holds m
  · exact h.push m
  · obtain ⟨span, hspan⟩ := Option.isSome_iff_exists.mp hm
    refine ⟨span, hspan, log.messages.size, ?_, m, ?_, repeats_self m⟩
    · exact mem_placesAt_push.mpr (.inr ⟨h, rfl, span, hspan, rfl, rfl⟩)
    · rw [messages_push_of_not_holds h, Array.getElem?_push_size]

theorem Holds.pushAll {log : Log} {x : Message} (h : log.Holds x) (ms : List Message) :
    (log.pushAll ms).Holds x := by
  induction ms generalizing log with
  | nil => exact h
  | cons m ms ih => exact ih (h.push m)

theorem pushAll_of_holds {log : Log} {ms : List Message} (h : ∀ m ∈ ms, log.Holds m) :
    log.pushAll ms = log := by
  induction ms with
  | nil => rfl
  | cons m ms ih =>
    rw [pushAll_cons, push_of_holds (h m List.mem_cons_self)]
    exact ih fun x hx => h x (List.mem_cons_of_mem _ hx)

theorem holds_pushAll {ms : List Message} (hms : ∀ m ∈ ms, m.span.isSome) (log : Log) :
    ∀ m ∈ ms, (log.pushAll ms).Holds m := by
  induction ms generalizing log with
  | nil => simp
  | cons x ms ih =>
    intro m hm
    rcases List.mem_cons.mp hm with rfl | hm
    · exact (log.holds_push_self (hms m List.mem_cons_self)).pushAll ms
    · exact ih (fun y hy => hms y (List.mem_cons_of_mem _ hy)) _ m hm

/-- Messages with spans that were pushed before leave no trace. -/
theorem pushAll_pushAll {ms : List Message} (hms : ∀ m ∈ ms, m.span.isSome) (log : Log) :
    (log.pushAll ms).pushAll ms = log.pushAll ms :=
  pushAll_of_holds (holds_pushAll hms log)

/-- Messages with spans may be pushed ahead of a list that begins with them. -/
theorem pushAll_of_prefix {ms ns : List Message} (hms : ∀ m ∈ ms, m.span.isSome) (h : ms <+: ns)
    (log : Log) : (log.pushAll ms).pushAll ns = log.pushAll ns := by
  obtain ⟨rest, rfl⟩ := h
  rw [pushAll_append, pushAll_pushAll hms, pushAll_append]

theorem not_holds_of_forall {log : Log} {m : Message}
    (h : ∀ x ∈ log.messages.toList, x.repeats m = false) : ¬ log.Holds m := by
  rintro ⟨span, -, i, -, x, hx, hr⟩
  have hx := Array.mem_toList_iff.mpr (Array.mem_of_getElem? hx)
  rw [h x hx] at hr
  cases hr

theorem code_eq_of_repeats {a b : Message} (h : a.repeats b = true) : a.code = b.code := by
  simp only [Message.repeats, Bool.and_eq_true, beq_iff_eq] at h
  exact h.1.1.1

/-- Messages of the codes `p` that do not repeat each other are all kept, in order. -/
theorem filter_messages_pushAll (p : Code → Bool) {ms : List Message}
    (hms : (ms.filter (p ·.code)).Pairwise fun a b => a.repeats b = false) {log : Log}
    (hlog : ∀ m ∈ ms, p m.code → ∀ x ∈ log.messages.toList, x.repeats m = false) :
    (log.pushAll ms).messages.toList.filter (p ·.code) =
      log.messages.toList.filter (p ·.code) ++ ms.filter (p ·.code) := by
  induction ms generalizing log with
  | nil => simp
  | cons m ms ih =>
    have hlog' := fun x hx => hlog x (List.mem_cons_of_mem m hx)
    rw [pushAll_cons]
    by_cases hc : p m.code = true
    · have hnew := not_holds_of_forall (hlog m List.mem_cons_self hc)
      rw [List.filter_cons_of_pos (by exact hc)] at hms ⊢
      obtain ⟨hm, hms⟩ := List.pairwise_cons.mp hms
      rw [ih hms]
      · simp [messages_push_of_not_holds hnew, List.filter_append, hc]
      · intro x hx hxc y hy
        rw [messages_push_of_not_holds hnew, Array.toList_push] at hy
        rcases List.mem_append.mp hy with hy | hy
        · exact hlog' x hx hxc y hy
        · obtain rfl := List.mem_singleton.mp hy
          exact hm x (List.mem_filter.mpr ⟨hx, hxc⟩)
    · -- The message may be left out, but it is no reason to leave out one of the codes.
      rw [List.filter_cons_of_neg (by exact hc)] at hms ⊢
      by_cases hold : log.Holds m
      · rw [push_of_holds hold, ih hms hlog']
      · rw [ih hms]
        · simp [messages_push_of_not_holds hold, List.filter_append, hc]
        · intro x hx hxc y hy
          rw [messages_push_of_not_holds hold, Array.toList_push] at hy
          rcases List.mem_append.mp hy with hy | hy
          · exact hlog' x hx hxc y hy
          · obtain rfl := List.mem_singleton.mp hy
            refine Bool.eq_false_iff.mpr fun hr => hc ?_
            rw [code_eq_of_repeats hr, hxc]

end TypedScript.Diagnostic.Log
