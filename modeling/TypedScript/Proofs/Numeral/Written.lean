import Mathlib.Algebra.Group.Nat.Defs
import TypedScript.Numeral.Radix

/-! # Numbers written in a radix

The digits of a number denote it in every radix, whatever zeros stand in front of them, in
whichever case each of them is written, and with or without a separator behind each but the
last.
-/

namespace TypedScript.Numeral

def inCase (upper : Bool) (digit : Char) : Char :=
  if upper then digit.toUpper else digit

/-- The digits from place `i` on, each in the case that `upper` says of its place. Behind a
digit that another one follows stands a `_` if `separated` says so. -/
def write (upper separated : Nat → Bool) : Nat → List Char → List Char
  | _, [] => []
  | i, [digit] => [inCase (upper i) digit]
  | i, digit :: next :: digits =>
    let rest := write upper separated (i + 1) (next :: digits)
    inCase (upper i) digit :: if separated i then '_' :: rest else rest

def zerosAndDigits (r : Radix) (zeros n : Nat) : List Char :=
  List.replicate zeros '0' ++ Nat.toDigits r.base n

def padded (r : Radix) (width n : Nat) : List Char :=
  zerosAndDigits r (width - (Nat.toDigits r.base n).length) n

def Radix.letter? : Radix → Option Char
  | .binary => some 'b'
  | .octal => some 'o'
  | .decimal => none
  | .hexadecimal => some 'x'

/-- What is free in writing a number. Zeros may stand in front of its digits only behind the
letter of a radix. -/
structure IntegerStyle where
  radix : Radix
  upperLetter : Bool
  zeros : Nat
  upper : Nat → Bool
  separated : Nat → Bool

namespace IntegerStyle

def mark (s : IntegerStyle) : List Char :=
  s.radix.letter?.elim [] fun letter => ['0', inCase s.upperLetter letter]

def digits (s : IntegerStyle) (n : Nat) : List Char :=
  zerosAndDigits s.radix (s.radix.letter?.elim 0 fun _ => s.zeros) n

def text (s : IntegerStyle) (n : Nat) : List Char :=
  s.mark ++ write s.upper s.separated 0 (s.digits n)

def plain : IntegerStyle :=
  ⟨.decimal, false, 0, fun _ => false, fun _ => false⟩

end IntegerStyle

/-- A run that begins and ends with a digit, with at most one `_` between two digits. -/
inductive IsGrouped (r : Radix) : List Char → Prop
  | single {ch : Char} (h : (r.digit? ch).isSome = true) : IsGrouped r [ch]
  | cons {ch : Char} {run : List Char} (h : (r.digit? ch).isSome = true)
    (hrun : IsGrouped r run) : IsGrouped r (ch :: run)
  | separated {ch : Char} {run : List Char} (h : (r.digit? ch).isSome = true)
    (hrun : IsGrouped r run) : IsGrouped r (ch :: '_' :: run)

def IsDigit (r : Radix) (ch : Char) : Prop :=
  ∃ k < r.base, ch = Nat.digitChar k

variable {r : Radix} {ch : Char} {n : Nat} {digits run : List Char}

theorem Radix.one_lt_base (r : Radix) : 1 < r.base := by
  cases r <;> decide

theorem Radix.base_le_sixteen (r : Radix) : r.base ≤ 16 := by
  cases r <;> decide

theorem hexValue?_inCase_digitChar {k : Nat} (hk : k < 16) (upper : Bool) :
    hexValue? (inCase upper (Nat.digitChar k)) = some k := by
  have hall : ∀ k < 16, ∀ upper, hexValue? (inCase upper (Nat.digitChar k)) = some k := by
    decide
  exact hall k hk upper

theorem digit?_inCase_digitChar {k : Nat} (hk : k < r.base) (upper : Bool) :
    r.digit? (inCase upper (Nat.digitChar k)) = some k := by
  have hsixteen := Nat.lt_of_lt_of_le hk r.base_le_sixteen
  simp [Radix.digit?, hexValue?_inCase_digitChar hsixteen upper, hk]

theorem digit?_digitChar {k : Nat} (hk : k < r.base) : r.digit? (Nat.digitChar k) = some k :=
  digit?_inCase_digitChar hk false

theorem IsDigit.digit?_inCase (h : IsDigit r ch) (upper : Bool) :
    ∃ k < r.base, r.digit? (inCase upper ch) = some k ∧ r.digit? ch = some k := by
  obtain ⟨k, hk, rfl⟩ := h
  exact ⟨k, hk, digit?_inCase_digitChar hk upper, digit?_digitChar hk⟩

theorem isDigit_of_mem_toDigits (h : ch ∈ Nat.toDigits r.base n) : IsDigit r ch := by
  have hbase := r.one_lt_base
  induction n using Nat.strongRecOn with
  | _ n ih =>
    rw [Nat.toDigits_eq_if hbase] at h
    split at h
    · rename_i hlt
      exact ⟨n, hlt, List.mem_singleton.mp h⟩
    · rename_i hge
      rcases List.mem_append.mp h with h | h
      · exact ih (n / r.base) (Nat.div_lt_self (by omega) hbase) h
      · exact ⟨n % r.base, Nat.mod_lt _ (by omega), List.mem_singleton.mp h⟩

theorem isDigit_of_mem_zerosAndDigits {zeros : Nat} (h : ch ∈ zerosAndDigits r zeros n) :
    IsDigit r ch := by
  rcases List.mem_append.mp h with h | h
  · exact ⟨0, Nat.lt_trans Nat.one_pos r.one_lt_base, List.eq_of_mem_replicate h⟩
  · exact isDigit_of_mem_toDigits h

theorem zerosAndDigits_ne_nil (r : Radix) (zeros n : Nat) : zerosAndDigits r zeros n ≠ [] :=
  List.append_ne_nil_of_right_ne_nil _ Nat.toDigits_ne_nil

theorem length_padded {width : Nat} (hwidth : 0 < width) (h : n < r.base ^ width) :
    (padded r width n).length = width := by
  have hle := (Nat.length_toDigits_le_iff r.one_lt_base hwidth).mpr h
  rw [padded, zerosAndDigits, List.length_append, List.length_replicate]
  omega

theorem value_append_singleton {k : Nat} (h : r.digit? ch = some k) (text : List Char) :
    r.value (text ++ [ch]) = r.value text * r.base + k := by
  simp [Radix.value, List.filterMap_append, h]

theorem value_toDigits (r : Radix) (n : Nat) : r.value (Nat.toDigits r.base n) = n := by
  have hbase := r.one_lt_base
  induction n using Nat.strongRecOn with
  | _ n ih =>
    rw [Nat.toDigits_eq_if hbase]
    split
    · rename_i hlt
      simp [Radix.value, digit?_digitChar hlt]
    · rename_i hge
      rw [value_append_singleton (digit?_digitChar (Nat.mod_lt n (by omega))),
        ih (n / r.base) (Nat.div_lt_self (by omega) hbase)]
      exact Nat.div_add_mod' n r.base

theorem value_zerosAndDigits (r : Radix) (zeros n : Nat) :
    r.value (zerosAndDigits r zeros n) = n := by
  have hzero : r.digit? '0' = some 0 :=
    digit?_digitChar (Nat.lt_trans Nat.one_pos r.one_lt_base)
  rw [zerosAndDigits]
  induction zeros with
  | zero => exact value_toDigits r n
  | succ zeros ih =>
    rw [List.replicate_succ, List.cons_append, Radix.value, List.filterMap_cons_some hzero,
      List.foldl_cons, Nat.zero_mul]
    exact ih

theorem digit?_separator (r : Radix) : r.digit? '_' = none := by
  cases r <;> rfl

/-- Neither separators nor the cases of digits change the number. -/
theorem filterMap_digit?_write (upper separated : Nat → Bool) (i : Nat)
    (h : ∀ ch ∈ digits, IsDigit r ch) :
    (write upper separated i digits).filterMap r.digit? = digits.filterMap r.digit? := by
  fun_induction write upper separated i digits with
  | case1 => rfl
  | case2 i digit =>
    obtain ⟨k, -, hcase, hdigit⟩ := (h digit List.mem_cons_self).digit?_inCase (upper i)
    rw [List.filterMap_cons_some hcase, List.filterMap_cons_some hdigit]
  | case3 i digit next digits rest ih =>
    obtain ⟨hfirst, hmore⟩ := List.forall_mem_cons.mp h
    obtain ⟨k, -, hcase, hdigit⟩ := hfirst.digit?_inCase (upper i)
    have hrest : (if separated i then '_' :: rest else rest).filterMap r.digit? =
        rest.filterMap r.digit? := by
      split
      · rw [List.filterMap_cons_none (digit?_separator r)]
      · rfl
    rw [List.filterMap_cons_some hcase, List.filterMap_cons_some hdigit, hrest, ih hmore]

theorem value_write (upper separated : Nat → Bool) (i : Nat) (h : ∀ ch ∈ digits, IsDigit r ch) :
    r.value (write upper separated i digits) = r.value digits := by
  rw [Radix.value, filterMap_digit?_write upper separated i h]
  rfl

theorem isGrouped_write (upper separated : Nat → Bool) (i : Nat) (hne : digits ≠ [])
    (h : ∀ ch ∈ digits, IsDigit r ch) : IsGrouped r (write upper separated i digits) := by
  fun_induction write upper separated i digits with
  | case1 => exact absurd rfl hne
  | case2 i digit =>
    obtain ⟨k, -, hcase, -⟩ := (h digit List.mem_cons_self).digit?_inCase (upper i)
    exact .single (by rw [hcase]; rfl)
  | case3 i digit next digits rest ih =>
    obtain ⟨hfirst, hmore⟩ := List.forall_mem_cons.mp h
    obtain ⟨k, -, hcase, -⟩ := hfirst.digit?_inCase (upper i)
    have hsome : (r.digit? (inCase (upper i) digit)).isSome = true := by
      rw [hcase]
      rfl
    have hrest := ih (List.cons_ne_nil _ _) hmore
    split
    · exact .separated hsome hrest
    · exact .cons hsome hrest

theorem write_unseparated (upper : Nat → Bool) (i : Nat) (digits : List Char) :
    write upper (fun _ => false) i digits =
      (digits.zipIdx i).map fun (digit, place) => inCase (upper place) digit := by
  fun_induction write upper (fun _ => false) i digits with
  | case1 => rfl
  | case2 => rfl
  | case3 i digit next digits rest ih => exact congrArg (inCase (upper i) digit :: ·) ih

theorem length_write_unseparated (upper : Nat → Bool) (i : Nat) (digits : List Char) :
    (write upper (fun _ => false) i digits).length = digits.length := by
  rw [write_unseparated, List.length_map, List.length_zipIdx]

theorem write_plain (i : Nat) (digits : List Char) :
    write (fun _ => false) (fun _ => false) i digits = digits := by
  rw [write_unseparated]
  exact List.zipIdx_map_fst i digits

theorem isSome_of_mem_write_unseparated {upper : Nat → Bool} {i : Nat}
    (h : ∀ ch ∈ digits, IsDigit r ch) (hch : ch ∈ write upper (fun _ => false) i digits) :
    (r.digit? ch).isSome = true := by
  rw [write_unseparated] at hch
  obtain ⟨⟨digit, place⟩, hmem, rfl⟩ := List.mem_map.mp hch
  obtain ⟨k, -, hcase, -⟩ := (h digit (List.fst_mem_of_mem_zipIdx hmem)).digit?_inCase (upper place)
  rw [hcase]
  rfl

theorem head?_write (upper separated : Nat → Bool) (i : Nat) (digits : List Char) :
    (write upper separated i digits).head? = digits.head?.map (inCase (upper i)) := by
  fun_cases write upper separated i digits with
  | case1 => rfl
  | case2 => rfl
  | case3 => rfl

theorem IsGrouped.isSome_of_mem (h : IsGrouped r run) (hch : ch ∈ run) :
    (r.digit? ch).isSome = true ∨ ch = '_' := by
  induction h with
  | single hdigit =>
    obtain rfl := List.mem_singleton.mp hch
    exact .inl hdigit
  | cons hdigit _ ih =>
    rcases List.mem_cons.mp hch with rfl | hch
    · exact .inl hdigit
    · exact ih hch
  | separated hdigit _ ih =>
    rcases List.mem_cons.mp hch with rfl | hch
    · exact .inl hdigit
    · rcases List.mem_cons.mp hch with rfl | hch
      · exact .inr rfl
      · exact ih hch

theorem IsGrouped.ne_nil (h : IsGrouped r run) : run ≠ [] := by
  cases h <;> exact List.cons_ne_nil _ _

theorem IsGrouped.getLast?_ne (h : IsGrouped r run) : run.getLast? ≠ some '_' := by
  induction h with
  | single hdigit =>
    rintro hlast
    obtain rfl := Option.some.inj hlast
    rw [digit?_separator] at hdigit
    cases hdigit
  | cons _ hrun ih => rwa [List.getLast?_cons_of_ne_nil hrun.ne_nil]
  | separated _ hrun ih =>
    rwa [List.getLast?_cons_of_ne_nil (List.cons_ne_nil _ _),
      List.getLast?_cons_of_ne_nil hrun.ne_nil]

namespace IntegerStyle

variable (s : IntegerStyle) (n : Nat)

theorem isGrouped_digits : IsGrouped s.radix (write s.upper s.separated 0 (s.digits n)) :=
  isGrouped_write s.upper s.separated 0 (zerosAndDigits_ne_nil _ _ _)
    fun _ => isDigit_of_mem_zerosAndDigits

theorem value_digits : s.radix.value (write s.upper s.separated 0 (s.digits n)) = n := by
  rw [digits, value_write s.upper s.separated 0 fun _ => isDigit_of_mem_zerosAndDigits,
    value_zerosAndDigits]

theorem text_cases :
    (s.radix = .decimal ∧ s.text n = write s.upper s.separated 0 (Nat.toDigits 10 n)) ∨
    ∃ letter, Radix.ofLetter? letter = some s.radix ∧
      s.text n = '0' :: letter :: write s.upper s.separated 0 (s.digits n) := by
  have hletter : ∀ (r : Radix) (letter : Char) (upper : Bool), r.letter? = some letter →
      Radix.ofLetter? (inCase upper letter) = some r := by
    intro r letter upper h
    cases r <;> cases h <;> cases upper <;> rfl
  cases hmark : s.radix.letter? with
  | some letter =>
    refine .inr ⟨inCase s.upperLetter letter, hletter _ _ _ hmark, ?_⟩
    rw [text, mark, hmark]
    rfl
  | none =>
    have hradix : s.radix = .decimal := by
      cases h : s.radix <;> rw [h] at hmark <;> first | rfl | cases hmark
    refine .inl ⟨hradix, ?_⟩
    rw [text, mark, digits, hmark, hradix]
    rfl

theorem text_plain : plain.text n = Nat.toDigits 10 n :=
  write_plain 0 (Nat.toDigits 10 n)

end IntegerStyle

example : write (· == 1) (· == 0) 0 (zerosAndDigits .hexadecimal 1 171) = "0_Ab".toList := by
  decide

end TypedScript.Numeral
