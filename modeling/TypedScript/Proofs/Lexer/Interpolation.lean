import TypedScript.Proofs.Lexer.Segment

/-! # Templates inside templates

A template is a tree: between two of its parts stands a name or another template. The
tree is written out with each part escaped, and read again with one reader for each
template, which goes on behind the brace that closes an interpolation. The reading gives
back the tree, however deep it is and whichever of its templates are tagged.
-/

namespace TypedScript.Lexer

open Text

inductive Parts (α β : Type) where
  | last (part : α)
  | named (part : α) (name : β) (rest : Parts α β)
  | nested (part : α) (inner : Parts α β) (rest : Parts α β)
deriving DecidableEq, Repr

structure Taken where
  segment : Segment
  finished : Bool
deriving DecidableEq, Repr

namespace Parts

def body : Parts String FreeWord → List Char
  | last part => escaped part.toList ++ closing false
  | named part name rest =>
    escaped part.toList ++ closing true ++ name.text.toList ++ '\x7d' :: rest.body
  | nested part inner rest =>
    escaped part.toList ++ closing true ++ '\x60' :: inner.body ++ '\x7d' :: rest.body

def render (t : Parts String FreeWord) : String :=
  String.ofList ('\x60' :: t.body)

/-- What the readers are to take: each part as it is meant and as it is written, an
interpolation behind all but the last, and no reader finished before that. -/
def taken : Parts String FreeWord → Parts Taken String
  | last part => last ⟨⟨part, String.ofList (escaped part.toList), false⟩, true⟩
  | named part name rest =>
    named ⟨⟨part, String.ofList (escaped part.toList), true⟩, false⟩ name.text rest.taken
  | nested part inner rest =>
    nested ⟨⟨part, String.ofList (escaped part.toList), true⟩, false⟩ inner.taken rest.taken

def depth {α β : Type} : Parts α β → Nat
  | last _ => 1
  | named _ _ rest => rest.depth + 1
  | nested _ inner rest => max inner.depth rest.depth + 1

theorem depth_le_length_body (t : Parts String FreeWord) : t.depth ≤ t.body.length := by
  induction t with
  | last part => simp [depth, body, closing]
  | named part name rest ih =>
    simp only [depth, body, List.length_append, List.length_cons]
    omega
  | nested part inner rest ihinner ihrest =>
    simp only [depth, body, List.length_append, List.length_cons]
    omega

end Parts

def closeHole (l : Lexer) : Option Lexer :=
  let l := (l.next .standard).2
  if l.token = .punctuator .closeBrace then some l else none

/-- Reads the parts of a template from the next segment of its reader on. A template inside it
gets a reader of its own, tagged as `tags` says of the place where it begins. -/
def readParts (tags : Nat → Bool) : Nat → Template → Lexer → Option (Parts Taken String × Lexer)
  | 0, _, _ => none
  | fuel + 1, reader, l =>
    let (segment, reader, l) := reader.takeSegment l
    let part : Taken := ⟨segment, reader.finished⟩
    if segment.interpolation then
      let l := (l.next .standard).2
      match l.token with
      | .identifier =>
        let (name, l) := l.takeIdentifier
        (l.closeHole.bind (readParts tags fuel reader)).map fun (rest, l) =>
          (.named part name rest, l)
      | .template =>
        (readParts tags fuel (Template.new (tags l.pos)) l).bind fun (inner, l) =>
          (l.closeHole.bind (readParts tags fuel reader)).map fun (rest, l) =>
            (.nested part inner rest, l)
      | _ => none
    else some (.last part, l)

/-- Reads the template that comes next. Each part takes a character at least, so no template is
nested deeper than there are characters. -/
def readTemplate (tags : Nat → Bool) (l : Lexer) : Option (Parts Taken String × Lexer) :=
  let l := (l.next .standard).2
  if l.token = .template then
    readParts tags l.cursor.rest.length (Template.new (tags l.pos)) l
  else none

variable {tags : Nat → Bool} {fuel : Nat} {l : Lexer} {start : Cursor} {after : List Char}

theorem silent_next_here {token : Token} {stop : Cursor} (hc : l.cursor.inside = 0)
    (h : pieceAt .standard noLimit l.cursor = .token token stop) :
    (l.next .standard).2.token = token ∧ (l.next .standard).2.cursor = stop ∧
      Silent l (l.next .standard).2 :=
  silent_next (.refl hc) (List.forall_mem_nil _) h

theorem silent_closeHole (hc : l.cursor.inside = 0) (h : l.cursor.rest = '\x7d' :: after) :
    ∃ next, l.closeHole = some next ∧ Silent l next ∧ l.cursor.Passes ['\x7d'] next.cursor := by
  obtain ⟨stop, hpiece, hstop⟩ := pieceAt_closeBrace .standard hc h
  obtain ⟨htoken, hcursor, hsilent⟩ := silent_next_here hc hpiece
  exact ⟨_, if_pos htoken, hsilent, hcursor ▸ hstop⟩

namespace Parts

/-- The parts are read with the fuel wherever they are written, by a reader that has not
started before the quote and by one that has. -/
def Readable (tags : Nat → Bool) (fuel : Nat) (t : Parts String FreeWord) : Prop :=
  ∀ (reader : Template) ⦃l : Lexer⦄ ⦃start : Cursor⦄ ⦃after : List Char⦄,
    l.cursor.Passes (if reader.started then [] else ['\x60']) start →
    start.rest = t.body ++ after →
    ∃ last, readParts tags fuel reader l = some (t.taken, last) ∧ Silent l last ∧
      start.Passes t.body last.cursor

theorem readable_last (part : String) : (last part).Readable tags (fuel + 1) := by
  intro reader l start after hstart h
  rw [body, List.append_assoc] at h
  obtain ⟨next, htake, hsilent, hpart⟩ := takeSegment_escaped reader false part hstart h
  refine ⟨next, ?_, hsilent, hpart⟩
  simp only [readParts, htake, taken]
  rfl

theorem Readable.resume {rest : Parts String FreeWord} (hrest : rest.Readable tags fuel)
    (reader : Template) (hreader : reader.started = true) (hc : l.cursor.inside = 0)
    (h : l.cursor.rest = '\x7d' :: rest.body ++ after) :
    ∃ last, l.closeHole.bind (readParts tags fuel reader) = some (rest.taken, last) ∧
      Silent l last ∧ l.cursor.Passes ('\x7d' :: rest.body) last.cursor := by
  obtain ⟨next, hclose, hnext, hbrace⟩ := silent_closeHole hc h
  have hstart : next.cursor.Passes (if reader.started then [] else ['\x60']) next.cursor := by
    rw [if_pos hreader]
    exact .refl hbrace.inside_eq'
  obtain ⟨last, hread, hlast, hpart⟩ := hrest reader hstart (hbrace.rest_eq_of_append h)
  refine ⟨last, ?_, hnext.trans hlast, hbrace.trans hpart⟩
  rw [hclose]
  exact hread

theorem Readable.named (part : String) (name : FreeWord) {rest : Parts String FreeWord}
    (hrest : rest.Readable tags fuel) : (named part name rest).Readable tags (fuel + 1) := by
  intro reader l start after hstart h
  have hbody : start.rest = escaped part.toList ++ (closing true ++
      (name.text.toList ++ ('\x7d' :: rest.body ++ after))) := by
    rw [h]
    simp [body]
  have hbrace : ∀ ch, ('\x7d' :: rest.body ++ after).head? = some ch →
      isIdentifierPart ch = false := by
    intro ch hch
    obtain rfl := Option.some.inj hch
    decide
  obtain ⟨opened, htake, hopened, hpart⟩ := takeSegment_escaped reader true part hstart hbody
  rw [← List.append_assoc] at hbody
  have hname := hpart.rest_eq_of_append hbody
  have hpiece := pieceAt_freeWord .standard noLimit name hpart.inside_eq' hname hbrace
  obtain ⟨htoken, hcursor, hnext⟩ := silent_next_here hpart.inside_eq' hpiece
  rw [← hcursor] at hpart hname
  obtain ⟨named, hword, hnamed, hstop⟩ := takeIdentifier_freeWord name hpart.inside_eq' hname hbrace
  obtain ⟨last, hread, hlast, hrestPart⟩ := hrest.resume ⟨reader.tagged, true, false⟩ rfl
    hstop.inside_eq' (hstop.rest_eq_of_append hname)
  refine ⟨last, ?_, ((hopened.trans hnext).trans hnamed).trans hlast, ?_⟩
  · simp only [readParts, htake, htoken, hword, Bool.not_true, if_true, hread, taken]
    rfl
  · simpa [body] using (hpart.trans hstop).trans hrestPart

theorem Readable.nested (part : String) {inner rest : Parts String FreeWord}
    (hinner : inner.Readable tags fuel) (hrest : rest.Readable tags fuel) :
    (nested part inner rest).Readable tags (fuel + 1) := by
  intro reader l start after hstart h
  have hbody : start.rest = escaped part.toList ++ (closing true ++
      ('\x60' :: inner.body ++ ('\x7d' :: rest.body ++ after))) := by
    rw [h]
    simp [body]
  obtain ⟨opened, htake, hopened, hpart⟩ := takeSegment_escaped reader true part hstart hbody
  rw [← List.append_assoc] at hbody
  have hquote := hpart.rest_eq_of_append hbody
  have hch : opened.cursor.char? = some '\x60' :=
    Cursor.char?_eq_some_iff.mpr ⟨hpart.inside_eq', _, hquote⟩
  obtain ⟨htoken, hcursor, hnext⟩ :=
    silent_next_here hpart.inside_eq' (pieceAt_backtick .standard noLimit hch)
  have hstep := Cursor.passes_advance_one hch rfl
  rw [← hcursor] at hpart hquote hstep
  obtain ⟨closed, hinnerRead, hclosed, hinnerPart⟩ :=
    hinner (Template.new (tags (opened.next .standard).2.pos)) hstep
      (hstep.rest_eq_of_append hquote)
  have hbrace := hinnerPart.rest_eq_of_append (hstep.rest_eq_of_append hquote)
  obtain ⟨last, hread, hlast, hrestPart⟩ := hrest.resume ⟨reader.tagged, true, false⟩ rfl
    hinnerPart.inside_eq' hbrace
  refine ⟨last, ?_, ((hopened.trans hnext).trans hclosed).trans hlast, ?_⟩
  · simp only [readParts, htake, htoken, hinnerRead, Bool.not_true, if_true, Option.bind_some,
      hread, taken]
    rfl
  · simpa [body] using ((hpart.trans hstep).trans hinnerPart).trans hrestPart

theorem readable (t : Parts String FreeWord) (hfuel : t.depth ≤ fuel) : t.Readable tags fuel := by
  -- The inner template and the parts behind it are both read with the fuel that is left.
  induction t generalizing fuel with
  | last part =>
    obtain ⟨fuel, rfl⟩ := Nat.exists_eq_add_of_le' hfuel
    exact readable_last part
  | named part name rest ih =>
    obtain ⟨fuel, rfl⟩ := Nat.exists_eq_add_of_le' (Nat.le_trans (Nat.le_add_left 1 _) hfuel)
    exact (ih (Nat.le_of_succ_le_succ hfuel)).named part name
  | nested part inner rest ihinner ihrest =>
    obtain ⟨fuel, rfl⟩ := Nat.exists_eq_add_of_le' (Nat.le_trans (Nat.le_add_left 1 _) hfuel)
    have hboth := Nat.max_le.mp (Nat.le_of_succ_le_succ hfuel)
    exact (ihinner hboth.1).nested part (ihrest hboth.2)

end Parts

theorem Parts.toList_render (t : Parts String FreeWord) : t.render.toList = '\x60' :: t.body :=
  String.toList_ofList

/-- A template is read wherever it is written, and the lexer stops behind it. -/
theorem readTemplate_of_rest_eq (tags : Nat → Bool) (t : Parts String FreeWord)
    (hc : l.cursor.inside = 0) (h : l.cursor.rest = t.render.toList ++ after) :
    ∃ last, l.readTemplate tags = some (t.taken, last) ∧ Silent l last ∧
      l.cursor.Passes t.render.toList last.cursor := by
  rw [t.toList_render] at h ⊢
  have hch : l.cursor.char? = some '\x60' := Cursor.char?_eq_some_iff.mpr ⟨hc, _, h⟩
  obtain ⟨htoken, hstay, hnext⟩ :=
    silent_next_here hc (pieceAt_backtick .standard noLimit hch)
  have hquote := Cursor.passes_advance_one hch rfl
  rw [← hstay] at h hquote ⊢
  have hdepth : t.depth ≤ (l.next .standard).2.cursor.rest.length := by
    have hle := t.depth_le_length_body
    rw [h, List.length_append, List.length_cons]
    omega
  obtain ⟨last, hread, hlast, hpart⟩ :=
    t.readable hdepth (Template.new (tags (l.next .standard).2.pos)) hquote
      (hquote.rest_eq_of_append h)
  exact ⟨last, (if_pos htoken).trans hread, hnext.trans hlast, hquote.trans hpart⟩

/-- A tree of templates that is written out is read as it is, over the whole text and without
a diagnostic. -/
theorem readTemplate_render (source : SourceId) (t : Parts String FreeWord)
    (log : Diagnostic.Log) (tags : Nat → Bool) :
    ∃ last, (Lexer.new source t.render log).readTemplate tags = some (t.taken, last) ∧
      last.cursor.rest = [] ∧ last.pos = byteSize t.render.toList ∧
      (last.next .standard).2.token = .endOfText ∧ last.log = log ∧ last.comments = #[] := by
  have hhead : ∀ ch, t.render.toList.head? = some ch → ch ≠ byteOrderMark ∧ ch ≠ '#' := by
    intro ch hch
    rw [t.toList_render] at hch
    obtain rfl := Option.some.inj hch
    decide
  have hnew := cursor_new_of_head source log hhead
  have hrest : (Lexer.new source t.render log).cursor.rest = t.render.toList ++ [] := by
    rw [hnew, List.append_nil]
    rfl
  obtain ⟨last, hread, hsilent, hpart⟩ :=
    readTemplate_of_rest_eq tags t (by rw [hnew]; rfl) hrest
  have hend : last.cursor.rest = [] := hpart.rest_eq_of_append hrest
  have hpos : last.pos = byteSize t.render.toList := by
    rw [pos, hpart.pos_eq, hnew]
    exact Nat.zero_add _
  exact ⟨last, hread, hend, hpos, (silent_next_of_end .standard hend).1, hsilent.log_eq,
    hsilent.comments_eq⟩

example : (Parts.nested "a$" (.last "") (.last "\n")).render =
    "\x60a\\$$\x7b\x60\x60\x7d\n\x60" := by
  decide

end TypedScript.Lexer
