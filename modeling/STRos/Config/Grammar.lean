import STRos.Config.Events

/-! # The language of configuration files

The lines a file can be written with, what each of them means, and that a parse of the
written file reports just that, wherever the lines with errors in them are.
-/

namespace STRos

open CString

/-- A line, from the white space it starts with. The texts of an entry are the name, the
separator and the value with the paddings between them; a tail is what follows. -/
inductive IniItem where
  | blank (pad : Bytes)
  | comment (pad : Bytes) (mark : Byte) (text : Bytes)
  | header (pad name tail : Bytes)
  | entry (pad name before : Bytes) (sep : Byte) (after value tail : Bytes)
  | more (pad text tail : Bytes)
  | unclosed (pad name tail : Bytes)
  | unseparated (pad text tail : Bytes)

namespace IniItem

def line : IniItem → Bytes
  | blank pad => pad
  | comment pad mark text => pad ++ mark :: text
  | header pad name tail => pad ++ ch '[' :: (name ++ ch ']' :: tail)
  | entry pad name before sep after value tail =>
      pad ++ (name ++ before ++ sep :: (after ++ (value ++ tail)))
  | more pad text tail => pad ++ (text ++ tail)
  | unclosed pad name tail => pad ++ ch '[' :: (name ++ tail)
  | unseparated pad text tail => pad ++ (text ++ tail)

/-- What the line means behind the lines before it. -/
def event (place : Place) : IniItem → LineEvent
  | entry _ name _ _ _ value _ => .call ⟨place.section, name, value⟩
  | more _ text _ => .call ⟨place.section, place.prevName, text⟩
  | unclosed _ _ _ => .bad
  | unseparated _ _ _ => .bad
  | _ => .quiet

def next (place : Place) : IniItem → Place
  | header _ name _ => ⟨name.take (maxSection - 1), []⟩
  | entry _ name _ _ _ _ _ => ⟨place.section, name.take (maxName - 1)⟩
  | _ => place

inductive Tail : Bytes → Prop where
  | blank {pad : Bytes} (blank : Blank pad) : Tail pad
  | comment {pad text : Bytes} (blank : Blank pad) (nonempty : pad ≠ []) :
      Tail (pad ++ ch ';' :: text)

/-- The first byte of a line that is neither a comment nor a header. -/
def Opens (text : Bytes) : Prop :=
  ∀ b ∈ text.head?, isSpace b = false ∧ b ≠ ch ';' ∧ b ≠ ch '#' ∧ b ≠ ch '['

instance (text : Bytes) : Decidable (Opens text) := Option.decidableForallMem text.head?

/-- Where the line may start: with white space it goes on with an entry before it. -/
def Starts (place : Place) (pad : Bytes) : Prop := Blank pad ∧ (pad = [] ∨ place.prevName = [])

/-- The separator is found by one of the two searches. -/
inductive Separates (name value : Bytes) : Byte → Prop where
  | equals (absent : ch '=' ∉ name) : Separates name value (ch '=')
  | colon (absent : ch ':' ∉ name) (noEquals : ch '=' ∉ name ++ value) :
      Separates name value (ch ':')

/-- The lines that mean what `event` says, behind the lines before them. -/
inductive Allowed (place : Place) : IniItem → Prop where
  | blank {pad : Bytes} (hpad : Blank pad) : Allowed place (.blank pad)
  | comment {pad text : Bytes} {mark : Byte} (hpad : Blank pad)
      (hmark : mark = ch ';' ∨ mark = ch '#') : Allowed place (.comment pad mark text)
  | header {pad name tail : Bytes} (hpad : Starts place pad) (absent : ch ']' ∉ name)
      (commentFree : CommentFree name) : Allowed place (.header pad name tail)
  | entry {pad name before after value tail : Bytes} {sep : Byte} (hpad : Starts place pad)
      (opens : Opens name) (hname : Trimmed name) (nameComment : CommentFree name)
      (hbefore : Blank before) (nonempty : name = [] → before = []) (hafter : Blank after)
      (hvalue : Trimmed value) (valueComment : CommentFree value)
      (separates : Separates name value sep) (htail : Tail tail) (bare : value = [] → Blank tail) :
      Allowed place (.entry pad name before sep after value tail)
  | more {pad text tail : Bytes} (named : place.prevName ≠ []) (hpad : Blank pad)
      (indented : pad ≠ []) (htext : Trimmed text) (nonempty : text ≠ [])
      (opens : ∀ b ∈ text.head?, b ≠ ch ';' ∧ b ≠ ch '#') (htail : Blank tail) :
      Allowed place (.more pad text tail)
  | unclosed {pad name tail : Bytes} (hpad : Starts place pad) (absent : ch ']' ∉ name)
      (htail : Tail tail) : Allowed place (.unclosed pad name tail)
  | unseparated {pad text tail : Bytes} (hpad : Starts place pad) (opens : Opens text)
      (htext : Trimmed text) (nonempty : text ≠ []) (noEquals : ch '=' ∉ text)
      (noColon : ch ':' ∉ text) (htail : Tail tail) :
      Allowed place (.unseparated pad text tail)

def events : Place → List IniItem → List LineEvent
  | _, [] => []
  | place, item :: items => item.event place :: events (item.next place) items

/-- The line is read as it is. -/
structure Fits (item : IniItem) : Prop where
  clean : Clean item.line
  short : item.line.length ≤ iniMaxLine - 2

instance (item : IniItem) : Decidable item.Fits :=
  decidable_of_iff (Clean item.line ∧ item.line.length ≤ iniMaxLine - 2)
    ⟨fun h => ⟨h.1, h.2⟩, fun h => ⟨h.clean, h.short⟩⟩

def AllAllowed : Place → List IniItem → Prop
  | _, [] => True
  | place, item :: items => item.Allowed place ∧ AllAllowed (item.next place) items

end IniItem

/-! ## The tail of a line -/

namespace IniItem

/-- The white space behind a text and its tail leaves a text and its tail. -/
theorem Tail.rstrip {tail : Bytes} (h : Tail tail) (s : Bytes) :
    ∃ s' tail', rstrip (s ++ tail) = s' ++ tail' ∧ s' <+: s ∧ Tail tail' := by
  cases h with
  | blank hpad =>
      exact ⟨CString.rstrip s, [], by rw [rstrip_append hpad, List.append_nil], rstrip_le s,
        .blank (by simp [Blank])⟩
  | @comment pad text hpad hne =>
      refine ⟨s, pad ++ ch ';' :: CString.rstrip text, ?_, List.prefix_refl s, .comment hpad hne⟩
      rw [← List.append_assoc, rstrip_append_cons (by decide), List.append_assoc]

/-- In front of the comment there is nothing to be found. -/
theorem Tail.not_found {c : Byte} {s tail : Bytes} (h : Tail tail) (hc : c ∉ s)
    (hspace : isSpace c = false) (hcomment : c ≠ ch ';') :
    (findCharOrComment (s ++ tail) c).2.head? ≠ some c := by
  intro hfound
  have hsplit := findCharOrComment_append (s ++ tail) c
  have hpassed := findCharOrComment_passed (s ++ tail) c
  rw [head?_eq_some_tail hfound] at hsplit
  cases h with
  | blank hpad =>
      have hmem : c ∈ s ++ tail := by
        rw [← hsplit]
        simp
      exact (List.mem_append.mp hmem).elim hc (blank_absent hpad hspace)
  | @comment pad text hpad hne =>
      -- the search would have passed the semicolon behind the white space
      have hfront : c ∉ s ++ pad ++ [ch ';'] := by
        simp only [List.mem_append, List.mem_singleton, not_or]
        exact ⟨⟨hc, blank_absent hpad hspace⟩, hcomment⟩
      generalize findCharOrComment (s ++ (pad ++ ch ';' :: text)) c = found at hsplit hpassed
      have hupto : s ++ pad ++ [ch ';'] <+: found.1 ++ c :: found.2.tail :=
        ⟨text, by rw [hsplit]; simp⟩
      have hpassing : s ++ pad ++ [ch ';'] <+: found.1 := by
        have hfound : found.1 ++ [c] <+: found.1 ++ c :: found.2.tail := ⟨found.2.tail, by simp⟩
        cases List.prefix_or_prefix_of_prefix hupto hfound with
        | inl h =>
            cases List.prefix_concat_iff.mp h with
            | inl heq => exact absurd (by rw [heq]; simp) hfront
            | inr h => exact h
        | inr h => exact absurd (h.subset (by simp)) hfront
      have hfree := hpassed.commentFree.of_infix hpassing.isInfix
      have hlast := (List.isChain_append.mp hfree).2.2 (pad.getLast hne)
        (by rw [List.getLast?_append, List.getLast?_eq_some_getLast hne]; rfl) (ch ';') rfl
      exact hlast ⟨hpad _ (List.getLast_mem hne), rfl⟩

end IniItem

/-! ## What each line does -/

section Does

variable {place : Place} {pad : Bytes} {moved : Prop}

/-- A line that does not start with white space goes on with nothing. -/
theorem not_more (hpad : IniItem.Starts place pad)
    (hmoved : place.prevName = [] ∨ (moved ↔ pad ≠ [])) (start : Bytes) :
    ¬ (place.prevName ≠ [] ∧ start ≠ [] ∧ moved) := by
  intro h
  have hmove := (hmoved.resolve_left h.1).mp h.2.2
  cases hpad.2 with
  | inl hnil => exact hmove hnil
  | inr hnil => exact h.1 hnil

theorem open_noMark (s : Bytes) :
    ¬ ((ch '[' :: s).head? = some (ch ';') ∨ (ch '[' :: s).head? = some (ch '#')) := by
  simp only [List.head?_cons, Option.some.injEq]
  decide

variable [Decidable moved]

theorem does_quiet {start : Bytes}
    (h : start = [] ∨ start.head? = some (ch ';') ∨ start.head? = some (ch '#')) :
    Does place .quiet place moved start := by
  intro σ handler st hst
  rw [← hst, meet_quiet]
  cases h with
  | inl hnil =>
      subst hnil
      simp [iniStart]
  | inr hmark => rw [iniStart, if_pos hmark]

theorem does_header {name tail : Bytes} (hpad : IniItem.Starts place pad)
    (hmoved : place.prevName = [] ∨ (moved ↔ pad ≠ [])) (absent : ch ']' ∉ name)
    (commentFree : CommentFree name) :
    Does place .quiet ⟨name.take (maxSection - 1), []⟩ moved
      (ch '[' :: (name ++ ch ']' :: tail)) := by
  have hfound : findCharOrComment (name ++ ch ']' :: tail) (ch ']') = (name, ch ']' :: tail) := by
    apply findCharOrComment_eq absent commentFree
    intro b hb
    cases hb
    exact Or.inl rfl
  intro σ handler st hst
  rw [iniStart_other (open_noMark _) (not_more hpad hmoved _) handler hst, List.head?_cons,
    if_pos rfl, List.tail_cons, hfound]
  dsimp only
  rw [List.head?_cons, if_pos rfl]
  exact (meet_quiet handler { st with
    «section» := name.take (maxSection - 1)
    prevName := [] }).symm

theorem does_unclosed {name tail : Bytes} (hpad : IniItem.Starts place pad)
    (hmoved : place.prevName = [] ∨ (moved ↔ pad ≠ [])) (absent : ch ']' ∉ name)
    (htail : IniItem.Tail tail) : Does place .bad place moved (ch '[' :: (name ++ tail)) := by
  have hfound := htail.not_found absent (by decide) (by decide)
  intro σ handler st hst
  rw [iniStart_other (open_noMark _) (not_more hpad hmoved _) handler hst, List.head?_cons,
    if_pos rfl, List.tail_cons, if_neg hfound, ← hst, meet_bad]

structure EntryStart (start : Bytes) : Prop where
  noMark : ¬ (start.head? = some (ch ';') ∨ start.head? = some (ch '#'))
  noOpen : start.head? ≠ some (ch '[')
  nonempty : start ≠ []

section Entry

variable {start : Bytes} (hpad : IniItem.Starts place pad)
  (hmoved : place.prevName = [] ∨ (moved ↔ pad ≠ [])) (hstart : EntryStart start)

include hpad hmoved hstart

theorem iniStart_plain {σ : Type} (handler : IniHandler σ) {st : IniState σ}
    (hst : st.place = place) : iniStart handler st moved start = iniEntry handler st start := by
  have hmark : start.head? ≠ some (ch ';') := fun h => hstart.noMark (Or.inl h)
  rw [iniStart_other hstart.noMark (not_more hpad hmoved start) handler hst, if_neg hstart.noOpen,
    if_pos ⟨hstart.nonempty, hmark⟩]

theorem does_entry {front rest : Bytes} {sep : Byte} (hsep : sep = ch '=' ∨ sep = ch ':')
    (hsplit : separated start = (front, sep :: rest)) :
    Does place
      (.call ⟨place.section, rstrip front, rstrip (findCharOrComment (lskip rest) 0).1⟩)
      ⟨place.section, (rstrip front).take (maxName - 1)⟩ moved start := by
  have hhead : (sep :: rest).head? = some (ch '=') ∨ (sep :: rest).head? = some (ch ':') :=
    hsep.imp (congrArg some) (congrArg some)
  intro σ handler st hst
  rw [iniStart_plain hpad hmoved hstart handler hst, iniEntry_eq, hsplit, if_pos hhead,
    List.tail_cons, call_named, ← hst]
  rfl

theorem does_unseparated (hequals : (findCharOrComment start (ch '=')).2.head? ≠ some (ch '='))
    (hcolon : (findCharOrComment start (ch ':')).2.head? ≠ some (ch ':')) :
    Does place .bad place moved start := by
  have hsep : separated start = findCharOrComment start (ch ':') := if_pos hequals
  intro σ handler st hst
  rw [iniStart_plain hpad hmoved hstart handler hst, iniEntry_eq, if_neg, ← hst, meet_bad]
  rw [hsep, not_or]
  refine ⟨fun h => ?_, hcolon⟩
  have hstop := findFrom_head _ h
  exact absurd hstop (by decide)

end Entry

theorem does_more {start : Bytes} (hnamed : place.prevName ≠ []) (hmoved : moved)
    (hmark : ¬ (start.head? = some (ch ';') ∨ start.head? = some (ch '#'))) (hne : start ≠ []) :
    Does place (.call ⟨place.section, place.prevName, start⟩) place moved start := by
  intro σ handler st hst
  subst hst
  rw [iniStart, if_neg hmark]
  exact (if_pos ⟨hnamed, hne, hmoved⟩).trans (meet_call handler st st.prevName start).symm

end Does

/-! ## Texts with their tails -/

namespace IniItem

/-- A value in front of its tail is found again. -/
theorem Tail.value_eq {value tail : Bytes} (h : Tail tail) (hvalue : Trimmed value)
    (hnul : 0 ∉ value) (hfree : CommentFree value) :
    CString.rstrip (findCharOrComment (CString.rstrip (value ++ tail)) 0).1 = value := by
  cases h with
  | blank hpad =>
      have hfound := findCharOrComment_eq hnul hfree (t := []) (by simp [StopsAt])
      rw [List.append_nil] at hfound
      rw [rstrip_append hpad, hvalue.rstrip_eq, hfound, hvalue.rstrip_eq]
  | @comment pad text hpad hpadne =>
      have hnul' : 0 ∉ value ++ pad := by
        rw [List.mem_append, not_or]
        exact ⟨hnul, blank_absent hpad (by decide)⟩
      have hstop : StopsAt 0 false (value ++ pad) (ch ';' :: CString.rstrip text) := by
        intro b hb
        cases hb
        refine Or.inr ⟨rfl, ?_⟩
        rw [spaceBefore, List.getLast?_append, List.getLast?_eq_some_getLast hpadne]
        exact hpad _ (List.getLast_mem hpadne)
      rw [← List.append_assoc, rstrip_append_cons (by decide),
        findCharOrComment_eq hnul' (hfree.append_blank hpad) hstop, rstrip_append hpad,
        hvalue.rstrip_eq]

theorem value_eq {after value tail : Bytes} (hafter : Blank after) (hvalue : Trimmed value)
    (hnul : 0 ∉ value) (hfree : CommentFree value) (htail : Tail tail)
    (hbare : value = [] → Blank tail) :
    CString.rstrip (findCharOrComment
      (lskip (CString.rstrip (after ++ (value ++ tail)))) 0).1 = value := by
  by_cases hne : value = []
  · have hblank : Blank (after ++ (value ++ tail)) := by
      rw [hne, List.nil_append]
      intro b hb
      exact (List.mem_append.mp hb).elim (hafter b) (hbare hne b)
    rw [rstrip_blank hblank, hne]
    rfl
  · have hhead : ∀ b ∈ (value ++ tail).head?, isSpace b = false := by
      intro b hb
      rw [List.head?_append_of_ne_nil _ hne] at hb
      exact hvalue.head b hb
    rw [(lskip_rstrip_pad hafter (by simp [hne]) hhead).1]
    exact htail.value_eq hvalue hnul hfree

theorem separated_eq {name before after value tail : Bytes} {sep : Byte}
    (hfree : CommentFree name) (hbefore : Blank before) (hafter : Blank after)
    (hsep : Separates name value sep) (htail : Tail tail) :
    separated (name ++ before ++ sep :: CString.rstrip (after ++ (value ++ tail))) =
      (name ++ before, sep :: CString.rstrip (after ++ (value ++ tail))) := by
  have hfound : ∀ c, isSpace c = false → c ∉ name → findCharOrComment
      (name ++ before ++ c :: CString.rstrip (after ++ (value ++ tail))) c =
      (name ++ before, c :: CString.rstrip (after ++ (value ++ tail))) := by
    intro c hspace hc
    apply findCharOrComment_eq _ (hfree.append_blank hbefore)
    · intro b hb
      cases hb
      exact Or.inl rfl
    · rw [List.mem_append, not_or]
      exact ⟨hc, blank_absent hbefore hspace⟩
  cases hsep with
  | equals absent =>
      have hequals := hfound (ch '=') (by decide) absent
      have hhead : ¬ (findCharOrComment (name ++ before ++ ch '=' ::
          CString.rstrip (after ++ (value ++ tail))) (ch '=')).2.head? ≠ some (ch '=') := by
        rw [hequals]
        exact not_not.mpr rfl
      rw [separated, if_neg hhead, hequals]
  | colon absent noEquals =>
      rw [List.mem_append, not_or] at noEquals
      have hshape : name ++ before ++ ch ':' :: CString.rstrip (after ++ (value ++ tail)) =
          CString.rstrip (name ++ before ++ ch ':' :: (after ++ value) ++ tail) := by
        rw [List.append_assoc (name ++ before), List.cons_append, rstrip_append_cons (by decide),
          List.append_assoc after]
      have hhead : (findCharOrComment (name ++ before ++ ch ':' ::
          CString.rstrip (after ++ (value ++ tail))) (ch '=')).2.head? ≠ some (ch '=') := by
        obtain ⟨s', tail', hsame, hle, htail'⟩ :=
          htail.rstrip (name ++ before ++ ch ':' :: (after ++ value))
        rw [hshape, hsame]
        apply htail'.not_found _ (by decide) (by decide)
        intro hmem
        have hall := hle.subset hmem
        simp only [List.mem_append, List.mem_cons] at hall
        obtain (hname | hblank) | heq | hblank | hval := hall
        · exact noEquals.1 hname
        · exact blank_absent hbefore (by decide) hblank
        · exact absurd heq (by decide)
        · exact blank_absent hafter (by decide) hblank
        · exact noEquals.2 hval
      rw [separated, if_pos hhead, hfound (ch ':') (by decide) absent]

theorem entry_head {name before : Bytes} {sep : Byte} (hopens : Opens name)
    (hbare : name = [] → before = []) (hsep : sep = ch '=' ∨ sep = ch ':') (rest : Bytes) :
    Opens (name ++ before ++ sep :: rest) := by
  intro b hb
  cases name with
  | nil =>
      rw [hbare rfl, List.nil_append, List.nil_append, List.head?_cons, Option.mem_some] at hb
      subst hb
      cases hsep with
      | inl h => subst h; decide
      | inr h => subst h; decide
  | cons c name => exact hopens b hb

theorem Opens.entryStart {start : Bytes} (h : Opens start) (hne : start ≠ []) :
    EntryStart start := by
  obtain ⟨b, rest, rfl⟩ := List.exists_cons_of_ne_nil hne
  have hb := h b rfl
  refine ⟨?_, fun h => hb.2.2.2 (Option.some.inj h), hne⟩
  rw [not_or]
  exact ⟨fun h => hb.2.1 (Option.some.inj h), fun h => hb.2.2.1 (Option.some.inj h)⟩

theorem Opens.space {start : Bytes} (h : Opens start) : ∀ b ∈ start.head?, isSpace b = false :=
  fun b hb => (h b hb).1

theorem Separates.or {name value : Bytes} {sep : Byte} (h : Separates name value sep) :
    sep = ch '=' ∨ sep = ch ':' := by
  cases h with
  | equals => exact Or.inl rfl
  | colon => exact Or.inr rfl

/-- Where the white space in front of a line ends. -/
theorem does_behind {place next : Place} {event : LineEvent} {pad text : Bytes} {moved : Prop}
    [Decidable moved] (hpad : Blank pad) (hne : text ≠ [])
    (hhead : ∀ b ∈ text.head?, isSpace b = false)
    (hmoved : place.prevName = [] ∨
      (moved ↔ lskip (CString.rstrip (pad ++ text)) ≠ CString.rstrip (pad ++ text)))
    (h : place.prevName = [] ∨ (moved ↔ pad ≠ []) →
      Does place event next moved (CString.rstrip text)) :
    Does place event next moved (lskip (CString.rstrip (pad ++ text))) := by
  obtain ⟨hstart, hskipped⟩ := lskip_rstrip_pad hpad hne hhead
  rw [hskipped] at hmoved
  rw [hstart]
  exact h hmoved

theorem openBracket_head (s : Bytes) : ∀ b ∈ (ch '[' :: s).head?, isSpace b = false := by
  intro b hb
  cases hb
  decide

theorem rstrip_cons {b : Byte} (hb : isSpace b = false) (s : Bytes) :
    CString.rstrip (b :: s) = b :: CString.rstrip s := by
  simpa using rstrip_append_cons hb [] s

section Lines

variable {place : Place} {pad : Bytes} {moved : Prop} [Decidable moved]

theorem does_entryLine {name before after value tail : Bytes} {sep : Byte}
    (h : Allowed place (.entry pad name before sep after value tail)) (hnul : 0 ∉ value)
    (hmoved : place.prevName = [] ∨ (moved ↔ pad ≠ [])) :
    Does place (.call ⟨place.section, name, value⟩) ⟨place.section, name.take (maxName - 1)⟩ moved
      (CString.rstrip (name ++ before ++ sep :: (after ++ (value ++ tail)))) := by
  cases h with
  | entry hpad opens hname nameComment hbefore nonempty hafter hvalue valueComment separates
      htail bare =>
      have hspace : isSpace sep = false := by
        cases separates with
        | equals => decide
        | colon => decide
      have hstart := (entry_head opens nonempty separates.or
        (CString.rstrip (after ++ (value ++ tail)))).entryStart (by simp)
      have hsplit := separated_eq nameComment hbefore hafter separates htail
      have hdoes := does_entry hpad hmoved hstart separates.or hsplit
      rw [rstrip_append hbefore, hname.rstrip_eq,
        value_eq hafter hvalue hnul valueComment htail bare] at hdoes
      rw [rstrip_append_cons hspace]
      exact hdoes

theorem does_unclosedLine {name tail : Bytes} (hpad : Starts place pad) (absent : ch ']' ∉ name)
    (htail : Tail tail) (hmoved : place.prevName = [] ∨ (moved ↔ pad ≠ [])) :
    Does place .bad place moved (CString.rstrip (ch '[' :: (name ++ tail))) := by
  obtain ⟨name', tail', hsame, hle, htail'⟩ := htail.rstrip name
  rw [rstrip_cons (by decide), hsame]
  exact does_unclosed hpad hmoved (fun hmem => absent (hle.subset hmem)) htail'

theorem does_unseparatedLine {text tail : Bytes}
    (h : Allowed place (.unseparated pad text tail))
    (hmoved : place.prevName = [] ∨ (moved ↔ pad ≠ [])) :
    Does place .bad place moved (CString.rstrip (text ++ tail)) := by
  cases h with
  | unseparated hpad opens htext nonempty noEquals noColon htail =>
      have hstart : EntryStart (CString.rstrip (text ++ tail)) := by
        obtain ⟨b, t, rfl⟩ := List.exists_cons_of_ne_nil nonempty
        rw [List.cons_append, rstrip_cons (opens b rfl).1]
        have hopens : Opens (b :: CString.rstrip (t ++ tail)) := opens
        exact hopens.entryStart (List.cons_ne_nil _ _)
      obtain ⟨text', tail', hsame, hle, htail'⟩ := htail.rstrip text
      apply does_unseparated hpad hmoved hstart
      · rw [hsame]
        exact htail'.not_found (fun hmem => noEquals (hle.subset hmem)) (by decide) (by decide)
      · rw [hsame]
        exact htail'.not_found (fun hmem => noColon (hle.subset hmem)) (by decide) (by decide)

end Lines

theorem Allowed.does {place : Place} {item : IniItem} (h : item.Allowed place)
    (hclean : Clean item.line) {moved : Prop} [Decidable moved]
    (hmoved : place.prevName = [] ∨
      (moved ↔ lskip (CString.rstrip item.line) ≠ CString.rstrip item.line)) :
    Does place (item.event place) (item.next place) moved
      (lskip (CString.rstrip item.line)) := by
  cases h with
  | @blank pad hpad =>
      rw [line, rstrip_blank hpad]
      exact does_quiet (Or.inl rfl)
  | @comment pad text mark hpad hmark =>
      have hspace : isSpace mark = false := by
        cases hmark with
        | inl h => subst h; decide
        | inr h => subst h; decide
      rw [line, rstrip_append_cons hspace, lskip_append hpad,
        lskip_of_head (by simpa using hspace)]
      exact does_quiet (Or.inr (hmark.imp (congrArg some) (congrArg some)))
  | @header pad name tail hpad absent commentFree =>
      apply does_behind hpad.1 (List.cons_ne_nil _ _) (openBracket_head _) hmoved
      intro hmoved'
      rw [rstrip_cons (by decide), rstrip_append_cons (by decide)]
      exact does_header hpad hmoved' absent commentFree
  | @entry pad name before after value tail sep hpad opens hname nameComment hbefore nonempty
      hafter hvalue valueComment separates htail bare =>
      have hall : Allowed place (.entry pad name before sep after value tail) :=
        .entry hpad opens hname nameComment hbefore nonempty hafter hvalue valueComment separates
          htail bare
      have hnul : 0 ∉ value := fun hmem => hclean.nulFree (by simp [line, hmem])
      apply does_behind hpad.1 (by simp) _ hmoved
      · exact does_entryLine hall hnul
      · exact (entry_head opens nonempty separates.or _).space
  | @more pad text tail named hpad indented htext nonempty opens htail =>
      have hhead : ∀ b ∈ (text ++ tail).head?, isSpace b = false := by
        intro b hb
        rw [List.head?_append_of_ne_nil _ nonempty] at hb
        exact htext.head b hb
      have hmark : ¬ (text.head? = some (ch ';') ∨ text.head? = some (ch '#')) := by
        rw [not_or]
        exact ⟨fun h => (opens _ h).1 rfl, fun h => (opens _ h).2 rfl⟩
      apply does_behind hpad (by simp [nonempty]) hhead hmoved
      intro hmoved'
      rw [rstrip_append htail, htext.rstrip_eq]
      exact does_more named ((hmoved'.resolve_left named).mpr indented) hmark nonempty
  | @unclosed pad name tail hpad absent htail =>
      apply does_behind hpad.1 (List.cons_ne_nil _ _) (openBracket_head _) hmoved
      exact does_unclosedLine hpad absent htail
  | @unseparated pad text tail hpad opens htext nonempty noEquals noColon htail =>
      have hall : Allowed place (.unseparated pad text tail) :=
        .unseparated hpad opens htext nonempty noEquals noColon htail
      have hhead : ∀ b ∈ (text ++ tail).head?, isSpace b = false := by
        intro b hb
        rw [List.head?_append_of_ne_nil _ nonempty] at hb
        exact htext.head b hb
      apply does_behind hpad.1 (by simp [nonempty]) hhead hmoved
      exact does_unseparatedLine hall

/-! ## The whole file -/

theorem Fits.cstr_line {item : IniItem} (h : item.Fits) :
    cstr (item.line ++ [10]) = item.line ++ [10] :=
  cstr_of_nulFree (nulFree_append.mpr ⟨h.clean.nulFree, by decide⟩)

theorem rstrip_newline (s : Bytes) : CString.rstrip (s ++ [10]) = CString.rstrip s :=
  rstrip_append (by decide) s

/-- A line that is not the first one, or that does not start with a byte order mark. -/
theorem Allowed.lineDoes {place : Place} {item : IniItem} (h : item.Allowed place)
    (hfits : item.Fits) {n : Nat} (hn : n + 1 < 2147483648)
    (hmark : n = 0 → ¬ bom <+: item.line ++ [10]) :
    LineDoes place n (item.line ++ [10]) (item.event place) (item.next place) := by
  have hdoes := h.does hfits.clean (Or.inr Iff.rfl)
  apply lineDoes_plain hn
  · rw [hfits.cstr_line]
    exact fun hbom => hmark hbom.1 hbom.2
  · rw [hfits.cstr_line, rstrip_newline]
    exact hdoes

theorem Allowed.lineDoes_marked {item : IniItem} (h : item.Allowed ⟨[], []⟩)
    (hfits : item.Fits) :
    LineDoes ⟨[], []⟩ 0 (bom ++ (item.line ++ [10])) (item.event ⟨[], []⟩)
      (item.next ⟨[], []⟩) := by
  have hdoes : Does ⟨[], []⟩ (item.event ⟨[], []⟩) (item.next ⟨[], []⟩) True
      (lskip (CString.rstrip item.line)) := h.does hfits.clean (Or.inl rfl)
  have hdrop : (bom ++ (item.line ++ [10])).drop 3 = item.line ++ [10] := rfl
  have hbom : cstr (bom ++ (item.line ++ [10])) = bom ++ (item.line ++ [10]) := by
    rw [cstr_append (by decide), hfits.cstr_line]
  apply STRos.lineDoes_marked
  · rw [hbom]
    exact List.prefix_append _ _
  · rw [hbom, hdrop, rstrip_newline]
    exact hdoes

theorem linesDo {place : Place} {items : List IniItem} (h : AllAllowed place items)
    (hfits : ∀ item ∈ items, item.Fits) {n : Nat} (hn : n + items.length < 2147483648)
    (hmark : n = 0 → ∀ item ∈ items.head?, ¬ bom <+: item.line ++ [10]) :
    LinesDo place n ((items.map line).map (· ++ [10])) (events place items) := by
  induction items generalizing place n with
  | nil => exact .nil place n
  | cons item items ih =>
      rw [List.forall_mem_cons] at hfits
      rw [List.length_cons] at hn
      have hfirst := h.1.lineDoes hfits.1 (by omega) fun hzero => hmark hzero item rfl
      exact .cons hfirst (ih h.2 hfits.2 (by omega) fun hzero => absurd hzero (Nat.succ_ne_zero n))

end IniItem

/-- A file of these lines, with a byte order mark in front of it or not. -/
structure WrittenFile (mark : Bytes) (items : List IniItem) : Prop where
  allowed : IniItem.AllAllowed ⟨[], []⟩ items
  fits : ∀ item ∈ items, item.Fits
  few : items.length < 2147483648
  marked : (mark = [] ∧ ∀ item ∈ items.head?, ¬ bom <+: item.line) ∨
    (mark = bom ∧ ∀ item ∈ items.head?, item.line.length + 3 ≤ iniMaxLine - 2)

theorem no_bom {line : Bytes} (h : ¬ bom <+: line) : ¬ bom <+: line ++ [10] := by
  intro hbom
  cases List.prefix_concat_iff.mp hbom with
  | inl heq =>
      have hlast := congrArg List.getLast? heq
      rw [List.getLast?_concat] at hlast
      exact absurd hlast (by decide)
  | inr hline => exact h hline

theorem WrittenFile.lines {items : List IniItem} (h : ∀ item ∈ items, item.Fits) :
    ∀ line ∈ items.map IniItem.line, 10 ∉ line ∧ line.length ≤ iniMaxLine - 2 := by
  intro line hline
  obtain ⟨item, hitem, rfl⟩ := List.mem_map.mp hline
  exact ⟨(h item hitem).clean.oneLine, (h item hitem).short⟩

theorem fileLines_lines {lines : List Bytes}
    (h : ∀ line ∈ lines, 10 ∉ line ∧ line.length ≤ iniMaxLine - 2) :
    fileLines (iniMaxLine - 2) (joinLines lines) = lines.map (· ++ [10]) := by
  have hall := fileLines_joinLines h []
  rwa [List.append_nil, fileLines_nil, List.append_nil] at hall

theorem WrittenFile.linesDo {mark : Bytes} {items : List IniItem} (h : WrittenFile mark items)
    (hne : items ≠ [] ∨ mark = []) :
    LinesDo ⟨[], []⟩ 0 (fileLines (iniMaxLine - 2) (mark ++ joinLines (items.map IniItem.line)))
      (IniItem.events ⟨[], []⟩ items) := by
  have hlines := WrittenFile.lines h.fits
  cases h.marked with
  | inl hstart =>
      rw [hstart.1, List.nil_append, fileLines_lines hlines]
      exact IniItem.linesDo h.allowed h.fits ((Nat.zero_add _).trans_lt h.few)
        fun _ item hitem => no_bom (hstart.2 item hitem)
  | inr hbom =>
      cases items with
      | nil =>
          rw [hbom.1] at hne
          exact absurd rfl (hne.resolve_right (by decide))
      | cons item items =>
          have hfits := List.forall_mem_cons.mp h.fits
          have hshape : mark ++ joinLines ((item :: items).map IniItem.line) =
              joinLines ((bom ++ item.line) :: items.map IniItem.line) := by
            rw [hbom.1, List.map_cons, joinLines_cons, joinLines_cons, List.append_assoc]
          have hbomLines : ∀ line ∈ (bom ++ item.line) :: items.map IniItem.line,
              10 ∉ line ∧ line.length ≤ iniMaxLine - 2 := by
            rw [List.map_cons, List.forall_mem_cons] at hlines
            rw [List.forall_mem_cons]
            refine ⟨⟨?_, ?_⟩, hlines.2⟩
            · rw [List.mem_append, not_or]
              exact ⟨by decide, hlines.1.1⟩
            · have hshort := hbom.2 item rfl
              rw [List.length_append, bom]
              simp only [List.length_cons, List.length_nil]
              omega
          rw [hshape, fileLines_lines hbomLines, List.map_cons, List.append_assoc]
          have hfew := h.few
          rw [List.length_cons] at hfew
          exact .cons (h.allowed.1.lineDoes_marked hfits.1)
            (IniItem.linesDo h.allowed.2 hfits.2 (by omega)
              fun hzero => absurd hzero (Nat.succ_ne_zero 0))

theorem IniItem.events_length (place : Place) (items : List IniItem) :
    (IniItem.events place items).length = items.length := by
  induction items generalizing place with
  | nil => rfl
  | cons item items ih => exact congrArg Nat.succ (ih _)

theorem WrittenFile.parse {mark : Bytes} {items : List IniItem} (h : WrittenFile mark items)
    (hne : items ≠ [] ∨ mark = []) {σ : Type} (handler : IniHandler σ) (user : σ) :
    iniParseFile handler user (mark ++ joinLines (items.map IniItem.line)) =
      report handler user (IniItem.events ⟨[], []⟩ items) := by
  have hlines := (h.linesDo hne).length
  rw [IniItem.events_length] at hlines
  exact (h.linesDo hne).parse (hlines ▸ h.few) handler user

/-- A file with nothing but the byte order mark. -/
theorem linesDo_bom : LinesDo ⟨[], []⟩ 0 (fileLines (iniMaxLine - 2) bom) [.quiet] := by
  have hlines : fileLines (iniMaxLine - 2) bom = [bom] := by
    rw [fileLines_of_ne_nil _ (by decide)]
    have hrest : (fgets (iniMaxLine - 2 + 1) bom).2 = [] := by decide
    rw [hrest, fileLines_nil]
    decide
  have hdoes : Does ⟨[], []⟩ .quiet ⟨[], []⟩ True (lskip (rstrip ((cstr bom).drop 3))) :=
    does_quiet (Or.inl (by decide))
  rw [hlines]
  exact .cons (lineDoes_marked (by decide) hdoes) (.nil _ 1)

/-- A parse of the lines reports what they mean. -/
theorem iniParseFile_written {mark : Bytes} {items : List IniItem} (h : WrittenFile mark items)
    {σ : Type} (handler : IniHandler σ) (user : σ) :
    iniParseFile handler user (mark ++ joinLines (items.map IniItem.line)) =
      report handler user (IniItem.events ⟨[], []⟩ items) := by
  by_cases hne : items ≠ [] ∨ mark = []
  · exact h.parse hne handler user
  · rw [not_or, not_not] at hne
    have hmark : mark = bom := by
      cases h.marked with
      | inl hstart => exact absurd hstart.1 hne.2
      | inr hbom => exact hbom.1
    have hfile : mark ++ joinLines (items.map IniItem.line) = bom := by
      rw [hne.1, hmark]
      decide
    have hlines := linesDo_bom.length
    rw [hfile, linesDo_bom.parse (by rw [← hlines]; decide) handler user, hne.1]
    rfl

def writtenItems : List IniItem :=
  [.header [] (str "MASTER") (str " ;"),
    .entry [] (str "uri") (str " ") (ch '=') (str " ") (str "10.0.0.7;a")
      (str " " ++ ch ';' :: str " master"),
    .more (str "  ") (str "10.0.0.8") [],
    .unclosed [] (str "NODE") (str " " ++ ch ';' :: str "]"),
    .entry [] (str "port") [] (ch ':') (str " ") (str "11312") []]

theorem writtenItems_file : WrittenFile bom writtenItems where
  allowed := by
    refine ⟨.header ⟨by decide, by decide⟩ (by decide) (by decide),
      .entry ⟨by decide, by decide⟩ (by decide) (by decide) (by decide) (by decide) (by decide)
        (by decide) (by decide) (by decide) (.equals (by decide)) (.comment (by decide) (by decide))
        (by decide),
      .more (by decide) (by decide) (by decide) (by decide) (by decide)
        (fun b hb => by cases hb; decide) (by decide),
      .unclosed ⟨by decide, by decide⟩ (by decide) (.comment (by decide) (by decide)),
      .entry ⟨by decide, by decide⟩ (by decide) (by decide) (by decide) (by decide) (by decide)
        (by decide) (by decide) (by decide) (.colon (by decide) (by decide)) (.blank (by decide))
        (by decide),
      trivial⟩
  fits := by decide
  few := by decide
  marked := Or.inr ⟨rfl, by decide⟩

theorem iniParseFile_written_items :
    (iniParseFile (fun user entry => (user ++ [entry], configKnown entry)) []
      (bom ++ joinLines (writtenItems.map IniItem.line))) =
      (4, [⟨str "MASTER", str "uri", str "10.0.0.7;a"⟩, ⟨str "MASTER", str "uri", str "10.0.0.8"⟩,
        ⟨str "MASTER", str "port", str "11312"⟩]) := by
  rw [iniParseFile_written writtenItems_file]
  rfl

end STRos
