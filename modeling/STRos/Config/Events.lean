import STRos.Config.Scanning
import Mathlib.Data.List.TakeDrop

/-! # What the lines of a file do

Whatever a file holds, each line read from it does one of five things. Which one can be
read off the line and what is remembered of the lines before it, and does not depend on the
handler, so a parse is one fold over the entries it hands out.
-/

namespace STRos

open CString

/-! ## One line -/

structure Place where
  «section» : Bytes
  prevName : Bytes

inductive LineEvent where
  | quiet
  | call (entry : ConfigEntry)
  | bad

def LineEvent.outcome {σ : Type} (handler : IniHandler σ) (user : σ) : LineEvent → σ × Bool
  | quiet => (user, true)
  | call entry => handler user entry
  | bad => (user, false)

/-- No byte that ends a line or a string. -/
structure Clean (s : Bytes) : Prop where
  nulFree : NulFree s
  oneLine : 10 ∉ s

instance (s : Bytes) : Decidable (Clean s) :=
  decidable_of_iff (NulFree s ∧ 10 ∉ s) ⟨fun h => ⟨h.1, h.2⟩, fun h => ⟨h.nulFree, h.oneLine⟩⟩

theorem Clean.of_infix {s t : Bytes} (h : Clean t) (hs : s <:+: t) : Clean s :=
  ⟨fun hmem => h.nulFree (hs.subset hmem), fun hmem => h.oneLine (hs.subset hmem)⟩

structure ScannedEntry (room : Nat) (name value : Bytes) : Prop where
  nameClean : Clean name
  nameTrimmed : Trimmed name
  noEquals : ch '=' ∉ name
  nameComment : CommentFree name
  valueClean : Clean value
  valueTrimmed : Trimmed value
  valueComment : CommentFree value
  fits : name.length + value.length < room

inductive LineStep (room : Nat) (place : Place) : LineEvent → Place → Prop where
  | ignored : LineStep room place .quiet place
  | header {name : Bytes} (clean : Clean name) (unclosed : ch ']' ∉ name)
      (commentFree : CommentFree name) :
      LineStep room place .quiet ⟨name.take (maxSection - 1), []⟩
  | entry {name value : Bytes} (scanned : ScannedEntry room name value) :
      LineStep room place (.call ⟨place.section, name, value⟩)
        ⟨place.section, name.take (maxName - 1)⟩
  | continued {value : Bytes} (named : place.prevName ≠ []) (nonempty : value ≠ [])
      (clean : Clean value) (trimmed : Trimmed value) (fits : value.length ≤ room) :
      LineStep room place (.call ⟨place.section, place.prevName, value⟩) place
  | malformed : LineStep room place .bad place

/-- The character stands in the text, in front of any comment. -/
structure FoundAt (c : Byte) (front rest text : Bytes) : Prop where
  split : front ++ c :: rest = text
  first : c ∉ front
  commentFree : CommentFree front

/-- An equals sign separates, or a colon where there is no equals sign. -/
def Separated (front rest text : Bytes) : Prop :=
  FoundAt (ch '=') front rest text ∨
    (∀ before behind, ¬ FoundAt (ch '=') before behind text) ∧ FoundAt (ch ':') front rest text

/-- What is kept of a text ends where the text does, or where a comment starts. -/
structure Kept (kept text : Bytes) : Prop where
  commentFree : CommentFree kept
  ends : ∃ tail, kept ++ tail = text ∧
    (tail = [] ∨ tail.head? = some (ch ';') ∧ ∃ b ∈ kept.getLast?, isSpace b = true)

def Marked (text : Bytes) : Prop := text.head? = some (ch ';') ∨ text.head? = some (ch '#')

instance (text : Bytes) : Decidable (Marked text) := inferInstanceAs (Decidable (_ ∨ _))

/-- What a line says behind the lines before it. The text is the line without the white space
at its ends, and `indented` tells that some of it stood in front. -/
inductive LineReads (place : Place) (indented : Prop) (text : Bytes) :
    LineEvent → Place → Prop where
  | blank (empty : text = []) : LineReads place indented text .quiet place
  | comment (marked : Marked text) : LineReads place indented text .quiet place
  | continued (unmarked : ¬ Marked text) (nonempty : text ≠ [])
      (behind : place.prevName ≠ [] ∧ indented) :
      LineReads place indented text (.call ⟨place.section, place.prevName, text⟩) place
  | header {name rest : Bytes} (alone : ¬ (place.prevName ≠ [] ∧ indented))
      (opens : text.head? = some (ch '[')) (closes : FoundAt (ch ']') name rest text.tail) :
      LineReads place indented text .quiet ⟨name.take (maxSection - 1), []⟩
  | unclosed (alone : ¬ (place.prevName ≠ [] ∧ indented)) (opens : text.head? = some (ch '['))
      (never : ∀ name rest, ¬ FoundAt (ch ']') name rest text.tail) :
      LineReads place indented text .bad place
  | entry {front rest kept : Bytes} (unmarked : ¬ Marked text)
      (alone : ¬ (place.prevName ≠ [] ∧ indented)) (unopened : text.head? ≠ some (ch '['))
      (separated : Separated front rest text) (keeps : Kept kept (lskip rest)) :
      LineReads place indented text (.call ⟨place.section, rstrip front, rstrip kept⟩)
        ⟨place.section, (rstrip front).take (maxName - 1)⟩
  | unseparated (unmarked : ¬ Marked text) (nonempty : text ≠ [])
      (alone : ¬ (place.prevName ≠ [] ∧ indented)) (unopened : text.head? ≠ some (ch '['))
      (never : ∀ front rest, ¬ Separated front rest text) :
      LineReads place indented text .bad place

section Meet

variable {σ : Type} (handler : IniHandler σ) (st : IniState σ)

def IniState.place : Place := ⟨st.section, st.prevName⟩

def IniState.meet (event : LineEvent) (next : Place) : IniState σ where
  «section» := next.section
  prevName := next.prevName
  lineno := st.lineno
  error := if (event.outcome handler st.user).2 = true ∨ st.error ≠ 0 then st.error else st.lineno
  user := (event.outcome handler st.user).1

theorem meet_quiet : st.meet handler .quiet st.place = st := by
  simp [IniState.meet, IniState.place, LineEvent.outcome]

theorem meet_bad : st.meet handler .bad st.place = st.fail := by
  simp only [IniState.meet, IniState.place, LineEvent.outcome, IniState.fail, Bool.false_eq_true,
    false_or, ite_not, ne_eq]

theorem meet_call (name value : Bytes) :
    st.meet handler (.call ⟨st.section, name, value⟩) st.place = st.call handler name value := by
  let event := LineEvent.call ⟨st.section, name, value⟩
  have hcond : ((event.outcome handler st.user).2 = true ∨ st.error ≠ 0) ↔
      (handler st.user ⟨st.section, name, value⟩).2 = true ∨ st.error ≠ 0 := Iff.rfl
  simp only [IniState.meet, IniState.call, IniState.fail]
  by_cases hok : (handler st.user ⟨st.section, name, value⟩).2 = true
  · rw [if_pos hok, if_pos (hcond.mpr (Or.inl hok))]
    rfl
  · rw [if_neg hok]
    by_cases herror : st.error = 0
    · rw [if_neg (mt hcond.mp (not_or.mpr ⟨hok, not_not.mpr herror⟩)), if_pos herror]
      rfl
    · rw [if_pos (hcond.mpr (Or.inr herror)), if_neg herror]
      rfl

end Meet

/-- The line does this, whoever handles the entries. -/
def Does (place : Place) (event : LineEvent) (next : Place) (moved : Prop) [Decidable moved]
    (start : Bytes) : Prop :=
  ∀ (σ : Type) (handler : IniHandler σ) (st : IniState σ), st.place = place →
    iniStart handler st moved start = st.meet handler event next

/-! ## name = value -/

theorem head?_eq_some_tail {s : Bytes} {b : Byte} (h : s.head? = some b) : s = b :: s.tail := by
  cases s with
  | nil => cases h
  | cons c s =>
      cases h
      rfl

/-- The search finds the character exactly where it stands. -/
theorem foundAt_iff {c : Byte} {front rest text : Bytes} :
    FoundAt c front rest text ↔ findCharOrComment text c = (front, c :: rest) := by
  constructor
  · rintro ⟨rfl, hfirst, hfree⟩
    exact findCharOrComment_eq hfirst hfree fun b hb => Or.inl (by cases hb; rfl)
  · intro h
    have hsplit := findCharOrComment_append text c
    have hpassed := findCharOrComment_passed text c
    rw [h] at hsplit hpassed
    exact ⟨hsplit, hpassed.absent, hpassed.commentFree⟩

theorem foundAt_of_found {c : Byte} {text : Bytes}
    (h : (findCharOrComment text c).2.head? = some c) :
    FoundAt c (findCharOrComment text c).1 (findCharOrComment text c).2.tail text :=
  foundAt_iff.mpr (Prod.ext rfl (head?_eq_some_tail h))

theorem not_foundAt {c : Byte} {text : Bytes} (h : (findCharOrComment text c).2.head? ≠ some c)
    (front rest : Bytes) : ¬ FoundAt c front rest text := by
  intro hstands
  rw [foundAt_iff.mp hstands] at h
  exact h rfl

theorem Separated.noEquals {front rest text : Bytes} (h : Separated front rest text) :
    ch '=' ∉ front := by
  rcases h with hequals | ⟨hnone, hcolon⟩
  · exact hequals.first
  · intro hmem
    obtain ⟨before, behind, rfl, hfirst⟩ := List.eq_append_cons_of_mem hmem
    have hfree := hcolon.commentFree.of_infix (List.prefix_append before _).isInfix
    exact hnone before (behind ++ ch ':' :: rest)
      ⟨by rw [← hcolon.split]; simp, hfirst, hfree⟩

theorem Separated.split {front rest text : Bytes} (h : Separated front rest text) :
    ∃ sep, front ++ sep :: rest = text ∧ CommentFree front := by
  rcases h with hequals | ⟨-, hcolon⟩
  · exact ⟨_, hequals.split, hequals.commentFree⟩
  · exact ⟨_, hcolon.split, hcolon.commentFree⟩

theorem kept_of_nulFree {text : Bytes} (h : NulFree text) :
    Kept (findCharOrComment text 0).1 text := by
  have hstop : StopsAt 0 false (findCharOrComment text 0).1 (findCharOrComment text 0).2 :=
    findFrom_stops 0 false text
  refine ⟨(findCharOrComment_passed text 0).commentFree, (findCharOrComment text 0).2,
    findCharOrComment_append text 0, ?_⟩
  cases htail : (findCharOrComment text 0).2 with
  | nil => exact Or.inl rfl
  | cons b tail =>
      right
      rw [htail] at hstop
      rcases hstop b rfl with hnul | ⟨hcomment, hspace⟩
      · have hsplit := findCharOrComment_append text 0
        rw [htail, hnul] at hsplit
        exact absurd (hsplit ▸ by simp) h
      · refine ⟨by rw [hcomment]; rfl, ?_⟩
        simpa [spaceBefore, Option.getD_eq_iff] using hspace

theorem scannedEntry {room : Nat} {start front rest kept : Bytes} (hclean : Clean start)
    (htrim : Trimmed start) (hroom : start.length ≤ room) (hsep : Separated front rest start)
    (hkept : Kept kept (lskip rest)) : ScannedEntry room (rstrip front) (rstrip kept) := by
  obtain ⟨sep, hsplit, hcomment⟩ := hsep.split
  obtain ⟨tail, hvalue, -⟩ := hkept.ends
  have hfront : rstrip front <+: start := (rstrip_le front).trans ⟨sep :: rest, hsplit⟩
  have hskip : lskip rest <:+: rest := (lskip_le _).isInfix
  have hrest : rest <:+: start := ⟨front ++ [sep], [], by rw [← hsplit]; simp⟩
  have hprefix : kept <+: lskip rest := ⟨tail, hvalue⟩
  have hall : rstrip kept <:+: start :=
    (((rstrip_le _).trans hprefix).isInfix.trans hskip).trans hrest
  refine ⟨hclean.of_infix hfront.isInfix, ⟨?_, rstrip_last _⟩,
    fun hmem => hsep.noEquals ((rstrip_le front).subset hmem),
    hcomment.of_infix (rstrip_le front).isInfix, hclean.of_infix hall, ⟨?_, rstrip_last _⟩,
    hkept.commentFree.of_infix (rstrip_le _).isInfix, ?_⟩
  · intro b hb
    apply htrim.head
    obtain ⟨t, ht⟩ := hfront
    rw [← ht, List.head?_append, Option.mem_def.mp hb]
    rfl
  · apply rstrip_head
    intro b hb
    apply lskip_head rest
    rw [← hvalue, List.head?_append, Option.mem_def.mp hb]
    rfl
  · have hfrontLen := (rstrip_le front).length_le
    have hvalueLen := ((rstrip_le _).trans hprefix).length_le
    have hskipLen := hskip.length_le
    have hlen := congrArg List.length hsplit
    rw [List.length_append, List.length_cons] at hlen
    omega

/-- What a line says is one of the things a line that fits can do. -/
theorem LineReads.step {room : Nat} {place next : Place} {indented : Prop} {text : Bytes}
    {event : LineEvent} (h : LineReads place indented text event next) (hclean : Clean text)
    (htrim : Trimmed text) (hroom : text.length ≤ room) : LineStep room place event next := by
  cases h with
  | blank => exact .ignored
  | comment => exact .ignored
  | continued unmarked nonempty behind => exact .continued behind.1 nonempty hclean htrim hroom
  | @header name rest alone opens closes =>
      have hname : name <:+: text :=
        List.IsPrefix.isInfix ⟨_, closes.split⟩ |>.trans (List.tail_suffix text).isInfix
      exact .header (hclean.of_infix hname) closes.first closes.commentFree
  | unclosed => exact .malformed
  | entry unmarked alone unopened separated keeps =>
      exact .entry (scannedEntry hclean htrim hroom separated keeps)
  | unseparated => exact .malformed

def separated (start : Bytes) : Bytes × Bytes :=
  if (findCharOrComment start (ch '=')).2.head? ≠ some (ch '=') then
    findCharOrComment start (ch ':')
  else findCharOrComment start (ch '=')

theorem separated_found {start : Bytes}
    (h : (separated start).2.head? = some (ch '=') ∨ (separated start).2.head? = some (ch ':')) :
    Separated (separated start).1 (separated start).2.tail start := by
  by_cases hequals : (findCharOrComment start (ch '=')).2.head? = some (ch '=')
  · have hsep : separated start = findCharOrComment start (ch '=') := if_neg (not_not.mpr hequals)
    rw [hsep]
    exact Or.inl (foundAt_of_found hequals)
  · have hsep : separated start = findCharOrComment start (ch ':') := if_pos hequals
    rw [hsep] at h ⊢
    refine Or.inr ⟨not_foundAt hequals, foundAt_of_found (h.resolve_left fun hfound => ?_)⟩
    exact absurd (findFrom_head _ hfound) (by decide)

theorem not_separated {start : Bytes}
    (h : ¬ ((separated start).2.head? = some (ch '=') ∨
      (separated start).2.head? = some (ch ':'))) (front rest : Bytes) :
    ¬ Separated front rest start := by
  rw [not_or] at h
  by_cases hequals : (findCharOrComment start (ch '=')).2.head? = some (ch '=')
  · have hsep : separated start = findCharOrComment start (ch '=') := if_neg (not_not.mpr hequals)
    rw [hsep] at h
    exact absurd hequals h.1
  · have hsep : separated start = findCharOrComment start (ch ':') := if_pos hequals
    rw [hsep] at h
    rintro (hfound | ⟨-, hfound⟩)
    · exact not_foundAt hequals front rest hfound
    · exact not_foundAt h.2 front rest hfound

section Entry

variable {σ : Type} (handler : IniHandler σ) (st : IniState σ)

theorem iniEntry_eq (start : Bytes) :
    iniEntry handler st start =
      if (separated start).2.head? = some (ch '=') ∨ (separated start).2.head? = some (ch ':') then
        { st with prevName := (rstrip (separated start).1).take (maxName - 1) }.call handler
          (rstrip (separated start).1)
          (rstrip (findCharOrComment (lskip (separated start).2.tail) 0).1)
      else st.fail := rfl

/-- The name is remembered, and handed over with the value. -/
theorem call_named (name value : Bytes) :
    { st with prevName := name.take (maxName - 1) }.call handler name value =
      st.meet handler (.call ⟨st.section, name, value⟩) ⟨st.section, name.take (maxName - 1)⟩ := by
  rw [← meet_call]
  rfl

end Entry

/-! ## The branches of a line -/

section Branches

variable {start : Bytes} {place : Place} {moved : Prop} [Decidable moved]
  (hmark : ¬ Marked start) (hmore : ¬ (place.prevName ≠ [] ∧ start ≠ [] ∧ moved))

include hmark hmore

/-- Neither a comment nor a line that goes on with the value of the one before it. -/
theorem iniStart_other {σ : Type} (handler : IniHandler σ) {st : IniState σ}
    (hst : st.place = place) :
    iniStart handler st moved start =
      if start.head? = some (ch '[') then
        if (findCharOrComment start.tail (ch ']')).2.head? = some (ch ']') then
          { st with
            «section» := (findCharOrComment start.tail (ch ']')).1.take (maxSection - 1)
            prevName := [] }
        else st.fail
      else if start ≠ [] ∧ start.head? ≠ some (ch ';') then iniEntry handler st start
      else st := by
  subst hst
  exact (if_neg hmark).trans (if_neg hmore)

theorem exists_headerReads (hopen : start.head? = some (ch '[')) :
    ∃ event next, LineReads place moved start event next ∧ Does place event next moved start := by
  have hne : start ≠ [] := by
    rintro rfl
    cases hopen
  have halone : ¬ (place.prevName ≠ [] ∧ moved) := fun h => hmore ⟨h.1, hne, h.2⟩
  by_cases hclose : (findCharOrComment start.tail (ch ']')).2.head? = some (ch ']')
  · refine ⟨_, _, .header halone hopen (foundAt_of_found hclose), ?_⟩
    intro σ handler st hst
    rw [iniStart_other hmark hmore handler hst, if_pos hopen, if_pos hclose]
    exact (meet_quiet handler { st with
      «section» := (findCharOrComment start.tail (ch ']')).1.take (maxSection - 1)
      prevName := [] }).symm
  · refine ⟨.bad, place, .unclosed halone hopen (not_foundAt hclose), ?_⟩
    intro σ handler st hst
    rw [iniStart_other hmark hmore handler hst, if_pos hopen, if_neg hclose, ← hst, meet_bad]

theorem exists_entryReads (hclean : Clean start) (hopen : start.head? ≠ some (ch '['))
    (hentry : start ≠ [] ∧ start.head? ≠ some (ch ';')) :
    ∃ event next, LineReads place moved start event next ∧ Does place event next moved start := by
  have halone : ¬ (place.prevName ≠ [] ∧ moved) := fun h => hmore ⟨h.1, hentry.1, h.2⟩
  by_cases hsep : (separated start).2.head? = some (ch '=') ∨
      (separated start).2.head? = some (ch ':')
  · have hsplits := separated_found hsep
    have hvalue : NulFree (lskip (separated start).2.tail) := by
      obtain ⟨sep, hsplit, -⟩ := hsplits.split
      intro hmem
      have htail := (lskip_le _).subset hmem
      exact hclean.nulFree (hsplit ▸ by simp [htail])
    refine ⟨_, _, .entry hmark halone hopen hsplits (kept_of_nulFree hvalue), ?_⟩
    intro σ handler st hst
    rw [iniStart_other hmark hmore handler hst, if_neg hopen, if_pos hentry, iniEntry_eq,
      if_pos hsep, call_named, ← hst]
    rfl
  · refine ⟨.bad, place, .unseparated hmark hentry.1 halone hopen (not_separated hsep), ?_⟩
    intro σ handler st hst
    rw [iniStart_other hmark hmore handler hst, if_neg hopen, if_pos hentry, iniEntry_eq,
      if_neg hsep, ← hst, meet_bad]

end Branches

/-- Every line says something, and this is what it does. -/
theorem exists_lineReads {start : Bytes} (place : Place) (moved : Prop) [Decidable moved]
    (hclean : Clean start) :
    ∃ event next, LineReads place moved start event next ∧ Does place event next moved start := by
  by_cases hmark : Marked start
  · refine ⟨.quiet, place, .comment hmark, ?_⟩
    rintro σ handler st rfl
    exact (if_pos hmark).trans (meet_quiet handler st).symm
  by_cases hmore : place.prevName ≠ [] ∧ start ≠ [] ∧ moved
  · refine ⟨_, _, .continued hmark hmore.2.1 ⟨hmore.1, hmore.2.2⟩, ?_⟩
    rintro σ handler st rfl
    exact (if_neg hmark).trans
      ((if_pos hmore).trans (meet_call handler st st.prevName start).symm)
  by_cases hopen : start.head? = some (ch '[')
  · exact exists_headerReads hmark hmore hopen
  by_cases hnil : start = []
  · refine ⟨.quiet, place, .blank hnil, ?_⟩
    intro σ handler st hst
    rw [iniStart_other hmark hmore handler hst, if_neg hopen, if_neg fun h => h.1 hnil, ← hst,
      meet_quiet]
  · exact exists_entryReads hmark hmore hclean hopen ⟨hnil, fun h => hmark (Or.inl h)⟩

/-! ## A line of the file -/

/-- A line as `fgets` returns it. -/
structure ReadLine (room : Nat) (line : Bytes) : Prop where
  fits : line.length ≤ room
  newline : 10 ∉ line.dropLast

/-- White space behind a text takes the newline with it. -/
theorem rstrip_oneLine {s : Bytes} (h : 10 ∉ s.dropLast) : 10 ∉ rstrip s := by
  intro hmem
  obtain ⟨front, rest, hsplit⟩ := List.append_of_mem hmem
  obtain ⟨tail, htail⟩ := rstrip_le s
  cases rest with
  | nil =>
      have hnewline : isSpace 10 = true := by decide
      have hlast := rstrip_last s 10 (by rw [hsplit, List.getLast?_concat]; rfl)
      rw [hnewline] at hlast
      cases hlast
  | cons b rest =>
      apply h
      rw [← htail, hsplit, List.append_assoc, List.cons_append, List.dropLast_append_cons,
        List.cons_append, List.dropLast_cons_of_ne_nil (by simp)]
      simp

/-- What is behind a prefix of a line is clean when the white space is gone. -/
theorem ReadLine.start {room : Nat} {line : Bytes} (h : ReadLine room line) (n : Nat) :
    Clean (lskip (rstrip ((cstr line).drop n))) ∧
      (lskip (rstrip ((cstr line).drop n))).length ≤ room := by
  have hcstr : cstr line <+: line := List.takeWhile_prefix _
  have hkept : lskip (rstrip ((cstr line).drop n)) <:+: (cstr line).drop n :=
    (lskip_le _).isInfix.trans (rstrip_le _).isInfix
  have hdrop : (cstr line).drop n <:+: cstr line := (List.drop_suffix n _).isInfix
  refine ⟨⟨fun hmem => cstr_nulFree line ((hkept.trans hdrop).subset hmem), ?_⟩,
    ((hkept.trans hdrop).trans hcstr.isInfix).length_le.trans h.fits⟩
  have hnewline : 10 ∉ ((cstr line).drop n).dropLast := by
    intro hmem
    apply h.newline
    obtain ⟨tail, htail⟩ := hcstr
    rw [List.dropLast_drop_eq_drop_dropLast] at hmem
    have hfront := List.mem_of_mem_drop hmem
    rw [← htail]
    cases tail with
    | nil => rwa [List.append_nil]
    | cons b tail =>
        rw [List.dropLast_append_cons]
        exact List.mem_append_left _ (List.mem_of_mem_dropLast hfront)
  exact fun hmem => rstrip_oneLine hnewline ((lskip_le _).subset hmem)

/-- What a line says when it is the one behind `n` others. A byte order mark in front of the
first line is passed over, and counts as white space. -/
inductive LineMeans (place : Place) : Nat → Bytes → LineEvent → Place → Prop where
  | marked {line : Bytes} {event : LineEvent} {next : Place} (mark : bom <+: cstr line)
      (reads : LineReads place True (lskip (rstrip ((cstr line).drop 3))) event next) :
      LineMeans place 0 line event next
  | plain {n : Nat} {line : Bytes} {event : LineEvent} {next : Place}
      (unmarked : ¬ (n = 0 ∧ bom <+: cstr line))
      (reads : LineReads place (lskip (rstrip (cstr line)) ≠ rstrip (cstr line))
        (lskip (rstrip (cstr line))) event next) :
      LineMeans place n line event next

theorem LineMeans.step {room n : Nat} {place next : Place} {line : Bytes} {event : LineEvent}
    (h : LineMeans place n line event next) (hline : ReadLine room line) :
    LineStep room place event next := by
  cases h with
  | marked mark reads =>
      exact reads.step (hline.start 3).1 (trimmed_lskip_rstrip _) (hline.start 3).2
  | plain unmarked reads =>
      have hstart := hline.start 0
      rw [List.drop_zero] at hstart
      exact reads.step hstart.1 (trimmed_lskip_rstrip _) hstart.2

def LineDoes (place : Place) (n : Nat) (line : Bytes) (event : LineEvent) (next : Place) : Prop :=
  ∀ (σ : Type) (handler : IniHandler σ) (st : IniState σ), st.place = place →
    st.lineno = Int32.ofNat n →
      iniLine handler st line = { st with lineno := Int32.ofNat (n + 1) }.meet handler event next

theorem lineno_succ {σ : Type} {st : IniState σ} {n : Nat} (h : st.lineno = Int32.ofNat n) :
    st.lineno + 1 = Int32.ofNat (n + 1) := by
  rw [h, Int32.ofNat_add]
  rfl

theorem lineno_inj {m n : Nat} (hm : m < 2147483648) (hn : n < 2147483648) :
    Int32.ofNat m = Int32.ofNat n ↔ m = n := by
  constructor
  · intro h
    have hint := congrArg Int32.toInt h
    rw [Int32.toInt_ofNat_of_lt (by omega), Int32.toInt_ofNat_of_lt (by omega)] at hint
    omega
  · rintro rfl
    rfl

theorem lineDoes_marked {place next : Place} {line : Bytes} {event : LineEvent}
    (hbom : bom <+: cstr line)
    (h : Does place event next True (lskip (rstrip ((cstr line).drop 3)))) :
    LineDoes place 0 line event next := by
  intro σ handler st hst hn
  rw [← lineno_succ hn, ← h σ handler { st with lineno := st.lineno + 1 } hst]
  exact if_pos ⟨lineno_succ hn, hbom⟩

theorem lineDoes_plain {place next : Place} {n : Nat} {line : Bytes} {event : LineEvent}
    (hn : n + 1 < 2147483648) (hbom : ¬ (n = 0 ∧ bom <+: cstr line))
    (h : Does place event next (lskip (rstrip (cstr line)) ≠ rstrip (cstr line))
      (lskip (rstrip (cstr line)))) :
    LineDoes place n line event next := by
  intro σ handler st hst hlineno
  rw [← lineno_succ hlineno, ← h σ handler { st with lineno := st.lineno + 1 } hst]
  refine if_neg fun hmark => hbom ⟨?_, hmark.2⟩
  have hfirst : Int32.ofNat (n + 1) = Int32.ofNat 1 := (lineno_succ hlineno).symm.trans hmark.1
  exact Nat.succ.inj ((lineno_inj hn (by decide)).mp hfirst)

theorem exists_lineDoes {room : Nat} {line : Bytes} (h : ReadLine room line) (place : Place)
    {n : Nat} (hn : n + 1 < 2147483648) :
    ∃ event next, LineMeans place n line event next ∧ LineDoes place n line event next := by
  by_cases hbom : n = 0 ∧ bom <+: cstr line
  · obtain ⟨rfl, hmark⟩ := hbom
    obtain ⟨event, next, hreads, hdoes⟩ := exists_lineReads place True (h.start 3).1
    exact ⟨event, next, .marked hmark hreads, lineDoes_marked hmark hdoes⟩
  · have hline := h.start 0
    rw [List.drop_zero] at hline
    obtain ⟨event, next, hreads, hdoes⟩ :=
      exists_lineReads place (lskip (rstrip (cstr line)) ≠ rstrip (cstr line)) hline.1
    exact ⟨event, next, .plain hbom hreads, lineDoes_plain hn hbom hdoes⟩

/-! ## A whole file -/

inductive LinesDo : Place → Nat → List Bytes → List LineEvent → Prop where
  | nil (place : Place) (n : Nat) : LinesDo place n [] []
  | cons {place next : Place} {n : Nat} {line : Bytes} {lines : List Bytes} {event : LineEvent}
      {events : List LineEvent} (first : LineDoes place n line event next)
      (rest : LinesDo next (n + 1) lines events) :
      LinesDo place n (line :: lines) (event :: events)

/-- What the lines say one after the other. A section lasts until the next header, and a name
until the next one or the next header. -/
inductive LinesMean : Place → Nat → List Bytes → List LineEvent → Prop where
  | nil (place : Place) (n : Nat) : LinesMean place n [] []
  | cons {place next : Place} {n : Nat} {line : Bytes} {lines : List Bytes} {event : LineEvent}
      {events : List LineEvent} (first : LineMeans place n line event next)
      (rest : LinesMean next (n + 1) lines events) :
      LinesMean place n (line :: lines) (event :: events)

section Report

variable {σ : Type} (handler : IniHandler σ)

/-- The number of the first line that is not accepted when `n` lines were read before them,
and 0 when all are. -/
def firstFailure : Nat → σ → List LineEvent → Nat
  | _, _, [] => 0
  | n, user, event :: events =>
      if (event.outcome handler user).2 = true then
        firstFailure (n + 1) (event.outcome handler user).1 events
      else n + 1

def LineEvent.entry? : LineEvent → Option ConfigEntry
  | call entry => some entry
  | _ => none

def entriesOf (events : List LineEvent) : List ConfigEntry := events.filterMap LineEvent.entry?

/-- The entries are handed over one after the other; the result is the number of the first
line that is not accepted. -/
def report (user : σ) (events : List LineEvent) : Int32 × σ :=
  (Int32.ofNat (firstFailure handler 0 user events),
    (entriesOf events).foldl (fun user entry => (handler user entry).1) user)

/-- Events that hand nothing over do nothing to the data. -/
theorem foldl_outcome (user : σ) (events : List LineEvent) :
    events.foldl (fun user event => (event.outcome handler user).1) user =
      (entriesOf events).foldl (fun user entry => (handler user entry).1) user := by
  induction events generalizing user with
  | nil => rfl
  | cons event events ih =>
      cases event with
      | quiet => exact ih user
      | call entry => exact ih (handler user entry).1
      | bad => exact ih user

end Report

def keptError (error : Int32) (failure : Nat) : Int32 :=
  if error = 0 then Int32.ofNat failure else error

theorem LinesDo.run {place : Place} {n : Nat} {lines : List Bytes} {events : List LineEvent}
    (h : LinesDo place n lines events) (hn : n + lines.length < 2147483648) {σ : Type}
    (handler : IniHandler σ) {st : IniState σ} (hst : st.place = place)
    (hlineno : st.lineno = Int32.ofNat n) :
    (iniLines handler st lines).error =
        keptError st.error (firstFailure handler n st.user events) ∧
      (iniLines handler st lines).user =
        events.foldl (fun user event => (event.outcome handler user).1) st.user := by
  induction h generalizing st with
  | nil place n =>
      refine ⟨?_, rfl⟩
      simp only [iniLines, List.foldl_nil, firstFailure, keptError]
      split
      · assumption
      · rfl
  | @cons place next n line lines event events hline hlines ih =>
      rw [List.length_cons] at hn
      have hrun := @ih (by omega)
        ({ st with lineno := Int32.ofNat (n + 1) }.meet handler event next) rfl rfl
      simp only [iniLines, List.foldl_cons, hline σ handler st hst hlineno] at hrun ⊢
      refine ⟨hrun.1.trans ?_, hrun.2⟩
      simp only [IniState.meet, keptError, firstFailure]
      by_cases hok : (event.outcome handler st.user).2 = true
      · simp [hok]
      · by_cases herror : st.error = 0
        · -- the number of the line is kept: it is not 0
          have hne : Int32.ofNat (n + 1) ≠ 0 := fun hzero =>
            absurd ((lineno_inj (by omega) (by decide)).mp hzero) (Nat.succ_ne_zero n)
          have hbad : ¬ ((event.outcome handler st.user).2 = true ∨ st.error ≠ 0) :=
            not_or.mpr ⟨hok, not_not.mpr herror⟩
          rw [if_neg hbad, if_neg hne, if_pos herror, if_neg hok]
        · simp [herror]

theorem LinesDo.parse {file : Bytes} {events : List LineEvent}
    (h : LinesDo ⟨[], []⟩ 0 (fileLines (iniMaxLine - 2) file) events)
    (hlines : (fileLines (iniMaxLine - 2) file).length < 2147483648) {σ : Type}
    (handler : IniHandler σ) (user : σ) :
    iniParseFile handler user file = report handler user events := by
  have hresult := @LinesDo.run _ _ _ _ h (by omega) σ handler ⟨[], [], 0, 0, user⟩ rfl rfl
  rw [foldl_outcome] at hresult
  exact Prod.ext hresult.1 hresult.2

theorem LinesDo.length {place : Place} {n : Nat} {lines : List Bytes} {events : List LineEvent}
    (h : LinesDo place n lines events) : events.length = lines.length := by
  induction h with
  | nil => rfl
  | cons _ _ ih => rw [List.length_cons, List.length_cons, ih]

theorem exists_linesDo {room : Nat} {lines : List Bytes} (h : ∀ line ∈ lines, ReadLine room line)
    (place : Place) {n : Nat} (hn : n + lines.length < 2147483648) :
    ∃ events, LinesMean place n lines events ∧ LinesDo place n lines events := by
  induction lines generalizing place n with
  | nil => exact ⟨[], .nil place n, .nil place n⟩
  | cons line lines ih =>
      rw [List.forall_mem_cons] at h
      rw [List.length_cons] at hn
      obtain ⟨event, next, hmeans, hline⟩ := exists_lineDoes h.1 place (n := n) (by omega)
      obtain ⟨events, hrest, hlines⟩ := ih h.2 next (n := n + 1) (by omega)
      exact ⟨event :: events, .cons hmeans hrest, .cons hline hlines⟩

theorem fileLines_readLine {file line : Bytes} (h : line ∈ fileLines (iniMaxLine - 2) file) :
    ReadLine (iniMaxLine - 1) line :=
  ⟨(mem_fileLines h).1, (mem_fileLines h).2⟩

theorem exists_events {file : Bytes}
    (hlines : (fileLines (iniMaxLine - 2) file).length < 2147483648) :
    ∃ events, LinesMean ⟨[], []⟩ 0 (fileLines (iniMaxLine - 2) file) events ∧
      LinesDo ⟨[], []⟩ 0 (fileLines (iniMaxLine - 2) file) events :=
  exists_linesDo (fun _ hline => fileLines_readLine hline) ⟨[], []⟩ (by omega)

end STRos
