import STRos.Config.Events

/-! # What the handler can be given

Section names are cut to 49 bytes and hold no closing bracket, values have no white
space around them. A value with a comment in it went on from the entry before it, and
repeats that entry's name, cut to 49 bytes as well.
-/

namespace STRos

open CString

structure HandedEntry (entry : ConfigEntry) : Prop where
  sectionClean : Clean entry.section
  sectionFits : entry.section.length < maxSection
  sectionOpen : ch ']' ∉ entry.section
  nameClean : Clean entry.name
  noEquals : ch '=' ∉ entry.name
  valueClean : Clean entry.value
  valueTrimmed : Trimmed entry.value
  fits : entry.name.length < iniMaxLine ∧ entry.value.length < iniMaxLine

structure GoesOn (first second : ConfigEntry) : Prop where
  sameSection : second.section = first.section
  sameName : second.name = first.name.take (maxName - 1)
  nonempty : second.value ≠ []

/-- Each entry is one of a line with a separator, or goes on with the one before it. -/
def Consistent : Option ConfigEntry → List ConfigEntry → Prop
  | _, [] => True
  | last, entry :: entries =>
      (ScannedEntry (iniMaxLine - 1) entry.name entry.value ∨ ∃ first ∈ last, GoesOn first entry) ∧
        Consistent (some entry) entries

structure PlaceOk (place : Place) (last : Option ConfigEntry) : Prop where
  sectionClean : Clean place.section
  sectionFits : place.section.length < maxSection
  sectionOpen : ch ']' ∉ place.section
  nameClean : Clean place.prevName
  nameFits : place.prevName.length < maxName
  noEquals : ch '=' ∉ place.prevName
  remembered : place.prevName ≠ [] → ∃ entry ∈ last,
    entry.section = place.section ∧ entry.name.take (maxName - 1) = place.prevName

theorem take_lt {n : Nat} (hn : 0 < n) (s : Bytes) : (s.take (n - 1)).length < n := by
  rw [List.length_take]
  omega

theorem PlaceOk.start : PlaceOk ⟨[], []⟩ none :=
  ⟨⟨NulFree.nil, by simp⟩, by decide, by simp, ⟨NulFree.nil, by simp⟩, by decide, by simp,
    fun h => absurd rfl h⟩

def lastEntry (event : LineEvent) (last : Option ConfigEntry) : Option ConfigEntry :=
  event.entry? <|> last

theorem LineStep.placeOk {room : Nat} {place next : Place} {event : LineEvent}
    {last : Option ConfigEntry} (h : LineStep room place event next) (hplace : PlaceOk place last) :
    PlaceOk next (lastEntry event last) := by
  cases h with
  | ignored => exact hplace
  | malformed => exact hplace
  | @header name clean unclosed commentFree =>
      have hname : name.take (maxSection - 1) <:+: name := (List.take_prefix _ _).isInfix
      exact ⟨clean.of_infix hname, take_lt (by decide) name,
        fun hmem => unclosed (hname.subset hmem), ⟨NulFree.nil, by simp⟩,
        (by decide : 0 < maxName), by simp, fun h => absurd rfl h⟩
  | @entry name value scanned =>
      have hname : name.take (maxName - 1) <:+: name := (List.take_prefix _ _).isInfix
      exact ⟨hplace.sectionClean, hplace.sectionFits, hplace.sectionOpen,
        scanned.nameClean.of_infix hname, take_lt (by decide) name,
        fun hmem => scanned.noEquals (hname.subset hmem), fun _ => ⟨_, rfl, rfl, rfl⟩⟩
  | continued named nonempty clean trimmed fits =>
      have hfits := hplace.nameFits
      exact ⟨hplace.sectionClean, hplace.sectionFits, hplace.sectionOpen, hplace.nameClean,
        hplace.nameFits, hplace.noEquals,
        fun _ => ⟨_, rfl, rfl, List.take_of_length_le (by simp only [maxName] at *; omega)⟩⟩

theorem LineStep.entry_ok {place next : Place} {entry : ConfigEntry} {last : Option ConfigEntry}
    (h : LineStep (iniMaxLine - 1) place (.call entry) next) (hplace : PlaceOk place last) :
    HandedEntry entry ∧
      (ScannedEntry (iniMaxLine - 1) entry.name entry.value ∨
        ∃ first ∈ last, GoesOn first entry) := by
  cases h with
  | entry scanned =>
      have hfits := scanned.fits
      refine ⟨⟨hplace.sectionClean, hplace.sectionFits, hplace.sectionOpen, scanned.nameClean,
        scanned.noEquals, scanned.valueClean, scanned.valueTrimmed, ?_⟩, Or.inl scanned⟩
      simp only [iniMaxLine] at *
      omega
  | continued named nonempty clean trimmed fits =>
      have hname := hplace.nameFits
      obtain ⟨first, hfirst, hsection, hsame⟩ := hplace.remembered named
      refine ⟨⟨hplace.sectionClean, hplace.sectionFits, hplace.sectionOpen, hplace.nameClean,
        hplace.noEquals, clean, trimmed, ?_⟩,
        Or.inr ⟨first, hfirst, hsection.symm, hsame.symm, nonempty⟩⟩
      simp only [iniMaxLine, maxName] at *
      omega

/-- What the lines say is what the handler can be given: the place carries the induction. -/
theorem LinesMean.entries_ok {place : Place} {n : Nat} {lines : List Bytes}
    {events : List LineEvent} (h : LinesMean place n lines events)
    (hread : ∀ line ∈ lines, ReadLine (iniMaxLine - 1) line) {last : Option ConfigEntry}
    (hplace : PlaceOk place last) :
    (∀ entry ∈ entriesOf events, HandedEntry entry) ∧ Consistent last (entriesOf events) := by
  induction h generalizing last with
  | nil place => exact ⟨by simp [entriesOf], trivial⟩
  | @cons place next n line lines event events first rest ih =>
      rw [List.forall_mem_cons] at hread
      have hstep := first.step hread.1
      have hrest := ih hread.2 (hstep.placeOk hplace)
      cases event with
      | quiet => exact hrest
      | bad => exact hrest
      | call entry =>
          have hentry := hstep.entry_ok hplace
          refine ⟨?_, hentry.2, hrest.2⟩
          exact List.forall_mem_cons.mpr ⟨hentry.1, hrest.1⟩

/-- Whatever the file holds, parsing it is one fold over what its lines say, and the result
counts these lines. -/
theorem iniParseFile_hands_over (file : Bytes)
    (hlines : (fileLines (iniMaxLine - 2) file).length < 2147483648) :
    ∃ events, LinesMean ⟨[], []⟩ 0 (fileLines (iniMaxLine - 2) file) events ∧
      (∀ entry ∈ entriesOf events, HandedEntry entry) ∧ Consistent none (entriesOf events) ∧
      ∀ (σ : Type) (handler : IniHandler σ) (user : σ),
        iniParseFile handler user file = report handler user events := by
  obtain ⟨events, hmean, hdo⟩ := exists_events hlines
  have hok := hmean.entries_ok (fun _ hline => fileLines_readLine hline) PlaceOk.start
  exact ⟨events, hmean, hok.1, hok.2, fun σ handler user => hdo.parse hlines handler user⟩

def shortFile : Bytes := str "[NODE]\nremap\nremap = /a\n"

theorem shortFile_lines : (fileLines (iniMaxLine - 2) shortFile).length < 2147483648 :=
  (fileLines_length_le _ shortFile).trans_lt (by decide)

theorem iniParseFile_hands_over_short :
    (fileLines (iniMaxLine - 2) shortFile).length < 2147483648 ∧
      ∃ events, LinesMean ⟨[], []⟩ 0 (fileLines (iniMaxLine - 2) shortFile) events ∧
        (∀ entry ∈ entriesOf events, HandedEntry entry) ∧ Consistent none (entriesOf events) ∧
        ∀ (σ : Type) (handler : IniHandler σ) (user : σ),
          iniParseFile handler user shortFile = report handler user events :=
  ⟨shortFile_lines, iniParseFile_hands_over shortFile shortFile_lines⟩

end STRos
