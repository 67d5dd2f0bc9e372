import STRos.Config.Entries
import STRos.Config.Grammar

/-! # The configuration of a node

Of the entries of a file the last one for each field decides, and everything else of the
node stays as it is. What the fields hold can be written into a file and is loaded again.
-/

namespace STRos

open CString

def lastValue (sectionName name : Bytes) (entries : List ConfigEntry) : Option Bytes :=
  ((entries.filter fun entry => entry.section = sectionName ∧ entry.name = name).getLast?).map
    ConfigEntry.value

def configured (node : StrosNode) (entries : List ConfigEntry) : StrosNode :=
  { node with
    id := (lastValue (str "NODE") (str "remap") entries).getD node.id
    masterUri := (lastValue (str "MASTER") (str "uri") entries).getD node.masterUri
    masterPort := ((lastValue (str "MASTER") (str "port") entries).map atoi).getD node.masterPort }

theorem lastValue_append_singleton (sectionName name : Bytes) (entries : List ConfigEntry)
    (entry : ConfigEntry) :
    lastValue sectionName name (entries ++ [entry]) =
      if entry.section = sectionName ∧ entry.name = name then some entry.value
      else lastValue sectionName name entries := by
  by_cases h : entry.section = sectionName ∧ entry.name = name
  · simp [lastValue, h]
  · simp [lastValue, h]

/-- The last entry for a field decides. -/
theorem foldl_strosConfigHandler (node : StrosNode) (entries : List ConfigEntry) :
    entries.foldl strosConfigHandler node = configured node entries := by
  induction entries using List.reverseRecOn with
  | nil => rfl
  | append_singleton entries entry ih =>
      have hnode : str "NODE" ≠ str "MASTER" := by decide
      have hport : str "port" ≠ str "uri" := by decide
      rw [List.foldl_append, List.foldl_cons, List.foldl_nil, ih]
      simp only [configured, strosConfigHandler, lastValue_append_singleton]
      by_cases huri : entry.section = str "MASTER" ∧ entry.name = str "uri"
      · simp [huri, hnode.symm, hport.symm]
      · by_cases hportEntry : entry.section = str "MASTER" ∧ entry.name = str "port"
        · simp [hportEntry, hnode.symm, hport]
        · by_cases hremap : entry.section = str "NODE" ∧ entry.name = str "remap"
          · simp [hremap, hnode]
          · simp [huri, hportEntry, hremap]

/-- A file that is parsed as these events says configures the node with their entries. -/
theorem strosLoadConfig_of_report {file : Bytes} {events : List LineEvent} (node : StrosNode)
    (h : iniParseFile configHandler node file = report configHandler node events) :
    strosLoadConfig node (some file) = configured node (entriesOf events) := by
  rw [← foldl_strosConfigHandler]
  exact congrArg Prod.snd h

/-- Any file configures a node by the entries of its lines, of which the last one for each
field decides, also when it has errors in it; a node that is created with it is one that is
created with these entries. -/
theorem strosLoadConfig_last_entries (file : Option Bytes)
    (hlines : ∀ text ∈ file, (fileLines (iniMaxLine - 2) text).length < 2147483648) :
    ∃ entries : List ConfigEntry,
      (∀ text ∈ file, ∃ events, LinesMean ⟨[], []⟩ 0 (fileLines (iniMaxLine - 2) text) events ∧
        entriesOf events = entries) ∧
      (file = none → entries = []) ∧
      (∀ entry ∈ entries, HandedEntry entry) ∧ Consistent none entries ∧
      (∀ node, strosLoadConfig node file = configured node entries) ∧
      ∀ name time, strosInitNodeFrom name (some file) time = strosInitNode name entries time := by
  cases file with
  | none => exact ⟨[], by simp, fun _ => rfl, by simp, trivial, fun _ => rfl, fun _ _ => rfl⟩
  | some text =>
      have htext := hlines text rfl
      obtain ⟨events, hmean, hdo⟩ := exists_events htext
      have hok := hmean.entries_ok (fun _ hline => fileLines_readLine hline) PlaceOk.start
      have hload : ∀ node, strosLoadConfig node (some text) = configured node (entriesOf events) :=
        fun node => strosLoadConfig_of_report node (hdo.parse htext configHandler node)
      refine ⟨entriesOf events, ?_, fun h => absurd h (by simp), hok.1, hok.2, hload, ?_⟩
      · rintro _ ⟨⟩
        exact ⟨events, hmean, rfl⟩
      · intro name time
        rw [strosInitNode, foldl_strosConfigHandler, ← hload]
        rfl

theorem strosLoadConfig_last_entries_short :
    (∀ text ∈ some shortFile, (fileLines (iniMaxLine - 2) text).length < 2147483648) ∧
      ∃ entries : List ConfigEntry,
        (∀ text ∈ some shortFile, ∃ events,
          LinesMean ⟨[], []⟩ 0 (fileLines (iniMaxLine - 2) text) events ∧
            entriesOf events = entries) ∧
        (some shortFile = none → entries = []) ∧
        (∀ entry ∈ entries, HandedEntry entry) ∧ Consistent none entries ∧
        (∀ node, strosLoadConfig node (some shortFile) = configured node entries) ∧
        ∀ name time,
          strosInitNodeFrom name (some (some shortFile)) time = strosInitNode name entries time :=
  have hlines : ∀ text ∈ some shortFile, (fileLines (iniMaxLine - 2) text).length < 2147483648 :=
    fun _ h => by cases h; exact shortFile_lines
  ⟨hlines, strosLoadConfig_last_entries (some shortFile) hlines⟩

/-! ## Writing a configuration -/

structure Writable (value : Bytes) : Prop where
  clean : Clean value
  trimmed : Trimmed value
  commentFree : CommentFree value
  nonempty : value ≠ []
  short : value.length ≤ 187

instance (value : Bytes) : Decidable (Writable value) :=
  decidable_of_iff
    (Clean value ∧ Trimmed value ∧ CommentFree value ∧ value ≠ [] ∧ value.length ≤ 187)
    ⟨fun h => ⟨h.1, h.2.1, h.2.2.1, h.2.2.2.1, h.2.2.2.2⟩,
      fun h => ⟨h.clean, h.trimmed, h.commentFree, h.nonempty, h.short⟩⟩

def configItems (uri : Bytes) (port : Int32) (remap : Bytes) : List IniItem :=
  [.header [] (str "MASTER") [],
    .entry [] (str "uri") (str "  ") (ch '=') (str " ") uri (str " " ++ ch ';' :: []),
    .entry [] (str "port") (str " ") (ch '=') (str " ") (decimal port.toInt)
      (str " " ++ ch ';' :: []),
    .header [] (str "NODE") [],
    .entry [] (str "remap") (str "  ") (ch '=') (str " ") remap (str " " ++ ch ';' :: [])]

/-- Digits, behind a sign or not. -/
theorem decimal_byte {i : Int} {b : Byte} (hb : b ∈ decimal i) : b = 45 ∨ isDigit b = true := by
  cases i with
  | ofNat n => exact Or.inr (decimalNat_isDigit hb)
  | negSucc n =>
      rw [decimal, List.mem_cons] at hb
      exact hb.imp_right decimalNat_isDigit

theorem decimal_ne_nil (i : Int) : decimal i ≠ [] := by
  cases i with
  | ofNat n => exact decimalNat_ne_nil n
  | negSucc n => exact List.cons_ne_nil _ _

theorem decimalNat_length_le {n : Nat} (h : n < 10 ^ 10) : (decimalNat n).length ≤ 10 := by
  rw [decimalNat, List.length_map]
  exact (Nat.length_toDigits_le_iff (by decide) (by decide)).mpr h

theorem decimal_length_le (i : Int32) : (decimal i.toInt).length ≤ 11 := by
  have hlow := i.minValue_le_toInt
  have hhigh := i.toInt_lt
  have hmin : Int32.minValue.toInt = -2147483648 := by decide
  rw [hmin] at hlow
  cases hi : i.toInt with
  | ofNat n =>
      rw [hi, Int.ofNat_eq_natCast] at hhigh
      have hlen : (decimalNat n).length ≤ 10 := decimalNat_length_le (by omega)
      exact hlen.trans (by decide)
  | negSucc n =>
      rw [hi] at hlow
      have hlen : (decimalNat (n + 1)).length ≤ 10 := decimalNat_length_le (by omega)
      exact Nat.succ_le_succ hlen

theorem decimal_plain {i : Int} {b : Byte} (hb : b ∈ decimal i) :
    isSpace b = false ∧ b ≠ ch ';' ∧ b ≠ 0 ∧ b ≠ 10 := by
  have hrange : b = 45 ∨ (48 ≤ b.toNat ∧ b.toNat ≤ 57) := by
    refine (decimal_byte hb).imp_right fun h => ?_
    simpa [isDigit] using h
  cases hrange with
  | inl h => subst h; decide
  | inr h =>
      have hne : ∀ c : Byte, c.toNat < 48 ∨ 57 < c.toNat → b ≠ c := by
        rintro c hc rfl
        omega
      refine ⟨?_, hne _ (by decide), hne _ (by decide), hne _ (by decide)⟩
      simp only [isSpace, Bool.or_eq_false_iff, decide_eq_false_iff_not, Bool.and_eq_false_iff]
      exact ⟨hne _ (by decide), Or.inr (by omega)⟩

theorem decimal_writable (i : Int32) : Writable (decimal i.toInt) where
  clean := ⟨fun h => (decimal_plain h).2.2.1 rfl, fun h => (decimal_plain h).2.2.2 rfl⟩
  trimmed := ⟨fun _ hb => (decimal_plain (List.mem_of_mem_head? hb)).1,
    fun _ hb => (decimal_plain (List.mem_of_mem_getLast? hb)).1⟩
  commentFree := by
    have hno : ∀ b ∈ decimal i.toInt, b ≠ ch ';' := fun b hb => (decimal_plain hb).2.1
    generalize decimal i.toInt = digits at hno
    induction digits with
    | nil => exact List.isChain_nil
    | cons b digits ih =>
        rw [List.forall_mem_cons] at hno
        apply List.isChain_cons.mpr
        exact ⟨fun c hc h => hno.2 c (List.mem_of_mem_head? hc) h.2, ih hno.2⟩
  nonempty := decimal_ne_nil _
  short := (decimal_length_le i).trans (by decide)

theorem configEntry_fits {name before value : Bytes} (hvalue : Writable value)
    (hname : Clean (name ++ before)) (hshort : name.length + before.length ≤ 7) :
    (IniItem.entry [] name before (ch '=') (str " ") value (str " " ++ [ch ';'])).Fits := by
  have hequals : Clean (ch '=' :: str " ") := by decide
  have htail : Clean (str " " ++ [ch ';']) := by decide
  have hline : (IniItem.entry [] name before (ch '=') (str " ") value
      (str " " ++ [ch ';'])).line =
        name ++ before ++ (ch '=' :: str " ") ++ (value ++ (str " " ++ [ch ';'])) := by
    simp [IniItem.line]
  refine ⟨?_, ?_⟩
  · rw [hline]
    refine ⟨nulFree_append.mpr ⟨nulFree_append.mpr ⟨hname.nulFree, hequals.nulFree⟩,
      nulFree_append.mpr ⟨hvalue.clean.nulFree, htail.nulFree⟩⟩, ?_⟩
    simp only [List.mem_append, not_or]
    exact ⟨⟨by simpa [not_or] using hname.oneLine, hequals.oneLine⟩, hvalue.clean.oneLine,
      by simpa using htail.oneLine⟩
  · have hlen := hvalue.short
    rw [hline]
    have hspace : (str " ").length = 1 := rfl
    simp only [List.length_append, List.length_cons, List.length_nil, hspace, iniMaxLine]
    omega

theorem configEntry_allowed {place : Place} {name before value : Bytes} (hvalue : Writable value)
    (hopens : IniItem.Opens name) (hname : Trimmed name) (hfree : CommentFree name)
    (hbefore : Blank before) (hne : name ≠ []) (absent : ch '=' ∉ name) :
    (IniItem.entry [] name before (ch '=') (str " ") value (str " " ++ [ch ';'])).Allowed place :=
  .entry ⟨by simp [Blank], Or.inl rfl⟩ hopens hname hfree hbefore (fun h => absurd h hne)
    (by decide) hvalue.trimmed hvalue.commentFree (.equals absent)
    (.comment (by decide) (by decide)) fun h => absurd h hvalue.nonempty

theorem configItems_file {uri remap : Bytes} (huri : Writable uri) (hremap : Writable remap)
    (port : Int32) : WrittenFile [] (configItems uri port remap) where
  allowed := by
    have hport := decimal_writable port
    refine ⟨.header ⟨by decide, by decide⟩ (by decide) (by decide),
      configEntry_allowed huri (by decide) (by decide) (by decide) (by decide) (by decide)
        (by decide),
      configEntry_allowed hport (by decide) (by decide) (by decide) (by decide) (by decide)
        (by decide),
      .header ⟨by simp [Blank], Or.inl rfl⟩ (by decide) (by decide),
      configEntry_allowed hremap (by decide) (by decide) (by decide) (by decide) (by decide)
        (by decide),
      trivial⟩
  fits := by
    have hport := decimal_writable port
    intro item hitem
    simp only [configItems, List.mem_cons, List.not_mem_nil, or_false] at hitem
    obtain rfl | rfl | rfl | rfl | rfl := hitem
    · decide
    · exact configEntry_fits huri (by decide) (by decide)
    · exact configEntry_fits hport (by decide) (by decide)
    · decide
    · exact configEntry_fits hremap (by decide) (by decide)
  few := (by decide : 5 < 2147483648)
  marked := Or.inl ⟨rfl, by
    intro item hitem
    cases hitem
    decide⟩

/-- A configuration that is written is loaded again, whatever the node had before. -/
theorem strosLoadConfig_written {uri remap : Bytes} (huri : Writable uri)
    (hremap : Writable remap) (port : Int32) (node : StrosNode) :
    strosLoadConfig node (some (joinLines ((configItems uri port remap).map IniItem.line))) =
      { node with id := remap, masterUri := uri, masterPort := port } := by
  have hparse := (configItems_file huri hremap port).parse (Or.inr rfl) configHandler node
  have hload := strosLoadConfig_of_report node hparse
  rw [List.nil_append] at hload
  have hentries : entriesOf (IniItem.events ⟨[], []⟩ (configItems uri port remap)) =
      [⟨str "MASTER", str "uri", uri⟩, ⟨str "MASTER", str "port", decimal port.toInt⟩,
        ⟨str "NODE", str "remap", remap⟩] := rfl
  have hport : str "port" ≠ str "uri" := by decide
  have hnode : str "NODE" ≠ str "MASTER" := by decide
  rw [hload, hentries, ← foldl_strosConfigHandler]
  simp [strosConfigHandler, hport, hnode, atoi_decimal]

theorem strosLoadConfig_written_zombie :
    strosLoadConfig (defaultNode (str "talker"))
        (some (joinLines ((configItems (str "192.168.1.15") 11311 (str "/zoombie")).map
          IniItem.line))) =
      { defaultNode (str "talker") with
        id := str "/zoombie", masterUri := str "192.168.1.15", masterPort := 11311 } :=
  strosLoadConfig_written (by decide) (by decide) 11311 _

end STRos
