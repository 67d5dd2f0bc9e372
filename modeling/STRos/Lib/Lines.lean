import STRos.Lib.Decimal
import Mathlib.Data.List.DropRight

/-! # Reading a file line by line, and the white space around a text

`fgets` with a buffer of `n + 1` bytes reads up to a newline or `n` bytes,
whichever comes first; `fileLines` are the results of all the calls on a file.
-/

namespace CString

/-! ## White space at the ends -/

def rstrip (s : Bytes) : Bytes := s.rdropWhile isSpace

def lskip (s : Bytes) : Bytes := s.dropWhile isSpace

def Blank (s : Bytes) : Prop := ∀ b ∈ s, isSpace b = true

instance (s : Bytes) : Decidable (Blank s) := List.decidableBAll _ s

structure Trimmed (s : Bytes) : Prop where
  head : ∀ b ∈ s.head?, isSpace b = false
  last : ∀ b ∈ s.getLast?, isSpace b = false

instance (s : Bytes) : Decidable (Trimmed s) :=
  have edge := @Option.decidableForallMem Byte (fun b => isSpace b = false) _
  @decidable_of_iff _ ((∀ b ∈ s.head?, isSpace b = false) ∧ ∀ b ∈ s.getLast?, isSpace b = false)
    ⟨fun h => ⟨h.1, h.2⟩, fun h => ⟨h.head, h.last⟩⟩ (@instDecidableAnd _ _ (edge _) (edge _))

theorem Trimmed.nil : Trimmed [] := ⟨by simp, by simp⟩

theorem lskip_append {pad : Bytes} (hpad : Blank pad) (s : Bytes) : lskip (pad ++ s) = lskip s := by
  induction pad with
  | nil => rfl
  | cons b pad ih =>
      rw [Blank, List.forall_mem_cons] at hpad
      rw [List.cons_append, lskip, List.dropWhile_cons_of_pos hpad.1]
      exact ih hpad.2

theorem rstrip_append {pad : Bytes} (hpad : Blank pad) (s : Bytes) :
    rstrip (s ++ pad) = rstrip s := by
  induction pad using List.reverseRecOn with
  | nil => rw [List.append_nil]
  | append_singleton pad b ih =>
      have hb : isSpace b = true := hpad b (by simp)
      have hfront : Blank pad := fun c hc => hpad c (by simp [hc])
      rw [← List.append_assoc, rstrip, List.rdropWhile_concat_pos _ _ _ hb]
      exact ih hfront

theorem lskip_of_head {s : Bytes} (h : ∀ b ∈ s.head?, isSpace b = false) : lskip s = s := by
  cases s with
  | nil => rfl
  | cons b s =>
      have hb := h b rfl
      rw [lskip, List.dropWhile_cons_of_neg (by simp [hb])]

theorem rstrip_of_last {s : Bytes} (h : ∀ b ∈ s.getLast?, isSpace b = false) : rstrip s = s := by
  rw [rstrip, List.rdropWhile_eq_self_iff]
  intro hs
  have hb := h (s.getLast hs) (by rw [List.getLast?_eq_some_getLast hs]; rfl)
  simp [hb]

theorem rstrip_le (s : Bytes) : rstrip s <+: s := List.rdropWhile_prefix _ s

theorem lskip_le (s : Bytes) : lskip s <:+ s := List.dropWhile_suffix _

theorem rstrip_last (s : Bytes) : ∀ b ∈ (rstrip s).getLast?, isSpace b = false := by
  intro b hb
  have hne : rstrip s ≠ [] := by
    intro hnil
    rw [hnil] at hb
    cases hb
  rw [List.getLast?_eq_some_getLast hne] at hb
  cases hb
  have hlast := List.rdropWhile_last_not isSpace s hne
  simpa [rstrip] using hlast

theorem lskip_head (s : Bytes) : ∀ b ∈ (lskip s).head?, isSpace b = false := by
  intro b hb
  rw [lskip] at hb
  cases hs : s.dropWhile isSpace with
  | nil =>
      rw [hs] at hb
      cases hb
  | cons c rest =>
      have hhead := List.head_dropWhile_not isSpace (l := s) (by rw [hs]; simp)
      simp only [hs, List.head_cons] at hhead
      rw [hs, List.head?_cons] at hb
      cases hb
      exact hhead

/-- What is skipped in front leaves the end as it is. -/
theorem lskip_last {s : Bytes} (h : ∀ b ∈ s.getLast?, isSpace b = false) :
    ∀ b ∈ (lskip s).getLast?, isSpace b = false := by
  intro b hb
  obtain ⟨front, hs⟩ := lskip_le s
  apply h
  rw [← hs, List.getLast?_append, Option.mem_def.mp hb]
  rfl

theorem rstrip_head {s : Bytes} (h : ∀ b ∈ s.head?, isSpace b = false) :
    ∀ b ∈ (rstrip s).head?, isSpace b = false := by
  intro b hb
  obtain ⟨tail, hs⟩ := rstrip_le s
  apply h
  rw [← hs, List.head?_append, Option.mem_def.mp hb]
  rfl

theorem trimmed_lskip_rstrip (s : Bytes) : Trimmed (lskip (rstrip s)) :=
  ⟨lskip_head _, lskip_last (rstrip_last s)⟩

theorem rstrip_blank {s : Bytes} (h : Blank s) : rstrip s = [] := by
  have hempty : rstrip [] = [] := rfl
  rw [← hempty, ← rstrip_append h [], List.nil_append]

theorem rstrip_append_cons {b : Byte} (hb : isSpace b = false) (s t : Bytes) :
    rstrip (s ++ b :: t) = s ++ b :: rstrip t := by
  induction t using List.reverseRecOn with
  | nil =>
      rw [rstrip, List.rdropWhile_concat_neg _ _ _ (by simp [hb])]
      rfl
  | append_singleton t c ih =>
      have hassoc : s ++ b :: (t ++ [c]) = s ++ b :: t ++ [c] := by simp
      by_cases hc : isSpace c = true
      · rw [hassoc, rstrip_append (by simpa [Blank] using hc), ih,
          rstrip_append (by simpa [Blank] using hc)]
      · rw [hassoc, rstrip, List.rdropWhile_concat_neg _ _ _ hc, rstrip,
          List.rdropWhile_concat_neg _ _ _ hc, hassoc]

/-- A text whose first byte is no white space, behind white space. -/
theorem lskip_rstrip_pad {pad s : Bytes} (hpad : Blank pad) (hs : s ≠ [])
    (hhead : ∀ b ∈ s.head?, isSpace b = false) :
    lskip (rstrip (pad ++ s)) = rstrip s ∧
      (lskip (rstrip (pad ++ s)) ≠ rstrip (pad ++ s) ↔ pad ≠ []) := by
  obtain ⟨b, t, rfl⟩ := List.exists_cons_of_ne_nil hs
  have hb : isSpace b = false := hhead b rfl
  have hkept : rstrip (pad ++ b :: t) = pad ++ rstrip (b :: t) := by
    rw [rstrip_append_cons hb, ← List.nil_append (b :: t), rstrip_append_cons hb, List.nil_append]
  have hstart : lskip (rstrip (pad ++ b :: t)) = rstrip (b :: t) := by
    rw [hkept, lskip_append hpad, lskip_of_head (rstrip_head hhead)]
  refine ⟨hstart, ?_⟩
  rw [hstart, hkept, ne_eq, List.self_eq_append_left]

theorem blank_absent {pad : Bytes} (h : Blank pad) {c : Byte} (hc : isSpace c = false) :
    c ∉ pad := by
  intro hmem
  rw [h c hmem] at hc
  cases hc

theorem Trimmed.rstrip_eq {s : Bytes} (h : Trimmed s) : rstrip s = s := rstrip_of_last h.last

/-! ## fgets -/

/-- One call with room for `n` bytes: what it read, and what is left of the file. -/
def fgets : Nat → Bytes → Bytes × Bytes
  | 0, file => ([], file)
  | _ + 1, [] => ([], [])
  | n + 1, b :: file =>
      if b = 10 then ([b], file)
      else (b :: (fgets n file).1, (fgets n file).2)

theorem fgets_append (n : Nat) (file : Bytes) : (fgets n file).1 ++ (fgets n file).2 = file := by
  fun_induction fgets n file with
  | case1 file => rfl
  | case2 n => rfl
  | case3 n file => rfl
  | case4 n b file hb ih => rw [List.cons_append, ih]

theorem fgets_length_le (n : Nat) (file : Bytes) : (fgets n file).1.length ≤ n := by
  fun_induction fgets n file with
  | case1 file => exact Nat.le_refl _
  | case2 n => exact Nat.zero_le _
  | case3 n file => simp
  | case4 n b file hb ih => exact Nat.succ_le_succ ih

theorem fgets_ne_nil (n : Nat) {file : Bytes} (h : file ≠ []) : (fgets (n + 1) file).1 ≠ [] := by
  cases file with
  | nil => exact absurd rfl h
  | cons b file =>
      rw [fgets]
      split <;> simp

theorem fgets_newline (n : Nat) (file : Bytes) : 10 ∉ (fgets n file).1.dropLast := by
  fun_induction fgets n file with
  | case1 file => simp
  | case2 n => simp
  | case3 n file => simp
  | case4 n b file hb ih =>
      cases hread : (fgets n file).1 with
      | nil => simp
      | cons c read =>
          rw [hread] at ih
          rw [List.dropLast_cons_of_ne_nil (by simp), List.mem_cons, not_or]
          exact ⟨fun h => hb h.symm, ih⟩

theorem fgets_line {n : Nat} {line : Bytes} (hline : 10 ∉ line) (hn : line.length < n)
    (file : Bytes) : fgets n (line ++ 10 :: file) = (line ++ [10], file) := by
  induction line generalizing n with
  | nil =>
      obtain ⟨n, rfl⟩ := Nat.exists_eq_add_of_lt hn
      simp [fgets]
  | cons b line ih =>
      rw [List.mem_cons, not_or] at hline
      rw [List.length_cons] at hn
      obtain ⟨n, rfl⟩ : ∃ m, n = m + 1 := ⟨n - 1, by omega⟩
      rw [List.cons_append, fgets, if_neg (Ne.symm hline.1), ih hline.2 (by omega)]
      rfl

theorem fgets_rest_lt (n : Nat) {file : Bytes} (h : file ≠ []) :
    (fgets (n + 1) file).2.length < file.length := by
  have hpos := List.length_pos_iff.mpr (fgets_ne_nil n h)
  have hall := congrArg List.length (fgets_append (n + 1) file)
  rw [List.length_append] at hall
  omega

/-- The results of the calls on a file, the last of them the one before NULL. -/
def fileLines (n : Nat) (file : Bytes) : List Bytes :=
  if _h : file = [] then []
  else (fgets (n + 1) file).1 :: fileLines n (fgets (n + 1) file).2
  termination_by file.length
  decreasing_by exact fgets_rest_lt n _h

theorem fileLines_nil (n : Nat) : fileLines n [] = [] := by
  rw [fileLines]
  exact dif_pos rfl

theorem fileLines_of_ne_nil (n : Nat) {file : Bytes} (h : file ≠ []) :
    fileLines n file = (fgets (n + 1) file).1 :: fileLines n (fgets (n + 1) file).2 := by
  rw [fileLines]
  exact dif_neg h

theorem fileLines_length_le (n : Nat) (file : Bytes) :
    (fileLines n file).length ≤ file.length := by
  fun_induction fileLines n file with
  | case1 => exact Nat.le_refl 0
  | case2 file hne ih =>
      have hless := fgets_rest_lt n hne
      rw [List.length_cons]
      omega

theorem fileLines_line {n : Nat} {line : Bytes} (hline : 10 ∉ line) (hn : line.length ≤ n)
    (file : Bytes) : fileLines n (line ++ 10 :: file) = (line ++ [10]) :: fileLines n file := by
  rw [fileLines_of_ne_nil n (by simp), fgets_line hline (by omega)]

def joinLines (lines : List Bytes) : Bytes := (lines.map (· ++ [10])).flatten

theorem joinLines_cons (line : Bytes) (lines : List Bytes) :
    joinLines (line :: lines) = line ++ 10 :: joinLines lines := by
  simp [joinLines]

theorem fileLines_joinLines {n : Nat} {lines : List Bytes}
    (h : ∀ line ∈ lines, 10 ∉ line ∧ line.length ≤ n) (file : Bytes) :
    fileLines n (joinLines lines ++ file) = lines.map (· ++ [10]) ++ fileLines n file := by
  induction lines with
  | nil => rfl
  | cons line lines ih =>
      rw [List.forall_mem_cons] at h
      rw [joinLines_cons, List.append_assoc, List.cons_append,
        fileLines_line h.1.1 h.1.2, ih h.2]
      rfl

/-- No line is longer than the buffer, and a newline is the last byte of its line. -/
theorem mem_fileLines {n : Nat} {file line : Bytes} (h : line ∈ fileLines n file) :
    line.length ≤ n + 1 ∧ 10 ∉ line.dropLast := by
  fun_induction fileLines n file with
  | case1 => cases h
  | case2 file hne ih =>
      cases List.mem_cons.mp h with
      | inl hfirst =>
          rw [hfirst]
          exact ⟨fgets_length_le _ _, fgets_newline _ _⟩
      | inr hrest => exact ih hrest

end CString
