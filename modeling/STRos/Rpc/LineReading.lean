import STRos.Lib.Markup
import STRos.Model.Sxmlc

/-! # Lines and tags of markup

A line is a tag and the text in front of it. A text may hold a `>`: the line is then
read on behind it. The size of its block is only looked at after the next character, so
the line must not end there one byte before the end of the block.
-/

namespace STRos

open CString Markup

/-! ## Lines that are read on -/

/-- The bytes of a text that the parser keeps. -/
def Plain (s : Bytes) : Prop := 0 ∉ s ∧ 60 ∉ s ∧ 255 ∉ s

theorem Plain.nil : Plain [] := ⟨by simp, by simp, by simp⟩

theorem plain_append {s t : Bytes} : Plain (s ++ t) ↔ Plain s ∧ Plain t := by
  simp only [Plain, List.mem_append, not_or]
  tauto

theorem plain_cons {c : Byte} {s : Bytes} :
    Plain (c :: s) ↔ (c ≠ 0 ∧ c ≠ 60 ∧ c ≠ 255) ∧ Plain s := by
  simp only [Plain, List.mem_cons, not_or, ne_eq, eq_comm (a := c)]
  tauto

theorem plain_crlf : Plain crlf := by
  unfold Plain
  decide

/-- Each line has a block of an `int` size, and none that is read on is as long as its block
without two bytes. `n` characters of the line were read; `fresh` tells that the next one is not
compared with `>`, and `seen` that there was a `<`. -/
def roomy (sz n : Nat) (fresh seen : Bool) : Bytes → Bool
  | [] => true
  | c :: s =>
      if c = 62 ∧ fresh = false then
        n + 1 < 2147483392 &&
          if seen then roomy (lineBlock sz (n + 1)) 0 true false s
          else
            n + 2 < lineBlock sz (n + 1) && roomy (lineBlock sz (n + 1)) (n + 1) true false s
      else roomy sz (n + 1) false (seen || c = 60) s

theorem roomy_append {s : Bytes} (hs : 62 ∉ s) (sz n : Nat) (seen : Bool) (t : Bytes) :
    roomy sz n false seen (s ++ t) = roomy sz (n + s.length) false (seen || 60 ∈ s) t := by
  induction s generalizing n seen with
  | nil => simp
  | cons c s ih =>
      simp only [List.mem_cons, not_or] at hs
      rw [List.cons_append, roomy, if_neg (by simp [Ne.symm hs.1]), ih hs.2, List.length_cons]
      have hn : n + 1 + s.length = n + (s.length + 1) := by omega
      have hseen : (seen || decide (c = 60) || decide (60 ∈ s)) =
          (seen || decide (60 ∈ c :: s)) := by
        simp [Bool.or_assoc, eq_comm]
      rw [hn, hseen]

theorem roomy_fresh (sz n : Nat) (c : Byte) (s : Bytes) :
    roomy sz n true false (c :: s) = roomy sz (n + 1) false (decide (c = 60)) s := by
  rw [roomy, if_neg (by simp), Bool.false_or]

theorem readLineLoop_gt {s : Bytes} (hs : 62 ∉ s) (hend : 255 ∉ s) {line : Bytes}
    (hlen : line.length + s.length + 1 < 2147483392) (rest : Bytes) :
    readLineLoop line (s ++ 62 :: rest) = (true, line ++ s ++ [62], rest) := by
  induction s generalizing line with
  | nil =>
      rw [List.length_nil] at hlen
      rw [List.nil_append, readLineLoop, if_neg (by decide), if_neg (by omega), if_pos rfl,
        List.append_nil]
  | cons c s ih =>
      simp only [List.mem_cons, not_or] at hs hend
      rw [List.length_cons] at hlen
      have hnext : (line ++ [c]).length + s.length + 1 < 2147483392 := by
        rw [List.length_append, List.length_singleton]
        omega
      rw [List.cons_append, readLineLoop, if_neg (Ne.symm hend.1), if_neg (by omega),
        if_neg (Ne.symm hs.1), ih hs.2 hend.2 hnext]
      simp

theorem readLineLoop_long {s : Bytes} (hend : 255 ∉ s) {line : Bytes}
    (hlen : 2147483392 ≤ line.length + s.length + 1) (rest : Bytes) :
    (readLineLoop line (s ++ 62 :: rest)).1 = false ∨ 62 ∈ s := by
  induction s generalizing line with
  | nil =>
      rw [List.length_nil] at hlen
      rw [List.nil_append, readLineLoop, if_neg (by decide), if_pos (by omega)]
      exact Or.inl rfl
  | cons c s ih =>
      simp only [List.mem_cons, not_or] at hend
      rw [List.length_cons] at hlen
      rw [List.cons_append, readLineLoop, if_neg (Ne.symm hend.1)]
      split
      · exact Or.inl rfl
      · split
        · rename_i hc
          exact Or.inr (hc ▸ List.mem_cons_self)
        · have hnext : 2147483392 ≤ (line ++ [c]).length + s.length + 1 := by
            rw [List.length_append, List.length_singleton]
            omega
          exact (ih hend.2 hnext).imp_right (List.mem_cons_of_mem c)

/-- One call reads the first character and goes on to the next `>`. -/
theorem readLineAlloc_gt {c : Byte} (hc : c ≠ 255) {s : Bytes} (hs : 62 ∉ s) (hend : 255 ∉ s)
    {sz : Nat} {line : Bytes} (hroom : line.length + 1 < sz)
    (hlen : line.length + s.length + 2 < 2147483392) (rest : Bytes) :
    readLineAlloc sz line (c :: (s ++ 62 :: rest)) =
      .ok ⟨true, line ++ c :: (s ++ [62]), lineBlock sz (line.length + s.length + 2), rest⟩ := by
  have hline : line ++ [c] ++ s ++ [62] = line ++ c :: (s ++ [62]) := by simp
  have hlength : (line ++ c :: (s ++ [62])).length = line.length + s.length + 2 := by
    simp only [List.length_append, List.length_cons, List.length_nil]
    omega
  have hloop : (line ++ [c]).length + s.length + 1 < 2147483392 := by
    rw [List.length_append, List.length_singleton]
    omega
  rw [readLineAlloc, if_neg hc, if_neg (by omega), readLineLoop_gt hs hend hloop]
  simp only [hline, hlength]

theorem readLineAlloc_long {c : Byte} (hc : c ≠ 255) {s : Bytes} (hs : 62 ∉ s) (hend : 255 ∉ s)
    {sz : Nat} {line : Bytes} (hlen : 2147483392 ≤ line.length + s.length + 2) (rest : Bytes) :
    readLineAlloc sz line (c :: (s ++ 62 :: rest)) = .error .outOfBounds ∨
      ∃ r, readLineAlloc sz line (c :: (s ++ 62 :: rest)) = .ok r ∧ r.ok = false := by
  have hloop : 2147483392 ≤ (line ++ [c]).length + s.length + 1 := by
    rw [List.length_append, List.length_singleton]
    omega
  rw [readLineAlloc, if_neg hc]
  split
  · exact Or.inl rfl
  · exact Or.inr ⟨_, rfl, (readLineLoop_long hend hloop rest).resolve_right hs⟩

theorem readText_of_mem {line : Bytes} (h : 60 ∈ line) (sz : Nat) (buf : Bytes) :
    readText sz line buf = .ok (some ⟨true, line, sz, buf⟩) := by
  rw [readText, if_pos h]

theorem readText_of_not_mem {line buf : Bytes} (h : 60 ∉ line) (hbuf : buf ≠ []) (sz : Nat) :
    readText sz line buf =
      match readLineAlloc sz line buf with
      | .error e => .error e
      | .ok r => if r.ok then readText r.sz r.line r.rest else .ok none := by
  rw [readText, if_neg h, dif_neg hbuf]
  split
  · rename_i hread
    rw [hread]
  · rename_i hread
    rw [hread]

theorem readText_of_read {sz : Nat} {line buf : Bytes} (h : 60 ∉ line) (hbuf : buf ≠ [])
    {r : LineRead} (hr : readLineAlloc sz line buf = .ok r) (hok : r.ok = true) :
    readText sz line buf = readText r.sz r.line r.rest := by
  rw [readText_of_not_mem h hbuf, hr]
  exact if_pos hok

theorem readText_crowded {sz : Nat} {line : Bytes} (h : 60 ∉ line) (hroom : sz ≤ line.length + 1)
    {c : Byte} (hc : c ≠ 255) (buf : Bytes) :
    readText sz line (c :: buf) = .error .outOfBounds := by
  have hr : readLineAlloc sz line (c :: buf) = .error .outOfBounds := by
    rw [readLineAlloc, if_neg hc, if_pos hroom]
  rw [readText_of_not_mem h (by simp), hr]

theorem lineBlock_ge {sz : Nat} (h : 256 ≤ sz) (n : Nat) : 256 ≤ lineBlock sz n := by
  unfold lineBlock
  split <;> omega

theorem seen_cons (c : Byte) (s : Bytes) :
    (decide (c = 60) || decide (60 ∈ s)) = decide (60 ∈ c :: s) := by
  rw [← Bool.decide_or]
  exact decide_eq_decide.mpr (by rw [List.mem_cons, eq_comm])

theorem roomy_tag {c : Byte} {s : Bytes} (hs : 62 ∉ s) (hlt : 60 ∈ c :: s) (sz n : Nat)
    (rest : Bytes) :
    roomy sz n true false (c :: (s ++ 62 :: rest)) =
      (decide (n + s.length + 2 < 2147483392) &&
        roomy (lineBlock sz (n + s.length + 2)) 0 true false rest) := by
  have hseen : (decide (c = 60) || decide (60 ∈ s)) = true :=
    (seen_cons c s).trans (decide_eq_true hlt)
  have hn : n + 1 + s.length + 1 = n + s.length + 2 := by omega
  rw [roomy_fresh, roomy_append hs, hseen, roomy, if_pos ⟨rfl, rfl⟩, if_pos rfl, hn]

theorem roomy_text {c : Byte} {s : Bytes} (hs : 62 ∉ s) (hlt : 60 ∉ c :: s) (sz n : Nat)
    (rest : Bytes) :
    roomy sz n true false (c :: (s ++ 62 :: rest)) =
      (decide (n + s.length + 2 < 2147483392) &&
        (decide (n + s.length + 3 < lineBlock sz (n + s.length + 2)) &&
          roomy (lineBlock sz (n + s.length + 2)) (n + s.length + 2) true false rest)) := by
  have hseen : (decide (c = 60) || decide (60 ∈ s)) = false :=
    (seen_cons c s).trans (decide_eq_false hlt)
  have hn : n + 1 + s.length + 1 = n + s.length + 2 := by omega
  have hn' : n + 1 + s.length + 2 = n + s.length + 3 := by omega
  rw [roomy_fresh, roomy_append hs, hseen, roomy, if_pos ⟨rfl, rfl⟩, if_neg (by simp), hn, hn']

theorem readText_last {c : Byte} {s : Bytes} (hs : 62 ∉ s) (hlt : 60 ∈ c :: s)
    (hend : 255 ∉ c :: s) {sz : Nat} (hsz : 256 ≤ sz) {line : Bytes} (hline : 60 ∉ line)
    (hroom : line.length + 1 < sz) (hlen : line.length + s.length + 2 < 2147483392)
    (rest : Bytes) :
    ∃ sz', 256 ≤ sz' ∧
      readText sz line (c :: (s ++ 62 :: rest)) =
        .ok (some ⟨true, line ++ c :: (s ++ [62]), sz', rest⟩) ∧
      roomy sz line.length true false (c :: (s ++ 62 :: rest)) = roomy sz' 0 true false rest := by
  simp only [List.mem_cons, not_or] at hend
  have hread := readLineAlloc_gt (Ne.symm hend.1) hs hend.2 hroom hlen rest
  have hmem : 60 ∈ line ++ c :: (s ++ [62]) := by
    rw [List.mem_append, List.mem_cons, List.mem_append]
    cases List.mem_cons.mp hlt with
    | inl h => exact Or.inr (Or.inl h)
    | inr h => exact Or.inr (Or.inr (Or.inl h))
  refine ⟨_, lineBlock_ge hsz (line.length + s.length + 2), ?_, ?_⟩
  · rw [readText_of_read hline (by simp) hread rfl, readText_of_mem hmem]
  · rw [roomy_tag hs hlt, decide_eq_true hlen, Bool.true_and]

/-- What `read_line_alloc` gives up is no line. -/
def NoLine (r : C (Option LineRead)) : Prop := r = .error .outOfBounds ∨ r = .ok none

theorem readText_noLine {sz : Nat} {line buf : Bytes} (h : 60 ∉ line) (hbuf : buf ≠ [])
    (hread : readLineAlloc sz line buf = .error .outOfBounds ∨
      ∃ r, readLineAlloc sz line buf = .ok r ∧ r.ok = false) :
    NoLine (readText sz line buf) := by
  rw [readText_of_not_mem h hbuf]
  rcases hread with herror | ⟨r, hr, hok⟩
  · rw [herror]
    exact Or.inl rfl
  · rw [hr]
    simp only [hok]
    exact Or.inr rfl

/-- A call inside of a text; the next one goes on behind its `>`. -/
theorem readText_next {c : Byte} {u : Bytes} (hu : 62 ∉ u) (hplain : Plain (c :: u)) {sz : Nat}
    {line : Bytes} (hline : 60 ∉ line) (hroom : line.length + 1 < sz)
    (hlen : line.length + u.length + 2 < 2147483392) (buf : Bytes) :
    readText sz line (c :: (u ++ 62 :: buf)) =
        readText (lineBlock sz (line.length + u.length + 2)) (line ++ c :: (u ++ [62])) buf ∧
      roomy sz line.length true false (c :: (u ++ 62 :: buf)) =
        (decide (line.length + u.length + 3 < lineBlock sz (line.length + u.length + 2)) &&
          roomy (lineBlock sz (line.length + u.length + 2)) (line.length + u.length + 2) true false
            buf) := by
  obtain ⟨⟨-, -, hff⟩, hpl⟩ := plain_cons.mp hplain
  have hread := readLineAlloc_gt hff hu hpl.2.2 hroom hlen buf
  refine ⟨readText_of_read hline (by simp) hread rfl, ?_⟩
  rw [roomy_text hu hplain.2.1, decide_eq_true hlen, Bool.true_and]

section Chunk

variable {inner : Bytes} (hinner : 62 ∉ inner) (hend : 255 ∉ inner) (rest : Bytes)

include hinner hend

theorem readText_short {acc : Bytes} (hacc : Plain acc) (hgt : 62 ∉ acc.tail) {sz : Nat}
    (hsz : 256 ≤ sz) {line : Bytes} (hline : 60 ∉ line) (hroom : line.length + 1 < sz)
    (hlen : line.length + acc.length + inner.length + 2 < 2147483392) :
    ∃ sz', 256 ≤ sz' ∧
      readText sz line (acc ++ 60 :: (inner ++ 62 :: rest)) =
        .ok (some ⟨true, line ++ (acc ++ 60 :: (inner ++ [62])), sz', rest⟩) ∧
      roomy sz line.length true false (acc ++ 60 :: (inner ++ 62 :: rest)) =
        roomy sz' 0 true false rest := by
  cases acc with
  | nil =>
      exact readText_last hinner (by simp) (by simp [hend]) hsz hline hroom (by simpa using hlen)
        rest
  | cons c acc =>
      obtain ⟨⟨-, -, hff⟩, hacc⟩ := plain_cons.mp hacc
      rw [List.tail_cons] at hgt
      have hs : 62 ∉ acc ++ 60 :: inner := by simp [hgt, hinner]
      have hlen' : line.length + (acc ++ 60 :: inner).length + 2 < 2147483392 := by
        simp only [List.length_append, List.length_cons] at hlen ⊢
        omega
      have hlast := readText_last (c := c) hs (by simp) (by simp [hff.symm, hacc.2.2, hend])
        hsz hline hroom hlen' rest
      simpa using hlast

/-- One call would read a text and the tag behind it, and they are too long for it. -/
theorem readText_long {acc : Bytes} (hacc : Plain acc) (hgt : 62 ∉ acc.tail) (sz : Nat)
    {line : Bytes} (hline : 60 ∉ line)
    (hlen : 2147483392 ≤ line.length + acc.length + inner.length + 2) :
    NoLine (readText sz line (acc ++ 60 :: (inner ++ 62 :: rest))) ∧
      roomy sz line.length true false (acc ++ 60 :: (inner ++ 62 :: rest)) = false := by
  have hlast : ∀ {c : Byte} {s : Bytes}, c ≠ 255 → 62 ∉ s → 255 ∉ s → 60 ∈ c :: s →
      2147483392 ≤ line.length + s.length + 2 →
      NoLine (readText sz line (c :: (s ++ 62 :: rest))) ∧
        roomy sz line.length true false (c :: (s ++ 62 :: rest)) = false := by
    intro c s hc hs hs' hlt hle
    refine ⟨readText_noLine hline (by simp) (readLineAlloc_long hc hs hs' hle rest), ?_⟩
    rw [roomy_tag hs hlt, decide_eq_false (by omega), Bool.false_and]
  cases acc with
  | nil => exact hlast (by decide) hinner hend (by simp) (by simpa using hlen)
  | cons c acc =>
      obtain ⟨⟨-, -, hff⟩, hacc⟩ := plain_cons.mp hacc
      rw [List.tail_cons] at hgt
      have hbuf : c :: acc ++ 60 :: (inner ++ 62 :: rest) =
          c :: (acc ++ 60 :: inner ++ 62 :: rest) := by
        simp
      rw [hbuf]
      refine hlast hff (by simp [hgt, hinner]) (by simp [hacc.2.2, hend]) (by simp) ?_
      simp only [List.length_append, List.length_cons] at hlen ⊢
      omega

/-- A text and the tag behind it are read as one line, or the line has no room. -/
theorem readText_chunk {acc : Bytes} (hacc : Plain acc) {sz : Nat} (hsz : 256 ≤ sz) {line : Bytes}
    (hline : 60 ∉ line) (hroom : line.length + 1 < sz) :
    (∃ sz', 256 ≤ sz' ∧
      readText sz line (acc ++ 60 :: (inner ++ 62 :: rest)) =
        .ok (some ⟨true, line ++ (acc ++ 60 :: (inner ++ [62])), sz', rest⟩) ∧
      roomy sz line.length true false (acc ++ 60 :: (inner ++ 62 :: rest)) =
        roomy sz' 0 true false rest) ∨
    NoLine (readText sz line (acc ++ 60 :: (inner ++ 62 :: rest))) ∧
      roomy sz line.length true false (acc ++ 60 :: (inner ++ 62 :: rest)) = false := by
  induction hn : acc.length using Nat.strong_induction_on generalizing acc sz line with
  | _ n ih =>
      by_cases hgt : 62 ∈ acc.tail
      · cases acc with
        | nil => cases hgt
        | cons c acc =>
            -- The call ends inside the text; the next one is made when there is room.
            obtain ⟨u, v, rfl, hu⟩ := List.eq_append_cons_of_mem hgt
            rw [← List.cons_append, plain_append] at hacc
            have hcu := hacc.1
            have hv := (plain_cons.mp hacc.2).2
            have hbuf : c :: (u ++ 62 :: v) ++ 60 :: (inner ++ 62 :: rest) =
                c :: (u ++ 62 :: (v ++ 60 :: (inner ++ 62 :: rest))) := by
              simp
            rw [hbuf]
            by_cases hlong : 2147483392 ≤ line.length + u.length + 2
            · obtain ⟨⟨-, -, hff⟩, hpl⟩ := plain_cons.mp hcu
              refine Or.inr ⟨readText_noLine hline (by simp)
                (readLineAlloc_long hff hu hpl.2.2 hlong _), ?_⟩
              rw [roomy_text hu hcu.2.1, decide_eq_false (by omega), Bool.false_and]
            · obtain ⟨hrun, hroomy⟩ := readText_next hu hcu hline hroom (by omega)
                (v ++ 60 :: (inner ++ 62 :: rest))
              have hlen : (line ++ c :: (u ++ [62])).length = line.length + u.length + 2 := by
                simp only [List.length_append, List.length_cons, List.length_nil]
                omega
              have hlt := hcu.2.1
              have hline' : 60 ∉ line ++ c :: (u ++ [62]) := by
                rw [← List.cons_append, List.mem_append, List.mem_append]
                simp [hline, hlt]
              rw [hrun, hroomy]
              by_cases hroom' : line.length + u.length + 3 <
                  lineBlock sz (line.length + u.length + 2)
              · have hrest := ih v.length (by simp at hn; omega) hv (lineBlock_ge hsz _) hline'
                  (by rw [hlen]; exact hroom') rfl
                have hjoin : line ++ c :: (u ++ [62]) ++ (v ++ 60 :: (inner ++ [62])) =
                    line ++ (c :: (u ++ 62 :: v) ++ 60 :: (inner ++ [62])) := by
                  simp
                rw [hjoin, hlen] at hrest
                rw [decide_eq_true hroom', Bool.true_and]
                exact hrest
              · obtain ⟨d, t, hd, hdt⟩ : ∃ d t, d ≠ 255 ∧
                    v ++ 60 :: (inner ++ 62 :: rest) = d :: t := by
                  cases v with
                  | nil => exact ⟨60, _, by decide, rfl⟩
                  | cons d v => exact ⟨d, _, (plain_cons.mp hv).1.2.2, rfl⟩
                have hcrowded : lineBlock sz (line.length + u.length + 2) ≤
                    (line ++ c :: (u ++ [62])).length + 1 := by
                  rw [hlen]
                  omega
                rw [decide_eq_false hroom', Bool.false_and, hdt]
                exact Or.inr ⟨Or.inl (readText_crowded hline' hcrowded hd t), rfl⟩
      · by_cases hlong : 2147483392 ≤ line.length + acc.length + inner.length + 2
        · exact Or.inr (readText_long hinner hend rest hacc hgt sz hline hlong)
        · exact Or.inl (readText_short hinner hend rest hacc hgt hsz hline hroom (by omega))

end Chunk

/-- The first call for a line sees that it is not blank, unless the line is too long. -/
theorem readLineAlloc_first {inner : Bytes} (hinner : 62 ∉ inner) (hend : 255 ∉ inner)
    (rest : Bytes) {acc : Bytes} (hacc : Plain acc) {sz : Nat} (hsz : 256 ≤ sz) :
    ∃ r, readLineAlloc sz [] (acc ++ 60 :: (inner ++ 62 :: rest)) = .ok r ∧
      (r.ok = true ∧ r.line.all isSpace = false ∨
        r.ok = false ∧ (acc ≠ [] ∨ 2147483390 ≤ inner.length)) := by
  have hread : ∀ {c : Byte} {s : Bytes}, c ≠ 255 → 62 ∉ s → 255 ∉ s → ∀ rest, ∃ r,
      readLineAlloc sz [] (c :: (s ++ 62 :: rest)) = .ok r ∧
        (r.ok = true ∧ r.line.all isSpace = false ∨ r.ok = false ∧ 2147483390 ≤ s.length) := by
    intro c s hc hs hend rest
    have hroom : ([] : Bytes).length + 1 < sz := by
      rw [List.length_nil]
      omega
    by_cases hlong : 2147483390 ≤ s.length
    · have hlen : 2147483392 ≤ ([] : Bytes).length + s.length + 2 := by
        rw [List.length_nil]
        omega
      rcases @readLineAlloc_long c hc s hs hend sz [] hlen rest with herror | ⟨r, hr, hok⟩
      · rw [readLineAlloc, if_neg hc, if_neg (by omega)] at herror
        cases herror
      · exact ⟨r, hr, Or.inr ⟨hok, hlong⟩⟩
    · refine ⟨_, readLineAlloc_gt hc hs hend hroom ?_ rest, Or.inl ⟨rfl, ?_⟩⟩
      · rw [List.length_nil]
        omega
      · have hgt : isSpace 62 = false := by decide
        simp [hgt]
  cases acc with
  | nil =>
      obtain ⟨r, hr, hcases⟩ := hread (c := 60) (by decide) hinner hend rest
      exact ⟨r, hr, hcases.imp_right fun h => ⟨h.1, Or.inr h.2⟩⟩
  | cons c acc =>
      obtain ⟨⟨-, -, hff⟩, hacc⟩ := plain_cons.mp hacc
      by_cases hgt : 62 ∈ acc
      · obtain ⟨u, v, rfl, hu⟩ := List.eq_append_cons_of_mem hgt
        have hbuf : c :: (u ++ 62 :: v) ++ 60 :: (inner ++ 62 :: rest) =
            c :: (u ++ 62 :: (v ++ 60 :: (inner ++ 62 :: rest))) := by
          simp
        obtain ⟨r, hr, hcases⟩ := hread hff hu (plain_append.mp hacc).1.2.2
          (v ++ 60 :: (inner ++ 62 :: rest))
        rw [hbuf]
        exact ⟨r, hr, hcases.imp_right fun h => ⟨h.1, Or.inl (by simp)⟩⟩
      · have hbuf : c :: acc ++ 60 :: (inner ++ 62 :: rest) =
            c :: (acc ++ 60 :: inner ++ 62 :: rest) := by
          simp
        obtain ⟨r, hr, hcases⟩ := hread (s := acc ++ 60 :: inner) hff (by simp [hgt, hinner])
          (by simp [hacc.2.2, hend]) rest
        rw [hbuf]
        exact ⟨r, hr, hcases.imp_right fun h => ⟨h.1, Or.inl (by simp)⟩⟩

/-! ## Tags -/

theorem isName_head {tag : Bytes} (h : IsName tag) :
    ∃ c s, tag = c :: s ∧ c ≠ 63 ∧ c ≠ 33 ∧ c ≠ 47 := by
  obtain ⟨c, s, rfl⟩ := List.exists_cons_of_ne_nil h.1
  refine ⟨c, s, rfl, ?_, ?_, ?_⟩
  · exact fun heq => h.not_mem (b := 63) (by decide) (heq ▸ List.mem_cons_self)
  · exact fun heq => h.not_mem (b := 33) (by decide) (heq ▸ List.mem_cons_self)
  · exact fun heq => h.not_mem (b := 47) (by decide) (heq ▸ List.mem_cons_self)

/-- Behind the `<` there is neither a `?` nor a `!`. -/
theorem parseSpecialTags_spec {c : Byte} (hq : c ≠ 63) (hb : c ≠ 33) (s : Bytes) :
    parseSpecialTags (60 :: c :: s) spec = .ok none := by
  have hinstr : (str "<?").isPrefixOf (60 :: c :: s) = false := by
    simp [str, ch, List.isPrefixOf, Ne.symm hq]
  have hcomment : (str "<!--").isPrefixOf (60 :: c :: s) = false := by
    simp [str, ch, List.isPrefixOf, Ne.symm hb]
  have hcdata : (str "<![CDATA[").isPrefixOf (60 :: c :: s) = false := by
    simp [str, ch, List.isPrefixOf, Ne.symm hb]
  simp only [spec, parseSpecialTags, parseSpecialTag, hinstr, hcomment, hcdata]
  rfl

theorem parseDoctype_eq_none {c : Byte} (hb : c ≠ 33) (s : Bytes) :
    parseDoctype (60 :: c :: s) = none := by
  have hdoctype : (str "<!DOCTYPE").isPrefixOf (60 :: c :: s) = false := by
    simp [str, ch, List.isPrefixOf, Ne.symm hb]
  rw [parseDoctype, hdoctype]
  rfl

theorem not_isNameByte_of_isSpace {c : Byte} (h : isSpace c = true) : isNameByte c = false := by
  have hrange : ∀ n : Nat, n ≤ 32 → isNameByte (UInt8.ofNat n) = false := by decide
  have hle : c.toNat ≤ 32 := by
    simp only [isSpace, Bool.or_eq_true, Bool.and_eq_true, decide_eq_true_eq] at h
    cases h with
    | inl h =>
        rw [h]
        decide
    | inr h => omega
  have hc := hrange c.toNat hle
  rwa [UInt8.ofNat_toNat] at hc

theorem inValue_of_isNameByte {c : Byte} (h : isNameByte c = true) : inValue c = true := by
  have hspace : isSpace c = false := by
    cases hs : isSpace c with
    | false => rfl
    | true =>
        rw [not_isNameByte_of_isSpace hs] at h
        cases h
  have hslash : c ≠ 47 := by
    intro heq
    rw [heq] at h
    cases h
  have hgt : c ≠ 62 := by
    intro heq
    rw [heq] at h
    cases h
  simp [inValue, hspace, hslash, hgt]

theorem takeWhile_inValue {tag : Bytes} (h : IsName tag) {c : Byte} (hc : inValue c = false)
    (rest : Bytes) : (tag ++ c :: rest).takeWhile inValue = tag := by
  have hall : ∀ b ∈ tag, inValue b = true := fun b hb =>
    inValue_of_isNameByte (List.all_eq_true.mp h.2 b hb)
  rw [List.takeWhile_append_of_pos hall, List.takeWhile_cons_of_neg (by simp [hc]), List.append_nil]

theorem parseAttributes_gt (room : Bool) : parseAttributes room [62] = .ok .tagFather := by
  rw [parseAttributes]
  rfl

theorem parseAttributes_self (room : Bool) : parseAttributes room [47, 62] = .ok .tagSelf := by
  rw [parseAttributes]
  rfl

/-- A tag that is neither special nor a document type. -/
theorem xmlParse1string_cons {c : Byte} (hq : c ≠ 63) (hb : c ≠ 33) {s : Bytes}
    (hs : (60 :: c :: s).getLast? = some 62) (room : Bool) :
    xmlParse1string room (60 :: c :: s) =
      if c = 47 then .ok (.tagEnd, s.takeWhile inValue)
      else (parseAttributes room ((c :: s).drop ((c :: s).takeWhile inValue).length)).map
        fun tagType => (tagType, (c :: s).takeWhile inValue) := by
  rw [xmlParse1string, hs, parseSpecialTags_spec hq hb, parseDoctype_eq_none hb]
  by_cases hslash : c = 47
  · subst hslash
    rfl
  · have hhead : ¬ some c = some 47 := by
      simpa using hslash
    simp only [if_neg hslash, List.head?_cons, ne_eq, not_true_eq_false, or_self, if_false,
      List.drop_succ_cons, List.drop_zero, if_neg hhead]
    cases parseAttributes room ((c :: s).drop ((c :: s).takeWhile inValue).length) <;> rfl

theorem xmlParse1string_open {tag : Bytes} (h : IsName tag) (room : Bool) :
    xmlParse1string room (60 :: (tag ++ [62])) = .ok (.tagFather, tag) := by
  have htag := takeWhile_inValue h (c := 62) (by decide) []
  have hlast : (60 :: (tag ++ [62])).getLast? = some 62 := by
    rw [← List.cons_append, List.getLast?_concat]
  obtain ⟨c, s, hcs, hq, hb, hslash⟩ := isName_head h
  rw [hcs, List.cons_append] at hlast htag ⊢
  rw [xmlParse1string_cons hq hb hlast, if_neg hslash, htag, ← List.cons_append, List.drop_left,
    parseAttributes_gt]
  rfl

theorem xmlParse1string_close {tag : Bytes} (h : IsName tag) (room : Bool) :
    xmlParse1string room (60 :: (47 :: tag ++ [62])) = .ok (.tagEnd, tag) := by
  have hlast : (60 :: (47 :: tag ++ [62])).getLast? = some 62 := by
    rw [← List.cons_append, List.getLast?_concat]
  rw [List.cons_append] at hlast ⊢
  rw [xmlParse1string_cons (by decide) (by decide) hlast, if_pos rfl,
    takeWhile_inValue h (by decide)]

theorem xmlParse1string_self {tag : Bytes} (h : IsName tag) (room : Bool) :
    xmlParse1string room (60 :: (tag ++ [47] ++ [62])) = .ok (.tagSelf, tag) := by
  have htag := takeWhile_inValue h (c := 47) (by decide) [62]
  have hlast : (60 :: (tag ++ [47] ++ [62])).getLast? = some 62 := by
    rw [← List.cons_append, List.getLast?_concat]
  obtain ⟨c, s, hcs, hq, hb, hslash⟩ := isName_head h
  rw [List.append_assoc] at hlast ⊢
  rw [hcs, List.cons_append] at hlast htag ⊢
  have hsplit : s ++ ([47] ++ [62]) = s ++ 47 :: [62] := rfl
  rw [hsplit] at hlast ⊢
  rw [xmlParse1string_cons hq hb hlast, if_neg hslash, htag, ← List.cons_append, List.drop_left,
    parseAttributes_self]
  rfl

end STRos
