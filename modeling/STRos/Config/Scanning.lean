import STRos.Model.Ini
import Mathlib.Data.List.Chain

/-! # Where the search in a line stops

A semicolon starts a comment only behind white space. The search for a
character passes a text that has neither the character nor a comment in it.
-/

namespace STRos

open CString

def CommentFree (s : Bytes) : Prop := s.IsChain fun a b => ¬ (isSpace a = true ∧ b = ch ';')

instance (s : Bytes) : Decidable (CommentFree s) := inferInstanceAs (Decidable (List.IsChain _ s))

theorem CommentFree.nil : CommentFree [] := List.isChain_nil

theorem CommentFree.of_infix {s t : Bytes} (h : CommentFree t) (hs : s <:+: t) : CommentFree s :=
  List.IsChain.infix h hs

theorem CommentFree.append_blank {s pad : Bytes} (h : CommentFree s) (hpad : Blank pad) :
    CommentFree (s ++ pad) := by
  have hspace : isSpace (ch ';') = false := by decide
  have hno : ∀ b ∈ pad, b ≠ ch ';' := by
    intro b hb heq
    have hblank := hpad b hb
    rw [heq, hspace] at hblank
    cases hblank
  apply List.isChain_append.mpr
  refine ⟨h, ?_, fun a _ b hb hab => hno b (List.mem_of_mem_head? hb) hab.2⟩
  induction pad with
  | nil => exact List.isChain_nil
  | cons b pad ih =>
      rw [Blank, List.forall_mem_cons] at hpad
      rw [List.forall_mem_cons] at hno
      apply List.isChain_cons.mpr
      exact ⟨fun c hc hcb => hno.2 c (List.mem_of_mem_head? hc) hcb.2, ih hpad.2 hno.2⟩

/-- White space was the last byte before the place behind the text, `w` the one before it. -/
def spaceBefore (w : Bool) (s : Bytes) : Bool := (s.getLast?.map isSpace).getD w

theorem spaceBefore_cons (w : Bool) (b : Byte) (s : Bytes) :
    spaceBefore w (b :: s) = spaceBefore (isSpace b) s := by
  cases s with
  | nil => rfl
  | cons c s => simp [spaceBefore, List.getLast?_eq_some_getLast]

/-- The search for `c` stops behind `s`. -/
def StopsAt (c : Byte) (w : Bool) (s t : Bytes) : Prop :=
  ∀ b ∈ t.head?, b = c ∨ (b = ch ';' ∧ spaceBefore w s = true)

structure Passed (c : Byte) (w : Bool) (s : Bytes) : Prop where
  absent : c ∉ s
  commentFree : CommentFree s
  first : w = true → s.head? ≠ some (ch ';')

theorem passed_cons {c b : Byte} {w : Bool} {s : Bytes} :
    Passed c w (b :: s) ↔ (b ≠ c ∧ ¬ (w = true ∧ b = ch ';')) ∧ Passed c (isSpace b) s := by
  constructor
  · intro h
    have habsent := h.absent
    have hchain := List.isChain_cons.mp h.commentFree
    rw [List.mem_cons, not_or] at habsent
    refine ⟨⟨Ne.symm habsent.1, fun hwb => h.first hwb.1 (by rw [hwb.2]; rfl)⟩, ?_⟩
    exact ⟨habsent.2, hchain.2, fun hb hs => hchain.1 _ hs ⟨hb, rfl⟩⟩
  · intro h
    refine ⟨?_, ?_, ?_⟩
    · rw [List.mem_cons, not_or]
      exact ⟨Ne.symm h.1.1, h.2.absent⟩
    · apply List.isChain_cons.mpr
      exact ⟨fun a ha hab => h.2.first hab.1 (by rw [← hab.2]; exact ha), h.2.commentFree⟩
    · intro hw hb
      rw [List.head?_cons, Option.some.injEq] at hb
      exact h.1.2 ⟨hw, hb⟩

theorem findFrom_eq {c : Byte} {w : Bool} {s t : Bytes} (hs : Passed c w s)
    (ht : StopsAt c w s t) : findFrom c w (s ++ t) = (s, t) := by
  induction s generalizing w with
  | nil =>
      cases t with
      | nil => rfl
      | cons b t =>
          have hstop : ¬ (b ≠ c ∧ ¬ (w = true ∧ b = ch ';')) := by
            intro hgo
            cases ht b rfl with
            | inl hc => exact hgo.1 hc
            | inr hcomment => exact hgo.2 ⟨hcomment.2, hcomment.1⟩
          rw [List.nil_append, findFrom, if_neg hstop]
  | cons b s ih =>
      obtain ⟨hb, hrest⟩ := passed_cons.mp hs
      rw [List.cons_append, findFrom, if_pos hb, ih hrest]
      rw [StopsAt, spaceBefore_cons] at ht
      exact ht

theorem findFrom_append (c : Byte) (w : Bool) (s : Bytes) :
    (findFrom c w s).1 ++ (findFrom c w s).2 = s := by
  fun_induction findFrom c w s with
  | case1 w => rfl
  | case2 w b s hgo ih => rw [List.cons_append, ih]
  | case3 w b s hstop => rfl

theorem findFrom_passed (c : Byte) (w : Bool) (s : Bytes) : Passed c w (findFrom c w s).1 := by
  fun_induction findFrom c w s with
  | case1 w => exact ⟨by simp, CommentFree.nil, by simp⟩
  | case2 w b s hgo ih => exact passed_cons.mpr ⟨hgo, ih⟩
  | case3 w b s hstop => exact ⟨by simp, CommentFree.nil, by simp⟩

theorem findFrom_head {c : Byte} {w : Bool} {s : Bytes} :
    ∀ b ∈ (findFrom c w s).2.head?, b = c ∨ b = ch ';' := by
  fun_induction findFrom c w s with
  | case1 w => simp
  | case2 w b s hgo ih => exact ih
  | case3 w b s hstop =>
      rintro d hd
      cases hd
      rw [not_and_or, not_not, not_not] at hstop
      exact hstop.imp_right And.right

theorem findFrom_stops (c : Byte) (w : Bool) (s : Bytes) :
    StopsAt c w (findFrom c w s).1 (findFrom c w s).2 := by
  fun_induction findFrom c w s with
  | case1 w => simp [StopsAt]
  | case2 w b s hgo ih =>
      rw [StopsAt, spaceBefore_cons]
      exact ih
  | case3 w b s hstop =>
      rintro d hd
      cases hd
      rw [not_and_or, not_not, not_not] at hstop
      exact hstop.imp_right And.symm

theorem findCharOrComment_eq {c : Byte} {s t : Bytes} (hc : c ∉ s) (hs : CommentFree s)
    (ht : StopsAt c false s t) : findCharOrComment (s ++ t) c = (s, t) :=
  findFrom_eq ⟨hc, hs, by simp⟩ ht

theorem findCharOrComment_append (s : Bytes) (c : Byte) :
    (findCharOrComment s c).1 ++ (findCharOrComment s c).2 = s :=
  findFrom_append c false s

theorem findCharOrComment_passed (s : Bytes) (c : Byte) :
    Passed c false (findCharOrComment s c).1 :=
  findFrom_passed c false s

end STRos
