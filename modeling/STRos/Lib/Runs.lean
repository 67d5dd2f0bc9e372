import Mathlib.Data.List.TakeWhile

/-! # The maximal runs between separators

A run of a list is a part without separators, and it is maximal when it is followed and
preceded by a separator or by an end. The pieces that a list is split into at its
separators are its maximal runs, in order, but for the pieces that are empty.
-/

namespace Runs

variable {α : Type} (sep : α → Bool)

/-- From the position `k` on there is a maximal run `t`. -/
structure MaximalRun (s : List α) (k : Nat) (t : List α) : Prop where
  nonempty : t ≠ []
  free : ∀ c ∈ t, sep c = false
  placed : ∃ before after, s = before ++ t ++ after ∧ before.length = k ∧
    (∀ c ∈ before.getLast?, sep c = true) ∧ ∀ c ∈ after.head?, sep c = true

/-- Pieces with their positions, with one separator between two of them. -/
def positioned : Nat → List (List α) → List (Nat × List α)
  | _, [] => []
  | k, t :: ts => (k, t) :: positioned (k + t.length + 1) ts

def runsFrom (k : Nat) (s : List α) : List (Nat × List α) :=
  (positioned k (s.splitOnP sep)).filter fun r => !r.2.isEmpty

def runs (s : List α) : List (Nat × List α) := runsFrom sep 0 s

theorem map_positioned (k : Nat) (ts : List (List α)) :
    (positioned k ts).map Prod.snd = ts := by
  induction ts generalizing k with
  | nil => rfl
  | cons t ts ih => rw [positioned, List.map_cons, ih]

theorem map_runs (s : List α) :
    (runs sep s).map Prod.snd = (s.splitOnP sep).filter fun t => !t.isEmpty := by
  have hcomp : (fun r : Nat × List α => !r.2.isEmpty) = (fun t => !t.isEmpty) ∘ Prod.snd := rfl
  rw [runs, runsFrom, hcomp, ← List.filter_map, map_positioned]

variable {sep}

/-- A list without separators, or what is in front of the first one and behind it. -/
theorem free_or_split (sep : α → Bool) (s : List α) :
    (∀ c ∈ s, sep c = false) ∨
      ∃ w d r, s = w ++ d :: r ∧ (∀ c ∈ w, sep c = false) ∧ sep d = true := by
  induction s with
  | nil => exact Or.inl (by simp)
  | cons c s ih =>
      cases hc : sep c with
      | true => exact Or.inr ⟨[], c, s, rfl, by simp, hc⟩
      | false =>
          cases ih with
          | inl hfree => exact Or.inl (List.forall_mem_cons.mpr ⟨hc, hfree⟩)
          | inr hsplit =>
              obtain ⟨w, d, r, rfl, hw, hd⟩ := hsplit
              exact Or.inr ⟨c :: w, d, r, rfl, List.forall_mem_cons.mpr ⟨hc, hw⟩, hd⟩

/-- Induction along the separators. -/
theorem split_induction (sep : α → Bool) {P : List α → Prop}
    (free : ∀ w, (∀ c ∈ w, sep c = false) → P w)
    (split : ∀ w d r, (∀ c ∈ w, sep c = false) → sep d = true → P r → P (w ++ d :: r))
    (s : List α) : P s := by
  induction hn : s.length using Nat.strong_induction_on generalizing s with
  | _ n ih =>
      cases free_or_split sep s with
      | inl hfree => exact free s hfree
      | inr hsplit =>
          obtain ⟨w, d, r, rfl, hw, hd⟩ := hsplit
          rw [List.length_append, List.length_cons] at hn
          exact split w d r hw hd (ih r.length (by omega) r rfl)

theorem runsFrom_free {w : List α} (hw : ∀ c ∈ w, sep c = false) (k : Nat) :
    runsFrom sep k w = if w = [] then [] else [(k, w)] := by
  have hpieces : w.splitOnP sep = [w] := List.splitOnP_eq_singleton hw
  rw [runsFrom, hpieces]
  cases w with
  | nil => rfl
  | cons c w => rfl

theorem runsFrom_split {w : List α} (hw : ∀ c ∈ w, sep c = false) {d : α} (hd : sep d = true)
    (r : List α) (k : Nat) :
    runsFrom sep k (w ++ d :: r) =
      (if w = [] then [] else [(k, w)]) ++ runsFrom sep (k + w.length + 1) r := by
  have hpieces : (w ++ d :: r).splitOnP sep = w :: r.splitOnP sep :=
    List.splitOnP_append_cons_of_forall_mem hw d hd r
  rw [runsFrom, hpieces]
  cases w with
  | nil => rfl
  | cons c w => rfl

theorem takeWhile_run {t after : List α} (ht : ∀ c ∈ t, sep c = false)
    (hafter : ∀ c ∈ after.head?, sep c = true) :
    (t ++ after).takeWhile (fun c => !sep c) = t := by
  have hstop : after.takeWhile (fun c => !sep c) = [] := by
    cases after with
    | nil => rfl
    | cons c after => simp [hafter c rfl]
  rw [List.takeWhile_append_of_pos (fun c hc => by rw [ht c hc]; rfl), hstop, List.append_nil]

/-- At the start of a list there is one maximal run at most: what is in front of the first
separator. -/
theorem maximalRun_first {w : List α} (hw : ∀ c ∈ w, sep c = false) (rest : List α)
    (hrest : ∀ c ∈ rest.head?, sep c = true) {t : List α} :
    MaximalRun sep (w ++ rest) 0 t ↔ w ≠ [] ∧ t = w := by
  constructor
  · rintro ⟨hne, hfree, before, after, heq, hlen, -, hafter⟩
    rw [List.length_eq_zero_iff.mp hlen, List.nil_append] at heq
    have ht : t = w := by
      rw [← takeWhile_run hfree hafter, ← heq, takeWhile_run hw hrest]
    exact ⟨ht ▸ hne, ht⟩
  · rintro ⟨hne, rfl⟩
    exact ⟨hne, hw, [], rest, rfl, rfl, by simp, hrest⟩

/-- In a list without separators no maximal run starts later. -/
theorem not_maximalRun_free {w : List α} (hw : ∀ c ∈ w, sep c = false) {k : Nat} (hk : k ≠ 0)
    {t : List α} : ¬ MaximalRun sep w k t := by
  rintro ⟨-, -, before, after, rfl, rfl, hbefore, -⟩
  cases hlast : before.getLast? with
  | none =>
      rw [List.getLast?_eq_none_iff.mp hlast] at hk
      exact hk rfl
  | some c =>
      have hsep := hbefore c hlast
      have hmem : c ∈ before ++ t ++ after := by simp [List.mem_of_getLast? hlast]
      rw [hw c hmem] at hsep
      cases hsep

/-- Behind the first separator the maximal runs are those of the rest. -/
theorem maximalRun_later {w : List α} (hw : ∀ c ∈ w, sep c = false) {d : α} (hd : sep d = true)
    {r : List α} {k : Nat} (hk : k ≠ 0) {t : List α} :
    MaximalRun sep (w ++ d :: r) k t ↔ ∃ i, k = w.length + 1 + i ∧ MaximalRun sep r i t := by
  constructor
  · rintro ⟨hne, hfree, before, after, heq, rfl, hbefore, hafter⟩
    cases List.eq_nil_or_concat before with
    | inl hnil =>
        rw [hnil] at hk
        exact absurd rfl hk
    | inr hconcat =>
        obtain ⟨front, c, rfl⟩ := hconcat
        rw [List.concat_eq_append] at heq hbefore ⊢
        have hc : sep c = true := hbefore c List.getLast?_concat
        rw [List.append_assoc, List.append_assoc, List.singleton_append] at heq
        cases List.append_eq_append_iff.mp heq with
        | inl hlonger =>
            obtain ⟨x, hfront, hx⟩ := hlonger
            cases x with
            | nil =>
                obtain ⟨rfl, hr⟩ := List.cons.inj hx
                refine ⟨0, ?_, hne, hfree, [], after, hr, rfl, by simp, hafter⟩
                rw [hfront]
                simp
            | cons d' x =>
                obtain ⟨rfl, hr⟩ := List.cons.inj hx
                refine ⟨(x ++ [c]).length, ?_, hne, hfree, x ++ [c], after, ?_, rfl, ?_, hafter⟩
                · rw [hfront]
                  simp only [List.length_append, List.length_cons, List.length_nil]
                  omega
                · rw [hr]
                  simp
                · simpa using hc
        | inr hshorter =>
            obtain ⟨x, hfront, hx⟩ := hshorter
            cases x with
            | nil =>
                obtain ⟨rfl, hr⟩ := List.cons.inj hx
                refine ⟨0, ?_, hne, hfree, [], after, hr.symm, rfl, by simp, hafter⟩
                rw [hfront]
                simp
            | cons c' x =>
                obtain ⟨rfl, -⟩ := List.cons.inj hx
                rw [hw c (by rw [hfront]; simp)] at hc
                cases hc
  · rintro ⟨i, rfl, hne, hfree, before, after, rfl, rfl, hbefore, hafter⟩
    refine ⟨hne, hfree, w ++ d :: before, after, by simp, ?_, ?_, hafter⟩
    · rw [List.length_append, List.length_cons]
      omega
    · intro c hc
      cases before with
      | nil =>
          rw [List.getLast?_concat] at hc
          cases hc
          exact hd
      | cons b before =>
          rw [List.getLast?_append, List.getLast?_cons_cons] at hc
          cases hlast : (b :: before).getLast? with
          | none => simp at hlast
          | some e =>
              rw [hlast, Option.some_or] at hc
              exact hbefore c (hlast.trans hc)

theorem mem_firstRun {w : List α} {k j : Nat} {t : List α} :
    (j, t) ∈ (if w = [] then [] else [(k, w)]) ↔ w ≠ [] ∧ j = k ∧ t = w := by
  by_cases hw : w = []
  · simp [hw]
  · simp [hw]

/-- The pieces that are not empty are the maximal runs. -/
theorem mem_runsFrom (s : List α) (k j : Nat) (t : List α) :
    (j, t) ∈ runsFrom sep k s ↔ ∃ i, j = k + i ∧ MaximalRun sep s i t := by
  induction s using split_induction sep generalizing k with
  | free w hw =>
      have hfirst := maximalRun_first hw [] (by simp) (t := t)
      rw [List.append_nil] at hfirst
      rw [runsFrom_free hw, mem_firstRun]
      constructor
      · rintro ⟨hne, rfl, rfl⟩
        exact ⟨0, rfl, hfirst.mpr ⟨hne, rfl⟩⟩
      · rintro ⟨i, rfl, hrun⟩
        by_cases hi : i = 0
        · subst hi
          exact ⟨(hfirst.mp hrun).1, rfl, (hfirst.mp hrun).2⟩
        · exact absurd hrun (not_maximalRun_free hw hi)
  | split w d r hw hd ih =>
      have hfirst := maximalRun_first hw (d :: r) (by simpa using hd) (t := t)
      rw [runsFrom_split hw hd, List.mem_append, mem_firstRun, ih]
      constructor
      · rintro (⟨hne, rfl, rfl⟩ | ⟨i, rfl, hrun⟩)
        · exact ⟨0, rfl, hfirst.mpr ⟨hne, rfl⟩⟩
        · refine ⟨w.length + 1 + i, by omega, ?_⟩
          exact (maximalRun_later hw hd (by omega)).mpr ⟨i, rfl, hrun⟩
      · rintro ⟨i, rfl, hrun⟩
        by_cases hi : i = 0
        · subst hi
          exact Or.inl ⟨(hfirst.mp hrun).1, rfl, (hfirst.mp hrun).2⟩
        · obtain ⟨i', rfl, hrest⟩ := (maximalRun_later hw hd hi).mp hrun
          exact Or.inr ⟨i', by omega, hrest⟩

theorem runsFrom_sorted (s : List α) (k : Nat) :
    (runsFrom sep k s).Pairwise (fun p q => p.1 < q.1) ∧ ∀ p ∈ runsFrom sep k s, k ≤ p.1 := by
  induction s using split_induction sep generalizing k with
  | free w hw =>
      rw [runsFrom_free hw]
      split
      · simp
      · simp
  | split w d r hw hd ih =>
      obtain ⟨hsorted, hbound⟩ := ih (k + w.length + 1)
      rw [runsFrom_split hw hd]
      constructor
      · rw [List.pairwise_append]
        refine ⟨?_, hsorted, ?_⟩
        · split
          · simp
          · simp
        · rintro ⟨j, t⟩ hp q hq
          obtain ⟨-, rfl, -⟩ := mem_firstRun.mp hp
          have hle := hbound q hq
          omega
      · rintro ⟨j, t⟩ hp
        cases List.mem_append.mp hp with
        | inl hfirst =>
            obtain ⟨-, rfl, -⟩ := mem_firstRun.mp hfirst
            exact le_rfl
        | inr hrest =>
            have hle := hbound _ hrest
            simp only at hle ⊢
            omega

theorem mem_runs {s : List α} {r : Nat × List α} : r ∈ runs sep s ↔ MaximalRun sep s r.1 r.2 := by
  rw [runs, mem_runsFrom s 0 r.1 r.2]
  simp

theorem runs_sorted (s : List α) : (runs sep s).Pairwise fun p q => p.1 < q.1 :=
  (runsFrom_sorted s 0).1

end Runs
