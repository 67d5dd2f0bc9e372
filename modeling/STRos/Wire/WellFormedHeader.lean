import STRos.Wire.HeaderCursor

/-! # What is accepted of well-formed headers

The fields of a well-formed header may come in any order and among others. The
loop finds the three values by their keys; the checks after it look the checksum
up for the type the peer named, which may be `*`, and answer with its hash.
-/

namespace STRos

open CString

/-! ## Headers as lists of pairs -/

/-- `key=value` -/
def pairText (p : Bytes × Bytes) : Bytes := p.1 ++ eqSign :: p.2

def pairsBytes (pairs : List (Bytes × Bytes)) : Bytes :=
  (pairs.map fun p => lenPrefixed (pairText p)).flatten

structure PairField (p : Bytes × Bytes) : Prop where
  keyNonempty : p.1 ≠ []
  valueNonempty : p.2 ≠ []
  keyEq : eqSign ∉ p.1
  valueEq : eqSign ∉ p.2
  keyWord : Wordlike p.1
  valueWord : Wordlike p.2
  nulFree : NulFree (pairText p)
  length : (pairText p).length ≤ 127

instance (p : Bytes × Bytes) : Decidable (PairField p) :=
  decidable_of_iff (p.1 ≠ [] ∧ p.2 ≠ [] ∧ eqSign ∉ p.1 ∧ eqSign ∉ p.2 ∧ Wordlike p.1 ∧
      Wordlike p.2 ∧ NulFree (pairText p) ∧ (pairText p).length ≤ 127)
    ⟨fun ⟨h₁, h₂, h₃, h₄, h₅, h₆, h₇, h₈⟩ => ⟨h₁, h₂, h₃, h₄, h₅, h₆, h₇, h₈⟩,
      fun ⟨h₁, h₂, h₃, h₄, h₅, h₆, h₇, h₈⟩ => ⟨h₁, h₂, h₃, h₄, h₅, h₆, h₇, h₈⟩⟩

structure PairsHeader (pairs : List (Bytes × Bytes)) : Prop where
  fields : ∀ p ∈ pairs, PairField p
  keys : (pairs.map Prod.fst).Nodup

def fieldValue (pairs : List (Bytes × Bytes)) (key : Bytes) : Option Bytes := pairs.lookup key

def fieldPointer (pairs : List (Bytes × Bytes)) (key : Bytes) : Option Item :=
  (fieldValue pairs key).map Item.string

def pairsFields (pairs : List (Bytes × Bytes)) : HeaderFields :=
  ⟨fieldPointer pairs (str "type"), fieldPointer pairs (str "md5sum"),
    fieldPointer pairs (str "topic")⟩

/-! ## The loop on such a header -/

/-- Pointers that are set stay, the others are taken from the rest of the header. -/
def HeaderFields.orElse (st more : HeaderFields) : HeaderFields :=
  ⟨st.msgtype.or more.msgtype, st.md5sum.or more.md5sum, st.topic.or more.topic⟩

theorem HeaderFields.orElse_complete {st : HeaderFields} (h : st.complete = true)
    (more : HeaderFields) : st.orElse more = st := by
  simp only [complete, Bool.and_eq_true, Option.isSome_iff_exists] at h
  obtain ⟨⟨⟨msgtype, htype⟩, md5sum, hmd5⟩, topic, htopic⟩ := h
  cases st with
  | mk t m p =>
      simp only at htype hmd5 htopic
      simp [orElse, htype, hmd5, htopic]

/-- The keys of the pointers that are set do not come again. -/
structure HeaderFields.Fresh (st : HeaderFields) (pairs : List (Bytes × Bytes)) : Prop where
  msgtype : str "type" ∈ pairs.map Prod.fst → st.msgtype = none
  md5sum : str "md5sum" ∈ pairs.map Prod.fst → st.md5sum = none
  topic : str "topic" ∈ pairs.map Prod.fst → st.topic = none

def HeaderFields.putPair (st : HeaderFields) (p : Bytes × Bytes) : HeaderFields :=
  st.put p.1 (some (.string p.2))

theorem noteField_pairText {p : Bytes × Bytes} (h : PairField p) (spare : Bool)
    (st : HeaderFields) :
    noteField spare (split (pairText p) (str "=")) st = .ok (st.putPair p) :=
  noteField_pair h.keyWord h.valueWord h.keyNonempty h.valueNonempty h.keyEq h.valueEq

theorem fieldPointer_cons (p : Bytes × Bytes) (pairs : List (Bytes × Bytes)) (key : Bytes) :
    fieldPointer (p :: pairs) key =
      if key = p.1 then some (.string p.2) else fieldPointer pairs key := by
  unfold fieldPointer fieldValue
  rw [List.lookup_cons]
  split
  · rename_i h
    rw [if_pos (by simpa using h)]
    rfl
  · rename_i h
    rw [if_neg (by simpa using h)]

theorem put_orElse {st : HeaderFields} {p : Bytes × Bytes} {pairs : List (Bytes × Bytes)}
    (h : st.Fresh (p :: pairs)) :
    (st.putPair p).orElse (pairsFields pairs) = st.orElse (pairsFields (p :: pairs)) := by
  have htype := h.msgtype
  have hmd5 := h.md5sum
  have htopic := h.topic
  simp only [List.map_cons, List.mem_cons] at htype hmd5 htopic
  simp only [HeaderFields.putPair, HeaderFields.put, HeaderFields.orElse, pairsFields,
    fieldPointer_cons]
  by_cases hkTopic : p.1 = str "topic"
  · simp [hkTopic, htopic (Or.inl hkTopic.symm), show str "type" ≠ str "topic" by decide,
      show str "md5sum" ≠ str "topic" by decide]
  · by_cases hkMd5 : p.1 = str "md5sum"
    · simp [hkMd5, hmd5 (Or.inl hkMd5.symm), show str "type" ≠ str "md5sum" by decide,
        show str "topic" ≠ str "md5sum" by decide, show str "md5sum" ≠ str "topic" by decide]
    · by_cases hkType : p.1 = str "type"
      · simp [hkType, htype (Or.inl hkType.symm), show str "md5sum" ≠ str "type" by decide,
          show str "topic" ≠ str "type" by decide, show str "type" ≠ str "topic" by decide,
          show str "type" ≠ str "md5sum" by decide]
      · simp [hkTopic, hkMd5, hkType, Ne.symm hkTopic, Ne.symm hkMd5, Ne.symm hkType]

theorem HeaderFields.Fresh.put {st : HeaderFields} {p : Bytes × Bytes}
    {pairs : List (Bytes × Bytes)} (h : st.Fresh (p :: pairs)) (hp : p.1 ∉ pairs.map Prod.fst) :
    (st.putPair p).Fresh pairs := by
  have hold : st.Fresh pairs :=
    ⟨fun hm => h.msgtype (List.mem_cons_of_mem _ hm),
      fun hm => h.md5sum (List.mem_cons_of_mem _ hm), fun hm => h.topic (List.mem_cons_of_mem _ hm)⟩
  unfold HeaderFields.putPair HeaderFields.put
  split
  · rename_i hk
    exact ⟨hold.msgtype, hold.md5sum, fun hm => absurd (hk ▸ hm) hp⟩
  · split
    · rename_i hk
      exact ⟨hold.msgtype, fun hm => absurd (hk ▸ hm) hp, hold.topic⟩
    · split
      · rename_i hk
        exact ⟨fun hm => absurd (hk ▸ hm) hp, hold.md5sum, hold.topic⟩
      · exact hold

/-- The loop ends with what the header says, wherever it starts in it. -/
theorem verifyFields_pairs {pairs : List (Bytes × Bytes)} (h : PairsHeader pairs)
    (spare : Nat → Bool) (pre junk : Bytes) {st : HeaderFields} (hfresh : st.Fresh pairs) :
    verifyFields spare (pre ++ (pairsBytes pairs ++ junk))
      (pre.length + (pairsBytes pairs).length : Nat)
      pre.length st = .ok (st.orElse (pairsFields pairs)) := by
  induction pairs generalizing pre st with
  | nil =>
      rw [verifyFields_end (by simp [pairsBytes])]
      simp [HeaderFields.orElse, pairsFields, fieldPointer, fieldValue]
  | cons p pairs ih =>
      by_cases hst : st.complete = true
      · rw [verifyFields_complete hst, HeaderFields.orElse_complete hst]
      · have hp := h.fields p (by simp)
        have hkeys := List.nodup_cons.mp h.keys
        have hrest : PairsHeader pairs := ⟨fun q hq => h.fields q (by simp [hq]), hkeys.2⟩
        have hbytes : pairsBytes (p :: pairs) = lenPrefixed (pairText p) ++ pairsBytes pairs := rfl
        have hlen := hp.length
        have hpos : (pre.length : Int) <
            (pre.length + (pairsBytes (p :: pairs)).length : Nat) := by
          rw [hbytes]
          simp only [List.length_append, lenPrefixed_length]
          omega
        have hsize : pre.length + (pairsBytes (p :: pairs)).length =
            (pre ++ lenPrefixed (pairText p)).length + (pairsBytes pairs).length := by
          rw [hbytes]
          simp only [List.length_append]
          omega
        rw [hbytes, List.append_assoc, ← hbytes,
          verifyFields_field (by simpa using hst) hpos (by omega) hp.nulFree
            (noteField_pairText hp _ st),
          hsize, ih hrest (pre ++ lenPrefixed (pairText p)) (hfresh.put hkeys.1),
          put_orElse hfresh]

/-- A header with whatever lies behind it in the buffer. -/
theorem verifyFields_header {pairs : List (Bytes × Bytes)} (h : PairsHeader pairs)
    (spare : Nat → Bool) (junk : Bytes) :
    verifyFields spare (pairsBytes pairs ++ junk) (pairsBytes pairs).length 0 ⟨none, none, none⟩ =
      .ok (pairsFields pairs) := by
  have hfresh : HeaderFields.Fresh ⟨none, none, none⟩ pairs :=
    ⟨fun _ => rfl, fun _ => rfl, fun _ => rfl⟩
  have hrun := verifyFields_pairs h spare [] junk hfresh
  simpa [HeaderFields.orElse] using hrun

/-! ## The law -/

/-- What the header has to say: the topic, the type or `*`, and the checksum of
the subscribed type or `*`. -/
def NamesTopic (sub : Topic) (pairs : List (Bytes × Bytes)) : Prop :=
  fieldValue pairs (str "topic") = some sub.topic ∧
    (fieldValue pairs (str "type") = some sub.type ∨
      fieldValue pairs (str "type") = some (str "*")) ∧
    (fieldValue pairs (str "md5sum") = some (md5sumOf sub.type) ∨
      fieldValue pairs (str "md5sum") = some (str "*"))

/-- The header is accepted exactly when it says so, with the code of the
subscribed type. -/
def ExactlyAccepted (spare : Nat → Bool) (sub : Topic) (pairs : List (Bytes × Bytes))
    (junk : Bytes) : Prop :=
  ∃ n, verifyRosHeader spare sub (pairsBytes pairs ++ junk) (pairsBytes pairs).length = .ok n ∧
    (n ≠ 0 ↔ NamesTopic sub pairs) ∧ (n ≠ 0 → n = hash sub.type hashSize)

/-- Under the subscribed topic: a type that is named has a code that is true in
C, and a type that is left open has the code of `*`, unless the checksum fits
neither the type nor `*`. -/
def CodeFits (sub : Topic) (pairs : List (Bytes × Bytes)) : Prop :=
  fieldValue pairs (str "topic") = some sub.topic →
    (fieldValue pairs (str "type") = some sub.type →
      fieldValue pairs (str "md5sum") = some (md5sumOf sub.type) ∨
        fieldValue pairs (str "md5sum") = some (str "*") → hash sub.type hashSize ≠ 0) ∧
    (fieldValue pairs (str "type") = some (str "*") → sub.type ≠ str "*" →
      fieldValue pairs (str "md5sum") = some (md5sumOf sub.type) ∨
        fieldValue pairs (str "md5sum") = some (md5sumOf (str "*")) ∨
        fieldValue pairs (str "md5sum") = some (str "*") →
      hash sub.type hashSize = hash (str "*") hashSize)

/-- The checks after the loop, when all three values are texts. -/
def checkTexts (sub : Topic) (msgtype md5sum topic : Bytes) : Nat :=
  if topic ≠ sub.topic then 0
  else if msgtype ≠ sub.type ∧ msgtype ≠ str "*" then 0
  else if md5sum ≠ md5sumOf msgtype ∧ md5sum ≠ str "*" then 0
  else hash msgtype hashSize

theorem checkFields_texts (sub : Topic) (msgtype md5sum topic : Bytes) :
    checkFields sub ⟨some (.string msgtype), some (.string md5sum), some (.string topic)⟩ =
      .ok (checkTexts sub msgtype md5sum topic) := by
  simp only [checkFields, checkTexts, HeaderFields.complete, valueS, Option.isSome_some,
    Bool.and_self, Bool.true_eq_false, if_false, bind, Except.bind, pure, Except.pure]
  split
  · rfl
  · split
    · rfl
    · split
      · rfl
      · rfl

theorem verifyRosHeader_pairs {pairs : List (Bytes × Bytes)} (h : PairsHeader pairs)
    (spare : Nat → Bool) (sub : Topic) (junk : Bytes) :
    verifyRosHeader spare sub (pairsBytes pairs ++ junk) (pairsBytes pairs).length =
      match fieldValue pairs (str "type"), fieldValue pairs (str "md5sum"),
          fieldValue pairs (str "topic") with
      | some msgtype, some md5sum, some topic => .ok (checkTexts sub msgtype md5sum topic)
      | _, _, _ => .ok 0 := by
  unfold verifyRosHeader
  rw [verifyFields_header h spare junk]
  simp only [bind, Except.bind, pairsFields, fieldPointer]
  cases fieldValue pairs (str "type") with
  | none => rfl
  | some msgtype =>
      cases fieldValue pairs (str "md5sum") with
      | none => rfl
      | some md5sum =>
          cases fieldValue pairs (str "topic") with
          | none => rfl
          | some topic => exact checkFields_texts sub msgtype md5sum topic

theorem hash_star_ne_zero : hash (str "*") hashSize ≠ 0 := by decide

theorem md5sumOf_congr {s t : Bytes} (h : hash s hashSize = hash t hashSize) :
    md5sumOf s = md5sumOf t := by
  unfold md5sumOf
  rw [h]

/-- The checks against what they should tell, for each of the two types that pass. -/
theorem checkTexts_exact_iff (sub : Topic) (msgtype md5sum topic : Bytes) :
    ((checkTexts sub msgtype md5sum topic ≠ 0 ↔
        topic = sub.topic ∧ (msgtype = sub.type ∨ msgtype = str "*") ∧
          (md5sum = md5sumOf sub.type ∨ md5sum = str "*")) ∧
      (checkTexts sub msgtype md5sum topic ≠ 0 →
        checkTexts sub msgtype md5sum topic = hash sub.type hashSize)) ↔
    (topic = sub.topic →
      (msgtype = sub.type → md5sum = md5sumOf sub.type ∨ md5sum = str "*" →
        hash sub.type hashSize ≠ 0) ∧
      (msgtype = str "*" → sub.type ≠ str "*" →
        md5sum = md5sumOf sub.type ∨ md5sum = md5sumOf (str "*") ∨ md5sum = str "*" →
        hash sub.type hashSize = hash (str "*") hashSize)) := by
  unfold checkTexts
  by_cases htopic : topic = sub.topic
  · by_cases htype : msgtype = sub.type
    · subst htype
      by_cases hmd5 : md5sum = md5sumOf sub.type ∨ md5sum = str "*"
      · have hpass : ¬ (md5sum ≠ md5sumOf sub.type ∧ md5sum ≠ str "*") := by tauto
        simp only [htopic, hpass, hmd5, ne_eq, not_true_eq_false, false_and, if_false, true_or,
          and_self, iff_true, implies_true, and_true, forall_const]
        constructor
        · intro hne
          exact ⟨hne, fun hstar hneq => absurd hstar hneq⟩
        · intro h
          exact h.1
      · have hstop : md5sum ≠ md5sumOf sub.type ∧ md5sum ≠ str "*" := not_or.mp hmd5
        simp [htopic, hstop.1, hstop.2]
        tauto
    · by_cases hstar : msgtype = str "*"
      · subst hstar
        have hne : sub.type ≠ str "*" := Ne.symm htype
        by_cases hcode : hash sub.type hashSize = hash (str "*") hashSize
        · have hsum := md5sumOf_congr hcode
          by_cases hmd5 : md5sum = md5sumOf (str "*") ∨ md5sum = str "*"
          · have hpass : ¬ (md5sum ≠ md5sumOf (str "*") ∧ md5sum ≠ str "*") := by tauto
            simp [htopic, htype, hpass, hsum, hmd5, hcode, hash_star_ne_zero]
          · have hstop := not_or.mp hmd5
            simp [htopic, htype, hsum, hstop.1, hstop.2]
        · by_cases hmd5 : md5sum = md5sumOf (str "*") ∨ md5sum = str "*"
          · have hpass : ¬ (md5sum ≠ md5sumOf (str "*") ∧ md5sum ≠ str "*") := by tauto
            have hany : md5sum = md5sumOf sub.type ∨ md5sum = md5sumOf (str "*") ∨
                md5sum = str "*" := Or.inr hmd5
            simp [htopic, htype, hpass, hne, hany, hash_star_ne_zero, hcode, Ne.symm hcode]
          · have hstop := not_or.mp hmd5
            simp [htopic, htype, hne, hstop.1, hstop.2, hcode]
      · simp [htopic, htype, hstar]
  · simp [htopic]

/-- Acceptance of well-formed headers is exact where the code of the type fits. -/
theorem verifyRosHeader_exact_iff (spare : Nat → Bool) (sub : Topic)
    (pairs : List (Bytes × Bytes)) (junk : Bytes) (h : PairsHeader pairs) :
    ExactlyAccepted spare sub pairs junk ↔ CodeFits sub pairs := by
  unfold ExactlyAccepted CodeFits NamesTopic
  rw [verifyRosHeader_pairs h]
  cases fieldValue pairs (str "type") with
  | none => simp
  | some msgtype =>
      cases fieldValue pairs (str "md5sum") with
      | none => simp
      | some md5sum =>
          cases fieldValue pairs (str "topic") with
          | none => simp
          | some topic =>
              have hcheck := checkTexts_exact_iff sub msgtype md5sum topic
              simp only [Option.some.injEq, Except.ok.injEq, exists_eq_left'] at hcheck ⊢
              exact hcheck

/-! ## Two headers -/

def talkerPairs : List (Bytes × Bytes) :=
  [(str "type", str "std_msgs/String"), (str "tcp_nodelay", str "yes"),
    (str "md5sum", str "*"), (str "topic", str "/chatter"), (str "callerid", str "/talker")]

theorem verifyRosHeader_exact_talker :
    ExactlyAccepted (fun _ => true)
      ⟨str "/listener", str "/chatter", str "std_msgs/String", none, 0, .refresh⟩
      talkerPairs [] := by
  apply (verifyRosHeader_exact_iff _ _ talkerPairs [] ⟨by decide, by decide⟩).mpr
  intro _
  constructor
  · intro _ _
    decide
  · intro hstar
    exact absurd hstar (by decide)

def anyTypePairs : List (Bytes × Bytes) :=
  [(str "topic", str "/counter"), (str "type", str "*"),
    (str "md5sum", str "da5909fbe378aeaf85e547e830cc1bb7")]

theorem verifyRosHeader_inexact :
    ¬ ∀ (spare : Nat → Bool) (sub : Topic) (pairs : List (Bytes × Bytes)) (junk : Bytes),
      PairsHeader pairs → ExactlyAccepted spare sub pairs junk := by
  intro h
  have hpairs : PairsHeader anyTypePairs := ⟨by decide, by decide⟩
  obtain ⟨n, hn, hexact, -⟩ := h (fun _ => true)
    ⟨str "/listener", str "/counter", str "std_msgs/Int32", none, 0, .refresh⟩ anyTypePairs []
    hpairs
  rw [verifyRosHeader_pairs hpairs] at hn
  have hzero : n = 0 := by
    cases hn
    decide
  exact hexact.mpr ⟨by decide, Or.inr (by decide), Or.inl (by decide)⟩ hzero

end STRos
