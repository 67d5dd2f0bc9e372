import STRos.Wire.HeaderCursor

/-! # When a peer's header is accepted

Writer and reader agree on the field of the message definition. The caller id
block is stepped over in the reader's own way, one signed length character at a
time, so the cursor may lose the field boundaries there. From then on it cannot
meet both the topic and the type, and the header is refused. The topic itself
must be there and its block must be short enough for a signed length.
-/

namespace STRos

open CString

/-- `verify_ros_header` returned a value that is true in C. -/
def Accepts (spare : Nat → Bool) (sub : Topic) (header : Bytes) (hsize : Int) : Prop :=
  ∃ n, verifyRosHeader spare sub header hsize = .ok n ∧ n ≠ 0

/-- A block that is a sequence of whole fields for the reader: a length
character that is not negative, three bytes it skips, and the text. -/
inductive FieldChain : Bytes → Prop
  | nil : FieldChain []
  | cons {c b₁ b₂ b₃ : Byte} {text rest : Bytes} (size : schar c = text.length)
      (tail : FieldChain rest) : FieldChain (c :: b₁ :: b₂ :: b₃ :: (text ++ rest))

theorem fieldChain_lenPrefixed {t : Bytes} (h : t.length < 128) : FieldChain (lenPrefixed t) := by
  have hchain : FieldChain (UInt8.ofNat t.length :: 0 :: 0 :: 0 :: (t ++ [])) :=
    .cons (schar_ofNat h) .nil
  simpa [lenPrefixed, le32_of_lt (show t.length < 256 by omega)] using hchain

theorem not_fieldChain_of_neg {c : Byte} {rest : Bytes} (h : schar c < 0) :
    ¬ FieldChain (c :: rest) := by
  intro hchain
  cases hchain with
  | cons size => omega

/-! ## What the three pointers have to be -/

/-- Pointers that pass the checks on topic and type. -/
def HeaderFields.Good (sub : Topic) (st : HeaderFields) : Prop :=
  valueS st.topic = .ok sub.topic ∧
    (valueS st.msgtype = .ok sub.type ∨ valueS st.msgtype = .ok (str "*"))

structure HeaderFields.Bad (sub : Topic) (st : HeaderFields) : Prop where
  topic : valueS st.topic ≠ .ok sub.topic
  type : valueS st.msgtype ≠ .ok sub.type
  anyType : valueS st.msgtype ≠ .ok (str "*")

variable {spare : Nat → Bool} {sub : Topic} {st st' : HeaderFields}

theorem HeaderFields.Bad.not_good (h : st.Bad sub) : ¬ st.Good sub :=
  fun hg => h.topic hg.1

theorem good_of_checkFields {n : Nat} (h : checkFields sub st = .ok n) (hpos : n ≠ 0) :
    st.Good sub := by
  unfold checkFields at h
  split at h
  · cases h
    exact absurd rfl hpos
  · obtain ⟨topic, htopic, h⟩ := bind_eq_ok.mp h
    split at h
    · cases h
      exact absurd rfl hpos
    · rename_i hsame
      obtain ⟨msgtype, htype, h⟩ := bind_eq_ok.mp h
      split at h
      · cases h
        exact absurd rfl hpos
      · rename_i hpass
        rw [not_and_or, not_not, not_not] at hpass
        refine ⟨?_, ?_⟩
        · rw [htopic, not_not.mp hsame]
        · rw [htype]
          exact hpass.imp (congrArg Except.ok) (congrArg Except.ok)

theorem accepts_good {header : Bytes} {hsize : Int} (h : Accepts spare sub header hsize) :
    ∃ r, verifyFields spare header hsize 0 ⟨none, none, none⟩ = .ok r ∧ r.Good sub := by
  obtain ⟨n, hn, hpos⟩ := h
  unfold verifyRosHeader at hn
  obtain ⟨r, hr, hn⟩ := bind_eq_ok.mp hn
  exact ⟨r, hr, good_of_checkFields hn hpos⟩

/-- The right topic and type, with the checksum the type calls for, are accepted. -/
theorem verifyRosHeader_ok {header : Bytes} {hsize : Int}
    (h : verifyFields spare header hsize 0 ⟨none, none, none⟩ =
      .ok ⟨some (.string sub.type), some (.string (md5sumOf sub.type)),
        some (.string sub.topic)⟩) :
    verifyRosHeader spare sub header hsize = .ok (hash sub.type hashSize) := by
  simp [verifyRosHeader, h, checkFields, HeaderFields.complete, valueS, bind, Except.bind, pure,
    Except.pure]

/-- Taking a pointer under one key leaves the pointers of the others. -/
theorem HeaderFields.put_cases (st : HeaderFields) (k : Bytes) (val : Option Item) :
    (k ≠ str "topic" → (st.put k val).topic = st.topic) ∧
      (k ≠ str "type" → (st.put k val).msgtype = st.msgtype) ∧
      (k = str "topic" → (st.put k val).topic = val) ∧
      (k = str "type" → (st.put k val).msgtype = val) := by
  unfold HeaderFields.put
  by_cases htopic : k = str "topic"
  · simp [htopic, show str "topic" ≠ str "type" by decide]
  · by_cases hmd5 : k = str "md5sum"
    · simp [hmd5, show str "md5sum" ≠ str "topic" by decide,
        show str "md5sum" ≠ str "type" by decide]
    · by_cases htype : k = str "type"
      · simp [htype, show str "type" ≠ str "topic" by decide,
          show str "type" ≠ str "md5sum" by decide]
      · simp [htopic, hmd5, htype]

theorem HeaderFields.Bad.stays {b : Bool} {t : Bytes} (hbad : st.Bad sub)
    (h : noteField b (split t (str "=")) st = .ok st')
    (htopic : ∀ v, tokens [eqSign] t = [str "topic", v] → v ≠ sub.topic)
    (htype : ∀ v, tokens [eqSign] t = [str "type", v] → v ≠ sub.type ∧ v ≠ str "*") :
    st'.Bad sub := by
  obtain ⟨-, rfl⟩ | ⟨k, v, ht, -, rfl⟩ := noteField_cases h
  · exact hbad
  · obtain ⟨htopicNe, htypeNe, htopicEq, htypeEq⟩ :=
      st.put_cases k (takenS b (specialItem v))
    refine ⟨?_, ?_, ?_⟩
    · by_cases hk : k = str "topic"
      · rw [htopicEq hk]
        exact fun hv => htopic v (hk ▸ ht) (valueS_takenS hv).2.symm
      · rw [htopicNe hk]
        exact hbad.topic
    · by_cases hk : k = str "type"
      · rw [htypeEq hk]
        exact fun hv => (htype v (hk ▸ ht)).1 (valueS_takenS hv).2.symm
      · rw [htypeNe hk]
        exact hbad.type
    · by_cases hk : k = str "type"
      · rw [htypeEq hk]
        exact fun hv => (htype v (hk ▸ ht)).2 (valueS_takenS hv).2.symm
      · rw [htypeNe hk]
        exact hbad.anyType

theorem HeaderFields.Bad.note {b : Bool} {t : Bytes} (hbad : st.Bad sub)
    (h : noteField b (split t (str "=")) st = .ok st') : ¬ st'.Good sub := by
  rintro ⟨htopic, htype⟩
  obtain ⟨-, rfl⟩ | ⟨k, v, ht, -, rfl⟩ := noteField_cases h
  · exact hbad.topic htopic
  · obtain ⟨htopicNe, htypeNe, -, -⟩ := st.put_cases k (takenS b (specialItem v))
    by_cases hk : k = str "topic"
    · rw [htypeNe (by rw [hk]; decide)] at htype
      exact htype.elim hbad.type hbad.anyType
    · rw [htopicNe hk] at htopic
      exact hbad.topic htopic

/-- The topic a field brings is no longer than the field. -/
theorem topic_of_noteField {b : Bool} {t v : Bytes}
    (h : noteField b (split t (str "=")) st = .ok st') (hv : valueS st'.topic = .ok v) :
    valueS st.topic = .ok v ∨ v.length ≤ t.length := by
  obtain ⟨-, rfl⟩ | ⟨k, w, ht, -, rfl⟩ := noteField_cases h
  · exact Or.inl hv
  · obtain ⟨htopicNe, -, htopicEq, -⟩ := st.put_cases k (takenS b (specialItem w))
    by_cases hk : k = str "topic"
    · rw [htopicEq hk] at hv
      obtain ⟨-, rfl⟩ := valueS_takenS hv
      obtain ⟨p, r, htext, hinfix, -⟩ := @pair_at t [] t [] _ _ (by simp) ht
      have hlen := congrArg List.length htext
      have hle := hinfix.length_le
      simp only [List.length_append, List.length_cons, List.length_nil] at hlen
      exact Or.inr (by omega)
    · rw [htopicNe hk] at hv
      exact Or.inl hv

/-- The topic that is found fits the signed character that gives the size of its field. -/
theorem topic_short {header : Bytes} {hsize : Int} {ptr : Nat} {r : HeaderFields}
    (hst : ∀ v, valueS st.topic = .ok v → v.length ≤ 127)
    (h : verifyFields spare header hsize ptr st = .ok r) :
    ∀ v, valueS r.topic = .ok v → v.length ≤ 127 := by
  fun_induction verifyFields spare header hsize ptr st with
  | case1 => cases h
  | case2 => cases h
  | case3 => cases h
  | case4 ptr st hgo c hc field hfield st' hnote ih =>
      refine ih (fun v hv => ?_) h
      rcases topic_of_noteField hnote hv with hold | hnew
      · exact hst v hold
      · have hlen := memcpyFrom_length hfield
        have hcut := cstr_length_le field
        have hsize := schar_lt c
        omega
  | case5 =>
      cases h
      exact hst

/-! ## Where a key can end

Every key that is read inside the body ends right before a separator of one of
the texts, and no key holds a NUL. -/

/-- A key that ends behind a NUL starts behind it. -/
theorem suffix_of_zero {k w u : Bytes} (hk : NulFree k) (h : k <:+ w ++ 0 :: u) : k <:+ u := by
  obtain ⟨x, hx⟩ := h
  rcases List.append_eq_append_iff.mp hx with ⟨as, -, rfl⟩ | ⟨bs, rfl, hb⟩
  · exact absurd hk (by simp [NulFree])
  · cases bs with
    | nil =>
        simp only [List.nil_append] at hb
        exact absurd hk (by simp [NulFree, ← hb])
    | cons b bs =>
        simp only [List.cons_append, List.cons.injEq] at hb
        exact ⟨bs, hb.2.symm⟩

/-! ## The message definition and the caller id -/

theorem noteField_messageDefinition (b : Bool) :
    noteField b (split messageDefinitionField (str "=")) st = .ok st := by
  have htext : messageDefinitionField = str "message_definition" ++ eqSign :: str "stros node" := by
    decide
  rw [htext, noteField_pair (by decide) (by decide) (by decide) (by decide) (by decide) (by decide)]
  rw [HeaderFields.put, if_neg (by decide), if_neg (by decide), if_neg (by decide)]

theorem calleridField_eq (peer : Topic) :
    calleridField peer = str "callerid" ++ eqSign :: peer.callerid := by
  rw [calleridField, show str "callerid=" = str "callerid" ++ [eqSign] by decide]
  simp

/-- What is left of the key `callerid` is a word and no key the reader knows. -/
theorem callerid_suffix {k : Bytes} (h : k <:+ str "callerid") :
    Wordlike k ∧ k ≠ str "topic" ∧ k ≠ str "md5sum" ∧ k ≠ str "type" := by
  have hall : ∀ k ∈ (str "callerid").tails,
      Wordlike k ∧ k ≠ str "topic" ∧ k ≠ str "md5sum" ∧ k ≠ str "type" := by decide
  exact hall k ((List.mem_tails _ _).mpr h)

theorem sFormat_cases (text : Bytes) : sFormat text = text ∨ sFormat text = [] := by
  unfold sFormat
  split
  · exact Or.inl rfl
  · exact Or.inr rfl

/-- A field read inside the caller id's text changes nothing. -/
theorem noteField_callerid {peer : Topic} {t : Bytes} (b : Bool) (hfree : eqSign ∉ peer.callerid)
    (ht : t <:+: calleridField peer) : noteField b (split t (str "=")) st = .ok st := by
  by_cases hlen : (tokens [eqSign] t).length = 2
  · obtain ⟨k, v, hkv⟩ := List.length_eq_two.mp hlen
    obtain ⟨x, z, hxz⟩ := ht
    obtain ⟨p, r, htext, -, -, hk, -⟩ := pair_at hxz hkv
    rw [calleridField_eq] at htext
    obtain ⟨hkey, -⟩ := key_suffix hk (by decide) hfree htext
    obtain ⟨hword, htopic, hmd5, htype⟩ := callerid_suffix hkey
    exact noteField_other hkv hword htopic hmd5 htype
  · exact noteField_skip hlen

/-! ## Walking over a block -/

variable {hsize : Int} {r : HeaderFields}

theorem verifyFields_chain {blk : Bytes} (h : FieldChain blk) {pre rest : Bytes}
    (hst : st.complete = false) (hend : (pre.length + blk.length : Nat) ≤ hsize)
    (hskip : ∀ b t, t <:+: blk.drop 4 → noteField b (split (cstr t) (str "=")) st = .ok st) :
    verifyFields spare (pre ++ (blk ++ rest)) hsize pre.length st =
      verifyFields spare (pre ++ (blk ++ rest)) hsize (pre.length + blk.length) st := by
  induction h generalizing pre with
  | nil => rfl
  | @cons c b₁ b₂ b₃ text tail size _ ih =>
      have hfield : ((b₁ :: b₂ :: b₃ :: (text ++ (tail ++ rest))).drop 3).take text.length = text :=
        field_text [b₁, b₂, b₃] text (tail ++ rest) rfl
      have hnote : noteField (spare pre.length)
          (split (cstr (((b₁ :: b₂ :: b₃ :: (text ++ (tail ++ rest))).drop 3).take text.length))
            (str "=")) st = .ok st := by
        rw [hfield]
        exact hskip _ text (List.prefix_append _ _).isInfix
      simp only [List.length_cons, List.length_append] at hend
      have hp : (pre.length : Int) < hsize := by omega
      have hstep := verifyFields_step hst hp size (Or.inr (by simp)) hnote
      have hnext := @ih (pre ++ (c :: b₁ :: b₂ :: b₃ :: text)) (by simp; omega)
        (fun b t ht => hskip b t
          ((ht.trans (List.drop_suffix 4 tail).isInfix).trans (List.suffix_append _ _).isInfix))
      simp only [List.length_append, List.length_cons, List.cons_append, List.append_assoc] at hnext
      simp only [List.cons_append, List.append_assoc, List.length_append, List.length_cons]
      rw [hstep, show pre.length + 4 + text.length = pre.length + (text.length + 1 + 1 + 1 + 1) by
        omega, hnext]
      congr 1
      omega

/-- A run that returns walks over the whole block, or reads one field that
starts in it and reaches behind it. -/
theorem verifyFields_leaves {blk pre rest : Bytes} (hst : st.complete = false)
    (hend : (pre.length + blk.length : Nat) ≤ hsize)
    (hskip : ∀ b t, t <:+: blk.drop 4 → noteField b (split (cstr t) (str "=")) st = .ok st)
    (h : verifyFields spare (pre ++ (blk ++ rest)) hsize pre.length st = .ok r) :
    FieldChain blk ∨ ∃ u c w, ∃ n : Nat, blk = u ++ c :: w ∧ w.length < n + 3 ∧
      ∃ b st', noteField b (split (cstr (((w ++ rest).drop 3).take n)) (str "=")) st = .ok st' ∧
        verifyFields spare (pre ++ (blk ++ rest)) hsize
          (pre.length + u.length + 4 + n) st' = .ok r := by
  induction hlen : blk.length using Nat.strong_induction_on generalizing blk pre with
  | _ len ih =>
    subst hlen
    cases blk with
    | nil => exact Or.inl .nil
    | cons c w =>
        have hp : (pre.length : Int) < hsize := by
          simp only [List.length_cons] at hend
          omega
        obtain ⟨n, hn, hfit, st', hnote, hgo⟩ := verifyFields_turn hst hp (by simpa using h)
        by_cases hw : w.length < n + 3
        · exact Or.inr ⟨[], c, w, n, by simp, hw, _, st', hnote, by simpa using hgo⟩
        · obtain ⟨b₁, b₂, b₃, text, tail, rfl, rfl⟩ : ∃ b₁ b₂ b₃ text tail,
              w = b₁ :: b₂ :: b₃ :: (text ++ tail) ∧ text.length = n := by
            rcases w with _ | ⟨b₁, _ | ⟨b₂, _ | ⟨b₃, w⟩⟩⟩
            case cons.cons.cons =>
              refine ⟨b₁, b₂, b₃, w.take n, w.drop n, by simp, ?_⟩
              simp at hw ⊢
              omega
            all_goals simp at hw
          have hfield :
              ((b₁ :: b₂ :: b₃ :: (text ++ (tail ++ rest))).drop 3).take text.length = text :=
            field_text [b₁, b₂, b₃] text (tail ++ rest) rfl
          have hskipped := hskip (spare pre.length) text (List.prefix_append _ _).isInfix
          obtain rfl : st' = st := by
            simp only [List.cons_append, List.append_assoc, hfield, hskipped] at hnote
            exact (Except.ok.inj hnote).symm
          have hheader : pre ++ c :: (b₁ :: b₂ :: b₃ :: (text ++ tail) ++ rest) =
              (pre ++ c :: b₁ :: b₂ :: b₃ :: text) ++ (tail ++ rest) := by simp
          have hpos : pre.length + 4 + text.length =
              (pre ++ c :: b₁ :: b₂ :: b₃ :: text).length := by simp; omega
          rw [hheader, hpos] at hgo
          rcases ih tail.length (by simp; omega) (by simp at hend ⊢; omega)
            (fun b t ht => hskip b t ((ht.trans (List.drop_suffix 4 tail).isInfix).trans
              (List.suffix_append _ _).isInfix)) hgo rfl with
            hchain | ⟨u, c', w', m, rfl, hm, b, st', hnote', hgo'⟩
          · exact Or.inl (.cons hn hchain)
          · refine Or.inr
              ⟨c :: b₁ :: b₂ :: b₃ :: text ++ u, c', w', m, by simp, hm, b, st', hnote', ?_⟩
            rw [show pre ++ (c :: b₁ :: b₂ :: b₃ :: (text ++ (u ++ c' :: w')) ++ rest) =
              (pre ++ c :: b₁ :: b₂ :: b₃ :: text) ++ ((u ++ c' :: w') ++ rest) by simp]
            rw [← hgo']
            congr 1
            simp
            omega

/-! ## Behind the caller id -/

/-- Such a field sees of what follows no more than the two low bytes of the
next length word. -/
theorem crossing_infix {t u w : Bytes} {c : Byte} (h : lenPrefixed t = u ++ c :: w)
    (b₀ b₁ : Byte) (rest : Bytes) (n : Nat) :
    cstr (((w ++ b₀ :: b₁ :: 0 :: 0 :: rest).drop 3).take n) <:+: t ++ [b₀, b₁] := by
  refine (cstr_take_le _ n).isInfix.trans ?_
  by_cases hw : 3 ≤ w.length
  · have hsuffix : w.drop 3 <:+ t := by
      have hdrop : t = (u ++ c :: w).drop 4 := by rw [← h, lenPrefixed, le32_append_drop]
      have hall : (u ++ [c]) ++ w.take 3 ++ w.drop 3 = u ++ c :: w := by simp
      rw [hdrop, ← hall, List.drop_append_of_le_length (by simp; omega)]
      exact List.suffix_append _ _
    have hcut : (w ++ b₀ :: b₁ :: 0 :: 0 :: rest).drop 3 =
        (w.drop 3 ++ [b₀, b₁]) ++ 0 :: 0 :: rest := by
      rw [List.drop_append_of_le_length hw]
      simp
    rw [hcut]
    obtain ⟨x, rfl⟩ := hsuffix
    exact (cstr_zero_le _ _).isInfix.trans ⟨x, [], by simp⟩
  · rcases w with _ | ⟨w₁, _ | ⟨w₂, _ | ⟨w₃, w⟩⟩⟩
    · simp
    · simp
    · have hlast : cstr ([b₁] ++ 0 :: 0 :: rest) <+: [b₁] := cstr_zero_le _ _
      exact hlast.isInfix.trans ⟨t ++ [b₀], [], by simp⟩
    · simp at hw

/-- Its pair has no known key, or its value is the second of these bytes and
the first one is the separator. -/
theorem crossing_pair {peer : Topic} {t k v : Bytes} {b₀ b₁ : Byte}
    (hfree : eqSign ∉ peer.callerid) (hb₁ : b₁ ≠ eqSign)
    (ht : t <:+: calleridField peer ++ [b₀, b₁]) (hkv : tokens [eqSign] t = [k, v]) :
    k <:+ str "callerid" ∨ (b₀ = eqSign ∧ v = [b₁]) := by
  obtain ⟨x, z, hxz⟩ := ht
  obtain ⟨p, r, htext, hv, hvne, hk, -⟩ := pair_at hxz hkv
  have hcut : p ++ k ++ eqSign :: (r ++ z) =
      str "callerid" ++ eqSign :: (peer.callerid ++ [b₀, b₁]) := by
    rw [htext, calleridField_eq]
    simp
  refine (key_cases hk (by decide) hcut).imp (fun h => h.1) ?_
  rintro ⟨p', hp'⟩
  have hb₀ : b₀ = eqSign := by
    have hmem : eqSign ∈ peer.callerid ++ [b₀, b₁] := hp' ▸ (by simp)
    simp only [List.mem_append, List.mem_cons, List.not_mem_nil, or_false] at hmem
    exact (hmem.resolve_left hfree).elim Eq.symm fun h => absurd h.symm hb₁
  subst hb₀
  obtain ⟨-, hr⟩ := key_suffix hk hfree (by simpa using hb₁.symm) hp'
  have hvb : v <:+: [b₁] := hv.trans (hr ▸ (List.prefix_append r z).isInfix)
  refine ⟨rfl, ?_⟩
  rcases v with _ | ⟨v₁, v⟩
  · exact absurd rfl hvne
  · have hlen := hvb.length_le
    simp at hlen
    subst hlen
    have := hvb.subset (List.mem_singleton_self v₁)
    simpa using this

/-! ## The topic block -/

theorem topicField_eq (peer : Topic) :
    topicField peer = str "topic" ++ eqSign :: peer.topic := by
  rw [topicField, show str "topic=" = str "topic" ++ [eqSign] by decide]
  simp

theorem topic_cut {peer : Topic} {k v : Bytes} {n : Nat} (hfree : eqSign ∉ peer.topic)
    (hn : n < (topicField peer).length ∨ peer.topic = [])
    (hkv : tokens [eqSign] ((topicField peer).take n) = [k, v]) :
    k <:+ str "topic" ∧ v ≠ peer.topic := by
  have htake : [] ++ (topicField peer).take n ++ (topicField peer).drop n =
      str "topic" ++ eqSign :: peer.topic := by
    simp [topicField_eq]
  obtain ⟨p, r, htext, hv, hvne, hk, -⟩ := pair_at htake hkv
  obtain ⟨hkey, hr⟩ := key_suffix hk (by decide) hfree htext
  refine ⟨hkey, ?_⟩
  rintro rfl
  rcases hn with hn | hn
  · have hlen := hv.length_le
    have := congrArg List.length hr
    simp only [List.length_append, List.length_drop] at this
    omega
  · exact hvne hn

/-! ## Beyond the start of the topic block -/

def topicTail (peer : Topic) : Bytes :=
  lenPrefixed (topicField peer) ++ (lenPrefixed (md5sumField peer) ++ lenPrefixed (typeField peer))

theorem topicTail_drop (peer : Topic) :
    (topicTail peer).drop 5 = str "opic" ++ eqSign ::
      (peer.topic ++ (le32 (md5sumField peer).length ++ str "md5sum") ++ eqSign ::
        (md5sumOf peer.type ++ (le32 (typeField peer).length ++ str "type") ++ eqSign ::
          peer.type)) := by
  have htopic : (lenPrefixed (topicField peer)).drop 5 = str "opic=" ++ peer.topic := rfl
  rw [topicTail, List.drop_append_of_le_length
    (by simp only [lenPrefixed_length, topicField_length]; omega), htopic,
    show str "opic=" = str "opic" ++ [eqSign] by decide]
  simp [lenPrefixed, md5sumField, typeField,
    show str "md5sum=" = str "md5sum" ++ [eqSign] by decide,
    show str "type=" = str "type" ++ [eqSign] by decide]

theorem key_of_le32 {k w u : Bytes} {n : Nat} (hn : n < 256) (hk : NulFree k)
    (h : k <:+ w ++ (le32 n ++ u)) : k <:+ u := by
  rw [le32_of_lt hn] at h
  exact suffix_of_zero (w := w ++ [UInt8.ofNat n, 0, 0]) hk (by simpa using h)

theorem eqSign_notMem_le32 {n : Nat} (hn : n < 61) : eqSign ∉ le32 n := by
  rw [le32_of_lt (by omega)]
  have : UInt8.ofNat n ≠ eqSign := by
    intro h
    have := congrArg UInt8.toNat h
    simp only [UInt8.toNat_ofNat'] at this
    have h61 : eqSign.toNat = 61 := rfl
    omega
  simp only [List.mem_cons, this.symm, List.not_mem_nil, or_false, false_or, or_self]
  decide

/-- A field that lies in the tail but neither at its start nor up to its end
names neither the topic nor the type. -/
theorem tail_pair {peer : Topic} {x t z k v : Bytes} (htype : IsMsgType peer.type)
    (hfree : eqSign ∉ peer.topic) (hz : z ≠ []) (hnul : NulFree t)
    (htext : x ++ t ++ z = (topicTail peer).drop 5) (hkv : tokens [eqSign] t = [k, v]) :
    k ≠ str "topic" ∧ (k = str "type" → v ≠ peer.type ∧ v ≠ str "*") := by
  obtain ⟨row, hrow, hname⟩ := htype
  obtain ⟨hpos, hlen, -, hfreeName, hstar, -⟩ := msgTypes_name row hrow
  rw [← hname] at hpos hlen hfreeName hstar
  obtain ⟨-, -, hfreeMd5, -⟩ := md5sumOf_word peer.type
  obtain ⟨p, r, hpair, hv, hvne, hk, hkt⟩ := pair_at htext hkv
  have hkn : NulFree k := fun h => hnul (hkt.subset h)
  have hmd5len := md5sumField_length peer
  have htypelen := typeField_length peer
  rw [topicTail_drop] at hpair
  rcases key_cases hk (by decide) hpair with ⟨hkey, -⟩ | ⟨p, hpair⟩
  · exact ⟨fun h => absurd (h ▸ hkey) (by decide), fun h => absurd (h ▸ hkey) (by decide)⟩
  have hfree₁ : eqSign ∉ peer.topic ++ (le32 (md5sumField peer).length ++ str "md5sum") := by
    simp only [List.mem_append, not_or]
    exact ⟨hfree, eqSign_notMem_le32 (by omega), by decide⟩
  rcases key_cases hk hfree₁ hpair with ⟨hkey, -⟩ | ⟨p, hpair⟩
  · have hkey := key_of_le32 (by omega) hkn hkey
    exact ⟨fun h => absurd (h ▸ hkey) (by decide), fun h => absurd (h ▸ hkey) (by decide)⟩
  have hfree₂ : eqSign ∉ md5sumOf peer.type ++ (le32 (typeField peer).length ++ str "type") := by
    simp only [List.mem_append, not_or]
    exact ⟨hfreeMd5, eqSign_notMem_le32 (by omega), by decide⟩
  obtain ⟨hkey, hr⟩ := key_suffix hk hfree₂ hfreeName hpair
  have hkey := key_of_le32 (by omega) hkn hkey
  refine ⟨fun h => absurd (h ▸ hkey) (by decide), fun _ => ⟨?_, ?_⟩⟩
  · rintro rfl
    have := hv.length_le
    have := congrArg List.length hr
    have := List.length_pos_iff.mpr hz
    simp only [List.length_append] at *
    omega
  · rintro rfl
    have hmem := hv.subset (List.mem_singleton_self (ch '*'))
    exact hstar (hr ▸ List.mem_append_left z hmem)

theorem HeaderFields.Bad.tail {peer : Topic} {s₁ skip text tail : Bytes} {c : Byte}
    (htype : IsMsgType peer.type) (hsame : sub.type = peer.type) (hfree : eqSign ∉ peer.topic)
    {b : Bool} (hbad : st.Bad sub) (hcut : topicTail peer = s₁ ++ c :: (skip ++ (text ++ tail)))
    (hs₁ : s₁ ≠ []) (hskip : skip.length = 3) (htail : tail ≠ [])
    (hnote : noteField b (split (cstr text) (str "=")) st = .ok st') : st'.Bad sub := by
  obtain ⟨behind, hbehind⟩ : cstr text <+: text := List.takeWhile_prefix _
  have htext : ((s₁ ++ c :: skip).drop 5) ++ cstr text ++ (behind ++ tail) =
      (topicTail peer).drop 5 := by
    have hs : topicTail peer = (s₁ ++ c :: skip) ++ (text ++ tail) := by
      rw [hcut]
      simp
    have hlen : 5 ≤ (s₁ ++ c :: skip).length := by
      have := List.length_pos_iff.mpr hs₁
      simp only [List.length_append, List.length_cons, hskip]
      omega
    rw [hs, List.drop_append_of_le_length hlen, List.append_assoc, ← List.append_assoc (cstr text),
      hbehind]
  have hpair := fun k v => tail_pair (k := k) (v := v) htype hfree
    (List.append_ne_nil_of_right_ne_nil behind htail) (cstr_nulFree text) htext
  refine hbad.stays hnote (fun v hv => ?_) fun v hv => ?_
  · exact absurd rfl (hpair _ v hv).1
  · rw [hsame]
    exact (hpair _ v hv).2 rfl

theorem verifyFields_tail (spare : Nat → Bool) {peer : Topic} (pre rest : Bytes) {s₁ s₂ : Bytes}
    (htype : IsMsgType peer.type) (hsame : sub.type = peer.type) (hfree : eqSign ∉ peer.topic)
    (hbad : st.Bad sub) (hcut : topicTail peer = s₁ ++ s₂) (hs₁ : s₁ ≠ [])
    (h : verifyFields spare (pre ++ (topicTail peer ++ rest))
      (pre.length + (topicTail peer).length : Nat)
      (pre.length + s₁.length) st = .ok r) : ¬ r.Good sub := by
  induction hlen : s₂.length using Nat.strong_induction_on generalizing s₁ s₂ st with
  | _ len ih =>
    subst hlen
    cases hst : st.complete with
    | true =>
        rw [verifyFields_complete hst] at h
        cases h
        exact hbad.not_good
    | false =>
        cases s₂ with
        | nil =>
            rw [verifyFields_end (by simp [hcut])] at h
            cases h
            exact hbad.not_good
        | cons c w =>
            have hpos : pre.length + s₁.length = (pre ++ s₁).length := by simp
            have hheader : pre ++ (topicTail peer ++ rest) = (pre ++ s₁) ++ c :: (w ++ rest) := by
              simp [hcut]
            have hp :
                ((pre ++ s₁).length : Int) < (pre.length + (topicTail peer).length : Nat) := by
              rw [hcut]
              simp only [List.length_append, List.length_cons]
              omega
            rw [hpos, hheader] at h
            obtain ⟨n, -, -, st', hnote, hgo⟩ := verifyFields_turn hst hp h
            by_cases hw : w.length ≤ n + 3
            · -- The turn leaves the header: only one of the two can have come in order.
              rw [verifyFields_end (by simp [hcut]; omega)] at hgo
              cases hgo
              exact hbad.note hnote
            · obtain ⟨skip, text, tail, rfl, hskip, rfl⟩ : ∃ skip text tail,
                  w = skip ++ (text ++ tail) ∧ skip.length = 3 ∧ text.length = n :=
                ⟨w.take 3, (w.drop 3).take n, (w.drop 3).drop n, by simp, by simp; omega,
                  by simp; omega⟩
              have htail : tail ≠ [] := by
                rintro rfl
                simp at hw
                omega
              have hfield :
                  (((skip ++ (text ++ tail)) ++ rest).drop 3).take text.length = text := by
                rw [List.append_assoc, List.append_assoc]
                exact field_text skip text (tail ++ rest) hskip
              rw [hfield] at hnote
              have hend : pre.length + (s₁ ++ c :: (skip ++ text)).length =
                  (pre ++ s₁).length + 4 + text.length := by
                simp only [List.length_append, List.length_cons, hskip]
                omega
              have hcut' : topicTail peer = (s₁ ++ c :: (skip ++ text)) ++ tail := by simp [hcut]
              refine ih tail.length (by simp; omega)
                (hbad.tail htype hsame hfree hcut hs₁ hskip htail hnote) hcut' (by simp) ?_ rfl
              rw [hheader, hend]
              exact hgo

/-! ## The handshake -/

/-- Two ends of one topic whose names are texts a header can carry. -/
structure Compatible (sub peer : Topic) : Prop where
  topic : sub.topic = peer.topic
  type : sub.type = peer.type
  standard : IsMsgType peer.type
  topicNul : NulFree peer.topic
  topicEq : eqSign ∉ peer.topic
  topicWord : Wordlike peer.topic
  calleridNul : NulFree peer.callerid
  calleridEq : eqSign ∉ peer.callerid

theorem Compatible.topicField_nulFree {sub peer : Topic} (hc : Compatible sub peer) :
    NulFree (topicField peer) :=
  nulFree_append.mpr ⟨by decide, hc.topicNul⟩

abbrev noFields : HeaderFields := ⟨none, none, none⟩

theorem noFields_bad (sub : Topic) : noFields.Bad sub :=
  ⟨by simp [valueS], by simp [valueS], by simp [valueS]⟩

variable {peer : Topic} {pre rest : Bytes}

/-- The body of a header whose topic can be printed. -/
theorem headerBody_topicTail (hc : Compatible sub peer) (hlen : peer.topic.length < 2147483641) :
    headerBody peer =
      lenPrefixed messageDefinitionField ++ (calleridBlock peer ++ topicTail peer) := by
  obtain ⟨row, hrow, hname⟩ := hc.standard
  have htypeLen := (msgTypes_name row hrow).2.1
  rw [← hname] at htypeLen
  have htopic : sFormat (topicField peer) = topicField peer :=
    sFormat_fits (by rw [topicField_length]; omega)
  have htype : sFormat (typeField peer) = typeField peer :=
    sFormat_fits (by rw [typeField_length]; omega)
  rw [headerBody_eq, topicBlock, typeBlock, htopic, htype]
  rfl

theorem verifyFields_start (rest : Bytes) (hbody : 33 ≤ hsize) :
    verifyFields spare (lenPrefixed messageDefinitionField ++ rest) hsize 0 noFields =
      verifyFields spare (lenPrefixed messageDefinitionField ++ rest) hsize
        (lenPrefixed messageDefinitionField).length noFields := by
  have hnote : noteField (spare ([] : Bytes).length) (split messageDefinitionField (str "="))
      noFields = .ok noFields := noteField_messageDefinition _
  have hp : (([] : Bytes).length : Int) < hsize := by simp; omega
  have hfield : verifyFields spare ([] ++ (lenPrefixed messageDefinitionField ++ rest)) hsize
      ([] : Bytes).length noFields =
        verifyFields spare (([] ++ lenPrefixed messageDefinitionField) ++ rest) hsize
          ([] ++ lenPrefixed messageDefinitionField).length noFields :=
    verifyFields_field rfl hp (by decide) (by decide) hnote
  simpa using hfield

/-- A topic block that fits the reader brings topic, checksum and type. -/
theorem verifyFields_topicTail (spare : Nat → Bool) (pre rest : Bytes) (hc : Compatible sub peer)
    (hpos : 1 ≤ peer.topic.length) (hlen : peer.topic.length ≤ 121) :
    verifyFields spare (pre ++ (topicTail peer ++ rest))
      (pre.length + (topicTail peer).length : Nat)
      pre.length noFields =
        .ok ⟨some (.string peer.type), some (.string (md5sumOf peer.type)),
          some (.string peer.topic)⟩ := by
  obtain ⟨row, hrow, hname⟩ := hc.standard
  obtain ⟨htypePos, htypeLen, htypeNul, htypeEq, -, htypeWord⟩ := msgTypes_name row hrow
  rw [← hname] at htypePos htypeLen htypeNul htypeEq htypeWord
  obtain ⟨hmd5Len, hmd5Nul, hmd5Eq, hmd5Word⟩ := md5sumOf_word peer.type
  have htopic : ∀ b, noteField b (split (topicField peer) (str "=")) noFields =
      .ok ⟨none, none, some (.string peer.topic)⟩ := by
    intro b
    rw [topicField_eq, noteField_pair (by decide) hc.topicWord (by decide)
      (List.length_pos_iff.mp hpos) (by decide) hc.topicEq]
    rfl
  have hmd5 : ∀ b, noteField b (split (md5sumField peer) (str "="))
      ⟨none, none, some (.string peer.topic)⟩ =
        .ok ⟨none, some (.string (md5sumOf peer.type)), some (.string peer.topic)⟩ := by
    intro b
    rw [show md5sumField peer = str "md5sum" ++ eqSign :: md5sumOf peer.type from rfl,
      noteField_pair (by decide) hmd5Word (by decide)
        (List.length_pos_iff.mp (by omega)) (by decide) hmd5Eq]
    rfl
  have htype : ∀ b, noteField b (split (typeField peer) (str "="))
      ⟨none, some (.string (md5sumOf peer.type)), some (.string peer.topic)⟩ =
        .ok ⟨some (.string peer.type), some (.string (md5sumOf peer.type)),
          some (.string peer.topic)⟩ := by
    intro b
    rw [show typeField peer = str "type" ++ eqSign :: peer.type from rfl,
      noteField_pair (by decide) htypeWord (by decide)
        (List.length_pos_iff.mp (by omega)) (by decide) htypeEq]
    rfl
  have hl₁ := lenPrefixed_length (topicField peer)
  have hl₂ := lenPrefixed_length (md5sumField peer)
  have hl₃ := lenPrefixed_length (typeField peer)
  rw [topicField_length] at hl₁
  rw [md5sumField_length] at hl₂
  rw [typeField_length] at hl₃
  have hend : (topicTail peer).length = (lenPrefixed (topicField peer)).length +
      ((lenPrefixed (md5sumField peer)).length + (lenPrefixed (typeField peer)).length) := by
    simp [topicTail]
  rw [hend]
  simp only [topicTail, List.append_assoc]
  have hmd5Free : NulFree (md5sumField peer) := nulFree_append.mpr ⟨by decide, hmd5Nul⟩
  have htypeFree : NulFree (typeField peer) := nulFree_append.mpr ⟨by decide, htypeNul⟩
  rw [verifyFields_field rfl (by omega) (by rw [topicField_length]; omega) hc.topicField_nulFree
    (htopic _)]
  rw [verifyFields_field rfl (by simp; omega) (by rw [md5sumField_length]; omega) hmd5Free
    (hmd5 _)]
  rw [verifyFields_field rfl (by simp; omega) (by rw [typeField_length]; omega) htypeFree
    (htype _)]
  exact verifyFields_complete rfl

theorem verifyFields_noTopic (hc : Compatible sub peer)
    (hlen : ¬ (1 ≤ peer.topic.length ∧ peer.topic.length ≤ 121))
    (h : verifyFields spare (pre ++ (topicTail peer ++ rest))
      (pre.length + (topicTail peer).length : Nat)
      pre.length noFields = .ok r) : ¬ r.Good sub := by
  obtain ⟨b₁, b₂, b₃, hblock⟩ : ∃ b₁ b₂ b₃, lenPrefixed (topicField peer) =
      UInt8.ofNat (topicField peer).length :: b₁ :: b₂ :: b₃ :: topicField peer := ⟨_, _, _, rfl⟩
  have htail : topicTail peer = UInt8.ofNat (topicField peer).length :: b₁ :: b₂ :: b₃ ::
      (topicField peer ++ (lenPrefixed (md5sumField peer) ++ lenPrefixed (typeField peer))) := by
    rw [topicTail, hblock]
    simp
  have hgo := h
  rw [htail] at hgo
  simp only [List.cons_append, List.append_assoc] at hgo
  obtain ⟨n, hn, -, st', hnote, hgo⟩ := verifyFields_turn rfl (by simp; omega) hgo
  have hsize : n ≤ (topicField peer).length ∧
      (n < (topicField peer).length ∨ peer.topic = []) := by
    have hlow := schar_lt (UInt8.ofNat (topicField peer).length)
    have hfull : (topicField peer).length < 128 → n = (topicField peer).length := by
      intro hlt
      rw [schar_ofNat hlt] at hn
      omega
    have htl := topicField_length peer
    rw [← List.length_eq_zero_iff]
    omega
  have hfield : cstr (((b₁ :: b₂ :: b₃ :: (topicField peer ++ (lenPrefixed (md5sumField peer) ++
      (lenPrefixed (typeField peer) ++ rest)))).drop 3).take n) = (topicField peer).take n := by
    rw [show (b₁ :: b₂ :: b₃ :: (topicField peer ++ (lenPrefixed (md5sumField peer) ++
        (lenPrefixed (typeField peer) ++ rest)))).drop 3 = topicField peer ++
          (lenPrefixed (md5sumField peer) ++ (lenPrefixed (typeField peer) ++ rest)) from rfl,
      List.take_append_of_le_length hsize.1]
    exact cstr_of_nulFree (hc.topicField_nulFree.take n)
  rw [hfield] at hnote
  have hbad : st'.Bad sub := by
    refine (noFields_bad sub).stays hnote (fun v hv => ?_) fun v hv => ?_
    · rw [hc.topic]
      exact (topic_cut hc.topicEq hsize.2 hv).2
    · exact absurd (topic_cut hc.topicEq hsize.2 hv).1 (by decide)
  refine verifyFields_tail spare pre rest hc.standard hc.type hc.topicEq hbad
    (List.take_append_drop (4 + n) (topicTail peer)).symm ?_ ?_
  · rw [htail]
    simp
  · have hl : ((topicTail peer).take (4 + n)).length = 4 + n := by
      rw [htail]
      simp
      omega
    rw [hl, ← Nat.add_assoc, ← hgo, htail]
    simp

theorem noteField_calleridBlock (hc : Compatible sub peer) (b : Bool) {t : Bytes}
    (ht : t <:+: (calleridBlock peer).drop 4) :
    noteField b (split (cstr t) (str "=")) noFields = .ok noFields := by
  rw [calleridBlock, lenPrefixed, le32_append_drop] at ht
  have htext : cstr t <:+: calleridField peer := by
    refine (List.takeWhile_prefix _).isInfix.trans (ht.trans ?_)
    rcases sFormat_cases (calleridField peer) with hsame | hnone
    · rw [hsame]
    · rw [hnone]
      exact List.nil_infix
  exact noteField_callerid b hc.calleridEq htext

theorem verifyFields_calleridChain (hc : Compatible sub peer)
    (hchain : FieldChain (calleridBlock peer)) :
    verifyFields spare (pre ++ (calleridBlock peer ++ (topicTail peer ++ rest)))
      (pre.length + ((calleridBlock peer).length + (topicTail peer).length) : Nat)
      pre.length noFields =
    verifyFields spare ((pre ++ calleridBlock peer) ++ (topicTail peer ++ rest))
      ((pre ++ calleridBlock peer).length + (topicTail peer).length : Nat)
      (pre ++ calleridBlock peer).length noFields := by
  rw [verifyFields_chain hchain rfl (by omega) fun b t => noteField_calleridBlock hc b]
  simp [Nat.add_assoc]

/-- When the caller id block is not a chain, the header is refused. -/
theorem verifyFields_noChain (hc : Compatible sub peer) (hlen : (topicField peer).length ≤ maxBuff)
    (hchain : ¬ FieldChain (calleridBlock peer))
    (h : verifyFields spare (pre ++ (calleridBlock peer ++ (topicTail peer ++ rest)))
      (pre.length + ((calleridBlock peer).length + (topicTail peer).length) : Nat)
      pre.length noFields = .ok r) : ¬ r.Good sub := by
  obtain ⟨u, c, w, n, hcut, hw, b, st', hnote, hgo⟩ :=
    (verifyFields_leaves rfl (by omega) (fun b t => noteField_calleridBlock hc b) h).resolve_left
      hchain
  have hcallerid : sFormat (calleridField peer) = calleridField peer := by
    refine (sFormat_cases _).resolve_right fun hnone => hchain ?_
    rw [calleridBlock, hnone]
    exact fieldChain_lenPrefixed (by decide)
  have htl := topicField_length peer
  have htail : topicTail peer ++ rest =
      UInt8.ofNat (topicField peer).length :: UInt8.ofNat ((topicField peer).length / 256) ::
        0 :: 0 :: (topicField peer ++ (lenPrefixed (md5sumField peer) ++
          (lenPrefixed (typeField peer) ++ rest))) := by
    rw [topicTail, lenPrefixed, le32_of_lt_two (by simp [maxBuff] at hlen; omega)]
    simp
  have hb₁ : (UInt8.ofNat ((topicField peer).length / 256)).toNat ≤ 4 := by
    simp only [UInt8.toNat_ofNat', maxBuff] at hlen ⊢
    omega
  have hb₁Eq : UInt8.ofNat ((topicField peer).length / 256) ≠ eqSign := by
    intro heq
    rw [heq] at hb₁
    exact absurd hb₁ (by decide)
  rw [htail] at hnote
  rw [calleridBlock, hcallerid] at hcut
  have hinfix := crossing_infix hcut (UInt8.ofNat (topicField peer).length)
    (UInt8.ofNat ((topicField peer).length / 256))
    (topicField peer ++ (lenPrefixed (md5sumField peer) ++
      (lenPrefixed (typeField peer) ++ rest))) n
  have hbad : st'.Bad sub := by
    obtain ⟨row, hrow, hname⟩ := hc.standard
    have htypePos := (msgTypes_name row hrow).1
    rw [← hname] at htypePos
    refine (noFields_bad sub).stays hnote (fun v hv => ?_) fun v hv => ?_
    · rcases crossing_pair hc.calleridEq hb₁Eq hinfix hv with hkey | ⟨hb₀, rfl⟩
      · exact absurd hkey (by decide)
      · -- The low byte is the separator, so the topic has more than one character.
        have hlow := congrArg UInt8.toNat hb₀
        simp only [UInt8.toNat_ofNat', show eqSign.toNat = 61 from rfl] at hlow
        intro heq
        have hone := congrArg List.length heq
        rw [hc.topic] at hone
        simp at hone
        omega
    · rcases crossing_pair hc.calleridEq hb₁Eq hinfix hv with hkey | ⟨-, rfl⟩
      · exact absurd hkey (by decide)
      · refine ⟨fun heq => ?_, fun heq => ?_⟩
        · have hone := congrArg List.length heq
          rw [hc.type] at hone
          simp at hone
          omega
        · have hstar := (List.cons.inj (heq : _ = [ch '*'])).1
          rw [hstar] at hb₁
          exact absurd hb₁ (by decide)
  have hblk : (calleridBlock peer).length = u.length + (w.length + 1) := by
    rw [calleridBlock, hcallerid, hcut]
    simp
  have hheader : pre ++ (calleridBlock peer ++ (topicTail peer ++ rest)) =
      (pre ++ calleridBlock peer) ++ (topicTail peer ++ rest) := by simp
  rw [hheader] at hgo
  -- The cursor is now behind the start of the topic block, or even behind the body.
  by_cases hin : n + 3 - w.length ≤ (topicTail peer).length
  · refine verifyFields_tail spare (pre ++ calleridBlock peer) rest hc.standard hc.type
      hc.topicEq hbad (List.take_append_drop (n + 3 - w.length) (topicTail peer)).symm ?_ ?_
    · apply List.ne_nil_of_length_pos
      rw [List.length_take]
      omega
    · rw [← hgo]
      congr 1
      · simp only [List.length_append]
        omega
      · simp only [List.length_append, List.length_take, hblk]
        omega
  · rw [verifyFields_end (by omega)] at hgo
    cases hgo
    exact hbad.not_good

/-- The reader of a body gets behind the message definition to the caller id block. -/
theorem verifyFields_headerBody (hc : Compatible sub peer)
    (hlen : peer.topic.length < 2147483641) (junk : Bytes) :
    verifyFields spare (headerBody peer ++ junk) (headerBody peer).length 0 noFields =
      verifyFields spare (lenPrefixed messageDefinitionField ++
          (calleridBlock peer ++ (topicTail peer ++ junk)))
        ((lenPrefixed messageDefinitionField).length +
          ((calleridBlock peer).length + (topicTail peer).length) : Nat)
        (lenPrefixed messageDefinitionField).length noFields := by
  have hheader : headerBody peer ++ junk = lenPrefixed messageDefinitionField ++
      (calleridBlock peer ++ (topicTail peer ++ junk)) := by
    simp [headerBody_topicTail hc hlen]
  have hsize : (headerBody peer).length = (lenPrefixed messageDefinitionField).length +
      ((calleridBlock peer).length + (topicTail peer).length) := by
    simp [headerBody_topicTail hc hlen]
  have hbody : (33 : Int) ≤ ((headerBody peer).length : Nat) := by
    rw [hsize]
    simp [lenPrefixed_length, show messageDefinitionField.length = 29 from rfl]
    omega
  rw [hheader, ← hsize]
  exact verifyFields_start (calleridBlock peer ++ (topicTail peer ++ junk)) hbody

/-- A header that is in order gives the type of the topic. -/
theorem verifyRosHeader_headerBody (hc : Compatible sub peer)
    (hchain : FieldChain (calleridBlock peer)) (hpos : 1 ≤ peer.topic.length)
    (hlen : peer.topic.length ≤ 121) (junk : Bytes) :
    verifyRosHeader spare sub (headerBody peer ++ junk) (headerBody peer).length =
      .ok (hash sub.type hashSize) := by
  have htail := verifyFields_topicTail spare (lenPrefixed messageDefinitionField ++
    calleridBlock peer) junk hc hpos hlen
  refine verifyRosHeader_ok ?_
  rw [verifyFields_headerBody hc (by omega), verifyFields_calleridChain hc hchain,
    htail, hc.type, hc.topic]

theorem accepts_headerBody_iff (hc : Compatible sub peer) (junk : Bytes) :
    Accepts spare sub (headerBody peer ++ junk) (headerBody peer).length ↔
      FieldChain (calleridBlock peer) ∧
        1 ≤ peer.topic.length ∧ peer.topic.length ≤ 121 := by
  constructor
  · intro hacc
    obtain ⟨r, hr, hgood⟩ := accepts_good hacc
    have hshort : peer.topic.length ≤ 127 := by
      rw [← hc.topic]
      exact topic_short (fun s hs => by simp [valueS] at hs) hr _ hgood.1
    have hfield : (topicField peer).length ≤ maxBuff := by
      rw [topicField_length]
      have hmax : maxBuff = 1024 := rfl
      omega
    rw [verifyFields_headerBody hc (by omega)] at hr
    have hchain : FieldChain (calleridBlock peer) := by
      by_contra hchain
      exact verifyFields_noChain hc hfield hchain hr hgood
    refine ⟨hchain, ?_⟩
    by_contra hlen
    rw [verifyFields_calleridChain hc hchain] at hr
    exact verifyFields_noTopic hc hlen hr hgood
  · rintro ⟨hchain, hpos, hlen⟩
    refine ⟨hash sub.type hashSize, verifyRosHeader_headerBody hc hchain hpos hlen junk, ?_⟩
    rw [hc.type]
    exact Nat.pos_iff_ne_zero.mp (hash_pos_of_isMsgType hc.standard)

theorem genTcpHeaderFor_body {buf out : Bytes} {n : Nat}
    (h : genTcpHeaderFor peer buf = .ok (out, n)) :
    (out.take n).drop 4 = headerBody peer ∧ n - 4 = (headerBody peer).length := by
  rw [genTcpHeaderFor_ok peer (genTcpHeaderFor_fits h)] at h
  cases h
  rw [List.take_left' (by simp; omega), le32_append_drop]
  exact ⟨rfl, by omega⟩

/-- A header is accepted exactly when the caller id block is a chain of whole
fields and the topic is there and short enough. Subscriber and publisher check
each other by the same function, so the law covers both directions. -/
theorem verifyRosHeader_accepts_iff (spare : Nat → Bool) (sub peer : Topic)
    (buf out junk : Bytes) (n : Nat) (hc : Compatible sub peer)
    (hgen : genTcpHeaderFor peer buf = .ok (out, n)) :
    Accepts spare sub ((out.take n).drop 4 ++ junk) (n - 4 : Nat) ↔
      FieldChain (calleridBlock peer) ∧ 1 ≤ peer.topic.length ∧ peer.topic.length ≤ 121 := by
  obtain ⟨hbody, hsize⟩ := genTcpHeaderFor_body hgen
  rw [hbody, hsize]
  exact accepts_headerBody_iff hc junk

def chatter (callerid : Bytes) : Topic :=
  ⟨callerid, str "/chatter", str "std_msgs/String", none, 0, .refresh⟩

theorem chatter_compatible {a b : Bytes} (hb : NulFree b) (heq : eqSign ∉ b) :
    Compatible (chatter a) (chatter b) where
  topic := rfl
  type := rfl
  standard := ⟨⟨946, "std_msgs/String", "992ce8a1687cec8c8bd883ec73ca41d1"⟩, by decide, rfl⟩
  topicNul := show NulFree (str "/chatter") by decide
  topicEq := show eqSign ∉ str "/chatter" by decide
  topicWord := show Wordlike (str "/chatter") by decide
  calleridNul := hb
  calleridEq := heq

theorem chatter_calleridBlock {b : Bytes} (hb : b.length < 2147483638) :
    calleridBlock (chatter b) = lenPrefixed (str "callerid=" ++ b) := by
  have hlen : (calleridField (chatter b)).length = 9 + b.length := calleridField_length _
  rw [calleridBlock, sFormat_fits (by omega)]
  rfl

theorem chatter_headerBody {b : Bytes} (hb : b.length < 2147483638) :
    (headerBody (chatter b)).length = 131 + b.length := by
  have hcallerid : (str "callerid=").length = 9 := rfl
  have htopic : sFormat (topicField (chatter b)) = topicField (chatter b) :=
    sFormat_fits (show (str "topic=/chatter").length < 2147483647 by decide)
  have htype : sFormat (typeField (chatter b)) = typeField (chatter b) :=
    sFormat_fits (show (str "type=std_msgs/String").length < 2147483647 by decide)
  rw [headerBody_eq, chatter_calleridBlock hb, topicBlock, typeBlock, htopic, htype]
  simp only [List.length_append, lenPrefixed_length, topicField_length, md5sumField_length,
    typeField_length, hcallerid]
  rw [show messageDefinitionField.length = 29 from rfl,
    show (chatter b).topic.length = 8 from rfl, show (chatter b).type.length = 15 from rfl]
  omega

theorem verifyRosHeader_accepts_talker :
    ∃ spare out n junk, genTcpHeaderFor (chatter (str "/talker")) (List.replicate maxBuff 0) =
      .ok (out, n) ∧ Accepts spare (chatter (str "/listener")) ((out.take n).drop 4 ++ junk)
        (n - 4 : Nat) := by
  have hlen := chatter_headerBody (b := str "/talker") (by decide)
  have hfits : 4 + (headerBody (chatter (str "/talker"))).length ≤
      (List.replicate maxBuff (0 : Byte)).length := by
    rw [hlen, List.length_replicate]
    decide
  have hgen := genTcpHeaderFor_ok _ hfits
  refine ⟨fun _ => true, _, _, [], hgen, ?_⟩
  exact (verifyRosHeader_accepts_iff _ (chatter (str "/listener")) (chatter (str "/talker")) _ _ _ _
    (chatter_compatible (by decide) (by decide)) hgen).mpr
      ⟨fieldChain_lenPrefixed (by decide), by decide, by decide⟩

/-- A caller id of 119 characters makes the length of its block negative for the
reader. -/
theorem verifyRosHeader_refuses_long :
    ¬ ∀ (spare : Nat → Bool) (sub peer : Topic) (buf out junk : Bytes) (n : Nat),
      Compatible sub peer → buf.length = maxBuff → genTcpHeaderFor peer buf = .ok (out, n) →
        n - 4 + junk.length = maxBuff →
          Accepts spare sub ((out.take n).drop 4 ++ junk) (n - 4 : Nat) := by
  intro h
  obtain ⟨b, hb, heq, hlen⟩ : ∃ b : Bytes, NulFree b ∧ eqSign ∉ b ∧ b.length = 119 :=
    ⟨List.replicate 119 (ch 'a'), nulFree_replicate 119 (by decide),
      fun hm => absurd (List.eq_of_mem_replicate hm) (by decide), List.length_replicate⟩
  have hlong : b.length < 2147483638 := by omega
  have hbody := chatter_headerBody hlong
  have hc := chatter_compatible (a := str "/listener") hb heq
  have hfits : 4 + (headerBody (chatter b)).length ≤
      (List.replicate maxBuff (0 : Byte)).length := by
    rw [hbody, hlen, List.length_replicate]
    decide
  have hgen := genTcpHeaderFor_ok _ hfits
  have hacc := h (fun _ => true) (chatter (str "/listener")) (chatter b) _ _
    (List.replicate (maxBuff - 250) 0) _ hc List.length_replicate hgen
    (by rw [hbody, hlen, List.length_replicate]; decide)
  rw [(genTcpHeaderFor_body hgen).1, (genTcpHeaderFor_body hgen).2] at hacc
  have hchain := ((accepts_headerBody_iff hc _).mp hacc).1
  have hshape : calleridBlock (chatter b) = 128 :: 0 :: 0 :: 0 :: (str "callerid=" ++ b) := by
    have hfield : (str "callerid=" ++ b).length = 128 := by
      rw [List.length_append, hlen]
      rfl
    rw [chatter_calleridBlock hlong, lenPrefixed, hfield]
    rfl
  rw [hshape] at hchain
  exact not_fieldChain_of_neg (by decide) hchain

end STRos
