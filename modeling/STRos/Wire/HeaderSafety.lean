import STRos.Wire.HeaderCursor

/-! # When the field loop stays inside the header

The step of the cursor is four and a signed character that the peer sends, the
copy behind it is as long as that character says, and the kind of a token
depends on its text. A key is compared in its turn, a value only by the checks
behind the loop, and only where the checks before it have passed.
-/

namespace STRos

open CString

/-! ## The turns of the loop -/

/-- One turn: where the size is read, how much is copied from behind its four
bytes, and the items the field gives. -/
structure FieldTurn where
  ptr : Nat
  size : Int
  items : RList

def fieldTurns (spare : Nat → Bool) (header : Bytes) (hsize : Int) (ptr : Nat)
    (st : HeaderFields) : List FieldTurn :=
  if st.complete = false ∧ (ptr : Int) < hsize then
    match header[ptr]? with
    | none => [⟨ptr, 0, []⟩]
    | some c =>
        match memcpyFrom header (ptr + 4) (schar c) with
        | .error _ => [⟨ptr, schar c, []⟩]
        | .ok field =>
            let items := split (cstr field) (str "=")
            ⟨ptr, schar c, items⟩ ::
              match noteField (spare ptr) items st with
              | .error _ => []
              | .ok st' => fieldTurns spare header hsize (ptr + 4 + (schar c).toNat) st'
  else []
  termination_by hsize.toNat - ptr

/-- The cursor moves forward, what is read lies in the first `hsize` bytes, the
copy fits in `field`, and the key that is compared is a string. -/
structure FieldTurn.Good (hsize : Int) (t : FieldTurn) : Prop where
  forward : (t.ptr : Int) < t.ptr + 4 + t.size
  copied : 0 ≤ t.size ∧ t.size ≤ maxBuff - 1
  inside : (t.ptr : Int) < hsize ∧ (t.size = 0 ∨ t.ptr + 4 + t.size ≤ hsize)
  key : listSize t.items = 2 → ∃ key, listAt t.items 0 = some (.string key)

def SafeFrom (spare : Nat → Bool) (sub : Topic) (header : Bytes) (hsize : Int) (ptr : Nat)
    (st : HeaderFields) : Prop :=
  (∃ n, (verifyFields spare header hsize ptr st >>= checkFields sub) = .ok n) ∧
    ∀ t ∈ fieldTurns spare header hsize ptr st, t.Good hsize

/-- `verify_ros_header` ends without a fault, and all turns of its loop are good. -/
def LoopSafe (spare : Nat → Bool) (sub : Topic) (header : Bytes) (hsize : Int) : Prop :=
  (∃ n, verifyRosHeader spare sub header hsize = .ok n) ∧
    ∀ t ∈ fieldTurns spare header hsize 0 ⟨none, none, none⟩, t.Good hsize

/-! ## Fields and their values -/

def headerKeys : List Bytes := [str "topic", str "md5sum", str "type"]

/-- A text that is not cut into two tokens, or into a key that is a word. -/
def UsableField (text : Bytes) : Prop := ∀ k v, tokens [eqSign] text = [k, v] → Wordlike k

/-- The value of the last pair with this key, behind the place of its field. -/
def valueUnder (key : Bytes) : List (Nat × Bytes) → Option (Nat × Bytes)
  | [] => none
  | (ptr, text) :: fields =>
      (valueUnder key fields).or <|
        match tokens [eqSign] (cstr text) with
        | [k, v] => if k = key then some (ptr, v) else none
        | _ => none

/-- Each of the three keys has a value that does not look like a NULL pointer. -/
def SetsAll (spare : Nat → Bool) (fields : List (Nat × Bytes)) : Prop :=
  ∀ key ∈ headerKeys, ∃ ptr v, valueUnder key fields = some (ptr, v) ∧
    (takenS (spare ptr) (specialItem v)).isSome = true

/-- What is compared are words: the topic; the type, if that is the subscribed topic; and
the checksum, if the type passes as well. -/
def ComparesWords (sub : Topic) (fields : List (Nat × Bytes)) : Prop :=
  ∀ p topic, valueUnder (str "topic") fields = some (p, topic) → Wordlike topic ∧
    (topic = sub.topic → ∀ q msgtype, valueUnder (str "type") fields = some (q, msgtype) →
      Wordlike msgtype ∧
        (msgtype = sub.type ∨ msgtype = str "*" → ∀ r md5sum,
          valueUnder (str "md5sum") fields = some (r, md5sum) → Wordlike md5sum))

def HeaderFields.get (st : HeaderFields) (key : Bytes) : Option Item :=
  if key = str "topic" then st.topic
  else if key = str "md5sum" then st.md5sum
  else st.msgtype

def HeaderFields.note (spare : Nat → Bool) (st : HeaderFields) (field : Nat × Bytes) :
    HeaderFields :=
  match tokens [eqSign] (cstr field.2) with
  | [k, v] => st.put k (takenS (spare field.1) (specialItem v))
  | _ => st

def fieldsNoted (spare : Nat → Bool) (fields : List (Nat × Bytes)) : HeaderFields :=
  fields.foldl (HeaderFields.note spare) ⟨none, none, none⟩

variable {spare : Nat → Bool} {sub : Topic} {st : HeaderFields}

theorem mem_headerKeys {k : Bytes} :
    k ∈ headerKeys ↔ k = str "topic" ∨ k = str "md5sum" ∨ k = str "type" := by
  simp [headerKeys]

theorem noteField_usable {t : Bytes} {ptr : Nat} (h : UsableField (cstr t)) (st : HeaderFields) :
    noteField (spare ptr) (split (cstr t) (str "=")) st = .ok (st.note spare (ptr, t)) := by
  by_cases hlen : (tokens [eqSign] (cstr t)).length = 2
  · obtain ⟨k, v, hkv⟩ := List.length_eq_two.mp hlen
    rw [noteField_word hkv (h k v hkv)]
    simp only [HeaderFields.note, hkv]
  · rw [noteField_skip hlen]
    unfold HeaderFields.note
    split
    · rename_i k v hkv
      rw [hkv] at hlen
      exact absurd rfl hlen
    · rfl

/-- Only usable fields are noted without a fault. -/
theorem usable_of_noteField {t : Bytes} {b : Bool} {st' : HeaderFields}
    (h : noteField b (split t (str "=")) st = .ok st') : UsableField t := by
  intro k v hkv
  obtain ⟨hlen, -⟩ | ⟨k', v', hkv', hk', -⟩ := noteField_cases h
  · rw [hkv] at hlen
    exact absurd rfl hlen
  · rw [hkv] at hkv'
    cases hkv'
    exact hk'

theorem key_of_usable {t : Bytes} (h : UsableField t) (hsize : listSize (split t (str "=")) = 2) :
    ∃ key, listAt (split t (str "=")) 0 = some (.string key) := by
  rw [listSize_split, str_eq] at hsize
  obtain ⟨k, v, hkv⟩ := List.length_eq_two.mp hsize
  rw [split_of_tokens hkv]
  exact ⟨k, by rw [listAt_pair_key, specialItem_of_wordlike (h k v hkv)]⟩

/-! ## Which pointers a list of fields sets -/

theorem HeaderFields.complete_iff :
    st.complete = true ↔ ∀ key ∈ headerKeys, (st.get key).isSome = true := by
  simp only [headerKeys, List.forall_mem_cons, HeaderFields.get, HeaderFields.complete,
    Bool.and_eq_true, if_true, show str "md5sum" ≠ str "topic" by decide,
    show str "type" ≠ str "topic" by decide, show str "type" ≠ str "md5sum" by decide, if_false,
    List.not_mem_nil, false_implies, implies_true, and_true]
  tauto

theorem HeaderFields.put_get {key : Bytes} (hkey : key ∈ headerKeys) (k : Bytes)
    (val : Option Item) : (st.put k val).get key = if k = key then val else st.get key := by
  have hmd5 : str "md5sum" ≠ str "topic" := by decide
  have htype : str "type" ≠ str "topic" := by decide
  have htype' : str "type" ≠ str "md5sum" := by decide
  unfold HeaderFields.put
  rcases mem_headerKeys.mp hkey with rfl | rfl | rfl
  · simp only [HeaderFields.get, if_true]
    split
    · rfl
    · split
      · rfl
      · split
        · rfl
        · rfl
  · simp only [HeaderFields.get, hmd5, if_true, if_false]
    split
    · rename_i hk
      rw [hk, if_neg hmd5.symm]
    · split
      · rfl
      · split
        · rfl
        · rfl
  · simp only [HeaderFields.get, htype, htype', if_false]
    split
    · rename_i hk
      rw [hk, if_neg htype.symm]
    · split
      · rename_i hk
        rw [hk, if_neg htype'.symm]
      · split
        · rfl
        · rfl

/-- The pointer under a key was taken from the last value of the key. -/
theorem foldl_note_get {key : Bytes} (hkey : key ∈ headerKeys) (fields : List (Nat × Bytes)) :
    (fields.foldl (HeaderFields.note spare) st).get key =
      match valueUnder key fields with
      | some (ptr, v) => takenS (spare ptr) (specialItem v)
      | none => st.get key := by
  induction fields generalizing st with
  | nil => rfl
  | cons field fields ih =>
      obtain ⟨ptr, text⟩ := field
      rw [List.foldl_cons, ih, valueUnder]
      cases valueUnder key fields with
      | some last => rfl
      | none =>
          simp only [Option.none_or, HeaderFields.note]
          split
          · rename_i k v _
            rw [HeaderFields.put_get hkey]
            by_cases hk : k = key
            · rw [if_pos hk, if_pos hk]
            · rw [if_neg hk, if_neg hk]
          · rfl

theorem fieldsNoted_get {key : Bytes} (hkey : key ∈ headerKeys) (fields : List (Nat × Bytes)) :
    (fieldsNoted spare fields).get key =
      (valueUnder key fields).bind fun last => takenS (spare last.1) (specialItem last.2) := by
  have hnone : HeaderFields.get ⟨none, none, none⟩ key = none := by
    unfold HeaderFields.get
    split
    · rfl
    · split
      · rfl
      · rfl
  rw [fieldsNoted, foldl_note_get hkey, hnone]
  cases valueUnder key fields with
  | some last => rfl
  | none => rfl

theorem fieldsNoted_complete_iff (fields : List (Nat × Bytes)) :
    (fieldsNoted spare fields).complete = true ↔ SetsAll spare fields := by
  rw [HeaderFields.complete_iff]
  refine forall_congr' fun key => imp_congr_right fun hkey => ?_
  rw [fieldsNoted_get hkey]
  cases valueUnder key fields with
  | none => simp
  | some last => simp [Prod.ext_iff]

theorem fieldsNoted_snoc (fields : List (Nat × Bytes)) (field : Nat × Bytes) :
    (fieldsNoted spare fields).note spare field = fieldsNoted spare (fields ++ [field]) := by
  rw [fieldsNoted, fieldsNoted, List.foldl_append]
  rfl

/-! ## The checks -/

theorem valueS_taken_word {v : Bytes} (h : Wordlike v) (b : Bool) :
    valueS (takenS b (specialItem v)) = .ok v := by
  rw [specialItem_of_wordlike h]
  rfl

/-- The checks return exactly when they compare words. -/
theorem checkFields_returns_iff {topic msgtype md5sum : Bytes} {b₁ b₂ b₃ : Bool}
    (hall : st.complete = true) (htopic : st.topic = takenS b₁ (specialItem topic))
    (htype : st.msgtype = takenS b₂ (specialItem msgtype))
    (hmd5 : st.md5sum = takenS b₃ (specialItem md5sum)) :
    (∃ n, checkFields sub st = .ok n) ↔
      Wordlike topic ∧ (topic = sub.topic → Wordlike msgtype ∧
        (msgtype = sub.type ∨ msgtype = str "*" → Wordlike md5sum)) := by
  unfold checkFields
  rw [if_neg (by simp [hall]), htopic, htype, hmd5]
  constructor
  · rintro ⟨n, h⟩
    obtain ⟨t, ht, hrest⟩ := bind_eq_ok.mp h
    obtain ⟨hword, rfl⟩ := valueS_takenS ht
    refine ⟨hword, fun hsame => ?_⟩
    rw [if_neg (not_not.mpr hsame)] at hrest
    obtain ⟨m, hm, hlast⟩ := bind_eq_ok.mp hrest
    obtain ⟨hword', rfl⟩ := valueS_takenS hm
    refine ⟨hword', fun hpass => ?_⟩
    rw [if_neg (by tauto)] at hlast
    obtain ⟨s, hs, -⟩ := bind_eq_ok.mp hlast
    exact (valueS_takenS hs).1
  · rintro ⟨hword, htrue⟩
    simp only [valueS_taken_word hword, bind, Except.bind]
    by_cases hsame : topic = sub.topic
    · obtain ⟨hword', hpasses⟩ := htrue hsame
      rw [if_neg (not_not.mpr hsame), valueS_taken_word hword']
      simp only
      by_cases hpass : msgtype = sub.type ∨ msgtype = str "*"
      · rw [if_neg (by tauto), valueS_taken_word (hpasses hpass)]
        simp only
        split
        · exact ⟨_, rfl⟩
        · exact ⟨_, rfl⟩
      · rw [if_pos (by tauto)]
        exact ⟨_, rfl⟩
    · rw [if_pos hsame]
      exact ⟨_, rfl⟩

theorem checkFields_noted_iff {fields : List (Nat × Bytes)} (hall : SetsAll spare fields) :
    (∃ n, checkFields sub (fieldsNoted spare fields) = .ok n) ↔ ComparesWords sub fields := by
  obtain ⟨p, topic, htopic, -⟩ := hall (str "topic") (by decide)
  obtain ⟨q, msgtype, htype, -⟩ := hall (str "type") (by decide)
  obtain ⟨r, md5sum, hmd5, -⟩ := hall (str "md5sum") (by decide)
  have hget : ∀ key, key ∈ headerKeys → (fieldsNoted spare fields).get key =
      (valueUnder key fields).bind fun last => takenS (spare last.1) (specialItem last.2) :=
    fun _ hkey => fieldsNoted_get hkey fields
  have htopicGet := hget (str "topic") (by decide)
  have htypeGet := hget (str "type") (by decide)
  have hmd5Get := hget (str "md5sum") (by decide)
  rw [htopic] at htopicGet
  rw [htype] at htypeGet
  rw [hmd5] at hmd5Get
  rw [checkFields_returns_iff ((fieldsNoted_complete_iff fields).mpr hall) htopicGet htypeGet
    hmd5Get]
  simp only [ComparesWords, htopic, htype, hmd5, Option.some.injEq, Prod.mk.injEq, and_imp,
    forall_eq', forall_apply_eq_imp_iff]

/-! ## One turn -/

variable {hsize : Int} {pre more : Bytes} {c : Byte}

theorem safeFrom_end {header : Bytes} {ptr : Nat} (h : st.complete = true ∨ hsize ≤ ptr) :
    SafeFrom spare sub header hsize ptr st ↔ ∃ n, checkFields sub st = .ok n := by
  have hstop : ¬ (st.complete = false ∧ (ptr : Int) < hsize) := by
    rintro ⟨hst, hp⟩
    cases h with
    | inl h => rw [hst] at h; cases h
    | inr h => omega
  have hturns : fieldTurns spare header hsize ptr st = [] := by rw [fieldTurns, if_neg hstop]
  have hloop : verifyFields spare header hsize ptr st = .ok st := by
    rw [verifyFields, if_neg hstop]
  simp [SafeFrom, hturns, hloop, bind, Except.bind]

theorem safeFrom_incomplete {header : Bytes} {ptr : Nat} (hst : st.complete = false)
    (h : hsize ≤ ptr) : SafeFrom spare sub header hsize ptr st := by
  refine (safeFrom_end (Or.inr h)).mpr ⟨0, ?_⟩
  rw [checkFields, if_pos hst]

/-- A turn is safe when its field is whole, in the header and usable, and the
rest of the run is safe. -/
theorem safeFrom_turn (hst : st.complete = false) (hp : (pre.length : Int) < hsize)
    (hroom : hsize ≤ (pre ++ c :: more).length) :
    SafeFrom spare sub (pre ++ c :: more) hsize pre.length st ↔
      ∃ n : Nat, schar c = n ∧ (n = 0 ∨ (pre.length + 4 + n : Int) ≤ hsize) ∧
        UsableField (cstr ((more.drop 3).take n)) ∧
        SafeFrom spare sub (pre ++ c :: more) hsize (pre.length + 4 + n)
          (st.note spare (pre.length, (more.drop 3).take n)) := by
  have hat : (pre ++ c :: more)[pre.length]? = some c := by simp
  have hdrop : (pre ++ c :: more).drop (pre.length + 4) = more.drop 3 := by
    rw [List.drop_append, List.drop_of_length_le (by omega)]
    simp
  simp only [List.length_append, List.length_cons] at hroom
  constructor
  · rintro ⟨⟨r, hr⟩, hturns⟩
    obtain ⟨st₁, hloop, hchecks⟩ := bind_eq_ok.mp hr
    obtain ⟨n, hn, hlen, st', hnote, hgo⟩ := verifyFields_turn hst hp hloop
    have husable := usable_of_noteField hnote
    rw [noteField_usable husable] at hnote
    cases hnote
    have hcopy : memcpyFrom (pre ++ c :: more) (pre.length + 4) n = .ok ((more.drop 3).take n) := by
      rw [memcpyFrom_ok (by simp; omega), hdrop]
    rw [fieldTurns, if_pos ⟨hst, hp⟩, hat] at hturns
    simp only [hn, hcopy, noteField_usable husable, Int.toNat_natCast, List.mem_cons,
      forall_eq_or_imp] at hturns
    have hinside := hturns.1.inside.2
    simp only at hinside
    exact ⟨n, hn, by omega, husable, ⟨r, bind_eq_ok.mpr ⟨st₁, hgo, hchecks⟩⟩, hturns.2⟩
  · rintro ⟨n, hn, hin, husable, ⟨r, hr⟩, hturns⟩
    have hcopy : memcpyFrom (pre ++ c :: more) (pre.length + 4) n = .ok ((more.drop 3).take n) := by
      rw [memcpyFrom_ok (by simp; omega), hdrop]
    refine ⟨⟨r, ?_⟩, ?_⟩
    · rw [verifyFields_step hst hp hn (by omega) (noteField_usable husable st)]
      exact hr
    · rw [fieldTurns, if_pos ⟨hst, hp⟩, hat]
      simp only [hn, hcopy, noteField_usable husable, Int.toNat_natCast, List.mem_cons,
        forall_eq_or_imp]
      refine ⟨⟨by simp only; omega, ?_, ⟨hp, by simp only; omega⟩, key_of_usable husable⟩, hturns⟩
      have hlow := schar_lt c
      have hmax : maxBuff = 1024 := rfl
      simp only
      omega

theorem schar_eq_zero {c : Byte} (h : schar c = 0) : c = 0 := by
  have hb := c.toNat_lt
  apply UInt8.toNat_inj.mp
  unfold schar at h
  split at h
  · simpa using h
  · omega

theorem usableField_nil : UsableField [] := by
  intro k v h
  simp at h

variable {b₁ b₂ b₃ : Byte} {junk : Bytes}

theorem safeFrom_short {short : Bytes} (hst : st.complete = false) (hshort : short.length < 3) :
    SafeFrom spare sub (pre ++ (c :: short ++ junk)) (pre.length + (c :: short).length : Nat)
      pre.length st ↔ c = 0 := by
  have hlen : (c :: short).length = short.length + 1 := rfl
  have hroom : ((pre.length + (c :: short).length : Nat) : Int) ≤
      (pre ++ c :: (short ++ junk)).length := by
    simp only [List.length_append, List.length_cons]
    omega
  rw [List.cons_append, safeFrom_turn hst (by omega) hroom]
  constructor
  · rintro ⟨n, hn, hin, -, -⟩
    have hzero : n = 0 := by omega
    subst hzero
    exact schar_eq_zero hn
  · rintro rfl
    refine ⟨0, by decide, Or.inl rfl, usableField_nil, safeFrom_incomplete ?_ (by omega)⟩
    exact hst

theorem safeFrom_whole {text rest : Bytes} (hst : st.complete = false)
    (hsize : schar c = text.length) :
    SafeFrom spare sub (pre ++ (c :: b₁ :: b₂ :: b₃ :: (text ++ rest) ++ junk))
        (pre.length + (c :: b₁ :: b₂ :: b₃ :: (text ++ rest)).length : Nat) pre.length st ↔
      UsableField (cstr text) ∧
        SafeFrom spare sub ((pre ++ c :: b₁ :: b₂ :: b₃ :: text) ++ (rest ++ junk))
          ((pre ++ c :: b₁ :: b₂ :: b₃ :: text).length + rest.length : Nat)
          (pre ++ c :: b₁ :: b₂ :: b₃ :: text).length (st.note spare (pre.length, text)) := by
  have htake : ((b₁ :: b₂ :: b₃ :: (text ++ rest) ++ junk).drop 3).take text.length = text := by
    rw [show b₁ :: b₂ :: b₃ :: (text ++ rest) ++ junk = [b₁, b₂, b₃] ++ (text ++ (rest ++ junk))
      by simp]
    exact field_text [b₁, b₂, b₃] text (rest ++ junk) rfl
  have hheader : pre ++ (c :: b₁ :: b₂ :: b₃ :: (text ++ rest) ++ junk) =
      (pre ++ c :: b₁ :: b₂ :: b₃ :: text) ++ (rest ++ junk) := by simp
  have hptr : (pre ++ c :: b₁ :: b₂ :: b₃ :: text).length = pre.length + 4 + text.length := by
    simp only [List.length_append, List.length_cons]
    omega
  have hend : pre.length + (c :: b₁ :: b₂ :: b₃ :: (text ++ rest)).length =
      pre.length + 4 + text.length + rest.length := by
    simp only [List.length_append, List.length_cons]
    omega
  have hroom : ((pre.length + 4 + text.length + rest.length : Nat) : Int) ≤
      (pre ++ c :: (b₁ :: b₂ :: b₃ :: (text ++ rest) ++ junk)).length := by
    simp only [List.length_append, List.length_cons]
    omega
  rw [← hheader, hptr, hend, List.cons_append, safeFrom_turn hst (by omega) hroom]
  constructor
  · rintro ⟨n, hn, -, husable, hgo⟩
    have hsame : n = text.length := by omega
    subst hsame
    rw [htake] at husable hgo
    exact ⟨husable, hgo⟩
  · rintro ⟨husable, hgo⟩
    refine ⟨text.length, hsize, Or.inr (by omega), ?_, ?_⟩
    · rw [htake]
      exact husable
    · rw [htake]
      exact hgo

/-- Where a size is left, its field must be whole. -/
theorem whole_of_safeFrom {left : Bytes} (hst : st.complete = false)
    (h : SafeFrom spare sub (pre ++ (c :: b₁ :: b₂ :: b₃ :: left ++ junk))
      (pre.length + (c :: b₁ :: b₂ :: b₃ :: left).length : Nat) pre.length st) :
    ∃ text rest, left = text ++ rest ∧ schar c = text.length := by
  have hlen : (c :: b₁ :: b₂ :: b₃ :: left).length = left.length + 4 := rfl
  rw [hlen, List.cons_append] at h
  obtain ⟨n, hn, hin, -, -⟩ := (safeFrom_turn hst (by omega) (by simp; omega)).mp h
  refine ⟨left.take n, left.drop n, (List.take_append_drop n left).symm, ?_⟩
  rw [hn, List.length_take]
  omega

/-! ## The law -/

/-- Bytes that are whole fields, the first at an offset: a size that is not negative, three
bytes that are skipped, and the text. -/
inductive WholeFields : Nat → Bytes → List (Nat × Bytes) → Prop
  | nil {ptr : Nat} : WholeFields ptr [] []
  | cons {ptr : Nat} {c b₁ b₂ b₃ : Byte} {text rest : Bytes} {fields : List (Nat × Bytes)}
      (size : schar c = text.length) (tail : WholeFields (ptr + 4 + text.length) rest fields) :
      WholeFields ptr (c :: b₁ :: b₂ :: b₃ :: (text ++ rest)) ((ptr, text) :: fields)

/-- Less than a size, starting with the size of an empty field. -/
def EmptySize (rest : Bytes) : Prop := ∃ short, rest = 0 :: short ∧ short.length < 3

/-- Behind the fields `done` the body starts with whole usable fields, up to the first that
completes the three pointers, and then what is compared are words; or else the body ends with
these fields, or in the size of an empty one. -/
def InOrderBehind (spare : Nat → Bool) (sub : Topic) (done : List (Nat × Bytes)) (ptr : Nat)
    (body : Bytes) : Prop :=
  ∃ bytes fields rest, body = bytes ++ rest ∧ WholeFields ptr bytes fields ∧
    (∀ field ∈ fields, UsableField (cstr field.2)) ∧
    (∀ before, before <+: fields → before ≠ fields → ¬ SetsAll spare (done ++ before)) ∧
    (SetsAll spare (done ++ fields) → ComparesWords sub (done ++ fields)) ∧
    (SetsAll spare (done ++ fields) ∨ rest = [] ∨ EmptySize rest)

def HeaderInOrder (spare : Nat → Bool) (sub : Topic) (body : Bytes) : Prop :=
  InOrderBehind spare sub [] 0 body

section InOrder

variable {done : List (Nat × Bytes)} {ptr : Nat}

theorem inOrder_set (hall : SetsAll spare done) (body : Bytes) :
    InOrderBehind spare sub done ptr body ↔ ComparesWords sub done := by
  constructor
  · rintro ⟨bytes, fields, rest, -, -, -, hfirst, hwords, -⟩
    have hnil : fields = [] := by
      by_contra hne
      exact hfirst [] (List.nil_prefix) (Ne.symm hne) (by rwa [List.append_nil])
    rw [hnil, List.append_nil] at hwords
    exact hwords hall
  · intro hwords
    refine ⟨[], [], body, rfl, .nil, by simp, ?_, ?_, Or.inl ?_⟩
    · intro before hbefore hne
      exact absurd (List.prefix_nil.mp hbefore) hne
    · rw [List.append_nil]
      exact fun _ => hwords
    · rwa [List.append_nil]

theorem inOrder_nil (hsome : ¬ SetsAll spare done) : InOrderBehind spare sub done ptr [] := by
  refine ⟨[], [], [], rfl, .nil, by simp, ?_, ?_, Or.inr (Or.inl rfl)⟩
  · intro before hbefore hne
    exact absurd (List.prefix_nil.mp hbefore) hne
  · rw [List.append_nil]
    exact fun hall => absurd hall hsome

theorem inOrder_short {c : Byte} {short : Bytes} (hsome : ¬ SetsAll spare done)
    (hshort : short.length < 3) : InOrderBehind spare sub done ptr (c :: short) ↔ c = 0 := by
  constructor
  · rintro ⟨bytes, fields, rest, hbody, hfields, -, -, -, hend⟩
    cases hfields with
    | nil =>
        rw [List.append_nil, List.nil_append] at *
        rcases hend with hall | hnil | ⟨short', hrest, -⟩
        · exact absurd hall hsome
        · rw [hnil] at hbody
          cases hbody
        · rw [hrest] at hbody
          exact (List.cons.inj hbody).1
    | cons =>
        have hlen := congrArg List.length hbody
        simp only [List.length_cons, List.length_append] at hlen
        omega
  · rintro rfl
    refine ⟨[], [], 0 :: short, rfl, .nil, by simp, ?_, ?_, Or.inr (Or.inr ⟨short, rfl, hshort⟩)⟩
    · intro before hbefore hne
      exact absurd (List.prefix_nil.mp hbefore) hne
    · rw [List.append_nil]
      exact fun hall => absurd hall hsome

theorem inOrder_whole {c b₁ b₂ b₃ : Byte} {text left : Bytes} (hsome : ¬ SetsAll spare done)
    (hsize : schar c = text.length) :
    InOrderBehind spare sub done ptr (c :: b₁ :: b₂ :: b₃ :: (text ++ left)) ↔
      UsableField (cstr text) ∧
        InOrderBehind spare sub (done ++ [(ptr, text)]) (ptr + 4 + text.length) left := by
  have hsnoc : ∀ fields, done ++ (ptr, text) :: fields = done ++ [(ptr, text)] ++ fields := by simp
  constructor
  · rintro ⟨bytes, fields, rest, hbody, hfields, husable, hfirst, hwords, hend⟩
    cases hfields with
    | nil =>
        rw [List.nil_append] at hbody
        rw [List.append_nil] at hend
        rcases hend with hall | hnil | ⟨short, hrest, hshort⟩
        · exact absurd hall hsome
        · rw [hnil] at hbody
          cases hbody
        · rw [hrest] at hbody
          have hlen := congrArg List.length (List.cons.inj hbody).2
          simp only [List.length_cons, List.length_append] at hlen
          omega
    | @cons _ c' b₁' b₂' b₃' text' rest' fields hsize' htail =>
        simp only [List.cons_append, List.append_assoc, List.cons.injEq] at hbody
        obtain ⟨rfl, rfl, rfl, rfl, hbody⟩ := hbody
        obtain ⟨rfl, rfl⟩ := List.append_inj hbody (by omega)
        refine ⟨husable (ptr, text) (by simp), rest', fields, rest, rfl, htail,
          fun field hmem => husable field (List.mem_cons_of_mem _ hmem),
          fun before hbefore hne => ?_, ?_, ?_⟩
        · rw [← hsnoc]
          exact hfirst _ (List.cons_prefix_cons.mpr ⟨rfl, hbefore⟩) (by simpa using hne)
        · rw [← hsnoc]
          exact hwords
        · rw [← hsnoc]
          exact hend
  · rintro ⟨hfield, bytes, fields, rest, rfl, hfields, husable, hfirst, hwords, hend⟩
    refine ⟨c :: b₁ :: b₂ :: b₃ :: (text ++ bytes), (ptr, text) :: fields, rest, by simp,
      .cons hsize hfields, ?_, fun before hbefore hne => ?_, ?_, ?_⟩
    · intro field hmem
      rcases List.mem_cons.mp hmem with heq | hmem
      · rw [heq]
        exact hfield
      · exact husable field hmem
    · cases before with
      | nil => rwa [List.append_nil]
      | cons field before =>
          obtain ⟨rfl, hprefix⟩ := List.cons_prefix_cons.mp hbefore
          rw [hsnoc]
          exact hfirst before hprefix (by simpa using hne)
    · rw [hsnoc]
      exact hwords
    · rw [hsnoc]
      exact hend

theorem whole_of_inOrder {c b₁ b₂ b₃ : Byte} {left : Bytes} (hsome : ¬ SetsAll spare done)
    (h : InOrderBehind spare sub done ptr (c :: b₁ :: b₂ :: b₃ :: left)) :
    ∃ text rest, left = text ++ rest ∧ schar c = text.length := by
  obtain ⟨bytes, fields, rest, hbody, hfields, -, -, -, hend⟩ := h
  cases hfields with
  | nil =>
      rw [List.nil_append] at hbody
      rw [List.append_nil] at hend
      rcases hend with hall | hnil | ⟨short, hrest, hshort⟩
      · exact absurd hall hsome
      · rw [hnil] at hbody
        cases hbody
      · rw [hrest] at hbody
        have hlen := congrArg List.length (List.cons.inj hbody).2
        simp only [List.length_cons] at hlen
        omega
  | @cons _ c' b₁' b₂' b₃' text rest' fields hsize' htail =>
      simp only [List.cons_append, List.append_assoc, List.cons.injEq] at hbody
      obtain ⟨rfl, -, -, -, rfl⟩ := hbody
      exact ⟨text, rest' ++ rest, rfl, hsize'⟩

end InOrder

/-- The run behind some fields is safe exactly when the rest of the body is in order. -/
theorem safeFrom_iff (done : List (Nat × Bytes)) (body : Bytes) :
    SafeFrom spare sub (pre ++ (body ++ junk)) (pre.length + body.length : Nat) pre.length
        (fieldsNoted spare done) ↔
      InOrderBehind spare sub done pre.length body := by
  induction hn : body.length using Nat.strong_induction_on generalizing pre done body with
  | _ n ih =>
      subst hn
      by_cases hall : SetsAll spare done
      · rw [safeFrom_end (Or.inl ((fieldsNoted_complete_iff done).mpr hall)),
          checkFields_noted_iff hall, inOrder_set hall]
      · have hst : (fieldsNoted spare done).complete = false := by
          rw [← fieldsNoted_complete_iff] at hall
          simpa using hall
        match body with
        | [] => exact iff_of_true (safeFrom_incomplete hst (by simp)) (inOrder_nil hall)
        | [c] => rw [safeFrom_short hst (by simp), inOrder_short hall (by simp)]
        | [c, b₁] => rw [safeFrom_short hst (by simp), inOrder_short hall (by simp)]
        | [c, b₁, b₂] => rw [safeFrom_short hst (by simp), inOrder_short hall (by simp)]
        | c :: b₁ :: b₂ :: b₃ :: left =>
            by_cases hwhole : ∃ text rest, left = text ++ rest ∧ schar c = text.length
            · obtain ⟨text, rest, rfl, hsize⟩ := hwhole
              have hlen : rest.length < (c :: b₁ :: b₂ :: b₃ :: (text ++ rest)).length := by
                simp only [List.length_cons, List.length_append]
                omega
              have hptr : (pre ++ c :: b₁ :: b₂ :: b₃ :: text).length =
                  pre.length + 4 + text.length := by
                simp only [List.length_append, List.length_cons]
                omega
              rw [safeFrom_whole hst hsize, inOrder_whole hall hsize, fieldsNoted_snoc, ← hptr,
                ih _ hlen _ rest rfl]
            · exact iff_of_false (fun h => hwhole (whole_of_safeFrom hst h))
                fun h => hwhole (whole_of_inOrder hall h)

/-- The field loop is safe exactly on headers in order; a size that is not
positive leaves nothing to read. -/
theorem loopSafe_iff_inOrder (spare : Nat → Bool) (sub : Topic) (header : Bytes) (hsize : Int)
    (hbuf : header.length = maxBuff) (hlen : hsize ≤ maxBuff) :
    LoopSafe spare sub header hsize ↔ HeaderInOrder spare sub (header.take hsize.toNat) := by
  have hnone : ¬ SetsAll spare [] := by
    intro hall
    obtain ⟨ptr, v, hv, -⟩ := hall (str "topic") (by decide)
    cases hv
  by_cases hpos : 0 ≤ hsize
  · obtain ⟨n, rfl⟩ := Int.eq_ofNat_of_zero_le hpos
    have hcut : header.take n ++ header.drop n = header := List.take_append_drop n header
    have htake : (header.take n).length = n := by
      rw [List.length_take]
      omega
    have hsafe := @safeFrom_iff spare sub [] (header.drop n) [] (header.take n)
    rw [List.nil_append, hcut, List.length_nil, Nat.zero_add, htake] at hsafe
    rw [Int.toNat_natCast]
    exact hsafe
  · have hzero : hsize.toNat = 0 := by omega
    rw [hzero]
    exact iff_of_true (safeFrom_incomplete rfl (by omega)) (inOrder_nil hnone)

/-! ## Two headers -/

/-- One field; its value is a number, which is kept and never compared. -/
def numberBlock : Bytes := 9 :: 0 :: 0 :: 0 :: (str "topic=123" ++ [])

theorem loopSafe_number :
    LoopSafe (fun _ => true) ⟨str "/listener", str "/chatter", str "std_msgs/String", none, 0,
      .refresh⟩ (numberBlock ++ List.replicate 1011 0) 13 := by
  have hlen : numberBlock.length = 13 := by decide
  have hbuf : (numberBlock ++ List.replicate 1011 (0 : Byte)).length = maxBuff := by
    rw [List.length_append, hlen, List.length_replicate]
    rfl
  have htokens : tokens [eqSign] (cstr (str "topic=123")) = [str "topic", str "123"] := by decide
  have hfew : ∀ fields, fields <+: [(0, str "topic=123")] → ¬ SetsAll (fun _ => true) fields := by
    intro fields hfields hall
    obtain ⟨p, v, hv, -⟩ := hall (str "type") (by decide)
    rcases List.prefix_cons_iff.mp hfields with rfl | ⟨tail, rfl, htail⟩
    · cases hv
    · rw [List.prefix_nil.mp htail] at hv
      simp [valueUnder, htokens, show str "topic" ≠ str "type" by decide] at hv
  apply (loopSafe_iff_inOrder _ _ (numberBlock ++ List.replicate 1011 0) 13 hbuf (by decide)).mpr
  refine ⟨numberBlock, [(0, str "topic=123")], [], ?_, .cons (by decide) .nil, ?_, ?_, ?_,
    Or.inr (Or.inl rfl)⟩
  · rw [show (13 : Int).toNat = 13 from rfl, List.take_left' hlen, List.append_nil]
  · intro field hmem k v hkv
    rw [List.mem_singleton.mp hmem, htokens] at hkv
    cases hkv
    decide
  · intro before hbefore _
    exact hfew before hbefore
  · exact fun hall => absurd hall (hfew _ (List.prefix_refl _))

/-- A size character of 255 is the size -1. -/
theorem loopSafe_broken :
    ¬ ∀ (spare : Nat → Bool) (sub : Topic) (header : Bytes) (hsize : Int),
      header.length = maxBuff → hsize ≤ maxBuff → LoopSafe spare sub header hsize := by
  intro h
  have hbuf : ((255 : Byte) :: List.replicate 1023 0).length = maxBuff := by
    rw [List.length_cons, List.length_replicate]
    rfl
  have hsafe : SafeFrom (fun _ => true) ⟨str "/listener", str "/chatter", str "std_msgs/String",
      none, 0, .refresh⟩ ([] ++ 255 :: List.replicate 1023 0) 4 ([] : Bytes).length
      ⟨none, none, none⟩ := h _ _ (255 :: List.replicate 1023 0) 4 hbuf (by decide)
  obtain ⟨n, hn, -⟩ := (safeFrom_turn rfl (by decide) (by rw [List.nil_append, hbuf]; decide)).mp
    hsafe
  rw [show schar 255 = -1 by decide] at hn
  omega

end STRos
