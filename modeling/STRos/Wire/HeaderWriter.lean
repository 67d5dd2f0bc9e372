import STRos.Wire.StringFrame

/-! # What the connection header writer leaves in the buffer

The five blocks write one length-prefixed field each, back to back after the
four bytes reserved for the total.
-/

namespace STRos

open CString

def lenPrefixed (t : Bytes) : Bytes := le32 t.length ++ t

def headerTexts (sub : Topic) : List Bytes :=
  [messageDefinitionField, calleridField sub, topicField sub, md5sumField sub, typeField sub].map
    sFormat

def headerBody (sub : Topic) : Bytes := ((headerTexts sub).map lenPrefixed).flatten

theorem lenPrefixed_length (t : Bytes) : (lenPrefixed t).length = 4 + t.length := by
  simp [lenPrefixed]

/-- The blocks of the caller id, the topic and the type. -/
def calleridBlock (sub : Topic) : Bytes := lenPrefixed (sFormat (calleridField sub))
def topicBlock (sub : Topic) : Bytes := lenPrefixed (sFormat (topicField sub))
def typeBlock (sub : Topic) : Bytes := lenPrefixed (sFormat (typeField sub))

theorem calleridField_length (tp : Topic) :
    (calleridField tp).length = 9 + tp.callerid.length := by
  rw [calleridField, List.length_append]
  rfl

theorem topicField_length (tp : Topic) : (topicField tp).length = 6 + tp.topic.length := by
  rw [topicField, List.length_append]
  rfl

theorem typeField_length (tp : Topic) : (typeField tp).length = 5 + tp.type.length := by
  rw [typeField, List.length_append]
  rfl

theorem md5sumField_length (sub : Topic) : (md5sumField sub).length = 39 := by
  rw [md5sumField, List.length_append, (md5sumOf_word sub.type).1]
  rfl

theorem headerBody_eq (sub : Topic) :
    headerBody sub = lenPrefixed messageDefinitionField ++ (calleridBlock sub ++
      (topicBlock sub ++ (lenPrefixed (md5sumField sub) ++ typeBlock sub))) := by
  have hdef : sFormat messageDefinitionField = messageDefinitionField := sFormat_fits (by decide)
  have hmd5 : sFormat (md5sumField sub) = md5sumField sub :=
    sFormat_fits (by rw [md5sumField_length]; decide)
  simp [headerBody, headerTexts, hdef, hmd5, calleridBlock, topicBlock, typeBlock]

/-- The writer after a prefix of the buffer has been filled. -/
def HeaderWriter.At (pre rest : Bytes) (total : Nat) : HeaderWriter :=
  ⟨pre ++ rest, pre.length, total⟩

theorem memcpyTo_at (pre : Bytes) {rest src : Bytes} (h : src.length ≤ rest.length) :
    memcpyTo (pre ++ rest) pre.length src = .ok ((pre ++ src) ++ rest.drop src.length) := by
  rw [memcpyTo_ok (by simpa using h)]
  simp [List.drop_append]

theorem putField_ok {pre rest tmp : Bytes} {total : Nat} (last : Bool)
    (h : (lenPrefixed tmp).length ≤ rest.length) :
    putField tmp last (.At pre rest total) =
      .ok ⟨(pre ++ lenPrefixed tmp) ++ rest.drop (lenPrefixed tmp).length,
        if last then pre.length + 4 else (pre ++ lenPrefixed tmp).length,
        total + (tmp.length + 4)⟩ := by
  rw [lenPrefixed_length] at h
  have hlen : (le32 tmp.length).length ≤ rest.length := by simp; omega
  have htmp : tmp.length ≤ (rest.drop 4).length := by simp; omega
  have h₁ := memcpyTo_at pre hlen
  have h₂ := memcpyTo_at (pre ++ le32 tmp.length) htmp
  simp only [List.length_append, le32_length] at h₁ h₂
  simp only [putField, HeaderWriter.At, h₁, h₂, bind, Except.bind, pure, Except.pure]
  simp only [lenPrefixed, List.append_assoc, List.drop_drop, List.length_append, le32_length]
  cases last <;> simp [Nat.add_comm, Nat.add_left_comm]

theorem putField_next {pre rest tmp : Bytes} {total : Nat}
    (h : (lenPrefixed tmp).length ≤ rest.length) :
    putField tmp false (.At pre rest total) =
      .ok (.At (pre ++ lenPrefixed tmp) (rest.drop (lenPrefixed tmp).length)
        (total + (lenPrefixed tmp).length)) := by
  rw [putField_ok false h]
  simp [HeaderWriter.At, lenPrefixed_length, Nat.add_comm]

/-- When everything fits the buffer holds total and body, and the returned size
covers both. -/
theorem genTcpHeaderFor_ok (sub : Topic) {buf : Bytes}
    (h : 4 + (headerBody sub).length ≤ buf.length) :
    genTcpHeaderFor sub buf =
      .ok (le32 (headerBody sub).length ++ headerBody sub ++
        buf.drop (4 + (headerBody sub).length), (headerBody sub).length + 4) := by
  obtain ⟨pre, rest, rfl, hpre⟩ : ∃ pre rest, buf = pre ++ rest ∧ pre.length = 4 :=
    ⟨buf.take 4, buf.drop 4, (List.take_append_drop 4 buf).symm, by simp; omega⟩
  have hbody : headerBody sub = lenPrefixed (sFormat messageDefinitionField) ++
      (lenPrefixed (sFormat (calleridField sub)) ++ (lenPrefixed (sFormat (topicField sub)) ++
        (lenPrefixed (sFormat (md5sumField sub)) ++ lenPrefixed (sFormat (typeField sub))))) := by
    simp [headerBody, headerTexts]
  rw [hbody] at h ⊢
  simp only [List.length_append, hpre] at h
  have hstart : (⟨pre ++ rest, 4, 0⟩ : HeaderWriter) = .At pre rest 0 := by
    simp [HeaderWriter.At, hpre]
  simp only [genTcpHeaderFor, hstart, bind, Except.bind]
  rw [putField_next (by omega)]
  simp only
  rw [putField_next (by simp; omega)]
  simp only
  rw [putField_next (by simp; omega)]
  simp only
  rw [putField_next (by simp; omega)]
  simp only
  rw [putField_ok true (by simp; omega)]
  simp only [pure, Except.pure, List.append_assoc]
  rw [memcpyTo_ok (by simp; omega)]
  simp only [List.drop_left' hpre, List.length_append, le32_length, lenPrefixed_length,
    List.drop_drop, List.take_zero, List.nil_append, Nat.zero_add]
  have hlen : ∀ n, List.drop (4 + n) (pre ++ rest) = rest.drop n := by
    intro n
    rw [← hpre, List.drop_append]
    simp
  simp only [hlen, Except.ok.injEq, Prod.mk.injEq]
  refine ⟨?_, by omega⟩
  congr 2
  · omega
  · simp only [List.append_cancel_left_eq]
    congr 1
    omega

theorem memcpyTo_eq_ok {buf src out : Bytes} {off : Nat} (h : memcpyTo buf off src = .ok out) :
    off + src.length ≤ buf.length ∧ out.length = buf.length := by
  unfold memcpyTo at h
  split at h
  · rename_i hfit
    cases h
    refine ⟨hfit, ?_⟩
    simp
    omega
  · cases h

theorem putField_fits {tmp : Bytes} {last : Bool} {w w' : HeaderWriter}
    (h : putField tmp last w = .ok w') :
    w.ptr + (4 + tmp.length) ≤ w.buf.length ∧ w'.buf.length = w.buf.length ∧
      w'.ptr = if last then w.ptr + 4 else w.ptr + (4 + tmp.length) := by
  unfold putField at h
  obtain ⟨buf₁, h₁, h⟩ := bind_eq_ok.mp h
  obtain ⟨buf₂, h₂, h⟩ := bind_eq_ok.mp h
  cases h
  have hlen₁ := memcpyTo_eq_ok h₁
  have hlen₂ := memcpyTo_eq_ok h₂
  refine ⟨by omega, hlen₂.2.trans hlen₁.2, ?_⟩
  cases last <;> simp [Nat.add_assoc]

theorem genTcpHeaderFor_fits {sub : Topic} {buf : Bytes} {r : Bytes × Nat}
    (h : genTcpHeaderFor sub buf = .ok r) : 4 + (headerBody sub).length ≤ buf.length := by
  unfold genTcpHeaderFor at h
  obtain ⟨w₁, h₁, h⟩ := bind_eq_ok.mp h
  obtain ⟨w₂, h₂, h⟩ := bind_eq_ok.mp h
  obtain ⟨w₃, h₃, h⟩ := bind_eq_ok.mp h
  obtain ⟨w₄, h₄, h⟩ := bind_eq_ok.mp h
  obtain ⟨w₅, h₅, h⟩ := bind_eq_ok.mp h
  have f₁ := putField_fits h₁
  have f₂ := putField_fits h₂
  have f₃ := putField_fits h₃
  have f₄ := putField_fits h₄
  have f₅ := putField_fits h₅
  simp only [Bool.false_eq_true, if_false] at f₁ f₂ f₃ f₄
  simp only [headerBody, headerTexts, List.map_cons, List.map_nil, List.flatten_cons,
    List.flatten_nil, List.length_append, List.length_nil, lenPrefixed_length]
  omega

end STRos
