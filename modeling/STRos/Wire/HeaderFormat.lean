import STRos.Wire.Buffers

/-! # The connection header as a sequence of fields

The format is a 32-bit total and as many bytes of fields, each a 32-bit length
and a text. A reference parser of fields reads back what the writer was given.
-/

namespace STRos

open CString

/-- The texts of a sequence of length-prefixed fields that ends with the bytes. -/
def readFields : Bytes → Option (List Bytes)
  | [] => some []
  | b₀ :: b₁ :: b₂ :: b₃ :: rest =>
      let size := readLe32 [b₀, b₁, b₂, b₃]
      if size ≤ rest.length then
        (readFields (rest.drop size)).map fun texts => rest.take size :: texts
      else none
  | _ => none
  termination_by bytes => bytes.length
  decreasing_by
    simp only [List.length_drop, List.length_cons]
    omega

theorem readFields_lenPrefixed {t : Bytes} (ht : t.length < 4294967296) (rest : Bytes) :
    readFields (lenPrefixed t ++ rest) = (readFields rest).map fun texts => t :: texts := by
  have hsize : readLe32 (le32 t.length) = t.length := readLe32_le32 ht
  simp only [le32] at hsize
  simp only [lenPrefixed, le32, List.cons_append, List.nil_append]
  rw [readFields]
  simp only [hsize, List.length_append, Nat.le_add_right, if_true, List.drop_left, List.take_left]

/-- Fields that follow each other are read back in order, and nothing is left over. -/
theorem readFields_flatten {texts : List Bytes} (h : ∀ t ∈ texts, t.length < 4294967296) :
    readFields (texts.map lenPrefixed).flatten = some texts := by
  induction texts with
  | nil => rw [List.map_nil, List.flatten_nil, readFields]
  | cons t texts ih =>
      rw [List.map_cons, List.flatten_cons, readFields_lenPrefixed (h t (by simp)),
        ih fun t ht => h t (by simp [ht])]
      rfl

/-- A header that fits is a total, as many bytes of fields and, behind the
returned size, what the buffer held before. -/
theorem genTcpHeaderFor_wellFormed (sub : Topic) (buf : Bytes) (hbuf : buf.length = maxBuff)
    (hfits : NamesFit sub) :
    ∃ body, genTcpHeaderFor sub buf =
        .ok (le32 body.length ++ body ++ buf.drop (body.length + 4), body.length + 4) ∧
      (le32 body.length ++ body).length = body.length + 4 ∧
      readLe32 (le32 body.length ++ body) = body.length ∧
      readFields body =
        some [str "message_definition=stros node", str "callerid=" ++ sub.callerid,
          str "topic=" ++ sub.topic, str "md5sum=" ++ md5sumOf sub.type,
          str "type=" ++ sub.type] := by
  have hlen := headerBody_length sub
  have hmax : maxBuff = 1024 := rfl
  have hlen₁ := calleridField_length sub
  have hlen₂ := topicField_length sub
  have hlen₃ := typeField_length sub
  unfold NamesFit at hfits
  have hcallerid : sFormat (calleridField sub) = calleridField sub := sFormat_fits (by omega)
  have htopic : sFormat (topicField sub) = topicField sub := sFormat_fits (by omega)
  have htype : sFormat (typeField sub) = typeField sub := sFormat_fits (by omega)
  have hmd5 : sFormat (md5sumField sub) = md5sumField sub :=
    sFormat_fits (by rw [md5sumField_length]; decide)
  have hdef : sFormat messageDefinitionField = messageDefinitionField := sFormat_fits (by decide)
  rw [hcallerid, htopic, htype] at hlen
  have hbody : ∀ t ∈ headerTexts sub, t.length < 4294967296 := by
    intro t ht
    have hmem : (lenPrefixed t).length ≤ (headerBody sub).length :=
      (List.sublist_flatten_of_mem (List.mem_map_of_mem ht)).length_le
    rw [lenPrefixed_length] at hmem
    omega
  refine ⟨headerBody sub, ?_, ?_, ?_, ?_⟩
  · rw [genTcpHeaderFor_ok sub (by omega), Nat.add_comm 4]
  · rw [List.length_append, le32_length, Nat.add_comm]
  · exact readLe32_append _ (by omega) _
  · have htexts : headerTexts sub = [messageDefinitionField, calleridField sub, topicField sub,
        md5sumField sub, typeField sub] := by
      simp only [headerTexts, List.map_cons, List.map_nil, hcallerid, htopic, htype, hmd5, hdef]
    exact (readFields_flatten hbody).trans (congrArg some htexts)

theorem genTcpHeaderFor_wellFormed_talker :
    ∃ body, genTcpHeaderFor ⟨str "/talker", str "/chatter", str "std_msgs/String", none, 0, .down⟩
        (List.replicate maxBuff 0) =
      .ok (le32 body.length ++ body ++ (List.replicate maxBuff 0).drop (body.length + 4),
        body.length + 4) ∧
      (readFields body).map List.length = some 5 := by
  obtain ⟨body, hgen, -, -, hread⟩ := genTcpHeaderFor_wellFormed
    ⟨str "/talker", str "/chatter", str "std_msgs/String", none, 0, .down⟩
    (List.replicate maxBuff 0) List.length_replicate (by unfold NamesFit; decide)
  exact ⟨body, hgen, by rw [hread]; rfl⟩

end STRos
