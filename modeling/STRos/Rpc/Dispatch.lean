import STRos.Model.Api
import STRos.Rpc.Positions
import Mathlib.Data.List.Nodup

/-! # Dispatch by hash

Three switches compare a hash modulo 1024 and never the name itself. Each of
them tells its own registered names apart, and takes any other string with the
hash of a registered name for that name.
-/

namespace STRos

open CString

/-! ## The elements of parse_rpc_value -/

/-- The cases of the switch; the two integer cases share one body. -/
inductive RpcKind
  | base64
  | boolean
  | double
  | date
  | int
  | string
  | array
  deriving DecidableEq, Repr

def RpcKind.names : RpcKind → List Bytes
  | .base64 => [str "base64"]
  | .boolean => [str "boolean"]
  | .double => [str "double"]
  | .date => [str "dateTime.iso8601"]
  | .int => [str "int", str "i4"]
  | .string => [str "string"]
  | .array => [str "array"]

def RpcKind.decode (kind : RpcKind) (l : RList) (text : Option Bytes) (children : List XMLNode) :
    C RList :=
  match kind with
  | .base64 => do return listPutB64 l (← strdup text)
  | .boolean => do return listPutB l (atoi (← strdup text))
  | .double => do return listPutSpecial l (← strdup text)
  | .date => do return listPutDate l (← strdup text)
  | .int => do return listPutI l (atoi (← strdup text))
  | .string => do return listPutS l (← strdup text)
  | .array =>
      match children with
      | [.mk tag _ children] =>
          if tag ≠ str "data" then .ok l
          else do return listPutArray l (← parseRpcValues listInit children)
      | _ => .ok l

def DecodesAs (tag : Bytes) (kind : RpcKind) : Prop :=
  ∀ l text children rest,
    parseRpcValue l (.mk (str "value") none (.mk tag text children :: rest)) =
      kind.decode l text children

/-- The tag has the hash of a name of the kind. -/
def RpcKind.HashMatches (kind : RpcKind) (tag : Bytes) : Prop :=
  ∃ name ∈ kind.names, hash tag hashSize = hash name hashSize

theorem RpcKind.hashMatches_iff (kind : RpcKind) (tag : Bytes) :
    kind.HashMatches tag ↔
      match kind with
      | .base64 => hash tag hashSize = rpcTypeBase64
      | .boolean => hash tag hashSize = rpcTypeBool
      | .double => hash tag hashSize = rpcTypeDouble
      | .date => hash tag hashSize = rpcTypeDate
      | .int => hash tag hashSize = rpcTypeInt ∨ hash tag hashSize = rpcTypeI4
      | .string => hash tag hashSize = rpcTypeString
      | .array => hash tag hashSize = rpcTypeArray := by
  obtain ⟨hb64, hbool, hdouble, hdate, hint, hi4, hstring, harray⟩ := hash_tags
  cases kind <;>
    simp [RpcKind.HashMatches, RpcKind.names, hb64, hbool, hdouble, hdate, hint, hi4, hstring,
      harray]

theorem decodesAs_of_hashMatches {tag : Bytes} {kind : RpcKind} (h : kind.HashMatches tag) :
    DecodesAs tag kind := by
  intro l text children rest
  rw [parseRpcValue_value, parseRpcTyped.eq_def]
  have hcode := (RpcKind.hashMatches_iff kind tag).mp h
  cases kind
  case int =>
    rcases hcode with hcode | hcode <;>
      simp only [hcode] <;> rfl
  case array =>
    simp only [hcode]
    rcases children with _ | ⟨⟨tag', text', children'⟩, _ | ⟨_, _⟩⟩ <;> rfl
  all_goals
    simp only [hcode]
    rfl

/-- A hash in no case of the switch leaves the list as it is. -/
theorem parseRpcValue_of_no_match {tag : Bytes} (h : ∀ kind : RpcKind, ¬ kind.HashMatches tag)
    (l : RList) (text : Option Bytes) (children rest : List XMLNode) :
    parseRpcValue l (.mk (str "value") none (.mk tag text children :: rest)) = .ok l := by
  simp only [RpcKind.hashMatches_iff] at h
  rw [parseRpcValue_value, parseRpcTyped.eq_def]
  have hb64 := h .base64
  have hbool := h .boolean
  have hdouble := h .double
  have hdate := h .date
  have hint := h .int
  have hstring := h .string
  have harray := h .array
  simp only at hb64 hbool hdouble hdate hint hstring harray
  simp [hb64, hbool, hdouble, hdate, hint, hstring, harray]

def Item.kind : Item → Option RpcKind
  | .nil => none
  | .int _ => some .int
  | .bool _ => some .boolean
  | .string _ => some .string
  | .double _ => some .double
  | .date _ => some .date
  | .base64 _ => some .base64
  | .array _ => some .array

def headKind : C RList → Option RpcKind
  | .ok (it :: _) => it.kind
  | _ => none

/-- An element that every case can decode, and on which no two of them agree. -/
theorem headKind_decode (kind : RpcKind) :
    headKind (kind.decode listInit (some (str "1.5")) [.mk (str "data") none []]) = some kind := by
  cases kind <;> rfl

theorem decodesAs_iff (tag : Bytes) (kind : RpcKind) :
    DecodesAs tag kind ↔ kind.HashMatches tag := by
  refine ⟨fun h => ?_, decodesAs_of_hashMatches⟩
  have hprobe := h listInit (some (str "1.5")) [.mk (str "data") none []] []
  have hkind := headKind_decode kind
  rw [← hprobe] at hkind
  by_cases hmatch : ∃ kind' : RpcKind, kind'.HashMatches tag
  · obtain ⟨kind', hmatch⟩ := hmatch
    rw [decodesAs_of_hashMatches hmatch, headKind_decode] at hkind
    rwa [← Option.some.inj hkind]
  · rw [parseRpcValue_of_no_match (not_exists.mp hmatch)] at hkind
    cases hkind

theorem RpcKind.hashMatches_name {kind kind' : RpcKind} {name : Bytes} (h : name ∈ kind.names) :
    kind'.HashMatches name ↔ kind' = kind := by
  constructor
  · intro hmatch
    have hall : ∀ kind kind' : RpcKind, ∀ name ∈ kind.names, ∀ name' ∈ kind'.names,
        hash name hashSize = hash name' hashSize → kind' = kind := by
      intro kind kind'
      cases kind <;> cases kind' <;> decide
    obtain ⟨name', hname', heq⟩ := hmatch
    exact hall kind kind' name h name' hname' heq
  · rintro rfl
    exact ⟨name, h, rfl⟩

/-! ## The methods of xml_rpc_api_handler -/

def CallsPublisherUpdate (method : Bytes) : Prop :=
  ∀ n params node, xmlRpcApiHandler ⟨some method, n, params⟩ node = do
    let (reply, node) ← publisherUpdate node params
    return (some reply, node)

def CallsRequestTopic (method : Bytes) : Prop :=
  ∀ n params node, xmlRpcApiHandler ⟨some method, n, params⟩ node = do
    let reply ← requestTopic node params n
    return (some reply, node)

theorem hash_methods :
    hash (str "publisherUpdate") hashSize = rqPublisherUpdate ∧
      hash (str "requestTopic") hashSize = rqRequestTopic := by
  decide

/-- Without parameters the two handlers and the default can be told apart. -/
theorem xmlRpcApiHandler_probe (method : Bytes) (node : RosNode) :
    xmlRpcApiHandler ⟨some method, 0, []⟩ node =
      if hash method hashSize = rqPublisherUpdate then .error .nullItem
      else if hash method hashSize = rqRequestTopic then .ok (some .badRequest, node)
      else .ok (none, node) := rfl

theorem callsPublisherUpdate_iff (method : Bytes) :
    CallsPublisherUpdate method ↔
      hash method hashSize = hash (str "publisherUpdate") hashSize := by
  rw [hash_methods.1]
  constructor
  · intro h
    have hprobe := h 0 [] ⟨dict, dict⟩
    rw [xmlRpcApiHandler_probe] at hprobe
    by_contra hne
    rw [if_neg hne] at hprobe
    split at hprobe <;> cases hprobe
  · intro h n params node
    simp only [xmlRpcApiHandler, h, if_true]

theorem callsRequestTopic_iff (method : Bytes) :
    CallsRequestTopic method ↔ hash method hashSize = hash (str "requestTopic") hashSize := by
  rw [hash_methods.2]
  constructor
  · intro h
    have hprobe := h 0 [] ⟨dict, dict⟩
    rw [xmlRpcApiHandler_probe] at hprobe
    by_contra hne
    rw [if_neg hne] at hprobe
    split at hprobe <;> cases hprobe
  · intro h n params node
    have hne : rqRequestTopic ≠ rqPublisherUpdate := by decide
    simp only [xmlRpcApiHandler, h, hne, if_false, if_true]

/-! ## The checksums of md5sum_of -/

theorem msgTypes_code_nodup : (msgTypes.map (·.code)).Nodup := by decide +kernel

theorem msgTypes_md5_nodup : (msgTypes.map fun t => str t.md5).Nodup := by decide +kernel

def stringType : MsgType := ⟨typeString, "std_msgs/String", "992ce8a1687cec8c8bd883ec73ca41d1"⟩

theorem stringType_mem : stringType ∈ msgTypes := by decide

theorem md5sumOf_of_code {type : Bytes} {t : MsgType} (ht : t ∈ msgTypes)
    (h : hash type hashSize = t.code) : md5sumOf type = str t.md5 := by
  unfold md5sumOf
  cases hfind : msgTypes.find? (fun t => t.code = hash type hashSize) with
  | none => exact absurd h.symm (by simpa using List.find?_eq_none.mp hfind t ht)
  | some t' =>
      have hcode : t'.code = hash type hashSize := by simpa using List.find?_some hfind
      rw [List.inj_on_of_nodup_map msgTypes_code_nodup (List.mem_of_find?_eq_some hfind) ht
        (hcode.trans h)]

theorem md5sumOf_default {type : Bytes} (h : ∀ t ∈ msgTypes, hash type hashSize ≠ t.code) :
    md5sumOf type = str stringType.md5 := by
  have hfind : msgTypes.find? (fun t => t.code = hash type hashSize) = none := by
    refine List.find?_eq_none.mpr fun t ht => ?_
    simpa using Ne.symm (h t ht)
  simp only [md5sumOf, hfind]
  rfl

/-- The type has the hash of the name of the row, or the row is the default's
and no row has that hash. -/
def MsgType.HashMatches (t : MsgType) (type : Bytes) : Prop :=
  hash type hashSize = hash (str t.msg) hashSize ∨
    t = stringType ∧ ∀ t' ∈ msgTypes, hash type hashSize ≠ hash (str t'.msg) hashSize

theorem md5sumOf_eq_iff {t : MsgType} (ht : t ∈ msgTypes) (type : Bytes) :
    md5sumOf type = str t.md5 ↔ t.HashMatches type := by
  unfold MsgType.HashMatches
  by_cases hrow : ∃ t' ∈ msgTypes, hash type hashSize = hash (str t'.msg) hashSize
  · obtain ⟨t', ht', heq⟩ := hrow
    rw [md5sumOf_of_code ht' (heq.trans (msgTypes_hash t' ht'))]
    constructor
    · intro hmd5
      rw [← List.inj_on_of_nodup_map msgTypes_md5_nodup ht' ht hmd5]
      exact Or.inl heq
    · rintro (hcode | ⟨-, hnone⟩)
      · have hsame : t'.code = t.code := by
          rw [← msgTypes_hash t' ht', ← msgTypes_hash t ht, ← heq, hcode]
        rw [List.inj_on_of_nodup_map msgTypes_code_nodup ht' ht hsame]
      · exact absurd heq (hnone t' ht')
  · have hnone : ∀ t' ∈ msgTypes, hash type hashSize ≠ hash (str t'.msg) hashSize :=
      fun t' ht' heq => hrow ⟨t', ht', heq⟩
    have hdefault : md5sumOf type = str stringType.md5 := by
      refine md5sumOf_default fun t' ht' => ?_
      rw [← msgTypes_hash t' ht']
      exact hnone t' ht'
    rw [hdefault]
    constructor
    · intro hmd5
      have hstring := List.inj_on_of_nodup_map msgTypes_md5_nodup stringType_mem ht hmd5
      exact Or.inr ⟨hstring.symm, hnone⟩
    · rintro (hcode | ⟨rfl, -⟩)
      · exact absurd hcode (hnone t ht)
      · rfl

theorem MsgType.hashMatches_name {t t' : MsgType} (ht : t ∈ msgTypes) (ht' : t' ∈ msgTypes) :
    t'.HashMatches (str t.msg) ↔ t' = t := by
  constructor
  · rintro (hcode | ⟨-, hnone⟩)
    · rw [msgTypes_hash t ht, msgTypes_hash t' ht'] at hcode
      exact (List.inj_on_of_nodup_map msgTypes_code_nodup ht ht' hcode).symm
    · exact absurd rfl (hnone t ht)
  · rintro rfl
    exact Or.inl rfl

/-! ## Hashes and names -/

/-- Every switch goes by the hash alone, so it sees a registered name as what it
is and any other string as the name it collides with. -/
theorem dispatch_byHash :
    (∀ tag kind, DecodesAs tag kind ↔ kind.HashMatches tag) ∧
      (∀ method, (CallsPublisherUpdate method ↔
            hash method hashSize = hash (str "publisherUpdate") hashSize) ∧
          (CallsRequestTopic method ↔
            hash method hashSize = hash (str "requestTopic") hashSize)) ∧
      (∀ t ∈ msgTypes, ∀ type, md5sumOf type = str t.md5 ↔ t.HashMatches type) ∧
      (∀ kind kind' name, name ∈ kind.names → (DecodesAs name kind' ↔ kind' = kind)) ∧
      (CallsPublisherUpdate (str "publisherUpdate") ∧ ¬ CallsRequestTopic (str "publisherUpdate") ∧
        CallsRequestTopic (str "requestTopic") ∧ ¬ CallsPublisherUpdate (str "requestTopic")) ∧
      ∀ t ∈ msgTypes, ∀ t' ∈ msgTypes, md5sumOf (str t.msg) = str t'.md5 ↔ t' = t := by
  have hne : rqPublisherUpdate ≠ rqRequestTopic := by decide
  refine ⟨decodesAs_iff,
    fun method => ⟨callsPublisherUpdate_iff method, callsRequestTopic_iff method⟩,
    fun t ht type => md5sumOf_eq_iff ht type, ?_, ?_, ?_⟩
  · intro kind kind' name hname
    rw [decodesAs_iff, RpcKind.hashMatches_name hname]
  · simp only [callsPublisherUpdate_iff, callsRequestTopic_iff, hash_methods.1, hash_methods.2]
    exact ⟨trivial, hne, trivial, hne.symm⟩
  · intro t ht t' ht'
    rw [md5sumOf_eq_iff ht', MsgType.hashMatches_name ht ht']

/-- `<ent>` is read as an integer, a call of `rpc` is a publisher update, a call of
`san` is a topic request, and a type nobody registered has the checksum of a string. -/
theorem dispatch_not_byName :
    (¬ ∀ tag kind, DecodesAs tag kind → tag ∈ kind.names) ∧
      (¬ ∀ method, CallsPublisherUpdate method → method = str "publisherUpdate") ∧
      (¬ ∀ method, CallsRequestTopic method → method = str "requestTopic") ∧
      ¬ ∀ t ∈ msgTypes, ∀ type, md5sumOf type = str t.md5 → type = str t.msg := by
  refine ⟨fun h => ?_, fun h => ?_, fun h => ?_, fun h => ?_⟩
  · have hent : DecodesAs (str "ent") .int :=
      (decodesAs_iff _ _).mpr ⟨str "i4", by decide, by decide⟩
    exact absurd (h _ _ hent) (by decide)
  · exact absurd (h (str "rpc") ((callsPublisherUpdate_iff _).mpr (by decide))) (by decide)
  · exact absurd (h (str "san") ((callsRequestTopic_iff _).mpr (by decide))) (by decide)
  · exact absurd (h stringType stringType_mem (str "geometry_msgs/Pose") (by decide)) (by decide)

end STRos
