import STRos.Model.Items

/-! # Topics and the standard message types

`topic_t` is shared by subscribers and publishers. Of its fields `data_ok` and
`data` belong to the sending threads and are modelled with them, and `handler`
is the application's.
-/

namespace STRos

open CString

/-- `TOPIC_DOWN`, `TOPIC_ACTIVE`, `TOPIC_REFRESH`; only the first is false in C. -/
inductive TopicStatus
  | down
  | active
  | refresh
  deriving DecidableEq, Repr

/-- `topic_t`, that is `subscriber` and `publisher`. -/
structure Topic where
  callerid : Bytes
  topic : Bytes
  type : Bytes
  uri : Option Bytes
  port : Int32
  status : TopicStatus
  deriving DecidableEq, Repr

/-- One row of the tables of api.h: `TYPE_*`, `MSG_*` and `ROS_MD5_*`. -/
structure MsgType where
  code : Nat
  msg : String
  md5 : String
  deriving DecidableEq, Repr

def typeString : Nat := 946

def msgTypes : List MsgType := [
  ⟨715, "std_msgs/Bool", "8b94c1b53db61fb6aed406028ad6332a"⟩,
  ⟨233, "std_msgs/Byte", "ad736a2e8818154c487bb80fe42ce43b"⟩,
  ⟨617, "std_msgs/ByteMultiArray", "70ea476cbcfd65ac2f68f3cda1e891fe"⟩,
  ⟨823, "std_msgs/Char", "1bf77f25acecdedba0e224b162199717"⟩,
  ⟨982, "std_msgs/ColorRGBA", "a29a96539573343b1310c73607334b00"⟩,
  ⟨245, "std_msgs/Duration", "3e286caf4241d664e55f3ad380e2ae46"⟩,
  ⟨396, "std_msgs/Empty", "d41d8cd98f00b204e9800998ecf8427e"⟩,
  ⟨570, "std_msgs/Float32", "73fcbf46b49191e672908e50842a83d4"⟩,
  ⟨634, "std_msgs/Float32MultiArray", "6a40e0ffa6a17a503ac3f8616991b1f6"⟩,
  ⟨665, "std_msgs/Float64", "fdb28210bfa9d7c91146260178d9a584"⟩,
  ⟨25, "std_msgs/Float64MultiArray", "4b7d974086d4060e7db4613a7e6c3ba4"⟩,
  ⟨558, "std_msgs/Header", "2176decaecbce78abc3b96ef049fabed"⟩,
  ⟨659, "std_msgs/Int16", "8524586e34fbd7cb1c08c5f5f1ca0e57"⟩,
  ⟨915, "std_msgs/Int16MultiArray", "d9338d7f523fcb692fae9d0a0e9f067c"⟩,
  ⟨717, "std_msgs/Int32", "da5909fbe378aeaf85e547e830cc1bb7"⟩,
  ⟨845, "std_msgs/Int32MultiArray", "1d99f79f8b325b44fee908053e9c945b"⟩,
  ⟨812, "std_msgs/Int64", "34add168574510e6e17f5d23ecc077ef"⟩,
  ⟨236, "std_msgs/Int64MultiArray", "54865aa6c65be0448113a2afc6a49270"⟩,
  ⟨522, "std_msgs/Int8", "27ffa0c9c4b8fb8492252bcad9e5c57b"⟩,
  ⟨586, "std_msgs/Int8MultiArray", "d7c1af35a1b4781bbe79e03dd94b7c13"⟩,
  ⟨677, "std_msgs/MultiArrayDimension", "4cd0c83a8683deae40ecdac60e53bfa8"⟩,
  ⟨587, "std_msgs/MultiArrayLayout", "0fed2a11c13e11c5571b4e2a995a91a3"⟩,
  ⟨946, "std_msgs/String", "992ce8a1687cec8c8bd883ec73ca41d1"⟩,
  ⟨686, "std_msgs/Time", "cd7166c74c552c311fbcc2fe5a7bc289"⟩,
  ⟨640, "std_msgs/UInt16", "1df79edf208b629fe6b81923a544552d"⟩,
  ⟨832, "std_msgs/UInt16MultiArray", "52f264f1c973c4b73790d384c6cb4484"⟩,
  ⟨698, "std_msgs/UInt32", "304a39449588c7f8ce2df6e8001c5fce"⟩,
  ⟨762, "std_msgs/UInt32MultiArray", "4d6a180abc9be191b96a7eda6c8a233d"⟩,
  ⟨793, "std_msgs/UInt64", "1b2a79973e8bf53d7b53acb71299cb57"⟩,
  ⟨153, "std_msgs/UInt64MultiArray", "6088f127afb1d6c72927aa1247e945af"⟩,
  ⟨125, "std_msgs/UInt8", "7c8164229e7d2c17eb95e9231617fdee"⟩,
  ⟨253, "std_msgs/UInt8MultiArray", "82373f1612381bb6ee473b5cd6f5d89c"⟩]

/-- The default of the switch is the checksum of `std_msgs/String`. -/
def rosMd5String : Bytes := str "992ce8a1687cec8c8bd883ec73ca41d1"

/-- The switch over the hash of the type name: one case per row of the table. -/
def md5sumOf (type : Bytes) : Bytes :=
  match msgTypes.find? (fun t => t.code = hash type hashSize) with
  | some t => str t.md5
  | none => rosMd5String

def IsMsgType (type : Bytes) : Prop := ∃ t ∈ msgTypes, type = str t.msg

/-! ## Facts about the tables -/

/-- Every standard name hashes to its own code, so the switch finds its row. -/
theorem msgTypes_hash : ∀ t ∈ msgTypes, hash (str t.msg) hashSize = t.code := by decide +kernel

theorem msgTypes_code_pos : ∀ t ∈ msgTypes, 0 < t.code := by decide +kernel

theorem msgTypes_name : ∀ t ∈ msgTypes,
    1 < (str t.msg).length ∧ (str t.msg).length ≤ 28 ∧ NulFree (str t.msg) ∧
      ch '=' ∉ str t.msg ∧ ch '*' ∉ str t.msg ∧ Wordlike (str t.msg) := by decide +kernel

theorem msgTypes_md5 : ∀ t ∈ msgTypes,
    (str t.md5).length = 32 ∧ NulFree (str t.md5) ∧ ch '=' ∉ str t.md5 ∧
      Wordlike (str t.md5) := by decide +kernel

theorem hash_pos_of_isMsgType {type : Bytes} (h : IsMsgType type) : 0 < hash type hashSize := by
  obtain ⟨t, ht, rfl⟩ := h
  rw [msgTypes_hash t ht]
  exact msgTypes_code_pos t ht

/-- Whatever the type name, the checksum is a word of 32 characters. -/
theorem md5sumOf_word (type : Bytes) :
    (md5sumOf type).length = 32 ∧ NulFree (md5sumOf type) ∧ ch '=' ∉ md5sumOf type ∧
      Wordlike (md5sumOf type) := by
  unfold md5sumOf
  split
  · rename_i t ht
    exact msgTypes_md5 t (List.mem_of_find?_eq_some ht)
  · decide

end STRos
