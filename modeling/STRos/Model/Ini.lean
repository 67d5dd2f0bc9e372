import STRos.Lib.Lines
import STRos.Model.Deploy

/-! # The configuration file

`ini_parse` and the handler that `stros_load_config` gives it. Lines are cut off
at `INI_MAX_LINE`: what does not fit is read as a line of its own.
-/

namespace STRos

open CString

def iniMaxLine : Nat := 200
def maxSection : Nat := 50
def maxName : Nat := 50

/-! ## Scanning a line -/

/-- The loop of `find_char_or_comment`: the text in front of the place where it stops, and
the text from there. -/
def findFrom (c : Byte) : Bool → Bytes → Bytes × Bytes
  | _, [] => ([], [])
  | wasWhitespace, b :: s =>
      if b ≠ c ∧ ¬ (wasWhitespace = true ∧ b = ch ';') then
        (b :: (findFrom c (isSpace b) s).1, (findFrom c (isSpace b) s).2)
      else ([], b :: s)

def findCharOrComment (s : Bytes) (c : Byte) : Bytes × Bytes := findFrom c false s

/-- What `dest` holds afterwards as a string. -/
def strncpy0 (src : Bytes) (size : Nat) : Bytes := src.take (size - 1)

/-! ## ini_parse_file -/

/-- What the function does to the data of the user, and whether it returns nonzero. -/
abbrev IniHandler (σ : Type) := σ → ConfigEntry → σ × Bool

/-- The variables that live through the loop. The counter wraps here, which in C it may not. -/
structure IniState (σ : Type) where
  «section» : Bytes
  prevName : Bytes
  lineno : Int32
  error : Int32
  user : σ

variable {σ : Type}

/-- `if (!error) error = lineno;` -/
def IniState.fail (st : IniState σ) : IniState σ :=
  { st with error := if st.error = 0 then st.lineno else st.error }

/-- `if (!handler(user, section, name, value) && !error) error = lineno;` -/
def IniState.call (handler : IniHandler σ) (st : IniState σ) (name value : Bytes) : IniState σ :=
  let result := handler st.user ⟨st.section, name, value⟩
  let st := { st with user := result.1 }
  if result.2 then st else st.fail

def bom : Bytes := [0xEF, 0xBB, 0xBF]

def iniEntry (handler : IniHandler σ) (st : IniState σ) (start : Bytes) : IniState σ :=
  let byEquals := findCharOrComment start (ch '=')
  let found :=
    if byEquals.2.head? ≠ some (ch '=') then findCharOrComment start (ch ':') else byEquals
  if found.2.head? = some (ch '=') ∨ found.2.head? = some (ch ':') then
    let name := rstrip found.1
    let value := rstrip (findCharOrComment (lskip found.2.tail) 0).1
    { st with prevName := strncpy0 name maxName }.call handler name value
  else st.fail

/-- The body of the loop, from where `start` points to the first byte that is no white
space; `moved` is `start > line`. -/
def iniStart (handler : IniHandler σ) (st : IniState σ) (moved : Prop) [Decidable moved]
    (start : Bytes) : IniState σ :=
  if start.head? = some (ch ';') ∨ start.head? = some (ch '#') then st
  else if st.prevName ≠ [] ∧ start ≠ [] ∧ moved then st.call handler st.prevName start
  else if start.head? = some (ch '[') then
    let found := findCharOrComment start.tail (ch ']')
    if found.2.head? = some (ch ']') then
      { st with «section» := strncpy0 found.1 maxSection, prevName := [] }
    else st.fail
  else if start ≠ [] ∧ start.head? ≠ some (ch ';') then iniEntry handler st start
  else st

/-- The body of the loop; `line` is what `fgets` left in the buffer. -/
def iniLine (handler : IniHandler σ) (st : IniState σ) (line : Bytes) : IniState σ :=
  let st := { st with lineno := st.lineno + 1 }
  let line := cstr line
  if st.lineno = 1 ∧ bom <+: line then
    iniStart handler st True (lskip (rstrip (line.drop 3)))
  else
    iniStart handler st (lskip (rstrip line) ≠ rstrip line) (lskip (rstrip line))

def iniLines (handler : IniHandler σ) (st : IniState σ) (lines : List Bytes) : IniState σ :=
  lines.foldl (iniLine handler) st

/-- The result, and what the calls of the handler made of the data. -/
def iniParseFile (handler : IniHandler σ) (user : σ) (file : Bytes) : Int32 × σ :=
  let st := iniLines handler ⟨[], [], 0, 0, user⟩ (fileLines (iniMaxLine - 2) file)
  (st.error, st.user)

/-- `file` is what the file holds, nothing when it cannot be opened. -/
def iniParse (handler : IniHandler σ) (user : σ) : Option Bytes → Int32 × σ
  | none => (-1, user)
  | some file => iniParseFile handler user file

/-! ## stros_load_config -/

/-- Whether `stros_config_handler` returns 1. -/
def configKnown (entry : ConfigEntry) : Bool :=
  (entry.section = str "MASTER" ∧ entry.name = str "uri") ∨
    (entry.section = str "MASTER" ∧ entry.name = str "port") ∨
    (entry.section = str "NODE" ∧ entry.name = str "remap")

def configHandler : IniHandler StrosNode :=
  fun node entry => (strosConfigHandler node entry, configKnown entry)

/-- The result of `ini_parse` only chooses between two lines of the log. -/
def strosLoadConfig (node : StrosNode) (file : Option Bytes) : StrosNode :=
  (iniParse configHandler node file).2

/-- `stros_init_node`; `conf` is NULL or names a file, `time` is the clock. -/
def strosInitNodeFrom (name : Bytes) (conf : Option (Option Bytes)) (time : UInt32) : StrosNode :=
  let node :=
    match conf with
    | none => defaultNode name
    | some file => strosLoadConfig (defaultNode name) file
  { node with id := sFormat (node.id ++ str "_" ++ decimal time.toNat) }

end STRos
