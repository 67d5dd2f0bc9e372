import STRos.Lib.Decimal

/-! # HTTP responses

A response is a status line, header lines, an empty line and a body. A header line
may state the length of the body, and the body has this length then.
-/

namespace Http

open CString

def newline : Bytes := [13, 10]

/-- The characters of a header's name: printable ones, but no separators. -/
def isNameChar (b : Byte) : Bool :=
  33 ≤ b.toNat && b.toNat ≤ 126 &&
    !([34, 40, 41, 44, 47, 58, 59, 60, 61, 62, 63, 64, 91, 92, 93, 123, 125] : Bytes).contains b

def isLineText (s : Bytes) : Bool := s.all fun b => b ≠ 0 && b ≠ 10 && b ≠ 13

/-- `HTTP/1.0 200 OK`; there may be more spaces between the version and the code. -/
structure StatusLine where
  major : Byte
  minor : Byte
  gap : Nat
  code : Bytes
  reason : Bytes
  isVersion : isDigit major = true ∧ isDigit minor = true
  isCode : code.length = 3 ∧ code.all isDigit = true
  isReason : isLineText reason = true

def StatusLine.render (l : StatusLine) : Bytes :=
  str "HTTP/" ++ [l.major, 46, l.minor] ++ List.replicate (l.gap + 1) 32 ++ l.code ++ 32 :: l.reason

structure Field where
  name : Bytes
  value : Bytes
  isName : name ≠ [] ∧ name.all isNameChar = true
  isValue : isLineText value = true

def Field.render (f : Field) : Bytes := f.name ++ 58 :: f.value ++ newline

/-- The value of a length is its digits, after spaces. -/
def Field.states (f : Field) (n : Nat) : Prop := f.value.dropWhile (· = 32) = decimalNat n

structure Response where
  status : StatusLine
  fields : List Field
  body : Bytes
  statesLength : ∀ f ∈ fields, f.name = str "Content-Length" → f.states body.length

def Response.render (r : Response) : Bytes :=
  r.status.render ++ newline ++ r.fields.flatMap Field.render ++ newline ++ r.body

/-- The bytes are those of one response and nothing besides. -/
def IsResponse (wire : Bytes) : Prop := ∃ r : Response, r.render = wire

/-! ## The beginning of a response -/

theorem StatusLine.not_mem_render (l : StatusLine) : 13 ∉ l.render := by
  have hdigit : ∀ b, isDigit b = true → b ≠ 13 := by
    rintro b hb rfl
    cases hb
  intro hmem
  simp only [StatusLine.render, List.append_assoc, List.mem_append, List.mem_cons,
    List.mem_replicate, List.not_mem_nil, or_false] at hmem
  rcases hmem with hmem | (hmem | hmem | hmem) | ⟨-, hmem⟩ | hmem | hmem | hmem
  · revert hmem
    decide
  · exact hdigit _ l.isVersion.1 hmem.symm
  · cases hmem
  · exact hdigit _ l.isVersion.2 hmem.symm
  · cases hmem
  · exact hdigit 13 (List.all_eq_true.mp l.isCode.2 13 hmem) rfl
  · cases hmem
  · have := List.all_eq_true.mp l.isReason 13 hmem
    cases this

/-- Behind the status line there is the name of a header or the empty line. -/
theorem Response.head_behind_status (r : Response) {line rest : Bytes} (hline : 13 ∉ line)
    (h : r.render = line ++ newline ++ rest) :
    ∃ b ∈ rest.head?, b = 13 ∨ isNameChar b = true := by
  have hrender : r.render = r.status.render ++
      13 :: 10 :: (r.fields.flatMap Field.render ++ newline ++ r.body) := by
    simp [Response.render, newline]
  have hlines : line ++ newline ++ rest = line ++ 13 :: 10 :: rest := by
    simp [newline]
  rw [hrender, hlines] at h
  have hrest : r.fields.flatMap Field.render ++ newline ++ r.body = rest := by
    rcases cut_cases hline h with ⟨-, hrest⟩ | ⟨status, hstatus, -⟩
    · exact (List.cons.inj hrest).2
    · exact absurd (by simp [hstatus]) r.status.not_mem_render
  subst hrest
  cases r.fields with
  | nil => exact ⟨13, rfl, Or.inl rfl⟩
  | cons f fields =>
      obtain ⟨b, name, hname⟩ := List.exists_cons_of_ne_nil f.isName.1
      have hall := f.isName.2
      rw [hname, List.all_cons, Bool.and_eq_true] at hall
      exact ⟨b, by simp [Field.render, hname], Or.inr hall.1⟩

theorem not_isResponse_nil : ¬ IsResponse [] := by
  rintro ⟨r, hr⟩
  have := congrArg List.length hr
  simp [Response.render, newline] at this

end Http
