import RubyBinding.Toml.Scan
import RubyBinding.Toml.Draft

/-!
# Reading TOML documents

A document is read line by line: a header chooses the table that the following keys belong to.
`read?` gives the members of the document, or nothing if it is no TOML 1.0.
-/

namespace RubyBinding.Toml

namespace Scan

/-! ## Values -/

/-- Items up to a closing bracket, with commas between them and perhaps after the last one. -/
def items (item : Scan Value) : Scan (List Value) := loop (fun done => do
  gap
  if ← accept "]" then return .inr done.reverse
  let v ← item
  gap
  if ← accept "," then return .inl (v :: done)
  expect "]"
  return .inr (v :: done).reverse) []

/-- A key with its value. -/
def member (item : Scan Value) : Scan (List String × Value) := do
  let k ← key
  expect "="
  spaces
  let v ← item
  return (k, v)

/-- Members up to a closing brace, all on one line, with commas between them only. -/
def members (item : Scan Value) : Scan Draft.Members := do
  spaces
  if ← accept "\x7d" then return []
  loop (fun done => do
    let (k, v) ← member item
    spaces
    match Draft.add done k v with
    | none => failure
    | some done =>
      if ← accept "," then return .inl done
      expect "\x7d"
      return .inr done) []

/-- A value in which arrays and inline tables are at most `depth` deep. -/
def value (depth : Nat) : Scan Value := do
  match ← string? with
  | some s => return .string s
  | none =>
    match depth with
    | 0 => scalar
    | depth + 1 =>
      if ← accept "[" then return .array (← items (value depth))
      else if ← accept "\x7b" then return .table (Draft.finishMembers (← members (value depth)))
      else scalar

/-! ## Documents -/

/-- What has been read of a document: its members, and the path of the header above. -/
structure Progress where
  members : Draft.Members := []
  header : List String := []

/-- Apply a header or a key to a document. -/
def orFail (members : Option Draft.Members) : Scan Draft.Members := fun cs => members.map (·, cs)

/-- A header, after its opening bracket or brackets. -/
def headerLine (p : Progress) (isItem : Bool) : Scan Progress := do
  let k ← key
  expect (if isItem then "]]" else "]")
  lineEnd
  match k.getLast? with
  | none => failure
  | some last =>
    let define := if isItem then Draft.defineItem last else Draft.defineTable last
    return ⟨← orFail (Draft.within k.dropLast define p.members), k⟩

/-- One line of a document, or its end. -/
def line (p : Progress) : Scan (Progress ⊕ Progress) := do
  spaces
  match ← peek? with
  | none => return .inr p
  | some '#' | some '\n' | some '\r' =>
    lineEnd
    return .inl p
  | some '[' =>
    if ← accept "[[" then return .inl (← headerLine p true)
    expect "["
    return .inl (← headerLine p false)
  | some _ =>
    let (k, v) ← member (value (depthLimit - 1))
    lineEnd
    let members ← orFail (Draft.within p.header (fun ms => Draft.add ms k v) p.members)
    return .inl { p with members }

/-- The members of a document, after a byte order mark if there is one. -/
def document : Scan Draft.Members := do
  let _ ← accept "\ufeff"
  let p : Progress ← loop line {}
  return p.members

end Scan

/-- The members of a document. -/
def read? (text : String) : Option (List (String × Value)) :=
  match Scan.document text.toList with
  | some (members, _) => some (Draft.finishMembers members)
  | none => none

end RubyBinding.Toml
