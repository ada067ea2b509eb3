import RubyBinding.Shell.Numeral
import RubyBinding.Shell.Tool.Basic

/-!
# Parts of files and counts

`head` and `tail` show the beginning and the end of files, in lines or in bytes, and `wc` counts lines,
words and bytes.
-/

namespace RubyBinding.Shell.Tool

/-- The lines of a text, each with its end. -/
def linesOf : List Char → List (List Char)
  | [] => []
  | '\n' :: cs => ['\n'] :: linesOf cs
  | c :: cs =>
    match linesOf cs with
    | [] => [[c]]
    | line :: others => (c :: line) :: others

/-- Which part of a list is shown. -/
inductive Share where
  | first (n : Nat)
  | last (n : Nat)
  | withoutLast (n : Nat)
  /-- What begins with the item of a number. -/
  | fromItem (n : Nat)
  deriving DecidableEq, Repr

def Share.of {α : Type} (items : List α) : Share → List α
  | first n => items.take n
  | last n => items.drop (items.length - n)
  | withoutLast n => items.take (items.length - n)
  | fromItem n => items.drop (n - 1)

/-- The share that a number asks `head` for. -/
def headShare? (text : String) : Option Share :=
  match text.toList with
  | '-' :: ds => (Numeral.ofDigits? (String.ofList ds)).map .withoutLast
  | '+' :: ds => (Numeral.ofDigits? (String.ofList ds)).map .first
  | _ => (Numeral.ofDigits? text).map .first

/-- The share that a number asks `tail` for. -/
def tailShare? (text : String) : Option Share :=
  match text.toList with
  | '+' :: ds => (Numeral.ofDigits? (String.ofList ds)).map .fromItem
  | '-' :: ds => (Numeral.ofDigits? (String.ofList ds)).map .last
  | _ => (Numeral.ofDigits? text).map .last

variable {m : Type → Type} [Monad m] (call : Call m)

/-- Show parts of files. -/
def excerpt (share? : String → Option Share) : Run m Nat := do
  let arguments := match call.arguments with
    | a :: rest =>
      match a.toList with
      | '-' :: ds =>
        if (Numeral.ofDigits? (String.ofList ds)).isSome then "-n" :: String.ofList ds :: rest
        else a :: rest
      | _ => a :: rest
    | [] => []
  withOptions { call with arguments }
    [⟨some 'n', some "lines", true⟩, ⟨some 'c', some "bytes", true⟩,
      ⟨some 'q', some "quiet", false⟩, ⟨some 'v', some "verbose", false⟩] fun given => do
    let size := given.options.reverse.find? fun o => o.1 == "lines" || o.1 == "bytes"
    let (unit, number) := size.getD ("lines", "10")
    match share? number with
    | none => report call ("invalid number of " ++ unit ++ ": '" ++ number ++ "'")
    | some share =>
      let files := if given.operands.isEmpty then ["-"] else given.operands
      let isNamed := (files.length > 1 || given.has "verbose") && !given.has "quiet"
      let (status, _) ← files.foldlM (fun ((status, isFirst) : Nat × Bool) file => do
        match ← contents call file with
        | .error "Is a directory" =>
          return (← report call ("error reading '" ++ file ++ "': Is a directory"), isFirst)
        | .error why =>
          return (← report call ("cannot open '" ++ file ++ "' for reading: " ++ why), isFirst)
        | .ok text =>
          let title := if file == "-" then "standard input" else file
          let heading :=
            if isNamed then (if isFirst then "" else "\n") ++ "==> " ++ title ++ " <==\n" else ""
          let part :=
            if unit == "bytes" then share.of text else (share.of (linesOf text)).flatten
          return (max status (← print call (heading ++ String.ofList part)), false)) (0, true)
      return status

def head : Run m Nat := excerpt call headShare?

def tail : Run m Nat := excerpt call tailShare?

/-- How many lines, words and bytes a text has. -/
def counts (text : List Char) : List Nat :=
  let words := text.foldl (fun ((n, isInside) : Nat × Bool) c =>
    if Numeral.isBlank c then (n, false) else (if isInside then n else n + 1, true)) (0, false)
  [text.count '\n', words.1, text.length]

/-- Count lines, words and bytes. -/
def wordCount : Run m Nat :=
  withOptions call
    [⟨some 'l', some "lines", false⟩, ⟨some 'w', some "words", false⟩,
      ⟨some 'c', some "bytes", false⟩] fun given => do
    let asked := ["lines", "words", "bytes"].map given.has
    let chosen := fun (ns : List Nat) =>
      if given.options.isEmpty then ns else ((ns.zip asked).filter Prod.snd).map Prod.fst
    let files := if given.operands.isEmpty then ["-"] else given.operands
    let found ← files.mapM fun file => do
      let isRegular := match ← Run.stream? 0 with
        | some (.file _ _ _) => true
        | _ => file != "-"
      return (file, isRegular, ← contents call file)
    let read := found.filterMap fun (_, _, text) => text.toOption
    let total := read.flatten.length
    let width :=
      if files.length ≤ 1 && (chosen [0, 0, 0]).length = 1 then 1
      else if found.any fun f => !f.2.1 || !f.2.2.toBool then 7
      else (toString total).length
    let row := fun (ns : List Nat) (name : String) =>
      let columns := (chosen ns).map fun n =>
        let ds := toString n
        String.ofList (List.replicate (width - ds.length) ' ') ++ ds
      String.intercalate " " (columns ++ if name.isEmpty then [] else [name]) ++ "\n"
    let status ← found.foldlM (fun status (file, _, text) => do
      match text with
      | .error why => report call (Quote.name file ++ ": " ++ why)
      | .ok cs =>
        let name := if given.operands.isEmpty then "" else file
        return max status (← print call (row (counts cs) name))) 0
    if files.length > 1 then
      let sums := (read.map counts).foldl (fun a b => List.zipWith (· + ·) a b) [0, 0, 0]
      return max status (← print call (row sums "total"))
    return status

end RubyBinding.Shell.Tool
