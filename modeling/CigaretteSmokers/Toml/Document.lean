import CigaretteSmokers.Toml.Entries
import CigaretteSmokers.Toml.Moment
import CigaretteSmokers.Toml.Number

/-!
A document is a sequence of lines: headers, keys with values, and lines without content. A value
may go over several lines. Keys have at most 127 names, and brackets go at most 127 deep.
-/

namespace CigaretteSmokers.Toml

def isBareKey (c : Char) : Bool := c.isAlphanum || c = '_' || c = '-'

/-- One name of a key. -/
def name? : List Char → Option (String × List Char)
  | '"' :: rest => (basic? false false rest).map fun (s, rest) => (String.ofList s, rest)
  | '\'' :: rest => (literal? false rest).map fun (s, rest) => (String.ofList s, rest)
  | text =>
      match text.span isBareKey with
      | ([], _) => none
      | (s, rest) => some (String.ofList s, rest)

/-- Up to so many names with points between them, and the blanks around them. -/
def path? : Nat → List Char → Option (List String × List Char)
  | 0, _ => none
  | n + 1, text => do
      let (k, rest) ← name? (skipBlanks text)
      match skipBlanks rest with
      | '.' :: rest =>
          let (path, rest) ← path? n rest
          return (k :: path, rest)
      | rest => return ([k], rest)

def longestPath : Nat := 127

def deepest : Nat := 127

/-- Skips blanks, line ends and comments; `comment` says that a comment is being skipped. -/
def skipLines (comment : Bool) : List Char → List Char
  | [] => []
  | c :: rest =>
      if comment && isPlain c then skipLines true rest
      else if c = '#' then skipLines true rest
      else if isBlank c || c = '\n' then skipLines false rest
      else if c = '\r' then
        match rest with
        | '\n' :: rest => skipLines false rest
        | _ => c :: rest
      else c :: rest

/-- A value that is neither a list nor a table. -/
def scalarValue? : List Char → Option (Value × List Char)
  | 't' :: 'r' :: 'u' :: 'e' :: rest => some (.boolean true, rest)
  | 'f' :: 'a' :: 'l' :: 's' :: 'e' :: rest => some (.boolean false, rest)
  | text =>
      match text? text with
      | some (s, rest) => some (.text s, rest)
      | none =>
          match Moment.skip? text with
          | some rest => some (.moment, rest)
          | none => numeral? text

mutual

/-- The value that a text begins with. The first number bounds the depth of the calls, the second
is how deep brackets may still go. -/
def value? : Nat → Nat → List Char → Option (Value × List Char)
  | 0, _, _ => none
  | _ + 1, 0, text => scalarValue? text
  | fuel + 1, depth + 1, text =>
      match text with
      | '[' :: rest => (items? fuel depth rest).map fun (vs, rest) => (.array vs, rest)
      | '\x7b' :: rest => do
          let (pairs, rest) ← match skipBlanks rest with
            | '\x7d' :: rest => some ([], rest)
            | rest => pairs? fuel depth rest
          return (.table .braces (← Entries.ofPairs? pairs), rest)
      | text => scalarValue? text

/-- The values up to the end of a list. A comma may come last. -/
def items? : Nat → Nat → List Char → Option (List Value × List Char)
  | 0, _, _ => none
  | fuel + 1, depth, text =>
      match skipLines false text with
      | ']' :: rest => some ([], rest)
      | text => do
          let (v, rest) ← value? fuel depth text
          match skipLines false rest with
          | ']' :: rest => return ([v], rest)
          | ',' :: rest =>
              let (vs, rest) ← items? fuel depth rest
              return (v :: vs, rest)
          | _ => none

/-- The keys and values up to a closing brace, on one line. -/
def pairs? : Nat → Nat → List Char → Option (List (List String × Value) × List Char)
  | 0, _, _ => none
  | fuel + 1, depth, text => do
      let (path, rest) ← path? longestPath text
      match rest with
      | '=' :: rest =>
          let (v, rest) ← value? fuel depth (skipBlanks rest)
          match skipBlanks rest with
          | '\x7d' :: rest => return ([(path, v)], rest)
          | ',' :: rest =>
              let (pairs, rest) ← pairs? fuel depth rest
              return ((path, v) :: pairs, rest)
          | _ => none
      | _ => none

end

inductive Line
  | entry (path : List String) (v : Value)
  | header (path : List String)
  | itemHeader (path : List String)

/-- What follows the end of a line. Blanks and a comment may come before it. -/
def lineEnd? (text : List Char) : Option (List Char) :=
  let text := match skipBlanks text with
    | '#' :: rest => rest.dropWhile isPlain
    | rest => rest
  match text with
  | [] => some []
  | '\n' :: rest | '\r' :: '\n' :: rest => some rest
  | _ => none

/-- The content of a line. Every two calls for a value get at least one character further. -/
def line? (text : List Char) : Option (Line × List Char) :=
  match skipBlanks text with
  | '[' :: '[' :: rest => do
      match ← path? longestPath rest with
      | (path, ']' :: ']' :: rest) => return (.itemHeader path, rest)
      | _ => none
  | '[' :: rest => do
      match ← path? longestPath rest with
      | (path, ']' :: rest) => return (.header path, rest)
      | _ => none
  | text => do
      match ← path? longestPath text with
      | (path, '=' :: rest) =>
          let (v, rest) ← value? (2 * rest.length + 2) deepest (skipBlanks rest)
          return (.entry path v, rest)
      | _ => none

/-- The lines of a text that have content. Every line takes at least one character. -/
def lines? : Nat → List Char → Option (List Line)
  | _, [] => some []
  | 0, _ => none
  | fuel + 1, text =>
      match lineEnd? text with
      | some rest => lines? fuel rest
      | none => do
          let (line, rest) ← line? text
          return line :: (← lines? fuel (← lineEnd? rest))

/-- A document so far: the header that the next line stands under, and the entries. -/
structure Draft where
  under : List String := []
  entries : Entries := []

def Draft.addLine (d : Draft) : Line → Option Draft
  | .entry path v => do
      return { d with entries := ← d.entries.within (Entries.assign true path v) d.under }
  | .header path => do
      let k ← path.getLast?
      return ⟨path, ← d.entries.within (Entries.openTable k) path.dropLast⟩
  | .itemHeader path => do
      let k ← path.getLast?
      return ⟨path, ← d.entries.within (Entries.openItem k) path.dropLast⟩

def ofLines? (lines : List Line) : Option Entries :=
  (lines.foldlM Draft.addLine {}).map Draft.entries

def skipMark : List Char → List Char
  | '\ufeff' :: text => text
  | text => text

/-- The entries of a document. A byte order mark may come before it. -/
def ofChars? (text : List Char) : Option Entries := do
  let text := skipMark text
  ofLines? (← lines? text.length text)

def parse? (text : String) : Option Entries := ofChars? text.toList

end CigaretteSmokers.Toml
