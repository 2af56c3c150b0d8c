import CigaretteSmokers.Settings
import CigaretteSmokers.Toml.Document
import CigaretteSmokers.Toml.Text.Printer

/-!
Settings as a TOML document. Fields that a document leaves out keep their defaults, and fields
that are not known are passed over. Fields are read in the order of the document, so the first bad
one decides.
-/

namespace CigaretteSmokers

open Toml (Value Entries)

namespace Settings

variable {α : Type}

/-- How a value of a document changes one field. -/
abbrev Setter (α : Type) := Value → α → Except DocumentFlaw α

def orMalformed (f : Value → Option (α → α)) : Setter α := fun v a =>
  match f v with
  | some g => .ok (g a)
  | none => .error .malformed

/-- Fields by name, each with its setter. -/
abbrev Fields (α : Type) := List (String × Setter α)

def setEntries (fields : Fields α) : Entries → α → Except DocumentFlaw α
  | [], a => .ok a
  | (k, v) :: rest, a => do
      match fields.lookup k with
      | some set => setEntries fields rest (← set v a)
      | none => setEntries fields rest a

/-- A list gives fields by position, as far as it goes. -/
def setItems : Fields α → List Value → α → Except DocumentFlaw α
  | (_, set) :: fields, v :: rest, a => do setItems fields rest (← set v a)
  | _, _, a => .ok a

/-- A value that stands for a record. A date has none of its fields. -/
def setRecord (fields : Fields α) (v : Value) (a : α) : Except DocumentFlaw α :=
  match v with
  | .table _ entries => setEntries fields entries a
  | .moment => .ok a
  | v => match v.items? with
    | some items => setItems fields items a
    | none => .error .malformed

def natural? : Value → Option UInt64
  | .integer n => if 0 ≤ n.toInt then some (UInt64.ofNat n.toInt.toNat) else none
  | _ => none

/-- A float, also where the document has an integer. -/
def float? : Value → Option Binary64
  | .float x => some x
  | .integer n => Decimal.nearest? (n.toInt < 0) ⟨n.toInt.natAbs, 0⟩
  | _ => none

def text? : Value → Option String
  | .text s => some s
  | _ => none

def setKey : Setter Settings := fun v s =>
  match v with
  | .integer n =>
      if 0 ≤ n.toInt ∧ n.toInt < UInt32.size then .ok { s with key := ⟨UInt32.ofNat n.toInt.toNat⟩ }
      else .error .malformed
  | .text t => match AccessKey.parse? t with
    | some key => .ok { s with key }
    | none => .error (.badKey t)
  | _ => .error .malformed

def unit? (v : Value) : Option TimeUnit :=
  v.choice?.bind fun name => TimeUnit.all.find? (·.name = name)

def format? (v : Value) : Option LogFormat :=
  v.choice?.bind fun name => LogFormat.all.find? (·.name = name)

def delayFields : Fields DelayModel :=
  [("base", orMalformed fun v => (float? v).map fun base d => { d with base }),
   ("stddev", orMalformed fun v => (float? v).map fun stddev d => { d with stddev }),
   ("unit", orMalformed fun v => (unit? v).map fun unit d => { d with unit })]

def logFields : Fields LogSettings :=
  [("path", orMalformed fun v => (text? v).map fun path l => { l with path }),
   ("format", orMalformed fun v => (format? v).map fun format l => { l with format })]

def fields : Fields Settings :=
  [("key", setKey),
   ("cigarettes", orMalformed fun v => (natural? v).map fun cigarettes s => { s with cigarettes }),
   ("seed", orMalformed fun v => (natural? v).map fun seed s => { s with seed := some seed }),
   ("delay", fun v s => do return { s with delay := ← setRecord delayFields v {} }),
   ("log", fun v s => do return { s with log := ← setRecord logFields v {} })]

def ofDocument (text : String) : Except DocumentFlaw Settings :=
  match Toml.parse? text with
  | some entries => setEntries fields entries {}
  | none => .error .malformed

def entry (key : String) (value : List Char) : List Char :=
  key.toList ++ [' ', '=', ' '] ++ value ++ ['\n']

/-- An integer of a document, which has 63 bits and a sign. -/
def naturalText (n : UInt64) : Except SettingsError (List Char) :=
  if (Checked.signed n.toNat).isSome then .ok (Nat.toDigits 10 n.toNat) else .error .unwritable

def floatText (x : Binary64) : List Char := (x.render Toml.floatStyle).toList

def toChars (s : Settings) : Except SettingsError (List Char) := do
  let cigarettes ← naturalText s.cigarettes
  let seed ← match s.seed with
    | some seed => do pure (entry "seed" (← naturalText seed))
    | none => pure []
  return entry "key" (Toml.quote s.key.render.toList) ++
    entry "cigarettes" cigarettes ++ seed ++
    "\n[delay]\n".toList ++
    entry "base" (floatText s.delay.base) ++
    entry "stddev" (floatText s.delay.stddev) ++
    entry "unit" (Toml.quote s.delay.unit.name.toList) ++
    "\n[log]\n".toList ++
    entry "path" (Toml.quote s.log.path.toList) ++
    entry "format" (Toml.quote s.log.format.name.toList)

/-- The settings in a file, if they make sense. -/
def load (path : String) (content : Except FileError String) : Except SettingsError Settings := do
  let text ← content.mapError (.unreadable path)
  let s ← (ofDocument text).mapError (.unparsable path)
  s.validate
  return s

def toDocument (s : Settings) : Except SettingsError String := s.toChars.map String.ofList

end Settings

end CigaretteSmokers
