import CigaretteSmokers.CommandLine
import CigaretteSmokers.Checked

/-!
Reading a command line. A parameter takes the next word as its value, or what follows an equals
sign. A value that is a word of its own is looked into only when the next parameter, switch or the
end comes, so an argument that is not known is found before a bad value that stands before it.
-/

namespace CigaretteSmokers.CommandLine

inductive Parameter
  | errorLog
  | config
  | key
  | log
  | cigarettes
  | seed
  | format
  deriving DecidableEq

inductive Switch
  | help
  | version
  | failOnViolation
  deriving DecidableEq

inductive Item
  | parameter (p : Parameter)
  | switch (s : Switch)
  deriving DecidableEq

/-- The part of a command line before the command, and the parts of the commands. -/
inductive Scope
  | general
  | run
  | validate
  deriving DecidableEq

def Scope.long? : Scope → String → Option Item
  | _, "help" => some (.switch .help)
  | _, "error-log" => some (.parameter .errorLog)
  | .general, "version" => some (.switch .version)
  | .general, _ => none
  | _, "config" => some (.parameter .config)
  | _, "key" => some (.parameter .key)
  | .run, "log" => some (.parameter .log)
  | .run, "cigarettes" => some (.parameter .cigarettes)
  | .run, "seed" => some (.parameter .seed)
  | .run, "format" => some (.parameter .format)
  | .run, "fail-on-invariant-violation" => some (.switch .failOnViolation)
  | _, _ => none

def Scope.short? : Scope → Char → Option Item
  | _, 'h' => some (.switch .help)
  | .general, 'V' => some (.switch .version)
  | .general, _ => none
  | _, 'c' => some (.parameter .config)
  | _, 'k' => some (.parameter .key)
  | _, _ => none

/-- The words that call a command. -/
inductive CommandWord
  | run
  | validate
  | help
  deriving DecidableEq

/-- Commands are called once, before the parts of the commands. -/
def Scope.command? : Scope → String → Option CommandWord
  | .general, "run" => some .run
  | .general, "validate" => some .validate
  | .general, "help" => some .help
  | _, _ => none

/-- What a word is that has no place. -/
def Scope.stray : Scope → Refusal
  | .general => .unknownCommand
  | _ => .unknownArgument

/-- What one part of a command line gives. -/
structure Given where
  errorLog : Option String := none
  config : Option String := none
  key : Option String := none
  log : Option String := none
  cigarettes : Option UInt64 := none
  seed : Option UInt64 := none
  format : Option LogFormat := none
  failOnViolation : Bool := false

def path? (text : String) : Except Refusal String :=
  if text.isEmpty then .error .missingValue else .ok text

def unsigned : List Char → List Char
  | '+' :: digits => digits
  | digits => digits

def number? (text : String) : Except Refusal UInt64 :=
  let digits := unsigned text.toList
  if digits.isEmpty ∨ !digits.all Char.isDigit then .error .badNumber
  else match Checked.unsigned (Nat.ofDigitChars 10 digits 0) with
    | some n => .ok n
    | none => .error .badNumber

def format? (text : String) : Except Refusal LogFormat :=
  match LogFormat.all.find? (·.name = text) with
  | some format => .ok format
  | none => .error .missingValue

/-- A value that must not be there yet. -/
def once {α : Type} (old : Option α) (new : Except Refusal α) : Except Refusal (Option α) :=
  if old.isSome then .error .repeatedOption else new.map some

def Given.set (g : Given) (text : String) : Parameter → Except Refusal Given
  | .errorLog => do return { g with errorLog := ← once g.errorLog (path? text) }
  | .config => do return { g with config := ← once g.config (path? text) }
  | .key => do return { g with key := ← once g.key (.ok text) }
  | .log => do return { g with log := ← once g.log (path? text) }
  | .cigarettes => do return { g with cigarettes := ← once g.cigarettes (number? text) }
  | .seed => do return { g with seed := ← once g.seed (number? text) }
  | .format => do return { g with format := ← once g.format (format? text) }

def Given.turn (g : Given) : Switch → Except Refusal Given
  | .help => .error .help
  | .version => .error .version
  | .failOnViolation =>
      if g.failOnViolation then .error .repeatedOption else .ok { g with failOnViolation := true }

/-- A part as far as it has been read. `last` is the parameter that came last, with its value if
that has come, as long as the value has not been looked into. -/
structure Progress where
  given : Given := {}
  last : Option (Parameter × Option String) := none

namespace Progress

/-- Looks into the value of the last parameter. -/
def settled (p : Progress) : Except Refusal Given :=
  match p.last with
  | none => .ok p.given
  | some (_, none) => .error .missingValue
  | some (parameter, some text) => p.given.set text parameter

def parameter (p : Progress) (name : Parameter) (value : Option String) :
    Except Refusal Progress := do
  let given ← p.settled
  match value with
  | some text => return { given := ← given.set text name }
  | none => return { given, last := some (name, none) }

def switch (p : Progress) (s : Switch) : Except Refusal Progress := do
  return { given := ← (← p.settled).turn s }

/-- An argument after two dashes: a name, and a value after an equals sign. -/
def long (scope : Scope) (p : Progress) (text : List Char) : Except Refusal Progress :=
  let (name, value) := match text.span (· ≠ '=') with
    | (name, _ :: value) => (name, some (String.ofList value))
    | (name, []) => (name, none)
  match scope.long? (String.ofList name), value with
  | none, _ => .error .unknownArgument
  | some (.parameter name), value => p.parameter name value
  | some (.switch _), some _ => .error .valueForSwitch
  | some (.switch s), none => p.switch s

/-- An argument after one dash: switches, and at their end perhaps a parameter, whose value may
follow at once. -/
def short (scope : Scope) (p : Progress) : List Char → Except Refusal Progress
  | [] => .ok p
  | c :: rest =>
      match scope.short? c with
      | none => .error .unknownArgument
      | some (.switch s) => do (← p.switch s).short scope rest
      | some (.parameter name) =>
          p.parameter name (match rest with
            | [] => none
            | '=' :: value => some (String.ofList value)
            | value => some (String.ofList value))

/-- A word that is no option. -/
def word (scope : Scope) (p : Progress) (text : String) : Except Refusal Progress :=
  match p.last with
  | some (parameter, none) => .ok { p with last := some (parameter, some text) }
  | _ => .error scope.stray

def awaitsValue (p : Progress) : Bool :=
  match p.last with
  | some (_, none) => true
  | _ => false

/-- Reads a part up to its end, or up to a command. After two dashes alone nothing may come, not
even a command. -/
def read (scope : Scope) (p : Progress) :
    List String → Except Refusal (Progress × Option (CommandWord × List String))
  | [] => .ok (p, none)
  | arg :: rest => do
      match if p.awaitsValue then none else scope.command? arg with
      | some command => return (p, some (command, rest))
      | none =>
          match arg.toList with
          | ['-', '-'] =>
              match rest with
              | [] => return (p, none)
              | next :: _ =>
                  throw (if (scope.command? next).isSome then .unknownArgument else scope.stray)
          | '-' :: '-' :: text => (← p.long scope text).read scope rest
          | '-' :: c :: text => (← p.short scope (c :: text)).read scope rest
          | _ => (← p.word scope arg).read scope rest

end Progress

/-- The error log that a part gives. A variable counts only where the part gives none. -/
def errorLogOf (env : Environment) (g : Given) : Except Refusal (Option String) :=
  match g.errorLog, env.errorLog with
  | none, some text => (path? text).map some
  | given, _ => .ok given

/-- Help about a command, or about none. -/
def helpOn : List String → Refusal
  | [] | ["run"] | ["validate"] | ["help"] => .help
  | _ => .unknownCommand

def commandOf (env : Environment) (word : CommandWord) (g : Given) : Command :=
  match word with
  | .validate | .help => .validate { config := g.config, key := g.key }
  | .run => .run {
      config := g.config
      key := g.key <|> env.key
      log := g.log
      cigarettes := g.cigarettes
      seed := g.seed
      format := g.format
      failOnViolation := g.failOnViolation }

/-- The part of the command is read before the values of the general part are looked into. Of two
error logs the one of the command counts, and any on the command line before a variable. -/
def parse (env : Environment) (args : List String) : Except Refusal CommandLine := do
  let (outer, command) ← Progress.read .general {} args
  match command with
  | none =>
      let log ← errorLogOf env (← outer.settled)
      throw (if log.isSome then .missingCommand else .noArguments)
  | some (.help, rest) => throw (helpOn rest)
  | some (word, rest) =>
      let scope := if word = .run then Scope.run else .validate
      let (inner, _) ← Progress.read scope {} rest
      let inner ← inner.settled
      let innerLog ← errorLogOf env inner
      let outer ← outer.settled
      let outerLog ← errorLogOf env outer
      return {
        command := commandOf env word inner
        errorLog := inner.errorLog <|> outer.errorLog <|> innerLog <|> outerLog }

end CigaretteSmokers.CommandLine
