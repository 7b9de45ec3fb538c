import PerfGate.Decimal.Numeral
import PerfGate.Options.Basic

/-!
# Options — reading a command line

Every option is a long word, its value the next word or what follows an equals sign. Words are taken
from left to right. An option is checked when the next known one starts or the line ends: that it has
a value, that it was not given before, and that its value can be read. A word that is no option and
no value is refused at once.
-/

namespace PerfGate.Options

/-- What has been read of a command line. -/
structure Reading where
  /-- The checked options with their values. -/
  given : List (OptionName × String) := []
  debug : Bool := false
  /-- The option that has not been checked yet, with its value if that has been met. -/
  pending : Option (OptionName × Option String) := none

namespace Reading

/-- Checks an option and its value. -/
def accept (r : Reading) (name : OptionName) (value : String) : Except Usage Reading :=
  if (r.given.lookup name).isSome then .error .repeatedOption
  else if name.isNumber then
    if (readDouble? value.toList).isSome then .ok { r with given := (name, value) :: r.given }
    else .error .invalidNumber
  else if value.isEmpty && !name.allowsEmpty then .error .missingValue
  else .ok { r with given := (name, value) :: r.given }

/-- Checks the option that is pending. -/
def settle (r : Reading) : Except Usage Reading :=
  match r.pending with
  | none => .ok r
  | some (_, none) => .error .missingValue
  | some (name, some value) => { r with pending := none }.accept name value

/-- Whether what follows a minus is a number: digits, one point that is not first and not behind an
exponent, one letter of an exponent that is neither first nor last. -/
def isNegativeNumber (s : List Char) : Bool :=
  let mantissa := s.takeWhile fun c => c ≠ 'e' && c ≠ 'E'
  let digitsAndPoint (t : List Char) : Bool :=
    t.all (fun c => c.isDigit || c = '.') && t.count '.' ≤ 1 && t.head? ≠ some '.'
  match s.dropWhile fun c => c ≠ 'e' && c ≠ 'E' with
  | [] => digitsAndPoint s
  | _ :: exponent =>
    digitsAndPoint mantissa && !mantissa.isEmpty && !exponent.isEmpty && exponent.all Char.isDigit

/-- Takes a word as the value of the pending option. -/
def takeValue (r : Reading) (word : String) : Except Usage Reading :=
  match r.pending with
  | some (name, none) => .ok { r with pending := some (name, some word) }
  | _ => .error .unknownWord

/-- Takes a word with two minus signs, given without them. -/
def takeLong (r : Reading) (word : List Char) : Except Usage Reading :=
  let name := String.ofList (word.takeWhile (· ≠ '='))
  let attached? := match word.dropWhile (· ≠ '=') with
    | _ :: value => some (String.ofList value)
    | [] => none
  match OptionName.words.lookup name with
  | some option => do
    let r ← r.settle
    match attached? with
    | some value => r.accept option value
    | none => return { r with pending := some (option, none) }
  | none =>
    if name = "debug" ∨ name = "help" ∨ name = "version" then
      if attached?.isSome then .error .needlessValue
      else do
        let r ← r.settle
        if name = "help" then throw .help
        if name = "version" then throw .version
        if r.debug then throw .repeatedOption
        return { r with debug := true }
    else .error .unknownWord

/-- Takes a word with one minus sign, given without it. A negative number can be the value of a
tolerance. -/
def takeShort (r : Reading) (word : List Char) : Except Usage Reading :=
  match r.pending, isNegativeNumber word with
  | some (.tolQps, none), true => r.takeValue (String.ofList ('-' :: word))
  | some (.tolGbps, none), true => r.takeValue (String.ofList ('-' :: word))
  | _, _ =>
    match word with
    | 'h' :: _ => do
      let _ ← r.settle
      throw .help
    | 'V' :: _ => do
      let _ ← r.settle
      throw .version
    | _ => .error .unknownWord

/-- Takes one word. -/
def take (r : Reading) (word : String) : Except Usage Reading :=
  match word.toList with
  | '-' :: '-' :: rest => r.takeLong rest
  | '-' :: c :: rest => r.takeShort (c :: rest)
  | _ => r.takeValue word

/-- Takes all words. A bare `--` ends the options, and nothing may follow it. -/
def takeAll (r : Reading) : List String → Except Usage Reading
  | [] => r.settle
  | word :: rest =>
    if word = "--" then (if rest.isEmpty then r.settle else .error .unknownWord)
    else do (← r.take word).takeAll rest

/-- The value of an option that has to be given. -/
def value (r : Reading) (name : OptionName) : Except Usage String :=
  match r.given.lookup name with
  | some v => .ok v
  | none => .error .missingOption

/-- The number given as a tolerance. -/
def number (r : Reading) (name : OptionName) : Except Usage Binary64 := do
  match readDouble? (← r.value name).toList with
  | some x => return x
  | none => throw .invalidNumber

/-- The options once all words have been read. -/
def complete (r : Reading) : Except Usage Options := do
  let am ← r.value .am
  let cluster ← r.value .cluster
  let amSchema ← r.value .amSchema
  let clusterSchema ← r.value .clusterSchema
  let baselineDir ← r.value .baselineDir
  let os ← r.value .os
  let tolQps ← r.number .tolQps
  let tolGbps ← r.number .tolGbps
  return {
    am, cluster, amSchema, clusterSchema, baselineDir, os, tolQps, tolGbps
    output := (r.given.lookup .output).getD defaultOutput
    cmakeCache := (r.given.lookup .cmakeCache).getD defaultCmakeCache
    debug := r.debug }

end Reading

/-- The options that the words of a command line give. -/
def parse (words : List String) : Except Usage Options := do
  (← Reading.takeAll {} words).complete

end PerfGate.Options
