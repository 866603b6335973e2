/-!
# Options — taking a command line apart

A command line is a list of words.  A word that starts with `--` is an option by its long name, with
a value behind `=` or in the next word; a word that starts with `-` is a cluster of options by their
letters, the last of which may have its value behind it; `--` ends the options; every other word is
an operand.  An option counts once, and the first thing that is wrong ends the reading.
-/

namespace BuildTree

structure OptionSpec where
  name : String
  letter : Option Char
  takesValue : Bool
  /-- The values that can be given; any, if there are none. -/
  choices : List String := []
  deriving DecidableEq, Repr

/-- What ends the reading of a command line before there is a command. -/
inductive Halt
  /-- Something is wrong with it. -/
  | usage
  | help
  | version
  deriving DecidableEq, Repr

/-- The options that were given, each with its value, in order; a flag has an empty one. -/
abbrev GivenOptions := List (String × String)

structure OptionTable where
  specs : List OptionSpec
  showsVersion : Bool

namespace OptionTable

/-- Adds an option with its value. -/
def give (given : GivenOptions) (spec : OptionSpec) (value : String) :
    Except Halt GivenOptions :=
  if (given.lookup spec.name).isSome then .error .usage
  else if spec.choices ≠ [] ∧ value ∉ spec.choices then .error .usage
  else .ok (given ++ [(spec.name, value)])

/-- Whether a word starts an option, so that it cannot be the value of the one before. -/
def startsOption (word : String) : Bool :=
  match word.toList with
  | '-' :: _ :: _ => true
  | _ => false

/-- Reads one option by its long name; the result holds the option that still wants a value. -/
def readLong (table : OptionTable) (given : GivenOptions) (body : List Char) :
    Except Halt (GivenOptions × Option OptionSpec) :=
  let name := String.ofList (body.takeWhile (· != '='))
  let value? := match body.dropWhile (· != '=') with
    | [] => none
    | _ :: value => some (String.ofList value)
  if name = "help" then .error (if value?.isSome then .usage else .help)
  else if name = "version" ∧ table.showsVersion then
    .error (if value?.isSome then .usage else .version)
  else
    match table.specs.find? (·.name == name) with
    | none => .error .usage
    | some spec =>
        match spec.takesValue, value? with
        | false, none => (give given spec "").map (·, none)
        | false, some _ => .error .usage
        | true, some value => (give given spec value).map (·, none)
        | true, none => .ok (given, some spec)

/-- Reads a cluster of letters; the result holds the option that still wants a value. -/
def readCluster (table : OptionTable) : GivenOptions → List Char →
    Except Halt (GivenOptions × Option OptionSpec)
  | given, [] => .ok (given, none)
  | given, letter :: rest =>
      if letter = 'h' then .error .help
      else if letter = 'V' ∧ table.showsVersion then .error .version
      else
        match table.specs.find? (·.letter == some letter) with
        | none => .error .usage
        | some spec =>
            if spec.takesValue then
              match rest with
              | [] => .ok (given, some spec)
              | '=' :: value => (give given spec (String.ofList value)).map (·, none)
              | value => (give given spec (String.ofList value)).map (·, none)
            else
              match give given spec "" with
              | .error halt => .error halt
              | .ok given => table.readCluster given rest

def readOption (table : OptionTable) (given : GivenOptions) (word : String) :
    Except Halt (GivenOptions × Option OptionSpec) :=
  match word.toList with
  | '-' :: '-' :: body => table.readLong given body
  | _ :: letters => table.readCluster given letters
  | [] => .ok (given, none)

/-- Reads words up to the first operand; the result holds the words from there on, and whether `--`
stood before them. -/
def readLeading (table : OptionTable) : GivenOptions → List String →
    Except Halt (GivenOptions × Bool × List String)
  | given, [] => .ok (given, false, [])
  | given, word :: rest =>
      if word = "--" then .ok (given, true, rest)
      else if startsOption word then
        match table.readOption given word with
        | .error halt => .error halt
        | .ok (given, none) => table.readLeading given rest
        | .ok (given, some spec) =>
            match rest with
            | [] => .error .usage
            | value :: rest =>
                if startsOption value then .error .usage
                else
                  match give given spec value with
                  | .error halt => .error halt
                  | .ok given => table.readLeading given rest
      else .ok (given, false, word :: rest)

/-- Reads all words: the options and the operands between and behind them, in at most `fuel`
rounds. -/
def readAll (table : OptionTable) : (fuel : Nat) → GivenOptions → List String →
    Except Halt (GivenOptions × List String)
  | 0, given, operands => .ok (given, operands)
  | fuel + 1, given, words =>
      match table.readLeading given words with
      | .error halt => .error halt
      | .ok (given, true, operands) => .ok (given, operands)
      | .ok (given, false, []) => .ok (given, [])
      | .ok (given, false, operand :: rest) =>
          (table.readAll fuel given rest).map fun (given, operands) =>
            (given, operand :: operands)

end OptionTable
end BuildTree
