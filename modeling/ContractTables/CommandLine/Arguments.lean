import ContractTables.Text.Search

/-!
Reading a command line from left to right. An argument that begins with a dash and is
longer than one is an option; one that follows an option without its value is that value;
any other is an operand, and after `--` all are. What is wrong with the whole, such as an
option given twice, is found only at the end, so a call for the version before it wins.
-/
namespace ContractTables.CommandLine

structure OptionForm where
  name : String
  letter : Option Char := none
  takesValue : Bool := true
  repeats : Bool := false
  /-- Stands in for a value that is left out. -/
  hasDefault : Bool := false
  deriving DecidableEq

/-- What ends the reading before its end. -/
inductive Stop where
  | misuse
  | version
  | help
  deriving DecidableEq

structure Reading where
  /-- The options met, in order and with repetitions. -/
  met : List String := []
  /-- Options with their values, in order. -/
  values : List (String × String) := []
  operands : List String := []

namespace Reading

def meet (reading : Reading) (form : OptionForm) : Reading :=
  { reading with met := reading.met ++ [form.name] }

def give (reading : Reading) (form : OptionForm) (value : String) : Reading :=
  { reading with values := reading.values ++ [(form.name, value)] }

def valuesOf (reading : Reading) (name : String) : List String :=
  (reading.values.filter (·.1 = name)).map Prod.snd

def value? (reading : Reading) (name : String) : Option String := (reading.valuesOf name).head?

/-- An option that does not repeat is given at most once, and one that takes a value has
at least one of them or a default. -/
def complete (reading : Reading) (forms : List OptionForm) : Bool :=
  forms.all fun form =>
    let times := reading.met.count form.name
    (form.repeats || times ≤ 1) &&
      (times = 0 || !form.takesValue || form.hasDefault || !(reading.valuesOf form.name).isEmpty)

end Reading

/-- The options of one command, and whether it takes operands or goes on to a subcommand. -/
structure Level where
  forms : List OptionForm
  operands : Nat
  subcommands : List String

def isOption (argument : List Char) : Bool :=
  match argument with
  | '-' :: _ :: _ => true
  | _ => false

/-- An option met with a value of its own, or the option that waits for one. -/
def meetWith (reading : Reading) (form : OptionForm) (value : Option (List Char)) :
    Reading × Option OptionForm :=
  match value with
  | some value => ((reading.meet form).give form (String.ofList (value.dropWhile (· = '='))), none)
  | none => (reading.meet form, some form)

/-- Reads `--name`, `--name=value` or a flag. -/
def readLong (level : Level) (reading : Reading) (argument : List Char) :
    Except Stop (Reading × Option OptionForm) :=
  let bare := argument.dropWhile (· = '-')
  let (name, value) := match Text.cutFirst? ['='] bare with
    | some (name, value) => (String.ofList name, some value)
    | none => (String.ofList bare, none)
  match level.forms.find? (·.name = name) with
  | some form =>
      if form.takesValue then .ok (meetWith reading form value) else .ok (reading.meet form, none)
  | none =>
      if name = "help" then .error .help
      else if name = "version" then .error .version
      else .error .misuse

/-- Reads the letter of an option and its value, which may follow at once. -/
def readShort (level : Level) (reading : Reading) (argument : List Char) :
    Except Stop (Reading × Option OptionForm) :=
  match argument.dropWhile (· = '-') with
  | [] => .error .misuse
  | letter :: value =>
      match level.forms.find? (·.letter = some letter) with
      | some form => .ok (meetWith reading form (if value.isEmpty then none else some value))
      | none =>
          if letter = 'h' then .error .help
          else if letter = 'V' then .error .version
          else .error .misuse

/-- What an argument is, by what stands before it. -/
inductive Role where
  | operand
  | operandsOnly
  | subcommand
  | option
  | valueOf (form : OptionForm)

def roleOf (level : Level) (waiting : Option OptionForm) (onlyOperands : Bool)
    (argument : String) : Role :=
  if onlyOperands then .operand
  else if argument = "--" then .operandsOnly
  else if waiting.isNone && level.subcommands.contains argument then .subcommand
  else if isOption argument.toList then .option
  else match waiting with
    | some form => .valueOf form
    | none => .operand

def readOption (level : Level) (reading : Reading) (argument : List Char) :
    Except Stop (Reading × Option OptionForm) :=
  if Text.startsWith ['-', '-'] argument then readLong level reading argument
  else readShort level reading argument

/-- Reads the arguments of a level up to a subcommand, which it returns with the rest. -/
def readLevel (level : Level) :
    List String → Option OptionForm → Bool → Reading → Except Stop (Reading × List String)
  | [], _, _, reading => .ok (reading, [])
  | argument :: rest, waiting, onlyOperands, reading =>
      match roleOf level waiting onlyOperands argument with
      | .operand =>
          if reading.operands.length < level.operands then
            readLevel level rest waiting onlyOperands
              { reading with operands := reading.operands ++ [argument] }
          else .error .misuse
      | .operandsOnly => readLevel level rest waiting true reading
      | .subcommand => .ok (reading, argument :: rest)
      | .option =>
          match readOption level reading argument.toList with
          | .ok (reading, waiting) => readLevel level rest waiting false reading
          | .error stop => .error stop
      | .valueOf form => readLevel level rest none false (reading.give form argument)

/-- Reads all arguments of a level that has no subcommands. -/
def readWhole (level : Level) (arguments : List String) : Except Stop Reading := do
  let (reading, _) ← readLevel level arguments none false {}
  if reading.complete level.forms && reading.operands.length = level.operands then .ok reading
  else .error .misuse

end ContractTables.CommandLine
