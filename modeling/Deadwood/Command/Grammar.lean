import Deadwood.Text.Piece

/-!
# Grammar of arguments

How the arguments of a command are written. An option with a value is written `--name value`,
`--name=value`, `-n value`, `-nvalue` or `-n=value`; a switch is written `--name` or `-n`, and short
switches can be written together, as in `-ab`. Behind `--` every argument is an operand.

`Grammar.read` reads arguments up to the name of a command that is part of the grammar, since what
follows is written by the grammar of that command.
-/

namespace Deadwood.Command

/-- Why arguments ask for no work. -/
inductive Stop where
  /-- The program's version is asked for. -/
  | version
  /-- An explanation of the arguments is asked for. -/
  | help
  /-- The arguments are not written by the grammar. -/
  | misuse
  deriving Repr, DecidableEq, Inhabited

/-- What an option does. -/
inductive Effect where
  /-- It takes a value, if it accepts it. -/
  | value (accepts : String → Bool)
  | switch
  | stop (why : Stop)

/-- An option. -/
structure Choice where
  name : String
  short : Option Char := none
  effect : Effect
  /-- May it be given several times? -/
  repeats : Bool := false

/-- Does the option take a value? -/
def Choice.takesValue (o : Choice) : Bool :=
  match o.effect with
  | .value _ => true
  | _ => false

/-- What can be written. -/
structure Grammar where
  choices : List Choice
  /-- The names of the commands. -/
  commands : List String := []
  /-- May an operand be written? -/
  takesOperand : Bool := false

/-- What was written: the options with their values, in order, and the operand. -/
structure Given where
  options : List (String × String) := []
  operand : Option String := none
  deriving Repr, DecidableEq, Inhabited

namespace Given

/-- Was the option given? -/
def has (g : Given) (name : String) : Bool := g.options.any fun o => o.1 == name

/-- The values of an option. -/
def values (g : Given) (name : String) : List String :=
  (g.options.filter fun o => o.1 == name).map (·.2)

/-- The value of an option that is given once. -/
def value? (g : Given) (name : String) : Option String := g.options.lookup name

/-- Adds an option with a value. One that may not be repeated is given once. -/
def add (g : Given) (o : Choice) (value : String) : Except Stop Given :=
  if g.has o.name && !o.repeats then .error .misuse
  else .ok { g with options := g.options ++ [(o.name, value)] }

/-- Adds an option that stands without a value. -/
def useAlone (g : Given) (o : Choice) : Except Stop Given :=
  match o.effect with
  | .switch => g.add o ""
  | .stop why => .error why
  | .value _ => .error .misuse

/-- Adds an option that stands with a value. -/
def useWith (g : Given) (o : Choice) (value : String) : Except Stop Given :=
  match o.effect with
  | .value accepts => if accepts value then g.add o value else .error .misuse
  | _ => .error .misuse

/-- Adds an operand. There is at most one, and it is not empty. -/
def addOperand (g : Given) (operand : String) : Except Stop Given :=
  if g.operand.isSome || operand.isEmpty then .error .misuse
  else .ok { g with operand := some operand }

end Given

/-- What arguments come to. -/
inductive Level where
  | finished (given : Given)
  /-- A command's name was written, and more behind it. -/
  | command (given : Given) (name : String) (rest : List String)
  deriving Repr, DecidableEq, Inhabited

namespace Grammar

/-- Reads the letters behind a single dash. The last letter may leave an option that waits for its
    value. -/
def readLetters (g : Grammar) : Given → List Char → Except Stop (Given × Option Choice)
  | given, [] => .ok (given, none)
  | given, c :: rest =>
    match g.choices.find? fun o => o.short == some c with
    | none => .error .misuse
    | some o =>
      if o.takesValue then
        match rest with
        | [] => .ok (given, some o)
        -- the value may be attached, with an equals sign or without
        | '=' :: value => do return (← given.useWith o (String.ofList value), none)
        | value => do return (← given.useWith o (String.ofList value), none)
      else do g.readLetters (← given.useAlone o) rest

/-- Reads what stands behind two dashes. It may leave an option that waits for its value. -/
def readName (g : Grammar) (given : Given) (written : List Char) :
    Except Stop (Given × Option Choice) :=
  let name := String.ofList (written.takeWhile (· != '='))
  match g.choices.find? fun o => o.name == name, written.dropWhile (· != '=') with
  | none, _ => .error .misuse
  | some o, _ :: value => do return (← given.useWith o (String.ofList value), none)
  | some o, [] =>
    if o.takesValue then .ok (given, some o)
    else do return (← given.useAlone o, none)

/-- Reads operands. -/
def readOperands (g : Grammar) : Given → List String → Except Stop Given
  | given, [] => .ok given
  | given, a :: rest =>
    if g.takesOperand then do g.readOperands (← given.addOperand a) rest else .error .misuse

/-- Is an argument written with a dash, so that it is no value? A lone dash is one. -/
def isDashed (argument : String) : Bool :=
  match argument.toList with
  | '-' :: _ :: _ => true
  | _ => false

/-- Reads arguments behind what is given already, where an option may wait for its value. -/
def readFrom (g : Grammar) : Given → Option Choice → List String → Except Stop Level
  | given, none, [] => .ok (.finished given)
  | _, some _, [] => .error .misuse
  | given, some o, a :: rest =>
    if isDashed a then .error .misuse
    else do g.readFrom (← given.useWith o a) none rest
  | given, none, a :: rest =>
    if g.commands.contains a then .ok (.command given a rest)
    else
      match a.toList with
      -- from here on everything is an operand
      | ['-', '-'] => do return .finished (← g.readOperands given rest)
      | '-' :: '-' :: written => do
        let (given, waiting) ← g.readName given written
        g.readFrom given waiting rest
      | '-' :: c :: letters => do
        let (given, waiting) ← g.readLetters given (c :: letters)
        g.readFrom given waiting rest
      | _ =>
        if g.takesOperand then do g.readFrom (← given.addOperand a) none rest
        else .error .misuse

/-- Reads arguments. -/
def read (g : Grammar) (arguments : List String) : Except Stop Level := g.readFrom {} none arguments

end Grammar
end Deadwood.Command
