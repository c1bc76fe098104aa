import SchemaCatalog.Command.Basic

/-!
# Reading arguments

Options stand before the verb, and the operands of the verb behind it. An option takes
its value from the same argument or from the next, which then must not look like an
option itself; behind two hyphens every argument is an operand. Arguments are looked at
one after the other, and the first that asks for help or is wrong decides.
-/

set_option autoImplicit false

namespace SchemaCatalog

/-- An argument by its form. -/
inductive Argument where
  | escape
  | long (name : String) (value : Option String)
  | short (letter : Char) (behind : List Char)
  | plain (text : String)
deriving DecidableEq, Repr

namespace Argument

/-- The name of a long option and its value behind an equals sign. -/
def ofLong (cs : List Char) : Argument :=
  let name := cs.takeWhile (· != '=')
  match cs.drop name.length with
  | [] => .long (String.ofList name) none
  | _ :: value => .long (String.ofList name) (some (String.ofList value))

def ofText (s : String) : Argument :=
  match s.toList with
  | ['-', '-'] => .escape
  | '-' :: '-' :: cs => ofLong cs
  | '-' :: c :: cs => .short c cs
  | _ => .plain s

/-- The value behind the letter of a short option, with or without an equals sign. -/
def attached? : List Char → Option String
  | [] => none
  | '=' :: cs => some (String.ofList cs)
  | cs => some (String.ofList cs)

def asksForHelp : Argument → Bool
  | .long name none => name == "help"
  | .short letter _ => letter == 'h'
  | _ => false

end Argument

/-- The options that take a value in front of a verb. -/
inductive CommonOption where
  | schemas
  | config
deriving DecidableEq, Repr

namespace CommonOption

/-- The option that an argument gives, and its value if that is in the same argument. -/
def ofArgument? : Argument → Option (CommonOption × Option String)
  | .long "schemas" value => some (.schemas, value)
  | .long "config" value => some (.config, value)
  | .short 's' cs => some (.schemas, Argument.attached? cs)
  | .short 'c' cs => some (.config, Argument.attached? cs)
  | _ => none

end CommonOption

namespace CommonOptions

/-- The options with one more; none may be given twice, and a directory has a name. -/
def set? (o : CommonOptions) : CommonOption → String → Option CommonOptions
  | .schemas, value =>
      if o.schemas.isSome || value.isEmpty then none else some { o with schemas := some value }
  | .config, value => if o.config.isSome then none else some { o with config := some value }

end CommonOptions

namespace Request

/-- The request for help on the verb that is named. -/
def helpOn : List String → Request
  | [] => .help none
  | [name] => match Verb.ofName? name with
      | some verb => .help (some verb)
      | none => .misuse
  | _ => .misuse

/-- The operands of a verb read so far. -/
structure Operands where
  values : List String := []
  userType : Option String := none
  /-- Whether all that follows are operands. -/
  escaped : Bool := false

/-- The operands with one more, if the verb takes it. -/
def Operands.push? (o : Operands) (verb : Verb) (value : String) : Option Operands :=
  match verb.operands[o.values.length]? with
  | none => none
  | some operand =>
      if operand.isFile && value.isEmpty then none
      else some { o with values := o.values ++ [value] }

/-- The operands with the type of the user, if the verb takes it and it is not yet given. -/
def Operands.setUserType? (o : Operands) (verb : Verb) (value : String) : Option Operands :=
  if verb.takesUserType && o.userType.isNone then some { o with userType := some value }
  else none

/-- The form of an argument, which is an operand behind two hyphens. -/
def Operands.form (o : Operands) (arg : String) : Argument :=
  if o.escaped then .plain arg else .ofText arg

/-- The request of a verb from the arguments behind it. -/
def ofOperands (options : CommonOptions) (verb : Verb) : Operands → List String → Request
  | o, [] => match Command.ofOperands? verb o.values (o.userType.getD "") with
      | some command => .run ⟨options, command⟩
      | none => .misuse
  | o, arg :: rest =>
      if (o.form arg).asksForHelp then .help (some verb)
      else match o.form arg with
        | .plain value => match o.push? verb value with
            | some o => ofOperands options verb o rest
            | none => .misuse
        | .escape => ofOperands options verb { o with escaped := true } rest
        | .long "user-type" (some value) => match o.setUserType? verb value with
            | some o => ofOperands options verb o rest
            | none => .misuse
        | .long "user-type" none => match rest with
            | [] => .misuse
            | next :: rest => match Argument.ofText next, o.setUserType? verb next with
                | .plain _, some o => ofOperands options verb o rest
                | _, _ => .misuse
        | _ => .misuse

/-- The request of arguments behind some options. -/
def ofArguments (options : CommonOptions) : List String → Request
  | [] => .misuse
  | arg :: rest =>
      let argument := Argument.ofText arg
      if argument.asksForHelp then .help none
      else match argument, CommonOption.ofArgument? argument with
        | .plain name, _ => match Verb.ofName? name with
            | some .help => helpOn rest
            | some verb => ofOperands options verb {} rest
            | none => .misuse
        | _, some (option, some value) => match options.set? option value with
            | some options => ofArguments options rest
            | none => .misuse
        | _, some (option, none) => match rest with
            | [] => .misuse
            | next :: rest => match Argument.ofText next, options.set? option next with
                | .plain _, some options => ofArguments options rest
                | _, _ => .misuse
        | _, none => .misuse

/-- What a command line asks for. -/
def ofCommandLine (args : List String) : Request := ofArguments {} args

end Request

end SchemaCatalog
