import SchemaCatalog.Command.Basic

/-!
# Help

The texts that tell how the command line is used, for all verbs and for each of them.
-/

set_option autoImplicit false

namespace SchemaCatalog.Help

/-- The name of the program. -/
def program : String := "schema-validator"

def about : String := "Validate form configurations and mappings against dynamic schemas"

/-- Rows of two columns under a title, the second column starting at the same place. -/
def block (title : String) (rows : List (String × String)) : String :=
  let width := rows.foldl (fun w row => max w row.1.length) 0
  let line (row : String × String) : String :=
    "  " ++ row.1 ++ String.ofList (List.replicate (width - row.1.length + 2) ' ') ++ row.2 ++ "\n"
  title ++ ":\n" ++ String.join (rows.map line)

/-- The line that shows how the program is called. -/
def usage : Option Verb → String
  | none => s!"Usage: {program} [OPTIONS] <COMMAND>\n"
  | some .help => s!"Usage: {program} help [COMMAND]...\n"
  | some verb =>
      let options := if verb.takesUserType then ["[OPTIONS]"] else []
      let operands := verb.operands.map fun o => s!"<{o.name}>"
      let words := " ".intercalate (program :: verb.name :: options ++ operands)
      s!"Usage: {words}\n"

/-- The options of a verb, or those in front of all verbs. -/
def options : Option Verb → List (String × String)
  | none =>
      [("-s, --schemas <SCHEMAS>",
          "Directory of schema definition files (overrides registry.schema_dir)"),
        ("-c, --config <CONFIG>", "Config file to layer over the defaults"),
        ("-h, --help", "Print help")]
  | some verb =>
      (if verb.takesUserType then
        [("    --user-type <USER_TYPE>", "User type of the caller [default: \"\"]")] else [])
        ++ [("-h, --help", "Print help")]

/-- The whole help text on a verb, or on all of them. -/
def text : Option Verb → String
  | none =>
      "\n".intercalate [about ++ "\n", usage none,
        block "Commands" (Verb.all.map fun v => (v.name, v.about)), block "Options" (options none)]
  | some .help =>
      "\n".intercalate [Verb.about .help ++ "\n", usage (some .help),
        block "Arguments" [("[COMMAND]...", "Print help for the subcommand(s)")]]
  | some verb =>
      let arguments :=
        if verb.operands.isEmpty then []
        else [block "Arguments" (verb.operands.map fun o => (s!"<{o.name}>", ""))]
      "\n".intercalate ([verb.about ++ "\n", usage (some verb)] ++ arguments
        ++ [block "Options" (options (some verb))])

end SchemaCatalog.Help
