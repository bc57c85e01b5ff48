set_option autoImplicit false
set_option relaxedAutoImplicit false

/-!
The arguments of the command line. Options stand before the command they belong to or among its
own arguments; after two hyphens everything is a plain argument. No option may be given twice.
-/

namespace ConceptSync

namespace CommandLine

inductive Command where
  /-- List the rules in matching order. -/
  | rules
  /-- Serve one request, on demand as a user who is logged in first. -/
  | request (path body : String) (user : Option String)
deriving DecidableEq, Repr

inductive Topic where
  | all
  | rules
  | request
  | help
deriving DecidableEq, Repr

structure Options where
  config : Option String
  jsonLogs : Bool
  command : Command
deriving DecidableEq, Repr

inductive Parsed where
  | run (options : Options)
  | help (topic : Topic)
  | wrongUsage
deriving DecidableEq, Repr

/-- An argument by its form. -/
inductive Argument where
  | separator
  /-- A long option, with a value if one is attached. -/
  | long (name : String) (value : Option String)
  /-- Short options by their letters. -/
  | short (letters : List Char)
  | plain (text : String)
deriving DecidableEq, Repr

def splitLong (cs : List Char) : Argument :=
  let name := cs.takeWhile (· ≠ '=')
  match cs.drop name.length with
  | _ :: value => .long (String.ofList name) (some (String.ofList value))
  | [] => .long (String.ofList name) none

def classify (arg : String) : Argument :=
  match arg.toList with
  | ['-', '-'] => .separator
  | '-' :: '-' :: cs => splitLong cs
  | '-' :: c :: cs => .short (c :: cs)
  | _ => .plain arg

/-- The value of an option: the attached one, or the next argument if that is plain. -/
def optionValue? (attached : Option String) (rest : List String) :
    Option (String × List String) :=
  match attached, rest with
  | some value, rest => some (value, rest)
  | none, next :: rest =>
    match classify next with
    | .plain value => some (value, rest)
    | _ => none
  | none, [] => none

/-- The arguments of a request read so far. -/
structure RequestArguments where
  path : Option String := none
  body : Option String := none
  user : Option String := none

namespace RequestArguments

/-- Take a plain argument: the path first, then the body. -/
def take? (r : RequestArguments) (text : String) : Option RequestArguments :=
  match r.path, r.body with
  | none, _ => some { r with path := some text }
  | some _, none => some { r with body := some text }
  | some _, some _ => none

def command? (r : RequestArguments) : Option Command :=
  r.path.map fun path => .request path (r.body.getD "\x7b\x7d") r.user

end RequestArguments

def finish (build : Command → Options) (r : RequestArguments) : Parsed :=
  match r.command? with
  | some command => .run (build command)
  | none => .wrongUsage

/-- The plain arguments of a request after two hyphens. -/
def parsePlain (build : Command → Options) (r : RequestArguments) : List String → Parsed
  | [] => finish build r
  | text :: rest =>
    match r.take? text with
    | some r => parsePlain build r rest
    | none => .wrongUsage

/-- The arguments of a request. The first number bounds the steps. -/
def parseRequest (build : Command → Options) : Nat → RequestArguments → List String → Parsed
  | 0, _, _ => .wrongUsage
  | _ + 1, r, [] => finish build r
  | steps + 1, r, arg :: rest =>
    match classify arg with
    | .separator => parsePlain build r rest
    -- help is given at once, whatever stands after it
    | .long "help" none => .help .request
    | .short ('h' :: _) => .help .request
    | .long "as" attached =>
      match optionValue? attached rest, r.user with
      | some (user, rest), none => parseRequest build steps { r with user := some user } rest
      | _, _ => .wrongUsage
    | .plain text =>
      match r.take? text with
      | some r => parseRequest build steps r rest
      | none => .wrongUsage
    | _ => .wrongUsage

def parseRules (build : Command → Options) : List String → Parsed
  | [] => .run (build .rules)
  | [arg] =>
    match classify arg with
    | .separator => .run (build .rules)
    | .long "help" none => .help .rules
    | .short ('h' :: _) => .help .rules
    | _ => .wrongUsage
  | arg :: _ =>
    match classify arg with
    | .long "help" none => .help .rules
    | .short ('h' :: _) => .help .rules
    | _ => .wrongUsage

def parseHelp : List String → Parsed
  | [] => .help .all
  | ["syncs"] => .help .rules
  | ["request"] => .help .request
  | ["help"] => .help .help
  | _ => .wrongUsage

/-- The options before the command as read so far. A value that stands apart from its option is
not checked before the next option or the end of all arguments. -/
structure Leading where
  config : Option String := none
  jsonLogs : Bool := false
  /-- Whether a value that is not yet checked will be refused. -/
  isFaulty : Bool := false

namespace Leading

def options (o : Leading) (command : Command) : Options := ⟨o.config, o.jsonLogs, command⟩

/-- The outcome of a command's arguments: help comes before the check of the last value. -/
def settle (o : Leading) : Parsed → Parsed
  | .run options => if o.isFaulty then .wrongUsage else .run options
  | parsed => parsed

def accepts (o : Leading) (path : String) : Bool := path ≠ "" && o.config.isNone

end Leading

/-- The arguments up to the command. The first number bounds the steps. -/
def parseFrom : Nat → Leading → List String → Parsed
  | 0, _, _ => .wrongUsage
  | _ + 1, _, [] => .wrongUsage
  | steps + 1, o, arg :: rest =>
    match classify arg with
    | .plain "syncs" => o.settle (parseRules o.options rest)
    | .plain "request" => o.settle (parseRequest o.options (rest.length + 1) {} rest)
    -- help is given even if the last value would be refused
    | .plain "help" => parseHelp rest
    | option =>
      if o.isFaulty then .wrongUsage
      else match option with
        | .long "help" none => .help .all
        | .short ('h' :: _) => .help .all
        | .long "json-logs" none =>
          if o.jsonLogs then .wrongUsage else parseFrom steps { o with jsonLogs := true } rest
        | .long "config" (some path) =>
          if o.accepts path then parseFrom steps { o with config := some path } rest
          else .wrongUsage
        | .long "config" none =>
          match optionValue? none rest with
          | some (path, rest) =>
            parseFrom steps { o with config := some path, isFaulty := !o.accepts path } rest
          | none => .wrongUsage
        | _ => .wrongUsage

def parse (args : List String) : Parsed := parseFrom (args.length + 1) {} args

example : parse ["--json-logs", "request", "/x", "--as=al"] =
    .run ⟨none, true, .request "/x" "\x7b\x7d" (some "al")⟩ := by decide +kernel
example : parse ["--config", "", "syncs"] = .wrongUsage ∧
    parse ["--config", "", "syncs", "--help"] = .help .rules := by decide +kernel

end CommandLine

end ConceptSync
