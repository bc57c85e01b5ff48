import ConceptSync.CommandLine.Arguments

set_option autoImplicit false
set_option relaxedAutoImplicit false

/-!
The help of the command line.
-/

namespace ConceptSync

namespace CommandLine

def lines (ls : List String) : String := String.join (ls.map fun l => l ++ "\n")

def Topic.text : Topic → String
  | .all => lines
    ["Travel planning sync engine",
      "",
      "Usage: waypoint [OPTIONS] <COMMAND>",
      "",
      "Commands:",
      "  request  Send one request through the gateway and print the response",
      "  syncs    List the registered rules in matching order",
      "  help     Print this message or the help of the given subcommand(s)",
      "",
      "Options:",
      "      --config <CONFIG>  Path to config TOML file. Falls back to the environment when omitted",
      "      --json-logs        Emit logs as JSON",
      "  -h, --help             Print help"]
  | .rules => lines
    ["List the registered rules in matching order",
      "",
      "Usage: waypoint syncs",
      "",
      "Options:",
      "  -h, --help  Print help"]
  | .request => lines
    ["Send one request through the gateway and print the response",
      "",
      "Usage: waypoint request [OPTIONS] <PATH> [BODY]",
      "",
      "Arguments:",
      "  <PATH>  Route, e.g. \x60/TripPlanning/create\x60",
      "  [BODY]  JSON object body [default: \x7b\x7d]",
      "",
      "Options:",
      "      --as <USER>  Log in as this user first and attach the session to the body",
      "  -h, --help       Print help"]
  | .help => lines
    ["Print this message or the help of the given subcommand(s)",
      "",
      "Usage: waypoint help [COMMAND]...",
      "",
      "Arguments:",
      "  [COMMAND]...  Print help for the subcommand(s)"]

end CommandLine

end ConceptSync
