import Dbgp.Config
import Dbgp.Text.Numeral

/-!
# The command line

Options `Opt` with a value, each given at most once as two words or as one word with an equals sign,
and two flags that ask for a text instead of a run. `takeWords` takes words from left to right, and
the first thing that is wrong, or that asks for a text, decides. Options that are not given take their
values from the environment by `takeVariables`, and otherwise have defaults.
-/

namespace Dbgp.CommandLine

/-- The options with a value; `Settings` has a field for each. -/
inductive Opt where
  | host
  | port
  | responseTimeout
  | handshakeTimeout
  deriving DecidableEq, Repr, Inhabited

namespace Opt

/-- All options, in the order in which `helpText` lists them. -/
def all : List Opt := [.host, .port, .responseTimeout, .handshakeTimeout]

/-- The name of an option after the dashes, such as `port`. -/
def name : Opt → String
  | .host => "host"
  | .port => "port"
  | .responseTimeout => "response-timeout-ms"
  | .handshakeTimeout => "handshake-timeout-ms"

/-- The variable of the environment that has the value of an option, such as `DBGP_PORT`. -/
def envName : Opt → String
  | .host => "DBGP_HOST"
  | .port => "DBGP_PORT"
  | .responseTimeout => "DBGP_RESPONSE_TIMEOUT_MS"
  | .handshakeTimeout => "DBGP_HANDSHAKE_TIMEOUT_MS"

/-- What the value of an option is called in `Opt.help`. -/
def placeholder : Opt → String
  | .host => "HOST"
  | .port => "PORT"
  | .responseTimeout => "RESPONSE_TIMEOUT_MS"
  | .handshakeTimeout => "HANDSHAKE_TIMEOUT_MS"

/-- What an option is for, as `Opt.help` says it. -/
def about : Opt → String
  | .host => "Address to accept engine connections on "
  | .port => ""
  | .responseTimeout => "Bound on waiting for a command's response "
  | .handshakeTimeout => "Bound on waiting for a connecting engine's init packet "

/-- The default of an option as text; `Settings` has the same ones as values. -/
def default : Opt → String
  | .host => "127.0.0.1"
  | .port => "9000"
  | .responseTimeout => "10000"
  | .handshakeTimeout => "5000"

/-- The option with a `name`. -/
def find? (name : String) : Option Opt :=
  all.find? fun o => o.name = name

end Opt

/-- What a run is to be like; every field has the `default` of its option. -/
structure Settings where
  host : String := "127.0.0.1"
  port : UInt16 := 9000
  responseTimeout : UInt64 := 10000
  handshakeTimeout : UInt64 := 5000
  deriving DecidableEq, Repr, Inhabited

/-- The `Config` of the sessions of a run; what no option is for stays as it is there. -/
def Settings.config (s : Settings) : Config :=
  { responseTimeout := s.responseTimeout, handshakeTimeout := s.handshakeTimeout }

/-- Gives an option its value, if that can be read. A `port` may have any sign that leaves it a number
of 16 bits. -/
def Settings.set? (s : Settings) (o : Opt) (value : String) : Option Settings :=
  match o with
  | .host => some { s with host := value }
  | .port =>
    ((Text.Numeral.int? value.toList).filter fun (n : Int) => 0 ≤ n ∧ n < (UInt16.size : Int)).map fun n =>
      { s with port := UInt16.ofNat n.toNat }
  | .responseTimeout =>
    (Text.Numeral.word64? value.toList).map fun n => { s with responseTimeout := n }
  | .handshakeTimeout =>
    (Text.Numeral.word64? value.toList).map fun n => { s with handshakeTimeout := n }

/-- What the words ask for, as `parse` finds it. -/
inductive Outcome where
  | run (settings : Settings)
  | help
  | version
  | misuse
  deriving DecidableEq, Repr, Inhabited

/-- What a word of the command line is, by `Word.of`. -/
inductive Word where
  | option (o : Opt) (value : Option String)
  | help
  | version
  | separator
  | other
  deriving DecidableEq, Repr

/-- Splits a word at its first `=`. -/
def splitEquals (cs : List Char) : List Char × Option (List Char) :=
  match cs.dropWhile (· ≠ '=') with
  | [] => (cs, none)
  | _ :: value => (cs.takeWhile (· ≠ '='), some value)

/-- What a word is by its first characters: `--` alone separates, `-h` and `-V` may be followed by
anything. -/
def Word.of (word : String) : Word :=
  match word.toList with
  | ['-', '-'] => .separator
  | '-' :: '-' :: rest =>
    let (name, value) := splitEquals rest
    let name := String.ofList name
    if name = "help" ∧ value.isNone then .help
    else if name = "version" ∧ value.isNone then .version
    else
      match Opt.find? name with
      | some o => .option o (value.map String.ofList)
      | none => .other
  | '-' :: 'h' :: _ => .help
  | '-' :: 'V' :: _ => .version
  | _ => .other

/-- Whether a word can be the value of the option before it: it does not begin with `-`, unless it is
nothing else. -/
def isValue (word : String) : Bool :=
  match word.toList with
  | '-' :: _ :: _ => false
  | _ => true

/-- Takes the words from left to right, with the settings and the options that were `given` so far. -/
def takeWords (settings : Settings) (given : List Opt) : List String → Outcome × List Opt
  | [] => (.run settings, given)
  | word :: rest =>
    match Word.of word with
    | .help => (.help, given)
    | .version => (.version, given)
    | .other => (.misuse, given)
    | .separator => if rest.isEmpty then (.run settings, given) else (.misuse, given)
    | .option o (some value) =>
      if given.contains o then (.misuse, given)
      else
        match settings.set? o value with
        | some settings => takeWords settings (o :: given) rest
        | none => (.misuse, given)
    | .option o none =>
      match rest with
      | [] => (.misuse, given)
      | value :: rest =>
        if given.contains o ∨ !isValue value then (.misuse, given)
        else
          match settings.set? o value with
          | some settings => takeWords settings (o :: given) rest
          | none => (.misuse, given)

/-- Takes the values of options that were not `given` from the environment `env`, in order. -/
def takeVariables (env : String → Option String) (given : List Opt) :
    List Opt → Settings → Option Settings
  | [], s => some s
  | o :: rest, s =>
    if given.contains o then takeVariables env given rest s
    else
      match env o.envName with
      | none => takeVariables env given rest s
      | some value => (s.set? o value).bind (takeVariables env given rest)

/-- What words and environment ask for: `takeWords`, then `takeVariables` if that leaves a run. -/
def parse (words : List String) (env : String → Option String) : Outcome :=
  match takeWords {} [] words with
  | (.run settings, given) =>
    match takeVariables env given Opt.all settings with
    | some settings => .run settings
    | none => .misuse
  | (outcome, _) => outcome

/-! ## Texts -/

/-- The name of the program in `helpText` and `versionText`. -/
def programName : String := "dbgp-bridge"

/-- The text for those who ask for the version by `-V`. -/
def versionText : String :=
  programName ++ " 0.1.0\n"

/-- The lines about an option in `helpText`, with the value its variable has now. -/
def Opt.help (env : String → Option String) (o : Opt) : String :=
  "      --" ++ o.name ++ " <" ++ o.placeholder ++ ">\n" ++
  "          " ++ o.about ++ "[env: " ++ o.envName ++ "=" ++ (env o.envName).getD "" ++
    "] [default: " ++ o.default ++ "]\n"

/-- The text for those who ask for help by `-h`. -/
def helpText (env : String → Option String) : String :=
  "DBGP debugger protocol client and JSON-RPC bridge for dynamic-language debugging\n\n" ++
  "Usage: " ++ programName ++ " [OPTIONS]\n\nOptions:\n" ++
  String.join (Opt.all.map (Opt.help env)) ++
  "  -h, --help\n          Print help\n  -V, --version\n          Print version\n"

/-- The text for those who use the program in a wrong way: the `Outcome` is `misuse`. -/
def usageText : String :=
  "error: invalid arguments\n\nUsage: " ++ programName ++
    " [OPTIONS]\n\nFor more information, try '--help'.\n"

/-- The exit code of a program that was used in a wrong way, with `usageText`. -/
def misuseCode : UInt8 := 2

end Dbgp.CommandLine
