import AssertLint.Command.Output
import AssertLint.Rule.RegexAssertion
import AssertLint.Script.Tree

/-!
# The command line

The command `lint` takes a source text or the path of a file, and flags that ask
for fixes and for a document.  Arguments that make no sense end the program with
one code, a file that cannot be read with another.
-/

namespace AssertLint

namespace Command

/-- Where the source comes from. -/
inductive Input where
  | inline (text : String)
  | file (path : String)
  deriving DecidableEq, Repr

/-- What the arguments ask for. -/
structure Request where
  input : Input
  fix : Bool
  asDocument : Bool
  deriving DecidableEq, Repr

/-- The arguments read so far. -/
structure Arguments where
  text : Option String
  path : Option String
  fix : Bool
  asDocument : Bool
  deriving DecidableEq, Repr

namespace Arguments

/-- No argument. -/
def none : Arguments := ⟨.none, .none, false, false⟩

/-- Adds the source text.  There can be only one. -/
def addText (arguments : Arguments) (text : String) : Option Arguments :=
  if arguments.text.isSome then .none else some { arguments with text := some text }

/-- Adds the path.  There can be only one. -/
def addPath (arguments : Arguments) (path : String) : Option Arguments :=
  if arguments.path.isSome then .none else some { arguments with path := some path }

/-- Asks for fixes, once. -/
def addFix (arguments : Arguments) : Option Arguments :=
  if arguments.fix then .none else some { arguments with fix := true }

/-- Asks for a document, once. -/
def addDocument (arguments : Arguments) : Option Arguments :=
  if arguments.asDocument then .none else some { arguments with asDocument := true }

/-- Adds arguments that are all source texts. -/
def addTexts (arguments : Arguments) (texts : List String) : Option Arguments :=
  texts.foldlM addText arguments

/-- The request that the arguments make.  Exactly one source must be given. -/
def request (arguments : Arguments) : Option Request :=
  match arguments.text, arguments.path with
  | some text, .none => some ⟨.inline text, arguments.fix, arguments.asDocument⟩
  | .none, some path => some ⟨.file path, arguments.fix, arguments.asDocument⟩
  | _, _ => .none

end Arguments

/-- Whether an argument is an option: it starts with a hyphen and is longer than
that. -/
def isOption (argument : String) : Bool :=
  match argument.toList with
  | '-' :: _ :: _ => true
  | _ => false

/-- How an option with a path starts when the path is part of it. -/
def pathOption : List Char := "--path=".toList

/-- Reads arguments.  Behind two hyphens there are only source texts. -/
def readArguments : Arguments → List String → Option Arguments
  | arguments, [] => some arguments
  | arguments, "--" :: rest => arguments.addTexts rest
  | arguments, "--fix" :: rest => arguments.addFix.bind (readArguments · rest)
  | arguments, "--json" :: rest => arguments.addDocument.bind (readArguments · rest)
  | arguments, "--path" :: path :: rest =>
      if isOption path then none else (arguments.addPath path).bind (readArguments · rest)
  | arguments, argument :: rest =>
      if pathOption.isPrefixOf argument.toList then
        let path := String.ofList (argument.toList.drop pathOption.length)
        (arguments.addPath path).bind (readArguments · rest)
      else if isOption argument then
        none
      else
        (arguments.addText argument).bind (readArguments · rest)

/-- The request that a command line makes. -/
def request? : List String → Option Request
  | "lint" :: arguments => (readArguments Arguments.none arguments).bind Arguments.request
  | _ => none

/-- How the program ends: its exit code and what it prints. -/
structure Result where
  exitCode : Nat
  output : String
  deriving DecidableEq, Repr

/-- The end of a program whose arguments make no sense. -/
def usageError : Result := ⟨2, ""⟩

/-- The end of a program that fails. -/
def failure : Result := ⟨1, ""⟩

/-- The path shown for a source that is not in a file. -/
def inlinePath : String := "tmp.js"

/-- Lints a source as a request asks. -/
def lint (request : Request) (path text : String) : Result :=
  match Linter.run Script.parse Query.reader assertionRules ⟨[], request.fix⟩ text.toList with
  | .ok outcome => ⟨0, outcome.printed path request.asDocument⟩
  | .error _ => failure

/-- Runs a command line.  Files are read by the given function. -/
def run {m : Type → Type} [Monad m] (readFile : String → m (Option String))
    (arguments : List String) : m Result := do
  match request? arguments with
  | none => return usageError
  | some request =>
      match request.input with
      | .inline text => return lint request inlinePath text
      | .file path =>
          match ← readFile path with
          | some text => return lint request path text
          | none => return failure

end Command

end AssertLint
