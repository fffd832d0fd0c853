import Progression.Compiler
import Progression.Text.Blank

/-!
Settings of a compiler: which nodes are exempt, how far flattening may go and where events
are written. Settings that pass validation describe a compiler that can be built, unless a
log file cannot be opened.
-/

namespace Progression

namespace Config

structure Exemptions where
  names : List String := []
  prefixes : List String := []
  suffixes : List String := []
  contains : List String := []
  patterns : List String := []
  deriving Repr, DecidableEq

structure Limits where
  maxFlattenRounds : Nat := 64
  deriving Repr, DecidableEq

inductive SinkKind
  | none | stderr | file
  deriving Repr, DecidableEq

structure Logging where
  sink : SinkKind := .none
  path : Option String := .none
  deriving Repr, DecidableEq

/-- What is wrong with settings, or with the path of a settings file. -/
inductive Fault
  | tooManyEntries (field : String)
  | emptyEntry (field : String)
  | longEntry (field : String)
  | pattern (e : ExemptionError)
  | exemption (e : ExemptionError)
  | rounds
  | missingPath
  | uselessPath
  | blankPath
  | longPath
  | longPathPart
  | longFilePath
  | longFilePathPart
  | tooLarge
  | notText
  deriving Repr, DecidableEq

/-- The most entries of one list. -/
def entryLimit : Nat := 1024

/-- The longest entry in bytes. -/
def entrySizeLimit : Nat := 256

/-- The longest path in bytes. -/
def pathSizeLimit : Nat := 4096

/-- The longest part of a path in bytes. -/
def partSizeLimit : Nat := 255

/-- The largest settings file in bytes. -/
def sizeLimit : Nat := 1024 * 1024

def minRounds : Nat := 1

def maxRounds : Nat := 4096

def Fault.message : Fault → String
  | .tooManyEntries field =>
    "exemptions." ++ field ++ " exceeds " ++ toString entryLimit ++ " entries"
  | .emptyEntry field => "exemptions." ++ field ++ " entries must be non-empty"
  | .longEntry field => "exemptions." ++ field ++ " entry exceeds max length"
  | .pattern e => "exemptions.patterns: " ++ e.message
  | .exemption e => "exemptions: " ++ e.message
  | .rounds =>
    "limits.max_flatten_rounds must be between " ++ toString minRounds ++ " and "
      ++ toString maxRounds
  | .missingPath => "logging.sink = \"file\" requires logging.path"
  | .uselessPath => "logging.path is only valid with logging.sink = \"file\""
  | .blankPath => "logging.path must be non-empty"
  | .longPath => "logging.path exceeds max length"
  | .longPathPart => "logging.path path component too long"
  | .longFilePath => "config path exceeds max length"
  | .longFilePathPart => "config path component too long"
  | .tooLarge => "config file exceeds size limit"
  | .notText => "config file must be utf-8"

end Config

inductive ConfigError
  | unreadable
  | malformed
  | invalid (fault : Config.Fault)
  deriving Repr, DecidableEq

def ConfigError.message : ConfigError → String
  | .unreadable => "config io error"
  | .malformed => "config parse error"
  | .invalid fault => "invalid config: " ++ fault.message

structure Config where
  exemptions : Config.Exemptions := {}
  limits : Config.Limits := {}
  logging : Config.Logging := {}
  deriving Repr, DecidableEq

namespace Config

def hasLongPart (path : String) : Bool :=
  (Path.pieces path).any fun piece => partSizeLimit < (String.ofList piece).utf8ByteSize

namespace Exemptions

/-- The lists under their names. -/
def lists (e : Exemptions) : List (String × List String) :=
  [("names", e.names), ("prefixes", e.prefixes), ("suffixes", e.suffixes),
    ("contains", e.contains), ("patterns", e.patterns)]

def entryFault? (field entry : String) : Option Fault :=
  if entry.isEmpty then some (.emptyEntry field)
  else if entrySizeLimit < entry.utf8ByteSize then some (.longEntry field)
  else none

def listFault? (field : String) (entries : List String) : Option Fault :=
  if entryLimit < entries.length then some (.tooManyEntries field)
  else entries.findSome? (entryFault? field)

def addPatterns (policy : Policy) : List String → Except Fault Policy
  | [] => .ok policy
  | s :: rest =>
    match policy.addPattern s with
    | .error e => .error (.pattern e)
    | .ok policy => addPatterns policy rest

/-- The policy that the lists describe. -/
def policy (e : Exemptions) : Except Fault Policy :=
  let policy := e.names.foldl Policy.addName {}
  let policy := e.prefixes.foldl Policy.addLeading policy
  let policy := e.suffixes.foldl Policy.addTrailing policy
  let policy := e.contains.foldl Policy.addInside policy
  match addPatterns policy e.patterns with
  | .error fault => .error fault
  | .ok policy =>
    match policy.check with
    | .error e => .error (.exemption e)
    | .ok () => .ok policy

def validate (e : Exemptions) : Except Fault Unit :=
  match e.lists.findSome? fun (field, entries) => listFault? field entries with
  | some fault => .error fault
  | none => e.policy.map fun _ => ()

end Exemptions

def Limits.validate (limits : Limits) : Except Fault Unit :=
  if minRounds ≤ limits.maxFlattenRounds ∧ limits.maxFlattenRounds ≤ maxRounds then .ok ()
  else .error .rounds

/-- A path that a log may have. Blanks around it do not count. -/
def validateLogPath (path : String) : Except Fault Unit :=
  let path := Text.trimBlanks path
  if path.isEmpty then .error .blankPath
  else if pathSizeLimit < path.utf8ByteSize then .error .longPath
  else if hasLongPart path then .error .longPathPart
  else .ok ()

namespace Logging

def validate (logging : Logging) : Except Fault Unit :=
  match logging.sink, logging.path with
  | .file, none => .error .missingPath
  | .file, some path => validateLogPath path
  | _, some _ => .error .uselessPath
  | _, none => .ok ()

/-- Opens the sink. -/
def openSink (logging : Logging) (journal : Journal) : Except ConfigError (Journal × Sink) :=
  match logging.sink, logging.path with
  | .none, _ => .ok (journal, .silent)
  | .stderr, _ => .ok (journal, .stderr)
  | .file, none => .error (.invalid .missingPath)
  | .file, some path =>
    match journal.openFile? (Text.trimBlanks path) with
    | some opened => .ok opened
    | none => .error .unreadable

end Logging

/-- Finds the first fault of exemptions, limits and logging, in this order. -/
def validate (config : Config) : Except ConfigError Unit :=
  match do
    config.exemptions.validate
    config.limits.validate
    config.logging.validate with
  | .error fault => .error (.invalid fault)
  | .ok () => .ok ()

def policy (config : Config) : Except ConfigError Policy :=
  config.exemptions.policy.mapError .invalid

def openSink (config : Config) (journal : Journal) : Except ConfigError (Journal × Sink) :=
  config.logging.openSink journal

/-- A compiler without tables. -/
def compiler (config : Config) (journal : Journal) : Except ConfigError (Journal × Compiler) :=
  match config.policy with
  | .error e => .error e
  | .ok policy =>
    match config.openSink journal with
    | .error e => .error e
    | .ok (journal, sink) =>
      .ok (journal, { policy, maxRounds := config.limits.maxFlattenRounds, sink })

end Config

end Progression
