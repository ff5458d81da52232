import HiddenOrder.Error

/-!
# Logging

The library logs under one name, and its parts log under names below it.  Setting the logger up
replaces whatever handlers it had, so doing it twice is doing it once.

* **`Logger`** — a level and its handlers.
* `logLevelOfName` — the level of a name.  Two names are taken by parts of the logging system that
  are no levels, and are refused.
* **`Logger.setup`** — the logger for the name of a level, with or without a log file and a
  console.
* **`Logger.lines`** — the lines that the log file gets for some messages, without the time.
-/

namespace HiddenOrder

/-- Where a logger sends its messages. -/
inductive LogHandler where
  /-- A file that is replaced by a new one when it has grown too large. -/
  | rotatingFile
  /-- The standard error stream. -/
  | console
deriving DecidableEq, Repr

/-- The name of a kind of handler. -/
def LogHandler.name : LogHandler → String
  | .rotatingFile => "RotatingFileHandler"
  | .console => "StreamHandler"

/-- The levels with a name. -/
def logLevels : List (String × Int) :=
  [("DEBUG", 10), ("INFO", 20), ("WARNING", 30), ("ERROR", 40), ("CRITICAL", 50), ("NOTSET", 0),
   ("WARN", 30), ("FATAL", 50)]

/-- The capital of a letter; beyond ASCII only those letters are looked at whose capital is an
ASCII letter. -/
def capital (c : Nat) : Nat :=
  if 0x61 ≤ c ∧ c ≤ 0x7a then c - 32
  else if c = 0x131 then 0x49
  else if c = 0x17f then 0x53
  else c

/-- The level of a name in letters of either case; an unknown name stands for `INFO`.  The names of
the message format and of the table of format styles are known, but not as levels. -/
def logLevelOfName (name : Text) : Except Error Int :=
  let name := name.map capital
  if name = Text.ofString "BASIC_FORMAT" then .error (.fault .levelName)
  else if name = Text.ofString "_STYLES" then .error (.fault .wrongKind)
  else
    match logLevels.find? fun (known, _) => Text.ofString known == name with
    | some (_, level) => .ok level
    | none => .ok 20

/-- The name of a level; a level without one is called by its number. -/
def logLevelName (level : Int) : String :=
  match logLevels.find? fun (_, n) => n == level with
  | some (name, _) => name
  | none => "Level " ++ toString level

/-- A message for the log: the part of the library it comes from, its level, and its text. -/
structure LogMessage where
  /-- The part of the library. -/
  origin : Text
  /-- The level. -/
  level : Int
  /-- The text. -/
  text : Text

/-- The logger of the library. -/
structure Logger where
  /-- The level that was set. -/
  level : Int
  /-- The handlers in order. -/
  handlers : List LogHandler
deriving DecidableEq, Repr

namespace Logger

/-- The logger for the name of a level. -/
def setup (level : Text) (file console : Bool) : Except Error Logger := do
  let level ← logLevelOfName level
  pure {
    level
    handlers := (if file then [.rotatingFile] else []) ++ (if console then [.console] else []) }

/-- The level that counts: a logger without one takes that of the root, which lets warnings pass. -/
def effectiveLevel (logger : Logger) : Int := if logger.level = 0 then 30 else logger.level

/-- Whether a message passes; one without a positive level never does. -/
def passes (logger : Logger) (m : LogMessage) : Bool :=
  decide (0 < m.level) && decide (logger.effectiveLevel ≤ m.level)

/-- A text filled up with blanks to a width of seven. -/
def pad (s : String) : String := s ++ String.ofList (List.replicate (7 - s.length) ' ')

/-- A text cut at its line ends. -/
def splitLines : Text → List Text
  | [] => [[]]
  | c :: rest =>
    if c = 0x0a then [] :: splitLines rest
    else
      match splitLines rest with
      | line :: lines => (c :: line) :: lines
      | [] => [[c]]

/-- The lines of a message: its level, its origin below the name of the library, and its text. -/
def format (m : LogMessage) : List Text :=
  splitLines <|
    Text.ofString (pad (logLevelName m.level) ++ " rsa_accumulator.") ++ m.origin ++ 0x20 :: m.text

/-- The lines that the log file gets for some messages; none without a log file. -/
def lines (logger : Logger) (messages : List LogMessage) : List Text :=
  if logger.handlers.contains .rotatingFile then
    (messages.filter logger.passes).flatMap format
  else []

end Logger

end HiddenOrder
