import Wireframe.Text.Case

/-! Levels of log records: numbers, some of which have names. -/

namespace Wireframe

/-- The weight of a log record. -/
abbrev Level := Int

namespace Level

def debug : Level := 10

def info : Level := 20

def warning : Level := 30

def error : Level := 40

/-- The levels that a name stands for. -/
def byName : List (String × Level) :=
  [("CRITICAL", 50), ("FATAL", 50), ("ERROR", error), ("WARN", warning), ("WARNING", warning),
   ("INFO", info), ("DEBUG", debug), ("NOTSET", 0)]

/-- The names that stand for a level, one for each. -/
def nameOf : List (Level × String) :=
  [(50, "CRITICAL"), (error, "ERROR"), (warning, "WARNING"), (info, "INFO"), (debug, "DEBUG"),
   (0, "NOTSET")]

/-- The level in a record. -/
def text (level : Level) : String :=
  match nameOf.lookup level with
  | some name => name
  | none => s!"Level {level}"

/-- The level of a name in any case; a name that stands for none is the level of information. -/
def ofName (name : String) : Level :=
  (byName.lookup (String.ofList (Text.upper name.toList))).getD info

end Level
end Wireframe
