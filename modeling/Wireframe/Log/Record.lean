import Wireframe.Log.Level

/-! Records of a log, and what a log does with them. -/

namespace Wireframe

/-- A message of a level under the name of who speaks. -/
structure Record where
  level : Level
  logger : String
  message : String
  deriving DecidableEq, Repr

namespace Record

/-- The record as a line of a log, after the time that `stamp` shows. -/
def line (stamp : String) (r : Record) : String :=
  stamp ++ " - " ++ r.logger ++ " - " ++ r.level.text ++ " - " ++ r.message ++ "\n"

/-- The name of the logger when none is given, or an empty one. -/
def defaultLogger : String := "gridwire"

end Record

/-- A log: before it is set up it writes nothing. -/
structure Log where
  setUp : Bool
  /-- The level from which on records are written. -/
  threshold : Level
  deriving DecidableEq, Repr

namespace Log

/-- A log that nobody has set up. -/
def fresh : Log := ⟨false, Level.warning⟩

/-- Only the first call sets a log up. -/
def configure (log : Log) (level : Level) : Log := if log.setUp then log else ⟨true, level⟩

/-- A record is written from the threshold on, and never at level zero or below. -/
def writes (log : Log) (r : Record) : Bool := log.setUp && log.threshold ≤ r.level && 0 < r.level

/-- The lines of the records that are written. -/
def lines (log : Log) (stamp : String) (rs : List Record) : String :=
  String.join ((rs.filter log.writes).map (·.line stamp))

end Log
end Wireframe
