/-
How large a drawing may become, and where the log is kept.
-/
import LineGrammar.Number.Numeral

namespace LineGrammar

/-- The largest drawing that is made, and the directory of the log. -/
structure Limits where
  maxVertices : Nat
  maxSymbols : Nat
  logDirectory : String
deriving DecidableEq, Repr

namespace Limits

def default : Limits :=
  ⟨10000000, 50000000, "logs"⟩

/-- The variables that set limits. -/
def variableNames : List String :=
  ["LSYS_MAX_VERTICES", "LSYS_MAX_SYMBOLS", "LSYS_LOG_DIR"]

/-- The limits that variables set.  A variable that is missing or does not hold a
number leaves the default. -/
def ofVariables (value? : String → Option String) : Limits :=
  let count (name : String) (other : Nat) : Nat :=
    ((value? name).bind Numeral.count?).getD other
  ⟨count "LSYS_MAX_VERTICES" default.maxVertices, count "LSYS_MAX_SYMBOLS" default.maxSymbols,
    (value? "LSYS_LOG_DIR").getD default.logDirectory⟩

end Limits

end LineGrammar
