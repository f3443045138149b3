/-!
# The log of a build

Building a crate's map tells as it goes what it does.  The log is a value like any other: an
operation that has something to tell returns its entries beside its result.

## Main definitions

* `Level` — how important an entry is.
* `LogEntry`, `LogEntry.line` — an entry and the line that shows it.
* `Log.atLeast` — the entries of a level and of those above it.
-/

namespace CrateScope

/-- How important a log entry is, the most important first. -/
inductive Level where
  | warn
  | info
  | debug
  | trace
  deriving DecidableEq, Repr

namespace Level

/-- The place of a level in the order of importance. -/
def rank : Level → Nat
  | warn => 0
  | info => 1
  | debug => 2
  | trace => 3

/-- The word that marks entries of a level. -/
def word : Level → String
  | warn => "WARN"
  | info => "INFO"
  | debug => "DEBUG"
  | trace => "TRACE"

end Level

/-- One thing told during a build. -/
structure LogEntry where
  level : Level
  text : String
  deriving DecidableEq, Repr

/-- The line that shows an entry. -/
def LogEntry.line (entry : LogEntry) : String :=
  entry.level.word ++ " " ++ entry.text

/-- Entries in the order in which they were told. -/
abbrev Log := Array LogEntry

/-- The entries that are at least as important as `level`. -/
def Log.atLeast (log : Log) (level : Level) : Log :=
  log.filter fun entry => entry.level.rank ≤ level.rank

end CrateScope
