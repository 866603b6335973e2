import BuildTree.Finding.Basic

/-!
# Finding logs — findings collected in the order they were reported

Draining a log takes the findings out but does not forget how many of them were errors.
-/

namespace BuildTree

structure FindingLog where
  pending : List Finding
  /-- How many errors were ever reported. -/
  errors : Nat

namespace FindingLog

def empty : FindingLog := ⟨[], 0⟩

def report (log : FindingLog) (d : Finding) : FindingLog :=
  ⟨log.pending ++ [d], if d.severity.isError then log.errors + 1 else log.errors⟩

def reportAll (log : FindingLog) (ds : List Finding) : FindingLog :=
  ds.foldl report log

/-- Whether an error was ever reported. -/
def hasErrors (log : FindingLog) : Bool :=
  0 < log.errors

/-- The findings reported since the last time, and the emptied log. -/
def drain (log : FindingLog) : List Finding × FindingLog :=
  (log.pending, { log with pending := [] })

end FindingLog
end BuildTree
