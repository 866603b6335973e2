import BuildTree.Cli.LogRule

/-!
# Log filters — which notices are written

A filter is a list of rules with commas between them.  Of the rules whose scope holds a notice the
most specific one decides.  A filter that cannot be read counts as none, and without a filter
notices are written unless the program is to be quiet.
-/

namespace BuildTree

structure LogFilter where
  rules : List LogRule
  deriving DecidableEq, Repr

namespace LogFilter

def ofText? (text : String) : Option LogFilter :=
  (((text.toList.splitOn ',').filter (· ≠ [])).mapM LogRule.ofText?).map LogFilter.mk

/-- The filter of a program that was given no other. -/
def byDefault (quiet : Bool) : LogFilter :=
  ⟨[⟨.everything, if quiet then .error else .warn⟩]⟩

/-- The filter that counts, given the text that was set. -/
def choose (text : Option String) (quiet : Bool) : LogFilter :=
  (text.bind ofText?).getD (byDefault quiet)

/-- Whether a rule counts at least as much as another one that stands before it: it tells more of
the topic, or as much of it and a field, if there are two fields the one that comes later in the
order of texts. -/
def outweighs (rule other : LogRule) : Bool :=
  let topicLength (rule : LogRule) : Nat :=
    (rule.scope.topic.map (·.utf8ByteSize + 1)).getD 0
  if topicLength rule ≠ topicLength other then topicLength other < topicLength rule
  else
    match rule.scope.field, other.scope.field with
    | some field, some otherField => otherField.name ≤ field.name
    | none, some _ => false
    | _, none => true

/-- The rule that decides about a notice. -/
def deciding? (filter : LogFilter) (notice : Notice) : Option LogRule :=
  (filter.rules.filter (·.scope.holds notice)).foldl (fun best? rule =>
    if best?.all (outweighs rule) then some rule else best?) none

def writes (filter : LogFilter) (notice : Notice) : Bool :=
  (filter.deciding? notice).any (·.level.holdsNotices)

end LogFilter
end BuildTree
