import BuildTree.Build.CompilerView
import BuildTree.Plan.Basic

/-!
# Compilations — what a compiler makes of its sources

A compiler reads its inputs through a view of the tree and parses them through a cache.  It promises
to note every import that it resolved, under the path of the importing source.
-/

namespace BuildTree

universe u

structure CompilerSettings where
  args : List String
  languageVersion : String
  deriving DecidableEq, Repr

def CompilerSection.settings (part : CompilerSection) : CompilerSettings :=
  ⟨part.args, part.languageVersion⟩

/-- A file that a compiler made. -/
structure Artifact where
  path : String
  data : Bytes
  deriving DecidableEq, Repr

/-- What a compiler made of its sources. -/
structure Compilation where
  artifacts : List Artifact
  findings : List Finding
  imports : ImportGraph

namespace Compilation

def empty : Compilation := ⟨[], [], ImportGraph.empty⟩

def hasErrors (output : Compilation) : Bool :=
  output.findings.any (·.severity.isError)

end Compilation

/-- A compiler whose parsed sources are `σ`. -/
structure Compiler (σ : Type u) where
  compile : CompilerView → List TreePath → CompilerSettings → ParseCache σ →
    Except Fault (Compilation × ParseCache σ)

end BuildTree
