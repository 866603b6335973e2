import BuildTree.Plan.Basic
import BuildTree.Toml.Basic

/-!
# Plans from TOML

A plan and each of its parts is a record.  The request has to be there, and so have the names of
archives and both fields of a declaration; every other field has a default.  A field that is there
has to have a value of its kind, and keys that name no field do not matter.
-/

namespace BuildTree
namespace Plan

open Toml (string? strings? natural?)

/-- A field that may be left out. -/
def fieldOr {α : Type} (default : α) (read : Toml → Option α) : Option Toml → Option α
  | none => some default
  | some value => read value

/-- A text that may be left out. -/
def optionalText : Option Toml → Option (Option String) :=
  fieldOr none fun value => value.string?.map some

/-- A list whose elements are read one by one. -/
def listOf {α : Type} (read : Toml → Option α) (value : Toml) : Option (List α) :=
  value.elements?.bind (·.mapM read)

def request? (value : Toml) : Option RequestSection := do
  let [sourceRoot, sources, dependencyRoot, output] ←
    value.record? ["source_root", "sources", "dependency_root", "output"] | none
  let default : RequestSection := {}
  pure {
    sourceRoot := ← fieldOr default.sourceRoot string? sourceRoot
    sources := ← fieldOr default.sources strings? sources
    dependencyRoot := ← fieldOr default.dependencyRoot string? dependencyRoot
    output := ← optionalText output }

def archive? (value : Toml) : Option DependencyArchive := do
  let [name, checksum] ← value.record? ["name", "checksum"] | none
  pure { name := ← (← name).string?, checksum := ← optionalText checksum }

def declaration? (value : Toml) : Option DeclaredDependency := do
  let [label, archive] ← value.record? ["label", "archive"] | none
  pure { label := ← (← label).string?, archive := ← (← archive).string? }

def mode? (value : Toml) : Option AuditMode :=
  value.choice?.bind AuditMode.ofName?

def audit? (value : Toml) : Option AuditSection := do
  let [exempt, mode] ← value.record? ["exempt", "policy"] | none
  let default : AuditSection := {}
  pure {
    exempt := ← fieldOr default.exempt strings? exempt
    mode := ← fieldOr default.mode mode? mode }

def cache? (value : Toml) : Option CacheSection := do
  let [archiveCapacity, sourceCapacity] ←
    value.record? ["archive_capacity", "source_capacity"] | none
  let default : CacheSection := {}
  pure {
    archiveCapacity := ← fieldOr default.archiveCapacity natural? archiveCapacity
    sourceCapacity := ← fieldOr default.sourceCapacity natural? sourceCapacity }

def compiler? (value : Toml) : Option CompilerSection := do
  let [args, sourceExtensions, languageVersion] ←
    value.record? ["args", "source_extensions", "lang_version"] | none
  let default : CompilerSection := {}
  pure {
    args := ← fieldOr default.args strings? args
    sourceExtensions := ← fieldOr default.sourceExtensions strings? sourceExtensions
    languageVersion := ← fieldOr default.languageVersion string? languageVersion }

end Plan

/-- The plan that a document holds. -/
def BuildPlan.ofToml? (document : TomlEntries) : Option BuildPlan := do
  let field (name : String) := document.lookup name
  pure {
    request := ← Plan.request? (← field "request")
    archives := ← Plan.fieldOr [] (Plan.listOf Plan.archive?) (field "archives")
    dependencies :=
      ← Plan.fieldOr [] (Plan.listOf Plan.declaration?) (field "dependencies")
    audit := ← Plan.fieldOr {} Plan.audit? (field "audit")
    cache := ← Plan.fieldOr {} Plan.cache? (field "cache")
    compiler := ← Plan.fieldOr {} Plan.compiler? (field "compiler") }

end BuildTree
