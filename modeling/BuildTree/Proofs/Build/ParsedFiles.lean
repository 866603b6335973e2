import BuildTree.Build.CompilerView
import BuildTree.Proofs.Cache.Parse
import BuildTree.Proofs.Tree.Files
import Mathlib.Data.Set.Operations

/-!
# Parsed files — a compiler never gets a stale parse

Calls for parsed files go through one cache, each with its own tree, since files come, go and
change between calls.  What the cache holds under a key is the parse of a file with that key.  So as
long as the files that are asked for have different keys, every call gets the parse of what is
served at that time, whatever was held, used or evicted before, and a call for a file that does not
exist gets none.
-/

namespace BuildTree

open LruCache

universe w

/-! ## Calls -/

/-- A file as it is parsed. -/
structure SourceVersion where
  name : String
  text : String
  languageVersion : String
  deriving DecidableEq

/-- The key under which the parse of a file is held. -/
def SourceVersion.key (version : SourceVersion) : ContentKey :=
  ParseCache.key version.name version.text version.languageVersion

/-- A call for a parsed file, and the tree as it is by then. -/
structure ParseCall where
  view : CompilerView
  name : String
  languageVersion : String

namespace ParseCall

/-- What a call asks to parse, if the file exists. -/
def version? (call : ParseCall) : Option SourceVersion :=
  match call.view.readText call.name with
  | .ok (some text) => some ⟨call.name, text, call.languageVersion⟩
  | _ => none

variable {σ : Type w}

/-- Calls through one cache, one after the other. -/
def runAll (parse : String → String → String → σ) :
    ParseCache σ → List ParseCall → List (Except Fault (Option σ))
  | _, [] => []
  | sources, call :: calls =>
      match call.view.parsedFile sources call.name call.languageVersion fun name text =>
        parse name text call.languageVersion with
      | .error fault => .error fault :: runAll parse sources calls
      | .ok (parsed?, sources) => .ok parsed? :: runAll parse sources calls

/-- The answer to a call that there would be without a cache. -/
inductive IsAnswered (parse : String → String → String → σ) (call : ParseCall) :
    Except Fault (Option σ) → Prop
  | absent (missing : call.view.tree.hasFile (CompilerView.rooted call.name) = .ok false) :
      IsAnswered parse call (.ok none)
  | parsed {data : Bytes}
      (present : call.view.tree.hasFile (CompilerView.rooted call.name) = .ok true)
      (served : call.view.tree.read (CompilerView.rooted call.name) = .ok (some data)) :
      IsAnswered parse call
        (.ok (some (parse call.name (Utf8.decodeLossy data) call.languageVersion)))

end ParseCall

namespace CompilerView

theorem isAbsolute_rooted (name : String) : Path.isAbsolute (rooted name) = true := by
  rw [rooted]
  split
  · rename_i habsolute
    exact habsolute
  · rw [Path.isAbsolute, String.toList_append]
    rfl

theorem exists_read (view : CompilerView) (name : String) :
    ∃ data?, view.read name = .ok data? ∧ view.hasFile name = .ok data?.isSome ∧
      view.readText name = .ok (data?.map Utf8.decodeLossy) := by
  rcases FileTree.exists_read view.tree (isAbsolute_rooted name) with ⟨data?, hread, hhas⟩
  refine ⟨data?, hread, hhas, ?_⟩
  rw [readText, FileTree.readText, hread]
  rfl

theorem parsedFile_of_readText {σ : Type w} {view : CompilerView} {name text : String}
    (h : view.readText name = .ok (some text)) (sources : ParseCache σ) (languageVersion : String)
    (parse : String → String → σ) :
    view.parsedFile sources name languageVersion parse =
      .ok (some (sources.getOrParse name text languageVersion fun _ => parse name text).1,
        (sources.getOrParse name text languageVersion fun _ => parse name text).2) := by
  rw [parsedFile, h]

end CompilerView

/-! ## What one call preserves -/

section Step

variable {σ : Type w} {parse : String → String → String → σ} {known : Set SourceVersion}
  {sources : ParseCache σ} {capacity : Nat} {entries : RecencyList ContentKey σ}

/-- Every entry is the parse of a known file, under the key of that file. -/
def ParsedFrom (parse : String → String → String → σ) (known : Set SourceVersion)
    (entries : RecencyList ContentKey σ) : Prop :=
  ∀ entry ∈ entries, ∃ version ∈ known,
    entry = (version.key, parse version.name version.text version.languageVersion)

theorem ParsedFrom.eq_of_lookup (h : ParsedFrom parse known entries)
    (hkeys : Set.InjOn SourceVersion.key known) {version : SourceVersion}
    (hknown : version ∈ known) {held : σ}
    (hheld : entries.lookup version.key = some held) :
    held = parse version.name version.text version.languageVersion := by
  rcases RecencyList.exists_of_lookup hheld with ⟨front, back, hsplit, -⟩
  -- The entry was parsed from a file with the same key, which is then the same file.
  rcases h (version.key, held) (by simp [hsplit]) with ⟨other, hother, heq⟩
  rcases Prod.mk.inj heq with ⟨hkey, rfl⟩
  rw [hkeys hknown hother hkey]

theorem ParsedFrom.get (h : ParsedFrom parse known entries) (key : ContentKey) :
    ParsedFrom parse known (entries.get key).2 := by
  intro entry hentry
  exact h entry ((RecencyList.get_perm entries key).mem_iff.1 hentry)

theorem ParsedFrom.set (h : ParsedFrom parse known entries) {version : SourceVersion}
    (hknown : version ∈ known) :
    ParsedFrom parse known (entries.set capacity version.key
      (parse version.name version.text version.languageVersion)).2 := by
  intro entry hentry
  rcases RecencyList.mem_of_mem_set hentry with rfl | hold
  · exact ⟨version, hknown, rfl⟩
  · exact h entry hold

/-- Asking for a known file returns its parse, and all that is held is still parsed from known
files. -/
theorem ParsedFrom.getOrParse (h : ParsedFrom parse known entries)
    (hshows : Shows sources.cache capacity entries) (hkeys : Set.InjOn SourceVersion.key known)
    {version : SourceVersion} (hknown : version ∈ known) :
    (sources.getOrParse version.name version.text version.languageVersion fun _ =>
        parse version.name version.text version.languageVersion).1 =
      parse version.name version.text version.languageVersion ∧
    ∃ after, ParsedFrom parse known after ∧
      Shows (sources.getOrParse version.name version.text version.languageVersion fun _ =>
        parse version.name version.text version.languageVersion).2.cache capacity after := by
  cases hlookup : entries.lookup version.key with
  | none =>
    rcases ParseCache.getOrParse_of_missed hshows hlookup fun _ =>
      parse version.name version.text version.languageVersion with ⟨hvalue, -, hafter⟩
    exact ⟨hvalue, _, h.set hknown, hafter⟩
  | some held =>
    rcases ParseCache.getOrParse_of_held hshows hlookup fun _ =>
      parse version.name version.text version.languageVersion with ⟨hvalue, -, hafter⟩
    exact ⟨hvalue.trans (h.eq_of_lookup hkeys hknown hlookup), _, h.get _, hafter⟩

/-- A call gets what it would get without a cache. -/
theorem ParseCall.exists_parsedFile (call : ParseCall) (h : ParsedFrom parse known entries)
    (hshows : Shows sources.cache capacity entries) (hkeys : Set.InjOn SourceVersion.key known)
    (hknown : ∀ version, call.version? = some version → version ∈ known) :
    ∃ parsed? later, call.view.parsedFile sources call.name call.languageVersion
        (fun name text => parse name text call.languageVersion) = .ok (parsed?, later) ∧
      call.IsAnswered parse (.ok parsed?) ∧
      ∃ after, ParsedFrom parse known after ∧ Shows later.cache capacity after := by
  rcases call.view.exists_read call.name with ⟨data?, hread, hhas, htext⟩
  cases data? with
  | none =>
    -- The cache is not asked for a file that does not exist.
    refine ⟨none, sources, ?_, .absent hhas, entries, h, hshows⟩
    rw [CompilerView.parsedFile, htext]
    rfl
  | some data =>
    have hversion : call.version? =
        some ⟨call.name, Utf8.decodeLossy data, call.languageVersion⟩ := by
      rw [ParseCall.version?, htext]
      rfl
    rcases h.getOrParse hshows hkeys (hknown _ hversion) with ⟨hvalue, after, hafter, hlater⟩
    refine ⟨_, _, CompilerView.parsedFile_of_readText htext _ _ _, ?_, after, hafter, hlater⟩
    rw [hvalue]
    exact .parsed hhas hread

end Step

/-! ## Whole histories -/

namespace ParseCall

variable {σ : Type w} {parse : String → String → String → σ}

theorem isAnswered_runAll {known : Set SourceVersion} {sources : ParseCache σ} {capacity : Nat}
    {entries : RecencyList ContentKey σ} (h : ParsedFrom parse known entries)
    (hshows : Shows sources.cache capacity entries) (hkeys : Set.InjOn SourceVersion.key known)
    {calls : List ParseCall}
    (hknown : ∀ call ∈ calls, ∀ version, call.version? = some version → version ∈ known) :
    List.Forall₂ (IsAnswered parse) calls (runAll parse sources calls) := by
  induction calls generalizing sources entries with
  | nil => exact List.Forall₂.nil
  | cons call calls ih =>
    -- The invariant is that some entries are shown that were parsed from known files.
    rcases call.exists_parsedFile h hshows hkeys (hknown call List.mem_cons_self) with
      ⟨parsed?, later, hcall, hanswer, after, hafter, hlater⟩
    rw [runAll, hcall]
    exact List.Forall₂.cons hanswer
      (ih hafter hlater fun other hother => hknown other (List.mem_cons_of_mem call hother))

/-- Calls through one new cache, over whatever trees, are answered as without a cache if no two
different files that they ask for have one key: a call for a file that does not exist gets none, and
any other call gets the parse of what is served by then. -/
theorem runAll_never_stale {capacity : Nat} (hcapacity : 0 < capacity) {calls : List ParseCall}
    (hkeys : ∀ call ∈ calls, ∀ other ∈ calls, ∀ version later, call.version? = some version →
      other.version? = some later → version.key = later.key → version = later) :
    ∃ new : ParseCache σ, ParseCache.create capacity = .ok new ∧
      List.Forall₂ (IsAnswered parse) calls (runAll parse new calls) := by
  rcases ParseCache.create_shows σ hcapacity with ⟨new, hnew, hshows⟩
  -- The known files are those that some call asks to parse.
  have hnone : ParsedFrom parse {version | ∃ call ∈ calls, call.version? = some version} [] := by
    intro entry hentry
    cases hentry
  refine ⟨new, hnew, isAnswered_runAll hnone hshows ?_ ?_⟩
  · rintro version ⟨call, hcall, hversion⟩ later ⟨other, hother, hlater⟩
    exact hkeys call hcall other hother version later hversion hlater
  · exact fun call hcall version hversion => ⟨call, hcall, hversion⟩

/-- There is only one answer to a call. -/
theorem IsAnswered.eq_of_readText {call : ParseCall} {result : Except Fault (Option σ)}
    {text? : Option String} (h : call.IsAnswered parse result)
    (htext : call.view.readText call.name = .ok text?) :
    result = .ok (text?.map fun text => parse call.name text call.languageVersion) := by
  rcases call.view.exists_read call.name with ⟨data?, hread, hhas, hsame⟩
  rw [hsame] at htext
  cases htext
  cases h with
  | absent missing =>
    rw [CompilerView.hasFile, missing] at hhas
    obtain rfl : data? = none :=
      Option.not_isSome_iff_eq_none.1 (Bool.eq_false_iff.1 (Except.ok.inj hhas).symm)
    rfl
  | parsed present served =>
    rw [CompilerView.read, served] at hread
    cases hread
    rfl

theorem runAll_never_stale_edited :
    ∃ (original edited removed : FileTree) (new : ParseCache String),
      FileTree.ofFiles (FileMap.ofPairs [("/a.ts", Bytes.ofString "x")]) = .ok original ∧
      FileTree.ofFiles (FileMap.ofPairs [("/a.ts", Bytes.ofString "y")]) = .ok edited ∧
      FileTree.ofFiles ∅ = .ok removed ∧
      ParseCache.create 1 = .ok new ∧
      runAll (fun name text languageVersion => name ++ ":" ++ text ++ ":" ++ languageVersion) new
          [⟨⟨original⟩, "a.ts", "es5"⟩, ⟨⟨edited⟩, "a.ts", "es5"⟩, ⟨⟨removed⟩, "a.ts", "es5"⟩,
            ⟨⟨original⟩, "/a.ts", "es5"⟩] =
        [.ok (some "a.ts:x:es5"), .ok (some "a.ts:y:es5"), .ok none,
          .ok (some "/a.ts:x:es5")] := by
  obtain ⟨original, horiginal, hx⟩ : ∃ tree,
      FileTree.ofFiles (FileMap.ofPairs [("/a.ts", Bytes.ofString "x")]) = .ok tree ∧
        tree.readText "/a.ts" = .ok (some "x") := ⟨_, rfl, rfl⟩
  obtain ⟨edited, hedited, hy⟩ : ∃ tree,
      FileTree.ofFiles (FileMap.ofPairs [("/a.ts", Bytes.ofString "y")]) = .ok tree ∧
        tree.readText "/a.ts" = .ok (some "y") := ⟨_, rfl, rfl⟩
  obtain ⟨removed, hremoved, hnone⟩ : ∃ tree, FileTree.ofFiles ∅ = .ok tree ∧
      tree.readText "/a.ts" = .ok none := ⟨_, rfl, rfl⟩
  have hrooted : CompilerView.rooted "a.ts" = "/a.ts" := rfl
  have hread : ∀ tree text?, tree.readText "/a.ts" = .ok text? →
      (CompilerView.mk tree).readText "a.ts" = .ok text? ∧
        (CompilerView.mk tree).readText "/a.ts" = .ok text? := by
    intro tree text? htext
    refine ⟨?_, htext⟩
    rwa [CompilerView.readText, hrooted]
  -- The calls ask for three files, and all of those have different keys.
  have hversions : ∀ call ∈ [ParseCall.mk ⟨original⟩ "a.ts" "es5", ⟨⟨edited⟩, "a.ts", "es5"⟩,
      ⟨⟨removed⟩, "a.ts", "es5"⟩, ⟨⟨original⟩, "/a.ts", "es5"⟩], ∀ version,
      call.version? = some version → version ∈ [SourceVersion.mk "a.ts" "x" "es5",
        ⟨"a.ts", "y", "es5"⟩, ⟨"/a.ts", "x", "es5"⟩] := by
    simp [version?, hread original _ hx, hread edited _ hy, hread removed _ hnone]
  have hdistinct : ∀ version ∈ [SourceVersion.mk "a.ts" "x" "es5", ⟨"a.ts", "y", "es5"⟩,
      ⟨"/a.ts", "x", "es5"⟩], ∀ later ∈ [SourceVersion.mk "a.ts" "x" "es5",
        ⟨"a.ts", "y", "es5"⟩, ⟨"/a.ts", "x", "es5"⟩], version.key = later.key →
          version = later := by
    decide +kernel
  have hcapacity : 0 < 1 := by decide
  rcases @runAll_never_stale String
    (fun name text languageVersion => name ++ ":" ++ text ++ ":" ++ languageVersion) 1 hcapacity _
    fun call hcall other hother version later hversion hlater =>
      hdistinct version (hversions call hcall version hversion) later
        (hversions other hother later hlater) with ⟨new, hnew, hanswers⟩
  refine ⟨original, edited, removed, new, horiginal, hedited, hremoved, hnew, ?_⟩
  -- What the calls return is read off from the law only.
  generalize runAll _ new _ = results at hanswers ⊢
  rcases hanswers with _ | ⟨hfirst, _ | ⟨hsecond, _ | ⟨hthird, _ | ⟨hfourth, _ | _⟩⟩⟩⟩
  rw [hfirst.eq_of_readText (hread original _ hx).1, hsecond.eq_of_readText (hread edited _ hy).1,
    hthird.eq_of_readText (hread removed _ hnone).1,
    hfourth.eq_of_readText (hread original _ hx).2]
  rfl

end ParseCall
end BuildTree
