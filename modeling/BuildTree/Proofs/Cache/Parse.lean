import BuildTree.Cache.Parse
import BuildTree.Proofs.Cache.Recency
import BuildTree.Proofs.Cache.ReuseDistance

/-!
# Parse caches — when a file is parsed again

A parse cache shows the recency list of its parsed files.  A request for a file that the list has
returns what is held, and any other request parses the file and sets it, so that the list always
has the files that were asked for last.  Hence a file is parsed exactly if it was never asked for or
is forgotten by now, and asking whether a file is held changes nothing.
-/

namespace BuildTree

open LruCache

universe w

variable {σ : Type w}

/-- Something to ask of a parse cache. -/
inductive ParseRequest (σ : Type w)
  | parsed (name text languageVersion : String) (parse : Unit → σ)
  | contains (name text languageVersion : String)

namespace ParseRequest

def usedKey? : ParseRequest σ → Option ContentKey
  | .parsed name text languageVersion _ => some (ParseCache.key name text languageVersion)
  | .contains _ _ _ => none

/-- The keys that requests use, in the order of the requests. -/
def usedKeys (requests : List (ParseRequest σ)) : List ContentKey :=
  requests.filterMap usedKey?

end ParseRequest

namespace ParseCache

/-! ## Requests -/

/-- The cache after a request. -/
def after (sources : ParseCache σ) : ParseRequest σ → ParseCache σ
  | .parsed name text languageVersion parse =>
      (sources.getOrParse name text languageVersion parse).2
  | .contains _ _ _ => sources

def afterAll (sources : ParseCache σ) (requests : List (ParseRequest σ)) : ParseCache σ :=
  requests.foldl after sources

/-- A request for the file would parse it: that is counted, and the outcome is the parsed file. -/
def Parses (sources : ParseCache σ) (name text languageVersion : String) : Prop :=
  ∀ parse : Unit → σ,
    (sources.getOrParse name text languageVersion parse).1 = parse () ∧
      (sources.getOrParse name text languageVersion parse).2.misses = sources.misses + 1

/-- A request for the file would not parse it: the outcome does not depend on the parse, and none is
counted. -/
def Reuses (sources : ParseCache σ) (name text languageVersion : String) : Prop :=
  ∃ held : σ, ∀ parse : Unit → σ,
    (sources.getOrParse name text languageVersion parse).1 = held ∧
      (sources.getOrParse name text languageVersion parse).2.misses = sources.misses

section Step

variable {sources : ParseCache σ} {capacity : Nat} {entries : RecencyList ContentKey σ}
  {name text languageVersion : String} {used : List ContentKey}

theorem getOrParse_of_held (h : Shows sources.cache capacity entries) {held : σ}
    (hheld : entries.lookup (key name text languageVersion) = some held) (parse : Unit → σ) :
    (sources.getOrParse name text languageVersion parse).1 = held ∧
      (sources.getOrParse name text languageVersion parse).2.misses = sources.misses ∧
      Shows (sources.getOrParse name text languageVersion parse).2.cache capacity
        (entries.get (key name text languageVersion)).2 := by
  rcases h.get (key name text languageVersion) with ⟨hfound, hafter⟩
  rw [RecencyList.fst_get, hheld] at hfound
  unfold getOrParse
  dsimp only
  split
  · rename_i hit cache hget
    rw [hget] at hfound hafter
    exact ⟨Option.some.inj hfound, rfl, hafter⟩
  · rename_i cache hget
    rw [hget] at hfound
    cases hfound

theorem getOrParse_of_missed (h : Shows sources.cache capacity entries)
    (hmissed : entries.lookup (key name text languageVersion) = none) (parse : Unit → σ) :
    (sources.getOrParse name text languageVersion parse).1 = parse () ∧
      (sources.getOrParse name text languageVersion parse).2.misses = sources.misses + 1 ∧
      Shows (sources.getOrParse name text languageVersion parse).2.cache capacity
        (entries.set capacity (key name text languageVersion) (parse ())).2 := by
  rcases h.get (key name text languageVersion) with ⟨hfound, hafter⟩
  rw [RecencyList.fst_get, hmissed] at hfound
  -- Looking a key up that is not there leaves the list as it is.
  rw [RecencyList.get, hmissed] at hafter
  unfold getOrParse
  dsimp only
  split
  · rename_i hit cache hget
    rw [hget] at hfound
    cases hfound
  · rename_i cache hget
    rw [hget] at hafter
    exact ⟨rfl, rfl, (hafter.set _ _).2⟩

theorem reuses_of_held (h : Shows sources.cache capacity entries) {held : σ}
    (hheld : entries.lookup (key name text languageVersion) = some held) :
    sources.Reuses name text languageVersion := by
  refine ⟨held, fun parse => ?_⟩
  rcases getOrParse_of_held h hheld parse with ⟨hvalue, hmisses, -⟩
  exact ⟨hvalue, hmisses⟩

theorem parses_of_missed (h : Shows sources.cache capacity entries)
    (hmissed : entries.lookup (key name text languageVersion) = none) :
    sources.Parses name text languageVersion := by
  intro parse
  rcases getOrParse_of_missed h hmissed parse with ⟨hvalue, hmisses, -⟩
  exact ⟨hvalue, hmisses⟩

/-- No request both parses and reuses, since one of them is counted. -/
theorem Parses.not_reuses (h : sources.Parses name text languageVersion) :
    ¬sources.Reuses name text languageVersion := by
  rintro ⟨held, hreuses⟩
  have hcounted := (h fun _ => held).2
  rw [(hreuses fun _ => held).2] at hcounted
  exact Nat.succ_ne_self _ hcounted.symm

/-! ## Histories -/

/-- A cache that holds the files of the keys that were used last. -/
def KeepsRecent (sources : ParseCache σ) (capacity : Nat) (used : List ContentKey) : Prop :=
  ∃ entries, Shows sources.cache capacity entries ∧
    entries.map (·.1) = (recentKeys used).take capacity

theorem KeepsRecent.getOrParse (h : KeepsRecent sources capacity used) (hcapacity : 0 < capacity)
    (name text languageVersion : String) (parse : Unit → σ) :
    KeepsRecent (sources.getOrParse name text languageVersion parse).2 capacity
      (used ++ [key name text languageVersion]) := by
  rcases h with ⟨entries, hshows, hkeys⟩
  cases hlookup : entries.lookup (key name text languageVersion) with
  | none =>
    exact ⟨_, (getOrParse_of_missed hshows hlookup parse).2.2,
      RecencyList.Follows.set hkeys hcapacity _ _⟩
  | some held =>
    have hmem : key name text languageVersion ∈ entries.map (·.1) :=
      RecencyList.isSome_lookup_iff.1 (by rw [hlookup]; rfl)
    exact ⟨_, (getOrParse_of_held hshows hlookup parse).2.2,
      RecencyList.Follows.get hkeys hcapacity hmem⟩

/-- Requests keep it so that a cache holds what was used last, in front of what was used before. -/
theorem KeepsRecent.afterAll (h : KeepsRecent sources capacity used) (hcapacity : 0 < capacity)
    (requests : List (ParseRequest σ)) :
    KeepsRecent (sources.afterAll requests) capacity (used ++ ParseRequest.usedKeys requests) := by
  induction requests generalizing sources used with
  | nil => rwa [ParseRequest.usedKeys, List.filterMap_nil, List.append_nil]
  | cons request requests ih =>
    cases request with
    | parsed name text languageVersion parse =>
      -- The key of the request is the last of the keys used up to here.
      have hrest := ih (h.getOrParse hcapacity name text languageVersion parse)
      rwa [List.append_assoc] at hrest
    | contains name text languageVersion => exact ih h

theorem KeepsRecent.reuses_iff (h : KeepsRecent sources capacity used) :
    sources.Reuses name text languageVersion ↔
      ¬Forgotten capacity used (key name text languageVersion) := by
  rcases h with ⟨entries, hshows, hkeys⟩
  rw [forgotten_iff, not_not, ← hkeys, ← RecencyList.isSome_lookup_iff]
  -- What is held is reused, and what is not held is parsed.
  cases hlookup : entries.lookup (key name text languageVersion) with
  | none => exact iff_of_false (parses_of_missed hshows hlookup).not_reuses Bool.false_ne_true
  | some held => exact iff_of_true (reuses_of_held hshows hlookup) rfl

theorem KeepsRecent.parses_iff (h : KeepsRecent sources capacity used) :
    sources.Parses name text languageVersion ↔
      Forgotten capacity used (key name text languageVersion) := by
  constructor
  · intro hparses
    by_contra hheld
    exact hparses.not_reuses (h.reuses_iff.2 hheld)
  · intro hforgotten
    rcases h with ⟨entries, hshows, hkeys⟩
    rw [forgotten_iff, ← hkeys, ← RecencyList.isSome_lookup_iff, Option.not_isSome_iff_eq_none]
      at hforgotten
    exact parses_of_missed hshows hforgotten

theorem KeepsRecent.contains_iff (h : KeepsRecent sources capacity used) :
    sources.contains name text languageVersion = true ↔
      key name text languageVersion ∈ (recentKeys used).take capacity := by
  rcases h with ⟨entries, hshows, hkeys⟩
  rw [contains, hshows.contains_eq, RecencyList.isSome_lookup_iff, hkeys]

end Step

/-! ## New caches -/

theorem create_shows (σ : Type w) {capacity : Nat} (hcapacity : 0 < capacity) :
    ∃ new : ParseCache σ, create capacity = .ok new ∧ Shows new.cache capacity [] := by
  refine ⟨⟨LruCache.empty capacity, 0⟩, ?_, Shows.empty hcapacity⟩
  rw [create, LruCache.create, if_neg (Nat.ne_of_gt hcapacity)]
  rfl

theorem keepsRecent_afterAll {new : ParseCache σ} {capacity : Nat} (hcapacity : 0 < capacity)
    (hshows : Shows new.cache capacity []) (earlier : List (ParseRequest σ)) :
    KeepsRecent (new.afterAll earlier) capacity (ParseRequest.usedKeys earlier) := by
  have hempty : KeepsRecent new capacity [] := ⟨[], hshows, List.take_nil.symm⟩
  exact hempty.afterAll hcapacity earlier

/-- After any requests to a new cache, a request for a file parses it exactly if its key is
forgotten, and it reuses what is held otherwise; the files that are held are those of the keys that
were used last.  What one cache reuses, a cache with more room reuses as well. -/
theorem parses_iff_forgotten {capacity : Nat} (hcapacity : 0 < capacity)
    (earlier : List (ParseRequest σ)) :
    ∃ new : ParseCache σ, create capacity = .ok new ∧
      (∀ name text languageVersion,
        ((new.afterAll earlier).Parses name text languageVersion ↔
          Forgotten capacity (ParseRequest.usedKeys earlier) (key name text languageVersion)) ∧
        ((new.afterAll earlier).Reuses name text languageVersion ↔
          ¬Forgotten capacity (ParseRequest.usedKeys earlier) (key name text languageVersion)) ∧
        ((new.afterAll earlier).contains name text languageVersion = true ↔
          key name text languageVersion ∈
            (recentKeys (ParseRequest.usedKeys earlier)).take capacity)) ∧
      ∀ larger, capacity ≤ larger → ∃ roomier : ParseCache σ, create larger = .ok roomier ∧
        ∀ name text languageVersion, (new.afterAll earlier).Reuses name text languageVersion →
          (roomier.afterAll earlier).Reuses name text languageVersion := by
  rcases create_shows σ hcapacity with ⟨new, hnew, hshows⟩
  have hkeeps := keepsRecent_afterAll hcapacity hshows earlier
  refine ⟨new, hnew, ?_, ?_⟩
  · intro name text languageVersion
    exact ⟨hkeeps.parses_iff, hkeeps.reuses_iff, hkeeps.contains_iff⟩
  · intro larger hle
    have hlarger : 0 < larger := Nat.lt_of_lt_of_le hcapacity hle
    rcases create_shows σ hlarger with ⟨roomier, hroomier, hshows'⟩
    have hkeeps' := keepsRecent_afterAll hlarger hshows' earlier
    refine ⟨roomier, hroomier, ?_⟩
    intro name text languageVersion hreuses
    -- What a smaller cache has not forgotten, a larger one has not either.
    exact hkeeps'.reuses_iff.2 fun hforgotten =>
      hkeeps.reuses_iff.1 hreuses (hforgotten.of_le hle)

theorem parses_iff_forgotten_two_slots :
    ∃ new : ParseCache Nat, create 2 = .ok new ∧
      (new.afterAll [.parsed "a.ts" "x" "es5" fun _ => 1, .parsed "b.ts" "x" "es5" fun _ => 2,
        .contains "a.ts" "x" "es5", .parsed "b.ts" "y" "es5" fun _ => 3]).Parses
          "a.ts" "x" "es5" ∧
      (new.afterAll [.parsed "a.ts" "x" "es5" fun _ => 1, .parsed "b.ts" "x" "es5" fun _ => 2,
        .contains "a.ts" "x" "es5", .parsed "b.ts" "y" "es5" fun _ => 3]).Reuses
          "b.ts" "x" "es5" := by
  have hcapacity : 0 < 2 := by decide
  rcases parses_iff_forgotten hcapacity
    ([.parsed "a.ts" "x" "es5" fun _ => 1, .parsed "b.ts" "x" "es5" fun _ => 2,
      .contains "a.ts" "x" "es5", .parsed "b.ts" "y" "es5" fun _ => 3] :
        List (ParseRequest Nat)) with ⟨new, hnew, hlaws, -⟩
  refine ⟨new, hnew, (hlaws _ _ _).1.2 ?_, (hlaws _ _ _).2.1.2 ?_⟩
  · decide +kernel
  · decide +kernel

/-! ## Caches in use -/

/-- What there is of a cache after a request is what requests to its entries leave behind. -/
theorem reachable_after {sources : ParseCache σ} (h : sources.cache.Reachable)
    (request : ParseRequest σ) : (sources.after request).cache.Reachable := by
  cases request with
  | contains name text languageVersion => exact h
  | parsed name text languageVersion parse =>
    have hfound := h.answered (.get (key name text languageVersion))
    rw [after, getOrParse]
    dsimp only
    split
    · rename_i hit cache hget
      rw [LruCache.answer, hget] at hfound
      exact hfound
    · rename_i cache hget
      rw [LruCache.answer, hget] at hfound
      exact hfound.answered (.set (key name text languageVersion) (parse ()))

end ParseCache
end BuildTree
