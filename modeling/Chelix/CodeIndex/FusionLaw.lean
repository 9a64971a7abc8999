import Chelix.CodeIndex.HybridSearch
import Chelix.Library.Delimited
import Chelix.Memory.HybridSearch
import Mathlib.Tactic.Linarith
import Mathlib.Tactic.Positivity
import Mathlib.Tactic.Ring

/-!
# What the merges of two result lists give

* **`hybrid_searches_agree_iff`**: when two searches of the memory store or of the code index over
  the same rows give the same list.
* **`fusion_faithful`**: which chunks the merges return, and in which order.
-/

namespace Chelix.CodeIndex

open Chelix.Library List Memory.SearchResult

/-! ## The same answer twice -/

/-- **Hybrid search gives the same list for every iteration of its hash map exactly if no tie
reaches into the limit**: two different chunks with the same sum of contributions have `limit`
chunks with greater sums. -/
theorem hybrid_searches_agree_iff (query : String) (limit : ℕ) :
    (∀ {Score Embedding : Type} [LinearOrder Score] [Zero Score] [Add Score] [Mul Score]
      [Div Score] [NatCast Score] (store : Memory.MemoryStore Score Embedding)
      (embedder : Memory.EmbeddingProvider Embedding) (vectorWeight keywordWeight : Score)
      (strategy : Memory.MergeStrategy),
      (∀ i j, Memory.hybridSearch i store embedder query limit vectorWeight keywordWeight strategy =
        Memory.hybridSearch j store embedder query limit vectorWeight keywordWeight strategy) ↔
      TieFree Memory.SearchResult.chunkId
        (Memory.contributions strategy limit vectorWeight keywordWeight
          (Memory.vectorResults store embedder query limit)
          (Memory.keywordResults store query limit)) limit) ∧
    ∀ {Score RankScore Embedding : Type} [LinearOrder Score] [LinearOrder RankScore]
      [Zero RankScore] [Add RankScore] [Div RankScore] [NatCast RankScore]
      (cosineSimilarity : Embedding → Embedding → Score) (store : CodeIndexStore Score Embedding)
      (embedder : Option (EmbedBatch Embedding)) (projectId : String),
      (∀ i j : Iteration (SearchResult Score × RankScore),
        searchBuiltin cosineSimilarity i store embedder projectId query limit =
          searchBuiltin cosineSimilarity j store embedder projectId query limit) ↔
      ∀ lists ∈ mergedLists cosineSimilarity store embedder projectId query limit,
        TieFree fusionKey (rankContributions RankScore lists.1 lists.2) limit :=
  ⟨fun _ _ _ _ _ => Memory.hybridSearch_agree_iff, fun _ _ _ _ => searchBuiltin_agree_iff⟩

/-- A chunk that is first in the vector results. -/
def firstChunk : Memory.SearchResult ℚ := ⟨"a", "notes.md", "daily", 1, 5, 9, "first"⟩

/-- A chunk that is first in the keyword results. -/
def secondChunk : Memory.SearchResult ℚ := ⟨"b", "notes.md", "daily", 6, 8, 4, "second"⟩

def tiedStore : Memory.MemoryStore ℚ Unit where
  vectorSearch _ _ _ := [firstChunk]
  keywordSearch _ _ := [secondChunk]
  chunkText _ := none

theorem tied_chunks_differ :
    Memory.hybridSearch .inOrder tiedStore ⟨fun _ => (), "m"⟩ "rust" 1 1 1 .rrf ≠
      Memory.hybridSearch .reversed tiedStore ⟨fun _ => (), "m"⟩ "rust" 1 1 1 .rrf := by
  decide +kernel

/-! ## Ranks -/

section Ranks

variable {α κ : Type} [DecidableEq κ] (key : α → κ)

/-- The rank of a key in a list; a key that is not in the list is behind all ranks. -/
def rankOf (l : List α) (c : κ) : WithTop ℕ :=
  match l.findIdx? fun a => key a = c with
  | some rank => rank
  | none => ⊤

def share (g : ℕ → ℚ) : WithTop ℕ → ℚ
  | none => 0
  | some rank => g rank

/-- At least as high in both lists, and strictly higher in one that has a positive weight. -/
def RankedAbove (vectorWeight keywordWeight : ℚ) (vector keyword : List α) (c d : κ) : Prop :=
  rankOf key vector c ≤ rankOf key vector d ∧ rankOf key keyword c ≤ rankOf key keyword d ∧
  ((0 < vectorWeight ∧ rankOf key vector c < rankOf key vector d) ∨
    (0 < keywordWeight ∧ rankOf key keyword c < rankOf key keyword d))

variable {key}

theorem total_shares {l : List α} (h : (l.map key).Nodup) (g : ℕ → ℚ) (c : κ) :
    total key (l.mapIdx fun rank a => (a, g rank)) c = share g (rankOf key l c) := by
  rw [total_mapIdx h]
  unfold rankOf
  cases l.findIdx? fun a => key a = c <;> rfl

theorem share_le {g : ℕ → ℚ} (hg : ∀ rank, 0 ≤ g rank) (hanti : Antitone g) {r s : WithTop ℕ}
    (h : r ≤ s) : share g s ≤ share g r := by
  cases s with
  | top =>
    cases r with
    | top => exact le_rfl
    | coe r => exact hg r
  | coe s =>
    cases r with
    | top => exact absurd h (by simp)
    | coe r => exact hanti (WithTop.coe_le_coe.mp h)

theorem share_lt {g : ℕ → ℚ} (hg : ∀ rank, 0 < g rank) (hanti : StrictAnti g) {r s : WithTop ℕ}
    (h : r < s) : share g s < share g r := by
  cases s with
  | top =>
    cases r with
    | top => exact absurd h (lt_irrefl _)
    | coe r => exact hg r
  | coe s =>
    cases r with
    | top => exact absurd h (by simp)
    | coe r => exact hanti (WithTop.coe_lt_coe.mp h)

/-- The share of a weight at a rank. -/
def weightShare (weight k : ℚ) (rank : ℕ) : ℚ := weight / (k + rank)

variable {weight k : ℚ}

theorem weightShare_nonneg (hw : 0 ≤ weight) (hk : 0 < k) (rank : ℕ) :
    0 ≤ weightShare weight k rank := by
  unfold weightShare
  positivity

theorem weightShare_antitone (hw : 0 ≤ weight) (hk : 0 < k) : Antitone (weightShare weight k) := by
  intro rank later hle
  have hcast : (rank : ℚ) ≤ later := Nat.cast_le.mpr hle
  unfold weightShare
  exact div_le_div_of_nonneg_left hw (by positivity) (by linarith)

theorem weightShare_pos (hw : 0 < weight) (hk : 0 < k) (rank : ℕ) :
    0 < weightShare weight k rank := by
  unfold weightShare
  positivity

theorem weightShare_strictAnti (hw : 0 < weight) (hk : 0 < k) :
    StrictAnti (weightShare weight k) := by
  intro rank later hlt
  have hcast : (rank : ℚ) < later := Nat.cast_lt.mpr hlt
  unfold weightShare
  exact div_lt_div_of_pos_left hw (by positivity) (by linarith)

/-- **A chunk that is ranked above another has a greater sum.** -/
theorem share_add_lt {vectorWeight keywordWeight : ℚ} (hv : 0 ≤ vectorWeight)
    (hk : 0 ≤ keywordWeight) (hpos : 0 < k) {vector keyword : List α} {c d : κ}
    (h : RankedAbove key vectorWeight keywordWeight vector keyword c d) :
    share (weightShare vectorWeight k) (rankOf key vector d) +
        share (weightShare keywordWeight k) (rankOf key keyword d) <
      share (weightShare vectorWeight k) (rankOf key vector c) +
        share (weightShare keywordWeight k) (rankOf key keyword c) := by
  obtain ⟨hvector, hkeyword, hstrict⟩ := h
  have hvle := share_le (weightShare_nonneg hv hpos) (weightShare_antitone hv hpos) hvector
  have hkle := share_le (weightShare_nonneg hk hpos) (weightShare_antitone hk hpos) hkeyword
  rcases hstrict with ⟨hw, hlt⟩ | ⟨hw, hlt⟩
  · have := share_lt (weightShare_pos hw hpos) (weightShare_strictAnti hw hpos) hlt
    linarith
  · have := share_lt (weightShare_pos hw hpos) (weightShare_strictAnti hw hpos) hlt
    linarith

end Ranks

/-! ## The merges of the memory store -/

section Memory

variable {vector keyword : List (Memory.SearchResult ℚ)} {vectorWeight keywordWeight : ℚ}

/-- The score of a chunk in a list; a chunk that is not in the list counts as scored 0. -/
def scoreOf (results : List (Memory.SearchResult ℚ)) (c : String) : ℚ :=
  ((results.find? fun r => r.chunkId = c).map Memory.SearchResult.score).getD 0

/-- At least as high in both lists, and strictly higher in one that has a positive weight. -/
def ScoredAbove (vectorWeight keywordWeight : ℚ) (vector keyword : List (Memory.SearchResult ℚ))
    (c d : String) : Prop :=
  scoreOf vector d ≤ scoreOf vector c ∧ scoreOf keyword d ≤ scoreOf keyword c ∧
  ((0 < vectorWeight ∧ scoreOf vector d < scoreOf vector c) ∨
    (0 < keywordWeight ∧ scoreOf keyword d < scoreOf keyword c))

theorem total_linearGains {results : List (Memory.SearchResult ℚ)}
    (h : (results.map chunkId).Nodup) (weight : ℚ) (c : String) :
    total chunkId (Memory.linearGains weight results) c =
      scoreOf results c * weight := by
  unfold Memory.linearGains scoreOf
  rw [total_of_nodup (by rwa [map_map]), List.find?_map]
  cases hfind : results.find? fun r => r.chunkId = c with
  | none =>
    have hnone : results.find? ((fun item : Memory.SearchResult ℚ × ℚ =>
        decide (item.1.chunkId = c)) ∘ fun r => (r, r.score * weight)) = none := hfind
    rw [hnone, Option.map_none, Option.map_none, Option.map_none]
    exact (zero_mul weight).symm
  | some r =>
    have hsome : results.find? ((fun item : Memory.SearchResult ℚ × ℚ =>
        decide (item.1.chunkId = c)) ∘ fun r => (r, r.score * weight)) = some r := hfind
    rw [hsome]
    rfl

theorem total_rrfGains {results : List (Memory.SearchResult ℚ)}
    (h : (results.map chunkId).Nodup) (limit : ℕ) (weight : ℚ) (c : String) :
    total chunkId (Memory.rrfGains limit weight results) c =
      share (weightShare weight (limit * 2 + 1))
        (rankOf chunkId results c) := by
  have hshare : ∀ rank : ℕ,
      ((limit * 2 : ℕ) : ℚ) + rank + ((1 : ℕ) : ℚ) = limit * 2 + 1 + rank := by
    intro rank
    push_cast
    ring
  rw [← total_shares h]
  unfold Memory.rrfGains weightShare
  simp only [hshare]

theorem collectResults_ranksOnce (i : Iteration (Memory.SearchResult ℚ × ℚ))
    (gains : List (Memory.SearchResult ℚ × ℚ)) :
    RanksOnce chunkId score
      (gains.map fun gain => gain.1.chunkId).toFinset (total chunkId gains)
      (Memory.collectResults i gains) := by
  rw [Memory.collectResults_eq]
  have hranks : RanksOnce (fun entry => (Memory.withScore entry).chunkId)
      (fun entry => (Memory.withScore entry).score) _ _ _ :=
    @ranking_ranksOnce _ _ _ _ _ _ _ chunkId i gains
  exact hranks.map

/-- **Linear merge.** -/
theorem mergeResults_faithful (hv : 0 ≤ vectorWeight) (hk : 0 ≤ keywordWeight)
    (hvector : (vector.map chunkId).Nodup)
    (hkeyword : (keyword.map chunkId).Nodup)
    (i : Iteration (Memory.SearchResult ℚ × ℚ)) :
    RanksOnce chunkId score
      ((vector ++ keyword).map chunkId).toFinset
      (fun c => scoreOf vector c * vectorWeight + scoreOf keyword c * keywordWeight)
      (Memory.mergeResults i vector keyword vectorWeight keywordWeight) ∧
    (Memory.mergeResults i vector keyword vectorWeight keywordWeight).Pairwise fun first later =>
      ¬ ScoredAbove vectorWeight keywordWeight vector keyword later.chunkId first.chunkId := by
  have hranks := collectResults_ranksOnce i
    (Memory.linearGains vectorWeight vector ++ Memory.linearGains keywordWeight keyword)
  have hsums : total chunkId
      (Memory.linearGains vectorWeight vector ++ Memory.linearGains keywordWeight keyword) =
        fun c => scoreOf vector c * vectorWeight + scoreOf keyword c * keywordWeight := by
    funext c
    rw [total_append, total_linearGains hvector, total_linearGains hkeyword]
  have hkeys : (Memory.linearGains vectorWeight vector ++
      Memory.linearGains keywordWeight keyword).map (fun gain => gain.1.chunkId) =
        (vector ++ keyword).map chunkId := by
    unfold Memory.linearGains
    rw [map_append, map_append, map_map, map_map]
    rfl
  rw [hsums, hkeys] at hranks
  refine ⟨hranks, hranks.dominance fun c d habove => ?_⟩
  obtain ⟨hvle, hkle, ⟨hw, hlt⟩ | ⟨hw, hlt⟩⟩ := habove
  · have hstrict := mul_lt_mul_of_pos_right hlt hw
    have hother := mul_le_mul_of_nonneg_right hkle hk
    linarith
  · have hstrict := mul_lt_mul_of_pos_right hlt hw
    have hother := mul_le_mul_of_nonneg_right hvle hv
    linarith

theorem map_rrfGains (limit : ℕ) (weight : ℚ) (results : List (Memory.SearchResult ℚ)) :
    (Memory.rrfGains limit weight results).map (fun gain => gain.1.chunkId) =
      results.map chunkId := by
  unfold Memory.rrfGains
  refine ext_getElem? fun n => ?_
  simp only [List.getElem?_map, List.getElem?_mapIdx, Option.map_map]
  rfl

/-- **Merge by ranks.** -/
theorem mergeResultsRrf_faithful (hv : 0 ≤ vectorWeight) (hk : 0 ≤ keywordWeight)
    (hvector : (vector.map chunkId).Nodup)
    (hkeyword : (keyword.map chunkId).Nodup) (limit : ℕ)
    (i : Iteration (Memory.SearchResult ℚ × ℚ)) :
    RanksOnce chunkId score
      ((vector ++ keyword).map chunkId).toFinset
      (fun c => share (weightShare vectorWeight (limit * 2 + 1))
          (rankOf chunkId vector c) +
        share (weightShare keywordWeight (limit * 2 + 1))
          (rankOf chunkId keyword c))
      (Memory.mergeResultsRrf i vector keyword vectorWeight keywordWeight limit) ∧
    (Memory.mergeResultsRrf i vector keyword vectorWeight keywordWeight limit).Pairwise
      fun first later => ¬ RankedAbove chunkId vectorWeight keywordWeight
        vector keyword later.chunkId first.chunkId := by
  have hranks := collectResults_ranksOnce i
    (Memory.rrfGains limit vectorWeight vector ++ Memory.rrfGains limit keywordWeight keyword)
  have hsums : total chunkId
      (Memory.rrfGains limit vectorWeight vector ++ Memory.rrfGains limit keywordWeight keyword) =
        fun c => share (weightShare vectorWeight (limit * 2 + 1))
            (rankOf chunkId vector c) +
          share (weightShare keywordWeight (limit * 2 + 1))
            (rankOf chunkId keyword c) := by
    funext c
    rw [total_append, total_rrfGains hvector, total_rrfGains hkeyword]
  rw [hsums, map_append, map_rrfGains, map_rrfGains, ← map_append] at hranks
  refine ⟨hranks, hranks.dominance fun c d habove => ?_⟩
  exact share_add_lt hv hk (by positivity) habove

end Memory

/-! ## The merge of the code index -/

section CodeIndex

variable {Score Chunk : Type} [DecidableEq Chunk] {vector keyword : List (SearchResult Score)}
  {chunk : SearchResult Score → Chunk}

theorem fusionKey_inj {a b : SearchResult Score} :
    fusionKey a = fusionKey b ↔ a.path = b.path ∧ a.startLine = b.startLine := by
  constructor
  · intro h
    unfold fusionKey at h
    have hchars := congrArg (fun key => key.toList.reverse) h
    simp only [String.toList_append, reverse_append, append_assoc] at hchars
    have hdigits : ∀ n : ℕ, ∀ c ∈ (toString n).toList.reverse, c.isDigit = true := fun n c hc =>
      isDigit_of_mem_toString (mem_reverse.mp hc)
    have hcolon : ∀ path : List Char, ∀ c ∈ (":".toList.reverse ++ path).head?,
        c.isDigit = false := by
      intro path c hc
      obtain rfl : ':' = c := Option.some.inj hc
      rfl
    obtain ⟨hline, hpath⟩ := append_inj_of_head? (hdigits _) (hdigits _) (hcolon _) (hcolon _)
      hchars
    refine ⟨?_, toList_toString_injective (reverse_injective hline)⟩
    have hpath := append_cancel_left hpath
    exact String.toList_injective (reverse_injective hpath)
  · rintro ⟨hpath, hline⟩
    unfold fusionKey
    rw [hpath, hline]

theorem total_reciprocalGains {results : List (SearchResult Score)}
    (h : (results.map chunk).Nodup) (c : Chunk) :
    total chunk (reciprocalGains results : List (SearchResult Score × ℚ)) c =
      share (weightShare 1 60) (rankOf chunk results c) := by
  rw [← total_shares h]
  unfold reciprocalGains weightShare
  simp only [Nat.cast_one, Nat.cast_ofNat]

theorem map_rankContributions (vector keyword : List (SearchResult Score)) :
    (rankContributions ℚ vector keyword).map Prod.fst = vector ++ keyword := by
  have hgains : ∀ results : List (SearchResult Score),
      (reciprocalGains results : List (SearchResult Score × ℚ)).map Prod.fst = results := by
    intro results
    unfold reciprocalGains
    refine ext_getElem? fun n => ?_
    simp only [List.getElem?_map, List.getElem?_mapIdx, Option.map_map]
    exact Option.map_id_fun' ▸ rfl
  unfold rankContributions
  rw [map_append, hgains, hgains]

/-- **Merge by reciprocal ranks**, where different chunks do not start on the same line of a
file. -/
theorem mergedEntries_faithful (hvector : (vector.map chunk).Nodup)
    (hkeyword : (keyword.map chunk).Nodup)
    (hlines : ∀ a ∈ vector ++ keyword, ∀ b ∈ vector ++ keyword,
      (a.path = b.path ∧ a.startLine = b.startLine ↔ chunk a = chunk b))
    (i : Iteration (SearchResult Score × ℚ)) :
    RanksOnce (fun entry => chunk entry.1) Prod.snd ((vector ++ keyword).map chunk).toFinset
      (fun c => share (weightShare 1 60) (rankOf chunk vector c) +
        share (weightShare 1 60) (rankOf chunk keyword c)) (mergedEntries i vector keyword) ∧
    (mergedEntries i vector keyword).Pairwise fun first later =>
      ¬ RankedAbove chunk 1 1 vector keyword (chunk later.1) (chunk first.1) := by
  have hmem : ∀ gain ∈ rankContributions ℚ vector keyword, gain.1 ∈ vector ++ keyword := by
    intro gain hgain
    rw [← map_rankContributions]
    exact mem_map_of_mem hgain
  have hfuse : fuse fusionKey (rankContributions ℚ vector keyword) =
      fuse chunk (rankContributions ℚ vector keyword) :=
    fuse_congr fun a ha b hb => fusionKey_inj.trans (hlines a.1 (hmem a ha) b.1 (hmem b hb))
  have hranks := @ranking_ranksOnce _ _ _ _ _ _ _ chunk i (rankContributions ℚ vector keyword)
  have hkeys : fusedKeys chunk (rankContributions ℚ vector keyword) =
      ((vector ++ keyword).map chunk).toFinset := by
    unfold fusedKeys
    rw [← map_rankContributions, map_map]
    rfl
  have hsums : total chunk (rankContributions ℚ vector keyword) =
      fun c => share (weightShare 1 60) (rankOf chunk vector c) +
        share (weightShare 1 60) (rankOf chunk keyword c) := by
    funext c
    unfold rankContributions
    rw [total_append, total_reciprocalGains hvector, total_reciprocalGains hkeyword]
  rw [hsums, hkeys, ← hfuse] at hranks
  refine ⟨hranks, hranks.dominance fun c d habove => ?_⟩
  exact share_add_lt zero_le_one zero_le_one (by positivity) habove

end CodeIndex

/-- **The merges keep every chunk and its order.**  Each merge returns every chunk of the two lists
once and no other, by the sum of its contributions from both, and never behind a chunk that it is
above of in one list of positive weight and not below of in the other.  The code index tells
chunks apart by the line they start on. -/
theorem fusion_faithful {vectorWeight keywordWeight : ℚ} (hv : 0 ≤ vectorWeight)
    (hk : 0 ≤ keywordWeight) {vector keyword : List (Memory.SearchResult ℚ)}
    (hvector : (vector.map Memory.SearchResult.chunkId).Nodup)
    (hkeyword : (keyword.map Memory.SearchResult.chunkId).Nodup) (limit : ℕ)
    {Score Chunk : Type} [DecidableEq Chunk] {codeVector codeKeyword : List (SearchResult Score)}
    {chunk : SearchResult Score → Chunk} (hcodeVector : (codeVector.map chunk).Nodup)
    (hcodeKeyword : (codeKeyword.map chunk).Nodup)
    (hlines : ∀ a ∈ codeVector ++ codeKeyword, ∀ b ∈ codeVector ++ codeKeyword,
      (a.path = b.path ∧ a.startLine = b.startLine ↔ chunk a = chunk b)) :
    (∀ i, let results := Memory.mergeResults i vector keyword vectorWeight keywordWeight
      RanksOnce Memory.SearchResult.chunkId Memory.SearchResult.score
        ((vector ++ keyword).map Memory.SearchResult.chunkId).toFinset
        (fun c => scoreOf vector c * vectorWeight + scoreOf keyword c * keywordWeight) results ∧
      results.Pairwise fun first later =>
        ¬ ScoredAbove vectorWeight keywordWeight vector keyword later.chunkId first.chunkId) ∧
    (∀ i, let results := Memory.mergeResultsRrf i vector keyword vectorWeight keywordWeight limit
      RanksOnce Memory.SearchResult.chunkId Memory.SearchResult.score
        ((vector ++ keyword).map Memory.SearchResult.chunkId).toFinset
        (fun c => share (weightShare vectorWeight (limit * 2 + 1))
            (rankOf Memory.SearchResult.chunkId vector c) +
          share (weightShare keywordWeight (limit * 2 + 1))
            (rankOf Memory.SearchResult.chunkId keyword c)) results ∧
      results.Pairwise fun first later => ¬ RankedAbove Memory.SearchResult.chunkId vectorWeight
        keywordWeight vector keyword later.chunkId first.chunkId) ∧
    ∀ i : Iteration (SearchResult Score × ℚ), let results := mergedEntries i codeVector codeKeyword
      RanksOnce (fun entry => chunk entry.1) Prod.snd
        ((codeVector ++ codeKeyword).map chunk).toFinset
        (fun c => share (weightShare 1 60) (rankOf chunk codeVector c) +
          share (weightShare 1 60) (rankOf chunk codeKeyword c)) results ∧
      results.Pairwise fun first later =>
        ¬ RankedAbove chunk 1 1 codeVector codeKeyword (chunk later.1) (chunk first.1) :=
  ⟨mergeResults_faithful hv hk hvector hkeyword,
    mergeResultsRrf_faithful hv hk hvector hkeyword limit,
    mergedEntries_faithful hcodeVector hcodeKeyword hlines⟩

/-- The first part of a long line. -/
def lineStart : SearchResult ℚ := ⟨"app.js:1", "app.js", 1, 1, 3, "var a=1;".toList, "builtin"⟩

/-- The rest of the line and the line behind it. -/
def lineRest : SearchResult ℚ := ⟨"app.js:1", "app.js", 1, 2, 2, "run(a)".toList, "builtin"⟩

theorem fusion_faithful_overlap :
    RanksOnce Memory.SearchResult.chunkId Memory.SearchResult.score
      (([firstChunk, secondChunk] ++ [secondChunk]).map Memory.SearchResult.chunkId).toFinset
      (fun c => scoreOf [firstChunk, secondChunk] c * 2 + scoreOf [secondChunk] c * 1)
      (Memory.mergeResults .reversed [firstChunk, secondChunk] [secondChunk] 2 1) :=
  ((fusion_faithful (by decide : (0 : ℚ) ≤ 2) (by decide : (0 : ℚ) ≤ 1)
    (by decide : ([firstChunk, secondChunk].map Memory.SearchResult.chunkId).Nodup)
    (by decide : ([secondChunk].map Memory.SearchResult.chunkId).Nodup) 3
    (by decide : ([lineStart].map fun r => (r.path, r.startLine)).Nodup)
    (by decide : ([lineStart].map fun r => (r.path, r.startLine)).Nodup)
    (by decide)).1 .reversed).1

theorem zero_weight_puts_lower_first :
    (rankOf Memory.SearchResult.chunkId [firstChunk, secondChunk] "a" <
        rankOf Memory.SearchResult.chunkId [firstChunk, secondChunk] "b" ∧
      (Memory.mergeResultsRrf .reversed [] [firstChunk, secondChunk] 1 0 5).map
        Memory.SearchResult.chunkId = ["b", "a"]) ∧
    ((mergedEntries .inOrder [lineStart, lineRest] [] : List (SearchResult ℚ × ℚ)).map
      fun entry => entry.1.endLine) = [1] := by
  decide +kernel

end Chelix.CodeIndex
