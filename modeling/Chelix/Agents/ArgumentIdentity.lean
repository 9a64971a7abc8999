import Chelix.Agents.CanonicalText

/-!
# Which arguments have one identity
-/

namespace Chelix.Agents

open Library ToolLoopDetector

theorem canonicalize_normalize (value : Json) :
    Plain value → canonicalize value.normalize = canonicalize value := by
  induction value using Json.induct with
  | hnull | hbool _ | hstr _ => exact fun _ => rfl
  | hnum n =>
    intro h
    cases n with
    | posInt _ | negInt _ => rfl
    | float text =>
      have hzero : text ≠ "-0.0" := by
        have hplain : isPlainNumber (.float text) = true := h
        unfold isPlainNumber at hplain
        rw [Bool.and_eq_true] at hplain
        exact of_decide_eq_true hplain.2
      have hsame : (JsonNumber.float text).normalize = .float text := congrArg _ (if_neg hzero)
      rw [Json.normalize, hsame]
  | harr elems ih =>
    intro h
    rw [Json.normalize_arr, canonicalize, canonicalize, canonicalizeList_eq, canonicalizeList_eq,
      List.map_map]
    have hmap : elems.map (canonicalize ∘ Json.normalize) = elems.map canonicalize :=
      List.map_congr_left fun v hv => ih v hv (plain_arr_iff.mp h v hv)
    rw [hmap]
  | hobj fields ih =>
    intro h
    have hmap : (sortByKey Prod.fst fields).map
          ((fun f : String × Json => (f.1, canonicalize f.2)) ∘ fun f => (f.1, f.2.normalize)) =
        (sortByKey Prod.fst fields).map fun f => (f.1, canonicalize f.2) := by
      refine List.map_congr_left fun f hf => ?_
      have hf' := (mem_sortByKey _).mp hf
      exact Prod.ext rfl (ih f hf' (plain_obj_iff.mp h f hf').2)
    rw [Json.normalize_obj, canonicalize, canonicalize, canonicalizeFields_eq,
      canonicalizeFields_eq, List.map_map, hmap, Json.sortByKey_map_fst, Json.sortByKey_map_fst,
      sortByKey_of_pairwise Prod.fst (pairwise_sortByKey Prod.fst fields)]

/-- **Plain values have one text** if and only if they are equal. -/
theorem canonicalize_eq_iff {a b : Json} (ha : Plain a) (hb : Plain b) :
    canonicalize a = canonicalize b ↔ a.normalize = b.normalize := by
  constructor
  · intro h
    have htext : canonicalText a ++ [] = canonicalText b ++ [] :=
      congrArg (fun s : String => s.toList ++ []) h
    exact (canonicalText_inj a ha b hb [] [] (fun c hc => by cases hc) (fun c hc => by cases hc)
      htext).1
  · intro h
    rw [← canonicalize_normalize a ha, ← canonicalize_normalize b hb, h]

/-! ## Identities -/

/-- The fingerprint of an outcome holds the hash of its arguments. -/
def Fingerprinted (hash : String → UInt64) (f : ToolCallFingerprint) : Prop :=
  f.argsHash = ToolCallFingerprint.hashValue hash f.arguments

/-- The hash tells the argument texts of two outcomes apart. -/
def HashSeparates (hash : String → UInt64) (f g : ToolCallFingerprint) : Prop :=
  hash (canonicalize f.arguments) = hash (canonicalize g.arguments) →
    canonicalize f.arguments = canonicalize g.arguments

section

variable {hash : String → UInt64} {f g : ToolCallFingerprint}

theorem argumentIdentity_eq_iff (hf : Fingerprinted hash f) (hg : Fingerprinted hash g)
    (hhash : HashSeparates hash f g) (hplain : Plain f.arguments) (hplain' : Plain g.arguments) :
    f.argumentIdentity = g.argumentIdentity ↔
      f.toolName = g.toolName ∧ f.arguments.normalize = g.arguments.normalize := by
  unfold ToolCallFingerprint.argumentIdentity
  rw [FailureIdentity.arguments.injEq, ← canonicalize_eq_iff hplain hplain']
  refine and_congr_right fun _ => ?_
  rw [hf, hg]
  exact ⟨hhash, congrArg hash⟩

theorem mem_unsuppressed_iff {outcomes : List ToolCallFingerprint} (hmem : f ∈ outcomes)
    (hfailed : f.failed = true) :
    f ∈ unsuppressed outcomes ↔
      ∀ g ∈ outcomes, g.failed = false → g.argumentIdentity ≠ f.argumentIdentity := by
  unfold unsuppressed survives successfulOperations
  rw [List.mem_filter, Bool.and_eq_true, decide_eq_true_eq, List.mem_map]
  constructor
  · rintro ⟨-, -, hnone⟩ g hg hsuccess heq
    exact hnone ⟨g, List.mem_filter.mpr ⟨hg, by rw [hsuccess]; rfl⟩, heq⟩
  · intro hnone
    refine ⟨hmem, hfailed, ?_⟩
    rintro ⟨g, hg, heq⟩
    obtain ⟨hg, hsuccess⟩ := List.mem_filter.mp hg
    exact hnone g hg (by simpa using hsuccess) heq

end

/-- **Plain arguments are identified exactly**: two values have one text if and only if they are
equal; and in a batch with plain arguments, whose texts the hash tells apart, two outcomes have one
identity if and only if their tools and arguments are the same, and a failure is suppressed if and
only if the same tool succeeds with the same arguments. -/
theorem plain_arguments_identified (hash : String → UInt64)
    (outcomes : List ToolCallFingerprint) :
    (∀ a b, Plain a → Plain b → (canonicalize a = canonicalize b ↔ a.normalize = b.normalize)) ∧
      ((∀ f ∈ outcomes, Fingerprinted hash f ∧ Plain f.arguments) →
      (∀ f ∈ outcomes, ∀ g ∈ outcomes, HashSeparates hash f g) →
      ∀ f ∈ outcomes,
        (∀ g ∈ outcomes, f.argumentIdentity = g.argumentIdentity ↔
          f.toolName = g.toolName ∧ f.arguments.normalize = g.arguments.normalize) ∧
        (f.failed = true → (f ∉ unsuppressed outcomes ↔ ∃ g ∈ outcomes, g.failed = false ∧
          g.toolName = f.toolName ∧ g.arguments.normalize = f.arguments.normalize))) := by
  refine ⟨fun a b => canonicalize_eq_iff, fun hplain hhash f hf => ?_⟩
  have hidentity : ∀ f ∈ outcomes, ∀ g ∈ outcomes, f.argumentIdentity = g.argumentIdentity ↔
      f.toolName = g.toolName ∧ f.arguments.normalize = g.arguments.normalize :=
    fun f hf g hg => argumentIdentity_eq_iff (hplain f hf).1 (hplain g hg).1 (hhash f hf g hg)
      (hplain f hf).2 (hplain g hg).2
  refine ⟨hidentity f hf, fun hfailed => ?_⟩
  rw [mem_unsuppressed_iff hf hfailed]
  push Not
  refine exists_congr fun g => and_congr_right fun hg => and_congr_right fun _ => ?_
  exact hidentity g hg f hf

/-- A plain value with a nested object. -/
def plainArguments : Json :=
  .obj [("path", .str "a,b"), ("range", .arr [.num (.posInt 1), .num (.negInt (-2))])]

/-- The same with its fields in another order. -/
def reorderedArguments : Json :=
  .obj [("range", .arr [.num (.posInt 1), .num (.negInt (-2))]), ("path", .str "a,b")]

theorem canonicalize_reordered : canonicalize plainArguments = canonicalize reorderedArguments := by
  decide

/-- A failure and a success of one tool. -/
def reorderedOutcomes : List ToolCallFingerprint :=
  [.failure String.hash "read_file" plainArguments none,
    .success String.hash "read_file" reorderedArguments]

theorem plain_arguments_identified_reordered :
    (canonicalize plainArguments = canonicalize reorderedArguments ↔
      plainArguments.normalize = reorderedArguments.normalize) ∧
    .failure String.hash "read_file" plainArguments none ∉ unsuppressed reorderedOutcomes := by
  obtain ⟨htexts, hbatch⟩ := plain_arguments_identified String.hash reorderedOutcomes
  have hrecorded : ∀ f ∈ reorderedOutcomes,
      Fingerprinted String.hash f ∧ Plain f.arguments := by
    refine List.forall_mem_cons.mpr ⟨⟨rfl, by decide⟩, List.forall_mem_singleton.mpr ⟨rfl, ?_⟩⟩
    decide
  have htext : ∀ f ∈ reorderedOutcomes,
      canonicalize f.arguments = canonicalize plainArguments :=
    List.forall_mem_cons.mpr ⟨rfl, List.forall_mem_singleton.mpr canonicalize_reordered.symm⟩
  have hhash : ∀ f ∈ reorderedOutcomes, ∀ g ∈ reorderedOutcomes,
      HashSeparates String.hash f g :=
    fun f hf g hg _ => (htext f hf).trans (htext g hg).symm
  refine ⟨htexts plainArguments reorderedArguments (by decide) (by decide), ?_⟩
  have hfailure := (hbatch hrecorded hhash _ List.mem_cons_self).2
  exact (hfailure rfl).mpr ⟨_, List.mem_cons_of_mem _ List.mem_cons_self, rfl, rfl, by decide⟩

/-- **A quotation mark is not escaped**: one string and two strings have one text. -/
theorem unescaped_quote_collides :
    ¬∀ a b : Json, canonicalize a = canonicalize b ↔ a.normalize = b.normalize := by
  intro h
  have htext : canonicalize (.arr [.str "a\",\"b"]) = canonicalize (.arr [.str "a", .str "b"]) := by
    decide
  have hequal := (h _ _).mp htext
  exact absurd hequal (by decide)

end Chelix.Agents
