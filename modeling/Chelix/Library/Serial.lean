/-!
# One operation after another

What a sequential order of operations on a shared value gives: the value after the last, and what
each of them reported.  Operations that read the value, compute, and write the result later are
equivalent to the order of their writes if each finds at its write the value that it read.
-/

namespace Chelix.Library

variable {σ κ ρ : Type}

/-- The operations one after another; `none` where one of them fails. -/
def runAll (op : κ → σ → Option (σ × ρ)) : List κ → σ → Option (σ × List ρ)
  | [], s => some (s, [])
  | k :: ks, s =>
    match op k s with
    | none => none
    | some (t, report) =>
      match runAll op ks t with
      | none => none
      | some (u, reports) => some (u, report :: reports)

theorem runAll_append_singleton {op : κ → σ → Option (σ × ρ)} {k : κ} {t u : σ} {report : ρ}
    (hop : op k t = some (u, report)) {ks : List κ} {s : σ} {reports : List ρ}
    (hks : runAll op ks s = some (t, reports)) :
    runAll op (ks ++ [k]) s = some (u, reports ++ [report]) := by
  induction ks generalizing s reports with
  | nil =>
    cases hks
    simp only [List.nil_append, runAll, hop]
  | cons k' ks ih =>
    simp only [runAll] at hks
    split at hks
    · cases hks
    · next v report' hop' =>
        split at hks
        · cases hks
        · next w reports' hrest =>
            cases hks
            simp only [List.cons_append, runAll, hop', ih hrest]

/-- What happened so far is what the operations give in this order. -/
def SerialLog (op : κ → σ → Option (σ × ρ)) (start : σ) (log : List (κ × ρ)) (now : σ) : Prop :=
  runAll op (log.map (·.1)) start = some (now, log.map (·.2))

namespace SerialLog

variable {op : κ → σ → Option (σ × ρ)} {start now next : σ} {log : List (κ × ρ)}

theorem nil : SerialLog op start [] start := rfl

theorem append (h : SerialLog op start log now) {k : κ} {report : ρ}
    (hop : op k now = some (next, report)) :
    SerialLog op start (log ++ [(k, report)]) next := by
  rw [SerialLog, List.map_append, List.map_append]
  exact runAll_append_singleton hop h

end SerialLog

end Chelix.Library
