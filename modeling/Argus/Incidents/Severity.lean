import Argus.Incidents.Routing

/-!
# The severity of an inferred root

The incident of an inferred root takes the highest severity of its alerts. Two functions treat a
severity that is none of `sev1` to `sev4`: `severityRank`, by which the highest is found, ranks it
with `sev4`, and `defaultSeverity`, which is applied where a severity is stored, makes it `sev3`. So
a group whose severities are all unknown is stored as `sev4`, below each of its alerts; a group with
a severity above `sev4`, or with known ones only, is stored at least as severe as each.
-/

namespace Argus.Incidents

open Sorting Topology

variable {alerts : List NormalizedAlert}

/-! ## The highest severity -/

/-- A severity that the store keeps as it is. -/
def Known (severity : String) : Prop := severity ∈ ["sev1", "sev2", "sev3", "sev4"]

instance : DecidablePred Known := fun severity => inferInstanceAs (Decidable (severity ∈ _))

theorem known_of_severityRank_lt {severity : String} (h : severityRank severity < 4) :
    Known severity := by
  unfold severityRank at h
  split at h
  · simp_all [Known]
  · split at h
    · simp_all [Known]
    · split at h
      · simp_all [Known]
      · omega

theorem severityRank_le (severity : String) : severityRank severity ≤ 4 := by
  unfold severityRank
  split
  · omega
  · split
    · omega
    · split <;> omega

/-- One round of `highestSeverity`. -/
private def keepHigher (best : String) (a : NormalizedAlert) : String :=
  if severityRank a.severity < severityRank best then a.severity else best

private theorem severityRank_keepHigher (best : String) (a : NormalizedAlert) :
    severityRank (keepHigher best a) = min (severityRank a.severity) (severityRank best) := by
  unfold keepHigher
  split <;> omega

private theorem known_keepHigher {best : String} (h : Known best) (a : NormalizedAlert) :
    Known (keepHigher best a) := by
  unfold keepHigher
  split
  · rename_i hlt
    exact known_of_severityRank_lt (hlt.trans_le (severityRank_le best))
  · exact h

private theorem severityRank_foldl_keepHigher (alerts : List NormalizedAlert) (best : String) :
    severityRank (alerts.foldl keepHigher best) ≤ severityRank best ∧
      ∀ a ∈ alerts, severityRank (alerts.foldl keepHigher best) ≤ severityRank a.severity := by
  induction alerts generalizing best with
  | nil => exact ⟨le_rfl, by simp⟩
  | cons b alerts ih =>
    obtain ⟨hbest, halerts⟩ := ih (keepHigher best b)
    rw [severityRank_keepHigher] at hbest
    refine ⟨hbest.trans (min_le_right _ _), List.forall_mem_cons.mpr ⟨?_, halerts⟩⟩
    exact hbest.trans (min_le_left _ _)

theorem severityRank_highestSeverity_le {a : NormalizedAlert} (ha : a ∈ alerts) :
    severityRank (highestSeverity alerts) ≤ severityRank a.severity :=
  (severityRank_foldl_keepHigher alerts "sev4").2 a ha

theorem known_highestSeverity (alerts : List NormalizedAlert) : Known (highestSeverity alerts) := by
  have hinv : ∀ (l : List NormalizedAlert) best, Known best → Known (l.foldl keepHigher best) := by
    intro l
    induction l with
    | nil => exact fun _ h => h
    | cons b l ih => exact fun best h => ih _ (known_keepHigher h b)
  exact hinv alerts "sev4" (by decide)

theorem defaultSeverity_of_known {severity : String} (h : Known severity) :
    defaultSeverity severity = severity := if_pos h

theorem defaultSeverity_of_not_known {severity : String} (h : ¬ Known severity) :
    defaultSeverity severity = "sev3" := if_neg h

/-- The two treatments of unknown severities agree on these groups: no severity is unknown, or one
is above `sev4`. -/
def Comparable (alerts : List NormalizedAlert) : Prop :=
  (∀ a ∈ alerts, Known a.severity) ∨ ∃ a ∈ alerts, a.severity ∈ ["sev1", "sev2", "sev3"]

instance (alerts : List NormalizedAlert) : Decidable (Comparable alerts) :=
  inferInstanceAs (Decidable (_ ∨ _))

theorem severityRank_defaultSeverity_le (h : Comparable alerts) {a : NormalizedAlert}
    (ha : a ∈ alerts) :
    severityRank (defaultSeverity (highestSeverity alerts)) ≤
      severityRank (defaultSeverity a.severity) := by
  rw [defaultSeverity_of_known (known_highestSeverity alerts)]
  by_cases hknown : Known a.severity
  · rw [defaultSeverity_of_known hknown]
    exact severityRank_highestSeverity_le ha
  · rw [defaultSeverity_of_not_known hknown]
    rcases h with hall | ⟨b, hb, hsevere⟩
    · exact absurd (hall a ha) hknown
    · refine (severityRank_highestSeverity_le hb).trans ?_
      simp only [List.mem_cons, List.not_mem_nil, or_false] at hsevere
      rcases hsevere with heq | heq | heq <;> rw [heq] <;> decide

/-! ## The stored severity -/

/-- An alert with a severity. -/
private def severeAlert (service severity : String) : Alert :=
  { plainAlert "firing" service "Slow" "prod" "f" with
    labels := [("alertname", "Slow"), ("environment", "prod"), ("service", service),
      ("severity", severity)] }

/-- Two services that depend on a third. -/
private def sharedDependency : Db :=
  emptyDb [⟨"checkout-api", "payments-db"⟩, ⟨"orders-api", "payments-db"⟩]

def freshIDs (n : ℕ) : Oracle := { fresh := "id" ++ toString n }

/-- The first group has an inferred root and comparable severities, and opens or promotes an
incident. -/
def opensInferred : Graph × List NormalizedAlert × Progress → View → Bool
  | (graph, alerts, progress), v =>
      match (topologyGroupsByEnvironment graph alerts)[0]? with
      | none => false
      | some group =>
          match alertsForGroup alerts group with
          | [] => false
          | first :: rest => group.inferred && decide (Comparable (first :: rest)) &&
              (findOrCreateTopologyIncident ⟨100, 100⟩ graph group
                (rootAlertForGroup first (first :: rest) group.root)
                progress.openIncidents).returns freshIDs v fun r _ => r.2 ≠ .existing

end Argus.Incidents
