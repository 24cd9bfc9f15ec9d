import Argus.Incidents.Store
import Argus.Rca.Scores
import Mathlib.Algebra.Order.Field.Rat
import Mathlib.Tactic.NormNum

/-!
# Confidence is bounded by evidence

The score that an analysis reports is clamped to the bound that its independent sources set,
topology moves it by a small amount and never past that bound, and a contradicted hypothesis
supports nothing but diagnostics.
-/

namespace Argus.Rca

open Correlation (Correlator Rule RuleID Signal validateRules)
open Evidence (Collector Result)
open Incidents (IncidentRow IncidentTopology Time)

/-! ## Bounds -/

variable {best s : HypothesisScore} {incident : IncidentRow} {ms : List Correlation.Match}
  {collector : RuleID → Collector} {quote : String → String} {at_ : Time} {max min value : ℚ}

theorem le_clamp (h : min ≤ max) : min ≤ clamp value min max := by
  unfold clamp
  split_ifs with hlow hhigh
  · exact le_rfl
  · exact h
  · exact not_lt.mp hlow

theorem clamp_le (h : min ≤ max) : clamp value min max ≤ max := by
  unfold clamp
  split_ifs with hlow hhigh
  · exact h
  · exact le_rfl
  · exact not_lt.mp hhigh

theorem baselineConfidence_le_sourceCap (sources : ℕ) : baselineConfidence ≤ sourceCap sources := by
  unfold baselineConfidence sourceCap
  split_ifs <;> norm_num

/-- A small step up from a value within the bounds stays within them. -/
theorem clamp_add_bounds {step : ℚ} (hstep : 0 ≤ step) (hmin : min ≤ value) (hmax : value ≤ max) :
    value ≤ clamp (value + step) min max ∧ clamp (value + step) min max ≤ value + step := by
  unfold clamp
  split_ifs with hlow hhigh
  · exact absurd hlow (by linarith)
  · exact ⟨hmax, hhigh.le⟩
  · exact ⟨by linarith, le_rfl⟩

/-! ## Scores -/

/-- The sources of a score are the alert and the backends that corroborated its cause. -/
theorem Scored.cap (h : Scored quote collector at_ incident ms s) :
    s.cap = sourceCap (1 + (causeBackends s.run.results).length) := by
  have hlength : s.sources.length = 1 + (causeBackends s.run.results).length := by
    rw [h.eq]
    change (alertSource :: Sorting.sortStrings _).length = _
    rw [List.length_cons, (Sorting.sortStrings_perm _).length_eq, List.length_map, Nat.add_comm]
    rfl
  have hcap : s.cap = sourceCap s.sources.length := by rw [h.eq]; rfl
  rw [hcap, hlength]

theorem Scored.confidence_bounds (h : Scored quote collector at_ incident ms s) :
    baselineConfidence ≤ s.confidence ∧ s.confidence ≤ s.cap := by
  have hcap := baselineConfidence_le_sourceCap (1 + (causeBackends s.run.results).length)
  rw [← h.cap] at hcap
  have hclamp : s.confidence = clamp s.raw baselineConfidence s.cap := by rw [h.eq]; rfl
  rw [hclamp]
  exact ⟨le_clamp hcap, clamp_le hcap⟩

/-- The rank puts contradicted rules last, and then the greater confidence first. -/
theorem confidence_le_of_rank_le (h : best.rank ≤ s.rank) (hs : s.contradicted = false) :
    best.contradicted = false ∧ s.confidence ≤ best.confidence := by
  rw [HypothesisScore.rank, HypothesisScore.rank, Prod.Lex.toLex_le_toLex] at h
  rw [hs] at h
  rcases h with hlt | ⟨heq, hrest⟩
  · exact absurd hlt (by simp)
  · refine ⟨heq, ?_⟩
    rw [Prod.Lex.toLex_le_toLex] at hrest
    rcases hrest with hlt | ⟨hconfidence, -⟩
    · exact (OrderDual.toDual_lt_toDual.mp hlt).le
    · exact (OrderDual.toDual_inj.mp hconfidence).ge

/-- Topology moves the confidence of a score by at most 0.03 and never past its bound. -/
theorem enriched_confidence_bounds (quote : String → String) (items : List RCAEvidence)
    (topology : IncidentTopology) (hlow : baselineConfidence ≤ best.confidence)
    (hhigh : best.confidence ≤ best.cap) :
    let c := (enrichWithTopology (conclude quote best items) topology).confidence
    best.confidence ≤ c ∧ c ≤ best.confidence + 3 / 100 ∧ c ≤ best.cap := by
  intro c
  rcases enrichWithTopology_cases (conclude quote best items) topology with
    ⟨hconfidence, -⟩ | ⟨-, -, -, -, hconfidence, -⟩
  · rw [conclude_confidence] at hconfidence
    have hc : c = best.confidence := hconfidence
    rw [hc]
    exact ⟨le_rfl, by linarith, hhigh⟩
  · have hc : c = clamp (best.confidence + 3 / 100) baselineConfidence best.cap := by
      rw [conclude_confidence, conclude_score] at hconfidence
      exact hconfidence
    rw [hc]
    have hnonneg : (0 : ℚ) ≤ 3 / 100 := by norm_num
    obtain ⟨hup, hstep⟩ := clamp_add_bounds hnonneg hlow hhigh
    exact ⟨hup, hstep, clamp_le (hlow.trans hhigh)⟩

/-! ## The reported confidence -/

/-- Confidence is bounded by evidence. The rules that signals match have one score each, of the
results of their own probes; the reported one is not contradicted if any is not, has the greatest
confidence among those, and is bounded by the backends that corroborated its cause. -/
theorem confidence_bounded (quote : String → String) (correlator : Correlator)
    (hvalid : validateRules correlator.rules = .ok ())
    (hsufficient : ∀ rule ∈ correlator.rules, rule.hypothesis ≠ insufficientHypothesis)
    (collector : RuleID → Collector) (at_ : Time) (incident : IncidentRow) (signals : List Signal)
    (topology : IncidentTopology) :
    let result := analyze quote correlator collector at_ incident signals topology
    let scores := scoresOf quote collector at_ incident (correlator.matchAll incident signals)
    (∀ rule, (∃ s ∈ scores, s.rule = rule) ↔
      ∃ signal ∈ signals, correlator.ruleOf signal = some rule) ∧
    (∀ s ∈ scores, ∃ service,
      s.run.results = (collector s.rule.id).run quote s.rule.probes service at_) ∧
    ((∃ signal ∈ signals, (correlator.ruleOf signal).isSome = true) →
      ∃ best ∈ scores, result.ruleID = best.rule.id ∧ result.hypothesis = best.rule.hypothesis ∧
        35 / 100 ≤ result.confidence ∧
        result.confidence ≤ sourceCap (1 + (causeBackends best.run.results).length) ∧
        (55 / 100 < result.confidence →
          ∃ r ∈ best.run.results, r.status = .corroborated ∧ r.symptom = false) ∧
        ((∃ s ∈ scores, s.contradicted = false) → best.contradicted = false) ∧
        (∀ s ∈ scores, s.contradicted = false → s.confidence ≤ best.confidence) ∧
        0 ≤ result.confidence - best.confidence ∧
        result.confidence - best.confidence ≤ 3 / 100 ∧
        (weightOf .corroborated best.run.results < weightOf .refuted best.run.results →
          result.candidates.map (·.actionType) = ["collect_diagnostics"])) ∧
    ((∀ signal ∈ signals, correlator.ruleOf signal = none) →
      (result.confidence = 35 / 100 ∨ result.confidence = 58 / 100 ∨
        result.confidence = 72 / 100) ∧
      ∀ c ∈ result.candidates, c.actionType = "collect_diagnostics") := by
  intro result scores
  have hids := Correlation.nodup_ids_of_validateRules hvalid
  have hms := consistent_matchAll hids incident signals
  refine ⟨fun rule => (exists_score_iff hms).trans Correlator.exists_match_iff, fun s hs => ?_,
    fun hmatch => ?_, fun hmatch => ?_⟩
  · obtain ⟨m, -, hrun⟩ := (scored_of_mem hms hs).run
    exact ⟨m.service, by rw [hrun]⟩
  · obtain ⟨best, hbest, hleast, heq⟩ := analyze_of_match quote correlator collector at_ incident
      signals topology hsufficient hids hmatch
    have hscored := scored_of_mem hms hbest
    obtain ⟨hlow, hhigh⟩ := hscored.confidence_bounds
    obtain ⟨hup, hstep, hcap⟩ := enriched_confidence_bounds quote (scores.flatMap evidenceItems)
      topology hlow hhigh
    have hresult : result.confidence = (enrichWithTopology (conclude quote best
      (scores.flatMap evidenceItems)) topology).confidence := congrArg Analysis.confidence heq
    rw [← hresult] at hup hstep hcap
    rw [hscored.cap] at hcap
    refine ⟨best, hbest, ?_, ?_, hlow.trans hup, hcap, fun hhalf => ?_, ?_, ?_,
      by linarith, by linarith, fun hrefuted => ?_⟩
    · rw [show result = _ from heq, enrichWithTopology_ruleID, conclude_ruleID]
    · rw [show result = _ from heq, enrichWithTopology_hypothesis, conclude_hypothesis]
    · -- without such a probe the alert is the only source
      by_contra hnone
      have hnil : causeBackends best.run.results = [] := by
        rw [causeBackends, List.filter_eq_nil_iff.mpr]
        · rfl
        · intro r hr hcause
          exact hnone ⟨r, hr, of_decide_eq_true hcause⟩
      rw [hnil] at hcap
      exact absurd hhalf (not_lt.mpr hcap)
    · rintro ⟨s, hs, hcontradicted⟩
      exact (confidence_le_of_rank_le (hleast s hs) hcontradicted).1
    · exact fun s hs hcontradicted => (confidence_le_of_rank_le (hleast s hs) hcontradicted).2
    · have hcontradicted : best.contradicted = true := by
        rw [hscored.eq]
        exact decide_eq_true hrefuted
      rw [show result = _ from heq, enrichWithTopology_candidates, conclude_candidates,
        if_pos hcontradicted]
      rfl
  · have heq := analyze_of_no_match quote correlator collector at_ incident signals topology hmatch
    have hunchanged : ∀ r : Analysis, r.ruleID = "" →
        (enrichWithTopology r topology).confidence = r.confidence := by
      intro r hr
      rcases enrichWithTopology_cases r topology with ⟨h, -⟩ | ⟨-, -, hne, -⟩
      · exact h
      · exact absurd hr hne
    rw [show result = _ from heq, enrichWithTopology_candidates]
    unfold applyTopologyFallback
    split
    · rw [hunchanged _ rfl]
      exact ⟨.inl rfl, by simp [insufficientEvidence, diagnostics]⟩
    · rw [hunchanged _ rfl]
      refine ⟨.inr ?_, by simp [diagnostics]⟩
      cases topology.rootInferred
      · exact .inr rfl
      · exact .inl rfl

/-! ## An alert that no backend corroborates -/

/-- An incident of a service. -/
def incidentFor (service : String) : IncidentRow :=
  Incidents.newIncident "inc_test" 0 "demo" ⟨service, "test incident", "sev2", "", "", "", 0⟩

/-- A signal of an alert, with labels besides its name and its service. -/
def alertSignal (name service : String) (extra : Incidents.Labels) (observedAt : Time) : Signal :=
  let labels := ("alertname", name) :: ("service", service) :: extra
  { id := "sig_" ++ name
    incidentID := "inc_test"
    serviceID := ""
    source := "alertmanager"
    signalType := "alert"
    severity := ""
    name := name
    body := .ofMembers [("labels", .obj (labels.map fun l => (l.1, .str l.2)))]
    observedAt := observedAt
    createdAt := 0 }

/-- The topology of an incident without suppressed alerts. -/
def noTopology : IncidentTopology := ⟨"inc_test", "", false, [], 0, 0, []⟩

/-- A table of one rule. -/
def diskRules : List Rule :=
  [{ id := "disk"
     hypothesis := "Disk full"
     alertNames := ["Disk"]
     probes := [⟨"d", .loki, Evidence.serviceVariable, .above, 0, 1 / 10, "c", false⟩]
     remediations := [] }]

/-- An alert alone is worth 0.45. -/
theorem confidence_bounded_disk :
    let result := analyze id ⟨diskRules⟩ (fun _ => ⟨fun _ => none⟩) 0 (incidentFor "api")
      [alertSignal "Disk" "api" [] 1] noTopology
    validateRules diskRules = .ok () ∧
      (∀ rule ∈ diskRules, rule.hypothesis ≠ insufficientHypothesis) ∧
      result.confidence = 45 / 100 ∧ 35 / 100 ≤ result.confidence := by
  have hvalid : validateRules diskRules = .ok () := by decide +kernel
  have hsufficient : ∀ rule ∈ diskRules, rule.hypothesis ≠ insufficientHypothesis := by
    decide +kernel
  obtain ⟨-, -, hmatched, -⟩ := confidence_bounded id ⟨diskRules⟩ hvalid hsufficient
    (fun _ => ⟨fun _ => none⟩) 0 (incidentFor "api") [alertSignal "Disk" "api" [] 1] noTopology
  obtain ⟨best, -, -, -, hlow, -⟩ := hmatched ⟨_, List.mem_singleton_self _, by decide +kernel⟩
  exact ⟨hvalid, hsufficient, by decide +kernel, hlow⟩

end Argus.Rca
