import Argus.Actions.Targets
import Argus.Rca.Determinism

/-!
# Remediation candidates

Every candidate of an analysis is a request for diagnostics, or a template of a matched rule filled
in from one signal that selected the rule and accepted by the action catalog. What the catalog does
not check about a target is as the signal has it.
-/

namespace Argus.Rca

open Actions (Action CachePrefix DNSLabel Documented allowedFlags globCharacters)
open Correlation
open Evidence (Collector)
open Incidents (IncidentRow IncidentTopology Time)

/-! ## Rendered templates -/

/-- A candidate that a template gives for a match. -/
structure Rendered (m : Match) (template : CandidateTemplate) (c : Candidate) : Prop where
  actionType : c.actionType = template.actionType
  parameters : c.parameters = template.parameters
  risk : c.risk = template.risk
  nonempty : (template.source m.service m.labels).1 ≠ ""
  target : c.target = if template.targetFormat = "" then (template.source m.service m.labels).1
    else Strings.sprintf template.targetFormat (template.source m.service m.labels).1
  valid : Actions.validate template.actionType c.target template.parameters = .ok ()

variable {c : Candidate} {template : CandidateTemplate} {m : Match} {quote : String → String}

theorem rendered_of_renderTemplate (h : renderTemplate quote m template = .ok c) :
    Rendered m template c := by
  unfold renderTemplate CandidateTemplate.render at h
  dsimp only at h
  by_cases hempty : (template.source m.service m.labels).1 = ""
  · rw [if_pos hempty] at h
    cases h
  · rw [if_neg hempty] at h
    split at h
    · cases h
    · rename_i target parameters heq
      split at heq
      · cases heq
      · rename_i hvalid
        cases heq
        cases h
        exact ⟨rfl, rfl, rfl, hempty, rfl, hvalid⟩

theorem source_of_service (h : template.targetLabel = "") (service : String)
    (labels : Incidents.Labels) : (template.source service labels).1 = service := by
  rw [CandidateTemplate.source, if_pos h]

theorem source_of_label (h : template.targetLabel ≠ "")
    (hfallback : template.fallbackToService = false) (service : String) (labels : Incidents.Labels) :
    (template.source service labels).1 = labels.get template.targetLabel := by
  simp [CandidateTemplate.source, h, hfallback]

/-- A template without a format gives a candidate where the catalog accepts its source. -/
theorem renderTemplate_eq_ok {target : String}
    (hsource : (template.source m.service m.labels).1 = target) (hne : target ≠ "")
    (hformat : template.targetFormat = "")
    (hvalid : Actions.validate template.actionType target template.parameters = .ok ())
    (quote : String → String) : ∃ c, renderTemplate quote m template = .ok c := by
  unfold renderTemplate CandidateTemplate.render
  dsimp only
  rw [hsource, if_neg hne, if_pos hformat, hvalid]
  exact ⟨_, rfl⟩

theorem targetMatch_mem (score : HypothesisScore) : targetMatch score ∈ score.found.all := by
  unfold targetMatch
  cases hfind : score.found.all.find? (·.service = score.run.service) with
  | none => exact List.mem_cons_self
  | some m => exact List.mem_of_find?_eq_some hfind

/-- The candidates of a score are its templates that render; diagnostics stand in where none does.
-/
theorem mem_renderCandidates {score : HypothesisScore} (h : c ∈ (renderCandidates quote score).1) :
    (∃ template ∈ score.rule.remediations,
      renderTemplate quote (targetMatch score) template = .ok c) ∨
    ((∀ template ∈ score.rule.remediations, ∀ c',
      renderTemplate quote (targetMatch score) template ≠ .ok c') ∧
      c = diagnostics (targetMatch score).service) := by
  unfold renderCandidates at h
  dsimp only at h
  split at h
  · rename_i hnone
    refine .inr ⟨fun template htemplate c' hc' => ?_, List.mem_singleton.mp h⟩
    rw [List.isEmpty_iff, List.filterMap_eq_nil_iff] at hnone
    have := hnone _ (List.mem_map_of_mem htemplate)
    rw [hc'] at this
    cases this
  · obtain ⟨rendered, hrendered, hsome⟩ := List.mem_filterMap.mp h
    obtain ⟨template, htemplate, rfl⟩ := List.mem_map.mp hrendered
    refine .inl ⟨template, htemplate, ?_⟩
    cases hcase : renderTemplate quote (targetMatch score) template with
    | error e => rw [hcase] at hsome; cases hsome
    | ok c' => rw [hcase] at hsome; rw [Option.some.inj hsome]

/-! ## Candidates of an analysis -/

section

variable {quote : String → String} {correlator : Correlator} {collector : RuleID → Collector}
  {at_ : Time} {incident : IncidentRow} {signals : List Signal} {topology : IncidentTopology}

/-- The match that gives the targets of a score is that of a signal. -/
theorem exists_signal_of_targetMatch (hids : (correlator.rules.map Rule.id).Nodup)
    {best : HypothesisScore}
    (hbest : best ∈ scoresOf quote collector at_ incident (correlator.matchAll incident signals)) :
    (targetMatch best).rule = best.rule ∧
      ∃ signal ∈ signals, correlator.matchOf incident signal = some (targetMatch best) := by
  have hscored := scored_of_mem (consistent_matchAll hids incident signals) hbest
  have hmem := targetMatch_mem best
  refine ⟨hscored.rule _ hmem, ?_⟩
  rw [hscored.found] at hmem
  exact Correlator.mem_matchAll.mp (List.mem_filter.mp hmem).1

/-- Every candidate asks for diagnostics, or is a template filled in from a signal that selected its
rule. -/
theorem candidate_cases
    (hsufficient : ∀ rule ∈ correlator.rules, rule.hypothesis ≠ insufficientHypothesis)
    (hids : (correlator.rules.map Rule.id).Nodup)
    (hc : c ∈ (analyze quote correlator collector at_ incident signals topology).candidates) :
    c.actionType = "collect_diagnostics" ∨
      ∃ signal ∈ signals, ∃ m, correlator.matchOf incident signal = some m ∧
        ∃ template ∈ m.rule.remediations, Rendered m template c := by
  by_cases hmatch : ∃ signal ∈ signals, (correlator.ruleOf signal).isSome = true
  · obtain ⟨best, hbest, -, heq⟩ := analyze_of_match quote correlator collector at_ incident
      signals topology hsufficient hids hmatch
    rw [heq, enrichWithTopology_candidates, conclude_candidates] at hc
    split at hc
    · rw [List.mem_singleton.mp hc]
      exact .inl rfl
    · rcases mem_renderCandidates hc with ⟨template, htemplate, hrender⟩ | ⟨-, rfl⟩
      · obtain ⟨hrule, signal, hsignal, hm⟩ := exists_signal_of_targetMatch hids hbest
        exact .inr ⟨signal, hsignal, _, hm, template, hrule ▸ htemplate,
          rendered_of_renderTemplate hrender⟩
      · exact .inl rfl
  · have hnone : ∀ signal ∈ signals, correlator.ruleOf signal = none := fun signal hsignal =>
      Option.not_isSome_iff_eq_none.mp fun hsome => hmatch ⟨signal, hsignal, hsome⟩
    rw [analyze_of_no_match quote correlator collector at_ incident signals topology hnone,
      enrichWithTopology_candidates, applyTopologyFallback] at hc
    split at hc
    · rw [List.mem_singleton.mp hc]
      exact .inl rfl
    · rw [List.mem_singleton.mp hc]
      exact .inl rfl

end

/-! ## Documented targets -/

/-- Where the templates of the compiled table take their targets from. -/
theorem template_cases : ∀ rule ∈ defaultRules, ∀ template ∈ rule.remediations,
    (template.targetLabel = "" ∧ template.targetFormat = "" ∧
      ∃ action ∈ Actions.serviceScoped, template.actionType = action.name) ∨
    (template.actionType = Action.restartPod.name ∧ template.targetFormat = "local/%s") ∨
    (template.actionType = Action.purgeCache.name ∧ template.targetFormat = "" ∧
      template.targetLabel = "cache_key_pattern" ∧ template.fallbackToService = false) ∨
    template.actionType = Action.toggleFeatureFlag.name := by
  decide +kernel

theorem sprintf_local (value : String) : Strings.sprintf "local/%s" value = "local/" ++ value := by
  have hformat : "local/%s".toList = ['l', 'o', 'c', 'a', 'l', '/', '%', 's'] := by decide +kernel
  have hlocal : "local/".toList = ['l', 'o', 'c', 'a', 'l', '/'] := by decide +kernel
  rw [← String.toList_inj, Strings.sprintf, String.toList_ofList, hformat, String.toList_append,
    hlocal]
  simp [Strings.sprintfIn]

/-- What the catalog leaves unchecked of a signal: the service it is attributed to is a DNS label,
and its cache key pattern has no glob character but `*`. -/
structure WellFormed (incident : IncidentRow) (signal : Signal) : Prop where
  service : DNSLabel (signalService incident signal (signalLabels signal))
  pattern : ∀ c ∈ ((signalLabels signal).get "cache_key_pattern").toList,
    c ∉ ['?', '[', ']', '\\']

end Argus.Rca
