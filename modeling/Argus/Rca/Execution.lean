import Argus.Rca.Candidates
import Argus.System.ApprovedAction
import Mathlib.Algebra.Order.BigOperators.Group.List

/-!
# From a candidate to its handler

A candidate with a remediation has a handler that accepts it, because the catalog already accepted
its target and its parameters. `collect_diagnostics` has none: a report that falls back to
diagnostics proposes what no local worker can run.
-/

namespace Argus.Rca

open Actions (Action CachePrefix allowedFlags)
open Correlation
open Evidence (Collector)
open Incidents (Incident IncidentRow IncidentTopology Time)
open Remediation (RemediationAction newRemediation)
open Argus.System (Config Message claimAndRun finishAndAck handleRemediation)
open Workers (defaultHandlers findHandler)

/-! ## Handlers -/

/-- What `Propose` receives for a candidate. -/
structure Proposes (c : Candidate) (p : Remediation.Candidate) : Prop where
  actionType : p.actionType = c.actionType
  target : p.target = c.target
  risk : p.risk = c.risk
  parameters : c.parameters.encoded = p.parameters.encoded

/-- A local worker takes the stored row to its handler. -/
def Runs (row : RemediationAction) : Prop :=
  ∃ handler, findHandler defaultHandlers row.actionType = some handler ∧
    handler.validate row.decoded = .ok () ∧
    ∀ (cfg : Config) (msg : Message) (status : Remediation.Status),
      cfg.handlers = defaultHandlers → status.isDispatchable = true →
      handleRemediation cfg msg { row.decoded with status := status } =
        claimAndRun cfg msg handler { row.decoded with status := status }

theorem registered_templates : ∀ rule ∈ defaultRules, ∀ template ∈ rule.remediations,
    (findHandler defaultHandlers template.actionType).isSome = true := by
  decide +kernel

theorem idempotencyKey_newRemediation_ne (engine : Policy.Engine) (incident : Incident)
    (p : Remediation.Candidate) (actor role id : String) (clock : Time) (recent failed : ℕ) :
    (newRemediation engine incident p actor role id clock recent failed).idempotencyKey ≠ "" := by
  intro hempty
  have hlist := congrArg String.toList hempty
  simp [newRemediation, Remediation.buildIdempotencyKey] at hlist

theorem runs_of_rendered {m : Match} {template : CandidateTemplate} {c : Candidate}
    (hrule : m.rule ∈ defaultRules) (htemplate : template ∈ m.rule.remediations)
    (hrendered : Rendered m template c) {p : Remediation.Candidate} (hp : Proposes c p)
    (engine : Policy.Engine) (incident : Incident) (actor role id : String) (clock : Time)
    (recent failed : ℕ) :
    Runs (newRemediation engine incident p actor role id clock recent failed) := by
  obtain ⟨handler, hhandler⟩ :=
    Option.isSome_iff_exists.mp (registered_templates m.rule hrule template htemplate)
  have haction : p.actionType = template.actionType := hp.actionType.trans hrendered.actionType
  have hname : handler.name = p.actionType := by
    have := List.find?_some hhandler
    rw [haction]
    simpa using this
  rw [← haction] at hhandler
  have hvalid := hrendered.valid
  rw [← haction, ← hp.target, ← hrendered.parameters] at hvalid
  have hkey := idempotencyKey_newRemediation_ne engine incident p actor role id clock recent failed
  have hstored := System.validate_stored hkey hp.parameters hvalid hname
  refine ⟨handler, hhandler, hstored, fun cfg msg status hhandlers hstatus => ?_⟩
  have haccepts : handler.validate { (newRemediation engine incident p actor role id clock recent
      failed).decoded with status := status } = .ok () := by
    rw [← hstored]
    cases handler <;> rfl
  unfold handleRemediation
  dsimp only
  rw [hstatus, Bool.not_true, if_neg Bool.false_ne_true, hhandlers,
    show findHandler defaultHandlers
      (newRemediation engine incident p actor role id clock recent failed).decoded.actionType =
        some handler from hhandler]
  dsimp only
  rw [haccepts]

/-! ## Targets -/

/-- What a rule of the compiled table needs of a signal to have a target. -/
def Targeted (incident : IncidentRow) (signal : Signal) (rule : Rule) : Prop :=
  if rule.id = redisMemoryPressure.id then
    CachePrefix ['*'] ((signalLabels signal).get "cache_key_pattern")
  else if rule.id = dependencyLatency.id then
    (signalLabels signal).get "degradable_feature_flag" ∈ allowedFlags
  else signalService incident signal (signalLabels signal) ≠ ""

theorem validate_service {action : Action} (haction : action = .drainPostgresConnections ∨
    action = .rollbackConfig) (target : String) (parameters : GoMap GoJson.Number) :
    Actions.validate action.name target parameters = .ok () := by
  rw [Actions.validate, Action.ofName_name]
  rcases haction with rfl | rfl <;> rfl

theorem validate_purgeCache {target : String} (h : CachePrefix ['*'] target) :
    Actions.validate Action.purgeCache.name target
      (.single "max_keys" (.num (.int 500)) rfl : GoMap GoJson.Number) = .ok () := by
  rw [Actions.validate, Action.ofName_name]
  dsimp only
  rw [Actions.validatePurgeCache, Actions.validateCachePrefix_eq_ok_iff.mpr h]
  decide +kernel

theorem validate_toggleFeatureFlag {target : String} (h : target ∈ allowedFlags) :
    Actions.validate Action.toggleFeatureFlag.name target
      (.single "enabled" (.bool false) rfl : GoMap GoJson.Number) = .ok () := by
  rw [Actions.validate, Action.ofName_name]
  dsimp only
  rw [Actions.validateToggleFeatureFlag, if_neg (not_not.mpr h)]
  decide +kernel

theorem exists_rendered {incident : IncidentRow} {signal : Signal} {m : Match}
    (hm : Correlator.new.matchOf incident signal = some m) (h : Targeted incident signal m.rule)
    (quote : String → String) :
    ∃ template ∈ m.rule.remediations, ∃ c, renderTemplate quote m template = .ok c := by
  obtain ⟨hruleOf, -, hservice, hlabels, -⟩ := Correlator.matchOf_eq_some hm
  have hrule : m.rule ∈ defaultRules := Correlator.mem_rules_of_ruleOf hruleOf
  unfold Targeted at h
  rw [← hlabels] at h hservice
  rw [← hservice] at h
  simp only [defaultRules, List.mem_cons, List.not_mem_nil, or_false] at hrule
  rcases hrule with hrule | hrule | hrule | hrule | hrule <;> rw [hrule] at h ⊢
  · rw [if_neg (by decide +kernel), if_neg (by decide +kernel)] at h
    refine ⟨_, List.mem_cons_self, renderTemplate_eq_ok (source_of_service rfl ..) h rfl ?_ quote⟩
    exact validate_service (.inl rfl) _ _
  · rw [if_pos rfl] at h
    refine ⟨_, List.mem_cons_self,
      renderTemplate_eq_ok (source_of_label (by decide +kernel) rfl ..) ?_ rfl ?_ quote⟩
    · rintro hempty
      obtain ⟨segment, -, -, heq⟩ := h
      have hchars := congrArg String.toList (heq.symm.trans hempty)
      simp at hchars
    · exact validate_purgeCache h
  · rw [if_neg (by decide +kernel), if_neg (by decide +kernel)] at h
    refine ⟨_, List.mem_cons_self, renderTemplate_eq_ok (source_of_service rfl ..) h rfl ?_ quote⟩
    exact validate_service (.inr rfl) _ _
  · rw [if_neg (by decide +kernel), if_pos rfl] at h
    refine ⟨_, List.mem_cons_self,
      renderTemplate_eq_ok (source_of_label (by decide +kernel) rfl ..) ?_ rfl ?_ quote⟩
    · rintro hempty
      have hnone : "" ∈ allowedFlags := hempty ▸ h
      exact absurd hnone (by decide +kernel)
    · exact validate_toggleFeatureFlag h
  · rw [if_neg (by decide +kernel), if_neg (by decide +kernel)] at h
    refine ⟨_, List.mem_cons_self, renderTemplate_eq_ok (source_of_service rfl ..) h rfl ?_ quote⟩
    exact validate_service (.inr rfl) _ _

/-! ## Whole analyses -/

/-- The inputs of an analysis that proposes a remediation: some signal selects a rule, no probe of
such a rule is refuted, and each of these signals has what its rule needs for a target. -/
structure Actionable (quote : String → String) (collector : RuleID → Collector) (at_ : Time)
    (incident : IncidentRow) (signals : List Signal) : Prop where
  selected : ∃ signal ∈ signals, (Correlator.new.ruleOf signal).isSome = true
  unrefuted : ∀ signal ∈ signals, ∀ rule, Correlator.new.ruleOf signal = some rule → ∀ service,
    ∀ r ∈ (collector rule.id).run quote rule.probes service at_, r.status ≠ .refuted
  targeted : ∀ signal ∈ signals, ∀ rule, Correlator.new.ruleOf signal = some rule →
    Targeted incident signal rule

theorem weights_defaultRules : ∀ rule ∈ defaultRules, ∀ probe ∈ rule.probes, 0 ≤ probe.weight := by
  decide +kernel

/-- Without a refuted probe a rule is not contradicted. -/
theorem not_contradicted {quote : String → String} {collector : RuleID → Collector} {at_ : Time}
    {incident : IncidentRow} {signals : List Signal} {best : HypothesisScore}
    (hbest : best ∈ scoresOf quote collector at_ incident
      (Correlator.new.matchAll incident signals))
    (h : Actionable quote collector at_ incident signals) : best.contradicted = false := by
  have hscored := scored_of_mem (consistent_matchAll nodup_ids_defaultRules incident signals) hbest
  obtain ⟨hrule, signal, hsignal, hm⟩ := exists_signal_of_targetMatch nodup_ids_defaultRules hbest
  have hruleOf := (Correlator.matchOf_eq_some hm).1
  rw [hrule] at hruleOf
  obtain ⟨m, -, hrun⟩ := hscored.run
  have hrefuted : weightOf .refuted best.run.results = 0 := by
    have hnone : best.run.results.filter (·.status = .refuted) = [] := by
      rw [hrun, List.filter_eq_nil_iff]
      intro r hr
      simpa using h.unrefuted signal hsignal best.rule hruleOf m.service r hr
    rw [weightOf, hnone]
    rfl
  have hcorroborated : 0 ≤ weightOf .corroborated best.run.results := by
    refine List.sum_nonneg fun weight hweight => ?_
    obtain ⟨r, hr, rfl⟩ := List.mem_map.mp hweight
    have hr := (List.mem_filter.mp hr).1
    rw [hrun] at hr
    obtain ⟨probe, hprobe, rfl⟩ := List.mem_map.mp hr
    rw [(Collector.runOne_reports quote _ probe m.service at_).weight]
    exact weights_defaultRules best.rule (Correlator.mem_rules_of_ruleOf hruleOf) probe hprobe
  rw [hscored.eq]
  change decide (weightOf .corroborated best.run.results <
    weightOf .refuted best.run.results) = false
  rw [hrefuted]
  exact decide_eq_false (not_lt.mpr hcorroborated)

end Argus.Rca
