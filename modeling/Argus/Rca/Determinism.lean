import Argus.Rca.Confidence

/-!
# What an analysis depends on

Two runs of one analysis are compared by what they decide (`Verdict`). A run reads nothing of a
signal but its structured identity, so free text cannot steer it. The order of the signals matters
only where two signals of one rule were observed at the same time: then the first one scopes the
probes and gives the targets.
-/

namespace Argus.Rca

open Correlation
open Evidence (Collector)
open Grouping (entryOf)
open Incidents (IncidentRow IncidentTopology Time)

/-- What an analysis decides. -/
structure Verdict where
  ruleID : RuleID
  hypothesis : String
  confidence : ℚ
  score : RCAScore
  candidates : List Candidate

def Analysis.verdict (result : Analysis) : Verdict :=
  ⟨result.ruleID, result.hypothesis, result.confidence, result.score, result.candidates⟩

/-! ## Topology -/

variable {r r' : Analysis} {correlator : Correlator} {i j : IncidentRow}
  {signals signals' : List Signal}

theorem verdict_applyTopologyFallback (quote : String → String) (i j : IncidentRow)
    (topology : IncidentTopology) (h : r.verdict = r'.verdict) :
    (applyTopologyFallback quote i topology r).verdict =
      (applyTopologyFallback quote j topology r').verdict := by
  obtain ⟨hrule, hhypothesis, hconfidence, hscore, hcandidates⟩ := Verdict.mk.inj h
  unfold applyTopologyFallback
  rw [hhypothesis]
  split
  · exact h
  · simp only [Analysis.verdict, hrule, hscore]

theorem verdict_enrichWithTopology (topology : IncidentTopology) (h : r.verdict = r'.verdict) :
    (enrichWithTopology r topology).verdict = (enrichWithTopology r' topology).verdict := by
  obtain ⟨hrule, hhypothesis, hconfidence, hscore, hcandidates⟩ := Verdict.mk.inj h
  unfold enrichWithTopology
  split
  · exact h
  · unfold adjustConfidence
    rw [hrule, hscore, hconfidence]
    split
    · simp only [Analysis.verdict, hhypothesis, hcandidates]
    · simp only [Analysis.verdict, hrule, hhypothesis, hconfidence, hscore, hcandidates]

@[simp] theorem applyTopologyFallback_items (quote : String → String) (incident : IncidentRow)
    (topology : IncidentTopology) (r : Analysis) :
    (applyTopologyFallback quote incident topology r).items = r.items := by
  unfold applyTopologyFallback
  split <;> rfl

/-! ## Free text -/

/-- The same structured identity. -/
structure SameIdentity (s t : Signal) : Prop where
  id : s.id = t.id
  name : s.name = t.name
  observedAt : s.observedAt = t.observedAt
  labels : signalLabels s = signalLabels t
  observedService : observedService s = observedService t

/-- The same incident, but for its texts. -/
def SameCase (i j : IncidentRow) : Prop := j = { i with title := j.title, summary := j.summary }

theorem matchOf_congr (c : Correlator) (hcase : SameCase i j) {s t : Signal} (h : SameIdentity s t) :
    c.matchOf i s = c.matchOf j t := by
  have hname : alertNameOf s = alertNameOf t := by rw [alertNameOf, alertNameOf, h.name, h.labels]
  have hselect : c.select s = c.select t := by
    rw [Correlator.select, Correlator.select, Correlator.modeRule, Correlator.modeRule, hname,
      h.labels]
  have hservice : signalService i s (signalLabels s) = signalService j t (signalLabels t) := by
    rw [hcase, signalService, signalService, h.labels, h.observedService]
  have hobserved : observedAtOf i s = observedAtOf j t := by
    rw [hcase, observedAtOf, observedAtOf, h.observedAt]
  rw [Correlator.matchOf, Correlator.matchOf, hselect, hname, hservice, hobserved, h.id, h.labels]

theorem matchAll_congr (c : Correlator) (hcase : SameCase i j)
    (h : List.Forall₂ SameIdentity signals signals') :
    c.matchAll i signals = c.matchAll j signals' := by
  have hmatches : signals.filterMap (c.matchOf i) = signals'.filterMap (c.matchOf j) := by
    induction h with
    | nil => rfl
    | cons hst _ ih => rw [List.filterMap_cons, List.filterMap_cons, matchOf_congr c hcase hst, ih]
  rw [Correlator.matchAll, Correlator.matchAll, hmatches]

/-- Free text cannot steer the diagnosis: signals with one structured identity, on incidents that
differ in their texts only, are judged alike and sent to the backends in the same queries. -/
theorem free_text_inert (quote : String → String) (correlator : Correlator)
    (collector : RuleID → Collector) (at_ : Time) (topology : IncidentTopology)
    {i j : IncidentRow} (hcase : SameCase i j) {signals signals' : List Signal}
    (hsignals : List.Forall₂ SameIdentity signals signals') :
    let r := analyze quote correlator collector at_ i signals topology
    let r' := analyze quote correlator collector at_ j signals' topology
    r.verdict = r'.verdict ∧ r.items = r'.items ∧
      sentCalls collector i (correlator.matchAll i signals) =
        sentCalls collector j (correlator.matchAll j signals') := by
  intro r r'
  have hms := matchAll_congr correlator hcase hsignals
  -- the incident's texts are read by the fallback's summary only
  have hscores : scoreHypotheses quote i (correlator.matchAll i signals)
        (collectEvidence quote collector at_ i (correlator.matchAll i signals)) =
      scoreHypotheses quote j (correlator.matchAll j signals')
        (collectEvidence quote collector at_ j (correlator.matchAll j signals')) := by
    rw [hms, hcase]
    rfl
  refine ⟨?_, ?_, ?_⟩
  · refine verdict_enrichWithTopology topology ?_
    exact verdict_applyTopologyFallback quote i j topology (congrArg Analysis.verdict hscores)
  · change (enrichWithTopology _ _).items = (enrichWithTopology _ _).items
    rw [enrichWithTopology_items, enrichWithTopology_items, applyTopologyFallback_items,
      applyTopologyFallback_items, hscores]
  · rw [hms, hcase]
    rfl

/-- A trap annotation and another title change nothing. -/
theorem free_text_inert_annotation :
    let i := incidentFor "api"
    let j := { i with title := "maxmemory config rollout" }
    let s := alertSignal "Disk" "api" [] 1
    let t := { s with
      severity := "critical"
      body := .ofMembers (("annotations", .str "bad config rollout") :: s.body.members) }
    (analyze id ⟨diskRules⟩ (fun _ => ⟨fun _ => none⟩) 0 i [s] noTopology).verdict =
      (analyze id ⟨diskRules⟩ (fun _ => ⟨fun _ => none⟩) 0 j [t] noTopology).verdict := by
  intro i j s t
  have hsame : SameIdentity s t := ⟨rfl, rfl, rfl, by decide +kernel, by decide +kernel⟩
  exact (free_text_inert id ⟨diskRules⟩ (fun _ => ⟨fun _ => none⟩) 0 noTopology
    (show SameCase i j from rfl) (.cons hsame .nil)).1

/-! ## The order of signals -/

/-- What the first-come choices of a rule take from a match: its service, and the labels that
targets are taken from. -/
def scopeOf (rule : Rule) (m : Match) : String × List String :=
  (m.service, rule.remediations.map fun template =>
    if template.targetLabel = "" then "" else m.labels.get template.targetLabel)

/-- Scores that differ at most in the order of their matches. -/
structure SameScore (s t : HypothesisScore) : Prop where
  rule : s.rule = t.rule
  run : s.run = t.run
  scopes : s.found.all.map (scopeOf s.rule) = t.found.all.map (scopeOf s.rule)

theorem renderTemplates_congr (quote : String → String) {rule : Rule} {m m' : Match}
    (h : scopeOf rule m = scopeOf rule m') :
    rule.remediations.map (renderTemplate quote m) =
      rule.remediations.map (renderTemplate quote m') := by
  obtain ⟨hservice, hlabels⟩ := Prod.mk.inj h
  rw [List.map_inj_left] at hlabels
  refine List.map_congr_left fun template ht => ?_
  have hlabel : template.targetLabel ≠ "" →
      m.labels.get template.targetLabel = m'.labels.get template.targetLabel := by
    intro hne
    simpa [hne] using hlabels template ht
  rw [renderTemplate, renderTemplate, hservice, template.render_congr quote m'.service hlabel]

section

variable {quote : String → String} {collector : RuleID → Collector} {at_ : Time}
  {incident : IncidentRow} {ms ms' : List Match} {s t : HypothesisScore}

theorem Scored.scopeOf_targetMatch (h : Scored quote collector at_ incident ms s) :
    (s.found.all.map (scopeOf s.rule)).find? (·.1 = s.run.service) =
      some (scopeOf s.rule (targetMatch s)) := by
  obtain ⟨m, hentry, hrun⟩ := h.run
  have hm := mem_of_entryOf_choosePrimary hentry
  have hsome : (s.found.all.find? (·.service = s.run.service)).isSome = true := by
    rw [List.find?_isSome]
    exact ⟨m, hm, decide_eq_true (by rw [hrun])⟩
  obtain ⟨found, hfound⟩ := Option.isSome_iff_exists.mp hsome
  have htarget : targetMatch s = found := by rw [targetMatch, hfound, Option.getD_some]
  rw [List.find?_map, htarget]
  change (s.found.all.find? (·.service = s.run.service)).map _ = _
  rw [hfound, Option.map_some]

section

variable (hs : Scored quote collector at_ incident ms s)
  (ht : Scored quote collector at_ incident ms' t) (h : SameScore s t)

include hs ht h

theorem SameScore.renderCandidates : renderCandidates quote s = renderCandidates quote t := by
  have hscope : scopeOf s.rule (targetMatch s) = scopeOf s.rule (targetMatch t) := by
    have hs' := hs.scopeOf_targetMatch
    have ht' := ht.scopeOf_targetMatch
    rw [← h.rule, ← h.run, ← h.scopes, hs'] at ht'
    exact Option.some.inj ht'
  have hrendered := renderTemplates_congr quote hscope
  have hservice : (targetMatch s).service = (targetMatch t).service := congrArg Prod.fst hscope
  unfold Rca.renderCandidates
  dsimp only
  rw [← h.rule, hrendered, hservice]

omit hs ht in
theorem SameScore.service : s.service = t.service := by
  have hfirst : s.found.first.service = t.found.first.service := by
    have hscopes := h.scopes
    rw [RuleMatches.all, RuleMatches.all, List.map_cons, List.map_cons] at hscopes
    exact congrArg Prod.fst (List.cons.inj hscopes).1
  rw [HypothesisScore.service, HypothesisScore.service, h.run, hfirst]

theorem SameScore.verdict (items items' : List RCAEvidence) :
    (conclude quote s items).verdict = (conclude quote t items').verdict := by
  have hcorroborated : s.corroborated = t.corroborated := by rw [hs.eq, ht.eq, h.run]; rfl
  have hrefuted : s.refuted = t.refuted := by rw [hs.eq, ht.eq, h.run]; rfl
  have hsources : s.sources = t.sources := by rw [hs.eq, ht.eq, h.run]; rfl
  have hraw : s.raw = t.raw := by rw [hs.eq, ht.eq, h.run]; rfl
  have hcap : s.cap = t.cap := by rw [hs.eq, ht.eq, h.run]; rfl
  have hconfidence : s.confidence = t.confidence := by rw [hs.eq, ht.eq, h.run]; rfl
  have hcontradicted : s.contradicted = t.contradicted := by rw [hs.eq, ht.eq, h.run]; rfl
  have hbreakdown : s.breakdown = t.breakdown := by
    rw [HypothesisScore.breakdown, HypothesisScore.breakdown, h.rule, hcorroborated, hrefuted, hraw,
      hsources, hcap, hcontradicted, hconfidence]
  rw [Analysis.verdict, Analysis.verdict, conclude_ruleID, conclude_ruleID, conclude_hypothesis,
    conclude_hypothesis, conclude_confidence, conclude_confidence, conclude_score, conclude_score,
    conclude_candidates, conclude_candidates, h.rule, hconfidence, hbreakdown, hcontradicted,
    h.service, h.renderCandidates hs ht]

theorem SameScore.rank : s.rank = t.rank := by
  rw [hs.eq, ht.eq, h.run, h.rule]
  rfl

end

/-- The choice of `choosePrimary`, on services alone. -/
def chooseService (own : String) : Option String → String → String
  | none, s => s
  | some existing, s => if existing ≠ own ∧ s = own then s else existing

theorem service_choosePrimary (incident : IncidentRow) (chosen : Option Match) (m : Match) :
    (choosePrimary incident chosen m).service =
      chooseService incident.service (chosen.map (·.service)) m.service := by
  cases chosen with
  | none => rfl
  | some existing =>
    rw [choosePrimary, Option.map_some, chooseService]
    split <;> rfl

/-- Two orders of the same matches give a rule the same score, if its matches of one time do not
differ in what is taken from them. -/
theorem sameScore_of_perm (hperm : ms.Perm ms')
    (hsorted : ms.Pairwise fun a b => a.observedAt ≤ b.observedAt)
    (hsorted' : ms'.Pairwise fun a b => a.observedAt ≤ b.observedAt)
    (hties : ∀ m ∈ ms, ∀ m' ∈ ms, m.rule = m'.rule → m.observedAt = m'.observedAt →
      scopeOf m.rule m = scopeOf m.rule m')
    (hs : Scored quote collector at_ incident ms s)
    (ht : Scored quote collector at_ incident ms' t) (hrule : s.rule = t.rule) :
    SameScore s t := by
  have hscopes : s.found.all.map (scopeOf s.rule) = t.found.all.map (scopeOf s.rule) := by
    have hties' : ∀ a ∈ s.found.all, ∀ b ∈ s.found.all, a.observedAt = b.observedAt →
        scopeOf s.rule a = scopeOf s.rule b := by
      intro a ha b hb hat
      have hra := hs.rule a ha
      have hrb := hs.rule b hb
      rw [hs.found, List.mem_filter] at ha hb
      rw [← hra]
      exact hties a ha.1 b hb.1 (hra.trans hrb.symm) hat
    refine Sorting.map_eq_of_perm ?_ ?_ ?_ hties'
    · rw [hs.found, ht.found, hrule]
      exact hperm.filter _
    · rw [hs.found]
      exact hsorted.filter _
    · rw [ht.found]
      exact hsorted'.filter _
  refine ⟨hrule, ?_, hscopes⟩
  obtain ⟨m, hm, hrun⟩ := hs.run
  obtain ⟨m', hm', hrun'⟩ := ht.run
  have hservices : s.found.all.map (·.service) = t.found.all.map (·.service) := by
    have := congrArg (List.map Prod.fst) hscopes
    simpa [Function.comp_def, scopeOf] using this
  have hservice : m.service = m'.service := by
    have hentry := Grouping.map_entryOf (service_choosePrimary incident) s.found.all
    have hentry' := Grouping.map_entryOf (service_choosePrimary incident) t.found.all
    rw [hservices, ← hentry', hm, hm'] at hentry
    exact Option.some.inj hentry
  rw [hrun, hrun', hservice, hrule]

end

/-- No two signals that select one rule and were observed at one time differ in their service, or in
a label that a remediation of the rule takes its target from. -/
def TiesAgree (correlator : Correlator) (incident : IncidentRow) (signals : List Signal) : Prop :=
  ∀ s ∈ signals, ∀ t ∈ signals, ∀ rule, correlator.ruleOf s = some rule →
    correlator.ruleOf t = some rule → observedAtOf incident s = observedAtOf incident t →
    signalService incident s (signalLabels s) = signalService incident t (signalLabels t) ∧
    ∀ template ∈ rule.remediations, template.targetLabel ≠ "" →
      (signalLabels s).get template.targetLabel = (signalLabels t).get template.targetLabel

theorem TiesAgree.scopes {incident : IncidentRow} (h : TiesAgree correlator incident signals) :
    ∀ m ∈ correlator.matchAll incident signals, ∀ m' ∈ correlator.matchAll incident signals,
      m.rule = m'.rule → m.observedAt = m'.observedAt → scopeOf m.rule m = scopeOf m.rule m' := by
  intro m hm m' hm' hrule hat
  obtain ⟨s, hs, hmatch⟩ := Correlator.mem_matchAll.mp hm
  obtain ⟨t, ht, hmatch'⟩ := Correlator.mem_matchAll.mp hm'
  obtain ⟨hruleOf, -, hservice, hlabels, hobserved⟩ := Correlator.matchOf_eq_some hmatch
  obtain ⟨hruleOf', -, hservice', hlabels', hobserved'⟩ := Correlator.matchOf_eq_some hmatch'
  rw [hobserved, hobserved'] at hat
  rw [← hrule] at hruleOf'
  obtain ⟨hsame, htargets⟩ := h s hs t ht m.rule hruleOf hruleOf' hat
  refine Prod.ext (by rw [scopeOf, scopeOf, hservice, hservice']; exact hsame) ?_
  refine List.map_congr_left fun template htemplate => ?_
  by_cases hlabel : template.targetLabel = ""
  · rw [if_pos hlabel, if_pos hlabel]
  · rw [if_neg hlabel, if_neg hlabel, hlabels, hlabels']
    exact htargets template htemplate hlabel

theorem perm_matchAll (correlator : Correlator) (incident : IncidentRow) (h : signals.Perm signals') :
    (correlator.matchAll incident signals).Perm (correlator.matchAll incident signals') :=
  ((Sorting.stableSort_perm _ _).trans (h.filterMap _)).trans (Sorting.stableSort_perm _ _).symm

/-- Where ties agree, two orders of the same signals are judged alike. -/
theorem verdict_of_perm (quote : String → String) (hids : (correlator.rules.map Rule.id).Nodup)
    (hhypotheses : (correlator.rules.map Rule.hypothesis).Nodup)
    (hsufficient : ∀ rule ∈ correlator.rules, rule.hypothesis ≠ insufficientHypothesis)
    (collector : RuleID → Collector) (at_ : Time) (incident : IncidentRow)
    (topology : IncidentTopology) (hperm : signals.Perm signals')
    (hties : TiesAgree correlator incident signals) :
    (analyze quote correlator collector at_ incident signals topology).verdict =
      (analyze quote correlator collector at_ incident signals' topology).verdict := by
  by_cases hmatch : ∃ signal ∈ signals, (correlator.ruleOf signal).isSome = true
  · have hmatch' : ∃ signal ∈ signals', (correlator.ruleOf signal).isSome = true := by
      obtain ⟨signal, hsignal, hsome⟩ := hmatch
      exact ⟨signal, hperm.mem_iff.mp hsignal, hsome⟩
    have hms := consistent_matchAll hids incident signals
    have hms' := consistent_matchAll hids incident signals'
    have hpermMs := perm_matchAll correlator incident hperm
    obtain ⟨best, hbest, hleast, heq⟩ := analyze_of_match quote correlator collector at_ incident
      signals topology hsufficient hids hmatch
    obtain ⟨best', hbest', hleast', heq'⟩ := analyze_of_match quote correlator collector at_
      incident signals' topology hsufficient hids hmatch'
    have hscored := scored_of_mem hms hbest
    have hscored' := scored_of_mem hms' hbest'
    have hsame : ∀ {s t}, Scored quote collector at_ incident (correlator.matchAll incident signals)
        s → Scored quote collector at_ incident (correlator.matchAll incident signals') t →
        s.rule = t.rule → SameScore s t := fun hs ht => sameScore_of_perm hpermMs
      (Correlator.pairwise_matchAll ..) (Correlator.pairwise_matchAll ..) hties.scopes hs ht
    have hrules : ∀ {s}, s ∈ scoresOf quote collector at_ incident
        (correlator.matchAll incident signals) → s.rule ∈ correlator.rules := by
      intro s hs
      obtain ⟨signal, -, hrule⟩ := Correlator.exists_match_iff.mp (exists_match_of_score hms hs)
      exact Correlator.mem_rules_of_ruleOf hrule
    -- the score of each run's choice in the other run
    obtain ⟨t, ht, htrule⟩ : ∃ t ∈ scoresOf quote collector at_ incident
        (correlator.matchAll incident signals'), t.rule = best.rule := by
      obtain ⟨m, hm, hrule⟩ := exists_match_of_score hms hbest
      exact (exists_score_iff hms').mpr ⟨m, hpermMs.mem_iff.mp hm, hrule⟩
    obtain ⟨s, hs, hsrule⟩ : ∃ s ∈ scoresOf quote collector at_ incident
        (correlator.matchAll incident signals), s.rule = best'.rule := by
      obtain ⟨m, hm, hrule⟩ := exists_match_of_score hms' hbest'
      exact (exists_score_iff hms).mpr ⟨m, hpermMs.mem_iff.mpr hm, hrule⟩
    have hrank : best.rank = best'.rank := by
      refine le_antisymm ?_ ?_
      · rw [← (hsame (scored_of_mem hms hs) hscored' hsrule).rank (scored_of_mem hms hs) hscored']
        exact hleast s hs
      · rw [(hsame hscored (scored_of_mem hms' ht) htrule.symm).rank hscored
          (scored_of_mem hms' ht)]
        exact hleast' t ht
    have hrule : best.rule = best'.rule := by
      have hhypothesis : best.rule.hypothesis = best'.rule.hypothesis :=
        String.toList_injective (congrArg (fun r => (ofLex (ofLex (ofLex r).2).2).2) hrank)
      rw [← hsrule] at hhypothesis ⊢
      exact List.inj_on_of_nodup_map hhypotheses (hrules hbest) (hrules hs) hhypothesis
    rw [heq, heq']
    exact verdict_enrichWithTopology topology
      ((hsame hscored hscored' hrule).verdict hscored hscored' _ _)
  · have hnone : ∀ signal ∈ signals, correlator.ruleOf signal = none := by
      intro signal hsignal
      rw [← Option.not_isSome_iff_eq_none]
      exact fun hsome => hmatch ⟨signal, hsignal, hsome⟩
    have hnone' : ∀ signal ∈ signals', correlator.ruleOf signal = none :=
      fun signal hsignal => hnone signal (hperm.mem_iff.mpr hsignal)
    rw [analyze_of_no_match quote correlator collector at_ incident signals topology hnone,
      analyze_of_no_match quote correlator collector at_ incident signals' topology hnone']

/-! ## The compiled table -/

theorem nodup_ids_defaultRules : (Correlator.new.rules.map Rule.id).Nodup := by decide +kernel

theorem nodup_hypotheses_defaultRules : (Correlator.new.rules.map Rule.hypothesis).Nodup := by
  decide +kernel

theorem sufficient_defaultRules :
    ∀ rule ∈ Correlator.new.rules, rule.hypothesis ≠ insufficientHypothesis := by
  decide +kernel

/-- What `ListSignals` may return for the rows of an incident: it orders by `observed_at` only. -/
def Lists (rows signals : List Signal) : Prop :=
  signals.Perm rows ∧ signals.Pairwise fun s t => s.observedAt ≤ t.observedAt

end Argus.Rca
