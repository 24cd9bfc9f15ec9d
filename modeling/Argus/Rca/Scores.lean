import Argus.Rca.Analysis
import Mathlib.Data.Prod.Lex

/-!
# The scores of an analysis

Each matched rule has one score, of its own matches and of the results of its own probes (`Scored`).
Ranking is by a key, so the reported score is the least of them.
-/

namespace Argus.Rca

open Correlation (Correlator Match Rule RuleID Signal)
open Evidence (Collector)
open Grouping (entryOf)
open Incidents (IncidentRow IncidentTopology Time)
open SortedAssoc (lookup)

/-! ## Matches -/

/-- Matches with one rule id are of one rule. -/
structure Consistent (ms : List Match) : Prop where
  ruleID : ∀ m ∈ ms, m.ruleID = m.rule.id
  rule : ∀ m ∈ ms, ∀ m' ∈ ms, m.rule.id = m'.rule.id → m.rule = m'.rule

theorem consistent_matchAll {correlator : Correlator}
    (hids : (correlator.rules.map Rule.id).Nodup) (incident : IncidentRow) (signals : List Signal) :
    Consistent (correlator.matchAll incident signals) where
  ruleID m hm := by
    obtain ⟨signal, -, hmatch⟩ := Correlator.mem_matchAll.mp hm
    exact (Correlator.matchOf_eq_some hmatch).2.1
  rule m hm m' hm' hid := by
    have hmem : ∀ m ∈ correlator.matchAll incident signals, m.rule ∈ correlator.rules := by
      intro m hm
      obtain ⟨signal, -, hmatch⟩ := Correlator.mem_matchAll.mp hm
      exact Correlator.mem_rules_of_ruleOf (Correlator.matchOf_eq_some hmatch).1
    exact List.inj_on_of_nodup_map hids (hmem m hm) (hmem m' hm') hid

/-- The matches of a rule are kept in order. -/
theorem all_of_mem_byRule {ms : List Match} {id : RuleID} {found : RuleMatches}
    (h : (id, found) ∈ byRule ms) : found.all = ms.filter (·.ruleID = id) := by
  have hlookup := Grouping.lookup_of_nodup_keys (Grouping.nodup_keys_groupWith _ _ ms) h
  rw [Grouping.lookup_groupWith] at hlookup
  refine Grouping.entryOf_induction _ (P := fun found l => found.all = l) (fun _ => rfl) ?_ hlookup
  intro found l m hall
  rw [← hall]
  rfl

/-- The match that scopes the probes of a rule is one of its matches. -/
theorem mem_of_entryOf_choosePrimary {incident : IncidentRow} {l : List Match} {m : Match}
    (h : entryOf (choosePrimary incident) l = some m) : m ∈ l := by
  refine Grouping.entryOf_induction _ (P := fun m l => m ∈ l) (fun m => List.mem_singleton_self m)
    ?_ h
  intro existing l m hmem
  rw [choosePrimary]
  split
  · exact List.mem_append_right _ (List.mem_singleton_self m)
  · exact List.mem_append_left _ hmem

/-! ## Scores -/

section

variable (quote : String → String) (collector : RuleID → Collector) (at_ : Time)
  (incident : IncidentRow) (ms : List Match)

/-- A score of a rule: of its matches, and of its probes on the service of one of them. -/
structure Scored (s : HypothesisScore) : Prop where
  eq : s = scoreRule s.rule s.found s.run
  found : s.found.all = ms.filter (·.rule.id = s.rule.id)
  rule : ∀ m ∈ s.found.all, m.rule = s.rule
  run : ∃ m, entryOf (choosePrimary incident) s.found.all = some m ∧
    s.run = ⟨m.service, (collector s.rule.id).run quote s.rule.probes m.service at_⟩

/-- The scores of an analysis. -/
def scoresOf : List HypothesisScore :=
  hypothesisScores ms (collectEvidence quote collector at_ incident ms)

variable {quote collector at_ incident ms}

theorem lookup_collectEvidence (id : RuleID) :
    lookup id (collectEvidence quote collector at_ incident ms) =
      (entryOf (choosePrimary incident) (ms.filter (·.ruleID = id))).map fun m =>
        ⟨m.service, (collector id).run quote m.rule.probes m.service at_⟩ := by
  rw [collectEvidence, primaryMatches, ← Grouping.lookup_groupWith]
  exact Grouping.lookup_map_entries (fun (id : RuleID) (m : Match) =>
    RuleEvidence.mk m.service ((collector id).run quote m.rule.probes m.service at_)) id _

section

variable (hms : Consistent ms)

include hms

/-- Every score is one of a rule. -/
theorem scored_of_mem {s : HypothesisScore} (hs : s ∈ scoresOf quote collector at_ incident ms) :
    Scored quote collector at_ incident ms s := by
  obtain ⟨⟨id, found⟩, hfound, rfl⟩ := List.mem_map.mp hs
  have hall := all_of_mem_byRule hfound
  have hmem : ∀ m ∈ found.all, m ∈ ms ∧ m.rule.id = id := by
    intro m hm
    rw [hall, List.mem_filter] at hm
    exact ⟨hm.1, by rw [← hms.ruleID m hm.1]; simpa using hm.2⟩
  obtain ⟨hfirst, hid⟩ := hmem found.first List.mem_cons_self
  have hrule : ∀ m ∈ found.all, m.rule = found.first.rule := fun m hm =>
    hms.rule m (hmem m hm).1 found.first hfirst ((hmem m hm).2.trans hid.symm)
  have hfilter : ms.filter (·.ruleID = id) = ms.filter (·.rule.id = id) :=
    List.filter_congr fun m hm => by rw [hms.ruleID m hm]
  cases hentry : entryOf (choosePrimary incident) found.all with
  | none => exact absurd hentry (Grouping.entryOf_cons_ne_none _ _ _)
  | some m =>
    have hrun : lookup id (collectEvidence quote collector at_ incident ms) =
        some ⟨m.service, (collector id).run quote m.rule.probes m.service at_⟩ := by
      rw [lookup_collectEvidence, ← hall, hentry]
      rfl
    dsimp only
    rw [hrun, Option.getD_some]
    refine ⟨rfl, ?_, hrule, m, hentry, ?_⟩
    · change found.all = ms.filter (·.rule.id = found.first.rule.id)
      rw [hall, hfilter, hid]
    · change RuleEvidence.mk m.service ((collector id).run quote m.rule.probes m.service at_) =
        ⟨m.service,
          (collector found.first.rule.id).run quote found.first.rule.probes m.service at_⟩
      rw [hrule m (mem_of_entryOf_choosePrimary hentry), hid]

/-- The rules of the scores, in order. -/
theorem map_id_scoresOf :
    (scoresOf quote collector at_ incident ms).map (·.rule.id) = (byRule ms).map Prod.fst := by
  rw [scoresOf, hypothesisScores, List.map_map]
  refine List.map_congr_left ?_
  rintro ⟨id, found⟩ hfound
  have hfirst : found.first ∈ ms.filter (·.ruleID = id) :=
    all_of_mem_byRule hfound ▸ List.mem_cons_self
  obtain ⟨hmem, hid⟩ := List.mem_filter.mp hfirst
  change found.first.rule.id = id
  rw [← hms.ruleID _ hmem]
  simpa using hid

/-- No rule has two scores. -/
theorem nodup_scoresOf : ((scoresOf quote collector at_ incident ms).map (·.rule.id)).Nodup := by
  rw [map_id_scoresOf hms]
  exact Grouping.nodup_keys_groupWith _ _ ms

/-- Every matched rule has a score. -/
theorem exists_score_of_match {m : Match} (hm : m ∈ ms) :
    ∃ s ∈ scoresOf quote collector at_ incident ms, s.rule = m.rule := by
  have hkey : m.ruleID ∈ (scoresOf quote collector at_ incident ms).map (·.rule.id) := by
    rw [map_id_scoresOf hms]
    exact (Grouping.mem_keys_groupWith _ _).mpr (List.mem_map_of_mem hm)
  obtain ⟨s, hs, hid⟩ := List.mem_map.mp hkey
  have hscored := scored_of_mem hms hs
  refine ⟨s, hs, (hscored.rule m ?_).symm⟩
  rw [hscored.found, List.mem_filter]
  exact ⟨hm, by rw [hid, hms.ruleID m hm]; exact decide_eq_true rfl⟩

/-- Every score is of a rule that some signal matched. -/
theorem exists_match_of_score {s : HypothesisScore}
    (hs : s ∈ scoresOf quote collector at_ incident ms) : ∃ m ∈ ms, m.rule = s.rule := by
  have hscored := scored_of_mem hms hs
  have hfirst : s.found.first ∈ s.found.all := List.mem_cons_self
  refine ⟨s.found.first, ?_, hscored.rule _ hfirst⟩
  rw [hscored.found] at hfirst
  exact (List.mem_filter.mp hfirst).1

theorem exists_score_iff {rule : Rule} :
    (∃ s ∈ scoresOf quote collector at_ incident ms, s.rule = rule) ↔ ∃ m ∈ ms, m.rule = rule := by
  constructor
  · rintro ⟨s, hs, rfl⟩
    exact exists_match_of_score hms hs
  · rintro ⟨m, hm, rfl⟩
    exact exists_score_of_match hms hm

end

end

/-! ## Ranking -/

/-- What `ranksBefore` compares. -/
def HypothesisScore.rank (s : HypothesisScore) : Bool ×ₗ ℚᵒᵈ ×ₗ ℕᵒᵈ ×ₗ List Char :=
  toLex (s.contradicted, toLex (OrderDual.toDual s.confidence,
    toLex (OrderDual.toDual s.sources.length, s.rule.hypothesis.toList)))

theorem ranksBefore_iff (a b : HypothesisScore) : ranksBefore a b = true ↔ a.rank < b.rank := by
  have hbefore : Sorting.before a.rule.hypothesis b.rule.hypothesis = true ↔
      a.rule.hypothesis.toList < b.rule.hypothesis.toList := decide_eq_true_iff
  have hbool : ∀ x y : Bool, x < y ↔ x ≠ y ∧ x = false := by decide
  rw [HypothesisScore.rank, HypothesisScore.rank, Prod.Lex.toLex_lt_toLex, Prod.Lex.toLex_lt_toLex,
    Prod.Lex.toLex_lt_toLex]
  simp only [OrderDual.toDual_lt_toDual, OrderDual.toDual_inj, hbool]
  unfold ranksBefore
  by_cases hcontradicted : a.contradicted = b.contradicted
  · by_cases hconfidence : a.confidence = b.confidence
    · by_cases hsources : a.sources.length = b.sources.length
      · simp [hcontradicted, hconfidence, hsources, hbefore]
      · simp [hcontradicted, hconfidence, hsources]
    · simp [hcontradicted, hconfidence]
  · simp [hcontradicted]

/-- The analysis reports the score that ranks first, or there is none. -/
theorem scoreHypotheses_cases (quote : String → String) (incident : IncidentRow) (ms : List Match)
    (runs : List (RuleID × RuleEvidence)) :
    (hypothesisScores ms runs = [] ∧
      scoreHypotheses quote incident ms runs = insufficientEvidence incident) ∨
    ∃ best ∈ hypothesisScores ms runs, (∀ s ∈ hypothesisScores ms runs, best.rank ≤ s.rank) ∧
      scoreHypotheses quote incident ms runs =
        conclude quote best ((hypothesisScores ms runs).flatMap evidenceItems) := by
  rw [scoreHypotheses]
  cases hsorted : Sorting.stableSort ranksBefore (hypothesisScores ms runs) with
  | nil =>
    refine .inl ⟨?_, rfl⟩
    have hperm := Sorting.stableSort_perm ranksBefore (hypothesisScores ms runs)
    rw [hsorted] at hperm
    exact hperm.symm.eq_nil
  | cons best rest =>
    refine .inr ⟨best, ?_, ?_, rfl⟩
    · rw [← (Sorting.stableSort_perm ranksBefore _).mem_iff, hsorted]
      exact List.mem_cons_self
    · exact fun s hs => Sorting.key_head_stableSort_le ranksBefore_iff hsorted hs

/-! ## The analysis -/

section

variable (quote : String → String) (best : HypothesisScore) (items : List RCAEvidence)

@[simp] theorem conclude_ruleID : (conclude quote best items).ruleID = best.rule.id := by
  unfold conclude
  split <;> rfl

@[simp] theorem conclude_hypothesis :
    (conclude quote best items).hypothesis = best.rule.hypothesis := by
  unfold conclude
  split <;> rfl

@[simp] theorem conclude_confidence :
    (conclude quote best items).confidence = best.confidence := by
  unfold conclude
  split <;> rfl

@[simp] theorem conclude_score : (conclude quote best items).score = best.breakdown := by
  unfold conclude
  split <;> rfl

@[simp] theorem conclude_items : (conclude quote best items).items = items := by
  unfold conclude
  split <;> rfl

@[simp] theorem conclude_evidence :
    (conclude quote best items).evidence = supportingEvidence best := by
  unfold conclude
  split <;> rfl

theorem conclude_candidates : (conclude quote best items).candidates =
    if best.contradicted then [diagnostics best.service] else (renderCandidates quote best).1 := by
  unfold conclude
  split <;> rfl

end

section

variable (result : Analysis) (topology : IncidentTopology)

@[simp] theorem enrichWithTopology_ruleID :
    (enrichWithTopology result topology).ruleID = result.ruleID := by
  unfold enrichWithTopology adjustConfidence
  repeat' split
  all_goals rfl

@[simp] theorem enrichWithTopology_hypothesis :
    (enrichWithTopology result topology).hypothesis = result.hypothesis := by
  unfold enrichWithTopology adjustConfidence
  repeat' split
  all_goals rfl

@[simp] theorem enrichWithTopology_candidates :
    (enrichWithTopology result topology).candidates = result.candidates := by
  unfold enrichWithTopology adjustConfidence
  repeat' split
  all_goals rfl

@[simp] theorem enrichWithTopology_items :
    (enrichWithTopology result topology).items = result.items := by
  unfold enrichWithTopology adjustConfidence
  repeat' split
  all_goals rfl

/-- Only an observed root of suppressed alerts moves the confidence, and the score with it. -/
theorem enrichWithTopology_cases :
    ((enrichWithTopology result topology).confidence = result.confidence ∧
      (enrichWithTopology result topology).score = result.score) ∨
    (topology.suppressedAlertCount ≠ 0 ∧ topology.rootInferred = false ∧ result.ruleID ≠ "" ∧
      result.score.contradicted = false ∧
      let adjusted := clamp (result.confidence + 3 / 100) baselineConfidence result.score.sourceCap
      (enrichWithTopology result topology).confidence = adjusted ∧
      (enrichWithTopology result topology).score = { result.score with
        topologyAdjustment := round4 (adjusted - result.confidence)
        final := adjusted }) := by
  unfold enrichWithTopology
  split
  · exact .inl ⟨rfl, rfl⟩
  · rename_i hsuppressed
    unfold adjustConfidence
    split
    · rename_i h
      exact .inr ⟨hsuppressed, h.1, h.2.1, h.2.2, rfl, rfl⟩
    · exact .inl ⟨rfl, rfl⟩

end

section

variable (quote : String → String) (correlator : Correlator) (collector : RuleID → Collector)
  (at_ : Time) (incident : IncidentRow) (signals : List Signal) (topology : IncidentTopology)

/-- With a match, the analysis is about the score that ranks first. -/
theorem analyze_of_match
    (hsufficient : ∀ rule ∈ correlator.rules, rule.hypothesis ≠ insufficientHypothesis)
    (hids : (correlator.rules.map Rule.id).Nodup)
    (hmatch : ∃ signal ∈ signals, (correlator.ruleOf signal).isSome = true) :
    let scores := scoresOf quote collector at_ incident (correlator.matchAll incident signals)
    ∃ best ∈ scores, (∀ s ∈ scores, best.rank ≤ s.rank) ∧
      analyze quote correlator collector at_ incident signals topology =
        enrichWithTopology (conclude quote best (scores.flatMap evidenceItems)) topology := by
  intro scores
  have hms := consistent_matchAll hids incident signals
  obtain ⟨signal, hsignal, hsome⟩ := hmatch
  obtain ⟨rule, hrule⟩ := Option.isSome_iff_exists.mp hsome
  obtain ⟨m, hm, -⟩ : ∃ m ∈ correlator.matchAll incident signals, m.rule = rule :=
    Correlator.exists_match_iff.mpr ⟨signal, hsignal, hrule⟩
  rcases scoreHypotheses_cases quote incident (correlator.matchAll incident signals)
    (collectEvidence quote collector at_ incident (correlator.matchAll incident signals)) with
    ⟨hnil, -⟩ | ⟨best, hbest, hleast, heq⟩
  · obtain ⟨s, hs, -⟩ : ∃ s ∈ scores, s.rule = m.rule := exists_score_of_match hms hm
    unfold scores at hs
    rw [scoresOf, hnil] at hs
    cases hs
  · refine ⟨best, hbest, hleast, ?_⟩
    obtain ⟨m', hm', hrule'⟩ := exists_match_of_score hms hbest
    obtain ⟨signal', -, hruleOf⟩ := Correlator.exists_match_iff.mp ⟨m', hm', hrule'⟩
    have hne := hsufficient best.rule (Correlator.mem_rules_of_ruleOf hruleOf)
    rw [analyze, heq, applyTopologyFallback, if_pos (.inl (by rwa [conclude_hypothesis]))]
    rfl

/-- Without a match, topology alone may name the failure domain. -/
theorem analyze_of_no_match (hmatch : ∀ signal ∈ signals, correlator.ruleOf signal = none) :
    analyze quote correlator collector at_ incident signals topology =
      enrichWithTopology (applyTopologyFallback quote incident topology
        (insufficientEvidence incident)) topology := by
  have hnil : correlator.matchAll incident signals = [] := by
    refine List.eq_nil_iff_forall_not_mem.mpr fun m hm => ?_
    obtain ⟨signal, hsignal, hrule⟩ := Correlator.exists_match_iff.mp ⟨m, hm, rfl⟩
    rw [hmatch signal hsignal] at hrule
    cases hrule
  rw [analyze, hnil]
  rfl

end

end Argus.Rca
