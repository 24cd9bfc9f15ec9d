import Argus.Rca.Confidence
import Mathlib.Algebra.BigOperators.Group.List.Basic
import Mathlib.Data.List.Perm.Subperm

/-!
# More supporting evidence never hurts

Probe outcomes are ordered: a refuted probe supports its hypothesis least, one without an answer
neither way, a corroborated one most. When the outcome of one probe gets better, the weights, the
sources, the bound they set and the rounded score all move one way, so the rank of the rule moves
forward and the ranks of the other rules stay.
-/

namespace Argus.Rca

open Correlation (Match Rule RuleID validateRules)
open Evidence (Collector Reports Result)
open Incidents (IncidentRow Time)
open SortedAssoc (lookup)

/-! ## Outcomes -/

/-- How far an outcome supports the hypothesis: refuted < no_data = unavailable < corroborated. -/
def support : Evidence.Status → ℕ
  | .refuted => 0
  | .noData => 1
  | .unavailable => 1
  | .corroborated => 2

variable {a b : Evidence.Status} {runs runs' : List (RuleID × RuleEvidence)} {ms : List Match}
  {r r' : Result} {run run' : RuleEvidence}

theorem corroborated_of_support_le (h : support a ≤ support b) (ha : a = .corroborated) :
    b = .corroborated := by
  subst ha
  cases b <;> first | rfl | exact absurd h (by decide)

theorem refuted_of_support_le (h : support a ≤ support b) (hb : b = .refuted) : a = .refuted := by
  subst hb
  cases a <;> first | rfl | exact absurd h (by decide)

/-- One result for each probe of every matched rule. -/
def Observed (ms : List Match) (runs : List (RuleID × RuleEvidence)) : Prop :=
  ∀ m ∈ ms, ∃ run, lookup m.ruleID runs = some run ∧ List.Forall₂ Reports m.rule.probes run.results

/-- Results that differ in one probe of one rule, which the second ones support at least as far. -/
structure Improved (id : RuleID) (runs runs' : List (RuleID × RuleEvidence)) : Prop where
  others : ∀ other, other ≠ id → lookup other runs' = lookup other runs
  one : ∃ service front r r' rest, lookup id runs = some ⟨service, front ++ r :: rest⟩ ∧
    lookup id runs' = some ⟨service, front ++ r' :: rest⟩ ∧ support r.status ≤ support r'.status

/-! ## Scores -/

theorem round4_mono : Monotone round4 := by
  intro a b hab
  have hsign : sign a ≤ sign b := by
    unfold sign
    split_ifs <;> linarith
  have hscaled : a * 10000 + 1 / 2 * sign a ≤ b * 10000 + 1 / 2 * sign b := by linarith
  have htruncate : (Rounding.truncate (a * 10000 + 1 / 2 * sign a) : ℚ) ≤
      Rounding.truncate (b * 10000 + 1 / 2 * sign b) := by
    exact_mod_cast Rounding.truncate_mono hscaled
  unfold round4
  linarith

theorem sourceCap_mono : Monotone sourceCap := by
  intro m n hmn
  unfold sourceCap
  split_ifs <;> first | omega | norm_num

theorem clamp_mono {value value' min max max' : ℚ} (hvalue : value ≤ value') (hmin : min ≤ max)
    (hmax : max ≤ max') : clamp value min max ≤ clamp value' min max' := by
  unfold clamp
  split_ifs <;> linarith

/-- Results that support a hypothesis at least as far as others. -/
structure Supports (results results' : List Result) : Prop where
  corroborated : weightOf .corroborated results ≤ weightOf .corroborated results'
  refuted : weightOf .refuted results' ≤ weightOf .refuted results
  backends : causeBackends results ⊆ causeBackends results'

theorem weightOf_insert (status : Evidence.Status) (front : List Result) (r : Result)
    (rest : List Result) :
    weightOf status (front ++ r :: rest) =
      weightOf status (front ++ rest) + if r.status = status then r.weight else 0 := by
  by_cases h : r.status = status
  · simp only [weightOf, List.filter_append, List.filter_cons, h, decide_true, if_true,
      List.map_append, List.map_cons, List.sum_append, List.sum_cons]
    ring
  · simp [weightOf, h]

theorem mem_causeBackends {results : List Result} {backend : Evidence.Backend} :
    backend ∈ causeBackends results ↔
      ∃ r ∈ results, (r.status = .corroborated ∧ r.symptom = false) ∧ r.backend = backend := by
  simp only [causeBackends, List.mem_dedup, List.mem_map, List.mem_filter, decide_eq_true_eq,
    and_assoc]

/-- A better outcome of one probe supports its hypothesis at least as far. -/
theorem supports_of_improved {probe : Evidence.Probe} (hweight : 0 ≤ probe.weight)
    (hr : Reports probe r) (hr' : Reports probe r') (h : support r.status ≤ support r'.status)
    (front rest : List Result) : Supports (front ++ r :: rest) (front ++ r' :: rest) where
  corroborated := by
    rw [weightOf_insert, weightOf_insert, hr.weight, hr'.weight]
    by_cases hcorroborated : r.status = .corroborated
    · rw [if_pos hcorroborated, if_pos (corroborated_of_support_le h hcorroborated)]
    · rw [if_neg hcorroborated]
      split_ifs <;> linarith
  refuted := by
    rw [weightOf_insert, weightOf_insert, hr.weight, hr'.weight]
    by_cases hrefuted : r'.status = .refuted
    · rw [if_pos hrefuted, if_pos (refuted_of_support_le h hrefuted)]
    · rw [if_neg hrefuted]
      split_ifs <;> linarith
  backends := by
    intro backend hbackend
    rw [mem_causeBackends] at hbackend ⊢
    obtain ⟨q, hq, hcause, hname⟩ := hbackend
    rw [List.mem_append, List.mem_cons] at hq
    rcases hq with hq | rfl | hq
    · exact ⟨q, by simp [hq], hcause, hname⟩
    · refine ⟨r', by simp, ⟨corroborated_of_support_le h hcause.1, ?_⟩, ?_⟩
      · rw [hr'.symptom, ← hr.symptom, hcause.2]
      · rw [hr'.backend, ← hr.backend, hname]
    · exact ⟨q, by simp [hq], hcause, hname⟩

/-- Results of the same probes at one place are results of one probe. -/
theorem exists_probe_of_forall₂ {probes : List Evidence.Probe} {front rest : List Result}
    (h : List.Forall₂ Reports probes (front ++ r :: rest))
    (h' : List.Forall₂ Reports probes (front ++ r' :: rest)) :
    ∃ probe ∈ probes, Reports probe r ∧ Reports probe r' := by
  induction front generalizing probes with
  | nil =>
    obtain ⟨probe, probes, hr, -, rfl⟩ := List.forall₂_cons_right_iff.mp h
    exact ⟨probe, List.mem_cons_self, hr, (List.forall₂_cons.mp h').1⟩
  | cons first front ih =>
    obtain ⟨probe, probes, -, hrest, rfl⟩ := List.forall₂_cons_right_iff.mp h
    obtain ⟨found, hfound, hreports⟩ := ih hrest (List.forall₂_cons.mp h').2
    exact ⟨found, List.mem_cons_of_mem _ hfound, hreports⟩

section

variable (rule : Rule) (found : RuleMatches) {run run' : RuleEvidence}

section

variable (h : Supports run.results run'.results)

include h

theorem sources_length_le :
    (scoreRule rule found run).sources.length ≤ (scoreRule rule found run').sources.length := by
  have hlength : ∀ run : RuleEvidence,
      (scoreRule rule found run).sources.length = (causeBackends run.results).length + 1 := by
    intro run
    change (alertSource :: Sorting.sortStrings _).length = _
    rw [List.length_cons, (Sorting.sortStrings_perm _).length_eq, List.length_map]
  have hsubperm : (causeBackends run.results).Subperm (causeBackends run'.results) :=
    (List.nodup_dedup _).subperm h.backends
  rw [hlength, hlength]
  exact Nat.succ_le_succ hsubperm.length_le

theorem confidence_le_of_supports :
    (scoreRule rule found run).confidence ≤ (scoreRule rule found run').confidence := by
  have hscore : alertMatchScore + weightOf .corroborated run.results -
        refutationFactor * weightOf .refuted run.results ≤
      alertMatchScore + weightOf .corroborated run'.results -
        refutationFactor * weightOf .refuted run'.results := by
    have hcorroborated := h.corroborated
    have hrefuted := h.refuted
    unfold refutationFactor
    linarith
  exact clamp_mono (round4_mono hscore) (baselineConfidence_le_sourceCap _)
    (sourceCap_mono (sources_length_le rule found h))

theorem contradicted_of_supports (hcontradicted : (scoreRule rule found run').contradicted = true) :
    (scoreRule rule found run).contradicted = true := by
  have hlt : weightOf .corroborated run'.results < weightOf .refuted run'.results :=
    of_decide_eq_true hcontradicted
  exact decide_eq_true (h.corroborated.trans_lt (hlt.trans_le h.refuted))

/-- Better supported results rank their rule no later. -/
theorem rank_le_of_supports :
    (scoreRule rule found run').rank ≤ (scoreRule rule found run).rank := by
  have hcontradicted : (scoreRule rule found run').contradicted ≤
      (scoreRule rule found run).contradicted :=
    Bool.le_iff_imp.mpr (contradicted_of_supports rule found h)
  have hconfidence := OrderDual.toDual_le_toDual.mpr (confidence_le_of_supports rule found h)
  have hsources := OrderDual.toDual_le_toDual.mpr (sources_length_le rule found h)
  exact Prod.Lex.toLex_mono ⟨hcontradicted, Prod.Lex.toLex_mono ⟨hconfidence,
    Prod.Lex.toLex_mono ⟨hsources, le_rfl⟩⟩⟩

end

end

/-! ## The reported hypothesis -/

/-- The score of the matches of one rule. -/
def entryScore (runs : List (RuleID × RuleEvidence)) (entry : RuleID × RuleMatches) :
    HypothesisScore :=
  scoreRule entry.2.first.rule entry.2 ((lookup entry.1 runs).getD ⟨"", []⟩)

theorem hypothesisScores_eq (ms : List Match) (runs : List (RuleID × RuleEvidence)) :
    hypothesisScores ms runs = (byRule ms).map (entryScore runs) := rfl

theorem first_of_mem_byRule (hms : Consistent ms) {entry : RuleID × RuleMatches}
    (h : entry ∈ byRule ms) : entry.2.first ∈ ms ∧ entry.2.first.rule.id = entry.1 := by
  have hmem : entry.2.first ∈ ms.filter (·.ruleID = entry.1) :=
    all_of_mem_byRule h ▸ List.mem_cons_self
  obtain ⟨hfirst, hid⟩ := List.mem_filter.mp hmem
  exact ⟨hfirst, (hms.ruleID _ hfirst).symm.trans (of_decide_eq_true hid)⟩

/-- Two analyses that differ in the results of one rule score the other rules alike. -/
theorem exists_scores_of_improved (hms : Consistent ms) {m : Match} (hm : m ∈ ms)
    (hothers : ∀ other, other ≠ m.rule.id → lookup other runs' = lookup other runs)
    (hrun : lookup m.rule.id runs = some run) (hrun' : lookup m.rule.id runs' = some run') :
    ∃ found front rest, hypothesisScores ms runs = front ++ scoreRule m.rule found run :: rest ∧
      hypothesisScores ms runs' = front ++ scoreRule m.rule found run' :: rest ∧
      ∀ s, s ∈ front ∨ s ∈ rest → s.rule.id ≠ m.rule.id := by
  have hkey : m.rule.id ∈ (byRule ms).map Prod.fst := by
    rw [← hms.ruleID m hm]
    exact (Grouping.mem_keys_groupWith _ _).mpr (List.mem_map_of_mem hm)
  obtain ⟨⟨id, found⟩, hentry, hid⟩ := List.mem_map.mp hkey
  obtain rfl : id = m.rule.id := hid
  obtain ⟨hfirst, hfound⟩ := first_of_mem_byRule hms hentry
  have hrule : found.first.rule = m.rule := hms.rule _ hfirst m hm hfound
  obtain ⟨front, rest, hsplit⟩ := List.append_of_mem hentry
  have hne : ∀ entry, entry ∈ front ∨ entry ∈ rest → entry.1 ≠ m.rule.id := by
    have hnodup : ((byRule ms).map Prod.fst).Nodup := Grouping.nodup_keys_groupWith _ _ ms
    rw [hsplit, List.map_append, List.map_cons, List.nodup_middle, List.nodup_cons,
      ← List.map_append] at hnodup
    intro entry hentry heq
    have hmem : entry.1 ∈ (front ++ rest).map Prod.fst :=
      List.mem_map_of_mem (List.mem_append.mpr hentry)
    exact hnodup.1 (heq ▸ hmem)
  -- the scores of the other entries are computed from the same results
  have hsame : ∀ entry, entry ∈ front ∨ entry ∈ rest →
      entryScore runs' entry = entryScore runs entry := by
    intro entry hentry
    rw [entryScore, entryScore, hothers entry.1 (hne entry hentry)]
  have hself : entryScore runs (m.rule.id, found) = scoreRule m.rule found run := by
    rw [entryScore, hrun, hrule]
    rfl
  have hself' : entryScore runs' (m.rule.id, found) = scoreRule m.rule found run' := by
    rw [entryScore, hrun', hrule]
    rfl
  refine ⟨found, front.map (entryScore runs), rest.map (entryScore runs), ?_, ?_, ?_⟩
  · rw [hypothesisScores_eq, hsplit, List.map_append, List.map_cons, hself]
  · rw [hypothesisScores_eq, hsplit, List.map_append, List.map_cons, hself',
      List.map_congr_left fun entry h => hsame entry (.inl h),
      List.map_congr_left fun entry h => hsame entry (.inr h)]
  · intro s hs
    rw [← List.mem_append, ← List.map_append] at hs
    obtain ⟨entry, hentry, rfl⟩ := List.mem_map.mp hs
    have hmem : entry ∈ byRule ms := by
      rw [hsplit]
      rcases List.mem_append.mp hentry with h | h
      · exact List.mem_append_left _ h
      · exact List.mem_append_right _ (List.mem_cons_of_mem _ h)
    change entry.2.first.rule.id ≠ m.rule.id
    rw [(first_of_mem_byRule hms hmem).2]
    exact hne entry (List.mem_append.mp hentry)

/-- The reported rule is that of the score that sorting moves to the front. -/
theorem scoreHypotheses_ruleID (quote : String → String) (incident : IncidentRow) (ms : List Match)
    (runs : List (RuleID × RuleEvidence)) :
    (scoreHypotheses quote incident ms runs).ruleID =
      match (Sorting.stableSort ranksBefore (hypothesisScores ms runs)).head? with
      | none => ""
      | some best => best.rule.id := by
  rw [scoreHypotheses]
  cases Sorting.stableSort ranksBefore (hypothesisScores ms runs) with
  | nil => rfl
  | cons best rest => exact conclude_ruleID quote best _

/-- A rule that is reported still is when the outcome of one of its probes gets better. -/
theorem selected_of_supports (quote : String → String) (incident : IncidentRow) {rule : Rule}
    (hid : rule.id ≠ "") {found : RuleMatches} {front rest : List HypothesisScore}
    (hscores : hypothesisScores ms runs = front ++ scoreRule rule found run :: rest)
    (hscores' : hypothesisScores ms runs' = front ++ scoreRule rule found run' :: rest)
    (hne : ∀ s, s ∈ front ∨ s ∈ rest → s.rule.id ≠ rule.id)
    (hsupports : Supports run.results run'.results)
    (h : (scoreHypotheses quote incident ms runs).ruleID = rule.id) :
    (scoreHypotheses quote incident ms runs').ruleID = rule.id := by
  rw [scoreHypotheses_ruleID, hscores] at h
  rw [scoreHypotheses_ruleID, hscores']
  have hself : (scoreRule rule found run).rule.id = rule.id := rfl
  have hhead : (Sorting.stableSort ranksBefore (front ++ scoreRule rule found run :: rest)).head? =
      some (scoreRule rule found run) := by
    split at h
    · exact absurd h.symm hid
    · rename_i best hbest
      rw [hbest]
      have hmem : best ∈ front ++ scoreRule rule found run :: rest :=
        Sorting.mem_stableSort.mp (List.mem_of_mem_head? hbest)
      rw [List.mem_append, List.mem_cons] at hmem
      rcases hmem with hmem | rfl | hmem
      · exact absurd h (hne best (.inl hmem))
      · rfl
      · exact absurd h (hne best (.inr hmem))
  rw [Sorting.head?_stableSort_replace ranksBefore_iff
    (fun hmem => hne _ (.inl hmem) hself) (fun hmem => hne _ (.inr hmem) hself) hhead
    (rank_le_of_supports rule found hsupports)]
  rfl

/-- More supporting evidence never hurts. When the outcome of one probe of a matched rule gets
better and all else is the same, the rule's confidence is not lower, it is not newly contradicted,
and if it was the reported hypothesis it still is. -/
theorem support_never_hurts (quote : String → String) {rules : List Rule}
    (hvalid : validateRules rules = .ok ()) (incident : IncidentRow) {ms : List Match}
    (hms : ∀ m ∈ ms, m.ruleID = m.rule.id ∧ m.rule ∈ rules) {rule : Rule}
    (hmatched : ∃ m ∈ ms, m.rule = rule) {runs runs' : List (RuleID × RuleEvidence)}
    (hruns : Observed ms runs) (hruns' : Observed ms runs')
    (himproved : Improved rule.id runs runs') :
    (∃ s ∈ hypothesisScores ms runs, s.rule = rule) ∧
    (∃ s ∈ hypothesisScores ms runs', s.rule = rule) ∧
    (∀ s ∈ hypothesisScores ms runs, ∀ s' ∈ hypothesisScores ms runs',
      s.rule = rule → s'.rule = rule →
        s.confidence ≤ s'.confidence ∧ (s.contradicted = false → s'.contradicted = false)) ∧
    ((scoreHypotheses quote incident ms runs).ruleID = rule.id →
      (scoreHypotheses quote incident ms runs').ruleID = rule.id) := by
  have hids := Correlation.nodup_ids_of_validateRules hvalid
  have hconsistent : Consistent ms :=
    ⟨fun m hm => (hms m hm).1, fun m hm m' hm' =>
      List.inj_on_of_nodup_map hids (hms m hm).2 (hms m' hm').2⟩
  obtain ⟨m, hm, rfl⟩ := hmatched
  obtain ⟨service, before, r, r', after, hrun, hrun', hsupport⟩ := himproved.one
  obtain ⟨found, front, rest, hscores, hscores', hne⟩ :=
    exists_scores_of_improved hconsistent hm himproved.others hrun hrun'
  have hid : m.rule.id ≠ "" := Correlation.id_ne_of_validateRules hvalid (hms m hm).2
  have hsupports : Supports (before ++ r :: after) (before ++ r' :: after) := by
    obtain ⟨_, hlookup, hreports⟩ := hruns m hm
    obtain ⟨_, hlookup', hreports'⟩ := hruns' m hm
    rw [(hms m hm).1, hrun] at hlookup
    rw [(hms m hm).1, hrun'] at hlookup'
    cases hlookup
    cases hlookup'
    obtain ⟨probe, hprobe, hr, hr'⟩ := exists_probe_of_forall₂ hreports hreports'
    have hweight := Evidence.weight_pos_of_validateProbe
      (Correlation.validateProbe_of_validateRules hvalid (hms m hm).2 hprobe)
    exact supports_of_improved hweight.le hr hr' hsupport before after
  -- no other score is of this rule
  have hunique : ∀ {run : RuleEvidence} {scores : List HypothesisScore},
      scores = front ++ scoreRule m.rule found run :: rest → ∀ s ∈ scores, s.rule = m.rule →
        s = scoreRule m.rule found run := by
    rintro run scores rfl s hs hrule
    rw [List.mem_append, List.mem_cons] at hs
    rcases hs with hs | hs | hs
    · exact absurd (congrArg Rule.id hrule) (hne s (.inl hs))
    · exact hs
    · exact absurd (congrArg Rule.id hrule) (hne s (.inr hs))
  have hscored : ∀ {run : RuleEvidence} {scores : List HypothesisScore},
      scores = front ++ scoreRule m.rule found run :: rest → ∃ s ∈ scores, s.rule = m.rule := by
    rintro run scores rfl
    exact ⟨scoreRule m.rule found run, List.mem_append_right _ List.mem_cons_self, rfl⟩
  refine ⟨hscored hscores, hscored hscores', ?_,
    selected_of_supports quote incident hid hscores hscores' hne hsupports⟩
  intro s hs s' hs' hrule hrule'
  rw [hunique hscores s hs hrule, hunique hscores' s' hs' hrule']
  refine ⟨confidence_le_of_supports m.rule found hsupports, fun hfalse => ?_⟩
  rw [← Bool.not_eq_true] at hfalse ⊢
  exact fun htrue => hfalse (contradicted_of_supports m.rule found hsupports htrue)

def diskProbe : Evidence.Probe :=
  ⟨"d", .loki, Evidence.serviceVariable, .above, 0, 1 / 10, "c", false⟩

/-- The result of `diskProbe` without an answer, or with one above its threshold. -/
def diskRun (value : Option ℚ) : List (RuleID × RuleEvidence) :=
  [("disk", ⟨"api", [match value with
    | none => diskProbe.unavailable 0
    | some v => { diskProbe.unavailable 0 with status := .corroborated, value := some v }]⟩)]

def diskMatch : Match where
  ruleID := "disk"
  rule := diskRules.head (by decide)
  signalID := "sig_Disk"
  alertName := "Disk"
  service := "api"
  labels := []
  observedAt := 0
  reason := "alertname"

/-- A probe that is answered raises the confidence of its rule from 0.45 to 0.55. -/
theorem support_never_hurts_disk :
    let before := scoreHypotheses id (incidentFor "api") [diskMatch] (diskRun none)
    let after := scoreHypotheses id (incidentFor "api") [diskMatch] (diskRun (some 1))
    before.ruleID = "disk" ∧ before.confidence = 45 / 100 ∧ after.confidence = 55 / 100 ∧
      after.ruleID = "disk" := by
  have hvalid : validateRules diskRules = .ok () := by decide +kernel
  have hms : ∀ m ∈ [diskMatch], m.ruleID = m.rule.id ∧ m.rule ∈ diskRules :=
    List.forall_mem_singleton.mpr ⟨rfl, List.mem_singleton_self _⟩
  have hobserved : ∀ value : Option ℚ, (∀ v, value = some v → 0 < v) →
      Observed [diskMatch] (diskRun value) := by
    intro value hvalue
    refine List.forall_mem_singleton.mpr ⟨_, rfl, ?_⟩
    refine List.forall₂_cons.mpr ⟨?_, List.Forall₂.nil⟩
    cases value with
    | none => exact ⟨rfl, rfl, rfl, rfl, rfl, rfl, rfl, .inr ⟨rfl, .inr rfl⟩⟩
    | some v =>
      refine ⟨rfl, rfl, rfl, rfl, rfl, rfl, rfl, .inl ⟨v, rfl, ?_⟩⟩
      have hcompare : Evidence.compare v .above 0 = true := decide_eq_true (hvalue v rfl)
      exact (if_pos hcompare).symm
  have himproved : Improved diskMatch.rule.id (diskRun none) (diskRun (some 1)) := by
    refine ⟨fun other hother => ?_, "api", [], _, _, [], rfl, rfl, by decide⟩
    have hne : other ≠ "disk" := hother
    simp [diskRun, lookup, hne]
  obtain ⟨-, -, -, hselected⟩ := support_never_hurts id hvalid (incidentFor "api") hms
    ⟨diskMatch, List.mem_singleton_self _, rfl⟩ (hobserved none (by simp))
    (hobserved (some 1) (by simp)) himproved
  exact ⟨by decide +kernel, by decide +kernel, by decide +kernel, hselected (by decide +kernel)⟩

end Argus.Rca
