import Argus.Rca.Determinism

/-!
# The independent score checker

`check-rca-evidence.py` recomputes the score of a report from its evidence items. It agrees with the
engine on every report of the compiled table that topology did not touch. Where it did, the script
and the engine disagree: the script accepts no confidence but the baseline without a rule, and it
compares the final score with one that leaves the topology adjustment out.
-/

namespace Argus.Rca

open Correlation
open Evidence (Collector Comparator Probe Reports Result)
open Incidents (IncidentRow IncidentTopology Time)
open Sorting (sortStrings)

/-! ## The script -/

/-- What the script reads of a report. -/
structure Report where
  confidence : ℚ
  evidence : List String
  evidenceItems : List RCAEvidence
  scoreBreakdown : RCAScore
  candidates : List Candidate

def Analysis.report (result : Analysis) : Report :=
  ⟨result.confidence, result.evidence, result.items, result.score, result.candidates⟩

/-- Why `validate` rejects a report. -/
inductive Rejection where
  | unmatched
  | withoutValue (reference status : String)
  | disagrees (reference status : String) (value : ℚ) (comparator : String) (threshold : ℚ)
  | recordsValue (reference status : String)
  | missingKey (key : String)
  | recomputed (key : String) (recorded expected : ℚ)
  | sources (recorded expected : List String)
  | contradicted
  | confidence
  | line (line backend : String)
  | remediation
  deriving DecidableEq

/-- The text of a rejection, where `str` prints a number and `repr` quotes a string. -/
def Rejection.message (str : ℚ → String) (repr : String → String) : Rejection → String
  | unmatched => "unmatched incident must report the baseline confidence"
  | withoutValue reference status => reference ++ " is " ++ status ++ " without a recorded value"
  | disagrees reference status value comparator threshold =>
    reference ++ " status " ++ status ++ " disagrees with " ++ str value ++ " " ++ comparator ++
      " " ++ str threshold
  | recordsValue reference status => reference ++ " is " ++ status ++ " but records a value"
  | missingKey key => key
  | recomputed key recorded expected =>
    "score_breakdown." ++ key ++ "=" ++ str recorded ++ " but recomputed " ++ str expected
  | sources recorded expected =>
    "sources " ++ list recorded ++ " != recomputed " ++ list expected
  | contradicted => "contradicted flag does not match the evidence"
  | confidence => "report confidence does not match its score breakdown"
  | line text backend =>
    "evidence line " ++ repr text ++ " has no matching corroborated probe from " ++ backend
  | remediation => "contradicted hypothesis proposes remediation"
where
  list (items : List String) : String := "[" ++ String.intercalate ", " (items.map repr) ++ "]"

/-- `math.isclose` with the script's tolerance. -/
def close (actual expected : ℚ) : Bool := |actual - expected| ≤ 1 / 10 ^ 9

/-- The script's own `source_cap`. -/
def checkedCap (sources : ℕ) : ℚ :=
  if sources ≤ 1 then 55 / 100 else if sources = 2 then 80 / 100 else 95 / 100

/-- `COMPARATORS`. -/
def comparatorOf (text : String) : Option (ℚ → ℚ → Bool) :=
  if text = ">=" then some fun value threshold => threshold ≤ value
  else if text = ">" then some fun value threshold => threshold < value
  else if text = "<=" then some fun value threshold => value ≤ threshold
  else if text = "<" then some fun value threshold => value < threshold
  else none

/-- What the loop over the evidence items recomputes. -/
structure Recomputed where
  corroborated : ℚ
  refuted : ℚ
  backends : List String
  symptomBackends : List String

/-- A corroborated item adds its weight, and its backend to one of the two sets. -/
def Recomputed.corroborate (acc : Recomputed) (item : RCAEvidence) : Recomputed :=
  if item.symptom then
    { acc with
      corroborated := acc.corroborated + item.weight
      symptomBackends := acc.symptomBackends.insert item.source }
  else
    { acc with
      corroborated := acc.corroborated + item.weight
      backends := acc.backends.insert item.source }

def Recomputed.refute (acc : Recomputed) (item : RCAEvidence) : Recomputed :=
  { acc with refuted := acc.refuted + item.weight }

/-- One round of the loop over the evidence items. -/
def checkItem (ruleID : String) (acc : Recomputed) (item : RCAEvidence) :
    Except Rejection Recomputed :=
  if item.ruleID ≠ ruleID ∨ item.kind ≠ .probe then .ok acc
  else if item.status = "corroborated" ∨ item.status = "refuted" then
    match item.value, comparatorOf item.comparator, item.threshold with
    | none, _, _ => .error (.withoutValue item.reference item.status)
    | _, none, _ => .error (.missingKey item.comparator)
    | _, _, none => .error (.missingKey "threshold")
    | some value, some holds, some threshold =>
      if holds value threshold ≠ decide (item.status = "corroborated") then
        .error (.disagrees item.reference item.status value item.comparator threshold)
      else if item.status = "corroborated" then .ok (acc.corroborate item)
      else .ok (acc.refute item)
  else if item.value.isSome then .error (.recordsValue item.reference item.status)
  else .ok acc

def reject (failed : Bool) (r : Rejection) : Except Rejection Unit :=
  if failed then .error r else .ok ()

def checkClose (key : String) (recorded expected : ℚ) : Except Rejection Unit :=
  reject (!close recorded expected) (.recomputed key recorded expected)

/-- The text before the first separator. -/
def upTo (sep : Char) (text : String) : String := String.ofList (text.toList.takeWhile (· ≠ sep))

/-- Whether an evidence line cites a backend that did not corroborate the hypothesis. -/
def unbacked (r : Recomputed) (line : String) : Bool :=
  let start := upTo ':' line
  let backend := upTo ' ' start
  let allowed := if "(symptom)".toList.isSuffixOf start.toList then r.symptomBackends
    else r.backends
  backend ∈ ["prometheus", "loki"] && !decide (backend ∈ allowed)

def checkLine (r : Recomputed) (_ : Unit) (line : String) : Except Rejection Unit :=
  reject (unbacked r line) (.line line (upTo ' ' (upTo ':' line)))

/-- `validate`, for a report in a file of this name. -/
def validate (name : String) (rca : Report) : Except Rejection String :=
  let score := rca.scoreBreakdown
  if score.ruleID = "" then do
    reject (!close rca.confidence (35 / 100)) .unmatched
    .ok (name ++ ": no rule matched, confidence " ++ Rounding.fixed 2 (35 / 100))
  else do
    let r ← rca.evidenceItems.foldlM (checkItem score.ruleID) ⟨0, 0, [], []⟩
    let sources := "alertmanager" :: sortStrings r.backends
    let raw := Rounding.toPlaces 4 (45 / 100 + r.corroborated - 1 / 2 * r.refuted)
    let cap := checkedCap sources.length
    let final := min cap (max (35 / 100) raw)
    checkClose "corroborated" score.corroborated r.corroborated
    checkClose "refuted" score.refuted r.refuted
    checkClose "raw" score.raw raw
    checkClose "source_cap" score.sourceCap cap
    checkClose "final" score.final final
    reject (score.sources ≠ sources) (.sources score.sources sources)
    reject (score.contradicted ≠ decide (r.corroborated < r.refuted)) .contradicted
    reject (!close rca.confidence (final + score.topologyAdjustment)) .confidence
    rca.evidence.foldlM (checkLine r) ()
    reject (score.contradicted && rca.candidates.any (·.actionType ≠ "collect_diagnostics"))
      .remediation
    .ok (name ++ ": " ++ score.ruleID ++ " " ++ Rounding.fixed 2 final ++ " from " ++
      String.intercalate ", " sources)

/-! ## Weights -/

/-- A multiple of 0.05. -/
def Tick (q : ℚ) : Prop := ∃ z : ℤ, q * 20 = z

variable {results : List Result}

theorem tick_weightOf (h : ∀ r ∈ results, Tick r.weight) (status : Evidence.Status) :
    Tick (weightOf status results) := by
  refine List.sum_induction Tick ?_ ⟨0, by simp⟩ ?_
  · rintro p q ⟨y, hy⟩ ⟨z, hz⟩
    exact ⟨y + z, by rw [add_mul, hy, hz]; push_cast; rfl⟩
  · intro q hq
    obtain ⟨r, hr, rfl⟩ := List.mem_map.mp hq
    exact h r (List.mem_filter.mp hr).1

theorem round4_of_int {q : ℚ} {z : ℤ} (h : q * 10000 = z) : round4 q = q := by
  have hq : q = z / 10000 := by rw [← h]; ring
  have htruncate : Rounding.truncate (q * 10000 + 1 / 2 * sign q) = z := by
    rw [h]
    by_cases hneg : q < 0
    · have hz : z < 0 := by
        have : (z : ℚ) < 0 := by rw [← h]; linarith
        exact_mod_cast this
      rw [sign, if_pos hneg, show (z : ℚ) + 1 / 2 * -1 = z - 1 / 2 by ring]
      exact Rounding.truncate_sub_half hz
    · have hz : 0 ≤ z := by
        have : (0 : ℚ) ≤ z := by rw [← h]; linarith
        exact_mod_cast this
      rw [sign, if_neg hneg, mul_one]
      exact Rounding.truncate_add_half hz
  rw [round4, htruncate, ← hq]

theorem Tick.round4 {q : ℚ} (h : Tick q) : Rca.round4 q = q := by
  obtain ⟨z, hz⟩ := h
  have hint : q * 10000 = (500 * z : ℤ) := by
    push_cast
    rw [← hz]
    ring
  exact round4_of_int hint

/-- The raw score of weights that are multiples of 0.05 has three decimals. -/
theorem exists_int_raw {c r : ℚ} (hc : Tick c) (hr : Tick r) :
    ∃ z : ℤ, (45 / 100 + c - 1 / 2 * r) * 10000 = z := by
  obtain ⟨y, hy⟩ := hc
  obtain ⟨z, hz⟩ := hr
  refine ⟨4500 + 500 * y - 250 * z, ?_⟩
  push_cast
  rw [← hy, ← hz]
  ring

/-! ## Recomputing the score of a rule -/

/-- What the loop over the items of these results finds. -/
structure Recomputes (results : List Result) (r : Recomputed) : Prop where
  corroborated : r.corroborated = weightOf .corroborated results
  refuted : r.refuted = weightOf .refuted results
  nodup : r.backends.Nodup
  backends : ∀ x, x ∈ r.backends ↔ ∃ q ∈ results, q.status = .corroborated ∧ q.symptom = false ∧
    q.backend.name = x
  symptomBackends : ∀ q ∈ results, q.status = .corroborated → q.symptom = true →
    q.backend.name ∈ r.symptomBackends

theorem weightOf_concat (status : Evidence.Status) (results : List Result) (q : Result) :
    weightOf status (results ++ [q]) =
      weightOf status results + if q.status = status then q.weight else 0 := by
  by_cases h : q.status = status <;> simp [weightOf, h]

/-- The comparators that the script knows. -/
def Comparator.Known (c : Comparator) : Prop :=
  comparatorOf c.name = some fun value threshold => Evidence.compare value c threshold

variable {q : Result}

/-- An item of a probe agrees with its own value. -/
theorem checkItem_probeItem {rule : Rule} {probe : Probe} (h : Reports probe q)
    (hknown : Comparator.Known probe.comparator) (service : String) (acc : Recomputed) :
    checkItem rule.id acc (probeItem rule service q) =
      .ok (match q.status with
        | .corroborated => acc.corroborate (probeItem rule service q)
        | .refuted => acc.refute (probeItem rule service q)
        | _ => acc) := by
  have hcomparator : comparatorOf q.comparator.name =
      some fun value threshold => Evidence.compare value probe.comparator threshold := by
    rw [h.comparator]
    exact hknown
  rcases h.observed with ⟨value, hvalue, hstatus⟩ | ⟨hvalue, hstatus⟩
  · cases hcompare : Evidence.compare value probe.comparator probe.threshold with
    | true =>
      rw [hcompare, if_pos rfl] at hstatus
      simp [checkItem, probeItem, hvalue, hstatus, hcomparator, h.threshold, hcompare,
        Evidence.Status.name]
    | false =>
      rw [hcompare, if_neg Bool.false_ne_true] at hstatus
      simp [checkItem, probeItem, hvalue, hstatus, hcomparator, h.threshold, hcompare,
        Evidence.Status.name]
  · rcases hstatus with hstatus | hstatus <;>
      simp [checkItem, probeItem, hvalue, hstatus, Evidence.Status.name]

theorem exists_mem_concat {P : Result → Prop} :
    (∃ p ∈ results ++ [q], P p) ↔ (∃ p ∈ results, P p) ∨ P q := by
  simp only [List.mem_append, List.mem_singleton]
  constructor
  · rintro ⟨p, hp | rfl, hP⟩
    exacts [.inl ⟨p, hp, hP⟩, .inr hP]
  · rintro (⟨p, hp, hP⟩ | hP)
    exacts [⟨p, .inl hp, hP⟩, ⟨q, .inr rfl, hP⟩]

variable {r : Recomputed}

/-- One more result. -/
theorem Recomputes.concat (h : Recomputes results r) (rule : Rule) (service : String) (q : Result) :
    Recomputes (results ++ [q]) (match q.status with
      | .corroborated => r.corroborate (probeItem rule service q)
      | .refuted => r.refute (probeItem rule service q)
      | _ => r) := by
  have hkeep : q.status ≠ .corroborated → ∀ r' : Recomputed,
      r'.backends = r.backends → r'.symptomBackends = r.symptomBackends →
      r'.corroborated = r.corroborated →
      r'.refuted = r.refuted + (if q.status = .refuted then q.weight else 0) →
      Recomputes (results ++ [q]) r' := by
    intro hstatus r' hbackends hsymptoms hcorroborated hrefuted
    refine ⟨?_, ?_, hbackends ▸ h.nodup, fun x => ?_, fun p hp hcorr hsymptom => ?_⟩
    · rw [weightOf_concat, if_neg hstatus, add_zero, hcorroborated, h.corroborated]
    · rw [weightOf_concat, hrefuted, h.refuted]
    · rw [hbackends, h.backends, exists_mem_concat]
      exact (or_iff_left fun hq => hstatus hq.1).symm
    · rw [hsymptoms]
      rcases List.mem_append.mp hp with hp | hp
      · exact h.symptomBackends p hp hcorr hsymptom
      · rw [List.mem_singleton.mp hp] at hcorr
        exact absurd hcorr hstatus
  cases hstatus : q.status with
  | corroborated =>
    have hcorroborated : weightOf .corroborated (results ++ [q]) = r.corroborated + q.weight := by
      rw [weightOf_concat, if_pos hstatus, h.corroborated]
    have hrefuted : weightOf .refuted (results ++ [q]) = r.refuted := by
      rw [weightOf_concat, if_neg (by rw [hstatus]; decide), add_zero, h.refuted]
    dsimp only
    unfold Recomputed.corroborate
    by_cases hsymptom : (probeItem rule service q).symptom = true
    · rw [if_pos hsymptom]
      refine ⟨hcorroborated.symm, hrefuted.symm, h.nodup, fun x => ?_, fun p hp hcorr hsym => ?_⟩
      · rw [h.backends, exists_mem_concat]
        exact (or_iff_left fun hq => Bool.noConfusion (hsymptom.symm.trans hq.2.1)).symm
      · refine List.mem_insert_iff.mpr ?_
        rcases List.mem_append.mp hp with hp | hp
        · exact .inr (h.symptomBackends p hp hcorr hsym)
        · exact .inl (by rw [List.mem_singleton.mp hp]; rfl)
    · rw [if_neg hsymptom]
      have hcause : q.symptom = false := Bool.eq_false_iff.mpr hsymptom
      refine ⟨hcorroborated.symm, hrefuted.symm, h.nodup.insert, fun x => ?_,
        fun p hp hcorr hsym => ?_⟩
      · rw [List.mem_insert_iff, h.backends, exists_mem_concat, or_comm]
        refine or_congr_right ⟨fun hx => ⟨hstatus, hcause, hx.symm⟩, fun hx => hx.2.2.symm⟩
      · rcases List.mem_append.mp hp with hp | hp
        · exact h.symptomBackends p hp hcorr hsym
        · rw [List.mem_singleton.mp hp] at hsym
          exact absurd hsym hsymptom
  | refuted =>
    refine hkeep (by rw [hstatus]; decide) _ rfl rfl rfl ?_
    rw [if_pos hstatus]
    rfl
  | noData | unavailable => exact hkeep (by rw [hstatus]; decide) _ rfl rfl rfl (by simp [hstatus])

theorem recomputes_probeItems (rule : Rule)
    (h : ∀ q ∈ results, ∃ probe, Reports probe q ∧ Comparator.Known probe.comparator)
    (service : String) :
    ∃ r, (results.map (probeItem rule service)).foldlM (checkItem rule.id) ⟨0, 0, [], []⟩ = .ok r ∧
      Recomputes results r := by
  induction results using List.reverseRecOn with
  | nil => exact ⟨_, rfl, rfl, rfl, List.nodup_nil, by simp, by simp⟩
  | append_singleton results q ih =>
    obtain ⟨r, hfold, hr⟩ := ih fun p hp => h p (List.mem_append_left _ hp)
    obtain ⟨probe, hreports, hknown⟩ := h q (by simp)
    refine ⟨_, ?_, hr.concat rule service q⟩
    rw [List.map_append, List.foldlM_append, hfold]
    change (do
      let s ← checkItem rule.id r (probeItem rule service q)
      List.foldlM (checkItem rule.id) s []) = _
    rw [checkItem_probeItem hreports hknown]
    rfl

/-- Items of other rules and of alerts are passed over. -/
theorem checkItems_skip {id : String} {items : List RCAEvidence}
    (h : ∀ item ∈ items, item.ruleID ≠ id ∨ item.kind ≠ .probe) (acc : Recomputed) :
    items.foldlM (checkItem id) acc = .ok acc := by
  induction items with
  | nil => rfl
  | cons item items ih =>
    rw [List.foldlM_cons, checkItem, if_pos (h item List.mem_cons_self)]
    exact ih fun other hother => h other (List.mem_cons_of_mem _ hother)

variable {sep : Char} {best s : HypothesisScore} {signals : List Signal}

theorem ruleID_of_mem_evidenceItems {item : RCAEvidence} (h : item ∈ evidenceItems s) :
    item.ruleID = s.rule.id := by
  rcases List.mem_append.mp h with h | h
  · obtain ⟨m, -, rfl⟩ := List.mem_map.mp h
    rfl
  · obtain ⟨q, -, rfl⟩ := List.mem_map.mp h
    rfl

/-- The items of the reported rule are those of its own results. -/
theorem recomputes_items {scores : List HypothesisScore} (hnodup : (scores.map (·.rule.id)).Nodup)
    (hbest : best ∈ scores)
    (h : ∀ q ∈ best.run.results, ∃ probe, Reports probe q ∧ Comparator.Known probe.comparator) :
    ∃ r, (scores.flatMap evidenceItems).foldlM (checkItem best.rule.id) ⟨0, 0, [], []⟩ = .ok r ∧
      Recomputes best.run.results r := by
  obtain ⟨earlier, later, rfl⟩ := List.append_of_mem hbest
  have hothers : ∀ s, s ∈ earlier ∨ s ∈ later → s.rule.id ≠ best.rule.id := by
    rw [List.map_append, List.map_cons, List.nodup_append, List.nodup_cons] at hnodup
    obtain ⟨-, ⟨hlater, -⟩, hdisjoint⟩ := hnodup
    rintro s (hs | hs) heq
    · exact hdisjoint _ (List.mem_map_of_mem hs) _ List.mem_cons_self heq
    · exact hlater (heq ▸ List.mem_map_of_mem (f := fun s => s.rule.id) hs)
  have hskip : ∀ l : List HypothesisScore, (∀ s ∈ l, s.rule.id ≠ best.rule.id) → ∀ acc,
      (l.flatMap evidenceItems).foldlM (checkItem best.rule.id) acc = .ok acc := by
    intro l hl acc
    refine checkItems_skip (fun item hitem => .inl ?_) acc
    obtain ⟨s, hs, hmem⟩ := List.mem_flatMap.mp hitem
    rw [ruleID_of_mem_evidenceItems hmem]
    exact hl s hs
  obtain ⟨r, hfold, hr⟩ := recomputes_probeItems best.rule h best.run.service
  have halerts : ((distinctAlerts best.found.all).map (alertItem best.rule)).foldlM
      (checkItem best.rule.id) ⟨0, 0, [], []⟩ = .ok ⟨0, 0, [], []⟩ := by
    refine checkItems_skip (fun item hitem => .inr ?_) _
    obtain ⟨m, -, rfl⟩ := List.mem_map.mp hitem
    rintro ⟨⟩
  refine ⟨r, ?_, hr⟩
  rw [List.flatMap_append, List.flatMap_cons, evidenceItems, List.foldlM_append,
    hskip earlier fun s hs => hothers s (.inl hs)]
  change List.foldlM (checkItem best.rule.id) _ _ = _
  rw [List.foldlM_append, List.foldlM_append, halerts]
  change (List.foldlM _ _ _ >>= _) = _
  rw [hfold]
  exact hskip later (fun s hs => hothers s (.inr hs)) r

/-! ## Sources and bounds -/

theorem Recomputes.sources (h : Recomputes results r) :
    sortStrings r.backends = sortStrings ((causeBackends results).map Evidence.Backend.name) := by
  refine Sorting.sortStrings_eq_of_perm ((List.perm_ext_iff_of_nodup h.nodup ?_).mpr fun x => ?_)
  · exact (List.nodup_dedup _).map Evidence.Backend.name_injective
  · rw [h.backends]
    simp only [causeBackends, List.mem_map, List.mem_dedup, List.mem_filter, decide_eq_true_eq]
    constructor
    · rintro ⟨q, hq, hstatus, hcause, rfl⟩
      exact ⟨_, ⟨q, ⟨hq, hstatus, hcause⟩, rfl⟩, rfl⟩
    · rintro ⟨_, ⟨q, ⟨hq, hstatus, hcause⟩, rfl⟩, rfl⟩
      exact ⟨q, hq, hstatus, hcause, rfl⟩

theorem clamp_eq_min_max {value low high : ℚ} (h : low ≤ high) :
    clamp value low high = min high (max low value) := by
  unfold clamp
  split
  · rename_i hlow
    rw [max_eq_left hlow.le, min_eq_right h]
  · rename_i hlow
    rw [max_eq_right (not_lt.mp hlow)]
    split
    · rename_i hhigh
      rw [min_eq_left hhigh.le]
    · rename_i hhigh
      rw [min_eq_right (not_lt.mp hhigh)]

@[simp] theorem close_self (q : ℚ) : close q q = true := by simp [close]

@[simp] theorem checkClose_self (key : String) (q : ℚ) : checkClose key q q = .ok () := by
  simp [checkClose, reject]

/-! ## Evidence lines -/

variable {line : String}

theorem mem_of_mem_appendEvidence {items values : List String}
    (h : line ∈ appendEvidence items values) : line ∈ items ∨ line ∈ values := by
  induction values generalizing items with
  | nil => exact .inl h
  | cons value values ih =>
    rcases ih h with hmem | hmem
    · dsimp only at hmem
      split at hmem
      · exact .inl hmem
      · rcases List.mem_append.mp hmem with hmem | hmem
        · exact .inl hmem
        · exact .inr (List.mem_singleton.mp hmem ▸ List.mem_cons_self)
    · exact .inr (List.mem_cons_of_mem _ hmem)

theorem mem_of_mem_foldl_appendEvidence {α : Type*} (text : α → String) {l : List α}
    {out : List String} (h : line ∈ l.foldl (fun out a => appendEvidence out [text a]) out) :
    line ∈ out ∨ ∃ a ∈ l, line = text a := by
  induction l generalizing out with
  | nil => exact .inl h
  | cons a l ih =>
    rcases ih h with hmem | ⟨b, hb, rfl⟩
    · rcases mem_of_mem_appendEvidence hmem with hmem | hmem
      · exact .inl hmem
      · exact .inr ⟨a, List.mem_cons_self, List.mem_singleton.mp hmem⟩
    · exact .inr ⟨b, List.mem_cons_of_mem _ hb, rfl⟩

/-- Every line of support is of an alert or of a corroborated probe. -/
theorem mem_of_mem_supportingEvidence (h : line ∈ supportingEvidence s) :
    (∃ m, line = alertLine m) ∨
      ∃ q ∈ s.run.results, q.status = .corroborated ∧ line = probeLine q := by
  rcases mem_of_mem_foldl_appendEvidence probeLine h with h | ⟨q, hq, rfl⟩
  · rcases mem_of_mem_foldl_appendEvidence alertLine h with h | ⟨m, -, rfl⟩
    · cases h
    · exact .inl ⟨m, rfl⟩
  · obtain ⟨hq, hstatus⟩ := List.mem_filter.mp hq
    exact .inr ⟨q, hq, of_decide_eq_true hstatus, rfl⟩

variable {topology : IncidentTopology}

theorem mem_of_mem_enriched {result : Analysis}
    (h : line ∈ (enrichWithTopology result topology).evidence) :
    line ∈ result.evidence ∨ line = suppressedLine topology ∨ line = blastRadiusLine topology := by
  unfold enrichWithTopology at h
  split at h
  · exact .inl h
  · dsimp only at h
    rcases mem_of_mem_appendEvidence h with h | h
    · exact .inl h
    · rw [List.mem_cons, List.mem_singleton] at h
      exact .inr h

variable {c : Char} {text : String}

/-- A line that cites a backend starts as its name does. -/
theorem head_of_upTo (h : (upTo sep text).toList.head? = some c) : text.toList.head? = some c := by
  rw [upTo, String.toList_ofList] at h
  cases htext : text.toList with
  | nil => rw [htext] at h; exact h
  | cons d rest =>
    rw [htext, List.takeWhile_cons] at h
    split at h
    · exact h
    · cases h

theorem backed_of_head (h : line.toList.head? = some c) (hp : c ≠ 'p') (hl : c ≠ 'l') :
    unbacked r line = false := by
  have hother : ∀ name d, name.toList.head? = some d → d ≠ c → upTo ' ' (upTo ':' line) ≠ name := by
    rintro name d hname hne rfl
    have := head_of_upTo (head_of_upTo hname)
    rw [h] at this
    exact hne (Option.some.inj this).symm
  have hprometheus := hother "prometheus" 'p' (by decide +kernel) hp.symm
  have hloki := hother "loki" 'l' (by decide +kernel) hl.symm
  have hnot : upTo ' ' (upTo ':' line) ∉ ["prometheus", "loki"] := by
    rw [List.mem_cons, List.mem_singleton]
    exact not_or.mpr ⟨hprometheus, hloki⟩
  unfold unbacked
  dsimp only
  rw [decide_eq_false hnot, Bool.false_and]

theorem head_append (h : text.toList.head? = some c) (rest : String) :
    (text ++ rest).toList.head? = some c := by
  rw [String.toList_append, List.head?_append, h]
  rfl

theorem backed_alertLine (r : Recomputed) (m : Match) : unbacked r (alertLine m) = false := by
  refine backed_of_head (c := 'a') ?_ (by decide) (by decide)
  rw [alertLine, alertSource, String.append_assoc, String.append_assoc, String.append_assoc]
  exact head_append (by decide +kernel) _

theorem backed_blastRadiusLine (r : Recomputed) (topology : IncidentTopology) :
    unbacked r (blastRadiusLine topology) = false := by
  refine backed_of_head (c := 'b') ?_ (by decide) (by decide)
  exact head_append (by decide +kernel) _

theorem backed_suppressedLine (r : Recomputed) (topology : IncidentTopology) :
    unbacked r (suppressedLine topology) = false := by
  have hdigits : ∃ c rest, (toString topology.suppressedAlertCount).toList = c :: rest ∧
      c.isDigit = true := by
    obtain ⟨c, rest, hchars⟩ := List.exists_cons_of_ne_nil
      (Nat.toDigits_ne_nil (b := 10) (n := topology.suppressedAlertCount))
    refine ⟨c, rest, ?_, Nat.isDigit_of_mem_toDigits (by decide) (by decide)
      (hchars ▸ List.mem_cons_self)⟩
    rw [← hchars]
    exact String.toList_ofList
  obtain ⟨c, rest, hchars, hdigit⟩ := hdigits
  refine backed_of_head (c := c) ?_ ?_ ?_
  · rw [suppressedLine, String.append_assoc]
    exact head_append (by rw [hchars]; rfl) _
  · rintro rfl
    exact absurd hdigit (by decide)
  · rintro rfl
    exact absurd hdigit (by decide)

theorem upTo_append {rest : String} (htext : sep ∉ text.toList)
    (hrest : rest.toList.head? = some sep) : upTo sep (text ++ rest) = text := by
  have hall : ∀ c ∈ text.toList, decide (c ≠ sep) = true := by
    rintro c hc
    exact decide_eq_true fun heq => htext (heq ▸ hc)
  obtain ⟨tail, htail⟩ : ∃ tail, rest.toList = sep :: tail := by
    cases hlist : rest.toList with
    | nil => rw [hlist] at hrest; cases hrest
    | cons d tail => rw [hlist] at hrest; exact ⟨tail, by rw [Option.some.inj hrest]⟩
  rw [upTo, String.toList_append, List.takeWhile_append_of_pos hall, htail, List.takeWhile_cons]
  simp

/-- A line of a corroborated probe cites the backend of that probe. -/
theorem backed_probeLine (h : Recomputes results r) (hq : q ∈ results)
    (hstatus : q.status = .corroborated) (hbackend : q.backend = .prometheus ∨ q.backend = .loki) :
    unbacked r (probeLine q) = false := by
  have hstart : upTo ':' (probeLine q) = sourceOf q := by
    simp only [probeLine, String.append_assoc]
    refine upTo_append ?_ (head_append (by decide +kernel) _)
    unfold sourceOf
    rcases hbackend with hb | hb <;> rw [hb] <;> split <;> decide +kernel
  unfold unbacked
  rw [hstart]
  unfold sourceOf
  dsimp only
  cases hsymptom : q.symptom with
  | true =>
    have hmem := h.symptomBackends q hq hstatus hsymptom
    have hword : upTo ' ' (q.backend.name ++ " (symptom)") = q.backend.name := by
      rcases hbackend with hb | hb <;> rw [hb] <;> decide +kernel
    have hsuffix :
        "(symptom)".toList.isSuffixOf (q.backend.name ++ " (symptom)").toList = true := by
      rcases hbackend with hb | hb <;> rw [hb] <;> decide +kernel
    rw [if_pos rfl, hword, if_pos hsuffix, decide_eq_true hmem, Bool.not_true, Bool.and_false]
  | false =>
    have hmem := (h.backends q.backend.name).mpr ⟨q, hq, hstatus, hsymptom, rfl⟩
    have hword : upTo ' ' q.backend.name = q.backend.name := by
      rcases hbackend with hb | hb <;> rw [hb] <;> decide +kernel
    have hsuffix : ¬"(symptom)".toList.isSuffixOf q.backend.name.toList = true := by
      rcases hbackend with hb | hb <;> rw [hb] <;> decide +kernel
    rw [if_neg Bool.false_ne_true, hword, if_neg hsuffix, decide_eq_true hmem, Bool.not_true,
      Bool.and_false]

/-! ## The compiled table -/

theorem probes_defaultRules : ∀ rule ∈ defaultRules, ∀ probe ∈ rule.probes,
    probe.comparator = .atLeast ∧ (probe.weight * 20).den = 1 ∧
      (probe.backend = .prometheus ∨ probe.backend = .loki) := by
  decide +kernel

theorem ids_defaultRules : ∀ rule ∈ defaultRules, rule.id ≠ "" := by decide +kernel

theorem known_atLeast : Comparator.Known .atLeast := by
  rw [Comparator.Known]
  rfl

/-- The score that the script recomputes is the recorded one. -/
theorem validate_of_breakdown (name : String) {rca : Report} (hid : best.rule.id ≠ "")
    (hscore : rca.scoreBreakdown = best.breakdown) (hconfidence : rca.confidence = best.confidence)
    (hbest : best = scoreRule best.rule best.found best.run)
    (hweights : ∀ q ∈ best.run.results, Tick q.weight)
    (hitems : rca.evidenceItems.foldlM (checkItem best.rule.id) ⟨0, 0, [], []⟩ = .ok r)
    (hr : Recomputes best.run.results r) (hlines : ∀ line ∈ rca.evidence, unbacked r line = false)
    (hcandidates : best.contradicted = true → ∀ c ∈ rca.candidates,
      c.actionType = "collect_diagnostics") : ∃ text, validate name rca = .ok text := by
  have hcorroborated : best.corroborated = r.corroborated := by rw [hbest, hr.corroborated]; rfl
  have hrefuted : best.refuted = r.refuted := by rw [hbest, hr.refuted]; rfl
  have htick := tick_weightOf hweights .corroborated
  have htick' := tick_weightOf hweights .refuted
  rw [← hr.corroborated] at htick
  rw [← hr.refuted] at htick'
  obtain ⟨z, hz⟩ := exists_int_raw htick htick'
  have hraw : best.raw = Rounding.toPlaces 4 (45 / 100 + r.corroborated - 1 / 2 * r.refuted) := by
    have hround : best.raw = round4 (45 / 100 + r.corroborated - 1 / 2 * r.refuted) := by
      rw [← hcorroborated, ← hrefuted, hbest]
      rfl
    rw [hround, round4_of_int hz, Rounding.toPlaces_of_int hz]
  have hsources : best.sources = "alertmanager" :: sortStrings r.backends := by
    rw [hr.sources, hbest]
    rfl
  have hcap : best.cap = checkedCap best.sources.length := by
    rw [hbest]
    rfl
  have hfinal : best.confidence = min best.cap (max (35 / 100) best.raw) := by
    have hclamp : best.confidence = clamp best.raw baselineConfidence best.cap := by
      rw [hbest]
      rfl
    rw [hclamp, clamp_eq_min_max]
    · rfl
    · rw [hcap]
      exact baselineConfidence_le_sourceCap _
  have hcontradicted : best.contradicted = decide (r.corroborated < r.refuted) := by
    rw [← hcorroborated, ← hrefuted, hbest]
    rfl
  have hscoreOk : best.breakdown = { best.breakdown with
      corroborated := r.corroborated
      refuted := r.refuted } := by
    have hround : round4 best.corroborated = r.corroborated := by rw [hcorroborated, htick.round4]
    have hround' : round4 best.refuted = r.refuted := by rw [hrefuted, htick'.round4]
    rw [HypothesisScore.breakdown, hround, hround']
  have hlinesOk : rca.evidence.foldlM (checkLine r) () = .ok () := by
    generalize rca.evidence = lines at hlines
    induction lines with
    | nil => rfl
    | cons line lines ih =>
      rw [List.foldlM_cons, checkLine, hlines line List.mem_cons_self]
      exact ih fun other hother => hlines other (List.mem_cons_of_mem _ hother)
  have hsafe : (best.contradicted &&
      rca.candidates.any (·.actionType ≠ "collect_diagnostics")) = false := by
    cases hcase : best.contradicted with
    | false => rfl
    | true =>
      rw [Bool.true_and, List.any_eq_false]
      intro c hc
      simp [hcandidates hcase c hc]
  have hok : ∀ {α β : Type} (a : α) (f : α → Except Rejection β), (Except.ok a >>= f) = f a :=
    fun _ _ => rfl
  have haccept : ∀ why : Rejection, reject false why = .ok () := fun _ => rfl
  unfold validate
  dsimp only
  rw [hscore, if_neg (show best.breakdown.ruleID ≠ "" from hid),
    show best.breakdown.ruleID = best.rule.id from rfl, hitems, hok, ← hsources, ← hcap, ← hraw,
    ← hfinal, ← hcontradicted, hscoreOk, hconfidence]
  dsimp only [HypothesisScore.breakdown]
  rw [hsafe]
  simp [hok, haccept, hlinesOk]

/-! ## The topology of the incident -/

/-- Topology leaves the confidence alone: it suppressed no alert, or it inferred the root of a
matched failure, or it names no root for an unmatched one. -/
def Unadjusted (signals : List Signal) (topology : IncidentTopology) : Prop :=
  topology.suppressedAlertCount = 0 ∨
    ((∃ signal ∈ signals, (Correlator.new.ruleOf signal).isSome = true) ∧
      topology.rootInferred = true) ∨
    ((∀ signal ∈ signals, Correlator.new.ruleOf signal = none) ∧ topology.rootService = "")

theorem validate_of_match (name : String) (quote : String → String) (collector : RuleID → Collector)
    (at_ : Time) (incident : IncidentRow)
    (hmatch : ∃ signal ∈ signals, (Correlator.new.ruleOf signal).isSome = true)
    (hroot : topology.suppressedAlertCount = 0 ∨ topology.rootInferred = true) :
    ∃ text, validate name
      (analyze quote .new collector at_ incident signals topology).report = .ok text := by
  have hms := consistent_matchAll nodup_ids_defaultRules incident signals
  obtain ⟨best, hbest, -, heq⟩ := analyze_of_match quote .new collector at_ incident signals
    topology sufficient_defaultRules nodup_ids_defaultRules hmatch
  have hscored := scored_of_mem hms hbest
  obtain ⟨m, -, hrun⟩ := hscored.run
  obtain ⟨m', hm', hrule'⟩ := exists_match_of_score hms hbest
  obtain ⟨signal, -, hruleOf⟩ := Correlator.exists_match_iff.mp ⟨m', hm', hrule'⟩
  have hrule : best.rule ∈ defaultRules := Correlator.mem_rules_of_ruleOf hruleOf
  have htable : ∀ q ∈ best.run.results, (∃ probe, Reports probe q ∧
      Comparator.Known probe.comparator) ∧ Tick q.weight ∧
        (q.backend = .prometheus ∨ q.backend = .loki) := by
    rw [hrun]
    intro q hq
    obtain ⟨probe, hprobe, rfl⟩ := List.mem_map.mp hq
    have hq := Collector.runOne_reports quote (collector best.rule.id) probe m.service at_
    obtain ⟨hcomparator, hweight, hbackend⟩ := probes_defaultRules best.rule hrule probe hprobe
    refine ⟨⟨probe, hq, hcomparator ▸ known_atLeast⟩, ?_, hq.backend ▸ hbackend⟩
    rw [hq.weight]
    exact ⟨(probe.weight * 20).num, ((Rat.den_eq_one_iff _).mp hweight).symm⟩
  obtain ⟨r, hitems, hr⟩ := recomputes_items (nodup_scoresOf hms) hbest fun q hq => (htable q hq).1
  rw [heq]
  obtain ⟨hconfidence, hscore⟩ | ⟨hsuppressed, hobserved, -⟩ := enrichWithTopology_cases
    (conclude quote best ((scoresOf quote collector at_ incident
      (Correlator.new.matchAll incident signals)).flatMap evidenceItems)) topology
  · rw [conclude_confidence] at hconfidence
    rw [conclude_score] at hscore
    refine validate_of_breakdown name (ids_defaultRules _ hrule) hscore hconfidence hscored.eq
      (fun q hq => (htable q hq).2.1) ?_ hr (fun line hline => ?_) fun hcontradicted c hc => ?_
    · simpa [Analysis.report] using hitems
    · rcases mem_of_mem_enriched hline with hline | rfl | rfl
      · rw [conclude_evidence] at hline
        rcases mem_of_mem_supportingEvidence hline with ⟨m, rfl⟩ | ⟨q, hq, hstatus, rfl⟩
        · exact backed_alertLine r m
        · exact backed_probeLine hr hq hstatus (htable q hq).2.2
      · exact backed_suppressedLine r topology
      · exact backed_blastRadiusLine r topology
    · rw [Analysis.report, enrichWithTopology_candidates, conclude_candidates,
        if_pos hcontradicted] at hc
      rw [List.mem_singleton.mp hc]
      rfl
  · rcases hroot with hroot | hroot
    · exact absurd hroot hsuppressed
    · rw [hroot] at hobserved
      cases hobserved

theorem validate_of_no_match (name : String) (quote : String → String)
    (collector : RuleID → Collector) (at_ : Time) (incident : IncidentRow)
    (hmatch : ∀ signal ∈ signals, Correlator.new.ruleOf signal = none)
    (hroot : topology.suppressedAlertCount = 0 ∨ topology.rootService = "") :
    ∃ text, validate name
      (analyze quote .new collector at_ incident signals topology).report = .ok text := by
  rw [analyze_of_no_match quote .new collector at_ incident signals topology hmatch,
    applyTopologyFallback, if_pos (.inr hroot)]
  have hunmatched : ∀ rca : Report, rca.scoreBreakdown.ruleID = "" → rca.confidence = 35 / 100 →
      ∃ text, validate name rca = .ok text := by
    intro rca hid hconfidence
    refine ⟨name ++ ": no rule matched, confidence " ++ Rounding.fixed 2 (35 / 100), ?_⟩
    unfold validate
    rw [if_pos hid, hconfidence, close_self]
    rfl
  obtain ⟨hconfidence, hscore⟩ | ⟨-, -, hid, -⟩ :=
    enrichWithTopology_cases (insufficientEvidence incident) topology
  · refine hunmatched _ ?_ hconfidence
    rw [Analysis.report, hscore]
    rfl
  · exact absurd rfl hid

/-- A topology that suppressed an alert behind this root. -/
def suppressedBehind (root : String) ( rootInferred : Bool) : IncidentTopology :=
  ⟨"inc_test", root, rootInferred, [root], 2, 1, []⟩

end Argus.Rca
