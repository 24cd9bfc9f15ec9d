import Argus.Base.Rounding
import Argus.Base.Strings
import Argus.Incidents.Records

/-!
# Corroboration probes

A probe is one instant query to an observability backend whose answer supports or contradicts a
hypothesis. Whatever the backend does, a result carries the probe's own data, and it records a value
exactly when its status comes from comparing that value (`Reports`). Whatever the service is called, a
query that is sent is the probe's template with a safe label in place of each variable (`Rendered`).
-/

namespace Argus.Evidence

open Incidents (Time)
open Strings (trimSpace contains replaceAll)

inductive Backend where
  | prometheus
  | loki
  | unknown (name : {s : String // s ≠ "prometheus" ∧ s ≠ "loki"})
  deriving DecidableEq, Repr

def Backend.name : Backend → String
  | prometheus => "prometheus"
  | loki => "loki"
  | unknown name => name

theorem Backend.name_injective : Function.Injective Backend.name := by
  intro a b h
  cases a <;> cases b <;> simp only [Backend.name, String.reduceEq, reduceCtorEq] at h ⊢
  case prometheus.unknown s => exact absurd h.symm s.2.1
  case loki.unknown s => exact absurd h.symm s.2.2
  case unknown.prometheus s => exact absurd h s.2.1
  case unknown.loki s => exact absurd h s.2.2
  case unknown.unknown s t => rw [Subtype.ext h]

inductive Comparator where
  | atLeast
  | above
  | atMost
  | below
  | unknown (text : {s : String // s ∉ [">=", ">", "<=", "<"]})
  deriving DecidableEq, Repr

def Comparator.name : Comparator → String
  | atLeast => ">="
  | above => ">"
  | atMost => "<="
  | below => "<"
  | unknown text => text

/-- `Variable`: the only substitution in a query. -/
def serviceVariable : String := "\x7b\x7bservice\x7d\x7d"

structure Probe where
  id : String
  backend : Backend
  query : String
  comparator : Comparator
  threshold : ℚ
  weight : ℚ
  claim : String
  symptom : Bool := false
  deriving DecidableEq, Repr

inductive Status where
  | corroborated
  | refuted
  | noData
  | unavailable
  deriving DecidableEq, Repr

def Status.name : Status → String
  | corroborated => "corroborated"
  | refuted => "refuted"
  | noData => "no_data"
  | unavailable => "unavailable"

structure Result where
  probeID : String
  backend : Backend
  query : String
  comparator : Comparator
  threshold : ℚ
  weight : ℚ
  claim : String
  symptom : Bool
  status : Status
  value : Option ℚ
  error : String
  evaluatedAt : Time
  deriving DecidableEq, Repr

/-! ## Rendering -/

/-- `^[a-z0-9](?:[a-z0-9._-]{0,61}[a-z0-9])?$`. -/
def safeLabelValue (value : String) : Bool :=
  let alnum (c : Char) : Bool := ('a' ≤ c && c ≤ 'z') || ('0' ≤ c && c ≤ '9')
  let chars := value.toList
  chars.length ≤ 63 && chars.all (fun c => alnum c || c ∈ ['.', '_', '-']) &&
    chars.head?.any alnum && chars.getLast?.any alnum

inductive RenderError where
  | notSafe (service : String)
  | unknownPlaceholder
  deriving DecidableEq, Repr

def RenderError.text (quote : String → String) : RenderError → String
  | notSafe service =>
    "service " ++ quote service ++ " is not a safe label value; probe not executed"
  | unknownPlaceholder => "probe template has an unknown placeholder"

/-- `Render(template, service)`. -/
def render (template service : String) : Except RenderError String :=
  if !safeLabelValue service then .error (.notSafe service)
  else
    let rendered := replaceAll template serviceVariable service
    if contains rendered "\x7b\x7b" then .error .unknownPlaceholder else .ok rendered

/-! ## Running -/

/-- A sample of a backend: a number, or NaN or an infinity. -/
inductive Sample where
  | finite (value : ℚ)
  | notFinite

/-- One call of `Instant`: the rendered query, with the probe and the service it is for. -/
structure Call where
  probe : Probe
  service : String
  query : String

/-- A configured backend: an error, no usable sample, or a sample for each call. -/
structure Querier where
  instant : Call → Except String (Option Sample)

/-- The configured backends. Without a collector none is. -/
structure Collector where
  backends : Backend → Option Querier

def compare (value : ℚ) : Comparator → ℚ → Bool
  | .atLeast, threshold => threshold ≤ value
  | .above, threshold => threshold < value
  | .atMost, threshold => value ≤ threshold
  | .below, threshold => value < threshold
  | .unknown _, _ => false

/-- The result that a probe starts with. -/
def Probe.unavailable (probe : Probe) (at_ : Time) : Result where
  probeID := probe.id
  backend := probe.backend
  query := probe.query
  comparator := probe.comparator
  threshold := probe.threshold
  weight := probe.weight
  claim := probe.claim
  symptom := probe.symptom
  status := .unavailable
  value := none
  error := ""
  evaluatedAt := at_

def Collector.runOne (quote : String → String) (c : Collector) (probe : Probe) (service : String)
    (at_ : Time) : Result :=
  let result := probe.unavailable at_
  match render probe.query service with
  | .error e => { result with error := e.text quote }
  | .ok query =>
    let result := { result with query := query }
    match c.backends probe.backend with
    | none => { result with error := probe.backend.name ++ " backend not configured" }
    | some querier =>
      match querier.instant ⟨probe, service, query⟩ with
      | .error e => { result with error := e }
      | .ok none => { result with status := .noData }
      | .ok (some .notFinite) => { result with status := .noData }
      | .ok (some (.finite value)) =>
        { result with
          value := some value
          status := if compare value probe.comparator probe.threshold then .corroborated
            else .refuted }

/-- `Run`: the results are in probe order. -/
def Collector.run (quote : String → String) (c : Collector) (probes : List Probe) (service : String)
    (at_ : Time) : List Result :=
  probes.map fun probe => c.runOne quote probe service at_

/-- The call that a probe makes, if its query can be rendered and its backend is configured. -/
def Collector.call (c : Collector) (probe : Probe) (service : String) : Option Call :=
  match render probe.query service, c.backends probe.backend with
  | .ok query, some _ => some ⟨probe, service, query⟩
  | _, _ => none

/-- The calls of a run. -/
def Collector.calls (c : Collector) (probes : List Probe) (service : String) : List Call :=
  probes.filterMap fun probe => c.call probe service

/-- What a result says about the probe it is a result of. -/
structure Reports (probe : Probe) (result : Result) : Prop where
  probeID : result.probeID = probe.id
  backend : result.backend = probe.backend
  comparator : result.comparator = probe.comparator
  threshold : result.threshold = probe.threshold
  weight : result.weight = probe.weight
  claim : result.claim = probe.claim
  symptom : result.symptom = probe.symptom
  observed : (∃ value, result.value = some value ∧
      result.status = if compare value probe.comparator probe.threshold then .corroborated
        else .refuted) ∨
    (result.value = none ∧ (result.status = .noData ∨ result.status = .unavailable))

theorem Collector.runOne_reports (quote : String → String) (c : Collector) (probe : Probe)
    (service : String) (at_ : Time) : Reports probe (c.runOne quote probe service at_) := by
  rw [runOne]
  cases render probe.query service with
  | error e => exact ⟨rfl, rfl, rfl, rfl, rfl, rfl, rfl, .inr ⟨rfl, .inr rfl⟩⟩
  | ok query =>
    dsimp only
    cases c.backends probe.backend with
    | none => exact ⟨rfl, rfl, rfl, rfl, rfl, rfl, rfl, .inr ⟨rfl, .inr rfl⟩⟩
    | some querier =>
      dsimp only
      rcases querier.instant ⟨probe, service, query⟩ with e | _ | value | _
      · exact ⟨rfl, rfl, rfl, rfl, rfl, rfl, rfl, .inr ⟨rfl, .inr rfl⟩⟩
      · exact ⟨rfl, rfl, rfl, rfl, rfl, rfl, rfl, .inr ⟨rfl, .inl rfl⟩⟩
      · exact ⟨rfl, rfl, rfl, rfl, rfl, rfl, rfl, .inl ⟨value, rfl, rfl⟩⟩
      · exact ⟨rfl, rfl, rfl, rfl, rfl, rfl, rfl, .inr ⟨rfl, .inl rfl⟩⟩

/-! ## Validation -/

inductive ProbeError where
  | missingID
  | unknownBackend (id : String) (backend : Backend)
  | unscoped (id : String)
  | weight (id : String)
  | missingClaim (id : String)
  | unknownComparator (id : String) (comparator : Comparator)
  | template (id : String) (error : RenderError)
  deriving DecidableEq, Repr

def ProbeError.text (quote : String → String) : ProbeError → String
  | missingID => "probe id is required"
  | unknownBackend id backend => "probe " ++ id ++ ": unknown backend " ++ quote backend.name
  | unscoped id => "probe " ++ id ++ ": query must be scoped with " ++ serviceVariable
  | weight id => "probe " ++ id ++ ": weight must be in (0, 0.5]"
  | missingClaim id => "probe " ++ id ++ ": claim is required"
  | unknownComparator id comparator =>
    "probe " ++ id ++ ": unknown comparator " ++ quote comparator.name
  | template id error => "probe " ++ id ++ ": " ++ error.text quote

def validateProbe (probe : Probe) : Except ProbeError Unit :=
  if trimSpace probe.id = "" then .error .missingID
  else if probe.backend ≠ .prometheus ∧ probe.backend ≠ .loki then
    .error (.unknownBackend probe.id probe.backend)
  else if !contains probe.query serviceVariable then .error (.unscoped probe.id)
  else if probe.weight ≤ 0 ∨ 1 / 2 < probe.weight then .error (.weight probe.id)
  else if trimSpace probe.claim = "" then .error (.missingClaim probe.id)
  else match probe.comparator with
    | .unknown _ => .error (.unknownComparator probe.id probe.comparator)
    | _ => match render probe.query "probe-check" with
      | .error e => .error (.template probe.id e)
      | .ok _ => .ok ()

theorem weight_pos_of_validateProbe {probe : Probe} (h : validateProbe probe = .ok ()) :
    0 < probe.weight := by
  unfold validateProbe at h
  split at h
  · cases h
  split at h
  · cases h
  split at h
  · cases h
  split at h
  · cases h
  rename_i hweight
  exact not_le.mp fun hle => hweight (.inl hle)

/-! ## Injection -/

theorem chars_of_safeLabelValue {value : String} (h : safeLabelValue value = true) :
    1 ≤ value.toList.length ∧ value.toList.length ≤ 63 ∧
      ∀ c ∈ value.toList, ('a' ≤ c ∧ c ≤ 'z') ∨ ('0' ≤ c ∧ c ≤ '9') ∨ c ∈ ['.', '_', '-'] := by
  simp only [safeLabelValue, Bool.and_eq_true, decide_eq_true_eq, List.all_eq_true,
    Bool.or_eq_true] at h
  obtain ⟨⟨⟨hlength, hall⟩, hhead⟩, -⟩ := h
  refine ⟨?_, hlength, fun c hc => or_assoc.mp (hall c hc)⟩
  cases hchars : value.toList with
  | nil => simp [hchars] at hhead
  | cons c cs => simp

/-- A rendered query: the template with a safe label in place of each variable, and nothing else
changed. -/
structure Rendered (template service query : String) : Prop where
  nonempty : 1 ≤ service.toList.length
  short : service.toList.length ≤ 63
  chars : ∀ c ∈ service.toList, ('a' ≤ c ∧ c ≤ 'z') ∨ ('0' ≤ c ∧ c ≤ '9') ∨ c ∈ ['.', '_', '-']
  replaced : ∃ pieces : List (List Char),
    template.toList = serviceVariable.toList.intercalate pieces ∧
    (∀ p ∈ pieces, ¬ serviceVariable.toList <:+: p) ∧
    query.toList = service.toList.intercalate pieces

/-- Two braces in a rendered text come from the template, so that one safe service fails only if
every one does. -/
theorem render_safe {template service : String} (hsafe : safeLabelValue service = true) :
    (∃ query, render template service = .ok query ∧ Rendered template service query) ∨
      ∀ other, ∃ e, render template other = .error e := by
  have hvariable : serviceVariable.toList ≠ [] := by decide +kernel
  obtain ⟨pieces, -, htemplate, hfree, hreplace⟩ :=
    Strings.exists_pieces hvariable 0 template.toList
  have hcontains : ∀ label, safeLabelValue label = true →
      (contains (replaceAll template serviceVariable label) "\x7b\x7b" = true ↔
        ∃ p ∈ pieces, ['{', '{'] <:+: p) := fun label hlabel => by
    obtain ⟨hne, -, hchars⟩ := chars_of_safeLabelValue hlabel
    have hdisjoint : ['{', '{'].Disjoint label.toList := fun c hc hmem => by
      obtain rfl : c = '{' := by simpa using hc
      exact absurd (hchars _ hmem) (by decide)
    rw [← Strings.infix_intercalate_iff (by simp) (List.ne_nil_of_length_pos hne) hdisjoint,
      contains, replaceAll, hreplace, String.toList_ofList, String.toList_ofList,
      decide_eq_true_iff]
  by_cases hbraces : ∃ p ∈ pieces, ['{', '{'] <:+: p
  · refine .inr fun other => ?_
    unfold render
    split
    · exact ⟨_, rfl⟩
    · rename_i hother
      rw [if_pos ((hcontains other (by simpa using hother)).mpr hbraces)]
      exact ⟨_, rfl⟩
  · refine .inl ⟨replaceAll template serviceVariable service, ?_, ?_⟩
    · rw [render, hsafe, if_neg (by simp), if_neg fun h => hbraces ((hcontains service hsafe).mp h)]
    · obtain ⟨hne, hshort, hchars⟩ := chars_of_safeLabelValue hsafe
      exact ⟨hne, hshort, hchars, pieces, htemplate, hfree, by
        rw [replaceAll, String.toList_ofList, hreplace]⟩

theorem render_of_validateProbe {probe : Probe} (h : validateProbe probe = .ok ()) :
    ∃ query, render probe.query "probe-check" = .ok query := by
  unfold validateProbe at h
  split_ifs at h
  split at h
  · cases h
  · cases hrender : render probe.query "probe-check" with
    | ok query => exact ⟨query, rfl⟩
    | error e =>
      rw [hrender] at h
      cases h

/-- For a valid probe, a query is rendered for every safe service and for no other. -/
theorem render_valid {probe : Probe} (h : validateProbe probe = .ok ()) (service : String) :
    (safeLabelValue service = true ∧ ∃ query, render probe.query service = .ok query ∧
        Rendered probe.query service query) ∨
      safeLabelValue service = false ∧ render probe.query service = .error (.notSafe service) := by
  cases hsafe : safeLabelValue service with
  | false =>
    refine .inr ⟨rfl, ?_⟩
    rw [render, hsafe]
    rfl
  | true =>
    refine .inl ⟨rfl, (render_safe hsafe).resolve_right fun hfails => ?_⟩
    obtain ⟨query, hquery⟩ := render_of_validateProbe h
    obtain ⟨e, he⟩ := hfails "probe-check"
    rw [hquery] at he
    cases he

/-- A probe of the error rate of one service. -/
private def errorRate : Probe where
  id := "error-rate"
  backend := .prometheus
  query := "rate(errors\x7bservice=\"\x7b\x7bservice\x7d\x7d\"\x7d[5m])"
  comparator := .above
  threshold := 0
  weight := 1 / 4
  claim := "errors are up"

end Argus.Evidence
