import Argus.Incidents.Ingest

/-!
# The identity of an alert in its dedupe key

A dedupe key joins service, alert name, environment and fingerprint with colons, so it identifies them
only where the colons can be told apart. `Identity.Tidy` holds of the alerts whose labels have no colon,
and of the alerts that stand for an inferred root, whatever the name of the root; tidy identities with
the same key are equal.
-/

namespace Argus.Incidents

open Topology

/-- What a dedupe key is made of. -/
structure Identity where
  service : String
  alertName : String
  environment : String
  fingerprint : String
  deriving DecidableEq, Repr

namespace Identity

def key (i : Identity) : String :=
  buildDedupeKey i.service i.alertName i.environment i.fingerprint

/-- Colons stand only in the service and as often in the fingerprint. -/
structure Tidy (i : Identity) : Prop where
  alertName : ':' ∉ i.alertName.toList
  environment : ':' ∉ i.environment.toList
  fingerprint : i.fingerprint.toList.count ':' = i.service.toList.count ':'

theorem toList_key (i : Identity) :
    i.key.toList = i.service.toList ++ ':' :: (i.alertName.toList ++ ':' ::
      (i.environment.toList ++ ':' :: i.fingerprint.toList)) := by
  simp [key, buildDedupeKey]

theorem Tidy.count_key {i : Identity} (h : i.Tidy) :
    i.key.toList.count ':' = 2 * i.service.toList.count ':' + 3 := by
  rw [toList_key]
  simp only [List.count_append, List.count_cons_self, List.count_eq_zero_of_not_mem h.alertName,
    List.count_eq_zero_of_not_mem h.environment, h.fingerprint]
  omega

/-- A key names one tidy identity. -/
theorem eq_of_key_eq {i j : Identity} (hi : i.Tidy) (hj : j.Tidy) (h : i.key = j.key) : i = j := by
  have hcount : i.service.toList.count ':' = j.service.toList.count ':' := by
    have heq := congrArg (fun s => s.toList.count ':') h
    simp only [hi.count_key, hj.count_key] at heq
    omega
  have hlist := congrArg String.toList h
  rw [toList_key, toList_key] at hlist
  obtain ⟨hservice, hrest⟩ := Strings.append_cons_inj_of_count hcount hlist
  have hname : i.alertName.toList.count ':' = j.alertName.toList.count ':' := by
    rw [List.count_eq_zero_of_not_mem hi.alertName, List.count_eq_zero_of_not_mem hj.alertName]
  obtain ⟨hname, hrest⟩ := Strings.append_cons_inj_of_count hname hrest
  have henv : i.environment.toList.count ':' = j.environment.toList.count ':' := by
    rw [List.count_eq_zero_of_not_mem hi.environment,
      List.count_eq_zero_of_not_mem hj.environment]
  obtain ⟨henv, hfingerprint⟩ := Strings.append_cons_inj_of_count henv hrest
  obtain ⟨s, n, e, f⟩ := i
  obtain ⟨s', n', e', f'⟩ := j
  simp only [String.toList_inj] at hservice hname henv hfingerprint
  rw [hservice, hname, henv, hfingerprint]

/-- The identity of the alert that stands for an inferred root. -/
def inferred (root environment : String) : Identity :=
  ⟨root, correlatedAlert, environment, "topology-" ++ root⟩

theorem tidy_inferred {environment : String} (h : ':' ∉ environment.toList) (root : String) :
    (inferred root environment).Tidy := by
  refine ⟨?_, h, ?_⟩
  · show ':' ∉ correlatedAlert.toList
    decide
  have hprefix : "topology-".toList.count ':' = 0 := by decide
  simp only [inferred, String.toList_append, List.count_append, hprefix]
  omega

end Identity

/-! ## Normalized alerts -/

def NormalizedAlert.identity (a : NormalizedAlert) : Identity :=
  ⟨a.service, a.alertName, a.environment, a.fingerprint⟩

/-- No colon in what the dedupe key is made of. -/
structure Identity.ColonFree (i : Identity) : Prop where
  service : ':' ∉ i.service.toList
  alertName : ':' ∉ i.alertName.toList
  environment : ':' ∉ i.environment.toList
  fingerprint : ':' ∉ i.fingerprint.toList

instance (i : Identity) : Decidable i.ColonFree :=
  decidable_of_iff (':' ∉ i.service.toList ∧ ':' ∉ i.alertName.toList ∧
      ':' ∉ i.environment.toList ∧ ':' ∉ i.fingerprint.toList)
    ⟨fun h => ⟨h.1, h.2.1, h.2.2.1, h.2.2.2⟩, fun h => ⟨h.1, h.2, h.3, h.4⟩⟩

theorem Identity.ColonFree.tidy {i : Identity} (h : i.ColonFree) : i.Tidy :=
  ⟨h.alertName, h.environment, by
    rw [List.count_eq_zero_of_not_mem h.fingerprint, List.count_eq_zero_of_not_mem h.service]⟩

/-- What is known of an alert after normalization. -/
structure NormalizedAlert.Keyed (a : NormalizedAlert) : Prop where
  key : a.dedupeKey = a.identity.key
  named : a.service ≠ ""

private theorem firstNonEmpty_ne_empty {values : List String} {last : String}
    (hmem : last ∈ values) (hlast : Strings.trimSpace last ≠ "") : firstNonEmpty values ≠ "" := by
  have hsome : (values.find? fun v => decide (Strings.trimSpace v ≠ "")).isSome := by
    rw [List.find?_isSome]
    exact ⟨last, hmem, decide_eq_true hlast⟩
  obtain ⟨value, hvalue⟩ := Option.isSome_iff_exists.mp hsome
  have hfound := List.find?_some hvalue
  have htrim : Strings.trimSpace value ≠ "" := of_decide_eq_true hfound
  have hblank : Strings.trimSpace "" = "" := by decide +kernel
  rw [firstNonEmpty, hvalue, Option.getD_some]
  rintro rfl
  exact htrim hblank

theorem keyed_normalize (payload : Webhook) (alert : Alert) (t : Time) :
    (normalize payload alert t).Keyed := by
  have hdefault : Strings.trimSpace "unknown-service" ≠ "" := by decide +kernel
  have hnamed : firstNonEmpty
      [alert.labels.get "service", payload.commonLabels.get "service", "unknown-service"] ≠ "" :=
    firstNonEmpty_ne_empty (by simp) hdefault
  constructor
  · simp only [normalize, NormalizedAlert.identity, Identity.key]
  · simp only [normalize]
    exact hnamed

/-- The identity of an alert of a delivery. -/
def identityOf (payload : Webhook) (alert : Alert) : Identity :=
  (normalize payload alert alert.startsAt).identity

theorem identity_normalize (payload : Webhook) (alert : Alert) (t : Time) :
    (normalize payload alert t).identity = identityOf payload alert := rfl

end Argus.Incidents
