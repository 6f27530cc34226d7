import Eventide.Verification.Experiments.Identity
import Eventide.Verification.Experiments.Totals

/-! # What a demonstrated improvement means

A comparison that finishes has found the two arms comparable; when it says that the candidate is
an improvement, the evidence of the reports bears it out. -/

namespace Eventide

open Outcome Json Pointer

namespace Experiments

variable {std : Standard} {baseline candidate : List Json} {variant : Option ExperimentVariant}
  {left right : Identity} {base next : Evidence}

/-! ## Arms -/

theorem armIdentity_eq_ok {reports : List Json} {identity : Identity}
    (h : armIdentity std reports = .ok identity) :
    (∃ report ∈ reports, experimentIdentity std report = .ok identity) ∧
      ∀ report ∈ reports, ∃ other, experimentIdentity std report = .ok other ∧
        other.json.pyEq identity.json = true := by
  obtain ⟨identities, hidentities, h⟩ := bind_eq_ok.mp h
  cases identities with
  | nil => cases h
  | cons first rest =>
    obtain ⟨_, hrest, h⟩ := bind_eq_ok.mp h
    obtain rfl := Except.ok.inj h
    rw [raiseIf_eq_ok, not_not, List.all_eq_true] at hrest
    refine ⟨mem_of_mapM hidentities List.mem_cons_self, fun report hreport => ?_⟩
    obtain ⟨other, hother, heq⟩ := mapM_mem hidentities hreport
    refine ⟨other, heq, ?_⟩
    rcases List.mem_cons.mp hother with rfl | hother
    · exact pyEq_refl _
    · exact hrest other hother

theorem armIdentity_valid {reports : List Json} {identity : Identity}
    (h : armIdentity std reports = .ok identity) :
    ∀ id case, identity.cases.get? id = some case → case.Valid := by
  obtain ⟨⟨_, -, hreport⟩, -⟩ := armIdentity_eq_ok h
  exact experimentIdentity_valid hreport

/-! ## Variants -/

/-- The variant declares what is reported, and nothing else. -/
structure Declares (std : Standard) (l r : Json) (declared : Differences) : Prop where
  reported : ∀ ks a b, Compared l r ks a b → Apart std a b → ∃ x y,
    declared.get? (pointer ks) = some (x, y) ∧ a.pyEq x = true ∧ b.pyEq y = true
  only : ∀ p x y, declared.get? p = some (x, y) → ∃ ks a b, p = pointer ks ∧
    Compared l r ks a b ∧ Apart std a b ∧ a.pyEq x = true ∧ b.pyEq y = true

theorem sameDifferences_keys {changes declared : Differences}
    (h : sameDifferences changes declared = true) : changes.keys.Perm declared.keys := by
  obtain ⟨hlength, hall⟩ := of_decide_eq_true h
  refine (List.subperm_of_subset changes.keys_nodup fun p hp => ?_).perm_of_length_le ?_
  · obtain ⟨change, hchange, rfl⟩ := List.mem_map.mp hp
    obtain ⟨pair, hpair, -⟩ := (Option.any_eq_true _ _).mp (List.all_eq_true.mp hall change hchange)
    exact Dict.mem_keys.mpr (by rw [hpair]; rfl)
  · rw [Dict.keys, Dict.keys, List.length_map, List.length_map, hlength]

theorem declares_of_sameDifferences {l r : Json} {declared : Differences}
    (h : sameDifferences (differences std l r) declared = true) : Declares std l r declared := by
  have hall : ∀ p a b, (differences std l r).get? p = some (a, b) → ∃ x y,
      declared.get? p = some (x, y) ∧ a.pyEq x = true ∧ b.pyEq y = true := by
    intro p a b hp
    have hentry := List.all_eq_true.mp (of_decide_eq_true h).2 _ (Dict.mem_entries.mpr hp)
    obtain ⟨⟨x, y⟩, hpair, heq⟩ := (Option.any_eq_true _ _).mp hentry
    rw [Bool.and_eq_true] at heq
    exact ⟨x, y, hpair, heq.1, heq.2⟩
  refine ⟨fun ks a b hc ha => hall _ a b ((differences_spec _ _ _).mpr ⟨ks, rfl, hc, ha⟩), ?_⟩
  intro p x y hp
  have hkey : p ∈ (differences std l r).keys :=
    (sameDifferences_keys h).mem_iff.mpr (Dict.mem_keys.mpr (by rw [hp]; rfl))
  obtain ⟨⟨a, b⟩, hab⟩ := Option.isSome_iff_exists.mp (Dict.mem_keys.mp hkey)
  obtain ⟨x', y', hp', hx, hy⟩ := hall p a b hab
  obtain ⟨rfl, rfl⟩ := Prod.mk.inj (Option.some.inj (hp.symm.trans hp'))
  obtain ⟨ks, rfl, hc, ha⟩ := (differences_spec _ _ _).mp hab
  exact ⟨ks, a, b, rfl, hc, ha, hx, hy⟩

/-- A variant that was recorded before all requests of the candidate. -/
def Recorded (variant : ExperimentVariant) (next : Evidence) : Prop :=
  ∃ time, number? variant.recordedAt = some time ∧ ∀ call ∈ next.calls, ∃ start,
    number? (call.row.getNull "started_at") = some start ∧ time ≤ start

/-- What the checks of the identities establish. -/
structure Comparable (std : Standard) (left right : Json) (variant : Option ExperimentVariant)
    (next : Evidence) : Prop where
  unfrozen : Unfrozen std left right
  recorded : (∃ ks a b, Compared left right ks a b ∧ Apart std a b) → ∃ v, variant = some v ∧
    v.name ≠ "" ∧ Recorded v next
  declares : Declares std left right (variant.elim .empty ExperimentVariant.differences)

theorem startedAt_eq_ok {call : Call} {start : ℚ} (h : startedAt call = .ok start) :
    number? (call.row.getNull "started_at") = some start := by
  unfold startedAt at h
  split at h
  · rename_i time htime
    rw [htime, Except.ok.inj h]
  · cases h

theorem checkVariant_eq_ok {l r : Json} {u : Unit} (hnext : readReports candidate = .ok next)
    (h : checkVariant (differences std l r) variant candidate = .ok u) :
    Comparable std l r variant next := by
  cases variant with
  | none => cases h
  | some v =>
    obtain ⟨_, hdeclared, h⟩ := bind_eq_ok.mp h
    rw [raiseIf_eq_ok, not_or, Bool.not_eq_false] at hdeclared
    split at h
    · cases h
    · rename_i time htime
      obtain ⟨_, hfrozen, h⟩ := bind_eq_ok.mp h
      obtain ⟨evidence, hevidence, h⟩ := bind_eq_ok.mp h
      obtain rfl := Except.ok.inj (hnext.symm.trans hevidence)
      obtain ⟨starts, hstarts, h⟩ := bind_eq_ok.mp h
      rw [raiseIf_eq_ok, Bool.not_eq_true, List.any_eq_false] at hfrozen
      rw [raiseIf_eq_ok, not_or] at h
      refine ⟨fun ks a b hc ha => ?_, fun _ => ⟨v, rfl, hdeclared.1, time, htime, ?_⟩,
        declares_of_sameDifferences hdeclared.2⟩
      · have hget := (differences_spec (pointer ks) a b).mpr ⟨ks, rfl, hc, ha⟩
        exact Bool.eq_false_iff.mpr (hfrozen _ (Dict.mem_keys.mpr (by rw [hget]; rfl)))
      · intro call hcall
        obtain ⟨start, hstart, heq⟩ := mapM_mem hstarts hcall
        exact ⟨start, startedAt_eq_ok heq, not_lt.mp fun hlt => h.2 ⟨start, hstart, hlt⟩⟩

/-- Identities without a reported difference need no variant. -/
theorem comparable_of_empty {l r : Json} (hempty : (differences std l r).entries = [])
    (hvariant : ∀ v, variant = some v → v.differences.entries = []) :
    Comparable std l r variant next := by
  have hnone : ∀ ks a b, Compared l r ks a b → ¬ Apart std a b := by
    intro ks a b hc ha
    have hget := Dict.mem_entries.mpr ((differences_spec (pointer ks) a b).mpr ⟨ks, rfl, hc, ha⟩)
    rw [hempty] at hget
    cases hget
  refine ⟨fun ks a b hc ha => absurd ha (hnone ks a b hc), ?_,
    ⟨fun ks a b hc ha => absurd ha (hnone ks a b hc), fun p x y hp => ?_⟩⟩
  · rintro ⟨ks, a, b, hc, ha⟩
    exact absurd ha (hnone ks a b hc)
  · have hmem := Dict.mem_entries.mpr hp
    cases variant with
    | none => cases hmem
    | some v =>
      rw [Option.elim_some, hvariant v rfl] at hmem
      cases hmem

/-! ## Verdict -/

/-- What the verdict rests on. -/
structure Verdict (std : Standard) (baseline candidate : List Json) (base next : Evidence) :
    Prop where
  live : ∀ report ∈ baseline ++ candidate, isCompleted report = true ∧ isReal report = true
  quality : ∀ id, passes base id ≤ passes next id
  saving : (∃ x y, Spent base x ∧ Spent next y ∧ y < x) ∨
    ∃ currency b a x y, currencyCosts std base currency = .ok b ∧
      currencyCosts std next currency = .ok a ∧ comparable b a = true ∧
      Charged base currency x ∧ Charged next currency y ∧ y.value < x.value

/-- A candidate that is better than the baseline. -/
structure Improvement (std : Standard) (baseline candidate : List Json)
    (variant : Option ExperimentVariant) (left right : Identity) (base next : Evidence) : Prop where
  repetitions : baseline.length = candidate.length
  before : ∀ report ∈ baseline, ∃ identity, experimentIdentity std report = .ok identity ∧
    identity.json.pyEq left.json = true
  after : ∀ report ∈ candidate, ∃ identity, experimentIdentity std report = .ok identity ∧
    identity.json.pyEq right.json = true
  /-- The evidence has every case and every call of the reports, each call once. -/
  evidenceBefore : base.Of baseline
  evidenceAfter : next.Of candidate
  attempts : ∀ x ∈ base.calls, ∀ y ∈ next.calls, x.key ≠ y.key
  cases : ∀ id, id ∈ left.cases.keys ↔ id ∈ right.cases.keys
  tasks : ∀ id b c, left.cases.get? id = some b → right.cases.get? id = some c → SameTask b c
  batch : ∀ field ∈ batchFields, ∀ v w, left.json.get? field = some v →
    right.json.get? field = some w → (v.isObj && w.isObj) = false → Same v w
  declares : Declares std left.json right.json
    (variant.elim .empty ExperimentVariant.differences)
  changes : ∀ ks, Difference left.json right.json ks → Concealed left.json right.json ks ∨
    ∃ v more x y, variant = some v ∧ v.name ≠ "" ∧ Recorded v next ∧
      v.differences.get? (pointer (ks ++ more)) = some (x, y)
  verdict : Verdict std baseline candidate base next

/-- The summary of reports, from their evidence. -/
structure Summarizes (std : Standard) (evidence : Evidence) (summary : Summary) : Prop where
  tokens : Experiments.tokens evidence = .ok summary.tokens
  costs : Experiments.costs std evidence = .ok summary.costs

theorem summarize_eq_ok {reports : List Json} {evidence : Evidence} {summary : Summary}
    (hevidence : readReports reports = .ok evidence) (h : summarize std reports = .ok summary) :
    Summarizes std evidence summary := by
  obtain ⟨evidence', hread, h⟩ := bind_eq_ok.mp h
  obtain rfl := Except.ok.inj (hevidence.symm.trans hread)
  obtain ⟨tokens, htokens, h⟩ := bind_eq_ok.mp h
  obtain ⟨_, -, h⟩ := bind_eq_ok.mp h
  obtain ⟨costs, hcosts, h⟩ := bind_eq_ok.mp h
  obtain rfl := Except.ok.inj h
  exact ⟨htokens, hcosts⟩

theorem comparable_complete {b a : CurrencyCosts} (h : comparable b a = true) :
    b.complete = true ∧ a.complete = true := by
  simp only [comparable, Bool.and_eq_true] at h
  exact ⟨h.1.1.1.1, h.1.1.1.2⟩

theorem verdict_eq_ok {result : Comparison} (hbase : readReports baseline = .ok base)
    (hnext : readReports candidate = .ok next)
    (h : verdict std baseline candidate left right = .ok result)
    (himproved : result.improvementDemonstrated = true) :
    Verdict std baseline candidate base next := by
  obtain ⟨before, hbefore, h⟩ := bind_eq_ok.mp h
  obtain ⟨after, hafter, h⟩ := bind_eq_ok.mp h
  obtain ⟨base', hbase', h⟩ := bind_eq_ok.mp h
  obtain ⟨next', hnext', h⟩ := bind_eq_ok.mp h
  obtain rfl := Except.ok.inj (hbase.symm.trans hbase')
  obtain rfl := Except.ok.inj (hnext.symm.trans hnext')
  obtain ⟨decreases, hdecreases, h⟩ := bind_eq_ok.mp h
  obtain rfl := Except.ok.inj h
  simp only [Bool.and_eq_true, Bool.or_eq_true, List.isEmpty_iff, List.all_eq_true] at himproved
  obtain ⟨⟨⟨hreal, hcompleted⟩, hregressed, -⟩, hsaving⟩ := himproved
  have hsummary := summarize_eq_ok hbase hbefore
  have hsummary' := summarize_eq_ok hnext hafter
  refine ⟨fun report hr => ⟨hcompleted report hr, hreal report hr⟩,
    passes_le_of_regressions hregressed, ?_⟩
  rcases hsaving with htokens | hfee
  · obtain ⟨x, y, hx, hy, hlt⟩ := tokenSaving_eq_true htokens
    exact Or.inl ⟨x, y, tokens_eq_ok hsummary.tokens hx, tokens_eq_ok hsummary'.tokens hy, hlt⟩
  · obtain ⟨mark, hmark, rfl⟩ := List.any_eq_true.mp hfee
    obtain ⟨currency, -, hcurrency⟩ := mem_of_mapM hdecreases hmark
    obtain ⟨b, a, x, y, hb, ha, hcomparable, hx, hy, hlt⟩ := decreased_eq_true hcurrency
    have hcosts := costs_eq_ok hsummary.costs hb
    have hcosts' := costs_eq_ok hsummary'.costs ha
    obtain ⟨hcomplete, hcomplete'⟩ := comparable_complete hcomparable
    exact Or.inr ⟨currency, b, a, x, y, hcosts, hcosts', hcomparable,
      currencyCosts_eq_ok hcosts hcomplete hx, currencyCosts_eq_ok hcosts' hcomplete' hy, hlt⟩

/-- A comparison that finishes. -/
structure Compares (std : Standard) (baseline candidate : List Json)
    (variant : Option ExperimentVariant) (left right : Identity) (base next : Evidence)
    (result : Comparison) : Prop where
  repetitions : baseline.length = candidate.length
  together : ∃ all, readReports (baseline ++ candidate) = .ok all
  before : armIdentity std baseline = .ok left
  after : armIdentity std candidate = .ok right
  readBefore : readReports baseline = .ok base
  readAfter : readReports candidate = .ok next
  comparable : Comparable std left.json right.json variant next
  verdict : Experiments.verdict std baseline candidate left right = .ok result

theorem compareExperiments_eq_ok {result : Comparison}
    (h : compareExperiments std baseline candidate variant = .ok result) :
    ∃ left right base next, Compares std baseline candidate variant left right base next result := by
  obtain ⟨_, hlength, h⟩ := bind_eq_ok.mp h
  obtain ⟨all, hall, h⟩ := bind_eq_ok.mp h
  obtain ⟨left, hleft, h⟩ := bind_eq_ok.mp h
  obtain ⟨right, hright, h⟩ := bind_eq_ok.mp h
  obtain ⟨_, -, h⟩ := bind_eq_ok.mp h
  rw [raiseIf_eq_ok, not_or, not_not] at hlength
  have hreads : verdict std baseline candidate left right = .ok result →
      ∃ base next, readReports baseline = .ok base ∧ readReports candidate = .ok next := by
    intro h
    obtain ⟨_, -, h⟩ := bind_eq_ok.mp h
    obtain ⟨_, -, h⟩ := bind_eq_ok.mp h
    obtain ⟨base, hbase, h⟩ := bind_eq_ok.mp h
    obtain ⟨next, hnext, -⟩ := bind_eq_ok.mp h
    exact ⟨base, next, hbase, hnext⟩
  dsimp only at h
  split at h
  · rename_i hempty
    obtain ⟨_, hvariant, h⟩ := bind_eq_ok.mp h
    obtain ⟨base, next, hbase, hnext⟩ := hreads h
    refine ⟨left, right, base, next, hlength.2, ⟨all, hall⟩, hleft, hright, hbase, hnext, ?_, h⟩
    rw [raiseIf_eq_ok, Bool.not_eq_true] at hvariant
    refine comparable_of_empty (List.isEmpty_iff.mp hempty) fun v hv => ?_
    rw [hv, Option.any_some, Bool.not_eq_false'] at hvariant
    exact List.isEmpty_iff.mp hvariant
  · obtain ⟨_, hvariant, h⟩ := bind_eq_ok.mp h
    obtain ⟨base, next, hbase, hnext⟩ := hreads h
    exact ⟨left, right, base, next, hlength.2, ⟨all, hall⟩, hleft, hright, hbase, hnext,
      checkVariant_eq_ok hnext hvariant, h⟩

/-- A comparison that demonstrates an improvement has compared like with like: its arms share no
attempt, have the same tasks, model and generation, differ in what was declared beforehand or
reads like the marker, and the candidate passes every task as often for fewer tokens or a lower
fee, of which every call is a part. -/
theorem improvement_sound {result : Comparison}
    (h : compareExperiments std baseline candidate variant = .ok result)
    (himproved : result.improvementDemonstrated = true)
    (hdigest : ∀ left right, armIdentity std baseline = .ok left →
      armIdentity std candidate = .ok right → NoCollision std left.json right.json) :
    ∃ left right base next, armIdentity std baseline = .ok left ∧
      armIdentity std candidate = .ok right ∧ readReports baseline = .ok base ∧
      readReports candidate = .ok next ∧
      Improvement std baseline candidate variant left right base next := by
  obtain ⟨left, right, base, next, hc⟩ := compareExperiments_eq_ok h
  obtain ⟨all, hall⟩ := hc.together
  have hunfrozen := hc.comparable.unfrozen
  have hd := hdigest left right hc.before hc.after
  have hvalid := armIdentity_valid hc.before
  have hvalid' := armIdentity_valid hc.after
  refine ⟨left, right, base, next, hc.before, hc.after, hc.readBefore, hc.readAfter, hc.repetitions,
    (armIdentity_eq_ok hc.before).2, (armIdentity_eq_ok hc.after).2,
    readReports_eq_ok hc.readBefore, readReports_eq_ok hc.readAfter,
    readReports_disjoint hall hc.readBefore hc.readAfter, fun id => ?_, fun id b c hb hc => ?_,
    fun field hf v w => same_batch hf hd hunfrozen, hc.comparable.declares, fun ks hdiff => ?_,
    verdict_eq_ok hc.readBefore hc.readAfter hc.verdict himproved⟩
  · rw [Dict.mem_keys, Dict.mem_keys]
    constructor
    · intro hid
      obtain ⟨b, hb⟩ := Option.isSome_iff_exists.mp hid
      exact isSome_of_unfrozen hd hunfrozen hb (hvalid id b hb)
    · intro hid
      obtain ⟨c, hc⟩ := Option.isSome_iff_exists.mp hid
      exact isSome_of_unfrozen hd.symm hunfrozen.symm hc (hvalid' id c hc)
  · exact sameTask hd hunfrozen hb hc (hvalid id b hb) (hvalid' id c hc)
  · by_cases hconcealed : Concealed left.json right.json ks
    · exact Or.inl hconcealed
    · obtain ⟨more, a, b, hab, ha⟩ := hdiff.reported hd hconcealed
      obtain ⟨v, rfl, hname, hrecorded⟩ := hc.comparable.recorded ⟨_, a, b, hab, ha⟩
      obtain ⟨x, y, hget, -⟩ := hc.comparable.declares.reported _ a b hab ha
      exact Or.inr ⟨v, more, x, y, rfl, hname, hrecorded, hget⟩

/-! ## A variant that is cheaper -/

theorem NoCollision.refl (std : Standard) (v : Json) : NoCollision std v v := by
  intro ks a b hc _ _
  obtain ⟨rfl, rfl⟩ := hc.eq
  exact .refl _

/-- Two dictionaries that differ below one key. -/
theorem NoCollision.field {xs ys : List (String × Json)} {v w : Json} (key : String)
    (hv : xs.lookup key = some v) (hw : ys.lookup key = some w) (h : NoCollision std v w)
    (hothers : (xs.filter fun p => decide (p.1 ≠ key)) = ys.filter fun p => decide (p.1 ≠ key)) :
    NoCollision std (.obj xs) (.obj ys) := by
  intro ks a b hc hobj hdigest
  cases hc with
  | here => cases hobj
  | @under _ _ _ _ k ks _ _ _ hc =>
    by_cases hk : k = key
    · subst hk
      rw [marked, marked, get?_obj, get?_obj, hv, hw] at hc
      exact h ks a b hc hobj hdigest
    · have hsame : xs.lookup k = ys.lookup k := by
        rw [← (Dict.lookup_filter_ne key k xs).trans (if_neg hk), hothers,
          (Dict.lookup_filter_ne key k ys).trans (if_neg hk)]
      rw [marked, marked, get?_obj, get?_obj, hsame] at hc
      exact NoCollision.refl std _ ks a b hc hobj hdigest

def sampleDigests : List (String × String) :=
  [("provider_experiment", "3c69b2e0e27c29f608be6f639cc11738371d9e049a8e2be042645abd20eadb4c"),
   ("live", "844546be553b9dcbf71ae16326983127739feae905c1551d89e328690e57b0ed"),
   ("9f2c", "18e921d127c4f79e11e3293c37bfdda1125d4311f0e477f3ee1d319c9f10ee09"),
   ("repairs", "ed34834d36b531a3fe51431a5ffdfdc1cab75614b1bdcb44f1a2a0c42ac4f3bd"),
   ("1", "391552c099c101b131feaf24c5795a6a15bc8ec82015424e0d2b4274a369a0bf"),
   ("test", "4d967a30111bf29f0eba01c448b375c1629b2fed01cdfcc3aed91f1b57d5dd5e"),
   ("openai", "396e987d95cb396ce2bdf21afd91f3b0aa16556afe48812e3822f3fd8e8aff21"),
   ("large", "8dd8c429f56aeaccae1c540f78a366e07f80c0a73bb128291b6bca3ba349abc9"),
   ("responses", "5a1ebb3f289ce7267d31e0d3305dc40b63596c17e87ec4ea6582a9e6e8d5cae5"),
   ("e3b0", "e57e440a240a708a7dcebf99d2dc6a006a0708d27f63154db2bde1af1712aa1b"),
   ("77fa", "e449d8ddd4ca31589d621ca8670cf46cae57b7c6fe79ee884f50a4deaf76e79d")]

/-- The digests of what two batches hold that differ in their skills, and of the one price. -/
def sampleStandard : Standard where
  sha256
    | .null => "74234e98afe7498fb5daf1f36ac2d78acc339464f950703b8c019892f982b90b"
    | .str text => (sampleDigests.lookup text).getD ""
    | .arr [] => "4f53cda18c2baa0c0354bb5f9a3ecbe5ed12ab4d8e11ba873c2f11161202b945"
    | .arr [.str _] => "2c8fb8be9ac8a65741c95d909aa23b574b7393f5a5c25f792a33acc230727529"
    | .arr _ => "71d5fc56a67abbec59f844841f30792f538bc5d5c41a9d7bb045cb84ce9e0599"
    | identity =>
      if ["cases", "fix-parser", "skills", "catalog_hash"].foldl getNull identity matches
          .str "e3b0" then
        "09b05ff053b87ed916b81f2b2569d81cf3fac291d2b8bb80d5ec817d84e91032"
      else "76d10dd8c1c3215ebb58d3c999632524ed666b41bf7d9ac4eb429da9f24c8320"
  dumps value := String.ofList (Json.dumps (fun _ => []) value.sortKeys)
  pyStr _ := ""

def sampleTask : Json :=
  .obj [("suite_id", .str "repairs"), ("suite_version", .str "1"), ("suite_sha256", .str "9f2c"),
    ("task_version", .str "1"), ("task_sha256", .str "9f2c"), ("split", .str "test")]

def sampleConfiguration : Json :=
  .obj [("provider", .str "openai"), ("model", .str "large"), ("adapter", .str "responses")]

/-- A live batch of one task, which passes with one request. -/
def batch (catalogHash runId attemptId : String) (input cached : ℤ) (amount : String) : Json :=
  .obj [("schema_version", .int 2), ("status", .str "completed"), ("mode", .str "live"),
    ("measurement_kind", .str "provider_experiment"), ("billing_applicable", .bool true),
    ("attempted", .int 1), ("total", .int 1), ("passed", .int 1),
    ("provenance", .obj [("runtime", .obj [("code_sha256", .str "9f2c")]),
      ("inputs", .obj [("sha256", .str "9f2c")]), ("suite_source_sha256", .str "9f2c")]),
    ("results", .arr [.obj [("id", .str "fix-parser"), ("passed", .bool true),
      ("benchmark", sampleTask), ("configuration", sampleConfiguration),
      ("evidence", .obj [("main_run_id", .str runId),
        ("runs", .arr [.obj [("run_id", .str runId), ("generation", .obj []),
          ("context_fingerprints", .obj [("tool_catalog_hash", .str "9f2c")]),
          ("skill_snapshot", .obj [("catalog_hash", .str catalogHash)])]]),
        ("usage", .obj [("scope", .str "exclusive"), ("attempt_count", .int 1),
          ("calls", .arr [.obj [("run_id", .str runId), ("attempt_id", .str attemptId),
            ("provider", .str "openai"), ("model", .str "large"), ("started_at", .int 1700000100),
            ("usage", .obj [("input_tokens", .int input), ("output_tokens", .int 40),
              ("cache_read_input_tokens", .int cached)]),
            ("usage_source", .str "reported"), ("usage_complete", .bool true)]])]),
        ("costs", .obj [("latest", .arr [.obj [("attempt_id", .str attemptId),
          ("usage_source", .str "reported"),
          ("estimates", .obj [("USD", .obj [("known_amount", .str amount),
            ("complete", .bool true), ("lines", .arr [.obj [("category", .str "input"),
              ("price_per_million", .str "3"), ("price_version", .str "price-1")]])])])]])]),
        ("model_attempts", .arr [.obj [("run_id", .str runId), ("attempt_id", .str attemptId),
          ("provider", .str "openai"), ("model", .str "large"), ("generation", .obj []),
          ("max_output_tokens", .int 1024), ("kind", .str "agent")]])])]])]

/-- Each arm has two repetitions. -/
def baselineBatches : List Json :=
  [batch "e3b0" "r1" "a1" 900 0 "0.0027", batch "e3b0" "r2" "a2" 900 0 "0.0027"]

/-- More goes in, most of it from the cache. -/
def candidateBatches : List Json :=
  [batch "77fa" "r3" "a3" 1200 1000 "0.0009", batch "77fa" "r4" "a4" 1200 1000 "0.0009"]

def sampleVariant : ExperimentVariant where
  name := "shorter skills"
  recordedAt := .int 1700000000
  differences := Dict.ofList
    [("/cases/fix-parser/skills/catalog_hash".toList, .str "e3b0", .str "77fa")]

def sampleIdentity (catalogHash : String) : Identity where
  measurementKind := .str "provider_experiment"
  mode := .str "live"
  codeSha256 := .str "9f2c"
  python := .null
  suiteSourceSha256 := .str "9f2c"
  inputsSha256 := .str "9f2c"
  split := .null
  caseTimeout := .null
  cases := Dict.ofList [("fix-parser", {
    task := sampleTask
    configuration := sampleConfiguration
    generation := .obj []
    context := .obj [("tool_catalog_hash", .str "9f2c")]
    catalogHash := .str catalogHash
    selected := .arr []
    executionConfig := .obj []
    requests := Dict.ofList [("agent",
      [.obj [("generation", .obj []), ("max_output_tokens", .int 1024)]])] })]

theorem armIdentity_baseline :
    armIdentity sampleStandard baselineBatches = .ok (sampleIdentity "e3b0") := by rfl

theorem armIdentity_candidate :
    armIdentity sampleStandard candidateBatches = .ok (sampleIdentity "77fa") := by rfl

theorem noCollision_hash : NoCollision sampleStandard (.str "e3b0") (.str "77fa") := by
  intro ks a b hc _ hdigest
  cases hc with
  | here => exact absurd hdigest (by decide +kernel)
  | under hl => cases hl

theorem noCollision_skills :
    NoCollision sampleStandard (sampleIdentity "e3b0").json (sampleIdentity "77fa").json := by
  exact .field "cases" rfl rfl (.field "fix-parser" rfl rfl (.field "skills" rfl rfl
    (.field "catalog_hash" rfl rfl noCollision_hash rfl) rfl) rfl) rfl

/-- The rest of the comparison, from the two identities on. -/
theorem improves_batches : (compareExperiments sampleStandard baselineBatches candidateBatches
    (some sampleVariant)).toOption.any (fun result => result.improvementDemonstrated &&
      (result.feeDecreased && !result.reportedTokensDecreased)) = true := by
  unfold compareExperiments
  rw [armIdentity_baseline, armIdentity_candidate]
  decide +kernel

/-- The candidate needs more tokens and costs less. -/
theorem improvement_sound_batch : ∃ result left right base next,
    compareExperiments sampleStandard baselineBatches candidateBatches (some sampleVariant) =
      .ok result ∧
    result.feeDecreased = true ∧ result.reportedTokensDecreased = false ∧
    Improvement sampleStandard baselineBatches candidateBatches (some sampleVariant) left right base
      next := by
  obtain ⟨result, hresult, hmarks⟩ := (Option.any_eq_true _ _).mp improves_batches
  have h := eq_ok_of_toOption hresult
  simp only [Bool.and_eq_true, Bool.not_eq_true'] at hmarks
  obtain ⟨himproved, hfee, htokens⟩ := hmarks
  obtain ⟨left, right, base, next, -, -, -, -, himprovement⟩ :=
    improvement_sound h himproved fun left right hleft hright => by
      obtain rfl := Except.ok.inj (hleft.symm.trans armIdentity_baseline)
      obtain rfl := Except.ok.inj (hright.symm.trans armIdentity_candidate)
      exact noCollision_skills
  exact ⟨result, left, right, base, next, h, hfee, htokens, himprovement⟩

end Experiments

end Eventide
