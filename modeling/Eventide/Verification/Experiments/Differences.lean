import Eventide.Model.Experiments
import Eventide.Verification.Json.Sorted
import Eventide.Verification.Prices.Lines

/-! # What a comparison of identities sees

`_differences` reads a key that one side lacks as a marker, which is a JSON value like any other. -/

namespace Eventide

open Json Pointer

namespace Experiments

variable {std : Standard} {l r a b : Json} {k : String} {ks : List String}

/-! ## Places -/

/-- The two values at a path, read as `_differences` reads them. -/
inductive Compared : Json → Json → List String → Json → Json → Prop
  | here {l r : Json} : Compared l r [] l r
  | under {l r a b : Json} {k : String} {ks : List String} (hl : l.isObj = true)
      (hr : r.isObj = true) (hk : (l.get? k).isSome = true ∨ (r.get? k).isSome = true)
      (h : Compared (marked l k) (marked r k) ks a b) : Compared l r (k :: ks) a b

/-- Two values that are reported, dictionaries being gone into. -/
structure Apart (std : Standard) (a b : Json) : Prop where
  obj : (a.isObj && b.isObj) = false
  digest : std.digest a ≠ std.digest b

theorem Compared.symm (h : Compared l r ks a b) : Compared r l ks b a := by
  induction h with
  | here => exact .here
  | under hl hr hk _ ih => exact .under hr hl hk.symm ih

theorem Apart.symm (h : Apart std a b) : Apart std b a :=
  ⟨by rw [Bool.and_comm]; exact h.obj, h.digest.symm⟩

/-- What is compared at a path is what both sides hold there. -/
theorem Compared.eq (h : Compared l r ks a b) : a = ks.foldl marked l ∧ b = ks.foldl marked r := by
  induction h with
  | here => exact ⟨rfl, rfl⟩
  | under _ _ _ _ ih => exact ih

theorem mem_bothKeys :
    k ∈ bothKeys l r ↔ (l.get? k).isSome = true ∨ (r.get? k).isSome = true := by
  have hfields : ∀ v : Json, (v.get? k).isSome = true ↔ k ∈ v.fields.map Prod.fst := by
    intro v
    cases v with
    | obj fields =>
      rw [get?_obj, fields_obj, List.lookup_isSome_iff, List.mem_map]
      constructor
      · rintro ⟨p, hp, he⟩
        exact ⟨p, hp, (eq_of_beq he).symm⟩
      · rintro ⟨p, hp, rfl⟩
        exact ⟨p, hp, beq_self_eq_true _⟩
    | _ => simp [get?, Json.fields]
  rw [bothKeys, mem_sortedSet, List.mem_append, hfields, hfields]

/-- The entry of two values that are not both dictionaries. -/
theorem get?_leaf {rounds : ℕ} {path p : List Char} (hobj : ¬ (l.isObj && r.isObj) = true) :
    (if std.digest l = std.digest r then Dict.empty else Dict.empty.set path (l, r)).get? p =
      some (a, b) ↔
    ∃ ks, p = path ++ pointer ks ∧ ks.length ≤ rounds ∧ Compared l r ks a b ∧ Apart std a b := by
  constructor
  · intro h
    split at h
    · cases h
    · rename_i hne
      rw [Dict.get?_set] at h
      split at h
      · obtain ⟨rfl, rfl⟩ := Prod.mk.inj (Option.some.inj h)
        exact ⟨[], by simp [*], Nat.zero_le _, .here, by simpa using hobj, hne⟩
      · cases h
  · rintro ⟨ks, rfl, -, hc, ha⟩
    cases hc with
    | here => simp [ha.digest]
    | under hl hr _ _ => simp [hl, hr] at hobj

/-- The report of `_differences`, place by place. -/
theorem get?_differencesTo {rounds : ℕ} {path p : List Char} :
    (differencesTo std rounds l r path).get? p = some (a, b) ↔
      ∃ ks, p = path ++ pointer ks ∧ ks.length ≤ rounds ∧ Compared l r ks a b ∧ Apart std a b := by
  induction rounds generalizing l r path a b with
  | zero =>
    unfold differencesTo
    split
    · rename_i hobj
      simp only [Dict.get?_empty, reduceCtorEq, false_iff, not_exists, not_and, nonpos_iff_eq_zero,
        List.length_eq_zero_iff]
      rintro ks - rfl hc ha
      cases hc
      rw [ha.obj] at hobj
      cases hobj
    · exact get?_leaf ‹_›
  | succ rounds ih =>
    unfold differencesTo
    split
    · rename_i hobj
      rw [Dict.get?_foldl_update]
      · constructor
        · rintro ⟨k, hk, hv⟩
          obtain ⟨ks, rfl, hlen, hc, ha⟩ := ih.mp hv
          rw [Bool.and_eq_true] at hobj
          exact ⟨k :: ks, child_append path k ks, Nat.succ_le_succ hlen,
            .under hobj.1 hobj.2 (mem_bothKeys.mp hk) hc, ha⟩
        · rintro ⟨ks, rfl, hlen, hc, ha⟩
          cases hc with
          | here =>
            rw [ha.obj] at hobj
            cases hobj
          | @under _ _ _ _ k ks _ _ hk hc =>
            refine ⟨k, mem_bothKeys.mpr hk, ih.mpr ⟨ks, ?_, Nat.le_of_succ_le_succ hlen, hc, ha⟩⟩
            exact (child_append path k ks).symm
      · intro i _ j _ hi hj
        obtain ⟨⟨a, b⟩, hi⟩ := Option.isSome_iff_exists.mp hi
        obtain ⟨⟨c, d⟩, hj⟩ := Option.isSome_iff_exists.mp hj
        obtain ⟨is, hip, -⟩ := ih.mp hi
        obtain ⟨js, hjp, -⟩ := ih.mp hj
        rw [child_append] at hip hjp
        have hsame := pointer_injective (List.append_cancel_left (hip.symm.trans hjp))
        exact (List.cons.inj hsame).1
    · exact get?_leaf ‹_›

/-! ## Depth -/

theorem depth_eq_zero : depth a = 0 ↔ a.isObj = false := by
  cases a <;> simp [depth, isObj]

theorem depth_lookup {fields : List (String × Json)} {v : Json} (h : fields.lookup k = some v) :
    depth v ≤ depth.fieldsDepth fields := by
  induction fields with
  | nil => cases h
  | cons p fields ih =>
    obtain ⟨j, w⟩ := p
    rw [Dict.lookup_cons_eq] at h
    unfold depth.fieldsDepth
    split at h
    · obtain rfl := Option.some.inj h
      exact le_max_left _ _
    · exact (ih h).trans (le_max_right _ _)

theorem depth_get? {v : Json} (h : l.get? k = some v) : depth v < depth l := by
  cases l with
  | obj fields =>
    have hle := depth_lookup h
    rw [depth]
    omega
  | _ => cases h

/-- A marker is reported at most one level down. -/
theorem Compared.length_le (h : Compared l r ks a b) : ks.length ≤ max (depth l) (depth r) := by
  induction h with
  | here => exact Nat.zero_le _
  | @under l r a b k ks hl hr hk h ih =>
    have hnil : ∀ v w : Json, Compared v w ks a b → v.isObj = false ∨ w.isObj = false →
        ks.length = 0 := by
      intro v w hvw hobj
      cases hvw with
      | here => rfl
      | under hv hw => simp_all
    have hlpos : depth l ≠ 0 := fun hc => by
      rw [depth_eq_zero, hl] at hc
      cases hc
    rw [List.length_cons]
    cases hlk : l.get? k with
    | some v =>
      have hlv := depth_get? hlk
      cases hrk : r.get? k with
      | some w =>
        have hrw := depth_get? hrk
        simp only [marked, hlk, hrk, Option.getD_some] at ih
        omega
      | none =>
        simp only [marked, hlk, hrk, Option.getD_some, Option.getD_none] at h ih
        have hone : depth missing = 1 := rfl
        by_cases hv : v.isObj = false
        · have hzero := hnil _ _ h (Or.inl hv)
          omega
        · have hpos : depth v ≠ 0 := fun hc => hv (depth_eq_zero.mp hc)
          omega
    | none =>
      obtain ⟨w, hrk⟩ := Option.isSome_iff_exists.mp (hk.resolve_left (by simp [hlk]))
      have hrw := depth_get? hrk
      simp only [marked, hlk, hrk, Option.getD_some, Option.getD_none] at h ih
      have hone : depth missing = 1 := rfl
      by_cases hw : w.isObj = false
      · have hzero := hnil _ _ h (Or.inr hw)
        omega
      · have hpos : depth w ≠ 0 := fun hc => hw (depth_eq_zero.mp hc)
        omega

/-- `_differences` has exactly one entry for each place at which the two sides, with the marker
for an absent key, hold values that are not both dictionaries and whose digests differ. -/
theorem differences_spec (p : List Char) (a b : Json) :
    (differences std l r).get? p = some (a, b) ↔
      ∃ ks, p = pointer ks ∧ Compared l r ks a b ∧ Apart std a b := by
  rw [differences, get?_differencesTo]
  simp only [List.nil_append]
  constructor
  · rintro ⟨ks, hp, -, hc, ha⟩
    exact ⟨ks, hp, hc, ha⟩
  · rintro ⟨ks, hp, hc, ha⟩
    exact ⟨ks, hp, hc.length_le, hc, ha⟩

/-! ## What the marker hides -/

/-- A value that reads like the marker, all the way down. -/
inductive Hidden : Json → Prop
  | intro {v : Json} (hmark : v.get? "missing" = some (.bool true))
      (hrest : ∀ k w, k ≠ "missing" → v.get? k = some w → Hidden w) : Hidden v

/-- Only one of two dictionaries has the key, with this value. -/
def OnlyOn (l r : Json) (k : String) (v : Json) : Prop :=
  l.isObj = true ∧ r.isObj = true ∧
    (l.get? k = some v ∧ r.get? k = none ∨ r.get? k = some v ∧ l.get? k = none)

/-- A place at which two documents differ; what is below it on one side alone is no place of
its own. -/
inductive Difference : Json → Json → List String → Prop
  | value {l r : Json} (hobj : (l.isObj && r.isObj) = false) (hne : ¬ Same l r) :
      Difference l r []
  | onlyOn {l r v : Json} {k : String} (h : OnlyOn l r k v) : Difference l r [k]
  | under {l r v w : Json} {k : String} {ks : List String} (hv : l.get? k = some v)
      (hw : r.get? k = some w) (h : Difference v w ks) : Difference l r (k :: ks)

/-- A place at which one side alone has a key, whose value reads like the marker. -/
inductive Concealed : Json → Json → List String → Prop
  | onlyOn {l r v : Json} {k : String} (h : OnlyOn l r k v) (hv : Hidden v) : Concealed l r [k]
  | under {l r v w : Json} {k : String} {ks : List String} (hv : l.get? k = some v)
      (hw : r.get? k = some w) (h : Concealed v w ks) : Concealed l r (k :: ks)

/-- No two different values that are compared have one digest. -/
def NoCollision (std : Standard) (l r : Json) : Prop :=
  ∀ ks a b, Compared l r ks a b → (a.isObj && b.isObj) = false → std.digest a = std.digest b →
    Same a b

theorem isObj_of_get? {v w : Json} (h : v.get? k = some w) : v.isObj = true := by
  cases v with
  | obj fields => rfl
  | _ => cases h

theorem marked_of_get? {v w : Json} (h : v.get? k = some w) : marked v k = w := by
  rw [marked, h, Option.getD_some]

theorem marked_of_none {v : Json} (h : v.get? k = none) : marked v k = missing := by
  rw [marked, h, Option.getD_none]

theorem digest_eq_of_same (h : Same a b) : std.digest a = std.digest b := congrArg std.sha256 h

theorem NoCollision.under (h : NoCollision std l r) (hl : l.isObj = true) (hr : r.isObj = true)
    (hk : (l.get? k).isSome = true ∨ (r.get? k).isSome = true) :
    NoCollision std (marked l k) (marked r k) :=
  fun _ _ _ hc => h _ _ _ (.under hl hr hk hc)

theorem NoCollision.symm (h : NoCollision std l r) : NoCollision std r l :=
  fun ks a b hc hobj hd => (h ks b a hc.symm (by rw [Bool.and_comm]; exact hobj) hd.symm).symm

theorem get?_missing : missing.get? k = if k = "missing" then some (.bool true) else none := by
  rw [missing, get?_obj, Dict.lookup_cons_eq]
  rfl

/-- A hidden value is compared with the marker without a report. -/
theorem Hidden.not_apart {v : Json} (h : Hidden v) (hc : Compared v missing ks a b) :
    ¬ Apart std a b := by
  induction h generalizing ks with
  | @intro v hmark hrest ih =>
    intro ha
    cases hc with
    | here =>
      have hobj := ha.obj
      rw [isObj_of_get? hmark] at hobj
      cases hobj
    | @under _ _ _ _ k ks hv _ hk hc =>
      by_cases hkey : k = "missing"
      · subst hkey
        rw [marked_of_get? hmark, marked_of_get? (w := .bool true) (by rw [get?_missing, if_pos rfl])]
          at hc
        cases hc with
        | here => exact ha.digest rfl
        | under hb => cases hb
      · have hnone : missing.get? k = none := by rw [get?_missing, if_neg hkey]
        rw [hnone] at hk
        obtain ⟨w, hw⟩ := Option.isSome_iff_exists.mp (hk.resolve_right (by simp))
        rw [marked_of_get? hw, marked_of_none hnone] at hc
        exact ih k w hkey hw hc ha

/-- A value that is compared with the marker without a report is hidden. -/
theorem hidden_of_silent {v : Json} (hd : NoCollision std v missing)
    (hsilent : ∀ ks a b, Compared v missing ks a b → ¬ Apart std a b) : Hidden v := by
  induction hn : depth v using Nat.strong_induction_on generalizing v with
  | _ n ih =>
    have hobj : v.isObj = true := by
      by_contra hv
      have hfalse : (v.isObj && missing.isObj) = false := by simp [hv]
      have hdigest : std.digest v = std.digest missing := by
        by_contra hne
        exact hsilent [] v missing .here ⟨hfalse, hne⟩
      exact hv ((hd [] v missing .here hfalse hdigest).isObj.trans rfl)
    have hmissing : missing.get? "missing" = some (.bool true) := by rw [get?_missing, if_pos rfl]
    have hfalse : ((marked v "missing").isObj && (Json.bool true).isObj) = false :=
      Bool.and_false _
    have hc : Compared v missing ["missing"] (marked v "missing") (.bool true) := by
      refine .under hobj rfl (Or.inr (by simp [hmissing])) ?_
      rw [marked_of_get? hmissing]
      exact .here
    have hdigest : std.digest (marked v "missing") = std.digest (.bool true) := by
      by_contra hne
      exact hsilent _ _ _ hc ⟨hfalse, hne⟩
    have hmark : marked v "missing" = .bool true := sortKeys_eq_bool.mp (hd _ _ _ hc hfalse hdigest)
    refine .intro ?_ fun k w hkey hw => ?_
    · cases hv : v.get? "missing" with
      | some w =>
        rw [marked_of_get? hv] at hmark
        rw [hmark]
      | none =>
        rw [marked_of_none hv] at hmark
        cases hmark
    · have hnone : missing.get? k = none := by rw [get?_missing, if_neg hkey]
      have hk : (v.get? k).isSome = true ∨ (missing.get? k).isSome = true := Or.inl (by simp [hw])
      have hunder := hd.under hobj rfl hk
      rw [marked_of_get? hw, marked_of_none hnone] at hunder
      refine ih (depth w) (hn ▸ depth_get? hw) hunder (fun ks a b hc => ?_) rfl
      refine hsilent (k :: ks) a b (.under hobj rfl hk ?_)
      rw [marked_of_get? hw, marked_of_none hnone]
      exact hc

/-- Nothing is reported at or below a concealed place. -/
theorem Concealed.not_apart {more : List String} (h : Concealed l r ks)
    (hc : Compared l r (ks ++ more) a b) : ¬ Apart std a b := by
  induction h with
  | onlyOn h hv =>
    obtain ⟨-, -, ⟨hl, hr⟩ | ⟨hr, hl⟩⟩ := h
    · cases hc with
      | under _ _ _ hc =>
        rw [marked_of_get? hl, marked_of_none hr] at hc
        exact hv.not_apart hc
    · cases hc with
      | under _ _ _ hc =>
        rw [marked_of_get? hr, marked_of_none hl] at hc
        exact fun ha => hv.not_apart hc.symm ha.symm
  | under hl hr _ ih =>
    cases hc with
    | under _ _ _ hc =>
      rw [marked_of_get? hl, marked_of_get? hr] at hc
      exact ih hc

/-- A difference that is not concealed is reported at its place or below it. -/
theorem Difference.reported (h : Difference l r ks) (hd : NoCollision std l r)
    (hshown : ¬ Concealed l r ks) :
    ∃ more a b, Compared l r (ks ++ more) a b ∧ Apart std a b := by
  induction h with
  | value hobj hne =>
    exact ⟨[], _, _, .here, hobj, fun hc => hne (hd _ _ _ .here hobj hc)⟩
  | @onlyOn l r v k h =>
    obtain ⟨hl, hr, hv⟩ := h
    have hhidden : ¬ Hidden v := fun hh => hshown (.onlyOn ⟨hl, hr, hv⟩ hh)
    by_contra hnone
    push Not at hnone
    refine hhidden ?_
    rcases hv with ⟨hv, hn⟩ | ⟨hv, hn⟩
    · have hk : (l.get? k).isSome = true ∨ (r.get? k).isSome = true := Or.inl (by simp [hv])
      have hunder := hd.under hl hr hk
      rw [marked_of_get? hv, marked_of_none hn] at hunder
      refine hidden_of_silent hunder fun ks a b hc => hnone ks a b (.under hl hr hk ?_)
      rw [marked_of_get? hv, marked_of_none hn]
      exact hc
    · have hk : (l.get? k).isSome = true ∨ (r.get? k).isSome = true := Or.inr (by simp [hv])
      have hunder := hd.under hl hr hk
      rw [marked_of_get? hv, marked_of_none hn] at hunder
      refine hidden_of_silent hunder.symm fun ks a b hc ha => ?_
      refine hnone ks b a (.under hl hr hk ?_) ha.symm
      rw [marked_of_get? hv, marked_of_none hn]
      exact hc.symm
  | @under l r v w k ks hv hw _ ih =>
    have hk : (l.get? k).isSome = true ∨ (r.get? k).isSome = true := Or.inl (by simp [hv])
    have hunder := hd.under (isObj_of_get? hv) (isObj_of_get? hw) hk
    rw [marked_of_get? hv, marked_of_get? hw] at hunder
    obtain ⟨more, a, b, hc, ha⟩ := ih hunder fun hh => hshown (.under hv hw hh)
    refine ⟨more, a, b, .under (isObj_of_get? hv) (isObj_of_get? hw) hk ?_, ha⟩
    rw [marked_of_get? hv, marked_of_get? hw]
    exact hc

/-- Whatever is reported lies at a difference or below it. -/
theorem Compared.exists_difference (h : Compared l r ks a b) (ha : Apart std a b) :
    ∃ place more, ks = place ++ more ∧ Difference l r place := by
  induction h with
  | here => exact ⟨[], [], rfl, .value ha.obj fun hs => ha.digest (digest_eq_of_same hs)⟩
  | @under l r a b k ks hl hr hk _ ih =>
    cases hlk : l.get? k with
    | some v =>
      cases hrk : r.get? k with
      | some w =>
        rw [marked_of_get? hlk, marked_of_get? hrk] at ih
        obtain ⟨place, more, rfl, hp⟩ := ih ha
        exact ⟨k :: place, more, rfl, .under hlk hrk hp⟩
      | none => exact ⟨[k], ks, rfl, .onlyOn ⟨hl, hr, Or.inl ⟨hlk, hrk⟩⟩⟩
    | none =>
      obtain ⟨w, hrk⟩ := Option.isSome_iff_exists.mp (hk.resolve_left (by simp [hlk]))
      exact ⟨[k], ks, rfl, .onlyOn ⟨hl, hr, Or.inr ⟨hrk, hlk⟩⟩⟩

/-! ## Equality -/

/-- Documents differ somewhere unless they are the same. -/
theorem same_iff : Same l r ↔ ∀ ks, ¬ Difference l r ks := by
  constructor
  · intro hs ks h
    induction h with
    | value _ hne => exact hne hs
    | @onlyOn l r v k h =>
      obtain ⟨hl, hr, hv⟩ := h
      obtain ⟨xs, rfl⟩ : ∃ xs, l = .obj xs := by cases l <;> simp_all [isObj]
      obtain ⟨ys, rfl⟩ : ∃ ys, r = .obj ys := by cases r <;> simp_all [isObj]
      have hk := same_obj.mp hs k
      rcases hv with ⟨hv, hn⟩ | ⟨hv, hn⟩
      · rw [get?_obj] at hv hn
        simp [hv, hn] at hk
      · rw [get?_obj] at hv hn
        simp [hv, hn] at hk
    | @under l r v w k ks hv hw _ ih =>
      obtain ⟨xs, rfl⟩ : ∃ xs, l = .obj xs := by cases l <;> simp_all [get?]
      obtain ⟨ys, rfl⟩ : ∃ ys, r = .obj ys := by cases r <;> simp_all [get?]
      have hk := same_obj.mp hs k
      rw [get?_obj] at hv hw
      rw [hv, hw, Option.map_some, Option.map_some] at hk
      exact ih (Option.some.inj hk)
  · intro h
    induction hn : depth l using Nat.strong_induction_on generalizing l r with
    | _ n ih =>
      cases hobj : l.isObj && r.isObj with
      | false =>
        by_contra hne
        exact h [] (.value hobj hne)
      | true =>
        rw [Bool.and_eq_true] at hobj
        obtain ⟨xs, rfl⟩ : ∃ xs, l = .obj xs := by cases l <;> simp_all [isObj]
        obtain ⟨ys, rfl⟩ : ∃ ys, r = .obj ys := by cases r <;> simp_all [isObj]
        refine same_obj.mpr fun k => ?_
        cases hv : xs.lookup k with
        | none =>
          cases hw : ys.lookup k with
          | none => rfl
          | some w => exact absurd (.onlyOn ⟨rfl, rfl, Or.inr ⟨hw, hv⟩⟩) (h [k])
        | some v =>
          cases hw : ys.lookup k with
          | none => exact absurd (.onlyOn ⟨rfl, rfl, Or.inl ⟨hv, hw⟩⟩) (h [k])
          | some w =>
            have hlt : depth v < n := hn ▸ depth_get? hv
            exact congrArg some (ih (depth v) hlt (fun ks hd => h (k :: ks) (.under hv hw hd)) rfl)

/-- `_differences` is empty exactly when the documents differ at concealed places only. -/
theorem differences_empty_iff (hd : NoCollision std l r) :
    (differences std l r).entries = [] ↔ ∀ ks, Difference l r ks → Concealed l r ks := by
  have hentries : (differences std l r).entries = [] ↔
      ∀ ks a b, Compared l r ks a b → ¬ Apart std a b := by
    rw [List.eq_nil_iff_forall_not_mem]
    constructor
    · intro h ks a b hc ha
      exact h (pointer ks, a, b) (Dict.mem_entries.mpr ((differences_spec _ _ _).mpr
        ⟨ks, rfl, hc, ha⟩))
    · rintro h ⟨p, a, b⟩ hm
      obtain ⟨ks, -, hc, ha⟩ := (differences_spec _ _ _).mp (Dict.mem_entries.mp hm)
      exact h ks a b hc ha
  rw [hentries]
  constructor
  · intro h ks hdiff
    by_contra hshown
    obtain ⟨more, a, b, hc, ha⟩ := hdiff.reported hd hshown
    exact h _ a b hc ha
  · intro h ks a b hc ha
    obtain ⟨place, more, rfl, hdiff⟩ := hc.exists_difference ha
    exact (h place hdiff).not_apart hc ha

theorem mem_differences {p : List Char} : (p, a, b) ∈ (differences std l r).entries ↔
    ∃ ks, p = pointer ks ∧ Compared l r ks a b ∧ Apart std a b := by
  rw [Dict.mem_entries, differences_spec]

/-- `_differences` reports every difference but the concealed ones, at its place or below it, and
nothing else. -/
theorem differences_complete (hd : NoCollision std l r) :
    ((differences std l r).entries = [] ↔ ∀ ks, Difference l r ks → Concealed l r ks) ∧
    (∀ ks, Difference l r ks → ¬ Concealed l r ks →
      ∃ more a b, (pointer (ks ++ more), a, b) ∈ (differences std l r).entries) ∧
    (∀ p a b, (p, a, b) ∈ (differences std l r).entries → ∃ ks more, p = pointer (ks ++ more) ∧
      Difference l r ks ∧ ¬ Concealed l r ks) := by
  refine ⟨differences_empty_iff hd, fun ks hdiff hshown => ?_, fun p a b hmem => ?_⟩
  · obtain ⟨more, a, b, hc, ha⟩ := hdiff.reported hd hshown
    exact ⟨more, a, b, mem_differences.mpr ⟨_, rfl, hc, ha⟩⟩
  · obtain ⟨ks, rfl, hc, ha⟩ := mem_differences.mp hmem
    obtain ⟨place, more, rfl, hdiff⟩ := hc.exists_difference ha
    exact ⟨place, more, rfl, hdiff, fun hconcealed => hconcealed.not_apart hc ha⟩

/-- The digests of the values that are reached below. -/
def markerStandard : Standard where
  sha256
    | .bool true => "b5bea41b6c623f7c09f1bf24dcae58ebab3c0cdd90ad966bc43a45b44867e12b"
    | _ => "fcbcf165908dd18a9e49f7ff27810176db8e9f63b4352213741664245224f8aa"
  dumps _ := "true"
  pyStr _ := "True"

def markedLeft : Json := .obj [("a", missing), ("b", .bool true)]

def markedRight : Json := .obj [("b", .bool false)]

theorem noCollision_marked : NoCollision markerStandard markedLeft markedRight := by
  intro ks a b hc hobj hdigest
  cases hc with
  | here => cases hobj
  | @under _ _ _ _ k ks _ _ hk hc =>
    have hkey : k = "a" ∨ k = "b" := by
      by_contra hne
      obtain ⟨hna, hnb⟩ := not_or.mp hne
      simp [markedLeft, markedRight, Dict.lookup_cons_eq, hna, hnb] at hk
    rcases hkey with rfl | rfl
    · obtain ⟨rfl, rfl⟩ := hc.eq
      exact .refl _
    · cases hc with
      | here => simp [markedLeft, markedRight, marked, Dict.lookup_cons_eq, Standard.digest,
          markerStandard, sortKeys] at hdigest
      | under hb => cases hb

/-- A key with the marker as its value is missed, and the difference beside it is not. -/
theorem differences_complete_marked :
    (∃ more a b, (pointer (["b"] ++ more), a, b) ∈
      (differences markerStandard markedLeft markedRight).entries) ∧
    Difference markedLeft markedRight ["a"] ∧ Concealed markedLeft markedRight ["a"] := by
  have honly : OnlyOn markedLeft markedRight "a" missing := ⟨rfl, rfl, Or.inl ⟨rfl, rfl⟩⟩
  have hhidden : Hidden missing := by
    refine .intro rfl fun k w hk hw => ?_
    rw [get?_missing, if_neg hk] at hw
    cases hw
  refine ⟨(differences_complete noCollision_marked).2.1 ["b"] ?_ ?_, .onlyOn honly,
    .onlyOn honly hhidden⟩
  · refine .under (v := .bool true) (w := .bool false) rfl rfl (.value rfl fun hs => ?_)
    cases hs
  · intro hconcealed
    cases hconcealed with
    | onlyOn h hv =>
      obtain ⟨-, -, ⟨-, hnone⟩ | ⟨-, hnone⟩⟩ := h
      · cases hnone
      · cases hnone
    | under _ _ h => cases h

end Experiments

end Eventide
