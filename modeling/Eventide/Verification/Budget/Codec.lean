import Eventide.Model.Budget

/-! # The payloads that the ledger writes, it reads back -/

namespace Eventide

open Outcome

theorem option?_ofOption {α : Type} (encode : α → Json) {decode : Json → Option α}
    (hd : ∀ a, decode (encode a) = some a) (hn : ∀ a, encode a ≠ .null) (o : Option α) :
    Json.option? decode (Json.ofOption encode o) = some o := by
  cases o with
  | none => rfl
  | some a =>
    have hv : Json.option? decode (encode a) = (decode (encode a)).map some := by
      unfold Json.option?
      split
      · exact absurd ‹_› (hn a)
      · rfl
    rw [Json.ofOption, hv, hd, Option.map_some]

theorem count?_ofNat (n : ℕ) : (Json.ofNat n).count? = some n := by
  simp [Json.ofNat, Json.count?]

theorem ScopeRecord.ofJson?_toJson (scope : ScopeRecord) :
    ScopeRecord.ofJson? scope.toJson = some scope := by
  simp [ScopeRecord.ofJson?, ScopeRecord.toJson, Json.str?, List.lookup_cons]

theorem ContextRecord.ofJson?_toJson (context : ContextRecord) :
    ContextRecord.ofJson? context.toJson = some context := by
  have ho (o : Option String) : Json.option? Json.str? (Json.ofOption .str o) = some o :=
    option?_ofOption Json.str (fun _ => rfl) (fun _ => Json.noConfusion) o
  simp [ContextRecord.ofJson?, ContextRecord.toJson, Json.str?, List.lookup_cons, ho]

theorem counters?_countersJson (usage : Dict String ℕ) :
    counters? (countersJson usage) = some usage := by
  have hm : ∀ xs : List (String × ℕ), (xs.map fun p => (p.1, Json.ofNat p.2)).mapM
      (fun (p : String × Json) => p.2.count?.map fun n => (p.1, n)) = some xs := by
    intro xs
    induction xs with
    | nil => rfl
    | cons x xs ih => simp [count?_ofNat, ih]
  simp only [counters?, countersJson, Json.fields_obj, hm, Option.map_some, Dict.ofLookup_entries]

theorem scopes_roundtrip (scopes : List ScopeRecord) :
    scopes.mapM (ScopeRecord.ofJson? ∘ ScopeRecord.toJson) = some scopes := by
  induction scopes with
  | nil => rfl
  | cons scope scopes ih => simp [ScopeRecord.ofJson?_toJson, ih]

theorem option?_count (o : Option ℕ) :
    Json.option? Json.count? (Json.ofOption Json.ofNat o) = some o :=
  option?_ofOption Json.ofNat count?_ofNat (by simp [Json.ofNat]) o

theorem Configured.ofJson_toJson (p : Configured) : Configured.ofJson p.toJson = .ok p := by
  simp [Configured.ofJson, Configured.toJson, Json.readField, Json.require, List.lookup_cons,
    Json.str?, ScopeRecord.ofJson?_toJson, option?_count]

theorem Reservation.ofJson_toJson (r : Reservation) : Reservation.ofJson r.toJson = .ok r := by
  obtain ⟨_, _, _, _, _, _, _, _, _, _, basis⟩ := r
  cases basis <;>
    simp [Reservation.ofJson, Reservation.toJson, Json.readField, Json.require, List.lookup_cons,
      Json.str?, Json.arr?, ContextRecord.ofJson?_toJson, count?_ofNat, scopes_roundtrip]

theorem Settlement.ofJson_toJson (p : Settlement) : Settlement.ofJson p.toJson = .ok p := by
  simp [Settlement.ofJson, Settlement.toJson, Json.readField, Json.require, List.lookup_cons,
    Json.str?, counters?_countersJson, option?_count]

theorem Resolution.ofJson_toJson (p : Resolution) : Resolution.ofJson p.toJson = .ok p := by
  simp [Resolution.ofJson, Resolution.toJson, Json.readField, Json.require, List.lookup_cons,
    Json.str?, count?_ofNat]

end Eventide
