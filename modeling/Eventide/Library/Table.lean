import Eventide.Library.Outcome

/-! # Tables with a primary key

Rows in the order of their insertion, no key twice: a row whose key is there is refused. -/

universe u

/-- Rows that each have their own key. -/
@[ext] structure Table {κ ρ : Type u} (key : ρ → κ) where
  rows : List ρ
  nodup : (rows.map key).Nodup

namespace Table

variable {κ ρ : Type u} {key : ρ → κ}

def empty : Table key := ⟨[], List.nodup_nil⟩

instance : Inhabited (Table key) := ⟨empty⟩

def keys (t : Table key) : List κ := t.rows.map key

theorem key_injOn {t : Table key} {r r' : ρ} (hr : r ∈ t.rows) (hr' : r' ∈ t.rows)
    (h : key r = key r') : r = r' := List.inj_on_of_nodup_map t.nodup hr hr' h

/-- `DELETE ... WHERE`. -/
def delete (t : Table key) (p : ρ → Bool) : Table key :=
  ⟨t.rows.filter fun r => !p r, t.nodup.sublist (List.filter_sublist.map key)⟩

@[simp] theorem rows_delete (t : Table key) (p : ρ → Bool) :
    (t.delete p).rows = t.rows.filter fun r => !p r := rfl

/-- `UPDATE ...` of other columns than the key. -/
def modify (t : Table key) (f : ρ → ρ) (h : ∀ r, key (f r) = key r) : Table key :=
  ⟨t.rows.map f, by
    have heq : key ∘ f = key := funext h
    rw [List.map_map, heq]
    exact t.nodup⟩

@[simp] theorem rows_modify (t : Table key) (f : ρ → ρ) (h : ∀ r, key (f r) = key r) :
    (t.modify f h).rows = t.rows.map f := rfl

variable [DecidableEq κ] {ε : Type u}

/-- `INSERT`, which raises where the key is taken. -/
def insert (t : Table key) (error : ε) (r : ρ) : Except ε (Table key) :=
  if h : key r ∈ t.keys then .error error
  else .ok ⟨t.rows ++ [r], by
    rw [List.map_append]
    exact Sequence.nodup_concat.mpr ⟨h, t.nodup⟩⟩

theorem insert_eq_ok {t t' : Table key} {error : ε} {r : ρ} :
    t.insert error r = .ok t' ↔ key r ∉ t.keys ∧ t'.rows = t.rows ++ [r] := by
  unfold insert
  split
  case isTrue h => simp [h]
  case isFalse h =>
    rw [Except.ok.injEq, Table.ext_iff]
    exact ⟨fun heq => ⟨h, heq.symm⟩, fun heq => heq.2.symm⟩

/-- A key that a table has is the key of one row. -/
theorem length_filter_key {t : Table key} {k : κ} (h : k ∈ t.keys) :
    (t.rows.filter fun r => key r = k).length = 1 := by
  have hcount := List.count_eq_one_of_mem t.nodup h
  rwa [List.count_eq_countP, List.countP_map, List.countP_eq_length_filter] at hcount

end Table
