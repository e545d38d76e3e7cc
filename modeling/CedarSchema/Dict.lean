/-
  Dictionaries: values under keys in ascending order of the keys, each key at most once. Two
  dictionaries with the same value under every key are equal, whatever the order in which they
  were filled.
-/

namespace CedarSchema

open Std

/-- The keys stand in ascending order, none of them twice. -/
def Ascending {κ α : Type} [Ord κ] (entries : List (κ × α)) : Prop :=
  entries.Pairwise fun a b => compare a.1 b.1 = .lt

/-- Puts a value under a key, in place of the one already there if there is one. -/
def insertEntry {κ α : Type} [Ord κ] (k : κ) (v : α) : List (κ × α) → List (κ × α)
  | [] => [(k, v)]
  | (k', v') :: rest =>
    match compare k k' with
    | .lt => (k, v) :: (k', v') :: rest
    | .eq => (k, v) :: rest
    | .gt => (k', v') :: insertEntry k v rest

/-- The value under a key. -/
def findEntry {κ α : Type} [Ord κ] (k : κ) : List (κ × α) → Option α
  | [] => none
  | (k', v) :: rest => if compare k k' = .eq then some v else findEntry k rest

section

variable {κ α : Type} [Ord κ]

theorem mem_insertEntry {k : κ} {v : α} {entries : List (κ × α)} {e : κ × α}
    (h : e ∈ insertEntry k v entries) : e = (k, v) ∨ e ∈ entries := by
  induction entries with
  | nil => simpa [insertEntry] using h
  | cons a rest ih =>
    simp only [insertEntry] at h
    split at h
    · simpa using h
    · simp only [List.mem_cons] at h ⊢; exact h.imp_right .inr
    · simp only [List.mem_cons] at h ⊢
      rcases h with h | h
      · exact .inr (.inl h)
      · exact (ih h).imp_right .inr

theorem findEntry_eq_none {k : κ} {entries : List (κ × α)}
    (h : ∀ e ∈ entries, compare k e.1 = .lt) : findEntry k entries = none := by
  induction entries with
  | nil => rfl
  | cons a rest ih =>
    obtain ⟨ha, hr⟩ := List.forall_mem_cons.1 h
    simp [findEntry, ha, ih hr]

variable [LawfulEqOrd κ]

theorem mem_of_findEntry {k : κ} {v : α} {entries : List (κ × α)}
    (h : findEntry k entries = some v) : (k, v) ∈ entries := by
  induction entries with
  | nil => cases h
  | cons e rest ih =>
    simp only [findEntry] at h
    split at h
    · rename_i he
      cases h
      rw [LawfulEqCmp.eq_of_compare he]
      exact List.mem_cons_self
    · exact List.mem_cons_of_mem _ (ih h)

theorem findEntry_insertEntry_self (k : κ) (v : α) (entries : List (κ × α)) :
    findEntry k (insertEntry k v entries) = some v := by
  induction entries with
  | nil => simp [insertEntry, findEntry]
  | cons a rest ih =>
    simp only [insertEntry]
    split
    · simp [findEntry]
    · simp [findEntry]
    · rename_i h; simp [findEntry, h, ih]

theorem findEntry_insertEntry_of_ne {k k' : κ} (h : k' ≠ k) (v : α) (entries : List (κ × α)) :
    findEntry k' (insertEntry k v entries) = findEntry k' entries := by
  have hne : compare k' k ≠ .eq := fun he => h (LawfulEqCmp.eq_of_compare he)
  induction entries with
  | nil => simp [insertEntry, findEntry, hne]
  | cons a rest ih =>
    simp only [insertEntry]
    split
    · simp [findEntry, hne]
    · rename_i he
      have hk : k = a.1 := LawfulEqCmp.eq_of_compare he
      subst hk
      simp [findEntry, hne]
    · simp [findEntry, ih]

variable [TransOrd κ]

theorem ascending_insertEntry {k : κ} {v : α} {entries : List (κ × α)} (h : Ascending entries) :
    Ascending (insertEntry k v entries) := by
  induction entries with
  | nil => simp [insertEntry, Ascending]
  | cons a rest ih =>
    obtain ⟨ha, hr⟩ := List.pairwise_cons.1 h
    simp only [insertEntry]
    split
    · rename_i hlt
      refine List.pairwise_cons.2 ⟨fun e he => ?_, h⟩
      rcases List.mem_cons.1 he with rfl | he
      · exact hlt
      · exact TransCmp.lt_trans hlt (ha e he)
    · rename_i heq
      cases LawfulEqCmp.eq_of_compare heq
      exact List.pairwise_cons.2 ⟨ha, hr⟩
    · rename_i hgt
      refine List.pairwise_cons.2 ⟨fun e he => ?_, ih hr⟩
      rcases mem_insertEntry he with rfl | he
      · exact OrientedCmp.gt_iff_lt.1 hgt
      · exact ha e he

/-- Ascending entries are determined by the value under each key. -/
theorem Ascending.ext {es fs : List (κ × α)} (he : Ascending es) (hf : Ascending fs)
    (h : ∀ k, findEntry k es = findEntry k fs) : es = fs := by
  induction es generalizing fs with
  | nil =>
    cases fs with
    | nil => rfl
    | cons b fs => have := h b.1; simp [findEntry] at this
  | cons a es ih =>
    cases fs with
    | nil => have := h a.1; simp [findEntry] at this
    | cons b fs =>
      obtain ⟨ha, hes⟩ := List.pairwise_cons.1 he
      obtain ⟨hb, hfs⟩ := List.pairwise_cons.1 hf
      have none_of_lt {c : κ × α} {l : List (κ × α)} (hl : ∀ e ∈ l, compare c.1 e.1 = .lt)
          {k : κ} (hk : compare k c.1 = .lt) : findEntry k (c :: l) = none :=
        findEntry_eq_none fun e h => by
          rcases List.mem_cons.1 h with rfl | h
          · exact hk
          · exact TransCmp.lt_trans hk (hl e h)
      cases hab : compare a.1 b.1 with
      | lt => have := h a.1; rw [none_of_lt hb hab] at this; simp [findEntry] at this
      | gt =>
        have := h b.1
        rw [none_of_lt ha (OrientedCmp.gt_iff_lt.1 hab)] at this
        simp [findEntry] at this
      | eq =>
        obtain ⟨k, v⟩ := a
        obtain ⟨k', v'⟩ := b
        cases LawfulEqCmp.eq_of_compare hab
        have hv : v = v' := by simpa [findEntry] using h k
        subst hv
        rw [ih hes hfs fun j => ?_]
        by_cases hj : compare j k = .eq
        · cases LawfulEqCmp.eq_of_compare hj
          rw [findEntry_eq_none ha, findEntry_eq_none hb]
        · simpa [findEntry, hj] using h j

end

/-- Values of type `α` under keys of type `κ`. -/
structure Dict (κ : Type) [Ord κ] (α : Type) where
  entries : List (κ × α)
  ascending : Ascending entries

namespace Dict

variable {κ α β : Type} [Ord κ]

/-- No keys at all. -/
def empty : Dict κ α := ⟨[], .nil⟩

/-- The number of keys. -/
def size (d : Dict κ α) : Nat := d.entries.length

/-- Whether there are no keys. -/
def isEmpty (d : Dict κ α) : Bool := d.entries.isEmpty

/-- The keys in ascending order. -/
def keys (d : Dict κ α) : List κ := d.entries.map Prod.fst

/-- The values in the order of their keys. -/
def values (d : Dict κ α) : List α := d.entries.map Prod.snd

/-- The value under a key, if there is one. -/
def find? (d : Dict κ α) (k : κ) : Option α := findEntry k d.entries

/-- Whether there is a value under a key. -/
def contains (d : Dict κ α) (k : κ) : Bool := (d.find? k).isSome

theorem find?_empty (k : κ) : (empty : Dict κ α).find? k = none := rfl

theorem mem_keys_of_find? [LawfulEqOrd κ] {d : Dict κ α} {k : κ} {v : α}
    (h : d.find? k = some v) : k ∈ d.keys :=
  List.mem_map_of_mem (f := Prod.fst) (mem_of_findEntry h)

variable [TransOrd κ] [LawfulEqOrd κ]

/-- The dictionary with a value under a key, whatever stood there before. -/
def insert (d : Dict κ α) (k : κ) (v : α) : Dict κ α :=
  ⟨insertEntry k v d.entries, ascending_insertEntry d.ascending⟩

/-- The value under each key is the last one listed with it. -/
def ofList (l : List (κ × α)) : Dict κ α := l.foldl (fun d e => d.insert e.1 e.2) empty

theorem find?_insert_self (d : Dict κ α) (k : κ) (v : α) : (d.insert k v).find? k = some v :=
  findEntry_insertEntry_self k v d.entries

theorem find?_insert_of_ne (d : Dict κ α) {k k' : κ} (h : k' ≠ k) (v : α) :
    (d.insert k v).find? k' = d.find? k' :=
  findEntry_insertEntry_of_ne h v d.entries

theorem ext_find? {d e : Dict κ α} (h : ∀ k, d.find? k = e.find? k) : d = e := by
  cases d
  cases e
  cases Ascending.ext (by assumption) (by assumption) h
  rfl

end Dict

end CedarSchema
