import CedarSchema.Dict
import Mathlib.Data.List.Forall2
import Mathlib.Data.List.Nodup

/-
  What dictionaries hold. The entries of a dictionary are the values under its keys, and no key
  comes twice. Entering a value changes the entry of its key and no other, so a dictionary filled
  from a list without repeated keys holds the entries of the list, in another order.
-/

namespace CedarSchema

open Std

section

variable {κ α : Type} [Ord κ] [LawfulEqOrd κ]

theorem Ascending.nodup_keys {entries : List (κ × α)} (h : Ascending entries) :
    (entries.map Prod.fst).Nodup := by
  refine List.Pairwise.map Prod.fst (fun a b hab heq => ?_) h
  rw [heq, ReflOrd.compare_self] at hab
  cases hab

theorem findEntry_of_mem {entries : List (κ × α)} (h : Ascending entries) {k : κ} {v : α}
    (hm : (k, v) ∈ entries) : findEntry k entries = some v := by
  induction entries with
  | nil => cases hm
  | cons e rest ih =>
    obtain ⟨he, hr⟩ := List.pairwise_cons.1 h
    rcases List.mem_cons.1 hm with rfl | hm
    · simp [findEntry]
    · have hne : compare k e.1 ≠ .eq := by
        intro heq
        have hlt := he _ hm
        rw [LawfulEqCmp.eq_of_compare heq, ReflOrd.compare_self] at hlt
        cases hlt
      simp [findEntry, hne, ih hr hm]

theorem findEntry_filter_ne [DecidableEq κ] (k key : κ) (entries : List (κ × α)) :
    findEntry k (entries.filter fun e => e.1 ≠ key) =
      if k = key then none else findEntry k entries := by
  induction entries with
  | nil => exact (ite_self none).symm
  | cons e entries ih =>
    by_cases he : e.1 = key
    · rw [List.filter_cons_of_neg (by simpa using he), ih, findEntry]
      split
      · rfl
      · rename_i hk
        rw [if_neg fun h => hk ((LawfulEqCmp.eq_of_compare h).trans he)]
    · rw [List.filter_cons_of_pos (by simpa using he), findEntry, findEntry, ih]
      by_cases hk : k = key
      · rw [if_pos hk, if_pos hk, if_neg fun h => he ((LawfulEqCmp.eq_of_compare h).symm.trans hk)]
      · rw [if_neg hk, if_neg hk]

variable [TransOrd κ]

/-- Entering a value takes the place of the entry of its key, if there is one. -/
theorem insertEntry_perm (k : κ) (v : α) {entries : List (κ × α)} (h : Ascending entries) :
    ∃ rest, entries.Perm ((findEntry k entries).toList.map (Prod.mk k) ++ rest) ∧
      (insertEntry k v entries).Perm ((k, v) :: rest) := by
  induction entries with
  | nil => exact ⟨[], by simp [findEntry], by simp [insertEntry]⟩
  | cons e rest ih =>
    obtain ⟨he, hr⟩ := List.pairwise_cons.1 h
    cases hc : compare k e.1 with
    | lt =>
      refine ⟨e :: rest, ?_, by simp [insertEntry, hc]⟩
      rw [findEntry_eq_none]
      · simp
      · intro e' he'
        rcases List.mem_cons.1 he' with rfl | he'
        · exact hc
        · exact TransCmp.lt_trans hc (he e' he')
    | eq =>
      cases LawfulEqCmp.eq_of_compare hc
      exact ⟨rest, by simp [findEntry], by simp [insertEntry]⟩
    | gt =>
      obtain ⟨rest', hp, hp'⟩ := ih hr
      refine ⟨e :: rest', ?_, ?_⟩
      · have hf : findEntry k (e :: rest) = findEntry k rest := by simp [findEntry, hc]
        rw [hf]
        exact (hp.cons e).trans List.perm_middle.symm
      · have hi : insertEntry k v (e :: rest) = e :: insertEntry k v rest := by
          simp [insertEntry, hc]
        rw [hi]
        exact (hp'.cons e).trans (List.Perm.swap _ _ _)

end

namespace Dict

variable {κ α : Type} [Ord κ]

theorem keys_empty : (empty : Dict κ α).keys = [] := rfl

theorem entries_injective : Function.Injective (entries : Dict κ α → List (κ × α)) := by
  rintro ⟨_, _⟩ ⟨_, _⟩ rfl
  rfl

variable [LawfulEqOrd κ]

theorem nodup_keys (d : Dict κ α) : d.keys.Nodup := d.ascending.nodup_keys

theorem mem_entries_iff {d : Dict κ α} {k : κ} {v : α} :
    (k, v) ∈ d.entries ↔ d.find? k = some v :=
  ⟨findEntry_of_mem d.ascending, mem_of_findEntry⟩

theorem contains_iff {d : Dict κ α} {k : κ} : d.contains k = true ↔ k ∈ d.keys := by
  rw [contains, Option.isSome_iff_exists, keys, List.mem_map]
  constructor
  · rintro ⟨v, hv⟩
    exact ⟨(k, v), mem_entries_iff.2 hv, rfl⟩
  · rintro ⟨⟨k, v⟩, hm, rfl⟩
    exact ⟨v, mem_entries_iff.1 hm⟩

variable [TransOrd κ]

theorem mem_keys_insert {d : Dict κ α} {k k' : κ} {v : α} :
    k' ∈ (d.insert k v).keys ↔ k' = k ∨ k' ∈ d.keys := by
  rw [← contains_iff, ← contains_iff, contains, contains]
  by_cases hk : k' = k
  · subst hk
    simp [find?_insert_self]
  · simp [find?_insert_of_ne _ hk, hk]

/-- Under a new key nothing is replaced. -/
theorem entries_insert_perm {d : Dict κ α} {k : κ} (v : α) (h : k ∉ d.keys) :
    (d.insert k v).entries.Perm ((k, v) :: d.entries) := by
  obtain ⟨rest, hp, hp'⟩ := insertEntry_perm k v d.ascending
  have hf : findEntry k d.entries = none := by
    rw [Option.eq_none_iff_forall_ne_some]
    exact fun w hw => h (List.mem_map_of_mem (f := Prod.fst) (mem_of_findEntry hw))
  rw [hf] at hp
  exact hp'.trans (hp.symm.cons (k, v))

theorem nodup_append_keys_insert {d : Dict κ α} {k : κ} (v : α) (h : k ∉ d.keys) (l : List κ) :
    (l ++ (d.insert k v).keys).Nodup ↔ (k :: (l ++ d.keys)).Nodup := by
  have hkeys : (d.insert k v).keys.Perm (k :: d.keys) := (entries_insert_perm v h).map Prod.fst
  exact ((hkeys.append_left l).trans List.perm_middle).nodup_iff

/-- All keys new and none of them twice, a list adds its entries to a dictionary. -/
theorem entries_foldl_insert_perm {l : List (κ × α)} {d : Dict κ α}
    (h : (l.map Prod.fst ++ d.keys).Nodup) :
    (l.foldl (fun d e => d.insert e.1 e.2) d).entries.Perm (l ++ d.entries) := by
  induction l generalizing d with
  | nil => exact .refl _
  | cons e l ih =>
    have hnew : e.1 ∉ d.keys := fun hk => (List.nodup_cons.1 h).1 (List.mem_append_right _ hk)
    refine (ih ((nodup_append_keys_insert e.2 hnew _).2 h)).trans ?_
    exact ((entries_insert_perm e.2 hnew).append_left l).trans List.perm_middle

theorem entries_ofList_perm {l : List (κ × α)} (h : (l.map Prod.fst).Nodup) :
    (ofList l).entries.Perm l := by
  have hp := @entries_foldl_insert_perm _ _ _ _ _ l .empty (by simpa [keys, empty] using h)
  rwa [empty, List.append_nil] at hp

theorem find?_ofList_iff {l : List (κ × α)} (h : (l.map Prod.fst).Nodup) {k : κ} {v : α} :
    (ofList l).find? k = some v ↔ (k, v) ∈ l := by
  rw [← mem_entries_iff, (entries_ofList_perm h).mem_iff]

/-- The dictionary of a list gives the list back, once the keys are known in their order. -/
theorem eq_of_entries_ofList_eq {l m : List (κ × α)} (h : (l.map Prod.fst).Nodup)
    (hkeys : l.map Prod.fst = m.map Prod.fst) (hentries : (ofList l).entries = (ofList m).entries) :
    l = m := by
  have hperm : m.Perm l :=
    (entries_ofList_perm (hkeys ▸ h)).symm.trans (hentries ▸ entries_ofList_perm h)
  have hlength : l.length = m.length := by simpa using congrArg List.length hkeys
  refine List.ext_getElem hlength fun i hi hi' => ?_
  have hkey : l[i].1 = m[i].1 := by
    rw [← List.getElem_map Prod.fst (h := by simpa using hi), List.getElem_of_eq hkeys,
      List.getElem_map]
  have hmem : m[i] ∈ l := hperm.mem_iff.1 (List.getElem_mem hi')
  exact List.inj_on_of_nodup_map h (List.getElem_mem hi) hmem hkey

@[simp] theorem find?_ofList_nil (k : κ) : (ofList ([] : List (κ × α))).find? k = none := rfl

@[simp] theorem find?_ofList_cons [DecidableEq κ] (e : κ × α) (l : List (κ × α)) (k : κ) :
    (ofList (e :: l)).find? k = ((ofList l).find? k).or (if k = e.1 then some e.2 else none) := by
  have hfold (l : List (κ × α)) (d : Dict κ α) :
      (l.foldl (fun d e => d.insert e.1 e.2) d).find? k = ((ofList l).find? k).or (d.find? k) := by
    induction l generalizing d with
    | nil => rfl
    | cons e l ih =>
      rw [ofList, List.foldl_cons, List.foldl_cons, ih, ih (empty.insert e.1 e.2), Option.or_assoc]
      by_cases hk : k = e.1
      · rw [hk, find?_insert_self, find?_insert_self, Option.some_or]
      · rw [find?_insert_of_ne d hk, find?_insert_of_ne _ hk, find?_empty, Option.none_or]
  rw [ofList, List.foldl_cons, hfold]
  split
  · rename_i hk
    rw [hk, find?_insert_self]
  · rename_i hk
    rw [find?_insert_of_ne _ hk, find?_empty]

/-- Of two lists the second counts where both have a key. -/
@[simp] theorem find?_ofList_append [DecidableEq κ] (l m : List (κ × α)) (k : κ) :
    (ofList (l ++ m)).find? k = ((ofList m).find? k).or ((ofList l).find? k) := by
  induction l with
  | nil => exact (Option.or_none).symm
  | cons e l ih => rw [List.cons_append, find?_ofList_cons, ih, find?_ofList_cons, Option.or_assoc]

theorem exists_find?_ofList [DecidableEq κ] {l : List (κ × α)} {k : κ} (h : k ∈ l.map Prod.fst) :
    ∃ v, (ofList l).find? k = some v := by
  induction l with
  | nil => cases h
  | cons e l ih =>
    rw [find?_ofList_cons]
    cases hl : (ofList l).find? k with
    | some v => exact ⟨v, rfl⟩
    | none =>
      rcases List.mem_cons.1 h with rfl | h
      · exact ⟨e.2, by simp⟩
      · obtain ⟨v, hv⟩ := ih h
        rw [hl] at hv
        cases hv

@[simp] theorem entries_ofList_eq_nil [DecidableEq κ] {l : List (κ × α)} :
    (ofList l).entries = [] ↔ l = [] := by
  constructor
  · intro h
    cases l with
    | nil => rfl
    | cons e l =>
      obtain ⟨v, hv⟩ := exists_find?_ofList (l := e :: l) (k := e.1) List.mem_cons_self
      have hmem : (e.1, v) ∈ (ofList (e :: l)).entries := mem_entries_iff.2 hv
      rw [h] at hmem
      cases hmem
  · rintro rfl
    rfl

/-- Nothing but what is listed is entered. -/
theorem mem_of_mem_ofList {l : List (κ × α)} {e : κ × α} (h : e ∈ (ofList l).entries) : e ∈ l := by
  have hfold (l : List (κ × α)) (d : Dict κ α)
      (h : e ∈ (l.foldl (fun d e => d.insert e.1 e.2) d).entries) : e ∈ l ∨ e ∈ d.entries := by
    induction l generalizing d with
    | nil => exact .inr h
    | cons f l ih =>
      rcases ih _ h with h | h
      · exact .inl (List.mem_cons_of_mem f h)
      · rcases mem_insertEntry h with rfl | h
        · exact .inl List.mem_cons_self
        · exact .inr h
  exact (hfold l .empty h).resolve_right nofun

theorem ofList_entries (d : Dict κ α) : ofList d.entries = d :=
  ext_find? fun k => Option.ext fun v => by
    rw [find?_ofList_iff d.nodup_keys, mem_entries_iff]

/-- Lists of which each entry stands in a relation to the other, with the key in common, make
dictionaries of which the same is true. -/
theorem forall₂_ofList {β : Type} {R : κ × α → κ × β → Prop} (hR : ∀ a b, R a b → a.1 = b.1)
    {l : List (κ × α)} {m : List (κ × β)} (h : List.Forall₂ R l m) :
    List.Forall₂ R (ofList l).entries (ofList m).entries := by
  have hinsert {a b es fs} (hab : R a b) (h : List.Forall₂ R es fs) :
      List.Forall₂ R (insertEntry a.1 a.2 es) (insertEntry b.1 b.2 fs) := by
    obtain ⟨k, v⟩ := a
    obtain ⟨k', w⟩ := b
    obtain rfl : k = k' := hR _ _ hab
    induction h with
    | nil => exact .cons hab .nil
    | @cons e f es fs hef h ih =>
      obtain ⟨j, x⟩ := e
      obtain ⟨j', y⟩ := f
      obtain rfl : j = j' := hR _ _ hef
      simp only [insertEntry]
      split
      · exact .cons hab (.cons hef h)
      · exact .cons hab h
      · exact .cons hef ih
  have hfold {l m} (h : List.Forall₂ R l m) {d : Dict κ α} {d' : Dict κ β}
      (hd : List.Forall₂ R d.entries d'.entries) :
      List.Forall₂ R (l.foldl (fun d e => d.insert e.1 e.2) d).entries
        (m.foldl (fun d e => d.insert e.1 e.2) d').entries := by
    induction h generalizing d d' with
    | nil => exact hd
    | cons hab _ ih => exact ih (hinsert hab hd)
  exact hfold h .nil

section

variable {f : α → κ} {l : List α}

/-- A list without repeated keys as a dictionary, each of its values under a key of its own. -/
theorem entries_ofList_map_perm (h : (l.map f).Nodup) :
    (ofList (l.map fun a => (f a, a))).entries.Perm (l.map fun a => (f a, a)) := by
  refine entries_ofList_perm ?_
  rwa [List.map_map]

theorem keys_ofList_map_perm (h : (l.map f).Nodup) :
    (ofList (l.map fun a => (f a, a))).keys.Perm (l.map f) := by
  refine ((entries_ofList_map_perm h).map Prod.fst).trans (.of_eq ?_)
  rw [List.map_map]
  rfl

theorem values_ofList_map_perm (h : (l.map f).Nodup) :
    (ofList (l.map fun a => (f a, a))).values.Perm l := by
  refine ((entries_ofList_map_perm h).map Prod.snd).trans (.of_eq ?_)
  rw [List.map_map]
  exact List.map_id l

theorem find?_ofList_map_iff (h : (l.map f).Nodup) {k : κ} {a : α} :
    (ofList (l.map fun a => (f a, a))).find? k = some a ↔ a ∈ l ∧ f a = k := by
  rw [← mem_entries_iff, (entries_ofList_map_perm h).mem_iff, List.mem_map]
  constructor
  · rintro ⟨b, hb, ⟨⟩⟩
    exact ⟨hb, rfl⟩
  · rintro ⟨ha, rfl⟩
    exact ⟨a, ha, rfl⟩

end

end Dict

end CedarSchema
