import Mathlib

set_option autoImplicit false

/-! # Finite maps that iterate in insertion order -/
namespace JsrProxy

/-- Distinct keys with their values; `entries` is also the iteration order. -/
structure OrderedMap (κ ν : Type) where
  entries : List (κ × ν)
  nodup : (entries.map Prod.fst).Nodup
deriving DecidableEq

namespace OrderedMap

variable {κ ν : Type}

theorem nodup_append_new (m : OrderedMap κ ν) (k : κ) (v : ν) (h : k ∉ m.entries.map Prod.fst) :
    ((m.entries ++ [(k, v)]).map Prod.fst).Nodup := by
  rw [List.map_append, List.nodup_append]
  refine ⟨m.nodup, by simp, ?_⟩
  intro a ha b hb
  rw [List.map_singleton, List.mem_singleton] at hb
  subst hb
  intro he
  exact h (he ▸ ha)

theorem value_unique (m : OrderedMap κ ν) {k : κ} {v w : ν}
    (hv : (k, v) ∈ m.entries) (hw : (k, w) ∈ m.entries) : v = w := by
  have h := List.inj_on_of_nodup_map m.nodup hv hw rfl
  exact (Prod.mk.inj h).2

theorem ext_entries {m n : OrderedMap κ ν} (h : m.entries = n.entries) : m = n := by
  cases m
  cases n
  congr

variable [DecidableEq κ]

def empty : OrderedMap κ ν := ⟨[], List.nodup_nil⟩

def get? (m : OrderedMap κ ν) (k : κ) : Option ν := m.entries.lookup k

def has (m : OrderedMap κ ν) (k : κ) : Bool := (m.get? k).isSome

def values (m : OrderedMap κ ν) : List ν := m.entries.map Prod.snd

def replaceEntry (k : κ) (v : ν) (e : κ × ν) : κ × ν := if e.1 = k then (k, v) else e

theorem replaceEntry_fst (k : κ) (v : ν) (e : κ × ν) : (replaceEntry k v e).1 = e.1 := by
  unfold replaceEntry
  split_ifs with h
  · exact h.symm
  · rfl

theorem map_fst_replaceEntry (k : κ) (v : ν) (es : List (κ × ν)) :
    (es.map (replaceEntry k v)).map Prod.fst = es.map Prod.fst := by
  simp [Function.comp_def, replaceEntry_fst]

/-- An existing key keeps its place; a new key goes last. -/
def set (m : OrderedMap κ ν) (k : κ) (v : ν) : OrderedMap κ ν :=
  if h : k ∈ m.entries.map Prod.fst then
    ⟨m.entries.map (replaceEntry k v), by rw [map_fst_replaceEntry]; exact m.nodup⟩
  else
    ⟨m.entries ++ [(k, v)], nodup_append_new m k v h⟩

theorem lookup_mem {es : List (κ × ν)} {k : κ} {v : ν} (h : es.lookup k = some v) :
    (k, v) ∈ es := by
  induction es with
  | nil => simp at h
  | cons e es ih =>
    rw [List.lookup_cons] at h
    split at h
    · rename_i he
      have hk : k = e.1 := by simpa using he
      have hv : e.2 = v := by simpa using h
      exact List.mem_cons.2 (.inl (by rw [hk, ← hv]))
    · exact List.mem_cons_of_mem _ (ih h)

theorem lookup_isSome {es : List (κ × ν)} {k : κ} {v : ν} (h : (k, v) ∈ es) :
    ∃ w, es.lookup k = some w := by
  induction es with
  | nil => simp at h
  | cons e es ih =>
    rw [List.lookup_cons]
    split
    · exact ⟨e.2, rfl⟩
    · rename_i hne
      rcases List.mem_cons.1 h with he | hm
      · simp [← he] at hne
      · exact ih hm

theorem get?_eq_some (m : OrderedMap κ ν) (k : κ) (v : ν) :
    m.get? k = some v ↔ (k, v) ∈ m.entries := by
  constructor
  · exact lookup_mem
  · intro h
    obtain ⟨w, hw⟩ := lookup_isSome h
    rw [get?, hw, m.value_unique h (lookup_mem hw)]

theorem get?_eq_none (m : OrderedMap κ ν) (k : κ) :
    m.get? k = none ↔ k ∉ m.entries.map Prod.fst := by
  constructor
  · intro h hk
    obtain ⟨e, he, rfl⟩ := List.mem_map.1 hk
    rw [(m.get?_eq_some e.1 e.2).2 he] at h
    exact Option.some_ne_none _ h
  · intro h
    cases hg : m.get? k with
    | none => rfl
    | some v => exact absurd (List.mem_map_of_mem ((m.get?_eq_some k v).1 hg)) h

theorem mem_set (m : OrderedMap κ ν) (k k' : κ) (v v' : ν) :
    (k', v') ∈ (m.set k v).entries ↔ (k' = k ∧ v' = v) ∨ (k' ≠ k ∧ (k', v') ∈ m.entries) := by
  unfold set
  split_ifs with h
  · simp only [List.mem_map]
    constructor
    · rintro ⟨e, he, heq⟩
      unfold replaceEntry at heq
      split_ifs at heq with hk
      · exact .inl ⟨(Prod.mk.inj heq).1.symm, (Prod.mk.inj heq).2.symm⟩
      · subst heq
        exact .inr ⟨hk, he⟩
    · rintro (⟨rfl, rfl⟩ | ⟨hk, hm⟩)
      · obtain ⟨e, he, hek⟩ := List.mem_map.1 h
        exact ⟨e, he, by simp [replaceEntry, hek]⟩
      · exact ⟨(k', v'), hm, by simp [replaceEntry, hk]⟩
  · simp only [List.mem_append, List.mem_singleton, Prod.mk.injEq]
    constructor
    · rintro (hm | he)
      · refine .inr ⟨?_, hm⟩
        rintro rfl
        exact h (List.mem_map_of_mem hm)
      · exact .inl he
    · rintro (he | ⟨-, hm⟩)
      · exact .inr he
      · exact .inl hm

@[simp] theorem get?_empty (k : κ) : (empty : OrderedMap κ ν).get? k = none := rfl

@[simp] theorem get?_set_self (m : OrderedMap κ ν) (k : κ) (v : ν) :
    (m.set k v).get? k = some v := by
  rw [get?_eq_some, mem_set]
  exact .inl ⟨rfl, rfl⟩

theorem get?_set_of_ne (m : OrderedMap κ ν) {k k' : κ} (v : ν) (h : k' ≠ k) :
    (m.set k v).get? k' = m.get? k' := by
  ext w
  simp only [get?_eq_some, mem_set, h, false_and, ne_eq, not_false_eq_true, true_and, false_or]

theorem get?_set (m : OrderedMap κ ν) (k k' : κ) (v : ν) :
    (m.set k v).get? k' = if k' = k then some v else m.get? k' := by
  split_ifs with h
  · rw [h, get?_set_self]
  · exact get?_set_of_ne m v h

theorem entries_set_old (m : OrderedMap κ ν) {k : κ} (v : ν) (h : k ∈ m.entries.map Prod.fst) :
    (m.set k v).entries = m.entries.map (replaceEntry k v) := by
  rw [set, dif_pos h]

theorem entries_set_new (m : OrderedMap κ ν) {k : κ} (v : ν) (h : k ∉ m.entries.map Prod.fst) :
    (m.set k v).entries = m.entries ++ [(k, v)] := by
  rw [set, dif_neg h]

theorem set_set (m : OrderedMap κ ν) (k : κ) (v w : ν) : (m.set k v).set k w = m.set k w := by
  have hset : k ∈ (m.set k v).entries.map Prod.fst :=
    List.mem_map_of_mem ((m.mem_set k k v v).2 (.inl ⟨rfl, rfl⟩))
  apply ext_entries
  rw [entries_set_old _ w hset]
  by_cases h : k ∈ m.entries.map Prod.fst
  · rw [entries_set_old m v h, entries_set_old m w h, List.map_map]
    apply List.map_congr_left
    intro e he
    by_cases hk : e.1 = k
    · simp [replaceEntry, hk]
    · simp [replaceEntry, hk]
  · have hkept : ∀ e ∈ m.entries, replaceEntry k w e = e := by
      intro e he
      rw [replaceEntry, if_neg]
      rintro rfl
      exact h (List.mem_map_of_mem he)
    rw [entries_set_new m v h, entries_set_new m w h, List.map_append, List.map_congr_left hkept, List.map_id']
    simp [replaceEntry]

@[simp] theorem has_eq_true (m : OrderedMap κ ν) (k : κ) :
    m.has k = true ↔ ∃ v, m.get? k = some v := by
  simp [has, Option.isSome_iff_exists]

theorem mem_values (m : OrderedMap κ ν) (v : ν) : v ∈ m.values ↔ ∃ k, m.get? k = some v := by
  simp only [values, List.mem_map, get?_eq_some]
  constructor
  · rintro ⟨e, he, rfl⟩
    exact ⟨e.1, he⟩
  · rintro ⟨k, hk⟩
    exact ⟨(k, v), hk, rfl⟩

theorem set_of_get? (m : OrderedMap κ ν) {k : κ} {v : ν} (h : m.get? k = some v) : m.set k v = m := by
  have hmem := (m.get?_eq_some k v).1 h
  have hsame : ∀ e ∈ m.entries, replaceEntry k v e = e := by
    intro e he
    unfold replaceEntry
    split_ifs with hk
    · have hv : e.2 = v := m.value_unique (hk ▸ he) hmem
      rw [← hk, ← hv]
    · rfl
  apply ext_entries
  rw [entries_set_old m v (List.mem_map_of_mem hmem)]
  exact (List.map_congr_left hsame).trans (List.map_id' _)

theorem values_set_new (m : OrderedMap κ ν) {k : κ} (v : ν) (h : m.get? k = none) :
    (m.set k v).values = m.values ++ [v] := by
  rw [values, entries_set_new m v ((m.get?_eq_none k).1 h), List.map_append]
  rfl

/-- What is collected from the values comes from one key when the others give nothing. -/
theorem flatMap_values {β : Type} (m : OrderedMap κ ν) (f : ν → List β) (k : κ)
    (h : ∀ j v, m.get? j = some v → j ≠ k → f v = []) :
    m.values.flatMap f = ((m.get? k).map f).getD [] := by
  have hentries : ∀ es : List (κ × ν), (es.map Prod.fst).Nodup →
      (∀ e ∈ es, e.1 ≠ k → f e.2 = []) →
      (es.map Prod.snd).flatMap f = ((es.lookup k).map f).getD [] := by
    intro es hnodup hes
    induction es with
    | nil => rfl
    | cons e es ih =>
      obtain ⟨hnew, hnodup⟩ := List.nodup_cons.1 hnodup
      rw [List.map_cons, List.flatMap_cons, List.lookup_cons]
      by_cases he : e.1 = k
      · have hrest : (es.map Prod.snd).flatMap f = [] := by
          rw [List.flatMap_map, List.flatMap_eq_nil_iff]
          intro d hd
          apply hes d (List.mem_cons_of_mem _ hd)
          intro hdk
          exact hnew (List.mem_map.2 ⟨d, hd, hdk.trans he.symm⟩)
        rw [hrest, List.append_nil, ← he, beq_self_eq_true]
        rfl
      · rw [hes e List.mem_cons_self he, List.nil_append, beq_eq_false_iff_ne.2 (Ne.symm he)]
        exact ih hnodup fun d hd => hes d (List.mem_cons_of_mem _ hd)
  exact hentries m.entries m.nodup fun e he hne => h e.1 e.2 ((m.get?_eq_some _ _).2 he) hne

/-- Writing entries with distinct keys back in order rebuilds the map they came from. -/
theorem foldl_set_entries (es : List (κ × ν)) (m : OrderedMap κ ν)
    (h : ((m.entries ++ es).map Prod.fst).Nodup) :
    (es.foldl (fun acc e => acc.set e.1 e.2) m).entries = m.entries ++ es := by
  induction es generalizing m with
  | nil => simp
  | cons e es ih =>
    have hnew : e.1 ∉ m.entries.map Prod.fst := by
      rw [List.map_append, List.nodup_append] at h
      intro hm
      exact h.2.2 e.1 hm e.1 (by simp) rfl
    have hset : (m.set e.1 e.2).entries = m.entries ++ [e] := entries_set_new m e.2 hnew
    rw [List.foldl_cons, ih]
    · rw [hset, List.append_assoc, List.singleton_append]
    · rw [hset, List.append_assoc, List.singleton_append]
      exact h

end OrderedMap
end JsrProxy
