import Mathlib

set_option autoImplicit false

/-! # Lists split at a separator -/
namespace JsrProxy.Segments

variable {α : Type} [BEq α] [LawfulBEq α] {sep : α}

theorem splitOn_cons_self (sep : α) (s : List α) : (sep :: s).splitOn sep = [] :: s.splitOn sep := by
  rw [List.splitOn_cons_eq_if_modifyHead, if_pos BEq.rfl]

theorem not_mem_of_mem_splitOn {s part : List α} (h : part ∈ s.splitOn sep) : sep ∉ part := by
  induction s generalizing part with
  | nil =>
    rw [List.splitOn_nil, List.mem_singleton] at h
    rw [h]
    exact List.not_mem_nil
  | cons c s ih =>
    rw [List.splitOn_cons_eq_if_modifyHead] at h
    split at h
    · rcases List.mem_cons.1 h with rfl | h
      · exact List.not_mem_nil
      · exact ih h
    · rename_i hc
      cases hs : s.splitOn sep with
      | nil => exact absurd hs (List.splitOn_ne_nil sep s)
      | cons first rest =>
        rw [hs] at h ih
        rcases List.mem_cons.1 h with rfl | h
        · intro hm
          rcases List.mem_cons.1 hm with rfl | hm
          · exact hc BEq.rfl
          · exact ih List.mem_cons_self hm
        · exact ih (List.mem_cons_of_mem _ h)

omit [BEq α] [LawfulBEq α] in
theorem intercalate_append {xs ys : List (List α)} (hx : xs ≠ []) (hy : ys ≠ []) :
    [sep].intercalate (xs ++ ys) = [sep].intercalate xs ++ sep :: [sep].intercalate ys := by
  induction xs with
  | nil => exact absurd rfl hx
  | cons x xs ih =>
    cases xs with
    | nil =>
      rw [List.singleton_append, List.intercalate_cons_of_ne_nil hy, List.intercalate_singleton,
        List.append_assoc, List.singleton_append]
    | cons x' xs =>
      have hne : x' :: xs ≠ [] := List.cons_ne_nil _ _
      have hne' : x' :: xs ++ ys ≠ [] := List.cons_ne_nil _ _
      rw [List.cons_append, List.intercalate_cons_of_ne_nil hne', ih hne,
        List.intercalate_cons_of_ne_nil hne]
      simp only [List.append_assoc]

/-- What a list splits into can be put back together in two parts. -/
theorem splitOn_eq_append {s : List α} {xs ys : List (List α)} (hx : xs ≠ []) (hy : ys ≠ [])
    (h : s.splitOn sep = xs ++ ys) :
    s = [sep].intercalate xs ++ sep :: [sep].intercalate ys ∧
      ([sep].intercalate xs).splitOn sep = xs ∧ ([sep].intercalate ys).splitOn sep = ys := by
  have hfree : ∀ part ∈ xs ++ ys, sep ∉ part := by
    intro part hpart
    rw [← h] at hpart
    exact not_mem_of_mem_splitOn hpart
  refine ⟨?_, ?_, ?_⟩
  · rw [← intercalate_append hx hy, ← h, List.intercalate_splitOn]
  · exact List.splitOn_intercalate _ (fun part hp => hfree part (List.mem_append_left _ hp)) hx
  · exact List.splitOn_intercalate _ (fun part hp => hfree part (List.mem_append_right _ hp)) hy

omit [LawfulBEq α] in
theorem mem_of_mem_splitOn {s part : List α} (h : part ∈ s.splitOn sep) {a : α} (ha : a ∈ part) :
    a ∈ s := by
  induction s generalizing part with
  | nil =>
    rw [List.splitOn_nil, List.mem_singleton] at h
    rw [h] at ha
    cases ha
  | cons c s ih =>
    rw [List.splitOn_cons_eq_if_modifyHead] at h
    split at h
    · rcases List.mem_cons.1 h with rfl | h
      · cases ha
      · exact List.mem_cons_of_mem _ (ih h ha)
    · cases hs : s.splitOn sep with
      | nil => exact absurd hs (List.splitOn_ne_nil sep s)
      | cons first rest =>
        rw [hs] at h ih
        rcases List.mem_cons.1 h with rfl | h
        · rcases List.mem_cons.1 ha with rfl | ha
          · exact List.mem_cons_self
          · exact List.mem_cons_of_mem _ (ih List.mem_cons_self ha)
        · exact List.mem_cons_of_mem _ (ih (List.mem_cons_of_mem _ h) ha)

theorem mem_splitOn (sep : α) {s : List α} {a : α} (h : a ∈ s) :
    a = sep ∨ ∃ part ∈ s.splitOn sep, a ∈ part := by
  induction s with
  | nil => cases h
  | cons c s ih =>
    rw [List.splitOn_cons_eq_if_modifyHead]
    split
    · rename_i hc
      rcases List.mem_cons.1 h with rfl | h
      · exact .inl (eq_of_beq hc)
      · rcases ih h with h | ⟨part, hp, ha⟩
        · exact .inl h
        · exact .inr ⟨part, List.mem_cons_of_mem _ hp, ha⟩
    · cases hs : s.splitOn sep with
      | nil => exact absurd hs (List.splitOn_ne_nil sep s)
      | cons first rest =>
        rcases List.mem_cons.1 h with rfl | h
        · exact .inr ⟨a :: first, List.mem_cons_self, List.mem_cons_self⟩
        · rcases ih h with h | ⟨part, hp, ha⟩
          · exact .inl h
          · rw [hs] at hp
            rcases List.mem_cons.1 hp with rfl | hp
            · exact .inr ⟨c :: part, List.mem_cons_self, List.mem_cons_of_mem _ ha⟩
            · exact .inr ⟨part, List.mem_cons_of_mem _ hp, ha⟩

omit [BEq α] [LawfulBEq α] in
theorem span_append {p : α → Bool} {front rest : List α} (hfront : ∀ c ∈ front, p c = true)
    (hrest : ∀ c, rest.head? = some c → p c = false) :
    (front ++ rest).takeWhile p = front ∧ (front ++ rest).dropWhile p = rest := by
  induction front with
  | nil =>
    cases rest with
    | nil => exact ⟨rfl, rfl⟩
    | cons c rest =>
      have hc := hrest c rfl
      simp [hc]
  | cons c front ih =>
    obtain ⟨h1, h2⟩ := ih (fun d hd => hfront d (List.mem_cons_of_mem _ hd))
    have hc := hfront c List.mem_cons_self
    simp only [List.cons_append, List.takeWhile_cons, List.dropWhile_cons, hc, if_true, h1, h2,
      and_self]

omit [BEq α] [LawfulBEq α] in
theorem dropWhile_eq_self {p : α → Bool} {s : List α} (h : ∀ c ∈ s, p c = false) :
    s.dropWhile p = s := by
  cases s with
  | nil => rfl
  | cons c s => rw [List.dropWhile_cons, h c List.mem_cons_self, if_neg Bool.false_ne_true]

omit [BEq α] [LawfulBEq α] in
theorem rdropWhile_eq_self {p : α → Bool} {s : List α} (h : ∀ c ∈ s, p c = false) :
    s.rdropWhile p = s := by
  have hreverse : s.reverse.dropWhile p = s.reverse := by
    apply dropWhile_eq_self
    intro c hc
    exact h c (List.mem_reverse.1 hc)
  rw [List.rdropWhile, hreverse, List.reverse_reverse]

end JsrProxy.Segments
