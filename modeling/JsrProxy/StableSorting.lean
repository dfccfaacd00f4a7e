import JsrProxy.OrderedMap

set_option autoImplicit false

/-!
# Stable sorting by a key

Insertion sort keeps the elements of one key in their order, so two lists that
have the same elements for every key, in the same order, sort to the same list.
-/
namespace JsrProxy.StableSorting

variable {α κ : Type} [DecidableEq κ]

def keyed (key : α → κ) (k : κ) (l : List α) : List α := l.filter fun x => key x = k

section Keyed

variable {key : α → κ} {k : κ}

theorem mem_keyed {l : List α} {x : α} : x ∈ keyed key k l ↔ x ∈ l ∧ key x = k := by
  simp [keyed]

theorem keyed_append (l m : List α) : keyed key k (l ++ m) = keyed key k l ++ keyed key k m :=
  List.filter_append _ _

theorem keyed_cons_self (x : α) (l : List α) : keyed key (key x) (x :: l) = x :: keyed key (key x) l := by
  simp [keyed]

theorem keyed_cons_of_ne {x : α} (l : List α) (h : key x ≠ k) : keyed key k (x :: l) = keyed key k l := by
  simp [keyed, h]

theorem keyed_keyed (l : List α) : keyed key k (keyed key k l) = keyed key k l := by
  simp [keyed]

theorem keyed_flatMap {β : Type} (f : β → List α) (bs : List β) :
    keyed key k (bs.flatMap f) = bs.flatMap fun b => keyed key k (f b) := by
  induction bs with
  | nil => rfl
  | cons b bs ih => rw [List.flatMap_cons, keyed_append, ih, List.flatMap_cons]

end Keyed

variable {key : α → κ} {le : κ → κ → Bool}

/-- Sorting leaves the elements of one key in their order. -/
theorem keyed_insertionSort (hrefl : ∀ k, le k k = true) (k : κ) (l : List α) :
    keyed key k (l.insertionSort fun x y => le (key x) (key y)) = keyed key k l := by
  have hsame : (keyed key k l).Pairwise fun x y => le (key x) (key y) = true := by
    apply List.pairwise_of_forall_mem_list
    intro x hx y hy
    rw [(mem_keyed.1 hx).2, (mem_keyed.1 hy).2]
    exact hrefl k
  have hsub := List.sublist_insertionSort hsame List.filter_sublist
  have hkeyed : (keyed key k l).Sublist
      (keyed key k (l.insertionSort fun x y => le (key x) (key y))) := by
    have h := hsub.filter fun x => decide (key x = k)
    rwa [show (keyed key k l).filter (fun x => decide (key x = k)) = keyed key k l from keyed_keyed l] at h
  have hperm := (List.perm_insertionSort (fun x y => le (key x) (key y) = true) l).filter
    fun x => decide (key x = k)
  exact (hkeyed.eq_of_length hperm.length_eq.symm).symm

theorem mem_iff_of_keyed {l m : List α} (h : ∀ k, keyed key k l = keyed key k m) (x : α) :
    x ∈ l ↔ x ∈ m := by
  have hx := congrArg (x ∈ ·) (h (key x))
  simpa [mem_keyed] using hx

/-- A sorted list is determined by the elements it has for each key. -/
theorem eq_of_keyed (hanti : ∀ j k, le j k = true → le k j = true → j = k)
    (hrefl : ∀ k, le k k = true) {l m : List α}
    (hl : l.Pairwise fun x y => le (key x) (key y) = true)
    (hm : m.Pairwise fun x y => le (key x) (key y) = true)
    (h : ∀ k, keyed key k l = keyed key k m) : l = m := by
  have hmem := mem_iff_of_keyed h
  induction l generalizing m with
  | nil =>
    cases m with
    | nil => rfl
    | cons y m => exact absurd ((hmem y).2 List.mem_cons_self) List.not_mem_nil
  | cons x l ih =>
    cases m with
    | nil => exact absurd ((hmem x).1 List.mem_cons_self) List.not_mem_nil
    | cons y m =>
      obtain ⟨hx, hl'⟩ := List.pairwise_cons.1 hl
      obtain ⟨hy, hm'⟩ := List.pairwise_cons.1 hm
      have hleast : ∀ {a b : α} {s : List α}, (∀ c ∈ s, le (key a) (key c) = true) →
          b ∈ a :: s → le (key a) (key b) = true := by
        intro a b s hs hb
        rcases List.mem_cons.1 hb with rfl | hb
        · exact hrefl _
        · exact hs b hb
      have hkey : key x = key y := hanti _ _
        (hleast hx ((hmem y).2 List.mem_cons_self)) (hleast hy ((hmem x).1 List.mem_cons_self))
      have hheads := h (key x)
      rw [keyed_cons_self, hkey, keyed_cons_self] at hheads
      have hxy : x = y := (List.cons.inj hheads).1
      have htails : ∀ k, keyed key k l = keyed key k m := by
        intro k
        have hk := h k
        rw [hxy] at hk
        by_cases hy : key y = k
        · subst hy
          rw [keyed_cons_self, keyed_cons_self] at hk
          exact (List.cons.inj hk).2
        · rwa [keyed_cons_of_ne l hy, keyed_cons_of_ne m hy] at hk
      rw [hxy, ih hl' hm' htails (mem_iff_of_keyed htails)]

/-- Two lists with the same elements for every key, in the same order, sort alike. -/
theorem insertionSort_eq (htotal : ∀ j k, le j k = true ∨ le k j = true)
    (htrans : ∀ i j k, le i j = true → le j k = true → le i k = true)
    (hanti : ∀ j k, le j k = true → le k j = true → j = k) {l m : List α}
    (h : ∀ k, keyed key k l = keyed key k m) :
    (l.insertionSort fun x y => le (key x) (key y)) = m.insertionSort fun x y => le (key x) (key y) := by
  have hrefl : ∀ k, le k k = true := fun k => (htotal k k).elim id id
  have : @Std.Total α fun x y => le (key x) (key y) = true := ⟨fun x y => htotal _ _⟩
  have : IsTrans α fun x y => le (key x) (key y) = true := ⟨fun _ _ _ => htrans _ _ _⟩
  apply eq_of_keyed hanti hrefl
  · exact List.pairwise_insertionSort _ l
  · exact List.pairwise_insertionSort _ m
  · intro k
    rw [keyed_insertionSort hrefl, keyed_insertionSort hrefl, h]

end JsrProxy.StableSorting
