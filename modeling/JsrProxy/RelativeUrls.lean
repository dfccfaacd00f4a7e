import JsrProxy.UrlPaths

set_option autoImplicit false

/-!
# Relative references

A reference that starts with no slash, resolved against the path of a `file` URL
without drive letters.
-/
namespace JsrProxy.UrlPath

def filePath (text : Str) : List Str :=
  pushSegments [] (((pathPart text).splitOn '/').map (percentEncode inPathSet))

/-- A relative reference replaces the last segment of its base. -/
def resolve (base : List Str) (reference : Str) : List Str :=
  pushSegments base.dropLast (((pathPart reference).splitOn '/').map (percentEncode inPathSet))

theorem plainSegment_nil : PlainSegment [] where
  plain _ hc := by cases hc
  notSingleDot := by decide
  notDoubleDot := by decide

theorem isPlain_dots (count : ℕ) : ∀ c ∈ List.replicate count '.', isPlain c = true := by
  intro c hc
  rw [List.eq_of_mem_replicate hc]
  decide

theorem pushSegments_dot (path : List Str) {segments : List Str} (hne : segments ≠ []) :
    pushSegments path (".".toList :: segments) = pushSegments path segments := by
  obtain ⟨s, rest, rfl⟩ := List.exists_cons_of_ne_nil hne
  rfl

theorem pushSegments_dots (path : List Str) {segments : List Str} (hne : segments ≠ []) :
    pushSegments path ("..".toList :: segments) = pushSegments path.dropLast segments := by
  obtain ⟨s, rest, rfl⟩ := List.exists_cons_of_ne_nil hne
  rfl

theorem pushSegments_ups (path : List Str) (count : ℕ) {segments : List Str} (hne : segments ≠ []) :
    pushSegments path (List.replicate count "..".toList ++ segments) =
      pushSegments (path.take (path.length - count)) segments := by
  induction count generalizing path with
  | zero => rw [List.replicate_zero, List.nil_append, Nat.sub_zero, List.take_length]
  | succ count ih =>
    have hrest : List.replicate count "..".toList ++ segments ≠ [] := by simp [hne]
    rw [List.replicate_succ, List.cons_append, pushSegments_dots path hrest, ih, List.dropLast_eq_take,
      List.take_take, List.length_take]
    congr 2
    omega

theorem split_pathPart {segments : List Str} (hne : segments ≠ [])
    (h : ∀ s ∈ segments, ∀ c ∈ s, isPlain c = true) :
    (pathPart (['/'].intercalate segments)).splitOn '/' = segments := by
  have hfree : ∀ s ∈ segments, '/' ∉ s := by
    intro s hs hc
    exact (isPlain_iff.1 (h s hs '/' hc)).2.1 rfl
  have hsplit := List.splitOn_intercalate '/' hfree hne
  rw [pathPart_eq_self, hsplit]
  intro c hc
  rcases Segments.mem_splitOn '/' hc with rfl | ⟨s, hs, hmem⟩
  · exact .inl rfl
  · rw [hsplit] at hs
    exact .inr (h s hs c hmem)

theorem filePath_plain {segments : List Str} (hne : segments ≠ []) (h : ∀ s ∈ segments, PlainSegment s) :
    filePath (['/'].intercalate segments) = segments.map (percentEncode inPathSet) := by
  rw [filePath, split_pathPart hne fun s hs => (h s hs).plain, pushSegments_plain [] h, List.nil_append]

theorem resolve_dot (base : List Str) {segments : List Str} (hne : segments ≠ [])
    (h : ∀ s ∈ segments, PlainSegment s) :
    resolve base (['/'].intercalate (".".toList :: segments)) =
      base.dropLast ++ segments.map (percentEncode inPathSet) := by
  have hplain : ∀ s ∈ ".".toList :: segments, ∀ c ∈ s, isPlain c = true := by
    intro s hs
    rcases List.mem_cons.1 hs with rfl | hs
    · exact isPlain_dots 1
    · exact (h s hs).plain
  have hmap : segments.map (percentEncode inPathSet) ≠ [] := by simpa using hne
  rw [resolve, split_pathPart (List.cons_ne_nil _ _) hplain, List.map_cons,
    show percentEncode inPathSet ".".toList = ".".toList by decide, pushSegments_dot _ hmap,
    pushSegments_plain _ h]

theorem resolve_ups (base : List Str) (count : ℕ) {segments : List Str} (hne : segments ≠ [])
    (h : ∀ s ∈ segments, PlainSegment s) :
    resolve base (['/'].intercalate (List.replicate count "..".toList ++ segments)) =
      base.dropLast.take (base.dropLast.length - count) ++ segments.map (percentEncode inPathSet) := by
  have hplain : ∀ s ∈ List.replicate count "..".toList ++ segments, ∀ c ∈ s, isPlain c = true := by
    intro s hs
    rcases List.mem_append.1 hs with hs | hs
    · rw [List.eq_of_mem_replicate hs]
      exact isPlain_dots 2
    · exact (h s hs).plain
  have hmap : segments.map (percentEncode inPathSet) ≠ [] := by simpa using hne
  rw [resolve, split_pathPart (by simp [hne]) hplain, List.map_append, List.map_replicate,
    show percentEncode inPathSet "..".toList = "..".toList by decide, pushSegments_ups _ _ hmap,
    pushSegments_plain _ h]

end JsrProxy.UrlPath
