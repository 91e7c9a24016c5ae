import LiveTemplate.Program.Pool

/-!
Constants stay where they are. A pool only grows at its ends, so a handle that is valid once is valid
for good and stands for the same constant.
-/

namespace LiveTemplate

namespace Pool

theorem find_ok {α : Type} {kind : String} {items : Array α} {handle : Handle} {item : α} :
    find kind items handle = .ok item ↔ 0 < handle ∧ items[handle - 1]? = some item := by
  unfold find
  by_cases zero : handle = 0
  · simp [zero]
  · rw [if_neg zero]
    cases found : items[handle - 1]? with
    | none => simp
    | some other => simp [Nat.pos_of_ne_zero zero]

/-- The second array continues the first. -/
def Continues {α : Type} (before after : Array α) : Prop := before.toList <+: after.toList

namespace Continues

variable {α : Type} {first second third : Array α}

theorem refl (items : Array α) : Continues items items := List.prefix_refl _

theorem trans (early : Continues first second) (late : Continues second third) :
    Continues first third :=
  List.IsPrefix.trans early late

theorem push (items : Array α) (item : α) : Continues items (items.push item) := by
  unfold Continues
  rw [Array.toList_push]
  exact List.prefix_append _ _

theorem size (continues : Continues first second) : first.size ≤ second.size := by
  have lengths := List.IsPrefix.length_le continues
  rwa [Array.length_toList, Array.length_toList] at lengths

theorem getElem? (continues : Continues first second) {place : Nat} {item : α}
    (found : first[place]? = some item) : second[place]? = some item := by
  have bound := (Array.getElem?_eq_some_iff.mp found).1
  rw [← Array.getElem?_toList] at found ⊢
  rw [← found]
  exact (List.prefix_iff_getElem?.mp continues place (by simpa using bound)).trans
    (List.getElem?_eq_getElem (by simpa using bound)).symm

theorem find (continues : Continues first second) {kind : String} {handle : Handle} {item : α}
    (found : Pool.find kind first handle = .ok item) :
    Pool.find kind second handle = .ok item := by
  rw [find_ok] at found ⊢
  exact ⟨found.1, continues.getElem? found.2⟩

end Continues

/-- No constant is lost or replaced. -/
structure Grows (before after : Pool) : Prop where
  strings : Continues before.strings after.strings
  arrays : Continues before.arrays after.arrays
  functions : Continues before.functions after.functions
  values : Continues before.values after.values
  slices : Continues before.slices after.slices

namespace Grows

variable {first second third : Pool}

theorem refl (pool : Pool) : pool.Grows pool :=
  ⟨.refl _, .refl _, .refl _, .refl _, .refl _⟩

theorem trans (early : first.Grows second) (late : second.Grows third) : first.Grows third where
  strings := early.strings.trans late.strings
  arrays := early.arrays.trans late.arrays
  functions := early.functions.trans late.functions
  values := early.values.trans late.values
  slices := early.slices.trans late.slices

theorem string (grows : first.Grows second) {handle : Handle} {content : String}
    (found : first.string handle = .ok content) : second.string handle = .ok content :=
  grows.strings.find found

theorem array (grows : first.Grows second) {handle : Handle} {items : List Nat}
    (found : first.array handle = .ok items) : second.array handle = .ok items :=
  grows.arrays.find found

theorem function (grows : first.Grows second) {handle : Handle} {kind : TestKind}
    (found : first.function handle = .ok kind) : second.function handle = .ok kind :=
  grows.functions.find found

theorem value (grows : first.Grows second) {handle : Handle} {value : Value}
    (found : first.value handle = .ok value) : second.value handle = .ok value :=
  grows.values.find found

theorem slice (grows : first.Grows second) {handle : Handle} {slice : Slice}
    (found : first.slice handle = .ok slice) : second.slice handle = .ok slice :=
  grows.slices.find found

end Grows

/-! Adding constants -/

theorem getElem?_of_idxOf? {α : Type} [BEq α] [LawfulBEq α] {items : Array α} {item : α}
    {position : Nat} (found : items.idxOf? item = some position) :
    items[position]? = some item := by
  obtain ⟨list⟩ := items
  rw [List.idxOf?_toArray, List.idxOf?_eq_some_iff] at found
  obtain ⟨bound, same, -⟩ := found
  simpa using List.getElem?_eq_some_iff.mpr ⟨bound, same⟩

theorem find_push {α : Type} (kind : String) (items : Array α) (item : α) :
    find kind (items.push item) (items.size + 1) = .ok item := by
  rw [find_ok]
  simp

theorem intern_grows (pool : Pool) (content : String) : pool.Grows (pool.intern content).2 := by
  unfold intern
  split
  · exact .refl _
  · exact ⟨.push _ _, .refl _, .refl _, .refl _, .refl _⟩

theorem intern_string (pool : Pool) (content : String) :
    (pool.intern content).2.string (pool.intern content).1 = .ok content := by
  unfold intern
  split
  · rename_i position found
    rw [string, find_ok]
    exact ⟨Nat.succ_pos _, getElem?_of_idxOf? found⟩
  · exact find_push _ _ _

theorem addArray_grows (pool : Pool) (items : List Nat) : pool.Grows (pool.addArray items).2 :=
  ⟨.refl _, .push _ _, .refl _, .refl _, .refl _⟩

theorem addArray_array (pool : Pool) (items : List Nat) :
    (pool.addArray items).2.array (pool.addArray items).1 = .ok items :=
  find_push _ _ _

theorem internAll_grows (pool : Pool) (contents : List String) :
    pool.Grows (pool.internAll contents).2 := by
  induction contents generalizing pool with
  | nil => exact .refl _
  | cons content rest ih => exact (pool.intern_grows content).trans (ih _)

theorem internAll_strings (pool : Pool) (contents : List String) :
    (pool.internAll contents).1.mapM (pool.internAll contents).2.string = .ok contents := by
  induction contents generalizing pool with
  | nil => rfl
  | cons content rest ih =>
    have first := (internAll_grows (pool.intern content).2 rest).string
      (pool.intern_string content)
    have others := ih (pool.intern content).2
    simp only [internAll, List.mapM_cons]
    rw [first, others]
    rfl

theorem addStrings_grows (pool : Pool) (contents : List String) :
    pool.Grows (pool.addStrings contents).2 :=
  (pool.internAll_grows contents).trans (addArray_grows _ _)

theorem addStrings_stringArray (pool : Pool) (contents : List String) :
    (pool.addStrings contents).2.stringArray (pool.addStrings contents).1 = .ok contents := by
  have array := addArray_array (pool.internAll contents).2 (pool.internAll contents).1
  have strings := pool.internAll_strings contents
  have nonzero : ((pool.internAll contents).2.addArray (pool.internAll contents).1).1 ≠ 0 :=
    Nat.succ_ne_zero _
  unfold stringArray addStrings
  simp only [if_neg nonzero, array]
  exact strings

theorem addFunction_grows (pool : Pool) (kind : TestKind) :
    pool.Grows (pool.addFunction kind).2 := by
  unfold addFunction
  split
  · exact .refl _
  · exact ⟨.refl _, .refl _, .push _ _, .refl _, .refl _⟩

theorem addFunction_function (pool : Pool) (kind : TestKind) :
    (pool.addFunction kind).2.function (pool.addFunction kind).1 = .ok kind := by
  unfold addFunction
  split
  · rename_i position found
    rw [function, find_ok]
    exact ⟨Nat.succ_pos _, getElem?_of_idxOf? found⟩
  · exact find_push _ _ _

theorem addValue_grows (pool : Pool) (value : Value) : pool.Grows (pool.addValue value).2 :=
  ⟨.refl _, .refl _, .refl _, .push _ _, .refl _⟩

theorem addValue_value (pool : Pool) (value : Value) :
    (pool.addValue value).2.value (pool.addValue value).1 = .ok value :=
  find_push _ _ _

theorem addSlice_grows (pool : Pool) (slice : Slice) : pool.Grows (pool.addSlice slice).2 :=
  ⟨.refl _, .refl _, .refl _, .refl _, .push _ _⟩

theorem addSlice_slice (pool : Pool) (slice : Slice) :
    (pool.addSlice slice).2.slice (pool.addSlice slice).1 = .ok slice :=
  find_push _ _ _

theorem Grows.mapM_string {first second : Pool} (grows : first.Grows second) {handles : List Handle}
    {contents : List String} (found : handles.mapM first.string = .ok contents) :
    handles.mapM second.string = .ok contents := by
  induction handles generalizing contents with
  | nil => exact found
  | cons handle handles ih =>
    rw [List.mapM_cons] at found ⊢
    cases here : first.string handle with
    | error defect =>
      rw [here] at found
      cases found
    | ok content =>
      rw [here] at found
      rw [grows.string here]
      cases rest : handles.mapM first.string with
      | error defect =>
        simp only [rest] at found
        cases found
      | ok others =>
        simp only [rest] at found
        rw [ih rest]
        exact found

/-- A string array stays one, whatever is added. -/
theorem Grows.stringArray {first second : Pool} (grows : first.Grows second) {handle : Handle}
    {contents : List String} (found : first.stringArray handle = .ok contents) :
    second.stringArray handle = .ok contents := by
  unfold Pool.stringArray at found ⊢
  by_cases zero : handle = 0
  · simpa [zero] using found
  · simp only [if_neg zero] at found ⊢
    cases held : first.array handle with
    | error defect =>
      rw [held] at found
      cases found
    | ok handles =>
      rw [held] at found
      rw [grows.array held]
      exact mapM_string grows found

end Pool

end LiveTemplate
