import LiveTemplate.Dom.Extent
import LiveTemplate.Program.Basic
import LiveTemplate.Program.Pool
import LiveTemplate.Program.Symbols

/-!
How look-ups may fail. Almost all of them end with a defect that only says that something is not
there. Two defects tell more: that a scope was released, and that an extent is no range of siblings.
Each is reported in one place only.
-/

namespace LiveTemplate

/-- Tells neither of a released scope nor of an extent that is no range of siblings. -/
def Defect.isPlain : Defect → Bool
  | .scopeReleased _ | .notSiblings _ _ => false
  | _ => true

/-- Does not tell of a released scope. -/
def Defect.keepsScopes : Defect → Bool
  | .scopeReleased _ => false
  | _ => true

theorem Defect.keepsScopes_of_isPlain {defect : Defect} (plain : defect.isPlain = true) :
    defect.keepsScopes = true := by
  cases defect <;> first | rfl | cases plain

/-- Ends, if not well, with a defect of some kind. -/
def EndsIn {α : Type} (kind : Defect → Bool) (outcome : Except Defect α) : Prop :=
  ∀ defect, outcome = .error defect → kind defect = true

abbrev PlainlyEnds {α : Type} (outcome : Except Defect α) : Prop := EndsIn Defect.isPlain outcome

namespace EndsIn

variable {α β : Type} {kind : Defect → Bool}

theorem ok (value : α) : EndsIn kind (.ok value) := nofun

theorem error {defect : Defect} (allowed : kind defect = true) :
    EndsIn kind (.error defect : Except Defect α) := by
  rintro _ ⟨⟩
  exact allowed

theorem mono {outcome : Except Defect α} {more : Defect → Bool} (ends : EndsIn kind outcome)
    (weaker : ∀ {defect}, kind defect = true → more defect = true) : EndsIn more outcome :=
  fun defect failed => weaker (ends defect failed)

theorem bind {first : Except Defect α} {next : α → Except Defect β} (early : EndsIn kind first)
    (late : ∀ value, EndsIn kind (next value)) : EndsIn kind (first >>= next) := by
  intro defect ended
  cases first with
  | ok value => exact late value defect ended
  | error other =>
    cases ended
    exact early _ rfl

theorem mapM {action : α → Except Defect β} (each : ∀ item, EndsIn kind (action item))
    (items : List α) : EndsIn kind (items.mapM action) := by
  induction items with
  | nil => exact ok _
  | cons item rest ih =>
    rw [List.mapM_cons]
    exact bind (each item) fun _ => bind ih fun _ => ok _

theorem foldlM {action : β → α → Except Defect β}
    (each : ∀ state item, EndsIn kind (action state item)) (state : β) (items : List α) :
    EndsIn kind (items.foldlM action state) := by
  induction items generalizing state with
  | nil => exact ok _
  | cons item rest ih =>
    rw [List.foldlM_cons]
    exact bind (each state item) fun state => ih state

end EndsIn

namespace PlainlyEnds

open EndsIn

variable {α : Type}

/-! Constants, blocks and names -/

theorem find {kind : String} {items : Array α} {handle : Handle} :
    PlainlyEnds (Pool.find kind items handle) := by
  unfold Pool.find
  split
  · exact error rfl
  · split
    · exact ok _
    · exact error rfl

theorem string {pool : Pool} {handle : Handle} : PlainlyEnds (pool.string handle) := find

theorem array {pool : Pool} {handle : Handle} : PlainlyEnds (pool.array handle) := find

theorem stringArray {pool : Pool} {handle : Handle} : PlainlyEnds (pool.stringArray handle) := by
  unfold Pool.stringArray
  split
  · exact ok _
  · exact bind array fun _ => mapM (fun _ => string) _

theorem block {pool : BlockPool} {handle : Handle} : PlainlyEnds (pool.block handle) := by
  refine bind find fun found => ?_
  cases found with
  | some block => exact ok _
  | none => exact error rfl

theorem fetch {program : Program} {position : Nat} : PlainlyEnds (program.fetch position) := by
  unfold Program.fetch
  split
  · exact ok _
  · exact error rfl

theorem decode {operand : Nat} : PlainlyEnds (Primitive.decode operand) := by
  unfold Primitive.decode
  dsimp only
  split <;> first | exact ok _ | exact error rfl

theorem view {tables : SymbolTables} {table : TableId} : PlainlyEnds (tables.view table) := by
  have found : ∀ id, PlainlyEnds (tables.table id) := by
    intro id
    unfold SymbolTables.table
    split
    · exact ok _
    · exact error rfl
  exact bind (found table) fun _ => bind (found _) fun _ => ok _

/-! The tree -/

variable {dom : Dom} {id around : NodeId}

theorem node : PlainlyEnds (dom.node id) := by
  unfold Dom.node
  split
  · exact ok _
  · exact error rfl

theorem nextSibling : PlainlyEnds (dom.nextSibling id) := by
  refine bind node fun found => ?_
  split
  · exact ok _
  · exact bind (bind node fun _ => ok _) fun _ => ok _

theorem setAttribute {fresh : Attribute} : PlainlyEnds (dom.setAttribute id fresh) := by
  refine bind node fun found => ?_
  split
  · exact ok _
  · exact error rfl

theorem removeAttribute {name : String} {space : Option String} :
    PlainlyEnds (dom.removeAttribute id name space) := by
  refine bind node fun found => ?_
  split
  · exact ok _
  · exact ok _

theorem detach : PlainlyEnds (dom.detach id) := by
  refine bind node fun found => ?_
  split
  · exact ok _
  · exact bind node fun _ => ok _

theorem insert {before : Option NodeId} : PlainlyEnds (dom.insert around id before) :=
  bind detach fun _ => bind node fun _ => bind node fun _ => ok _

theorem remove : PlainlyEnds (dom.remove around id) := by
  refine bind (bind node fun _ => ok _) fun found => ?_
  split
  · exact bind detach fun _ => ok _
  · exact error rfl

/-! Extents -/

variable {extents : Extents} {place other : ExtentId}

theorem extent : PlainlyEnds (extents.extent place) := by
  unfold Extents.extent
  split
  · exact ok _
  · exact error rfl

theorem parent : PlainlyEnds (extents.parent place) := by
  refine bind PlainlyEnds.extent fun found => ?_
  split <;> exact ok _

theorem isEmpty : PlainlyEnds (extents.isEmpty place) := by
  refine bind PlainlyEnds.extent fun found => ?_
  split <;> exact ok _

theorem append {piece : Piece} : PlainlyEnds (extents.append place piece) := by
  refine bind PlainlyEnds.extent fun found => ?_
  split <;> first | exact ok _ | exact error rfl

theorem takeOver : PlainlyEnds (extents.takeOver place other) := by
  refine bind PlainlyEnds.extent fun found => bind PlainlyEnds.extent fun found' => ?_
  split <;> first | exact ok _ | exact error rfl

theorem setItems {items : List ExtentId} : PlainlyEnds (extents.setItems place items) := by
  refine bind PlainlyEnds.extent fun found => ?_
  split <;> first | exact ok _ | exact error rfl

theorem addItem : PlainlyEnds (extents.addItem place other) := by
  refine bind PlainlyEnds.extent fun found => ?_
  split
  · exact setItems
  · exact error rfl

end PlainlyEnds

namespace Dom

open EndsIn

variable {dom : Dom} {parent first last : NodeId}

theorem span_keepsScopes : EndsIn Defect.keepsScopes (dom.span first last) := by
  have plain : ∀ {α : Type} {outcome : Except Defect α}, PlainlyEnds outcome →
      EndsIn Defect.keepsScopes outcome := fun ends => ends.mono Defect.keepsScopes_of_isPlain
  unfold span
  split
  · exact ok _
  · refine bind (plain (bind PlainlyEnds.node fun _ => ok _)) fun found => ?_
    split
    · refine bind (plain (bind PlainlyEnds.node fun _ => ok _)) fun siblings => ?_
      dsimp only
      split
      · exact ok _
      · exact error rfl
    · refine bind (ok _) fun siblings => ?_
      dsimp only
      split
      · exact ok _
      · exact error rfl

theorem clear_keepsScopes : EndsIn Defect.keepsScopes (dom.clear parent first last) := by
  refine bind (PlainlyEnds.nextSibling.mono Defect.keepsScopes_of_isPlain) fun _ => ?_
  refine bind span_keepsScopes fun nodes => bind ?_ fun _ => ok _
  exact foldlM (fun _ _ => PlainlyEnds.remove.mono Defect.keepsScopes_of_isPlain) _ _

end Dom

end LiveTemplate
