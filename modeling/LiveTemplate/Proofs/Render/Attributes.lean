import Mathlib.Data.List.Induction
import LiveTemplate.Proofs.Dom.Tree
import LiveTemplate.Proofs.Meaning.Attributions
import LiveTemplate.Proofs.Render.Inspection
import LiveTemplate.Render.Refresh

/-!
How attributes are kept up to date. Each statement that writes an attribute is brought up to date on its
own, and writes when its value has changed. So an attribute with one writer follows it. Among several it
is the last one that changed that counts, and not the last one of the template.
-/

namespace LiveTemplate

open Effects

/-! Attributes of an element -/

namespace Attribute

variable {name other : String} {space within : Option String} {attributes : List Attribute}

def find? (name : String) (space : Option String) (attributes : List Attribute) : Option String :=
  (attributes.find? fun found => found.name = name ∧ found.space = space).map Attribute.value

theorem find?_put (fresh : Attribute) : find? name space (Dom.putAttribute fresh attributes) =
    if fresh.name = name ∧ fresh.space = space then some fresh.value
    else find? name space attributes := by
  unfold find?
  induction attributes with
  | nil => by_cases here : fresh.name = name ∧ fresh.space = space <;> simp [Dom.putAttribute, here]
  | cons old rest ih =>
    unfold Dom.putAttribute
    split
    · rename_i same
      obtain ⟨named, spaced⟩ := same
      by_cases here : fresh.name = name ∧ fresh.space = space <;>
        simp [named, spaced, here]
    · by_cases first : old.name = name ∧ old.space = space
      · rename_i apart
        have elsewhere : ¬(fresh.name = name ∧ fresh.space = space) := fun here =>
          apart ⟨first.1.trans here.1.symm, first.2.trans here.2.symm⟩
        simp [first, elsewhere]
      · simp only [List.find?_cons, first, decide_false]
        exact ih

theorem find?_remove : find? name space
      (attributes.filter fun found => ¬(found.name = other ∧ found.space = within)) =
    if other = name ∧ within = space then none else find? name space attributes := by
  unfold find?
  induction attributes with
  | nil => simp
  | cons old rest ih =>
    by_cases removed : old.name = other ∧ old.space = within
    · rw [List.filter_cons_of_neg (by simpa using removed), ih]
      split
      · rfl
      · rename_i apart
        have elsewhere : ¬(old.name = name ∧ old.space = space) := fun here =>
          apart ⟨removed.1.symm.trans here.1, removed.2.symm.trans here.2⟩
        simp only [List.find?_cons, elsewhere, decide_false]
    · rw [List.filter_cons, if_pos (decide_eq_true removed), List.find?_cons, List.find?_cons]
      by_cases here : old.name = name ∧ old.space = space
      · have apart : ¬(other = name ∧ within = space) := fun same =>
          removed ⟨here.1.trans same.1.symm, here.2.trans same.2.symm⟩
        simp [here, apart]
      · simp only [here, decide_false]
        exact ih

/-- The attribute that a value is written to is the one that it gives, and the others stay. -/
theorem find?_decorate (value : Value) :
    find? name space (decorate other within value attributes) =
      if other = name ∧ within = space then value.attribute? else find? name space attributes := by
  cases value with
  | undefined => exact find?_remove
  | null => exact find?_remove
  | bool holds =>
    cases holds with
    | false => exact find?_remove
    | true => exact find?_put _
  | _ => exact find?_put _

/-- The last word on an attribute is what an element has of it. -/
theorem find?_attributes (said : List Attribution) :
    find? name space (Attribution.attributes said) =
      Attribution.lastWord ⟨name, space, none⟩ said := by
  induction said using List.reverseRecOn with
  | nil => rfl
  | append_singleton said latest ih =>
    rw [Attribution.attributes_concat, Attribution.lastWord_concat, ← ih]
    unfold Attribution.carryOut
    cases latest.content with
    | none => exact find?_remove
    | some content => exact find?_put _

/-- To write the text of a value is as good as to write the value, unless it is missing or one of the
truth values, whose text is not what an attribute shows for them. -/
theorem put_content_iff {value : Value} :
    (∀ attributes, Dom.putAttribute ⟨name, value.content, space⟩ attributes =
      decorate name space value attributes) ↔
        value.nullish = false ∧ ∀ holds, value ≠ .bool holds := by
  cases value with
  | undefined => simpa [Value.nullish, decorate] using ⟨[], by simp [Dom.putAttribute]⟩
  | null => simpa [Value.nullish, decorate] using ⟨[], by simp [Dom.putAttribute]⟩
  | bool holds =>
    have apart : toString true ≠ "" := by decide
    cases holds with
    | false => simpa [decorate] using ⟨[], by simp [Dom.putAttribute]⟩
    | true => simpa [decorate] using ⟨[], by simp [Dom.putAttribute, Value.content, apart]⟩
  | _ => simp [Value.nullish, decorate]

end Attribute

/-- The attributes of an element. -/
def Dom.attributes? (dom : Dom) (id : NodeId) : Option (List Attribute) :=
  match (dom.nodes[id]?).map Node.data with
  | some (.element _ attributes) => some attributes
  | _ => none

theorem Dom.attributes?_eq_some {dom : Dom} {id : NodeId} {attributes : List Attribute} :
    dom.attributes? id = some attributes ↔
      ∃ node tag, dom.nodes[id]? = some node ∧ node.data = .element tag attributes := by
  unfold Dom.attributes?
  cases dom.nodes[id]? with
  | none => simp
  | some node => cases shape : node.data <;> simp [shape]

theorem Dom.attributes?_setData {dom : Dom} {id : NodeId} {node : Node} {tag : String}
    {attributes : List Attribute} (there : dom.nodes[id]? = some node) :
    (dom.setData id node (.element tag attributes)).attributes? id = some attributes := by
  have bound := (Array.getElem?_eq_some_iff.mp there).1
  refine Dom.attributes?_eq_some.mpr ⟨{ node with data := .element tag attributes }, tag, ?_, rfl⟩
  unfold Dom.setData
  dsimp only
  split <;> exact Array.getElem?_setIfInBounds_self_of_lt bound

/-- Writing a value to an attribute of an element changes only the page, and there the attribute. -/
theorem applyAttribute_eq {element : NodeId} {world : World} {attributes : List Attribute}
    (name : String) (space : Option String) (value : Value)
    (there : world.page.dom.attributes? element = some attributes) :
    ∃ dom, applyAttribute element name space value world =
        .ok () { world with page := { world.page with dom } } ∧
      dom.attributes? element = some (Attribute.decorate name space value attributes) := by
  obtain ⟨node, tag, found, data⟩ := Dom.attributes?_eq_some.mp there
  have asked : world.page.dom.node element = .ok node := Dom.node_ok.mpr found
  have put : ∀ content, world.page.dom.setAttribute element ⟨name, content, space⟩ =
      .ok (world.page.dom.setData element node
        (.element tag (Dom.putAttribute ⟨name, content, space⟩ attributes))) := by
    intro content
    unfold Dom.setAttribute
    rw [asked]
    dsimp only [bind, Except.bind]
    rw [data]
    rfl
  have leave : world.page.dom.removeAttribute element name space =
      .ok (world.page.dom.setData element node (.element tag
        (attributes.filter fun other => ¬(other.name = name ∧ other.space = space)))) := by
    unfold Dom.removeAttribute
    rw [asked]
    dsimp only [bind, Except.bind]
    rw [data]
    rfl
  have write : ∀ {outcome : Except Defect Dom} {others : List Attribute},
      outcome = .ok (world.page.dom.setData element node (.element tag others)) →
      ∃ dom, (do Render.setDom (← outcome) : Render Unit) world =
          .ok () { world with page := { world.page with dom } } ∧
        dom.attributes? element = some others := by
    rintro _ others rfl
    exact ⟨_, rfl, Dom.attributes?_setData found⟩
  cases value with
  | undefined => exact write leave
  | null => exact write leave
  | bool holds =>
    cases holds with
    | false => exact write leave
    | true => exact write (put _)
  | _ => exact write (put _)

/-! The writers of an element -/

/-- A statement that writes an attribute, with the value that it last read. -/
structure Writer where
  name : String
  space : Option String
  cache : Cache

namespace Writer

/-- What keeps the attribute up to date. -/
def update (element : NodeId) (writer : Writer) : Update :=
  .attr element writer.name writer.space writer.cache

abbrev Writes (writer : Writer) (name : String) (space : Option String) : Prop :=
  writer.name = name ∧ writer.space = space

/-- What becomes of attributes when some of these writers have written. -/
def written (attributes : List Attribute) (writers : List (Writer × Bool)) : List Attribute :=
  writers.foldl (fun attributes (writer, wrote) =>
    if wrote then Attribute.decorate writer.name writer.space writer.cache.last attributes
    else attributes) attributes

/-- The last of these writers that has written an attribute. -/
def last? (name : String) (space : Option String) (writers : List (Writer × Bool)) : Option Writer :=
  ((writers.filter fun (writer, wrote) => wrote && decide (writer.Writes name space)).map
    Prod.fst).getLast?

/-- An attribute is what its last writer gives, or else what it was. -/
theorem find?_written (name : String) (space : Option String) (writers : List (Writer × Bool))
    (attributes : List Attribute) : Attribute.find? name space (written attributes writers) =
      match last? name space writers with
      | some writer => writer.cache.last.attribute?
      | none => Attribute.find? name space attributes := by
  induction writers using List.reverseRecOn with
  | nil => rfl
  | append_singleton writers latest ih =>
    obtain ⟨writer, wrote⟩ := latest
    unfold written last? at ih ⊢
    rw [List.foldl_append, List.filter_append, List.map_append, List.foldl_cons, List.foldl_nil]
    cases wrote with
    | false => simpa using ih
    | true =>
      dsimp only
      rw [if_pos rfl, Attribute.find?_decorate]
      by_cases here : writer.Writes name space
      · simp [here]
      · simpa [here] using ih

/-- An attribute that none of these writers writes stays. -/
theorem find?_unwritten {name : String} {space : Option String} {writers : List (Writer × Bool)}
    {attributes : List Attribute} (others : ∀ writer ∈ writers, ¬writer.1.Writes name space) :
    Attribute.find? name space (written attributes writers) =
      Attribute.find? name space attributes := by
  have none : last? name space writers = none := by
    rw [last?, List.getLast?_eq_none_iff, List.map_eq_nil_iff, List.filter_eq_nil_iff]
    exact fun writer member => by simp [others writer member]
  rw [find?_written, none]

/-- What some writers are afterwards, and whether they have written. -/
structure Revised (writer : Writer) (revised : Writer × Bool) : Prop where
  name : revised.1.name = writer.name
  space : revised.1.space = writer.space
  same : revised.2 = false → revised.1.cache.last = writer.cache.last

theorem revised_others {name : String} {space : Option String} {writers : List Writer}
    {revised : List (Writer × Bool)} (all : List.Forall₂ Revised writers revised)
    (others : ∀ writer ∈ writers, ¬writer.Writes name space) :
    ∀ writer ∈ revised, ¬writer.1.Writes name space := by
  induction all with
  | nil => exact nofun
  | cons one all ih =>
    obtain ⟨other, others⟩ := List.forall_mem_cons.mp others
    refine List.forall_mem_cons.mpr ⟨fun writes => other ?_, ih others⟩
    exact ⟨one.name.symm.trans writes.1, one.space.symm.trans writes.2⟩

/-- The element has the attribute that the writer gives. -/
def ShownIn (writer : Writer) (attributes : List Attribute) : Prop :=
  Attribute.find? writer.name writer.space attributes = writer.cache.last.attribute?

/-- No two of these write the same attribute. -/
abbrev Sole (writers : List Writer) : Prop :=
  writers.Pairwise fun writer other => ¬other.Writes writer.name writer.space

/-- Each writer that is alone with its attribute has it as it should be, if it was so before. -/
theorem shownIn_written {writers : List Writer} {revised : List (Writer × Bool)}
    {attributes : List Attribute} (sole : Sole writers)
    (shown : ∀ writer ∈ writers, writer.ShownIn attributes)
    (all : List.Forall₂ Revised writers revised) :
    ∀ writer ∈ revised, writer.1.ShownIn (written attributes revised) := by
  induction all generalizing attributes with
  | nil => exact nofun
  | @cons writer first writers rest one all ih =>
    obtain ⟨alone, sole⟩ := List.pairwise_cons.mp sole
    obtain ⟨here, shown⟩ := List.forall_mem_cons.mp shown
    obtain ⟨first, wrote⟩ := first
    let between := written attributes [(first, wrote)]
    have shownFirst : first.ShownIn between := by
      unfold ShownIn
      cases wrote with
      | true => exact (Attribute.find?_decorate _).trans (if_pos ⟨rfl, rfl⟩)
      | false =>
        have still := one.same rfl
        dsimp only at still
        rw [one.name, one.space, still]
        exact here
    have shownRest : ∀ other ∈ writers, other.ShownIn between := by
      intro other member
      have apart : ∀ writer ∈ [(first, wrote)], ¬writer.1.Writes other.name other.space := by
        refine List.forall_mem_singleton.mpr fun writes => alone other member ?_
        exact ⟨writes.1.symm.trans one.name, writes.2.symm.trans one.space⟩
      exact (find?_unwritten apart).trans (shown other member)
    have unwritten : ∀ other ∈ rest, ¬other.1.Writes first.name first.space :=
      revised_others all fun other member writes => alone other member
        ⟨writes.1.trans one.name, writes.2.trans one.space⟩
    exact List.forall_mem_cons.mpr
      ⟨(find?_unwritten unwritten).trans shownFirst, ih sole shownRest⟩

end Writer

namespace Cache

/-- A cache that reports no change keeps its value, and one that reports a value holds it. -/
theorem revalidate_ok {helpers : Helpers} {cache cache' : Cache} {changed : Option Value}
    {store after : Store} (ended : cache.revalidate helpers store = .ok (cache', changed) after) :
    cache'.last = changed.getD cache.last := by
  obtain ⟨tag, _, -, ended⟩ := bind_ok.mp ended
  obtain ⟨valid, _, -, ended⟩ := bind_ok.mp ended
  split at ended
  · cases ended
    rfl
  · obtain ⟨revision, _, -, ended⟩ := bind_ok.mp ended
    obtain ⟨value, _, -, ended⟩ := bind_ok.mp ended
    split at ended
    · cases ended
      rfl
    · cases ended
      rfl

end Cache

namespace Refresh

variable {scene : Scene} {always : Bool} {depth : Nat} {element : NodeId} {world after : World}
  {attributes : List Attribute}

/-- A writer that is brought up to date writes if, and only if, it has read another value. -/
theorem update_writer {writer : Writer} {update : Update}
    (there : world.page.dom.attributes? element = some attributes)
    (ended : Refresh.update scene always (depth + 1) (writer.update element) world =
      .ok (update, .current) after) :
    ∃ revised, update = revised.1.update element ∧ writer.Revised revised ∧
      after.page.dom.attributes? element = some (Writer.written attributes [revised]) := by
  obtain ⟨outcome, between, tried, ended⟩ := bind_ok.mp ended
  cases outcome with
  | error error => cases ended
  | ok carried =>
    obtain ⟨updated, stale⟩ := carried
    obtain ⟨revised, read, asked, done⟩ := bind_ok.mp (Render.attempt_ok tried)
    obtain ⟨cache, changed⟩ := revised
    obtain ⟨store, read, rfl⟩ := Render.reading_ok.mp asked
    have last := Cache.revalidate_ok read
    cases changed with
    | none =>
      cases done
      cases ended
      exact ⟨({ writer with cache }, false), rfl, ⟨rfl, rfl, fun _ => last⟩, there⟩
    | some value =>
      obtain ⟨_, written, applied, done⟩ := bind_ok.mp done
      let between : World := { world with page := { world.page with store } }
      have same : between.page.dom.attributes? element = some attributes := there
      obtain ⟨dom, applies, decorated⟩ := applyAttribute_eq writer.name writer.space value same
      cases applies.symm.trans applied
      cases done
      cases ended
      obtain rfl : cache.last = value := last
      exact ⟨({ writer with cache }, true), rfl, ⟨rfl, rfl, nofun⟩, decorated⟩

/-- A pass over the writers of an element leaves each of its attributes as the last of them that wrote it
gives it. Those that have not read another value have not written. -/
theorem goThrough_writers {writers : List Writer} {updates : List Update}
    (there : world.page.dom.attributes? element = some attributes)
    (ended : Region.goThrough (Refresh.update scene always (depth + 1))
      (writers.map (Writer.update element)) world = .ok (updates, .current) after) :
    ∃ revised, updates = revised.map (fun writer => writer.1.update element) ∧
      List.Forall₂ Writer.Revised writers revised ∧
      after.page.dom.attributes? element = some (Writer.written attributes revised) := by
  induction writers generalizing world attributes updates with
  | nil =>
    cases ended
    exact ⟨[], rfl, .nil, there⟩
  | cons writer writers ih =>
    obtain ⟨first, between, brought, ended⟩ := bind_ok.mp ended
    obtain ⟨update, outcome⟩ := first
    cases outcome with
    | current =>
      obtain ⟨head, rfl, one, there⟩ := update_writer there brought
      obtain ⟨⟨rest, outcome⟩, _, went, ended⟩ := bind_ok.mp ended
      cases ended
      obtain ⟨tail, same, all, there⟩ := ih there went
      exact ⟨head :: tail, congrArg (_ :: ·) same, .cons one all, there⟩
    | _ => cases ended

/-- After a pass each attribute of an element with one writer is what its writer gives, if it was so
before. -/
theorem goThrough_sole_writers {writers : List Writer} {updates : List Update}
    (sole : Writer.Sole writers)
    (there : world.page.dom.attributes? element = some attributes)
    (shown : ∀ writer ∈ writers, writer.ShownIn attributes)
    (ended : Region.goThrough (Refresh.update scene always (depth + 1))
      (writers.map (Writer.update element)) world = .ok (updates, .current) after) :
    ∃ revised : List Writer, ∃ fresh, updates = revised.map (Writer.update element) ∧
      after.page.dom.attributes? element = some fresh ∧
      ∀ writer ∈ revised, writer.ShownIn fresh := by
  obtain ⟨revised, same, all, fresh⟩ := goThrough_writers there ended
  have right := Writer.shownIn_written sole shown all
  refine ⟨revised.map Prod.fst, _, ?_, fresh, List.forall_mem_map.mpr right⟩
  rw [same, List.map_map]
  rfl

end Refresh

end LiveTemplate
