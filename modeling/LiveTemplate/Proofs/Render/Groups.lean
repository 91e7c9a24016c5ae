import LiveTemplate.Proofs.Render.Holdings

/-!
What rendered output watches, and the groups that let it be passed over. Both are listed with all
that is nested in an update: in the members of a group, in a region and in the items of a list.
-/

namespace LiveTemplate

/-- A reading of a tag and the revision that was noted for it. -/
abbrev Watch := Reading Tag × Revision

section Watches

variable (helpers : Helpers)

mutual

/-- What an update and all that is nested in it watches. -/
def Content.watches : Content → List Watch
  | ⟨updates, _, _⟩ => Update.allWatches updates

def Update.watches : Update → List Watch
  | .text _ cache | .raw _ cache | .attr _ _ _ cache | .assert cache =>
    [(cache.tag helpers, cache.revision)]
  | .component component invocation last =>
    [(Update.tag helpers (.component component invocation last), last)]
  | .layout .. => []
  | .modifier _ invocation last => [(invocation.tag helpers, last)]
  | .group _ members => Update.allWatches members
  | .region ⟨_, _, _, content⟩ => content.watches
  | .list ⟨_, _, keyed, last, _, items⟩ => (keyed.tag helpers, last) :: Update.itemWatches items

def Update.allWatches : List Update → List Watch
  | [] => []
  | update :: rest => update.watches ++ Update.allWatches rest

def Update.itemWatches : List (Key × Region) → List Watch
  | [] => []
  | (_, ⟨_, _, _, content⟩) :: rest => content.watches ++ Update.itemWatches rest

end

end Watches

mutual

/-- The groups among updates, however nested, each with its revision and its members. -/
def Content.groups : Content → List (Revision × List Update)
  | ⟨updates, _, _⟩ => Update.allGroups updates

def Update.groups : Update → List (Revision × List Update)
  | .group last members => (last, members) :: Update.allGroups members
  | .region ⟨_, _, _, content⟩ => content.groups
  | .list ⟨_, _, _, _, _, items⟩ => Update.itemGroups items
  | _ => []

def Update.allGroups : List Update → List (Revision × List Update)
  | [] => []
  | update :: rest => update.groups ++ Update.allGroups rest

def Update.itemGroups : List (Key × Region) → List (Revision × List Update)
  | [] => []
  | (_, ⟨_, _, _, content⟩) :: rest => content.groups ++ Update.itemGroups rest

end

section Listed

variable {helpers : Helpers}

theorem Update.mem_allWatches {updates : List Update} {watch : Watch} :
    watch ∈ allWatches helpers updates ↔ ∃ update ∈ updates, watch ∈ update.watches helpers := by
  induction updates with
  | nil => simp [allWatches]
  | cons update rest ih => simp [allWatches, ih]

theorem Update.mem_allGroups {updates : List Update} {group : Revision × List Update} :
    group ∈ allGroups updates ↔ ∃ update ∈ updates, group ∈ update.groups := by
  induction updates with
  | nil => simp [allGroups]
  | cons update rest ih => simp [allGroups, ih]

theorem Content.watches_eq (content : Content) :
    content.watches helpers = Update.allWatches helpers content.updates := by
  obtain ⟨updates, scopes, owned⟩ := content
  rw [Content.watches]

theorem Content.groups_eq (content : Content) :
    content.groups = Update.allGroups content.updates := by
  obtain ⟨updates, scopes, owned⟩ := content
  rw [Content.groups]

/-- The regions of the items of a list. -/
def Update.regions (items : List (Key × Region)) : List Update :=
  items.map fun item => .region item.2

/-! What stands alone -/

theorem Update.allWatches_append (updates rest : List Update) :
    allWatches helpers (updates ++ rest) = allWatches helpers updates ++ allWatches helpers rest := by
  induction updates with
  | nil => rfl
  | cons update updates ih => rw [List.cons_append, allWatches, ih, allWatches, List.append_assoc]

theorem Update.allGroups_append (updates rest : List Update) :
    allGroups (updates ++ rest) = allGroups updates ++ allGroups rest := by
  induction updates with
  | nil => rfl
  | cons update updates ih => rw [List.cons_append, allGroups, ih, allGroups, List.append_assoc]

theorem Update.allWatches_group (last : Revision) (members : List Update) :
    allWatches helpers [.group last members] = allWatches helpers members := by
  rw [allWatches, allWatches, List.append_nil, watches]

theorem Update.allGroups_group (last : Revision) (members : List Update) :
    allGroups [.group last members] = (last, members) :: allGroups members := by
  rw [allGroups, allGroups, List.append_nil, groups]

theorem Update.allWatches_region (region : Region) :
    allWatches helpers [.region region] = allWatches helpers region.content.updates := by
  obtain ⟨slice, captured, extent, content⟩ := region
  rw [allWatches, allWatches, List.append_nil, watches, Content.watches_eq]

theorem Update.allGroups_region (region : Region) :
    allGroups [.region region] = allGroups region.content.updates := by
  obtain ⟨slice, captured, extent, content⟩ := region
  rw [allGroups, allGroups, List.append_nil, groups, Content.groups_eq]

theorem Content.tag_eq (content : Content) :
    content.tag helpers = Tag.combineM (Update.tags helpers content.updates) := by
  obtain ⟨updates, scopes, owned⟩ := content
  rw [Content.tag]

theorem Update.tags_append (updates rest : List Update) :
    tags helpers (updates ++ rest) = tags helpers updates ++ tags helpers rest := by
  induction updates with
  | nil => rfl
  | cons update updates ih => rw [List.cons_append, tags, ih, tags, List.cons_append]

theorem Update.tag_region (region : Region) :
    tag helpers (.region region) = region.content.tag helpers := by
  obtain ⟨slice, captured, extent, content⟩ := region
  rw [tag]

theorem Update.itemTags_eq (items : List (Key × Region)) :
    itemTags helpers items = tags helpers (regions items) := by
  induction items with
  | nil => rfl
  | cons item items ih =>
    obtain ⟨key, slice, captured, extent, content⟩ := item
    rw [itemTags, ih, show regions (_ :: items) = .region _ :: regions items from rfl, tags, tag]

theorem Update.tag_list (list : ListRegion) :
    tag helpers (.list list) =
      Tag.combineM (list.keyed.tag helpers :: tags helpers (regions list.items)) := by
  obtain ⟨slice, captured, keyed, last, extent, items⟩ := list
  rw [tag, itemTags_eq]

theorem Update.itemWatches_eq (items : List (Key × Region)) :
    itemWatches helpers items = allWatches helpers (regions items) := by
  induction items with
  | nil => rfl
  | cons item items ih =>
    obtain ⟨key, slice, captured, extent, content⟩ := item
    rw [itemWatches, ih, show regions (_ :: items) = .region _ :: regions items from rfl, allWatches,
      watches]

theorem Update.itemGroups_eq (items : List (Key × Region)) :
    itemGroups items = allGroups (regions items) := by
  induction items with
  | nil => rfl
  | cons item items ih =>
    obtain ⟨key, slice, captured, extent, content⟩ := item
    rw [itemGroups, ih, show regions (_ :: items) = .region _ :: regions items from rfl, allGroups,
      groups]

theorem Update.allWatches_list (list : ListRegion) :
    allWatches helpers [.list list] =
      (list.keyed.tag helpers, list.last) :: allWatches helpers (regions list.items) := by
  obtain ⟨slice, captured, keyed, last, extent, items⟩ := list
  rw [allWatches, allWatches, List.append_nil, watches, itemWatches_eq]

theorem Update.allGroups_list (list : ListRegion) :
    allGroups [.list list] = allGroups (regions list.items) := by
  obtain ⟨slice, captured, keyed, last, extent, items⟩ := list
  rw [allGroups, allGroups, List.append_nil, groups, itemGroups_eq]

end Listed

/-! What is held is watched -/

section Held

variable {stock : Stock} {store : Store} {helpers : Helpers}

theorem Update.regions_held {items : List (Key × Region)} :
    (∀ update ∈ regions items, update.Held stock store helpers) ↔
      ∀ item ∈ items, item.2.Held stock store helpers := by
  rw [regions, List.forall_mem_map]
  refine forall₂_congr fun item _ => ?_
  obtain ⟨key, slice, captured, extent, content⟩ := item
  rw [Update.Held]
  rfl

mutual

/-- All that held updates watch may be watched. -/
theorem Content.Held.watched : ∀ {content : Content}, content.Held stock store helpers →
    ∀ watch ∈ content.watches helpers, stock.watch store watch.1 watch.2
  | ⟨_, _, _⟩, held => by
    rw [Content.Held] at held
    rw [Content.watches]
    exact Update.AllHeld.watched held

theorem Update.Held.watched : ∀ {update : Update}, update.Held stock store helpers →
    ∀ watch ∈ update.watches helpers, stock.watch store watch.1 watch.2
  | .text .., held | .raw .., held | .attr .., held | .assert _, held => by
    rw [Update.Held] at held
    rw [Update.watches]
    exact List.forall_mem_singleton.mpr held.watch
  | .component .., held => by
    rw [Update.Held] at held
    rw [Update.watches]
    exact List.forall_mem_singleton.mpr held.2.2
  | .layout .., _ => by
    rw [Update.watches]
    exact nofun
  | .modifier .., held => by
    rw [Update.Held] at held
    rw [Update.watches]
    exact List.forall_mem_singleton.mpr held.2
  | .group .., held => by
    rw [Update.Held] at held
    rw [Update.watches]
    exact Update.AllHeld.watched held.2
  | .region ⟨_, _, _, _⟩, held => by
    rw [Update.Held] at held
    rw [Update.watches]
    exact Content.Held.watched held.2
  | .list ⟨_, _, _, _, _, _⟩, held => by
    rw [Update.Held] at held
    rw [Update.watches]
    exact List.forall_mem_cons.mpr ⟨held.2.2.1, Update.ItemsHeld.watched held.2.2.2⟩

theorem Update.AllHeld.watched : ∀ {updates : List Update}, Update.AllHeld stock store helpers updates →
    ∀ watch ∈ Update.allWatches helpers updates, stock.watch store watch.1 watch.2
  | [], _ => nofun
  | _ :: _, held => by
    rw [Update.AllHeld] at held
    rw [Update.allWatches]
    exact List.forall_mem_append.mpr
      ⟨Update.Held.watched held.1, Update.AllHeld.watched held.2⟩

theorem Update.ItemsHeld.watched : ∀ {items : List (Key × Region)},
    Update.ItemsHeld stock store helpers items →
    ∀ watch ∈ Update.itemWatches helpers items, stock.watch store watch.1 watch.2
  | [], _ => nofun
  | (_, ⟨_, _, _, _⟩) :: _, held => by
    rw [Update.ItemsHeld] at held
    rw [Update.itemWatches]
    exact List.forall_mem_append.mpr
      ⟨Content.Held.watched held.1.2, Update.ItemsHeld.watched held.2⟩

end

mutual

/-- The groups among held updates have revisions in stock, and their members are held. -/
theorem Content.Held.grouped : ∀ {content : Content}, content.Held stock store helpers →
    ∀ group ∈ content.groups, stock.since store group.1 ∧
      Update.AllHeld stock store helpers group.2
  | ⟨_, _, _⟩, held => by
    rw [Content.Held] at held
    rw [Content.groups]
    exact Update.AllHeld.grouped held

theorem Update.Held.grouped : ∀ {update : Update}, update.Held stock store helpers →
    ∀ group ∈ update.groups, stock.since store group.1 ∧
      Update.AllHeld stock store helpers group.2
  | .text .., _ | .raw .., _ | .attr .., _ | .assert _, _ | .component .., _ | .layout .., _
  | .modifier .., _ => by
    rw [Update.groups]
    · exact nofun
    all_goals nofun
  | .group .., held => by
    rw [Update.Held] at held
    rw [Update.groups]
    exact List.forall_mem_cons.mpr ⟨held, Update.AllHeld.grouped held.2⟩
  | .region ⟨_, _, _, _⟩, held => by
    rw [Update.Held] at held
    rw [Update.groups]
    exact Content.Held.grouped held.2
  | .list ⟨_, _, _, _, _, _⟩, held => by
    rw [Update.Held] at held
    rw [Update.groups]
    exact Update.ItemsHeld.grouped held.2.2.2

theorem Update.AllHeld.grouped : ∀ {updates : List Update}, Update.AllHeld stock store helpers updates →
    ∀ group ∈ Update.allGroups updates, stock.since store group.1 ∧
      Update.AllHeld stock store helpers group.2
  | [], _ => nofun
  | _ :: _, held => by
    rw [Update.AllHeld] at held
    rw [Update.allGroups]
    exact List.forall_mem_append.mpr
      ⟨Update.Held.grouped held.1, Update.AllHeld.grouped held.2⟩

theorem Update.ItemsHeld.grouped : ∀ {items : List (Key × Region)},
    Update.ItemsHeld stock store helpers items →
    ∀ group ∈ Update.itemGroups items, stock.since store group.1 ∧
      Update.AllHeld stock store helpers group.2
  | [], _ => nofun
  | (_, ⟨_, _, _, _⟩) :: _, held => by
    rw [Update.ItemsHeld] at held
    rw [Update.itemGroups]
    exact List.forall_mem_append.mpr
      ⟨Content.Held.grouped held.1.2, Update.ItemsHeld.grouped held.2⟩

end

end Held

end LiveTemplate
