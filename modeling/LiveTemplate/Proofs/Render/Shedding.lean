import LiveTemplate.Proofs.Effects
import LiveTemplate.Proofs.Render.Drawing

/-!
The end of a region: what it owned is handed to the transaction and its scopes are released. Nothing
is read or bound by that.
-/

namespace LiveTemplate

open Effects

/-! Scopes -/

/-- No scope is new or bound otherwise than before. -/
def Scopes.Shrinks (before after : Scopes) : Prop :=
  ∀ id scope, after.get id = .ok scope → before.get id = .ok scope

namespace Scopes.Shrinks

theorem refl (scopes : Scopes) : scopes.Shrinks scopes := fun _ _ there => there

theorem trans {first second third : Scopes} (early : first.Shrinks second)
    (late : second.Shrinks third) : first.Shrinks third :=
  fun id scope there => early id scope (late id scope there)

theorem release (scopes : Scopes) (id : ScopeId) : scopes.Shrinks (scopes.release id) := by
  intro kept scope there
  rw [Scopes.get_ok] at there ⊢
  unfold Scopes.release at there
  split at there
  · rw [Array.getElem?_setIfInBounds] at there
    split at there
    · split at there <;> cases there
    · exact there
  · exact there

theorem foldl {α : Type} {change : Scopes → α → Scopes}
    (each : ∀ scopes item, Shrinks scopes (change scopes item)) (items : List α)
    (scopes : Scopes) : scopes.Shrinks (items.foldl change scopes) := by
  induction items generalizing scopes with
  | nil => exact refl scopes
  | cons item rest ih => exact (each scopes item).trans (ih _)

end Scopes.Shrinks

mutual

theorem Content.discard_shrinks : ∀ (content : Content) (scopes : Scopes),
    scopes.Shrinks (content.discard scopes)
  | ⟨updates, own, _⟩, scopes => by
    rw [Content.discard]
    exact (Update.discardAll_shrinks updates scopes).trans (.foldl .release own _)

theorem Update.discard_shrinks : ∀ (update : Update) (scopes : Scopes),
    scopes.Shrinks (update.discard scopes)
  | .group _ members, scopes => by
    rw [Update.discard]
    exact Update.discardAll_shrinks members scopes
  | .region ⟨_, _, _, content⟩, scopes => by
    rw [Update.discard]
    exact Content.discard_shrinks content scopes
  | .list ⟨_, _, _, _, _, items⟩, scopes => by
    rw [Update.discard]
    exact Update.discardItems_shrinks items scopes
  | .text .., scopes | .raw .., scopes | .attr .., scopes | .assert .., scopes
  | .component .., scopes | .layout .., scopes | .modifier .., scopes => by
    rw [Update.discard]
    · exact .refl scopes
    all_goals nofun

theorem Update.discardAll_shrinks : ∀ (updates : List Update) (scopes : Scopes),
    scopes.Shrinks (Update.discardAll updates scopes)
  | [], scopes => .refl scopes
  | update :: rest, scopes => by
    rw [Update.discardAll]
    exact (Update.discard_shrinks update scopes).trans (Update.discardAll_shrinks rest _)

theorem Update.discardItems_shrinks : ∀ (items : List (Key × Region)) (scopes : Scopes),
    scopes.Shrinks (Update.discardItems items scopes)
  | [], scopes => .refl scopes
  | (_, ⟨_, _, _, content⟩) :: rest, scopes => by
    rw [Update.discardItems]
    exact (Content.discard_shrinks content scopes).trans (Update.discardItems_shrinks rest _)

end

theorem Running.discardBuilder_shrinks (builder : Builder) (scopes : Scopes) :
    scopes.Shrinks (discardBuilder builder scopes) := by
  cases builder with
  | root content => exact content.discard_shrinks scopes
  | region slice captured extent key content => exact content.discard_shrinks scopes
  | list list => exact Update.discardItems_shrinks list.items scopes

/-! Worlds -/

/-- Nothing is read or bound, but scopes may be released. -/
structure World.Sheds (before after : World) : Prop where
  store : after.page.store = before.page.store
  scopes : before.scopes.Shrinks after.scopes

namespace World.Sheds

theorem refl (world : World) : world.Sheds world := ⟨rfl, fun _ _ there => there⟩

theorem trans {first second third : World} (early : first.Sheds second)
    (late : second.Sheds third) : first.Sheds third :=
  ⟨late.store.trans early.store, fun id scope there =>
    early.scopes id scope (late.scopes id scope there)⟩

theorem of_draws {before after : World} (draws : before.Draws after) : before.Sheds after :=
  ⟨draws.store, fun id scope there => by rwa [draws.scopes] at there⟩

theorem bind {α β : Type} {first : Render α} {next : α → Render β} (head : Sustains Sheds first)
    (tail : ∀ value, Sustains Sheds (next value)) : Sustains Sheds (first >>= next) :=
  Sustains.bind (fun early late => early.trans late) head tail

theorem forM {α : Type} {items : List α} {action : α → Render Unit}
    (each : ∀ item, Sustains Sheds (action item)) : Sustains Sheds (items.forM action) := by
  induction items with
  | nil => exact .pure refl ()
  | cons item rest ih => exact bind (each item) fun _ => ih

theorem of_drawing {α : Type} {action : Render α} {post : α → World → Prop}
    (goes : ∀ world : World, world.drawing.Goes world action post) : Sustains Sheds action :=
  fun world => ⟨fun _ _ ended => of_draws ((goes world).of_ok ended).1,
    fun _ _ failed => of_draws ((goes world).of_error failed).2⟩

theorem modify {change : World → World} (store : ∀ world, (change world).page.store = world.page.store)
    (scopes : ∀ world, (change world).scopes = world.scopes) :
    Sustains Sheds (modify change : Render Unit) :=
  .modify fun world => ⟨store world, fun _ _ there => by rwa [scopes world] at there⟩

theorem begin : Sustains Sheds Render.begin := by
  refine bind (.get refl) fun world => ?_
  dsimp only
  split
  · exact bind (.throw refl _) fun _ => modify (fun _ => rfl) fun _ => rfl
  · exact modify (fun _ => rfl) fun _ => rfl

theorem queue (change : Transaction → Transaction) : Sustains Sheds (Render.queue change) := by
  refine bind (.get refl) fun world => ?_
  split
  · exact modify (fun _ => rfl) fun _ => rfl
  · exact .throw refl _

theorem newInstance : Sustains Sheds Render.newInstance :=
  .modifyGet fun _ => ⟨rfl, fun _ _ there => there⟩

theorem countStats (change : Stats → Stats) : Sustains Sheds (Running.countStats change) :=
  modify (fun _ => rfl) fun _ => rfl

theorem release (scope : ScopeId) : Sustains Sheds (Render.release scope) :=
  .modify fun world => ⟨rfl, .release world.scopes scope⟩

theorem clear (extent : ExtentId) : Sustains Sheds (Render.clear extent) :=
  of_drawing fun world => Render.clear_draws (.refl world) extent

end World.Sheds

mutual

theorem Content.teardown_sheds : ∀ content : Content, Sustains World.Sheds content.teardown
  | ⟨updates, scopes, owned⟩ => by
    rw [Content.teardown]
    refine World.Sheds.bind (Update.teardownAll_sheds updates) fun _ => ?_
    exact World.Sheds.bind (World.Sheds.forM fun _ => World.Sheds.queue _) fun _ =>
      World.Sheds.forM World.Sheds.release

theorem Update.teardown_sheds : ∀ update : Update, Sustains World.Sheds update.teardown
  | .group _ members => by
    rw [Update.teardown]
    exact Update.teardownAll_sheds members
  | .region ⟨_, _, _, content⟩ => by
    rw [Update.teardown]
    exact Content.teardown_sheds content
  | .list ⟨_, _, _, _, _, items⟩ => by
    rw [Update.teardown]
    exact Update.teardownItems_sheds items
  | .text .. | .raw .. | .attr .. | .assert .. | .component .. | .layout .. | .modifier .. => by
    rw [Update.teardown]
    · exact .pure World.Sheds.refl ()
    all_goals nofun

theorem Update.teardownAll_sheds : ∀ updates : List Update,
    Sustains World.Sheds (Update.teardownAll updates)
  | [] => .pure World.Sheds.refl ()
  | update :: rest => by
    rw [Update.teardownAll]
    exact World.Sheds.bind (Update.teardown_sheds update) fun _ => Update.teardownAll_sheds rest

theorem Update.teardownItems_sheds : ∀ items : List (Key × Region),
    Sustains World.Sheds (Update.teardownItems items)
  | [] => .pure World.Sheds.refl ()
  | (_, ⟨_, _, _, content⟩) :: rest => by
    rw [Update.teardownItems]
    exact World.Sheds.bind (Content.teardown_sheds content) fun _ => Update.teardownItems_sheds rest

end

theorem Region.remove_sheds (region : Region) : Sustains World.Sheds region.remove :=
  World.Sheds.bind (World.Sheds.clear _) fun _ => region.content.teardown_sheds

/-! Machines -/

/-- Nothing has been read or bound since `start`. -/
def Machine.shedding (start : Machine) : Law Machine where
  holds machine := start.world.Sheds machine.world
  moves _ _ := True
  ends _ machine := start.world.Sheds machine.world
  refl _ := trivial
  trans _ _ := trivial

namespace Running

variable {start machine : Machine} {α : Type} {post : α → Machine → Prop}

theorem shed {action : Render α} (sheds : start.world.Sheds machine.world)
    (sustains : Sustains World.Sheds action) :
    start.shedding.Goes machine (liftM action) fun _ _ => True := by
  refine .intro (fun result after ended => ?_) fun fault after failed => ?_
  · obtain ⟨world, done, rfl⟩ := lift_ok.mp ended
    exact ⟨sheds.trans (sustains.of_ok done), trivial, trivial⟩
  · obtain ⟨world, done, rfl⟩ := lift_error.mp failed
    exact sheds.trans (sustains.of_error done)

theorem shed_draws {action : Running α} (sheds : start.world.Sheds machine.world)
    (goes : machine.drawing.Goes machine action post) : start.shedding.Goes machine action post :=
  goes.of_draws (fun _ drawn => ⟨sheds.trans (.of_draws drawn.world), trivial⟩)
    fun _ _ _ drawn => sheds.trans (.of_draws drawn.world)

theorem popTrackers_sheds (count : Nat) (sheds : start.world.Sheds machine.world) :
    start.shedding.Goes machine (popTrackers count) fun _ _ => True := by
  induction count generalizing machine with
  | zero => exact .pure sheds trivial
  | succ count ih =>
    exact .bind (shed_draws sheds (popTracker_draws (.refl _))) fun _ _ sheds _ _ => ih sheds

/-- Nothing is read or bound by taking back what a failed run did. -/
theorem unwind_sheds (sheds : start.world.Sheds machine.world) :
    start.shedding.Goes machine unwind fun _ _ => True := by
  refine .get_bind ?_
  refine .bind (.forM sheds fun _ _ _ sheds _ => ?_) fun _ _ sheds _ _ => ?_
  · exact .modify_bind trivial (shed sheds (World.Sheds.countStats _))
  refine .modify_bind trivial (.get_bind ?_)
  refine .bind (popTrackers_sheds _ sheds) fun _ after sheds _ _ => ?_
  refine .through (fun _ last => last = after) (.get_bind ?_) ?_
  · split
    · exact .pure sheds rfl
    · exact sheds
  · rintro extent _ _ _ rfl
    refine .bind (shed sheds (World.Sheds.clear extent)) fun _ last sheds _ _ => ?_
    refine .get_bind (.get_bind ⟨sheds.trans ⟨rfl, ?_⟩, trivial, trivial⟩)
    exact .foldl (fun scopes builder => discardBuilder_shrinks builder scopes) _ _

end Running

end LiveTemplate
