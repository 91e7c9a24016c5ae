import LiveTemplate.Proofs.Meaning.Lists
import LiveTemplate.Proofs.Meaning.Preparation

/-!
What the code of statements shows is what the phrases say that they spell. The proof is by
recursion over the phrases, with one case for each kind of them.
-/

namespace LiveTemplate

open Effects

/-- The blocks that stand in a program. -/
def CompiledProgram.naming (compiled : CompiledProgram) (resolver : Resolver) :
    Naming SymbolView where
  block handle names code := compiled.Inlines resolver handle names code
  nests inner outer params := inner.Nests outer params

variable {resolver : Resolver}

/-! What they show -/

open Stage

/-- Wherever the statements run, they show what is told about what their names stand for there. -/
def Scene.Says (scene : Scene) (place : Code.Place) (code : List Resolved)
    (telling : Surroundings → Telling (List Tree)) : Prop :=
  ∀ (machine : Machine) (frame : Frame) (outer : List Frame) (last : Machine) (scope : Scope)
    (spot : Spot) (before : Draft), (Stage.mk scene machine frame outer last).Sees scope →
    machine.Offers spot →
    (Stage.mk scene machine frame outer last).Says before (Code.statements place code) [] spot
      (telling (place.surroundings scope))

theorem Scene.Says.single {scene : Scene} {place : Code.Place} {only : Resolved}
    {telling : Surroundings → Telling (List Tree)}
    (spoken : ∀ (machine : Machine) (frame : Frame) (outer : List Frame) (last : Machine)
      (scope : Scope) (spot : Spot) (before : Draft),
      (Stage.mk scene machine frame outer last).Sees scope → machine.Offers spot →
      (Stage.mk scene machine frame outer last).Says before (Code.statement place only) [] spot
        (telling (place.surroundings scope))) :
    scene.Says place [only] telling := by
  intro machine frame outer last scope spot before sees offers
  rw [Code.statements_single]
  exact spoken machine frame outer last scope spot before sees offers

theorem Scene.Says.nothing {scene : Scene} {place : Code.Place} :
    scene.Says place [] fun _ => pure [] := by
  intro machine frame outer last scope spot before _ offers after ended _ _ operands reaches
  obtain ⟨-, rfl⟩ := pure_ok.mp ended
  exact Leads.stay (.nothing offers ⟨rfl, rfl, rfl, rfl⟩ rfl rfl rfl) reaches

theorem Scene.Says.append {scene : Scene} {place : Code.Place} {head tail : List Resolved}
    {first rest : Surroundings → Telling (List Tree)} (early : scene.Says place head first)
    (adds : ∀ statement ∈ tail, (Code.statement place statement).Adds)
    (late : scene.Says place tail rest) :
    scene.Says place (head ++ tail) fun around => do
      let trees ← first around
      return trees ++ (← rest around) := by
  intro machine frame outer last scope spot before sees offers
  rw [Code.statements_append]
  refine Acts.seq (early machine frame outer last scope spot before sees offers)
    (Code.statements_adds adds) ?_
  intro trees later other middle shows alike
  exact Acts.map (late later other outer last scope spot middle (sees.on shows.world.scopes alike)
    (shows.offers offers)) fun more final _ shown => shows.trans offers shown

theorem Code.statements_cons (place : Code.Place) (first : Resolved) (rest : List Resolved) :
    Code.statements place (first :: rest) =
      Code.statement place first >>= fun _ => Code.statements place rest :=
  List.forM_cons

theorem Scene.Says.element {scene : Scene} {place : Code.Place} {tag : String}
    {attributes : List Decoration} {written inside : List Resolved}
    {children : Surroundings → Telling (List Tree)} (small : scene.program.pool.Small)
    (entry : place.names.OfEntry) (resolves : Decoration.Resolves attributes written)
    (adds : ∀ statement ∈ written ++ inside, (Code.statement place statement).Adds)
    (spoken : scene.Says place inside children) :
    scene.Says place
      (.openElement tag :: written ++ .flushElement :: inside ++ [.closeElement]) fun around => do
        let said ← Decoration.attributions scene.host around attributes
        let children ← children around
        return [.element tag (Attribution.attributes said) children] := by
  intro machine frame outer last scope spot before sees offers
  rw [Code.statements_append, Code.statements_append, Code.statements_single, Code.statements_cons,
    Code.statements_cons]
  simp only [bind_assoc]
  refine Code.element_spoken small entry sees offers tag resolves
    (fun statement member => adds statement (List.mem_append_left _ member))
    (Code.statements_adds fun statement member => adds statement (List.mem_append_right _ member))
    ?_
  exact fun later other before spot seen offered =>
    spoken later other outer last scope spot before seen offered

/-- A block that is called shows what is told. -/
theorem Scene.Says.tells {scene : Scene} {names inner : SymbolView} {params : List String}
    {handle : Handle} {code : List Resolved} {telling : Surroundings → Telling (List Tree)}
    (spoken : scene.Says ⟨resolver, inner⟩ code telling)
    (inlines : scene.program.Inlines resolver handle inner code) (nests : inner.Nests names params)
    (machine : Machine) (frame : Frame) (outer : List Frame) (last : Machine) {scope : Scope}
    {spot : Spot} {given : List Reference} :
    (Stage.mk scene machine frame outer last).Tells scope spot (some handle) given
      (telling ((Code.Place.surroundings ⟨resolver, names⟩ scope).bind params given)) := by
  intro now here extent sees offers _ positional place operands inside there reaches
  rw [← Code.surroundings_bind nests]
  refine Code.evaluate_leads inlines sees offers positional ?_ inside there reaches
  exact fun later other outer before seen offered =>
    spoken later other outer last _ _ before seen offered

variable {scene : Scene}

mutual

theorem Phrase.spoken (small : scene.program.pool.Small) : ∀ (phrase : Phrase) {names : SymbolView}
    {code : List Resolved}, phrase.Prepared (scene.program.naming resolver) names code →
    (∀ statement ∈ code, (Code.statement ⟨resolver, names⟩ statement).Adds) → names.OfEntry →
    scene.Says ⟨resolver, names⟩ code fun around => phrase.trees scene.host around
  | .text content, _, _, rfl, _, _ =>
    .single fun _ _ _ _ _ _ _ _ offers => Code.text_spoken offers content
  | .comment content, _, _, rfl, _, _ =>
    .single fun _ _ _ _ _ _ _ _ offers => Code.comment_spoken offers content
  | .append value trusted, _, _, rfl, _, entry =>
    .single fun _ _ _ _ _ _ _ sees offers =>
      Code.append_spoken small entry sees offers value trusted
  | .element tag attributes children, names, code, prepared, adds, entry => by
    obtain ⟨written, inside, resolves, prepared, rfl⟩ := prepared
    have within : ∀ statement ∈ written ++ inside,
        (Code.statement ⟨resolver, names⟩ statement).Adds := fun statement member =>
      adds statement (by
        rcases List.mem_append.mp member with early | late
        · simp [early]
        · simp [late])
    exact Scene.Says.element small entry resolves within (Phrase.allSay small children prepared
      (fun statement member => within statement (List.mem_append_right _ member)) entry)
  | .conditional param named truthy falsy, names, code, prepared, adds, entry => by
    obtain ⟨yes, no, yields, fails, code⟩ := prepared
    have told : ∀ (name : String) (machine : Machine) (frame : Frame) (outer : List Frame)
        (last : Machine) (scope : Scope) (spot : Spot) (before : Draft),
        (Stage.mk scene machine frame outer last).Sees scope → machine.Offers spot →
        (Stage.mk scene machine frame outer last).Says before
          (Code.conditional ⟨resolver, names⟩ name [param] named yes no) [] spot
          (Phrase.trees scene.host (Code.Place.surroundings ⟨resolver, names⟩ scope)
            (.conditional param named truthy falsy)) := by
      intro name machine frame outer last scope spot before sees offers
      unfold Phrase.trees
      rw [← yields.isNone, ← fails.isNone]
      exact Code.conditional_spoken small entry sees offers
        (Phrase.tells small truthy yields entry machine frame outer last)
        (Phrase.tells small falsy fails entry machine frame outer last)
    rcases code with rfl | rfl | rfl
    · exact .single (told "if")
    · exact .single (told "with")
    · exact .single (told "unless")
  | .each source named item empty, names, code, prepared, adds, entry => by
    obtain ⟨block, inverse, tells, fails, rfl⟩ := prepared
    refine .single fun machine frame outer last scope spot before sees offers => ?_
    exact Code.each_spoken small entry sees offers
      (fun refs => Phrase.tells small item tells entry machine frame outer last)
      (Phrase.tells small empty fails entry machine frame outer last)

theorem Phrase.allSay (small : scene.program.pool.Small) :
    ∀ (phrases : List Phrase) {names : SymbolView} {code : List Resolved},
    Phrase.AllPrepared (scene.program.naming resolver) names phrases code →
    (∀ statement ∈ code, (Code.statement ⟨resolver, names⟩ statement).Adds) → names.OfEntry →
    scene.Says ⟨resolver, names⟩ code fun around => Phrase.allTrees scene.host around phrases
  | [], _, _, rfl, _, _ => .nothing
  | first :: rest, names, code, prepared, adds, entry => by
    obtain ⟨head, tail, one, others, rfl⟩ := prepared
    have addsFirst := fun statement member => adds statement (List.mem_append_left tail member)
    have addsRest := fun statement member => adds statement (List.mem_append_right head member)
    exact (Phrase.spoken small first one addsFirst entry).append addsRest
      (Phrase.allSay small rest others addsRest entry)

theorem Phrase.tells (small : scene.program.pool.Small) :
    ∀ (passage : Option Passage) {names : SymbolView} {handle : Option Handle},
    Passage.Prepared (scene.program.naming resolver) names passage handle → names.OfEntry →
    ∀ (machine : Machine) (frame : Frame) (outer : List Frame) (last : Machine) {scope : Scope}
      {spot : Spot} {given : List Reference},
      (Stage.mk scene machine frame outer last).Tells scope spot handle given
        (Passage.trees scene.host (Code.Place.surroundings ⟨resolver, names⟩ scope) given passage)
  | none, _, _, rfl, _ => fun _ _ _ _ _ _ _ _ _ _ _ _ _ _ => rfl
  | some (.of params body), names, handle, prepared, entry => by
    obtain ⟨block, inner, code, rfl, inlines, nests, prepared⟩ := prepared
    exact (Phrase.allSay small body prepared inlines.adds (nests.entry entry)).tells inlines nests

end

end LiveTemplate
