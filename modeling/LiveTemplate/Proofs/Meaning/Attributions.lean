import LiveTemplate.Proofs.Meaning.Phrases

/-!
What is said of attributes, and what becomes of the attributes of an element when it is carried out
step by step. `Attribution.attributes_concat` says that the last word is carried out by putting an
attribute in place of the one of its name, or by leaving that one out.
-/

namespace LiveTemplate

/-- The attributes after a value was written to one of them. -/
def Attribute.decorate (name : String) (space : Option String) (value : Value)
    (attributes : List Attribute) : List Attribute :=
  match value with
  | .undefined | .null | .bool false =>
    attributes.filter fun other => ¬(other.name = name ∧ other.space = space)
  | .bool true => Dom.putAttribute ⟨name, "", space⟩ attributes
  | value => Dom.putAttribute ⟨name, value.content, space⟩ attributes

namespace Attribution

variable {word other : Attribution} {earlier said later : List Attribution}

/-- The attributes after this was carried out. -/
def carryOut (word : Attribution) (attributes : List Attribute) : List Attribute :=
  match word.content with
  | none => attributes.filter fun other => ¬(other.name = word.name ∧ other.space = word.space)
  | some content => Dom.putAttribute ⟨word.name, content, word.space⟩ attributes

theorem decorate_eq (name : String) (space : Option String) (value : Value)
    (attributes : List Attribute) : Attribute.decorate name space value attributes =
      carryOut ⟨name, space, value.attribute?⟩ attributes := by
  cases value with
  | bool holds => cases holds <;> rfl
  | _ => rfl

/-- The attribute was given earlier, and what was said since does not leave it out. -/
abbrev Stays (word : Attribution) (earlier said : List Attribution) : Prop :=
  (word.lastWord earlier).isSome ∧ ∀ other ∈ said, word.Matches other → other.content.isSome

theorem lastWord_concat :
    word.lastWord (said ++ [other]) =
      if word.Matches other then other.content else word.lastWord said := by
  unfold lastWord
  rw [List.filter_append]
  split
  · rename_i same
    rw [List.filter_cons_of_pos (by simpa using same)]
    simp
  · rename_i apart
    rw [List.filter_cons_of_neg (by simpa using apart)]
    simp

theorem Matches.lastWord (same : word.Matches other) :
    other.lastWord said = word.lastWord said := by
  unfold Attribution.lastWord Matches
  rw [same.1, same.2]

theorem carryOut_append {front back : List Attribute} (gone : word.content = none) :
    word.carryOut (front ++ back) = word.carryOut front ++ word.carryOut back := by
  unfold carryOut
  rw [gone]
  exact List.filter_append ..

/-- It concerns only the attribute that it is about. -/
theorem carryOut_append_apart {front back : List Attribute}
    (apart : ∀ given ∈ front, ¬(given.name = word.name ∧ given.space = word.space)) :
    word.carryOut (front ++ back) = front ++ word.carryOut back := by
  unfold carryOut
  cases word.content with
  | none =>
    refine (List.filter_append ..).trans (congrArg (· ++ _) (List.filter_eq_self.mpr ?_))
    exact fun given member => decide_eq_true (apart given member)
  | some content =>
    induction front with
    | nil => rfl
    | cons given front ih =>
      obtain ⟨other, others⟩ := List.forall_mem_cons.mp apart
      exact (if_neg other).trans (congrArg (given :: ·) (ih others))

theorem begins_concat : word.Begins earlier (later ++ [other]) ↔
    word.Begins earlier later ∧ (word.Matches other → other.content.isSome) := by
  simp only [Begins, List.forall_mem_append, List.forall_mem_singleton, and_assoc]

/-- What is said of another attribute at the end makes no difference. -/
theorem attribute?_concat_apart (apart : ¬word.Matches other) :
    word.attribute? earlier (later ++ [other]) = word.attribute? earlier later := by
  have begins : word.Begins earlier (later ++ [other]) ↔ word.Begins earlier later :=
    begins_concat.trans (and_iff_left fun same => absurd same apart)
  unfold attribute?
  rw [← List.cons_append, lastWord_concat, if_neg apart]
  simp only [begins]

theorem attribute?_matches {given : Attribute}
    (member : given ∈ (word.attribute? earlier later).toList) :
    given.name = word.name ∧ given.space = word.space := by
  obtain ⟨begins, found⟩ := Option.ite_none_right_eq_some.mp (Option.mem_toList.mp member)
  obtain ⟨content, -, rfl⟩ := Option.map_eq_some_iff.mp found
  exact ⟨rfl, rfl⟩

theorem attribute?_apart (apart : ¬word.Matches other) :
    ∀ given ∈ (word.attribute? earlier later).toList,
      ¬(given.name = other.name ∧ given.space = other.space) := by
  intro given member same
  obtain ⟨named, spaced⟩ := attribute?_matches member
  exact apart ⟨same.1.symm.trans named, same.2.symm.trans spaced⟩

/-- What is left out at the end is not among the attributes. -/
theorem attributesAfter_leave (gone : other.content = none) :
    attributesAfter earlier (said ++ [other]) = other.carryOut (attributesAfter earlier said) := by
  have absent : ¬other.content.isSome := by simp [gone]
  induction said generalizing earlier with
  | nil =>
    have ends : ¬other.Begins earlier [] := fun begins => absent begins.1
    simp [attributesAfter, carryOut, gone, attribute?, ends]
  | cons first rest ih =>
    rw [List.cons_append, attributesAfter, attributesAfter, ih]
    by_cases same : first.Matches other
    · have ends : ¬first.Begins earlier (rest ++ [other]) := fun begins =>
        absent ((begins_concat.mp begins).2 same)
      have removed : other.carryOut (first.attribute? earlier rest).toList = [] := by
        unfold carryOut
        rw [gone]
        refine List.filter_eq_nil_iff.mpr fun given member kept => of_decide_eq_true kept ?_
        obtain ⟨named, spaced⟩ := attribute?_matches member
        exact ⟨named.trans same.1.symm, spaced.trans same.2.symm⟩
      rw [attribute?, if_neg ends, carryOut_append gone, removed]
      rfl
    · rw [attribute?_concat_apart same, carryOut_append_apart (attribute?_apart same)]

/-- The attribute that is begun gets what is said of it at the end. -/
theorem attribute?_concat_same {content : String} (same : word.Matches other)
    (given : other.content = some content) (begins : word.Begins earlier later) :
    word.attribute? earlier (later ++ [other]) = some ⟨other.name, content, other.space⟩ := by
  have goesOn : word.Begins earlier (later ++ [other]) :=
    begins_concat.mpr ⟨begins, fun _ => by simp [given]⟩
  unfold attribute?
  rw [if_pos goesOn, ← List.cons_append, lastWord_concat, if_pos same, given, same.1, same.2]
  rfl

theorem attribute?_of_begins (begins : word.Begins earlier later) :
    ∃ content, word.attribute? earlier later =
      some ⟨word.name, content, word.space⟩ := by
  have about : word ∈ (word :: later).filter fun other => word.Matches other :=
    List.mem_filter.mpr ⟨List.mem_cons_self, by simp⟩
  obtain ⟨last, found⟩ := Option.isSome_iff_exists.mp
    (List.getLast?_isSome.mpr (List.ne_nil_of_mem about))
  obtain ⟨member, same⟩ := List.mem_filter.mp (List.mem_of_getLast? found)
  have present : last.content.isSome := by
    rcases List.mem_cons.mp member with rfl | later
    · exact begins.1
    · exact begins.2.2 _ later (of_decide_eq_true same)
  obtain ⟨content, there⟩ := Option.isSome_iff_exists.mp present
  refine ⟨content, ?_⟩
  rw [attribute?, if_pos begins, lastWord, found]
  exact congrArg (Option.map _) there

/-- What begins nothing is said of an attribute that was there before, or that is left out. -/
theorem stays_cons {first : Attribution} (same : first.Matches other)
    (ends : ¬first.Begins earlier said) :
    other.Stays (earlier ++ [first]) said ↔ other.Stays earlier (first :: said) := by
  have alike : other.Matches first := ⟨same.1.symm, same.2.symm⟩
  have grown : other.lastWord (earlier ++ [first]) = first.content :=
    lastWord_concat.trans (if_pos alike)
  constructor
  · rintro ⟨there, kept⟩
    rw [grown] at there
    refine ⟨Option.isSome_iff_ne_none.mpr fun missing => ends ⟨there, ?_, ?_⟩,
      List.forall_mem_cons.mpr ⟨fun _ => there, kept⟩⟩
    · exact same.lastWord.symm.trans missing
    · exact fun another member also => kept another member
        ⟨also.1.trans alike.1, also.2.trans alike.2⟩
  · rintro ⟨-, kept⟩
    obtain ⟨there, kept⟩ := List.forall_mem_cons.mp kept
    exact ⟨grown ▸ there alike, kept⟩

/-- What is given at the end takes the place of what was there, if that was given later on. -/
theorem attributesAfter_give {content : String} (given : other.content = some content) :
    attributesAfter earlier (said ++ [other]) =
      if other.Stays earlier said then attributesAfter earlier said
      else other.carryOut (attributesAfter earlier said) := by
  induction said generalizing earlier with
  | nil =>
    change (other.attribute? earlier []).toList ++ [] = _
    by_cases there : (other.lastWord earlier).isSome
    · have ends : ¬other.Begins earlier [] := fun begins => by simp [begins.2.1] at there
      rw [if_pos ⟨there, nofun⟩, attribute?, if_neg ends]
      rfl
    · have begins : other.Begins earlier [] := ⟨by simp [given], by simpa using there, nofun⟩
      rw [if_neg fun stays => there stays.1, attribute?, if_pos begins]
      simp [lastWord, carryOut, given, attributesAfter, Dom.putAttribute]
  | cons first rest ih =>
    rw [List.cons_append, attributesAfter, attributesAfter, ih]
    by_cases same : first.Matches other
    · have alike : other.Matches first := ⟨same.1.symm, same.2.symm⟩
      have grown : other.lastWord (earlier ++ [first]) = first.content :=
        lastWord_concat.trans (if_pos alike)
      have before : other.lastWord earlier = first.lastWord earlier := same.lastWord
      by_cases begins : first.Begins earlier rest
      · obtain ⟨old, first_given⟩ := attribute?_of_begins begins
        have opens : ¬other.Stays earlier (first :: rest) := fun stays => by
          have there := stays.1
          simp [before, begins.2.1] at there
        have stays : other.Stays (earlier ++ [first]) rest :=
          ⟨grown ▸ begins.1, fun another member alike => begins.2.2 another member
            ⟨alike.1.trans same.1, alike.2.trans same.2⟩⟩
        rw [if_pos stays, if_neg opens, attribute?_concat_same same given begins, first_given]
        unfold carryOut
        rw [given]
        exact (if_pos alike).symm
      · have ends : ¬first.Begins earlier (rest ++ [other]) := fun goesOn =>
          begins (begins_concat.mp goesOn).1
        rw [attribute?, if_neg ends, attribute?, if_neg begins]
        simp only [stays_cons same begins]
        rfl
    · have unlike : ¬other.Matches first := fun alike => same ⟨alike.1.symm, alike.2.symm⟩
      have stays : other.Stays (earlier ++ [first]) rest ↔ other.Stays earlier (first :: rest) := by
        simp only [Stays, lastWord_concat, unlike, if_false, List.forall_mem_cons, false_implies,
          true_and]
      rw [attribute?_concat_apart same, carryOut_append_apart (attribute?_apart same)]
      simp only [stays]
      split <;> rfl

/-- The last word is carried out on the attributes that there are without it. -/
theorem attributes_concat : attributes (said ++ [other]) = other.carryOut (attributes said) := by
  cases content : other.content with
  | none => exact attributesAfter_leave content
  | some given =>
    refine (attributesAfter_give content).trans (if_neg fun stays => ?_)
    cases stays.1

end Attribution

end LiveTemplate
