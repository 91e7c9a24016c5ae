import LiveTemplate.Dom.Markup
import Mathlib.Data.List.Perm.Subperm

/-!
Markup can be read back. Each piece of it ends where the next begins: a name at the first mark that
no name has, a value at its quote, a text at the next tag, the children of an element at its own end.
So two trees of elements and texts with the same markup are the same tree.
-/

namespace LiveTemplate

/-! Words put together from codes -/

/-- No code begins another one. -/
def PrefixFree (code : Char → List Char) : Prop :=
  ∀ first second rest others, code first ++ rest = code second ++ others →
    first = second ∧ rest = others

/-- What is written in codes ends where something follows that no code begins with. -/
theorem PrefixFree.split {code : Char → List Char} {allowed : Char → Prop}
    {ends : List Char → Prop} (free : PrefixFree code)
    (goesOn : ∀ letter rest, allowed letter → ¬ends (code letter ++ rest))
    (first : List Char) : ∀ {second rest others : List Char}, (∀ letter ∈ first, allowed letter) →
      (∀ letter ∈ second, allowed letter) → ends rest → ends others →
      first.flatMap code ++ rest = second.flatMap code ++ others → first = second ∧ rest = others := by
  induction first with
  | nil =>
    intro second rest others _ within ended _ same
    cases second with
    | nil => exact ⟨rfl, same⟩
    | cons letter second =>
      rw [List.flatMap_nil, List.nil_append, List.flatMap_cons, List.append_assoc] at same
      exact absurd (same ▸ ended) (goesOn letter _ (within letter List.mem_cons_self))
  | cons letter first ih =>
    intro second rest others inside within ended finished same
    rw [List.flatMap_cons, List.append_assoc] at same
    cases second with
    | nil =>
      rw [List.flatMap_nil, List.nil_append] at same
      exact absurd (same ▸ finished) (goesOn letter _ (inside letter List.mem_cons_self))
    | cons other second =>
      rw [List.flatMap_cons, List.append_assoc] at same
      obtain ⟨letters, remaining⟩ := free _ _ _ _ same
      obtain ⟨words, tails⟩ := ih
        (fun letter member => inside letter (List.mem_cons_of_mem _ member))
        (fun letter member => within letter (List.mem_cons_of_mem _ member)) ended finished remaining
      exact ⟨by rw [letters, words], tails⟩

namespace Tree

/-! Names, texts and values -/

/-- What ends a name in markup. No letter, digit or hyphen is among it. -/
def delimiters : List Char := [' ', '>', '/', ':', '=']

/-- A name as markup can show it. -/
def IsName (name : String) : Prop := name ≠ "" ∧ ∀ letter ∈ name.toList, letter ∉ delimiters

theorem isName_of_alphanum {name : String} (filled : name ≠ "")
    (letters : name.toList.all (fun letter => letter.isAlphanum || letter == '-') = true) :
    IsName name := by
  refine ⟨filled, fun letter member mark => ?_⟩
  simp only [delimiters, List.mem_cons, List.not_mem_nil, or_false] at mark
  rcases mark with rfl | rfl | rfl | rfl | rfl <;>
    exact absurd (List.all_eq_true.mp letters _ member) (by decide)

theorem name_split {first second : String} {mark other : Char} {rest others : List Char}
    (left : IsName first) (right : IsName second) (ends : mark ∈ delimiters)
    (finishes : other ∈ delimiters)
    (same : first.toList ++ mark :: rest = second.toList ++ other :: others) :
    first = second ∧ mark = other ∧ rest = others := by
  have free : PrefixFree fun letter => [letter] := fun _ _ _ _ same => List.cons.inj same
  let ended : List Char → Prop := fun rest => ∃ mark ∈ delimiters, ∃ more, rest = mark :: more
  have goesOn : ∀ letter rest, letter ∉ delimiters → ¬ended ([letter] ++ rest) := by
    rintro letter rest outside ⟨mark, inside, more, same⟩
    exact outside ((List.cons.inj same).1 ▸ inside)
  obtain ⟨names, rests⟩ := free.split goesOn first.toList left.2 right.2 ⟨mark, ends, rest, rfl⟩
    ⟨other, finishes, others, rfl⟩ (by simpa using same)
  exact ⟨String.toList_inj.mp names, List.cons.inj rests⟩

/-- How a character is written in a text. -/
theorem escape_cases (letter : Char) :
    letter = '&' ∧ (escape letter).toList = ['&', 'a', 'm', 'p', ';'] ∨
    letter = '<' ∧ (escape letter).toList = ['&', 'l', 't', ';'] ∨
    letter = '>' ∧ (escape letter).toList = ['&', 'g', 't', ';'] ∨
    letter ≠ '&' ∧ letter ≠ '<' ∧ letter ≠ '>' ∧ (escape letter).toList = [letter] := by
  unfold escape
  split <;> simp_all

/-- How a character is written in a value. -/
theorem escapeQuoted_cases (letter : Char) :
    letter = '"' ∧ (escapeQuoted letter).toList = ['&', 'q', 'u', 'o', 't', ';'] ∨
    letter ≠ '"' ∧ (escapeQuoted letter).toList = (escape letter).toList := by
  unfold escapeQuoted
  split <;> simp_all

theorem escape_prefixFree : PrefixFree fun letter => (escape letter).toList := by
  intro first second rest others same
  dsimp only at same
  rcases escape_cases first with ⟨_, shown⟩ | ⟨_, shown⟩ | ⟨_, shown⟩ | ⟨_, _, _, shown⟩ <;>
    rcases escape_cases second with ⟨_, seen⟩ | ⟨_, seen⟩ | ⟨_, seen⟩ | ⟨_, _, _, seen⟩ <;>
    rw [shown, seen] at same <;> grind

theorem escapeQuoted_prefixFree : PrefixFree fun letter => (escapeQuoted letter).toList := by
  intro first second rest others same
  dsimp only at same
  rcases escapeQuoted_cases first with ⟨quote, shown⟩ | ⟨_, shown⟩ <;>
    rcases escapeQuoted_cases second with ⟨quotes, seen⟩ | ⟨_, seen⟩ <;> rw [shown, seen] at same
  · exact ⟨quote.trans quotes.symm, List.append_cancel_left same⟩
  · rcases escape_cases second with ⟨_, seen⟩ | ⟨_, seen⟩ | ⟨_, seen⟩ | ⟨_, _, _, seen⟩ <;>
      rw [seen] at same <;> grind
  · rcases escape_cases first with ⟨_, shown⟩ | ⟨_, shown⟩ | ⟨_, shown⟩ | ⟨_, _, _, shown⟩ <;>
      rw [shown] at same <;> grind
  · exact escape_prefixFree first second rest others same

/-- No character of a text shows as one that a tag begins or ends with. -/
theorem escape_bare (letter : Char) : '<' ∉ (escape letter).toList ∧ '>' ∉ (escape letter).toList := by
  rcases escape_cases letter with ⟨_, shown⟩ | ⟨_, shown⟩ | ⟨_, shown⟩ | ⟨_, lt, gt, shown⟩ <;>
    rw [shown] <;> grind

/-- Nor does one of a value, and none shows as the quote that ends the value. -/
theorem escapeQuoted_bare (letter : Char) : '<' ∉ (escapeQuoted letter).toList ∧
    '>' ∉ (escapeQuoted letter).toList ∧ '"' ∉ (escapeQuoted letter).toList := by
  rcases escapeQuoted_cases letter with ⟨_, shown⟩ | ⟨unquoted, shown⟩ <;> rw [shown]
  · decide
  · refine ⟨(escape_bare letter).1, (escape_bare letter).2, ?_⟩
    rcases escape_cases letter with ⟨_, shown⟩ | ⟨_, shown⟩ | ⟨_, shown⟩ | ⟨_, _, _, shown⟩ <;>
      rw [shown]
    iterate 3 decide
    simpa using unquoted.symm

theorem escape_filled (letter : Char) : (escape letter).toList ≠ [] := by
  rcases escape_cases letter with ⟨_, shown⟩ | ⟨_, shown⟩ | ⟨_, shown⟩ | ⟨_, _, _, shown⟩ <;>
    simp [shown]

theorem escapeQuoted_filled (letter : Char) : (escapeQuoted letter).toList ≠ [] := by
  rcases escapeQuoted_cases letter with ⟨_, shown⟩ | ⟨_, shown⟩ <;> rw [shown]
  · decide
  · exact escape_filled letter

theorem toList_escapeAll (escape : Char → String) (content : String) :
    (escapeAll escape content).toList = content.toList.flatMap fun letter => (escape letter).toList := by
  rw [escapeAll, String.toList_join, List.flatMap_map]

/-- What can follow a text: nothing, or a tag. -/
def Tagged (rest : List Char) : Prop := ∀ letter ∈ rest.head?, letter = '<'

theorem not_tagged_escape (letter : Char) (rest : List Char) :
    ¬Tagged ((escape letter).toList ++ rest) := by
  intro tagged
  obtain ⟨first, others, shown⟩ := List.exists_cons_of_ne_nil (escape_filled letter)
  rw [shown] at tagged
  have tag : first = '<' := tagged first rfl
  exact (escape_bare letter).1 (by simp [shown, tag])

theorem text_split {first second : String} {rest others : List Char} (ended : Tagged rest)
    (finished : Tagged others)
    (same : (escapeAll escape first).toList ++ rest = (escapeAll escape second).toList ++ others) :
    first = second ∧ rest = others := by
  rw [toList_escapeAll, toList_escapeAll] at same
  have goesOn : ∀ letter rest, True → ¬Tagged ((escape letter).toList ++ rest) :=
    fun letter rest _ => not_tagged_escape letter rest
  obtain ⟨texts, rests⟩ := escape_prefixFree.split goesOn first.toList (fun _ _ => trivial)
    (fun _ _ => trivial) ended finished same
  exact ⟨String.toList_inj.mp texts, rests⟩

theorem value_split {first second : String} {rest others : List Char}
    (same : (escapeAll escapeQuoted first).toList ++ '"' :: rest =
      (escapeAll escapeQuoted second).toList ++ '"' :: others) :
    first = second ∧ rest = others := by
  rw [toList_escapeAll, toList_escapeAll] at same
  let ended : List Char → Prop := fun rest => '"' ∈ rest.head?
  have goesOn : ∀ letter rest, True → ¬ended ((escapeQuoted letter).toList ++ rest) := by
    intro letter rest _ quote
    obtain ⟨first, others, shown⟩ := List.exists_cons_of_ne_nil (escapeQuoted_filled letter)
    dsimp only [ended] at quote
    rw [shown] at quote
    have same : first = '"' := Option.some.inj quote
    exact (escapeQuoted_bare letter).2.2 (by simp [shown, same])
  obtain ⟨texts, rests⟩ := escapeQuoted_prefixFree.split goesOn first.toList (fun _ _ => trivial)
    (fun _ _ => trivial) rfl rfl same
  exact ⟨String.toList_inj.mp texts, (List.cons.inj rests).2⟩

/-! Attributes -/

/-- The name and the namespace of an attribute are names. -/
def Named (written : Attribute) : Prop :=
  IsName written.name ∧ ∀ space ∈ written.space, IsName space

theorem toList_attributeMarkup (name value : String) (space : Option String) :
    (attributeMarkup ⟨name, value, space⟩).toList = ' ' :: ((space.elim [] (·.toList ++ [':'])) ++
      (name.toList ++ '=' :: '"' :: ((escapeAll escapeQuoted value).toList ++ ['"']))) := by
  cases space <;> simp [attributeMarkup]

theorem attribute_split {first second : Attribute} {rest others : List Char}
    (left : Named first) (right : Named second)
    (same : (attributeMarkup first).toList ++ rest = (attributeMarkup second).toList ++ others) :
    first = second ∧ rest = others := by
  obtain ⟨name, value, space⟩ := first
  obtain ⟨other, found, place⟩ := second
  have valued : ∀ {rest others : List Char},
      name.toList ++ '=' :: '"' :: ((escapeAll escapeQuoted value).toList ++ '"' :: rest) =
        other.toList ++ '=' :: '"' :: ((escapeAll escapeQuoted found).toList ++ '"' :: others) →
      name = other ∧ value = found ∧ rest = others := by
    intro rest others same
    obtain ⟨names, -, values⟩ := name_split left.1 right.1 (by decide) (by decide) same
    exact ⟨names, value_split (List.cons.inj values).2⟩
  rw [toList_attributeMarkup, toList_attributeMarkup] at same
  -- Whether a colon or an equals sign comes first tells whether there is a namespace.
  cases space <;> cases place <;>
    simp only [Option.elim, List.nil_append, List.cons_append, List.append_assoc, List.cons.injEq,
      true_and] at same
  case none.none =>
    obtain ⟨names, values, rests⟩ := valued same
    exact ⟨by rw [names, values], rests⟩
  case none.some place =>
    obtain ⟨-, marks, -⟩ := name_split left.1 (right.2 place rfl) (by decide) (by decide) same
    exact absurd marks (by decide)
  case some.none space =>
    obtain ⟨-, marks, -⟩ := name_split (left.2 space rfl) right.1 (by decide) (by decide) same
    exact absurd marks (by decide)
  case some.some space place =>
    obtain ⟨spaces, -, same⟩ :=
      name_split (left.2 space rfl) (right.2 place rfl) (by decide) (by decide) same
    obtain ⟨names, values, rests⟩ := valued same
    exact ⟨by rw [names, values, spaces], rests⟩

theorem attribute_ne_tagEnd {written : Attribute} {rest others : List Char} :
    (attributeMarkup written).toList ++ rest ≠ '>' :: others := by
  obtain ⟨name, value, space⟩ := written
  rw [toList_attributeMarkup]
  intro same
  exact absurd (List.cons.inj same).1 (by decide)

/-- The attributes of an element end where its tag does. -/
theorem attributes_split (first : List Attribute) : ∀ {second : List Attribute}
    {rest others : List Char}, (∀ written ∈ first, Named written) →
      (∀ written ∈ second, Named written) →
      (first.flatMap fun written => (attributeMarkup written).toList) ++ '>' :: rest =
        (second.flatMap fun written => (attributeMarkup written).toList) ++ '>' :: others →
      first = second ∧ rest = others := by
  induction first with
  | nil =>
    intro second rest others _ _ same
    cases second with
    | nil => exact ⟨rfl, (List.cons.inj same).2⟩
    | cons written second =>
      rw [List.flatMap_cons, List.append_assoc] at same
      exact absurd same.symm attribute_ne_tagEnd
  | cons written first ih =>
    intro second rest others left right same
    cases second with
    | nil =>
      rw [List.flatMap_cons, List.append_assoc] at same
      exact absurd same attribute_ne_tagEnd
    | cons other second =>
      rw [List.flatMap_cons, List.flatMap_cons, List.append_assoc, List.append_assoc] at same
      obtain ⟨here, further⟩ := attribute_split (left written List.mem_cons_self)
        (right other List.mem_cons_self) same
      obtain ⟨others, rests⟩ := ih (fun written member => left written (List.mem_cons_of_mem _ member))
        (fun written member => right written (List.mem_cons_of_mem _ member)) further
      exact ⟨by rw [here, others], rests⟩

/-! Trees -/

def isText : Tree → Bool
  | text _ => true
  | _ => false

mutual

/-- The tree consists of elements with proper names and of texts that show. -/
def Plain : Tree → Prop
  | element tag attributes children =>
    IsName tag ∧ (∀ written ∈ attributes, Named written) ∧ AllPlain children
  | text content => content ≠ ""
  | comment _ | raw _ | all _ => False

/-- The trees do, and no two texts meet. -/
def AllPlain : List Tree → Prop
  | [] => True
  | tree :: rest => tree.Plain ∧ AllPlain rest ∧
    (tree.isText → ∀ next ∈ rest.head?, next.isText = false)

end

theorem toList_text (content : String) : (text content).markup.toList =
    content.toList.flatMap fun letter => (escape letter).toList := by
  rw [markup, toList_escapeAll]

theorem toList_nil : (markupAll []).toList = [] := rfl

theorem toList_cons (tree : Tree) (rest : List Tree) :
    (markupAll (tree :: rest)).toList = tree.markup.toList ++ (markupAll rest).toList := by
  rw [markupAll, String.toList_append]

theorem toList_element (tag : String) (attributes : List Attribute) (children : List Tree) :
    (element tag attributes children).markup.toList = '<' :: (tag.toList ++
      ((attributes.flatMap fun written => (attributeMarkup written).toList) ++ '>' ::
        ((markupAll children).toList ++ '<' :: '/' :: (tag.toList ++ ['>'])))) := by
  simp [markup, toString, List.flatMap_map]

/-- What can follow the children of an element, or a whole tree: an end tag, or nothing. -/
def Closed (rest : List Char) : Prop := rest = [] ∨ ∃ more, rest = '<' :: '/' :: more

theorem Closed.tagged {rest : List Char} (closed : Closed rest) : Tagged rest := by
  rcases closed with rfl | ⟨more, rfl⟩
  · exact nofun
  · exact fun letter member => (Option.some.inj member).symm

/-- A text is followed by a tag, since no other text comes after it. -/
theorem tagged_after {trees : List Tree} {rest : List Char} (plain : AllPlain trees)
    (apart : ∀ next ∈ trees.head?, next.isText = false) (closed : Closed rest) :
    Tagged ((markupAll trees).toList ++ rest) := by
  cases trees with
  | nil => simpa [markupAll] using closed.tagged
  | cons tree trees =>
    cases tree with
    | element tag attributes children =>
      intro letter member
      simpa [markupAll, toList_element, eq_comm] using member
    | text content => exact absurd (apart _ rfl) (by simp [isText])
    | _ => exact plain.1.elim

theorem head_not_slash {name : String} {rest : List Char} (named : IsName name) :
    (name.toList ++ rest).head? ≠ some '/' := by
  obtain ⟨letter, letters, shape⟩ : ∃ letter letters, name.toList = letter :: letters :=
    List.exists_cons_of_ne_nil fun nothing => named.1 (String.toList_eq_nil_iff.mp nothing)
  intro slash
  rw [shape] at slash
  have inside : letter ∉ delimiters := named.2 letter (by simp [shape])
  rw [show letter = '/' from Option.some.inj slash] at inside
  exact inside (by decide)

/-- A tree does not begin like what can follow trees. -/
theorem not_closed {tree : Tree} {rest : List Char} (plain : tree.Plain) :
    ¬Closed (tree.markup.toList ++ rest) := by
  intro closed
  cases tree with
  | element tag attributes children =>
    rw [toList_element, List.cons_append, List.append_assoc] at closed
    rcases closed with nothing | ⟨more, same⟩
    · cases nothing
    · exact head_not_slash plain.1 (congrArg List.head? (List.cons.inj same).2)
  | text content =>
    obtain ⟨letter, letters, shape⟩ : ∃ letter letters, content.toList = letter :: letters :=
      List.exists_cons_of_ne_nil fun nothing => plain (String.toList_eq_nil_iff.mp nothing)
    have tagged := closed.tagged
    rw [toList_text, shape, List.flatMap_cons, List.append_assoc] at tagged
    exact not_tagged_escape letter _ tagged
  | _ => exact plain.elim

theorem text_ne_element {content tag : String} {attributes : List Attribute} {children : List Tree}
    {rest others : List Char} (filled : content ≠ "") :
    (text content).markup.toList ++ rest ≠
      (element tag attributes children).markup.toList ++ others := by
  obtain ⟨letter, letters, shape⟩ : ∃ letter letters, content.toList = letter :: letters :=
    List.exists_cons_of_ne_nil fun nothing => filled (String.toList_eq_nil_iff.mp nothing)
  intro same
  refine not_tagged_escape letter
    ((letters.flatMap fun letter => (escape letter).toList) ++ rest) fun first member => ?_
  rw [toList_text, shape, List.flatMap_cons, List.append_assoc, toList_element] at same
  rw [same] at member
  exact (Option.some.inj member).symm

/-- The name of a tag ends where its attributes or the tag do. -/
theorem tag_split {first second : String} {written others : List Attribute} {rest tail : List Char}
    (left : IsName first) (right : IsName second)
    (same : first.toList ++ ((written.flatMap fun one => (attributeMarkup one).toList) ++ '>' :: rest) =
      second.toList ++ ((others.flatMap fun one => (attributeMarkup one).toList) ++ '>' :: tail)) :
    first = second ∧ (written.flatMap fun one => (attributeMarkup one).toList) ++ '>' :: rest =
      (others.flatMap fun one => (attributeMarkup one).toList) ++ '>' :: tail := by
  have ends : ∀ (written : List Attribute) (rest : List Char), ∃ mark ∈ delimiters, ∃ more,
      (written.flatMap fun one => (attributeMarkup one).toList) ++ '>' :: rest = mark :: more := by
    intro written rest
    cases written with
    | nil => exact ⟨'>', by decide, rest, rfl⟩
    | cons one written =>
      obtain ⟨name, value, space⟩ := one
      rw [List.flatMap_cons, toList_attributeMarkup]
      exact ⟨' ', by decide, _, rfl⟩
  obtain ⟨mark, closes, more, shape⟩ := ends written rest
  obtain ⟨other, finish, further, shown⟩ := ends others tail
  rw [shape, shown] at same ⊢
  obtain ⟨names, marks, rests⟩ := name_split left right closes finish same
  exact ⟨names, by rw [marks, rests]⟩

/-- The markup of trees tells where they end, and which trees they are. The recursion is on the
first trees: their first one ends where the other first one does, and so do its children. -/
theorem forest_split : ∀ (first : List Tree) {second : List Tree} {rest others : List Char},
    AllPlain first → AllPlain second → Closed rest → Closed others →
    (markupAll first).toList ++ rest = (markupAll second).toList ++ others →
    first = second ∧ rest = others
  | [], [], rest, others, _, _, _, _, same => ⟨rfl, same⟩
  | [], tree :: second, rest, others, _, plain, closed, _, same => by
    rw [toList_nil, List.nil_append, toList_cons, List.append_assoc] at same
    exact absurd (same ▸ closed) (not_closed plain.1)
  | tree :: first, [], rest, others, plain, _, _, closed, same => by
    rw [toList_nil, List.nil_append, toList_cons, List.append_assoc] at same
    exact absurd (same ▸ closed) (not_closed plain.1)
  | .text content :: first, .text other :: second, rest, others, left, right, ended, closed, same => by
    rw [toList_cons, toList_cons, List.append_assoc, List.append_assoc] at same
    obtain ⟨texts, further⟩ := text_split (tagged_after left.2.1 (left.2.2 rfl) ended)
      (tagged_after right.2.1 (right.2.2 rfl) closed) same
    obtain ⟨forests, rests⟩ := forest_split first left.2.1 right.2.1 ended closed further
    exact ⟨by rw [texts, forests], rests⟩
  | .text content :: first, .element .. :: second, rest, others, left, right, ended, closed, same => by
    rw [toList_cons, toList_cons, List.append_assoc, List.append_assoc] at same
    exact absurd same (text_ne_element left.1)
  | .element .. :: first, .text content :: second, rest, others, left, right, ended, closed, same => by
    rw [toList_cons, toList_cons, List.append_assoc, List.append_assoc] at same
    exact absurd same.symm (text_ne_element right.1)
  | .element tag attributes children :: first, .element name written nodes :: second, rest, others,
      left, right, ended, closed, same => by
    obtain ⟨⟨named, attributed, below⟩, further, -⟩ := left
    obtain ⟨⟨called, decorated, inside⟩, beyond, -⟩ := right
    rw [toList_cons, toList_cons, toList_element, toList_element] at same
    simp only [List.cons_append, List.append_assoc, List.cons.injEq, true_and, List.nil_append] at same
    obtain ⟨rfl, tagged⟩ := tag_split named called same
    obtain ⟨rfl, opened⟩ := attributes_split attributes attributed decorated tagged
    obtain ⟨rfl, filled⟩ :=
      forest_split children below inside (.inr ⟨_, rfl⟩) (.inr ⟨_, rfl⟩) opened
    have left := List.append_cancel_left (List.cons.inj (List.cons.inj filled).2).2
    obtain ⟨rfl, rests⟩ := forest_split first further beyond ended closed (List.cons.inj left).2
    exact ⟨rfl, rests⟩

/-- The trees that the markup of a tree shows. A document shows what is in it. -/
def shown : Tree → List Tree
  | all children => children
  | tree => [tree]

theorem markupAll_shown (tree : Tree) : markupAll tree.shown = tree.markup := by
  cases tree with
  | all children => rw [shown, markup]
  | _ => simp [shown, markupAll]

theorem shown_unique {tree other : Tree} (plain : AllPlain tree.shown)
    (unadorned : AllPlain other.shown) (same : tree.markup = other.markup) :
    tree.shown = other.shown := by
  rw [← markupAll_shown, ← markupAll_shown] at same
  exact (forest_split tree.shown plain unadorned (.inl rfl) (.inl rfl) (by rw [same])).1

/-! Trees of nodes -/

mutual

/-- The node and those below it make up the tree. -/
def Stands (dom : Dom) : Tree → NodeId → Prop
  | element tag attributes children, id => ∃ node, dom.nodes[id]? = some node ∧
      node.data = .element tag attributes ∧ AllStand dom children node.children
  | text content, id => ∃ node, dom.nodes[id]? = some node ∧ node.data = .text content
  | comment content, id => ∃ node, dom.nodes[id]? = some node ∧ node.data = .comment content
  | raw markup, id => ∃ node, dom.nodes[id]? = some node ∧ node.data = .raw markup
  | all children, id => ∃ node, dom.nodes[id]? = some node ∧ node.data = .document ∧
      AllStand dom children node.children

def AllStand (dom : Dom) : List Tree → List NodeId → Prop
  | [], nodes => nodes = []
  | first :: rest, nodes => ∃ id others, nodes = id :: others ∧ first.Stands dom id ∧
      AllStand dom rest others

end

variable {dom : Dom}

theorem Stands.inside {tree : Tree} {id : NodeId} (stands : tree.Stands dom id) :
    id < dom.nodes.size := by
  cases tree <;> obtain ⟨node, there, -⟩ := stands <;> exact (Array.getElem?_eq_some_iff.mp there).1

mutual

def height : Tree → Nat
  | element _ _ children => heightAll children + 1
  | all children => heightAll children + 1
  | text _ | comment _ | raw _ => 1

def heightAll : List Tree → Nat
  | [] => 0
  | first :: rest => max first.height (heightAll rest)

end

theorem height_pos (tree : Tree) : 0 < tree.height := by
  cases tree <;> simp [height]

mutual

theorem Stands.treeTo : ∀ (tree : Tree) {id : NodeId} {depth : Nat}, tree.Stands dom id →
    tree.height ≤ depth → dom.treeTo depth id = tree
  | tree, _, 0, _, deep => absurd (Nat.lt_of_lt_of_le tree.height_pos deep) (Nat.lt_irrefl 0)
  | element tag attributes children, id, depth + 1, ⟨node, there, data, below⟩, deep => by
    rw [Dom.treeTo, there]
    dsimp only
    rw [data]
    exact congrArg _ (AllStand.treeTo children below (Nat.le_of_succ_le_succ deep))
  | all children, id, depth + 1, ⟨node, there, data, below⟩, deep => by
    rw [Dom.treeTo, there]
    dsimp only
    rw [data]
    exact congrArg _ (AllStand.treeTo children below (Nat.le_of_succ_le_succ deep))
  | text content, id, depth + 1, ⟨node, there, data⟩, _ => by
    rw [Dom.treeTo, there]
    dsimp only
    rw [data]
  | comment content, id, depth + 1, ⟨node, there, data⟩, _ => by
    rw [Dom.treeTo, there]
    dsimp only
    rw [data]
  | raw markup, id, depth + 1, ⟨node, there, data⟩, _ => by
    rw [Dom.treeTo, there]
    dsimp only
    rw [data]

theorem AllStand.treeTo : ∀ (trees : List Tree) {nodes : List NodeId} {depth : Nat},
    AllStand dom trees nodes → heightAll trees ≤ depth → nodes.map (dom.treeTo depth) = trees
  | [], _, _, stand, _ => by
    cases stand
    rfl
  | first :: rest, _, depth, ⟨id, others, shape, here, below⟩, deep => by
    rw [heightAll, Nat.max_le] at deep
    rw [shape, List.map_cons, Stands.treeTo first here deep.1, AllStand.treeTo rest below deep.2]

end

/-- Nodes make up one tree only. -/
theorem Stands.unique {tree other : Tree} {id : NodeId} (stands : tree.Stands dom id)
    (again : other.Stands dom id) : tree = other :=
  (Stands.treeTo tree stands (Nat.le_max_left _ other.height)).symm.trans
    (Stands.treeTo other again (Nat.le_max_right _ _))

theorem length_le_size {path : List NodeId} (distinct : path.Nodup)
    (inside : ∀ id ∈ path, id < dom.nodes.size) : path.length ≤ dom.nodes.size := by
  have within : path ⊆ List.range dom.nodes.size := fun id member =>
    List.mem_range.mpr (inside id member)
  simpa using (distinct.subperm within).length_le

/-- The nodes of a path lie above a tree of some height. -/
structure Above (dom : Dom) (height : Nat) (path : List NodeId) : Prop where
  distinct : path.Nodup
  higher : ∀ id ∈ path, ∃ upper : Tree, upper.Stands dom id ∧ height < upper.height

theorem Above.mono {height lower : Nat} {path : List NodeId} (above : Above dom height path)
    (bound : lower ≤ height) : Above dom lower path where
  distinct := above.distinct
  higher := fun id member => by
    obtain ⟨upper, stands, higher⟩ := above.higher id member
    exact ⟨upper, stands, Nat.lt_of_le_of_lt bound higher⟩

theorem Above.length_le {height : Nat} {path : List NodeId} (above : Above dom height path) :
    path.length ≤ dom.nodes.size :=
  length_le_size above.distinct fun id member => by
    obtain ⟨upper, stands, -⟩ := above.higher id member
    exact stands.inside

/-- A node is not above itself. -/
theorem Above.cons {tree : Tree} {id : NodeId} {path : List NodeId} {lower : Nat}
    (above : Above dom tree.height path) (stands : tree.Stands dom id) (lowers : lower < tree.height) :
    Above dom lower (id :: path) where
  distinct := by
    refine List.nodup_cons.mpr ⟨fun member => ?_, above.distinct⟩
    obtain ⟨upper, again, higher⟩ := above.higher id member
    rw [stands.unique again] at higher
    exact Nat.lt_irrefl _ higher
  higher := by
    intro other member
    rcases List.mem_cons.mp member with rfl | member
    · exact ⟨tree, stands, lowers⟩
    · exact (above.mono (Nat.le_of_lt lowers)).higher other member

mutual

/-- No path from node to node is longer than there are nodes, since none comes back to a node. -/
theorem Stands.height_le : ∀ (tree : Tree) {id : NodeId} {path : List NodeId},
    tree.Stands dom id → Above dom tree.height path → tree.height + path.length ≤ dom.nodes.size
  | element tag attributes children, id, path, stands, above => by
    have longer := above.cons stands (Nat.lt_succ_self (heightAll children))
    obtain ⟨node, -, -, below⟩ := stands
    have bound := AllStand.height_le children below longer
    rw [List.length_cons] at bound
    rw [height]
    omega
  | all children, id, path, stands, above => by
    have longer := above.cons stands (Nat.lt_succ_self (heightAll children))
    obtain ⟨node, -, -, below⟩ := stands
    have bound := AllStand.height_le children below longer
    rw [List.length_cons] at bound
    rw [height]
    omega
  | text content, id, path, stands, above => by
    have longer := (above.cons stands (height_pos _)).length_le
    rw [List.length_cons] at longer
    rw [height]
    omega
  | comment content, id, path, stands, above => by
    have longer := (above.cons stands (height_pos _)).length_le
    rw [List.length_cons] at longer
    rw [height]
    omega
  | raw markup, id, path, stands, above => by
    have longer := (above.cons stands (height_pos _)).length_le
    rw [List.length_cons] at longer
    rw [height]
    omega

theorem AllStand.height_le : ∀ (trees : List Tree) {nodes path : List NodeId},
    AllStand dom trees nodes → Above dom (heightAll trees) path →
    heightAll trees + path.length ≤ dom.nodes.size
  | [], _, _, _, above => by
    rw [heightAll, Nat.zero_add]
    exact above.length_le
  | first :: rest, _, _, ⟨id, others, _, here, below⟩, above => by
    have left := Stands.height_le first here (above.mono (Nat.le_max_left _ _))
    have right := AllStand.height_le rest below (above.mono (Nat.le_max_right _ _))
    rw [heightAll]
    omega

end

theorem Stands.tree_eq {tree : Tree} {id : NodeId} (stands : tree.Stands dom id) :
    dom.tree id = tree :=
  Stands.treeTo tree stands (Stands.height_le tree stands ⟨List.nodup_nil, by simp⟩)

theorem Stands.outerMarkup {tree : Tree} {id : NodeId} (stands : tree.Stands dom id) :
    dom.outerMarkup id = .ok tree.markup := by
  unfold Dom.outerMarkup Dom.node
  rw [Array.getElem?_eq_getElem stands.inside, stands.tree_eq]
  rfl

/-- Two trees of elements and texts with the same markup are the same tree: the same tags, the same
attributes with values and namespaces in the same order, the same children in the same order. Only a
document has no markup of its own, and shows what is in it. In particular neither a text nor a value
can stand for a tag, and no value ends before its quote. -/
theorem markup_unambiguous {dom others : Dom} {id other : NodeId} {tree twin : Tree}
    (stands : tree.Stands dom id) (twinStands : twin.Stands others other)
    (plain : AllPlain tree.shown) (twinPlain : AllPlain twin.shown)
    (same : dom.outerMarkup id = others.outerMarkup other) :
    tree.shown = twin.shown ∧
    (((∃ trees, tree = all trees) ↔ ∃ trees, twin = all trees) → tree = twin) ∧
    (∀ content : String, ∀ mark ∈ ['<', '>'], mark ∉ (escapeAll escape content).toList) ∧
    ∀ value : String, ∀ mark ∈ ['<', '>', '"'], mark ∉ (escapeAll escapeQuoted value).toList := by
  rw [stands.outerMarkup, twinStands.outerMarkup] at same
  have shown := shown_unique plain twinPlain (Except.ok.inj same)
  refine ⟨shown, fun alike => ?_, ?_, ?_⟩
  · cases tree with
    | all trees =>
      obtain ⟨others, rfl⟩ := alike.mp ⟨trees, rfl⟩
      exact congrArg all shown
    | _ =>
      cases twin with
      | all others =>
        obtain ⟨trees, impossible⟩ := alike.mpr ⟨others, rfl⟩
        cases impossible
      | _ => exact (List.cons.inj shown).1
  · intro content mark member inside
    rw [toList_escapeAll, List.mem_flatMap] at inside
    obtain ⟨letter, -, inside⟩ := inside
    have bare := escape_bare letter
    simp only [List.mem_cons, List.not_mem_nil, or_false] at member
    rcases member with rfl | rfl
    · exact bare.1 inside
    · exact bare.2 inside
  · intro value mark member inside
    rw [toList_escapeAll, List.mem_flatMap] at inside
    obtain ⟨letter, -, inside⟩ := inside
    have bare := escapeQuoted_bare letter
    simp only [List.mem_cons, List.not_mem_nil, or_false] at member
    rcases member with rfl | rfl | rfl
    · exact bare.1 inside
    · exact bare.2.1 inside
    · exact bare.2.2 inside

/-- A paragraph with a quote in its title and a bracket in its text. -/
def titled : Tree :=
  element "p" [⟨"title", "a \"quote\"", none⟩, ⟨"href", "#", some "xlink"⟩] [text "1 < 2"]

/-- The paragraph in a tree where it came before its text, and in one where it came after it. -/
def titledEarly : Dom where
  nodes := #[⟨.document, none, [1]⟩,
    ⟨.element "p" [⟨"title", "a \"quote\"", none⟩, ⟨"href", "#", some "xlink"⟩], some 0, [2]⟩,
    ⟨.text "1 < 2", some 1, []⟩]

def titledLate : Dom where
  nodes := #[⟨.document, none, [2]⟩, ⟨.text "1 < 2", some 2, []⟩,
    ⟨.element "p" [⟨"title", "a \"quote\"", none⟩, ⟨"href", "#", some "xlink"⟩], some 0, [1]⟩]

theorem titled_plain : AllPlain titled.shown := by
  have p : IsName "p" := isName_of_alphanum (by decide) (by decide)
  have title : IsName "title" := isName_of_alphanum (by decide) (by decide)
  have href : IsName "href" := isName_of_alphanum (by decide) (by decide)
  have xlink : IsName "xlink" := isName_of_alphanum (by decide) (by decide)
  simp [titled, shown, AllPlain, Plain, Named, isText, p, title, href, xlink]

theorem markup_unambiguous_titled :
    titledEarly.outerMarkup 1 = titledLate.outerMarkup 2 ∧ titledEarly.tree 1 = titledLate.tree 2 := by
  have early : titled.Stands titledEarly 1 := ⟨_, rfl, rfl, 2, [], rfl, ⟨_, rfl, rfl⟩, rfl⟩
  have late : titled.Stands titledLate 2 := ⟨_, rfl, rfl, 1, [], rfl, ⟨_, rfl, rfl⟩, rfl⟩
  have same : titledEarly.outerMarkup 1 = titledLate.outerMarkup 2 := by
    rw [early.outerMarkup, late.outerMarkup]
  have earlyTree := early.tree_eq
  have lateTree := late.tree_eq
  rw [← earlyTree] at early
  rw [← lateTree] at late
  have kind : (∃ trees, titledEarly.tree 1 = all trees) ↔
      ∃ trees, titledLate.tree 2 = all trees := by rw [earlyTree, lateTree]
  exact ⟨same, (markup_unambiguous early late (earlyTree.symm ▸ titled_plain)
    (lateTree.symm ▸ titled_plain) same).2.1 kind⟩

end Tree

end LiveTemplate
